import IcNameService.Core.Lines
import IcNameService.Directory.Texts

/-!
# The index holds the tags of the stored records

A stored "tags" value passed `checkTags` on its way in, so each of its tags is a segment and holds no
NUL.  A key of the index then stands for one tag and one name, and what a commit takes out of the index
is what the record it replaces had put in.

* `key_injective` — keys of tags without a NUL.
* `State.Indexed` — the keys of the index are those of the tags of the stored records.
* `World.run_indexed` — in every state reached.
-/

/-! ## Writing a list of keys -/

namespace OrdMap

variable {κ α β : Type*} [LinearOrder κ]

lemma contains_insert {m : OrdMap κ α} {k k' : κ} {a : α} :
    (m.insert k a).contains k' = true ↔ k' = k ∨ m.contains k' = true := by
  rw [contains, get_insert]
  split_ifs with h <;> simp [contains, h]

lemma contains_erase {m : OrdMap κ α} {k k' : κ} :
    (m.erase k).contains k' = true ↔ k' ≠ k ∧ m.contains k' = true := by
  rw [contains, get_erase]
  split_ifs with h <;> simp [contains, h]

lemma contains_iff {m : OrdMap κ α} {k : κ} : m.contains k = true ↔ ∃ a, m.get k = some a := by
  rw [contains, Option.isSome_iff_exists]

lemma mem_keys {m : OrdMap κ α} {k : κ} : k ∈ m.keys ↔ m.contains k = true := by
  rw [contains_iff]
  constructor
  · intro h
    obtain ⟨⟨k', a⟩, he, rfl⟩ := List.mem_map.mp h
    exact ⟨a, mem_entries.mp he⟩
  · rintro ⟨a, ha⟩
    exact List.mem_map.mpr ⟨(k, a), mem_entries.mpr ha, rfl⟩

lemma contains_foldl_insert (f : β → κ) (a : α) (k : κ) : ∀ (l : List β) (m : OrdMap κ α),
    (l.foldl (fun t b => t.insert (f b) a) m).contains k = true ↔
      m.contains k = true ∨ ∃ b ∈ l, k = f b
  | [], m => by simp
  | b :: l, m => by
      rw [List.foldl_cons, contains_foldl_insert f a k l, contains_insert]
      simp only [List.mem_cons, exists_eq_or_imp]
      tauto

lemma contains_foldl_erase (f : β → κ) (k : κ) : ∀ (l : List β) (m : OrdMap κ α),
    (l.foldl (fun t b => t.erase (f b)) m).contains k = true ↔
      m.contains k = true ∧ ¬ ∃ b ∈ l, k = f b
  | [], m => by simp
  | b :: l, m => by
      rw [List.foldl_cons, contains_foldl_erase f k l, contains_erase]
      simp only [List.mem_cons, exists_eq_or_imp, not_or, ne_eq]
      tauto

end OrdMap

/-! ## Keys -/

namespace Names

/-- What passes the pass over the tags: each one a segment. -/
lemma collectTags_ok : ∀ {l acc tags : List String}, collectTags acc l = .ok tags →
    ∀ tag ∈ l, checkSegment "tag" tag = .ok ()
  | [], _, _, _ => by simp
  | t :: l, acc, tags, h => by
      obtain ⟨_, hsegment, h⟩ := Except.bind_eq_ok.mp h
      split_ifs at h
      intro tag hmem
      rcases List.mem_cons.mp hmem with rfl | hmem
      · exact hsegment
      · exact collectTags_ok h tag hmem

lemma checkTags_ok {value : String} {tags : List String} (h : checkTags value = .ok tags) :
    ∀ tag ∈ splitChar value ',', checkSegment "tag" tag = .ok () := by
  obtain ⟨_, hcollect, -⟩ := Except.bind_eq_ok.mp h
  exact collectTags_ok hcollect

/-- Every "tags" value passed its check. -/
def TagText (text : Text) : Prop := ∀ v, ("tags", v) ∈ text → ∃ tags, checkTags v = .ok tags

end Names

namespace Directory

lemma key_toList (tag name : String) : (key tag name).toList = tag.toList ++ '\x00' :: name.toList := by
  simp [key]

/-- A segment has no NUL; indeed every character of it comes after NUL. -/
lemma nul_lt_of_segment {what s : String} (h : Names.checkSegment what s = .ok ()) :
    ∀ c ∈ s.toList, '\x00' < c := by
  intro c hc
  obtain ⟨-, -, hall⟩ := Names.checkSegment_ok h
  have hne : c ≠ '\x00' := by
    rintro rfl
    exact absurd (hall _ hc) (by decide)
  have hpos : (0 : ℕ) < c.val.toNat :=
    Nat.pos_of_ne_zero fun h0 => hne (Char.ext (UInt32.toNat_inj.mp h0))
  exact hpos

/-- No NUL inside. -/
def NoNul (s : String) : Prop := '\x00' ∉ s.toList

lemma noNul_of_segment {what s : String} (h : Names.checkSegment what s = .ok ()) : NoNul s :=
  fun hmem => absurd (nul_lt_of_segment h _ hmem) (lt_irrefl _)

/-- **Keys of tags without a NUL are distinct.** -/
theorem key_injective {tag tag' name name' : String} (ht : NoNul tag) (ht' : NoNul tag')
    (h : key tag name = key tag' name') : tag = tag' ∧ name = name' := by
  have hlist := congrArg String.toList h
  rw [key_toList, key_toList] at hlist
  obtain ⟨htag, hname⟩ := List.append_cons_cancel ht ht' hlist
  exact ⟨String.toList_inj.mp htag, String.toList_inj.mp hname⟩

/-- The tags of a checked text are segments. -/
lemma segment_of_mem_tagsOf {r : Record} (h : Names.TagText r.text) {tag : String}
    (hmem : tag ∈ tagsOf r) : Names.checkSegment "tag" tag = .ok () := by
  simp only [tagsOf, Names.textGet] at hmem
  cases hfind : r.text.find? fun e => e.1 = "tags" with
  | none => simp [hfind] at hmem
  | some e =>
      obtain ⟨k, v⟩ := e
      have hk : k = "tags" := by simpa using List.find?_some hfind
      subst hk
      simp only [hfind, Option.map_some] at hmem
      obtain ⟨tags, htags⟩ := h v (List.mem_of_find?_eq_some hfind)
      exact Names.checkTags_ok htags tag hmem

end Directory

namespace State

variable {E : Env}

/-! ## Only checked tags are stored -/

lemma tagText_writers : TextWriters E Names.TagText where
  empty v hmem := by cases hmem
  cleared h v hmem := h v (Names.mem_clearProvenance.mp hmem).1
  owner {text text' key value} h hcheck htext v hmem := by
    obtain ⟨-, -, hiff⟩ := Names.setOwnerText_ok htext
    rcases (hiff _).mp hmem with ⟨rfl, rfl⟩ | ⟨-, hmem⟩
    · obtain ⟨_, -, hcheck⟩ := Except.bind_eq_ok.mp hcheck
      obtain ⟨_, -, hcheck⟩ := Except.bind_eq_ok.mp hcheck
      rw [if_pos rfl] at hcheck
      obtain ⟨tags, htags, -⟩ := Except.bind_eq_ok.mp hcheck
      exact ⟨tags, htags⟩
    · exact h v hmem
  announced {text cx a} h _ _ _ v hmem := by
    rcases Names.mem_setProvenance.mp hmem with hmem | ⟨hmem, -⟩
    · have hkey := List.mem_map_of_mem (f := Prod.fst) hmem
      rw [Names.Provenance.keys_records] at hkey
      exact absurd (show "tags" ∈ Names.provenanceKeys from hkey) (by decide)
    · exact h v hmem

/-! ## One write -/

variable {s : State E}

/-- The keys of the index are those of the tags of the stored records. -/
def Indexed (s : State E) : Prop :=
  ∀ k, s.tags.contains k = true ↔
    ∃ name r, s.records.get name = some r ∧ ∃ tag ∈ Directory.tagsOf r, k = Directory.key tag name

lemma contains_index (r : Record) (k : String) : (s.index r).tags.contains k = true ↔
    s.tags.contains k = true ∨ ∃ tag ∈ Directory.tagsOf r, k = Directory.key tag r.name :=
  OrdMap.contains_foldl_insert _ _ _ _ _

lemma contains_unindex (r : Record) (k : String) : (s.unindex r).tags.contains k = true ↔
    s.tags.contains k = true ∧ ¬ ∃ tag ∈ Directory.tagsOf r, k = Directory.key tag r.name :=
  OrdMap.contains_foldl_erase _ _ _ _

/-- A record taken out of the index leaves the keys of the other names. -/
lemma Indexed.contains_unindex (h : s.Indexed) (hT : s.AllTexts Names.TagText) {name : String}
    {r : Record} (hget : s.records.get name = some r) {r' : Record} (hname : r'.name = name)
    (htext : r'.text = r.text) (k : String) :
    (s.unindex r').tags.contains k = true ↔
      ∃ other x, other ≠ name ∧ s.records.get other = some x ∧
        ∃ tag ∈ Directory.tagsOf x, k = Directory.key tag other := by
  have htags : Directory.tagsOf r' = Directory.tagsOf r := by simp only [Directory.tagsOf, htext]
  rw [State.contains_unindex, h k, htags, hname]
  constructor
  · rintro ⟨⟨other, x, hx, tag, htag, rfl⟩, hnot⟩
    refine ⟨other, x, ?_, hx, tag, htag, rfl⟩
    rintro rfl
    rw [hget] at hx
    cases hx
    exact hnot ⟨tag, htag, rfl⟩
  · rintro ⟨other, x, hne, hx, tag, htag, rfl⟩
    refine ⟨⟨other, x, hx, tag, htag, rfl⟩, ?_⟩
    rintro ⟨tag', htag', hkey⟩
    have hnul := Directory.noNul_of_segment (Directory.segment_of_mem_tagsOf (hT _ _ hx) htag)
    have hnul' := Directory.noNul_of_segment (Directory.segment_of_mem_tagsOf (hT _ _ hget) htag')
    exact hne (Directory.key_injective hnul hnul' hkey).2

/-- The same, of whatever is stored under the name. -/
lemma Indexed.contains_unindexStored (h : s.Indexed) (hn : s.Named) (hT : s.AllTexts Names.TagText)
    (name k : String) : (s.unindexStored name).tags.contains k = true ↔
      ∃ other x, other ≠ name ∧ s.records.get other = some x ∧
        ∃ tag ∈ Directory.tagsOf x, k = Directory.key tag other := by
  cases hget : s.records.get name with
  | some old =>
      have hunindexed : (s.unindexStored name).tags = (s.unindex old).tags := by
        simp only [unindexStored, getRecord, hget]
      rw [hunindexed]
      exact h.contains_unindex hT hget (hn name old hget) rfl k
  | none =>
      have hunindexed : (s.unindexStored name).tags = s.tags := by
        simp only [unindexStored, getRecord, hget]
      rw [hunindexed, h k]
      constructor
      · rintro ⟨other, x, hx, htag⟩
        refine ⟨other, x, ?_, hx, htag⟩
        rintro rfl
        rw [hget] at hx
        cases hx
      · rintro ⟨other, x, -, hx, htag⟩
        exact ⟨other, x, hx, htag⟩

lemma Indexed.commit (h : s.Indexed) (hn : s.Named) (hT : s.AllTexts Names.TagText) (r : Record) :
    (s.commit r).Indexed := by
  intro k
  change ((s.unindexStored r.name).index r).tags.contains k = true ↔ _
  rw [contains_index, h.contains_unindexStored hn hT]
  simp only [commit_records, OrdMap.get_insert]
  constructor
  · rintro (⟨other, x, hne, hx, htag⟩ | ⟨tag, htag, rfl⟩)
    · exact ⟨other, x, by rw [if_neg hne]; exact hx, htag⟩
    · exact ⟨r.name, r, by rw [if_pos rfl], tag, htag, rfl⟩
  · rintro ⟨other, x, hx, tag, htag, rfl⟩
    split_ifs at hx with hname
    · cases hx
      exact Or.inr ⟨tag, htag, by rw [hname]⟩
    · exact Or.inl ⟨other, x, hname, hx, tag, htag, rfl⟩

lemma Indexed.discard (h : s.Indexed) (hT : s.AllTexts Names.TagText) {name : String}
    {old r : Record} (hget : s.records.get name = some old) (hname : r.name = name)
    (htext : r.text = old.text) : (((s.eraseRecord name).unindex r).certifyRemove name).Indexed := by
  intro k
  change (s.unindex r).tags.contains k = true ↔ _
  rw [h.contains_unindex hT hget hname htext]
  change _ ↔ ∃ other x, (s.records.erase name).get other = some x ∧ _
  simp only [OrdMap.get_erase]
  constructor
  · rintro ⟨other, x, hne, hx, htag⟩
    exact ⟨other, x, by rw [if_neg hne]; exact hx, htag⟩
  · rintro ⟨other, x, hx, htag⟩
    split_ifs at hx with hne
    exact ⟨other, x, hne, hx, htag⟩

/-- **The index and what it relies on.** -/
structure Catalogued (s : State E) : Prop where
  named : s.Named
  texts : s.AllTexts Names.TagText
  indexed : s.Indexed

lemma catalogued_invariant : IndexInvariant Names.TagText (Catalogued (E := E)) where
  texts s name r h hget := h.texts name r hget
  same s s' hrecords htags h := by
    refine ⟨fun name r hget => h.named name r (hrecords ▸ hget),
      fun name r hget => h.texts name r (hrecords ▸ hget), fun k => ?_⟩
    rw [htags, hrecords]
    exact h.indexed k
  commit s r h hr :=
    ⟨named_invariant.commit s r h.named, (allTexts_invariant _).commit s r h.texts hr,
      h.indexed.commit h.named h.texts r⟩
  discard s name old r h hget hname htext :=
    ⟨named_invariant.discard s name r h.named,
      (allTexts_invariant _).discard s name old r h.texts hget hname htext,
      h.indexed.discard h.texts hget (hname.trans (h.named name old hget)) htext⟩

/-- With no record and no key there is nothing out of step. -/
lemma catalogued_of_empty (hrecords : s.records = OrdMap.empty) (htags : s.tags = OrdMap.empty) :
    s.Catalogued := by
  refine ⟨?_, ?_, fun k => ⟨?_, ?_⟩⟩
  · intro name r hget
    rw [hrecords] at hget
    cases hget
  · intro name r hget
    rw [hrecords] at hget
    cases hget
  · intro hk
    rw [htags] at hk
    cases hk
  · rintro ⟨name, r, hget, -⟩
    rw [hrecords] at hget
    cases hget

end State

namespace World

variable {E : Env} {ok : World E → Event → Prop} {w : World E} {tr : History E}

/-- **In every state reached the index holds the tags of the stored records.** -/
theorem run_catalogued (h : Run (machine E) ok init tr w) : w.canister.Catalogued :=
  run_invariant (I := fun w => w.canister.Catalogued) rfl (State.catalogued_of_empty rfl rfl)
    (fun _ _ _ _ hi _ hs => State.catalogued_invariant.stepped State.tagText_writers hi hs) h

end World
