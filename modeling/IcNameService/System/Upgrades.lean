import IcNameService.Directory.Index
import IcNameService.Resolution.Mirror

/-!
# Upgrades

Four schema versions start from different memories, and each runs the migrations it needs.  The marker
records are dropped before the tree is rebuilt, the index is rebuilt only where the memory has none,
and a config of schema 2 is rewritten in the current shape.

* `StableFrame` — what no migration touches.
* `migrateAnnounceMarker_get` — every record, without its two announce keys.
* `rebuildIndex_indexed` — a rebuilt index holds the tags of the stored records.
* `Upgraded` — the memory an upgrade leaves; `post_upgrade_migrates` proves it of every version.
-/

namespace State

variable {E : Env} {s s' s'' : State E}

/-! ## What no migration touches -/

/-- **The frame of an upgrade**: the stable memory besides the records, the index, the Harberger config
and the marker. -/
structure StableFrame (s s' : State E) : Prop where
  handles : s'.handles = s.handles
  deployers : s'.deployers = s.deployers
  domains : s'.domains = s.domains
  taxCollected : s'.taxCollected = s.taxCollected
  taxWithdrawn : s'.taxWithdrawn = s.taxWithdrawn
  unreconciled : s'.unreconciled = s.unreconciled
  unreconciledLast : s'.unreconciledLast = s.unreconciledLast
  auctionConfig : s'.auctionConfig = s.auctionConfig
  proceeds : s'.proceeds = s.proceeds
  credits : s'.credits = s.credits
  auctions : s'.auctions = s.auctions

namespace StableFrame

lemma refl (s : State E) : StableFrame s s := ⟨rfl, rfl, rfl, rfl, rfl, rfl, rfl, rfl, rfl, rfl, rfl⟩

lemma trans (h₁ : StableFrame s s') (h₂ : StableFrame s' s'') : StableFrame s s'' where
  handles := h₂.handles.trans h₁.handles
  deployers := h₂.deployers.trans h₁.deployers
  domains := h₂.domains.trans h₁.domains
  taxCollected := h₂.taxCollected.trans h₁.taxCollected
  taxWithdrawn := h₂.taxWithdrawn.trans h₁.taxWithdrawn
  unreconciled := h₂.unreconciled.trans h₁.unreconciled
  unreconciledLast := h₂.unreconciledLast.trans h₁.unreconciledLast
  auctionConfig := h₂.auctionConfig.trans h₁.auctionConfig
  proceeds := h₂.proceeds.trans h₁.proceeds
  credits := h₂.credits.trans h₁.credits
  auctions := h₂.auctions.trans h₁.auctions

lemma ite {c : Prop} [Decidable c] (h : StableFrame s s') (h' : StableFrame s s'') :
    StableFrame s (if c then s' else s'') := by
  split_ifs
  · exact h
  · exact h'

lemma putRecord (s : State E) (r : Record) : StableFrame s (s.putRecord r) :=
  ⟨rfl, rfl, rfl, rfl, rfl, rfl, rfl, rfl, rfl, rfl, rfl⟩

lemma index (s : State E) (r : Record) : StableFrame s (s.index r) :=
  ⟨rfl, rfl, rfl, rfl, rfl, rfl, rfl, rfl, rfl, rfl, rfl⟩

/-- A fold of steps that keep the frame. -/
lemma foldl {α : Type} {f : State E → α → State E} (hf : ∀ s a, StableFrame s (f s a)) :
    ∀ (l : List α) (s : State E), StableFrame s (l.foldl f s)
  | [], s => refl s
  | a :: l, s => (hf s a).trans (foldl hf l _)

lemma migrateAnnounceMarker (s : State E) : StableFrame s s.migrateAnnounceMarker :=
  foldl putRecord _ s

lemma rebuildIndex (s : State E) : StableFrame s s.rebuildIndex :=
  (show StableFrame s { s with tags := OrdMap.empty } from
    ⟨rfl, rfl, rfl, rfl, rfl, rfl, rfl, rfl, rfl, rfl, rfl⟩).trans (foldl index _ _)

lemma migrateConfigFromV2 (s : State E) (c : Option ConfigV2) :
    StableFrame s (s.migrateConfigFromV2 c) := by
  cases c with
  | none => exact refl s
  | some c => exact ⟨rfl, rfl, rfl, rfl, rfl, rfl, rfl, rfl, rfl, rfl, rfl⟩

end StableFrame

/-! ## The records -/

/-- Records of distinct names, put one after the other. -/
lemma get_foldl_putRecord {name : String} {r : Record} : ∀ {l : List Record} {s : State E},
    (l.map Record.name).Nodup → ((l.foldl putRecord s).records.get name = some r ↔
      (r ∈ l ∧ r.name = name) ∨ (name ∉ l.map Record.name ∧ s.records.get name = some r))
  | [], s, _ => by simp
  | x :: l, s, h => by
      rw [List.map_cons, List.nodup_cons] at h
      rw [List.foldl_cons, get_foldl_putRecord h.2]
      change _ ∨ (_ ∧ (s.records.insert x.name x).get name = some r) ↔ _
      simp only [OrdMap.get_insert, List.mem_cons, List.map_cons, not_or]
      by_cases hname : name = x.name
      · subst hname
        simp only [if_true, Option.some.injEq, not_true_eq_false, false_and, or_false]
        constructor
        · rintro (⟨hmem, hr⟩ | ⟨-, rfl⟩)
          · exact ⟨Or.inr hmem, hr⟩
          · exact ⟨Or.inl rfl, rfl⟩
        · rintro ⟨rfl | hmem, hr⟩
          · exact Or.inr ⟨h.1, rfl⟩
          · exact Or.inl ⟨hmem, hr⟩
      · simp only [hname, not_false_eq_true, true_and]
        constructor
        · rintro (⟨hmem, hr⟩ | hrest)
          · exact Or.inl ⟨Or.inr hmem, hr⟩
          · exact Or.inr hrest
        · rintro (⟨rfl | hmem, hr⟩ | hrest)
          · exact absurd hr.symm hname
          · exact Or.inl ⟨hmem, hr⟩
          · exact Or.inr hrest

/-- A record that has no announce key is left as it is. -/
lemma dropMarker_eq_self {r : Record}
    (h : ¬ (r.text.any fun e => Names.announceKeys.contains e.1) = true) : dropMarker r = r := by
  have hfilter : (r.text.filter fun e => !Names.announceKeys.contains e.1) = r.text :=
    List.filter_eq_self.mpr fun e he => by
      cases hkey : Names.announceKeys.contains e.1 with
      | true => exact absurd (List.any_eq_true.mpr ⟨e, he, hkey⟩) h
      | false => rfl
  simp only [dropMarker, hfilter]

/-- **Every record is left without its two announce keys.** -/
theorem migrateAnnounceMarker_get (hn : s.Named) (name : String) :
    s.migrateAnnounceMarker.records.get name = (s.records.get name).map dropMarker := by
  have hmem : ∀ {r : Record}, r ∈ (s.records.values.filter fun r =>
      r.text.any fun e => Names.announceKeys.contains e.1).map dropMarker ↔
      ∃ x, (s.records.get x.name = some x ∧
        (x.text.any fun e => Names.announceKeys.contains e.1) = true) ∧ dropMarker x = r := by
    intro r
    simp only [List.mem_map, List.mem_filter, OrdMap.mem_values]
    constructor
    · rintro ⟨x, ⟨⟨other, hget⟩, hany⟩, rfl⟩
      exact ⟨x, ⟨by rw [hn other x hget]; exact hget, hany⟩, rfl⟩
    · rintro ⟨x, ⟨hget, hany⟩, rfl⟩
      exact ⟨x, ⟨⟨x.name, hget⟩, hany⟩, rfl⟩
  have hnodup : (((s.records.values.filter fun r =>
      r.text.any fun e => Names.announceKeys.contains e.1).map dropMarker).map Record.name).Nodup := by
    rw [List.map_map]
    have hsub := (List.filter_sublist (p := fun r : Record =>
      r.text.any fun e => Names.announceKeys.contains e.1) (l := s.records.values)).map Record.name
    rw [hn.map_name_values] at hsub
    exact s.records.keys_nodup.sublist hsub
  refine Option.ext fun r => ?_
  rw [migrateAnnounceMarker, get_foldl_putRecord hnodup, Option.map_eq_some_iff]
  constructor
  · rintro (⟨hr, rfl⟩ | ⟨hnot, hget⟩)
    · obtain ⟨x, ⟨hget, -⟩, rfl⟩ := hmem.mp hr
      exact ⟨x, hget, rfl⟩
    · refine ⟨r, hget, dropMarker_eq_self fun hany => hnot ?_⟩
      refine List.mem_map.mpr ⟨dropMarker r, hmem.mpr ⟨r, ⟨?_, hany⟩, rfl⟩, hn name r hget⟩
      rw [hn name r hget]
      exact hget
  · rintro ⟨x, hget, rfl⟩
    have hname := hn name x hget
    by_cases hany : (x.text.any fun e => Names.announceKeys.contains e.1) = true
    · exact Or.inl ⟨hmem.mpr ⟨x, ⟨by rw [hname]; exact hget, hany⟩, rfl⟩, hname⟩
    · refine Or.inr ⟨fun hin => ?_, by rw [dropMarker_eq_self hany]; exact hget⟩
      obtain ⟨y, hy, hyname⟩ := List.mem_map.mp hin
      obtain ⟨z, ⟨hz, hzany⟩, rfl⟩ := hmem.mp hy
      rw [show z.name = name from hyname, hget] at hz
      cases hz
      exact hany hzany

/-! ## The index -/

/-- The tags of a record are not under an announce key. -/
lemma tagsOf_dropMarker (r : Record) : Directory.tagsOf (dropMarker r) = Directory.tagsOf r := by
  have hfind : ((dropMarker r).text.find? fun e => e.1 = "tags") =
      r.text.find? fun e => e.1 = "tags" := by
    rw [dropMarker, List.find?_filter]
    refine congrArg (fun p => r.text.find? p) (funext fun e => ?_)
    by_cases hkey : e.1 = "tags"
    · rw [hkey]
      rfl
    · simp [hkey]
  simp only [Directory.tagsOf, Names.textGet, hfind]

lemma contains_foldl_index (k : String) : ∀ (l : List Record) (s : State E),
    (l.foldl index s).tags.contains k = true ↔ s.tags.contains k = true ∨
      ∃ r ∈ l, ∃ tag ∈ Directory.tagsOf r, k = Directory.key tag r.name
  | [], s => by simp
  | r :: l, s => by
      rw [List.foldl_cons, contains_foldl_index k l, contains_index]
      simp only [List.mem_cons, exists_eq_or_imp, or_assoc]

/-- **A rebuilt index holds the tags of the stored records.** -/
theorem rebuildIndex_indexed (hn : s.Named) : s.rebuildIndex.Indexed := by
  intro k
  rw [s.sameRecords_rebuildIndex.records]
  rw [rebuildIndex, contains_foldl_index]
  simp only [OrdMap.mem_values]
  constructor
  · rintro (hk | ⟨r, ⟨name, hget⟩, tag, htag, rfl⟩)
    · cases hk
    · exact ⟨name, r, hget, tag, htag, by rw [hn name r hget]⟩
  · rintro ⟨name, r, hget, tag, htag, rfl⟩
    exact Or.inr ⟨r, ⟨name, hget⟩, tag, htag, by rw [hn name r hget]⟩

/-- An index in step stays in step when tags and names do. -/
lemma Indexed.of_map (h : s.Indexed) {f : Record → Record}
    (hf : ∀ r, Directory.tagsOf (f r) = Directory.tagsOf r) (htags : s'.tags = s.tags)
    (hrecords : ∀ name, s'.records.get name = (s.records.get name).map f) : s'.Indexed := by
  intro k
  rw [htags, h k]
  simp only [hrecords, Option.map_eq_some_iff]
  constructor
  · rintro ⟨name, r, hget, tag, htag, rfl⟩
    exact ⟨name, f r, ⟨r, hget, rfl⟩, tag, by rwa [hf], rfl⟩
  · rintro ⟨name, -, ⟨r, hget, rfl⟩, tag, htag, rfl⟩
    exact ⟨name, r, hget, tag, by rwa [hf] at htag, rfl⟩

/-! ## The steps of an upgrade -/

/-- The records are migrated before schema 4. -/
def migrated (s : State E) : State E :=
  if s.schemaVersion < 4 then s.resetHeap.migrateAnnounceMarker else s.resetHeap

/-- The index is refilled before schema 2. -/
def reindexed (v : ℕ) (s : State E) : State E := if v < 2 then s.rebuildIndex else s

/-- The config is rewritten before schema 3. -/
def reconfigured (v : ℕ) (v2 : Option ConfigV2) (s : State E) : State E :=
  if v < 3 then s.migrateConfigFromV2 v2 else s

/-- What an upgrade runs. -/
lemma postUpgrade_ok {v2 : Option ConfigV2} (h : s.postUpgrade v2 = .ok s') :
    s' = (reconfigured s.schemaVersion v2
      (reindexed s.schemaVersion s.migrated.certifyRebuild)).setSchemaVersion schemaCurrent := by
  simp only [postUpgrade] at h
  split at h
  · cases h
  · exact (Except.ok.inj h).symm

/-- Dropping the announce keys, key by key. -/
lemma dropMarker_eq (r : Record) : dropMarker r =
    { r with text := r.text.filter fun e => e.1 ≠ "deployer" ∧ e.1 ≠ "announced_ns" } := by
  have hfilter : (r.text.filter fun e => !Names.announceKeys.contains e.1) =
      r.text.filter fun e => e.1 ≠ "deployer" ∧ e.1 ≠ "announced_ns" :=
    List.filter_congr fun e _ => by simp [Names.announceKeys]
  simp only [dropMarker, hfilter]

lemma migrated_get (hn : s.Named) (name : String) :
    s.migrated.records.get name = (s.records.get name).map fun r =>
      if s.schemaVersion < 4 then dropMarker r else r := by
  rw [migrated]
  split_ifs
  · exact migrateAnnounceMarker_get (s := s.resetHeap) hn name
  · rw [Option.map_id_fun']
    rfl

lemma migrated_named (hn : s.Named) : s.migrated.Named := by
  rw [migrated]
  split_ifs
  · exact Named.putRecords (s := s.resetHeap) hn _
  · exact hn

/-- A fold of steps that leave a field alone leaves it alone. -/
lemma field_foldl {α β : Type} {f : State E → α → State E} (field : State E → β)
    (hf : ∀ s a, field (f s a) = field s) : ∀ (l : List α) (s : State E), field (l.foldl f s) = field s
  | [], _ => rfl
  | a :: l, s => (field_foldl field hf l _).trans (hf s a)

lemma migrated_tags (s : State E) : s.migrated.tags = s.tags := by
  rw [migrated]
  split_ifs
  · exact field_foldl (f := putRecord) State.tags (fun _ _ => rfl) _ s.resetHeap
  · rfl

lemma migrated_harberger (s : State E) : s.migrated.harberger = s.harberger := by
  rw [migrated]
  split_ifs
  · exact field_foldl (f := putRecord) State.harberger (fun _ _ => rfl) _ s.resetHeap
  · rfl

lemma migrated_inFlight (s : State E) : s.migrated.inFlight = 0 := by
  rw [migrated]
  split_ifs
  · exact field_foldl (f := putRecord) State.inFlight (fun _ _ => rfl) _ s.resetHeap
  · rfl

lemma migrated_frame (s : State E) : StableFrame s s.migrated := by
  have hreset : StableFrame s s.resetHeap := ⟨rfl, rfl, rfl, rfl, rfl, rfl, rfl, rfl, rfl, rfl, rfl⟩
  exact .ite (hreset.trans (.migrateAnnounceMarker _)) hreset

lemma reindexed_harberger (v : ℕ) (s : State E) : (reindexed v s).harberger = s.harberger := by
  rw [reindexed]
  split_ifs
  · exact field_foldl (f := index) State.harberger (fun _ _ => rfl) _ _
  · rfl

lemma reindexed_inFlight (v : ℕ) (s : State E) : (reindexed v s).inFlight = s.inFlight := by
  rw [reindexed]
  split_ifs
  · exact field_foldl (f := index) State.inFlight (fun _ _ => rfl) _ _
  · rfl

lemma reconfigured_inFlight (v : ℕ) (v2 : Option ConfigV2) (s : State E) :
    (reconfigured v v2 s).inFlight = s.inFlight := by
  rw [reconfigured]
  split_ifs
  · cases v2 <;> rfl
  · rfl

lemma reconfigured_tags (v : ℕ) (v2 : Option ConfigV2) (s : State E) :
    (reconfigured v v2 s).tags = s.tags := by
  rw [reconfigured]
  split_ifs
  · cases v2 <;> rfl
  · rfl

/-- The steps after the tree is rebuilt touch neither the records nor the tree. -/
lemma sameRecords_rest (v : ℕ) (v2 : Option ConfigV2) (s : State E) :
    SameRecords s ((reconfigured v v2 (reindexed v s)).setSchemaVersion schemaCurrent) := by
  have hindex : SameRecords s (reindexed v s) := .ite s.sameRecords_rebuildIndex (.refl s)
  have hconfig : SameRecords (reindexed v s) (reconfigured v v2 (reindexed v s)) :=
    .ite ((reindexed v s).sameRecords_migrateConfigFromV2 v2) (.refl _)
  exact (hindex.trans hconfig).trans ⟨rfl, rfl, rfl⟩

/-- The index is in step after its step, whatever version it started from. -/
lemma reindexed_indexed (hn : s.Named) (h : 2 ≤ s.schemaVersion → s.Indexed) :
    (reindexed s.schemaVersion s.migrated.certifyRebuild).Indexed := by
  rw [reindexed]
  split_ifs with hv
  · exact rebuildIndex_indexed (s := s.migrated.certifyRebuild) (migrated_named hn)
  · refine (h (not_lt.mp hv)).of_map (f := fun r => if s.schemaVersion < 4 then dropMarker r else r)
      (fun r => ?_) (migrated_tags s) (migrated_get hn)
    split_ifs
    · exact tagsOf_dropMarker r
    · rfl

/-! ## The whole upgrade -/

/-- **The memory an upgrade leaves.** -/
structure Upgraded (m : StableMemory E) (s' : State E) : Prop where
  schema : s'.schema = some schemaCurrent
  /-- Before schema 4 the two announce keys go; everything else stays, the text in its order. -/
  records : ∀ name, s'.records.get name = (m.state.records.get name).map fun r =>
    if m.state.schemaVersion < 4 then
      { r with text := r.text.filter fun e => e.1 ≠ "deployer" ∧ e.1 ≠ "announced_ns" }
    else r
  indexed : s'.Indexed
  mirrored : s'.Mirrored
  /-- A config of schema 2 keeps its five fields. -/
  config : ∀ c, m.configV2 = some c → ∃ c', s'.harberger = some c' ∧ c'.ledger = c.ledger ∧
    c'.rateBps = c.rateBps ∧ c'.minPrice = c.minPrice ∧ c'.graceNs = c.graceNs ∧ c'.fee = c.fee
  otherConfig : m.configV2 = none → s'.harberger = m.state.harberger
  frame : StableFrame m.state s'

/-- **An upgrade of any version the code knows leaves the migrated memory.** -/
theorem upgraded_of_ok (hC : E.cert.CertLaws) {m : StableMemory E}
    (hindex : 2 ≤ m.state.schemaVersion → m.state.Indexed)
    (h : m.state.postUpgrade m.configV2 = .ok s') : Upgraded m s' := by
  have hsame := sameRecords_rest m.state.schemaVersion m.configV2 m.state.migrated.certifyRebuild
  rw [← postUpgrade_ok h] at hsame
  have hrecords : s'.records = m.state.migrated.records := hsame.records
  refine ⟨postUpgrade_schema h, fun name => ?_, ?_, ?_, fun c hc => ?_, fun hc => ?_, ?_⟩
  · simp only [hrecords, migrated_get m.named, dropMarker_eq]
  · refine (reindexed_indexed m.named hindex).of_map (f := id) (fun _ => rfl) ?_ fun name => ?_
    · rw [postUpgrade_ok h]
      exact reconfigured_tags _ _ _
    · rw [Option.map_id, id, hrecords]
      refine congrArg (fun m : OrdMap String Record => m.get name) ?_
      rw [reindexed]
      split_ifs
      · exact (sameRecords_rebuildIndex m.state.migrated.certifyRebuild).records.symm
      · rfl
  · exact (mirrored_invariant hC).same _ _ hsame (mirrored_rebuild hC _)
  · have hv := m.configV2_schema (by rw [hc]; rfl)
    refine ⟨c.migrate, ?_, rfl, rfl, rfl, rfl, rfl⟩
    rw [postUpgrade_ok h, reconfigured, if_pos hv, hc]
    rfl
  · rw [postUpgrade_ok h, hc]
    have hnone : ∀ t : State E, reconfigured m.state.schemaVersion none t = t := by
      intro t
      rw [reconfigured]
      split_ifs <;> rfl
    rw [hnone]
    exact (reindexed_harberger _ _).trans (migrated_harberger m.state)
  · rw [postUpgrade_ok h]
    have hrebuilt : StableFrame m.state.migrated m.state.migrated.certifyRebuild :=
      ⟨rfl, rfl, rfl, rfl, rfl, rfl, rfl, rfl, rfl, rfl, rfl⟩
    have hindexed := StableFrame.ite (c := m.state.schemaVersion < 2)
      (StableFrame.rebuildIndex m.state.migrated.certifyRebuild) (.refl _)
    have hconfigured := StableFrame.ite (c := m.state.schemaVersion < 3)
      (StableFrame.migrateConfigFromV2
        (reindexed m.state.schemaVersion m.state.migrated.certifyRebuild) m.configV2) (.refl _)
    have hmarked : ∀ t : State E, StableFrame t (t.setSchemaVersion schemaCurrent) :=
      fun t => ⟨rfl, rfl, rfl, rfl, rfl, rfl, rfl, rfl, rfl, rfl, rfl⟩
    exact ((((migrated_frame m.state).trans hrebuilt).trans hindexed).trans hconfigured).trans
      (hmarked _)

/-- A tree that was refilled from the records is refilled to itself. -/
lemma certifyRebuild_eq_self (htree : s.tree = s.certifyRebuild.tree)
    (hroot : s.certifiedData = s.certifyRebuild.certifiedData) : s.certifyRebuild = s := by
  cases s
  simp only [certifyRebuild, publish] at htree hroot ⊢
  rw [← htree] at hroot ⊢
  rw [hroot]

/-- **What an upgrade leaves, another upgrade leaves alone.** -/
theorem postUpgrade_idempotent {v2 : Option ConfigV2} (h : s.postUpgrade v2 = .ok s') :
    s'.postUpgrade none = .ok s' := by
  have hsame := sameRecords_rest s.schemaVersion v2 s.migrated.certifyRebuild
  rw [← postUpgrade_ok h] at hsame
  rw [postUpgrade_current (postUpgrade_schema h)]
  have hheap : s'.inFlight = 0 := by
    rw [postUpgrade_ok h]
    exact (reconfigured_inFlight _ _ _).trans
      ((reindexed_inFlight _ _).trans (migrated_inFlight s))
  have hreset : s'.resetHeap = s' := by
    cases s'
    simp only at hheap
    rw [resetHeap, hheap]
  have hrefilled : s'.certifyRebuild.tree = s.migrated.certifyRebuild.tree := by
    simp only [certifyRebuild, publish, hsame.records]
  have hself : s'.certifyRebuild = s' := by
    refine certifyRebuild_eq_self (hsame.tree.trans hrefilled.symm) ?_
    change s'.certifiedData = Certify.rootHash E s'.certifyRebuild.tree
    rw [hrefilled, hsame.certifiedData]
    rfl
  rw [hreset, hself]

/-- **Upgrades migrate without loss and settle at once.**  From any stable memory of a schema this code
knows, its index in step where its schema keeps one, `post_upgrade` leaves the migrated memory, and a
second one changes nothing; a newer schema traps. -/
theorem post_upgrade_migrates (hC : E.cert.CertLaws) (m : StableMemory E) :
    (m.state.schemaVersion ≤ schemaCurrent → (2 ≤ m.state.schemaVersion → m.state.Indexed) →
      ∃ s', m.state.postUpgrade m.configV2 = .ok s' ∧ Upgraded m s' ∧
        s'.postUpgrade none = .ok s') ∧
    (schemaCurrent < m.state.schemaVersion → ∃ e, m.state.postUpgrade m.configV2 = .error e) := by
  constructor
  · intro hv hindex
    have hok : ∃ s', m.state.postUpgrade m.configV2 = .ok s' := by
      simp only [postUpgrade, gt_iff_lt, if_neg (not_lt.mpr hv)]
      exact ⟨_, rfl⟩
    obtain ⟨s', h⟩ := hok
    exact ⟨s', h, upgraded_of_ok hC hindex h, postUpgrade_idempotent h⟩
  · intro hv
    simp only [postUpgrade, gt_iff_lt, if_pos hv]
    exact ⟨_, rfl⟩

/-- A memory of schema 2: a record whose owner wrote the announce keys, its tag in the index, and a
config without a market flag. -/
def oldRecord : Record :=
  { Record.new "h/x" ⟨[5]⟩ (.address ⟨[9]⟩) 7 with
    text := [("announced_ns", "1"), ("deployer", "d"), ("tags", "git")] }

/-- The memory of schema 2 before its first record. -/
def oldBlank : State Env.reference := { blank with schema := some 2 }

lemma catalogued_oldBlank : oldBlank.Catalogued := catalogued_of_empty rfl rfl

def oldMemory : StableMemory Env.reference where
  state := oldBlank.commit oldRecord
  configV2 := some ⟨⟨[8]⟩, 100, 5, 10, 2⟩
  named := named_invariant.commit oldBlank oldRecord catalogued_oldBlank.named
  configV2_schema := fun _ => by decide +kernel

theorem post_upgrade_migrates_old : ∃ s', oldMemory.state.postUpgrade oldMemory.configV2 = .ok s' ∧
    (s'.records.get "h/x").map Record.text = some [("tags", "git")] ∧
    s'.postUpgrade none = .ok s' := by
  have hblank := catalogued_oldBlank
  have hindexed : oldMemory.state.Indexed :=
    hblank.indexed.commit hblank.named hblank.texts oldRecord
  obtain ⟨s', h, hupgraded, hagain⟩ := (post_upgrade_migrates Reference.certification_certLaws
    oldMemory).1 (by decide +kernel) fun _ => hindexed
  refine ⟨s', h, ?_, hagain⟩
  rw [hupgraded.records]
  decide +kernel

end State
