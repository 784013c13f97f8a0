import IcNameService.Core.Machine
import IcNameService.Core.Since
import IcNameService.Core.Keyed
import IcNameService.Directory.Texts

/-!
# The shape of the text records

A list of text records has three writers: the owner, an announce, and the repoint that drops what was
announced.  Under any mix of them the keys stay strictly ascending, and the owner's own keys under
the cap; a "deployer" record stands from an announce to the next repoint, and locks the provenance.

* `Shaped` — the invariant; by it a write refused at the cap had no record to take out.
* `run_shaped`, `deployer_since` — every run of the three writers.
* `text_records_keep_shape` — what the writers promise, after any run of them.
* `World.run_shapedTexts` — so every stored text of the canister has the shape.
-/

namespace Names

/-! ## Reading a list with distinct keys -/

lemma textGet_eq_some {text : Text} (hnd : (text.map Prod.fst).Nodup) {key v : String} :
    textGet text key = some v ↔ (key, v) ∈ text := by
  simp only [textGet, Option.map_eq_some_iff, Keyed.find_eq_some_iff hnd]
  constructor
  · rintro ⟨⟨k, u⟩, ⟨hmem, rfl⟩, rfl⟩
    exact hmem
  · intro hmem
    exact ⟨(key, v), ⟨hmem, rfl⟩, rfl⟩

lemma mem_keys_iff {text : Text} {key : String} :
    key ∈ text.map Prod.fst ↔ textGet text key ≠ none := by
  simp [textGet]

/-- Two lists with the same records under a key read the same there. -/
lemma textGet_congr {text text' : Text} (hnd : (text.map Prod.fst).Nodup)
    (hnd' : (text'.map Prod.fst).Nodup) {key : String}
    (h : ∀ v, (key, v) ∈ text' ↔ (key, v) ∈ text) : textGet text' key = textGet text key :=
  Option.ext fun v => by rw [textGet_eq_some hnd', textGet_eq_some hnd, h]

/-! ## The shape -/

/-- The keys strictly ascending, the owner's own under the cap. -/
structure Shaped (text : Text) : Prop where
  ascending : text.Pairwise fun a b => a.1 < b.1
  owned_le : owned text ≤ maxTextRecords

lemma Shaped.nodup {text : Text} (h : Shaped text) : (text.map Prod.fst).Nodup := by
  rw [List.Nodup, List.pairwise_map]
  exact h.ascending.imp ne_of_lt

lemma Shaped.nil : Shaped [] := ⟨List.Pairwise.nil, Nat.zero_le _⟩

lemma Shaped.filter {text : Text} (h : Shaped text) (p : String × String → Bool) :
    Shaped (text.filter p) :=
  ⟨h.ascending.sublist List.filter_sublist,
    (List.Sublist.countP_le List.filter_sublist).trans h.owned_le⟩

lemma owned_sortByKey (text : Text) : owned (sortByKey text) = owned text :=
  (List.perm_insertionSort _ text).countP_eq _

/-- The sort brings a list with distinct keys into shape. -/
lemma Shaped.sortByKey {text : Text} (hnd : (text.map Prod.fst).Nodup)
    (h : owned text ≤ maxTextRecords) : Shaped (sortByKey text) :=
  ⟨Keyed.pairwise_insertionSort hnd, (owned_sortByKey text).trans_le h⟩

/-- The provenance keys are five, so no list with distinct keys has more of them. -/
lemma Shaped.provenance_le {text : Text} (h : Shaped text) :
    text.countP (fun e => provenanceKeys.contains e.1) ≤ 5 := by
  have hsub : (text.filter fun e => provenanceKeys.contains e.1).map Prod.fst ⊆ provenanceKeys := by
    intro k hk
    obtain ⟨e, he, rfl⟩ := List.mem_map.mp hk
    simpa using (List.mem_filter.mp he).2
  rw [List.countP_eq_length_filter, ← List.length_map (f := Prod.fst)]
  exact List.Nodup.length_le_of_subset (h.filter _).nodup hsub

/-! ## An owner's write -/

lemma owned_filter_le (text : Text) (key : String) :
    owned (text.filter fun e => e.1 ≠ key) ≤ owned text :=
  List.Sublist.countP_le List.filter_sublist

/-- Taking out an owner's own record makes room for one. -/
lemma owned_filter_lt {text : Text} {key : String} (hkey : key ∉ provenanceKeys)
    (hmem : key ∈ text.map Prod.fst) : owned (text.filter fun e => e.1 ≠ key) < owned text := by
  obtain ⟨e, he, rfl⟩ := List.mem_map.mp hmem
  have hpos : 0 < List.countP (fun x => !provenanceKeys.contains x.1)
      (text.filter fun x => !decide (x.1 ≠ e.1)) :=
    List.countP_pos_iff.mpr ⟨e, by simpa using he, by simpa using hkey⟩
  have hsplit := List.countP_eq_countP_filter_add text (fun x => !provenanceKeys.contains x.1)
    fun x => decide (x.1 ≠ e.1)
  simp only [owned]
  omega

/-- The list with one record in place of what stood under its key. -/
lemma nodup_filter_append {text : Text} (hnd : (text.map Prod.fst).Nodup) (e : String × String) :
    (((text.filter fun x => x.1 ≠ e.1) ++ [e]).map Prod.fst).Nodup :=
  Keyed.nodup_replace hnd (List.perm_append_singleton _ _)

lemma owned_append (text : Text) (e : String × String) :
    owned (text ++ [e]) = owned text + if e.1 ∈ provenanceKeys then 0 else 1 := by
  rw [owned, List.countP_append, owned, List.countP_singleton]
  by_cases he : e.1 ∈ provenanceKeys <;> simp [he]

/-- **An owner's write keeps the shape.** -/
theorem OwnerWrite.shaped {text text' : Text} {key : String} {value : Option String}
    {out : Except String Unit} (hw : OwnerWrite text key value text' out) (h : Shaped text) :
    Shaped text' := by
  cases hw with
  | announceOnly => exact h
  | announced => exact h
  | cleared => exact h.filter _
  | full => exact h.filter _
  | @set v _ _ hroom =>
      refine .sortByKey (nodup_filter_append h.nodup (key, v)) ?_
      rw [owned_append]
      split_ifs with hkey
      · exact (owned_filter_le text key).trans h.owned_le
      · exact hroom hkey

/-- At the cap there was nothing to remove: the key is new. -/
lemma filter_eq_self_of_full {text : Text} {key : String} (h : Shaped text)
    (hkey : key ∉ provenanceKeys)
    (hfull : maxTextRecords ≤ owned (text.filter fun e => e.1 ≠ key)) :
    key ∉ text.map Prod.fst ∧ (text.filter fun e => e.1 ≠ key) = text := by
  have hnew : key ∉ text.map Prod.fst := fun hmem =>
    absurd ((owned_filter_lt hkey hmem).trans_le h.owned_le) (not_lt.mpr hfull)
  exact ⟨hnew, Keyed.filter_eq_self hnew⟩

/-- **A refused write leaves the list as it was.** -/
theorem OwnerWrite.eq_of_error {text text' : Text} {key e : String} {value : Option String}
    (hw : OwnerWrite text key value text' (.error e)) (h : Shaped text) : text' = text := by
  cases hw with
  | announceOnly => rfl
  | announced => rfl
  | full hkey hfull => exact (filter_eq_self_of_full h hkey hfull).2

/-- **An accepted write sets its key and no other.** -/
theorem OwnerWrite.get_of_ok {text text' : Text} {key : String} {value : Option String}
    (hw : OwnerWrite text key value text' (.ok ())) (h : Shaped text) :
    textGet text' key = value ∧ ∀ k, k ≠ key → textGet text' k = textGet text k := by
  have hnd' := (hw.shaped h).nodup
  cases hw with
  | cleared =>
      refine ⟨Option.eq_none_iff_forall_ne_some.mpr fun v hv => ?_, fun k hk => ?_⟩
      · simpa using (textGet_eq_some hnd').mp hv
      · exact textGet_congr h.nodup hnd' fun v => by simp [hk]
  | @set v =>
      refine ⟨(textGet_eq_some hnd').mpr ?_, fun k hk => ?_⟩
      · rw [mem_sortByKey]
        simp
      · exact textGet_congr h.nodup hnd' fun u => by simp [mem_sortByKey, hk]

/-- **The cap refuses new keys only.** -/
theorem OwnerWrite.new_of_full {text text' : Text} {key : String} {value : Option String}
    (hw : OwnerWrite text key value text' (.error "at most 32 text records per name"))
    (h : Shaped text) : key ∉ text.map Prod.fst := by
  -- the two locks answer with other messages, which start with the word "text"
  have hother : ∀ rest, "text key '" ++ key ++ rest ≠ "at most 32 text records per name" := by
    intro rest heq
    have hlist := congrArg String.toList heq
    simp only [String.toList_append, List.append_assoc] at hlist
    exact absurd (List.cons.inj hlist).1 (by decide)
  generalize hmsg : "at most 32 text records per name" = msg at hw
  cases hw with
  | announceOnly => exact absurd hmsg.symm (hother _)
  | announced => exact absurd hmsg.symm (hother _)
  | full hkey hfull => exact (filter_eq_self_of_full h hkey hfull).1

/-- An owner's write leaves a "deployer" where it stands, and under it all provenance. -/
lemma OwnerWrite.get_of_deployer {text text' : Text} {key : String} {value : Option String}
    {out : Except String Unit} (hw : OwnerWrite text key value text' out) (h : Shaped text)
    (hdeployer : "deployer" ∈ text.map Prod.fst) {k : String} (hk : k ∈ provenanceKeys) :
    textGet text' k = textGet text k := by
  cases out with
  | error e => rw [hw.eq_of_error h]
  | ok =>
      refine (hw.get_of_ok h).2 k ?_
      rintro rfl
      cases hw with
      | cleared _ hfree => exact hfree hk hdeployer
      | set _ hfree => exact hfree hk hdeployer

/-! ## An announce -/

/-- The list with every pair in place of what stood under its key, before the sort. -/
def replaced (text : Text) (provenance : List (String × String)) : Text :=
  provenance.foldl (fun text e => text.filter (fun x => x.1 ≠ e.1) ++ [e]) text

lemma setProvenanceInPlace_records (text : Text) (p : Provenance) :
    setProvenanceInPlace text p.records = some (setProvenance text p) := rfl

/-- The assertion holds of the provenance keys. -/
lemma setProvenanceInPlace_eq {provenance : List (String × String)}
    (h : ∀ e ∈ provenance, e.1 ∈ provenanceKeys) (text : Text) :
    setProvenanceInPlace text provenance = some (sortByKey (replaced text provenance)) := by
  suffices hfold : ∀ text : Text, (provenance.foldlM (fun text e =>
      if provenanceKeys.contains e.1 then some (text.filter (fun x => x.1 ≠ e.1) ++ [e]) else none)
      text) = some (replaced text provenance) by
    rw [setProvenanceInPlace, hfold]
    rfl
  induction provenance with
  | nil => exact fun _ => rfl
  | cons e rest ih =>
      intro text
      have he : provenanceKeys.contains e.1 = true := by
        simpa using h e List.mem_cons_self
      rw [List.foldlM_cons, if_pos he]
      exact ih (fun x hx => h x (List.mem_cons_of_mem _ hx)) _

/-- Writing provenance keeps the keys distinct, and adds nothing of the owner's. -/
lemma replaced_nodup_owned {provenance : List (String × String)}
    (h : ∀ e ∈ provenance, e.1 ∈ provenanceKeys) : ∀ {text : Text}, (text.map Prod.fst).Nodup →
    ((replaced text provenance).map Prod.fst).Nodup ∧ owned (replaced text provenance) ≤ owned text := by
  induction provenance with
  | nil => exact fun hnd => ⟨hnd, le_rfl⟩
  | cons e rest ih =>
      intro text hnd
      obtain ⟨hnodup, hle⟩ := ih (fun x hx => h x (List.mem_cons_of_mem _ hx))
        (nodup_filter_append hnd e)
      refine ⟨hnodup, hle.trans ?_⟩
      rw [owned_append, if_pos (h e List.mem_cons_self)]
      exact owned_filter_le text e.1

/-- What an announce may pass: one value for each provenance key. -/
def IsAnnounce (provenance : List (String × String)) : Prop :=
  (provenance.map Prod.fst).Perm provenanceKeys

instance (provenance : List (String × String)) : Decidable (IsAnnounce provenance) :=
  inferInstanceAs (Decidable (List.Perm _ _))

lemma Provenance.isAnnounce (p : Provenance) : IsAnnounce p.records := List.Perm.refl _

namespace IsAnnounce

variable {provenance : List (String × String)} {text : Text}

lemma keys_iff (hp : IsAnnounce provenance) {k : String} :
    k ∈ provenance.map Prod.fst ↔ k ∈ provenanceKeys :=
  List.Perm.mem_iff hp

lemma mem_provenanceKeys (hp : IsAnnounce provenance) : ∀ e ∈ provenance, e.1 ∈ provenanceKeys :=
  fun _ he => hp.keys_iff.mp (List.mem_map_of_mem he)

/-- **An announce is never refused.** -/
theorem inPlace_eq (hp : IsAnnounce provenance) (text : Text) :
    setProvenanceInPlace text provenance = some (sortByKey (replaced text provenance)) :=
  setProvenanceInPlace_eq hp.mem_provenanceKeys text

/-- **An announce keeps the shape.** -/
theorem shaped (hp : IsAnnounce provenance) (h : Shaped text) :
    Shaped (sortByKey (replaced text provenance)) := by
  obtain ⟨hnodup, hle⟩ := replaced_nodup_owned hp.mem_provenanceKeys h.nodup
  exact .sortByKey hnodup (hle.trans h.owned_le)

lemma mem_iff (hp : IsAnnounce provenance) {e : String × String} :
    e ∈ sortByKey (replaced text provenance) ↔
      e ∈ provenance ∨ (e ∈ text ∧ e.1 ∉ provenanceKeys) := by
  have hnodup : (provenance.map Prod.fst).Nodup := (List.Perm.nodup_iff hp).mpr (by decide)
  rw [mem_sortByKey, replaced, mem_foldl_replace hnodup, hp.keys_iff]

/-- **An announce changes provenance keys only.** -/
theorem get_other (hp : IsAnnounce provenance) (h : Shaped text) {k : String}
    (hk : k ∉ provenanceKeys) :
    textGet (sortByKey (replaced text provenance)) k = textGet text k := by
  refine textGet_congr h.nodup (hp.shaped h).nodup fun v => ?_
  rw [hp.mem_iff]
  constructor
  · rintro (hmem | ⟨hmem, -⟩)
    · exact absurd (hp.mem_provenanceKeys _ hmem) hk
    · exact hmem
  · exact fun hmem => Or.inr ⟨hmem, hk⟩

/-- An announce names its deployer. -/
lemma deployer (hp : IsAnnounce provenance) :
    "deployer" ∈ (sortByKey (replaced text provenance)).map Prod.fst := by
  have hmem : "deployer" ∈ provenance.map Prod.fst := hp.keys_iff.mpr (by decide)
  obtain ⟨e, he, hkey⟩ := List.mem_map.mp hmem
  exact List.mem_map.mpr ⟨e, hp.mem_iff.mpr (Or.inl he), hkey⟩

end IsAnnounce

/-! ## Any run of the writers -/

/-- A call to one of the three writers. -/
inductive TextCall
  | setOwnerText (key : String) (value : Option String)
  | setProvenance (provenance : List (String × String))
  | clearProvenance
  deriving DecidableEq

/-- The calls the canister makes: an announce passes all five keys. -/
def TextCall.Proper : TextCall → Prop
  | .setProvenance provenance => IsAnnounce provenance
  | _ => True

instance : ∀ c : TextCall, Decidable c.Proper
  | .setProvenance provenance => inferInstanceAs (Decidable (IsAnnounce provenance))
  | .setOwnerText _ _ => isTrue trivial
  | .clearProvenance => isTrue trivial

/-- A list of text records under its writers; a failed assertion has no step. -/
def textMachine : Machine Text TextCall (Except String Unit) where
  step text
    | .setOwnerText key value => some (setOwnerTextInPlace text key value)
    | .setProvenance provenance =>
        (setProvenanceInPlace text provenance).map fun text => (text, .ok ())
    | .clearProvenance => some (clearProvenance text, .ok ())

/-- The runs of the writers from the empty list. -/
abbrev TextRun := Run textMachine (fun _ c => c.Proper) []

variable {tr : List (Entry Text TextCall (Except String Unit))} {text text' : Text}

lemma ownerWrite_of_step {key : String} {value : Option String} {out : Except String Unit}
    (h : textMachine.step text (.setOwnerText key value) = some (text', out)) :
    OwnerWrite text key value text' out :=
  ownerWrite_of_inPlace (Option.some.inj h)

lemma announce_step {provenance : List (String × String)} (hp : IsAnnounce provenance)
    (text : Text) : textMachine.step text (.setProvenance provenance) =
      some (sortByKey (replaced text provenance), .ok ()) := by
  simp only [textMachine, hp.inPlace_eq, Option.map_some]

lemma announce_of_step {provenance : List (String × String)} (hp : IsAnnounce provenance)
    {out : Except String Unit}
    (h : textMachine.step text (.setProvenance provenance) = some (text', out)) :
    text' = sortByKey (replaced text provenance) ∧ out = .ok () := by
  rw [announce_step hp, Option.some.injEq, Prod.mk.injEq] at h
  exact ⟨h.1.symm, h.2.symm⟩

/-- **The lists of any run have the shape.** -/
theorem run_shaped (h : TextRun tr text) : Shaped text := by
  refine Run.invariantWith (I := fun _ text => Shaped text) Shaped.nil ?_ h
  intro _ text c text' out _ hshaped hc hs
  cases c with
  | setOwnerText key value => exact (ownerWrite_of_step hs).shaped hshaped
  | setProvenance provenance =>
      obtain ⟨rfl, -⟩ := announce_of_step hc hs
      exact IsAnnounce.shaped hc hshaped
  | clearProvenance =>
      cases hs
      exact hshaped.filter _

/-- Announced, and not cleared since. -/
abbrev AnnouncedSince : List (Entry Text TextCall (Except String Unit)) → Prop :=
  Since (fun x => x.event ≠ .clearProvenance) fun x => x.event matches .setProvenance _

/-- **From an announce to the next clear, a deployer stands.** -/
theorem deployer_since (h : TextRun tr text) (hsince : AnnouncedSince tr) :
    "deployer" ∈ text.map Prod.fst := by
  induction h with
  | nil => cases hsince
  | @snoc tr text text' c out hr hc hs ih =>
      have hshaped := run_shaped hr
      cases c with
      | setProvenance provenance =>
          obtain ⟨rfl, -⟩ := announce_of_step hc hs
          exact IsAnnounce.deployer hc
      | clearProvenance =>
          cases hsince with
          | here he => exact absurd he (by simp)
          | still he => exact absurd rfl he
      | setOwnerText key value =>
          cases hsince with
          | here he => exact absurd he (by simp)
          | still _ hsince =>
              have hd := ih hsince
              rw [mem_keys_iff, (ownerWrite_of_step hs).get_of_deployer hshaped hd (by decide),
                ← mem_keys_iff]
              exact hd

/-! ## What the writers promise -/

/-- **The text records keep their shape under any mix of writers.**  After any run: the keys strictly
ascend, at most 32 are the owner's and at most 5 provenance; an accepted owner's write sets its key
and no other, a refused one leaves the list alone; an announce is never refused and changes
provenance only; once announced, no owner's write changes provenance until it is cleared; and the cap
refuses no key that is already there. -/
theorem text_records_keep_shape (h : TextRun tr text) :
    (text.Pairwise (fun a b => a.1 < b.1) ∧
      text.countP (fun e => !provenanceKeys.contains e.1) ≤ 32 ∧
      text.countP (fun e => provenanceKeys.contains e.1) ≤ 5) ∧
    (∀ key value text', textMachine.step text (.setOwnerText key value) = some (text', .ok ()) →
      textGet text' key = value ∧ ∀ k, k ≠ key → textGet text' k = textGet text k) ∧
    (∀ key value text' e,
      textMachine.step text (.setOwnerText key value) = some (text', .error e) → text' = text) ∧
    (∀ provenance, IsAnnounce provenance →
      ∃ text', textMachine.step text (.setProvenance provenance) = some (text', .ok ()) ∧
        ∀ k, k ∉ provenanceKeys → textGet text' k = textGet text k) ∧
    (AnnouncedSince tr → ∀ key value text' out,
      textMachine.step text (.setOwnerText key value) = some (text', out) →
      ∀ k ∈ provenanceKeys, textGet text' k = textGet text k) ∧
    ∀ key value text', textGet text key ≠ none →
      textMachine.step text (.setOwnerText key value) ≠
        some (text', .error "at most 32 text records per name") := by
  have hshaped := run_shaped h
  refine ⟨⟨hshaped.ascending, hshaped.owned_le, hshaped.provenance_le⟩, ?_, ?_, ?_, ?_, ?_⟩
  · intro key value text' hs
    exact (ownerWrite_of_step hs).get_of_ok hshaped
  · intro key value text' e hs
    exact (ownerWrite_of_step hs).eq_of_error hshaped
  · intro provenance hp
    exact ⟨_, announce_step hp text, fun k hk => hp.get_other hshaped hk⟩
  · intro hsince key value text' out hs k hk
    exact (ownerWrite_of_step hs).get_of_deployer hshaped (deployer_since h hsince) hk
  · intro key value text' hkey hs
    exact (ownerWrite_of_step hs).new_of_full hshaped (mem_keys_iff.mpr hkey)

/-- An announce over a record of the owner's, and an owner's write that it locks out. -/
theorem text_records_keep_shape_announced : ∃ tr text, TextRun tr text ∧ AnnouncedSince tr ∧
    text.Pairwise (fun a b => a.1 < b.1) ∧ text.length = 6 ∧
    ∀ key value text' out, textMachine.step text (.setOwnerText key value) = some (text', out) →
      ∀ k ∈ provenanceKeys, textGet text' k = textGet text k := by
  obtain ⟨tr, text, hrun, -, hlen, hsince⟩ := textMachine.exists_run_of_exec
    (fun _ c => c.Proper) []
    [.setOwnerText "repo" (some "mine"), .setOwnerText "about" (some "a name"),
      .setProvenance [("repo", "theirs"), ("commit", "c0"), ("module_hash", "ab"),
        ("deployer", "d"), ("announced_ns", "7")],
      .setOwnerText "repo" none]
    (fun tr text => text.length = 6 ∧ AnnouncedSince tr) (by decide +kernel)
  obtain ⟨hshape, -, -, -, hlocked, -⟩ := text_records_keep_shape hrun
  exact ⟨tr, text, hrun, hsince, hshape.1, hlen, hlocked hsince⟩

end Names

/-! ## The stored texts -/

namespace State

/-- The canister's writers keep the shape. -/
lemma shaped_writers (E : Env) : TextWriters E Names.Shaped where
  empty := .nil
  cleared h := h.filter _
  owner h _ hset := (Names.ownerWrite_of_ok hset).shaped h
  announced {text cx a} h _ _ _ := by
    have hp := (announced (E := E) cx a).isAnnounce
    have heq := hp.inPlace_eq text
    rw [Names.setProvenanceInPlace_records, Option.some.injEq] at heq
    rw [heq]
    exact hp.shaped h

end State

namespace World

variable {E : Env} {ok : World E → Event → Prop} {w : World E} {tr : History E}

/-- **Every stored text has the shape.** -/
theorem run_shapedTexts (h : Run (machine E) ok init tr w) : w.canister.AllTexts Names.Shaped :=
  run_texts (State.shaped_writers E) h

end World
