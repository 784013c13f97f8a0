import IcNameService.System.Histories

/-!
# The certified tree mirrors the records

The tree lives on the heap and the records in stable memory; every write goes to both, and an upgrade
refills the one from the other.  `Mirrored` says that they agree, leaf for record, and that the root of
the tree is what was last published.

* `mirrored_invariant` — every write keeps it.
* `Booted` — the states the canister starts in, fresh or upgraded; `Booted.mirrored`.
* `World.run_mirrored` — every history from there.
-/

namespace State

variable {E : Env}

/-- **The tree mirrors the records**: one leaf for each record, under its name, with its canonical
bytes, and no other leaf. -/
structure Mirrored (s : State E) : Prop where
  leaves : ∀ k v, E.cert.treeGet s.tree k = some v ↔
    ∃ name r, s.records.get name = some r ∧ asBytes name = k ∧ r.canonical E = v
  published : s.certifiedData = Certify.rootHash E s.tree

namespace Mirrored

variable {s : State E}

lemma leaf (h : s.Mirrored) {name : String} {r : Record} (hget : s.records.get name = some r) :
    E.cert.treeGet s.tree (asBytes name) = some (r.canonical E) :=
  (h.leaves _ _).mpr ⟨name, r, hget, rfl, rfl⟩

/-- A leaf under a name is its record's. -/
lemma stored (h : s.Mirrored) {name : String} {v : Bytes}
    (hget : E.cert.treeGet s.tree (asBytes name) = some v) :
    ∃ r, s.records.get name = some r ∧ r.canonical E = v := by
  obtain ⟨name', r, hr, hname, hv⟩ := (h.leaves _ _).mp hget
  rw [asBytes_injective hname] at hr
  exact ⟨r, hr, hv⟩

end Mirrored

section

variable (hC : E.cert.CertLaws)

include hC

lemma mirrored_insert {s : State E} (h : s.Mirrored) (r : Record) : (s.commit r).Mirrored where
  published := rfl
  leaves := by
    intro k v
    rw [commit_tree, hC.get_insert]
    constructor
    · intro hv
      split_ifs at hv with hk
      · have hget : (s.commit r).records.get r.name = some r := by
          rw [commit_records, OrdMap.get_insert_self]
        exact ⟨r.name, r, hget, hk.symm, Option.some.inj hv⟩
      · obtain ⟨name, r', hget, rfl, hr⟩ := (h.leaves k v).mp hv
        refine ⟨name, r', ?_, rfl, hr⟩
        have hne : name ≠ r.name := by
          rintro rfl
          exact hk rfl
        rw [commit_records, OrdMap.get_insert_ne _ _ hne]
        exact hget
    · rintro ⟨name, r', hget, rfl, rfl⟩
      rw [commit_records] at hget
      rcases OrdMap.get_insert_eq_some.mp hget with ⟨rfl, rfl⟩ | ⟨hne, hget⟩
      · rw [if_pos rfl]
      · rw [if_neg fun heq => hne (asBytes_injective heq)]
        exact h.leaf hget

lemma mirrored_discard {s : State E} (h : s.Mirrored) (name : String) (r : Record) :
    (((s.eraseRecord name).unindex r).certifyRemove name).Mirrored where
  published := rfl
  leaves := by
    intro k v
    change E.cert.treeGet (E.cert.treeDelete s.tree (asBytes name)) k = some v ↔
      ∃ name' r', (s.records.erase name).get name' = some r' ∧ asBytes name' = k ∧
        r'.canonical E = v
    rw [hC.get_delete]
    constructor
    · intro hv
      split_ifs at hv with hk
      obtain ⟨name', r', hget, rfl, hr⟩ := (h.leaves k v).mp hv
      refine ⟨name', r', ?_, rfl, hr⟩
      rw [OrdMap.get_erase_ne _ fun heq => hk (by rw [heq])]
      exact hget
    · rintro ⟨name', r', hget, rfl, rfl⟩
      obtain ⟨hne, hget⟩ := OrdMap.get_erase_eq_some.mp hget
      rw [if_neg fun heq => hne (asBytes_injective heq)]
      exact h.leaf hget

/-- **Every write goes to both.** -/
theorem mirrored_invariant : RecordsInvariant (Mirrored (E := E)) where
  same s s' hsame h :=
    { published := by rw [hsame.certifiedData, hsame.tree, h.published]
      leaves := by
        rw [hsame.tree, hsame.records]
        exact h.leaves }
  commit _ r h := mirrored_insert hC h r
  discard _ name r h := mirrored_discard hC h name r

/-- **Refilling the tree mirrors whatever records there are.** -/
theorem mirrored_rebuild (s : State E) : s.certifyRebuild.Mirrored where
  published := rfl
  leaves := by
    intro k v
    have hnd : (s.records.entries.map fun e => asBytes e.1).Nodup := by
      have := s.records.keys_nodup.map asBytes_injective
      rwa [OrdMap.keys, List.map_map] at this
    refine (IcCertification.get_foldl_insert hC (fun e => asBytes e.1) (fun e => e.2.canonical E)
      s.records.entries E.cert.newTree hnd k v).trans ?_
    constructor
    · rintro (⟨e, he, hk, hv⟩ | ⟨-, hnew⟩)
      · exact ⟨e.1, e.2, OrdMap.mem_entries.mp he, hk, hv⟩
      · simp [hC.get_new] at hnew
    · rintro ⟨name, r, hget, hk, hv⟩
      exact Or.inl ⟨(name, r), OrdMap.mem_entries.mpr hget, hk, hv⟩

end

/-! ## Where histories start -/

/-- A state the canister starts in: fresh, or upgraded from the stable memory an older version left. -/
inductive Booted : State E → Prop
  | fresh : Booted State.init
  | upgraded {m : StableMemory E} {s : State E} :
      m.state.postUpgrade m.configV2 = .ok s → Booted s

lemma Named.putRecords {s : State E} (hn : s.Named) (l : List Record) :
    (l.foldl State.putRecord s).Named := by
  induction l generalizing s with
  | nil => exact hn
  | cons r l ih =>
      refine ih fun name r' hget => ?_
      change (s.records.insert r.name r).get name = some r' at hget
      rcases OrdMap.get_insert_eq_some.mp hget with ⟨rfl, rfl⟩ | ⟨-, hget⟩
      · rfl
      · exact hn name r' hget

lemma sameRecords_rebuildIndex (s : State E) : SameRecords s s.rebuildIndex := by
  have key : ∀ (l : List Record) (t : State E), SameRecords s t →
      SameRecords s (l.foldl State.index t) := by
    intro l
    induction l with
    | nil => exact fun _ h => h
    | cons r l ih =>
        intro t h
        exact ih _ (h.trans ⟨rfl, rfl, rfl⟩)
  exact key _ _ ⟨rfl, rfl, rfl⟩

lemma SameRecords.ite {s a b : State E} {c : Prop} [Decidable c] (ha : SameRecords s a)
    (hb : SameRecords s b) : SameRecords s (if c then a else b) := by
  split_ifs
  · exact ha
  · exact hb

lemma sameRecords_migrateConfigFromV2 (s : State E) (v2 : Option ConfigV2) :
    SameRecords s (s.migrateConfigFromV2 v2) := by
  cases v2 <;> exact ⟨rfl, rfl, rfl⟩

/-- An upgrade migrates, rebuilds the tree, and then touches neither the records nor the tree. -/
lemma postUpgrade_rebuilt {s s' : State E} (hn : s.Named) {v2 : Option ConfigV2}
    (h : s.postUpgrade v2 = .ok s') :
    ∃ s₁ : State E, s₁.Named ∧ SameRecords s₁.certifyRebuild s' := by
  simp only [postUpgrade] at h
  split at h
  · cases h
  · simp only [Except.ok.injEq] at h
    subst h
    refine ⟨if s.schemaVersion < 4 then s.resetHeap.migrateAnnounceMarker else s.resetHeap, ?_, ?_⟩
    · split_ifs
      · exact Named.putRecords (s := s.resetHeap) hn _
      · exact hn
    · have hindex : ∀ t : State E, SameRecords t (if s.schemaVersion < 2 then t.rebuildIndex else t) :=
        fun t => .ite t.sameRecords_rebuildIndex (.refl t)
      have hconfig : ∀ t : State E, SameRecords t
          (if s.schemaVersion < 3 then t.migrateConfigFromV2 v2 else t) :=
        fun t => .ite (t.sameRecords_migrateConfigFromV2 v2) (.refl t)
      exact (hindex _).trans ((hconfig _).trans ⟨rfl, rfl, rfl⟩)

namespace Booted

variable {s : State E}

lemma schema (h : Booted s) : s.schema = some schemaCurrent := by
  cases h with
  | fresh => rfl
  | upgraded h => exact postUpgrade_schema h

lemma named (h : Booted s) : s.Named := by
  cases h with
  | fresh =>
      intro name r hget
      cases hget
  | @upgraded m _ h =>
      obtain ⟨s₁, hn, hsame⟩ := postUpgrade_rebuilt m.named h
      exact named_invariant.same _ _ hsame hn

lemma mirrored (hC : E.cert.CertLaws) (h : Booted s) : s.Mirrored := by
  cases h with
  | fresh => exact mirrored_rebuild hC _
  | @upgraded m _ h =>
      obtain ⟨s₁, -, hsame⟩ := postUpgrade_rebuilt m.named h
      exact (mirrored_invariant hC).same _ _ hsame (mirrored_rebuild hC s₁)

end Booted

/-- What every write keeps, and a rebuild of the tree, every message keeps. -/
lemma RecordsInvariant.stepped {P : State E → Prop} (hP : RecordsInvariant P)
    (hrebuild : ∀ s, P s → P s.certifyRebuild) {w w' : World E} {e : Event} {o : Output}
    (h : P w.canister) (hs : World.Stepped w e w' o) : P w'.canister := by
  cases hs with
  | answered _ hc => exact hP.called h hc
  | suspended _ hc => exact hP.called h hc
  | resumed _ _ hr => exact hP.resumed h hr
  | continued => exact hP.same w.canister _ ⟨rfl, rfl, rfl⟩ h
  | upgraded => exact hrebuild _ (hP.same w.canister _ ⟨rfl, rfl, rfl⟩ h)

end State

namespace World

variable {E : Env} {ok : World E → Event → Prop} {s₀ : State E} {w : World E} {tr : History E}

theorem run_named (h₀ : State.Booted s₀) (h : Run (machine E) ok (start s₀) tr w) :
    w.canister.Named :=
  run_invariant (I := fun w => w.canister.Named) h₀.schema h₀.named
    (fun _ _ _ _ hn _ hs => State.named_invariant.stepped (fun _ h => h) hn hs) h

/-- **In every state reached, the tree mirrors the records.** -/
theorem run_mirrored (hC : E.cert.CertLaws) (h₀ : State.Booted s₀)
    (h : Run (machine E) ok (start s₀) tr w) : w.canister.Mirrored :=
  run_invariant (I := fun w => w.canister.Mirrored) h₀.schema (h₀.mirrored hC)
    (fun _ _ _ _ hm _ hs => (State.mirrored_invariant hC).stepped
      (fun s _ => State.mirrored_rebuild hC s) hm hs) h

end World
