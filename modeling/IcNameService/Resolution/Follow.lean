import IcNameService.Canister.Effects
import IcNameService.Canister.Resolve
import IcNameService.Core.Walk

/-!
# Following aliases

`follow` is the walk from a name along the stored targets, cut off at a depth, with every record
checked for a lapse on the way.  `follow_eq_ok` says so in both directions: what it answers, and when
it answers.
-/

/-- Where a record points: on to a name, or to an address. -/
def Record.pointsTo (r : Record) : String ⊕ Principal :=
  match r.target with
  | .alias next => .inl next
  | .address p => .inr p

namespace State

variable {E : Env} {s : State E}

/-- The stored records from `name` to the address it ends at. -/
def Resolves (s : State E) (name : String) (chain : List Record) (p : Principal) : Prop :=
  Walk s.records.get Record.pointsTo name chain p

/-- A name `follow` will look at. -/
def Nameable (name : String) : Prop :=
  if Names.isScoped name = true then ∃ p, Names.split name = .ok p else Names.checkFlat name = .ok ()

variable {now fuel : ℕ} {name current : String} {chain all rest : List Record} {p : Principal}

/-- The loop answers with a walk within its fuel, over records that are not lapsed. -/
lemma followFrom_sound : ∀ {fuel : ℕ} {chain : List Record} {current : String},
    s.followFrom now fuel chain current = .ok (p, all) →
      ∃ rest, all = chain ++ rest ∧ s.Resolves current rest p ∧ rest.length ≤ fuel ∧
        ∀ r ∈ rest, lapsed (E := E) s.config r now = false := by
  intro fuel
  induction fuel with
  | zero =>
      intro chain current h
      cases h
  | succ fuel ih =>
      intro chain current h
      simp only [followFrom, getRecord] at h
      split_ifs at h with hloop
      cases hget : s.records.get current with
      | none => simp [hget] at h
      | some r =>
          simp only [hget] at h
          split_ifs at h with hlapsed
          rw [Bool.not_eq_true] at hlapsed
          rcases htarget : r.target with q | next
          · simp only [htarget, Except.ok.injEq, Prod.mk.injEq] at h
            obtain ⟨rfl, rfl⟩ := h
            refine ⟨[r], rfl, .ends hget ?_, by simp, by simpa using hlapsed⟩
            simp [Record.pointsTo, htarget]
          · simp only [htarget] at h
            obtain ⟨rest, rfl, hwalk, hlen, hheld⟩ := ih h
            refine ⟨r :: rest, by simp, .on hget ?_ hwalk, by simpa using hlen, ?_⟩
            · simp [Record.pointsTo, htarget]
            · simpa using ⟨hlapsed, hheld⟩

/-- The loop answers with any walk within its fuel that meets no lapsed record and nothing visited
before. -/
lemma followFrom_complete (hn : s.Named) (h : s.Resolves current rest p) :
    ∀ {fuel : ℕ} {chain : List Record}, rest.length ≤ fuel →
      (∀ r ∈ rest, lapsed (E := E) s.config r now = false) →
      (∀ r ∈ rest, ∀ r' ∈ chain, r'.name ≠ r.name) →
      s.followFrom now fuel chain current = .ok (p, chain ++ rest) := by
  -- one turn of the loop, read off where the record points
  have visit : ∀ {fuel : ℕ} {chain : List Record} {k : String} {r : Record},
      s.records.get k = some r → lapsed (E := E) s.config r now = false →
      (∀ r' ∈ chain, r'.name ≠ r.name) →
      s.followFrom now (fuel + 1) chain k =
        r.pointsTo.elim (s.followFrom now fuel (chain ++ [r])) fun p => .ok (p, chain ++ [r]) := by
    intro fuel chain k r hget hlapsed hnew
    have hloop : chain.any (fun r' => decide (r'.name = k)) = false := by
      rw [List.any_eq_false]
      intro r' hr'
      rw [← hn k r hget]
      simpa using hnew r' hr'
    simp only [followFrom, getRecord, hloop, hget, hlapsed, Bool.false_eq_true, if_false,
      Record.pointsTo]
    cases r.target <;> simp only [Sum.elim_inl, Sum.elim_inr]
  induction h with
  | @ends k r p hget hpoint =>
      intro fuel chain hlen hheld hnew
      obtain ⟨fuel, rfl⟩ : ∃ n, fuel = n + 1 := ⟨fuel - 1, by simp at hlen; omega⟩
      rw [visit hget (hheld r (by simp)) (hnew r (by simp)), hpoint, Sum.elim_inr]
  | @on k next r rest p hget hpoint hrest ih =>
      intro fuel chain hlen hheld hnew
      obtain ⟨fuel, rfl⟩ : ∃ n, fuel = n + 1 := ⟨fuel - 1, by simp at hlen; omega⟩
      rw [visit hget (hheld r (by simp)) (hnew r (by simp)), hpoint, Sum.elim_inl]
      have hnodup : ((r :: rest).map Record.name).Nodup := Walk.nodup hn (.on hget hpoint hrest)
      simp only [List.map_cons, List.nodup_cons, List.mem_map, not_exists, not_and] at hnodup
      have hlen' : rest.length ≤ fuel := by simpa using hlen
      rw [ih hlen' (fun x hx => hheld x (List.mem_cons_of_mem _ hx)) ?_]
      · simp
      · intro x hx r' hr'
        rcases List.mem_append.mp hr' with hr' | hr'
        · exact hnew x (List.mem_cons_of_mem _ hx) r' hr'
        · rw [List.mem_singleton] at hr'
          subst hr'
          exact fun heq => hnodup.1 x hx heq.symm

/-- **When `follow` answers, and what.** -/
theorem follow_eq_ok (hn : s.Named) : s.follow name now = .ok (p, chain) ↔
    Nameable name ∧ s.Resolves name chain p ∧ chain.length ≤ Certify.maxAliasDepth ∧
      ∀ r ∈ chain, lapsed (E := E) s.config r now = false := by
  have hname : s.follow name now = .ok (p, chain) ↔ Nameable name ∧
      s.followFrom now Certify.maxAliasDepth [] name = .ok (p, chain) := by
    simp only [follow, Nameable]
    split_ifs with hscoped
    · cases Names.split name with
      | error e => simp [bind, Except.bind]
      | ok q => simp [bind, Except.bind]
    · cases Names.checkFlat name with
      | error e => simp [bind, Except.bind]
      | ok u => simp [bind, Except.bind]
  rw [hname, and_congr_right_iff]
  intro _
  constructor
  · intro h
    obtain ⟨rest, rfl, hwalk, hlen, hheld⟩ := followFrom_sound h
    exact ⟨hwalk, hlen, hheld⟩
  · rintro ⟨hwalk, hlen, hheld⟩
    exact followFrom_complete hn hwalk hlen hheld (by simp)

/-! ## What a walk looks like from outside -/

/-- A record that points on aliases the next one. -/
lemma Resolves.links (hn : s.Named) (h : s.Resolves name chain p) :
    chain.IsChain fun r next => r.target = .alias next.name := by
  induction h with
  | ends => simp
  | @on k next r rest p hget hpoint hrest ih =>
      obtain ⟨r', rest', rfl, hget'⟩ := hrest.head_get
      rw [List.isChain_cons_cons]
      refine ⟨?_, ih⟩
      rw [hn next r' hget']
      simp only [Record.pointsTo] at hpoint
      split at hpoint
      · rename_i htarget
        cases hpoint
        exact htarget
      · cases hpoint

lemma Resolves.last (h : s.Resolves name chain p) :
    ∃ r, chain.getLast? = some r ∧ r.target = .address p := by
  induction h with
  | @ends k r p hget hpoint =>
      refine ⟨r, rfl, ?_⟩
      simp only [Record.pointsTo] at hpoint
      split at hpoint
      · cases hpoint
      · rename_i htarget
        cases hpoint
        exact htarget
  | @on k next r rest p hget hpoint hrest ih =>
      obtain ⟨last, hlast, htarget⟩ := ih
      refine ⟨last, ?_, htarget⟩
      obtain ⟨r', rest', rfl, -⟩ := hrest.head_get
      rwa [List.getLast?_cons_cons]

lemma Resolves.first (hn : s.Named) (h : s.Resolves name chain p) :
    ∃ r, chain.head? = some r ∧ r.name = name := by
  obtain ⟨r, rest, rfl, hget⟩ := h.head_get
  exact ⟨r, rfl, hn name r hget⟩

lemma Resolves.stored (hn : s.Named) (h : s.Resolves name chain p) {r : Record} (hr : r ∈ chain) :
    s.records.get r.name = some r := by
  obtain ⟨k, hget⟩ := Walk.stored h hr
  rwa [hn k r hget]

end State
