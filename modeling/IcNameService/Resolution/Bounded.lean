import IcNameService.External.Reference
import IcNameService.Resolution.Mirror
import IcNameService.Resolution.Follow

/-!
# The bounded alias walk

`follow` computes one thing: the walk from a name along the stored aliases to an address, when the
name is valid, the walk visits at most eight records, and none of them has lapsed.  There is no other
way for it to answer, and a name that leads into a cycle has no walk at all.
-/

namespace State

variable {E : Env}

/-- **The bounded alias walk** from `name` to the address `p`, over the records of `chain`. -/
structure BoundedWalk (s : State E) (name : String) (now : ℕ) (p : Principal) (chain : List Record) :
    Prop where
  nameable : Nameable name
  walk : s.Resolves name chain p
  short : chain.length ≤ 8
  held : ∀ r ∈ chain, (settleRecord E s.config r now).2.1 ≠ .free

/-- One alias: the record under `name` is stored and aliases `next`. -/
def Aliases (s : State E) (name next : String) : Prop :=
  ∃ r, s.records.get name = some r ∧ r.target = .alias next

lemma aliases_eq_hop (s : State E) : s.Aliases = Walk.Hop s.records.get Record.pointsTo := by
  funext name next
  refine propext (exists_congr fun r => and_congr_right fun _ => ?_)
  cases htarget : r.target with
  | address p => simp [Record.pointsTo, htarget]
  | «alias» n => simp [Record.pointsTo, htarget]

/-- A record has lapsed when its settlement finds it free; one that is not flat never does. -/
lemma lapsed_eq_false_iff {cfg : Config} {r : Record} {now : ℕ} :
    lapsed (E := E) cfg r now = false ↔ (settleRecord E cfg r now).2.1 ≠ .free := by
  cases hflat : r.flat with
  | none => simp [lapsed, hflat, settleRecord_none cfg now hflat]
  | some h => simp [lapsed, hflat, settleRecord_flat cfg now hflat]

variable {s : State E} {name : String} {now : ℕ}

lemma follow_eq_ok_iff_boundedWalk (hn : s.Named) {p : Principal} {chain : List Record} :
    s.follow name now = .ok (p, chain) ↔ s.BoundedWalk name now p chain := by
  rw [follow_eq_ok hn]
  constructor
  · rintro ⟨hname, hwalk, hlen, hheld⟩
    exact ⟨hname, hwalk, hlen, fun r hr => lapsed_eq_false_iff.mp (hheld r hr)⟩
  · rintro ⟨hname, hwalk, hlen, hheld⟩
    exact ⟨hname, hwalk, hlen, fun r hr => lapsed_eq_false_iff.mpr (hheld r hr)⟩

/-- An answer that is not `Ok` is an error. -/
lemma follow_eq_error (h : ∀ p chain, s.follow name now ≠ .ok (p, chain)) :
    ∃ e, s.follow name now = .error e := by
  cases hf : s.follow name now with
  | error e => exact ⟨e, rfl⟩
  | ok x => exact absurd hf (h x.1 x.2)

/-- What the chain of a bounded walk looks like: the stored records, each aliasing the next, from the
name asked for to one that holds the address, and none twice. -/
structure Visited (s : State E) (name : String) (p : Principal) (chain : List Record) : Prop where
  stored : ∀ r ∈ chain, s.records.get r.name = some r
  first : ∃ r, chain.head? = some r ∧ r.name = name
  links : chain.IsChain fun r next => r.target = .alias next.name
  last : ∃ r, chain.getLast? = some r ∧ r.target = .address p
  distinct : (chain.map Record.name).Nodup

lemma Resolves.visited (hn : s.Named) {p : Principal} {chain : List Record}
    (h : s.Resolves name chain p) : Visited s name p chain where
  stored _ hr := h.stored hn hr
  first := h.first hn
  links := h.links hn
  last := h.last
  distinct := Walk.nodup hn h

/-- **`follow` computes exactly the bounded alias walk.**  It answers `Ok` with what the walk finds,
over the stored records as they are; where there is no such walk, and so wherever the aliases lead
into a cycle, it answers `Err`. -/
theorem follow_bounded_walk (s : State E) (hn : s.Named) (name : String) (now : ℕ) :
    (∀ p chain, s.follow name now = .ok (p, chain) ↔ s.BoundedWalk name now p chain) ∧
      (∀ p chain, s.follow name now = .ok (p, chain) → Visited s name p chain) ∧
      ((∀ p chain, ¬ s.BoundedWalk name now p chain) → ∃ e, s.follow name now = .error e) ∧
      ∀ entry, Relation.ReflTransGen s.Aliases name entry →
        Relation.TransGen s.Aliases entry entry → ∃ e, s.follow name now = .error e := by
  refine ⟨fun p chain => follow_eq_ok_iff_boundedWalk hn, fun p chain h => ?_, fun h => ?_,
    fun entry htail hcycle => ?_⟩
  · exact ((follow_eq_ok_iff_boundedWalk hn).mp h).walk.visited hn
  · exact follow_eq_error fun p chain hf => h p chain ((follow_eq_ok_iff_boundedWalk hn).mp hf)
  · rw [aliases_eq_hop] at htail hcycle
    exact follow_eq_error fun p chain hf =>
      Walk.no_cycle htail hcycle ((follow_eq_ok_iff_boundedWalk hn).mp hf).walk

/-! ## A walk, a loop and a tail into it -/

/-- `h/x` aliases `h/y`, which holds an address; `h/a` and `h/b` alias each other. -/
def tangled : State Env.reference :=
  [Record.new "h/x" ⟨[5]⟩ (.alias "h/y") 0, Record.new "h/y" ⟨[5]⟩ (.address ⟨[9]⟩) 0,
    Record.new "h/a" ⟨[5]⟩ (.alias "h/b") 0, Record.new "h/b" ⟨[5]⟩ (.alias "h/a") 0].foldl
      putRecord blank

lemma tangled_named : tangled.Named :=
  Named.putRecords (fun name r h => by cases h) _

theorem follow_bounded_walk_tangled :
    (∃ chain, tangled.follow "h/x" 0 = .ok (⟨[9]⟩, chain) ∧ chain.length = 2 ∧
      Visited tangled "h/x" ⟨[9]⟩ chain) ∧ ∃ e, tangled.follow "h/a" 0 = .error e := by
  obtain ⟨-, hvisited, -, -⟩ := follow_bounded_walk tangled tangled_named "h/x" 0
  obtain ⟨-, -, -, hcycle⟩ := follow_bounded_walk tangled tangled_named "h/a" 0
  have hx : ∃ chain, tangled.follow "h/x" 0 = .ok (⟨[9]⟩, chain) ∧ chain.length = 2 :=
    ⟨_, rfl, rfl⟩
  obtain ⟨chain, hok, hlen⟩ := hx
  have hab : tangled.Aliases "h/a" "h/b" := ⟨_, rfl, rfl⟩
  have hba : tangled.Aliases "h/b" "h/a" := ⟨_, rfl, rfl⟩
  exact ⟨⟨chain, hok, hlen, hvisited _ _ hok⟩, hcycle "h/a" .refl (.tail (.single hab) hba)⟩

end State
