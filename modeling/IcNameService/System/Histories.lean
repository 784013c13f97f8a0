import IcNameService.Canister.Shape
import IcNameService.External.Reference
import IcNameService.System.World

/-!
# Histories of the world

The induction every result about a whole run goes through.  The schema marker of a world that starts
at the current schema never changes, so each step of a run is a `Stepped`; `run_induction` carries a
property of the history and the world along them.
-/

namespace World

variable {E : Env}

/-- The history of a world, newest message first. -/
abbrev History (E : Env) := List (Entry (World E) Event Output)

lemma stepped_schema {w w' : World E} {e : Event} {o : Output} (h : Stepped w e w' o) :
    w'.canister.schema = w.canister.schema := by
  cases h with
  | answered _ h => exact State.called_schema h
  | suspended _ h => exact State.called_schema h
  | resumed _ _ h => exact State.resumed_schema h
  | continued => rfl
  | upgraded => rfl

variable {ok : World E → Event → Prop} {w₀ w : World E} {tr : History E}

/-- A world that starts at the current schema stays there. -/
lemma run_schema (h₀ : w₀.canister.schema = some schemaCurrent)
    (h : Run (machine E) ok w₀ tr w) : w.canister.schema = some schemaCurrent := by
  induction h with
  | nil => exact h₀
  | snoc _ _ hs ih => exact (stepped_schema (stepped_of_step ih hs)).trans ih

/-- **Induction over a history.**  What the first world has, and every message keeps, holds in every
world reached. -/
theorem run_induction {I : History E → World E → Prop}
    (hschema : w₀.canister.schema = some schemaCurrent) (h₀ : I [] w₀)
    (hstep : ∀ tr w e w' o, Run (machine E) ok w₀ tr w → I tr w → ok w e → Stepped w e w' o →
      I (⟨w, e, o, w'⟩ :: tr) w')
    (h : Run (machine E) ok w₀ tr w) : I tr w :=
  h.invariantWith h₀ fun tr w e w' o hr hi hok hs =>
    hstep tr w e w' o hr hi hok (stepped_of_step (run_schema hschema hr) hs)

/-- The same for a property of the world alone. -/
theorem run_invariant {I : World E → Prop} (hschema : w₀.canister.schema = some schemaCurrent)
    (h₀ : I w₀) (hstep : ∀ w e w' o, I w → ok w e → Stepped w e w' o → I w')
    (h : Run (machine E) ok w₀ tr w) : I w :=
  run_induction (I := fun _ w => I w) hschema h₀
    (fun _ w e w' o _ hi hok hs => hstep w e w' o hi hok hs) h

/-- The entries of a history are steps, each from a world a run reaches. -/
lemma run_entry (hschema : w₀.canister.schema = some schemaCurrent)
    (h : Run (machine E) ok w₀ tr w) {newer older : History E}
    {e : Entry (World E) Event Output} (htr : tr = newer ++ e :: older) :
    Run (machine E) ok w₀ older e.pre ∧ ok e.pre e.event ∧ Stepped e.pre e.event e.post e.out ∧
      Run (machine E) ok w₀ (e :: older) e.post := by
  obtain ⟨hr, hok, hs, hr'⟩ := h.split htr
  exact ⟨hr, hok, stepped_of_step (run_schema hschema hr) hs, hr'⟩

lemma shape_init : (State.init (E := E)).Shape where
  named name r h := by cases h
  records name r h := by cases h
  auctions name r h := by cases h

/-! ## Time and names of calls -/

/-- A message takes the world to its own time, and time does not go back. -/
lemma stepped_now {w w' : World E} {e : Event} {o : Output} (h : Stepped w e w' o) :
    w.now ≤ w'.now := by
  cases h <;> assumption

/-- Every suspended call was given its number before. -/
def Numbered (w : World E) : Prop := ∀ id p, w.pending.get id = some p → id < w.nextId

lemma Numbered.fresh {w : World E} (h : Numbered w) : w.pending.get w.nextId = none := by
  cases hp : w.pending.get w.nextId with
  | none => rfl
  | some p => exact absurd (h _ _ hp) (lt_irrefl _)

lemma numbered_start (s : State E) : Numbered (start s) := fun id p h => by
  simp [start] at h

lemma numbered_step {w w' : World E} {e : Event} {o : Output} (hn : Numbered w)
    (h : Stepped w e w' o) : Numbered w' := by
  intro id p hp
  cases h with
  | answered => exact hn id p hp
  | suspended =>
      rcases OrdMap.get_insert_eq_some.mp hp with ⟨rfl, -⟩ | ⟨-, hp⟩
      · exact Nat.lt_succ_self _
      · exact (hn id p hp).trans (Nat.lt_succ_self _)
  | resumed =>
      exact hn id p (OrdMap.get_erase_eq_some.mp hp).2
  | continued _ hget =>
      rcases OrdMap.get_insert_eq_some.mp hp with ⟨rfl, -⟩ | ⟨-, hp⟩
      · exact hn _ _ hget
      · exact hn id p hp
  | upgraded => exact hn id p hp

/-! ## What suspended calls carry -/

/-- Every suspended call has `Q`. -/
def Suspended (Q : Pending → Prop) (w : World E) : Prop := ∀ id p, w.pending.get id = some p → Q p

lemma suspended_start (Q : Pending → Prop) (s : State E) : Suspended Q (start s) := fun id p h => by
  simp [start] at h

/-- What a call carries when it is suspended, and `fund_self` from one await to the next, every
suspended call carries. -/
lemma suspended_step {Q : Pending → Prop} {w w' : World E} {e : Event} {o : Output}
    (hcall : ∀ cx c s p, State.Called w.canister cx c s (.await p) → Q p)
    (hcont : ∀ cfg amount, Q (.fundSelfFee cfg amount) → Q (.fundSelf cfg amount))
    (hq : Suspended Q w) (h : Stepped w e w' o) : Suspended Q w' := by
  intro id p hp
  cases h with
  | answered => exact hq id p hp
  | suspended _ hc =>
      rcases OrdMap.get_insert_eq_some.mp hp with ⟨-, rfl⟩ | ⟨-, hp⟩
      · exact hcall _ _ _ _ hc
      · exact hq id p hp
  | resumed =>
      exact hq id p (OrdMap.get_erase_eq_some.mp hp).2
  | continued _ hget =>
      rcases OrdMap.get_insert_eq_some.mp hp with ⟨-, rfl⟩ | ⟨-, hp⟩
      · exact hcont _ _ (hq _ _ hget)
      · exact hq id p hp
  | upgraded => exact hq id p hp

lemma suspended_carried_step {w w' : World E} {e : Event} {o : Output}
    (hq : Suspended State.Carried w) (h : Stepped w e w' o) : Suspended State.Carried w' :=
  suspended_step (fun _ _ _ _ => State.carried_called) (fun _ _ h => h) hq h

/-- **The grammar holds in every world reached.** -/
theorem run_shape (h : Run (machine E) ok init tr w) : w.canister.Shape := by
  have key : w.canister.Shape ∧ Suspended State.Carried w := by
    refine run_invariant (I := fun w => w.canister.Shape ∧ Suspended State.Carried w) rfl
      ⟨shape_init, suspended_start _ _⟩ ?_ h
    rintro w e w' o ⟨hshape, hcarried⟩ - hs
    refine ⟨?_, suspended_carried_step hcarried hs⟩
    cases hs with
    | answered _ hc => exact State.called_shape hshape hc
    | suspended _ hc => exact State.called_shape hshape hc
    | resumed _ hget hr => exact State.resumed_shape hshape (hcarried _ _ hget) hr
    | continued => exact hshape.congr rfl rfl
    | upgraded => exact hshape.congr rfl rfl
  exact key.1

/-! ## Where a suspended payment comes from -/

/-- The entry is the call that suspended `p` under `id`. -/
structure Starts (e : Entry (World E) Event Output) (id : ℕ) (p : Pending) (cx : Ctx) (c : Call) :
    Prop where
  event : e.event = .call cx c
  out : e.out = .awaiting p
  id_eq : e.pre.nextId = id
  started : State.PullStarted e.pre.canister cx c p

/-- **A payment suspended in its pull was suspended by a call of the history**, and carries what that
call saw. -/
theorem run_started {s₀ : State E} (hschema : s₀.schema = some schemaCurrent)
    (h : Run (machine E) ok (start s₀) tr w) {id : ℕ} {p : Pending} {payer : Principal} {amount : ℕ}
    (hget : w.pending.get id = some p) (hp : State.Pulling p payer amount) :
    ∃ e ∈ tr, ∃ cx c, Starts e id p cx c := by
  have key : ∀ id p payer amount, w.pending.get id = some p → State.Pulling p payer amount →
      ∃ e ∈ tr, ∃ cx c, Starts e id p cx c := by
    refine run_induction (I := fun tr w => ∀ id p payer amount, w.pending.get id = some p →
      State.Pulling p payer amount → ∃ e ∈ tr, ∃ cx c, Starts e id p cx c) hschema
      (fun id p _ _ hget => by simp [start] at hget) ?_ h
    intro tr w e w' o _ ih _ hs id p payer amount hget hp
    have hold : w.pending.get id = some p → ∃ e' ∈ ⟨w, e, o, w'⟩ :: tr, ∃ cx c,
        Starts e' id p cx c := fun hget => by
      obtain ⟨e', he', cx, c, hstart⟩ := ih id p payer amount hget hp
      exact ⟨e', List.mem_cons_of_mem _ he', cx, c, hstart⟩
    cases hs with
    | answered => exact hold hget
    | @suspended cx c s q _ hc =>
        rcases OrdMap.get_insert_eq_some.mp hget with ⟨rfl, rfl⟩ | ⟨-, hget⟩
        · refine ⟨_, List.mem_cons_self, cx, c, rfl, rfl, rfl, ?_⟩
          cases hc with
          | pulling hstart => exact hstart
          | withdrawing => cases hp
          | funding => cases hp
          | configuring => cases hp
        · exact hold hget
    | resumed =>
        exact hold (OrdMap.get_erase_eq_some.mp hget).2
    | continued =>
        rcases OrdMap.get_insert_eq_some.mp hget with ⟨-, rfl⟩ | ⟨-, hget⟩
        · cases hp
        · exact hold hget
    | upgraded => exact hold hget
  exact key id p payer amount hget hp

end World

/-! ## Histories written down -/

namespace Script

/-- A controller of the canister. -/
def controller (now : ℕ) : Ctx := ⟨now, ⟨[1]⟩, true⟩

/-- Anyone else. -/
def caller (n : UInt8) (now : ℕ) : Ctx := ⟨now, ⟨[n]⟩, false⟩

/-- An open market, at the highest rate and the shortest grace. -/
def market : Config :=
  { Config.default with rateBps := 10000, minPrice := 0, graceNs := 10, flatNamesOpen := true }

/-- The market is opened, with auctions of ten nanoseconds a phase. -/
def opening : List Event :=
  [.call (controller 0) (.setAuctionConfig ⟨10, 10, 0⟩),
    .call (controller 0) (.setHarbergerConfig market),
    .reply 0 0 (.ok 1) 0]

/-- A sealed bid, and the pull of its deposit. -/
def bidding (id : ℕ) (n : UInt8) (name : String) (amount deposit now : ℕ) : List Event :=
  [.call (caller n now) (.bid name (Reference.commitment [n] amount []) deposit),
    .reply now id (.ok 0) deposit]

/-- A bid that is revealed, and the auction closed over it. -/
def winning (id : ℕ) (n : UInt8) (name aliasTo : String) (amount deposit now : ℕ) : List Event :=
  bidding id n name amount deposit now ++
    [.call (caller n (now + 10)) (.reveal name amount [] aliasTo),
      .call (caller n (now + 20)) (.closeAuction name)]

/-- A handle is registered, and a record for an address is written under it. -/
def housing : List Event :=
  [.call (caller 5 0) (.registerHandle "h"), .call (caller 5 0) (.setRecord "h/x" (.address ⟨[9]⟩))]

/-- A bid that is never revealed: its deposit of a hundred goes to the treasury. -/
def forfeiting : List Event :=
  opening ++ bidding 1 2 "abc" 10 100 0 ++ [.call (caller 3 20) (.closeAuction "abc")]

/-- A price at which a cycle is due every nanosecond at the highest rate. -/
def cyclePerNs : ℕ := Reference.yearNs

/-- A price at which a cycle is due every twenty nanoseconds. -/
def cyclePerTwentyNs : ℕ := 1576800000000000

/-- A name is won with nothing to pay its tax from, lapses, and is bid for again. -/
def reauctioned : List Event :=
  opening ++ winning 1 2 "abc" "h/x" cyclePerTwentyNs cyclePerTwentyNs 5 ++
    bidding 2 3 "abc" 10 100 46

end Script
