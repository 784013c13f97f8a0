import Mathlib.Data.List.Sort
import IcNameService.Canister.Endpoints
import IcNameService.External.Forecast

/-!
# The query methods (lib.rs)

What the canister tells about its state without changing it: names under a handle, flat names running
out, and the terms a flat name is held on.
-/

/-- The largest `u64`. -/
def u64Max : ℕ := 2 ^ 64 - 1

/-- `u64::saturating_add`. -/
def satAdd64 (a b : ℕ) : ℕ := min (a + b) u64Max

/-- A flat name close to running out. -/
structure Expiring where
  name : String
  owner : Principal
  status : Status
  /-- When the balance runs out (active) or the grace period ends (grace). -/
  deadlineNs : ℕ
  /-- Settled to now. -/
  balance : ℕ
  taxPerYear : ℕ
  deriving DecidableEq, Repr

/-- What a flat name is held on. -/
structure FlatStatus where
  name : String
  owner : Principal
  target : Target
  price : ℕ
  /-- Settled to now. -/
  balance : ℕ
  status : Status
  taxPerYear : ℕ
  /-- The least a buy at `price` must deposit. -/
  minDeposit : ℕ
  changedHandsNs : ℕ
  deriving DecidableEq, Repr

namespace State

variable {E : Env} (s : State E)

/-! ## Handles -/

/-- `handle_owner`. -/
def handleOwner (handle : String) : Option Principal := (s.handles.get handle).map Handle.owner

/-- `store::names_under`: a scan of the keys from `"<handle>/"` on. -/
def namesUnder (handle : String) : List String :=
  let pre := handle ++ "/"
  (s.records.keys.filter fun k => pre ≤ k).takeWhile fun k => pre.toList.isPrefixOf k.toList

/-! ## Flat names -/

variable (F : Forecast)

/-- The deadline of a settled holding: none for a name that never runs out, or is gone. -/
def deadline (cfg : Config) (h : Harberger) (now : ℕ) : Status → Option ℕ
  | .active => (F.nsUntilSpent cfg.params h.price h.balance).map fun ns => satAdd64 now ns
  | .grace untilNs => some untilNs
  | .free => none

/-- One record of `expiring_inner`: an entry if it runs out within `withinNs` of now. -/
def expiringEntry (cfg : Config) (withinNs now : ℕ) (r : Record) : Option Expiring := do
  let h ← r.flat
  let (h, status, _) := E.auction.settle cfg.params h now
  let deadlineNs ← deadline F cfg h now status
  if deadlineNs - now ≤ withinNs then
    some ⟨r.name, r.owner, status, deadlineNs, h.balance, F.taxPerYear cfg.params h.price⟩
  else none

/-- `expiring_inner`: flat names whose balance runs out, or whose grace period ends, within `withinNs`
of now, sorted by deadline. -/
def expiring (withinNs now : ℕ) : List Expiring :=
  (s.records.values.filterMap (expiringEntry (E := E) F s.config withinNs now)).insertionSort
    fun a b => a.deadlineNs ≤ b.deadlineNs

/-- `flat_status`. -/
def flatStatus (name : String) (now : ℕ) : Option FlatStatus :=
  (s.snapshot s.config name now).map fun (r, _, snap) =>
    { name := r.name
      owner := r.owner
      target := r.target
      price := snap.price
      balance := r.balance
      status := snap.status
      taxPerYear := F.taxPerYear s.config.params snap.price
      minDeposit := minDeposit E s.config snap.price
      changedHandsNs := r.changedHandsNs }

end State
