import IcNameService.Canister.Store

/-!
# The tax config and counters (harberger.rs)

The stored config, the treasury counters and the unreconciled amounts.  The arithmetic is the
crate's; these are the canister's wrappers around it.
-/

namespace Config

/-- The crate's view of a config: the three numbers the tax needs. -/
def params (c : Config) : TaxParams := ⟨c.rateBps, c.minPrice, c.graceNs⟩

/-- The mainnet cycles ledger, `um5iw-rqaaa-aaaaq-qaaba-cai`. -/
def cyclesLedger : Principal := ⟨[0, 0, 0, 0, 2, 16, 0, 2, 1, 1]⟩

/-- `Config::default()`. -/
def default : Config where
  ledger := cyclesLedger
  rateBps := 700
  minPrice := 100000000000
  graceNs := 30 * 24 * 60 * 60 * 1000000000
  fee := 100000000
  flatNamesOpen := false
  handoverWarnNs := 30 * 24 * 60 * 60 * 1000000000

end Config

namespace State

variable {E : Env} (s : State E)

/-- The stored config, or the default when none was ever set. -/
def config : Config := s.harberger.getD Config.default

/-- `harberger::set_config`. -/
def setConfig (c : Config) : State E × Except String Unit :=
  match E.auction.checkParams c.params with
  | .error e => (s, .error e)
  | .ok () => ({ s with harberger := some c }, .ok ())

/-- Add tax that a committed settlement took to the treasury counter. -/
def noteTaxCollected (taken : ℕ) : State E :=
  if taken > 0 then { s with taxCollected := satAdd s.taxCollected taken } else s

def noteTaxWithdrawn (amount : ℕ) : State E :=
  { s with taxWithdrawn := satAdd s.taxWithdrawn amount }

/-- A withdrawal that the ledger refused after it was noted. -/
def undoTaxWithdrawn (amount : ℕ) : State E :=
  { s with taxWithdrawn := s.taxWithdrawn - amount }

/-- Cycles whose movement this canister could not confirm. -/
def noteUnreconciled (amount : ℕ) (what : String) : State E :=
  { s with unreconciled := satAdd s.unreconciled amount, unreconciledLast := what }

end State

variable (E : Env)

/-- The smallest deposit accepted when claiming or buying: the tax for one grace period. -/
def minDeposit (cfg : Config) (price : ℕ) : ℕ := E.auction.minDeposit cfg.params price

/-- Settle a flat record.  Returns the record, the status and the tax taken, which the caller
reports with `noteTaxCollected` when, and only when, it commits the settled record.  A record that
is not flat is active and owes nothing. -/
def settleRecord (cfg : Config) (r : Record) (now : ℕ) : Record × Status × ℕ :=
  match r.flat with
  | none => (r, .active, 0)
  | some h =>
      let (h', status, taken) := E.auction.settle cfg.params h now
      ({ r with flat := some h' }, status, taken)

/-! ## What a settlement leaves alone -/

section

variable {E} (cfg : Config) (r : Record) (now : ℕ)

@[simp] lemma settleRecord_name : (settleRecord E cfg r now).1.name = r.name := by
  simp only [settleRecord]; split <;> rfl

@[simp] lemma settleRecord_owner : (settleRecord E cfg r now).1.owner = r.owner := by
  simp only [settleRecord]; split <;> rfl

@[simp] lemma settleRecord_target : (settleRecord E cfg r now).1.target = r.target := by
  simp only [settleRecord]; split <;> rfl

@[simp] lemma settleRecord_text : (settleRecord E cfg r now).1.text = r.text := by
  simp only [settleRecord]; split <;> rfl

@[simp] lemma settleRecord_changedHandsNs :
    (settleRecord E cfg r now).1.changedHandsNs = r.changedHandsNs := by
  simp only [settleRecord]; split <;> rfl

@[simp] lemma settleRecord_previousTarget :
    (settleRecord E cfg r now).1.previousTarget = r.previousTarget := by
  simp only [settleRecord]; split <;> rfl

@[simp] lemma settleRecord_flat_isSome :
    (settleRecord E cfg r now).1.flat.isSome = r.flat.isSome := by
  simp only [settleRecord]; split <;> simp_all

variable {r}

lemma settleRecord_flat {h : Harberger} (hr : r.flat = some h) :
    settleRecord E cfg r now =
      ({ r with flat := some (E.auction.settle cfg.params h now).1 },
        (E.auction.settle cfg.params h now).2.1, (E.auction.settle cfg.params h now).2.2) := by
  simp only [settleRecord]; rw [hr]

lemma settleRecord_none (hr : r.flat = none) : settleRecord E cfg r now = (r, .active, 0) := by
  simp only [settleRecord]; rw [hr]

/-- **A settlement moves balance into tax and nothing else.** -/
lemma settleRecord_balance (hX : E.auction.TaxLaws) (r : Record) :
    (settleRecord E cfg r now).1.balance + (settleRecord E cfg r now).2.2 = r.balance := by
  cases hr : r.flat with
  | none => simp [settleRecord_none cfg now hr]
  | some h =>
      rw [settleRecord_flat cfg now hr]
      simpa [Record.balance, hr] using hX.settle_balance cfg.params h now

/-- A free name's record has nothing left to tax. -/
lemma settleRecord_free (hX : E.auction.TaxLaws) (r : Record)
    (hfree : (settleRecord E cfg r now).2.1 = .free) :
    (settleRecord E cfg r now).1.balance = 0 := by
  cases hr : r.flat with
  | none => simp [settleRecord_none cfg now hr] at hfree
  | some h =>
      rw [settleRecord_flat cfg now hr] at hfree ⊢
      simpa [Record.balance] using hX.settle_free cfg.params h now hfree

end
