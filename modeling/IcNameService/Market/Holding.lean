import IcNameService.External.IcAuction
import Mathlib.Algebra.Order.Group.Int

/-!
# A holding and the tax it has paid

What may happen to a holding while one holder keeps it, as a relation of its own: it is settled, reassessed
or topped up, and each time some tax is taken off its balance.  A holding that has run out stays so until it
is topped up, and a top-up covers one grace period of tax; so whoever wants it active again pays for the
next grace period first.  The one way around is to reassess it afterwards, which `Covered` rules out.

* `Tended` — what one message does to a holding, and the tax it takes.
* `Spent` — the holding has run out.
* `Funded` — the tax paid since the holding was last spent and what is left of its balance cover one grace
  period of tax at its price, unless it is spent again.
* `Funded.tended`, `Funded.covers` — every step keeps this; an active holding is covered.
-/

namespace IcAuction

variable {X : IcAuction} {p : TaxParams} {lapse : ℕ → Harberger → ℕ → Option ℕ}

/-- Reassessing at `price` what a settlement left leaves enough on the balance for one grace period, if the
holding is active and the price rises. -/
def Covered (X : IcAuction) (p : TaxParams) (h : Harberger) (now price : ℕ) : Prop :=
  (X.settle p h now).2.1 = .active → h.price < price →
    X.minDeposit p price ≤ (X.settle p h now).1.balance

instance (h : Harberger) (now price : ℕ) : Decidable (Covered X p h now price) :=
  inferInstanceAs (Decidable (_ → _ → _))

/-- What one message at `now` does to a holding that stays with its holder, and the tax it takes. -/
inductive Tended (X : IcAuction) (p : TaxParams) (now : ℕ) (h : Harberger) : ℕ → Harberger → Prop
  | untouched : Tended X p now h 0 h
  | settled : Tended X p now h (X.settle p h now).2.2 (X.settle p h now).1
  | reassessed {price : ℕ} :
      Covered X p h now price →
      Tended X p now h (X.settle p h now).2.2 { (X.settle p h now).1 with price := price }
  | toppedUp {n more : ℕ} {h' : Harberger} :
      X.topUp p (X.settle p h now).1 n now = .ok (h', more) →
      X.minDeposit p (X.settle p h now).1.price ≤ (X.settle p h now).1.balance + n →
      Tended X p now h ((X.settle p h now).2.2 + more) h'

/-- The holding has run out by `now`. -/
def Spent (lapse : ℕ → Harberger → ℕ → Option ℕ) (p : TaxParams) (h : Harberger) (now : ℕ) : Prop :=
  ∃ t, lapse p.rateBps h now = some t

lemma Spent.mono (hL : X.LapseLaws lapse) {h : Harberger} {now now' : ℕ} (hs : Spent lapse p h now)
    (hle : now ≤ now') : Spent lapse p h now' := by
  obtain ⟨t, ht⟩ := hs
  exact ⟨t, hL.lapse_mono _ _ _ _ _ ht hle⟩

/-- **A holding is active exactly until it has run out.** -/
lemma active_iff (hL : X.LapseLaws lapse) {h : Harberger} {now : ℕ} :
    (X.settle p h now).2.1 = .active ↔ ¬ Spent lapse p h now := by
  rw [hL.settle_status, Spent]
  cases hl : lapse p.rateBps h now with
  | none => simp [statusAt]
  | some t =>
      simp only [statusAt]
      split_ifs <;> simp

/-- **What stands behind a holding**, after `taxed` cycles of tax: together with the balance they cover one
grace period at its price, unless it has run out. -/
structure Funded (X : IcAuction) (lapse : ℕ → Harberger → ℕ → Option ℕ) (p : TaxParams) (now : ℕ)
    (h : Harberger) (taxed : ℤ) : Prop where
  nonneg : 0 ≤ taxed + h.balance
  covers : Spent lapse p h now ∨ 0 ≤ taxed ∧ (X.minDeposit p h.price : ℤ) ≤ taxed + h.balance

namespace Funded

variable {h h' : Harberger} {now now' tax : ℕ} {taxed : ℤ}

/-- At the moment it runs out, what it still owes is its balance. -/
lemma of_spent (hX : X.TaxLaws) (hL : X.LapseLaws lapse) (hG : X.GraceLaws lapse)
    (hgrace : (X.settle p h now).2.1 ≠ .active) :
    Funded X lapse p now h (-((X.settle p h now).2.2 : ℤ)) := by
  have hbalance := hX.settle_balance p h now
  have hspent := hG.settle_spent p h now hgrace
  refine ⟨by omega, Or.inl ?_⟩
  by_contra hnot
  exact hgrace ((active_iff hL).mpr hnot)

lemma active (hL : X.LapseLaws lapse) (hf : Funded X lapse p now h taxed) (hle : now ≤ now')
    (hactive : (X.settle p h now').2.1 = .active) :
    0 ≤ taxed ∧ (X.minDeposit p h.price : ℤ) ≤ taxed + h.balance := by
  rcases hf.covers with hspent | hcovers
  · exact absurd (hspent.mono hL hle) ((active_iff hL).mp hactive)
  · exact hcovers

/-- **A step on an active holding leaves it covered.** -/
theorem covers_tended (hX : X.TaxLaws) (hG : X.GraceLaws lapse)
    (hcovers : 0 ≤ taxed ∧ (X.minDeposit p h.price : ℤ) ≤ taxed + h.balance)
    (hactive : (X.settle p h now).2.1 = .active) (ht : Tended X p now h tax h') :
    0 ≤ taxed + tax ∧ (X.minDeposit p h'.price : ℤ) ≤ taxed + tax + h'.balance := by
  obtain ⟨hnonneg, hmin⟩ := hcovers
  have hbalance := hX.settle_balance p h now
  have hprice := hX.settle_price p h now
  cases ht with
  | untouched => exact ⟨by omega, by omega⟩
  | settled =>
      rw [hprice]
      exact ⟨by omega, by omega⟩
  | @reassessed price hcovered =>
      refine ⟨by omega, ?_⟩
      simp only
      by_cases hraised : h.price < price
      · have hleft := hcovered hactive hraised
        omega
      · have hmono := hG.minDeposit_mono p price h.price (not_lt.mp hraised)
        omega
  | toppedUp htop henough =>
      have hadded := hX.topUp_balance _ _ _ _ _ _ htop
      rw [hprice] at henough
      rw [hX.topUp_price _ _ _ _ _ _ htop, hprice]
      push_cast
      exact ⟨by omega, by omega⟩

/-- **Every step keeps what stands behind a holding.** -/
theorem tended (hX : X.TaxLaws) (hL : X.LapseLaws lapse) (hG : X.GraceLaws lapse)
    (hf : Funded X lapse p now h taxed) (hle : now ≤ now') (ht : Tended X p now' h tax h') :
    Funded X lapse p now' h' (taxed + tax) := by
  have hbalance := hX.settle_balance p h now'
  have hnonneg := hf.nonneg
  by_cases hactive : (X.settle p h now').2.1 = .active
  · have hcovers := covers_tended hX hG (hf.active hL hle hactive) hactive ht
    exact ⟨by omega, Or.inr hcovers⟩
  · -- it has run out, so a settlement takes all that is left
    have hspent := hG.settle_spent p h now' hactive
    obtain ⟨t, hlapse⟩ : Spent lapse p h now' := by
      by_contra hnot
      exact hactive ((active_iff hL).mpr hnot)
    cases ht with
    | untouched => exact ⟨by omega, Or.inl ⟨t, hlapse⟩⟩
    | settled =>
        exact ⟨by omega, Or.inl ⟨t, hL.lapse_settle p h now' now' t hlapse le_rfl p.rateBps⟩⟩
    | @reassessed price _ =>
        exact ⟨by simp only; omega, Or.inl ⟨t, hG.lapse_reprice p h now' t price hlapse⟩⟩
    | toppedUp htop henough =>
        have hadded := hX.topUp_balance _ _ _ _ _ _ htop
        have hprice := hX.topUp_price _ _ _ _ _ _ htop
        rw [hX.settle_price] at hprice henough
        refine ⟨by push_cast; omega, Or.inr ?_⟩
        rw [hprice]
        push_cast
        exact ⟨by omega, by omega⟩

/-- When a covered holding runs out, the tax has covered one grace period. -/
lemma paid (hX : X.TaxLaws) (hG : X.GraceLaws lapse)
    (hcovers : (X.minDeposit p h.price : ℤ) ≤ taxed + h.balance)
    (hgrace : (X.settle p h now).2.1 ≠ .active) :
    (X.minDeposit p h.price : ℤ) ≤ taxed + (X.settle p h now).2.2 := by
  have hbalance := hX.settle_balance p h now
  have hspent := hG.settle_spent p h now hgrace
  omega

end Funded

end IcAuction
