import Mathlib.Algebra.Order.Ring.Nat
import Mathlib.Tactic.Common

/-!
# Saturating `u128` arithmetic

Amounts are natural numbers; an addition that the program writes as `saturating_add` is `satAdd`,
which stops at `u128Max`.  Natural subtraction is already `saturating_sub`.  The lemmas say when
saturation does not bite, and that a saturating sum is zero only if every part is.
-/

/-- `u128::MAX`. -/
def u128Max : ℕ := 2 ^ 128 - 1

/-- `a.saturating_add(b)` on `u128`. -/
def satAdd (a b : ℕ) : ℕ := min (a + b) u128Max

lemma satAdd_of_le {a b : ℕ} (h : a + b ≤ u128Max) : satAdd a b = a + b := min_eq_left h

lemma satAdd_le (a b : ℕ) : satAdd a b ≤ a + b := min_le_left _ _

lemma satAdd_le_max (a b : ℕ) : satAdd a b ≤ u128Max := min_le_right _ _

/-- Either nothing was cut off, or the sum stands at the top of the range. -/
lemma satAdd_cases (a b : ℕ) :
    satAdd a b = a + b ∨ (satAdd a b = u128Max ∧ u128Max ≤ a + b) := by
  rcases le_total (a + b) u128Max with h | h
  · exact Or.inl (satAdd_of_le h)
  · exact Or.inr ⟨min_eq_right h, h⟩

lemma satAdd_eq_of_lt {a b : ℕ} (h : satAdd a b < u128Max) : satAdd a b = a + b := by
  rcases satAdd_cases a b with hc | ⟨hc, -⟩
  · exact hc
  · omega

@[simp] lemma satAdd_eq_zero {a b : ℕ} : satAdd a b = 0 ↔ a = 0 ∧ b = 0 := by
  have : 0 < u128Max := by decide
  rcases satAdd_cases a b with h | ⟨h, h'⟩ <;> omega

/-- A left fold of saturating additions is zero only on zeros. -/
lemma foldl_satAdd_eq_zero : ∀ {l : List ℕ} {acc : ℕ},
    l.foldl satAdd acc = 0 ↔ acc = 0 ∧ ∀ n ∈ l, n = 0
  | [], acc => by simp
  | n :: l, acc => by
      rw [List.foldl_cons, foldl_satAdd_eq_zero, satAdd_eq_zero]
      simp only [List.mem_cons, forall_eq_or_imp, and_assoc]
