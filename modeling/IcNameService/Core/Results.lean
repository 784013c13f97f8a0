import Mathlib.Tactic.Common

/-!
# Results

Fallible code in the `Except` monad: when a `?` chain succeeds, and two results that fail alike.

* `bind_eq_ok` — a chain succeeds exactly when every step of it does.
* `Both` — two results that are the same error, or related values; chains of related steps are related.
-/

namespace Except

variable {ε α β γ δ : Type}

/-- What a `?` does: a later step runs only on `Ok`. -/
theorem bind_eq_ok {x : Except ε α} {f : α → Except ε β} {b : β} :
    (x >>= f) = .ok b ↔ ∃ a, x = .ok a ∧ f a = .ok b := by
  cases x with
  | error e => simp [bind, Except.bind]
  | ok a => simp [bind, Except.bind]

lemma toOption_eq_some {x : Except ε α} {a : α} : x.toOption = some a ↔ x = .ok a := by
  cases x with
  | error e => simp [Except.toOption]
  | ok b => simp [Except.toOption]

lemma isOk_iff {x : Except ε α} : x.isOk = true ↔ ∃ a, x = .ok a := by
  cases x with
  | error e => simp [Except.isOk, Except.toBool]
  | ok a => simp [Except.isOk, Except.toBool]

/-- Two checks that pass or fail together, with the same error, on related values. -/
inductive Both (R : α → β → Prop) : Except ε α → Except ε β → Prop
  | error (e : ε) : Both R (.error e) (.error e)
  | ok {a : α} {b : β} : R a b → Both R (.ok a) (.ok b)

lemma Both.bind {R : β → γ → Prop} (x : Except ε α) {f : α → Except ε β} {g : α → Except ε γ}
    (h : ∀ a, Both R (f a) (g a)) : Both R (x >>= f) (x >>= g) := by
  cases x with
  | error e => exact .error e
  | ok a => exact h a

lemma Both.andThen {R : α → β → Prop} {Q : γ → δ → Prop} {x : Except ε α} {y : Except ε β}
    (hxy : Both R x y) {f : α → Except ε γ} {g : β → Except ε δ}
    (h : ∀ a b, R a b → Both Q (f a) (g b)) : Both Q (x >>= f) (y >>= g) := by
  cases hxy with
  | error e => exact .error e
  | ok hab => exact h _ _ hab

end Except
