import Mathlib.Algebra.BigOperators.Group.List.Basic
import Mathlib.Algebra.Order.Ring.Nat
import Mathlib.Tactic.Common
import Mathlib.Tactic.SplitIfs

/-!
# Journals

A journal is a list of transfers between accounts.  An account that is left out is the world outside: what
it pays is paid in, what it receives is paid out.

* `Journal.Posted` — the balances after a journal, from those before.
* `Journal.Posted.append` — one journal after the other.
* `Journal.Posted.falls` — a balance falls only by a transfer out of it.
-/

universe u v

/-- One transfer; `none` is the world outside. -/
structure Transfer (α : Type u) where
  payer : Option α
  payee : Option α
  amount : ℕ
  deriving DecidableEq, Repr

namespace Journal

variable {α : Type u} [DecidableEq α]

/-- What a journal pays to an account. -/
def received (ts : List (Transfer α)) (a : α) : ℕ :=
  (ts.map fun t => if t.payee = some a then t.amount else 0).sum

/-- What a journal takes from an account. -/
def paid (ts : List (Transfer α)) (a : α) : ℕ :=
  (ts.map fun t => if t.payer = some a then t.amount else 0).sum

@[simp] lemma received_nil (a : α) : received [] a = 0 := rfl

@[simp] lemma paid_nil (a : α) : paid [] a = 0 := rfl

@[simp] lemma received_cons (t : Transfer α) (ts : List (Transfer α)) (a : α) :
    received (t :: ts) a = (if t.payee = some a then t.amount else 0) + received ts a := rfl

@[simp] lemma paid_cons (t : Transfer α) (ts : List (Transfer α)) (a : α) :
    paid (t :: ts) a = (if t.payer = some a then t.amount else 0) + paid ts a := rfl

@[simp] lemma received_append (ts us : List (Transfer α)) (a : α) :
    received (ts ++ us) a = received ts a + received us a := by simp [received]

@[simp] lemma paid_append (ts us : List (Transfer α)) (a : α) :
    paid (ts ++ us) a = paid ts a + paid us a := by simp [paid]

/-- The balances `after` are those `before`, with the journal posted. -/
def Posted (ts : List (Transfer α)) (before after : α → ℕ) : Prop :=
  ∀ a, after a + paid ts a = before a + received ts a

variable {ts us : List (Transfer α)} {f g h : α → ℕ}

lemma Posted.nil (heq : ∀ a, g a = f a) : Posted [] f g := fun a => by simp [heq a]

/-- **One journal after the other.** -/
theorem Posted.append (hfg : Posted ts f g) (hgh : Posted us g h) : Posted (ts ++ us) f h := by
  intro a
  have hts := hfg a
  have hus := hgh a
  simp only [paid_append, received_append]
  omega

/-- **A balance falls only by a transfer out of it.** -/
theorem Posted.falls (hp : Posted ts f g) {a : α} (hlt : g a < f a) :
    ∃ t ∈ ts, t.payer = some a ∧ 0 < t.amount := by
  have hpaid : paid ts a ≠ 0 := by
    have := hp a
    omega
  by_contra hnone
  push Not at hnone
  refine hpaid (List.sum_eq_zero fun n hn => ?_)
  obtain ⟨t, ht, rfl⟩ := List.mem_map.mp hn
  split_ifs with hpayer
  · have := hnone t ht hpayer
    omega
  · rfl

end Journal
