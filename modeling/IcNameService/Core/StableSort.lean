import Mathlib.Data.List.Sort
import Mathlib.Order.Basic

/-!
# Sorting by a key, stably

A list that is in strict order by one key, sorted by another: the sort is stable, so where the new key does
not decide the old one does.

* `StableSort.pairwise_insertionSort` — **the sorted list is in strict lexicographic order.**
* `StableSort.filter_insertionSort` — what is kept of the sorted list is what is kept, sorted.
* `StableSort.isPrefix_of_bound` — what stays below a bound is the front of the sorted list.
-/

namespace StableSort

universe u v w

variable {α : Type u} {β : Type v} {γ : Type w} [LinearOrder β] [PartialOrder γ] {key : α → β}
  {tie : α → γ}

/-- First by the key, then by the tie. -/
def Before (key : α → β) (tie : α → γ) (a b : α) : Prop :=
  key a < key b ∨ key a = key b ∧ tie a < tie b

lemma Before.key_le {a b : α} (h : Before key tie a b) : key a ≤ key b :=
  h.elim le_of_lt fun heq => heq.1.le

lemma Before.asymm {a b : α} (h : Before key tie a b) (h' : Before key tie b a) : False := by
  rcases h with hlt | ⟨heq, htie⟩
  · exact absurd h'.key_le (not_le.mpr hlt)
  · rcases h' with hlt | ⟨-, htie'⟩
    · exact absurd heq hlt.ne'
    · exact lt_asymm htie htie'

variable {l : List α}

/-- What is inserted comes before all that ties with it. -/
lemma pairwise_orderedInsert {x : α} (hl : l.Pairwise (Before key tie))
    (hx : ∀ y ∈ l, tie x < tie y) :
    (l.orderedInsert (fun a b => key a ≤ key b) x).Pairwise (Before key tie) := by
  induction l with
  | nil => simp
  | cons y l ih =>
      rw [List.pairwise_cons] at hl
      by_cases hle : key x ≤ key y
      · rw [List.orderedInsert_cons, if_pos hle, List.pairwise_cons, List.pairwise_cons]
        refine ⟨fun z hz => ?_, hl⟩
        have hkey : key x ≤ key z := by
          rcases List.mem_cons.mp hz with rfl | hz
          · exact hle
          · exact hle.trans (hl.1 z hz).key_le
        rcases hkey.lt_or_eq with hlt | heq
        · exact Or.inl hlt
        · exact Or.inr ⟨heq, hx z hz⟩
      · rw [List.orderedInsert_cons, if_neg hle, List.pairwise_cons]
        refine ⟨fun z hz => ?_, ih hl.2 fun z hz => hx z (List.mem_cons_of_mem _ hz)⟩
        rcases (List.mem_orderedInsert _).mp hz with rfl | hz
        · exact Or.inl (not_le.mp hle)
        · exact hl.1 z hz

/-- **The sorted list is in strict lexicographic order.** -/
theorem pairwise_insertionSort (h : l.Pairwise fun a b => tie a < tie b) :
    (l.insertionSort fun a b => key a ≤ key b).Pairwise (Before key tie) := by
  induction l with
  | nil => simp
  | cons x l ih =>
      rw [List.pairwise_cons] at h
      refine pairwise_orderedInsert (ih h.2) fun y hy => h.1 y ?_
      exact (List.mem_insertionSort _).mp hy

/-- What is kept of the sorted list is what is kept, sorted. -/
theorem filter_insertionSort (h : l.Pairwise fun a b => tie a < tie b) (p : α → Bool) :
    (l.insertionSort fun a b => key a ≤ key b).filter p =
      (l.filter p).insertionSort fun a b => key a ≤ key b := by
  refine @List.Perm.eq_of_pairwise _ (Before key tie) _ _ ?_
    ((pairwise_insertionSort h).filter p) (pairwise_insertionSort (h.filter p)) ?_
  · intro a b _ _ hab hba
    exact (hab.asymm hba).elim
  · exact ((List.perm_insertionSort _ l).filter p).trans (List.perm_insertionSort _ _).symm

/-- What stays below a bound is the front of a sorted list. -/
theorem isPrefix_of_bound (h : l.Pairwise (Before key tie)) {p : α → Bool}
    (hp : ∀ a b, key a ≤ key b → p b = true → p a = true) : l.filter p <+: l := by
  induction l with
  | nil => exact List.prefix_rfl
  | cons x l ih =>
      rw [List.pairwise_cons] at h
      cases hx : p x with
      | true =>
          rw [List.filter_cons_of_pos hx]
          exact List.cons_prefix_cons.mpr ⟨rfl, ih h.2⟩
      | false =>
          have hnone : l.filter p = [] := by
            refine List.filter_eq_nil_iff.mpr fun y hy hpy => ?_
            rw [hp x y (h.1 y hy).key_le hpy] at hx
            cases hx
          rw [List.filter_cons_of_neg (by simp [hx]), hnone]
          exact List.nil_prefix

end StableSort
