import Mathlib.Tactic.Common

/-!
# Since

The past-time operator of temporal logic over a history listed newest first: `Since p q` says that `q`
held at some entry and `p` at every newer one.

* `Since.mono` — weaker properties.
* `Since.iff_split` — the entry at which `q` held, set apart.
-/

universe u

/-- `q` held at some entry, and `p` has held since. -/
inductive Since {α : Type u} (p q : α → Prop) : List α → Prop
  | here {e : α} {older : List α} : q e → Since p q (e :: older)
  | still {e : α} {older : List α} : p e → Since p q older → Since p q (e :: older)

namespace Since

variable {α : Type u} {p q p' q' : α → Prop} {l : List α}

lemma mono (hp : ∀ e, p e → p' e) (hq : ∀ e, q e → q' e) (h : Since p q l) : Since p' q' l := by
  induction h with
  | here he => exact .here (hq _ he)
  | still he _ ih => exact .still (hp _ he) ih

lemma cons_iff {e : α} : Since p q (e :: l) ↔ q e ∨ (p e ∧ Since p q l) := by
  constructor
  · intro h
    cases h with
    | here he => exact Or.inl he
    | still he hl => exact Or.inr ⟨he, hl⟩
  · rintro (he | ⟨he, hl⟩)
    · exact .here he
    · exact .still he hl

instance decidable [DecidablePred p] [DecidablePred q] : ∀ l, Decidable (Since p q l)
  | [] => isFalse (by rintro ⟨⟩)
  | _ :: l =>
      have : Decidable (Since p q l) := decidable l
      decidable_of_iff _ cons_iff.symm

/-- **The entry at which it held**, with the newer entries on one side and the older ones on the
other. -/
theorem iff_split : Since p q l ↔
    ∃ newer e older, l = newer ++ e :: older ∧ q e ∧ ∀ e' ∈ newer, p e' := by
  constructor
  · intro h
    induction h with
    | @here e older he => exact ⟨[], e, older, rfl, he, by simp⟩
    | @still e older he _ ih =>
        obtain ⟨newer, x, rest, rfl, hx, hnewer⟩ := ih
        exact ⟨e :: newer, x, rest, rfl, hx, by simpa using ⟨he, hnewer⟩⟩
  · rintro ⟨newer, e, older, rfl, he, hnewer⟩
    induction newer with
    | nil => exact .here he
    | cons e' newer ih =>
        simp only [List.mem_cons, forall_eq_or_imp] at hnewer
        exact .still hnewer.1 (ih hnewer.2)

end Since
