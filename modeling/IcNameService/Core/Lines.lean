import Mathlib.Data.List.Basic
import Mathlib.Data.String.Basic

/-!
# Text in lines

What comes before the first newline of a text is one line.  Two texts that agree have the same first
line and the same rest, so a format that puts one field on each line can be read back field by field,
as long as no field holds a newline.
-/

/-- No line ends inside the text. -/
def OneLine (s : String) : Prop := '\n' ∉ s.toList

instance (s : String) : Decidable (OneLine s) := inferInstanceAs (Decidable ('\n' ∉ s.toList))

namespace OneLine

lemma append {a b : String} (ha : OneLine a) (hb : OneLine b) : OneLine (a ++ b) := by
  simp only [OneLine, String.toList_append, List.mem_append, not_or]
  exact ⟨ha, hb⟩

end OneLine

/-- Up to the first element that fails a test, two lists that agree are the same. -/
lemma List.append_cons_cancel_of {α : Type*} {P : α → Prop} {c d : α} {a b x y : List α}
    (ha : ∀ e ∈ a, P e) (hb : ∀ e ∈ b, P e) (hc : ¬ P c) (hd : ¬ P d)
    (h : a ++ c :: x = b ++ d :: y) : a = b ∧ c = d ∧ x = y := by
  induction a generalizing b with
  | nil =>
      cases b with
      | nil => simpa using h
      | cons e b =>
          simp only [nil_append, cons_append, cons.injEq] at h
          exact absurd (h.1 ▸ hb e mem_cons_self) hc
  | cons e a ih =>
      cases b with
      | nil =>
          simp only [nil_append, cons_append, cons.injEq] at h
          exact absurd (h.1 ▸ ha e mem_cons_self) hd
      | cons f b =>
          simp only [cons_append, cons.injEq] at h
          obtain ⟨rfl, h⟩ := h
          obtain ⟨rfl, hrest⟩ := ih (fun g hg => ha g (mem_cons_of_mem _ hg))
            (fun g hg => hb g (mem_cons_of_mem _ hg)) h
          exact ⟨rfl, hrest⟩

/-- Up to the first separator, two lists that agree are the same. -/
lemma List.append_cons_cancel {α : Type*} {c : α} {a b x y : List α} (ha : c ∉ a) (hb : c ∉ b)
    (h : a ++ c :: x = b ++ c :: y) : a = b ∧ x = y := by
  have hne : ∀ {l : List α}, c ∉ l → ∀ e ∈ l, e ≠ c := fun hl e he hec => hl (hec ▸ he)
  obtain ⟨hab, -, hxy⟩ := append_cons_cancel_of (P := fun e => e ≠ c) (hne ha) (hne hb) (by simp)
    (by simp) h
  exact ⟨hab, hxy⟩

/-- Where one of the lists has a single separator, the other has it in the same place. -/
lemma List.append_cons_cancel_single {α : Type*} {c : α} {a b x y : List α} (hb : c ∉ b) (hy : c ∉ y)
    (h : a ++ c :: x = b ++ c :: y) : a = b ∧ x = y := by
  by_cases ha : c ∈ a
  · obtain ⟨a₁, a₂, rfl, ha₁⟩ := List.eq_append_cons_of_mem ha
    rw [append_assoc, cons_append] at h
    obtain ⟨-, hrest⟩ := append_cons_cancel ha₁ hb h
    exact absurd (hrest ▸ mem_append_right a₂ mem_cons_self) hy
  · exact append_cons_cancel ha hb h

/-- **Two texts that agree have the same first line and the same rest.** -/
theorem line_cancel {a b x y : String} (ha : OneLine a) (hb : OneLine b)
    (h : a ++ ("\n" ++ x) = b ++ ("\n" ++ y)) : a = b ∧ x = y := by
  have hlist := congrArg String.toList h
  simp only [String.toList_append] at hlist
  obtain ⟨hab, hxy⟩ := List.append_cons_cancel ha hb hlist
  exact ⟨String.toList_inj.mp hab, String.toList_inj.mp hxy⟩

/-! ## Whole texts -/

/-- Lines written out, each ended by its newline. -/
def unlines (l : List String) : String := String.join (l.map fun line => line ++ "\n")

@[simp] lemma unlines_nil : unlines [] = "" := rfl

@[simp] lemma unlines_cons (line : String) (l : List String) :
    unlines (line :: l) = line ++ ("\n" ++ unlines l) := by
  rw [unlines, List.map_cons, String.join_cons, String.append_assoc]
  rfl

lemma unlines_append (l l' : List String) : unlines (l ++ l') = unlines l ++ unlines l' := by
  induction l with
  | nil => rw [List.nil_append, unlines_nil, String.empty_append]
  | cons line l ih => simp only [List.cons_append, unlines_cons, ih, String.append_assoc]

/-- **A text of lines has one list of lines.** -/
theorem unlines_injective : ∀ {l l' : List String}, (∀ line ∈ l, OneLine line) →
    (∀ line ∈ l', OneLine line) → unlines l = unlines l' → l = l' := by
  have hne : ∀ (line : String) (l : List String), unlines (line :: l) ≠ "" := by
    intro line l h
    have hlist := congrArg String.toList h
    rw [unlines_cons] at hlist
    simp at hlist
  intro l
  induction l with
  | nil =>
      intro l' _ _ h
      cases l' with
      | nil => rfl
      | cons line l' => exact absurd h.symm (hne line l')
  | cons line l ih =>
      intro l' hl hl' h
      cases l' with
      | nil => exact absurd h (hne line l)
      | cons line' l' =>
          rw [unlines_cons, unlines_cons] at h
          obtain ⟨rfl, hrest⟩ := line_cancel (hl line List.mem_cons_self)
            (hl' line' List.mem_cons_self) h
          rw [ih (fun x hx => hl x (List.mem_cons_of_mem _ hx))
            (fun x hx => hl' x (List.mem_cons_of_mem _ hx)) hrest]
