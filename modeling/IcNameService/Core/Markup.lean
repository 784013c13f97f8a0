import Mathlib.Data.List.Induction
import Mathlib.Tactic.Common
import Mathlib.Tactic.SplitIfs

/-!
# Markup

The tags of a text, as a reader finds them: what stands between a '<' and the next '>'.  Escaped text has
neither, so wherever it is put it opens no tag and closes none.

* `Reader.text`, `Reader.value` — escaped text outside a tag is passed over, and in a tag is kept whole.
* `Reader.opens`, `Reader.closes` — the pieces of a page around them.
-/

namespace Markup

/-! ## Escaping -/

/-- The characters that markup is made of. -/
def escapeChar (c : Char) : List Char :=
  if c = '&' then ['&', 'a', 'm', 'p', ';']
  else if c = '<' then ['&', 'l', 't', ';']
  else if c = '>' then ['&', 'g', 't', ';']
  else if c = '"' then ['&', 'q', 'u', 'o', 't', ';']
  else [c]

def escape (cs : List Char) : List Char := cs.flatMap escapeChar

/-- A character that opens or closes no tag, and ends no attribute. -/
def Plain (c : Char) : Prop := c ≠ '<' ∧ c ≠ '>' ∧ c ≠ '"'

instance (c : Char) : Decidable (Plain c) := inferInstanceAs (Decidable (_ ∧ _ ∧ _))

/-- Checked character by character. -/
lemma plain_of_all {cs : List Char} (h : (cs.all fun c => decide (Plain c)) = true) :
    ∀ c ∈ cs, Plain c := by
  intro c hc
  exact of_decide_eq_true (List.all_eq_true.mp h c hc)

lemma plain_escapeChar (c : Char) : ∀ d ∈ escapeChar c, Plain d := by
  rw [escapeChar]
  split_ifs with hamp hlt hgt hquot
  · simp [Plain]
  · simp [Plain]
  · simp [Plain]
  · simp [Plain]
  · intro d hd
    rw [List.mem_singleton] at hd
    subst hd
    exact ⟨hlt, hgt, hquot⟩

/-- **Escaped text is plain.** -/
theorem plain_escape (cs : List Char) : ∀ d ∈ escape cs, Plain d := by
  intro d hd
  obtain ⟨c, -, hc⟩ := List.mem_flatMap.mp hd
  exact plain_escapeChar c d hc

/-! ## Reading tags -/

/-- Where a reader stands: in a tag, with what it has read of it, or outside; and the tags before. -/
structure Reader where
  inside : Option (List Char)
  tags : List (List Char)
  deriving DecidableEq

namespace Reader

def read (r : Reader) (c : Char) : Reader :=
  match r.inside with
  | none => if c = '<' then ⟨some [], r.tags⟩ else r
  | some tag => if c = '>' then ⟨none, r.tags ++ [tag]⟩ else ⟨some (tag ++ [c]), r.tags⟩

/-- A reader that has read a text. -/
def run (r : Reader) (cs : List Char) : Reader := cs.foldl read r

@[simp] lemma run_append (r : Reader) (as bs : List Char) : r.run (as ++ bs) = (r.run as).run bs :=
  List.foldl_append

/-- One piece of a text, then the rest. -/
lemma run_then {r r₁ r₂ : Reader} {as bs : List Char} (ha : r.run as = r₁) (hb : r₁.run bs = r₂) :
    r.run (as ++ bs) = r₂ := by
  rw [run_append, ha, hb]

/-- The tags before are kept, and what is read does not depend on them. -/
lemma run_tags (r : Reader) (cs : List Char) :
    r.run cs = ⟨((⟨r.inside, []⟩ : Reader).run cs).inside,
      r.tags ++ ((⟨r.inside, []⟩ : Reader).run cs).tags⟩ := by
  induction cs using List.reverseRecOn with
  | nil => simp [run]
  | append_singleton cs c ih =>
      rw [run_append, run_append, ih]
      generalize (⟨r.inside, []⟩ : Reader).run cs = q
      obtain ⟨inside, tags⟩ := q
      cases inside with
      | none => by_cases hc : c = '<' <;> simp [run, read, hc]
      | some tag => by_cases hc : c = '>' <;> simp [run, read, hc]

/-- **Plain text outside a tag is passed over.** -/
theorem text {cs : List Char} (h : ∀ c ∈ cs, Plain c) (tags : List (List Char)) :
    (⟨none, tags⟩ : Reader).run cs = ⟨none, tags⟩ := by
  induction cs with
  | nil => rfl
  | cons c cs ih =>
      rw [List.forall_mem_cons] at h
      simp only [run, List.foldl_cons, read, if_neg h.1.1]
      exact ih h.2

/-- **Plain text in a tag is kept whole.** -/
theorem value {cs : List Char} (h : ∀ c ∈ cs, Plain c) (tag : List Char) (tags : List (List Char)) :
    (⟨some tag, tags⟩ : Reader).run cs = ⟨some (tag ++ cs), tags⟩ := by
  induction cs generalizing tag with
  | nil => simp [run]
  | cons c cs ih =>
      rw [List.forall_mem_cons] at h
      simp only [run, List.foldl_cons, read, if_neg h.1.2.1]
      rw [← run, ih h.2, List.append_assoc, List.singleton_append]

/-- A piece of a page that starts and ends outside a tag. -/
lemma piece {cs : List Char} {found : List (List Char)}
    (h : (⟨none, []⟩ : Reader).run cs = ⟨none, found⟩) (tags : List (List Char)) :
    (⟨none, tags⟩ : Reader).run cs = ⟨none, tags ++ found⟩ := by
  rw [run_tags, h]

/-- A piece that ends in a tag. -/
lemma opens {cs tag : List Char} {found : List (List Char)}
    (h : (⟨none, []⟩ : Reader).run cs = ⟨some tag, found⟩) (tags : List (List Char)) :
    (⟨none, tags⟩ : Reader).run cs = ⟨some tag, tags ++ found⟩ := by
  rw [run_tags, h]

/-- A piece that ends the tag it starts in. -/
lemma closes {cs rest : List Char} {found : List (List Char)} (hcs : ∀ c ∈ cs, c ≠ '>')
    (h : (⟨none, []⟩ : Reader).run rest = ⟨none, found⟩) (tag : List Char)
    (tags : List (List Char)) :
    (⟨some tag, tags⟩ : Reader).run (cs ++ '>' :: rest) = ⟨none, tags ++ (tag ++ cs) :: found⟩ := by
  induction cs generalizing tag with
  | nil =>
      have hclosed : (⟨some tag, tags⟩ : Reader).run ('>' :: rest) =
          (⟨none, tags ++ [tag]⟩ : Reader).run rest := rfl
      rw [List.nil_append, hclosed, piece h]
      simp
  | cons c cs ih =>
      rw [List.forall_mem_cons] at hcs
      have hread : (⟨some tag, tags⟩ : Reader).run (c :: cs ++ '>' :: rest) =
          (⟨some (tag ++ [c]), tags⟩ : Reader).run (cs ++ '>' :: rest) := by
        simp only [run, List.cons_append, List.foldl_cons, read, if_neg hcs.1]
      rw [hread, ih hcs.2]
      simp

end Reader

/-- The tags of a text. -/
def tagsOf (s : String) : List String :=
  ((⟨none, []⟩ : Reader).run s.toList).tags.map String.ofList

end Markup
