import Mathlib.Data.List.Infix
import Mathlib.Data.List.TakeWhile
import Mathlib.Data.String.Basic
import Mathlib.Tactic.Common
import Mathlib.Tactic.SplitIfs

/-!
# Lowercase, with the word-final sigma

A text is put in lowercase character by character, but for `Σ`: at the end of a word it becomes `ς`,
elsewhere `σ`, and what is a word's end depends on the text around it.  So the lowercase of a part of a
text need not be a part of the text's lowercase.

* `Casing` — the character tables, of any edition, and what holds of them.
* `toLowercase` — the lowercase of a text; `lowerIn` — of a part, between what stands around it.
* `SigmaKept`, `infix_of_kept` — a part whose sigmas keep their form where it stands is found.
* `openSigma` — a `Σ` at an edge whose form the surroundings decide; `kept_of_closed`: without one, the
  sigmas keep their form wherever the part stands.
* `not_infix_of_openStart`, `not_infix_of_openEnd` — with one, some surroundings hide the part.
-/

/-- Character tables for case, and the facts about them that texts rely on. -/
structure Casing where
  /-- The lowercase of one character, by itself. -/
  lower : Char → List Char
  /-- The property Cased. -/
  cased : Char → Bool
  /-- The property Case_Ignorable. -/
  ignorable : Char → Bool
  lower_ascii : ∀ c, c.toNat < 0x80 → lower c = [c.toLower]
  lower_ignorable : ∀ c, ignorable c = true → lower c = [c]
  letter : cased 'a' = true ∧ ignorable 'a' = false
  sigma : cased 'Σ' = true ∧ ignorable 'Σ' = false

namespace Casing

variable (C : Casing)

/-! ## Lowercase -/

/-- A cased letter comes next, after characters that do not matter. -/
def casedNext (l : List Char) : Bool :=
  match l.dropWhile C.ignorable with
  | [] => false
  | c :: _ => C.cased c

/-- The lowercase of a `Σ`; what stands before it is read backwards. -/
def lowerSigma (before after : List Char) : Char :=
  if C.casedNext before && !C.casedNext after then 'ς' else 'σ'

/-- The lowercase of a part of a text: `before` it backwards, and `after` it. -/
def lowerIn (before after : List Char) : List Char → List Char
  | [] => []
  | c :: rest =>
      (if c = 'Σ' then [C.lowerSigma before (rest ++ after)] else C.lower c) ++
        lowerIn (c :: before) after rest

/-- `str::to_lowercase`. -/
def toLowercase (s : String) : String := String.ofList (C.lowerIn [] [] s.toList)

/-! ## What stands around a part -/

lemma casedNext_append_of_all {l : List Char} (h : ∀ c ∈ l, C.ignorable c = true)
    (m : List Char) : C.casedNext (l ++ m) = C.casedNext m := by
  rw [casedNext, List.dropWhile_append_of_pos h, casedNext]

lemma casedNext_of_all {l : List Char} (h : ∀ c ∈ l, C.ignorable c = true) :
    C.casedNext l = false := by
  have := C.casedNext_append_of_all h []
  rwa [List.append_nil] at this

/-- Nothing beyond a letter matters. -/
lemma casedNext_append_of_letter {l : List Char} (h : ¬ ∀ c ∈ l, C.ignorable c = true)
    (m : List Char) : C.casedNext (l ++ m) = C.casedNext l := by
  have hdrop : l.dropWhile C.ignorable ≠ [] := fun hnil => h (List.dropWhile_eq_nil_iff.mp hnil)
  rw [casedNext, List.dropWhile_append, casedNext]
  cases hl : l.dropWhile C.ignorable with
  | nil => exact absurd hl hdrop
  | cons c rest => simp

lemma lowerIn_append (before after l m : List Char) :
    C.lowerIn before after (l ++ m) =
      C.lowerIn before (m ++ after) l ++ C.lowerIn (l.reverse ++ before) after m := by
  induction l generalizing before with
  | nil => rfl
  | cons c l ih =>
      rw [List.cons_append, lowerIn, lowerIn, ih, List.append_assoc, List.append_assoc,
        List.reverse_cons, List.append_assoc, List.singleton_append]

/-- Two surroundings that give every `Σ` the same form give the same lowercase. -/
lemma lowerIn_congr {before before' after after' : List Char} : ∀ {l : List Char},
    (∀ p s, l = p ++ 'Σ' :: s → C.lowerSigma (p.reverse ++ before) (s ++ after) =
      C.lowerSigma (p.reverse ++ before') (s ++ after')) →
    C.lowerIn before after l = C.lowerIn before' after' l := by
  intro l
  induction l generalizing before before' with
  | nil => exact fun _ => rfl
  | cons c l ih =>
      intro h
      have hrest : C.lowerIn (c :: before) after l = C.lowerIn (c :: before') after' l := by
        refine ih fun p s hl => ?_
        have hps := h (c :: p) s (by rw [hl, List.cons_append])
        rwa [List.reverse_cons, List.append_assoc, List.append_assoc] at hps
      rw [lowerIn, lowerIn, hrest]
      split_ifs with hc
      · have hhere := h [] l (by rw [hc, List.nil_append])
        rw [List.reverse_nil, List.nil_append, List.nil_append] at hhere
        rw [hhere]
      · rfl

/-- The length does not depend on what stands around. -/
lemma length_lowerIn (before before' after after' : List Char) : ∀ l : List Char,
    (C.lowerIn before after l).length = (C.lowerIn before' after' l).length
  | [] => rfl
  | c :: l => by
      rw [lowerIn, lowerIn, List.length_append, List.length_append,
        length_lowerIn (c :: before) (c :: before') after after' l]
      split_ifs <;> rfl

/-- A text of characters that are their own lowercase is its own. -/
lemma lowerIn_eq_self {before after : List Char} : ∀ {l : List Char},
    (∀ c ∈ l, c ≠ 'Σ' ∧ C.lower c = [c]) → C.lowerIn before after l = l
  | [], _ => rfl
  | c :: l, h => by
      obtain ⟨hc, hl⟩ := List.forall_mem_cons.mp h
      rw [lowerIn, if_neg hc.1, hc.2, lowerIn_eq_self hl, List.singleton_append]

lemma lowerIn_of_ignorable {before after l : List Char} (h : ∀ c ∈ l, C.ignorable c = true) :
    C.lowerIn before after l = l := by
  refine C.lowerIn_eq_self fun c hc => ⟨?_, C.lower_ignorable c (h c hc)⟩
  rintro rfl
  exact Bool.false_ne_true (C.sigma.2.symm.trans (h _ hc))

/-- A `Σ` leaves a small sigma. -/
lemma sigma_mem_lowerIn {before after l : List Char} (h : 'Σ' ∈ l) :
    'σ' ∈ C.lowerIn before after l ∨ 'ς' ∈ C.lowerIn before after l := by
  obtain ⟨p, s, rfl⟩ := List.append_of_mem h
  rw [lowerIn_append, lowerIn, if_pos rfl]
  simp only [List.mem_append, List.mem_singleton, lowerSigma]
  split_ifs <;> simp

/-! ## A part that is found -/

/-- Between `before`, backwards, and `after`, every `Σ` of `x` has the form it has in `x` alone. -/
def SigmaKept (before x after : List Char) : Prop :=
  ∀ p s, x = p ++ 'Σ' :: s →
    C.lowerSigma (p.reverse ++ before) (s ++ after) = C.lowerSigma p.reverse s

/-- **A part whose sigmas keep their form is found.** -/
theorem infix_of_kept {u x v : List Char} (h : C.SigmaKept u.reverse x v) :
    C.lowerIn [] [] x <:+: C.lowerIn [] [] (u ++ x ++ v) := by
  have hx : C.lowerIn (u.reverse ++ []) (v ++ []) x = C.lowerIn [] [] x := by
    refine C.lowerIn_congr fun p s hps => ?_
    rw [List.append_nil, List.append_nil, List.append_nil, List.append_nil]
    exact h p s hps
  refine ⟨C.lowerIn [] (x ++ (v ++ [])) u, C.lowerIn ((u ++ x).reverse ++ []) [] v, ?_⟩
  rw [List.append_assoc u x v, lowerIn_append, lowerIn_append, hx]
  simp

/-! ## Sigmas at the edges -/

/-- The first letter is a `Σ`, and no cased letter follows it: what stands before the part decides its
form. -/
def openStart (x : List Char) : Bool :=
  match x.dropWhile C.ignorable with
  | [] => false
  | c :: s => c == 'Σ' && !C.casedNext s

/-- The last letter is a `Σ`, after a cased letter: what stands after the part decides its form. -/
def openEnd (x : List Char) : Bool :=
  match x.reverse.dropWhile C.ignorable with
  | [] => false
  | c :: p => c == 'Σ' && C.casedNext p

/-- What stands around the part decides the form of a `Σ` in it. -/
def openSigma (x : List Char) : Bool := C.openStart x || C.openEnd x

lemma openStart_append {p : List Char} (hp : ∀ c ∈ p, C.ignorable c = true) (s : List Char) :
    C.openStart (p ++ 'Σ' :: s) = !C.casedNext s := by
  rw [openStart, List.dropWhile_append_of_pos hp, List.dropWhile_cons_of_neg (by simp [C.sigma.2])]
  simp

lemma openEnd_append (p : List Char) {s : List Char} (hs : ∀ c ∈ s, C.ignorable c = true) :
    C.openEnd (p ++ 'Σ' :: s) = C.casedNext p.reverse := by
  have hrev : (p ++ 'Σ' :: s).reverse = s.reverse ++ 'Σ' :: p.reverse := by simp
  rw [openEnd, hrev, List.dropWhile_append_of_pos (by simpa using hs),
    List.dropWhile_cons_of_neg (by simp [C.sigma.2])]
  simp

lemma exists_of_dropWhile {x s : List Char} {c : Char} (h : x.dropWhile C.ignorable = c :: s) :
    ∃ p, x = p ++ c :: s ∧ ∀ c ∈ p, C.ignorable c = true :=
  ⟨x.takeWhile C.ignorable, by rw [← h, List.takeWhile_append_dropWhile],
    fun _ hc => List.mem_takeWhile_imp hc⟩

lemma exists_of_openStart {x : List Char} (h : C.openStart x = true) :
    ∃ p s, x = p ++ 'Σ' :: s ∧ (∀ c ∈ p, C.ignorable c = true) ∧ C.casedNext s = false := by
  rw [openStart] at h
  split at h
  · cases h
  · rename_i c s hdrop
    rw [Bool.and_eq_true, beq_iff_eq, Bool.not_eq_true'] at h
    obtain ⟨rfl, hs⟩ := h
    obtain ⟨p, hx, hp⟩ := C.exists_of_dropWhile hdrop
    exact ⟨p, s, hx, hp, hs⟩

lemma exists_of_openEnd {x : List Char} (h : C.openEnd x = true) :
    ∃ p s, x = p ++ 'Σ' :: s ∧ (∀ c ∈ s, C.ignorable c = true) ∧ C.casedNext p.reverse = true := by
  rw [openEnd] at h
  split at h
  · cases h
  · rename_i c p hdrop
    rw [Bool.and_eq_true, beq_iff_eq] at h
    obtain ⟨rfl, hp⟩ := h
    obtain ⟨s, hx, hs⟩ := C.exists_of_dropWhile hdrop
    refine ⟨p.reverse, s.reverse, ?_, by simpa using hs, by rwa [List.reverse_reverse]⟩
    rw [← List.reverse_reverse x, hx]
    simp

lemma sigma_mem_of_openSigma {x : List Char} (h : C.openSigma x = true) : 'Σ' ∈ x := by
  rw [openSigma, Bool.or_eq_true] at h
  rcases h with h | h
  · obtain ⟨p, s, rfl, -⟩ := C.exists_of_openStart h
    simp
  · obtain ⟨p, s, rfl, -⟩ := C.exists_of_openEnd h
    simp

/-- **Without an open sigma, the sigmas keep their form everywhere.** -/
theorem kept_of_closed {x : List Char} (h : C.openSigma x = false) (before after : List Char) :
    C.SigmaKept before x after := by
  rw [openSigma, Bool.or_eq_false_iff] at h
  rintro p s rfl
  by_cases hp : ∀ c ∈ p, C.ignorable c = true
  · -- nothing but ignorable characters before it: then a cased letter follows, in the part
    have hnext : C.casedNext s = true := by simpa [C.openStart_append hp] using h.1
    have hs : ¬ ∀ c ∈ s, C.ignorable c = true := fun hs => by
      rw [C.casedNext_of_all hs] at hnext
      cases hnext
    simp only [lowerSigma, C.casedNext_append_of_letter hs, hnext, Bool.not_true, Bool.and_false]
  · have hprev : C.casedNext (p.reverse ++ before) = C.casedNext p.reverse :=
      C.casedNext_append_of_letter (by simpa using hp) before
    by_cases hs : ∀ c ∈ s, C.ignorable c = true
    · have hnone : C.casedNext p.reverse = false := by rw [← C.openEnd_append p hs, h.2]
      simp only [lowerSigma, hprev, hnone, Bool.false_and]
    · simp only [lowerSigma, hprev, C.casedNext_append_of_letter hs]

/-! ## A part that is hidden -/

/-- A text is found in one that is longer by one only at its two ends. -/
lemma infix_one_longer {w d : List Char} (hlen : d.length = w.length + 1) (h : w <:+: d) :
    (∃ e, d = e :: w) ∨ ∃ e, d = w ++ [e] := by
  obtain ⟨u, v, rfl⟩ := h
  simp only [List.length_append] at hlen
  match u, v with
  | [], [] => simp at hlen
  | [e], [] => exact Or.inl ⟨e, by simp⟩
  | [], [e] => exact Or.inr ⟨e, by simp⟩
  | _ :: _, _ :: _ => simp only [List.length_cons] at hlen; omega
  | _ :: _ :: _, [] => simp only [List.length_cons, List.length_nil] at hlen; omega
  | [], _ :: _ :: _ => simp only [List.length_cons, List.length_nil] at hlen; omega

/-- A letter is no ignorable character. -/
lemma ne_letter {c : Char} (h : C.ignorable c = true) : c ≠ 'a' := by
  rintro rfl
  exact Bool.false_ne_true (C.letter.2.symm.trans h)

lemma lower_letter : C.lower 'a' = ['a'] := C.lower_ascii 'a' (by decide)

/-- **A letter before it hides a text that opens with a sigma.** -/
theorem not_infix_of_openStart {x : List Char} (h : C.openStart x = true) :
    ¬ C.lowerIn [] [] x <:+: C.lowerIn [] [] ('a' :: x) := by
  obtain ⟨p, s, rfl, hp, hs⟩ := C.exists_of_openStart h
  have halone : C.lowerIn [] [] (p ++ 'Σ' :: s) = p ++ 'σ' :: C.lowerIn ('Σ' :: p.reverse) [] s := by
    have hnone := C.casedNext_of_all (l := p.reverse) (by simpa using hp)
    rw [lowerIn_append, C.lowerIn_of_ignorable hp, List.append_nil, lowerIn, if_pos rfl]
    simp only [lowerSigma, hnone, Bool.false_and]
    rfl
  have hthere : C.lowerIn [] [] ('a' :: (p ++ 'Σ' :: s)) =
      'a' :: (p ++ 'ς' :: C.lowerIn ('Σ' :: (p.reverse ++ ['a'])) [] s) := by
    have hcased : C.casedNext (p.reverse ++ ['a']) = true := by
      rw [C.casedNext_append_of_all (by simpa using hp)]
      simp [casedNext, C.letter]
    rw [lowerIn, if_neg (by decide), lower_letter, lowerIn_append, C.lowerIn_of_ignorable hp, lowerIn,
      if_pos rfl]
    simp only [lowerSigma, List.append_nil, hcased, hs]
    rfl
  have hlen := C.length_lowerIn ('Σ' :: p.reverse) ('Σ' :: (p.reverse ++ ['a'])) [] [] s
  rw [halone, hthere]
  intro hinfix
  rcases infix_one_longer (by simp [hlen]) hinfix with ⟨e, he⟩ | ⟨e, he⟩
  · -- right after the letter the sigma has the other form
    have := List.append_cancel_left (List.cons.inj he).2
    exact absurd (List.cons.inj this).1 (by decide)
  · -- at the very start the letter itself is in the way
    cases p with
    | nil => exact absurd (List.cons.inj he).1 (by decide)
    | cons c p => exact C.ne_letter (hp c List.mem_cons_self) (List.cons.inj he).1.symm

/-- **A letter after it hides a text that ends with a word's last sigma.** -/
theorem not_infix_of_openEnd {x : List Char} (h : C.openEnd x = true) :
    ¬ C.lowerIn [] [] x <:+: C.lowerIn [] [] (x ++ ['a']) := by
  obtain ⟨p, s, rfl, hs, hp⟩ := C.exists_of_openEnd h
  have halone : C.lowerIn [] [] (p ++ 'Σ' :: s) = C.lowerIn [] ('Σ' :: s) p ++ 'ς' :: s := by
    have hnone := C.casedNext_of_all hs
    rw [lowerIn_append, lowerIn, if_pos rfl, C.lowerIn_of_ignorable hs]
    simp only [lowerSigma, List.append_nil, hp, hnone]
    rfl
  have hthere : C.lowerIn [] [] (p ++ 'Σ' :: s ++ ['a']) =
      C.lowerIn [] ('Σ' :: (s ++ ['a'])) p ++ 'σ' :: (s ++ ['a']) := by
    have hcased : C.casedNext (s ++ ['a']) = true := by
      rw [C.casedNext_append_of_all hs]
      simp [casedNext, C.letter]
    have htail : C.lowerIn ('Σ' :: p.reverse) [] (s ++ ['a']) = s ++ ['a'] := by
      rw [lowerIn_append, C.lowerIn_of_ignorable hs, lowerIn, if_neg (by decide), lower_letter]
      rfl
    rw [List.append_assoc, List.cons_append, lowerIn_append, lowerIn, if_pos rfl]
    simp only [lowerSigma, List.append_nil, hp, hcased, htail]
    rfl
  have hlen := C.length_lowerIn [] [] ('Σ' :: s) ('Σ' :: (s ++ ['a'])) p
  rw [halone, hthere]
  intro hinfix
  rcases infix_one_longer (by simp only [List.length_append, List.length_cons, hlen]; rfl) hinfix
    with ⟨e, he⟩ | ⟨e, he⟩
  · -- one further, the text would have to end in the letter
    have hlast := congrArg List.reverse he
    simp only [List.reverse_append, List.reverse_cons, List.append_assoc] at hlast
    cases hrev : s.reverse with
    | nil =>
        rw [hrev] at hlast
        exact absurd (List.cons.inj hlast).1 (by decide)
    | cons c rest =>
        rw [hrev] at hlast
        have hc : c ∈ s := List.mem_reverse.mp (hrev ▸ List.mem_cons_self)
        exact C.ne_letter (hs c hc) (List.cons.inj hlast).1.symm
  · -- where it stands the sigma has the other form
    rw [List.append_assoc] at he
    have := (List.append_inj he hlen.symm).2
    exact absurd (List.cons.inj this).1 (by decide)

end Casing
