import Mathlib.Data.List.TakeWhile
import Mathlib.Data.String.Basic
import Mathlib.Tactic.Common
import Mathlib.Tactic.SplitIfs

/-!
# UTF-8, read leniently

`lossy` reads bytes as text and never fails: a sequence that is not UTF-8 becomes U+FFFD, one for each
maximal part of a character that stands there.  The tables are those of the Unicode standard (well-formed
byte sequences), which leave out overlong forms and surrogates.

* `encode` — the bytes of a text.
* `lossyFrom_encodeChar`, `lossy_encode` — the bytes of a character, and of a text, are read back.
* `toUTF8_toList` — what a string stores are the bytes of its text.
-/

namespace Utf8

/-! ## Reading -/

/-- How many bytes a character has by its first byte; 0 for a byte that starts none. -/
def width (b : ℕ) : ℕ :=
  if b < 0x80 then 1
  else if 0xC2 ≤ b ∧ b ≤ 0xDF then 2
  else if 0xE0 ≤ b ∧ b ≤ 0xEF then 3
  else if 0xF0 ≤ b ∧ b ≤ 0xF4 then 4
  else 0

/-- A continuation byte. -/
def isTail (x : ℕ) : Bool := 0x80 ≤ x && x ≤ 0xBF

/-- `x` may stand second after the first byte `b`. -/
def mayFollow (b x : ℕ) : Bool :=
  if b = 0xE0 then 0xA0 ≤ x && x ≤ 0xBF
  else if b = 0xED then 0x80 ≤ x && x ≤ 0x9F
  else if b = 0xF0 then 0x90 ≤ x && x ≤ 0xBF
  else if b = 0xF4 then 0x80 ≤ x && x ≤ 0x8F
  else isTail x

/-- The bytes after `b` that belong to the character it starts, as far as they stand there. -/
def tails (b : ℕ) : List ℕ → List ℕ
  | [] => []
  | x :: rest =>
      if 2 ≤ width b ∧ mayFollow b x = true then x :: (rest.take (width b - 2)).takeWhile isTail
      else []

/-- The bits of the first byte, then six bits a byte. -/
def scalar (b : ℕ) (tail : List ℕ) : ℕ :=
  tail.foldl (fun v x => v * 64 + x % 64) (if b < 0x80 then b else b % 2 ^ (7 - width b))

/-- What stands at the front: a character, or part of one. -/
def front (b : ℕ) (rest : List ℕ) : Char :=
  if (tails b rest).length + 1 = width b then Char.ofNat (scalar b (tails b rest)) else '\uFFFD'

/-- Read on after the next `skip` bytes, which are part of the character before. -/
def lossyFrom : ℕ → List ℕ → List Char
  | _, [] => []
  | skip + 1, _ :: rest => lossyFrom skip rest
  | 0, b :: rest => front b rest :: lossyFrom (tails b rest).length rest

/-- The text of any bytes. -/
def lossy (bytes : List UInt8) : String := String.ofList (lossyFrom 0 (bytes.map UInt8.toNat))

lemma lossyFrom_drop (n : ℕ) (l : List ℕ) : lossyFrom n l = lossyFrom 0 (l.drop n) := by
  induction n generalizing l with
  | zero => rfl
  | succ n ih =>
      cases l with
      | nil => simp [lossyFrom]
      | cons b rest => exact ih rest

/-! ## Reading what was written -/

/-- The bytes of a character, as numbers. -/
def encodeChar (c : Char) : List ℕ := (String.utf8EncodeChar c).map UInt8.toNat

/-- A character is no surrogate and below the last plane's end. -/
lemma toNat_range (c : Char) : c.toNat < 0xd800 ∨ (0xdfff < c.toNat ∧ c.toNat < 0x110000) := c.valid

lemma encodeChar_eq (c : Char) : encodeChar c =
    if c.toNat ≤ 0x7f then [c.toNat]
    else if c.toNat ≤ 0x7ff then [c.toNat / 64 + 0xc0, c.toNat % 64 + 0x80]
    else if c.toNat ≤ 0xffff then
      [c.toNat / 4096 + 0xe0, c.toNat / 64 % 64 + 0x80, c.toNat % 64 + 0x80]
    else
      [c.toNat / 262144 + 0xf0, c.toNat / 4096 % 64 + 0x80, c.toNat / 64 % 64 + 0x80,
        c.toNat % 64 + 0x80] := by
  have hrange := toNat_range c
  simp only [encodeChar, String.utf8EncodeChar, Char.toNat_val]
  split_ifs
  all_goals simp only [List.map_cons, List.map_nil, UInt8.toNat_ofNat', List.cons.injEq, and_true]
  all_goals omega

/-- Past the first byte, a character's bytes are continuation bytes. -/
lemma mayFollow_of_range {b x : ℕ} (hx : isTail x = true) (h₁ : b = 0xE0 → 0xA0 ≤ x)
    (h₂ : b = 0xED → x ≤ 0x9F) (h₃ : b = 0xF0 → 0x90 ≤ x) (h₄ : b = 0xF4 → x ≤ 0x8F) :
    mayFollow b x = true := by
  simp only [isTail, Bool.and_eq_true, decide_eq_true_eq] at hx
  simp only [mayFollow, isTail]
  split_ifs <;> simp only [Bool.and_eq_true, decide_eq_true_eq] <;> omega

lemma isTail_sixBits (n : ℕ) : isTail (n % 64 + 0x80) = true := by
  simp only [isTail, Bool.and_eq_true, decide_eq_true_eq]
  omega

/-- A whole character is taken whole, whatever follows. -/
lemma tails_append {b x : ℕ} {tail : List ℕ} (hwidth : tail.length + 2 = width b)
    (hx : mayFollow b x = true) (htail : ∀ y ∈ tail, isTail y = true) (rest : List ℕ) :
    tails b (x :: tail ++ rest) = x :: tail := by
  have htake : (tail ++ rest).take (width b - 2) = tail := by
    rw [← hwidth, Nat.add_sub_cancel, List.take_left]
  rw [List.cons_append, tails, if_pos ⟨by omega, hx⟩, htake, List.takeWhile_eq_self_iff.mpr htail]

/-- A character is read back from its bytes if the tail is taken whole and the bits are its own. -/
lemma lossyFrom_of_whole {c : Char} {b : ℕ} {tail rest : List ℕ} (hbytes : encodeChar c = b :: tail)
    (htails : tails b (tail ++ rest) = tail) (hwidth : tail.length + 1 = width b)
    (hscalar : scalar b tail = c.toNat) :
    lossyFrom 0 (encodeChar c ++ rest) = c :: lossyFrom 0 rest := by
  rw [hbytes, List.cons_append, lossyFrom, front, htails, if_pos hwidth, hscalar, Char.ofNat_toNat,
    lossyFrom_drop, List.drop_left]

/-- The same for a character of several bytes. -/
lemma lossyFrom_of_tail {c : Char} {b x : ℕ} {tail rest : List ℕ}
    (hbytes : encodeChar c = b :: x :: tail) (hwidth : tail.length + 2 = width b)
    (hx : mayFollow b x = true) (htail : ∀ y ∈ tail, isTail y = true)
    (hscalar : scalar b (x :: tail) = c.toNat) :
    lossyFrom 0 (encodeChar c ++ rest) = c :: lossyFrom 0 rest :=
  lossyFrom_of_whole hbytes (tails_append hwidth hx htail rest) hwidth hscalar

/-- **A character's bytes read back as the character.** -/
theorem lossyFrom_encodeChar (c : Char) (rest : List ℕ) :
    lossyFrom 0 (encodeChar c ++ rest) = c :: lossyFrom 0 rest := by
  have hrange := toNat_range c
  have heq := encodeChar_eq c
  split_ifs at heq with h₁ h₂ h₃
  · have hwidth : width c.toNat = 1 := by
      rw [width, if_pos (by omega)]
    refine lossyFrom_of_whole heq ?_ hwidth.symm ?_
    · cases rest with
      | nil => rfl
      | cons x rest => rw [List.nil_append, tails, if_neg (by omega)]
    · rw [scalar, if_pos (by omega), List.foldl_nil]
  · have hwidth : width (c.toNat / 64 + 0xc0) = 2 := by
      rw [width, if_neg (by omega), if_pos (by omega)]
    refine lossyFrom_of_tail heq hwidth.symm ?_ (by simp) ?_
    · exact mayFollow_of_range (isTail_sixBits _) (by omega) (by omega) (by omega) (by omega)
    · rw [scalar, if_neg (by omega), hwidth]
      simp only [List.foldl_cons, List.foldl_nil]
      omega
  · have hwidth : width (c.toNat / 4096 + 0xe0) = 3 := by
      rw [width, if_neg (by omega), if_neg (by omega), if_pos (by omega)]
    refine lossyFrom_of_tail heq hwidth.symm ?_ (by simp [isTail_sixBits]) ?_
    · exact mayFollow_of_range (isTail_sixBits _) (by omega) (by omega) (by omega) (by omega)
    · rw [scalar, if_neg (by omega), hwidth]
      simp only [List.foldl_cons, List.foldl_nil]
      omega
  · have hwidth : width (c.toNat / 262144 + 0xf0) = 4 := by
      rw [width, if_neg (by omega), if_neg (by omega), if_neg (by omega), if_pos (by omega)]
    refine lossyFrom_of_tail heq hwidth.symm ?_ (by simp [isTail_sixBits]) ?_
    · exact mayFollow_of_range (isTail_sixBits _) (by omega) (by omega) (by omega) (by omega)
    · rw [scalar, if_neg (by omega), hwidth]
      simp only [List.foldl_cons, List.foldl_nil]
      omega

/-- A byte below `0x80` is a character by itself. -/
lemma toNat_of_mem_utf8EncodeChar {c : Char} {b : UInt8} (hb : b ∈ String.utf8EncodeChar c)
    (hascii : b.toNat < 0x80) : c.toNat = b.toNat := by
  have hmem : b.toNat ∈ encodeChar c := List.mem_map_of_mem hb
  rw [encodeChar_eq] at hmem
  split_ifs at hmem <;> simp only [List.mem_cons, List.not_mem_nil, or_false] at hmem <;> omega

/-- The bytes of a text. -/
def encode (l : List Char) : List UInt8 := l.flatMap String.utf8EncodeChar

@[simp] lemma encode_nil : encode [] = [] := rfl

@[simp] lemma encode_cons (c : Char) (l : List Char) :
    encode (c :: l) = String.utf8EncodeChar c ++ encode l := List.flatMap_cons

lemma encode_append (l l' : List Char) : encode (l ++ l') = encode l ++ encode l' :=
  List.flatMap_append

/-- **The bytes of a text read back as the text.** -/
theorem lossy_encode (l : List Char) : lossy (encode l) = String.ofList l := by
  suffices h : lossyFrom 0 ((encode l).map UInt8.toNat) = l by rw [lossy, h]
  induction l with
  | nil => rfl
  | cons c l ih =>
      rw [encode_cons, List.map_append]
      exact (lossyFrom_encodeChar c _).trans (congrArg _ ih)

-- a character cut short is one replacement, a surrogate's bytes are three
example : lossy [0x61, 0xE2, 0x82, 0x28, 0xED, 0xA0, 0x80] = "a\uFFFD(\uFFFD\uFFFD\uFFFD" := by
  decide

/-- What a string stores are the bytes of its text. -/
lemma toUTF8_toList (s : String) : s.toUTF8.data.toList = encode s.toList := by
  rw [String.toUTF8, ← String.utf8Encode_toList, List.utf8Encode, List.toList_data_toByteArray,
    encode]

end Utf8
