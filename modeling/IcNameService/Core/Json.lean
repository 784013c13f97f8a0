import Mathlib.Data.List.TakeWhile
import Mathlib.Data.String.Basic
import Mathlib.Tactic.Common
import Mathlib.Tactic.SplitIfs

/-!
# JSON

Values, the compact text of a value, and a reader.  The printer writes no blank between tokens and a
short escape where there is one; the reader takes blanks anywhere, every escape but surrogate pairs,
and the naturals as its only numbers.

* `chars`, `print` — the compact text.
* `text_escapeChar`, `text_escaped` — an escaped character, and an escaped string, is read back.
* `value_chars` — the reader stops exactly where a printed value ends, whatever follows it.
* `parse_print` — **what is printed is read back**, so the text determines the value.
* `field`, `optional` — a member of an object by its key.
-/

/-- A JSON value; an object keeps its members in order. -/
inductive Json
  | null
  | bool (b : Bool)
  | num (n : ℕ)
  | str (s : String)
  | arr (vs : List Json)
  | obj (ms : List (String × Json))

namespace Json

/-! ## Printing -/

/-- The characters a string is not written with as they are: quote, backslash, controls. -/
def escapeChar (c : Char) : List Char :=
  if c = '"' then ['\\', '"']
  else if c = '\\' then ['\\', '\\']
  else if c = '\x08' then ['\\', 'b']
  else if c = '\x0c' then ['\\', 'f']
  else if c = '\n' then ['\\', 'n']
  else if c = '\r' then ['\\', 'r']
  else if c = '\t' then ['\\', 't']
  else if c.toNat < 0x20 then
    ['\\', 'u', '0', '0', Nat.digitChar (c.toNat / 16), Nat.digitChar (c.toNat % 16)]
  else [c]

/-- A string between its quotes. -/
def quoted (s : String) : List Char := '"' :: (s.toList.flatMap escapeChar ++ ['"'])

mutual

/-- The text of a value. -/
def chars : Json → List Char
  | null => ['n', 'u', 'l', 'l']
  | bool true => ['t', 'r', 'u', 'e']
  | bool false => ['f', 'a', 'l', 's', 'e']
  | num n => Nat.toDigits 10 n
  | str s => quoted s
  | arr [] => ['[', ']']
  | arr (v :: vs) => '[' :: (chars v ++ moreElements vs)
  | obj [] => ['\x7b', '\x7d']
  | obj ((k, v) :: ms) => '\x7b' :: (quoted k ++ ':' :: (chars v ++ moreMembers ms))

/-- The elements after the first, and the bracket. -/
def moreElements : List Json → List Char
  | [] => [']']
  | v :: vs => ',' :: (chars v ++ moreElements vs)

/-- The members after the first, and the brace. -/
def moreMembers : List (String × Json) → List Char
  | [] => ['\x7d']
  | (k, v) :: ms => ',' :: (quoted k ++ ':' :: (chars v ++ moreMembers ms))

end

/-- The compact text of a value. -/
def print (v : Json) : String := String.ofList (chars v)

/-! ## Reading -/

/-- Space, tab, line feed and carriage return stand between tokens. -/
def isBlank (c : Char) : Bool := c == ' ' || c == '\t' || c == '\n' || c == '\r'

def skipBlanks (cs : List Char) : List Char := cs.dropWhile isBlank

/-- A hexadecimal digit, in either case. -/
def hexValue (c : Char) : Option ℕ :=
  let n := c.toNat
  if 0x30 ≤ n ∧ n ≤ 0x39 then some (n - 0x30)
  else if 0x61 ≤ n ∧ n ≤ 0x66 then some (n - 0x61 + 10)
  else if 0x41 ≤ n ∧ n ≤ 0x46 then some (n - 0x41 + 10)
  else none

/-- The character of four hexadecimal digits, unless it is half of a surrogate pair. -/
def scalar (a b c d : Char) : Option Char := do
  let n := ((← hexValue a) * 16 + (← hexValue b)) * 256 + ((← hexValue c) * 16 + (← hexValue d))
  if n < 0xD800 ∨ 0xDFFF < n then some (Char.ofNat n) else none

/-- What one character after a backslash stands for. -/
def short : Char → Option Char
  | '"' => some '"'
  | '\\' => some '\\'
  | '/' => some '/'
  | 'b' => some '\x08'
  | 'f' => some '\x0c'
  | 'n' => some '\n'
  | 'r' => some '\r'
  | 't' => some '\t'
  | _ => none

/-- A string up to its closing quote, and what follows. -/
def text : List Char → Option (List Char × List Char)
  | [] => none
  | '"' :: rest => some ([], rest)
  | '\\' :: 'u' :: a :: b :: c :: d :: rest => do
      let e ← scalar a b c d
      let p ← text rest
      some (e :: p.1, p.2)
  | '\\' :: e :: rest => do
      let c ← short e
      let p ← text rest
      some (c :: p.1, p.2)
  | c :: rest =>
      if c.toNat < 0x20 then none
      else do
        let p ← text rest
        some (c :: p.1, p.2)

/-- The digits at the front as a number, and what follows. -/
def number (cs : List Char) : ℕ × List Char :=
  (Nat.ofDigitChars 10 (cs.takeWhile Char.isDigit) 0, cs.dropWhile Char.isDigit)

/-- What follows a given character, blanks before it skipped. -/
def after (c : Char) (cs : List Char) : Option (List Char) :=
  match skipBlanks cs with
  | [] => none
  | d :: rest => if d = c then some rest else none

/-- What follows a given word. -/
def literal (word : List Char) (cs : List Char) : Option (List Char) :=
  if word.isPrefixOf cs then some (cs.drop word.length) else none

/-- A key and its colon. -/
def key (cs : List Char) : Option (String × List Char) := do
  let rest ← after '"' cs
  let p ← text rest
  let rest ← after ':' p.2
  some (String.ofList p.1, rest)

mutual

/-- The value at the front, and what follows; `fuel` more values may be read. -/
def value : ℕ → List Char → Option (Json × List Char)
  | 0, _ => none
  | fuel + 1, cs =>
      match skipBlanks cs with
      | [] => none
      | c :: rest =>
          if c = '"' then (text rest).map fun p => (str (String.ofList p.1), p.2)
          else if c = '[' then
            match after ']' rest with
            | some rest => some (arr [], rest)
            | none => do
                let p ← value fuel rest
                let q ← elements fuel p.2
                some (arr (p.1 :: q.1), q.2)
          else if c = '\x7b' then
            match after '\x7d' rest with
            | some rest => some (obj [], rest)
            | none => do
                let k ← key rest
                let p ← value fuel k.2
                let q ← members fuel p.2
                some (obj ((k.1, p.1) :: q.1), q.2)
          else if c.isDigit then
            let p := number (c :: rest)
            some (num p.1, p.2)
          else if c = 'n' then (literal ['u', 'l', 'l'] rest).map fun rest => (null, rest)
          else if c = 't' then (literal ['r', 'u', 'e'] rest).map fun rest => (bool true, rest)
          else if c = 'f' then
            (literal ['a', 'l', 's', 'e'] rest).map fun rest => (bool false, rest)
          else none

/-- The elements after the first. -/
def elements : ℕ → List Char → Option (List Json × List Char)
  | 0, _ => none
  | fuel + 1, cs =>
      match after ']' cs with
      | some rest => some ([], rest)
      | none => do
          let rest ← after ',' cs
          let p ← value fuel rest
          let q ← elements fuel p.2
          some (p.1 :: q.1, q.2)

/-- The members after the first. -/
def members : ℕ → List Char → Option (List (String × Json) × List Char)
  | 0, _ => none
  | fuel + 1, cs =>
      match after '\x7d' cs with
      | some rest => some ([], rest)
      | none => do
          let rest ← after ',' cs
          let k ← key rest
          let p ← value fuel k.2
          let q ← members fuel p.2
          some ((k.1, p.1) :: q.1, q.2)

end

/-- The one value a text holds. -/
def parse (s : String) : Option Json :=
  match value (s.length + 1) s.toList with
  | some (v, rest) => if (skipBlanks rest).isEmpty then some v else none
  | none => none

/-! ## Strings -/

lemma hexValue_digitChar : ∀ n < 16, hexValue (Nat.digitChar n) = some n := by decide

/-- The four digits of a control character. -/
lemma scalar_of_lt {c : Char} (hc : c.toNat < 0x20) :
    scalar '0' '0' (Nat.digitChar (c.toNat / 16)) (Nat.digitChar (c.toNat % 16)) = some c := by
  have hzero : hexValue '0' = some 0 := by decide
  have hhigh := hexValue_digitChar (c.toNat / 16) (by omega)
  have hlow := hexValue_digitChar (c.toNat % 16) (by omega)
  have hsum : (0 * 16 + 0) * 256 + (c.toNat / 16 * 16 + c.toNat % 16) = c.toNat := by omega
  have hplane : c.toNat < 0xD800 ∨ 0xDFFF < c.toNat := Or.inl (by omega)
  simp only [scalar, hzero, hhigh, hlow, Option.bind_eq_bind, Option.bind_some, hsum, if_pos hplane,
    Char.ofNat_toNat]

/-- A character that needs no escape stands for itself. -/
lemma text_plain {c : Char} {rest cs tail : List Char} (hquote : c ≠ '"') (hslash : c ≠ '\\')
    (hplain : ¬ c.toNat < 0x20) (h : text rest = some (cs, tail)) :
    text (c :: rest) = some (c :: cs, tail) := by
  rw [text.eq_def]
  split
  · cases ‹_ = []›
  · rename_i heq
    cases heq
    exact absurd rfl hquote
  · rename_i heq
    cases heq
    exact absurd rfl hslash
  · rename_i heq
    cases heq
    exact absurd rfl hslash
  · rename_i heq
    cases heq
    simp [hplain, h]

/-- **An escaped character is read back.** -/
lemma text_escapeChar (c : Char) {rest cs tail : List Char} (h : text rest = some (cs, tail)) :
    text (escapeChar c ++ rest) = some (c :: cs, tail) := by
  rw [escapeChar]
  split_ifs with h₁ h₂ h₃ h₄ h₅ h₆ h₇ hcontrol
  · subst h₁; simp [text, short, h]
  · subst h₂; simp [text, short, h]
  · subst h₃; simp [text, short, h]
  · subst h₄; simp [text, short, h]
  · subst h₅; simp [text, short, h]
  · subst h₆; simp [text, short, h]
  · subst h₇; simp [text, short, h]
  · simp [text, scalar_of_lt hcontrol, h]
  · exact text_plain h₁ h₂ hcontrol h

/-- An escaped string is read back up to its quote. -/
lemma text_escaped (rest : List Char) : ∀ cs : List Char,
    text (cs.flatMap escapeChar ++ '"' :: rest) = some (cs, rest)
  | [] => by simp [text]
  | c :: cs => by
      rw [List.flatMap_cons, List.append_assoc]
      exact text_escapeChar c (text_escaped rest cs)

lemma text_quoted (s : String) (rest : List Char) :
    text (s.toList.flatMap escapeChar ++ '"' :: rest) = some (s.toList, rest) :=
  text_escaped rest s.toList

/-! ## Tokens -/

lemma skipBlanks_cons {c : Char} (h : isBlank c = false) (rest : List Char) :
    skipBlanks (c :: rest) = c :: rest :=
  List.dropWhile_cons_of_neg (by simp [h])

lemma after_cons {c : Char} (h : isBlank c = false) (rest : List Char) :
    after c (c :: rest) = some rest := by
  simp [after, skipBlanks_cons h]

lemma after_cons_ne {c d : Char} (h : isBlank d = false) (hne : d ≠ c) (rest : List Char) :
    after c (d :: rest) = none := by
  simp [after, skipBlanks_cons h, hne]

lemma key_quoted (k : String) (rest : List Char) :
    key (quoted k ++ ':' :: rest) = some (k, rest) := by
  have hquote := after_cons (c := '"') (by decide)
  have hcolon := after_cons (c := ':') (by decide)
  simp [key, quoted, hquote, hcolon, text_quoted]

/-- No digit comes next. -/
def Ended (rest : List Char) : Prop := ∀ c ∈ rest.head?, c.isDigit = false

lemma ended_nil : Ended [] := by simp [Ended]

lemma ended_cons {c : Char} (h : c.isDigit = false) (rest : List Char) : Ended (c :: rest) := by
  simpa [Ended] using h

lemma Ended.takeWhile {rest : List Char} (h : Ended rest) : rest.takeWhile Char.isDigit = [] := by
  cases rest with
  | nil => rfl
  | cons c rest => exact List.takeWhile_cons_of_neg (by simp [h c rfl])

lemma Ended.dropWhile {rest : List Char} (h : Ended rest) : rest.dropWhile Char.isDigit = rest := by
  cases rest with
  | nil => rfl
  | cons c rest => exact List.dropWhile_cons_of_neg (by simp [h c rfl])

lemma isDigit_toDigits (n : ℕ) : ∀ c ∈ Nat.toDigits 10 n, c.isDigit = true :=
  fun _ hc => Nat.isDigit_of_mem_toDigits (by decide) (by decide) hc

lemma number_toDigits (n : ℕ) {rest : List Char} (h : Ended rest) :
    number (Nat.toDigits 10 n ++ rest) = (n, rest) := by
  rw [number, List.takeWhile_append_of_pos (isDigit_toDigits n),
    List.dropWhile_append_of_pos (isDigit_toDigits n), h.takeWhile, h.dropWhile, List.append_nil,
    Nat.ofDigitChars_ten_toDigits]

/-- A digit is no other token. -/
lemma ne_of_isDigit {c d : Char} (hc : c.isDigit = true) (hd : d.isDigit = false) : c ≠ d :=
  fun h => by simp [h, hd] at hc

lemma not_isBlank_of_isDigit {c : Char} (hc : c.isDigit = true) : isBlank c = false := by
  simp only [isBlank, Bool.or_eq_false_iff, beq_eq_false_iff_ne]
  exact ⟨⟨⟨ne_of_isDigit hc (by decide), ne_of_isDigit hc (by decide)⟩,
    ne_of_isDigit hc (by decide)⟩, ne_of_isDigit hc (by decide)⟩

/-- How a printed value starts: not with a blank, and not as a list or an object ends. -/
lemma chars_head : ∀ v : Json, ∃ c tail, chars v = c :: tail ∧ isBlank c = false ∧ c ≠ ']'
  | null => ⟨_, _, rfl, by decide, by decide⟩
  | bool true => ⟨_, _, rfl, by decide, by decide⟩
  | bool false => ⟨_, _, rfl, by decide, by decide⟩
  | num n => by
      rw [chars]
      cases hd : Nat.toDigits 10 n with
      | nil => exact absurd hd Nat.toDigits_ne_nil
      | cons c tail =>
          have hdigit := isDigit_toDigits n c (hd ▸ List.mem_cons_self)
          exact ⟨c, tail, rfl, not_isBlank_of_isDigit hdigit, ne_of_isDigit hdigit (by decide)⟩
  | str s => ⟨_, _, rfl, by decide, by decide⟩
  | arr [] => ⟨_, _, rfl, by decide, by decide⟩
  | arr (_ :: _) => ⟨_, _, rfl, by decide, by decide⟩
  | obj [] => ⟨_, _, rfl, by decide, by decide⟩
  | obj ((_, _) :: _) => ⟨_, _, rfl, by decide, by decide⟩

lemma chars_length_pos (v : Json) : 0 < (chars v).length := by
  obtain ⟨c, tail, h, -⟩ := chars_head v
  simp [h]

lemma after_bracket_chars (v : Json) (rest : List Char) : after ']' (chars v ++ rest) = none := by
  obtain ⟨c, tail, h, hblank, hne⟩ := chars_head v
  rw [h, List.cons_append]
  exact after_cons_ne hblank hne _

/-- What follows an element is no digit. -/
lemma ended_moreElements (vs : List Json) (rest : List Char) :
    Ended (moreElements vs ++ rest) := by
  cases vs with
  | nil => exact ended_cons (by decide) _
  | cons v vs => exact ended_cons (by decide) _

lemma ended_moreMembers (ms : List (String × Json)) (rest : List Char) :
    Ended (moreMembers ms ++ rest) := by
  cases ms with
  | nil => exact ended_cons (by decide) _
  | cons m ms => exact ended_cons (by decide) _

/-! ## The round trip -/

mutual

/-- **The reader stops exactly where a printed value ends.**  The fuel is any bound on the length of
what is printed; a number ends where no digit follows. -/
theorem value_chars : ∀ (v : Json) (fuel : ℕ) (rest : List Char), (chars v).length ≤ fuel →
    Ended rest → value fuel (chars v ++ rest) = some (v, rest)
  | v, 0, _, hfuel, _ => absurd hfuel (not_le.mpr (chars_length_pos v))
  | null, fuel + 1, rest, _, _ => by
      simp [chars, value, skipBlanks_cons (c := 'n') (by decide), literal]
  | bool true, fuel + 1, rest, _, _ => by
      simp [chars, value, skipBlanks_cons (c := 't') (by decide), literal]
  | bool false, fuel + 1, rest, _, _ => by
      simp [chars, value, skipBlanks_cons (c := 'f') (by decide), literal]
  | num n, fuel + 1, rest, _, hrest => by
      have hnumber := number_toDigits n hrest
      rw [chars, value]
      cases hd : Nat.toDigits 10 n with
      | nil => exact absurd hd Nat.toDigits_ne_nil
      | cons c tail =>
          have hdigit := isDigit_toDigits n c (hd ▸ List.mem_cons_self)
          rw [hd, List.cons_append] at hnumber
          rw [List.cons_append, skipBlanks_cons (not_isBlank_of_isDigit hdigit)]
          simp only [if_neg (ne_of_isDigit hdigit (d := '"') (by decide)),
            if_neg (ne_of_isDigit hdigit (d := '[') (by decide)),
            if_neg (ne_of_isDigit hdigit (d := '\x7b') (by decide)), hdigit, if_true, hnumber]
  | str s, fuel + 1, rest, _, _ => by
      simp [chars, quoted, value, skipBlanks_cons (c := '"') (by decide), text_quoted]
  | arr [], fuel + 1, rest, _, _ => by
      simp [chars, value, skipBlanks_cons (c := '[') (by decide), after_cons (c := ']') (by decide)]
  | arr (v :: vs), fuel + 1, rest, hfuel, hrest => by
      simp only [chars, List.length_cons, List.length_append] at hfuel
      have hv := value_chars v fuel (moreElements vs ++ rest) (by omega) (ended_moreElements vs rest)
      have hvs := elements_moreElements vs fuel rest (by omega)
      simp only [chars, List.cons_append, List.append_assoc, value,
        skipBlanks_cons (c := '[') (by decide), after_bracket_chars v]
      simp [hv, hvs]
  | obj [], fuel + 1, rest, _, _ => by
      simp [chars, value, skipBlanks_cons (c := '\x7b') (by decide),
        after_cons (c := '\x7d') (by decide)]
  | obj ((k, v) :: ms), fuel + 1, rest, hfuel, hrest => by
      simp only [chars, List.length_cons, List.length_append] at hfuel
      have hv := value_chars v fuel (moreMembers ms ++ rest) (by omega) (ended_moreMembers ms rest)
      have hms := members_moreMembers ms fuel rest (by omega)
      have hquote : after '\x7d' (quoted k ++ ':' :: (chars v ++ (moreMembers ms ++ rest))) = none :=
        after_cons_ne (by decide) (by decide) _
      simp only [chars, List.cons_append, List.append_assoc, value,
        skipBlanks_cons (c := '\x7b') (by decide), hquote]
      simp [key_quoted, hv, hms]

theorem elements_moreElements : ∀ (vs : List Json) (fuel : ℕ) (rest : List Char),
    (moreElements vs).length ≤ fuel → elements fuel (moreElements vs ++ rest) = some (vs, rest)
  | [], 0, _, hfuel => by simp [moreElements] at hfuel
  | _ :: _, 0, _, hfuel => by simp [moreElements] at hfuel
  | [], fuel + 1, rest, _ => by
      simp [moreElements, elements, after_cons (c := ']') (by decide)]
  | v :: vs, fuel + 1, rest, hfuel => by
      simp only [moreElements, List.length_cons, List.length_append] at hfuel
      have hv := value_chars v fuel (moreElements vs ++ rest) (by omega) (ended_moreElements vs rest)
      have hvs := elements_moreElements vs fuel rest (by omega)
      have hcomma := after_cons_ne (c := ']') (d := ',') (by decide) (by decide)
      simp only [moreElements, List.cons_append, List.append_assoc, elements, hcomma]
      simp [after_cons (c := ',') (by decide), hv, hvs]

theorem members_moreMembers : ∀ (ms : List (String × Json)) (fuel : ℕ) (rest : List Char),
    (moreMembers ms).length ≤ fuel → members fuel (moreMembers ms ++ rest) = some (ms, rest)
  | [], 0, _, hfuel => by simp [moreMembers] at hfuel
  | _ :: _, 0, _, hfuel => by simp [moreMembers] at hfuel
  | [], fuel + 1, rest, _ => by
      simp [moreMembers, members, after_cons (c := '\x7d') (by decide)]
  | (k, v) :: ms, fuel + 1, rest, hfuel => by
      simp only [moreMembers, List.length_cons, List.length_append] at hfuel
      have hv := value_chars v fuel (moreMembers ms ++ rest) (by omega) (ended_moreMembers ms rest)
      have hms := members_moreMembers ms fuel rest (by omega)
      have hcomma := after_cons_ne (c := '\x7d') (d := ',') (by decide) (by decide)
      simp only [moreMembers, List.cons_append, List.append_assoc, members, hcomma]
      simp [after_cons (c := ',') (by decide), key_quoted, hv, hms]

end

/-- **What is printed is read back.** -/
theorem parse_print (v : Json) : parse (print v) = some v := by
  have hvalue := value_chars v ((print v).length + 1) [] (by simp [print]) ended_nil
  rw [List.append_nil] at hvalue
  simp [parse, print] at hvalue ⊢
  simp [hvalue, skipBlanks]

/-! ## Members -/

/-- The first member of an object under a key. -/
def field (k : String) : Json → Option Json
  | obj ms => (ms.find? fun m => m.1 = k).map Prod.snd
  | _ => none

/-- A member that may be missing or null, read by `f`. -/
def optional {α : Type*} (f : Json → Option α) (k : String) (v : Json) : Option (Option α) :=
  match field k v with
  | none => some none
  | some null => some none
  | some w => (f w).map some

def asString : Json → Option String
  | str s => some s
  | _ => none

def asNumber : Json → Option ℕ
  | num n => some n
  | _ => none

/-- Every element of an array, read by `f`. -/
def asList {α : Type*} (f : Json → Option α) : Json → Option (List α)
  | arr vs => vs.mapM f
  | _ => none

/-- What prints as an array of what `f` reads back is read back. -/
lemma asList_map {α : Type*} {f : Json → Option α} {toJson : α → Json}
    (h : ∀ a, f (toJson a) = some a) (l : List α) : asList f (arr (l.map toJson)) = some l := by
  rw [asList, List.mapM_map]
  induction l with
  | nil => rfl
  | cons a l ih => simp [List.mapM_cons, h, ih]

end Json
