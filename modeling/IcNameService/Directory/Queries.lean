import IcNameService.Canister.Query
import Mathlib.Tactic.IntervalCases

/-!
# Query strings round-trip

A query string is read in two steps: the URL is split at `?`, `#`, `&` and the first `=`, and every
piece is percent-decoded, byte by byte.

* `Unescapes` — what percent decoding makes of bytes, one case per kind of byte; `percentDecode_eq`
  says the loop computes it, on any string.
* `WritesText`, `WritesQuery` — every way to write a text, and a list of parameters.
* `WritesText.unescapes`, `WritesQuery.queryOf` — what was written is read back.
* `query_strings_round_trip` — both, over a whole URL.
-/

namespace Gateway

/-! ## Percent decoding -/

/-- Two hex digits stand at the front. -/
def EscapeAt (rest : Bytes) : Prop :=
  ∃ b₁ b₂ tail, rest = b₁ :: b₂ :: tail ∧ (digit b₁).isSome ∧ (digit b₂).isSome

/-- What percent decoding makes of bytes. -/
inductive Unescapes : Bytes → Bytes → Prop
  | nil : Unescapes [] []
  | plus {rest out : Bytes} : Unescapes rest out → Unescapes (0x2B :: rest) (0x20 :: out)
  | escape {b₁ b₂ : UInt8} {hi lo : ℕ} {rest out : Bytes} :
      digit b₁ = some hi → digit b₂ = some lo → Unescapes rest out →
      Unescapes (0x25 :: b₁ :: b₂ :: rest) (UInt8.ofNat (hi * 16 + lo) :: out)
  /-- No escape after the '%': it stays, and so does what follows. -/
  | percent {rest out : Bytes} :
      ¬ EscapeAt rest → Unescapes rest out → Unescapes (0x25 :: rest) (0x25 :: out)
  | other {b : UInt8} {rest out : Bytes} :
      b ≠ 0x2B → b ≠ 0x25 → Unescapes rest out → Unescapes (b :: rest) (b :: out)

/-- What the loop reads at `i` is the front of what is left there. -/
lemma getElem?_of_drop {bytes rest : Bytes} {i : ℕ} (h : bytes.drop i = rest) (j : ℕ) :
    bytes[i + j]? = rest[j]? := by
  rw [← h, List.getElem?_drop]

lemma length_of_drop {bytes rest : Bytes} {b : UInt8} {i : ℕ} (h : bytes.drop i = b :: rest) :
    bytes.length = i + rest.length + 1 := by
  have hlen := congrArg List.length h
  simp only [List.length_drop, List.length_cons] at hlen
  omega

lemma drop_of_drop {bytes rest front : Bytes} {i : ℕ} (h : bytes.drop i = front ++ rest) :
    bytes.drop (i + front.length) = rest := by
  rw [← List.drop_drop, h, List.drop_left]

lemma percentTurn_plus {bytes rest : Bytes} {i : ℕ} (h : bytes.drop i = 0x2B :: rest) :
    percentTurn bytes i = some (i + 1, 0x20) := by
  have hb : bytes[i]? = some 0x2B := getElem?_of_drop h 0
  simp only [percentTurn, hb]
  rfl

lemma percentTurn_other {bytes rest : Bytes} {b : UInt8} {i : ℕ} (h : bytes.drop i = b :: rest)
    (hplus : b ≠ 0x2B) (hpercent : b ≠ 0x25) : percentTurn bytes i = some (i + 1, b) := by
  have hb : bytes[i]? = some b := getElem?_of_drop h 0
  simp only [percentTurn, hb, Option.bind_eq_bind, Option.bind_some, hplus, hpercent, if_false,
    false_and]

lemma percentTurn_two {bytes rest : Bytes} {b₁ b₂ : UInt8} {i : ℕ}
    (h : bytes.drop i = 0x25 :: b₁ :: b₂ :: rest) :
    percentTurn bytes i = match digit b₁, digit b₂ with
      | some hi, some lo => some (i + 3, UInt8.ofNat (hi * 16 + lo))
      | _, _ => some (i + 1, 0x25) := by
  have hb : bytes[i]? = some 0x25 := getElem?_of_drop h 0
  have hb₁ : bytes[i + 1]? = some b₁ := getElem?_of_drop h 1
  have hb₂ : bytes[i + 2]? = some b₂ := getElem?_of_drop h 2
  have hlen : i + 2 < bytes.length := by
    rw [length_of_drop h, List.length_cons, List.length_cons]
    omega
  have hne : ¬ (0x25 : UInt8) = 0x2B := by decide
  cases hhi : digit b₁ <;> cases hlo : digit b₂ <;>
    simp only [percentTurn, hb, hb₁, hb₂, hlen, hne, hhi, hlo, Option.bind_eq_bind, Option.bind_some,
      if_false, and_self, if_true]

lemma percentTurn_escape {bytes rest : Bytes} {b₁ b₂ : UInt8} {hi lo i : ℕ}
    (h : bytes.drop i = 0x25 :: b₁ :: b₂ :: rest) (hhi : digit b₁ = some hi)
    (hlo : digit b₂ = some lo) :
    percentTurn bytes i = some (i + 3, UInt8.ofNat (hi * 16 + lo)) := by
  rw [percentTurn_two h, hhi, hlo]

/-- **A malformed or truncated escape is a '%' like any byte.** -/
lemma percentTurn_percent {bytes rest : Bytes} {i : ℕ} (h : bytes.drop i = 0x25 :: rest)
    (hno : ¬ EscapeAt rest) : percentTurn bytes i = some (i + 1, 0x25) := by
  have hb : bytes[i]? = some 0x25 := getElem?_of_drop h 0
  have hne : ¬ (0x25 : UInt8) = 0x2B := by decide
  have htruncated : rest.length < 2 → percentTurn bytes i = some (i + 1, 0x25) := by
    intro hshort
    have hlen : ¬ i + 2 < bytes.length := by
      rw [length_of_drop h]
      omega
    simp only [percentTurn, hb, hlen, hne, Option.bind_eq_bind, Option.bind_some, if_false, and_false]
  match rest with
  | [] => exact htruncated (by simp)
  | [_] => exact htruncated (by simp)
  | b₁ :: b₂ :: tail =>
      rw [percentTurn_two h]
      cases hhi : digit b₁ with
      | none => rfl
      | some hi =>
          cases hlo : digit b₂ with
          | none => rfl
          | some lo => exact absurd ⟨b₁, b₂, tail, rfl, by simp [hhi], by simp [hlo]⟩ hno

/-- One turn of the loop, over the bytes it takes. -/
lemma percentLoop_turn {bytes taken rest : Bytes} {b : UInt8} {fuel i : ℕ} (out : Bytes)
    (hdrop : bytes.drop i = taken ++ rest) (htaken : taken ≠ [])
    (hfuel : (taken ++ rest).length < fuel)
    (hturn : percentTurn bytes i = some (i + taken.length, b)) :
    ∃ fuel', rest.length < fuel' ∧
      percentLoop bytes fuel i out = percentLoop bytes fuel' (i + taken.length) (out ++ [b]) := by
  have hpos : 0 < taken.length := List.length_pos_iff.mpr htaken
  have hlen := congrArg List.length hdrop
  rw [List.length_drop, List.length_append] at hlen
  rw [List.length_append] at hfuel
  match fuel with
  | fuel' + 1 =>
      refine ⟨fuel', by omega, ?_⟩
      rw [percentLoop, if_pos (by omega), hturn]
      rfl

/-- **The loop computes the relation**: from any index it reads what is left, to the end. -/
theorem percentLoop_eq {bytes rest out : Bytes} (h : Unescapes rest out) :
    ∀ {i fuel : ℕ} {acc : Bytes}, bytes.drop i = rest → rest.length < fuel →
      percentLoop bytes fuel i acc = some (acc ++ out) := by
  -- a turn takes the bytes of one case, and pushes one
  have hstep : ∀ (taken : Bytes) {rest out : Bytes} {b : UInt8} {i fuel : ℕ} {acc : Bytes},
      bytes.drop i = taken ++ rest → taken ≠ [] → (taken ++ rest).length < fuel →
      percentTurn bytes i = some (i + taken.length, b) →
      (∀ {i fuel : ℕ} {acc : Bytes}, bytes.drop i = rest → rest.length < fuel →
        percentLoop bytes fuel i acc = some (acc ++ out)) →
      percentLoop bytes fuel i acc = some (acc ++ b :: out) := by
    intro taken rest out b i fuel acc hdrop htaken hfuel hturn ih
    obtain ⟨fuel', hfuel', heq⟩ := percentLoop_turn acc hdrop htaken hfuel hturn
    rw [heq, ih (drop_of_drop hdrop) hfuel', List.append_assoc, List.singleton_append]
  induction h with
  | nil =>
      intro i fuel acc hdrop hfuel
      match fuel with
      | fuel + 1 =>
          rw [percentLoop, if_neg (not_lt.mpr (List.drop_eq_nil_iff.mp hdrop)), List.append_nil]
  | plus _ ih =>
      intro i fuel acc hdrop hfuel
      exact hstep [0x2B] hdrop (by simp) hfuel (percentTurn_plus hdrop) ih
  | @escape b₁ b₂ _ _ _ _ hhi hlo _ ih =>
      intro i fuel acc hdrop hfuel
      exact hstep [0x25, b₁, b₂] hdrop (by simp) hfuel (percentTurn_escape hdrop hhi hlo) ih
  | percent hno _ ih =>
      intro i fuel acc hdrop hfuel
      exact hstep [0x25] hdrop (by simp) hfuel (percentTurn_percent hdrop hno) ih
  | @other b _ _ hplus hpercent _ ih =>
      intro i fuel acc hdrop hfuel
      exact hstep [b] hdrop (by simp) hfuel (percentTurn_other hdrop hplus hpercent) ih

/-- Percent decoding makes something of any bytes. -/
theorem unescapes_total (bytes : Bytes) : ∃ out, Unescapes bytes out := by
  induction hn : bytes.length using Nat.strong_induction_on generalizing bytes with
  | _ n ih =>
      subst hn
      cases bytes with
      | nil => exact ⟨[], .nil⟩
      | cons b rest =>
          obtain ⟨out, hout⟩ := ih rest.length (by simp) rest rfl
          by_cases hplus : b = 0x2B
          · subst hplus
            exact ⟨_, .plus hout⟩
          by_cases hpercent : b = 0x25
          · subst hpercent
            by_cases hesc : EscapeAt rest
            · obtain ⟨b₁, b₂, tail, rfl, h₁, h₂⟩ := hesc
              obtain ⟨hi, hhi⟩ := Option.isSome_iff_exists.mp h₁
              obtain ⟨lo, hlo⟩ := Option.isSome_iff_exists.mp h₂
              obtain ⟨out, hout⟩ := ih tail.length (by simp only [List.length_cons]; omega) tail rfl
              exact ⟨_, .escape hhi hlo hout⟩
            · exact ⟨_, .percent hesc hout⟩
          · exact ⟨_, .other hplus hpercent hout⟩

/-- **No turn reads out of range.** -/
theorem percentTurn_ne_none {bytes : Bytes} {i : ℕ} (hi : i < bytes.length) :
    percentTurn bytes i ≠ none := by
  obtain ⟨out, hout⟩ := unescapes_total (bytes.drop i)
  generalize hdrop : bytes.drop i = rest at hout
  cases hout with
  | nil => exact absurd (List.drop_eq_nil_iff.mp hdrop) (not_le.mpr hi)
  | plus => simp [percentTurn_plus hdrop]
  | escape hhi hlo => simp [percentTurn_escape hdrop hhi hlo]
  | percent hno => simp [percentTurn_percent hdrop hno]
  | other hplus hpercent => simp [percentTurn_other hdrop hplus hpercent]

/-- What percent decoding makes of bytes is determined. -/
theorem Unescapes.functional {bytes out out' : Bytes} (h : Unescapes bytes out)
    (h' : Unescapes bytes out') : out = out' := by
  have hloop : ∀ {out}, Unescapes bytes out →
      percentLoop bytes (bytes.length + 1) 0 [] = some ([] ++ out) :=
    fun h => percentLoop_eq h List.drop_zero (Nat.lt_succ_self _)
  simpa using (hloop h).symm.trans (hloop h')

/-- **Percent decoding ends on every string, and computes the relation.** -/
theorem percentDecode_eq {s : String} {out : Bytes} (h : Unescapes (asBytes s) out) :
    percentDecode s = some (Utf8.lossy out) := by
  simp only [percentDecode]
  rw [percentLoop_eq h List.drop_zero (Nat.lt_succ_self _)]
  rfl

/-! ## Every way to write a text -/

/-- `h` is the hex digit `n`, in either case. -/
def IsHexDigit (n : ℕ) (h : Char) : Prop :=
  "0123456789abcdef".toList[n]? = some h ∨ "0123456789ABCDEF".toList[n]? = some h

/-- The bytes as `%XX` escapes. -/
inductive Escapes : Bytes → List Char → Prop
  | nil : Escapes [] []
  | cons {b : UInt8} {bytes : Bytes} {h₁ h₂ : Char} {text : List Char} :
      IsHexDigit (b.toNat / 16) h₁ → IsHexDigit (b.toNat % 16) h₂ → Escapes bytes text →
      Escapes (b :: bytes) ('%' :: h₁ :: h₂ :: text)

/-- The ways to write one character. -/
inductive WritesChar (c : Char) : List Char → Prop
  | literal : c ∉ ['&', '=', '#', '+', '%'] → WritesChar c [c]
  | space : c = ' ' → WritesChar c ['+']
  | escaped {text : List Char} : Escapes (String.utf8EncodeChar c) text → WritesChar c text

/-- The ways to write a text: each character by itself. -/
inductive WritesText : List Char → List Char → Prop
  | nil : WritesText [] []
  | cons {c : Char} {chars written text : List Char} :
      WritesChar c written → WritesText chars text → WritesText (c :: chars) (written ++ text)

/-- The ways to write one parameter, as `k=v`. -/
def WritesParam (p : String × String) (piece : List Char) : Prop :=
  ∃ k v, WritesText p.1.toList k ∧ WritesText p.2.toList v ∧ piece = k ++ '=' :: v

/-- The ways to write parameters: `k1=v1&k2=v2...`. -/
def WritesQuery (params : List (String × String)) (query : List Char) : Prop :=
  ∃ pieces, List.Forall₂ WritesParam params pieces ∧ query = ['&'].intercalate pieces

/-! ### No separator is written -/

lemma IsHexDigit.ascii {n : ℕ} {h : Char} (hd : IsHexDigit n h) :
    n < 16 ∧ String.utf8EncodeChar h = [h.val.toUInt8] ∧ digit h.val.toUInt8 = some n ∧
      h ∉ ['&', '=', '#'] := by
  have hlen : n < 16 := by
    rcases hd with hd | hd
    · exact (List.getElem?_eq_some_iff.mp hd).1
    · exact (List.getElem?_eq_some_iff.mp hd).1
  refine ⟨hlen, ?_⟩
  rcases hd with hd | hd
  · interval_cases n <;> (cases hd; decide)
  · interval_cases n <;> (cases hd; decide)

lemma Escapes.plain {bytes : Bytes} {text : List Char} (h : Escapes bytes text) :
    ∀ c ∈ text, c ∉ ['&', '=', '#'] := by
  induction h with
  | nil => simp
  | cons h₁ h₂ _ ih =>
      intro c hc
      rcases List.mem_cons.mp hc with rfl | hc
      · decide
      rcases List.mem_cons.mp hc with rfl | hc
      · exact h₁.ascii.2.2.2
      rcases List.mem_cons.mp hc with rfl | hc
      · exact h₂.ascii.2.2.2
      · exact ih c hc

lemma WritesText.plain {chars text : List Char} (h : WritesText chars text) :
    ∀ c ∈ text, c ∉ ['&', '=', '#'] := by
  induction h with
  | nil => simp
  | cons hw _ ih =>
      intro x hx
      rcases List.mem_append.mp hx with hx | hx
      · cases hw with
        | literal hc =>
            obtain rfl := List.mem_singleton.mp hx
            intro hmem
            simp only [List.mem_cons, List.not_mem_nil, or_false] at hc hmem
            tauto
        | space =>
            obtain rfl := List.mem_singleton.mp hx
            decide
        | escaped he => exact he.plain x hx
      · exact ih x hx

/-! ### What was written is decoded -/

lemma Escapes.unescapes {bytes rest out : Bytes} {text : List Char} (h : Escapes bytes text)
    (hrest : Unescapes rest out) : Unescapes (Utf8.encode text ++ rest) (bytes ++ out) := by
  induction h with
  | nil => exact hrest
  | @cons b bytes h₁ h₂ text hd₁ hd₂ _ ih =>
      obtain ⟨-, hbytes₁, hdigit₁, -⟩ := hd₁.ascii
      obtain ⟨-, hbytes₂, hdigit₂, -⟩ := hd₂.ascii
      have hb : UInt8.ofNat (b.toNat / 16 * 16 + b.toNat % 16) = b := by
        rw [Nat.div_add_mod', UInt8.ofNat_toNat]
      have hescape := Unescapes.escape hdigit₁ hdigit₂ ih
      rw [hb] at hescape
      rw [Utf8.encode_cons, Utf8.encode_cons, Utf8.encode_cons, hbytes₁, hbytes₂]
      exact hescape

/-- Bytes that are neither '+' nor '%' stay. -/
lemma Unescapes.append_plain {bytes rest out : Bytes} (hplain : ∀ b ∈ bytes, b ≠ 0x2B ∧ b ≠ 0x25)
    (h : Unescapes rest out) : Unescapes (bytes ++ rest) (bytes ++ out) := by
  induction bytes with
  | nil => exact h
  | cons b bytes ih =>
      obtain ⟨hplus, hpercent⟩ := hplain b List.mem_cons_self
      exact .other hplus hpercent (ih fun x hx => hplain x (List.mem_cons_of_mem _ hx))

lemma plain_utf8EncodeChar {c : Char} (hplus : c ≠ '+') (hpercent : c ≠ '%') :
    ∀ b ∈ String.utf8EncodeChar c, b ≠ 0x2B ∧ b ≠ 0x25 := by
  intro b hb
  constructor
  · rintro rfl
    exact hplus (Char.toNat_inj.mp (Utf8.toNat_of_mem_utf8EncodeChar hb (by decide)))
  · rintro rfl
    exact hpercent (Char.toNat_inj.mp (Utf8.toNat_of_mem_utf8EncodeChar hb (by decide)))

lemma WritesChar.unescapes {c : Char} {written : List Char} {rest out : Bytes}
    (h : WritesChar c written) (hrest : Unescapes rest out) :
    Unescapes (Utf8.encode written ++ rest) (String.utf8EncodeChar c ++ out) := by
  cases h with
  | literal hc =>
      simp only [List.mem_cons, List.not_mem_nil, or_false, not_or] at hc
      rw [Utf8.encode_cons, Utf8.encode_nil, List.append_nil]
      exact .append_plain (plain_utf8EncodeChar hc.2.2.2.1 hc.2.2.2.2) hrest
  | space hc =>
      subst hc
      exact .plus hrest
  | escaped he => exact he.unescapes hrest

/-- **What was written is decoded**, byte for byte. -/
theorem WritesText.unescapes {chars text : List Char} (h : WritesText chars text) :
    Unescapes (Utf8.encode text) (Utf8.encode chars) := by
  induction h with
  | nil => exact .nil
  | cons hw _ ih =>
      rw [Utf8.encode_append, Utf8.encode_cons]
      exact hw.unescapes ih

theorem WritesText.percentDecode {s : String} {text : List Char} (h : WritesText s.toList text) :
    Gateway.percentDecode (String.ofList text) = some s := by
  have hbytes : asBytes (String.ofList text) = Utf8.encode text := by
    rw [asBytes, Utf8.toUTF8_toList, String.toList_ofList]
  have hout : Unescapes (asBytes (String.ofList text)) (Utf8.encode s.toList) := by
    rw [hbytes]
    exact h.unescapes
  rw [percentDecode_eq hout, Utf8.lossy_encode, String.ofList_toList]

/-! ## Taking a URL apart -/

lemma findIdx_ne {p : Char → Bool} {front rest : List Char} (h : ∀ c ∈ front, p c = false) :
    (front ++ rest).findIdx p = front.length + rest.findIdx p := by
  rw [List.findIdx_append, if_neg]
  · rw [add_comm]
  · rw [List.findIdx_eq_length_of_false h]
    exact lt_irrefl _

lemma eq_false_of_notMem {c : Char} {l : List Char} (h : c ∉ l) : ∀ x ∈ l, decide (x = c) = false :=
  fun _ hx => decide_eq_false fun heq => h (heq ▸ hx)

/-- A URL: a path, a query string, and perhaps a fragment. -/
def urlOf (path : String) (query : List Char) (fragment : Option String) : String :=
  path ++ "?" ++ String.ofList query ++ (fragment.elim "" fun f => "#" ++ f)

lemma urlOf_toList (path : String) (query : List Char) (fragment : Option String) :
    (urlOf path query fragment).toList =
      path.toList ++ '?' :: (query ++ (fragment.elim [] fun f => '#' :: f.toList)) := by
  cases fragment <;> simp [urlOf]

/-- The query string of a URL is what stands between the first '?' and the first '#'. -/
lemma queryOf_urlOf {path : String} {query : List Char} (fragment : Option String)
    (hpath : '?' ∉ path.toList ∧ '#' ∉ path.toList) (hquery : '#' ∉ query) :
    queryOf (urlOf path query fragment) =
      ((Names.splitChar (String.ofList query) '&').filter fun p => !p.isEmpty).mapM decodeParam := by
  have hurl := urlOf_toList path query fragment
  have hstart : (urlOf path query fragment).toList.findIdx? (· = '?') = some path.toList.length := by
    rw [hurl, List.findIdx?_eq_some_iff_findIdx_eq, findIdx_ne (eq_false_of_notMem hpath.1)]
    simp [List.findIdx_cons]
  have hstop : (urlOf path query fragment).toList.findIdx (· = '#') =
      path.toList.length + (query.length + 1) := by
    have hrest : '#' ∉ '?' :: query := by simpa using hquery
    rw [hurl, findIdx_ne (eq_false_of_notMem hpath.2), ← List.cons_append,
      findIdx_ne (eq_false_of_notMem hrest)]
    cases fragment <;> simp [List.findIdx_cons]
  have hslice : ((urlOf path query fragment).toList.take (path.toList.length + (query.length + 1))).drop
      (path.toList.length + 1) = query := by
    rw [hurl, List.take_append, List.take_of_length_le (by omega), Nat.add_sub_cancel_left,
      List.take_succ_cons, List.take_left, ← List.drop_drop, List.drop_left]
    rfl
  simp only [queryOf, hstart, hstop]
  rw [if_neg (by omega), hslice]

lemma pathOf_urlOf {path : String} {query : List Char} (fragment : Option String)
    (hpath : '?' ∉ path.toList ∧ '#' ∉ path.toList) : pathOf (urlOf path query fragment) = path := by
  have hplain : ∀ c ∈ path.toList, (c ≠ '?' && c ≠ '#') = true := by
    intro c hc
    simp only [ne_eq, Bool.and_eq_true, decide_eq_true_eq]
    exact ⟨fun h => hpath.1 (h ▸ hc), fun h => hpath.2 (h ▸ hc)⟩
  rw [pathOf, urlOf_toList, List.takeWhile_append_of_pos hplain]
  simp

/-! ### The pieces -/

lemma splitOnce_append {k v : List Char} (hk : '=' ∉ k) :
    Names.splitOnce (String.ofList (k ++ '=' :: v)) '=' =
      some (String.ofList k, String.ofList v) := by
  have hplain : ∀ c ∈ k, decide (c ≠ '=') = true := fun c hc =>
    decide_eq_true fun heq => hk (heq ▸ hc)
  simp only [Names.splitOnce, String.toList_ofList]
  rw [List.dropWhile_append_of_pos hplain, List.takeWhile_append_of_pos hplain]
  simp

lemma WritesParam.decodeParam {p : String × String} {piece : List Char} (h : WritesParam p piece) :
    Gateway.decodeParam (String.ofList piece) = some p := by
  obtain ⟨k, v, hk, hv, rfl⟩ := h
  have hkey : '=' ∉ k := fun hmem => hk.plain _ hmem (by decide)
  rw [Gateway.decodeParam, splitOnce_append hkey, Option.getD_some]
  simp only [hk.percentDecode, hv.percentDecode, Option.bind_eq_bind, Option.bind_some]

lemma WritesParam.plain {p : String × String} {piece : List Char} (h : WritesParam p piece) :
    piece ≠ [] ∧ '&' ∉ piece ∧ '#' ∉ piece := by
  obtain ⟨k, v, hk, hv, rfl⟩ := h
  refine ⟨by simp, fun hmem => ?_, fun hmem => ?_⟩
  · rcases List.mem_append.mp hmem with hmem | hmem
    · exact hk.plain _ hmem (by decide)
    · exact hv.plain _ (List.mem_of_ne_of_mem (by decide) hmem) (by decide)
  · rcases List.mem_append.mp hmem with hmem | hmem
    · exact hk.plain _ hmem (by decide)
    · exact hv.plain _ (List.mem_of_ne_of_mem (by decide) hmem) (by decide)

/-- Joining pieces adds separators only. -/
lemma notMem_intercalate {x sep : Char} (hx : x ≠ sep) : ∀ {pieces : List (List Char)},
    (∀ piece ∈ pieces, x ∉ piece) → x ∉ [sep].intercalate pieces
  | [], _ => by simp
  | [piece], h => by simpa using h
  | piece :: next :: rest, h => by
      rw [List.forall_mem_cons] at h
      rw [List.intercalate_cons_cons]
      simp only [List.mem_append, List.mem_singleton, not_or]
      exact ⟨⟨h.1, hx⟩, notMem_intercalate hx h.2⟩

/-- Every piece of a written query has a parameter. -/
lemma exists_param {params : List (String × String)} {pieces : List (List Char)}
    (h : List.Forall₂ WritesParam params pieces) : ∀ piece ∈ pieces, ∃ p, WritesParam p piece := by
  induction h with
  | nil => simp
  | cons hp _ ih => exact List.forall_mem_cons.mpr ⟨⟨_, hp⟩, ih⟩

lemma mapM_decodeParam {params : List (String × String)} {pieces : List (List Char)}
    (h : List.Forall₂ WritesParam params pieces) :
    (pieces.map String.ofList).mapM decodeParam = some params := by
  induction h with
  | nil => rfl
  | cons hp _ ih =>
      rw [List.map_cons, List.mapM_cons, hp.decodeParam, ih]
      rfl

/-- The pieces of a written query are the parameters written. -/
lemma pieces_of_writes {pieces : List (List Char)} (h : ∀ piece ∈ pieces, ∃ p, WritesParam p piece) :
    (Names.splitChar (String.ofList (['&'].intercalate pieces)) '&').filter (fun p => !p.isEmpty) =
      pieces.map String.ofList := by
  rw [Names.splitChar, String.toList_ofList]
  by_cases hnil : pieces = []
  · subst hnil
    decide
  · rw [List.splitOn_intercalate _ (fun piece hp => (h piece hp).choose_spec.plain.2.1) hnil,
      List.filter_eq_self]
    intro p hp
    obtain ⟨piece, hpiece, rfl⟩ := List.mem_map.mp hp
    have hne := (h piece hpiece).choose_spec.plain.1
    simpa using hne

/-- **What was written is read back**, in order. -/
theorem WritesQuery.queryOf {path : String} {query : List Char} {params : List (String × String)}
    (fragment : Option String) (hpath : '?' ∉ path.toList ∧ '#' ∉ path.toList)
    (h : WritesQuery params query) :
    Gateway.queryOf (urlOf path query fragment) = some params := by
  obtain ⟨pieces, hpieces, rfl⟩ := h
  have hparam := exists_param hpieces
  have hquery : '#' ∉ ['&'].intercalate pieces :=
    notMem_intercalate (by decide) fun piece hp => (hparam piece hp).choose_spec.plain.2.2
  rw [queryOf_urlOf fragment hpath hquery, pieces_of_writes hparam, mapM_decodeParam hpieces]

/-- A '?' in the fragment starts no query. -/
theorem queryOf_fragment {path : String} (fragment : String)
    (hpath : '?' ∉ path.toList ∧ '#' ∉ path.toList) :
    queryOf (path ++ "#" ++ fragment) = some [] := by
  have hurl : (path ++ "#" ++ fragment).toList = path.toList ++ '#' :: fragment.toList := by simp
  have hstop : (path ++ "#" ++ fragment).toList.findIdx (· = '#') = path.toList.length := by
    rw [hurl, findIdx_ne (eq_false_of_notMem hpath.2)]
    simp [List.findIdx_cons]
  simp only [queryOf, hstop]
  split
  · rfl
  · rename_i start hstart
    rw [List.findIdx?_eq_some_iff_findIdx_eq, hurl, findIdx_ne (eq_false_of_notMem hpath.1)] at hstart
    rw [if_pos (by omega)]

/-- **Query strings round-trip, and percent decoding takes any string.**  Whatever way the parameters
are written in, whatever the path and the fragment, the path and the parameters are read back.  And on
any string no turn of the loop reads out of range, the loop ends, and what it makes of the bytes is
`Unescapes`, where a '%' without two hex digits after it stays and the next byte is read anew. -/
theorem query_strings_round_trip :
    (∀ (params : List (String × String)) (path : String) (query : List Char)
        (fragment : Option String), '?' ∉ path.toList ∧ '#' ∉ path.toList → WritesQuery params query →
      pathOf (urlOf path query fragment) = path ∧
        queryOf (urlOf path query fragment) = some params) ∧
    ∀ s : String, (∀ i < (asBytes s).length, percentTurn (asBytes s) i ≠ none) ∧
      ∃ out, Unescapes (asBytes s) out ∧ percentDecode s = some (Utf8.lossy out) := by
  refine ⟨fun params path query fragment hpath hquery => ?_, fun s => ⟨fun i hi => ?_, ?_⟩⟩
  · exact ⟨pathOf_urlOf fragment hpath, hquery.queryOf fragment hpath⟩
  · exact percentTurn_ne_none hi
  · obtain ⟨out, hout⟩ := unescapes_total (asBytes s)
    exact ⟨out, hout, percentDecode_eq hout⟩

/-- An 'ö' as two escapes in mixed case, and a space as '+'. -/
theorem query_strings_round_trip_escaped :
    pathOf "/api/search?q=%C3%b6+1#?" = "/api/search" ∧
      queryOf "/api/search?q=%C3%b6+1#?" = some [("q", "ö 1")] := by
  have hescapes : Escapes [0xC3, 0xB6] ['%', 'C', '3', '%', 'b', '6'] :=
    .cons (Or.inr rfl) (Or.inl rfl) (.cons (Or.inl rfl) (Or.inl rfl) .nil)
  have hvalue : WritesText "ö 1".toList ['%', 'C', '3', '%', 'b', '6', '+', '1'] :=
    .cons (c := 'ö') (.escaped hescapes) (.cons (.space rfl) (.cons (.literal (by decide)) .nil))
  have hkey : WritesText "q".toList ['q'] := .cons (.literal (by decide)) .nil
  have hquery : WritesQuery [("q", "ö 1")] ['q', '=', '%', 'C', '3', '%', 'b', '6', '+', '1'] :=
    ⟨_, .cons ⟨_, _, hkey, hvalue, rfl⟩ .nil, rfl⟩
  have hurl : urlOf "/api/search" ['q', '=', '%', 'C', '3', '%', 'b', '6', '+', '1'] (some "?") =
      "/api/search?q=%C3%b6+1#?" := by decide +kernel
  rw [← hurl]
  exact query_strings_round_trip.1 _ _ _ _ (by decide) hquery

end Gateway
