import IcNameService.Canister.Directory
import IcNameService.Canister.Gateway
import IcNameService.Core.Utf8

/-!
# Query strings (gateway.rs)

`queryOf` takes a URL's parameters apart and decodes them; the search route reads its query from them.
Where the source reads a byte by index, the model's read is an `Option`: none is the panic of an index
out of range.
-/

namespace Gateway

/-! ## Percent decoding -/

/-- `(b as char).to_digit(16)`. -/
def digit (b : UInt8) : Option ℕ :=
  let n := b.toNat
  if 0x30 ≤ n ∧ n ≤ 0x39 then some (n - 0x30)
  else if 0x61 ≤ n ∧ n ≤ 0x66 then some (n - 0x61 + 10)
  else if 0x41 ≤ n ∧ n ≤ 0x46 then some (n - 0x41 + 10)
  else none

/-- One turn of the loop of `percent_decode` at `i`: where the next one stands, and the byte pushed. -/
def percentTurn (bytes : Bytes) (i : ℕ) : Option (ℕ × UInt8) := do
  let b ← bytes[i]?
  if b = 0x2B then some (i + 1, 0x20)
  else if b = 0x25 ∧ i + 2 < bytes.length then do
    let b₁ ← bytes[i + 1]?
    let b₂ ← bytes[i + 2]?
    match digit b₁, digit b₂ with
    | some hi, some lo => some (i + 3, UInt8.ofNat (hi * 16 + lo))
    | _, _ => some (i + 1, 0x25)
  else some (i + 1, b)

/-- The loop of `percent_decode`, for at most `fuel` turns. -/
def percentLoop (bytes : Bytes) : ℕ → ℕ → Bytes → Option Bytes
  | 0, _, _ => none
  | fuel + 1, i, out =>
      if i < bytes.length then do
        let (i, b) ← percentTurn bytes i
        percentLoop bytes fuel i (out ++ [b])
      else some out

/-- `percent_decode`: none if an index was out of range, or the loop went on for more turns than there
are bytes. -/
def percentDecode (s : String) : Option String :=
  let bytes := asBytes s
  (percentLoop bytes (bytes.length + 1) 0 []).map Utf8.lossy

/-! ## Parameters -/

/-- One parameter, decoded. -/
def decodeParam (p : String) : Option (String × String) := do
  let (k, v) := (Names.splitOnce p '=').getD (p, "")
  some (← percentDecode k, ← percentDecode v)

/-- Query string parameters, percent-decoded. -/
def queryOf (url : String) : Option (List (String × String)) :=
  match url.toList.findIdx? (· = '?') with
  | none => some []
  | some start =>
      -- the index of the first '#', or the length
      let stop := url.toList.findIdx (· = '#')
      if stop ≤ start then some []
      else
        let query := String.ofList ((url.toList.take stop).drop (start + 1))
        ((Names.splitChar query '&').filter fun p => !p.isEmpty).mapM decodeParam

/-- First occurrence wins. -/
def param (params : List (String × String)) (key : String) : Option String :=
  (params.find? fun e => e.1 = key).map Prod.snd

/-- `str::parse` for an unsigned integer of `bits` bits. -/
def parseUnsigned (bits : ℕ) (s : String) : Option ℕ :=
  let digits := match s.toList with
    | '+' :: rest => rest
    | chars => chars
  if digits.isEmpty ∨ !digits.all Char.isDigit then none
  else
    let n := Nat.ofDigitChars 10 digits 0
    if n < 2 ^ bits then some n else none

/-- What `api_search` asks the directory. -/
def searchQuery (params : List (String × String)) : Directory.SearchQuery where
  q := param params "q"
  tag := param params "tag"
  offset := (param params "offset").bind (parseUnsigned 32)
  limit := (param params "limit").bind (parseUnsigned 32)

example : queryOf "/api/search?q=ic%20git&tag=deploy&limit=5#x" =
    some [("q", "ic git"), ("tag", "deploy"), ("limit", "5")] := by decide +kernel

example : percentDecode "%+1" = some "% 1" := by decide +kernel

end Gateway
