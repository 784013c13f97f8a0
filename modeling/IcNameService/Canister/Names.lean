import Mathlib.Data.String.Basic
import Mathlib.Data.List.Sort
import Mathlib.Data.List.TakeWhile
import Mathlib.Tactic.Common
import Mathlib.Tactic.SplitIfs
import IcNameService.Core.Results

/-!
# Name syntax and text records (names.rs)

A scoped name is `<handle>/<label>`, a flat name is one segment.  The checks return the error the
source returns.  Text records are a list of pairs sorted by key; `setOwnerText`, `setProvenance`
and `clearProvenance` are its three writers.

Where the source reads bytes (`is_ascii_lowercase` and the like), the model reads characters: the
bytes of a character outside ASCII are all at least `0x80`, so both accept the same strings.
-/

namespace Names

/-! ## Segments and names -/

def maxSegment : ℕ := 63
def maxTextKey : ℕ := 32
def maxTextValue : ℕ := 512
def maxTextRecords : ℕ := 32

/-- `a-z`, `0-9` or `-`. -/
def isSegmentChar (c : Char) : Bool := c.isLower || c.isDigit || c == '-'

/-- Validate one segment (a handle or a label). -/
def checkSegment (what s : String) : Except String Unit :=
  if s.isEmpty then .error s!"{what} is empty"
  else if s.utf8ByteSize > maxSegment then .error s!"{what} longer than {maxSegment} bytes"
  else if !s.toList.all isSegmentChar then .error s!"{what} may only contain a-z, 0-9 and '-'"
  else if s.toList.head? = some '-' ∨ s.toList.getLast? = some '-' then
    .error s!"{what} may not start or end with '-'"
  else .ok ()

/-- Names that can never be flat names: they are gateway routes. -/
def reservedFlat : List String := ["api"]

/-- A flat name: one segment, no '/'. -/
def checkFlat (name : String) : Except String Unit := do
  checkSegment "flat name" name
  if reservedFlat.contains name then .error s!"'{name}' is reserved" else .ok ()

/-- True for `<handle>/<label>`, false for a flat name. -/
def isScoped (name : String) : Bool := name.toList.contains '/'

/-- `str::split_once` on a character. -/
def splitOnce (s : String) (c : Char) : Option (String × String) :=
  match s.toList.dropWhile (· ≠ c) with
  | [] => none
  | _ :: rest => some (String.ofList (s.toList.takeWhile (· ≠ c)), String.ofList rest)

/-- Split and validate a scoped name into (handle, label). -/
def split (name : String) : Except String (String × String) :=
  match splitOnce name '/' with
  | none => .error "name must be <handle>/<label>"
  | some (handle, label) =>
      if label.toList.contains '/' then .error "name must have exactly one '/'"
      else do
        checkSegment "handle" handle
        checkSegment "label" label
        .ok (handle, label)

/-! ## Text keys and values -/

/-- `a-z`, `0-9`, `_`, `.` or `-`. -/
def isTextKeyChar (c : Char) : Bool :=
  c.isLower || c.isDigit || c == '_' || c == '.' || c == '-'

/-- Text record keys: 1 to 32 bytes of lowercase letters, digits, '_', '.' and '-'. -/
def checkTextKey (key : String) : Except String Unit :=
  if key.isEmpty ∨ key.utf8ByteSize > maxTextKey then
    .error s!"text key must be 1 to {maxTextKey} bytes"
  else if !key.toList.all isTextKeyChar then
    .error "text key may only contain a-z, 0-9, '_', '.' and '-'"
  else .ok ()

/-- `char::is_control`: the Unicode category Cc. -/
def isControl (c : Char) : Bool := c.val < 0x20 || (0x7f ≤ c.val && c.val ≤ 0x9f)

/-- Text record values: at most 512 bytes, no control characters. -/
def checkTextValue (value : String) : Except String Unit :=
  if value.utf8ByteSize > maxTextValue then
    .error s!"text value longer than {maxTextValue} bytes"
  else if value.toList.any isControl then
    .error "text value may not contain control characters"
  else .ok ()

/-! ## Text records -/

/-- The text records of a name: sorted by key, unique keys. -/
abbrev Text := List (String × String)

/-- `Record::text(key)`: one text record's value. -/
def textGet (text : Text) (key : String) : Option String :=
  (text.find? (fun e => e.1 = key)).map Prod.snd

/-- What the code behind a name is; `announce` writes all five. -/
def provenanceKeys : List String := ["repo", "commit", "module_hash", "deployer", "announced_ns"]

/-- The provenance keys only `announce` writes. -/
def announceKeys : List String := ["deployer", "announced_ns"]

/-- `text.sort_by(|a, b| a.0.cmp(&b.0))`: stable, by key. -/
def sortByKey (text : Text) : Text := text.insertionSort (fun a b => a.1 ≤ b.1)

/-- Set (`some`) or clear (`none`) one owner text record, keeping the list sorted by key.  The key
and value must already be checked. -/
def setOwnerText (text : Text) (key : String) (value : Option String) : Except String Text :=
  if announceKeys.contains key then
    .error s!"text key '{key}' is written only by announce"
  else if provenanceKeys.contains key && text.any (fun e => e.1 = "deployer") then
    .error s!"text key '{key}' was announced by a deployer; only announce may change it"
  else
    let text := text.filter (fun e => e.1 ≠ key)
    match value with
    | none => .ok text
    | some v =>
        let owned := (text.filter (fun e => !provenanceKeys.contains e.1)).length
        if owned ≥ maxTextRecords && !provenanceKeys.contains key then
          .error s!"at most {maxTextRecords} text records per name"
        else .ok (sortByKey (text ++ [(key, v)]))

/-- The five values an announce reports. -/
structure Provenance where
  repo : String
  commit : String
  moduleHash : String
  deployer : String
  announcedNs : String
  deriving DecidableEq, Repr

/-- The provenance as `announce` passes it, in the source's order. -/
def Provenance.records (p : Provenance) : Text :=
  [("repo", p.repo), ("commit", p.commit), ("module_hash", p.moduleHash),
    ("deployer", p.deployer), ("announced_ns", p.announcedNs)]

/-- The source asserts that every key it is given is a provenance key. -/
lemma Provenance.keys_records (p : Provenance) : p.records.map Prod.fst = provenanceKeys := rfl

/-- Write the provenance records, replacing any earlier ones, keeping the list sorted by key.
Never refused: provenance sits outside the cap. -/
def setProvenance (text : Text) (p : Provenance) : Text :=
  sortByKey (p.records.foldl (fun text e => text.filter (fun x => x.1 ≠ e.1) ++ [e]) text)

/-- Drop the provenance records. -/
def clearProvenance (text : Text) : Text := text.filter (fun e => !provenanceKeys.contains e.1)

/-- `setOwnerText` on the list it borrows: what the list holds after the call, also after a refusal.
The removal comes before the cap check. -/
def setOwnerTextInPlace (text : Text) (key : String) (value : Option String) :
    Text × Except String Unit :=
  if announceKeys.contains key then
    (text, .error s!"text key '{key}' is written only by announce")
  else if provenanceKeys.contains key && text.any (fun e => e.1 = "deployer") then
    (text, .error s!"text key '{key}' was announced by a deployer; only announce may change it")
  else
    let text := text.filter (fun e => e.1 ≠ key)
    match value with
    | none => (text, .ok ())
    | some v =>
        let owned := (text.filter (fun e => !provenanceKeys.contains e.1)).length
        if owned ≥ maxTextRecords && !provenanceKeys.contains key then
          (text, .error s!"at most {maxTextRecords} text records per name")
        else (sortByKey (text ++ [(key, v)]), .ok ())

/-- `setProvenance` on the list it borrows and any pairs: none where the assertion fails. -/
def setProvenanceInPlace (text : Text) (provenance : List (String × String)) : Option Text := do
  let text ← provenance.foldlM (fun text e =>
    if provenanceKeys.contains e.1 then some (text.filter (fun x => x.1 ≠ e.1) ++ [e]) else none) text
  some (sortByKey text)

/-! ## Tags, hostnames, hex -/

def maxTags : ℕ := 16

/-- `str::split(c)`: the pieces between the separators. -/
def splitChar (s : String) (c : Char) : List String := (s.toList.splitOn c).map String.ofList

/-- One pass over the tags not yet seen. -/
def collectTags : List String → List String → Except String (List String)
  | tags, [] => .ok tags
  | tags, tag :: rest => do
      checkSegment "tag" tag
      if tags.any (fun t => t = tag) then .error s!"duplicate tag '{tag}'"
      else collectTags (tags ++ [tag]) rest

/-- The "tags" text record: comma separated, no spaces, each tag in the segment grammar, at most
16, no duplicates.  Returns the tags. -/
def checkTags (value : String) : Except String (List String) := do
  let tags ← collectTags [] (splitChar value ',')
  if tags.length > maxTags then .error s!"at most {maxTags} tags" else .ok tags

/-- Check every label of a hostname. -/
def checkLabels (host : String) : List String → Except String Unit
  | [] => .ok ()
  | label :: rest => do
      (checkSegment "hostname label" label).mapError fun e => s!"'{host}': {e}"
      checkLabels host rest

/-- A hostname for a custom domain: at least two dot-separated labels, each in the segment grammar,
at most 253 bytes in all. -/
def checkHostname (host : String) : Except String Unit :=
  if host.utf8ByteSize > 253 then .error s!"'{host}' is longer than 253 bytes"
  else
    let labels := splitChar host '.'
    if labels.length < 2 then .error s!"'{host}' needs at least two labels"
    else checkLabels host labels

/-- A digit or `a` to `f`. -/
def isHexChar (c : Char) : Bool := c.isDigit || ('a' ≤ c && c ≤ 'f')

/-- Lowercase hex of exactly one of the given byte lengths. -/
def checkHex (what s : String) (byteLens : List ℕ) : Except String Unit :=
  if s.utf8ByteSize % 2 ≠ 0 ∨ !byteLens.contains (s.utf8ByteSize / 2) then
    let want := " or ".intercalate (byteLens.map fun n => toString (n * 2))
    .error s!"{what} must be {want} hex characters"
  else if !s.toList.all isHexChar then .error s!"{what} must be lowercase hex"
  else .ok ()

/-! ## What the checks say -/

lemma checkSegment_ok {what s : String} (h : checkSegment what s = .ok ()) :
    s.toList ≠ [] ∧ s.utf8ByteSize ≤ maxSegment ∧ ∀ c ∈ s.toList, isSegmentChar c = true := by
  simp only [checkSegment] at h
  split_ifs at h with h₁ h₂ h₃ h₄
  refine ⟨?_, not_lt.mp h₂, ?_⟩
  · intro hnil
    exact h₁ (String.isEmpty_iff.mpr (String.toList_inj.mp hnil))
  · simpa using h₃

lemma checkFlat_ok {name : String} (h : checkFlat name = .ok ()) :
    checkSegment "flat name" name = .ok () ∧ name ∉ reservedFlat := by
  obtain ⟨_, hs, hr⟩ := Except.bind_eq_ok.mp h
  split_ifs at hr with hc
  exact ⟨hs, by simpa using hc⟩

/-- A segment has no '/', so a valid flat name is not scoped. -/
lemma isScoped_of_checkSegment {what s : String} (h : checkSegment what s = .ok ()) :
    isScoped s = false := by
  obtain ⟨-, -, hall⟩ := checkSegment_ok h
  have : ¬ '/' ∈ s.toList := fun hmem => absurd (hall _ hmem) (by decide)
  simpa [isScoped] using this

lemma isScoped_of_checkFlat {name : String} (h : checkFlat name = .ok ()) :
    isScoped name = false :=
  isScoped_of_checkSegment (checkFlat_ok h).1

lemma splitOnce_some {s a b : String} {c : Char} (h : splitOnce s c = some (a, b)) :
    s.toList = a.toList ++ c :: b.toList ∧ c ∉ a.toList := by
  simp only [splitOnce] at h
  split at h
  · cases h
  · rename_i x rest hdrop
    simp only [Option.some.injEq, Prod.mk.injEq] at h
    obtain ⟨rfl, rfl⟩ := h
    have hx : x = c := by
      have := List.head_dropWhile_not (fun y => decide (y ≠ c))
        (show s.toList.dropWhile _ ≠ [] by rw [hdrop]; simp)
      simp only [hdrop, List.head_cons, decide_eq_false_iff_not, not_not] at this
      exact this
    subst hx
    rw [String.toList_ofList, String.toList_ofList, ← hdrop, List.takeWhile_append_dropWhile]
    exact ⟨rfl, fun hmem => by simpa using List.mem_takeWhile_imp hmem⟩

/-- What a valid scoped name is made of. -/
lemma split_ok {name handle label : String} (h : split name = .ok (handle, label)) :
    name.toList = handle.toList ++ '/' :: label.toList ∧
      checkSegment "handle" handle = .ok () ∧ checkSegment "label" label = .ok () := by
  simp only [split] at h
  split at h
  · cases h
  · rename_i a b heq
    split_ifs at h with hc
    obtain ⟨_, hh, h⟩ := Except.bind_eq_ok.mp h
    obtain ⟨_, hl, h⟩ := Except.bind_eq_ok.mp h
    simp only [Except.ok.injEq, Prod.mk.injEq] at h
    obtain ⟨rfl, rfl⟩ := h
    exact ⟨(splitOnce_some heq).1, hh, hl⟩

lemma isScoped_of_split {name : String} {p : String × String} (h : split name = .ok p) :
    isScoped name = true := by
  obtain ⟨hname, -, -⟩ := split_ok (show split name = .ok (p.1, p.2) from h)
  simp [isScoped, hname]

/-- A valid scoped name is made of segment characters and one '/'. -/
lemma newline_notMem_of_split {name : String} {p : String × String} (h : split name = .ok p) :
    '\n' ∉ name.toList := by
  obtain ⟨hname, hh, hl⟩ := split_ok (show split name = .ok (p.1, p.2) from h)
  obtain ⟨-, -, hhall⟩ := checkSegment_ok hh
  obtain ⟨-, -, hlall⟩ := checkSegment_ok hl
  rw [hname]
  intro hmem
  rcases List.mem_append.mp hmem with hm | hm
  · exact absurd (hhall _ hm) (by decide)
  · rcases List.mem_cons.mp hm with hm | hm
    · exact absurd hm (by decide)
    · exact absurd (hlall _ hm) (by decide)

end Names
