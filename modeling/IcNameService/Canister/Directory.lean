import Mathlib.Data.List.Infix
import IcNameService.Canister.Store

/-!
# Directory and search (directory.rs)

The tag index is a set of keys `<tag>\0<name>`, one for each tag a record carries.  `index` and
`unindex` are the two writers; every commit unindexes what was stored and indexes what is.  A tag is
looked up by a range scan of the index; a search without a tag is a pass over all records.

Counts and offsets are `u32` in the source and ℕ here: no canister holds `2 ^ 32` records.
`str::to_lowercase` is a parameter of the search, any map of strings.
-/

namespace Directory

/-- `"<tag>\0<name>"`. -/
def key (tag name : String) : String := tag ++ "\x00" ++ name

/-- Tags of a record, from its "tags" text record. -/
def tagsOf (r : Record) : List String :=
  match Names.textGet r.text "tags" with
  | none => []
  | some v => Names.splitChar v ','

end Directory

namespace State

variable {E : Env} (s : State E)

def index (r : Record) : State E :=
  { s with
    tags := (Directory.tagsOf r).foldl
      (fun t tag => t.insert (Directory.key tag r.name) ()) s.tags }

def unindex (r : Record) : State E :=
  { s with
    tags := (Directory.tagsOf r).foldl
      (fun t tag => t.erase (Directory.key tag r.name)) s.tags }

/-- Drop the index and refill it from the records. -/
def rebuildIndex : State E :=
  s.records.values.foldl index { s with tags := OrdMap.empty }

end State

/-! ## The queries -/

namespace Directory

variable {E : Env}

def maxLimit : ℕ := 100
def defaultLimit : ℕ := 20

/-- Names carrying `tag`, in name order: a scan of the keys from `"<tag>\0"` on. -/
def namesWithTag (s : State E) (tag : String) : List String :=
  let pre := key tag ""
  ((s.tags.keys.filter fun k => pre ≤ k).takeWhile fun k => pre.toList.isPrefixOf k.toList).map
    fun k => String.ofList (k.toList.drop pre.toList.length)

structure TagCount where
  tag : String
  count : ℕ
  deriving DecidableEq, Repr

/-- What a key has before its first NUL. -/
def tagOfKey (k : String) : String := (Names.splitChar k '\x00').headD ""

/-- One key of the index: the last count grows, or a new tag starts. -/
def countKey (out : List TagCount) (k : String) : List TagCount :=
  match out.getLast? with
  | some last =>
      if last.tag = tagOfKey k then out.dropLast ++ [{ last with count := last.count + 1 }]
      else out ++ [⟨tagOfKey k, 1⟩]
  | none => out ++ [⟨tagOfKey k, 1⟩]

/-- Every tag in use with how many names carry it, in tag order. -/
def tags (s : State E) : List TagCount := s.tags.keys.foldl countKey []

structure SearchQuery where
  q : Option String
  tag : Option String
  offset : Option ℕ
  limit : Option ℕ
  deriving DecidableEq, Repr

/-- One directory entry: the record fields a listing shows. -/
structure Hit where
  name : String
  target : Target
  description : Option String
  tags : List String
  repo : Option String
  commit : Option String
  moduleHash : Option String
  deployer : Option String
  updatedNs : ℕ
  deriving DecidableEq, Repr

structure SearchResult where
  /-- Matches before paging. -/
  total : ℕ
  offset : ℕ
  hits : List Hit
  deriving DecidableEq, Repr

def hit (r : Record) : Hit where
  name := r.name
  target := r.target
  description := Names.textGet r.text "description"
  tags := tagsOf r
  repo := Names.textGet r.text "repo"
  commit := Names.textGet r.text "commit"
  moduleHash := Names.textGet r.text "module_hash"
  deployer := Names.textGet r.text "deployer"
  updatedNs := r.updatedNs

/-- `str::contains`. -/
def contains (s q : String) : Bool := decide (q.toList <:+: s.toList)

/-- `char::is_whitespace`: the Unicode property White_Space. -/
def isWhitespace (c : Char) : Bool :=
  (0x9 ≤ c.val && c.val ≤ 0xd) || c.val == 0x20 || c.val == 0x85 || c.val == 0xa0 ||
    c.val == 0x1680 || (0x2000 ≤ c.val && c.val ≤ 0x200a) || c.val == 0x2028 || c.val == 0x2029 ||
    c.val == 0x202f || c.val == 0x205f || c.val == 0x3000

/-- `str::trim`. -/
def trim (s : String) : String :=
  String.ofList ((s.toList.dropWhile isWhitespace).reverse.dropWhile isWhitespace).reverse

variable (toLowercase : String → String)

/-- `matches`: is `q` in the name or the lowercased description? -/
def matchesQ (r : Record) (q : String) : Bool :=
  if q.isEmpty then true
  else contains r.name q ||
    ((Names.textGet r.text "description").map fun d => contains (toLowercase d) q).getD false

/-- One record of a search: count a match, and keep it while the page has room. -/
def consider (q : String) (offset limit : ℕ) (acc : ℕ × List Hit) (r : Record) : ℕ × List Hit :=
  if !matchesQ toLowercase r q then acc
  else
    (acc.1 + 1,
      if acc.1 ≥ offset ∧ acc.2.length < limit then acc.2 ++ [hit r] else acc.2)

/-- The text a query looks for. -/
def soughtText (query : SearchQuery) : String := toLowercase (trim (query.q.getD ""))

/-- The tag a query asks for, if it asks for one. -/
def soughtTag (query : SearchQuery) : Option String :=
  (query.tag.map trim).filter fun t => !t.isEmpty

/-- The record under a name, if there is one. -/
def considerName (s : State E) (q : String) (offset limit : ℕ) (acc : ℕ × List Hit)
    (name : String) : ℕ × List Hit :=
  match s.getRecord name with
  | some r => consider toLowercase q offset limit acc r
  | none => acc

/-- The names the index has for the tag, or every record. -/
def considerAll (s : State E) (q : String) (offset limit : ℕ) : Option String → ℕ × List Hit
  | some tag => (namesWithTag s tag).foldl (considerName toLowercase s q offset limit) (0, [])
  | none => s.records.values.foldl (consider toLowercase q offset limit) (0, [])

def search (s : State E) (query : SearchQuery) : SearchResult :=
  let offset := query.offset.getD 0
  let limit := min (max (query.limit.getD defaultLimit) 1) maxLimit
  let found := considerAll toLowercase s (soughtText toLowercase query) offset limit (soughtTag query)
  ⟨found.1, offset, found.2⟩

end Directory
