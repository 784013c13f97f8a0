import IcNameService.Canister.Query
import IcNameService.Canister.Views

/-!
# What the JSON routes render (gateway.rs)

The structures the gateway serializes, each with the value that serde makes of it: members in field
order, a member that is skipped when there is none, a variant as an object with its lowercase name.
Timestamps and amounts are decimal strings.

`State.render` is the text of a response body.
-/

/-! ## The structures -/

/-- `JsonTarget`. -/
inductive JsonTarget
  | address (s : String)
  | alias (s : String)
  deriving DecidableEq, Repr

/-- `JsonHarberger`. -/
structure JsonHarberger where
  price : String
  balance : String
  settledNs : String
  lapsedNs : Option String
  deriving DecidableEq, Repr

/-- `JsonRecord`. -/
structure JsonRecord where
  name : String
  owner : String
  target : JsonTarget
  text : List (String × String)
  createdNs : String
  updatedNs : String
  changedHandsNs : String
  flat : Option JsonHarberger
  previousTarget : Option JsonTarget
  deriving DecidableEq, Repr

/-- `JsonResolved`. -/
structure JsonResolved where
  name : String
  canister : String
  chain : List JsonRecord
  certificate : Option String
  witness : String
  deriving DecidableEq, Repr

/-- `JsonHit`. -/
structure JsonHit where
  name : String
  target : JsonTarget
  description : Option String
  tags : List String
  repo : Option String
  commit : Option String
  moduleHash : Option String
  deployer : Option String
  updatedNs : String
  deriving DecidableEq, Repr

/-- `JsonSearch`. -/
structure JsonSearch where
  total : ℕ
  offset : ℕ
  hits : List JsonHit
  deriving DecidableEq, Repr

/-- `JsonExpiring`. -/
structure JsonExpiring where
  name : String
  owner : String
  status : String
  deadlineNs : String
  balance : String
  taxPerYear : String
  deriving DecidableEq, Repr

/-! ## Their values -/

namespace Json

/-- An `Option<String>`. -/
def ofOption (o : Option String) : Json := (o.map str).getD null

/-- A member that is skipped when there is none. -/
def unlessNone {α : Type} (key : String) (toJson : α → Json) (o : Option α) : List (String × Json) :=
  (o.map fun a => (key, toJson a)).toList

end Json

open Json in
def JsonTarget.json : JsonTarget → Json
  | .address s => obj [("address", str s)]
  | .alias s => obj [("alias", str s)]

open Json in
def JsonHarberger.json (h : JsonHarberger) : Json :=
  obj [("price", str h.price), ("balance", str h.balance), ("settled_ns", str h.settledNs),
    ("lapsed_ns", ofOption h.lapsedNs)]

open Json in
def JsonRecord.json (r : JsonRecord) : Json :=
  obj ([("name", str r.name), ("owner", str r.owner), ("target", r.target.json),
      ("text", arr (r.text.map fun e => arr [str e.1, str e.2])), ("created_ns", str r.createdNs),
      ("updated_ns", str r.updatedNs), ("changed_hands_ns", str r.changedHandsNs)] ++
    unlessNone "flat" JsonHarberger.json r.flat ++
    unlessNone "previous_target" JsonTarget.json r.previousTarget)

open Json in
def JsonResolved.json (r : JsonResolved) : Json :=
  obj [("name", str r.name), ("canister", str r.canister),
    ("chain", arr (r.chain.map JsonRecord.json)), ("certificate", ofOption r.certificate),
    ("witness", str r.witness)]

open Json in
def JsonHit.json (h : JsonHit) : Json :=
  obj [("name", str h.name), ("target", h.target.json), ("description", ofOption h.description),
    ("tags", arr (h.tags.map str)), ("repo", ofOption h.repo), ("commit", ofOption h.commit),
    ("module_hash", ofOption h.moduleHash), ("deployer", ofOption h.deployer),
    ("updated_ns", str h.updatedNs)]

open Json in
def JsonSearch.json (s : JsonSearch) : Json :=
  obj [("total", num s.total), ("offset", num s.offset), ("hits", arr (s.hits.map JsonHit.json))]

open Json in
def JsonExpiring.json (e : JsonExpiring) : Json :=
  obj [("name", str e.name), ("owner", str e.owner), ("status", str e.status),
    ("deadline_ns", str e.deadlineNs), ("balance", str e.balance),
    ("tax_per_year", str e.taxPerYear)]

open Json in
/-- `TagCount`, as serde derives it. -/
def Directory.TagCount.json (t : Directory.TagCount) : Json :=
  obj [("tag", str t.tag), ("count", num t.count)]

open Json in
/-- `serde_json::json!` of an error. -/
def jsonError (e : String) : Json := obj [("error", str e)]

/-! ## What they are made of -/

namespace Gateway

variable (E : Env)

/-- A target with its principal as text. -/
def renderTarget : Target → JsonTarget
  | .address p => .address (E.toText p)
  | .alias n => .alias n

/-- Amounts and times as decimal strings. -/
def renderHarberger (h : Harberger) : JsonHarberger where
  price := toString h.price
  balance := toString h.balance
  settledNs := toString h.settledNs
  lapsedNs := h.lapsedNs.map fun t => toString t

def renderRecord (r : Record) : JsonRecord where
  name := r.name
  owner := E.toText r.owner
  target := renderTarget E r.target
  text := r.text
  createdNs := toString r.createdNs
  updatedNs := toString r.updatedNs
  changedHandsNs := toString r.changedHandsNs
  flat := r.flat.map renderHarberger
  previousTarget := r.previousTarget.map (renderTarget E)

variable {E}

def renderResolved (r : Resolved E) : JsonResolved where
  name := r.name
  canister := E.toText r.canister
  chain := r.chain.map (renderRecord E)
  certificate := r.certificate.map E.base64
  witness := E.base64 (E.cborTree r.witness)

variable (E)

def renderHit (h : Directory.Hit) : JsonHit where
  name := h.name
  target := renderTarget E h.target
  description := h.description
  tags := h.tags
  repo := h.repo
  commit := h.commit
  moduleHash := h.moduleHash
  deployer := h.deployer
  updatedNs := toString h.updatedNs

def renderSearch (r : Directory.SearchResult) : JsonSearch where
  total := r.total
  offset := r.offset
  hits := r.hits.map (renderHit E)

def renderStatus : Status → String
  | .active => "active"
  | .grace _ => "grace"
  | .free => "free"

def renderExpiring (e : Expiring) : JsonExpiring where
  name := e.name
  owner := E.toText e.owner
  status := renderStatus e.status
  deadlineNs := toString e.deadlineNs
  balance := toString e.balance
  taxPerYear := toString e.taxPerYear

/-- The window that `api_expiring` asks for: thirty days unless it is told otherwise, ten years at
most. -/
def windowOf (params : List (String × String)) : ℕ :=
  min (((param params "days").bind (parseUnsigned 64)).getD 30) 3650 * nsPerDay

end Gateway

namespace State

variable {E : Env} (s : State E) (toLowercase : String → String) (F : Forecast)

/-- The text of a response body; none where reading the query string reads out of range. -/
def render (now : ℕ) : Body E → Option String
  | .text t => some t
  | .resolved r => some (E.jsonText (Gateway.renderResolved r).json)
  | .failed e => some (E.jsonText (jsonError e))
  | .search url => (Gateway.queryOf url).map fun params =>
      E.jsonText
        (Gateway.renderSearch E (Directory.search toLowercase s (Gateway.searchQuery params))).json
  | .tags => some (E.jsonText (.arr ((Directory.tags s).map Directory.TagCount.json)))
  | .expiring url => (Gateway.queryOf url).map fun params =>
      E.jsonText (.arr ((s.expiring F (Gateway.windowOf params) now).map fun e =>
        (Gateway.renderExpiring E e).json))

end State
