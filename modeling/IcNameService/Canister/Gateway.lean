import IcNameService.Canister.Resolve

/-!
# The HTTP gateway (gateway.rs)

`handle` routes a request: the API routes, the domain list, the index page, and every other path
as a name.  The bodies of the API routes are kept as what they render, not as JSON.
-/

/-- The fields of a request that are read. -/
structure HttpRequest where
  method : String
  url : String
  deriving DecidableEq, Repr

/-- A response body: text, or what a JSON route renders. -/
inductive Body (E : Env)
  | text (s : String)
  | resolved (r : Resolved E)
  | failed (error : String)
  | search (url : String)
  | tags
  | expiring (url : String)

structure HttpResponse (E : Env) where
  statusCode : ℕ
  headers : List (String × String)
  body : Body E

namespace Gateway

/-! ## Text helpers -/

/-- Minimal HTML escaping for the values that reach the warning page. -/
def esc (s : String) : String :=
  String.join (s.toList.map fun c =>
    if c = '&' then "&amp;"
    else if c = '<' then "&lt;"
    else if c = '>' then "&gt;"
    else if c = '"' then "&quot;"
    else c.toString)

/-- Path without query string or fragment. -/
def pathOf (url : String) : String :=
  String.ofList (url.toList.takeWhile fun c => c ≠ '?' && c ≠ '#')

/-- `trim_start_matches(c)`. -/
def trimStart (c : Char) (s : String) : String := String.ofList (s.toList.dropWhile (· = c))

/-- `trim_end_matches(c)`. -/
def trimEnd (c : Char) (s : String) : String :=
  String.ofList (s.toList.reverse.dropWhile (· = c)).reverse

/-- `strip_prefix(p)`. -/
def stripPrefix (p s : String) : Option String :=
  if p.toList.isPrefixOf s.toList then some (String.ofList (s.toList.drop p.length)) else none

def indexPage : String :=
  "ic-name-service\n\n" ++
  "GET /<name>                        redirect to the canister\n" ++
  "GET /api/resolve/<name>            certified answer as JSON\n" ++
  "(a name is <handle>/<label>, or a flat name aliasing one)\n" ++
  "GET /api/search?q=&tag=            directory search as JSON\n" ++
  "GET /api/tags                      tags in use\n" ++
  "GET /api/expiring?days=N           flat names running out soon\n\n" ++
  "Candid: resolve, get_record, list_names, register_handle, set_record.\n" ++
  "See DESIGN.md in the repository.\n"

/-! ## The warning page -/

variable (E : Env)

/-- A target as the page shows it. -/
def showTarget : Target → String
  | .alias n => n
  | .address p => E.toText p

/-- Changed hands within the window, and points somewhere new. -/
def handedOver (warnNs now : ℕ) (r : Record) : Bool :=
  r.previousTarget.any (fun prev => prev ≠ r.target) && now - r.changedHandsNs < warnNs

def nsPerDay : ℕ := 86400000000000

/-- If any record in the chain changed hands within the warning window and points somewhere new, a
page saying so instead of a silent redirect. -/
def handoverPage (chain : List Record) (location : String) (now warnNs : ℕ) : Option String :=
  match chain.find? (handedOver warnNs now) with
  | none => none
  | some r =>
      r.previousTarget.map fun prev =>
        let prev := esc (showTarget E prev)
        let target := esc (showTarget E r.target)
        let daysAgo := (now - r.changedHandsNs) / nsPerDay
        let name := esc r.name
        let location := esc location
        "<!doctype html>\n<html><head><meta charset=\"utf-8\"><title>" ++ name ++
        " changed hands</title>\n<style>body\x7bfont-family:sans-serif;max-width:40em;" ++
        "margin:3em auto;padding:0 1em;line-height:1.5\x7dcode\x7bbackground:#eee;" ++
        "padding:0 .3em\x7d</style></head><body>\n<h1>" ++ name ++ " changed hands</h1>\n" ++
        "<p>The name <code>" ++ name ++ "</code> changed hands " ++ toString daysAgo ++
        " day(s) ago. Until then it pointed at\n<code>" ++ prev ++
        "</code>. It now points at <code>" ++ target ++ "</code>.</p>\n" ++
        "<p>A flat name is a vanity handle that anyone may buy at its listed price. The scoped " ++
        "name\nunder it is the identity that does not change hands. If you meant the site you " ++
        "visited\nbefore, use the old scoped name.</p>\n" ++
        "<p><a href=\"" ++ location ++ "\">Continue to " ++ target ++ "</a></p>\n" ++
        "<p><a href=\"/" ++ prev ++ "\">Go to " ++ prev ++ " instead</a></p>\n</body></html>\n"

/-- There is a page exactly when some record of the chain changed hands. -/
lemma handoverPage_isSome {chain : List Record} (location : String) {now warnNs : ℕ} :
    (handoverPage E chain location now warnNs).isSome = true ↔
      ∃ r ∈ chain, handedOver warnNs now r = true := by
  simp only [handoverPage]
  cases hfind : chain.find? (handedOver warnNs now) with
  | none =>
      rw [List.find?_eq_none] at hfind
      simpa using hfind
  | some r =>
      have hmem := List.mem_of_find?_eq_some hfind
      have hr := List.find?_some hfind
      have hprevious : r.previousTarget.isSome = true := by
        simp only [handedOver, Bool.and_eq_true, Option.any_eq_true] at hr
        obtain ⟨⟨prev, hprev, -⟩, -⟩ := hr
        simp [hprev]
      simp only [Option.isSome_map, hprevious, true_iff]
      exact ⟨r, hmem, hr⟩

end Gateway

namespace State

variable {E : Env} (s : State E)

/-- `certify::http_headers`: none outside a query context, where there is no certificate. -/
def httpHeaders (dataCertificate : Option Bytes) : Option (List (String × String)) :=
  dataCertificate.map fun certificate =>
    let tree := E.base64 (E.cborTree s.httpWitness)
    let exprPath := E.base64 (E.cborTexts ["http_expr", "<*>"])
    [("IC-Certificate", "certificate=:" ++ E.base64 certificate ++ ":, tree=:" ++ tree ++
        ":, expr_path=:" ++ exprPath ++ ":, version=2"),
      ("IC-CertificateExpression", Certify.skipCel)]

/-- A response with its headers. -/
def response (dataCertificate : Option Bytes) (statusCode : ℕ) (contentType : String)
    (body : Body E) : HttpResponse E where
  statusCode := statusCode
  headers := [("Content-Type", contentType), ("Cache-Control", "no-cache")] ++
    (s.httpHeaders dataCertificate).getD []
  body := body

/-- `domains_inner`. -/
def domainList : List String :=
  match s.domains with
  | none => []
  | some text => (Names.splitChar text '\n').filter fun line => !line.isEmpty

/-- `api_resolve`. -/
def apiResolve (now : ℕ) (dataCertificate : Option Bytes) (name : String) : HttpResponse E :=
  match s.resolve name now dataCertificate with
  | .ok r => s.response dataCertificate 200 "application/json" (.resolved r)
  | .error e => s.response dataCertificate 404 "application/json" (.failed e)

/-- Every path that is not a route is a name: a redirect, the warning page, or not found. -/
def serveName (now : ℕ) (dataCertificate : Option Bytes) (name : String) : HttpResponse E :=
  match s.follow name now with
  | .ok (canister, chain) =>
      let location := "https://" ++ E.toText canister ++ ".icp0.io/"
      match Gateway.handoverPage E chain location now s.config.handoverWarnNs with
      | some page => s.response dataCertificate 200 "text/html; charset=utf-8" (.text page)
      | none =>
          let res := s.response dataCertificate 302 "text/plain"
            (.text (name ++ " -> " ++ location ++ "\n"))
          { res with headers := res.headers ++ [("Location", location)] }
  | .error e => s.response dataCertificate 404 "text/plain" (.text (e ++ "\n"))

/-- `gateway::handle`. -/
def handle (now : ℕ) (dataCertificate : Option Bytes) (req : HttpRequest) : HttpResponse E :=
  let respond := s.response dataCertificate
  if req.method ≠ "GET" ∧ req.method ≠ "HEAD" then respond 405 "text/plain" (.text "GET only\n")
  else
    let path := Gateway.pathOf req.url
    if path = "/" then respond 200 "text/plain" (.text Gateway.indexPage)
    else
      match Gateway.stripPrefix "/api/resolve/" path with
      | some name => s.apiResolve now dataCertificate (Gateway.trimEnd '/' name)
      | none =>
          if path = "/api/search" ∨ path = "/api/search/" then
            respond 200 "application/json" (.search req.url)
          else if path = "/api/tags" ∨ path = "/api/tags/" then
            respond 200 "application/json" .tags
          else if path = "/api/expiring" ∨ path = "/api/expiring/" then
            respond 200 "application/json" (.expiring req.url)
          else if path = "/.well-known/ic-domains" then
            let body := "\n".intercalate s.domainList
            let body := if body.isEmpty then body else body ++ "\n"
            respond 200 "text/plain" (.text body)
          else
            s.serveName now dataCertificate (Gateway.trimEnd '/' (Gateway.trimStart '/' path))

end State
