import Mathlib.Data.List.Chain
import IcNameService.Directory.Queries
import IcNameService.Directory.Search
import IcNameService.Resolution.Honest
import IcNameService.Serving.Reading

/-!
# What the JSON routes serve

A client that speaks HTTP and JSON gets what one that speaks Candid gets.  A resolution carries its own
proof: the certified leaves are rebuilt from the strings of the answer and found in its witness.  A
search, however its query string is written, is the window of the scan that was asked for.

* `State.handle_resolve`, `handle_search`, `handle_tags` — the route of a path.
* `SelfProving` — what the verifier checks, on the strings of a JSON answer.
* `World.json_answers_prove` — **every JSON resolution proves itself**, and an error is reported as one.
* `World.search_over_http` — **a search over HTTP is the search that was written into its URL**, page
  by page.
-/

namespace Gateway

/-! ## Routes -/

/-- The methods that are answered. -/
def Reads (method : String) : Prop := method = "GET" ∨ method = "HEAD"

lemma Reads.not_refused {method : String} (h : Reads method) :
    ¬ (method ≠ "GET" ∧ method ≠ "HEAD") := by
  rintro ⟨hget, hhead⟩
  exact h.elim hget hhead

end Gateway

namespace State

open Gateway

variable {E : Env} (s : State E) (now : ℕ) (dataCertificate : Option Bytes) {method url : String}

/-- A path under `/api/resolve/` is a resolution, whatever stands at the end of it. -/
lemma handle_resolve (hmethod : Reads method) {rest : String}
    (hpath : stripPrefix "/api/resolve/" (pathOf url) = some rest) :
    s.handle now dataCertificate ⟨method, url⟩ =
      s.apiResolve now dataCertificate (trimEnd '/' rest) := by
  have hroot : pathOf url ≠ "/" := by
    intro heq
    have hnone : stripPrefix "/api/resolve/" "/" = none := by decide
    rw [heq, hnone] at hpath
    cases hpath
  simp only [handle, hpath]
  rw [if_neg hmethod.not_refused, if_neg hroot]

lemma handle_search (hmethod : Reads method)
    (hpath : pathOf url = "/api/search" ∨ pathOf url = "/api/search/") :
    s.handle now dataCertificate ⟨method, url⟩ =
      s.response dataCertificate 200 "application/json" (.search url) := by
  have hother : pathOf url ≠ "/" ∧ stripPrefix "/api/resolve/" (pathOf url) = none := by
    rcases hpath with heq | heq <;> rw [heq] <;> decide
  simp only [handle, hother.2]
  rw [if_neg hmethod.not_refused, if_neg hother.1, if_pos hpath]

lemma handle_tags (hmethod : Reads method)
    (hpath : pathOf url = "/api/tags" ∨ pathOf url = "/api/tags/") :
    s.handle now dataCertificate ⟨method, url⟩ =
      s.response dataCertificate 200 "application/json" .tags := by
  have hother : pathOf url ≠ "/" ∧ stripPrefix "/api/resolve/" (pathOf url) = none ∧
      ¬ (pathOf url = "/api/search" ∨ pathOf url = "/api/search/") := by
    rcases hpath with heq | heq <;> rw [heq] <;> decide
  simp only [handle, hother.2.1]
  rw [if_neg hmethod.not_refused, if_neg hother.1, if_neg hother.2.2, if_pos hpath]

/-! ## What a client reads -/

variable (toLowercase : String → String) (F : Forecast)

/-- The JSON value of a response body. -/
def readBody (res : HttpResponse E) : Option Json :=
  (s.render toLowercase F now res.body).bind Json.parse

variable {s now dataCertificate toLowercase F}

/-- Every query string is taken apart: decoding never reads out of range. -/
lemma exists_queryOf (url : String) : ∃ params, queryOf url = some params := by
  have hdecode : ∀ p, ∃ q, decodeParam p = some q := by
    intro p
    have htotal : ∀ t, ∃ t', percentDecode t = some t' := by
      intro t
      obtain ⟨out, hout⟩ := unescapes_total (asBytes t)
      exact ⟨_, percentDecode_eq hout⟩
    obtain ⟨k, hk⟩ := htotal ((Names.splitOnce p '=').getD (p, "")).1
    obtain ⟨v, hv⟩ := htotal ((Names.splitOnce p '=').getD (p, "")).2
    exact ⟨(k, v), by simp [decodeParam, hk, hv]⟩
  have hmap : ∀ pieces : List String, ∃ params, pieces.mapM decodeParam = some params := by
    intro pieces
    induction pieces with
    | nil => exact ⟨[], rfl⟩
    | cons p pieces ih =>
        obtain ⟨q, hq⟩ := hdecode p
        obtain ⟨params, hparams⟩ := ih
        exact ⟨q :: params, by simp [List.mapM_cons, hq, hparams]⟩
  simp only [queryOf]
  split
  · exact ⟨[], rfl⟩
  · split_ifs
    · exact ⟨[], rfl⟩
    · exact hmap _

/-- The body of a search is the search that the query string asks for. -/
lemma readBody_search (hJ : E.JsonLaws) {params : List (String × String)}
    (hquery : queryOf url = some params) (statusCode : ℕ) (contentType : String) :
    s.readBody now toLowercase F (s.response dataCertificate statusCode contentType (.search url)) =
      some (renderSearch E (Directory.search toLowercase s (searchQuery params))).json := by
  simp [readBody, response, render, hquery, hJ.read_back]

end State

/-! ## An answer that proves itself -/

/-- What the verifier checks, on the strings of a JSON answer: its witness, decoded, digests to the
certified data and reveals, under the name of every record of the chain, the certified form rebuilt from
that record; and the chain leads from the name asked for to the canister. -/
structure SelfProving (E : Env) (certifiedData : E.cert.Hash) (name : String) (j : JsonResolved) :
    Prop where
  asked : j.name = name
  witness : ∃ t, j.witness = E.base64 (E.cborTree t) ∧ certifiedData = E.cert.digest t ∧
    ∀ r ∈ j.chain, E.cert.lookupPath t [asBytes "names", asBytes r.name] =
      some (asBytes r.canonicalText)
  first : ∃ r, j.chain.head? = some r ∧ r.name = name
  links : j.chain.IsChain fun r next => r.target = .alias next.name
  last : ∃ r, j.chain.getLast? = some r ∧ r.target = .address j.canister

/-- **What the verifier accepts still proves itself as JSON.** -/
theorem Verifier.Accepted.selfProving {E : Env} {certifiedData : E.cert.Hash} {name : String}
    {answer : Resolved E} (h : Verifier.Accepted name certifiedData answer) :
    SelfProving E certifiedData name (Gateway.renderResolved answer) where
  asked := h.asked
  witness := by
    refine ⟨answer.witness, rfl, h.root, fun j hj => ?_⟩
    obtain ⟨r, hr, rfl⟩ := List.mem_map.mp hj
    rw [Gateway.canonicalText_renderRecord]
    have hleaf := h.leaf r hr
    rwa [Verifier.canonical_eq] at hleaf
  first := by
    obtain ⟨r, hr, hname⟩ := h.first
    exact ⟨Gateway.renderRecord E r, by simp [Gateway.renderResolved, hr], hname⟩
  links := by
    refine List.isChain_map_of_isChain _ (fun r next hlink => ?_) h.links
    rw [Gateway.renderRecord, hlink]
    rfl
  last := by
    obtain ⟨r, hr, htarget⟩ := h.last
    refine ⟨Gateway.renderRecord E r, by simp [Gateway.renderResolved, hr], ?_⟩
    rw [Gateway.renderRecord, htarget]
    rfl

namespace World

open Gateway

variable {E : Env} {s₀ : State E} {w : World E} {tr : History E}

/-- **Every JSON resolution proves itself.**  In every state reached, from a fresh start or an upgrade,
whatever stands on a path under `/api/resolve/`: where `follow` answers, the body is JSON that a client
reads back as the same canister and the same chain, and that verifies against the certified data from
its strings alone; where `follow` does not, the body is the error and nothing else. -/
theorem json_answers_prove (hC : E.cert.CertLaws) (hJ : E.JsonLaws) (h₀ : State.Booted s₀)
    (h : Run (machine E) anyEvent (start s₀) tr w) (toLowercase : String → String) (F : Forecast)
    (now : ℕ) (dataCertificate : Option Bytes) {method url rest : String} (hmethod : Reads method)
    (hpath : stripPrefix "/api/resolve/" (pathOf url) = some rest) :
    (∀ p chain, w.canister.follow (trimEnd '/' rest) now = .ok (p, chain) →
      (w.canister.handle now dataCertificate ⟨method, url⟩).statusCode = 200 ∧
      ∃ j, (w.canister.readBody now toLowercase F
          (w.canister.handle now dataCertificate ⟨method, url⟩)).bind JsonResolved.ofJson = some j ∧
        j.canister = E.toText p ∧ j.chain = chain.map (renderRecord E) ∧
        SelfProving E w.canister.certifiedData (trimEnd '/' rest) j) ∧
    ∀ e, w.canister.follow (trimEnd '/' rest) now = .error e →
      (w.canister.handle now dataCertificate ⟨method, url⟩).statusCode = 404 ∧
      w.canister.readBody now toLowercase F
          (w.canister.handle now dataCertificate ⟨method, url⟩) = some (jsonError e) := by
  rw [w.canister.handle_resolve now dataCertificate hmethod hpath]
  refine ⟨fun p chain hfollow => ?_, fun e hfollow => ?_⟩
  · have hresolve : w.canister.resolve (trimEnd '/' rest) now dataCertificate =
        .ok ⟨trimEnd '/' rest, p, chain, dataCertificate,
          w.canister.witness (chain.map Record.name)⟩ := by
      rw [State.resolve, hfollow]
      rfl
    have haccepted := State.accepted_resolve hC (run_named h₀ h) (run_mirrored hC h₀ h) hresolve
    simp only [State.apiResolve, hresolve]
    refine ⟨rfl, _, ?_, rfl, rfl, haccepted.selfProving⟩
    simp only [State.readBody, State.response, State.render, Option.bind_some, hJ.read_back]
    exact JsonResolved.ofJson_json _
  · have hresolve : w.canister.resolve (trimEnd '/' rest) now dataCertificate = .error e := by
      rw [State.resolve, hfollow]
      rfl
    simp only [State.apiResolve, hresolve]
    refine ⟨rfl, ?_⟩
    simp only [State.readBody, State.response, State.render, Option.bind_some, hJ.read_back]

/-- A flat name is won over a scoped one, and its JSON answer proves itself. -/
theorem json_answers_prove_won : ∃ (w : World Env.reference) (j : JsonResolved),
    (w.canister.readBody 26 id Reference.forecast
      (w.canister.handle 26 none ⟨"GET", "/api/resolve/abc/?x=1"⟩)).bind JsonResolved.ofJson = some j ∧
      j.chain.map JsonRecord.name = ["abc", "h/x"] ∧
      SelfProving Env.reference w.canister.certifiedData "abc" j := by
  obtain ⟨tr, w, hrun, -, hany⟩ := Machine.exists_run_of_exec (machine Env.reference) anyEvent init
    (Script.opening ++ Script.housing ++ Script.winning 1 2 "abc" "h/x" 1000 2000 5)
    (fun _ w => (w.canister.follow "abc" 26).toOption.any
      (fun a => a.2.map Record.name = ["abc", "h/x"]) = true) (by decide +kernel)
  obtain ⟨⟨p, chain⟩, hanswer, hnames⟩ := (Option.any_eq_true _ _).mp hany
  have hfollow : w.canister.follow "abc" 26 = .ok (p, chain) := Except.toOption_eq_some.mp hanswer
  have hpath : stripPrefix "/api/resolve/" (pathOf "/api/resolve/abc/?x=1") = some "abc/" := by
    decide +kernel
  have htrim : trimEnd '/' "abc/" = "abc" := by decide +kernel
  obtain ⟨hok, -⟩ := json_answers_prove Reference.certification_certLaws Env.reference_jsonLaws .fresh
    hrun id Reference.forecast 26 none (Or.inl rfl : Reads "GET") hpath
  rw [htrim] at hok
  obtain ⟨-, j, hj, -, hchain, hproves⟩ := hok p chain hfollow
  refine ⟨w, j, hj, ?_, hproves⟩
  rw [hchain, List.map_map]
  exact of_decide_eq_true hnames

/-! ## Searching -/

/-- The parameters a client writes for a query. -/
def paramsOf (query : Directory.SearchQuery) : List (String × String) :=
  (query.q.map fun v => ("q", v)).toList ++ (query.tag.map fun v => ("tag", v)).toList ++
    (query.offset.map fun n => ("offset", toString n)).toList ++
    (query.limit.map fun n => ("limit", toString n)).toList

/-- The numbers of a query are `u32`. -/
def Fits (query : Directory.SearchQuery) : Prop :=
  (∀ n ∈ query.offset, n < 2 ^ 32) ∧ ∀ n ∈ query.limit, n < 2 ^ 32

lemma parseUnsigned_toString {bits n : ℕ} (h : n < 2 ^ bits) :
    parseUnsigned bits (toString n) = some n := by
  have hlist : (toString n).toList = Nat.toDigits 10 n := Nat.toList_repr
  have hdigit : ∀ c ∈ Nat.toDigits 10 n, c.isDigit = true :=
    fun c hc => Nat.isDigit_of_mem_toDigits (by decide) (by decide) hc
  rw [parseUnsigned, hlist]
  split
  · rename_i rest heq
    exact absurd (hdigit '+' (heq ▸ List.mem_cons_self)) (by decide)
  · rw [if_neg (by simpa [Nat.toDigits_ne_nil] using hdigit), Nat.ofDigitChars_ten_toDigits]
    exact if_pos h

/-- **A query that is written as parameters is asked as it was written.** -/
theorem searchQuery_paramsOf {query : Directory.SearchQuery} (h : Fits query) :
    searchQuery (paramsOf query) = query := by
  obtain ⟨q, tag, offset, limit⟩ := query
  have hoffset : ∀ n ∈ offset, parseUnsigned 32 (toString n) = some n :=
    fun n hn => parseUnsigned_toString (h.1 n hn)
  have hlimit : ∀ n ∈ limit, parseUnsigned 32 (toString n) = some n :=
    fun n hn => parseUnsigned_toString (h.2 n hn)
  cases q <;> cases tag <;> cases offset <;> cases limit <;>
    simp_all [searchQuery, paramsOf, param]

variable {ok : World E → Event → Prop} (toLowercase : String → String) (F : Forecast) (now : ℕ)
  (dataCertificate : Option Bytes) {method : String}

/-- What a client reads of the search that a URL asks for. -/
def searchAt (w : World E) (method url : String) : Option JsonSearch :=
  (w.canister.readBody now toLowercase F
    (w.canister.handle now dataCertificate ⟨method, url⟩)).bind JsonSearch.ofJson

/-- Whatever stands in its query string, a search is answered with what the parameters say. -/
lemma searchAt_eq (hJ : E.JsonLaws) (w : World E) (hmethod : Reads method) {url : String}
    (hpath : pathOf url = "/api/search" ∨ pathOf url = "/api/search/")
    {params : List (String × String)} (hquery : queryOf url = some params) :
    searchAt toLowercase F now dataCertificate w method url =
      some (renderSearch E (Directory.search toLowercase w.canister (searchQuery params))) := by
  rw [searchAt, w.canister.handle_search now dataCertificate hmethod hpath,
    State.readBody_search hJ hquery, Option.bind_some, JsonSearch.ofJson_json]

/-- A query written into a URL in any way is answered with its window of the scan. -/
lemma searchAt_written (hJ : E.JsonLaws) (h : Run (machine E) ok init tr w) (hmethod : Reads method)
    {path : String} (hpath : path = "/api/search" ∨ path = "/api/search/") {query : Directory.SearchQuery}
    (hfits : Fits query) {written : List Char} (hwritten : WritesQuery (paramsOf query) written)
    (fragment : Option String) :
    searchAt toLowercase F now dataCertificate w method (urlOf path written fragment) =
      some ⟨(Directory.scan toLowercase w.canister query).length, query.offset.getD 0,
        (((Directory.scan toLowercase w.canister query).drop (query.offset.getD 0)).take
          (min (max (query.limit.getD Directory.defaultLimit) 1) Directory.maxLimit)).map
            fun r => renderHit E (Directory.hit r)⟩ := by
  have hplain : '?' ∉ path.toList ∧ '#' ∉ path.toList := by
    rcases hpath with rfl | rfl <;> decide
  have hroute : pathOf (urlOf path written fragment) = path := pathOf_urlOf fragment hplain
  rw [searchAt_eq toLowercase F now dataCertificate hJ w hmethod (by rwa [hroute])
      (hwritten.queryOf fragment hplain),
    searchQuery_paramsOf hfits, (run_catalogued h).search_eq_scan (run_shape h)]
  simp only [renderSearch, List.map_map, Function.comp_def]

/-- **A search over HTTP is the search that was written into its URL.**  Every URL on the route is
answered, whatever its query string; a query written in any way, with any text to look for, is answered
with the length of the scan and the window it asked for; and the pages of any length, asked for one URL
after the other, are the scan, in name order. -/
theorem search_over_http (hJ : E.JsonLaws) (h : Run (machine E) ok init tr w) (hmethod : Reads method) :
    (∀ url, pathOf url = "/api/search" ∨ pathOf url = "/api/search/" →
      ∃ params, queryOf url = some params ∧
        searchAt toLowercase F now dataCertificate w method url =
          some (renderSearch E (Directory.search toLowercase w.canister (searchQuery params)))) ∧
    (∀ query path written fragment, path = "/api/search" ∨ path = "/api/search/" → Fits query →
      WritesQuery (paramsOf query) written →
      searchAt toLowercase F now dataCertificate w method (urlOf path written fragment) =
        some ⟨(Directory.scan toLowercase w.canister query).length, query.offset.getD 0,
          (((Directory.scan toLowercase w.canister query).drop (query.offset.getD 0)).take
            (min (max (query.limit.getD Directory.defaultLimit) 1) Directory.maxLimit)).map
              fun r => renderHit E (Directory.hit r)⟩) ∧
    ∀ query L k, 1 ≤ L → L ≤ Directory.maxLimit →
      (Directory.scan toLowercase w.canister query).length ≤ k * L → k * L ≤ 2 ^ 32 →
      ∀ pages : ℕ → List Char, (∀ i < k, WritesQuery
        (paramsOf { query with offset := some (i * L), limit := some L }) (pages i)) →
      (List.range k).flatMap (fun i => ((searchAt toLowercase F now dataCertificate w method
          (urlOf "/api/search" (pages i) none)).map JsonSearch.hits).getD []) =
        (Directory.scan toLowercase w.canister query).map fun r => renderHit E (Directory.hit r) := by
  refine ⟨fun url hpath => ?_, fun query path written fragment hpath hfits hwritten => ?_,
    fun query L k hpos hmax hall hfits pages hpages => ?_⟩
  · obtain ⟨params, hparams⟩ := State.exists_queryOf url
    exact ⟨params, hparams, searchAt_eq toLowercase F now dataCertificate hJ w hmethod hpath hparams⟩
  · exact searchAt_written toLowercase F now dataCertificate hJ h hmethod hpath hfits hwritten fragment
  · have hlimit : min (max L 1) Directory.maxLimit = L := by
      rw [max_eq_left hpos, min_eq_left hmax]
    have hpage : ∀ i ∈ List.range k,
        ((searchAt toLowercase F now dataCertificate w method
          (urlOf "/api/search" (pages i) none)).map JsonSearch.hits).getD [] =
        (((Directory.scan toLowercase w.canister query).drop (i * L)).take L).map
          fun r => renderHit E (Directory.hit r) := by
      intro i hi
      have hi := List.mem_range.mp hi
      have hu32 : Fits { query with offset := some (i * L), limit := some L } := by
        have hoffset : i * L < k * L := Nat.mul_lt_mul_of_pos_right hi hpos
        have hmaxLimit : Directory.maxLimit < 2 ^ 32 := by decide
        refine ⟨fun n hn => ?_, fun n hn => ?_⟩
        · cases hn
          exact hoffset.trans_le hfits
        · cases hn
          exact hmax.trans_lt hmaxLimit
      rw [searchAt_written toLowercase F now dataCertificate hJ h hmethod (Or.inl rfl) hu32
        (hpages i hi) none]
      simp only [Option.map_some, Option.getD_some, hlimit]
      rfl
    rw [List.flatMap_congr hpage, ← List.map_flatMap, Scan.pages_eq_take,
      List.take_of_length_le hall]

/-- A character that stands for itself in a query string. -/
def Literal (s : String) : Prop := ∀ c ∈ s.toList, c ∉ ['&', '=', '#', '+', '%']

instance (s : String) : Decidable (Literal s) :=
  List.decidableBAll (fun c => c ∉ ['&', '=', '#', '+', '%']) s.toList

lemma writesText_literal : ∀ {chars : List Char}, (∀ c ∈ chars, c ∉ ['&', '=', '#', '+', '%']) →
    WritesText chars chars
  | [], _ => .nil
  | _ :: _, h => by
      rw [List.forall_mem_cons] at h
      exact .cons (.literal h.1) (writesText_literal h.2)

/-- Parameters without separators, written as they are. -/
def plainQuery (params : List (String × String)) : List Char :=
  ['&'].intercalate (params.map fun p => p.1.toList ++ '=' :: p.2.toList)

lemma writesQuery_plain {params : List (String × String)}
    (h : ∀ p ∈ params, Literal p.1 ∧ Literal p.2) : WritesQuery params (plainQuery params) := by
  refine ⟨_, ?_, rfl⟩
  rw [List.forall₂_map_right_iff]
  exact List.forall₂_same.mpr fun p hp =>
    ⟨_, _, writesText_literal (h p hp).1, writesText_literal (h p hp).2, rfl⟩

/-- Two tagged names, one to a page. -/
theorem search_over_http_tagged : ∃ w : World Env.reference,
    searchAt id Reference.forecast 0 none w "GET" "/api/search?tag=git" =
      some ⟨2, 0, (Directory.scan id w.canister ⟨none, some "git", none, none⟩).map
        fun r => renderHit Env.reference (Directory.hit r)⟩ ∧
    (List.range 2).flatMap (fun i => ((searchAt id Reference.forecast 0 none w "GET"
        (urlOf "/api/search" (plainQuery (paramsOf ⟨none, some "git", some (i * 1), some 1⟩))
          none)).map JsonSearch.hits).getD []) =
      (Directory.scan id w.canister ⟨none, some "git", none, none⟩).map
        fun r => renderHit Env.reference (Directory.hit r) := by
  obtain ⟨tr, w, hr, -, hlen⟩ := Machine.exists_run_of_exec (machine Env.reference)
    anyEvent init Script.tagging
    (fun _ w => (Directory.scan id w.canister ⟨none, some "git", none, none⟩).length = 2)
    (by decide +kernel)
  obtain ⟨-, hwritten, hpages⟩ := search_over_http id Reference.forecast 0 none
    Env.reference_jsonLaws hr (Or.inl rfl : Reads "GET")
  refine ⟨w, ?_, hpages ⟨none, some "git", none, none⟩ 1 2 (by decide) (by decide) (by omega)
    (by decide) _ fun i hi => writesQuery_plain ?_⟩
  · have hurl : urlOf "/api/search" (plainQuery (paramsOf ⟨none, some "git", none, none⟩)) none =
        "/api/search?tag=git" := by decide +kernel
    have hfits : Fits ⟨none, some "git", none, none⟩ :=
      ⟨fun n hn => (by cases hn), fun n hn => (by cases hn)⟩
    have hfound := hwritten ⟨none, some "git", none, none⟩ "/api/search" _ none (Or.inl rfl) hfits
      (writesQuery_plain (by decide +kernel))
    rw [hurl, hlen] at hfound
    rw [hfound, List.take_of_length_le]
    · rfl
    · rw [List.length_drop, hlen]
      decide
  · interval_cases i <;> decide +kernel

end World
