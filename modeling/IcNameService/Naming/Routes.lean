import IcNameService.Canister.Gateway
import IcNameService.Core.Lines
import IcNameService.External.Reference
import IcNameService.Resolution.Follow
import IcNameService.System.Histories

/-!
# Names on the path of the gateway

Every path that is not a route is a name.  `Served` is how a name is answered, according to `follow`
and nothing else; `handle_name` says when the path of a valid name gets that answer.  The reserved
list keeps `api` from being a flat name but not from being a handle, so four routes stand where a
scoped name may be: `Gateway.shadowed` names them, and `gateway_serves_names` that there are no others.
-/

/-! ## Paths -/

namespace Gateway

/-- With or without a trailing slash. -/
def slashOf (slash : Bool) : String := if slash then "/" else ""

/-- The path of a name. -/
def pathTo (name : String) (slash : Bool) : String := "/" ++ name ++ slashOf slash

/-- What may come after the path: a query string, a fragment, or nothing. -/
def AfterPath (suffix : String) : Prop := ∀ c, suffix.toList.head? = some c → c = '?' ∨ c = '#'

/-- The scoped names that stand where a route does. -/
def shadowed (name : String) (slash : Bool) : Bool :=
  name = "api/search" || name = "api/tags" || name = "api/expiring" ||
    (name = "api/resolve" && slash)

/-- What the path of a name relies on: it is not empty, it is not cut short by what follows the path,
and no slash stands at either end of it. -/
structure OnPath (name : String) : Prop where
  nonempty : name.toList ≠ []
  chars : ∀ c ∈ name.toList, c ≠ '?' ∧ c ≠ '#' ∧ c ≠ '.'
  front : name.toList.head? ≠ some '/'
  back : name.toList.getLast? ≠ some '/'

variable {name : String} {slash : Bool}

lemma toList_slashOf (slash : Bool) : (slashOf slash).toList = if slash then ['/'] else [] := by
  cases slash <;> rfl

lemma toList_pathTo (name : String) (slash : Bool) :
    (pathTo name slash).toList = '/' :: (name.toList ++ (slashOf slash).toList) := by
  simp [pathTo]

/-- The path ends where the query string or the fragment starts. -/
lemma OnPath.pathOf (h : OnPath name) {suffix : String} (hsuffix : AfterPath suffix) :
    pathOf (pathTo name slash ++ suffix) = pathTo name slash := by
  have hpath : ∀ c ∈ (pathTo name slash).toList, (decide (c ≠ '?') && decide (c ≠ '#')) = true := by
    intro c hc
    rw [toList_pathTo, List.mem_cons, List.mem_append] at hc
    rcases hc with rfl | hc | hc
    · decide
    · obtain ⟨h₁, h₂, -⟩ := h.chars c hc
      simp [h₁, h₂]
    · rw [toList_slashOf] at hc
      split_ifs at hc
      · rw [List.mem_singleton] at hc
        subst hc
        decide
      · cases hc
  have hrest : suffix.toList.takeWhile (fun c => decide (c ≠ '?') && decide (c ≠ '#')) = [] := by
    cases hlist : suffix.toList with
    | nil => rfl
    | cons c rest =>
        rcases hsuffix c (by rw [hlist]; rfl) with rfl | rfl <;> rfl
  apply String.toList_inj.mp
  rw [Gateway.pathOf, String.toList_ofList, String.toList_append,
    List.takeWhile_append_of_pos hpath, hrest, List.append_nil]

/-- Trimming the slashes leaves the name. -/
lemma OnPath.trimmed (h : OnPath name) :
    trimEnd '/' (trimStart '/' (pathTo name slash)) = name := by
  have hfront : ((pathTo name slash).toList).dropWhile (fun c => decide (c = '/')) =
      name.toList ++ (slashOf slash).toList := by
    rw [toList_pathTo, List.dropWhile_cons_of_pos (by decide)]
    cases hlist : name.toList with
    | nil => exact absurd hlist h.nonempty
    | cons c rest =>
        have hc : c ≠ '/' := by
          rintro rfl
          exact h.front (by rw [hlist]; rfl)
        rw [List.cons_append, List.dropWhile_cons_of_neg (by simpa using hc)]
  have hback : name.toList.reverse.dropWhile (fun c => decide (c = '/')) = name.toList.reverse := by
    cases hlist : name.toList.reverse with
    | nil => rfl
    | cons c rest =>
        have hc : c ≠ '/' := by
          rintro rfl
          apply h.back
          rw [← List.head?_reverse, hlist]
          rfl
        rw [List.dropWhile_cons_of_neg (by simpa using hc)]
  have hslash : (name.toList ++ (slashOf slash).toList).reverse.dropWhile
      (fun c => decide (c = '/')) = name.toList.reverse := by
    rw [List.reverse_append, toList_slashOf]
    split_ifs
    · rw [List.reverse_singleton, List.singleton_append, List.dropWhile_cons_of_pos (by decide),
        hback]
    · simpa using hback
  rw [trimEnd, trimStart, String.toList_ofList, hfront, hslash, List.reverse_reverse,
    String.ofList_toList]

/-- Names without a slash at the end are told apart by their paths. -/
lemma pathTo_injective {route : String} {slash' : Bool}
    (hname : name.toList.getLast? ≠ some '/') (hroute : route.toList.getLast? ≠ some '/')
    (h : pathTo name slash = pathTo route slash') : name = route ∧ slash = slash' := by
  have hlist := congrArg String.toList h
  rw [toList_pathTo, toList_pathTo, List.cons.injEq, toList_slashOf, toList_slashOf] at hlist
  have hlist := hlist.2
  cases slash with
  | true =>
      cases slash' with
      | true =>
          simp only [if_true] at hlist
          exact ⟨String.toList_inj.mp (List.append_cancel_right hlist), rfl⟩
      | false =>
          simp only [if_true, Bool.false_eq_true, if_false, List.append_nil] at hlist
          exact absurd (by rw [← hlist, List.getLast?_concat]) hroute
  | false =>
      cases slash' with
      | true =>
          simp only [if_true, Bool.false_eq_true, if_false, List.append_nil] at hlist
          exact absurd (by rw [hlist, List.getLast?_concat]) hname
      | false =>
          simp only [Bool.false_eq_true, if_false, List.append_nil] at hlist
          exact ⟨String.toList_inj.mp hlist, rfl⟩

end Gateway

/-! ## The characters of a name -/

namespace Names

lemma slash_notMem_of_checkSegment {what s : String} (h : checkSegment what s = .ok ()) :
    '/' ∉ s.toList := by
  obtain ⟨-, -, hall⟩ := checkSegment_ok h
  intro hmem
  exact absurd (hall _ hmem) (by decide)

lemma chars_of_checkSegment {what s : String} (h : checkSegment what s = .ok ()) :
    ∀ c ∈ s.toList, c ≠ '?' ∧ c ≠ '#' ∧ c ≠ '.' := by
  obtain ⟨-, -, hall⟩ := checkSegment_ok h
  intro c hc
  refine ⟨?_, ?_, ?_⟩ <;>
  · rintro rfl
    exact absurd (hall _ hc) (by decide)

end Names

namespace State

variable {E : Env} {name : String} {slash : Bool}

open Gateway

lemma onPath_of_checkFlat (h : Names.checkFlat name = .ok ()) : OnPath name := by
  have hsegment := (Names.checkFlat_ok h).1
  have hslash := Names.slash_notMem_of_checkSegment hsegment
  exact
    { nonempty := (Names.checkSegment_ok hsegment).1
      chars := Names.chars_of_checkSegment hsegment
      front := fun hhead => hslash (List.mem_of_mem_head? hhead)
      back := fun hlast => hslash (List.mem_of_getLast? hlast) }

lemma onPath_of_split {p : String × String} (h : Names.split name = .ok p) : OnPath name := by
  obtain ⟨hlist, hhandle, hlabel⟩ := Names.split_ok (show Names.split name = .ok (p.1, p.2) from h)
  have hslash := Names.slash_notMem_of_checkSegment hhandle
  have hslash' := Names.slash_notMem_of_checkSegment hlabel
  refine ⟨?_, ?_, ?_, ?_⟩
  · rw [hlist]
    simp
  · intro c hc
    rw [hlist, List.mem_append, List.mem_cons] at hc
    rcases hc with hc | rfl | hc
    · exact Names.chars_of_checkSegment hhandle c hc
    · decide
    · exact Names.chars_of_checkSegment hlabel c hc
  · rw [hlist]
    intro hhead
    cases hp : p.1.toList with
    | nil => exact (Names.checkSegment_ok hhandle).1 hp
    | cons c rest =>
        rw [hp] at hhead
        cases hhead
        exact hslash (by rw [hp]; exact List.mem_cons_self)
  · rw [hlist]
    intro hlast
    rw [List.getLast?_append, List.getLast?_cons] at hlast
    cases hq : p.2.toList.getLast? with
    | none => exact (Names.checkSegment_ok hlabel).1 (List.getLast?_eq_none_iff.mp hq)
    | some c =>
        rw [hq] at hlast
        cases hlast
        exact hslash' (List.mem_of_getLast? hq)

lemma Nameable.onPath (h : Nameable name) : OnPath name := by
  simp only [Nameable] at h
  split_ifs at h
  · obtain ⟨p, hp⟩ := h
    exact onPath_of_split hp
  · exact onPath_of_checkFlat h

/-- Only one name has a path under the resolve route, and only with a trailing slash. -/
lemma Nameable.resolve_route (h : Nameable name)
    (hstrip : (stripPrefix "/api/resolve/" (pathTo name slash)).isSome = true) :
    name = "api/resolve" ∧ slash = true := by
  have hlist : ∃ rest, "api".toList ++ '/' :: ("resolve".toList ++ '/' :: rest) =
      name.toList ++ (slashOf slash).toList := by
    simp only [stripPrefix] at hstrip
    split_ifs at hstrip with hp
    · rw [List.isPrefixOf_iff_prefix, toList_pathTo] at hp
      obtain ⟨rest, hrest⟩ := hp
      exact ⟨rest, (List.cons.inj hrest).2⟩
    · cases hstrip
  obtain ⟨rest, hlist⟩ := hlist
  have hapi : '/' ∉ "api".toList := by decide
  have hresolve : '/' ∉ "resolve".toList := by decide
  rw [toList_slashOf] at hlist
  simp only [Nameable] at h
  split_ifs at h with hscoped
  · obtain ⟨p, hp⟩ := h
    obtain ⟨hname, hhandle, hlabel⟩ :=
      Names.split_ok (show Names.split name = .ok (p.1, p.2) from hp)
    rw [hname, List.append_assoc, List.cons_append] at hlist
    obtain ⟨hfirst, hsecond⟩ := List.append_cons_cancel hapi
      (Names.slash_notMem_of_checkSegment hhandle) hlist
    have hslash' := Names.slash_notMem_of_checkSegment hlabel
    cases slash with
    | false =>
        simp only [Bool.false_eq_true, if_false, List.append_nil] at hsecond
        exact absurd (by rw [← hsecond]; simp) hslash'
    | true =>
        simp only [if_true] at hsecond
        obtain ⟨hlabel', -⟩ := List.append_cons_cancel hresolve hslash' hsecond
        refine ⟨String.toList_inj.mp ?_, rfl⟩
        rw [hname, ← hfirst, ← hlabel']
        rfl
  · have hslash' := Names.slash_notMem_of_checkSegment (Names.checkFlat_ok h).1
    cases slash with
    | false =>
        simp only [Bool.false_eq_true, if_false, List.append_nil] at hlist
        exact absurd (by rw [← hlist]; simp) hslash'
    | true =>
        simp only [if_true] at hlist
        obtain ⟨-, hend⟩ := List.append_cons_cancel hapi hslash' hlist
        simp at hend

/-! ## How a name is answered -/

/-- **The answer `follow` decides**: a redirect to the canister, the page of a name that changed hands
on the way there, or not found. -/
inductive Served (s : State E) (now : ℕ) (dataCertificate : Option Bytes) (name : String) :
    HttpResponse E → Prop
  | redirect {p : Principal} {chain : List Record} :
      s.follow name now = .ok (p, chain) →
      handoverPage E chain ("https://" ++ E.toText p ++ ".icp0.io/") now
        s.config.handoverWarnNs = none →
      Served s now dataCertificate name
        { statusCode := 302
          headers := [("Content-Type", "text/plain"), ("Cache-Control", "no-cache")] ++
            (s.httpHeaders dataCertificate).getD [] ++
            [("Location", "https://" ++ E.toText p ++ ".icp0.io/")]
          body := .text (name ++ " -> " ++ ("https://" ++ E.toText p ++ ".icp0.io/") ++ "\n") }
  | page {p : Principal} {chain : List Record} {page : String} :
      s.follow name now = .ok (p, chain) →
      handoverPage E chain ("https://" ++ E.toText p ++ ".icp0.io/") now
        s.config.handoverWarnNs = some page →
      Served s now dataCertificate name
        (s.response dataCertificate 200 "text/html; charset=utf-8" (.text page))
  | missing {e : String} :
      s.follow name now = .error e →
      Served s now dataCertificate name
        (s.response dataCertificate 404 "text/plain" (.text (e ++ "\n")))

variable {s : State E} {now : ℕ} {dataCertificate : Option Bytes}

lemma served_serveName (s : State E) (now : ℕ) (dataCertificate : Option Bytes) (name : String) :
    Served s now dataCertificate name (s.serveName now dataCertificate name) := by
  simp only [serveName]
  cases hfollow : s.follow name now with
  | error e => exact .missing hfollow
  | ok x =>
      obtain ⟨p, chain⟩ := x
      simp only
      cases hpage : handoverPage E chain ("https://" ++ E.toText p ++ ".icp0.io/") now
          s.config.handoverWarnNs with
      | none => exact .redirect hfollow hpage
      | some page => exact .page hfollow hpage

/-- A name is answered in text, never with what an API route renders. -/
lemma Served.text {res : HttpResponse E} (h : Served s now dataCertificate name res) :
    ∃ t, res.body = .text t := by
  cases h with
  | redirect => exact ⟨_, rfl⟩
  | page => exact ⟨_, rfl⟩
  | missing => exact ⟨_, rfl⟩

/-- **A path that is not a route is a name.** -/
theorem handle_name (h : Nameable name) (hfree : shadowed name slash = false) {suffix : String}
    (hsuffix : AfterPath suffix) : s.handle now dataCertificate ⟨"GET", pathTo name slash ++ suffix⟩ =
      s.serveName now dataCertificate name := by
  have hon := h.onPath
  simp only [shadowed, Bool.or_eq_false_iff, decide_eq_false_iff_not, Bool.and_eq_false_iff] at hfree
  obtain ⟨⟨⟨hsearch, htags⟩, hexpiring⟩, hresolve⟩ := hfree
  -- the two paths of a route, with and without its slash
  have hroute : ∀ route bare slashed : String, pathTo route false = bare →
      pathTo route true = slashed → route.toList.getLast? ≠ some '/' → name ≠ route →
      ¬ (pathTo name slash = bare ∨ pathTo name slash = slashed) := by
    rintro route _ _ rfl rfl hlast hne (heq | heq)
    · exact hne (pathTo_injective hon.back hlast heq).1
    · exact hne (pathTo_injective hon.back hlast heq).1
  have hroot : pathTo name slash ≠ "/" := by
    intro heq
    have hlist := congrArg String.toList heq
    rw [toList_pathTo, show "/".toList = ['/'] from rfl, List.cons.injEq, List.append_eq_nil_iff]
      at hlist
    exact hon.nonempty hlist.2.1
  have hstrip : stripPrefix "/api/resolve/" (pathTo name slash) = none := by
    rw [← Option.not_isSome_iff_eq_none]
    intro hsome
    obtain ⟨rfl, rfl⟩ := h.resolve_route hsome
    rcases hresolve with hresolve | hresolve
    · exact hresolve rfl
    · cases hresolve
  have hdomains : pathTo name slash ≠ "/.well-known/ic-domains" := by
    intro heq
    have hlist := congrArg String.toList heq
    have hdot : '.' ∈ (pathTo name slash).toList := by
      rw [hlist]
      decide
    rw [toList_pathTo, List.mem_cons, List.mem_append, toList_slashOf] at hdot
    rcases hdot with hdot | hdot | hdot
    · exact absurd hdot (by decide)
    · exact (hon.chars _ hdot).2.2 rfl
    · split_ifs at hdot <;> simp at hdot
  simp only [handle, hon.pathOf hsuffix, hstrip, hon.trimmed]
  rw [if_neg (by decide), if_neg hroot,
    if_neg (hroute "api/search" "/api/search" "/api/search/" (by decide) (by decide) (by decide)
      hsearch),
    if_neg (hroute "api/tags" "/api/tags" "/api/tags/" (by decide) (by decide) (by decide) htags),
    if_neg (hroute "api/expiring" "/api/expiring" "/api/expiring/" (by decide) (by decide)
      (by decide) hexpiring),
    if_neg hdomains]

/-- The paths of the routes that list. -/
def listings : List String :=
  ["/api/search", "/api/search/", "/api/tags", "/api/tags/", "/api/expiring", "/api/expiring/"]

/-- A route that lists answers no text. -/
lemma handle_listing {url : String} (hpath : Gateway.pathOf url ∈ listings) (t : String) :
    (s.handle now dataCertificate ⟨"GET", url⟩).body ≠ .text t := by
  have hother : ∀ path ∈ listings, path ≠ "/" ∧ stripPrefix "/api/resolve/" path = none := by decide
  obtain ⟨hroot, hstrip⟩ := hother _ hpath
  simp only [handle, hstrip]
  rw [if_neg (by decide), if_neg hroot]
  by_cases hsearch : Gateway.pathOf url = "/api/search" ∨ Gateway.pathOf url = "/api/search/"
  · rw [if_pos hsearch]
    simp [response]
  by_cases htags : Gateway.pathOf url = "/api/tags" ∨ Gateway.pathOf url = "/api/tags/"
  · rw [if_neg hsearch, if_pos htags]
    simp [response]
  have hexpiring : Gateway.pathOf url = "/api/expiring" ∨ Gateway.pathOf url = "/api/expiring/" := by
    simp only [listings, List.mem_cons, List.not_mem_nil, or_false] at hpath
    rcases hpath with hpath | hpath | hpath | hpath | hpath
    · exact absurd (Or.inl hpath) hsearch
    · exact absurd (Or.inr hpath) hsearch
    · exact absurd (Or.inl hpath) htags
    · exact absurd (Or.inr hpath) htags
    · exact hpath
  rw [if_neg hsearch, if_neg htags, if_pos hexpiring]
  simp [response]

/-- What a route answers is not the answer of a name. -/
theorem handle_route (h : Nameable name) (hshadowed : shadowed name slash = true) {suffix : String}
    (hsuffix : AfterPath suffix) (t : String) :
    (s.handle now dataCertificate ⟨"GET", pathTo name slash ++ suffix⟩).body ≠ .text t := by
  have hpath : Gateway.pathOf (pathTo name slash ++ suffix) = pathTo name slash :=
    h.onPath.pathOf hsuffix
  simp only [shadowed, Bool.or_eq_true, Bool.and_eq_true, decide_eq_true_eq] at hshadowed
  rcases hshadowed with hlisting | ⟨rfl, rfl⟩
  · refine handle_listing ?_ t
    rw [hpath]
    rcases hlisting with (rfl | rfl) | rfl
    · cases slash <;> decide
    · cases slash <;> decide
    · cases slash <;> decide
  · have hstrip : stripPrefix "/api/resolve/" (pathTo "api/resolve" true) = some "" := by decide
    simp only [handle, hpath, hstrip]
    rw [if_neg (by decide), if_neg (by decide)]
    simp only [apiResolve]
    split <;> simp [response]

lemma handle_flat (s : State E) (hname : Names.checkFlat name = .ok ()) (now : ℕ)
    (dataCertificate : Option Bytes) :
    s.handle now dataCertificate ⟨"GET", "/" ++ name⟩ = s.serveName now dataCertificate name := by
  have hscoped := Names.isScoped_of_checkFlat hname
  have hnameable : Nameable name := by
    simp only [Nameable, hscoped, Bool.false_eq_true, if_false]
    exact hname
  have hfree : shadowed name false = false := by
    cases hs : shadowed name false with
    | false => rfl
    | true =>
        simp only [shadowed, Bool.or_eq_true, Bool.and_eq_true, decide_eq_true_eq] at hs
        rcases hs with ((rfl | rfl) | rfl) | ⟨-, hs⟩
        · exact absurd hscoped (by decide)
        · exact absurd hscoped (by decide)
        · exact absurd hscoped (by decide)
        · cases hs
  have hpath : s.handle now dataCertificate ⟨"GET", pathTo name false ++ ""⟩ =
      s.serveName now dataCertificate name :=
    handle_name hnameable hfree fun c hc => by cases hc
  simpa [pathTo, slashOf] using hpath

/-- **The path of a valid name is answered as `follow` says, unless a route stands there**: with any
query string and fragment, with or without a trailing slash, in every state. -/
theorem gateway_serves_names (s : State E) (now : ℕ) (dataCertificate : Option Bytes)
    (h : Nameable name) (slash : Bool) {suffix : String} (hsuffix : AfterPath suffix) :
    Served s now dataCertificate name
        (s.handle now dataCertificate ⟨"GET", pathTo name slash ++ suffix⟩) ↔
      shadowed name slash = false := by
  constructor
  · intro hserved
    obtain ⟨t, ht⟩ := hserved.text
    cases hs : shadowed name slash with
    | false => rfl
    | true => exact absurd ht (handle_route h hs hsuffix t)
  · intro hfree
    rw [handle_name h hfree hsuffix]
    exact served_serveName s now dataCertificate name

/-- A name that is set is answered with a redirect, whatever follows its path. -/
theorem gateway_serves_names_queried : ∃ (tr : World.History Env.reference) (w : World Env.reference),
    Run (World.machine Env.reference) World.anyEvent World.init tr w ∧
      tr.reverse.map Entry.event = Script.housing ∧
      Served w.canister 0 none "h/x"
        (w.canister.handle 0 none ⟨"GET", pathTo "h/x" true ++ "?q=1#top"⟩) ∧
      (w.canister.handle 0 none ⟨"GET", pathTo "h/x" true ++ "?q=1#top"⟩).statusCode = 302 := by
  obtain ⟨tr, w, hr, hevents, hmoved⟩ := Machine.exists_run_of_exec (World.machine Env.reference)
    World.anyEvent World.init Script.housing (fun _ w =>
      (w.canister.handle 0 none ⟨"GET", pathTo "h/x" true ++ "?q=1#top"⟩).statusCode = 302)
    (by decide +kernel)
  have hname : Nameable "h/x" := by
    rw [Nameable, if_pos (by decide +kernel)]
    exact ⟨("h", "x"), by decide +kernel⟩
  have hsuffix : AfterPath "?q=1#top" := by
    intro c hc
    cases hc
    exact Or.inl rfl
  exact ⟨tr, w, hr, hevents,
    (gateway_serves_names w.canister 0 none hname true hsuffix).mpr (by decide), hmoved⟩

end State

namespace World

/-- `api` is taken as a handle, and a record written under it where a route stands. -/
def apiHandle : List Event :=
  [.call (Script.caller 5 0) (.registerHandle "api"),
    .call (Script.caller 5 0) (.setRecord "api/search" (.address ⟨[9]⟩))]

/-- `api/search` is a valid name with a record that `follow` resolves, and its path answers a search. -/
theorem api_handle_shadowed : ∃ (tr : History Env.reference) (w : World Env.reference),
    Run (machine Env.reference) anyEvent init tr w ∧ tr.reverse.map Entry.event = apiHandle ∧
      State.Nameable "api/search" ∧
      (∃ chain, w.canister.follow "api/search" 0 = .ok (⟨[9]⟩, chain)) ∧
      ¬ State.Served w.canister 0 none "api/search"
        (w.canister.handle 0 none ⟨"GET", "/api/search"⟩) := by
  obtain ⟨tr, w, hr, hevents, hfollow⟩ := Machine.exists_run_of_exec (machine Env.reference)
    anyEvent init apiHandle (fun _ w => (w.canister.follow "api/search" 0).toOption.map Prod.fst =
      some ⟨[9]⟩) (by decide +kernel)
  have hname : State.Nameable "api/search" := by
    rw [State.Nameable, if_pos (by decide +kernel)]
    exact ⟨("api", "search"), by decide +kernel⟩
  refine ⟨tr, w, hr, hevents, hname, ?_, fun hserved => ?_⟩
  · cases hf : w.canister.follow "api/search" 0 with
    | error e =>
        rw [hf] at hfollow
        cases hfollow
    | ok x =>
        rw [hf] at hfollow
        obtain ⟨p, chain⟩ := x
        cases hfollow
        exact ⟨chain, rfl⟩
  · obtain ⟨t, ht⟩ := hserved.text
    have hsuffix : Gateway.AfterPath "" := fun c hc => by cases hc
    have hroute : Gateway.shadowed "api/search" false = true := by decide
    exact State.handle_route hname hroute hsuffix t ht

end World
