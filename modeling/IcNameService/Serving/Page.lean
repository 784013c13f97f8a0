import IcNameService.Core.Markup
import IcNameService.Market.Visible

/-!
# The page of a name that changed hands

Names, targets and the address of a canister go into the page escaped.  Whatever they are, the tags of
the page are the ones it was written with, and its two links are to the address and to the path of the
name it pointed at before.

* `Gateway.tagsOf_handoverPage` — **no stored value adds a tag to the page or closes one.**
* `World.page_leads_back` — **the way back from the page is the path of a valid scoped name**, answered
  by that name alone and never by another page.
-/

namespace Gateway

open Markup

lemma toList_esc (s : String) : (esc s).toList = escape s.toList := by
  have hjoin : ∀ l : List String, (String.join l).toList = l.flatMap String.toList := by
    intro l
    induction l with
    | nil => rfl
    | cons a l ih => rw [String.join_cons, String.toList_append, ih, List.flatMap_cons]
  have hchar : ∀ c : Char, (if c = '&' then "&amp;" else if c = '<' then "&lt;"
      else if c = '>' then "&gt;" else if c = '"' then "&quot;" else c.toString).toList =
        escapeChar c := by
    intro c
    rw [escapeChar]
    split_ifs <;> simp
  rw [esc, hjoin, List.flatMap_map, escape]
  exact List.flatMap_congr fun c _ => hchar c

lemma plain_esc (s : String) : ∀ c ∈ (esc s).toList, Plain c := by
  rw [toList_esc]
  exact plain_escape _

lemma plain_toString (n : ℕ) : ∀ c ∈ (toString n).toList, Plain c := by
  intro c hc
  have hlist : (toString n).toList = Nat.toDigits 10 n := Nat.toList_repr
  rw [hlist] at hc
  have hdigit : c.isDigit = true := Nat.isDigit_of_mem_toDigits (by decide) (by decide) hc
  refine ⟨?_, ?_, ?_⟩ <;>
  · rintro rfl
    cases hdigit

/-- The tags of the page, with its two links. -/
def pageTags (location prev : String) : List String :=
  ["!doctype html", "html", "head", "meta charset=\"utf-8\"", "title", "/title", "style", "/style",
    "/head", "body", "h1", "/h1", "p", "code", "/code", "code", "/code", "code", "/code", "/p", "p",
    "/p", "p", "a href=\"" ++ esc location ++ "\"", "/a", "/p", "p",
    "a href=\"/" ++ esc prev ++ "\"", "/a", "/p", "/body", "/html"]

/-- A piece of the page, by its tags. -/
lemma readPiece {cs : String} (found : List String)
    (h : (⟨none, []⟩ : Reader).run cs.toList = ⟨none, found.map String.toList⟩)
    (tags : List String) : (⟨none, tags.map String.toList⟩ : Reader).run cs.toList =
      ⟨none, (tags ++ found).map String.toList⟩ := by
  rw [Reader.piece h, List.map_append]

/-- A piece that ends in a tag. -/
lemma readOpen {cs : String} (tag : String) (found : List String)
    (h : (⟨none, []⟩ : Reader).run cs.toList = ⟨some tag.toList, found.map String.toList⟩)
    (tags : List String) : (⟨none, tags.map String.toList⟩ : Reader).run cs.toList =
      ⟨some tag.toList, (tags ++ found).map String.toList⟩ := by
  rw [Reader.opens h, List.map_append]

/-- The quote that ends a value, the tag it ends, and the text of the link. -/
lemma readClose {cs : String} (shown : String) (hcs : cs.toList = ['"'] ++ '>' :: shown.toList)
    (hshown : ∀ c ∈ shown.toList, Plain c) (tag value : String) (tags : List String) :
    (⟨some (tag.toList ++ value.toList), tags.map String.toList⟩ : Reader).run cs.toList =
      ⟨none, (tags ++ [tag ++ value ++ "\""]).map String.toList⟩ := by
  rw [hcs, Reader.closes (by simp) (Reader.text hshown [])]
  simp

/-- **No stored value adds a tag to the page or closes one.** -/
theorem tagsOf_handoverPage {E : Env} {chain : List Record} {location page : String} {now warnNs : ℕ}
    (h : handoverPage E chain location now warnNs = some page) :
    ∃ r ∈ chain, ∃ prev, r.previousTarget = some prev ∧ handedOver warnNs now r = true ∧
      tagsOf page = pageTags location (showTarget E prev) := by
  simp only [handoverPage] at h
  cases hfind : chain.find? (handedOver warnNs now) with
  | none => simp [hfind] at h
  | some r =>
      simp only [hfind, Option.map_eq_some_iff] at h
      obtain ⟨prev, hprev, rfl⟩ := h
      refine ⟨r, List.mem_of_find?_eq_some hfind, prev, hprev, List.find?_some hfind, ?_⟩
      have hname := plain_esc r.name
      have hprevious := plain_esc (showTarget E prev)
      have htarget := plain_esc (showTarget E r.target)
      have hlocation := plain_esc location
      have hdays := plain_toString ((now - r.changedHandsNs) / nsPerDay)
      -- along the page, piece by piece
      have hrun : ∀ cs, (⟨none, []⟩ : Reader).run cs =
          ⟨none, (pageTags location (showTarget E prev)).map String.toList⟩ →
          ((⟨none, []⟩ : Reader).run cs).tags.map String.ofList =
            pageTags location (showTarget E prev) := by
        intro cs hcs
        simp [hcs, List.map_map, Function.comp_def]
      rw [tagsOf]
      simp only [String.toList_append, List.append_assoc]
      refine hrun _ ?_
      refine Reader.run_then (readPiece ["!doctype html", "html", "head",
        "meta charset=\"utf-8\"", "title"] (by decide +kernel) []) ?_
      refine Reader.run_then (Reader.text hname _) ?_
      refine Reader.run_then (readPiece ["/title", "style"] (by decide +kernel) _) ?_
      refine Reader.run_then (readPiece [] (by decide +kernel) _) ?_
      refine Reader.run_then
        (readPiece ["/style", "/head", "body", "h1"] (by decide +kernel) _) ?_
      refine Reader.run_then (Reader.text hname _) ?_
      refine Reader.run_then (readPiece ["/h1"] (by decide +kernel) _) ?_
      refine Reader.run_then (readPiece ["p", "code"] (by decide +kernel) _) ?_
      refine Reader.run_then (Reader.text hname _) ?_
      refine Reader.run_then (readPiece ["/code"] (by decide +kernel) _) ?_
      refine Reader.run_then (Reader.text hdays _) ?_
      refine Reader.run_then (readPiece ["code"] (by decide +kernel) _) ?_
      refine Reader.run_then (Reader.text hprevious _) ?_
      refine Reader.run_then (readPiece ["/code", "code"] (by decide +kernel) _) ?_
      refine Reader.run_then (Reader.text htarget _) ?_
      refine Reader.run_then (readPiece ["/code", "/p"] (by decide +kernel) _) ?_
      refine Reader.run_then (readPiece ["p"] (by decide +kernel) _) ?_
      refine Reader.run_then (readPiece [] (by decide +kernel) _) ?_
      refine Reader.run_then (readPiece ["/p"] (by decide +kernel) _) ?_
      refine Reader.run_then (readOpen "a href=\"" ["p"] (by decide +kernel) _) ?_
      refine Reader.run_then (Reader.value hlocation _ _) ?_
      refine Reader.run_then (readClose "Continue to " (by decide)
        (plain_of_all (by decide +kernel)) _ _ _) ?_
      refine Reader.run_then (Reader.text htarget _) ?_
      refine Reader.run_then (readPiece ["/a", "/p"] (by decide +kernel) _) ?_
      refine Reader.run_then (readOpen "a href=\"/" ["p"] (by decide +kernel) _) ?_
      refine Reader.run_then (Reader.value hprevious _ _) ?_
      refine Reader.run_then (readClose "Go to " (by decide)
        (plain_of_all (by decide +kernel)) _ _ _) ?_
      refine Reader.run_then (Reader.text hprevious _) ?_
      refine (readPiece ["/a", "/p", "/body", "/html"] (by decide +kernel) _).trans ?_
      rfl

end Gateway

namespace State

open Gateway

variable {E : Env} {s : State E} {now : ℕ} {dataCertificate : Option Bytes} {name : String}

/-- How a response says what it is. -/
def contentType (res : HttpResponse E) : Option (String × String) := res.headers.head?

lemma contentType_response (statusCode : ℕ) (type : String) (body : Body E) :
    contentType (s.response dataCertificate statusCode type body) = some ("Content-Type", type) := rfl

/-- Only a name is answered with a page. -/
lemma handle_html {method url : String}
    (h : contentType (s.handle now dataCertificate ⟨method, url⟩) =
      some ("Content-Type", "text/html; charset=utf-8")) :
    s.handle now dataCertificate ⟨method, url⟩ =
      s.serveName now dataCertificate (trimEnd '/' (trimStart '/' (pathOf url))) := by
  have hother : ∀ {statusCode : ℕ} {type : String} {body : Body E},
      type ≠ "text/html; charset=utf-8" →
      contentType (s.response dataCertificate statusCode type body) ≠
        some ("Content-Type", "text/html; charset=utf-8") := by
    intro statusCode type body hne heq
    rw [contentType_response] at heq
    exact hne (congrArg Prod.snd (Option.some.inj heq))
  unfold handle at h ⊢
  dsimp only at h ⊢
  generalize pathOf url = path at h ⊢
  by_cases hmethod : method ≠ "GET" ∧ method ≠ "HEAD"
  · rw [if_pos hmethod] at h
    exact absurd h (hother (by decide))
  rw [if_neg hmethod] at h ⊢
  by_cases hroot : path = "/"
  · rw [if_pos hroot] at h
    exact absurd h (hother (by decide))
  rw [if_neg hroot] at h ⊢
  cases hstrip : stripPrefix "/api/resolve/" path with
  | some rest =>
      simp only [hstrip, apiResolve] at h
      split at h <;> exact absurd h (hother (by decide))
  | none =>
      simp only [hstrip] at h ⊢
      -- search, tags, expiring, and the domains with and without a last line
      split_ifs at h ⊢
      · exact absurd h (hother (by decide))
      · exact absurd h (hother (by decide))
      · exact absurd h (hother (by decide))
      · exact absurd h (hother (by decide))
      · exact absurd h (hother (by decide))
      · rfl

/-- A name is answered with a page when `follow` finds one on its chain. -/
lemma serveName_html
    (h : contentType (s.serveName now dataCertificate name) =
      some ("Content-Type", "text/html; charset=utf-8")) :
    ∃ p chain page, s.follow name now = .ok (p, chain) ∧
      handoverPage E chain ("https://" ++ E.toText p ++ ".icp0.io/") now
        s.config.handoverWarnNs = some page ∧
      s.serveName now dataCertificate name =
        s.response dataCertificate 200 "text/html; charset=utf-8" (.text page) := by
  have hserved := served_serveName s now dataCertificate name
  cases hserved' : s.serveName now dataCertificate name with
  | mk statusCode headers body =>
      rw [hserved'] at h hserved
      cases hserved with
      | redirect => exact absurd (congrArg Prod.snd (Option.some.inj h)) (by decide)
      | page hfollow hpage => exact ⟨_, _, _, hfollow, hpage, rfl⟩
      | missing => exact absurd (congrArg Prod.snd (Option.some.inj h)) (by decide)

/-- **A scoped name is never answered with a page.** -/
lemma serveName_scoped (hs : s.Shape) {place : String × String} (hsplit : Names.split name = .ok place) :
    (s.serveName now dataCertificate name).statusCode = 302 ∨
      (s.serveName now dataCertificate name).statusCode = 404 := by
  simp only [serveName]
  cases hfollow : s.follow name now with
  | error e => exact Or.inr rfl
  | ok x =>
      obtain ⟨p, chain⟩ := x
      obtain ⟨-, hwalk, -⟩ := (follow_eq_ok hs.named).mp hfollow
      have hplain := hs.plain_of_resolves hwalk ⟨place, hsplit⟩
      have hpage : handoverPage E chain ("https://" ++ E.toText p ++ ".icp0.io/") now
          s.config.handoverWarnNs = none := by
        rw [← Option.not_isSome_iff_eq_none, handoverPage_isSome]
        rintro ⟨r, hr, hover⟩
        simp [handedOver, (hplain r hr).2] at hover
      simp only [hpage]
      exact Or.inl rfl

end State

namespace World

open Gateway

variable {E : Env} {w : World E} {tr : History E}

/-- **The way back from the page.**  In every state reached, whatever URL is answered with a page: it is
the path of a flat name that changed hands inside the window, its tags are the fixed ones, and its second
link goes to the valid scoped name that the flat name pointed at before; a request for that link is
answered as that name, by a redirect or not at all, and never with another page. -/
theorem page_leads_back (h : Run (machine E) anyEvent init tr w) {now : ℕ}
    {dataCertificate : Option Bytes} {method url : String}
    (hpage : State.contentType (w.canister.handle now dataCertificate ⟨method, url⟩) =
      some ("Content-Type", "text/html; charset=utf-8")) :
    ∃ name r prev place p chain page,
      name = trimEnd '/' (trimStart '/' (pathOf url)) ∧ Names.checkFlat name = .ok () ∧
      w.canister.records.get name = some r ∧ r.previousTarget = some (.alias prev) ∧
      Names.split prev = .ok place ∧ r.target ≠ .alias prev ∧
      now - r.changedHandsNs < w.canister.config.handoverWarnNs ∧
      w.canister.follow name now = .ok (p, chain) ∧
      (w.canister.handle now dataCertificate ⟨method, url⟩).body = .text page ∧
      Markup.tagsOf page = pageTags ("https://" ++ E.toText p ++ ".icp0.io/") prev ∧
      ∀ suffix, AfterPath suffix → shadowed prev false = false →
        w.canister.handle now dataCertificate ⟨"GET", "/" ++ prev ++ suffix⟩ =
            w.canister.serveName now dataCertificate prev ∧
          ((w.canister.serveName now dataCertificate prev).statusCode = 302 ∨
            (w.canister.serveName now dataCertificate prev).statusCode = 404) := by
  have hs := run_shape h
  have hname := State.handle_html hpage
  rw [hname] at hpage ⊢
  generalize trimEnd '/' (trimStart '/' (pathOf url)) = name at hpage ⊢
  obtain ⟨p, chain, page, hfollow, hfound, hserved⟩ := State.serveName_html hpage
  obtain ⟨r, hr, prev, hprevious, hover, htags⟩ := tagsOf_handoverPage hfound
  obtain ⟨hnameable, hwalk, -⟩ := (State.follow_eq_ok hs.named).mp hfollow
  have hsold : r.previousTarget ≠ none := by simp [hprevious]
  -- a scoped name has no page, so this one is flat, and the page is about its own record
  have hflat : Names.checkFlat name = .ok () := by
    simp only [State.Nameable] at hnameable
    split_ifs at hnameable
    · exact absurd (hs.plain_of_resolves hwalk hnameable r hr).2 hsold
    · exact hnameable
  obtain ⟨first, rest, -, hget⟩ := hwalk.head_get
  obtain rfl := hs.sold_of_resolves hwalk hflat hget hr hsold
  obtain ⟨-, -, -, hflatTarget⟩ := hs.flat_of_checkFlat hflat hget
  obtain ⟨dest, place, rfl, hsplit⟩ := hflatTarget prev hprevious
  simp only [handedOver, hprevious, Option.any_some, Bool.and_eq_true, decide_eq_true_eq] at hover
  refine ⟨name, r, dest, place, p, chain, page, rfl, hflat, hget, hprevious, hsplit,
    Ne.symm hover.1, hover.2, hfollow, by rw [hserved]; rfl, htags, fun suffix hsuffix hfree => ?_⟩
  have hscoped : State.Nameable dest := by
    rw [State.Nameable, if_pos (Names.isScoped_of_split hsplit)]
    exact ⟨place, hsplit⟩
  have hpath : "/" ++ dest = pathTo dest false := by simp [pathTo, slashOf]
  rw [hpath]
  exact ⟨State.handle_name hscoped hfree hsuffix, State.serveName_scoped hs hsplit⟩

/-- A name is won, then bought and repointed: its page leads back to `h/z`. -/
theorem page_leads_back_sold : ∃ (w : World Env.reference) (page : String),
    (w.canister.handle 30 none ⟨"GET", "/abc"⟩).body = .text page ∧
      "a href=\"/h/z\"" ∈ Markup.tagsOf page := by
  obtain ⟨tr, w, hrun, -, hhtml, hprev⟩ :=
    Machine.exists_run_of_exec (machine Env.reference) anyEvent init Script.sold
      (fun _ w => State.contentType (w.canister.handle 30 none ⟨"GET", "/abc"⟩) =
          some ("Content-Type", "text/html; charset=utf-8") ∧
        (w.canister.records.get "abc").bind Record.previousTarget = some (.alias "h/z"))
      (by decide +kernel)
  obtain ⟨name, r, prev, place, p, chain, page, rfl, -, hget, hprevious, -, -, -, -, hbody, htags,
    -⟩ := page_leads_back hrun hhtml
  have hname : trimEnd '/' (trimStart '/' (pathOf "/abc")) = "abc" := by decide +kernel
  rw [hname] at hget
  rw [hget, Option.bind_some, hprevious] at hprev
  cases hprev
  refine ⟨w, page, hbody, ?_⟩
  have hlink : "a href=\"/" ++ esc "h/z" ++ "\"" = "a href=\"/h/z\"" := by decide +kernel
  rw [htags, pageTags, hlink]
  simp

end World
