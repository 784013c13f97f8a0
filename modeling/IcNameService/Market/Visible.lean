import IcNameService.Canister.Gateway
import IcNameService.Market.Handover
import IcNameService.Naming.Kinds
import IcNameService.Naming.Routes
import IcNameService.Resolution.Follow
import IcNameService.System.Histories

/-!
# Which forced sales the gateway shows

The warning page is decided from the two fields a flat record carries about its past, and these tell
of the last change of hands only.  So an earlier sale inside the window shows exactly as long as the
last one would.

* `State.WarnsOf` — a path is answered with the warning page; `warnsOf_iff` reads it off the record.
* `changesOfHands`, `lastHandOver` — a name's changes of hands, read off a history.
* `run_remembered` — what a stored record says about its past is the last change of hands.
* `forced_sale_visible_iff` — when a forced sale still shows.
-/

namespace State

variable {E : Env} {s : State E} {name : String} {chain : List Record} {p : Principal}

/-! ## The page -/

/-- The path of the name is answered with the warning page. -/
def WarnsOf (s : State E) (now : ℕ) (dataCertificate : Option Bytes) (name : String) : Prop :=
  ∃ p chain page, s.follow name now = .ok (p, chain) ∧
    Gateway.handoverPage E chain ("https://" ++ E.toText p ++ ".icp0.io/") now
      s.config.handoverWarnNs = some page ∧
    s.handle now dataCertificate ⟨"GET", "/" ++ name⟩ =
      s.response dataCertificate 200 "text/html; charset=utf-8" (.text page)

/-- On the way from a flat name, only the flat record may have changed hands. -/
lemma Shape.sold_of_resolves (hs : s.Shape) (h : s.Resolves name chain p)
    (hname : Names.checkFlat name = .ok ()) {r x : Record} (hget : s.records.get name = some r)
    (hx : x ∈ chain) (hsold : x.previousTarget ≠ none) : x = r := by
  obtain ⟨-, -, ⟨dest, q, htarget, hsplit⟩, -⟩ := hs.flat_of_checkFlat hname hget
  cases h with
  | ends hget' hpoint =>
      rw [hget] at hget'
      cases hget'
      simp [Record.pointsTo, htarget] at hpoint
  | on hget' hpoint hrest =>
      rw [hget] at hget'
      cases hget'
      simp only [Record.pointsTo, htarget, Sum.inl.injEq] at hpoint
      subst hpoint
      rcases List.mem_cons.mp hx with rfl | hx
      · rfl
      · exact absurd (hs.plain_of_resolves hrest ⟨q, hsplit⟩ x hx).2 hsold

/-- **The page of a flat name is decided by its record alone.** -/
theorem warnsOf_iff (hs : s.Shape) {now : ℕ} {dataCertificate : Option Bytes}
    (hname : Names.checkFlat name = .ok ()) (hfollow : s.follow name now = .ok (p, chain))
    {r : Record} (hget : s.records.get name = some r) :
    s.WarnsOf now dataCertificate name ↔
      ∃ prev, r.previousTarget = some prev ∧ prev ≠ r.target ∧
        now - r.changedHandsNs < s.config.handoverWarnNs := by
  have hchain : s.WarnsOf now dataCertificate name ↔
      ∃ x ∈ chain, Gateway.handedOver s.config.handoverWarnNs now x = true := by
    have hpage : _ ↔ ∃ x ∈ chain, Gateway.handedOver s.config.handoverWarnNs now x = true :=
      Gateway.handoverPage_isSome E ("https://" ++ E.toText p ++ ".icp0.io/")
    rw [← hpage, Option.isSome_iff_exists]
    constructor
    · rintro ⟨p', chain', page, hfollow', hpage, -⟩
      rw [hfollow] at hfollow'
      cases hfollow'
      exact ⟨page, hpage⟩
    · rintro ⟨page, hpage⟩
      refine ⟨p, chain, page, hfollow, hpage, ?_⟩
      rw [handle_flat s hname]
      simp only [serveName, hfollow, hpage]
  obtain ⟨-, hwalk, -⟩ := (follow_eq_ok hs.named).mp hfollow
  have hpast : ∀ x : Record, Gateway.handedOver s.config.handoverWarnNs now x = true ↔
      ∃ prev, x.previousTarget = some prev ∧ prev ≠ x.target ∧
        now - x.changedHandsNs < s.config.handoverWarnNs := by
    intro x
    cases hprev : x.previousTarget <;> simp [Gateway.handedOver, hprev]
  rw [hchain]
  constructor
  · rintro ⟨x, hx, hover⟩
    obtain ⟨prev, hprev, hrest⟩ := (hpast x).mp hover
    have := hs.sold_of_resolves hwalk hname hget hx (by simp [hprev])
    subst this
    exact ⟨prev, hprev, hrest⟩
  · intro hr
    obtain ⟨r', rest, rfl, hget'⟩ := hwalk.head_get
    rw [hget] at hget'
    cases hget'
    exact ⟨r, List.mem_cons_self, (hpast r).mpr hr⟩

end State

namespace World

variable {E : Env} {ok : World E → Event → Prop} {w w' : World E} {tr : History E} {name : String}

/-! ## Changes of hands -/

/-- The message hands the name over: a purchase, or an auction won. -/
def HandedOver (e : Entry (World E) Event Output) (name : String) : Prop :=
  e.post.canister.sales name = e.post.now :: e.pre.canister.sales name

instance (e : Entry (World E) Event Output) (name : String) : Decidable (HandedOver e name) :=
  inferInstanceAs (Decidable (_ = _))

/-- What a name points at, or pointed at when a record last stood under it. -/
def lastTarget (tr : History E) (name : String) : Option Target :=
  tr.findSome? fun e => (e.post.canister.records.get name).map Record.target

/-- A name's changes of hands, newest first: when, and what the name had pointed at. -/
def changesOfHands : History E → String → List (ℕ × Option Target)
  | [], _ => []
  | e :: older, name =>
      if HandedOver e name then (e.post.now, lastTarget older name) :: changesOfHands older name
      else changesOfHands older name

/-- The last change of hands: when, and the target of the record it replaced, if one still stood. -/
def lastHandOver (tr : History E) (name : String) : Option (ℕ × Option Target) :=
  tr.findSome? fun e =>
    if HandedOver e name then
      some (e.post.now, (e.pre.canister.records.get name).map Record.target)
    else none

/-- A message keeps a flat name's past, or hands the name over. -/
lemma stepped_changes {e : Event} {o : Output} (hs : w.canister.Shape)
    (hflat : Names.isScoped name = false) (h : Stepped w e w' o) :
    State.Changes w.canister w'.canister name w'.now := by
  cases h with
  | answered _ hc => exact State.called_changes hs hflat hc
  | suspended _ hc => exact State.called_changes hs hflat hc
  | resumed _ _ hr => exact State.resumed_changes hs hr
  | continued => exact Or.inl (.of_eq rfl rfl)
  | upgraded => exact Or.inl (.of_eq rfl rfl)

/-- The record of a flat name says when it last changed hands and what it pointed at before, and no
change of hands is newer. -/
structure Remembered (tr : History E) (w : World E) (name : String) : Prop where
  past : ∀ r, w.canister.records.get name = some r →
    lastHandOver tr name = some (r.changedHandsNs, r.previousTarget)
  newest : ∀ t b, (t, b) ∈ changesOfHands tr name →
    ∃ t' prev, lastHandOver tr name = some (t', prev) ∧ t ≤ t'
  before : ∀ t b, (t, b) ∈ changesOfHands tr name → t ≤ w.now

/-- **One message.**  It hands the name over and becomes the last change of hands, or it leaves the
record's two fields and the history's changes of hands as they are. -/
lemma remembered_step {e : Event} {o : Output} (h : Remembered tr w name)
    (hc : State.Changes w.canister w'.canister name w'.now) (hnow : w.now ≤ w'.now) :
    Remembered (⟨w, e, o, w'⟩ :: tr) w' name := by
  rcases hc with hkeep | hover
  · have hnot : ¬ HandedOver (⟨w, e, o, w'⟩ : Entry (World E) Event Output) name := by
      simp [HandedOver, hkeep.sales]
    have hlast : lastHandOver (⟨w, e, o, w'⟩ :: tr) name = lastHandOver tr name := by
      simp [lastHandOver, hnot]
    have hchanges : changesOfHands (⟨w, e, o, w'⟩ :: tr) name = changesOfHands tr name := by
      simp [changesOfHands, hnot]
    refine ⟨fun r' hr' => ?_, fun t b hmem => ?_, fun t b hmem => ?_⟩
    · obtain ⟨r, hr, hchanged, hprevious⟩ := hkeep.past r' hr'
      rw [hlast, h.past r hr, hchanged, hprevious]
    · rw [hlast]
      exact h.newest t b (hchanges ▸ hmem)
    · exact (h.before t b (hchanges ▸ hmem)).trans hnow
  · have hyes : HandedOver (⟨w, e, o, w'⟩ : Entry (World E) Event Output) name := hover.sales
    have hlast : lastHandOver (⟨w, e, o, w'⟩ :: tr) name =
        some (w'.now, (w.canister.records.get name).map Record.target) := by
      simp [lastHandOver, hyes]
    have hbefore : ∀ t b, (t, b) ∈ changesOfHands (⟨w, e, o, w'⟩ :: tr) name → t ≤ w'.now := by
      intro t b hmem
      simp only [changesOfHands, if_pos hyes, List.mem_cons, Prod.mk.injEq] at hmem
      rcases hmem with ⟨rfl, -⟩ | hmem
      · exact le_rfl
      · exact (h.before t b hmem).trans hnow
    refine ⟨fun r' hr' => ?_, fun t b hmem => ⟨_, _, hlast, hbefore t b hmem⟩, hbefore⟩
    obtain ⟨r, hr, hchanged, hprevious⟩ := hover.past
    rw [hr] at hr'
    cases hr'
    rw [hlast, hchanged, hprevious]

/-- **What a flat record says about its past is the last change of hands**, in every history. -/
theorem run_remembered (hflat : Names.isScoped name = false)
    (h : Run (machine E) ok init tr w) : Remembered tr w name := by
  refine run_induction (I := fun tr w => Remembered tr w name) rfl ?_ ?_ h
  · refine ⟨fun r hr => ?_, fun t b hmem => ?_, fun t b hmem => ?_⟩
    · cases hr
    · cases hmem
    · cases hmem
  · intro tr w e w' o hr hi _ hs
    exact remembered_step hi (stepped_changes (run_shape hr) hflat hs) (stepped_now hs)

/-! ## Which sales show -/

/-- The name changed hands inside the window, and had pointed elsewhere than `target`. -/
def SoldAway (tr : History E) (w : World E) (name : String) (now : ℕ) (target : Target) : Prop :=
  ∃ t before, (t, some before) ∈ changesOfHands tr name ∧
    now - t < w.canister.config.handoverWarnNs ∧ before ≠ target

/-- **Sales show as long as the last one does.**  In any history and at any time at which a flat name
resolves, its path is answered with the warning page after every sale inside the window that moved
its target, exactly when after such a sale the last change of hands replaced a record that still
stood under the name and pointed elsewhere than the name does now. -/
theorem forced_sale_visible_iff (h : Run (machine E) anyEvent init tr w)
    (hflat : Names.isScoped name = false) {now : ℕ} {dataCertificate : Option Bytes}
    {p : Principal} {chain : List Record} {r : Record}
    (hfollow : w.canister.follow name now = .ok (p, chain))
    (hget : w.canister.records.get name = some r) :
    (SoldAway tr w name now r.target → w.canister.WarnsOf now dataCertificate name) ↔
      (SoldAway tr w name now r.target →
        ∃ t prev, lastHandOver tr name = some (t, some prev) ∧ prev ≠ r.target) := by
  have hs := run_shape h
  have hrem := run_remembered hflat h
  have hlast := hrem.past r hget
  have hname : Names.checkFlat name = .ok () := by
    have hn := hs.named name r hget
    rw [← hn]
    exact ((hs.records name r hget).flatName (by rwa [hn])).1
  refine imp_congr_right ?_
  rintro ⟨t, before, hchange, hwindow, -⟩
  rw [State.warnsOf_iff hs hname hfollow hget, hlast]
  constructor
  · rintro ⟨prev, hprev, hmoved, -⟩
    exact ⟨r.changedHandsNs, prev, by rw [hprev], hmoved⟩
  · rintro ⟨t', prev, heq, hmoved⟩
    simp only [Option.some.injEq, Prod.mk.injEq] at heq
    obtain ⟨rfl, hprev⟩ := heq
    -- the last change of hands is no older than the one inside the window
    obtain ⟨t', prev', hlast', hle⟩ := hrem.newest t _ hchange
    rw [hlast] at hlast'
    cases hlast'
    exact ⟨prev, hprev, hmoved, by omega⟩

/-! ## Sales that show and sales that do not -/

end World

namespace Script

/-- A name is won pointing at `h/z`, and bought to point at `h/x`. -/
def sold : List Event :=
  housing ++ opening ++ winning 1 2 "abc" "h/z" 1000 2000 5 ++
    [.call (caller 3 26) (.buy "abc" "h/x" 900 50 1000), .reply 27 2 (.ok 0) 1050]

/-- The buyer of a sold name is bought out in turn, and the name keeps its target. -/
def resold : List Event :=
  sold ++ [.call (caller 2 28) (.buy "abc" "h/x" 900 50 900), .reply 29 3 (.ok 0) 950]

/-- A name is won pointing at `h/z`, released, and won again pointing at `h/x`. -/
def released : List Event :=
  housing ++ opening ++ winning 1 2 "abc" "h/z" 1000 2000 5 ++
    [.call (caller 2 26) (.deleteRecord "abc")] ++ winning 2 3 "abc" "h/x" 1000 2000 30

end Script

namespace World

/-- The state resolves `abc` at `now`, to an address and by way of the record it stores. -/
def Resolving (w : World Env.reference) (now : ℕ) (target : Target) : Prop :=
  (w.canister.follow "abc" now).isOk = true ∧
    (w.canister.records.get "abc").map Record.target = some target

instance (w : World Env.reference) (now : ℕ) (target : Target) : Decidable (Resolving w now target) :=
  inferInstanceAs (Decidable (_ ∧ _))

/-- A name is won, then bought and repointed: the sale shows. -/
theorem forced_sale_visible_iff_sold : ∃ w : World Env.reference,
    w.canister.WarnsOf 30 none "abc" := by
  obtain ⟨tr, w, hrun, -, ⟨hok, htarget⟩, hchange, hwindow, hlast⟩ :=
    Machine.exists_run_of_exec (machine Env.reference) anyEvent init Script.sold
      (fun tr w => Resolving w 30 (.alias "h/x") ∧
        (27, some (.alias "h/z")) ∈ changesOfHands tr "abc" ∧
        30 - 27 < w.canister.config.handoverWarnNs ∧
        lastHandOver tr "abc" = some (27, some (.alias "h/z"))) (by decide +kernel)
  obtain ⟨r, hget, hr⟩ := Option.map_eq_some_iff.mp htarget
  cases hfollow : w.canister.follow "abc" 30 with
  | error e => simp [hfollow, Except.isOk, Except.toBool] at hok
  | ok x =>
      refine ⟨w, (forced_sale_visible_iff hrun (by decide) hfollow hget).mpr (fun _ => ?_) ?_⟩
      · exact ⟨27, _, hlast, by rw [hr]; decide⟩
      · exact ⟨27, _, hchange, hwindow, by rw [hr]; decide⟩

/-- **A sale stops showing inside its window.**  When the buyer is bought out in turn and the target
stays, and when a released name is won anew, the name has moved from `h/z` to `h/x` inside the window
and its path answers with a redirect. -/
theorem sold_away_redirects :
    (∃ (tr : History Env.reference) (w : World Env.reference),
      Run (machine Env.reference) lawful init tr w ∧ tr.reverse.map Entry.event = Script.resold ∧
        Resolving w 30 (.alias "h/x") ∧ (27, some (.alias "h/z")) ∈ changesOfHands tr "abc" ∧
        30 - 27 < w.canister.config.handoverWarnNs ∧
        (w.canister.handle 30 none ⟨"GET", "/abc"⟩).statusCode = 302) ∧
    ∃ (tr : History Env.reference) (w : World Env.reference),
      Run (machine Env.reference) lawful init tr w ∧ tr.reverse.map Entry.event = Script.released ∧
        Resolving w 55 (.alias "h/x") ∧ (50, some (.alias "h/z")) ∈ changesOfHands tr "abc" ∧
        55 - 50 < w.canister.config.handoverWarnNs ∧
        (w.canister.handle 55 none ⟨"GET", "/abc"⟩).statusCode = 302 :=
  ⟨Machine.exists_run_of_exec _ _ _ _
      (fun tr (w : World Env.reference) => Resolving w 30 (.alias "h/x") ∧
        (27, some (.alias "h/z")) ∈ changesOfHands tr "abc" ∧
        30 - 27 < w.canister.config.handoverWarnNs ∧
        (w.canister.handle 30 none ⟨"GET", "/abc"⟩).statusCode = 302)
      (by decide +kernel),
    Machine.exists_run_of_exec _ _ _ _
      (fun tr (w : World Env.reference) => Resolving w 55 (.alias "h/x") ∧
        (50, some (.alias "h/z")) ∈ changesOfHands tr "abc" ∧
        55 - 50 < w.canister.config.handoverWarnNs ∧
        (w.canister.handle 55 none ⟨"GET", "/abc"⟩).statusCode = 302)
      (by decide +kernel)⟩

end World
