import IcNameService.Core.StableSort
import IcNameService.Market.Vacant
import IcNameService.Serving.Answers

/-!
# Names that are running out

The list of flat names that run out soon, as the canister tells it and as it is read over HTTP.

* `State.mem_expiring` — each entry is what `flat_status` says of its name, and when that ends.
* `State.expiring_sorted`, `expiring_within` — the order, and what a wider window adds.
* `State.holder_grace` — a name in grace is its holder's until the time that is listed, and nobody's from
  then on.
* `World.expiring_over_http` — **the list over HTTP is the list of the window that was asked for.**
-/

/-- What `expiring` lists of the status of a name: when the balance runs out, or the grace period ends. -/
def FlatStatus.RunsOut (F : Forecast) (cfg : Config) (now : ℕ) (st : FlatStatus) (e : Expiring) : Prop :=
  e = ⟨st.name, st.owner, st.status, e.deadlineNs, st.balance, st.taxPerYear⟩ ∧
    ((st.status = .active ∧ ∃ ns, F.nsUntilSpent cfg.params st.price st.balance = some ns ∧
      e.deadlineNs = satAdd64 now ns) ∨ st.status = .grace e.deadlineNs)

namespace State

variable {E : Env} {s : State E} {F : Forecast} {cfg : Config} {within now : ℕ}

/-! ## One record -/

/-- What `flat_status` says of a stored flat record. -/
lemma flatStatus_eq {name : String} {r : Record} {h : Harberger} (hget : s.records.get name = some r)
    (hflat : r.flat = some h) :
    s.flatStatus F name now = some ⟨r.name, r.owner, r.target,
      (E.auction.settle s.config.params h now).1.price,
      (E.auction.settle s.config.params h now).1.balance,
      (E.auction.settle s.config.params h now).2.1,
      F.taxPerYear s.config.params (E.auction.settle s.config.params h now).1.price,
      minDeposit E s.config (E.auction.settle s.config.params h now).1.price,
      r.changedHandsNs⟩ := by
  simp only [flatStatus, snapshot, getRecord, hget, settleRecord_flat s.config now hflat,
    Option.map_some, Record.balance, Option.getD_some]

/-- A name that `flat_status` knows has a stored record with a tax clock. -/
lemma stored_of_flatStatus {name : String} {st : FlatStatus}
    (hst : s.flatStatus F name now = some st) :
    ∃ r h, s.records.get name = some r ∧ r.flat = some h := by
  obtain ⟨⟨r, tax, snap⟩, hsnap, -⟩ := Option.map_eq_some_iff.mp hst
  obtain ⟨old, x, hseen⟩ := snapshot_some hsnap
  have hsome : old.flat.isSome := by
    have hkept := settleRecord_flat_isSome (E := E) s.config old now
    rw [← hseen.settled, hseen.flat] at hkept
    exact hkept.symm
  obtain ⟨h, hh⟩ := Option.isSome_iff_exists.mp hsome
  exact ⟨old, h, hseen.stored, hh⟩

lemma expiringEntry_name {r : Record} {e : Expiring}
    (h : expiringEntry (E := E) F cfg within now r = some e) : e.name = r.name := by
  simp only [expiringEntry, Option.bind_eq_bind, Option.bind_eq_some_iff] at h
  obtain ⟨x, -, d, -, h⟩ := h
  split_ifs at h
  cases h
  rfl

/-- A narrower window drops the entries that end outside it. -/
lemma expiringEntry_within {wider : ℕ} (hle : within ≤ wider) (r : Record) :
    expiringEntry (E := E) F cfg within now r =
      (expiringEntry (E := E) F cfg wider now r).filter (fun e => e.deadlineNs - now ≤ within) := by
  simp only [expiringEntry, Option.bind_eq_bind]
  cases r.flat with
  | none => rfl
  | some h =>
      rw [Option.bind_some, Option.bind_some]
      cases hd : deadline F cfg (E.auction.settle cfg.params h now).1 now
          (E.auction.settle cfg.params h now).2.1 with
      | none => rfl
      | some d =>
          rw [Option.bind_some, Option.bind_some]
          by_cases hwithin : d - now ≤ within
          · rw [if_pos hwithin, if_pos (hwithin.trans hle), Option.filter_some_pos]
            exact decide_eq_true hwithin
          · rw [if_neg hwithin]
            split_ifs with hwider
            · rw [Option.filter_some_neg]
              simpa using hwithin
            · rfl

lemma deadline_eq_some {h : Harberger} {status : Status} {d : ℕ} :
    deadline F cfg h now status = some d ↔
      (status = .active ∧ ∃ ns, F.nsUntilSpent cfg.params h.price h.balance = some ns ∧
        d = satAdd64 now ns) ∨ status = .grace d := by
  cases status with
  | active => simp [deadline, eq_comm]
  | grace untilNs => simp [deadline]
  | free => simp [deadline]

/-- **An entry is what `flat_status` says of its name, and when that ends.** -/
lemma expiringEntry_eq_some {name : String} {r : Record} {e : Expiring}
    (hget : s.records.get name = some r) :
    expiringEntry (E := E) F s.config within now r = some e ↔
      ∃ st, s.flatStatus F name now = some st ∧ st.RunsOut F s.config now e ∧
        e.deadlineNs - now ≤ within := by
  cases hflat : r.flat with
  | none =>
      refine iff_of_false (by simp [expiringEntry, hflat]) ?_
      rintro ⟨st, hst, -⟩
      obtain ⟨r', h, hget', hsome⟩ := stored_of_flatStatus hst
      rw [hget] at hget'
      cases hget'
      rw [hflat] at hsome
      cases hsome
  | some h =>
      rw [flatStatus_eq hget hflat]
      simp only [expiringEntry, hflat, Option.bind_eq_bind, Option.bind_some,
        Option.bind_eq_some_iff, Option.some.injEq, exists_eq_left', deadline_eq_some]
      constructor
      · rintro ⟨d, hd, he⟩
        split_ifs at he with hwithin
        cases he
        exact ⟨⟨rfl, hd⟩, hwithin⟩
      · rintro ⟨⟨he, hd⟩, hwithin⟩
        exact ⟨e.deadlineNs, hd, by rw [if_pos hwithin, ← he]⟩

/-! ## The list -/

/-- **The list has an entry for a name exactly when it runs out in the window.** -/
theorem mem_expiring (hn : s.Named) {e : Expiring} :
    e ∈ s.expiring F within now ↔
      ∃ st, s.flatStatus F e.name now = some st ∧ st.RunsOut F s.config now e ∧
        e.deadlineNs - now ≤ within := by
  rw [expiring, List.mem_insertionSort, List.mem_filterMap]
  constructor
  · rintro ⟨r, hr, he⟩
    obtain ⟨name, hget⟩ := OrdMap.mem_values.mp hr
    have hname : e.name = name := (expiringEntry_name he).trans (hn name r hget)
    rw [hname]
    exact (expiringEntry_eq_some hget).mp he
  · rintro ⟨st, hst, hruns⟩
    obtain ⟨r, h, hget, -⟩ := stored_of_flatStatus hst
    exact ⟨r, OrdMap.mem_values.mpr ⟨e.name, hget⟩,
      (expiringEntry_eq_some hget).mpr ⟨st, hst, hruns⟩⟩

/-- The entries, before they are sorted, are in name order. -/
lemma entries_pairwise (hn : s.Named) : (s.records.values.filterMap
    (expiringEntry (E := E) F s.config within now)).Pairwise fun a b => a.name < b.name := by
  have hvalues : s.records.values.Pairwise fun a b => a.name < b.name := by
    rw [← List.pairwise_map, hn.map_name_values]
    exact s.records.keys_sorted
  refine hvalues.filterMap _ fun a b hlt e he e' he' => ?_
  rw [expiringEntry_name he, expiringEntry_name he']
  exact hlt

/-- **Soonest first**, then by name; no name twice. -/
theorem expiring_sorted (hn : s.Named) : (s.expiring F within now).Pairwise
    (StableSort.Before Expiring.deadlineNs Expiring.name) :=
  StableSort.pairwise_insertionSort (entries_pairwise hn)

/-- **A wider window only adds at the end.** -/
theorem expiring_within (hn : s.Named) {wider : ℕ} (hle : within ≤ wider) :
    s.expiring F within now =
        (s.expiring F wider now).filter (fun e => e.deadlineNs - now ≤ within) ∧
      s.expiring F within now <+: s.expiring F wider now := by
  have hfilter : s.expiring F within now =
      (s.expiring F wider now).filter (fun e => e.deadlineNs - now ≤ within) := by
    rw [expiring, expiring, StableSort.filter_insertionSort (entries_pairwise hn),
      List.filter_filterMap]
    refine congrArg (List.insertionSort _) (List.filterMap_congr fun r _ => ?_)
    exact expiringEntry_within hle r
  refine ⟨hfilter, ?_⟩
  rw [hfilter]
  refine StableSort.isPrefix_of_bound (expiring_sorted hn) fun a b hab hb => ?_
  simp only [decide_eq_true_eq] at hb ⊢
  omega

/-! ## Who holds what is listed -/

lemma holder_eq_of_flatStatus {name : String} {st : FlatStatus}
    (hst : s.flatStatus F name now = some st) :
    s.holder s.config name now = if st.status = .free then none else some st.owner := by
  obtain ⟨r, h, hget, hflat⟩ := stored_of_flatStatus hst
  rw [flatStatus_eq hget hflat] at hst
  cases hst
  simp only [holder, getRecord, hget, settleRecord_flat s.config now hflat]
  by_cases hfree : (E.auction.settle s.config.params h now).2.1 = .free <;> simp [hfree]

/-- What is listed is held, by the owner that is listed. -/
lemma holder_of_runsOut {name : String} {st : FlatStatus} {e : Expiring}
    (hst : s.flatStatus F name now = some st) (hruns : st.RunsOut F s.config now e) :
    s.holder s.config name now = some e.owner := by
  have howner : e.owner = st.owner := by rw [hruns.1]
  rw [holder_eq_of_flatStatus hst, howner, if_neg]
  rcases hruns.2 with ⟨hactive, -⟩ | hgrace
  · simp [hactive]
  · simp [hgrace]

/-- **Grace ends when it is listed to end.**  While its record is left alone, a name in grace is its
holder's before the deadline and nobody's from the deadline on. -/
theorem holder_grace {lapse : ℕ → Harberger → ℕ → Option ℕ} (hL : E.auction.LapseLaws lapse)
    {name : String} {st : FlatStatus} {untilNs t : ℕ} (hst : s.flatStatus F name now = some st)
    (hgrace : st.status = .grace untilNs) (hle : now ≤ t) :
    now < untilNs ∧ s.holder s.config name t = if t < untilNs then some st.owner else none := by
  obtain ⟨r, h, hget, hflat⟩ := stored_of_flatStatus hst
  have hnow := @flatStatus_eq _ s F now _ _ _ hget hflat
  rw [hst] at hnow
  cases hnow
  simp only [hL.settle_status, IcAuction.statusAt] at hgrace
  cases hl : lapse s.config.params.rateBps h now with
  | none =>
      rw [hl] at hgrace
      cases hgrace
  | some u =>
      rw [hl] at hgrace
      simp only at hgrace
      split_ifs at hgrace with hend
      cases hgrace
      refine ⟨hend, ?_⟩
      rw [holder_eq_of_flatStatus (flatStatus_eq (F := F) hget hflat)]
      simp only [hL.settle_status, hL.lapse_mono _ _ _ _ _ hl hle, IcAuction.statusAt]
      by_cases hlt : t < u + s.config.params.graceNs <;> simp [hlt]

end State

/-! ## Over HTTP -/

namespace State

open Gateway

variable {E : Env} (s : State E) (now : ℕ) (dataCertificate : Option Bytes) {method url : String}

lemma handle_expiring (hmethod : Reads method)
    (hpath : pathOf url = "/api/expiring" ∨ pathOf url = "/api/expiring/") :
    s.handle now dataCertificate ⟨method, url⟩ =
      s.response dataCertificate 200 "application/json" (.expiring url) := by
  have hother : pathOf url ≠ "/" ∧ stripPrefix "/api/resolve/" (pathOf url) = none ∧
      ¬ (pathOf url = "/api/search" ∨ pathOf url = "/api/search/") ∧
      ¬ (pathOf url = "/api/tags" ∨ pathOf url = "/api/tags/") := by
    rcases hpath with heq | heq <;> rw [heq] <;> decide
  simp only [handle, hother.2.1]
  rw [if_neg hmethod.not_refused, if_neg hother.1, if_neg hother.2.2.1, if_neg hother.2.2.2,
    if_pos hpath]

end State

namespace World

open Gateway

variable {E : Env} {w : World E} {tr : History E} {ok : World E → Event → Prop}
  (toLowercase : String → String) (F : Forecast) (now : ℕ) (dataCertificate : Option Bytes)
  {method : String}

/-- What a client reads of the names running out. -/
def expiringAt (w : World E) (method url : String) : Option (List JsonExpiring) :=
  (w.canister.readBody now toLowercase F (w.canister.handle now dataCertificate ⟨method, url⟩)).bind
    (Json.asList JsonExpiring.ofJson)

/-- Whatever stands in its query string, the window it asks for is answered. -/
lemma expiringAt_eq (hJ : E.JsonLaws) (w : World E) (hmethod : Reads method) {url : String}
    (hpath : pathOf url = "/api/expiring" ∨ pathOf url = "/api/expiring/")
    {params : List (String × String)} (hquery : queryOf url = some params) :
    expiringAt toLowercase F now dataCertificate w method url =
      some ((w.canister.expiring F (windowOf params) now).map (renderExpiring E)) := by
  rw [expiringAt, w.canister.handle_expiring now dataCertificate hmethod hpath]
  simp only [State.readBody, State.response, State.render, hquery, Option.map_some, Option.bind_some,
    hJ.read_back]
  have hmap : (w.canister.expiring F (windowOf params) now).map (fun e => (renderExpiring E e).json) =
      ((w.canister.expiring F (windowOf params) now).map (renderExpiring E)).map JsonExpiring.json := by
    rw [List.map_map]
    rfl
  rw [hmap]
  exact Json.asList_map JsonExpiring.ofJson_json _

/-- A number of days that fits a `u64` is the window, up to ten years. -/
lemma windowOf_days {days : ℕ} (h : days < 2 ^ 64) :
    windowOf [("days", toString days)] = min days 3650 * nsPerDay := by
  have hparse : (param [("days", toString days)] "days").bind (parseUnsigned 64) = some days := by
    simpa [param] using parseUnsigned_toString h
  rw [windowOf, hparse, Option.getD_some]

/-- **The list over HTTP is the list of the window that was asked for.**  In every state reached any URL on
the route is answered, and however a client writes a number of days, the list it reads is the one of that
many days, ten years at most.  The list is in order of the deadline, then of the name; it has an entry
exactly for the names whose terms end in the window, with what `flat_status` says of them; a wider window
only adds at its end; and what is listed is held by the owner listed, in grace until the deadline and no
longer. -/
theorem expiring_over_http {lapse : ℕ → Harberger → ℕ → Option ℕ} (hL : E.auction.LapseLaws lapse)
    (hJ : E.JsonLaws) (h : Run (machine E) ok init tr w) (hmethod : Reads method) :
    (∀ url, pathOf url = "/api/expiring" ∨ pathOf url = "/api/expiring/" →
      ∃ params, queryOf url = some params ∧
        expiringAt toLowercase F now dataCertificate w method url =
          some ((w.canister.expiring F (windowOf params) now).map (renderExpiring E))) ∧
    (∀ days path written fragment, path = "/api/expiring" ∨ path = "/api/expiring/" → days < 2 ^ 64 →
      WritesQuery [("days", toString days)] written →
      expiringAt toLowercase F now dataCertificate w method (urlOf path written fragment) =
        some ((w.canister.expiring F (min days 3650 * nsPerDay) now).map (renderExpiring E))) ∧
    (∀ within wider, within ≤ wider →
      w.canister.expiring F within now <+: w.canister.expiring F wider now) ∧
    ∀ within,
      (w.canister.expiring F within now).Pairwise
        (StableSort.Before Expiring.deadlineNs Expiring.name) ∧
      (∀ e, e ∈ w.canister.expiring F within now ↔
        ∃ st, w.canister.flatStatus F e.name now = some st ∧
          st.RunsOut F w.canister.config now e ∧ e.deadlineNs - now ≤ within) ∧
      ∀ e ∈ w.canister.expiring F within now,
        w.canister.holder w.canister.config e.name now = some e.owner ∧
        ∀ untilNs, e.status = .grace untilNs → now < untilNs ∧ e.deadlineNs = untilNs ∧
          ∀ t, now ≤ t → w.canister.holder w.canister.config e.name t =
            if t < untilNs then some e.owner else none := by
  have hn := (run_shape h).named
  refine ⟨fun url hpath => ?_, fun days path written fragment hpath hdays hwritten => ?_,
    fun within wider hle => (State.expiring_within hn hle).2, fun within =>
    ⟨State.expiring_sorted hn, fun e => State.mem_expiring hn, fun e he => ?_⟩⟩
  · obtain ⟨params, hparams⟩ := State.exists_queryOf url
    exact ⟨params, hparams, expiringAt_eq toLowercase F now dataCertificate hJ w hmethod hpath hparams⟩
  · have hplain : '?' ∉ path.toList ∧ '#' ∉ path.toList := by
      rcases hpath with rfl | rfl <;> decide
    rw [expiringAt_eq toLowercase F now dataCertificate hJ w hmethod
      (by rwa [pathOf_urlOf fragment hplain]) (hwritten.queryOf fragment hplain), windowOf_days hdays]
  · obtain ⟨st, hst, hruns, -⟩ := (State.mem_expiring hn).mp he
    refine ⟨State.holder_of_runsOut hst hruns, fun untilNs hgrace => ?_⟩
    have howner : e.owner = st.owner := by rw [hruns.1]
    have hstatus : e.status = st.status := by rw [hruns.1]
    rw [hstatus] at hgrace
    have hdeadline : e.deadlineNs = untilNs := by
      rcases hruns.2 with ⟨hactive, -⟩ | hends
      · rw [hgrace] at hactive
        cases hactive
      · rw [hgrace] at hends
        cases hends
        rfl
    have hends := fun t hle => State.holder_grace (t := t) hL hst hgrace hle
    refine ⟨(hends now le_rfl).1, hdeadline, fun t hle => ?_⟩
    rw [(hends t hle).2, howner]

/-- A name whose balance is spent is in grace, and is lost when that is over. -/
theorem expiring_over_http_won : ∃ w : World Env.reference,
    expiringAt id Reference.forecast 40 none w "GET" "/api/expiring?days=30" =
      some [⟨"abc", "02", "grace", "45", "0", "31536000000000000"⟩] ∧
    w.canister.holder w.canister.config "abc" 44 = some ⟨[2]⟩ ∧
    w.canister.holder w.canister.config "abc" 45 = none := by
  obtain ⟨tr, w, hr, -, hlist⟩ := Machine.exists_run_of_exec (machine Env.reference) anyEvent init
    (Script.opening ++ Script.housing ++
      Script.winning 1 2 "abc" "h/x" Script.cyclePerNs (2 * Script.cyclePerNs) 5)
    (fun _ w => w.canister.expiring Reference.forecast (30 * nsPerDay) 40 =
      [⟨"abc", ⟨[2]⟩, .grace 45, 45, 0, Script.cyclePerNs⟩]) (by decide +kernel)
  obtain ⟨-, hwritten, -, hall⟩ := expiring_over_http id Reference.forecast 40 none
    Reference.auction_lapseLaws Env.reference_jsonLaws hr (Or.inl rfl : Reads "GET")
  obtain ⟨-, -, hheld⟩ := hall (30 * nsPerDay)
  obtain ⟨-, hgrace⟩ := hheld ⟨"abc", ⟨[2]⟩, .grace 45, 45, 0, Script.cyclePerNs⟩
    (by rw [hlist]; simp)
  obtain ⟨-, -, hends⟩ := hgrace 45 rfl
  refine ⟨w, ?_, hends 44 (by decide), hends 45 (by decide)⟩
  have hurl : urlOf "/api/expiring" (plainQuery [("days", "30")]) none = "/api/expiring?days=30" := by
    decide +kernel
  have hread := hwritten 30 "/api/expiring" (plainQuery [("days", "30")]) none (Or.inl rfl) (by decide)
    (writesQuery_plain (by decide +kernel))
  rw [hurl] at hread
  rw [hread]
  have hmin : min 30 3650 = 30 := rfl
  rw [hmin, hlist]
  rfl

end World
