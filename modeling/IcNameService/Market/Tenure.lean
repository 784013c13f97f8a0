import IcNameService.Market.Conveyance
import IcNameService.Market.Settling
import IcNameService.Market.Visible
import IcNameService.Registry.Latest

/-!
# Who holds a flat name, and how it was come by

The history of the canister, seen through what its messages convey, is a history of the market: every
change of a flat name's holder is an award, a sale at the listed price or a release, and everything else
is its holder's doing.

* `World.deeds_simulates`, `World.deeds_refined` — **the canister refines the market.**
* `World.award_asked_for` — **an award gives a bidder what that bidder revealed**, and nobody loses a name
  by it.
* `World.flat_resolution_replayed` — **who holds a flat name, and what it resolves to, is a replay of the
  history**, but for its lapse.
-/

namespace World

variable {E : Env} {w w' : World E} {tr : History E} {name : String}

/-- What an entry conveys. -/
def conveyance (e : Entry (World E) Event Output) : Option Conveyance :=
  match e.event with
  | .call cx c => if answer e.out then e.pre.canister.conveysCall cx c else none
  | .reply now id r _ =>
      (e.pre.pending.get id).bind (e.pre.canister.conveysReply now r (answer e.out))
  | .upgrade _ => none

/-- What the market sees of a world. -/
def deeds (w : World E) : Deeds := w.canister.deeds

lemma answer_done (r : Reply) : answer (.done r) = (Progress.done r).accepted := by
  cases r <;> rfl

/-- One message does to the deeds what it conveys. -/
lemma stepped_deeds (hX : E.auction.TaxLaws) (hs : w.canister.Shape) {e : Event} {o : Output}
    (h : Stepped w e w' o) : (deeds w).follow (conveyance ⟨w, e, o, w'⟩) = some (deeds w') := by
  cases h with
  | answered _ hc =>
      have hcalled := State.called_deeds hX hs hc
      rwa [← answer_done] at hcalled
  | suspended _ hc => exact State.called_deeds hX hs hc
  | resumed _ hget hr =>
      have hresumed := State.resumed_deeds hX hs hr
      rw [← answer_done] at hresumed
      simp only [conveyance, hget, Option.bind_some]
      exact hresumed
  | continued _ hget =>
      simp only [conveyance, hget, Option.bind_some]
      rfl
  | upgraded => rfl

/-- **The canister simulates the market**, under any assumption on its messages. -/
theorem deeds_simulates (hX : E.auction.TaxLaws) (ok : World E → Event → Prop) :
    Simulates (machine E) ok init Deeds.machine deeds conveyance (fun _ => ()) where
  silent := by
    intro tr w e w' o hr hok hs hreq
    have hstep := stepped_deeds hX (run_shape hr) (stepped_of_step (run_schema rfl hr) hs)
    rw [hreq] at hstep
    exact (Option.some.inj hstep).symm
  acts := by
    intro tr w e w' o c hr hok hs hreq
    have hstep := stepped_deeds hX (run_shape hr) (stepped_of_step (run_schema rfl hr) hs)
    rw [hreq] at hstep
    exact congrArg (Option.map fun d => (d, ())) hstep

/-! ## The market, refined -/

/-- A flat record is its deed and its tax clock. -/
lemma record_of_deed (hs : w.canister.Shape) {d : Deed} (hdeed : deeds w name = some d) :
    ∃ h : Harberger, h.price = d.price ∧ w.canister.records.get name = some (d.record name h) := by
  obtain ⟨r, hget, hflat⟩ := Option.bind_eq_some_iff.mp hdeed
  obtain ⟨h, hh, rfl⟩ := Option.map_eq_some_iff.mp hflat
  refine ⟨h, rfl, ?_⟩
  rw [hget, ← hs.named name r hget]
  cases r
  cases hh
  rfl

/-- **The canister refines the market.**  What the messages of any history convey is a history of the
market, each act allowed where it was made; and the flat records are the deeds it leaves, each with a tax
clock at the price of the deed. -/
theorem deeds_refined (hX : E.auction.TaxLaws) (h : Run (machine E) anyEvent init tr w) :
    Run Deeds.machine (fun _ _ => True) Deeds.empty
        (tr.filterMap (Entry.seen deeds conveyance fun _ => ())) (deeds w) ∧
      ∀ name, Names.checkFlat name = .ok () →
        (∀ d, deeds w name = some d → ∃ h : Harberger, h.price = d.price ∧
          w.canister.records.get name = some (d.record name h)) ∧
        (deeds w name = none → w.canister.records.get name = none) := by
  have hshape := run_shape h
  refine ⟨(deeds_simulates hX anyEvent).run h, fun name hname => ⟨fun d hdeed =>
    record_of_deed hshape hdeed, fun hnone => ?_⟩⟩
  cases hget : w.canister.records.get name with
  | none => rfl
  | some r =>
      obtain ⟨-, hflat, -⟩ := hshape.flat_of_checkFlat hname hget
      obtain ⟨h, hh⟩ := Option.isSome_iff_exists.mp hflat
      rw [deeds, State.deeds_of_get hget, hh] at hnone
      cases hnone

/-- A name is won and then sold: two conveyances, and the deed is the buyer's. -/
theorem deeds_refined_sold : ∃ (tr : History Env.reference) (w : World Env.reference),
    Run (machine Env.reference) anyEvent init tr w ∧ tr.reverse.map Entry.event = Script.sold ∧
      tr.filterMap conveyance =
        [⟨"abc", 27, .sell ⟨[3]⟩ 1000 900 (.alias "h/x")⟩, ⟨"abc", 25, .award ⟨[2]⟩ 1000 (.alias "h/z")⟩] ∧
      Run Deeds.machine (fun _ _ => True) Deeds.empty
        (tr.filterMap (Entry.seen deeds conveyance fun _ => ())) (deeds w) ∧
      ∃ d h, deeds w "abc" = some d ∧ d.owner = ⟨[3]⟩ ∧
        w.canister.records.get "abc" = some (d.record "abc" h) := by
  obtain ⟨tr, w, hr, hevents, hacts, howner⟩ := Machine.exists_run_of_exec (machine Env.reference)
    anyEvent init Script.sold (fun tr w => tr.filterMap conveyance =
        [⟨"abc", 27, .sell ⟨[3]⟩ 1000 900 (.alias "h/x")⟩,
          ⟨"abc", 25, .award ⟨[2]⟩ 1000 (.alias "h/z")⟩] ∧
      (deeds w "abc").map Deed.owner = some ⟨[3]⟩) (by decide +kernel)
  obtain ⟨hrun, hrecords⟩ := deeds_refined Reference.auction_taxLaws hr
  obtain ⟨d, hdeed, hd⟩ := Option.map_eq_some_iff.mp howner
  obtain ⟨h, -, hget⟩ := (hrecords "abc" (by decide +kernel)).1 d hdeed
  exact ⟨tr, w, hr, hevents, hacts, hrun, d, h, hdeed, hd, hget⟩

/-! ## Awards -/

/-- What an award is read off. -/
lemma award_eq_some {s : State E} {cfg : Config} {now : ℕ} {act : Deed.Act}
    (h : s.award cfg name now = some act) : ∃ r outcome x, s.auctions.get name = some r ∧
      E.auction.outcome r.auction now = .ok outcome ∧
      State.winnerHolding r (State.winnerIf outcome (s.lapsedRecord cfg name now).2) = .ok (some x) ∧
      act = .award x.1 x.2.2 (.alias x.2.1.aliasTo) := by
  simp only [State.award] at h
  cases hget : s.getAuction name with
  | none =>
      rw [hget] at h
      cases h
  | some r =>
      rw [hget] at h
      simp only at h
      cases ho : E.auction.outcome r.auction now with
      | error e =>
          rw [ho] at h
          cases h
      | ok outcome =>
          rw [ho] at h
          simp only at h
          split at h
          · rename_i x hx
            cases h
            exact ⟨r, outcome, x, hget, ho, hx, rfl⟩
          · cases h

/-- The config an entry closes an auction with: the stored one, or the one a bid was sent with. -/
def ClosesWith (e : Entry (World E) Event Output) (name : String) (cfg : Config) : Prop :=
  cfg = e.pre.canister.config ∨ ∃ id c, e.pre.pending.get id = some (.bid c) ∧ c.name = name ∧ cfg = c.cfg

lemma conveyance_award {e : Entry (World E) Event Output} {now price : ℕ} {winner : Principal}
    {target : Target} (h : conveyance e = some ⟨name, now, .award winner price target⟩) :
    ∃ cfg, ClosesWith e name cfg ∧
      e.pre.canister.award cfg name now = some (.award winner price target) := by
  obtain ⟨pre, event, out, post⟩ := e
  cases event with
  | upgrade => cases h
  | call cx c =>
      simp only [conveyance] at h
      split_ifs at h
      cases c with
      | closeAuction n =>
          obtain ⟨act, hact, hsame⟩ := Option.map_eq_some_iff.mp h
          cases hsame
          exact ⟨_, Or.inl rfl, hact⟩
      | setRecord =>
          simp only [State.conveysCall] at h
          split_ifs at h
          cases h
      | setText =>
          simp only [State.conveysCall] at h
          split_ifs at h
          cases h
      | deleteRecord =>
          simp only [State.conveysCall] at h
          split_ifs at h
          cases h
      | _ => cases h
  | reply now id r moved =>
      obtain ⟨p, hget, hconveys⟩ := Option.bind_eq_some_iff.mp h
      cases p with
      | bid c =>
          simp only [State.conveysReply] at hconveys
          split_ifs at hconveys
          obtain ⟨act, hact, hsame⟩ := Option.map_eq_some_iff.mp hconveys
          cases hsame
          refine ⟨c.cfg, Or.inr ⟨id, c, hget, rfl, rfl⟩, ?_⟩
          simp only [State.awardFirst] at hact
          cases hauction : pre.canister.getAuction c.name with
          | none => simp [hauction] at hact
          | some r =>
              simp only [hauction] at hact
              split_ifs at hact
              exact hact
      | buy c =>
          simp only [State.conveysReply] at hconveys
          split_ifs at hconveys
          cases hconveys
      | deposit c =>
          simp only [State.conveysReply] at hconveys
          split_ifs at hconveys
          cases hconveys
      | _ => cases hconveys

/-- **An award gives a bidder what that bidder asked for.**  In a lawful history, whenever a name is
awarded: nobody held it, as the config of the close reads its clock; the winner had revealed a bid at or
above the reserve; and the price and the target on the deed are the ones of that reveal, which the winner
made. -/
theorem award_asked_for (hX : E.auction.TaxLaws) (hV : E.auction.VickreyLaws)
    (hO : E.auction.OutcomeLaws) (h : Run (machine E) lawful init tr w) {newer older : History E}
    {e : Entry (World E) Event Output} (htr : tr = newer ++ e :: older) {now price : ℕ}
    {winner : Principal} {target : Target}
    (hact : conveyance e = some ⟨name, now, .award winner price target⟩) :
    ∃ cfg r outcome terms, ClosesWith e name cfg ∧ e.pre.canister.holder cfg name now = none ∧
      e.pre.canister.auctions.get name = some r ∧ E.auction.outcome r.auction now = .ok outcome ∧
      State.Wins older name r outcome winner.bytes (winner, terms, price) ∧
      target = .alias terms.aliasTo := by
  obtain ⟨cfg, hcfg, haward⟩ := conveyance_award hact
  obtain ⟨r, outcome, x, hget, ho, hx, hsame⟩ := award_eq_some haward
  obtain ⟨hrun, -, -, -⟩ := run_entry rfl h htr
  have htermed := run_termed hX hV hrun hget
  have hnd := (run_balanced hX hV hrun).tidy.oneBid name r hget
  have hwin : State.winnerIf outcome (e.pre.canister.lapsedRecord cfg name now).2 = none ∨
      State.winnerIf outcome (e.pre.canister.lapsedRecord cfg name now).2 = outcome.winner := by
    cases (e.pre.canister.lapsedRecord cfg name now).2 with
    | true => exact Or.inr (State.winnerIf_true outcome)
    | false => exact Or.inl (by simp [State.winnerIf])
  obtain ⟨holding, hholding, hnobody, hwins⟩ :=
    State.winnerHolding_ok hO htermed hnd ho hwin
  obtain rfl : holding = some x := Except.ok.inj (hholding.symm.trans hx)
  cases hwinner : State.winnerIf outcome (e.pre.canister.lapsedRecord cfg name now).2 with
  | none => cases hnobody hwinner
  | some b =>
      obtain ⟨y, hy, hwin⟩ := hwins b hwinner
      cases hy
      cases hsame
      have hfree : (e.pre.canister.lapsedRecord cfg name now).2 = true := by
        cases hf : (e.pre.canister.lapsedRecord cfg name now).2 with
        | true => rfl
        | false => simp [State.winnerIf, hf] at hwinner
      have hbytes : x.1.bytes = b := by rw [hwin.who]
      refine ⟨cfg, r, outcome, x.2.1, hcfg, State.holder_eq_none_iff_free.mpr hfree, hget, ho, ?_, rfl⟩
      rw [hbytes]
      exact hwin

/-- The award of a name that is sold later. -/
theorem award_asked_for_sold : ∃ (newer older : History Env.reference)
    (e : Entry (World Env.reference) Event Output) (w : World Env.reference),
    Run (machine Env.reference) lawful init (newer ++ e :: older) w ∧
      conveyance e = some ⟨"abc", 25, .award ⟨[2]⟩ 1000 (.alias "h/z")⟩ ∧
      ∃ r outcome terms, e.pre.canister.auctions.get "abc" = some r ∧
        State.Wins older "abc" r outcome [2] (⟨[2]⟩, terms, 1000) ∧ terms.aliasTo = "h/z" := by
  obtain ⟨tr, w, hr, -, hmem⟩ := Machine.exists_run_of_exec (machine Env.reference)
    lawful init Script.sold (fun tr _ => (tr.map conveyance).contains
      (some ⟨"abc", 25, .award ⟨[2]⟩ 1000 (.alias "h/z")⟩) = true) (by decide +kernel)
  obtain ⟨e, he, hact⟩ := List.mem_map.mp (List.contains_iff_mem.mp hmem)
  obtain ⟨newer, older, rfl⟩ := List.append_of_mem he
  obtain ⟨-, r, outcome, terms, -, -, hget, -, hwins, halias⟩ := award_asked_for
    Reference.auction_taxLaws Reference.auction_vickreyLaws Reference.auction_outcomeLaws hr rfl hact
  exact ⟨newer, older, e, w, hr, hact, r, outcome, terms, hget, hwins, (Target.alias.inj halias).symm⟩

/-! ## The holder, replayed -/

/-- What the latest conveyance that says so made of a part of a name's deed. -/
def latest {α : Type} (tells : Deed.Act → Option (Option α)) (tr : History E) (name : String) :
    Option α :=
  (tr.findSome? fun e => (conveyance e).bind (Deeds.sets tells name)).getD none

/-- **Each part of a deed is what the latest conveyance of it made it.** -/
lemma deed_eq_latest (hX : E.auction.TaxLaws) (h : Run (machine E) anyEvent init tr w) {α : Type}
    {part : Deed → α} {tells : Deed.Act → Option (Option α)} (htells : Deed.Act.Tells part tells)
    (name : String) : (deeds w name).map part = latest tells tr name := by
  have hrun := (deeds_simulates hX anyEvent).run h
  have hfield := Deeds.field_eq_latest htells hrun name
  rw [← List.head?_filterMap, List.filterMap_filterMap, List.head?_filterMap] at hfield
  simp only [Entry.seen, Option.bind_map, Function.comp_def] at hfield
  exact hfield

/-- Under a flat name, a record and its deed say the same. -/
lemma deeds_map (hs : w.canister.Shape) (hflat : Names.checkFlat name = .ok ()) {α : Type}
    {part : Deed → α} {field : Record → Option α}
    (hpart : ∀ r h, r.flat = some h → field r = some (part (r.deed h))) :
    (w.canister.records.get name).bind field = (deeds w name).map part := by
  cases hget : w.canister.records.get name with
  | none =>
      rw [deeds, State.deeds, hget]
      rfl
  | some r =>
      obtain ⟨-, hsome, -⟩ := hs.flat_of_checkFlat hflat hget
      obtain ⟨h, hh⟩ := Option.isSome_iff_exists.mp hsome
      rw [deeds, State.deeds_of_get hget, hh, Option.bind_some, hpart r h hh]
      rfl

/-- A name is held exactly when its record stands and has not lapsed. -/
lemma holder_isSome {s : State E} {now : ℕ} {r : Record} (hget : s.records.get name = some r) :
    (s.holder s.config name now).isSome = true ↔ State.lapsed (E := E) s.config r now = false := by
  have hstored : s.getRecord name = some r := hget
  simp only [State.holder, hstored, State.lapsed]
  cases hflat : r.flat with
  | none => simp [settleRecord_none s.config now hflat]
  | some h => simp [settleRecord_flat s.config now hflat]

/-- **A flat name is a replay of the history**, but for its lapse.  Whoever the latest conveyance says
holds a name holds it, at the price of the latest; and `follow` finds an address exactly when the name has
not lapsed and the latest conveyance points it at a scoped name from which the latest writes lead to that
address, in at most eight steps in all. -/
theorem flat_resolution_replayed (hX : E.auction.TaxLaws) (h : Run (machine E) anyEvent init tr w)
    (hflat : Names.checkFlat name = .ok ()) :
    (w.canister.records.get name).map Record.owner = latest Deed.Act.setsOwner tr name ∧
      ((w.canister.records.get name).bind fun r => r.flat.map Harberger.price) =
        latest Deed.Act.setsPrice tr name ∧
      ∀ now p targets,
        (∃ chain, w.canister.follow name now = .ok (p, chain) ∧ chain.map Record.target = targets) ↔
          ∃ dest rest, targets = .alias dest :: rest ∧
            latest Deed.Act.setsTarget tr name = some (.alias dest) ∧
            (w.canister.holder w.canister.config name now).isSome = true ∧
            Walk (latestTarget tr) Target.pointsTo dest rest p ∧ rest.length ≤ 7 := by
  have hshape := run_shape h
  refine ⟨?_, ?_, fun now p targets => ?_⟩
  · rw [← deed_eq_latest hX h Deed.Act.tells_owner, Option.map_eq_bind]
    exact deeds_map hshape hflat fun r x _ => rfl
  · rw [← deed_eq_latest hX h Deed.Act.tells_price]
    exact deeds_map hshape hflat fun r x hx => by
      rw [hx]
      rfl
  have htarget : (w.canister.records.get name).map Record.target =
      latest Deed.Act.setsTarget tr name := by
    rw [← deed_eq_latest hX h Deed.Act.tells_target, Option.map_eq_bind]
    exact deeds_map hshape hflat fun r x _ => rfl
  have hnameable : State.Nameable name := by
    rw [State.Nameable, if_neg (by simp [Names.isScoped_of_checkFlat hflat])]
    exact hflat
  constructor
  · rintro ⟨chain, hfollow, rfl⟩
    obtain ⟨-, hwalk, hlen, hheld⟩ := (State.follow_eq_ok hshape.named).mp hfollow
    cases hwalk with
    | ends hget hpoint =>
        -- a flat name points at a scoped one
        obtain ⟨-, -, ⟨dest, q, halias, -⟩, -⟩ := hshape.flat_of_checkFlat hflat hget
        simp [Record.pointsTo, halias] at hpoint
    | @on _ dest r rest _ hget hpoint hrest =>
        obtain ⟨-, -, ⟨dest', q, halias, hsplit⟩, -⟩ := hshape.flat_of_checkFlat hflat hget
        obtain rfl : dest' = dest := by simpa [Record.pointsTo, halias] using hpoint
        refine ⟨dest', rest.map Record.target, by rw [List.map_cons, halias], ?_, ?_, ?_, ?_⟩
        · rw [← htarget, hget, ← halias]
          rfl
        · exact (holder_isSome hget).mpr (hheld r List.mem_cons_self)
        · exact (walk_replayed h hsplit now p _).mp
            ⟨rest, hrest, rfl, fun r' hr' => hheld r' (List.mem_cons_of_mem _ hr')⟩
        · rw [List.length_map]
          rw [List.length_cons] at hlen
          exact Nat.le_of_succ_le_succ hlen
  · rintro ⟨dest, rest, rfl, hlatest, hholder, hwalk, hlen⟩
    rw [← htarget] at hlatest
    obtain ⟨r, hget, halias⟩ := Option.map_eq_some_iff.mp hlatest
    obtain ⟨-, -, ⟨dest', q, halias', hsplit⟩, -⟩ := hshape.flat_of_checkFlat hflat hget
    obtain rfl : dest' = dest := by
      rw [halias] at halias'
      cases halias'
      rfl
    obtain ⟨chain, hchain, rfl, hheld⟩ := (walk_replayed h hsplit now p rest).mpr hwalk
    rw [List.length_map] at hlen
    refine ⟨r :: chain, (State.follow_eq_ok hshape.named).mpr
      ⟨hnameable, .on hget (by simp [Record.pointsTo, halias]) hchain, Nat.succ_le_succ hlen, ?_⟩,
      by rw [List.map_cons, halias]⟩
    intro r' hr'
    rcases List.mem_cons.mp hr' with rfl | hr'
    · exact (holder_isSome hget).mp hholder
    · exact hheld r' hr'

/-- A name that was won and then sold resolves where its buyer pointed it. -/
theorem flat_resolution_replayed_sold : ∃ (tr : History Env.reference) (w : World Env.reference),
    Run (machine Env.reference) anyEvent init tr w ∧ tr.reverse.map Entry.event = Script.sold ∧
      (w.canister.records.get "abc").map Record.owner = some ⟨[3]⟩ ∧
      ∃ chain, w.canister.follow "abc" 30 = .ok (⟨[9]⟩, chain) ∧
        chain.map Record.target = [.alias "h/x", .address ⟨[9]⟩] := by
  obtain ⟨tr, w, hr, hevents, howner, htarget, hheld, hx⟩ := Machine.exists_run_of_exec
    (machine Env.reference) anyEvent init Script.sold
    (fun tr w => latest Deed.Act.setsOwner tr "abc" = some ⟨[3]⟩ ∧
      latest Deed.Act.setsTarget tr "abc" = some (.alias "h/x") ∧
      (w.canister.holder w.canister.config "abc" 30).isSome = true ∧
      latestTarget tr "h/x" = some (.address ⟨[9]⟩)) (by decide +kernel)
  obtain ⟨hsame, -, hfollow⟩ := flat_resolution_replayed Reference.auction_taxLaws hr
    (by decide +kernel : Names.checkFlat "abc" = .ok ())
  refine ⟨tr, w, hr, hevents, hsame.trans howner, (hfollow 30 ⟨[9]⟩ _).mpr
    ⟨"h/x", [.address ⟨[9]⟩], rfl, htarget, hheld, .ends hx rfl, by decide⟩⟩

end World
