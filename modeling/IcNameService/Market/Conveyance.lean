import IcNameService.Market.Deeds
import IcNameService.Registry.Accepted
import IcNameService.Resolution.Bounded

/-!
# The canister refines the market in flat names

What a message does to the deeds is read off before it is taken: which name it is about, who acts, at
what price.  An award is read off the auction that ends, whether somebody closes it or the next bid does.

* `State.award` — what closing a name's auction now would award.
* `State.called_deeds`, `State.resumed_deeds` — **a message does to the deeds what it conveys, and that is
  allowed.**
-/

namespace Record

/-- The deed of a flat record. -/
def deed (r : Record) (h : Harberger) : Deed where
  owner := r.owner
  price := h.price
  target := r.target
  text := r.text
  createdNs := r.createdNs
  updatedNs := r.updatedNs
  changedHandsNs := r.changedHandsNs
  previousTarget := r.previousTarget

end Record

/-- The record of a deed, with its tax clock. -/
def Deed.record (d : Deed) (name : String) (h : Harberger) : Record where
  name := name
  owner := d.owner
  target := d.target
  text := d.text
  createdNs := d.createdNs
  updatedNs := d.updatedNs
  changedHandsNs := d.changedHandsNs
  flat := some h
  previousTarget := d.previousTarget

namespace Deeds

/-- A message conveys something, or nothing. -/
def follow (deeds : Deeds) : Option Conveyance → Option Deeds
  | none => some deeds
  | some c => deeds.convey c

end Deeds

namespace State

variable {E : Env}

/-! ## What a message conveys -/

/-- The deeds of a state. -/
def deeds (s : State E) : Deeds := fun name =>
  (s.records.get name).bind fun r => r.flat.map r.deed

/-- What closing the auction of `name` awards. -/
def award (s : State E) (cfg : Config) (name : String) (now : ℕ) : Option Deed.Act :=
  match s.getAuction name with
  | none => none
  | some r =>
      match E.auction.outcome r.auction now with
      | .error _ => none
      | .ok outcome =>
          match winnerHolding r (winnerIf outcome (s.lapsedRecord cfg name now).2) with
          | .ok (some x) => some (.award x.1 x.2.2 (.alias x.2.1.aliasTo))
          | _ => none

/-- What a bid on `name` awards on its way: an auction that has ended is closed first. -/
def awardFirst (s : State E) (cfg : Config) (name : String) (now : ℕ) : Option Deed.Act :=
  match s.getAuction name with
  | none => none
  | some r => if E.auction.phase r.auction now = .closed then s.award cfg name now else none

/-- What an accepted call conveys. -/
def conveysCall (s : State E) (cx : Ctx) : Call → Option Conveyance
  | .setRecord name target =>
      if Names.isScoped name then none else some ⟨name, cx.now, .repoint cx.caller target⟩
  | .setText name key value =>
      if Names.isScoped name then none else some ⟨name, cx.now, .describe cx.caller key value⟩
  | .deleteRecord name =>
      if Names.isScoped name then none else some ⟨name, cx.now, .release cx.caller⟩
  | .setPrice name price => some ⟨name, cx.now, .reprice cx.caller price⟩
  | .closeAuction name => (s.award s.config name cx.now).map (Conveyance.mk name cx.now)
  | _ => none

/-- What the reply to a suspended call conveys.  A bid that is refused after all may have closed an
auction first. -/
def conveysReply (s : State E) (now : ℕ) (reply : Except Failure ℕ) (accepted : Bool) :
    Pending → Option Conveyance
  | .buy c =>
      if accepted then some ⟨c.name, now, .sell c.caller c.before.price c.price c.target⟩ else none
  | .deposit c => if accepted then some ⟨c.name, now, .tend⟩ else none
  | .bid c =>
      if reply.isOk then (s.awardFirst c.cfg c.name now).map (Conveyance.mk c.name now) else none
  | _ => none

/-! ## Writing records -/

variable {s s' : State E} {cfg : Config} {name : String} {now : ℕ}

lemma deeds_congr (h : s'.records = s.records) : s'.deeds = s.deeds := by
  funext name
  rw [deeds, deeds, h]

lemma deeds_insert {r : Record} (h : s'.records = s.records.insert name r) :
    s'.deeds = Function.update s.deeds name (r.flat.map r.deed) := by
  funext other
  rw [deeds, h]
  by_cases hother : other = name
  · subst hother
    rw [OrdMap.get_insert_self, Function.update_self]
    rfl
  · rw [OrdMap.get_insert_ne _ _ hother, Function.update_of_ne hother]
    rfl

lemma deeds_erase (h : s'.records = s.records.erase name) :
    s'.deeds = Function.update s.deeds name none := by
  funext other
  rw [deeds, h]
  by_cases hother : other = name
  · subst hother
    rw [OrdMap.get_erase_self, Function.update_self]
    rfl
  · rw [OrdMap.get_erase_ne _ hother, Function.update_of_ne hother]
    rfl

/-- A record under a handle is no deed. -/
lemma deeds_scoped {p : String × String} (hs : s.Shape) (hsplit : Names.split name = .ok p) :
    s.deeds name = none := by
  rw [deeds]
  cases hget : s.records.get name with
  | none => rfl
  | some r =>
      obtain ⟨-, hnone, -⟩ := hs.plain_of_split hsplit hget
      rw [Option.bind_some, hnone]
      rfl

/-- Writing under a handle, or removing what stands there, writes no deed. -/
lemma deeds_of_scoped {p : String × String} (hs : s.Shape) (hs' : s'.Shape)
    (hsplit : Names.split name = .ok p)
    (hother : ∀ other, other ≠ name → s'.records.get other = s.records.get other) :
    s'.deeds = s.deeds := by
  funext other
  by_cases h : other = name
  · subst h
    rw [deeds_scoped hs hsplit, deeds_scoped hs' hsplit]
  · rw [deeds, deeds, hother other h]

/-- **A settlement is no matter of deeds.** -/
lemma deed_settle (hX : E.auction.TaxLaws) (cfg : Config) (r : Record) (now : ℕ) :
    (settleRecord E cfg r now).1.flat.map (settleRecord E cfg r now).1.deed = r.flat.map r.deed := by
  cases hflat : r.flat with
  | none => rw [settleRecord_none cfg now hflat, hflat]
  | some h =>
      rw [settleRecord_flat cfg now hflat]
      simp [Record.deed, hX.settle_price]

lemma deeds_of_get {r : Record} (hget : s.records.get name = some r) :
    s.deeds name = r.flat.map r.deed := by
  rw [deeds, hget]
  rfl

/-! ## Closing an auction -/

/-- The record a winner gets has the deed the award conveys. -/
lemma deed_wonAs (hX : E.auction.TaxLaws) (outcome : Outcome) (x : Holding)
    (hfree : (s.lapsedRecord cfg name now).2 = true) :
    (s.wonAs cfg name now outcome x).flat.map (s.wonAs cfg name now outcome x).deed =
      some (Deed.conveyed (s.deeds name) x.1 x.2.2 (.alias x.2.1.aliasTo) now) := by
  cases hl : s.lapsedRecord cfg name now with
  | mk lapsed free =>
      rw [hl] at hfree
      cases lapsed with
      | none =>
          rcases lapsedRecord_none hl with ⟨hget, -⟩ | hheld
          · simp [wonAs, wonRecord, hl, Record.new, Record.deed, Deed.conveyed, deeds, hget,
              hX.holding_price]
          · rw [hheld] at hfree
            cases hfree
      | some l =>
          obtain ⟨old, hget, hr, -, hstatus, -⟩ := lapsedRecord_some hl
          cases hflat : old.flat with
          | none =>
              rw [settleRecord_none cfg now hflat] at hstatus
              cases hstatus
          | some h =>
              rw [settleRecord_flat cfg now hflat] at hr
              simp [wonAs, wonRecord, hl, hr, Record.deed, Deed.conveyed, deeds, hget, hflat,
                hX.holding_price]

/-- An award is what a close that goes through hands over. -/
lemma ClosedAs.award_eq {r : Running E} {outcome : Outcome} {holding : Option Holding} {c : Closed}
    (hc : ClosedAs s cfg name now r outcome holding s' c) :
    s.award cfg name now = holding.map fun x => .award x.1 x.2.2 (.alias x.2.1.aliasTo) := by
  have hstored : s.getAuction name = some r := hc.stored
  simp only [award, hstored, hc.ended, hc.holds]
  cases holding <;> rfl

/-- **Closing an auction conveys what it awards.** -/
lemma deeds_close (hX : E.auction.TaxLaws) (hn : s.Named) {res : Except String Closed}
    (hclose : s.close cfg name now = (s', res)) :
    s.deeds.follow ((s.award cfg name now).map (Conveyance.mk name now)) = some s'.deeds := by
  cases res with
  | error e =>
      have hsame := close_error hclose
      subst hsame
      have hnone : s'.award cfg name now = none := by
        rw [award]
        rw [close] at hclose
        cases hget : s'.getAuction name with
        | none => rfl
        | some r =>
            cases ho : E.auction.outcome r.auction now with
            | error e => simp only [ho]
            | ok outcome =>
                simp only [hget, ho, attempt] at hclose
                split at hclose
                · rename_i herror
                  simp only [ho, winnerIf, herror]
                · have hanswer := congrArg Prod.snd hclose
                  cases hanswer
      rw [hnone]
      rfl
  | ok c =>
      obtain ⟨r, outcome, holding, hc⟩ := close_ok hclose
      have hrecords := hc.records
      rw [hc.award_eq]
      cases holding with
      | none =>
          rw [deeds_congr hrecords]
          rfl
      | some x =>
          have hfree := hc.free
          rw [wonRecords, hn.wonAs_name] at hrecords
          rw [deeds_insert hrecords, deed_wonAs hX outcome x hfree]
          rfl

/-- **A bid conveys what it awards on its way.** -/
lemma deeds_placeBid (hX : E.auction.TaxLaws) (hn : s.Named) {bidder : Principal} {commitment : Bytes}
    {deposit : ℕ} {res : Except String (Option ℕ)}
    (hp : s.placeBid cfg name bidder commitment deposit now = (s', res)) :
    s.deeds.follow ((s.awardFirst cfg name now).map (Conveyance.mk name now)) = some s'.deeds := by
  have hfirst : s.deeds.follow ((s.awardFirst cfg name now).map (Conveyance.mk name now)) =
      some (s.closeEnded cfg name now).1.deeds := by
    simp only [awardFirst, closeEnded]
    cases hget : s.getAuction name with
    | none => rfl
    | some r =>
        simp only
        split_ifs with hphase
        · cases hclose : s.close cfg name now with
          | mk s₁ res => cases res <;> exact deeds_close hX hn hclose
        · rfl
  rw [hfirst]
  have hrest : s'.records = (s.closeEnded cfg name now).1.records := by
    simp only [placeBid] at hp
    cases hc : s.closeEnded cfg name now with
    | mk s₁ closed =>
        rw [hc] at hp
        cases closed with
        | error e =>
            cases hp
            rfl
        | ok u =>
            simp only [attempt] at hp
            split at hp
            · cases hp
              rfl
            · split at hp
              · cases hp
                rfl
              · cases hp
                rfl
  rw [deeds_congr hrest]

/-! ## Every message -/

/-- **What a holder writes over a deed** is what the call conveys. -/
lemma deeds_amendment (hX : E.auction.TaxLaws) {cx : Ctx} {c : Call} {old r : Record}
    (hheld : Held s cx name old) (hflat : old.flat.isSome = true)
    (ha : Amendment s cx name (settleRecord E cfg old cx.now).1 c r) :
    ∃ act, s.conveysCall cx c = some ⟨name, cx.now, act⟩ ∧
      act.apply cx.now (s.deeds name) = some (r.flat.map r.deed) := by
  obtain ⟨h, hh⟩ := Option.isSome_iff_exists.mp hflat
  have hnot := Names.isScoped_of_checkFlat hheld.flatName
  have hdeed : s.deeds name = some (old.deed h) := by
    rw [deeds_of_get hheld.stored, hh]
    rfl
  have howner : cx.caller = (old.deed h).owner := hheld.owner.symm
  rw [settleRecord_flat cfg cx.now hh] at ha
  cases ha with
  | @repoint target =>
      refine ⟨.repoint cx.caller target, by simp [conveysCall, hnot], ?_⟩
      have hwritten : Deed.Act.Applied cx.now _ _ _ := .repointed (old.deed h) target
      rw [hdeed, howner, Deed.Act.apply_eq_some]
      by_cases hsame : old.target = target
      · simpa [repoint, Record.deed, Deed.repointed, hX.settle_price, hsame] using hwritten
      · simpa [repoint, Record.deed, Deed.repointed, hX.settle_price, hsame] using hwritten
  | @retext key value text _ htext =>
      refine ⟨.describe cx.caller key value, by simp [conveysCall, hnot], ?_⟩
      have hwritten : Deed.Act.Applied cx.now _ (some (old.deed h)) _ := .described htext
      rw [hdeed, howner, Deed.Act.apply_eq_some]
      simpa [Record.deed, hX.settle_price] using hwritten
  | @reprice price =>
      refine ⟨.reprice cx.caller price, rfl, ?_⟩
      have hwritten : Deed.Act.Applied cx.now _ _ _ := .repriced (old.deed h) price
      rw [hdeed, howner, Deed.Act.apply_eq_some]
      simpa [Record.deed] using hwritten

/-- **A call does to the deeds what it conveys.** -/
theorem called_deeds (hX : E.auction.TaxLaws) (hs : s.Shape) {cx : Ctx} {c : Call} {p : Progress}
    (hc : Called s cx c s' p) :
    s.deeds.follow (if p.accepted then s.conveysCall cx c else none) = some s'.deeds := by
  have hs' := called_shape hs hc
  have hn := hs.named
  cases hc with
  | refused => rfl
  | administered ha => cases ha <;> rfl
  | @announced a _ _ _ _ _ ha =>
      have hwritten : ∃ q, Names.split a.name = .ok q ∧
          ∀ other, other ≠ a.name → s'.records.get other = s.records.get other := by
        cases ha with
        | fresh hsplit =>
            refine ⟨_, hsplit, fun other hne => ?_⟩
            rw [commit_records, hn.announceRecord_name, OrdMap.get_insert_ne _ _ hne]
        | allowed hsplit =>
            refine ⟨_, hsplit, fun other hne => ?_⟩
            rw [commit_records, hn.announceRecord_name, OrdMap.get_insert_ne _ _ hne]
      obtain ⟨q, hsplit, hother⟩ := hwritten
      rw [deeds_of_scoped hs hs' hsplit hother]
      rfl
  | @underHandle _ name q _ r hsplit _ _ hw =>
      have hscoped := Names.isScoped_of_split hsplit
      have hother : ∀ other, other ≠ name →
          (s.commit r).records.get other = s.records.get other := by
        intro other hne
        rw [commit_records, hn.scopedWrite_name hw, OrdMap.get_insert_ne _ _ hne]
      rw [deeds_of_scoped hs hs' hsplit hother]
      cases hw <;> simp [Progress.accepted, conveysCall, hscoped, Deeds.follow]
  | @amended _ name old r hheld ha =>
      obtain ⟨-, hflat, -⟩ := hs.flat_of_checkFlat hheld.flatName hheld.stored
      obtain ⟨act, hconveys, hact⟩ := deeds_amendment hX hheld hflat ha
      have hname : r.name = name := by
        rw [amendment_name ha, settleRecord_name, hn _ _ hheld.stored]
      have hwritten : (s.commitFlat r
          (settleRecord E s.config old cx.now).2.2).deeds =
            Function.update s.deeds name (r.flat.map r.deed) :=
        deeds_insert (by rw [commitFlat_records, hname])
      simp only [Progress.accepted, if_true, hconveys, Deeds.follow, Deeds.convey, hact, hwritten,
        Option.map_some]
  | @discarded name _ _ old hsplit =>
      have hscoped := Names.isScoped_of_split hsplit
      rw [deeds_of_scoped hs hs' hsplit fun other hne => OrdMap.get_erase_ne _ hne]
      simp [Progress.accepted, conveysCall, hscoped, Deeds.follow]
  | @released name old hheld =>
      obtain ⟨-, hflat, -⟩ := hs.flat_of_checkFlat hheld.flatName hheld.stored
      obtain ⟨h, hh⟩ := Option.isSome_iff_exists.mp hflat
      have hnot := Names.isScoped_of_checkFlat hheld.flatName
      have hdeed : s.deeds name = some (old.deed h) := by
        rw [deeds_of_get hheld.stored, hh]
        rfl
      have howner : cx.caller = (old.deed h).owner := hheld.owner.symm
      have hwritten : (s.release
          (settleRecord E s.config old cx.now).1 (settleRecord E s.config old cx.now).2.2 name).deeds =
            Function.update s.deeds name none := by
        refine deeds_erase ?_
        rw [release_eq]
        change OrdMap.erase (State.paidOut _ _ _).records name = _
        rw [(sameRecords_paidOut _ _ _).records]
      have hact : Deed.Act.apply cx.now (.release cx.caller) (s.deeds name) = some none := by
        rw [hdeed, howner, Deed.Act.apply_eq_some]
        exact .released _
      simp [Progress.accepted, conveysCall, hnot, Deeds.follow, Deeds.convey, hact, hwritten]
  | revealed => rfl
  | closed hclose => exact deeds_close hX hn hclose
  | pulling => rfl
  | withdrawing _ _ ht =>
      obtain ⟨-, credits, rfl, -⟩ := takeCredit_ok ht
      rfl
  | funding => rfl
  | configuring => rfl

/-- Settling every name is no matter of deeds. -/
lemma deeds_settleAll (hX : E.auction.TaxLaws) (hn : s.Named) (cfg : Config) (now : ℕ) :
    (s.settleAll cfg now).1.deeds = s.deeds := by
  have key : (s.settleAll cfg now).1.Named ∧ (s.settleAll cfg now).1.deeds = s.deeds := by
    refine settleAll_induction (P := fun s' => s'.Named ∧ s'.deeds = s.deeds) ?_ ⟨hn, rfl⟩
    rintro s' n old ⟨hn', hsame⟩ hget
    refine ⟨named_invariant.commitFlat (s := s') hn' _ _, ?_⟩
    have hwritten : (s'.commitFlat (settleRecord E cfg old now).1
        (settleRecord E cfg old now).2.2).deeds = Function.update s'.deeds n
          ((settleRecord E cfg old now).1.flat.map (settleRecord E cfg old now).1.deed) :=
      deeds_insert (by rw [commitFlat_records, settleRecord_name, hn' n old hget])
    rw [hwritten, deed_settle hX, ← deeds_of_get hget, Function.update_eq_self, hsame]
  exact key.2

/-- **A purchase whose pull is done is a sale at the price on the deed.** -/
lemma convey_bought (hX : E.auction.TaxLaws) (hn : s.Named) {c : BuyCall} {r : Record} {tax : ℕ}
    (hbuy : s.buyable c.cfg c.name c.caller c.maxPrice now = .ok (r, tax, c.before)) :
    s.deeds.convey ⟨c.name, now, .sell c.caller c.before.price c.price c.target⟩ =
      some (s.dropInFlight.bought now c r tax).deeds := by
  obtain ⟨⟨old, h, hseen⟩, -, hother, -⟩ := buyable_ok hbuy
  have hname := hseen.name_of_named hn
  have hdeed : s.deeds c.name = some (r.deed h) := by
    rw [deeds_of_get hseen.stored, ← deed_settle hX c.cfg old now, ← hseen.settled, hseen.flat]
    rfl
  have hprice : c.before.price = (r.deed h).price := by
    rw [hseen.snap_eq]
    rfl
  have hbuyer : (r.deed h).owner ≠ c.caller := by
    rw [hseen.snap_eq] at hother
    exact hother
  have hact : Deed.Act.apply now (.sell c.caller c.before.price c.price c.target)
      (s.deeds c.name) =
      some (some (Deed.conveyed (s.deeds c.name) c.caller c.price c.target now)) := by
    rw [hdeed, hprice, Deed.Act.apply_eq_some]
    exact .sold _ _ hbuyer
  have hwritten : (s.dropInFlight.bought now c r tax).deeds = Function.update s.deeds c.name
      ((boughtRecord (E := E) c r now).flat.map (boughtRecord (E := E) c r now).deed) := by
    refine deeds_insert ?_
    rw [State.bought, commitFlat_records]
    change OrdMap.insert (State.addCredit _ _ _).records r.name _ = _
    rw [addCredit_records, hname]
    rfl
  have hbought : (boughtRecord (E := E) c r now).flat.map (boughtRecord (E := E) c r now).deed =
      some (Deed.conveyed (s.deeds c.name) c.caller c.price c.target now) := by
    rw [hdeed]
    simp [boughtRecord, Record.deed, Deed.conveyed, hX.holding_price]
  rw [hwritten, hbought]
  simp only [Deeds.convey, hact, Option.map_some]

/-- **A top-up leaves the deed, but for its date.** -/
lemma convey_toppedUp (hX : E.auction.TaxLaws) (hn : s.Named) {c : DepositCall} {r : Record}
    {tax more : ℕ} {x x' : Harberger}
    (hpay : s.payable c.cfg c.name c.amount now = .ok (r, tax, c.before)) (hflat : r.flat = some x)
    (htop : E.auction.topUp c.cfg.params x c.amount now = .ok (x', more)) :
    s.deeds.convey ⟨c.name, now, .tend⟩ = some (s.dropInFlight.commitFlat
      { r with flat := some x', updatedNs := now } (satAdd tax more)).deeds := by
  obtain ⟨⟨old, y, hseen⟩, -, -⟩ := payable_ok hpay
  have hname := hseen.name_of_named hn
  have hdeed : s.deeds c.name = some (r.deed x) := by
    rw [deeds_of_get hseen.stored, ← deed_settle hX c.cfg old now, ← hseen.settled, hflat]
    rfl
  have hact : Deed.Act.apply now .tend (s.deeds c.name) =
      some (some { r.deed x with updatedNs := now }) := by
    rw [hdeed]
    rfl
  let topped : Record := { r with flat := some x', updatedNs := now }
  have htopped : topped.flat.map topped.deed = some { r.deed x with updatedNs := now } := by
    simp [topped, Record.deed, hX.topUp_price _ _ _ _ _ _ htop]
  have hwritten : (s.dropInFlight.commitFlat topped (satAdd tax more)).deeds =
      Function.update s.deeds c.name (topped.flat.map topped.deed) := by
    refine deeds_insert ?_
    rw [commitFlat_records]
    change OrdMap.insert _ r.name _ = _
    rw [hname]
    rfl
  rw [hwritten, htopped]
  simp only [Deeds.convey, hact, Option.map_some]

/-- **A reply does to the deeds what it conveys.** -/
theorem resumed_deeds (hX : E.auction.TaxLaws) (hs : s.Shape) {reply : Except Failure ℕ} {p : Pending}
    {pr : Progress} (hr : Resumed s now reply p s' pr) :
    s.deeds.follow (s.conveysReply now reply pr.accepted p) = some s'.deeds := by
  have hn := hs.named
  cases hr with
  | @pullFailed _ payer amount f hp hreply =>
      have hsame : (s.pullFailed payer amount f).deeds = s.deeds := by
        refine deeds_congr ?_
        simp only [State.pullFailed]
        split_ifs <;> rfl
      rw [hsame]
      cases hp with
      | buy => rfl
      | deposit => rfl
      | bid => simp [conveysReply, hreply, Except.isOk, Except.toBool, Deeds.follow]
  | bought _ hbuy => exact convey_bought hX hn hbuy
  | toppedUp _ hpay hflat htop => exact convey_toppedUp hX hn hpay hflat htop
  | @creditedBack _ payer amount block e hp hbid hreply =>
      have hsame : (s.dropInFlight.addCredit payer amount).deeds = s.deeds :=
        deeds_congr (addCredit_records _ _ _)
      rw [hsame]
      cases hp with
      | buy => rfl
      | deposit => rfl
      | bid c => exact absurd rfl (hbid c)
  | @placed c block s₁ replaced hreply hp =>
      subst hreply
      rw [deeds_congr (addCredit_records s₁ _ _)]
      exact deeds_placeBid hX (s := s.dropInFlight) hn hp
  | @bidRefused c block s₁ e hreply hp =>
      subst hreply
      rw [deeds_congr (addCredit_records s₁ _ _)]
      exact deeds_placeBid hX (s := s.dropInFlight) hn hp
  | paid => rfl
  | @payRefused _ caller amount =>
      have hsame : (s.addCredit caller amount).dropInFlight.deeds = s.deeds :=
        deeds_congr (addCredit_records s caller amount)
      rw [hsame]
      rfl
  | payUnconfirmed => rfl
  | feeRefused => rfl
  | feeAgreed => rfl
  | funded => rfl
  | fundRefused => rfl
  | fundCharged => rfl
  | fundUnconfirmed => rfl
  | configRefused => rfl
  | configSettled =>
      rw [deeds_settleAll hX hn]
      rfl
  | @configured c fee s₁ _ _ _ hs₁ =>
      have hsame : s₁.deeds = s.deeds := by
        subst hs₁
        split_ifs
        · exact deeds_settleAll hX hn _ _
        · rfl
      rw [← hsame]
      rfl

end State
