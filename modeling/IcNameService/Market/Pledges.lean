import IcNameService.Core.Simulation
import IcNameService.Market.Settling
import IcNameService.Market.Tenure

/-!
# What an auction holds

An auction holds, of each bidder, one deposit and the bid it was opened with.  Both are decided by the
accepted bids and reveals of the history since the auction was opened, whatever order they came in and
whatever was refused in between; and every deposit it holds was paid in by the bidder's own ledger pull.

* `State.pledgeOf` — what the auction of a name holds of a bidder.
* `closedFirst_pledgeOf`, `placeBid_pledgeOf`, `revealed_pledgeOf` — what each writer does to it.
* `World.rewrites` — what a message makes of it, read off the message and its answer.
* `World.pledges_replayed` — **what an auction holds is a replay of the history.**
-/

/-- What an auction holds of one bidder: the deposit, and the bid it was opened with. -/
structure Pledge where
  deposit : ℕ
  opened : Option (ℕ × Terms)
  deriving DecidableEq, Repr

/-- What a running auction holds of `p`. -/
def Running.pledgeOf {E : Env} (r : Running E) (p : Principal) : Option Pledge :=
  ((E.auction.bids r.auction).find? fun b => b.bidder = p.bytes).map fun b =>
    ⟨b.deposit, b.revealed.bind fun n =>
      (r.targets.find? fun t => t.1 = p.bytes).map fun t => (n, t.2)⟩

namespace State

variable {E : Env}

/-- What the auction of a name holds of `p`. -/
def pledgeOf (s : State E) (name : String) (p : Principal) : Option Pledge :=
  (s.auctions.get name).bind fun r => r.pledgeOf p

/-- There is an auction of the name, and its reveal phase is over. -/
def ended (s : State E) (name : String) (now : ℕ) : Bool :=
  (s.auctions.get name).any fun r => decide (E.auction.phase r.auction now = .closed)

variable {s s' : State E} {cfg : Config} {name other : String} {p : Principal} {now : ℕ}

lemma pledgeOf_congr (h : s'.auctions = s.auctions) (name : String) (p : Principal) :
    s'.pledgeOf name p = s.pledgeOf name p := by
  rw [pledgeOf, pledgeOf, h]

/-! ## The writers -/

/-- A name whose auction is closed has no auction. -/
lemma close_pledgeOf {c : Closed} (h : s.close cfg other now = (s', .ok c)) :
    s'.pledgeOf name p = if other = name then none else s.pledgeOf name p := by
  obtain ⟨r, o, holding, hclosed⟩ := close_ok h
  rw [pledgeOf, pledgeOf, hclosed.auctions]
  split_ifs with hname
  · subst hname
    rw [OrdMap.get_erase_self]
    rfl
  · rw [OrdMap.get_erase_ne _ (Ne.symm hname)]

/-- What is left of the auctions when one that has ended is closed first. -/
lemma closedFirst_pledgeOf (hV : E.auction.VickreyLaws) (h : ClosedFirst s cfg other now s') :
    s'.pledgeOf name p =
      if other = name ∧ s.ended other now = true then none else s.pledgeOf name p := by
  cases h with
  | running hrunning =>
      have hended : ¬ s.ended other now = true := by
        rw [ended, Option.any_eq_true]
        rintro ⟨r, hr, hover⟩
        exact hrunning r hr (of_decide_eq_true hover)
      rw [if_neg fun h => hended h.2]
  | ended hclose =>
      obtain ⟨r, o, holding, hclosed⟩ := close_ok hclose
      have hended : s.ended other now = true := by
        rw [ended, hclosed.stored, Option.any_some, decide_eq_true_iff]
        exact (hV.outcome_isOk _ _).mp ⟨o, hclosed.ended⟩
      rw [close_pledgeOf hclose, hended]
      simp

/-- An auction just opened holds nothing of anybody. -/
lemma bidAuction_pledgeOf (hV : E.auction.VickreyLaws) :
    (s.bidAuction cfg name now).pledgeOf p = s.pledgeOf name p := by
  rw [bidAuction, getAuction, pledgeOf]
  cases s.auctions.get name with
  | none => simp [Running.pledgeOf, hV.start_bids]
  | some r => rfl

lemma bidAuction_nodup (hV : E.auction.VickreyLaws) (h : OneBid s) :
    ((E.auction.bids (s.bidAuction cfg name now).auction).map Bid.bidder).Nodup := by
  rw [bidAuction, getAuction]
  cases hget : s.auctions.get name with
  | none => simp [hV.start_bids]
  | some r => exact h name r hget

/-- **A commitment** takes the place of its bidder's earlier one, and leaves those of the others. -/
lemma committed_pledgeOf (hV : E.auction.VickreyLaws) {r : Running E}
    (hnd : ((E.auction.bids r.auction).map Bid.bidder).Nodup) {bidder : Principal} {sealed : Bytes}
    {deposit : ℕ} {auction : E.auction.Auction} {replaced : Option ℕ}
    (h : E.auction.commit r.auction now bidder.bytes sealed deposit = .ok (auction, replaced)) :
    Running.pledgeOf { r with auction := auction } p =
      if bidder = p then some ⟨deposit, none⟩ else r.pledgeOf p := by
  obtain ⟨-, hperm, -⟩ := hV.commit_ok _ _ _ _ _ _ _ h
  have hnd' := (hperm.map Bid.bidder).nodup_iff.mp (Keyed.nodup_replace hnd hperm)
  rw [Running.pledgeOf, Keyed.find_perm hnd' hperm]
  split_ifs with hp
  · subst hp
    rw [List.find?_cons_of_pos (by simp)]
    rfl
  · have hne : bidder.bytes ≠ p.bytes := fun heq => hp (by cases bidder; cases p; cases heq; rfl)
    rw [List.find?_cons_of_neg (by simpa using hne), Keyed.find_filter_ne hne]
    rfl

/-- **A bid** that is placed is what the auction holds of its bidder. -/
lemma placeBid_pledgeOf (hV : E.auction.VickreyLaws) (hone : OneBid s) {bidder : Principal}
    {sealed : Bytes} {deposit : ℕ} {replaced : Option ℕ}
    (h : s.placeBid cfg other bidder sealed deposit now = (s', .ok replaced)) :
    s'.pledgeOf name p =
      if other = name then
        if bidder = p then some ⟨deposit, none⟩
        else if s.ended other now = true then none else s.pledgeOf name p
      else s.pledgeOf name p := by
  obtain ⟨s₁, auction, hfirst, -, hcommit, rfl⟩ := placeBid_ok h
  have hone₁ : OneBid s₁ := fun n r hr => hone n r (auctionWrite_closedFirst hfirst hr)
  have hleft := @closedFirst_pledgeOf _ _ _ _ name _ p _ hV hfirst
  by_cases hname : other = name
  · subst hname
    have hheld := @committed_pledgeOf _ p _ hV _ (bidAuction_nodup hV hone₁) _ _ _ _ _ hcommit
    rw [bidAuction_pledgeOf hV, hleft] at hheld
    rw [if_pos rfl, pledgeOf, putAuction, OrdMap.get_insert_self, Option.bind_some, hheld]
    simp
  · rw [if_neg fun h => hname h.1] at hleft
    rw [if_neg hname, pledgeOf, putAuction, OrdMap.get_insert_ne _ _ (Ne.symm hname)]
    exact hleft

/-- **A reveal** opens what the auction holds of its bidder, and moves nothing else. -/
lemma revealed_pledgeOf (hV : E.auction.VickreyLaws) {bidder : Principal} {amount : ℕ} {salt : Bytes}
    {aliasTo : String} {old r : Running E} (hget : s.auctions.get name = some old)
    (h : s.revealed cfg name bidder amount salt aliasTo now = .ok r) :
    r.pledgeOf p = if bidder = p then
        (old.pledgeOf p).map fun x => { x with opened := some (amount, ⟨aliasTo, minDeposit E cfg amount⟩) }
      else old.pledgeOf p := by
  obtain ⟨old', hget', hreveal, -, htargets⟩ := revealed_ok h
  obtain rfl : old' = old := Option.some.inj (hget'.symm.trans hget)
  obtain ⟨-, -, hbids⟩ := hV.reveal_ok _ _ _ _ _ _ hreveal
  have hfind : ∀ f : Bid → Bid, (∀ b, (f b).bidder = b.bidder) →
      ((E.auction.bids old'.auction).map f).find? (fun b => b.bidder = p.bytes) =
        ((E.auction.bids old'.auction).find? fun b => b.bidder = p.bytes).map f := by
    intro f hf
    rw [List.find?_map]
    simp only [Function.comp_def, hf]
  rw [Running.pledgeOf, Running.pledgeOf, hbids, htargets, hfind _ fun b => by split_ifs <;> rfl,
    Option.map_map]
  by_cases hp : bidder = p
  · subst hp
    rw [if_pos rfl, Option.map_map]
    cases hb : (E.auction.bids old'.auction).find? fun b => b.bidder = bidder.bytes with
    | none => rfl
    | some b =>
        have hbidder : b.bidder = bidder.bytes := by simpa using List.find?_some hb
        have hnone : (old'.targets.filter fun t => t.1 ≠ bidder.bytes).find?
            (fun t => t.1 = bidder.bytes) = none := by
          rw [List.find?_eq_none]
          intro t ht
          simpa using (List.mem_filter.mp ht).2
        simp only [Option.map_some, Function.comp_apply, if_pos hbidder, Option.bind_some,
          List.find?_append, hnone, Option.none_or, List.find?_singleton, decide_true, if_true]
  · have hne : bidder.bytes ≠ p.bytes := fun heq => hp (by cases bidder; cases p; cases heq; rfl)
    rw [if_neg hp, List.find?_append, Keyed.find_filter_ne hne]
    cases hb : (E.auction.bids old'.auction).find? fun b => b.bidder = p.bytes with
    | none => rfl
    | some b =>
        have hbidder : b.bidder = p.bytes := by simpa using List.find?_some hb
        simp [hbidder, Ne.symm hne, hne]

/-! ## The messages -/

/-- What an accepted call makes of what the auction of a name holds of `p`. -/
def rewritesCall (s : State E) (cx : Ctx) (name : String) (p : Principal) :
    Call → Option Pledge → Option Pledge
  | .closeAuction n, x => if n = name then none else x
  | .reveal n amount _ aliasTo, x =>
      if n = name ∧ cx.caller = p then
        x.map fun y => { y with opened := some (amount, ⟨aliasTo, minDeposit E s.config amount⟩) }
      else x
  | _, x => x

/-- What a bid makes of it whose deposit has been pulled.  An auction that has ended is closed first,
whether the bid is then placed or not. -/
def rewritesBid (s : State E) (now : ℕ) (c : BidCall) (accepted : Bool) (name : String)
    (p : Principal) (x : Option Pledge) : Option Pledge :=
  if c.name = name then
    if accepted ∧ c.caller = p then some ⟨c.deposit, none⟩
    else if s.ended c.name now then none else x
  else x

/-- **What a call makes of what an auction holds.** -/
lemma called_pledgeOf (hV : E.auction.VickreyLaws) {cx : Ctx} {c : Call} {pr : Progress}
    (h : Called s cx c s' pr) :
    s'.pledgeOf name p = if pr.accepted then s.rewritesCall cx name p c (s.pledgeOf name p)
      else s.pledgeOf name p := by
  cases h with
  | refused => rfl
  | administered ha => cases ha <;> rfl
  | announced _ _ _ _ ha =>
      simp only [Progress.accepted, if_true, rewritesCall]
      cases ha
      · exact pledgeOf_congr (commit_auctions _ _) name p
      · exact pledgeOf_congr (commit_auctions _ _) name p
  | underHandle _ _ _ hw =>
      cases hw <;>
        · simp only [Progress.accepted, if_true, rewritesCall]
          exact pledgeOf_congr (commit_auctions _ _) name p
  | amended _ ha =>
      have hsame : ∀ (r : Record) (tax : ℕ), (s.commitFlat r tax).auctions = s.auctions :=
        fun r tax => by rw [commitFlat, commit_auctions, noteTaxCollected_auctions]
      cases ha <;>
        · simp only [Progress.accepted, if_true, rewritesCall]
          exact pledgeOf_congr (hsame _ _) name p
  | discarded => exact pledgeOf_congr rfl name p
  | released =>
      simp only [Progress.accepted, if_true, rewritesCall]
      refine pledgeOf_congr ?_ name p
      rw [release_eq]
      change State.auctions (paidOut _ _ _) = _
      rw [paidOut, addCredit_auctions, noteTaxCollected_auctions]
  | @revealed other aliasTo amount salt r _ hr =>
      obtain ⟨old, hold, -⟩ := revealed_ok hr
      have hopened := @revealed_pledgeOf _ _ _ _ p _ hV _ _ _ _ _ _ hold hr
      simp only [Progress.accepted, if_true, rewritesCall]
      by_cases hname : other = name
      · subst hname
        rw [pledgeOf, pledgeOf, putAuction, OrdMap.get_insert_self, hold, Option.bind_some,
          Option.bind_some, hopened]
        simp
      · rw [pledgeOf, putAuction, OrdMap.get_insert_ne _ _ (Ne.symm hname), if_neg fun h => hname h.1]
        rfl
  | closed hclose => exact close_pledgeOf hclose
  | pulling => exact pledgeOf_congr rfl name p
  | withdrawing _ _ ht =>
      obtain ⟨-, credits, rfl, -⟩ := takeCredit_ok ht
      exact pledgeOf_congr rfl name p
  | funding => exact pledgeOf_congr rfl name p
  | configuring => rfl

/-- Every auction that has ended can be closed, under any config. -/
def Closable (s : State E) (now : ℕ) : Prop :=
  ∀ name r cfg, s.auctions.get name = some r → E.auction.phase r.auction now = .closed →
    ∃ o holding, E.auction.outcome r.auction now = .ok o ∧
      winnerHolding r (winnerIf o (s.lapsedRecord cfg name now).2) = .ok holding

/-- Where an ended auction can be closed, it is closed before a bid is refused too. -/
lemma closedFirst_of_placeBid (hcan : s.Closable now) {bidder : Principal} {sealed : Bytes}
    {deposit : ℕ} {e : String}
    (h : s.placeBid cfg other bidder sealed deposit now = (s', .error e)) :
    ClosedFirst s cfg other now s' := by
  simp only [placeBid] at h
  rcases hc : s.closeEnded cfg other now with ⟨s₁, res⟩
  rw [hc] at h
  cases res with
  | ok _ =>
      have hfirst := closeEnded_ok hc
      simp only [attempt] at h
      split at h
      · cases h
        exact hfirst
      · split at h
        · cases h
          exact hfirst
        · cases h
  | error e' =>
      -- the close would have had to fail
      simp only [closeEnded] at hc
      split at hc
      · cases hc
      · rename_i r hget
        split_ifs at hc with hover
        · obtain ⟨o, holding, ho, hholding⟩ := hcan other r cfg hget hover
          obtain ⟨s₂, c, hclose⟩ := close_isOk hget ho hholding
          rw [hclose] at hc
          cases hc
        · cases hc

/-- What a ledger reply makes of what the auction of a name holds of `p`. -/
def rewritesReply (s : State E) (now : ℕ) (reply : Except Failure ℕ) (accepted : Bool)
    (name : String) (p : Principal) : Pending → Option Pledge → Option Pledge
  | .bid c, x =>
      match reply with
      | .ok _ => s.rewritesBid now c accepted name p x
      | .error _ => x
  | _, x => x

/-- **What a ledger reply makes of what an auction holds.** -/
lemma resumed_pledgeOf (hV : E.auction.VickreyLaws) (hone : OneBid s) (hcan : s.Closable now)
    {reply : Except Failure ℕ} {q : Pending} {pr : Progress} (h : Resumed s now reply q s' pr) :
    s'.pledgeOf name p =
      s.rewritesReply now reply pr.accepted name p q (s.pledgeOf name p) := by
  cases h with
  | @pullFailed _ payer amount f hp hreply =>
      have hsame : (s.pullFailed payer amount f).auctions = s.auctions := by
        rw [State.pullFailed]
        split_ifs <;> rfl
      cases hp with
      | bid c =>
          simp only [rewritesReply, hreply]
          exact pledgeOf_congr hsame name p
      | buy c => exact pledgeOf_congr hsame name p
      | deposit c => exact pledgeOf_congr hsame name p
  | bought => exact pledgeOf_congr (bought_auctions _ _ _ _ _) name p
  | toppedUp =>
      refine pledgeOf_congr ?_ name p
      rw [commitFlat, commit_auctions, noteTaxCollected_auctions]
      rfl
  | @creditedBack _ payer amount _ _ hp hbid =>
      have hsame := pledgeOf_congr (s.dropInFlight.addCredit_auctions payer amount) name p
      cases hp with
      | bid c => exact absurd rfl (hbid c)
      | buy c => exact hsame
      | deposit c => exact hsame
  | @placed c block s₁ replaced hreply hp =>
      have hplaced := @placeBid_pledgeOf _ s.dropInFlight _ _ name _ p _ hV hone _ _ _ _ hp
      rw [pledgeOf_congr (addCredit_auctions _ _ _) name p, hplaced]
      simp only [rewritesReply, hreply, rewritesBid, Progress.accepted, true_and]
      rfl
  | @bidRefused c block s₁ e hreply hp =>
      have hfirst := closedFirst_of_placeBid (s := s.dropInFlight) hcan hp
      have hleft := @closedFirst_pledgeOf _ s.dropInFlight _ _ name _ p _ hV hfirst
      rw [pledgeOf_congr (addCredit_auctions _ _ _) name p, hleft]
      simp only [rewritesReply, hreply, rewritesBid, Progress.accepted, Bool.false_eq_true, false_and,
        if_false]
      by_cases hname : c.name = name
      · simp only [hname, true_and, if_true]
        rfl
      · simp only [hname, false_and, if_false]
        rfl
  | paid => exact pledgeOf_congr rfl name p
  | payRefused => exact pledgeOf_congr (s.addCredit_auctions _ _) name p
  | payUnconfirmed => exact pledgeOf_congr rfl name p
  | feeRefused => exact pledgeOf_congr rfl name p
  | feeAgreed => exact pledgeOf_congr rfl name p
  | funded => exact pledgeOf_congr rfl name p
  | fundRefused => exact pledgeOf_congr rfl name p
  | fundCharged => exact pledgeOf_congr rfl name p
  | fundUnconfirmed => exact pledgeOf_congr rfl name p
  | configRefused => rfl
  | configSettled => exact pledgeOf_congr (settleAll_auctions _ _ _) name p
  | configured _ _ _ hs' =>
      subst hs'
      refine pledgeOf_congr ?_ name p
      change State.auctions (if _ then _ else _) = _
      split_ifs
      · exact settleAll_auctions _ _ _
      · rfl

end State

namespace World

variable {E : Env} {w w' : World E} {tr : History E} {name : String} {p : Principal}

/-- What a message makes of what the auction of a name holds of `p`. -/
def rewrites (name : String) (p : Principal) (e : Entry (World E) Event Output)
    (x : Option Pledge) : Option Pledge :=
  match e.event with
  | .call cx c => if answer e.out then e.pre.canister.rewritesCall cx name p c x else x
  | .reply now id r _ =>
      match e.pre.pending.get id with
      | some q => e.pre.canister.rewritesReply now r (answer e.out) name p q x
      | none => x
  | .upgrade _ => x

/-- In every state a lawful history reaches, every auction that has ended can be closed. -/
lemma run_closable (hX : E.auction.TaxLaws) (hV : E.auction.VickreyLaws)
    (hO : E.auction.OutcomeLaws) (h : Run (machine E) lawful init tr w) (now : ℕ) :
    w.canister.Closable now := by
  intro name r cfg hget hover
  obtain ⟨o, ho⟩ := (hV.outcome_isOk r.auction now).mpr hover
  have hnd := (run_balanced hX hV h).tidy.oneBid name r hget
  have hwin : State.winnerIf o (w.canister.lapsedRecord cfg name now).2 = none ∨
      State.winnerIf o (w.canister.lapsedRecord cfg name now).2 = o.winner := by
    cases (w.canister.lapsedRecord cfg name now).2 with
    | true => exact Or.inr (State.winnerIf_true o)
    | false => exact Or.inl (by simp [State.winnerIf])
  obtain ⟨holding, hholding, -⟩ := State.winnerHolding_ok hO (run_termed hX hV h hget) hnd ho hwin
  exact ⟨o, holding, ho, hholding⟩

/-- **One message** makes of what an auction holds what `rewrites` says. -/
lemma stepped_pledgeOf (hV : E.auction.VickreyLaws) (hone : w.canister.OneBid)
    (hcan : ∀ now, w.canister.Closable now) {e : Event} {o : Output} (hs : Stepped w e w' o) :
    w'.canister.pledgeOf name p =
      rewrites name p ⟨w, e, o, w'⟩ (w.canister.pledgeOf name p) := by
  cases hs with
  | @answered cx c s r _ hc =>
      have hcalled := @State.called_pledgeOf _ _ _ name p hV _ _ _ hc
      rwa [← answer_done] at hcalled
  | suspended _ hc => exact State.called_pledgeOf hV hc
  | @resumed now id r moved q s reply _ hget hr =>
      have hresumed := @State.resumed_pledgeOf _ _ _ name p _ hV hone (hcan now) _ _ _ hr
      simp only [rewrites, hget]
      rwa [← answer_done] at hresumed
  | continued _ hget =>
      simp only [rewrites, hget]
      rfl
  | upgraded => rfl

/-- The entry is a bid by `p` on the name that was accepted, and its pull moved exactly the deposit. -/
def PaidIn (e : Entry (World E) Event Output) (name : String) (p : Principal) (deposit : ℕ) : Prop :=
  ∃ now id block c, e.event = .reply now id (.ok block) deposit ∧
    e.pre.pending.get id = some (.bid c) ∧ c.name = name ∧ c.caller = p ∧ c.deposit = deposit ∧
    answer e.out = true

/-- A message leaves the deposit an auction holds of `p`, or is the bid that pays it in. -/
lemma rewrites_eq_some {e : Entry (World E) Event Output} (hok : lawful e.pre e.event)
    {x : Option Pledge} {y : Pledge} (h : rewrites name p e x = some y) :
    (∃ z, x = some z ∧ z.deposit = y.deposit) ∨ PaidIn e name p y.deposit := by
  obtain ⟨pre, event, out, post⟩ := e
  cases event with
  | upgrade => exact Or.inl ⟨y, h, rfl⟩
  | call cx c =>
      simp only [rewrites] at h
      split_ifs at h with haccepted
      · cases c with
        | closeAuction n =>
            simp only [State.rewritesCall] at h
            split_ifs at h
            exact Or.inl ⟨y, h, rfl⟩
        | reveal n amount salt aliasTo =>
            simp only [State.rewritesCall] at h
            split_ifs at h
            · obtain ⟨z, hz, rfl⟩ := Option.map_eq_some_iff.mp h
              exact Or.inl ⟨z, hz, rfl⟩
            · exact Or.inl ⟨y, h, rfl⟩
        | _ => exact Or.inl ⟨y, h, rfl⟩
      · exact Or.inl ⟨y, h, rfl⟩
  | reply now id r moved =>
      simp only [rewrites] at h
      cases hget : pre.pending.get id with
      | none =>
          rw [hget] at h
          exact Or.inl ⟨y, h, rfl⟩
      | some q =>
          rw [hget] at h
          cases q with
          | bid c =>
              cases r with
              | error f => exact Or.inl ⟨y, h, rfl⟩
              | ok block =>
                  simp only [State.rewritesReply, State.rewritesBid] at h
                  split_ifs at h with hname hmine
                  · cases h
                    have hmoved : moved = c.deposit := by
                      have hlaw := (hok (.bid c) hget).1
                      simpa [ledgerLaw, pullLaw] using hlaw
                    exact Or.inr ⟨now, id, block, c, by rw [hmoved], hget, hname, hmine.2, rfl,
                      hmine.1⟩
                  · exact Or.inl ⟨y, h, rfl⟩
                  · exact Or.inl ⟨y, h, rfl⟩
          | _ => exact Or.inl ⟨y, h, rfl⟩

/-- **What an auction holds is a replay of the history.**  In every lawful history, what the auction of a
name holds of a principal, the deposit and the bid it was opened with, is what the accepted bids, reveals
and closes of the history make of it in order; each deposit was paid in by a bid of that principal whose
pull moved exactly it; and no bidder has two. -/
theorem pledges_replayed (hX : E.auction.TaxLaws) (hV : E.auction.VickreyLaws)
    (hO : E.auction.OutcomeLaws) (h : Run (machine E) lawful init tr w) (name : String) :
    (∀ p, w.canister.pledgeOf name p = tr.foldr (rewrites name p) none) ∧
    (∀ p x, w.canister.pledgeOf name p = some x → ∃ e ∈ tr, PaidIn e name p x.deposit) ∧
    ∀ r, w.canister.auctions.get name = some r →
      ((E.auction.bids r.auction).map Bid.bidder).Nodup := by
  have hstep : ∀ {p tr} {w : World E} {e w' o}, Run (machine E) lawful init tr w → lawful w e →
      (machine E).step w e = some (w', o) → w'.canister.pledgeOf name p =
        rewrites name p ⟨w, e, o, w'⟩ (w.canister.pledgeOf name p) := fun hr hok hs =>
    stepped_pledgeOf hV (run_balanced hX hV hr).tidy.oneBid (run_closable hX hV hO hr)
      (stepped_of_step (run_schema rfl hr) hs)
  refine ⟨fun p => ?_, fun p => ?_, (run_balanced hX hV h).tidy.oneBid name⟩
  · exact Run.replay hstep h
  · induction h with
    | nil =>
        intro x hx
        cases hx
    | @snoc tr w w' e o hr hok hs ih =>
        intro x hx
        rw [hstep hr hok hs] at hx
        rcases rewrites_eq_some hok hx with ⟨z, hz, hdeposit⟩ | hpaid
        · obtain ⟨e', he', hpaid⟩ := ih z hz
          exact ⟨e', List.mem_cons_of_mem _ he', hdeposit ▸ hpaid⟩
        · exact ⟨_, List.mem_cons_self, hpaid⟩

/-- One of three bidders: the deposit is paid in, and the bid is opened. -/
theorem pledges_replayed_ended : ∃ (tr : History Env.reference) (w : World Env.reference)
    (x : Pledge), Run (machine Env.reference) lawful init tr w ∧
      tr.reverse.map Entry.event = Script.ended ∧
      tr.foldr (rewrites "abc" ⟨[2]⟩) none = some x ∧ x.deposit = 2 * Script.cyclePerNs ∧
      x.opened.map Prod.fst = some Script.cyclePerNs ∧
      ∃ e ∈ tr, PaidIn e "abc" ⟨[2]⟩ (2 * Script.cyclePerNs) := by
  obtain ⟨tr, w, hr, hevents, hdeposit, hopened⟩ := Machine.exists_run_of_exec
    (machine Env.reference) lawful init Script.ended (fun _ w =>
      (w.canister.pledgeOf "abc" ⟨[2]⟩).map Pledge.deposit = some (2 * Script.cyclePerNs) ∧
        ((w.canister.pledgeOf "abc" ⟨[2]⟩).bind Pledge.opened).map Prod.fst = some Script.cyclePerNs)
    (by decide +kernel)
  obtain ⟨hreplay, hpaid, -⟩ := pledges_replayed Reference.auction_taxLaws
    Reference.auction_vickreyLaws Reference.auction_outcomeLaws hr "abc"
  obtain ⟨x, hx, hsum⟩ := Option.map_eq_some_iff.mp hdeposit
  rw [hx] at hopened
  obtain ⟨e, he, hin⟩ := hpaid _ x hx
  exact ⟨tr, w, x, hr, hevents, (hreplay _).symm.trans hx, hsum, hopened, e, he, hsum ▸ hin⟩

end World
