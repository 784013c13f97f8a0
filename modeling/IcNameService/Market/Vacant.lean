import IcNameService.Market.Settlements

/-!
# A name under auction is free

`LapsedBy` is the lapse clock read off a stored record: it ran out, and its grace is over.  `Vacant`
says that every name under auction has no record or a lapsed one, under the config that matters.

* `settled_free_iff` — a record settles to free exactly when it has lapsed.
* `LapsedBy.settled`, `LapsedBy.mono` — lapsing lasts: over time, over a settlement, and over any
  config with no longer grace.
* `Dated` — what a payment that resumes with an older config must find; `Vacant.dated` — with the stored
  config it finds it.
* `called_vacant`, `resumed_vacant`, `reconfigured_vacant` — no message hands a name under auction to
  anyone.
-/

/-- The record ran out of balance, and its grace period has gone by. -/
def Record.LapsedBy (lapse : ℕ → Harberger → ℕ → Option ℕ) (cfg : Config) (now : ℕ) (r : Record) :
    Prop :=
  ∃ h t, r.flat = some h ∧ lapse cfg.rateBps h now = some t ∧ t + cfg.graceNs ≤ now

section

variable {E : Env} {lapse : ℕ → Harberger → ℕ → Option ℕ} (hL : E.auction.LapseLaws lapse)
  {cfg cfg' : Config} {now now' : ℕ} {r : Record}

include hL

/-- **A record settles to free exactly when it has lapsed.** -/
lemma settled_free_iff :
    (settleRecord E cfg r now).2.1 = .free ↔ r.LapsedBy lapse cfg now := by
  cases hr : r.flat with
  | none =>
      rw [settleRecord_none cfg now hr]
      constructor
      · intro h
        cases h
      · rintro ⟨h, t, hh, -, -⟩
        rw [hr] at hh
        cases hh
  | some h =>
      rw [settleRecord_flat cfg now hr]
      simp only
      rw [hL.settle_status]
      change IcAuction.statusAt (lapse cfg.rateBps h now) cfg.graceNs now = .free ↔ _
      constructor
      · intro hfree
        cases hl : lapse cfg.rateBps h now with
        | none => simp [hl, IcAuction.statusAt] at hfree
        | some t =>
            refine ⟨h, t, hr, hl, ?_⟩
            by_contra hnot
            rw [hl] at hfree
            simp only [IcAuction.statusAt] at hfree
            split_ifs at hfree
            omega
      · rintro ⟨h', t, hh, hl, hle⟩
        rw [hr] at hh
        cases hh
        simp only [hl, IcAuction.statusAt]
        rw [if_neg (by omega)]

lemma Record.LapsedBy.mono (h : r.LapsedBy lapse cfg now) (hle : now ≤ now') :
    r.LapsedBy lapse cfg now' := by
  obtain ⟨x, t, hx, hl, ht⟩ := h
  exact ⟨x, t, hx, hL.lapse_mono _ _ _ _ _ hl hle, ht.trans hle⟩

omit hL in
/-- At the same rate, a grace period that is no longer is over too. -/
lemma Record.LapsedBy.shorter (h : r.LapsedBy lapse cfg now) (hrate : cfg'.rateBps = cfg.rateBps)
    (hgrace : cfg'.graceNs ≤ cfg.graceNs) : r.LapsedBy lapse cfg' now := by
  obtain ⟨x, t, hx, hl, ht⟩ := h
  exact ⟨x, t, hx, by rw [hrate, hl], by omega⟩

/-- A lapse that a settlement wrote down no later rate moves. -/
lemma Record.LapsedBy.settled (h : r.LapsedBy lapse cfg now) (hgrace : cfg'.graceNs ≤ cfg.graceNs)
    (old : Config) (hrate : old.rateBps = cfg.rateBps) :
    (settleRecord E old r now).1.LapsedBy lapse cfg' now := by
  obtain ⟨x, t, hx, hl, ht⟩ := h
  rw [settleRecord_flat old now hx]
  refine ⟨_, t, rfl, hL.lapse_settle old.params x now now t ?_ le_rfl cfg'.rateBps, by omega⟩
  change lapse old.rateBps x now = some t
  rw [hrate, hl]

/-- A name is not lost in the message that hands it over. -/
lemma not_lapsedBy_holding {price balance : ℕ}
    (hflat : r.flat = some (E.auction.holding price balance now)) : ¬ r.LapsedBy lapse cfg now := by
  rintro ⟨x, t, hx, hl, -⟩
  rw [hflat] at hx
  cases hx
  rw [hL.lapse_holding] at hl
  cases hl

end

namespace State

variable {E : Env} {lapse : ℕ → Harberger → ℕ → Option ℕ}

/-- Every name under auction has no record, or a lapsed one. -/
def Vacant (lapse : ℕ → Harberger → ℕ → Option ℕ) (cfg : Config) (now : ℕ) (s : State E) : Prop :=
  ∀ name r old, s.auctions.get name = some r → s.records.get name = some old →
    old.LapsedBy lapse cfg now

section

variable {s s' : State E} {cfg cfg' : Config} {now now' : ℕ}

lemma Vacant.mono (hL : E.auction.LapseLaws lapse) (h : Vacant lapse cfg now s) (hle : now ≤ now') :
    Vacant lapse cfg now' s :=
  fun name r old ha hr => (h name r old ha hr).mono hL hle

lemma Vacant.congr (h : Vacant lapse cfg now s) (hr : s'.records = s.records)
    (ha : s'.auctions = s.auctions) : Vacant lapse cfg now s' := fun name r old hauc hrec =>
  h name r old (ha ▸ hauc) (hr ▸ hrec)

/-- Writing a record under a name without an auction. -/
lemma Vacant.commit (h : Vacant lapse cfg now s) {r : Record}
    (hfree : s.auctions.get r.name = none) : Vacant lapse cfg now (s.commit r) := by
  intro name a old hauc hrec
  rw [commit_auctions] at hauc
  rw [commit_records] at hrec
  rcases OrdMap.get_insert_eq_some.mp hrec with ⟨rfl, rfl⟩ | ⟨-, hrec⟩
  · rw [hfree] at hauc
    cases hauc
  · exact h name a old hauc hrec

lemma Vacant.commitFlat (h : Vacant lapse cfg now s) {r : Record} (tax : ℕ)
    (hfree : s.auctions.get r.name = none) : Vacant lapse cfg now (s.commitFlat r tax) := by
  refine Vacant.commit (h.congr (noteTaxCollected_records s tax) (noteTaxCollected_auctions s tax))
    ?_
  rw [noteTaxCollected_auctions]
  exact hfree

lemma Vacant.discard (h : Vacant lapse cfg now s) (name : String) (r : Record) :
    Vacant lapse cfg now (((s.eraseRecord name).unindex r).certifyRemove name) := by
  intro name' a old hauc hrec
  obtain ⟨-, hrec⟩ := OrdMap.get_erase_eq_some.mp hrec
  exact h name' a old hauc hrec

lemma Vacant.put (h : Vacant lapse cfg now s) {name : String} (a : Running E)
    (hname : ∀ old, s.records.get name = some old → old.LapsedBy lapse cfg now) :
    Vacant lapse cfg now (s.putAuction name a) := by
  intro name' a' old hauc hrec
  rcases OrdMap.get_insert_eq_some.mp hauc with ⟨rfl, -⟩ | ⟨-, hauc⟩
  · exact hname old hrec
  · exact h name' a' old hauc hrec

/-! ## Closing -/

/-- A close takes the auction away before anyone holds the name. -/
lemma Vacant.close (hn : s.Named) (h : Vacant lapse cfg now s) {name : String} {c : Closed}
    (hclose : s.close cfg' name now' = (s', .ok c)) : Vacant lapse cfg now s' := by
  obtain ⟨r, outcome, holding, hc⟩ := close_ok hclose
  intro name' a old hauc hrec
  rw [hc.auctions] at hauc
  obtain ⟨hne, hauc⟩ := OrdMap.get_erase_eq_some.mp hauc
  refine h name' a old hauc ?_
  rw [hc.records] at hrec
  cases holding with
  | none => exact hrec
  | some x =>
      rwa [wonRecords, hn.wonAs_name, OrdMap.get_insert_ne _ _ hne] at hrec

lemma Vacant.closedFirst (hn : s.Named) (h : Vacant lapse cfg now s) {name : String}
    (hc : ClosedFirst s cfg' name now' s') : Vacant lapse cfg now s' := by
  cases hc with
  | running => exact h
  | ended hclose => exact h.close hn hclose

/-! ## Bidding -/

/-- A bid is taken on a running auction, or on a name nobody holds. -/
lemma checkBid_ok {name : String} {deposit : ℕ} (h : s.checkBid cfg name deposit now = .ok ()) :
    (∃ r, s.auctions.get name = some r) ∨ s.holder cfg name now = none := by
  obtain ⟨reserve, hreserve, -⟩ := Except.bind_eq_ok.mp h
  simp only [bidReserve] at hreserve
  split at hreserve
  · rename_i r hget
    exact Or.inl ⟨r, hget⟩
  · split at hreserve
    · cases hreserve
    · rename_i hholder
      exact Or.inr hholder

variable (hL : E.auction.LapseLaws lapse)

include hL

/-- Nobody holds a name exactly when its record, if any, has lapsed. -/
lemma holder_eq_none {name : String} : s.holder cfg name now = none ↔
    ∀ old, s.records.get name = some old → old.LapsedBy lapse cfg now := by
  simp only [holder, getRecord]
  cases hget : s.records.get name with
  | none => simp
  | some old =>
      simp only [Option.some.injEq, forall_eq']
      rw [← settled_free_iff hL]
      split_ifs with hfree
      · simp [hfree]
      · simpa using hfree

/-- Closing the auction of a vacant name finds it free. -/
lemma Vacant.lapsedRecord_free (h : Vacant lapse cfg now s) {name : String} {r : Running E}
    (hget : s.auctions.get name = some r) : (s.lapsedRecord cfg name now).2 = true := by
  simp only [lapsedRecord, getRecord]
  cases hrec : s.records.get name with
  | none => rfl
  | some old =>
      have hfree := (settled_free_iff hL).mpr (h name r old hget hrec)
      simp only [hfree, if_true]

/-- A vacant name under auction does not settle to anything that is held. -/
lemma Vacant.not_seen (h : Vacant lapse cfg now s) {name : String} {old r : Record} {x : Harberger}
    {tax : ℕ} {snap : Snapshot} (hseen : Seen s cfg name now old x r tax snap)
    (hstatus : snap.status ≠ .free) : s.auctions.get name = none := by
  cases hget : s.auctions.get name with
  | none => rfl
  | some a =>
      have hfree := (settled_free_iff hL).mpr (h name a old hget hseen.stored)
      rw [hseen.snap_eq] at hstatus
      exact absurd hfree hstatus

/-- **A bid is placed on a name nobody holds**, given that where one with an older config opens an auction,
the name is free by the stored config too. -/
lemma Vacant.placeBid (hn : s.Named) (h : Vacant lapse cfg now s) {name : String}
    {bidder : Principal} {commitment : Bytes} {deposit : ℕ} {res : Except String (Option ℕ)}
    (hdated : s.auctions.get name = none → (s.checkBid cfg' name deposit now).isOk = true →
      s.holder cfg name now = none)
    (hp : s.placeBid cfg' name bidder commitment deposit now = (s', res)) :
    Vacant lapse cfg now s' := by
  cases res with
  | error e =>
      rcases placeBid_error hp with rfl | hc
      · exact h
      · exact h.closedFirst hn hc
  | ok replaced =>
      obtain ⟨s₁, auction, hc, hcheck, -, rfl⟩ := placeBid_ok hp
      have h₁ := h.closedFirst hn hc
      refine h₁.put _ fun old hold => ?_
      rcases checkBid_ok hcheck with ⟨r, hget⟩ | hholder
      · exact h₁ name r old hget hold
      · have hlapsed := (holder_eq_none hL).mp hholder old hold
        cases hc with
        | running _ =>
            cases hget : s.auctions.get name with
            | none =>
                have hok : (s.checkBid cfg' name deposit now).isOk = true := by
                  rw [hcheck]
                  rfl
                exact (holder_eq_none hL).mp (hdated hget hok) old hold
            | some r => exact h name r old hget hold
        | ended hclose =>
            obtain ⟨r, outcome, holding, hc⟩ := close_ok hclose
            rw [hc.records] at hold
            cases holding with
            | none => exact h name r old hc.stored hold
            | some x =>
                -- the winner holds the name, so the bid would have been refused
                rw [wonRecords, hn.wonAs_name, OrdMap.get_insert_self] at hold
                cases hold
                exact absurd hlapsed (not_lapsedBy_holding hL rfl)

/-- Nobody who holds a name finds it under auction. -/
lemma Vacant.no_auction (h : Vacant lapse cfg now s) {name : String} {old : Record}
    (hget : s.records.get name = some old)
    (hheld : (settleRecord E cfg old now).2.1 ≠ .free) : s.auctions.get name = none := by
  cases ha : s.auctions.get name with
  | none => rfl
  | some r => exact absurd ((settled_free_iff hL).mpr (h name r old ha hget)) hheld

/-! ## Every message -/

omit hL in
/-- No auction runs under a scoped name. -/
lemma Shape.no_auction (hs : s.Shape) {name : String} {p : String × String}
    (hname : Names.split name = .ok p) : s.auctions.get name = none := by
  cases ha : s.auctions.get name with
  | none => rfl
  | some r =>
      have hflat := Names.isScoped_of_checkFlat (hs.auctions name r ha).1
      rw [Names.isScoped_of_split hname] at hflat
      cases hflat

theorem called_vacant (hs : s.Shape) {cx : Ctx} {c : Call} {p : Progress}
    (h : Vacant lapse s.config cx.now s) (hc : Called s cx c s' p) :
    Vacant lapse s.config cx.now s' := by
  have hn := hs.named
  cases hc with
  | refused => exact h
  | administered ha => cases ha <;> exact h.congr rfl rfl
  | announced _ _ _ _ ha =>
      cases ha with
      | fresh hsplit =>
          refine Vacant.commit (h.congr rfl rfl) ?_
          rw [hn.announceRecord_name]
          exact hs.no_auction hsplit
      | allowed hsplit =>
          refine h.commit ?_
          rw [hn.announceRecord_name]
          exact hs.no_auction hsplit
  | underHandle hsplit _ _ hw =>
      refine h.commit ?_
      rw [hn.scopedWrite_name hw]
      exact hs.no_auction hsplit
  | @amended _ name old r hheld ha =>
      refine h.commitFlat _ ?_
      rw [amendment_name ha, settleRecord_name, hn _ _ hheld.stored]
      exact h.no_auction hL hheld.stored hheld.notFree
  | discarded => exact h.discard _ _
  | @released name old =>
      rw [release_eq]
      refine Vacant.discard ?_ _ _
      exact h.congr (sameRecords_paidOut s _ _).records
        (by simp only [paidOut]; rw [addCredit_auctions, noteTaxCollected_auctions])
  | revealed _ hr =>
      obtain ⟨old, hget, -, -, -⟩ := revealed_ok hr
      exact h.put _ fun rec_ hrec => h _ old rec_ hget hrec
  | closed hclose => exact h.close hn hclose
  | pulling => exact h.congr rfl rfl
  | withdrawing _ _ ht =>
      obtain ⟨-, credits, rfl, -⟩ := takeCredit_ok ht
      exact h.congr rfl rfl
  | funding => exact h.congr rfl rfl
  | configuring => exact h

end

/-! ## Replies -/

/-- What a payment that resumes with the config its call read must find.  A purchase that still sees what
its call saw is of a name that is not under auction.  A bid that opens an auction opens it on a name that
is free by the stored config too, and one that closes an auction with a winner finds the name free by its
own. -/
def Dated (s : State E) (now : ℕ) : Pending → Prop
  | .buy c => s.StillSees now (.buy c) → s.auctions.get c.name = none
  | .deposit c => s.StillSees now (.deposit c) → s.auctions.get c.name = none
  | .bid c =>
      (s.auctions.get c.name = none → (s.checkBid c.cfg c.name c.deposit now).isOk = true →
        s.holder s.config c.name now = none) ∧
      ∀ r ∈ s.auctions.get c.name, ∀ o ∈ (E.auction.outcome r.auction now).toOption,
        o.winner.isSome = true → (s.lapsedRecord c.cfg c.name now).2 = true
  | _ => True

section

variable {s s' : State E} {cfg : Config} {now : ℕ} (hL : E.auction.LapseLaws lapse)

include hL

/-- **A payment that carries the stored config is dated.** -/
theorem Vacant.dated (h : Vacant lapse s.config now s) {p : Pending}
    (hsame : ∀ cfg ∈ p.carriedConfig, cfg = s.config) : s.Dated now p := by
  cases p with
  | buy c =>
      have hcfg : c.cfg = s.config := hsame _ rfl
      intro hsees
      obtain ⟨⟨r, tax, snap⟩, hbuy, -⟩ := Option.map_eq_some_iff.mp hsees
      rw [hcfg] at hbuy
      obtain ⟨⟨old, x, hseen⟩, hstatus, -⟩ := buyable_ok (Except.toOption_eq_some.mp hbuy)
      exact h.not_seen hL hseen hstatus
  | deposit c =>
      have hcfg : c.cfg = s.config := hsame _ rfl
      intro hsees
      obtain ⟨⟨r, tax, snap⟩, hpay, -⟩ := Option.map_eq_some_iff.mp hsees
      rw [hcfg] at hpay
      obtain ⟨⟨old, x, hseen⟩, hstatus, -⟩ := payable_ok (Except.toOption_eq_some.mp hpay)
      exact h.not_seen hL hseen hstatus
  | bid c =>
      have hcfg : c.cfg = s.config := hsame _ rfl
      refine ⟨fun hnone hok => ?_, fun r hget o _ _ => ?_⟩
      · rw [hcfg] at hok
        obtain ⟨_, hcheck⟩ := Except.isOk_iff.mp hok
        rcases checkBid_ok hcheck with ⟨r, hget⟩ | hholder
        · rw [hnone] at hget
          cases hget
        · exact hholder
      · rw [hcfg]
        exact h.lapsedRecord_free hL hget
  | _ => trivial

/-- **No reply hands a name under auction to anyone**, given how the suspended call's config stands to
the stored one. -/
theorem resumed_vacant (hs : s.Shape) {reply : Except Failure ℕ} {p : Pending} {pr : Progress}
    (hdated : reply.isOk = true → s.Dated now p) (h : Vacant lapse s.config now s)
    (hconfig : ∀ c, p ≠ .setHarbergerConfig c) (hr : Resumed s now reply p s' pr) :
    Vacant lapse s.config now s' := by
  have hn := hs.named
  have hdrop : Vacant lapse s.config now s.dropInFlight := h.congr rfl rfl
  have hndrop : s.dropInFlight.Named := hn
  have hcredit : ∀ {x : State E} (who : Principal) (n : ℕ), Vacant lapse s.config now x →
      Vacant lapse s.config now (x.addCredit who n) := fun who n hx =>
    hx.congr (addCredit_records _ who n) (addCredit_auctions _ who n)
  cases hr with
  | pullFailed =>
      simp only [State.pullFailed]
      split_ifs <;> exact h.congr rfl rfl
  | @bought c block r tax hreply hbuy =>
      obtain ⟨⟨old, x, hseen⟩, -, -⟩ := buyable_ok hbuy
      have hfree : s.auctions.get c.name = none :=
        hdated (by rw [hreply]; rfl) (by simp [StillSees, hbuy, Except.toOption])
      refine Vacant.commitFlat ?_ _ ?_
      · refine (hcredit r.owner (satAdd c.before.price r.balance) hdrop).congr ?_ ?_
        · rw [noteHandedOver_records]
        · rw [noteHandedOver_auctions]
      · rw [noteHandedOver_auctions, addCredit_auctions]
        change s.auctions.get r.name = none
        rw [hseen.name_of_named hn]
        exact hfree
  | @toppedUp c block r tax more x x' hreply hpay =>
      obtain ⟨⟨old, y, hseen⟩, -, -⟩ := payable_ok hpay
      have hfree : s.auctions.get c.name = none :=
        hdated (by rw [hreply]; rfl) (by simp [StillSees, hpay, Except.toOption])
      refine hdrop.commitFlat _ ?_
      change s.auctions.get r.name = none
      rw [hseen.name_of_named hn]
      exact hfree
  | creditedBack => exact hcredit _ _ hdrop
  | placed hreply hp =>
      exact hcredit _ _ (hdrop.placeBid hL hndrop (hdated (by rw [hreply]; rfl)).1 hp)
  | bidRefused hreply hp =>
      exact hcredit _ _ (hdrop.placeBid hL hndrop (hdated (by rw [hreply]; rfl)).1 hp)
  | paid => exact hdrop
  | @payRefused _ caller amount =>
      exact (hcredit caller amount h).congr rfl rfl
  | payUnconfirmed => exact h.congr rfl rfl
  | feeRefused => exact hdrop
  | feeAgreed => exact h.congr rfl rfl
  | funded => exact hdrop
  | fundRefused => exact h.congr rfl rfl
  | fundCharged => exact h.congr rfl rfl
  | fundUnconfirmed => exact h.congr rfl rfl
  | configRefused => exact absurd rfl (hconfig _)
  | configSettled => exact absurd rfl (hconfig _)
  | configured => exact absurd rfl (hconfig _)

/-- The clock of the next config: the rate that every name is settled at first, and the new grace. -/
def regraced (s : State E) (c : Config) : Config := { s.config with graceNs := c.graceNs }

/-- A config with a longer grace period finds every name under auction free by it. -/
def LeavesFree (s : State E) (now : ℕ) (c : Config) : Prop :=
  s.config.graceNs < c.graceNs → ∀ e ∈ s.auctions.entries, ∀ old ∈ s.records.get e.1,
    (settleRecord E (s.regraced c) old now).2.1 = .free

/-- **A config leaves names under auction lapsed**, if with a longer grace period they are free still. -/
theorem reconfigured_vacant (hs : s.Shape) {reply : Except Failure ℕ} {c : Config}
    (h : Vacant lapse s.config now s)
    (hfree : s.LeavesFree now c)
    (hr : Resumed s now reply (.setHarbergerConfig c) s' (.done (.ok .unit))) :
    Vacant lapse s'.config now s' := by
  have hn := hs.named
  have hlapsed : Vacant lapse (s.regraced c) now s := by
    intro name r old hauc hrec
    rcases lt_or_ge s.config.graceNs c.graceNs with hraised | hle
    · exact (settled_free_iff hL).mp (hfree hraised _ (OrdMap.mem_entries.mpr hauc) old hrec)
    · exact (h name r old hauc hrec).shorter rfl hle
  cases hr with
  | @configured c fee s₁ _ _ _ hs' =>
      have key : Vacant lapse { c with fee := fee } now s₁ := by
        subst hs'
        split_ifs with hrate
        · intro name r old hauc hrec
          rw [settleAll_auctions] at hauc
          rw [hn.settleAll_get, Option.map_eq_some_iff] at hrec
          obtain ⟨stored, hget, rfl⟩ := hrec
          exact (hlapsed name r stored hauc hget).settled hL (by exact le_rfl) s.config rfl
        · intro name r old hauc hrec
          exact (hlapsed name r old hauc hrec).shorter (not_not.mp hrate) le_rfl
      exact key.congr rfl rfl

end

end State
