import IcNameService.Canister.Settings
import IcNameService.Canister.Shape

/-!
# What a message does to the tax state of a name

Tax is settled lazily: whoever touches a name settles it to now, and what they commit shows what the
settlement took.  `Settled` says so of one name and one message, in terms of what the name and the credits
are afterwards, for each way there is to touch a name.  `Touches` adds what leaves a name unsettled.

* `Pending.settlesBy` — the config that the message which resumes a call settles by.
* `called_touches`, `resumed_touches` — every message settles a name it touches, by that config.
* `Touches.settles` — a name that is taxed is settled, or its record is left alone.
* `Touches.clock` — `settled_ns` of a name goes forward, and not past now.
-/

namespace Pending

/-- The config that a payment suspended in its pull carries. -/
def carriedConfig : Pending → Option Config
  | .buy c => some c.cfg
  | .deposit c => some c.cfg
  | .bid c => some c.cfg
  | _ => none

/-- What the message that resumes the call settles by: a payment by the config it carries, any other call
by the stored one. -/
def settlesBy (p : Pending) (stored : Config) : Config := p.carriedConfig.getD stored

/-- What the call adds to a balance. -/
def adds : Pending → ℕ
  | .deposit c => c.amount
  | _ => 0

end Pending

namespace State

variable {E : Env}

/-- The tax state of a name, if it is held. -/
def flatOf (s : State E) (name : String) : Option Harberger := (s.records.get name).bind Record.flat

lemma flatOf_eq_some {s : State E} {name : String} {h : Harberger} (hflat : s.flatOf name = some h) :
    ∃ r, s.records.get name = some r ∧ r.flat = some h := by
  cases hget : s.records.get name with
  | none => simp [flatOf, hget] at hflat
  | some r => exact ⟨r, rfl, by simpa [flatOf, hget] using hflat⟩

lemma flatOf_of_get {s : State E} {name : String} {r : Record} {h : Harberger}
    (hget : s.records.get name = some r) (hflat : r.flat = some h) : s.flatOf name = some h := by
  simp [flatOf, hget, hflat]

/-- **A settlement is committed**: the record stored under the name, with the tax state `h`, is settled to
`now` by `cfg`, and this is what becomes of it.  A deposit adds `amount`. -/
inductive Settled (s s' : State E) (cfg : Config) (amount : ℕ) (name : String) (now : ℕ) (old : Record)
    (h : Harberger) : Prop
  /-- The holder keeps what the tax left, at the old price or a new one. -/
  | kept {r : Record} (price : ℕ) :
      s'.records.get name = some r → r.owner = old.owner →
      r.flat = some { (E.auction.settle cfg.params h now).1 with price := price } →
      Settled s s' cfg amount name now old h
  | toppedUp {r : Record} {h' : Harberger} {more : ℕ} :
      s'.records.get name = some r → r.owner = old.owner → r.flat = some h' →
      E.auction.topUp cfg.params (E.auction.settle cfg.params h now).1 amount now = .ok (h', more) →
      Settled s s' cfg amount name now old h
  /-- The seller is credited the price and what the tax left. -/
  | sold {r : Record} (price balance : ℕ) :
      s'.records.get name = some r → r.flat = some (E.auction.holding price balance now) →
      s'.credits = (s.addCredit old.owner (satAdd (E.auction.settle cfg.params h now).1.price
        (E.auction.settle cfg.params h now).1.balance)).credits →
      Settled s s' cfg amount name now old h
  /-- The holder is credited what the tax left. -/
  | released :
      s'.records.get name = none →
      s'.credits =
        (s.addCredit old.owner (E.auction.settle cfg.params h now).1.balance).credits →
      Settled s s' cfg amount name now old h
  /-- The name had lapsed, and somebody won it. -/
  | awarded {r : Record} (price balance : ℕ) :
      (E.auction.settle cfg.params h now).2.1 = .free → s'.records.get name = some r →
      r.flat = some (E.auction.holding price balance now) →
      Settled s s' cfg amount name now old h

/-- What a message leaves under a name. -/
inductive Touches (s s' : State E) (cfg : Config) (amount : ℕ) (name : String) (now : ℕ) : Prop
  | same : s'.records.get name = s.records.get name → Touches s s' cfg amount name now
  /-- Nothing is taxed here. -/
  | plain :
      (∀ r, s.records.get name = some r → r.flat = none) →
      (∀ r, s'.records.get name = some r → r.flat = none) → Touches s s' cfg amount name now
  /-- The name had no holder yet. -/
  | fresh {r : Record} (price balance : ℕ) :
      s.records.get name = none → s'.records.get name = some r →
      r.flat = some (E.auction.holding price balance now) → Touches s s' cfg amount name now
  | settled {old : Record} {h : Harberger} :
      s.records.get name = some old → old.flat = some h →
      Settled s s' cfg amount name now old h → Touches s s' cfg amount name now

section

variable {s s' : State E} {cfg : Config} {amount now : ℕ} {name n : String}

lemma credits_addCredit_congr (h : s'.credits = s.credits) (p : Principal) (k : ℕ) :
    (s'.addCredit p k).credits = (s.addCredit p k).credits := by
  simp only [addCredit, creditOf, h]
  split_ifs
  · exact h
  · rfl

/-- Only the records and the credits before the message matter. -/
lemma Touches.of_sameCredits {s₁ : State E} (h : Touches s₁ s' cfg amount name now)
    (hrecords : s₁.records = s.records) (hcredits : s₁.credits = s.credits) :
    Touches s s' cfg amount name now := by
  cases h with
  | same hsame => exact .same (hrecords ▸ hsame)
  | plain hbefore hafter => exact .plain (hrecords ▸ hbefore) hafter
  | fresh price balance hnone hget hflat => exact .fresh price balance (hrecords ▸ hnone) hget hflat
  | settled hold hflat hsettled =>
      refine .settled (hrecords ▸ hold) hflat ?_
      cases hsettled with
      | kept price hget howner hr => exact .kept price hget howner hr
      | toppedUp hget howner hr htop => exact .toppedUp hget howner hr htop
      | sold price balance hget hr hpaid =>
          exact .sold price balance hget hr (hpaid.trans (credits_addCredit_congr hcredits _ _))
      | released hget hpaid =>
          exact .released hget (hpaid.trans (credits_addCredit_congr hcredits _ _))
      | awarded price balance hfree hget hr => exact .awarded price balance hfree hget hr

/-! ## Closing an auction -/

/-- Closing an auction settles a name that is won, and nothing else. -/
lemma touches_close (hn : s.Named) {c : Closed} (hclose : s.close cfg n now = (s', .ok c))
    {t : State E} (ht : t.records = s'.records) : Touches s t cfg amount name now := by
  obtain ⟨r, outcome, holding, hc⟩ := close_ok hclose
  have hrecords := ht.trans hc.records
  cases holding with
  | none => exact .same (by rw [hrecords]; rfl)
  | some x =>
      rw [wonRecords, hn.wonAs_name] at hrecords
      by_cases hname : name = n
      · subst hname
        have hget : t.records.get name = some (s.wonAs cfg name now outcome x) := by
          rw [hrecords, OrdMap.get_insert_self]
        have hfree := hc.free
        cases hl : s.lapsedRecord cfg name now with
        | mk lapsed free =>
            rw [hl] at hfree
            cases lapsed with
            | none =>
                rcases lapsedRecord_none hl with ⟨hnone, -⟩ | hheld
                · exact .fresh _ _ hnone hget rfl
                · rw [hheld] at hfree
                  cases hfree
            | some l =>
                obtain ⟨old, hold, -, -, hstatus, -⟩ := lapsedRecord_some hl
                cases hflat : old.flat with
                | none =>
                    rw [settleRecord_none cfg now hflat] at hstatus
                    cases hstatus
                | some h =>
                    rw [settleRecord_flat cfg now hflat] at hstatus
                    exact .settled hold hflat (.awarded _ _ hstatus hget rfl)
      · refine .same ?_
        rw [hrecords, OrdMap.get_insert_ne _ _ hname]

/-! ## Calls -/

/-- The holder's record, settled and rewritten. -/
lemma settled_amended {cx : Ctx} {c : Call} {old r : Record} {h : Harberger} {t : State E}
    (hflat : old.flat = some h) (ha : Amendment s cx name (settleRecord E cfg old now).1 c r)
    (hget : t.records.get name = some r) : Settled s t cfg amount name now old h := by
  rw [settleRecord_flat cfg now hflat] at ha
  cases ha with
  | repoint => exact .kept (E.auction.settle cfg.params h now).1.price hget rfl rfl
  | retext => exact .kept (E.auction.settle cfg.params h now).1.price hget rfl rfl
  | reprice => exact .kept _ hget rfl rfl

lemma released_credits {r : Record} {tax : ℕ} :
    (s.release r tax n).credits = (s.addCredit r.owner r.balance).credits := by
  rw [release_eq]
  exact credits_addCredit_congr (noteTaxCollected_credits s tax) r.owner r.balance

/-- Writing another name's record leaves this one's alone. -/
lemma touches_insert {r : Record} (hrecords : s'.records = s.records.insert n r)
    (hself : s'.records.get n = some r → Touches s s' cfg amount n now) :
    Touches s s' cfg amount name now := by
  by_cases hname : name = n
  · subst hname
    exact hself (by rw [hrecords, OrdMap.get_insert_self])
  · exact .same (by rw [hrecords, OrdMap.get_insert_ne _ _ hname])

/-- Under a handle nothing is taxed. -/
lemma touches_scoped (hs : s.Shape) (hs' : s'.Shape) {q : String × String}
    (hsplit : Names.split n = .ok q) : Touches s s' cfg amount n now :=
  .plain (fun _ hr => (hs.plain_of_split hsplit hr).2.1)
    fun _ hr => (hs'.plain_of_split hsplit hr).2.1

/-- **A call settles the name it touches by the stored config.** -/
theorem called_touches (hs : s.Shape) {cx : Ctx} {c : Call} {p : Progress}
    (hc : Called s cx c s' p) : Touches s s' s.config 0 name cx.now := by
  have hn := hs.named
  have hs' := called_shape hs hc
  cases hc with
  | refused => exact .same rfl
  | administered ha => cases ha <;> exact .same rfl
  | @announced a _ _ _ _ _ ha =>
      cases ha with
      | fresh hsplit =>
          refine touches_insert (r := s.announceRecord cx a cx.caller) ?_ fun _ =>
            touches_scoped hs hs' hsplit
          rw [commit_records, hn.announceRecord_name]
      | @allowed _ _ h hsplit =>
          refine touches_insert (r := s.announceRecord cx a h.owner) ?_ fun _ =>
            touches_scoped hs hs' hsplit
          rw [commit_records, hn.announceRecord_name]
  | @underHandle _ n _ _ r hsplit _ _ hw =>
      refine touches_insert (r := r) ?_ fun _ => touches_scoped hs hs' hsplit
      rw [commit_records, hn.scopedWrite_name hw]
  | @amended _ n old r hheld ha =>
      obtain ⟨-, hflat, -⟩ := hs.flat_of_checkFlat hheld.flatName hheld.stored
      obtain ⟨h, hh⟩ := Option.isSome_iff_exists.mp hflat
      refine touches_insert (n := n) (r := r) ?_ fun hget =>
        .settled hheld.stored hh (settled_amended hh ha hget)
      rw [commitFlat_records, amendment_name ha, settleRecord_name, hn _ _ hheld.stored]
  | @discarded n _ _ old hsplit =>
      by_cases hname : name = n
      · subst hname
        exact touches_scoped hs hs' hsplit
      · exact .same (OrdMap.get_erase_ne _ hname)
  | @released n old hheld =>
      obtain ⟨-, hflat, -⟩ := hs.flat_of_checkFlat hheld.flatName hheld.stored
      obtain ⟨h, hh⟩ := Option.isSome_iff_exists.mp hflat
      have hrecords : (s.release (settleRecord E s.config old cx.now).1
          (settleRecord E s.config old cx.now).2.2 n).records = s.records.erase n := by
        rw [release_eq]
        change OrdMap.erase (State.paidOut _ _ _).records n = _
        rw [(sameRecords_paidOut _ _ _).records]
      by_cases hname : name = n
      · subst hname
        refine .settled hheld.stored hh (.released (by rw [hrecords, OrdMap.get_erase_self]) ?_)
        rw [released_credits, settleRecord_flat s.config cx.now hh]
        rfl
      · exact .same (by rw [hrecords, OrdMap.get_erase_ne _ hname])
  | revealed => exact .same rfl
  | closed hclose => exact touches_close hn hclose rfl
  | pulling => exact .same rfl
  | withdrawing _ _ ht =>
      obtain ⟨-, credits, rfl, -⟩ := takeCredit_ok ht
      exact .same rfl
  | funding => exact .same rfl
  | configuring => exact .same rfl

/-! ## Replies -/

/-- Closing the auction of the name now hands the name to its winner. -/
def Awards (s : State E) (cfg : Config) (name : String) (now : ℕ) : Prop :=
  ∃ r ∈ s.auctions.get name, ∃ o ∈ (E.auction.outcome r.auction now).toOption,
    (winnerIf o (s.lapsedRecord cfg name now).2).isSome = true

/-- What lets the message that resumes a call settle the record under `name`: its pull is done, and a
purchase finds the name as its call saw it, a bid an auction of the name that ended with a winner.  A change
of the config settles every name. -/
def Lets (s : State E) (now : ℕ) (reply : Except Failure ℕ) (name : String) : Pending → Prop
  | .buy c => reply.isOk = true ∧ name = c.name ∧ s.StillSees now (.buy c)
  | .deposit c => reply.isOk = true ∧ name = c.name ∧ s.StillSees now (.deposit c)
  | .bid c => reply.isOk = true ∧ name = c.name ∧ s.Awards c.cfg c.name now
  | _ => True

/-- What a payment method saw of a flat name. -/
lemma Seen.taxed {r : Record} {tax : ℕ} {snap : Snapshot} {old : Record} {x : Harberger}
    (h : Seen s cfg name now old x r tax snap) :
    ∃ y, old.flat = some y ∧ x = (E.auction.settle cfg.params y now).1 := by
  have hflat := h.flat
  rw [h.settled] at hflat
  cases hold : old.flat with
  | none =>
      rw [settleRecord_none cfg now hold, hold] at hflat
      cases hflat
  | some y =>
      rw [settleRecord_flat cfg now hold] at hflat
      cases hflat
      exact ⟨y, rfl, rfl⟩

/-- A purchase that goes through: the seller is paid, and the name is the buyer's. -/
lemma touches_bought (hn : s.Named) {c : BuyCall} {r : Record} {tax : ℕ}
    (h : s.buyable c.cfg c.name c.caller c.maxPrice now = .ok (r, tax, c.before)) :
    Touches s (s.dropInFlight.bought now c r tax) c.cfg amount name now := by
  obtain ⟨⟨old, x, hseen⟩, -, -⟩ := buyable_ok h
  obtain ⟨y, hy, hx⟩ := hseen.taxed
  have howner : r.owner = old.owner := by rw [hseen.settled, settleRecord_owner]
  have hpaid : satAdd c.before.price r.balance = satAdd x.price x.balance := by
    rw [hseen.snap_eq, Record.balance, hseen.flat]
    rfl
  refine touches_insert (n := c.name) (r := boughtRecord (E := E) c r now) ?_ fun hget =>
    .settled hseen.stored hy (.sold c.price c.deposit hget rfl ?_)
  · rw [bought_records, hseen.name_of_named hn]
    rfl
  · rw [State.bought, commitFlat, commit_credits, noteTaxCollected_credits, noteHandedOver_credits,
      hpaid, howner, ← hx]
    have hdrop : s.dropInFlight.credits = s.credits := rfl
    exact credits_addCredit_congr hdrop _ _

/-- A top-up that goes through. -/
lemma touches_toppedUp (hn : s.Named) {c : DepositCall} {r : Record} {tax more : ℕ} {x x' : Harberger}
    (h : s.payable c.cfg c.name c.amount now = .ok (r, tax, c.before)) (hflat : r.flat = some x)
    (htop : E.auction.topUp c.cfg.params x c.amount now = .ok (x', more)) :
    Touches s (s.dropInFlight.commitFlat { r with flat := some x', updatedNs := now } (satAdd tax more))
      c.cfg c.amount name now := by
  obtain ⟨⟨old, y, hseen⟩, -, -⟩ := payable_ok h
  obtain ⟨z, hz, hy⟩ := hseen.taxed
  have hxy := hseen.flat
  rw [hflat] at hxy
  cases hxy
  subst hy
  have howner : r.owner = old.owner := by rw [hseen.settled, settleRecord_owner]
  refine touches_insert (n := c.name) (r := { r with flat := some x', updatedNs := now }) ?_
    fun hget => .settled hseen.stored hz (.toppedUp hget howner rfl htop)
  rw [commitFlat_records]
  change OrdMap.insert s.records r.name _ = _
  rw [hseen.name_of_named hn]

/-- A bid settles a name only by closing its auction over a winner. -/
lemma touches_placeBid (hn : s.Named) {bidder : Principal} {commitment : Bytes} {deposit : ℕ}
    {res : Except String (Option ℕ)}
    (hp : s.placeBid cfg n bidder commitment deposit now = (s', res)) {t : State E}
    (ht : t.records = s'.records) :
    t.records.get name = s.records.get name ∨
      ((name = n ∧ s.Awards cfg n now) ∧ Touches s t cfg amount name now) := by
  have hfirst : ∀ s₁ : State E, ClosedFirst s cfg n now s₁ → t.records = s₁.records →
      t.records.get name = s.records.get name ∨
        ((name = n ∧ s.Awards cfg n now) ∧ Touches s t cfg amount name now) := by
    intro s₁ hc ht
    cases hc with
    | running => exact Or.inl (by rw [ht])
    | @ended _ c hclose =>
        obtain ⟨r, outcome, holding, hc⟩ := close_ok hclose
        cases holding with
        | none =>
            refine Or.inl ?_
            rw [ht, hc.records]
            rfl
        | some x =>
            by_cases hname : name = n
            · have hawards : s.Awards cfg n now :=
                ⟨r, hc.stored, outcome, by rw [hc.ended]; rfl, by rw [← hc.holding_isSome]; rfl⟩
              exact Or.inr ⟨⟨hname, hawards⟩, touches_close hn hclose ht⟩
            · refine Or.inl ?_
              rw [ht, hc.records, wonRecords, hn.wonAs_name, OrdMap.get_insert_ne _ _ hname]
  exact placeBid_induction (P := fun s₁ => t.records = s₁.records → _) hp
    (fun ht => Or.inl (by rw [ht])) hfirst (fun _ _ hkeeps => hkeeps) ht

/-- A change of the config settles every name, if it changes the rate. -/
lemma touches_settleAll (hn : s.Named) {t : State E}
    (ht : t.records = (s.settleAll cfg now).1.records) : Touches s t cfg amount name now := by
  have hget : t.records.get name =
      (s.records.get name).map fun r => (settleRecord E cfg r now).1 := by
    rw [ht, hn.settleAll_get]
  cases hold : s.records.get name with
  | none => exact .same (by rw [hget, hold]; rfl)
  | some old =>
      rw [hold, Option.map_some] at hget
      cases hflat : old.flat with
      | none =>
          rw [settleRecord_none cfg now hflat] at hget
          exact .same (hget.trans hold.symm)
      | some h =>
          rw [settleRecord_flat cfg now hflat] at hget
          exact .settled hold hflat
            (.kept (E.auction.settle cfg.params h now).1.price hget rfl rfl)

/-- **A reply settles the name it touches by the config that the resumed call settles by.** -/
theorem resumed_touches (hn : s.Named) {reply : Except Failure ℕ} {p : Pending} {pr : Progress}
    (hr : Resumed s now reply p s' pr) :
    s'.records.get name = s.records.get name ∨
      (s.Lets now reply name p ∧ Touches s s' (p.settlesBy s.config) p.adds name now) := by
  cases hr with
  | pullFailed =>
      refine Or.inl ?_
      simp only [State.pullFailed]
      split_ifs <;> rfl
  | @bought c block r tax hreply hbuy =>
      by_cases hname : name = c.name
      · refine Or.inr ⟨⟨by rw [hreply]; rfl, hname, ?_⟩, touches_bought hn hbuy⟩
        simp [StillSees, hbuy, Except.toOption]
      · refine Or.inl ?_
        obtain ⟨⟨old, x, hseen⟩, -, -⟩ := buyable_ok hbuy
        rw [bought_records, hseen.name_of_named hn, OrdMap.get_insert_ne _ _ hname]
        rfl
  | @toppedUp c block r tax more x x' hreply hpay hflat htop =>
      by_cases hname : name = c.name
      · refine Or.inr ⟨⟨by rw [hreply]; rfl, hname, ?_⟩, touches_toppedUp hn hpay hflat htop⟩
        simp [StillSees, hpay, Except.toOption]
      · refine Or.inl ?_
        obtain ⟨⟨old, y, hseen⟩, -, -⟩ := payable_ok hpay
        rw [commitFlat_records]
        change (OrdMap.insert s.records r.name _).get name = _
        rw [hseen.name_of_named hn, OrdMap.get_insert_ne _ _ hname]
  | creditedBack =>
      refine Or.inl ?_
      rw [addCredit_records]
      rfl
  | @placed c block s₁ _ hreply hp =>
      subst hreply
      rcases @touches_placeBid _ s.dropInFlight _ _ 0 _ name _ hn _ _ _ _ hp _
        (addCredit_records s₁ _ _) with hsame | ⟨hawards, htouches⟩
      · exact Or.inl hsame
      · exact Or.inr ⟨⟨rfl, hawards⟩, htouches.of_sameCredits rfl rfl⟩
  | @bidRefused c block s₁ _ hreply hp =>
      subst hreply
      rcases @touches_placeBid _ s.dropInFlight _ _ 0 _ name _ hn _ _ _ _ hp _
        (addCredit_records s₁ _ _) with hsame | ⟨hawards, htouches⟩
      · exact Or.inl hsame
      · exact Or.inr ⟨⟨rfl, hawards⟩, htouches.of_sameCredits rfl rfl⟩
  | paid => exact Or.inl rfl
  | payRefused =>
      refine Or.inl ?_
      change (State.addCredit s _ _).records.get name = _
      rw [addCredit_records]
  | payUnconfirmed => exact Or.inl rfl
  | feeRefused => exact Or.inl rfl
  | feeAgreed => exact Or.inl rfl
  | funded => exact Or.inl rfl
  | fundRefused => exact Or.inl rfl
  | fundCharged => exact Or.inl rfl
  | fundUnconfirmed => exact Or.inl rfl
  | configRefused => exact Or.inl rfl
  | configSettled => exact Or.inr ⟨trivial, touches_settleAll hn rfl⟩
  | configured _ _ _ hs' =>
      subst hs'
      split_ifs with hrate
      · exact Or.inr ⟨trivial, touches_settleAll hn rfl⟩
      · exact Or.inl rfl

/-- **A touched name that is taxed is settled**, or its record is left alone. -/
lemma Touches.settles (h : Touches s s' cfg amount name now) {old : Record} {x : Harberger}
    (hget : s.records.get name = some old) (hflat : old.flat = some x) :
    s'.records.get name = some old ∨ Settled s s' cfg amount name now old x := by
  cases h with
  | same hsame => exact Or.inl (hsame.trans hget)
  | plain hbefore =>
      rw [hbefore old hget] at hflat
      cases hflat
  | fresh _ _ hnone =>
      rw [hget] at hnone
      cases hnone
  | settled hold hflat' hsettled =>
      rw [hget] at hold
      cases hold
      rw [hflat] at hflat'
      cases hflat'
      exact Or.inr hsettled

/-! ## The clock -/

/-- **`settled_ns` goes forward, and never past now**: under a name that is touched, what is taxed was taxed
before and is settled further, or starts now. -/
theorem Touches.clock (hX : E.auction.TaxLaws) (hT : E.auction.ClockLaws)
    (h : Touches s s' cfg amount name now) {r : Record} {x : Harberger}
    (hget : s'.records.get name = some r) (hflat : r.flat = some x)
    (hpast : ∀ old y, s.records.get name = some old → old.flat = some y → y.settledNs ≤ now) :
    x.settledNs = now ∨ ∃ old y, s.records.get name = some old ∧ old.flat = some y ∧
      y.settledNs ≤ x.settledNs ∧ x.settledNs ≤ now := by
  cases h with
  | same hsame =>
      rw [hsame] at hget
      exact Or.inr ⟨r, x, hget, hflat, le_rfl, hpast r x hget hflat⟩
  | plain _ hafter =>
      rw [hafter r hget] at hflat
      cases hflat
  | fresh price balance _ hget' hr =>
      rw [hget] at hget'
      cases hget'
      rw [hflat] at hr
      cases hr
      exact Or.inl (hX.holding_settledNs _ _ _)
  | @settled old y hold hy hsettled =>
      have hclock := hT.settle_settledNs cfg.params y now (hpast old y hold hy)
      cases hsettled with
      | kept price hget' _ hr =>
          rw [hget] at hget'
          cases hget'
          rw [hflat] at hr
          cases hr
          exact Or.inr ⟨old, y, hold, hy, hclock⟩
      | toppedUp hget' _ hr htop =>
          rw [hget] at hget'
          cases hget'
          rw [hflat] at hr
          cases hr
          have htopped := hT.topUp_settledNs _ _ _ _ _ _ hclock.2 htop
          exact Or.inr ⟨old, y, hold, hy, hclock.1.trans htopped.1, htopped.2⟩
      | sold price balance hget' hr =>
          rw [hget] at hget'
          cases hget'
          rw [hflat] at hr
          cases hr
          exact Or.inl (hX.holding_settledNs _ _ _)
      | released hnone =>
          rw [hget] at hnone
          cases hnone
      | awarded price balance _ hget' hr =>
          rw [hget] at hget'
          cases hget'
          rw [hflat] at hr
          cases hr
          exact Or.inl (hX.holding_settledNs _ _ _)

end

end State
