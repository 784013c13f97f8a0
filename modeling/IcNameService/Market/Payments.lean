import IcNameService.Books.Account

/-!
# Racing payments

A `buy` or a `deposit` sees the name, suspends in its pull, and looks again when the pull is done: what
happens to the name in between is anyone's.  The message that resumes it decides alone and at once.
Either the name still is what the call saw, and the payment takes effect to the cycle, or it is not,
and the payer is credited the whole amount and nothing else is touched.
-/

namespace State

variable {E : Env}

/-! ## The two ends of a payment -/

/-- A payment came to nothing: the payer is credited, and nobody and nothing else is touched. -/
structure PaidBack (s s' : State E) (payer : Principal) (amount : ℕ) : Prop where
  payer_credit : s'.creditOf payer = s.creditOf payer + amount
  other_credits : ∀ p, p ≠ payer → s'.creditOf p = s.creditOf p
  records : s'.records = s.records
  auctions : s'.auctions = s.auctions
  taxCollected : s'.taxCollected = s.taxCollected

/-- The name `c` buys settles, under the config the call read, to what the call saw; it is another's
and costs no more than the call's limit; and it changes hands. -/
structure Sold (s s' : State E) (now : ℕ) (c : BuyCall) (old settled : Record) (tax : ℕ) : Prop where
  seen : ∃ x, Seen s c.cfg c.name now old x settled tax c.before
  not_owner : c.before.owner ≠ c.caller
  within_limit : c.before.price ≤ c.maxPrice
  seller_credit : s'.creditOf old.owner =
    s.creditOf old.owner + (c.before.price + settled.balance)
  other_credits : ∀ p, p ≠ old.owner → s'.creditOf p = s.creditOf p
  stored : ∃ h, h.price = c.price ∧ h.balance = c.deposit ∧ h.settledNs = now ∧
    s'.records.get c.name = some { old with
      owner := c.caller
      target := c.target
      text := []
      updatedNs := now
      changedHandsNs := now
      flat := some h
      previousTarget := some old.target }
  other_records : ∀ name, name ≠ c.name → s'.records.get name = s.records.get name
  taxCollected : s'.taxCollected = s.taxCollected + tax

/-- The name `c` pays for settles, under the config the call read, to what the call saw; and its balance
rises by the amount, less the tax the settlement took. -/
structure ToppedUp (s s' : State E) (now : ℕ) (c : DepositCall) (old settled : Record) (tax : ℕ) :
    Prop where
  seen : ∃ x first, Seen s c.cfg c.name now old x settled first c.before ∧ first ≤ tax
  stored : ∃ h, h.price = c.before.price ∧ h.balance + tax = old.balance + c.amount ∧
    s'.records.get c.name = some { old with flat := some h, updatedNs := now }
  credits : s'.credits = s.credits
  other_records : ∀ name, name ≠ c.name → s'.records.get name = s.records.get name
  taxCollected : s'.taxCollected = s.taxCollected + tax

/-! ## What a resumed payment does -/

section

variable {s : State E} {now : ℕ}

/-- A settled record is the stored one with its tax state settled. -/
lemma Seen.settled_eq {cfg : Config} {name : String} {old r : Record} {x : Harberger} {tax : ℕ}
    {snap : Snapshot} (h : Seen s cfg name now old x r tax snap) :
    r = { old with flat := some x } := by
  have hr := h.settled
  have hflat := h.flat
  cases hold : old.flat with
  | none =>
      rw [settleRecord_none cfg now hold] at hr
      simp only at hr
      rw [hr, hold] at hflat
      cases hflat
  | some y =>
      rw [settleRecord_flat cfg now hold] at hr
      simp only at hr
      rw [hr] at hflat
      cases hflat
      exact hr

lemma paidBack_addCredit {payer : Principal} {amount : ℕ} (hfit : s.value + amount ≤ u128Max) :
    PaidBack s (s.dropInFlight.addCredit payer amount) payer amount where
  payer_credit := by
    refine creditOf_addCredit_self s.dropInFlight payer ?_
    have := s.creditOf_le_value payer
    change s.creditOf payer + amount ≤ u128Max
    omega
  other_credits p hp := creditOf_addCredit_ne s.dropInFlight amount hp
  records := addCredit_records s.dropInFlight payer amount
  auctions := addCredit_auctions s.dropInFlight payer amount
  taxCollected := addCredit_taxCollected s.dropInFlight payer amount

/-- A credit and a balance of one state are parts of its value. -/
lemma creditOf_add_balance_le_value (p : Principal) {name : String} {r : Record}
    (hget : s.records.get name = some r) :
    s.creditOf p + r.balance + s.taxCollected ≤ s.value := by
  have h₁ := s.creditOf_le_creditTotal p
  have h₂ := s.storedBalance_le name
  rw [s.storedBalance_of_get hget] at h₂
  simp only [value]
  omega

variable (hX : E.auction.TaxLaws)

include hX

lemma sold_of_buyable {c : BuyCall} {r : Record} {tax : ℕ} (hn : s.Named)
    (hfit : s.value + c.total ≤ u128Max) (htotal : c.total = c.before.price + c.deposit)
    (h : s.buyable c.cfg c.name c.caller c.maxPrice now = .ok (r, tax, c.before)) :
    ∃ old, Sold s (s.dropInFlight.bought now c r tax) now c old r tax := by
  obtain ⟨⟨old, x, hseen⟩, -, howner, hprice⟩ := buyable_ok h
  have hbal := hseen.balance hX
  have hr := hseen.settled_eq
  have hfit' := creditOf_add_balance_le_value old.owner hseen.stored
  have hro : r.owner = old.owner := by rw [hr]
  have hname : r.name = c.name := hseen.name_of_named hn
  have hsum : satAdd c.before.price r.balance = c.before.price + r.balance :=
    satAdd_of_le (by omega)
  have hcredits : (s.dropInFlight.bought now c r tax).credits =
      (s.dropInFlight.addCredit r.owner (c.before.price + r.balance)).credits := by
    rw [bought, commitFlat, commit_credits, noteTaxCollected_credits, noteHandedOver_credits, hsum]
  have hrecords : (s.dropInFlight.bought now c r tax).records =
      s.records.insert c.name (boughtRecord (E := E) c r now) := by
    rw [bought_records, hname]
    rfl
  refine ⟨old, ⟨x, hseen⟩, howner, hprice, ?_, fun p hp => ?_, ⟨_, hX.holding_price _ _ _,
    hX.holding_balance _ _ _, hX.holding_settledNs _ _ now, ?_⟩, fun name hne => ?_, ?_⟩
  · simp only [creditOf]
    rw [hcredits, hro]
    exact creditOf_addCredit_self s.dropInFlight old.owner (by
      change s.creditOf old.owner + _ ≤ u128Max
      omega)
  · simp only [creditOf]
    rw [hcredits, hro]
    exact creditOf_addCredit_ne s.dropInFlight _ hp
  · rw [hrecords, OrdMap.get_insert_self, hr]
    rfl
  · rw [hrecords, OrdMap.get_insert_ne _ _ hne]
  · rw [bought, commitFlat, commit_taxCollected]
    refine (noteTaxCollected_taxCollected _ ?_).trans ?_
    · rw [noteHandedOver_taxCollected, addCredit_taxCollected]
      change s.taxCollected + tax ≤ u128Max
      omega
    · rw [noteHandedOver_taxCollected, addCredit_taxCollected]
      rfl

lemma toppedUp_of_payable {c : DepositCall} {r : Record} {tax more : ℕ} {x x' : Harberger}
    (hn : s.Named) (hfit : s.value + c.amount ≤ u128Max)
    (h : s.payable c.cfg c.name c.amount now = .ok (r, tax, c.before)) (hflat : r.flat = some x)
    (htop : E.auction.topUp c.cfg.params x c.amount now = .ok (x', more)) :
    ∃ old, ToppedUp s (s.dropInFlight.commitFlat
      { r with flat := some x', updatedNs := now } (satAdd tax more)) now c old r (tax + more) := by
  obtain ⟨⟨old, y, hseen⟩, -⟩ := payable_ok h
  have hbal := hseen.balance hX
  have hr := hseen.settled_eq
  have hxy : x = y := by
    rw [hseen.flat] at hflat
    cases hflat
    rfl
  subst hxy
  have htopped := hX.topUp_balance _ _ _ _ _ _ htop
  have hfit' := creditOf_add_balance_le_value ⟨[]⟩ hseen.stored
  have hrb : r.balance = x.balance := by simp [Record.balance, hflat]
  have hname : r.name = c.name := hseen.name_of_named hn
  have hsum : satAdd tax more = tax + more := satAdd_of_le (by omega)
  have hrecords : (s.dropInFlight.commitFlat
      { r with flat := some x', updatedNs := now } (satAdd tax more)).records =
        s.records.insert c.name { r with flat := some x', updatedNs := now } := by
    simp only [commitFlat]
    rw [commit_records, noteTaxCollected_records]
    change s.records.insert r.name _ = _
    rw [hname]
  refine ⟨old, ⟨x, tax, hseen, Nat.le_add_right _ _⟩, ⟨x', ?_, by omega, ?_⟩, ?_, fun name hne => ?_,
    ?_⟩
  · rw [hX.topUp_price _ _ _ _ _ _ htop, hseen.snap_eq]
  · rw [hrecords, OrdMap.get_insert_self, hr]
  · simp only [commitFlat]
    rw [commit_credits, noteTaxCollected_credits]
    rfl
  · rw [hrecords, OrdMap.get_insert_ne _ _ hne]
  · simp only [commitFlat]
    rw [commit_taxCollected, hsum]
    refine noteTaxCollected_taxCollected _ ?_
    change s.taxCollected + (tax + more) ≤ u128Max
    omega

end

end State

namespace World

variable {E : Env} {w : World E} {tr : History E}

/-- **Racing payments never both take, and never lose, a payer's cycles.**  In every lawful history, a
`buy` or a `deposit` whose pull succeeded was started by an earlier call, whose view of the name it
carries; and the message that resumes it ends it in one of two ways.  Either the name still settles to
what the call saw and the payment takes effect, or the payer is credited the amount pulled and the
record and all other credits are unchanged. -/
theorem racing_payments (hX : E.auction.TaxLaws) (hV : E.auction.VickreyLaws)
    (h : Run (machine E) lawful init tr w) {newer older : History E}
    {e : Entry (World E) Event Output} (htr : tr = newer ++ e :: older) {now id block : ℕ}
    {moved : ℤ} (hevent : e.event = .reply now id (.ok block) moved) :
    (∀ c, e.pre.pending.get id = some (.buy c) →
      (∃ e₀ ∈ older, ∃ cx call, Starts e₀ id (.buy c) cx call) ∧ moved = c.total ∧
      ((e.out = .done (.ok .unit) ∧
          ∃ old settled tax, State.Sold e.pre.canister e.post.canister now c old settled tax) ∨
        ((∃ m, e.out = .done (.error m)) ∧
          State.PaidBack e.pre.canister e.post.canister c.caller c.total))) ∧
    (∀ c, e.pre.pending.get id = some (.deposit c) →
      (∃ e₀ ∈ older, ∃ cx call, Starts e₀ id (.deposit c) cx call) ∧ moved = c.amount ∧
      ((e.out = .done (.ok .unit) ∧
          ∃ old settled tax, State.ToppedUp e.pre.canister e.post.canister now c old settled tax) ∨
        ((∃ m, e.out = .done (.error m)) ∧
          State.PaidBack e.pre.canister e.post.canister c.caller c.amount))) := by
  obtain ⟨hrun, hlaw, hstep, -⟩ := run_entry rfl h htr
  have hb := run_balanced hX hV hrun
  have hvalue := hb.value_le
  have hn := hb.tidy.named
  obtain ⟨pre, event, out, post⟩ := e
  simp only at hevent hrun hlaw hstep hb hvalue hn ⊢
  subst hevent
  constructor
  · intro c hget
    obtain ⟨hpull, hfit⟩ := hlaw _ hget
    have hmoved : moved = c.total := by simpa [ledgerLaw, pullLaw] using hpull
    have htotal := (hb.carried id _ hget).2.2
    refine ⟨run_started rfl hrun hget (.buy c), hmoved, ?_⟩
    cases hstep with
    | @resumed _ _ _ _ p s reply _ hget' hr =>
        rw [hget] at hget'
        cases hget'
        cases hr with
        | pullFailed _ hreply => cases hreply
        | @bought _ _ r tax _ hbuy =>
            have hexact : c.total = c.before.price + c.deposit := by
              rw [htotal]
              exact satAdd_eq_of_lt (by omega)
            obtain ⟨old, hsold⟩ := State.sold_of_buyable hX hn (by omega) hexact hbuy
            exact Or.inl ⟨rfl, old, r, tax, hsold⟩
        | creditedBack m hp _ _ =>
            cases hp
            exact Or.inr ⟨⟨m, rfl⟩, State.paidBack_addCredit (by omega)⟩
    | continued _ hget' =>
        rw [hget] at hget'
        cases hget'
  · intro c hget
    obtain ⟨hpull, hfit⟩ := hlaw _ hget
    have hmoved : moved = c.amount := by simpa [ledgerLaw, pullLaw] using hpull
    refine ⟨run_started rfl hrun hget (.deposit c), hmoved, ?_⟩
    cases hstep with
    | @resumed _ _ _ _ p s reply _ hget' hr =>
        rw [hget] at hget'
        cases hget'
        cases hr with
        | pullFailed _ hreply => cases hreply
        | @toppedUp _ _ r tax more x x' _ hpay hflat htop =>
            obtain ⟨old, htopped⟩ := State.toppedUp_of_payable hX hn (by omega) hpay hflat htop
            exact Or.inl ⟨rfl, old, r, _, htopped⟩
        | creditedBack m hp _ _ =>
            cases hp
            exact Or.inr ⟨⟨m, rfl⟩, State.paidBack_addCredit (by omega)⟩
    | continued _ hget' =>
        rw [hget] at hget'
        cases hget'

/-! ## A race -/

/-- What the first of two buyers of one name carries. -/
def firstBuyer : BuyCall where
  cfg := { Script.market with fee := 1 }
  caller := ⟨[3]⟩
  name := "abc"
  target := .alias "h/y"
  price := 900
  deposit := 50
  maxPrice := Script.cyclePerNs
  before := ⟨⟨[2]⟩, Script.cyclePerNs, 25, .active⟩
  total := Script.cyclePerNs + 50

/-- Did the message end a call well? -/
def endedOk : Output → Bool
  | .done (.ok .unit) => true
  | _ => false

/-- Two buyers race for one name: the first whose pull is done gets it. -/
theorem racing_payments_first : ∃ (w w' : World Env.reference) (old settled : Record) (tax : ℕ),
    w.pending.entries.length = 2 ∧
      State.Sold w.canister w'.canister 26 firstBuyer old settled tax := by
  obtain ⟨tr, w, hrun, -, htwo, hget, hlaw, hstep⟩ := Machine.exists_run_of_exec
    (machine Env.reference) lawful init
    (Script.opening ++ Script.winning 1 2 "abc" "h/x" Script.cyclePerNs (2 * Script.cyclePerNs) 5 ++
      [.call (Script.caller 3 26) (.buy "abc" "h/y" 900 50 Script.cyclePerNs),
        .call (Script.caller 5 26) (.buy "abc" "h/z" 900 50 Script.cyclePerNs)])
    (fun _ (w : World Env.reference) => w.pending.entries.length = 2 ∧
      w.pending.get 2 = some (.buy firstBuyer) ∧
      lawful w (.reply 26 2 (.ok 0) (Script.cyclePerNs + 50)) ∧
      (w.step (.reply 26 2 (.ok 0) (Script.cyclePerNs + 50))).any (fun r => endedOk r.2) = true)
    (by decide +kernel)
  obtain ⟨⟨w', o⟩, hstep, hended⟩ := (Option.any_eq_true _ _).mp hstep
  have hpaid := (racing_payments Reference.auction_taxLaws Reference.auction_vickreyLaws
    (hrun.snoc hlaw hstep) (List.nil_append _).symm rfl).1 firstBuyer hget
  obtain ⟨-, -, ⟨-, old, settled, tax, hsold⟩ | ⟨⟨m, hm⟩, -⟩⟩ := hpaid
  · exact ⟨w, w', old, settled, tax, htwo, hsold⟩
  · simp only at hm
    rw [hm] at hended
    cases hended

end World
