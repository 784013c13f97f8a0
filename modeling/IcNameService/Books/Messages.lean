import IcNameService.Books.Closing

/-!
# The value after each message

A message that a caller starts takes value out of the books only to pay it out (`called_value`); one
that the ledger's reply resumes puts in exactly what was pulled, or puts back what was not paid
(`resumed_value`).
-/

namespace State

variable {E : Env}

/-- What a message takes out of the books: the credit it sets out to pay. -/
def takenOut : Progress → ℕ
  | .await (.withdraw _ _ amount) => amount
  | _ => 0

/-- What a reply puts into the books: a payment that was pulled, or a credit that was not paid. -/
def putIn (reply : Except Failure ℕ) : Pending → ℕ
  | .buy c => match reply with
      | .ok _ => c.total
      | .error _ => 0
  | .deposit c => match reply with
      | .ok _ => c.amount
      | .error _ => 0
  | .bid c => match reply with
      | .ok _ => c.deposit
      | .error _ => 0
  | .withdraw _ _ amount => match reply with
      | .error (.nothingMoved _) => amount
      | _ => 0
  | _ => 0

variable {s s' : State E}

/-! ## Values that depend on few fields -/

lemma value_congr (hc : s'.credits = s.credits) (hr : s'.records = s.records)
    (ha : s'.auctions = s.auctions) (ht : s'.taxCollected = s.taxCollected) :
    s'.value = s.value := by
  simp only [value, creditTotal, balances, escrows]
  rw [hc, hr, ha, ht]

lemma taxCollected_le_value (s : State E) : s.taxCollected ≤ s.value := by
  simp only [value]
  omega

lemma creditOf_le_value (s : State E) (p : Principal) : s.creditOf p ≤ s.value := by
  have hle := s.creditOf_le_creditTotal p
  simp only [value]
  omega

lemma taxCollected_add_balances_le_value (s : State E) :
    s.taxCollected + s.balances ≤ s.value := by
  simp only [value]
  omega

/-! ## Bids -/

lemma tidy_closedFirst {cfg : Config} {name : String} {now : ℕ} (ht : s.Tidy)
    (hc : ClosedFirst s cfg name now s') : s'.Tidy :=
  ⟨ht.shape.closedFirst hc, ht.oneBid.closedFirst hc⟩

lemma value_closedFirst (hX : E.auction.TaxLaws) (hV : E.auction.VickreyLaws) {cfg : Config}
    {name : String} {now : ℕ} (ht : s.Tidy) (hfit : s.value ≤ u128Max)
    (hc : ClosedFirst s cfg name now s') : s'.value = s.value := by
  cases hc with
  | running => rfl
  | ended hclose => exact value_close hX hV ht hfit hclose

/-- A commitment puts the deposit into escrow and takes the replaced one out. -/
lemma escrow_commit (hV : E.auction.VickreyLaws) {a a' : E.auction.Auction} {now deposit : ℕ}
    {bidder commitment : Bytes} {replaced : Option ℕ}
    (hnd : ((E.auction.bids a).map Bid.bidder).Nodup)
    (h : E.auction.commit a now bidder commitment deposit = .ok (a', replaced)) :
    E.auction.escrow a' + replaced.getD 0 = E.auction.escrow a + deposit := by
  obtain ⟨-, hperm, rfl⟩ := hV.commit_ok _ _ _ _ _ _ _ h
  have hsum := Keyed.sum_eq_find_add_filter Bid.deposit bidder hnd
  have hsum' := (hperm.map Bid.deposit).sum_eq
  rw [List.map_cons, List.sum_cons] at hsum'
  simp only at hsum'
  simp only [IcAuction.escrow]
  omega

/-- The auction a bid goes to holds what is stored under the name, or nothing yet. -/
lemma escrow_bidAuction (hV : E.auction.VickreyLaws) (s : State E) (cfg : Config) (name : String)
    (now : ℕ) :
    E.auction.escrow (s.bidAuction cfg name now).auction =
      ((s.auctions.get name).map fun r => E.auction.escrow r.auction).getD 0 := by
  simp only [bidAuction, getAuction]
  cases hget : s.auctions.get name with
  | none => simp [IcAuction.escrow, hV.start_bids]
  | some r => rfl

/-- A bid that is placed brings its deposit, less the deposit it replaces. -/
lemma value_placeBid_ok (hX : E.auction.TaxLaws) (hV : E.auction.VickreyLaws) {cfg : Config}
    {name : String} {bidder : Principal} {commitment : Bytes} {deposit now : ℕ}
    {replaced : Option ℕ} (ht : s.Tidy) (hfit : s.value ≤ u128Max)
    (hp : s.placeBid cfg name bidder commitment deposit now = (s', .ok replaced)) :
    s'.value + replaced.getD 0 = s.value + deposit := by
  obtain ⟨s₁, auction, hc, -, hcommit, rfl⟩ := placeBid_ok hp
  have h₁ := value_closedFirst hX hV ht hfit hc
  have hescrow := escrow_commit hV (OneBid.bidAuction hV (tidy_closedFirst ht hc).oneBid cfg name now)
    hcommit
  rw [escrow_bidAuction hV s₁ cfg name now] at hescrow
  have key : ∀ r : Running E, r.auction = auction →
      (s₁.putAuction name r).value + replaced.getD 0 = s.value + deposit := by
    intro r hr
    have hput := s₁.escrows_putAuction name r
    rw [hr] at hput
    have hvalue : (s₁.putAuction name r).value =
        s₁.creditTotal + s₁.balances + (s₁.putAuction name r).escrows + s₁.taxCollected := rfl
    have hvalue₁ : s₁.value = s₁.creditTotal + s₁.balances + s₁.escrows + s₁.taxCollected := rfl
    omega
  exact key _ rfl

lemma value_placeBid_error (hX : E.auction.TaxLaws) (hV : E.auction.VickreyLaws) {cfg : Config}
    {name : String} {bidder : Principal} {commitment : Bytes} {deposit now : ℕ} {e : String}
    (ht : s.Tidy) (hfit : s.value ≤ u128Max)
    (hp : s.placeBid cfg name bidder commitment deposit now = (s', .error e)) :
    s'.value = s.value := by
  rcases placeBid_error hp with rfl | hc
  · rfl
  · exact value_closedFirst hX hV ht hfit hc

/-! ## Writes to flat records -/

/-- Rewriting a held record leaves its balance alone. -/
lemma amendment_balance {cx : Ctx} {name : String} {r r' : Record} {c : Call}
    (h : Amendment s cx name r c r') : r'.balance = r.balance := by
  cases h with
  | repoint => rfl
  | retext => rfl
  | reprice =>
      simp only [Record.balance]
      cases r.flat <;> rfl

/-- A settled record in place of the stored one, its tax counted: the value stays. -/
lemma value_settled (hX : E.auction.TaxLaws) (hn : s.Named) {cfg : Config} {name : String}
    {now : ℕ} {old r : Record} (hfit : s.value ≤ u128Max) (hget : s.records.get name = some old)
    (hname : r.name = old.name) (hbal : r.balance = (settleRecord E cfg old now).1.balance) :
    (s.commitFlat r (settleRecord E cfg old now).2.2).value = s.value := by
  have hsettled := settleRecord_balance cfg now hX old
  have hle := s.storedBalance_le name
  rw [s.storedBalance_of_get hget] at hle
  have hold : s.storedBalance r.name = old.balance := by
    rw [hname, hn name old hget, s.storedBalance_of_get hget]
  have hroom := s.taxCollected_add_balances_le_value
  refine value_commitFlat (n := 0) hold (by omega) ?_
  omega

/-! ## The value after each message -/

lemma value_commit_scoped {cx : Ctx} {name : String} {c : Call} {r : Record}
    (hfit : s.value ≤ u128Max) (hn : s.Named) (h : ScopedWrite s cx name c r) :
    (s.commit r).value = s.value := by
  have htax := s.taxCollected_le_value
  rw [← commitFlat_zero]
  cases h with
  | create hnone =>
      exact value_commitFlat (b := 0) (n := 0) (by simp [storedBalance, Record.new, hnone]) rfl
        (by omega)
  | @repoint _ old hget =>
      have hold : s.storedBalance old.name = old.balance := by
        rw [hn _ _ hget]
        exact s.storedBalance_of_get hget
      exact value_commitFlat (n := 0) (b := old.balance) hold rfl (by omega)
  | @retext _ _ _ old hget =>
      have hold : s.storedBalance old.name = old.balance := by
        rw [hn _ _ hget]
        exact s.storedBalance_of_get hget
      exact value_commitFlat (n := 0) (b := old.balance) hold rfl (by omega)

/-- An announce keeps the balance of what it found, which is nothing under a scoped name. -/
lemma value_announced {cx : Ctx} {a : Announcement} (hfit : s.value ≤ u128Max) (hn : s.Named)
    (h : Announced s cx a s') : s'.value = s.value := by
  have key : ∀ (s₁ : State E) (owner : Principal), s₁.records = s.records →
      s₁.value = s.value → (s₁.commit (s.announceRecord cx a owner)).value = s.value := by
    intro s₁ owner hrec hval
    have htax := s₁.taxCollected_le_value
    rw [← commitFlat_zero, ← hval]
    refine value_commitFlat (n := 0) (b := (s.announceRecord cx a owner).balance) ?_ rfl
      (by omega)
    simp only [storedBalance, announceRecord, getRecord]
    rw [hrec]
    cases hget : s.records.get a.name with
    | none => simp [Record.new, Record.balance, hget]
    | some r =>
        simp only [Option.getD_some]
        rw [hn a.name r hget, hget]
        rfl
  cases h with
  | fresh => exact key _ _ rfl (value_congr rfl rfl rfl rfl)
  | allowed => exact key _ _ rfl rfl

/-- **A call takes value out only to pay it out.** -/
theorem called_value (hX : E.auction.TaxLaws) (hV : E.auction.VickreyLaws) {cx : Ctx} {c : Call}
    {p : Progress} (ht : s.Tidy) (hfit : s.value ≤ u128Max) (h : Called s cx c s' p) :
    s'.value + takenOut p = s.value := by
  cases h with
  | refused => rfl
  | administered ha => cases ha <;> exact value_congr rfl rfl rfl rfl
  | announced _ _ _ _ ha => exact value_announced hfit ht.named ha
  | underHandle _ _ _ hw => exact value_commit_scoped hfit ht.named hw
  | @amended _ name old r hheld ha =>
      exact value_settled hX ht.named hfit hheld.stored
        ((amendment_name ha).trans (settleRecord_name _ _ _)) (amendment_balance ha)
  | @discarded name p h old hs _ _ hget =>
      -- a scoped record holds no balance
      have hdiscard := value_discard (r := old) hget
      obtain ⟨-, hnone, -, -⟩ := ht.shape.plain_of_split hs hget
      have hzero : old.balance = 0 := by simp [Record.balance, hnone]
      rw [hzero] at hdiscard
      exact hdiscard
  | released hheld =>
      have hb := settleRecord_balance s.config cx.now hX
      exact value_release hheld.stored (hb _) hfit
  | @revealed name aliasTo amount salt r _ hr =>
      obtain ⟨old, hget, hreveal, -⟩ := revealed_ok hr
      obtain ⟨-, -, hbids⟩ := hV.reveal_ok _ _ _ _ _ _ hreveal
      have hsame : E.auction.escrow r.auction = E.auction.escrow old.auction := by
        simp only [IcAuction.escrow]
        rw [hbids, List.map_map]
        congr 1
        refine List.map_congr_left fun b _ => ?_
        simp only [Function.comp_apply]
        split_ifs <;> rfl
      have hput := s.escrows_putAuction name r
      rw [hget] at hput
      simp only [Option.map_some, Option.getD_some] at hput
      simp only [value, takenOut]
      change s.creditTotal + s.balances + _ + s.taxCollected + 0 = _
      omega
  | closed hclose => exact value_close hX hV ht hfit hclose
  | pulling hp => cases hp <;> exact value_congr rfl rfl rfl rfl
  | withdrawing _ _ htake =>
      have := value_takeCredit htake
      exact this
  | funding => exact value_congr rfl rfl rfl rfl
  | configuring => rfl

/-! ## The value after each reply -/

lemma value_pullFailed {payer : Principal} {amount : ℕ} {f : Failure} :
    (s.pullFailed payer amount f).value = s.value := by
  simp only [pullFailed]
  split_ifs <;> exact value_congr rfl rfl rfl rfl

/-- A buy brings the price to the seller's credit and the deposit to the name's balance; what was left
of the old balance goes to the seller with it. -/
lemma value_bought (hX : E.auction.TaxLaws) (hn : s.Named) {now : ℕ} {c : BuyCall} {r : Record}
    {tax : ℕ} (htotal : c.total = c.before.price + c.deposit)
    (hfit : s.value + c.total ≤ u128Max)
    (h : s.buyable c.cfg c.name c.caller c.maxPrice now = .ok (r, tax, c.before)) :
    (s.bought now c r tax).value = s.value + c.total := by
  obtain ⟨⟨old, x, hseen⟩, -⟩ := buyable_ok h
  have hbal := hseen.balance hX
  have hle := s.storedBalance_le c.name
  rw [s.storedBalance_of_get hseen.stored] at hle
  have hname : r.name = c.name := hseen.name_of_named hn
  have hval : s.value = s.creditTotal + s.balances + s.escrows + s.taxCollected := rfl
  have hprice : satAdd c.before.price r.balance = c.before.price + r.balance :=
    satAdd_of_le (by omega)
  have hpaid : (s.addCredit r.owner (c.before.price + r.balance)).value =
      s.value + (c.before.price + r.balance) := by
    simp only [value]
    rw [creditTotal_addCredit (by omega), balances_addCredit, escrows_addCredit,
      addCredit_taxCollected]
    omega
  have hnew : (boughtRecord (E := E) c r now).balance = c.deposit := by
    simp [boughtRecord, Record.balance, hX.holding_balance]
  rw [bought, hprice]
  set noted := (s.addCredit r.owner (c.before.price + r.balance)).noteHandedOver c.name now
  have hroom : noted.taxCollected + tax ≤ u128Max := by
    rw [noteHandedOver_taxCollected, addCredit_taxCollected]
    omega
  have hstored : noted.storedBalance (boughtRecord (E := E) c r now).name = old.balance := by
    rw [storedBalance_noteHandedOver, storedBalance_addCredit]
    change s.storedBalance r.name = old.balance
    rw [hname, s.storedBalance_of_get hseen.stored]
  -- the commit itself loses what is left of the old balance, which the credit has already gained
  have hcommit := value_commitFlat_add hroom (r := boughtRecord (E := E) c r now)
  rw [hstored, hnew, value_noteHandedOver, hpaid] at hcommit
  omega

/-- A top-up brings the amount to the name's balance. -/
lemma value_toppedUp (hX : E.auction.TaxLaws) (hn : s.Named) {now : ℕ} {c : DepositCall}
    {r : Record} {tax more : ℕ} {x x' : Harberger} (hfit : s.value + c.amount ≤ u128Max)
    (h : s.payable c.cfg c.name c.amount now = .ok (r, tax, c.before)) (hflat : r.flat = some x)
    (htop : E.auction.topUp c.cfg.params x c.amount now = .ok (x', more)) :
    (s.commitFlat { r with flat := some x', updatedNs := now } (satAdd tax more)).value =
      s.value + c.amount := by
  obtain ⟨⟨old, y, hseen⟩, -⟩ := payable_ok h
  have hbal := hseen.balance hX
  have htopped := hX.topUp_balance _ _ _ _ _ _ htop
  have hr : r.balance = x.balance := by simp [Record.balance, hflat]
  have hle := s.storedBalance_le c.name
  rw [s.storedBalance_of_get hseen.stored] at hle
  have hname : r.name = c.name := hseen.name_of_named hn
  have hroom := s.taxCollected_add_balances_le_value
  have hsum : satAdd tax more = tax + more := satAdd_of_le (by omega)
  rw [hsum]
  refine value_commitFlat (b := old.balance) ?_ ?_ ?_
  · change s.storedBalance r.name = old.balance
    rw [hname]
    exact s.storedBalance_of_get hseen.stored
  · have : Record.balance { r with flat := some x', updatedNs := now } = x'.balance := rfl
    rw [this]
    omega
  · omega

lemma value_settleAll (hX : E.auction.TaxLaws) (hn : s.Named) (hfit : s.value ≤ u128Max)
    (cfg : Config) (now : ℕ) : (s.settleAll cfg now).1.value = s.value := by
  have key : (s.settleAll cfg now).1.Named ∧ (s.settleAll cfg now).1.value = s.value := by
    refine settleAll_induction (P := fun s' => s'.Named ∧ s'.value = s.value)
      (fun s' name old hs' hget => ⟨?_, ?_⟩) ⟨hn, rfl⟩
    · exact named_invariant.commitFlat hs'.1 _ _
    · rw [value_settled hX hs'.1 (by omega) hget (settleRecord_name _ _ _) rfl]
      exact hs'.2
  exact key.2

lemma value_dropInFlight : s.dropInFlight.value = s.value := value_congr rfl rfl rfl rfl

/-- What a purchase that is not made pulled goes to its payer's credit. -/
lemma value_creditedBack {p : Pending} {payer : Principal} {amount block : ℕ}
    (hp : Pulling p payer amount) (hbid : ∀ c, p ≠ .bid c)
    (hfit : s.value + putIn (.ok block) p < u128Max) :
    (s.dropInFlight.addCredit payer amount).value = s.value + putIn (.ok block) p := by
  have hamount : putIn (.ok block) p = amount := by
    cases hp with
    | buy => rfl
    | deposit => rfl
    | bid c => exact absurd rfl (hbid c)
  rw [hamount] at hfit ⊢
  rw [value_addCredit (by rw [value_dropInFlight]; omega), value_dropInFlight]

/-- A bid that is placed brings its deposit to the auction; a replaced one becomes a credit. -/
lemma value_placed (hX : E.auction.TaxLaws) (hV : E.auction.VickreyLaws) (ht : s.Tidy) {now : ℕ}
    {c : BidCall} {replaced : Option ℕ} {s₁ : State E} (hfit : s.value + c.deposit < u128Max)
    (hp : s.dropInFlight.placeBid c.cfg c.name c.caller c.commitment c.deposit now =
      (s₁, .ok replaced)) :
    (s₁.addCredit c.caller (replaced.getD 0)).value = s.value + c.deposit := by
  have hdrop : s.dropInFlight.value = s.value := value_dropInFlight
  have htidy : s.dropInFlight.Tidy := ⟨ht.shape.congr rfl rfl, ht.oneBid⟩
  have := value_placeBid_ok hX hV htidy (by omega) hp
  rw [value_addCredit (by omega)]
  omega

/-- The deposit of a bid that is refused becomes a credit. -/
lemma value_bidRefused (hX : E.auction.TaxLaws) (hV : E.auction.VickreyLaws) (ht : s.Tidy) {now : ℕ}
    {c : BidCall} {e : String} {s₁ : State E} (hfit : s.value + c.deposit < u128Max)
    (hp : s.dropInFlight.placeBid c.cfg c.name c.caller c.commitment c.deposit now =
      (s₁, .error e)) :
    (s₁.addCredit c.caller c.deposit).value = s.value + c.deposit := by
  have hdrop : s.dropInFlight.value = s.value := value_dropInFlight
  have htidy : s.dropInFlight.Tidy := ⟨ht.shape.congr rfl rfl, ht.oneBid⟩
  have := value_placeBid_error hX hV htidy (by omega) hp
  rw [value_addCredit (by omega)]
  omega

/-- A refused payout goes back to the credit it was taken from. -/
lemma value_payRefused {caller : Principal} {amount : ℕ} (hfit : s.value + amount < u128Max) :
    (s.addCredit caller amount).dropInFlight.value = s.value + amount := by
  rw [value_dropInFlight]
  exact value_addCredit (by omega)

lemma putIn_withdraw {f : Failure} {cfg : Config} {caller : Principal} {amount : ℕ}
    (hmoved : f.didNothing = false) : putIn (.error f) (.withdraw cfg caller amount) = 0 := by
  cases f with
  | nothingMoved m => simp [Failure.didNothing] at hmoved
  | feeCharged m => rfl
  | undecodable m => rfl

/-- Changing the tax settings only moves tax from balances to the treasury. -/
lemma value_configured (hX : E.auction.TaxLaws) (hn : s.Named) (hfit : s.value ≤ u128Max) {c : Config}
    {fee now : ℕ} {s₁ : State E}
    (hs₁ : s₁ = if c.rateBps ≠ s.config.rateBps then (s.settleAll s.config now).1 else s) :
    ({ s₁ with harberger := some { c with fee := fee } } : State E).value = s.value := by
  have hvalue : s₁.value = s.value := by
    subst hs₁
    split_ifs
    · exact value_settleAll hX hn hfit _ _
    · rfl
  rw [← hvalue]
  exact value_congr rfl rfl rfl rfl

/-- **A reply puts into the books exactly what was pulled, or what was not paid.** -/
theorem resumed_value (hX : E.auction.TaxLaws) (hV : E.auction.VickreyLaws) {now : ℕ}
    {reply : Except Failure ℕ} {p : Pending} {pr : Progress} (ht : s.Tidy) (hcarried : Carried p)
    (hfit : s.value + putIn reply p < u128Max) (h : Resumed s now reply p s' pr) :
    s'.value = s.value + putIn reply p := by
  have hdrop : s.dropInFlight.value = s.value := value_dropInFlight
  cases h with
  | pullFailed hp hreply =>
      subst hreply
      rw [value_pullFailed]
      cases hp <;> rfl
  | @bought c block r tax hreply hbuy =>
      subst hreply
      obtain ⟨-, -, htotal⟩ := hcarried
      simp only [putIn] at hfit ⊢
      have hexact : c.total = c.before.price + c.deposit := by
        rw [htotal]
        exact satAdd_eq_of_lt (by omega)
      exact value_bought (s := s.dropInFlight) hX ht.named hexact (by omega) hbuy
  | toppedUp hreply hpay hflat htop =>
      subst hreply
      simp only [putIn] at hfit ⊢
      exact value_toppedUp (s := s.dropInFlight) hX ht.named (by omega) hpay hflat htop
  | creditedBack _ hp hbid hreply =>
      subst hreply
      exact value_creditedBack hp hbid hfit
  | placed hreply hp =>
      subst hreply
      exact value_placed hX hV ht hfit hp
  | bidRefused hreply hp =>
      subst hreply
      exact value_bidRefused hX hV ht hfit hp
  | paid hreply =>
      subst hreply
      exact hdrop
  | payRefused hreply =>
      subst hreply
      exact value_payRefused hfit
  | payUnconfirmed _ hreply hmoved =>
      subst hreply
      rw [putIn_withdraw hmoved]
      exact value_congr rfl rfl rfl rfl
  | feeRefused => exact hdrop
  | feeAgreed => exact value_congr rfl rfl rfl rfl
  | funded => exact hdrop
  | fundRefused => exact value_congr rfl rfl rfl rfl
  | fundCharged => exact value_congr rfl rfl rfl rfl
  | fundUnconfirmed => exact value_congr rfl rfl rfl rfl
  | configRefused => rfl
  | configSettled =>
      simp only [putIn] at hfit
      exact value_settleAll hX ht.named (by omega) _ _
  | configured _ _ _ hs' =>
      simp only [putIn] at hfit
      exact value_configured hX ht.named (by omega) hs'

end State
