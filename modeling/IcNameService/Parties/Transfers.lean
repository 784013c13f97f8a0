import IcNameService.Books.Messages
import IcNameService.Parties.Closing

/-!
# What one message takes from whom

A call takes cycles only from its caller, unless it closes an auction.  A reply brings in what was pulled
from its payer, and passes on the price of a sale or a top-up of somebody's name.  All else goes to the
treasury: tax, at the rules the message goes by.

* `State.CallMoves`, `State.ReplyMoves` — the transfers a message may post.
* `State.called_posted`, `State.resumed_posted` — **every message posts such transfers, and nothing else.**
-/

namespace State

variable {E : Env}

/-! ## What may be moved -/

/-- What the message of a call may move. -/
inductive CallMoves (s : State E) (cx : Ctx) : Call → Transfer Account → Prop
  /-- The caller's own name is settled. -/
  | tax {c : Call} {name : String} {r : Record} :
      s.records.get name = some r → r.owner = cx.caller →
      CallMoves s cx c
        ⟨some (.party cx.caller), some .treasury, (settleRecord E s.config r cx.now).2.2⟩
  | close {name : String} {t : Transfer Account} :
      Closes s s.config name cx.now t → CallMoves s cx (.closeAuction name) t
  | withdraw {amount : ℕ} :
      CallMoves s cx (.withdraw amount) ⟨some (.party cx.caller), none, amount⟩

/-- What the reply to a suspended call may move. -/
inductive ReplyMoves (s : State E) (now : ℕ) (reply : Except Failure ℕ) :
    Pending → Transfer Account → Prop
  | paidIn {p : Pending} {payer : Principal} {amount block : ℕ} :
      Pulling p payer amount → reply = .ok block →
      ReplyMoves s now reply p ⟨none, some (.party payer), amount⟩
  | sale {c : BuyCall} {block : ℕ} {old : Record} :
      reply = .ok block → s.records.get c.name = some old →
      ReplyMoves s now reply (.buy c)
        ⟨some (.party c.caller), some (.party old.owner), c.before.price⟩
  | saleTax {c : BuyCall} {block : ℕ} {old : Record} :
      reply = .ok block → s.records.get c.name = some old →
      ReplyMoves s now reply (.buy c)
        ⟨some (.party old.owner), some .treasury, (settleRecord E c.cfg old now).2.2⟩
  | topUp {c : DepositCall} {block : ℕ} {old : Record} :
      reply = .ok block → s.records.get c.name = some old →
      ReplyMoves s now reply (.deposit c)
        ⟨some (.party c.caller), some (.party old.owner), c.amount⟩
  | topUpTax {c : DepositCall} {block more : ℕ} {old : Record} {x x' : Harberger} :
      reply = .ok block → s.records.get c.name = some old →
      (settleRecord E c.cfg old now).1.flat = some x →
      E.auction.topUp c.cfg.params x c.amount now = .ok (x', more) →
      ReplyMoves s now reply (.deposit c)
        ⟨some (.party old.owner), some .treasury, (settleRecord E c.cfg old now).2.2 + more⟩
  | close {c : BidCall} {block : ℕ} {t : Transfer Account} :
      reply = .ok block → Closes s c.cfg c.name now t → ReplyMoves s now reply (.bid c) t
  | returned {cfg : Config} {caller : Principal} {amount : ℕ} {m : String} :
      reply = .error (.nothingMoved m) →
      ReplyMoves s now reply (.withdraw cfg caller amount) ⟨none, some (.party caller), amount⟩
  /-- A change of the rate settles every name first. -/
  | rateTax {c : Config} {fee : ℕ} {t : Transfer Account} :
      reply = .ok fee → Taxes s s.config now t → ReplyMoves s now reply (.setHarbergerConfig c) t

variable {s s' : State E}

/-! ## Settlements -/

/-- A settled record in place of the stored one: its owner pays the tax. -/
lemma posted_settled (hX : E.auction.TaxLaws) (hn : s.Named) {cfg : Config} {name : String}
    {now : ℕ} {old r : Record} (hfit : s.value ≤ u128Max)
    (hget : s.records.get name = some old) (hname : r.name = old.name)
    (howner : r.owner = old.owner) (hbal : r.balance = (settleRecord E cfg old now).1.balance) :
    Journal.Posted [⟨some (.party old.owner), some .treasury, (settleRecord E cfg old now).2.2⟩]
      s.holds (s.commitFlat r (settleRecord E cfg old now).2.2).holds := by
  have hsettled := settleRecord_balance cfg now hX old
  have hle := s.storedBalance_le name
  rw [s.storedBalance_of_get hget] at hle
  have hroom := s.taxCollected_add_balances_le_value
  intro a
  have hcommit := holds_commitFlat (s := s) (r := r)
    (show s.taxCollected + (settleRecord E cfg old now).2.2 ≤ u128Max by omega) a
  have hat : s.prepaidAt r.name a = old.prepaid a := by
    rw [hname, hn name old hget]
    exact prepaidAt_of_get hget a
  rw [hat, Record.prepaid, Record.prepaid, howner] at hcommit
  simp only [Journal.paid_cons, Journal.received_cons, Journal.paid_nil, Journal.received_nil,
    Option.some.injEq]
  cases a with
  | treasury =>
      simp at hcommit ⊢
      omega
  | party p =>
      by_cases hp : p = old.owner
      · subst hp
        simp at hcommit ⊢
        omega
      · simp [hp, Ne.symm hp] at hcommit ⊢
        omega

/-! ## Settling every name -/

/-- No name is settled twice. -/
lemma Named.flatNames_nodup (hn : s.Named) :
    ((s.records.entries.filter fun e => e.2.flat.isSome).map fun e => e.2.name).Nodup := by
  have hkeys : ((s.records.entries.filter fun e => e.2.flat.isSome).map fun e => e.2.name) =
      (s.records.entries.filter fun e => e.2.flat.isSome).map Prod.fst :=
    List.map_congr_left fun e he => hn e.1 e.2 (OrdMap.mem_entries.mp (List.mem_filter.mp he).1)
  rw [hkeys]
  exact s.records.keys_nodup.sublist (List.filter_sublist.map _)

/-- One name of `settle_all`, found as it was stored. -/
lemma settleName_posted (hX : E.auction.TaxLaws) {cfg : Config} {now : ℕ} {acc : State E × ℕ × ℕ}
    (hn : acc.1.Named) (hfit : acc.1.value ≤ u128Max) {name : String}
    (hsame : acc.1.records.get name = s.records.get name) :
    ∃ ts, Journal.Posted ts acc.1.holds (settleName cfg now acc name).1.holds ∧
      ∀ t ∈ ts, Taxes s cfg now t := by
  simp only [settleName]
  cases hget : acc.1.records.get name with
  | none =>
      simp only [getRecord, hget]
      exact ⟨[], .nil fun _ => rfl, by simp⟩
  | some old =>
      simp only [getRecord, hget]
      refine ⟨_, posted_settled hX hn hfit hget (settleRecord_name _ _ _) (settleRecord_owner _ _ _)
        rfl, fun t ht => ?_⟩
      rw [List.mem_singleton] at ht
      subst ht
      exact .settled (hsame ▸ hget)

lemma settleName_value (hX : E.auction.TaxLaws) {cfg : Config} {now : ℕ} {acc : State E × ℕ × ℕ}
    (hn : acc.1.Named) (hfit : acc.1.value ≤ u128Max) (name : String) :
    (settleName cfg now acc name).1.value = acc.1.value := by
  simp only [settleName]
  cases hget : acc.1.records.get name with
  | none => simp only [getRecord, hget]
  | some old =>
      simp only [getRecord, hget]
      exact value_settled hX hn hfit hget (settleRecord_name _ _ _) rfl

/-- The round, by induction on the names that are left: none of them has been touched yet. -/
lemma settleNames_posted (hX : E.auction.TaxLaws) {cfg : Config} {now : ℕ} :
    ∀ {names : List String} {acc : State E × ℕ × ℕ}, acc.1.Named → acc.1.value ≤ u128Max →
      names.Nodup → (∀ name ∈ names, acc.1.records.get name = s.records.get name) →
      ∃ ts, Journal.Posted ts acc.1.holds (names.foldl (settleName cfg now) acc).1.holds ∧
        ∀ t ∈ ts, Taxes s cfg now t
  | [], _, _, _, _, _ => ⟨[], .nil fun _ => rfl, by simp⟩
  | name :: names, acc, hn, hfit, hnd, hsame => by
      obtain ⟨hnot, hnd⟩ := List.nodup_cons.mp hnd
      obtain ⟨ts, hts, htaxes⟩ := settleName_posted hX hn hfit (hsame name List.mem_cons_self)
      have hrest : ∀ k ∈ names,
          (settleName cfg now acc name).1.records.get k = s.records.get k := by
        intro k hk
        have hne : k ≠ name := by
          rintro rfl
          exact hnot hk
        rw [settleName_get hn, if_neg hne]
        exact hsame k (List.mem_cons_of_mem _ hk)
      obtain ⟨us, hus, htaxes'⟩ := settleNames_posted hX (settleName_named hn name)
        (by rw [settleName_value hX hn hfit]; exact hfit) hnd hrest
      refine ⟨ts ++ us, hts.append hus, fun t ht => ?_⟩
      exact (List.mem_append.mp ht).elim (htaxes t) (htaxes' t)

/-- **Settling every name takes each owner's tax, once.** -/
lemma settleAll_posted (hX : E.auction.TaxLaws) (hn : s.Named) (hfit : s.value ≤ u128Max)
    (cfg : Config) (now : ℕ) :
    ∃ ts, Journal.Posted ts s.holds (s.settleAll cfg now).1.holds ∧ ∀ t ∈ ts, Taxes s cfg now t :=
  @settleNames_posted _ _ hX _ _ _ (s, 0, 0) hn hfit hn.flatNames_nodup fun _ _ => rfl

/-! ## Calls -/

/-- A scoped record holds nothing for anybody. -/
lemma holds_commit_plain (hs : s.Shape) {r : Record} {p : String × String}
    (hsplit : Names.split r.name = .ok p) (hr : r.Shaped) (a : Account) :
    (s.commit r).holds a = s.holds a := by
  obtain ⟨-, hnone, -, -⟩ := hr.plain (Names.isScoped_of_split hsplit)
  have hnew : r.prepaid a = 0 := by simp [Record.prepaid, Record.balance, hnone]
  have hold : s.prepaidAt r.name a = 0 := by
    cases hget : s.records.get r.name with
    | none => simp [prepaidAt, hget]
    | some old =>
        obtain ⟨-, hnone, -, -⟩ := hs.plain_of_split hsplit hget
        simp [prepaidAt, hget, Record.prepaid, Record.balance, hnone]
  have hcommit := s.holds_commit r a
  omega

/-- A release pays the settled balance out, to its owner. -/
lemma posted_released (hX : E.auction.TaxLaws) {cfg : Config} {name : String} {now : ℕ}
    {old : Record} (hfit : s.value ≤ u128Max) (hget : s.records.get name = some old) :
    Journal.Posted [⟨some (.party old.owner), some .treasury, (settleRecord E cfg old now).2.2⟩]
      s.holds
      (s.release (settleRecord E cfg old now).1 (settleRecord E cfg old now).2.2 name).holds := by
  have hsettled := settleRecord_balance cfg now hX old
  have hle := s.storedBalance_le name
  rw [s.storedBalance_of_get hget] at hle
  have hvalue : s.value = s.creditTotal + s.balances + s.escrows + s.taxCollected := rfl
  have hcredit := s.creditOf_le_creditTotal old.owner
  set r := (settleRecord E cfg old now).1 with hr
  set tax := (settleRecord E cfg old now).2.2 with htax
  have howner : r.owner = old.owner := settleRecord_owner _ _ _
  have htaxed : ∀ a, (s.noteTaxCollected tax).holds a =
      s.holds a + if a = .treasury then tax else 0 := fun a =>
    holds_noteTaxCollected (show s.taxCollected + tax ≤ u128Max by omega) a
  have hpaid : ∀ a, (s.paidOut r tax).holds a =
      s.holds a + (if a = .treasury then tax else 0) +
        if a = .party old.owner then r.balance else 0 := fun a => by
    rw [paidOut, howner, holds_addCredit, htaxed]
    rw [creditOf, noteTaxCollected_credits]
    change s.creditOf old.owner + r.balance ≤ u128Max
    omega
  have hget' : (s.paidOut r tax).records.get name = some old := by
    rw [(sameRecords_paidOut _ r tax).records]
    exact hget
  intro a
  have hdiscard := holds_discard (r := r) hget' a
  rw [hpaid, Record.prepaid] at hdiscard
  rw [release_eq]
  simp only [Journal.paid_cons, Journal.received_cons, Journal.paid_nil, Journal.received_nil,
    Option.some.injEq]
  cases a with
  | treasury =>
      simp at hdiscard ⊢
      omega
  | party p =>
      by_cases hp : p = old.owner
      · subst hp
        simp at hdiscard ⊢
        omega
      · simp [hp, Ne.symm hp] at hdiscard ⊢
        omega

/-- A reveal moves no deposit. -/
lemma posted_revealed (hV : E.auction.VickreyLaws) {cfg : Config} {name aliasTo : String}
    {bidder : Principal} {amount now : ℕ} {salt : Bytes} {r : Running E}
    (h : s.revealed cfg name bidder amount salt aliasTo now = .ok r) :
    Journal.Posted [] s.holds (s.putAuction name r).holds := by
  obtain ⟨old, hget, hreveal, -⟩ := revealed_ok h
  obtain ⟨-, -, hbids⟩ := hV.reveal_ok _ _ _ _ _ _ hreveal
  refine .nil fun a => ?_
  have hsame : E.auction.pledge r.auction a = E.auction.pledge old.auction a := by
    cases a with
    | treasury => rfl
    | party p =>
        simp only [IcAuction.pledge]
        rw [hbids, List.map_map]
        refine congrArg List.sum (List.map_congr_left fun b _ => ?_)
        simp only [Function.comp_apply]
        by_cases hb : b.bidder = bidder.bytes
        · rw [if_pos hb]
        · rw [if_neg hb]
  have hput := s.holds_putAuction name r a
  rw [pledgedAt_of_get hget, hsame] at hput
  omega

/-- **A call takes cycles only from its caller**, unless it closes an auction. -/
theorem called_posted (hX : E.auction.TaxLaws) (hV : E.auction.VickreyLaws) {cx : Ctx} {c : Call}
    {p : Progress} (ht : s.Tidy) (hfit : s.value ≤ u128Max) (h : Called s cx c s' p) :
    ∃ ts, Journal.Posted ts s.holds s'.holds ∧ ∀ t ∈ ts, CallMoves s cx c t := by
  have hnothing : (∀ a, s'.holds a = s.holds a) →
      ∃ ts, Journal.Posted ts s.holds s'.holds ∧ ∀ t ∈ ts, CallMoves s cx c t := fun hsame =>
    ⟨[], .nil hsame, by simp⟩
  cases h with
  | refused => exact hnothing fun _ => rfl
  | administered ha => cases ha <;> exact hnothing (holds_congr rfl rfl rfl rfl)
  | @announced a _ _ _ _ _ ha =>
      cases ha with
      | @fresh handle label hsplit =>
          have hname : Names.split (s.announceRecord cx a cx.caller).name = .ok (handle, label) := by
            rw [ht.named.announceRecord_name]
            exact hsplit
          exact hnothing fun a => (holds_commit_plain (ht.shape.congr rfl rfl) hname
            (ht.shape.announceRecord _ hsplit) a).trans (holds_congr rfl rfl rfl rfl a)
      | @allowed handle label h hsplit =>
          have hname : Names.split (s.announceRecord cx a h.owner).name = .ok (handle, label) := by
            rw [ht.named.announceRecord_name]
            exact hsplit
          exact hnothing (holds_commit_plain ht.shape hname (ht.shape.announceRecord _ hsplit))
  | underHandle hsplit _ _ hw =>
      have hname := hsplit
      rw [← ht.named.scopedWrite_name hw] at hname
      exact hnothing (holds_commit_plain ht.shape hname (ht.shape.scopedWrite hsplit hw))
  | @amended _ name old r hheld ha =>
      have howner : r.owner = old.owner := by
        cases ha <;> exact settleRecord_owner _ _ _
      refine ⟨_, posted_settled hX ht.named hfit hheld.stored
        ((amendment_name ha).trans (settleRecord_name _ _ _)) howner (amendment_balance ha),
        fun t htmem => ?_⟩
      rw [List.mem_singleton] at htmem
      rw [htmem, hheld.owner]
      exact .tax hheld.stored hheld.owner
  | @discarded name p h old hs _ _ hget =>
      refine hnothing fun a => ?_
      obtain ⟨-, hnone, -, -⟩ := ht.shape.plain_of_split hs hget
      have hdiscard := holds_discard (r := old) hget a
      simp only [Record.prepaid, Record.balance, hnone, Option.map_none, Option.getD_none, ite_self,
        Nat.add_zero] at hdiscard
      exact hdiscard
  | released hheld =>
      refine ⟨_, posted_released hX hfit hheld.stored, fun t htmem => ?_⟩
      rw [List.mem_singleton] at htmem
      rw [htmem, hheld.owner]
      exact .tax hheld.stored hheld.owner
  | revealed _ hr => exact ⟨[], posted_revealed hV hr, by simp⟩
  | closed hclose =>
      obtain ⟨ts, hts, hcloses⟩ := close_posted hX hV ht hfit hclose
      exact ⟨ts, hts, fun t htmem => .close (hcloses t htmem)⟩
  | pulling => exact hnothing (holds_congr rfl rfl rfl rfl)
  | @withdrawing amount s₁ _ _ htake =>
      refine ⟨[⟨some (.party cx.caller), none, amount⟩], fun a => ?_, fun t htmem => ?_⟩
      · have htaken := holds_takeCredit htake a
        have hsame : s₁.raiseInFlight.holds a = s₁.holds a := holds_congr rfl rfl rfl rfl a
        rw [hsame]
        simp only [Journal.paid_cons, Journal.received_cons, Journal.paid_nil, Journal.received_nil,
          Option.some.injEq, eq_comm (b := a), reduceCtorEq, if_false]
        omega
      · rw [List.mem_singleton] at htmem
        rw [htmem]
        exact .withdraw
  | funding => exact hnothing (holds_congr rfl rfl rfl rfl)
  | configuring => exact hnothing fun _ => rfl

/-! ## Replies -/

/-- The payment goes from the payer's account at the ledger to the payer's credit. -/
lemma posted_addCredit {p : Principal} {n : ℕ} (h : s.creditOf p + n ≤ u128Max) :
    Journal.Posted [⟨none, some (.party p), n⟩] s.holds (s.addCredit p n).holds := by
  intro a
  rw [holds_addCredit h]
  simp only [Journal.paid_cons, Journal.received_cons, Journal.paid_nil, Journal.received_nil,
    Option.some.injEq, eq_comm (b := a), reduceCtorEq, if_false]
  omega

/-- **A sale**: the buyer pays in, and pays the price on to the seller; what is left of the seller's
balance stays the seller's, less the tax. -/
lemma posted_bought (hX : E.auction.TaxLaws) (hn : s.Named) {now : ℕ} {c : BuyCall} {r : Record}
    {tax : ℕ} (htotal : c.total = c.before.price + c.deposit) (hfit : s.value + c.total ≤ u128Max)
    (h : s.buyable c.cfg c.name c.caller c.maxPrice now = .ok (r, tax, c.before)) :
    ∃ old, s.records.get c.name = some old ∧
      Journal.Posted [⟨none, some (.party c.caller), c.total⟩,
        ⟨some (.party c.caller), some (.party old.owner), c.before.price⟩,
        ⟨some (.party old.owner), some .treasury, (settleRecord E c.cfg old now).2.2⟩]
        s.holds (s.bought now c r tax).holds := by
  obtain ⟨⟨old, x, hseen⟩, -, hother, -⟩ := buyable_ok h
  have hbal := hseen.balance hX
  have hle := s.storedBalance_le c.name
  rw [s.storedBalance_of_get hseen.stored] at hle
  have hname : r.name = c.name := hseen.name_of_named hn
  have howner : r.owner = old.owner := by
    rw [hseen.settled]
    exact settleRecord_owner _ _ _
  have hval : s.value = s.creditTotal + s.balances + s.escrows + s.taxCollected := rfl
  have hcredit := s.creditOf_le_creditTotal r.owner
  refine ⟨old, hseen.stored, fun a => ?_⟩
  have hprice : satAdd c.before.price r.balance = c.before.price + r.balance :=
    satAdd_of_le (by omega)
  have hpaid := holds_addCredit (s := s) (p := r.owner) (n := c.before.price + r.balance)
    (by omega) a
  have hnew : (boughtRecord (E := E) c r now).prepaid a =
      if a = .party c.caller then c.deposit else 0 := by
    simp [Record.prepaid, boughtRecord, Record.balance, hX.holding_balance]
  have hold : s.prepaidAt r.name a = if a = .party old.owner then old.balance else 0 := by
    rw [hname, prepaidAt_of_get hseen.stored, Record.prepaid]
  set noted := (s.addCredit r.owner (c.before.price + r.balance)).noteHandedOver c.name now
    with hnoted
  have hcommit := holds_commitFlat (s := noted) (r := boughtRecord (E := E) c r now)
    (show noted.taxCollected + tax ≤ u128Max by
      rw [hnoted, noteHandedOver_taxCollected, addCredit_taxCollected]
      omega) a
  have hsame : noted.holds a = (s.addCredit r.owner (c.before.price + r.balance)).holds a :=
    holds_congr rfl rfl rfl rfl a
  have hat : noted.prepaidAt (boughtRecord (E := E) c r now).name a = s.prepaidAt r.name a := by
    change State.prepaidAt (s.addCredit r.owner (c.before.price + r.balance)) r.name a = _
    rw [prepaidAt, prepaidAt, addCredit_records]
  rw [hsame, hat, hold, hnew, hpaid, howner] at hcommit
  rw [bought, hprice, ← hnoted, ← hseen.tax_eq]
  simp only [Journal.paid_cons, Journal.received_cons, Journal.paid_nil, Journal.received_nil,
    Option.some.injEq]
  cases a with
  | treasury =>
      simp only [reduceCtorEq, if_true, if_false] at hcommit ⊢
      omega
  | party p =>
      simp only [Account.party.injEq, reduceCtorEq, if_false, eq_comm (b := p)] at hcommit ⊢
      split_ifs at hcommit ⊢ <;> omega

/-- **A top-up**: the payer pays in, and gives the amount to the holder, who pays the tax. -/
lemma posted_toppedUp (hX : E.auction.TaxLaws) (hn : s.Named) {now : ℕ} {c : DepositCall}
    {r : Record} {tax more : ℕ} {x x' : Harberger} (hfit : s.value + c.amount ≤ u128Max)
    (h : s.payable c.cfg c.name c.amount now = .ok (r, tax, c.before)) (hflat : r.flat = some x)
    (htop : E.auction.topUp c.cfg.params x c.amount now = .ok (x', more)) :
    ∃ old, s.records.get c.name = some old ∧ (settleRecord E c.cfg old now).1.flat = some x ∧
      Journal.Posted [⟨none, some (.party c.caller), c.amount⟩,
        ⟨some (.party c.caller), some (.party old.owner), c.amount⟩,
        ⟨some (.party old.owner), some .treasury, (settleRecord E c.cfg old now).2.2 + more⟩]
        s.holds
        (s.commitFlat { r with flat := some x', updatedNs := now } (satAdd tax more)).holds := by
  obtain ⟨⟨old, y, hseen⟩, -⟩ := payable_ok h
  have hbal := hseen.balance hX
  have htopped := hX.topUp_balance _ _ _ _ _ _ htop
  have hr : r.balance = x.balance := by simp [Record.balance, hflat]
  have hle := s.storedBalance_le c.name
  rw [s.storedBalance_of_get hseen.stored] at hle
  have hname : r.name = c.name := hseen.name_of_named hn
  have howner : r.owner = old.owner := by
    rw [hseen.settled]
    exact settleRecord_owner _ _ _
  have hroom := s.taxCollected_add_balances_le_value
  have hsum : satAdd tax more = tax + more := satAdd_of_le (by omega)
  refine ⟨old, hseen.stored, hseen.settled ▸ hflat, fun a => ?_⟩
  have hcommit := holds_commitFlat (s := s) (r := { r with flat := some x', updatedNs := now })
    (show s.taxCollected + (tax + more) ≤ u128Max by omega) a
  have hat : s.prepaidAt r.name a = if a = .party old.owner then old.balance else 0 := by
    rw [hname]
    exact prepaidAt_of_get hseen.stored a
  have hnew : Record.prepaid { r with flat := some x', updatedNs := now } a =
      if a = .party old.owner then x'.balance else 0 := by
    rw [Record.prepaid, howner]
    rfl
  simp only at hcommit
  rw [hat, hnew] at hcommit
  rw [hsum, ← hseen.tax_eq]
  simp only [Journal.paid_cons, Journal.received_cons, Journal.paid_nil, Journal.received_nil,
    Option.some.injEq]
  cases a with
  | treasury =>
      simp only [reduceCtorEq, if_true, if_false] at hcommit ⊢
      omega
  | party p =>
      simp only [Account.party.injEq, reduceCtorEq, if_false, eq_comm (b := p)] at hcommit ⊢
      split_ifs at hcommit ⊢ <;> omega

/-! ## Bids -/

/-- A commitment pledges its deposit, and frees the one it replaces. -/
lemma pledge_commit (hV : E.auction.VickreyLaws) {x x' : E.auction.Auction} {now deposit : ℕ}
    {bidder : Principal} {commitment : Bytes} {replaced : Option ℕ}
    (hnd : ((E.auction.bids x).map Bid.bidder).Nodup)
    (h : E.auction.commit x now bidder.bytes commitment deposit = .ok (x', replaced)) (a : Account) :
    E.auction.pledge x' a + (if a = .party bidder then replaced.getD 0 else 0) =
      E.auction.pledge x a + if a = .party bidder then deposit else 0 := by
  obtain ⟨-, hperm, rfl⟩ := hV.commit_ok _ _ _ _ _ _ _ h
  cases a with
  | treasury => simp [IcAuction.pledge]
  | party p =>
      have hiff : bidder.bytes = p.bytes ↔ p = bidder := by
        rw [← Account.party_mk_eq, Account.party.injEq, eq_comm]
      simp only [IcAuction.pledge, Account.party.injEq]
      set g : Bid → ℕ := fun b => if b.bidder = p.bytes then b.deposit else 0 with hg
      have hnew := (hperm.map g).sum_eq
      rw [List.map_cons, List.sum_cons] at hnew
      have hold := Keyed.sum_eq_find_add_filter g bidder.bytes hnd
      have hreplaced : (((E.auction.bids x).find? fun b => b.bidder = bidder.bytes).map g).getD 0 =
          if p = bidder then (((E.auction.bids x).find? fun b => b.bidder = bidder.bytes).map
            Bid.deposit).getD 0 else 0 := by
        cases hfind : (E.auction.bids x).find? fun b => b.bidder = bidder.bytes with
        | none => simp
        | some b =>
            have hb : b.bidder = bidder.bytes := by simpa using List.find?_some hfind
            simp only [hg, hb, hiff, Option.map_some, Option.getD_some]
      have hplaced : g ⟨bidder.bytes, deposit, none⟩ = if p = bidder then deposit else 0 := by
        simp only [hg, hiff]
      omega

lemma pledge_bidAuction (hV : E.auction.VickreyLaws) (s : State E) (cfg : Config) (name : String)
    (now : ℕ) (a : Account) :
    E.auction.pledge (s.bidAuction cfg name now).auction a = s.pledgedAt name a := by
  simp only [bidAuction, getAuction, pledgedAt]
  cases hget : s.auctions.get name with
  | none => cases a <;> simp [IcAuction.pledge, hV.start_bids]
  | some r => rfl

lemma posted_closedFirst (hX : E.auction.TaxLaws) (hV : E.auction.VickreyLaws) {cfg : Config}
    {name : String} {now : ℕ} (ht : s.Tidy) (hfit : s.value ≤ u128Max)
    (hc : ClosedFirst s cfg name now s') :
    ∃ ts, Journal.Posted ts s.holds s'.holds ∧ ∀ t ∈ ts, Closes s cfg name now t := by
  cases hc with
  | running => exact ⟨[], .nil fun _ => rfl, by simp⟩
  | ended hclose => exact close_posted hX hV ht hfit hclose

/-- Only the records and the auctions say what a close may take. -/
lemma Closes.congr {cfg : Config} {name : String} {now : ℕ} {t : Transfer Account}
    (h : Closes s' cfg name now t) (hr : s'.records = s.records) (ha : s'.auctions = s.auctions) :
    Closes s cfg name now t := by
  cases h with
  | forfeit hget ho hx => exact .forfeit (ha ▸ hget) ho hx
  | price hget ho hw => exact .price (ha ▸ hget) ho hw
  | lapsed hget hfree => exact .lapsed (hr ▸ hget) hfree

/-- A bid that is placed pledges what was paid in; what it replaces becomes credit. -/
lemma posted_placed (hX : E.auction.TaxLaws) (hV : E.auction.VickreyLaws) {cfg : Config}
    {name : String} {bidder : Principal} {commitment : Bytes} {deposit now : ℕ}
    {replaced : Option ℕ} (ht : s.Tidy) (hfit : s.value + deposit ≤ u128Max)
    (hp : s.placeBid cfg name bidder commitment deposit now = (s', .ok replaced)) :
    ∃ ts, Journal.Posted (ts ++ [⟨none, some (.party bidder), deposit⟩]) s.holds
        (s'.addCredit bidder (replaced.getD 0)).holds ∧ ∀ t ∈ ts, Closes s cfg name now t := by
  have hvalue := value_placeBid_ok hX hV ht (by omega) hp
  obtain ⟨s₁, auction, hc, -, hcommit, rfl⟩ := placeBid_ok hp
  obtain ⟨ts, hts, hcloses⟩ := posted_closedFirst hX hV ht (by omega) hc
  refine ⟨ts, hts.append fun a => ?_, hcloses⟩
  have hpledge := pledge_commit hV
    (OneBid.bidAuction hV (tidy_closedFirst ht hc).oneBid cfg name now) hcommit a
  rw [pledge_bidAuction hV] at hpledge
  have hput := s₁.holds_putAuction name { s₁.bidAuction cfg name now with auction := auction } a
  set placed := s₁.putAuction name { s₁.bidAuction cfg name now with auction := auction }
  have hcredit := placed.creditOf_le_value bidder
  rw [holds_addCredit (by omega)]
  simp only [Journal.paid_cons, Journal.received_cons, Journal.paid_nil, Journal.received_nil,
    Option.some.injEq, eq_comm (b := a), reduceCtorEq, if_false] at hput ⊢
  split_ifs at hpledge ⊢ <;> omega

/-- A bid that is refused is credited back. -/
lemma posted_bidRefused (hX : E.auction.TaxLaws) (hV : E.auction.VickreyLaws) {cfg : Config}
    {name : String} {bidder : Principal} {commitment : Bytes} {deposit now : ℕ} {e : String}
    (ht : s.Tidy) (hfit : s.value + deposit ≤ u128Max)
    (hp : s.placeBid cfg name bidder commitment deposit now = (s', .error e)) :
    ∃ ts, Journal.Posted (ts ++ [⟨none, some (.party bidder), deposit⟩]) s.holds
        (s'.addCredit bidder deposit).holds ∧ ∀ t ∈ ts, Closes s cfg name now t := by
  have hvalue := value_placeBid_error hX hV ht (by omega) hp
  have hfirst : ∃ ts, Journal.Posted ts s.holds s'.holds ∧ ∀ t ∈ ts, Closes s cfg name now t := by
    rcases placeBid_error hp with rfl | hc
    · exact ⟨[], .nil fun _ => rfl, by simp⟩
    · exact posted_closedFirst hX hV ht (by omega) hc
  obtain ⟨ts, hts, hcloses⟩ := hfirst
  have hcredit := s'.creditOf_le_value bidder
  exact ⟨ts, hts.append (posted_addCredit (by omega)), hcloses⟩

/-! ## Each reply -/

/-- The message posts transfers that the reply may post, and nothing else. -/
def Posts (s s' : State E) (now : ℕ) (reply : Except Failure ℕ) (p : Pending) : Prop :=
  ∃ ts, Journal.Posted ts s.holds s'.holds ∧ ∀ t ∈ ts, ReplyMoves s now reply p t

lemma posts_nothing {now : ℕ} {reply : Except Failure ℕ} {p : Pending}
    (hsame : ∀ a, s'.holds a = s.holds a) : Posts s s' now reply p :=
  ⟨[], .nil hsame, by simp⟩

lemma posts_bought (hX : E.auction.TaxLaws) (hn : s.Named) {now block : ℕ} {c : BuyCall} {r : Record}
    {tax : ℕ} (htotal : c.total = satAdd c.before.price c.deposit)
    (hfit : s.value + c.total < u128Max)
    (hbuy : s.buyable c.cfg c.name c.caller c.maxPrice now = .ok (r, tax, c.before)) :
    Posts s (s.dropInFlight.bought now c r tax) now (.ok block) (.buy c) := by
  have hexact : c.total = c.before.price + c.deposit := by
    rw [htotal]
    exact satAdd_eq_of_lt (by omega)
  obtain ⟨old, hget, hposted⟩ :=
    posted_bought (s := s.dropInFlight) hX hn hexact (show s.value + c.total ≤ _ by omega) hbuy
  refine ⟨_, hposted, ?_⟩
  simp only [List.mem_cons, List.not_mem_nil, or_false, forall_eq_or_imp, forall_eq]
  exact ⟨.paidIn (.buy c) rfl, .sale rfl hget, .saleTax rfl hget⟩

lemma posts_toppedUp (hX : E.auction.TaxLaws) (hn : s.Named) {now block : ℕ} {c : DepositCall}
    {r : Record} {tax more : ℕ} {x x' : Harberger} (hfit : s.value + c.amount < u128Max)
    (hpay : s.payable c.cfg c.name c.amount now = .ok (r, tax, c.before)) (hflat : r.flat = some x)
    (htop : E.auction.topUp c.cfg.params x c.amount now = .ok (x', more)) :
    Posts s (s.dropInFlight.commitFlat { r with flat := some x', updatedNs := now } (satAdd tax more))
      now (.ok block) (.deposit c) := by
  obtain ⟨old, hget, hsettled, hposted⟩ :=
    posted_toppedUp (s := s.dropInFlight) hX hn (show s.value + c.amount ≤ _ by omega) hpay hflat htop
  refine ⟨_, hposted, ?_⟩
  simp only [List.mem_cons, List.not_mem_nil, or_false, forall_eq_or_imp, forall_eq]
  exact ⟨.paidIn (.deposit c) rfl, .topUp rfl hget, .topUpTax rfl hget hsettled htop⟩

lemma posts_creditedBack {now block : ℕ} {p : Pending} {payer : Principal} {amount : ℕ}
    (hp : Pulling p payer amount) (hbid : ∀ c, p ≠ .bid c)
    (hfit : s.value + putIn (.ok block) p < u128Max) :
    Posts s (s.dropInFlight.addCredit payer amount) now (.ok block) p := by
  have hamount : putIn (.ok block) p = amount := by
    cases hp with
    | buy => rfl
    | deposit => rfl
    | bid c => exact absurd rfl (hbid c)
  have hle := s.creditOf_le_value payer
  refine ⟨_, posted_addCredit (s := s.dropInFlight) (show s.creditOf payer + amount ≤ _ by omega),
    fun t htmem => ?_⟩
  rw [List.mem_singleton] at htmem
  subst htmem
  exact .paidIn hp rfl

/-- What closing an auction takes comes before what the bid brings in. -/
lemma posts_bid {now block : ℕ} {c : BidCall} {ts : List (Transfer Account)}
    (hts : Journal.Posted (ts ++ [⟨none, some (.party c.caller), c.deposit⟩]) s.dropInFlight.holds
      s'.holds) (hcloses : ∀ t ∈ ts, Closes s.dropInFlight c.cfg c.name now t) :
    Posts s s' now (.ok block) (.bid c) := by
  refine ⟨_, hts, fun t htmem => ?_⟩
  rcases List.mem_append.mp htmem with hmem | hmem
  · exact .close rfl ((hcloses t hmem).congr rfl rfl)
  · rw [List.mem_singleton] at hmem
    subst hmem
    exact .paidIn (.bid c) rfl

lemma posts_payRefused {now : ℕ} {cfg : Config} {caller : Principal} {amount : ℕ} {m : String}
    (hfit : s.value + amount < u128Max) :
    Posts s (s.addCredit caller amount).dropInFlight now (.error (.nothingMoved m))
      (.withdraw cfg caller amount) := by
  have hle := s.creditOf_le_value caller
  refine ⟨_, posted_addCredit (s := s) (show s.creditOf caller + amount ≤ _ by omega),
    fun t htmem => ?_⟩
  rw [List.mem_singleton] at htmem
  subst htmem
  exact .returned rfl

lemma posts_configured (hX : E.auction.TaxLaws) (hn : s.Named) (hfit : s.value ≤ u128Max) {c : Config}
    {fee now : ℕ} {s₁ : State E}
    (hs₁ : s₁ = if c.rateBps ≠ s.config.rateBps then (s.settleAll s.config now).1 else s) :
    Posts s { s₁ with harberger := some { c with fee := fee } } now (.ok fee) (.setHarbergerConfig c) := by
  subst hs₁
  split_ifs
  · obtain ⟨ts, hts, htaxes⟩ := settleAll_posted hX hn hfit s.config now
    exact ⟨ts, hts, fun t htmem => .rateTax rfl (htaxes t htmem)⟩
  · exact posts_nothing fun _ => rfl

/-- **A reply brings in what was pulled, for its payer**; what it passes on is the price of a sale, or a
top-up of somebody's name. -/
theorem resumed_posted (hX : E.auction.TaxLaws) (hV : E.auction.VickreyLaws) {now : ℕ}
    {reply : Except Failure ℕ} {p : Pending} {pr : Progress} (ht : s.Tidy) (hcarried : Carried p)
    (hfit : s.value + putIn reply p < u128Max) (h : Resumed s now reply p s' pr) :
    Posts s s' now reply p := by
  have htidy : s.dropInFlight.Tidy := ⟨ht.shape.congr rfl rfl, ht.oneBid⟩
  cases h with
  | pullFailed =>
      refine posts_nothing fun a => ?_
      simp only [pullFailed]
      split_ifs <;> exact holds_congr rfl rfl rfl rfl a
  | bought hreply hbuy =>
      subst hreply
      exact posts_bought hX ht.named hcarried.2.2 hfit hbuy
  | toppedUp hreply hpay hflat htop =>
      subst hreply
      exact posts_toppedUp hX ht.named hfit hpay hflat htop
  | creditedBack _ hp hbid hreply =>
      subst hreply
      exact posts_creditedBack hp hbid hfit
  | @placed c block s₁ replaced hreply hp =>
      subst hreply
      simp only [putIn] at hfit
      obtain ⟨ts, hts, hcloses⟩ := posted_placed hX hV htidy (show s.value + c.deposit ≤ _ by omega) hp
      exact posts_bid hts hcloses
  | @bidRefused c block s₁ e hreply hp =>
      subst hreply
      simp only [putIn] at hfit
      obtain ⟨ts, hts, hcloses⟩ :=
        posted_bidRefused hX hV htidy (show s.value + c.deposit ≤ _ by omega) hp
      exact posts_bid hts hcloses
  | paid => exact posts_nothing (holds_congr rfl rfl rfl rfl)
  | payRefused hreply =>
      subst hreply
      exact posts_payRefused hfit
  | payUnconfirmed => exact posts_nothing (holds_congr rfl rfl rfl rfl)
  | feeRefused => exact posts_nothing (holds_congr rfl rfl rfl rfl)
  | feeAgreed => exact posts_nothing (holds_congr rfl rfl rfl rfl)
  | funded => exact posts_nothing (holds_congr rfl rfl rfl rfl)
  | fundRefused => exact posts_nothing (holds_congr rfl rfl rfl rfl)
  | fundCharged => exact posts_nothing (holds_congr rfl rfl rfl rfl)
  | fundUnconfirmed => exact posts_nothing (holds_congr rfl rfl rfl rfl)
  | configRefused => exact posts_nothing fun _ => rfl
  | configSettled hreply =>
      obtain ⟨ts, hts, htaxes⟩ := settleAll_posted hX ht.named (by omega) s.config now
      exact ⟨ts, hts, fun t htmem => .rateTax hreply (htaxes t htmem)⟩
  | configured hreply _ _ hs' =>
      subst hreply
      exact posts_configured hX ht.named (by omega) hs'

end State
