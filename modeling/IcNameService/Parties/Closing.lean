import IcNameService.Core.Journal
import IcNameService.Market.Settling
import IcNameService.Parties.Holdings

/-!
# What the close of an auction takes from whom

Every deposit goes back to its bidder, as credit or as the opening balance of the name won, less what is
forfeited and less the price.  A lapsed holder loses the tax that was still due and nothing else.

* `State.holds_settleBids` — the loop, for every account.
* `State.holds_handOver` — the hand-over, for every account.
* `State.close_posted` — **a close posts forfeits, the price and the tax due, all to the treasury.**
-/

namespace State

variable {E : Env}

/-! ## What is taken -/

/-- The tax that settling a stored record takes from its owner. -/
inductive Taxes (s : State E) (cfg : Config) (now : ℕ) : Transfer Account → Prop
  | settled {name : String} {r : Record} :
      s.records.get name = some r →
      Taxes s cfg now ⟨some (.party r.owner), some .treasury, (settleRecord E cfg r now).2.2⟩

/-- What closing the auction of a name takes from its bidders, and from a holder who lapsed. -/
inductive Closes (s : State E) (cfg : Config) (name : String) (now : ℕ) : Transfer Account → Prop
  | forfeit {r : Running E} {o : Outcome} {x : Settlement} :
      s.auctions.get name = some r → E.auction.outcome r.auction now = .ok o → x ∈ o.settlements →
      Closes s cfg name now ⟨some (.party ⟨x.bidder⟩), some .treasury, x.forfeited⟩
  | price {r : Running E} {o : Outcome} {w : Bytes} :
      s.auctions.get name = some r → E.auction.outcome r.auction now = .ok o → o.winner = some w →
      Closes s cfg name now ⟨some (.party ⟨w⟩), some .treasury, o.price⟩
  | lapsed {old : Record} :
      s.records.get name = some old → (settleRecord E cfg old now).2.1 = .free →
      Closes s cfg name now
        ⟨some (.party old.owner), some .treasury, (settleRecord E cfg old now).2.2⟩

/-- The forfeits of an outcome. -/
def forfeits (o : Outcome) : List (Transfer Account) :=
  o.settlements.map fun x => ⟨some (.party ⟨x.bidder⟩), some .treasury, x.forfeited⟩

/-- The price, if somebody wins. -/
def prices (o : Outcome) (winner : Option Bytes) : List (Transfer Account) :=
  (winner.map fun w => ⟨some (.party ⟨w⟩), some .treasury, o.price⟩).toList

/-- The tax a lapsed holder still owed, if the name is handed over. -/
def arrears (s : State E) (cfg : Config) (name : String) (now : ℕ) (winner : Option Bytes) :
    List (Transfer Account) :=
  if winner.isSome then
    ((s.records.get name).map fun old =>
      ⟨some (.party old.owner), some .treasury, (settleRecord E cfg old now).2.2⟩).toList
  else []

section

variable {s s' : State E} {cfg : Config} {name : String} {now : ℕ} {r : Running E} {o : Outcome}
  {holding : Option Holding} {c : Closed} {winner : Option Bytes} {p : Principal}

lemma winnerIf_eq (o : Outcome) (free : Bool) :
    winnerIf o free = none ∨ winnerIf o free = o.winner := by
  cases free with
  | false => exact Or.inl (by simp [winnerIf])
  | true => exact Or.inr (winnerIf_true o)

/-! ## The bids and the settlements of one party -/

/-- The settlement of a party, if it made a bid. -/
def settlementOf (o : Outcome) (p : Principal) : Option Settlement :=
  o.settlements.find? fun x => x.bidder = p.bytes

/-- What a party forfeits. -/
lemma paid_forfeits (hV : E.auction.VickreyLaws)
    (hnd : ((E.auction.bids r.auction).map Bid.bidder).Nodup)
    (ho : E.auction.outcome r.auction now = .ok o) (p : Principal) :
    Journal.paid (forfeits o) (.party p) = ((settlementOf o p).map Settlement.forfeited).getD 0 := by
  obtain ⟨hperm, -⟩ := hV.outcome_settlements _ _ _ ho
  rw [settlementOf, ← Keyed.sum_ite_key Settlement.forfeited p.bytes (hperm.nodup_iff.mpr hnd),
    Journal.paid, forfeits, List.map_map]
  refine congrArg List.sum (List.map_congr_left fun x _ => ?_)
  simp only [Function.comp_apply, Option.some.injEq, Account.party_mk_eq]

/-- **The deposit of a party** is its refund, its forfeit, and the price if it would win. -/
lemma pledge_party (hV : E.auction.VickreyLaws)
    (hnd : ((E.auction.bids r.auction).map Bid.bidder).Nodup)
    (ho : E.auction.outcome r.auction now = .ok o) (p : Principal) :
    E.auction.pledge r.auction (.party p) = ((settlementOf o p).map fun x =>
      x.refund + x.forfeited + if o.winner = some x.bidder then o.price else 0).getD 0 := by
  obtain ⟨hperm, hsettle⟩ := hV.outcome_settlements _ _ _ ho
  have hfind := @Keyed.find_of_perm _ _ _ _ Bid.bidder Settlement.bidder Bid.deposit
    (fun x => x.refund + x.forfeited + if o.winner = some x.bidder then o.price else 0) _ _ hnd hperm
    (fun x hx => hsettle x hx) p.bytes
  rw [settlementOf, hfind, ← Keyed.sum_ite_key Bid.deposit p.bytes hnd]
  rfl

/-- The winner has a settlement. -/
lemma exists_settlementOf (hV : E.auction.VickreyLaws)
    (ho : E.auction.outcome r.auction now = .ok o) (hw : o.winner = some p.bytes) :
    ∃ x, settlementOf o p = some x := by
  obtain ⟨hperm, -⟩ := hV.outcome_settlements _ _ _ ho
  obtain ⟨b, hb, hbidder⟩ := hV.outcome_winner _ _ _ _ ho hw
  obtain ⟨x, hx, hxb⟩ := List.mem_map.mp (hperm.mem_iff.mpr (List.mem_map_of_mem (f := Bid.bidder) hb))
  rw [← Option.isSome_iff_exists, settlementOf, List.find?_isSome]
  exact ⟨x, hx, decide_eq_true (hxb.trans hbidder)⟩

/-! ## The loop -/

/-- The credits of the loop. -/
lemma cash_settleBids (hV : E.auction.VickreyLaws)
    (hnd : ((E.auction.bids r.auction).map Bid.bidder).Nodup)
    (ho : E.auction.outcome r.auction now = .ok o) (free : Bool)
    (hfit : s.creditTotal + E.auction.escrow r.auction ≤ u128Max) (p : Principal) :
    (s.settleBids o (winnerIf o free) holding).state.creditOf p =
      s.creditOf p + ((settlementOf o p).map (paid o (winnerIf o free) holding)).getD 0 := by
  obtain ⟨hperm, -⟩ := hV.outcome_settlements _ _ _ ho
  have hworth := sum_worth hV hnd ho free
  rw [settleBids, settleBids_creditOf (winnerIf_eq o free) p _ _ (hperm.nodup_iff.mpr hnd)
    (fun _ _ _ => rfl)]
  · rfl
  · simp only [Closing.sum]
    omega

lemma paid_prices (o : Outcome) (winner : Option Bytes) (p : Principal) :
    Journal.paid (prices o winner) (.party p) = if winner = some p.bytes then o.price else 0 := by
  cases winner with
  | none => rfl
  | some w =>
      simp only [prices, Option.map_some, Option.toList_some, Journal.paid_cons, Journal.paid_nil,
        Option.some.injEq, Account.party_mk_eq, Nat.add_zero]

/-- What a settlement credits its party, and what it sets aside for the name won, is the refund; and the
price, if the win is void. -/
lemma paid_add_opening (hV : E.auction.VickreyLaws)
    (hnd : ((E.auction.bids r.auction).map Bid.bidder).Nodup)
    (ho : E.auction.outcome r.auction now = .ok o) (free : Bool)
    (hfit : E.auction.escrow r.auction ≤ u128Max) {x : Settlement} (hx : settlementOf o p = some x) :
    paid o (winnerIf o free) holding x +
        (if winnerIf o free = some p.bytes then
          (s.settleBids o (winnerIf o free) holding).openingBalance else 0) +
        (if winnerIf o free = some p.bytes then o.price else 0) =
      x.refund + if o.winner = some x.bidder then o.price else 0 := by
  obtain ⟨hperm, hsettle⟩ := hV.outcome_settlements _ _ _ ho
  have hmem := List.mem_of_find?_eq_some hx
  have hbidder : x.bidder = p.bytes := by simpa using List.find?_some hx
  obtain ⟨b, hb, -, hdeposit⟩ := hsettle x hmem
  have hle : b.deposit ≤ E.auction.escrow r.auction :=
    List.single_le_sum (by simp) _ (List.mem_map_of_mem hb)
  rw [paid, hbidder]
  rw [hbidder] at hdeposit
  by_cases hwin : winnerIf o free = some p.bytes
  · have howin : o.winner = some p.bytes := by
      rcases winnerIf_eq o free with hnone | heq
      · rw [hnone] at hwin
        cases hwin
      · rw [← heq, hwin]
    rw [if_pos hwin.symm, if_pos hwin, if_pos hwin, if_pos howin, hwin, settleBids,
      settleBids_opening _ _ (hperm.nodup_iff.mpr hnd) hmem hbidder]
    cases holding with
    | none => simp
    | some h =>
        simp only [Option.map_some, Option.getD_some]
        omega
  · rw [if_neg (Ne.symm hwin), if_neg hwin, if_neg hwin]
    by_cases howin : o.winner = some p.bytes
    · rw [if_pos howin.symm, if_pos howin]
      rw [if_pos howin] at hdeposit
      rw [satAdd_of_le (by omega)]
      omega
    · rw [if_neg (Ne.symm howin), if_neg howin]

/-- **The loop gives a bidder back all but what is taken.** -/
lemma loop_party (hV : E.auction.VickreyLaws)
    (hnd : ((E.auction.bids r.auction).map Bid.bidder).Nodup)
    (ho : E.auction.outcome r.auction now = .ok o) (free : Bool)
    (hfit : s.creditTotal + E.auction.escrow r.auction ≤ u128Max) (p : Principal) :
    (s.settleBids o (winnerIf o free) holding).state.creditOf p +
        (if winnerIf o free = some p.bytes then
          (s.settleBids o (winnerIf o free) holding).openingBalance else 0) +
        Journal.paid (forfeits o ++ prices o (winnerIf o free)) (.party p) =
      s.creditOf p + E.auction.pledge r.auction (.party p) := by
  rw [cash_settleBids hV hnd ho free hfit, pledge_party hV hnd ho, Journal.paid_append,
    paid_forfeits hV hnd ho, paid_prices]
  cases hx : settlementOf o p with
  | none =>
      have hlost : winnerIf o free ≠ some p.bytes := by
        intro hwin
        rcases winnerIf_eq o free with hnone | heq
        · rw [hnone] at hwin
          cases hwin
        · obtain ⟨x, hx'⟩ := exists_settlementOf hV ho (heq ▸ hwin)
          rw [hx] at hx'
          cases hx'
      simp only [if_neg hlost, Option.map_none, Option.getD_none]
  | some x =>
      have hpaid := @paid_add_opening _ s _ _ _ holding _ hV hnd ho free (by omega) _ hx
      simp only [Option.map_some, Option.getD_some]
      omega

/-! ## The hand-over -/

/-- Who holds the name that is won. -/
lemma winnerHolding_owner (h : winnerHolding r winner = .ok holding) :
    holding.map Prod.fst = winner.map Principal.mk := by
  simp only [winnerHolding] at h
  split at h
  · cases h
    rfl
  · split at h
    · cases h
    · split at h
      · cases h
      · cases h
        rfl

/-- What a lapsed record held is the tax that was still due on it. -/
lemma lapsed_prepaid (hX : E.auction.TaxLaws) {lapsed : Option (Record × ℕ)}
    (hl : s.lapsedRecord cfg name now = (lapsed, true)) (w : Bytes) (a : Account) :
    Journal.paid (s.arrears cfg name now (some w)) a = s.prepaidAt name a ∧
      Journal.received (s.arrears cfg name now (some w)) a =
        if a = .treasury then (lapsed.map Prod.snd).getD 0 else 0 := by
  cases lapsed with
  | none =>
      obtain ⟨hget, -⟩ | hheld := lapsedRecord_none hl
      · have hnothing : s.arrears cfg name now (some w) = [] := by simp [arrears, hget]
        simp [hnothing, prepaidAt, hget]
      · cases hheld
  | some old =>
      obtain ⟨stored, hget, -, htaxed, hst, -⟩ := lapsedRecord_some hl
      have hzero := settleRecord_free cfg now hX stored hst
      have hsettled := settleRecord_balance cfg now hX stored
      have harrears : s.arrears cfg name now (some w) =
          [⟨some (.party stored.owner), some .treasury, old.2⟩] := by
        simp [arrears, hget, htaxed]
      have hdue : stored.balance = old.2 := by omega
      rw [harrears, prepaidAt_of_get hget, Record.prepaid, hdue]
      simp [@eq_comm _ a]

/-- **The record that is won holds the opening balance, in place of what stood under the name.** -/
lemma holds_won (hX : E.auction.TaxLaws) {looped : State E} {lapsed : Option (Record × ℕ)} {h : Holding}
    {opening : ℕ} (hname : (wonRecord (E := E) name lapsed h opening now).1.name = name)
    (hfit : looped.taxCollected + (lapsed.map Prod.snd).getD 0 ≤ u128Max) (a : Account) :
    (looped.handOver name now lapsed (some h) opening).holds a + looped.prepaidAt name a =
      looped.holds a + (if a = .party h.1 then opening else 0) +
        if a = .treasury then (lapsed.map Prod.snd).getD 0 else 0 := by
  have htax : (wonRecord (E := E) name lapsed h opening now).2 = (lapsed.map Prod.snd).getD 0 := by
    cases lapsed <;> rfl
  have howner : (wonRecord (E := E) name lapsed h opening now).1.owner = h.1 := by
    cases lapsed <;> rfl
  have hcommit := holds_commitFlat (s := looped.noteHandedOver name now)
    (r := (wonRecord (E := E) name lapsed h opening now).1) hfit a
  rw [hname, Record.prepaid, wonRecord_balance hX, howner] at hcommit
  rw [handOver_some, htax]
  exact hcommit

/-- **The hand-over gives the winner the opening balance, and takes the arrears.** -/
lemma holds_handOver (hX : E.auction.TaxLaws) (hn : s.Named) {looped : State E}
    (hrec : SameRecords s looped) (htax : looped.taxCollected = s.taxCollected)
    (hfit : s.taxCollected + s.balances ≤ u128Max)
    (hholds : winnerHolding r (winnerIf o (s.lapsedRecord cfg name now).2) = .ok holding)
    (opening : ℕ) (a : Account) :
    (looped.handOver name now (s.lapsedRecord cfg name now).1 holding opening).holds a +
        Journal.paid (s.arrears cfg name now (winnerIf o (s.lapsedRecord cfg name now).2)) a =
      looped.holds a +
        (if (winnerIf o (s.lapsedRecord cfg name now).2).map (fun w => .party ⟨w⟩) = some a
          then opening else 0) +
        Journal.received (s.arrears cfg name now (winnerIf o (s.lapsedRecord cfg name now).2)) a := by
  have howner := winnerHolding_owner hholds
  cases holding with
  | none =>
      have hnone : winnerIf o (s.lapsedRecord cfg name now).2 = none := by
        simpa using howner.symm
      simp only [hnone]
      rfl
  | some h =>
      obtain ⟨w, hw, hwh⟩ := Option.map_eq_some_iff.mp howner.symm
      have hfree : (s.lapsedRecord cfg name now).2 = true := by
        cases hf : (s.lapsedRecord cfg name now).2 with
        | true => rfl
        | false => simp [hf, winnerIf] at hw
      have hl : s.lapsedRecord cfg name now = ((s.lapsedRecord cfg name now).1, true) :=
        Prod.ext rfl hfree
      have hdue := lapsedTax_le hX s cfg name now
      rw [lapsedTax] at hdue
      have hwon := @holds_won _ name now hX looped (s.lapsedRecord cfg name now).1 h opening
        (hn.wonRecord_name cfg name now h opening) (by omega) a
      have hat : looped.prepaidAt name a = s.prepaidAt name a := by
        rw [prepaidAt, prepaidAt, hrec.records]
      obtain ⟨hpaid, hreceived⟩ := lapsed_prepaid hX hl w a
      rw [hw, hpaid, hreceived]
      simp only [Option.map_some, Option.some.injEq, hwh, @eq_comm _ _ a]
      omega

/-! ## The close -/

/-- The loop leaves all but the cash alone. -/
lemma holds_settleBids (a : Account) :
    (s.settleBids o winner holding).state.holds a + s.cash a =
      s.holds a + (s.settleBids o winner holding).state.cash a := by
  simp only [holds]
  rw [(s.sameRecords_settleBids o winner holding).records, s.settleBids_auctions o winner holding]
  omega

lemma received_forfeits (o : Outcome) :
    Journal.received (forfeits o) .treasury = (o.settlements.map Settlement.forfeited).sum := by
  rw [Journal.received, forfeits, List.map_map]
  exact congrArg List.sum (List.map_congr_left fun x _ => by simp)

lemma received_prices (o : Outcome) (winner : Option Bytes) :
    Journal.received (prices o winner) .treasury = if winner.isSome then o.price else 0 := by
  cases winner <;> simp [prices]

/-- Nothing is taken from the treasury, and nothing goes to a party. -/
lemma forfeits_prices_direction (o : Outcome) (winner : Option Bytes) :
    Journal.paid (forfeits o ++ prices o winner) .treasury = 0 ∧
      ∀ p, Journal.received (forfeits o ++ prices o winner) (.party p) = 0 := by
  have hdirection : ∀ t ∈ forfeits o ++ prices o winner,
      t.payer ≠ some .treasury ∧ t.payee = some .treasury := by
    intro t ht
    rcases List.mem_append.mp ht with ht | ht
    · obtain ⟨x, -, rfl⟩ := List.mem_map.mp ht
      exact ⟨by simp, rfl⟩
    · rw [prices, Option.mem_toList, Option.map_eq_some_iff] at ht
      obtain ⟨w, -, rfl⟩ := ht
      exact ⟨by simp, rfl⟩
  refine ⟨List.sum_eq_zero fun n hn => ?_, fun p => List.sum_eq_zero fun n hn => ?_⟩
  · obtain ⟨t, ht, rfl⟩ := List.mem_map.mp hn
    exact if_neg (hdirection t ht).1
  · obtain ⟨t, ht, rfl⟩ := List.mem_map.mp hn
    rw [(hdirection t ht).2]
    exact if_neg (by simp)

/-- What a close takes, it may take. -/
lemma closes_of_mem (h : ClosedAs s cfg name now r o holding s' c) :
    ∀ t ∈ forfeits o ++ prices o (winnerIf o (s.lapsedRecord cfg name now).2) ++
        s.arrears cfg name now (winnerIf o (s.lapsedRecord cfg name now).2),
      Closes s cfg name now t := by
  intro t ht
  rcases List.mem_append.mp ht with ht | ht
  · rcases List.mem_append.mp ht with ht | ht
    · obtain ⟨x, hx, rfl⟩ := List.mem_map.mp ht
      exact .forfeit h.stored h.ended hx
    · rw [prices, Option.mem_toList, Option.map_eq_some_iff] at ht
      obtain ⟨w, hw, rfl⟩ := ht
      refine .price h.stored h.ended ?_
      rcases winnerIf_eq o (s.lapsedRecord cfg name now).2 with hnone | heq
      · rw [hnone] at hw
        cases hw
      · exact heq ▸ hw
  · rw [arrears] at ht
    split_ifs at ht with hwon
    · rw [Option.mem_toList, Option.map_eq_some_iff] at ht
      obtain ⟨old, hget, rfl⟩ := ht
      refine .lapsed hget ?_
      have hfree : (s.lapsedRecord cfg name now).2 = true := by
        cases hf : (s.lapsedRecord cfg name now).2 with
        | true => rfl
        | false => simp [hf, winnerIf] at hwon
      simp only [lapsedRecord, getRecord, hget] at hfree
      split_ifs at hfree with hst
      exact hst
    · cases ht

/-- The forfeits are part of the escrow, and the loop adds them up. -/
lemma forfeited_settleBids (hV : E.auction.VickreyLaws)
    (hnd : ((E.auction.bids r.auction).map Bid.bidder).Nodup)
    (ho : E.auction.outcome r.auction now = .ok o) (hfit : E.auction.escrow r.auction ≤ u128Max) :
    (s.settleBids o winner holding).forfeited = (o.settlements.map Settlement.forfeited).sum := by
  have hworth := sum_worth hV hnd ho false
  have hle : (o.settlements.map Settlement.forfeited).sum ≤
      (o.settlements.map (worth o (winnerIf o false))).sum := by
    refine List.sum_le_sum fun x _ => ?_
    rw [worth]
    omega
  rw [settleBids, settleBids_forfeited _ _ (by simp only; omega)]
  simp only
  omega

/-- The tax counted by the time the price is. -/
lemma taxCollected_handOver_le (hX : E.auction.TaxLaws) {looped : State E}
    (htax : looped.taxCollected = s.taxCollected) (hfit : s.taxCollected + s.balances ≤ u128Max)
    (opening : ℕ) :
    (looped.handOver name now (s.lapsedRecord cfg name now).1 holding opening).taxCollected ≤
      s.taxCollected + s.balances := by
  have hle := lapsedTax_le hX s cfg name now
  rw [lapsedTax] at hle
  rw [handOver_taxCollected (by rw [htax]; omega), htax]
  split_ifs <;> omega

/-- **A close posts forfeits, the price and the tax due**, and leaves everything else with its party. -/
theorem close_posted (hX : E.auction.TaxLaws) (hV : E.auction.VickreyLaws) (ht : s.Tidy)
    (hfit : s.value ≤ u128Max) (h : s.close cfg name now = (s', .ok c)) :
    ∃ ts, Journal.Posted ts s.holds s'.holds ∧ ∀ t ∈ ts, Closes s cfg name now t := by
  obtain ⟨r, o, holding, hc⟩ := close_ok h
  refine ⟨_, fun a => ?_, closes_of_mem hc⟩
  have hstate := hc.state_eq
  have hnd := ht.oneBid name r hc.stored
  have hescrow := s.escrow_le_escrows hc.stored
  have hvalue : s.value = s.creditTotal + s.balances + s.escrows + s.taxCollected := rfl
  have hloop := settleBids_value (s := s) hV hnd hc.ended (s.lapsedRecord cfg name now).2 holding
    (by omega)
  have hparty := fun p => @loop_party _ s _ _ _ holding hV hnd hc.ended
    (s.lapsedRecord cfg name now).2 (by omega) p
  have hover := holds_handOver hX ht.named
    (s.sameRecords_settleBids o (winnerIf o (s.lapsedRecord cfg name now).2) holding)
    (s.settleBids_taxCollected o (winnerIf o (s.lapsedRecord cfg name now).2) holding) (by omega)
    hc.holds (s.settleBids o (winnerIf o (s.lapsedRecord cfg name now).2) holding).openingBalance a
  have hlooped := @holds_settleBids _ s o holding (winnerIf o (s.lapsedRecord cfg name now).2) a
  have hdirection := forfeits_prices_direction o (winnerIf o (s.lapsedRecord cfg name now).2)
  simp only at hloop hstate
  set winner := winnerIf o (s.lapsedRecord cfg name now).2 with hwinner
  set closing := s.settleBids o winner holding with hclosing
  set handed := closing.state.handOver name now (s.lapsedRecord cfg name now).1 holding
    closing.openingBalance with hhanded
  set price := if winner.isSome then o.price else 0 with hprice
  have hauctions : (handed.noteProceeds (satAdd price closing.forfeited)).auctions.get name =
      some r := by
    rw [noteProceeds_auctions, hhanded, handOver_auctions, hclosing, settleBids_auctions]
    exact hc.stored
  have hremove := holds_removeAuction hauctions a
  have hforfeited : closing.forfeited = (o.settlements.map Settlement.forfeited).sum :=
    forfeited_settleBids hV hnd hc.ended (by omega)
  have hcounted : handed.taxCollected ≤ s.taxCollected + s.balances :=
    taxCollected_handOver_le hX (s.settleBids_taxCollected o winner holding) (by omega) _
  rw [satAdd_of_le (by omega)] at hremove hstate
  rw [holds_noteProceeds (by omega)] at hremove
  rw [hstate, Journal.paid_append, Journal.received_append]
  cases a with
  | treasury =>
      rw [hdirection.1, Journal.received_append, received_forfeits, received_prices]
      have hpledge : E.auction.pledge r.auction .treasury = 0 := rfl
      have hcash : closing.state.cash .treasury = s.cash .treasury :=
        s.settleBids_taxCollected o winner holding
      have hnobody : winner.map (fun w => Account.party ⟨w⟩) ≠ some .treasury := by
        cases winner <;> simp
      rw [if_neg hnobody] at hover
      rw [if_pos rfl, hpledge] at hremove
      omega
  | party p =>
      rw [hdirection.2]
      have hcash : closing.state.cash (.party p) = closing.state.creditOf p := rfl
      have hcash' : s.cash (.party p) = s.creditOf p := rfl
      have hwins : winner.map (fun w => Account.party ⟨w⟩) = some (.party p) ↔
          winner = some p.bytes := by
        cases winner with
        | none => simp
        | some w => rw [Option.map_some, Option.some.injEq, Option.some.injEq, Account.party_mk_eq]
      have hback := hparty p
      rw [if_neg (by simp)] at hremove
      simp only [hwins] at hover
      omega

end

end State
