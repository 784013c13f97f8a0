import IcNameService.Books.Value

/-!
# Closing an auction keeps the books

The settlement loop turns the deposits of an auction into refunds, forfeits, the price and the
winner's opening balance (`settleBids_value`); the hand-over turns a lapsed balance into tax
(`value_handOver`).  Together `value_close`: no cycle is made or lost, whether somebody wins, nobody
does, or a win is voided.  A bid that closes an ended auction first keeps the value too, apart from the
deposit it brings (`value_placeBid`).
-/

namespace State

variable {E : Env}

/-! ## The settlement loop -/

/-- What one settlement is worth to the loop: all of it when the win is voided, and all but the price
when it stands. -/
def worth (outcome : Outcome) (winner : Option Bytes) (x : Settlement) : ℕ :=
  x.refund + x.forfeited +
    (if winner = none ∧ outcome.winner = some x.bidder then outcome.price else 0)

/-- The loop's accumulators, as one amount. -/
def Closing.sum (c : Closing E) : ℕ := c.state.creditTotal + c.forfeited + c.openingBalance

lemma settleBid_sum {outcome : Outcome} {winner : Option Bytes} (holding : Option Holding)
    {c : Closing E} {x : Settlement} (hwin : winner = none ∨ winner = outcome.winner)
    (hopen : winner = some x.bidder → c.openingBalance = 0)
    (hfit : c.sum + worth outcome winner x ≤ u128Max) :
    (settleBid outcome winner holding c x).sum = c.sum + worth outcome winner x := by
  have hforfeit : satAdd c.forfeited x.forfeited = c.forfeited + x.forfeited :=
    satAdd_of_le (by simp only [Closing.sum, worth] at hfit; omega)
  simp only [settleBid]
  split_ifs with h₁ h₂
  · -- the winner: the opening balance stays out of the refund
    have hw : worth outcome winner x = x.refund + x.forfeited := by
      simp only [worth]
      rw [if_neg (by rw [← h₁]; simp), Nat.add_zero]
    have hmin : (holding.map fun h => min h.2.1.openingBalance x.refund).getD 0 ≤ x.refund := by
      cases holding with
      | none => simp
      | some h => simp
    unfold Closing.sum at *
    rw [hw] at hfit ⊢
    simp only
    rw [creditTotal_addCredit (by omega), hforfeit, hopen h₁.symm]
    rw [hopen h₁.symm] at hfit
    omega
  · -- a voided win
    have hnone : winner = none := by
      rcases hwin with hw | hw
      · exact hw
      · exact absurd (h₂.trans hw.symm) h₁
    have hw : worth outcome winner x = x.refund + x.forfeited + outcome.price := by
      simp only [worth]
      rw [if_pos ⟨hnone, h₂.symm⟩]
    unfold Closing.sum at *
    rw [hw] at hfit ⊢
    simp only
    rw [satAdd_of_le (a := x.refund) (by omega), creditTotal_addCredit (by omega), hforfeit]
    omega
  · have hw : worth outcome winner x = x.refund + x.forfeited := by
      simp only [worth]
      rw [if_neg (fun h => h₂ h.2.symm), Nat.add_zero]
    unfold Closing.sum at *
    rw [hw] at hfit ⊢
    simp only
    rw [creditTotal_addCredit (by omega), hforfeit]
    omega

lemma settleBid_openingBalance {outcome : Outcome} {winner : Option Bytes}
    {holding : Option Holding} {c : Closing E} {x : Settlement} (h : winner ≠ some x.bidder) :
    (settleBid outcome winner holding c x).openingBalance = c.openingBalance := by
  simp only [settleBid]
  rw [if_neg (fun he => h he.symm)]
  split_ifs <;> rfl

/-- The loop, from any accumulators: the winner's settlement comes once, with nothing set aside
before it. -/
lemma settleBids_sum {outcome : Outcome} {winner : Option Bytes} (holding : Option Holding)
    (hwin : winner = none ∨ winner = outcome.winner) :
    ∀ (l : List Settlement) (c : Closing E), (l.map Settlement.bidder).Nodup →
      (∀ x ∈ l, winner = some x.bidder → c.openingBalance = 0) →
      c.sum + (l.map (worth outcome winner)).sum ≤ u128Max →
      (l.foldl (settleBid outcome winner holding) c).sum =
        c.sum + (l.map (worth outcome winner)).sum
  | [], _, _, _, _ => by simp
  | x :: l, c, hnd, hopen, hfit => by
      rw [List.map_cons, List.nodup_cons] at hnd
      rw [List.map_cons, List.sum_cons] at hfit ⊢
      have hx := settleBid_sum holding hwin (hopen x List.mem_cons_self)
        (show c.sum + worth outcome winner x ≤ u128Max by omega)
      have hopen' : ∀ y ∈ l, winner = some y.bidder →
          (settleBid outcome winner holding c x).openingBalance = 0 := by
        intro y hy hyw
        have hne : winner ≠ some x.bidder := fun hxw => by
          rw [hxw, Option.some.injEq] at hyw
          exact hnd.1 (hyw ▸ List.mem_map_of_mem hy)
        rw [settleBid_openingBalance hne]
        exact hopen y (List.mem_cons_of_mem _ hy) hyw
      rw [List.foldl_cons, settleBids_sum holding hwin l _ hnd.2 hopen' (by omega), hx]
      omega

section

variable {s : State E} {r : Running E} {outcome : Outcome} {now : ℕ}

/-- Every deposit is refund, forfeit or price, so the settlements and the price are worth the
escrow. -/
lemma sum_worth (hV : E.auction.VickreyLaws)
    (hnd : ((E.auction.bids r.auction).map Bid.bidder).Nodup)
    (ho : E.auction.outcome r.auction now = .ok outcome) (free : Bool) :
    (outcome.settlements.map (worth outcome (winnerIf outcome free))).sum +
        (if (winnerIf outcome free).isSome then outcome.price else 0) =
      E.auction.escrow r.auction := by
  obtain ⟨hperm, hsettle⟩ := hV.outcome_settlements _ _ _ ho
  have hndS : (outcome.settlements.map Settlement.bidder).Nodup := hperm.nodup_iff.mpr hnd
  have hall : (outcome.settlements.map fun x => x.refund + x.forfeited +
      (if outcome.winner = some x.bidder then outcome.price else 0)).sum =
        E.auction.escrow r.auction :=
    Keyed.sum_eq_of_perm _ _ hnd hperm fun x hx => hsettle x hx
  cases hw : winnerIf outcome free with
  | none =>
      have hworth : worth outcome none = fun x => x.refund + x.forfeited +
          (if outcome.winner = some x.bidder then outcome.price else 0) := by
        funext x
        simp [worth]
      rw [hworth, hall]
      simp
  | some w =>
      have hwin : outcome.winner = some w := by
        simp only [winnerIf, Option.filter_eq_some_iff] at hw
        exact hw.1
      have hmem : w ∈ outcome.settlements.map Settlement.bidder := by
        obtain ⟨b, hb, rfl⟩ := hV.outcome_winner _ _ _ _ ho hwin
        exact hperm.mem_iff.mpr (List.mem_map_of_mem hb)
      have hprice := Keyed.sum_ite_eq outcome.price w hndS hmem
      have hworth : worth outcome (some w) = fun x => x.refund + x.forfeited := by
        funext x
        simp [worth]
      rw [hwin] at hall
      simp only [Option.some.injEq] at hall
      rw [List.sum_map_add, hprice] at hall
      rw [hworth, Option.isSome_some, if_pos rfl, hall]

/-- **What the settlement loop leaves**: the escrow, as credits, forfeits, the opening balance, and
the price. -/
lemma settleBids_value (hV : E.auction.VickreyLaws)
    (hnd : ((E.auction.bids r.auction).map Bid.bidder).Nodup)
    (ho : E.auction.outcome r.auction now = .ok outcome) (free : Bool) (holding : Option Holding)
    (hfit : s.creditTotal + E.auction.escrow r.auction ≤ u128Max) :
    let c := s.settleBids outcome (winnerIf outcome free) holding
    c.state.creditTotal + c.forfeited + c.openingBalance +
        (if (winnerIf outcome free).isSome then outcome.price else 0) =
      s.creditTotal + E.auction.escrow r.auction := by
  have hworth := sum_worth hV hnd ho free
  have hndS : (outcome.settlements.map Settlement.bidder).Nodup :=
    (hV.outcome_settlements _ _ _ ho).1.nodup_iff.mpr hnd
  have hwin : winnerIf outcome free = none ∨ winnerIf outcome free = outcome.winner := by
    cases free with
    | false => exact Or.inl (by simp [winnerIf])
    | true =>
        refine Or.inr ?_
        simp only [winnerIf]
        cases outcome.winner <;> rfl
  have hsum := settleBids_sum holding hwin outcome.settlements ⟨s, 0, 0⟩ hndS
    (fun _ _ _ => rfl) (by simp only [Closing.sum]; omega)
  simp only [Closing.sum, Nat.add_zero] at hsum
  simp only [settleBids]
  omega

end

/-! ## The hand-over -/

lemma wonRecord_balance (hX : E.auction.TaxLaws) (name : String) (lapsed : Option (Record × ℕ))
    (h : Holding) (opening now : ℕ) :
    (wonRecord (E := E) name lapsed h opening now).1.balance = opening := by
  cases lapsed with
  | none => simp [wonRecord, Record.balance, hX.holding_balance]
  | some old => simp [wonRecord, Record.balance, hX.holding_balance]

/-- The hand-over brings the opening balance, and turns a lapsed balance into tax. -/
lemma value_handOver (hX : E.auction.TaxLaws) {s : State E} {cfg : Config} {name : String}
    {now : ℕ} {holding : Option Holding} {opening : ℕ}
    (hnamed : ∀ r, s.records.get name = some r → r.name = name)
    (hsome : holding.isSome = true → (s.lapsedRecord cfg name now).2 = true)
    (hopen : holding = none → opening = 0) (hfit : s.taxCollected + s.balances ≤ u128Max) :
    (s.handOver name now (s.lapsedRecord cfg name now).1 holding opening).value =
      s.value + opening := by
  cases holding with
  | none =>
      rw [hopen rfl]
      rfl
  | some h =>
      rw [handOver_some]
      have hfree := hsome rfl
      cases hl : s.lapsedRecord cfg name now with
      | mk lapsed free =>
          rw [hl] at hfree
          cases lapsed with
          | none =>
              rcases lapsedRecord_none hl with ⟨hget, -⟩ | hf
              · -- the name was never held: the record is new, and owes no tax
                have hold : (s.noteHandedOver name
                    now).storedBalance name = 0 := by
                  change s.storedBalance name = 0
                  simp [storedBalance, hget]
                refine value_commitFlat hold ?_ ?_
                · rw [wonRecord_balance hX]
                  simp [wonRecord]
                · change s.taxCollected + 0 ≤ u128Max
                  omega
              · exact absurd (hf.symm.trans hfree) (by decide)
          | some old =>
              obtain ⟨stored, hget, hr, htax, hst, -⟩ := lapsedRecord_some hl
              have hzero := settleRecord_free cfg now hX stored hst
              have hsettled := settleRecord_balance cfg now hX stored
              rw [← hr] at hzero
              rw [← hr, ← htax] at hsettled
              have hname : (wonRecord (E := E) name (some old) h opening now).1.name = name := by
                have : old.1.name = stored.name := by rw [hr]; simp
                simp only [wonRecord, this]
                exact hnamed stored hget
              have hold : (s.noteHandedOver name
                  now).storedBalance name = stored.balance := s.storedBalance_of_get hget
              have hle := s.storedBalance_le name
              rw [s.storedBalance_of_get hget] at hle
              refine value_commitFlat (hname ▸ hold) ?_ ?_
              · rw [wonRecord_balance hX]
                change opening + old.2 = _
                omega
              · change s.taxCollected + old.2 ≤ u128Max
                omega

lemma handOver_creditTotal (s : State E) (name : String) (now : ℕ)
    (lapsed : Option (Record × ℕ)) (holding : Option Holding) (opening : ℕ) :
    (s.handOver name now lapsed holding opening).creditTotal = s.creditTotal := by
  cases holding with
  | none => rfl
  | some h =>
      rw [handOver_some]
      simp only [commitFlat]
      rw [creditTotal_commit, creditTotal_noteTaxCollected]
      rfl

/-- With no winner, nothing is set aside for an opening balance. -/
lemma settleBids_openingBalance (s : State E) (outcome : Outcome) (holding : Option Holding) :
    (s.settleBids outcome none holding).openingBalance = 0 := by
  have key : ∀ (l : List Settlement) (c : Closing E), c.openingBalance = 0 →
      (l.foldl (settleBid outcome none holding) c).openingBalance = 0 := by
    intro l
    induction l with
    | nil => exact fun _ h => h
    | cons x l ih =>
        intro c hc
        rw [List.foldl_cons]
        refine ih _ ?_
        rw [settleBid_openingBalance (by simp)]
        exact hc
  exact key _ _ rfl

lemma value_removeAuction {s : State E} {name : String} {r : Running E}
    (h : s.auctions.get name = some r) :
    (s.removeAuction name).value + E.auction.escrow r.auction = s.value := by
  have := s.escrows_removeAuction h
  simp only [value]
  change s.creditTotal + s.balances + (s.removeAuction name).escrows + s.taxCollected + _ = _
  omega

/-! ## The close, and the bid that may close first -/

/-- **Closing an auction neither makes nor loses a cycle.** -/
theorem value_close (hX : E.auction.TaxLaws) (hV : E.auction.VickreyLaws) {s s' : State E}
    {cfg : Config} {name : String} {now : ℕ} {c : Closed} (ht : s.Tidy)
    (hfit : s.value ≤ u128Max) (h : s.close cfg name now = (s', .ok c)) : s'.value = s.value := by
  obtain ⟨r, outcome, holding, hc⟩ := close_ok h
  have heq := hc.state_eq
  have hisSome := hc.holding_isSome
  set winner := winnerIf outcome (s.lapsedRecord cfg name now).2 with hwinner
  set closing := s.settleBids outcome winner holding with hclosing
  set price := if winner.isSome then outcome.price else 0 with hprice
  -- the loop moves value from the escrow into credits and nothing else
  have hrec : SameRecords s closing.state := s.sameRecords_settleBids outcome winner holding
  have hauc : closing.state.auctions = s.auctions := s.settleBids_auctions outcome winner holding
  have htax : closing.state.taxCollected = s.taxCollected :=
    s.settleBids_taxCollected outcome winner holding
  have hesc := s.escrow_le_escrows hc.stored
  have hloop : closing.state.creditTotal + closing.forfeited + closing.openingBalance + price =
      s.creditTotal + E.auction.escrow r.auction :=
    settleBids_value hV (ht.oneBid name r hc.stored) hc.ended _ holding
      (by simp only [value] at hfit; omega)
  have hstate : closing.state.value + s.creditTotal = s.value + closing.state.creditTotal := by
    simp only [value, balances, escrows]
    rw [hrec.records, hauc, htax]
    omega
  -- the hand-over adds the opening balance
  have hlapsed : closing.state.lapsedRecord cfg name now = s.lapsedRecord cfg name now := by
    simp only [lapsedRecord, getRecord, hrec.records]
  have hover : (closing.state.handOver name now (s.lapsedRecord cfg name now).1 holding
      closing.openingBalance).value = closing.state.value + closing.openingBalance := by
    rw [← hlapsed]
    refine value_handOver hX (fun r hr => ht.named name r (hrec.records ▸ hr)) (fun hs => ?_)
      (fun hn => ?_) ?_
    · rw [hs] at hisSome
      rw [hlapsed]
      cases hf : (s.lapsedRecord cfg name now).2 with
      | true => rfl
      | false => simp [hwinner, hf, winnerIf] at hisSome
    · have hnone : winner = none := by simpa [hn] using hisSome.symm
      rw [hclosing, hnone]
      exact settleBids_openingBalance s outcome holding
    · simp only [balances]
      rw [htax, hrec.records]
      simp only [value, balances] at hfit
      omega
  -- the price and the forfeits become proceeds, and the auction goes
  have hsum : satAdd price closing.forfeited = price + closing.forfeited :=
    satAdd_of_le (by simp only [value] at hfit; omega)
  have heq' : s' = ((closing.state.handOver name now (s.lapsedRecord cfg name now).1 holding
      closing.openingBalance).noteProceeds (price + closing.forfeited)).removeAuction name := by
    rw [← hsum]
    exact heq
  set handed := closing.state.handOver name now (s.lapsedRecord cfg name now).1 holding
    closing.openingBalance with hhanded
  have hhanded_auctions : handed.auctions = s.auctions := by
    rw [hhanded, handOver_auctions, hauc]
  have hhanded_escrows : handed.escrows = s.escrows := by
    simp only [escrows]
    rw [hhanded_auctions]
  have hhanded_credits : handed.creditTotal = closing.state.creditTotal :=
    handOver_creditTotal _ _ _ _ _ _
  have hproceeds := value_noteProceeds (s := handed) (n := price + closing.forfeited)
    (by simp only [value] at hfit hover hstate; omega)
  have hget : (handed.noteProceeds (price + closing.forfeited)).auctions.get name = some r := by
    rw [noteProceeds_auctions, hhanded_auctions]
    exact hc.stored
  have hremove := value_removeAuction hget
  rw [heq']
  omega

end State
