import IcNameService.Books.Closing
import IcNameService.Market.Terms

/-!
# Every ended auction closes, and closes exactly

The settlement loop credits each bidder once, the winner less the opening balance of their holding.
With the terms of the auction (`World.Termed`) neither of the errors about a missing bid or missing terms
can be reached, and the opening balance fits what is left of the winner's deposit.

* `settleBids_creditOf`, `settleBids_opening`, `settleBids_forfeited` — what the loop leaves of each
  accumulator.
* `winnerHolding_ok` — the winner's bid and terms are there.
* `due` — what a bid is owed; `ClosedExactly` — what the close of an auction on a free name does.
* `World.ended_auctions_close` — every auction a lawful history reaches.
-/

namespace State

variable {E : Env}

/-! ## The settlement loop, one bidder at a time -/

section

variable {outcome : Outcome} {winner : Option Bytes} {holding : Option Holding}

/-- What the loop credits for one settlement. -/
def paid (outcome : Outcome) (winner : Option Bytes) (holding : Option Holding) (x : Settlement) : ℕ :=
  if some x.bidder = winner then
    x.refund - (holding.map fun h => min h.2.1.openingBalance x.refund).getD 0
  else if some x.bidder = outcome.winner then satAdd x.refund outcome.price
  else x.refund

lemma settleBid_credits (c : Closing E) (x : Settlement) :
    (settleBid outcome winner holding c x).state =
      c.state.addCredit ⟨x.bidder⟩ (paid outcome winner holding x) := by
  rw [settleBid, paid]
  split_ifs <;> rfl

/-- No more is credited than the settlement is worth. -/
lemma paid_le_worth (hwin : winner = none ∨ winner = outcome.winner) (x : Settlement) :
    paid outcome winner holding x ≤ worth outcome winner x := by
  rw [paid, worth]
  split_ifs with h₁ h₂ h₃ h₄ h₅
  · omega
  · omega
  · exact (satAdd_le _ _).trans (by omega)
  · rcases hwin with rfl | rfl
    · exact absurd ⟨rfl, h₃.symm⟩ h₄
    · exact absurd h₃ h₁
  · omega
  · omega

/-- One round credits its bidder, and nobody else. -/
lemma settleBid_creditOf (hwin : winner = none ∨ winner = outcome.winner) {c : Closing E}
    {x : Settlement} (hfit : c.sum + worth outcome winner x ≤ u128Max) (p : Principal) :
    (settleBid outcome winner holding c x).state.creditOf p =
      c.state.creditOf p + if x.bidder = p.bytes then paid outcome winner holding x else 0 := by
  rw [settleBid_credits]
  split_ifs with hp
  · have hpaid : paid outcome winner holding x ≤ worth outcome winner x := paid_le_worth hwin x
    have hle := c.state.creditOf_le_creditTotal p
    rw [Closing.sum] at hfit
    rw [show (⟨x.bidder⟩ : Principal) = p by rw [hp], creditOf_addCredit_self _ p (by omega)]
  · rw [creditOf_addCredit_ne _ _ (fun h => hp (by rw [h]))]
    rfl

/-- **The loop credits each bidder with what their settlement pays, and nobody else.** -/
theorem settleBids_creditOf (hwin : winner = none ∨ winner = outcome.winner) (p : Principal) :
    ∀ (l : List Settlement) (c : Closing E), (l.map Settlement.bidder).Nodup →
      (∀ x ∈ l, winner = some x.bidder → c.openingBalance = 0) →
      c.sum + (l.map (worth outcome winner)).sum ≤ u128Max →
      (l.foldl (settleBid outcome winner holding) c).state.creditOf p = c.state.creditOf p +
        ((l.find? fun x => x.bidder = p.bytes).map (paid outcome winner holding)).getD 0
  | [], _, _, _, _ => rfl
  | x :: l, c, hnd, hopen, hfit => by
      rw [List.map_cons, List.nodup_cons] at hnd
      rw [List.map_cons, List.sum_cons] at hfit
      have hfirst : c.sum + worth outcome winner x ≤ u128Max := by omega
      have hsum := settleBid_sum holding hwin (hopen x List.mem_cons_self) hfirst
      have hopen' : ∀ y ∈ l, winner = some y.bidder →
          (settleBid outcome winner holding c x).openingBalance = 0 := by
        intro y hy hyw
        rw [settleBid_openingBalance fun hxw => ?_]
        · exact hopen y (List.mem_cons_of_mem _ hy) hyw
        · rw [hxw, Option.some.injEq] at hyw
          exact hnd.1 (hyw ▸ List.mem_map_of_mem hy)
      rw [List.foldl_cons, settleBids_creditOf hwin p l _ hnd.2 hopen' (by omega),
        settleBid_creditOf hwin hfirst p]
      by_cases hp : x.bidder = p.bytes
      · have hnone : (l.find? fun y => y.bidder = p.bytes) = none := by
          refine List.find?_eq_none.mpr fun y hy hyp => hnd.1 ?_
          rw [hp, ← of_decide_eq_true hyp]
          exact List.mem_map_of_mem hy
        rw [if_pos hp, List.find?_cons_of_pos (by simpa using hp), hnone]
        rfl
      · rw [if_neg hp, List.find?_cons_of_neg (by simpa using hp), Nat.add_zero]

/-- The loop sets aside the opening balance of the winner, as far as the refund goes. -/
lemma settleBids_opening {w : Bytes} : ∀ (l : List Settlement) (c : Closing E) {x : Settlement},
    (l.map Settlement.bidder).Nodup → x ∈ l → x.bidder = w →
    (l.foldl (settleBid outcome (some w) holding) c).openingBalance =
      (holding.map fun h => min h.2.1.openingBalance x.refund).getD 0
  | y :: l, c, x, hnd, hmem, hx => by
      rw [List.map_cons, List.nodup_cons] at hnd
      rw [List.foldl_cons]
      have hrest : ∀ (l' : List Settlement) (c : Closing E), (∀ z ∈ l', z.bidder ≠ w) →
          (l'.foldl (settleBid outcome (some w) holding) c).openingBalance = c.openingBalance := by
        intro l'
        induction l' with
        | nil => exact fun _ _ => rfl
        | cons z l' ih =>
            intro c hne
            rw [List.foldl_cons, ih _ fun z' hz' => hne z' (List.mem_cons_of_mem _ hz')]
            refine settleBid_openingBalance fun hw => hne z List.mem_cons_self ?_
            exact (Option.some.inj hw).symm
      rcases List.mem_cons.mp hmem with rfl | hmem
      · rw [hrest l _ fun z hz hzw => hnd.1 ?_, settleBid, if_pos (by rw [hx])]
        rw [hx, ← hzw]
        exact List.mem_map_of_mem hz
      · exact settleBids_opening l _ hnd.2 hmem hx

/-- The loop adds up the forfeits. -/
lemma settleBids_forfeited : ∀ (l : List Settlement) (c : Closing E),
    c.forfeited + (l.map Settlement.forfeited).sum ≤ u128Max →
    (l.foldl (settleBid outcome winner holding) c).forfeited =
      c.forfeited + (l.map Settlement.forfeited).sum
  | [], _, _ => rfl
  | x :: l, c, hfit => by
      rw [List.map_cons, List.sum_cons] at hfit ⊢
      have hx : (settleBid outcome winner holding c x).forfeited = c.forfeited + x.forfeited := by
        rw [settleBid]
        split_ifs <;> exact satAdd_of_le (by omega)
      rw [List.foldl_cons, settleBids_forfeited l _ (by omega), hx]
      omega

end

/-! ## A free name -/

/-- A name that nobody holds is free to hand over, and the other way round. -/
lemma holder_eq_none_iff_free {s : State E} {cfg : Config} {name : String} {now : ℕ} :
    s.holder cfg name now = none ↔ (s.lapsedRecord cfg name now).2 = true := by
  simp only [holder, lapsedRecord]
  cases s.getRecord name with
  | none => simp
  | some old =>
      simp only
      split_ifs <;> simp_all

/-- On a free name the outcome's winner wins. -/
lemma winnerIf_true (o : Outcome) : winnerIf o true = o.winner := by
  rw [winnerIf]
  cases o.winner <;> rfl

lemma noteProceeds_taxCollected {s : State E} {n : ℕ} (h : s.taxCollected + n ≤ u128Max) :
    (s.noteProceeds n).taxCollected = s.taxCollected + n := by
  simp only [noteProceeds]
  split_ifs with hpos
  · exact noteTaxCollected_taxCollected { s with proceeds := satAdd s.proceeds n } h
  · omega

lemma noteProceeds_credits (s : State E) (n : ℕ) : (s.noteProceeds n).credits = s.credits := by
  simp only [noteProceeds]
  split_ifs
  · rw [noteTaxCollected_eq]
  · rfl

lemma handOver_credits (s : State E) (name : String) (now : ℕ)
    (lapsed : Option (Record × ℕ)) (holding : Option Holding) (opening : ℕ) :
    (s.handOver name now lapsed holding opening).credits = s.credits := by
  cases holding with
  | none => rfl
  | some h =>
      rw [handOver_some, commitFlat, commit_credits, noteTaxCollected_eq]
      rfl

/-- The credits after a close are those after the loop. -/
lemma ClosedAs.credits {s s' : State E} {cfg : Config} {name : String} {now : ℕ} {r : Running E}
    {outcome : Outcome} {holding : Option Holding} {c : Closed}
    (h : ClosedAs s cfg name now r outcome holding s' c) :
    s'.credits = (s.settleBids outcome (winnerIf outcome (s.lapsedRecord cfg name now).2)
      holding).state.credits := by
  rw [h.state_eq]
  change State.credits (State.noteProceeds _ _) = _
  rw [noteProceeds_credits, handOver_credits]

/-! ## The winner has a bid and terms -/

/-- **What stands behind a winner's holding**: a revealed bid at or above the reserve that is no less than
the price, the terms its reveal fixed, and a deposit that covers both. -/
structure Wins (tr : World.History E) (name : String) (r : Running E) (o : Outcome) (w : Bytes)
    (x : Holding) : Prop where
  who : x.1 = ⟨w⟩
  bid : ∃ b ∈ E.auction.bids r.auction, b.bidder = w ∧ b.revealed = some x.2.2 ∧
    x.2.2 + x.2.1.openingBalance ≤ b.deposit
  reserve : (E.auction.params r.auction).reserve ≤ x.2.2
  price : o.price ≤ x.2.2
  fixed : World.FixedAtReveal tr name w x.2.2 x.2.1

/-- **No winner lacks a bid or terms.** -/
theorem winnerHolding_ok (hO : E.auction.OutcomeLaws) {tr : World.History E} {name : String} {r : Running E}
    {now : ℕ} {o : Outcome} (ht : World.Termed tr name r)
    (hnd : ((E.auction.bids r.auction).map Bid.bidder).Nodup)
    (ho : E.auction.outcome r.auction now = .ok o) {winner : Option Bytes}
    (hwin : winner = none ∨ winner = o.winner) :
    ∃ holding, winnerHolding r winner = .ok holding ∧ (winner = none → holding = none) ∧
      ∀ w, winner = some w → ∃ x, holding = some x ∧ Wins tr name r o w x := by
  cases winner with
  | none => exact ⟨none, rfl, fun _ => rfl, fun w hw => by cases hw⟩
  | some w =>
      have hwinner : o.winner = some w := by
        rcases hwin with hw | hw
        · cases hw
        · exact hw.symm
      obtain ⟨b, hb, rfl, n, hn, hreserve, hprice⟩ := hO.winner_revealed _ _ _ _ ho hwinner
      obtain ⟨terms, hmem, hcover, hfixed⟩ := ht.revealed b hb n hn
      have hbid : ((E.auction.bids r.auction).find? fun x => x.bidder = b.bidder).bind
          Bid.revealed = some n := by
        rw [Keyed.find_eq hnd b hb]
        exact hn
      have hterms : (r.targets.find? fun t => t.1 = b.bidder).map Prod.snd = some terms := by
        have hrow := Keyed.find_eq ht.nodup _ hmem
        rw [hrow]
        rfl
      refine ⟨some (⟨b.bidder⟩, terms, n), ?_, ?_, fun w hw => ?_⟩
      · simp only [winnerHolding, hbid, hterms]
      · intro hw
        cases hw
      · cases hw
        exact ⟨_, rfl, ⟨rfl, ⟨b, hb, rfl, hn, hcover⟩, hreserve, hprice, hfixed⟩⟩

/-! ## What each bid is owed -/

/-- What a bid is owed when its auction closes on a free name: the winner's deposit less the price and
the opening balance, any other revealed deposit in full, and nothing for an unrevealed one. -/
def due (o : Outcome) (opening : ℕ) (b : Bid) : ℕ :=
  if o.winner = some b.bidder then b.deposit - o.price - opening
  else if b.revealed.isSome then b.deposit else 0

/-- What a bid forfeits. -/
def forfeit (b : Bid) : ℕ := if b.revealed.isSome then 0 else b.deposit

lemma forfeit_of_revealed {b : Bid} {n : ℕ} (h : b.revealed = some n) : forfeit b = 0 := by
  rw [forfeit, if_pos (by rw [h]; rfl)]

/-- The opening balance of a holding, if there is one. -/
def openingOf (holding : Option Holding) : ℕ := (holding.map fun x => x.2.1.openingBalance).getD 0

section

variable {r : Running E} {o : Outcome} {now : ℕ}

lemma close_isOk {s : State E} {cfg : Config} {name : String} {holding : Option Holding}
    (hget : s.auctions.get name = some r) (ho : E.auction.outcome r.auction now = .ok o)
    (hholding : winnerHolding r (winnerIf o (s.lapsedRecord cfg name now).2) = .ok holding) :
    ∃ s' c, s.close cfg name now = (s', .ok c) := by
  simp only [winnerIf] at hholding
  simp only [close, getAuction, hget, attempt, ho, hholding]
  exact ⟨_, _, rfl⟩

/-- The settlement of a bid: nothing but an unrevealed deposit is forfeited. -/
lemma refund_of_bid (hV : E.auction.VickreyLaws) (hO : E.auction.OutcomeLaws)
    (ho : E.auction.outcome r.auction now = .ok o) {x : Settlement} (hx : x ∈ o.settlements) :
    ∃ b ∈ E.auction.bids r.auction, b.bidder = x.bidder ∧ x.forfeited = forfeit b ∧
      x.refund + forfeit b + (if o.winner = some b.bidder then o.price else 0) = b.deposit := by
  obtain ⟨b, hb, hbidder, hsum⟩ := (hV.outcome_settlements _ _ _ ho).2 x hx
  have hforfeited : x.forfeited = forfeit b := hO.forfeited _ _ _ x b ho hx hb hbidder
  rw [hforfeited, ← hbidder] at hsum
  exact ⟨b, hb, hbidder, hforfeited, hsum⟩

/-- The settlement of the winner leaves room for the opening balance. -/
lemma Wins.opening_le (hV : E.auction.VickreyLaws) (hO : E.auction.OutcomeLaws) {tr : World.History E}
    {name : String} {w : Bytes} {y : Holding}
    (hnd : ((E.auction.bids r.auction).map Bid.bidder).Nodup)
    (ho : E.auction.outcome r.auction now = .ok o) (hw : o.winner = some w)
    (h : Wins tr name r o w y) {x : Settlement} (hx : x ∈ o.settlements) (hxw : x.bidder = w) :
    y.2.1.openingBalance ≤ x.refund := by
  obtain ⟨b, hb, hbidder, hrevealed, hcover⟩ := h.bid
  obtain ⟨b', hb', hbidder', -, hsum⟩ := refund_of_bid hV hO ho hx
  have hsame : b' = b :=
    List.inj_on_of_nodup_map hnd hb' hb (hbidder'.trans (hxw.trans hbidder.symm))
  subst hsame
  have hprice := h.price
  rw [forfeit_of_revealed hrevealed, if_pos (by rw [hbidder]; exact hw)] at hsum
  omega

/-- **The loop credits what each bid is owed.** -/
theorem settleBids_due (hV : E.auction.VickreyLaws) (hO : E.auction.OutcomeLaws) {s : State E}
    {tr : World.History E} {name : String} {holding : Option Holding}
    (hnd : ((E.auction.bids r.auction).map Bid.bidder).Nodup)
    (ho : E.auction.outcome r.auction now = .ok o)
    (hnone : o.winner = none → holding = none)
    (hwins : ∀ w, o.winner = some w → ∃ y, holding = some y ∧ Wins tr name r o w y)
    (hfit : s.creditTotal + E.auction.escrow r.auction ≤ u128Max) (p : Principal) :
    (s.settleBids o o.winner holding).state.creditOf p = s.creditOf p +
      (((E.auction.bids r.auction).find? fun b => b.bidder = p.bytes).map
        (due o (openingOf holding))).getD 0 := by
  obtain ⟨hperm, -⟩ := hV.outcome_settlements _ _ _ ho
  have hworth := sum_worth hV hnd ho true
  rw [winnerIf_true] at hworth
  rw [settleBids, settleBids_creditOf (Or.inr rfl) p _ _ (hperm.nodup_iff.mpr hnd)
    (fun _ _ _ => rfl) (by simp only [Closing.sum]; omega)]
  refine congrArg (s.creditOf p + ·) (Keyed.find_of_perm _ _ hnd hperm (fun x hx => ?_) p.bytes)
  obtain ⟨b, hb, hbidder, -, hsum⟩ := refund_of_bid hV hO ho hx
  refine ⟨b, hb, hbidder, ?_⟩
  rw [paid, due, ← hbidder]
  by_cases hw : o.winner = some b.bidder
  · obtain ⟨y, rfl, hy⟩ := hwins _ hw
    have hle := hy.opening_le hV hO hnd ho hw hx hbidder.symm
    obtain ⟨b', hb', hbidder', hrevealed, -⟩ := hy.bid
    have hsame : b' = b := List.inj_on_of_nodup_map hnd hb' hb hbidder'
    subst hsame
    rw [forfeit_of_revealed hrevealed, if_pos hw] at hsum
    rw [if_pos hw.symm, if_pos hw, openingOf, Option.map_some, Option.map_some, Option.getD_some,
      Option.getD_some, min_eq_left hle]
    omega
  · rw [if_neg fun h => hw h.symm, if_neg fun h => hw h.symm, if_neg hw]
    rw [if_neg hw, forfeit] at hsum
    split_ifs at hsum ⊢ <;> omega

/-- The loop sets aside exactly the opening balance that was fixed: the guard never bites. -/
lemma settleBids_openingOf (hV : E.auction.VickreyLaws) (hO : E.auction.OutcomeLaws) {s : State E}
    {tr : World.History E} {name : String} {holding : Option Holding}
    (hnd : ((E.auction.bids r.auction).map Bid.bidder).Nodup)
    (ho : E.auction.outcome r.auction now = .ok o)
    (hnone : o.winner = none → holding = none)
    (hwins : ∀ w, o.winner = some w → ∃ y, holding = some y ∧ Wins tr name r o w y) :
    (s.settleBids o o.winner holding).openingBalance = openingOf holding := by
  cases hw : o.winner with
  | none =>
      rw [hnone hw]
      exact settleBids_openingBalance s o none
  | some w =>
      obtain ⟨y, rfl, hy⟩ := hwins w hw
      obtain ⟨hperm, -⟩ := hV.outcome_settlements _ _ _ ho
      obtain ⟨b, hb, hbidder⟩ := hV.outcome_winner _ _ _ _ ho hw
      obtain ⟨x, hx, hxw⟩ := List.mem_map.mp
        (hperm.mem_iff.mpr (hbidder ▸ List.mem_map_of_mem (f := Bid.bidder) hb))
      rw [settleBids, settleBids_opening _ _ (hperm.nodup_iff.mpr hnd) hx hxw, Option.map_some,
        Option.getD_some, min_eq_left (hy.opening_le hV hO hnd ho hw hx hxw)]
      rfl

/-- The loop adds up the unrevealed deposits. -/
lemma settleBids_forfeit (hV : E.auction.VickreyLaws) (hO : E.auction.OutcomeLaws) {s : State E}
    {holding : Option Holding} {winner : Option Bytes}
    (hnd : ((E.auction.bids r.auction).map Bid.bidder).Nodup)
    (ho : E.auction.outcome r.auction now = .ok o)
    (hfit : E.auction.escrow r.auction ≤ u128Max) :
    (s.settleBids o winner holding).forfeited = ((E.auction.bids r.auction).map forfeit).sum := by
  obtain ⟨hperm, -⟩ := hV.outcome_settlements _ _ _ ho
  have hsum : (o.settlements.map Settlement.forfeited).sum =
      ((E.auction.bids r.auction).map forfeit).sum :=
    Keyed.sum_eq_of_perm _ _ hnd hperm fun x hx => by
      obtain ⟨b, hb, hbidder, hforfeited, -⟩ := refund_of_bid hV hO ho hx
      exact ⟨b, hb, hbidder, hforfeited⟩
  have hle : ((E.auction.bids r.auction).map forfeit).sum ≤ E.auction.escrow r.auction := by
    refine List.sum_le_sum fun b _ => ?_
    rw [forfeit]
    split_ifs <;> omega
  rw [settleBids, settleBids_forfeited _ _ (by simp only; omega), hsum]
  simp only
  omega

end

/-! ## The record that is won -/

section

variable (s : State E) (cfg : Config) (name : String) (now : ℕ) (o : Outcome) (x : Holding)

lemma wonAs_owner : (s.wonAs cfg name now o x).owner = x.1 := by
  rw [wonAs]
  cases (s.lapsedRecord cfg name now).1 <;> rfl

lemma wonAs_target : (s.wonAs cfg name now o x).target = .alias x.2.1.aliasTo := by
  rw [wonAs]
  cases (s.lapsedRecord cfg name now).1 <;> rfl

lemma wonAs_flat : (s.wonAs cfg name now o x).flat =
    some (E.auction.holding x.2.2 (s.settleBids o
      (winnerIf o (s.lapsedRecord cfg name now).2) (some x)).openingBalance now) := by
  rw [wonAs]
  cases (s.lapsedRecord cfg name now).1 <;> rfl

end

/-! ## The whole close -/

/-- Every bidder is credited with what their bid is owed, and nobody else with anything. -/
structure Refunded (s : State E) (r : Running E) (o : Outcome) (opening : ℕ) (s' : State E) : Prop where
  bidders : ∀ b ∈ E.auction.bids r.auction,
    s'.creditOf ⟨b.bidder⟩ = s.creditOf ⟨b.bidder⟩ + due o opening b
  others : ∀ p : Principal, p.bytes ∉ (E.auction.bids r.auction).map Bid.bidder →
    s'.creditOf p = s.creditOf p

/-- The tax a lapsed record still owes when its name is handed over. -/
def lapsedTax (s : State E) (cfg : Config) (name : String) (now : ℕ) : ℕ :=
  ((s.lapsedRecord cfg name now).1.map Prod.snd).getD 0

/-- **What the close of an ended auction does to a free name.** -/
structure ClosedExactly (tr : World.History E) (s : State E) (cfg : Config) (name : String) (now : ℕ)
    (r : Running E) (o : Outcome) (s' : State E) (c : Closed) : Prop where
  winner : c.winner = o.winner.map Principal.mk
  price : c.price = if o.winner.isSome then o.price else 0
  forfeited : c.forfeited = ((E.auction.bids r.auction).map forfeit).sum
  /-- The winner holds the name at their own bid, with the opening balance their reveal fixed. -/
  sold : ∀ w, o.winner = some w → ∃ x, Wins tr name r o w x ∧ c.assessed = x.2.2 ∧
    Refunded s r o x.2.1.openingBalance s' ∧
    ∃ rec_ h, s'.records.get name = some rec_ ∧ rec_.owner = ⟨w⟩ ∧
      rec_.target = .alias x.2.1.aliasTo ∧ rec_.flat = some h ∧ h.price = x.2.2 ∧
      h.balance = x.2.1.openingBalance ∧ h.settledNs = now
  unsold : o.winner = none → Refunded s r o 0 s' ∧ s'.records = s.records
  treasury : s'.taxCollected = s.taxCollected +
    (if o.winner.isSome then s.lapsedTax cfg name now + o.price else 0) +
    ((E.auction.bids r.auction).map forfeit).sum
  auctions : s'.auctions = s.auctions.erase name

/-- A lapsed record owes no more than it holds. -/
lemma lapsedTax_le (hX : E.auction.TaxLaws) (s : State E) (cfg : Config) (name : String) (now : ℕ) :
    s.lapsedTax cfg name now ≤ s.balances := by
  rw [lapsedTax]
  cases hl : s.lapsedRecord cfg name now with
  | mk lapsed free =>
      cases lapsed with
      | none => exact Nat.zero_le _
      | some x =>
          obtain ⟨old, hget, -, htax, -⟩ := lapsedRecord_some hl
          have hsettled := settleRecord_balance cfg now hX old
          have hle := s.storedBalance_le name
          rw [s.storedBalance_of_get hget] at hle
          simp only [Option.map_some, Option.getD_some]
          omega

/-- A hand-over counts the tax the lapsed record owes. -/
lemma handOver_taxCollected {s : State E} {name : String} {now : ℕ}
    {lapsed : Option (Record × ℕ)} {holding : Option Holding} {opening : ℕ}
    (hfit : s.taxCollected + (lapsed.map Prod.snd).getD 0 ≤ u128Max) :
    (s.handOver name now lapsed holding opening).taxCollected =
      s.taxCollected + if holding.isSome then (lapsed.map Prod.snd).getD 0 else 0 := by
  cases holding with
  | none => rfl
  | some x =>
      have htax : (wonRecord (E := E) name lapsed x opening now).2 =
          (lapsed.map Prod.snd).getD 0 := by cases lapsed <;> rfl
      rw [handOver_some, commitFlat, commit_taxCollected, htax]
      exact noteTaxCollected_taxCollected (s.noteHandedOver name now)
        hfit

section

variable {s s' : State E} {cfg : Config} {name : String} {now : ℕ} {r : Running E} {o : Outcome}
  {holding : Option Holding} {c : Closed} {tr : World.History E}

/-- The treasury gets the price, the forfeits and what a lapsed record still owed. -/
lemma ClosedAs.treasury (hX : E.auction.TaxLaws) (hV : E.auction.VickreyLaws)
    (hO : E.auction.OutcomeLaws) (hnd : ((E.auction.bids r.auction).map Bid.bidder).Nodup)
    (hfit : s.value ≤ u128Max) (hfree : (s.lapsedRecord cfg name now).2 = true)
    (h : ClosedAs s cfg name now r o holding s' c) :
    s'.taxCollected = s.taxCollected +
      (if o.winner.isSome then s.lapsedTax cfg name now + o.price else 0) +
      ((E.auction.bids r.auction).map forfeit).sum := by
  have hescrow := s.escrow_le_escrows h.stored
  have hbalances := lapsedTax_le hX s cfg name now
  have hvalue : s.creditTotal + s.balances + E.auction.escrow r.auction + s.taxCollected
      ≤ u128Max := by
    rw [value] at hfit
    omega
  have hloop := settleBids_value (s := s) hV hnd h.ended true holding (by omega)
  have hforfeits : (s.settleBids o o.winner holding).forfeited =
      ((E.auction.bids r.auction).map forfeit).sum := settleBids_forfeit hV hO hnd h.ended (by omega)
  have hsome := h.holding_isSome
  have hstate := h.state_eq
  rw [hfree, winnerIf_true] at hsome hstate
  simp only [winnerIf_true] at hloop
  have htax := s.settleBids_taxCollected o o.winner holding
  have hover : ((s.settleBids o o.winner holding).state.handOver name now
      (s.lapsedRecord cfg name now).1 holding
      (s.settleBids o o.winner holding).openingBalance).taxCollected =
        s.taxCollected + if o.winner.isSome then s.lapsedTax cfg name now else 0 := by
    rw [handOver_taxCollected, htax, hsome]
    · rfl
    · rw [htax]
      change s.taxCollected + s.lapsedTax cfg name now ≤ u128Max
      omega
  rw [hstate]
  change (State.noteProceeds _ _).taxCollected = _
  rw [satAdd_of_le (by omega), noteProceeds_taxCollected, hover, hforfeits]
  · split_ifs <;> omega
  · rw [hover]
    split_ifs at hloop ⊢ <;> omega

/-- The credits of a close are those of the loop. -/
lemma ClosedAs.refunded (hV : E.auction.VickreyLaws) (hO : E.auction.OutcomeLaws)
    (hnd : ((E.auction.bids r.auction).map Bid.bidder).Nodup)
    (hfit : s.value ≤ u128Max) (hfree : (s.lapsedRecord cfg name now).2 = true)
    (hnone : o.winner = none → holding = none)
    (hwins : ∀ w, o.winner = some w → ∃ y, holding = some y ∧ Wins tr name r o w y)
    (h : ClosedAs s cfg name now r o holding s' c) : Refunded s r o (openingOf holding) s' := by
  have hescrow := s.escrow_le_escrows h.stored
  have hcredits := h.credits
  rw [hfree, winnerIf_true] at hcredits
  have hdue : ∀ p, s'.creditOf p = s.creditOf p +
      (((E.auction.bids r.auction).find? fun b => b.bidder = p.bytes).map
        (due o (openingOf holding))).getD 0 := by
    intro p
    have hloop := settleBids_due (s := s) hV hO hnd h.ended hnone hwins
      (by rw [value] at hfit; omega) p
    rw [← hloop, creditOf, creditOf, hcredits]
  refine ⟨fun b hb => ?_, fun p hp => ?_⟩
  · rw [hdue, Keyed.find_eq hnd b hb]
    rfl
  · have hfind : ((E.auction.bids r.auction).find? fun b => b.bidder = p.bytes) = none :=
      List.find?_eq_none.mpr fun b hb hbp => hp (by
        rw [← of_decide_eq_true hbp]
        exact List.mem_map_of_mem hb)
    rw [hdue, hfind]
    rfl

/-- **The close of an ended auction on a free name is exact.** -/
theorem ClosedAs.exactly (hX : E.auction.TaxLaws) (hV : E.auction.VickreyLaws)
    (hO : E.auction.OutcomeLaws) (hn : s.Named)
    (hnd : ((E.auction.bids r.auction).map Bid.bidder).Nodup) (hfit : s.value ≤ u128Max)
    (hfree : (s.lapsedRecord cfg name now).2 = true) (ht : World.Termed tr name r)
    (h : ClosedAs s cfg name now r o holding s' c) : ClosedExactly tr s cfg name now r o s' c := by
  have hholds := h.holds
  have hclosed := h.closed_eq
  rw [hfree, winnerIf_true] at hholds
  simp only [hfree, winnerIf_true] at hclosed
  obtain ⟨holding', hholds', hnone, hwins⟩ :=
    winnerHolding_ok hO ht hnd h.ended (Or.inr (rfl : o.winner = o.winner))
  rw [hholds] at hholds'
  cases hholds'
  have hrefunded := h.refunded hV hO hnd hfit hfree hnone hwins
  have hescrow := s.escrow_le_escrows h.stored
  refine ⟨by rw [hclosed], by rw [hclosed], ?_, fun w hw => ?_, fun hw => ?_,
    h.treasury hX hV hO hnd hfit hfree, h.auctions⟩
  · rw [hclosed]
    exact settleBids_forfeit hV hO hnd h.ended (by rw [value] at hfit; omega)
  · obtain ⟨x, rfl, hx⟩ := hwins w hw
    refine ⟨x, hx, by rw [hclosed]; rfl, hrefunded, s.wonAs cfg name now o x,
      E.auction.holding x.2.2 x.2.1.openingBalance now, ?_, ?_, ?_, ?_, hX.holding_price _ _ _,
      hX.holding_balance _ _ _, hX.holding_settledNs _ _ _⟩
    · rw [h.records, wonRecords, hn.wonAs_name, OrdMap.get_insert_self]
    · rw [wonAs_owner, hx.who]
    · exact wonAs_target s cfg name now o x
    · have hopening := settleBids_openingOf (s := s) hV hO hnd h.ended hnone hwins
      rw [wonAs_flat, hfree, winnerIf_true, hopening]
      rfl
  · have hholding := hnone hw
    subst hholding
    exact ⟨hrefunded, h.records⟩

end

end State

/-- Three bids, of which two are revealed; the auction is over and not yet closed.  A grace period at the
highest bid is ten cycles of tax. -/
def Script.ended : List Event :=
  opening ++ bidding 1 2 "abc" cyclePerNs (2 * cyclePerNs) 0 ++ bidding 2 3 "abc" 500 700 0 ++
    bidding 3 6 "abc" 10 100 0 ++
    [.call (caller 2 10) (.reveal "abc" cyclePerNs [] "h/x"),
      .call (caller 3 10) (.reveal "abc" 500 [] "h/y")]

namespace World

variable {E : Env} {tr : History E} {w : World E}

/-- **Every ended auction closes, and closes exactly.**  In every state a lawful history reaches, and
under any config, an auction whose reveal phase is over closes; and where nobody holds the name, the close
pays every bidder exactly what their bid is owed and hands the name to the winner at their own bid, with
the opening balance their reveal fixed. -/
theorem ended_auctions_close (hX : E.auction.TaxLaws) (hV : E.auction.VickreyLaws)
    (hO : E.auction.OutcomeLaws) (h : Run (machine E) lawful init tr w) {name : String} {r : Running E}
    (hget : w.canister.auctions.get name = some r) {now : ℕ}
    (hover : E.auction.phase r.auction now = .closed) (cfg : Config) :
    ∃ o s' c, E.auction.outcome r.auction now = .ok o ∧
      w.canister.close cfg name now = (s', .ok c) ∧
      (w.canister.holder cfg name now = none →
        State.ClosedExactly tr w.canister cfg name now r o s' c) := by
  have hb := run_balanced hX hV h
  have ht := run_termed hX hV h hget
  have hnd := hb.tidy.oneBid name r hget
  obtain ⟨o, ho⟩ := (hV.outcome_isOk r.auction now).mpr hover
  have hwin : State.winnerIf o (w.canister.lapsedRecord cfg name now).2 = none ∨
      State.winnerIf o (w.canister.lapsedRecord cfg name now).2 = o.winner := by
    cases (w.canister.lapsedRecord cfg name now).2 with
    | true => exact Or.inr (State.winnerIf_true o)
    | false =>
        refine Or.inl ?_
        rw [State.winnerIf]
        cases o.winner <;> rfl
  obtain ⟨holding, hholding, -, -⟩ := State.winnerHolding_ok hO ht hnd ho hwin
  obtain ⟨s', c, hclose⟩ := State.close_isOk hget ho hholding
  refine ⟨o, s', c, ho, hclose, fun hholder => ?_⟩
  obtain ⟨r', o', holding', hc⟩ := State.close_ok hclose
  have hr := hc.stored
  rw [hget] at hr
  cases hr
  have ho' := hc.ended
  rw [ho] at ho'
  cases ho'
  have hvalue : w.canister.value ≤ u128Max :=
    (Nat.le_of_add_right_le hb.value_le).trans hb.volume_lt.le
  exact hc.exactly hX hV hO hb.tidy.named hnd hvalue (State.holder_eq_none_iff_free.mp hholder) ht

/-- The highest bidder pays the second bid, and starts with the ten cycles. -/
theorem ended_auctions_close_revealed : ∃ (tr : History Env.reference) (w : World Env.reference)
    (r : Running Env.reference) (o : Outcome) (s' : State Env.reference) (c : Closed),
    Run (machine Env.reference) lawful init tr w ∧ tr.reverse.map Entry.event = Script.ended ∧
      w.canister.auctions.get "abc" = some r ∧
      w.canister.close Script.market "abc" 20 = (s', .ok c) ∧ c.price = 500 ∧
      (s'.records.get "abc").bind Record.flat = some ⟨Script.cyclePerNs, 10, 20, none⟩ ∧
      State.ClosedExactly tr w.canister Script.market "abc" 20 r o s' c := by
  obtain ⟨tr, w, hr, hevents, hended, hfree, hprice, hflat⟩ := Machine.exists_run_of_exec
    (machine Env.reference) lawful init Script.ended (fun _ w =>
      (w.canister.auctions.get "abc").any (fun r =>
        Reference.auction.phase r.auction 20 = .closed) = true ∧
      w.canister.holder Script.market "abc" 20 = none ∧
      (w.canister.close Script.market "abc" 20).2.toOption.map Closed.price = some 500 ∧
      ((w.canister.close Script.market "abc" 20).1.records.get "abc").bind Record.flat =
        some ⟨Script.cyclePerNs, 10, 20, none⟩) (by decide +kernel)
  obtain ⟨r, hget, hover⟩ := (Option.any_eq_true _ _).mp hended
  obtain ⟨o, s', c, -, hclose, hexact⟩ := ended_auctions_close Reference.auction_taxLaws
    Reference.auction_vickreyLaws Reference.auction_outcomeLaws hr hget (of_decide_eq_true hover)
    Script.market
  rw [hclose] at hprice hflat
  exact ⟨tr, w, r, o, s', c, hr, hevents, hget, hclose, Option.some.inj hprice, hflat, hexact hfree⟩

end World
