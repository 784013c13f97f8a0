import Mathlib.Data.List.Sort
import IcNameService.Core.Keyed
import IcNameService.External.Env

/-!
# A reference for the crates

Concrete crates that obey every law the results rely on, so that no result is about nothing, and that
can be run, so that a history can be written down and checked.

* `Reference.auction` — the tax and the auction with the documented arithmetic: tax is
  `price * rate * elapsed` per year in whole cycles, a holding runs out once more is due than it has, the
  second price wins.
* `Reference.certification` — hash trees with symbolic hashes: a hash is the term that was hashed.
-/

namespace Reference

/-! ## The Harberger tax -/

/-- `YEAR_NS`. -/
def yearNs : ℕ := 365 * 24 * 60 * 60 * 1000000000

/-- `MAX_PRICE`. -/
def maxPrice : ℕ := 10 ^ 18

/-- Basis points of a year. -/
def scale : ℕ := 10000 * yearNs

/-- The whole cycles due for a stretch of time. -/
def taxFor (price rateBps elapsed : ℕ) : ℕ := price * rateBps * elapsed / scale

/-- The time that an amount of tax pays for. -/
def nsFor (price rateBps amount : ℕ) : ℕ :=
  (amount * scale + price * rateBps - 1) / (price * rateBps)

def minDeposit (p : TaxParams) (price : ℕ) : ℕ := taxFor price p.rateBps p.graceNs

def checkParams (p : TaxParams) : Except String Unit :=
  if p.rateBps > 10000 then .error "rate_bps above 10000"
  else if p.graceNs = 0 then .error "grace_ns must be positive"
  else if p.minPrice > maxPrice then .error "min_price above the maximum"
  else .ok ()

/-- The cycles due on a holding, whether it has them or not. -/
def dueOn (rateBps : ℕ) (h : Harberger) (now : ℕ) : ℕ := taxFor h.price rateBps (now - h.settledNs)

/-- The moment a holding ran out at a rate, if by now more is due than it has. -/
def lapse (rateBps : ℕ) (h : Harberger) (now : ℕ) : Option ℕ :=
  match h.lapsedNs with
  | some t => some t
  | none =>
      if dueOn rateBps h now ≤ h.balance then none
      else some (h.settledNs + nsFor h.price rateBps h.balance)

/-- Settle: whole cycles come off the balance, and the time they do not pay for is left for later. -/
def settle (p : TaxParams) (h : Harberger) (now : ℕ) : Harberger × Status × ℕ :=
  match lapse p.rateBps h now with
  | none =>
      let due := dueOn p.rateBps h now
      ({ h with
          balance := h.balance - due
          settledNs := h.settledNs + nsFor h.price p.rateBps due }, .active, due)
  | some t =>
      ({ h with balance := 0, settledNs := max h.settledNs now, lapsedNs := some t },
        IcAuction.statusAt (some t) p.graceNs now, h.balance)

/-- Top up: refused for a free holding, and where less than a grace period of tax would be left. -/
def topUp (p : TaxParams) (h : Harberger) (n now : ℕ) : Except String (Harberger × ℕ) :=
  match settle p h now with
  | (_, .free, _) => .error "the holding is free"
  | (h, _, tax) =>
      if h.balance + n < minDeposit p h.price then .error "less than one grace period of tax"
      else .ok ({ h with balance := h.balance + n, lapsedNs := none }, tax)

lemma settle_cases (p : TaxParams) (h : Harberger) (now : ℕ) :
    (∃ t, lapse p.rateBps h now = some t ∧ settle p h now =
      ({ h with balance := 0, settledNs := max h.settledNs now, lapsedNs := some t },
        IcAuction.statusAt (some t) p.graceNs now, h.balance)) ∨
    (lapse p.rateBps h now = none ∧ settle p h now =
      ({ h with
          balance := h.balance - dueOn p.rateBps h now
          settledNs := h.settledNs + nsFor h.price p.rateBps (dueOn p.rateBps h now) },
        .active, dueOn p.rateBps h now)) := by
  simp only [settle]
  cases hl : lapse p.rateBps h now with
  | none => exact Or.inr ⟨rfl, rfl⟩
  | some t => exact Or.inl ⟨t, rfl, rfl⟩

/-- What has not run out has what is due. -/
lemma due_le_of_lapse_none {rate now : ℕ} {h : Harberger} (hl : lapse rate h now = none) :
    h.lapsedNs = none ∧ dueOn rate h now ≤ h.balance := by
  simp only [lapse] at hl
  split at hl
  · cases hl
  · rename_i hnone
    split_ifs at hl with hdue
    exact ⟨hnone, hdue⟩

lemma lapse_of_lapsedNs {rate now t : ℕ} {h : Harberger} (hl : h.lapsedNs = some t) :
    lapse rate h now = some t := by
  simp only [lapse, hl]

/-- The time that whole cycles pay for has gone by when they are due. -/
lemma nsFor_taxFor_le (price rate elapsed : ℕ) :
    nsFor price rate (taxFor price rate elapsed) ≤ elapsed := by
  rw [nsFor]
  have hfloor := Nat.div_mul_le_self (price * rate * elapsed) scale
  rcases Nat.eq_zero_or_pos (price * rate) with hzero | hpos
  · simp [hzero]
  · rw [← Nat.lt_succ_iff, Nat.div_lt_iff_lt_mul hpos, Nat.succ_mul, Nat.mul_comm elapsed, taxFor]
    omega

section

variable (p : TaxParams) (h : Harberger) (now : ℕ)

lemma settle_balance : (settle p h now).1.balance + (settle p h now).2.2 = h.balance := by
  rcases settle_cases p h now with ⟨t, -, hs⟩ | ⟨hl, hs⟩
  · simp [hs]
  · rw [hs]
    exact Nat.sub_add_cancel (due_le_of_lapse_none hl).2

lemma settle_price : (settle p h now).1.price = h.price := by
  rcases settle_cases p h now with ⟨t, -, hs⟩ | ⟨-, hs⟩ <;> rw [hs]

lemma settle_settledNs (hle : h.settledNs ≤ now) :
    h.settledNs ≤ (settle p h now).1.settledNs ∧ (settle p h now).1.settledNs ≤ now := by
  rcases settle_cases p h now with ⟨t, -, hs⟩ | ⟨-, hs⟩
  · rw [hs]
    exact ⟨le_max_left _ _, max_le hle le_rfl⟩
  · have hpaid := nsFor_taxFor_le h.price p.rateBps (now - h.settledNs)
    rw [hs]
    simp only [dueOn]
    omega

variable {p h now} in
lemma topUp_ok {n more : ℕ} {h' : Harberger} (hok : topUp p h n now = .ok (h', more)) :
    h' = { (settle p h now).1 with
      balance := (settle p h now).1.balance + n, lapsedNs := none } ∧
      more = (settle p h now).2.2 := by
  simp only [topUp] at hok
  rcases hs : settle p h now with ⟨h₁, status, tax⟩
  rw [hs] at hok
  cases status with
  | free => cases hok
  | _ =>
      simp only at hok
      split_ifs at hok
      cases hok
      exact ⟨rfl, rfl⟩

end

/-! ## The Vickrey auction -/

/-- A bid with its commitment. -/
structure SealedBid where
  bidder : List UInt8
  commitment : List UInt8
  deposit : ℕ
  revealed : Option ℕ
  deriving DecidableEq, Repr

def SealedBid.bid (b : SealedBid) : Bid := ⟨b.bidder, b.deposit, b.revealed⟩

/-- An auction: one bid per bidder. -/
structure Auction where
  params : AuctionParams
  openedNs : ℕ
  bids : List SealedBid
  nodup : (bids.map SealedBid.bidder).Nodup

/-- Stands for `sha256("ic-auction/vickrey/v1", bidder, amount, salt)`. -/
def commitment (bidder : List UInt8) (amount : ℕ) (salt : List UInt8) : List UInt8 :=
  (bidder ++ asBytes (toString amount) ++ salt ++ List.replicate 32 0).take 32

namespace Auction

def start (p : AuctionParams) (now : ℕ) : Auction := ⟨p, now, [], List.nodup_nil⟩

variable (a : Auction)

def commitUntilNs : ℕ := a.openedNs + a.params.commitNs

def revealUntilNs : ℕ := a.commitUntilNs + a.params.revealNs

def phase (now : ℕ) : Phase :=
  if now < a.commitUntilNs then .commit
  else if now < a.revealUntilNs then .reveal
  else .closed

lemma nodup_commit (b : SealedBid) :
    ((a.bids.filter (fun x => x.bidder ≠ b.bidder) ++ [b]).map SealedBid.bidder).Nodup :=
  Keyed.nodup_replace a.nodup List.perm_append_comm

def commit (now : ℕ) (bidder sealed : List UInt8) (deposit : ℕ) :
    Except String (Auction × Option ℕ) :=
  if a.phase now ≠ .commit then .error "the commit phase is over"
  else
    let b : SealedBid := ⟨bidder, sealed, deposit, none⟩
    .ok (⟨a.params, a.openedNs, a.bids.filter (fun x => x.bidder ≠ bidder) ++ [b], a.nodup_commit b⟩,
      (a.bids.find? (fun x => x.bidder = bidder)).map SealedBid.deposit)

/-- Open one bidder's bid. -/
def openBid (bidder : List UInt8) (amount : ℕ) (b : SealedBid) : SealedBid :=
  if b.bidder = bidder then { b with revealed := some amount } else b

lemma bidder_openBid (bidder : List UInt8) (amount : ℕ) (b : SealedBid) :
    (openBid bidder amount b).bidder = b.bidder := by
  simp only [openBid]
  split_ifs <;> rfl

lemma nodup_reveal (bidder : List UInt8) (amount : ℕ) :
    ((a.bids.map (openBid bidder amount)).map SealedBid.bidder).Nodup := by
  rw [List.map_map]
  have : SealedBid.bidder ∘ openBid bidder amount = SealedBid.bidder :=
    funext fun b => bidder_openBid bidder amount b
  rw [this]
  exact a.nodup

def reveal (now : ℕ) (bidder : List UInt8) (amount : ℕ) (salt : List UInt8) :
    Except String Auction :=
  if a.phase now ≠ .reveal then .error "not in the reveal phase"
  else
    match a.bids.find? (fun x => x.bidder = bidder) with
    | none => .error "no commitment"
    | some b =>
        if b.revealed.isSome then .error "already revealed"
        else if b.commitment ≠ commitment bidder amount salt then
          .error "amount and salt do not match the commitment"
        else if b.deposit < amount then .error "the deposit does not cover the bid"
        else .ok ⟨a.params, a.openedNs, a.bids.map (openBid bidder amount),
          a.nodup_reveal bidder amount⟩

/-- The amount a bid counts for: revealed, at or above the reserve, covered by its deposit. -/
def valid (b : SealedBid) : Option (List UInt8 × ℕ) :=
  match b.revealed with
  | none => none
  | some n => if a.params.reserve ≤ n ∧ n ≤ b.deposit then some (b.bidder, n) else none

/-- The valid bids, highest first, the earlier of two equal ones first. -/
def ranking : List (List UInt8 × ℕ) :=
  (a.bids.filterMap a.valid).insertionSort fun x y => y.2 ≤ x.2

def winner : Option (List UInt8) := a.ranking.head?.map Prod.fst

/-- The second-highest bid, or the reserve. -/
def price : ℕ :=
  match a.ranking with
  | _ :: second :: _ => second.2
  | _ => a.params.reserve

def settlement (b : SealedBid) : Settlement :=
  if a.winner = some b.bidder then ⟨b.bidder, b.deposit - a.price, 0⟩
  else if b.revealed.isSome then ⟨b.bidder, b.deposit, 0⟩
  else ⟨b.bidder, 0, b.deposit⟩

def outcome (now : ℕ) : Except String Outcome :=
  if a.phase now = .closed then .ok ⟨a.winner, a.price, a.bids.map a.settlement⟩
  else .error "the auction has not ended"

/-- The winner's bid meets the reserve, is covered by its deposit, and is no less than the second. -/
lemma winner_pays {w : List UInt8} (h : a.winner = some w) :
    ∃ b ∈ a.bids, b.bidder = w ∧
      ∃ n, b.revealed = some n ∧ a.params.reserve ≤ n ∧ a.price ≤ n ∧ n ≤ b.deposit := by
  rw [winner] at h
  have hsort : a.ranking.Pairwise fun x y => y.2 ≤ x.2 :=
    haveI : Std.Total fun x y : List UInt8 × ℕ => y.2 ≤ x.2 := ⟨fun x y => le_total _ _⟩
    haveI : IsTrans (List UInt8 × ℕ) fun x y => y.2 ≤ x.2 := ⟨fun _ _ _ h h' => h'.trans h⟩
    List.pairwise_insertionSort _ _
  have hmem : ∀ x ∈ a.ranking, ∃ b ∈ a.bids, a.valid b = some x := fun x hx => by
    have := (List.perm_insertionSort _ _).mem_iff.mp hx
    simpa [List.mem_filterMap] using this
  cases hr : a.ranking with
  | nil => simp [hr] at h
  | cons x rest =>
      rw [hr] at h hsort
      cases h
      obtain ⟨b, hb, hv⟩ := hmem x (hr ▸ List.mem_cons_self)
      rw [valid] at hv
      split at hv
      · cases hv
      · rename_i n hn
        split_ifs at hv with hc
        cases hv
        refine ⟨b, hb, rfl, n, hn, hc.1, ?_, hc.2⟩
        rw [price, hr]
        cases rest with
        | nil => exact hc.1
        | cons y rest => exact (List.pairwise_cons.mp hsort).1 y List.mem_cons_self

/-- The winner is a bidder whose deposit covers the price. -/
lemma winner_covers {w : List UInt8} (h : a.winner = some w) :
    ∃ b ∈ a.bids, b.bidder = w ∧ a.price ≤ b.deposit := by
  obtain ⟨b, hb, hbidder, n, -, -, hprice, hdeposit⟩ := a.winner_pays h
  exact ⟨b, hb, hbidder, hprice.trans hdeposit⟩

lemma settlement_bidder (b : SealedBid) : (a.settlement b).bidder = b.bidder := by
  simp only [settlement]
  split_ifs <;> rfl

/-- Only an unrevealed commitment forfeits: the winner has revealed. -/
lemma settlement_forfeited {b : SealedBid} (hb : b ∈ a.bids) :
    (a.settlement b).forfeited = if b.revealed.isSome then 0 else b.deposit := by
  rw [settlement]
  by_cases hw : a.winner = some b.bidder
  · obtain ⟨b', hb', hbidder, n, hn, -⟩ := a.winner_pays hw
    have hsame : b' = b := List.inj_on_of_nodup_map a.nodup hb' hb hbidder
    subst hsame
    rw [if_pos hw, if_pos (by rw [hn]; rfl)]
  · rw [if_neg hw]
    cases b.revealed <;> rfl

end Auction

/-! ## The ic-auction crate -/

def auction : IcAuction where
  maxPrice := maxPrice
  checkParams := checkParams
  minDeposit := minDeposit
  holding price balance now := ⟨price, balance, now, none⟩
  settle := settle
  topUp := topUp
  Auction := Auction
  start := Auction.start
  params := Auction.params
  openedNs := Auction.openedNs
  bids a := a.bids.map SealedBid.bid
  phase := Auction.phase
  commitUntilNs := Auction.commitUntilNs
  revealUntilNs := Auction.revealUntilNs
  commit := Auction.commit
  reveal := Auction.reveal
  outcome := Auction.outcome

theorem auction_taxLaws : auction.TaxLaws where
  settle_balance := settle_balance
  settle_price := settle_price
  settle_free p h now hfree := by
    rcases settle_cases p h now with ⟨t, -, hs⟩ | ⟨-, hs⟩
    · simp [auction, hs]
    · simp [auction, hs] at hfree
  holding_price _ _ _ := rfl
  holding_balance _ _ _ := rfl
  holding_settledNs _ _ _ := rfl
  topUp_balance p h n now h' more hok := by
    obtain ⟨rfl, rfl⟩ := topUp_ok hok
    have := settle_balance p h now
    simp only
    omega
  topUp_price p h n now h' more hok := by
    obtain ⟨rfl, -⟩ := topUp_ok hok
    exact settle_price p h now

theorem auction_clockLaws : auction.ClockLaws where
  settle_settledNs := settle_settledNs
  topUp_settledNs p h n now h' more hle hok := by
    obtain ⟨rfl, -⟩ := topUp_ok hok
    exact settle_settledNs p h now hle

/-- Over time more is due. -/
lemma dueOn_mono (rate : ℕ) (h : Harberger) {now now' : ℕ} (hnow : now ≤ now') :
    dueOn rate h now ≤ dueOn rate h now' := by
  simp only [dueOn, taxFor]
  gcongr

theorem auction_lapseLaws : auction.LapseLaws lapse where
  settle_status p h now := by
    rcases settle_cases p h now with ⟨t, ht, hs⟩ | ⟨hnone, hs⟩
    · simp [auction, hs, ht]
    · simp [auction, hs, hnone, IcAuction.statusAt]
  lapse_mono rate h now now' t hl hle := by
    simp only [lapse] at hl ⊢
    split at hl
    · exact hl
    · split_ifs at hl with hdue
      have hmore := dueOn_mono rate h hle
      rw [if_neg (by omega)]
      exact hl
  lapse_settle p h now now' t hl _ rate := by
    rcases settle_cases p h now with ⟨t', ht', hs⟩ | ⟨hnone, -⟩
    · rw [hl] at ht'
      cases ht'
      exact lapse_of_lapsedNs (by simp [auction, hs])
    · rw [hnone] at hl
      cases hl
  lapse_holding rate price balance now := by
    simp [auction, lapse, dueOn, taxFor]

theorem auction_graceLaws : auction.GraceLaws lapse where
  settle_spent p h now hne := by
    rcases settle_cases p h now with ⟨t, -, hs⟩ | ⟨-, hs⟩
    · simp [auction, hs]
    · exact absurd (show (settle p h now).2.1 = .active by rw [hs]) hne
  lapse_reprice p h now t price hl := by
    rcases settle_cases p h now with ⟨t', ht', hs⟩ | ⟨hnone, -⟩
    · rw [hl] at ht'
      cases ht'
      exact lapse_of_lapsedNs (by simp [auction, hs])
    · rw [hnone] at hl
      cases hl
  minDeposit_mono p price price' hle := by
    change price * p.rateBps * p.graceNs / scale ≤ price' * p.rateBps * p.graceNs / scale
    gcongr

theorem auction_vickreyLaws : auction.VickreyLaws where
  start_bids _ _ := rfl
  commit_ok a now bidder c d a' replaced hok := by
    simp only [auction, Auction.commit] at hok
    split_ifs at hok with hphase
    cases hok
    refine ⟨not_not.mp hphase, ?_, ?_⟩
    · simp only [auction, List.map_append, List.map_cons, List.map_nil, List.filter_map]
      exact List.perm_append_comm
    · simp only [auction, List.find?_map, Option.map_map]
      rfl
  reveal_ok a now bidder n salt a' hok := by
    simp only [auction, Auction.reveal] at hok
    split_ifs at hok with hphase
    split at hok
    · cases hok
    · rename_i b hfind
      split_ifs at hok
      cases hok
      refine ⟨not_not.mp hphase,
        ⟨b.bid, List.mem_map_of_mem (List.mem_of_find?_eq_some hfind), ?_⟩, ?_⟩
      · have : b.bidder = bidder := by simpa using List.find?_some hfind
        exact this
      · simp only [auction, List.map_map]
        refine List.map_congr_left fun x _ => ?_
        by_cases hx : x.bidder = bidder <;> simp [Auction.openBid, SealedBid.bid, hx]
  outcome_isOk a now := by
    simp only [auction, Auction.outcome]
    split_ifs with h
    · simp [h]
    · simp [h]
  outcome_stable a now now' o hok hle := by
    simp only [auction, Auction.outcome, Auction.phase] at hok ⊢
    split_ifs at hok ⊢ <;> first | exact hok | omega
  outcome_settlements a now o hok := by
    simp only [auction, Auction.outcome] at hok
    split_ifs at hok
    cases hok
    constructor
    · simp only [auction, List.map_map]
      refine List.Perm.of_eq (List.map_congr_left fun b _ => ?_)
      simp only [Function.comp_apply, Auction.settlement]
      split_ifs <;> rfl
    · intro s hs
      obtain ⟨b, hb, rfl⟩ := List.mem_map.mp hs
      refine ⟨b.bid, List.mem_map_of_mem hb, ?_, ?_⟩
      · simp only [Auction.settlement, SealedBid.bid]
        split_ifs <;> rfl
      · by_cases hw : a.winner = some b.bidder
        · obtain ⟨b', hb', hbidder, hcover⟩ := a.winner_covers hw
          have : b' = b := List.inj_on_of_nodup_map a.nodup hb' hb hbidder
          subst this
          simp only [Auction.settlement, if_pos hw, SealedBid.bid]
          omega
        · simp only [Auction.settlement, if_neg hw, SealedBid.bid]
          split_ifs <;> simp_all
  outcome_winner a now o w hok hw := by
    simp only [auction, Auction.outcome] at hok
    split_ifs at hok
    cases hok
    obtain ⟨b, hb, hbidder, -⟩ := a.winner_covers hw
    exact ⟨b.bid, List.mem_map_of_mem hb, hbidder⟩

theorem auction_outcomeLaws : auction.OutcomeLaws where
  winner_revealed a now o w hok hw := by
    simp only [auction, Auction.outcome] at hok
    split_ifs at hok
    cases hok
    obtain ⟨b, hb, hbidder, n, hn, hreserve, hprice, -⟩ := Auction.winner_pays a hw
    exact ⟨b.bid, List.mem_map_of_mem hb, hbidder, n, hn, hreserve, hprice⟩
  forfeited a now o x b hok hx hb hbidder := by
    simp only [auction, Auction.outcome] at hok
    split_ifs at hok
    cases hok
    obtain ⟨y, hy, rfl⟩ := List.mem_map.mp hx
    obtain ⟨z, hz, rfl⟩ := List.mem_map.mp hb
    have hzy : z = y := List.inj_on_of_nodup_map (Auction.nodup a) hz hy
      (hbidder.trans (Auction.settlement_bidder a y))
    subst hzy
    exact Auction.settlement_forfeited a hy

/-! ## The ic-certification crate -/

/-- A hash, as the term that was hashed. -/
inductive Digest
  | empty
  | leaf (v : Bytes)
  | labeled (l : Bytes) (d : Digest)
  | fork (a b : Digest)
  deriving DecidableEq

/-- `HashTree`. -/
inductive HashTree
  | empty
  | leaf (v : Bytes)
  | labeled (l : Bytes) (t : HashTree)
  | fork (a b : HashTree)
  | pruned (d : Digest)

namespace HashTree

def digest : HashTree → Digest
  | empty => .empty
  | leaf v => .leaf v
  | labeled l t => .labeled l t.digest
  | fork a b => .fork a.digest b.digest
  | pruned d => d

/-- The leaf at a path, if the tree shows it. -/
def lookup : HashTree → List Bytes → Option Bytes
  | leaf v, [] => some v
  | labeled l t, l' :: p => if l = l' then t.lookup p else none
  | fork a b, l :: p => (a.lookup (l :: p)).or (b.lookup (l :: p))
  | _, _ => none

/-- What two prunings of one tree show between them. -/
def merge : HashTree → HashTree → HashTree
  | pruned _, b => b
  | labeled l t, labeled _ t' => labeled l (t.merge t')
  | fork a b, fork a' b' => fork (a.merge a') (b.merge b')
  | a, _ => a

lemma digest_merge : ∀ {a b : HashTree}, a.digest = b.digest → (a.merge b).digest = a.digest
  | pruned _, _, h => h.symm
  | labeled _ t, labeled _ t', h => by
      simp only [digest, Digest.labeled.injEq] at h
      simp [merge, digest, digest_merge h.2]
  | fork a b, fork a' b', h => by
      simp only [digest, Digest.fork.injEq] at h
      simp [merge, digest, digest_merge h.1, digest_merge h.2]
  | empty, _, _ => rfl
  | leaf _, _, _ => rfl
  | labeled _ _, empty, _ | labeled _ _, leaf _, _ | labeled _ _, fork _ _, _
  | labeled _ _, pruned _, _ => rfl
  | fork _ _, empty, _ | fork _ _, leaf _, _ | fork _ _, labeled _ _, _ | fork _ _, pruned _, _ => rfl

/-- A merge shows what either side does. -/
lemma isSome_lookup_merge : ∀ {a b : HashTree} {p : List Bytes}, a.digest = b.digest →
    (a.lookup p).isSome ∨ (b.lookup p).isSome → ((a.merge b).lookup p).isSome
  | pruned _, _, p, _, h => h.resolve_left (by cases p <;> simp [lookup])
  | labeled l t, labeled l' t', [], _, h => by simp [lookup] at h
  | labeled l t, labeled l' t', k :: p, hd, h => by
      simp only [digest, Digest.labeled.injEq] at hd
      obtain ⟨rfl, hd⟩ := hd
      simp only [merge, lookup] at h ⊢
      split_ifs at h ⊢ with hl
      · exact isSome_lookup_merge hd h
      · simp at h
  | fork a b, fork a' b', [], _, h => by simp [lookup] at h
  | fork a b, fork a' b', k :: p, hd, h => by
      simp only [digest, Digest.fork.injEq] at hd
      simp only [merge, lookup, Option.isSome_or, Bool.or_eq_true] at h ⊢
      have ha := isSome_lookup_merge (p := k :: p) hd.1
      have hb := isSome_lookup_merge (p := k :: p) hd.2
      tauto
  | empty, pruned _, p, _, h => by cases p <;> simp [lookup] at h
  | empty, empty, p, _, h => by cases p <;> simp [lookup] at h
  | leaf _, leaf _, p, hd, h => by
      simp only [digest, Digest.leaf.injEq] at hd
      subst hd
      simpa [merge] using h
  | leaf _, pruned _, p, _, h => h.resolve_right (by cases p <;> simp [lookup])
  | labeled _ _, pruned _, p, _, h => h.resolve_right (by cases p <;> simp [lookup])
  | fork _ _, pruned _, p, _, h => h.resolve_right (by cases p <;> simp [lookup])
  | empty, leaf _, _, hd, _ | empty, labeled _ _, _, hd, _ | empty, fork _ _, _, hd, _
  | leaf _, empty, _, hd, _ | leaf _, labeled _ _, _, hd, _ | leaf _, fork _ _, _, hd, _
  | labeled _ _, empty, _, hd, _ | labeled _ _, leaf _, _, hd, _ | labeled _ _, fork _ _, _, hd, _
  | fork _ _, empty, _, hd, _ | fork _ _, leaf _, _, hd, _ | fork _ _, labeled _ _, _, hd, _ => by
      simp [digest] at hd

end HashTree

/-- The leaves of a tree under their keys. -/
structure Tree where
  entries : List (Bytes × Bytes)
  nodup : (entries.map Prod.fst).Nodup

namespace Tree

def get (t : Tree) (k : Bytes) : Option Bytes :=
  (t.entries.find? (fun e => e.1 = k)).map Prod.snd

def insert (t : Tree) (k v : Bytes) : Tree :=
  if t.get k = some v then t
  else ⟨(k, v) :: t.entries.filter (fun e => e.1 ≠ k), Keyed.nodup_replace t.nodup (.refl _)⟩

def delete (t : Tree) (k : Bytes) : Tree :=
  ⟨t.entries.filter (fun e => e.1 ≠ k), t.nodup.sublist (List.filter_sublist.map _)⟩

lemma find?_filter_ne (l : List (Bytes × Bytes)) {k k' : Bytes} (h : k' ≠ k) :
    (l.filter (fun e => e.1 ≠ k)).find? (fun e => e.1 = k') = l.find? (fun e => e.1 = k') := by
  rw [List.find?_filter]
  congr 1
  funext e
  by_cases he : e.1 = k'
  · simp [he, h]
  · simp [he]

lemma get_insert (t : Tree) (k k' v : Bytes) :
    (t.insert k v).get k' = if k' = k then some v else t.get k' := by
  rw [insert]
  split_ifs with hstored h h
  · rw [h, hstored]
  · rfl
  · simp [get, h]
  · rw [get, get, List.find?_cons_of_neg (by simpa using Ne.symm h), find?_filter_ne _ h]

lemma get_delete (t : Tree) (k k' : Bytes) :
    (t.delete k).get k' = if k' = k then none else t.get k' := by
  simp only [get, delete]
  split_ifs with h
  · subst h
    simp [List.find?_filter]
  · rw [find?_filter_ne _ h]

lemma get_of_mem {t : Tree} {k v : Bytes} (h : (k, v) ∈ t.entries) : t.get k = some v := by
  simp only [get]
  rw [Keyed.find_eq t.nodup _ h]
  rfl

/-- One leaf after another, each pruned unless it is under `shown`. -/
def chain (shown : Bytes → Bool) : List (Bytes × Bytes) → HashTree
  | [] => .empty
  | (k, v) :: rest =>
      let node : HashTree := .labeled k (.leaf v)
      .fork (if shown k then node else .pruned node.digest) (chain shown rest)

def rootHash (t : Tree) : Digest := (chain (fun _ => true) t.entries).digest

def witness (t : Tree) (k : Bytes) : HashTree := chain (fun k' => k' = k) t.entries

lemma digest_chain (shown : Bytes → Bool) (l : List (Bytes × Bytes)) :
    (chain shown l).digest = (chain (fun _ => true) l).digest := by
  induction l with
  | nil => rfl
  | cons e l ih =>
      simp only [chain, HashTree.digest, ih]
      split_ifs <;> rfl

lemma lookup_chain {shown : Bytes → Bool} {k : Bytes} (hk : shown k = true) :
    ∀ l : List (Bytes × Bytes),
      (chain shown l).lookup [k] = (l.find? (fun e => e.1 = k)).map Prod.snd
  | [] => rfl
  | (k', v) :: l => by
      have ih := lookup_chain hk l
      by_cases h : k' = k
      · subst h
        simp [chain, hk, HashTree.lookup]
      · rw [List.find?_cons_of_neg (by simpa using h), ← ih]
        simp only [chain, HashTree.lookup]
        split_ifs <;> simp [HashTree.lookup, h]

/-- A hash tree with a tree's root shows leaves of that tree only. -/
lemma mem_of_lookup {k v : Bytes} : ∀ {l : List (Bytes × Bytes)} {w : HashTree},
    w.digest = (chain (fun _ => true) l).digest → w.lookup [k] = some v → (k, v) ∈ l
  | [], w, hd, hl => by
      cases w with
      | empty => simp [HashTree.lookup] at hl
      | pruned => simp [HashTree.lookup] at hl
      | _ => simp [chain, HashTree.digest] at hd
  | (k', v') :: l, w, hd, hl => by
      cases w with
      | pruned => simp [HashTree.lookup] at hl
      | fork a b =>
          simp only [chain, if_true, HashTree.digest, Digest.fork.injEq] at hd
          simp only [HashTree.lookup, Option.or_eq_some_iff] at hl
          rcases hl with ha | ⟨-, hb⟩
          · cases a with
            | labeled l₀ t =>
                simp only [HashTree.digest, Digest.labeled.injEq] at hd
                simp only [HashTree.lookup] at ha
                split_ifs at ha with hk
                cases t with
                | leaf v₀ =>
                    simp only [HashTree.digest, Digest.leaf.injEq] at hd
                    simp only [HashTree.lookup, Option.some.injEq] at ha
                    rw [← hk, hd.1.1, ← ha, hd.1.2]
                    exact List.mem_cons_self
                | pruned => simp [HashTree.lookup] at ha
                | _ => simp [HashTree.digest] at hd
            | pruned => simp [HashTree.lookup] at ha
            | _ => simp [HashTree.digest] at hd
          · exact List.mem_cons_of_mem _ (mem_of_lookup hd.2 hb)
      | _ => simp [chain, HashTree.digest] at hd

end Tree

def certification : IcCertification where
  Hash := Digest
  hashDecidableEq := inferInstance
  HashTree := HashTree
  digest := HashTree.digest
  lookupPath := HashTree.lookup
  fork := .fork
  labeled := .labeled
  leaf := .leaf
  pruned := .pruned
  forkHash := .fork
  labeledHash := .labeled
  mergeHashTrees := HashTree.merge
  Tree := Tree
  newTree := ⟨[], List.nodup_nil⟩
  treeGet := Tree.get
  treeInsert := Tree.insert
  treeDelete := Tree.delete
  rootHash := Tree.rootHash
  witness := Tree.witness
  sha256 := id

theorem certification_certLaws : certification.CertLaws where
  get_new _ := rfl
  get_insert := Tree.get_insert
  get_delete := Tree.get_delete
  digest_fork _ _ := rfl
  digest_labeled _ _ := rfl
  digest_pruned _ := rfl
  digest_witness _ _ := Tree.digest_chain _ _
  digest_merge _ _ := HashTree.digest_merge
  lookup_witness t k v h := by
    have hk : (fun k' => decide (k' = k)) k = true := by simp
    exact (Tree.lookup_chain hk t.entries).trans h
  lookup_merge t a b k v ha hb h := by
    have hsome : ((HashTree.merge a b).lookup [k]).isSome := by
      refine HashTree.isSome_lookup_merge (ha.trans hb.symm) ?_
      exact h.imp (fun h => Option.isSome_iff_exists.mpr ⟨v, h⟩)
        (fun h => Option.isSome_iff_exists.mpr ⟨v, h⟩)
    obtain ⟨v', hv'⟩ := Option.isSome_iff_exists.mp hsome
    have hdigest : (HashTree.merge a b).digest = t.rootHash :=
      (HashTree.digest_merge (ha.trans hb.symm)).trans ha
    -- the leaf shown and the leaf known both are the tree's, which has one under each key
    have hmem : t.get k = some v' := Tree.get_of_mem (Tree.mem_of_lookup hdigest hv')
    have hmem' : t.get k = some v := h.elim (fun h => Tree.get_of_mem (Tree.mem_of_lookup ha h))
      (fun h => Tree.get_of_mem (Tree.mem_of_lookup hb h))
    rw [hmem] at hmem'
    cases hmem'
    exact hv'
  lookup_labeled h l t p := by
    simp [certification, HashTree.lookup]

theorem certification_keepsStored : certification.KeepsStored := fun _ _ _ hget => if_pos hget

theorem certification_binding : certification.Binding := by
  intro l₀ l h t w k v hne hd hl
  cases w with
  | fork a b =>
      simp only [certification, HashTree.digest, Digest.fork.injEq] at hd
      simp only [certification, HashTree.lookup, Option.or_eq_some_iff] at hl
      rcases hl with ha | ⟨-, hb⟩
      · cases a with
        | labeled l₁ t₁ =>
            have hlabel := Digest.labeled.inj hd.1
            simp only [HashTree.lookup] at ha
            split_ifs at ha with hk
            exact absurd (hlabel.1.symm.trans hk) hne
        | pruned => simp [HashTree.lookup] at ha
        | _ => simp [HashTree.digest] at hd
      · cases b with
        | labeled l₁ t₁ =>
            have hlabel := Digest.labeled.inj hd.2
            simp only [HashTree.lookup] at hb
            split_ifs at hb
            exact Tree.get_of_mem (Tree.mem_of_lookup hlabel.2 hb)
        | pruned => simp [HashTree.lookup] at hb
        | _ => simp [HashTree.digest] at hd
  | pruned => simp [certification, HashTree.lookup] at hl
  | _ => simp [certification, HashTree.digest] at hd

/-! ## All of it -/

def hexDigit (n : ℕ) : Char := Char.ofNat (if n < 10 then 48 + n else 87 + n)

/-- A byte as two hex digits. -/
def hexByte (b : UInt8) : List Char := [hexDigit (b.toNat / 16), hexDigit (b.toNat % 16)]

/-- A principal's bytes in hex. -/
def toText (p : Principal) : String := String.ofList (p.bytes.flatMap hexByte)

lemma hexDigit_injective {m n : ℕ} (hm : m < 16) (hn : n < 16) (h : hexDigit m = hexDigit n) :
    m = n := by
  have key : ∀ m n : Fin 16, hexDigit m = hexDigit n → m = n := by decide +kernel
  exact Fin.mk.inj (key ⟨m, hm⟩ ⟨n, hn⟩ h)

lemma hexByte_injective : Function.Injective hexByte := by
  intro a b h
  simp only [hexByte, List.cons.injEq, and_true] at h
  have ha := a.toNat_lt
  have hb := b.toNat_lt
  have hhigh := hexDigit_injective (by omega) (by omega) h.1
  have hlow := hexDigit_injective (by omega) (by omega) h.2
  exact UInt8.toNat_inj.mp (by omega)

lemma flatMap_hexByte_injective : ∀ {a b : List UInt8},
    a.flatMap hexByte = b.flatMap hexByte → a = b
  | [], [], _ => rfl
  | [], y :: b, h => by simp [hexByte] at h
  | x :: a, [], h => by simp [hexByte] at h
  | x :: a, y :: b, h => by
      rw [List.flatMap_cons, List.flatMap_cons] at h
      obtain ⟨hhead, htail⟩ := List.append_inj h rfl
      rw [hexByte_injective hhead, flatMap_hexByte_injective htail]

end Reference

/-- The reference surroundings. -/
def Env.reference : Env where
  auction := Reference.auction
  cert := Reference.certification
  toText := Reference.toText
  cborTree _ := []
  cborTexts ts := asBytes (",".intercalate ts)
  jsonText := Json.print
  base64 bs := String.ofList (bs.flatMap Reference.hexByte)

theorem Env.reference_textLaws : Env.reference.TextLaws where
  injective a b h := by
    cases a
    cases b
    simpa using Reference.flatMap_hexByte_injective (String.ofList_injective h)
  no_newline p h := by
    have hbyte : ∀ b : Fin 256, '\n' ∉ Reference.hexByte (UInt8.ofNat b) := by decide +kernel
    simp only [reference, Reference.toText, String.toList_ofList, List.mem_flatMap] at h
    obtain ⟨b, -, hb⟩ := h
    exact hbyte ⟨b.toNat, b.toNat_lt⟩ (by simpa using hb)

theorem Env.reference_jsonLaws : Env.reference.JsonLaws where
  read_back := Json.parse_print
