import Mathlib.Algebra.Order.Ring.Nat
import IcNameService.External.Principal

/-!
# The ic-auction crate

The Harberger tax, the Vickrey auction and the cycles ledger client come from the ic-auction crate,
which is not part of the repository.  `IcAuction` is what the canister calls of it, as a parameter;
the data types are the fields the canister reads.

What a result relies on is a named law, never a definition of the crate's functions:

* `TaxLaws` — a settlement takes from the balance exactly what it reports.
* `ClockLaws` — a settlement moves `settled_ns` forward, and never past `now`: what is left of a cycle
  that is not yet due is left for later.
* `LapseLaws` — once more is due than a holding has, it has run out at a moment of its own, is in grace
  for `grace_ns` from then, and free after that.
* `VickreyLaws` — one bid per bidder, commitments only in the commit phase, reveals only in the
  reveal phase, an outcome exactly when both are over, and every deposit accounted for in it.
* `OutcomeLaws` — the winner revealed a bid that meets the reserve and covers the price, and only what
  was never revealed is forfeited.
-/

/-! ## Harberger tax -/

/-- `ic_auction::harberger::Params`. -/
structure TaxParams where
  rateBps : ℕ
  minPrice : ℕ
  graceNs : ℕ
  deriving DecidableEq, Repr

/-- `ic_auction::harberger::Harberger`: the tax state of a flat name. -/
structure Harberger where
  price : ℕ
  balance : ℕ
  settledNs : ℕ
  lapsedNs : Option ℕ
  deriving DecidableEq, Repr

/-- `ic_auction::harberger::Status`. -/
inductive Status
  | active
  | grace (untilNs : ℕ)
  | free
  deriving DecidableEq, Repr

/-! ## Vickrey auction -/

/-- `ic_auction::vickrey::Params`. -/
structure AuctionParams where
  commitNs : ℕ
  revealNs : ℕ
  reserve : ℕ
  deriving DecidableEq, Repr

/-- `ic_auction::vickrey::Phase`. -/
inductive Phase
  | commit
  | reveal
  | closed
  deriving DecidableEq, Repr

/-- What the canister reads of a bid. -/
structure Bid where
  bidder : List UInt8
  deposit : ℕ
  revealed : Option ℕ
  deriving DecidableEq, Repr

/-- One bidder's part of an outcome. -/
structure Settlement where
  bidder : List UInt8
  refund : ℕ
  forfeited : ℕ
  deriving DecidableEq, Repr

/-- `ic_auction::vickrey::Outcome`. -/
structure Outcome where
  winner : Option (List UInt8)
  price : ℕ
  settlements : List Settlement
  deriving DecidableEq, Repr

/-! ## The ledger client -/

/-- `ic_auction::ledger::Failure`, as far as the canister can tell failures apart: it asks
`nothing_moved()`, matches `FeeCharged`, and shows `message()`. -/
inductive Failure
  | nothingMoved (message : String)
  | feeCharged (message : String)
  | undecodable (message : String)
  deriving DecidableEq, Repr

namespace Failure

/-- `Failure::nothing_moved`. -/
def didNothing : Failure → Bool
  | nothingMoved _ => true
  | _ => false

/-- `Failure::message`. -/
def message : Failure → String
  | nothingMoved m => m
  | feeCharged m => m
  | undecodable m => m

end Failure

/-! ## The crate as a parameter -/

/-- What the canister calls of ic-auction. -/
structure IcAuction where
  /-- `harberger::MAX_PRICE`. -/
  maxPrice : ℕ
  /-- `Params::check`. -/
  checkParams : TaxParams → Except String Unit
  /-- `Params::min_deposit`: the tax for one grace period at a price. -/
  minDeposit : TaxParams → ℕ → ℕ
  /-- `Harberger::new(price, balance, now)`. -/
  holding : ℕ → ℕ → ℕ → Harberger
  /-- `Harberger::settle`: the settled state, the status and the tax taken. -/
  settle : TaxParams → Harberger → ℕ → Harberger × Status × ℕ
  /-- `Harberger::top_up`: the new state and the tax its settlement took. -/
  topUp : TaxParams → Harberger → ℕ → ℕ → Except String (Harberger × ℕ)
  /-- `vickrey::Auction`. -/
  Auction : Type
  /-- `Auction::open(params, now)`. -/
  start : AuctionParams → ℕ → Auction
  /-- `auction.params`. -/
  params : Auction → AuctionParams
  /-- `auction.opened_ns`. -/
  openedNs : Auction → ℕ
  /-- `auction.bids`, in commitment order. -/
  bids : Auction → List Bid
  /-- `Auction::phase(now)`. -/
  phase : Auction → ℕ → Phase
  /-- `Auction::commit_until_ns`. -/
  commitUntilNs : Auction → ℕ
  /-- `Auction::reveal_until_ns`. -/
  revealUntilNs : Auction → ℕ
  /-- `Auction::commit(now, bidder, commitment, deposit)`: the auction and the deposit of the
  bidder's replaced commitment. -/
  commit : Auction → ℕ → List UInt8 → List UInt8 → ℕ → Except String (Auction × Option ℕ)
  /-- `Auction::reveal(now, bidder, amount, salt)`. -/
  reveal : Auction → ℕ → List UInt8 → ℕ → List UInt8 → Except String Auction
  /-- `Auction::outcome(now)`. -/
  outcome : Auction → ℕ → Except String Outcome

namespace IcAuction

variable (X : IcAuction)

/-- Settling and topping up, as the crate documents them. -/
structure TaxLaws : Prop where
  /-- The tax comes off the balance, and nothing else does. -/
  settle_balance : ∀ p h now, (X.settle p h now).1.balance + (X.settle p h now).2.2 = h.balance
  settle_price : ∀ p h now, (X.settle p h now).1.price = h.price
  /-- A free holding has been taxed to its last cycle. -/
  settle_free : ∀ p h now, (X.settle p h now).2.1 = .free → (X.settle p h now).1.balance = 0
  holding_price : ∀ p b now, (X.holding p b now).price = p
  holding_balance : ∀ p b now, (X.holding p b now).balance = b
  holding_settledNs : ∀ p b now, (X.holding p b now).settledNs = now
  /-- A top-up settles first, then adds exactly the amount. -/
  topUp_balance : ∀ p h n now h' more, X.topUp p h n now = .ok (h', more) →
    h'.balance + more = h.balance + n
  topUp_price : ∀ p h n now h' more, X.topUp p h n now = .ok (h', more) → h'.price = h.price

/-- **The clock of a holding.**  Whole cycles are taken, so a settlement may leave the last part of the
stretch for later. -/
structure ClockLaws : Prop where
  settle_settledNs : ∀ p h now, h.settledNs ≤ now →
    h.settledNs ≤ (X.settle p h now).1.settledNs ∧ (X.settle p h now).1.settledNs ≤ now
  topUp_settledNs : ∀ p h n now h' more, h.settledNs ≤ now → X.topUp p h n now = .ok (h', more) →
    h.settledNs ≤ h'.settledNs ∧ h'.settledNs ≤ now

/-- What a settlement at `now` says of a holding that has run out at `lapse`, or has not run out. -/
def statusAt (lapse : Option ℕ) (graceNs now : ℕ) : Status :=
  match lapse with
  | none => .active
  | some t => if now < t + graceNs then .grace (t + graceNs) else .free

/-- **Running out.**  `lapse rate h now` is the moment `h` ran out of balance at a rate, if at `now` it
has: a holding is active until a whole cycle is due beyond its balance. -/
structure LapseLaws (lapse : ℕ → Harberger → ℕ → Option ℕ) : Prop where
  /-- Once run out, a holding is in grace until `grace_ns` of the config passed in have gone by since
  then, and free from then on. -/
  settle_status : ∀ p h now, (X.settle p h now).2.1 = statusAt (lapse p.rateBps h now) p.graceNs now
  /-- What has run out stays so, and the moment stays the same. -/
  lapse_mono : ∀ rate h now now' t, lapse rate h now = some t → now ≤ now' →
    lapse rate h now' = some t
  /-- A settlement writes the moment down, and no later rate moves it. -/
  lapse_settle : ∀ p h now now' t, lapse p.rateBps h now = some t → now ≤ now' → ∀ rate,
    lapse rate (X.settle p h now).1 now' = some t
  /-- Nothing is due on a holding yet when it starts. -/
  lapse_holding : ∀ rate price balance now, lapse rate (X.holding price balance now) now = none

/-- **Grace is not credit**, as the crate documents it. -/
structure GraceLaws (lapse : ℕ → Harberger → ℕ → Option ℕ) : Prop where
  /-- A holding goes to grace only when its whole balance has been taken as tax. -/
  settle_spent : ∀ p h now, (X.settle p h now).2.1 ≠ .active → (X.settle p h now).1.balance = 0
  /-- Once run out, the moment is written down, and no later price moves it. -/
  lapse_reprice : ∀ p h now t price, lapse p.rateBps h now = some t →
    lapse p.rateBps { (X.settle p h now).1 with price := price } now = some t
  /-- The tax for one grace period grows with the price. -/
  minDeposit_mono : ∀ p price price', price ≤ price' → X.minDeposit p price ≤ X.minDeposit p price'

/-- The deposits of an auction, summed. -/
def escrow (a : X.Auction) : ℕ := ((X.bids a).map Bid.deposit).sum

/-- The Vickrey rules, as the crate documents them. -/
structure VickreyLaws : Prop where
  start_bids : ∀ p now, X.bids (X.start p now) = []
  /-- A commitment is taken in the commit phase only; it replaces the bidder's earlier one, whose
  deposit is returned. -/
  commit_ok : ∀ a now bidder c d a' replaced, X.commit a now bidder c d = .ok (a', replaced) →
    X.phase a now = .commit ∧
    (X.bids a').Perm (⟨bidder, d, none⟩ :: (X.bids a).filter (fun b => b.bidder ≠ bidder)) ∧
    replaced = ((X.bids a).find? (fun b => b.bidder = bidder)).map Bid.deposit
  /-- A reveal opens one bid and moves nothing else. -/
  reveal_ok : ∀ a now bidder n salt a', X.reveal a now bidder n salt = .ok a' →
    X.phase a now = .reveal ∧ (∃ b ∈ X.bids a, b.bidder = bidder) ∧
    X.bids a' = (X.bids a).map (fun b => if b.bidder = bidder then { b with revealed := some n } else b)
  /-- An auction has an outcome exactly when its reveal phase is over. -/
  outcome_isOk : ∀ a now, (∃ o, X.outcome a now = .ok o) ↔ X.phase a now = .closed
  /-- An ended auction stays ended, with the same outcome. -/
  outcome_stable : ∀ a now now' o, X.outcome a now = .ok o → now ≤ now' → X.outcome a now' = .ok o
  /-- Every bid is settled once, and each deposit is refund, forfeit or price. -/
  outcome_settlements : ∀ a now o, X.outcome a now = .ok o →
    (o.settlements.map Settlement.bidder).Perm ((X.bids a).map Bid.bidder) ∧
    ∀ s ∈ o.settlements, ∃ b ∈ X.bids a, b.bidder = s.bidder ∧
      s.refund + s.forfeited + (if o.winner = some s.bidder then o.price else 0) = b.deposit
  /-- The winner is one of the bidders. -/
  outcome_winner : ∀ a now o w, X.outcome a now = .ok o → o.winner = some w →
    ∃ b ∈ X.bids a, b.bidder = w

/-- What an outcome says of each bid, as the crate documents it. -/
structure OutcomeLaws : Prop where
  /-- The winner is a revealed bid at or above the reserve, and the price is no more than it. -/
  winner_revealed : ∀ a now o w, X.outcome a now = .ok o → o.winner = some w →
    ∃ b ∈ X.bids a, b.bidder = w ∧
      ∃ n, b.revealed = some n ∧ (X.params a).reserve ≤ n ∧ o.price ≤ n
  /-- An unrevealed commitment forfeits its deposit; a revealed bid forfeits nothing. -/
  forfeited : ∀ a now o x b, X.outcome a now = .ok o → x ∈ o.settlements → b ∈ X.bids a →
    b.bidder = x.bidder → x.forfeited = if b.revealed.isSome then 0 else b.deposit

end IcAuction
