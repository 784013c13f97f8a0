import IcNameService.Canister.Commit

/-!
# Sealed-bid auctions for free flat names (auction.rs)

The stored config, the running auctions with the terms each revealed bid names, and turning an
outcome into credits and a record.  The Vickrey rules themselves are the crate's.
-/

namespace AuctionConfig

/-- `Config::default()`. -/
def default : AuctionConfig where
  commitNs := 3 * 24 * 60 * 60 * 1000000000
  revealNs := 2 * 24 * 60 * 60 * 1000000000
  reserve := 0

end AuctionConfig

/-- What closing an auction did. -/
structure Closed where
  winner : Option Principal
  price : ℕ
  assessed : ℕ
  forfeited : ℕ
  deriving DecidableEq, Repr

/-- An auction as bidders and tooling see it. -/
structure View where
  name : String
  phase : Phase
  openedNs : ℕ
  commitUntilNs : ℕ
  revealUntilNs : ℕ
  reserve : ℕ
  bidders : List Principal
  revealed : ℕ
  winner : Option Principal
  price : Option ℕ
  deriving DecidableEq, Repr

/-- The winner's holding, worked out before anything is written: who, the terms fixed at their
reveal, and their bid. -/
abbrev Holding := Principal × Terms × ℕ

namespace State

variable {E : Env} (s : State E)

/-! ## Config and storage -/

/-- `auction::config`: the stored config, or the default when none was ever set. -/
def auctionCfg : AuctionConfig := s.auctionConfig.getD AuctionConfig.default

/-- `auction::set_config`: applies to auctions opened from here on. -/
def setAuctionConfigRaw (c : AuctionConfig) : State E × Except String Unit :=
  if c.commitNs = 0 ∨ c.revealNs = 0 then
    (s, .error "commit_ns and reveal_ns must be positive")
  else if c.reserve > E.auction.maxPrice then
    (s, .error s!"reserve above the maximum price of {E.auction.maxPrice}")
  else ({ s with auctionConfig := some c }, .ok ())

/-- The reserve a new auction opens with. -/
def reserve (cfg : Config) (a : AuctionConfig) : ℕ := max a.reserve cfg.minPrice

def getAuction (name : String) : Option (Running E) := s.auctions.get name

def putAuction (name : String) (r : Running E) : State E :=
  { s with auctions := s.auctions.insert name r }

def removeAuction (name : String) : State E := { s with auctions := s.auctions.erase name }

/-- Deposits escrowed in auctions not yet closed, cycles. -/
def escrowed : ℕ :=
  s.auctions.values.foldl
    (fun acc r => (E.auction.bids r.auction).foldl (fun acc b => satAdd acc b.deposit) acc) 0

/-- Auction prices and forfeited deposits, also counted in the treasury's collected total. -/
def noteProceeds (amount : ℕ) : State E :=
  if amount > 0 then
    { s with proceeds := satAdd s.proceeds amount }.noteTaxCollected amount
  else s

/-! ## Bidding -/

/-- Who holds `name` at `now`, if anyone. A lapsed record is held by no one. -/
def holder (cfg : Config) (name : String) (now : ℕ) : Option Principal :=
  match s.getRecord name with
  | none => none
  | some r =>
      let (r, status, _) := settleRecord E cfg r now
      if status ≠ .free then some r.owner else none

/-- The reserve a commitment has to meet, or why it is refused. -/
def bidReserve (cfg : Config) (name : String) (now : ℕ) : Except String ℕ :=
  match s.getAuction name with
  | some r =>
      match E.auction.phase r.auction now with
      | .commit => .ok (E.auction.params r.auction).reserve
      | .reveal =>
          .error s!"bidding on '{name}' is over; its reveal phase runs until {E.auction.revealUntilNs r.auction}"
      | .closed => do
          let outcome ← E.auction.outcome r.auction now
          if outcome.winner.isSome then
            .error s!"the auction for '{name}' has a winner; close_auction hands the name over"
          else .ok (reserve cfg s.auctionCfg)
  | none =>
      match s.holder cfg name now with
      | some owner => .error s!"'{name}' is owned by {E.toText owner}"
      | none => .ok (reserve cfg s.auctionCfg)

/-- Would a commitment with `deposit` be accepted at `now`? Changes nothing. -/
def checkBid (cfg : Config) (name : String) (deposit now : ℕ) : Except String Unit := do
  let reserve ← s.bidReserve cfg name now
  if deposit < reserve then .error s!"deposit must be at least the reserve of {reserve} cycles"
  else .ok ()

/-! ## Closing -/

/-- The record a lapsed name leaves behind, settled, with the tax that took; and whether the name
is free. -/
def lapsedRecord (cfg : Config) (name : String) (now : ℕ) : Option (Record × ℕ) × Bool :=
  match s.getRecord name with
  | none => (none, true)
  | some rec_ =>
      let (rec_, status, tax) := settleRecord E cfg rec_ now
      if status = .free then (some (rec_, tax), true) else (none, false)

/-- Work out the winner's holding before anything is written. -/
def winnerHolding (r : Running E) (winner : Option Bytes) : Except String (Option Holding) :=
  match winner with
  | none => .ok none
  | some w =>
      match ((E.auction.bids r.auction).find? (fun b => b.bidder = w)).bind Bid.revealed with
      | none => .error "winner has no revealed bid"
      | some bid =>
          match (r.targets.find? (fun t => t.1 = w)).map Prod.snd with
          | none => .error "winner revealed no target"
          | some terms => .ok (some (⟨w⟩, terms, bid))

/-- The accumulators of the settlement loop. -/
structure Closing (E : Env) where
  state : State E
  forfeited : ℕ
  openingBalance : ℕ

/-- One round of the settlement loop: credit one bidder's refund. -/
def settleBid (outcome : Outcome) (winner : Option Bytes) (holding : Option Holding)
    (c : Closing E) (x : Settlement) : Closing E :=
  let who : Principal := ⟨x.bidder⟩
  let forfeited := satAdd c.forfeited x.forfeited
  if some x.bidder = winner then
    let opening := (holding.map fun h => min h.2.1.openingBalance x.refund).getD 0
    ⟨c.state.addCredit who (x.refund - opening), forfeited, opening⟩
  else if some x.bidder = outcome.winner then
    -- a voided win: the price was never charged
    ⟨c.state.addCredit who (satAdd x.refund outcome.price), forfeited, c.openingBalance⟩
  else ⟨c.state.addCredit who x.refund, forfeited, c.openingBalance⟩

/-- The record the winner holds from here on, and the tax its commit owes. -/
def wonRecord (name : String) (lapsed : Option (Record × ℕ)) (h : Holding) (openingBalance now : ℕ) :
    Record × ℕ :=
  let target : Target := .alias h.2.1.aliasTo
  let (rec_, tax) : Record × ℕ := match lapsed with
    | some (old, tax) =>
        ({ old with
            owner := h.1
            previousTarget := some old.target
            target := target
            text := []
            updatedNs := now
            changedHandsNs := now }, tax)
    | none => (Record.new name h.1 target now, 0)
  ({ rec_ with flat := some (E.auction.holding h.2.2 openingBalance now) }, tax)

/-- Hand the name to the winner, if there is one. -/
def handOver (name : String) (now : ℕ) (lapsed : Option (Record × ℕ))
    (holding : Option Holding) (openingBalance : ℕ) : State E :=
  match holding with
  | none => s
  | some h =>
      let (rec_, tax) := wonRecord (E := E) name lapsed h openingBalance now
      (s.noteHandedOver name now).commitFlat rec_ tax

/-- Close an ended auction: credit every refund, hand the name to the winner, and send the price
and forfeits to the treasury. -/
def close (cfg : Config) (name : String) (now : ℕ) : State E × Except String Closed :=
  match s.getAuction name with
  | none => (s, .error s!"no auction for '{name}'")
  | some r =>
      s.attempt (E.auction.outcome r.auction now) fun outcome =>
        -- nothing else gives a free name a holder while its auction runs, but if something did,
        -- nobody wins and the would-be winner is refunded in full
        let (lapsed, free) := s.lapsedRecord cfg name now
        let winner := outcome.winner.filter (fun _ => free)
        let price := if winner.isSome then outcome.price else 0
        s.attempt (winnerHolding r winner) fun holding =>
          let c := outcome.settlements.foldl (settleBid outcome winner holding) ⟨s, 0, 0⟩
          let s := c.state.handOver name now lapsed holding c.openingBalance
          let assessed := (holding.map fun h => h.2.2).getD 0
          ((s.noteProceeds (satAdd price c.forfeited)).removeAuction name,
            .ok ⟨winner.map Principal.mk, price, assessed, c.forfeited⟩)

/-! ## Committing and revealing -/

/-- Close the name's auction if it has ended: what `place_bid` does first. -/
def closeEnded (cfg : Config) (name : String) (now : ℕ) : State E × Except String Unit :=
  match s.getAuction name with
  | none => (s, .ok ())
  | some r =>
      if E.auction.phase r.auction now = .closed then
        match s.close cfg name now with
        | (s, .ok _) => (s, .ok ())
        | (s, .error e) => (s, .error e)
      else (s, .ok ())

/-- Record a commitment whose deposit has been pulled. Opens an auction when none is running,
closing an ended one first. Returns the deposit of the bidder's replaced earlier commitment. -/
def placeBid (cfg : Config) (name : String) (bidder : Principal) (commitment : Bytes)
    (deposit now : ℕ) : State E × Except String (Option ℕ) :=
  let (s, closed) := s.closeEnded cfg name now
  s.attempt closed fun () =>
    s.attempt (s.checkBid cfg name deposit now) fun () =>
      let r : Running E := (s.getAuction name).getD
        { auction := E.auction.start ⟨s.auctionCfg.commitNs, s.auctionCfg.revealNs,
            reserve cfg s.auctionCfg⟩ now
          targets := [] }
      s.attempt (E.auction.commit r.auction now bidder.bytes commitment deposit)
        fun (auction, replaced) => (s.putAuction name { r with auction := auction }, .ok replaced)

/-- What a reveal stores: the auction with the bid opened, and the bidder's terms. -/
def revealed (cfg : Config) (name : String) (bidder : Principal) (amount : ℕ) (salt : Bytes)
    (aliasTo : String) (now : ℕ) : Except String (Running E) :=
  match s.getAuction name with
  | none => .error s!"no auction for '{name}'"
  | some r => do
      let b := bidder.bytes
      let auction ← E.auction.reveal r.auction now b amount salt
      if amount > E.auction.maxPrice then
        .error s!"bid above the maximum price of {E.auction.maxPrice} cycles"
      else
        let deposit := (((E.auction.bids auction).find? (fun x => x.bidder = b)).map Bid.deposit).getD 0
        let openingBalance := minDeposit E cfg amount
        let need := satAdd amount openingBalance
        if deposit < need then
          .error s!"the deposit of {deposit} cycles must cover the bid plus one grace period of tax at it: {need}"
        else
          .ok ⟨auction, r.targets.filter (fun t => t.1 ≠ b) ++ [(b, ⟨aliasTo, openingBalance⟩)]⟩

/-- `auction::reveal`: open the caller's commitment. -/
def revealBid (cfg : Config) (name : String) (bidder : Principal) (amount : ℕ) (salt : Bytes)
    (aliasTo : String) (now : ℕ) : State E × Except String Unit :=
  s.attempt (s.revealed cfg name bidder amount salt aliasTo now) fun r =>
    (s.putAuction name r, .ok ())

/-! ## Views -/

/-- `auction::view`. -/
def view (name : String) (r : Running E) (now : ℕ) : View :=
  let a := r.auction
  let outcome := (E.auction.outcome a now).toOption
  { name := name
    phase := E.auction.phase a now
    openedNs := E.auction.openedNs a
    commitUntilNs := E.auction.commitUntilNs a
    revealUntilNs := E.auction.revealUntilNs a
    reserve := (E.auction.params a).reserve
    bidders := (E.auction.bids a).map fun b => ⟨b.bidder⟩
    revealed := ((E.auction.bids a).filter fun b => b.revealed.isSome).length
    winner := (outcome.bind Outcome.winner).map Principal.mk
    price := (outcome.filter fun o => o.winner.isSome).map Outcome.price }

/-- `auction_status`. -/
def auctionStatus (name : String) (now : ℕ) : Option View :=
  (s.getAuction name).map fun r => view name r now

end State
