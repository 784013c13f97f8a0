import IcNameService.Core.OrdMap
import IcNameService.Core.Saturating
import IcNameService.External.Env
import IcNameService.Canister.Names

/-!
# The registry (store.rs)

The data the canister keeps, as one state: the stable maps, the entries of the META map by name,
and the heap state that lives next to them (the certified tree, the in-flight counter).  Values are
kept decoded: candid round trips are not part of the model.

`State.notes` is ghost state.  No function of the source reads or writes it; it records when names
changed hands, so that statements about whole histories have something to speak of.
-/

/-! ## Records -/

/-- What a name points at. -/
inductive Target
  | address (p : Principal)
  | alias (name : String)
  deriving DecidableEq, Repr

/-- A handle and who may write under it. -/
structure Handle where
  owner : Principal
  deployer : Option Principal
  deriving DecidableEq, Repr

/-- One name's record. -/
structure Record where
  name : String
  owner : Principal
  target : Target
  text : Names.Text
  createdNs : ℕ
  updatedNs : ℕ
  /-- When ownership last changed. -/
  changedHandsNs : ℕ
  /-- Present on flat names only. -/
  flat : Option Harberger
  /-- What the name pointed at before it last changed hands. -/
  previousTarget : Option Target
  deriving DecidableEq, Repr

namespace Record

/-- A fresh record with no text records; every timestamp is `now`. -/
def new (name : String) (owner : Principal) (target : Target) (now : ℕ) : Record where
  name := name
  owner := owner
  target := target
  text := []
  createdNs := now
  updatedNs := now
  changedHandsNs := now
  flat := none
  previousTarget := none

/-- The prepaid balance, zero when the record is not flat. -/
def balance (r : Record) : ℕ := (r.flat.map Harberger.balance).getD 0

variable (E : Env)

/-- A target as the canonical form writes it. -/
def targetText : Target → String
  | .address p => "address:" ++ E.toText p
  | .alias n => "alias:" ++ n

/-- The lines of the tax state. -/
def flatText : Option Harberger → String
  | none => ""
  | some h =>
      s!"price={h.price}\n" ++
      s!"balance={h.balance}\n" ++
      s!"settled_ns={h.settledNs}\n" ++
      s!"lapsed_ns={h.lapsedNs.getD 0}\n"

/-- The line of the previous target. -/
def previousText : Option Target → String
  | none => ""
  | some prev => "previous_target=" ++ targetText E prev ++ "\n"

/-- The line-oriented text that gets certified, one field per line. -/
def canonicalText (r : Record) : String :=
  "name=" ++ r.name ++ "\n" ++
  "owner=" ++ E.toText r.owner ++ "\n" ++
  "target=" ++ targetText E r.target ++ "\n" ++
  String.join (r.text.map fun e => "text." ++ e.1 ++ "=" ++ e.2 ++ "\n") ++
  s!"created_ns={r.createdNs}\n" ++
  s!"updated_ns={r.updatedNs}\n" ++
  s!"changed_hands_ns={r.changedHandsNs}\n" ++
  flatText r.flat ++
  previousText E r.previousTarget

/-- The bytes that get certified. -/
def canonical (r : Record) : Bytes := asBytes (r.canonicalText E)

end Record

/-! ## Configs and auctions, as stored -/

/-- The Harberger config (harberger.rs). -/
structure Config where
  ledger : Principal
  rateBps : ℕ
  minPrice : ℕ
  graceNs : ℕ
  fee : ℕ
  flatNamesOpen : Bool
  handoverWarnNs : ℕ
  deriving DecidableEq, Repr

/-- The auction config (auction.rs). -/
structure AuctionConfig where
  commitNs : ℕ
  revealNs : ℕ
  reserve : ℕ
  deriving DecidableEq, Repr

/-- What a revealed bidder gets if they win, fixed when they reveal. -/
structure Terms where
  aliasTo : String
  openingBalance : ℕ
  deriving DecidableEq, Repr

/-- One auction, as stored. -/
structure Running (E : Env) where
  auction : E.auction.Auction
  /-- Terms per revealed bidder, keyed by the bidder's principal bytes. -/
  targets : List (Bytes × Terms)

/-! ## The state -/

/-- A ghost note: a name was bought, or won at auction. -/
structure Note where
  name : String
  now : ℕ
  deriving DecidableEq, Repr

/-- The canister's state. -/
structure State (E : Env) where
  handles : OrdMap String Handle
  deployers : OrdMap Principal Unit
  records : OrdMap String Record
  /-- The tag index, keyed `<tag>\0<name>`. -/
  tags : OrdMap String Unit
  /-- META: the schema marker. -/
  schema : Option ℕ
  /-- META: the gateway domains, one per line. -/
  domains : Option String
  /-- META: the Harberger config. -/
  harberger : Option Config
  taxCollected : ℕ
  taxWithdrawn : ℕ
  unreconciled : ℕ
  unreconciledLast : String
  /-- META: the auction config. -/
  auctionConfig : Option AuctionConfig
  /-- META: auction prices and forfeits so far. -/
  proceeds : ℕ
  /-- Cycles owed, withdrawable through the cycles ledger. -/
  credits : OrdMap Principal ℕ
  /-- flat name -> its auction, from the first commitment until closed. -/
  auctions : OrdMap String (Running E)
  /-- Heap: the certified tree. -/
  tree : E.cert.Tree
  /-- The certified data last published. -/
  certifiedData : E.cert.Hash
  /-- Heap: ledger calls awaiting a reply.  A `u32` in the source; the heap cannot hold `2 ^ 32`
  suspended calls. -/
  inFlight : ℕ
  /-- Ghost: what changed hands, newest first. -/
  notes : List Note

namespace State

variable {E : Env} (s : State E)

/-! ## Credits -/

def creditOf (p : Principal) : ℕ := (s.credits.get p).getD 0

def addCredit (p : Principal) (amount : ℕ) : State E :=
  if amount = 0 then s
  else { s with credits := s.credits.insert p (satAdd (s.creditOf p) amount) }

/-- Every credit owed, summed. -/
def creditsOutstanding : ℕ := s.credits.values.foldl satAdd 0

/-- Take `amount` from a credit. Err if it is not there. -/
def takeCredit (p : Principal) (amount : ℕ) : Except String (State E) :=
  let have_ := s.creditOf p
  if have_ < amount then .error s!"credit is {have_} cycles, less than {amount}"
  else if have_ = amount then .ok { s with credits := s.credits.erase p }
  else .ok { s with credits := s.credits.insert p (have_ - amount) }

/-! ## Handles and deployers -/

/-- First come, first served. Err if taken. -/
def registerHandle (handle : String) (owner : Principal) : Except String (State E) :=
  if s.handles.contains handle then .error s!"handle '{handle}' is taken"
  else .ok { s with handles := s.handles.insert handle ⟨owner, none⟩ }

def putHandle (handle : String) (value : Handle) : State E :=
  { s with handles := s.handles.insert handle value }

def isDeployer (p : Principal) : Bool := s.deployers.contains p

def addDeployer (p : Principal) : State E := { s with deployers := s.deployers.insert p () }

def removeDeployer (p : Principal) : State E × Bool :=
  ({ s with deployers := s.deployers.erase p }, s.deployers.contains p)

/-! ## Records -/

def getRecord (name : String) : Option Record := s.records.get name

def putRecord (r : Record) : State E := { s with records := s.records.insert r.name r }

def eraseRecord (name : String) : State E := { s with records := s.records.erase name }

/-! ## Ghost notes -/

/-- Ghost: `name` changes hands now. -/
def noteHandedOver (name : String) (now : ℕ) : State E :=
  { s with notes := ⟨name, now⟩ :: s.notes }

end State
