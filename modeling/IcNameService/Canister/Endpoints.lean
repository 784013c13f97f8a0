import IcNameService.Canister.Auction

/-!
# The update methods (lib.rs)

Each update method as a function of the state.  A method that awaits the ledger is two functions:
one for the message that starts it, ending in `Progress.await` with what the suspended call carries,
and one for the message that resumes it with the ledger's reply.  Between the two, other messages
may run: that is the system's business (`System.World`), not the method's.

A method takes its config where the source reads it: `buy`, `deposit` and `bid` carry the config
they read before the pull into the message after it.
-/

/-! ## What a method returns -/

/-- The value of an `Ok`. -/
inductive Value
  | unit
  | block (index : ℕ)
  | closed (c : Closed)
  deriving DecidableEq, Repr

abbrev Reply := Except String Value

/-- What a payment method compares across its pull. -/
structure Snapshot where
  owner : Principal
  price : ℕ
  changedHandsNs : ℕ
  status : Status
  deriving DecidableEq, Repr

/-- `buy`, suspended in its pull. -/
structure BuyCall where
  cfg : Config
  caller : Principal
  name : String
  target : Target
  price : ℕ
  deposit : ℕ
  maxPrice : ℕ
  before : Snapshot
  total : ℕ
  deriving DecidableEq, Repr

/-- `deposit`, suspended in its pull. -/
structure DepositCall where
  cfg : Config
  caller : Principal
  name : String
  amount : ℕ
  before : Snapshot
  deriving DecidableEq, Repr

/-- `bid`, suspended in its pull. -/
structure BidCall where
  cfg : Config
  caller : Principal
  name : String
  commitment : Bytes
  deposit : ℕ
  deriving DecidableEq, Repr

/-- A suspended method: where it stands and what it carries. -/
inductive Pending
  | buy (c : BuyCall)
  | deposit (c : DepositCall)
  | bid (c : BidCall)
  | withdraw (cfg : Config) (caller : Principal) (amount : ℕ)
  /-- `fund_self`, awaiting the ledger's fee. -/
  | fundSelfFee (cfg : Config) (amount : ℕ)
  /-- `fund_self`, awaiting the ledger's withdrawal. -/
  | fundSelf (cfg : Config) (amount : ℕ)
  /-- `set_harberger_config`, awaiting the new ledger's fee. -/
  | setHarbergerConfig (c : Config)
  deriving DecidableEq, Repr

/-- Where a message leaves a method. -/
inductive Progress
  | done (r : Reply)
  | await (p : Pending)

/-- What a deployer reports after a successful install. -/
structure Announcement where
  name : String
  canister : Principal
  repo : String
  commit : String
  moduleHash : String
  deriving DecidableEq, Repr

/-- The update methods, with their arguments. -/
inductive Call
  | registerHandle (handle : String)
  | setHandleDeployer (handle : String) (deployer : Option Principal)
  | addDeployer (p : Principal)
  | removeDeployer (p : Principal)
  | announce (a : Announcement)
  | setRecord (name : String) (target : Target)
  | setText (name key : String) (value : Option String)
  | deleteRecord (name : String)
  | setDomains (domains : List String)
  | buy (name aliasTo : String) (price deposit maxPrice : ℕ)
  | deposit (name : String) (amount : ℕ)
  | setPrice (name : String) (price : ℕ)
  | bid (name : String) (commitment : Bytes) (deposit : ℕ)
  | reveal (name : String) (amount : ℕ) (salt : Bytes) (aliasTo : String)
  | closeAuction (name : String)
  | setAuctionConfig (c : AuctionConfig)
  | withdraw (amount : ℕ)
  | fundSelf (amount : ℕ)
  | setHarbergerConfig (c : Config)
  deriving DecidableEq, Repr

namespace State

variable {E : Env} (s : State E)

/-- A method that ended in this message. -/
def finish (x : State E × Except String Unit) : State E × Progress :=
  (x.1, .done (x.2.map fun () => .unit))

/-- A check that did not pass ends the method with the state as it is; else `k` goes on. -/
def proceed {α : Type} (x : Except String α) (k : α → State E × Progress) : State E × Progress :=
  match x with
  | .error e => (s, .done (.error e))
  | .ok a => k a

/-! ## Domains, handles, deployers -/

/-- Set the custom domains this canister claims. Controllers only. -/
def setDomains (cx : Ctx) (domains : List String) : State E × Except String Unit :=
  s.attempt (do
      let _ ← admin cx
      domains.forM Names.checkHostname) fun () =>
    ({ s with domains := some ("\n".intercalate domains) }, .ok ())

/-- Claim a handle for the caller. First come, first served; permanent. -/
def registerHandleCall (cx : Ctx) (handle : String) : State E × Except String Unit :=
  s.attempt (do
      Names.checkSegment "handle" handle
      let owner ← callerOf cx
      s.registerHandle handle owner) fun s => (s, .ok ())

/-- Let one listed deployer announce names under the caller's handle, or revoke that. -/
def setHandleDeployer (cx : Ctx) (handle : String) (deployer : Option Principal) :
    State E × Except String Unit :=
  s.attempt (do
      Names.checkSegment "handle" handle
      let h ← s.authorizeHandle cx handle
      match deployer with
      | some d => if !s.isDeployer d then .error s!"{E.toText d} is not a listed deployer" else .ok h
      | none => .ok h) fun h =>
    (s.putHandle handle { h with deployer := deployer }, .ok ())

def addDeployerCall (cx : Ctx) (p : Principal) : State E × Except String Unit :=
  s.attempt (do
      let _ ← admin cx
      if p = Principal.anonymous then .error "anonymous cannot be a deployer" else .ok ()) fun () =>
    (s.addDeployer p, .ok ())

def removeDeployerCall (cx : Ctx) (p : Principal) : State E × Except String Unit :=
  s.attempt (admin cx) fun _ =>
    match s.removeDeployer p with
    | (s, true) => (s, .ok ())
    | (s, false) => (s, .error s!"{E.toText p} is not a listed deployer")

/-! ## Announce -/

/-- What an announce reports about the code. -/
def announced (cx : Ctx) (a : Announcement) : Names.Provenance where
  repo := a.repo
  commit := a.commit
  moduleHash := a.moduleHash
  deployer := E.toText cx.caller
  announcedNs := toString cx.now

/-- The record an announce writes: the announced canister, and its provenance. -/
def announceRecord (cx : Ctx) (a : Announcement) (owner : Principal) : Record :=
  let r := (s.getRecord a.name).getD (Record.new a.name owner (.address a.canister) cx.now)
  { r with
    target := .address a.canister
    updatedNs := cx.now
    text := Names.setProvenance r.text (announced (E := E) cx a) }

/-- Trusted by caller principal: the caller must be a listed deployer, and own the handle or be its
named deployer. An unregistered handle is registered to the deployer. -/
def announce (cx : Ctx) (a : Announcement) : State E × Except String Unit :=
  s.attempt (do
      let deployer ← callerOf cx
      if !s.isDeployer deployer then .error s!"{E.toText deployer} is not a listed deployer"
      else do
        let (handle, _) ← Names.split a.name
        Names.checkHex "commit" a.commit [20, 32]
        Names.checkHex "module_hash" a.moduleHash [32]
        Names.checkTextValue a.repo
        .ok (deployer, handle)) fun (deployer, handle) =>
    match s.handles.get handle with
    | none =>
        s.attempt (s.registerHandle handle deployer) fun s =>
          (s.commit (s.announceRecord cx a deployer), .ok ())
    | some h =>
        if h.owner = deployer ∨ h.deployer = some deployer then
          (s.commit (s.announceRecord cx a h.owner), .ok ())
        else (s, .error s!"handle '{handle}' does not allow deployer {E.toText deployer}")

/-! ## Records -/

/-- Point a record at `target`; provenance describes the old target, so a new one drops it. -/
def repoint (r : Record) (target : Target) (now : ℕ) : Record :=
  { r with
    text := if r.target ≠ target then Names.clearProvenance r.text else r.text
    target := target
    updatedNs := now }

/-- Create or repoint a scoped name, or repoint a flat name the caller holds. -/
def setRecord (cx : Ctx) (name : String) (target : Target) : State E × Except String Unit :=
  if !Names.isScoped name then
    s.attempt (do
        let (r, tax) ← s.authorizeFlat cx s.config name
        checkFlatTarget target
        .ok (r, tax)) fun (r, tax) =>
      (s.commitFlat (repoint r target cx.now) tax, .ok ())
  else
    s.attempt (do
        let caller ← s.authorize cx name
        match target with
        | .alias dest => do
            let _ ← Names.split dest
            if dest = name then .error "a name may not alias itself" else .ok caller
        | .address _ => .ok caller) fun caller =>
      let r := match s.getRecord name with
        | some r => repoint r target cx.now
        | none => Record.new name caller target cx.now
      (s.commit r, .ok ())

/-- The checks of `set_text` on its key and value. -/
def checkText (key : String) (value : Option String) : Except String Unit := do
  Names.checkTextKey key
  match value with
  | none => .ok ()
  | some v => do
      Names.checkTextValue v
      if key = "tags" then do
        let _ ← Names.checkTags v
        .ok ()
      else .ok ()

/-- The record `set_text` writes to, and the tax its settlement took. -/
def textRecord (cx : Ctx) (name : String) : Except String (Record × ℕ) :=
  if Names.isScoped name then do
    let _ ← s.authorize cx name
    match s.getRecord name with
    | none => .error s!"no record for '{name}'"
    | some r => .ok (r, 0)
  else s.authorizeFlat cx s.config name

/-- Set or clear one text record on an existing name. -/
def setText (cx : Ctx) (name key : String) (value : Option String) :
    State E × Except String Unit :=
  s.attempt (do
      let (r, tax) ← s.textRecord cx name
      checkText key value
      let text ← Names.setOwnerText r.text key value
      .ok ({ r with text := text, updatedNs := cx.now }, tax)) fun (r, tax) =>
    (s.commitFlat r tax, .ok ())

/-- Release a flat name: its unspent balance becomes a credit to the owner. -/
def release (r : Record) (tax : ℕ) (name : String) : State E :=
  let s := s.noteTaxCollected tax
  let s := match r.flat with
    | some h => s.addCredit r.owner h.balance
    | none => s
  ((s.eraseRecord name).unindex r).certifyRemove name

/-- Remove a scoped name, or release a flat name. -/
def deleteRecord (cx : Ctx) (name : String) : State E × Except String Unit :=
  if !Names.isScoped name then
    s.attempt (s.authorizeFlat cx s.config name) fun (r, tax) =>
      (s.release r tax name, .ok ())
  else
    s.attempt (s.authorize cx name) fun _ =>
      match s.getRecord name with
      | some old => (((s.eraseRecord name).unindex old).certifyRemove name, .ok ())
      | none => (s, .error s!"no record for '{name}'")

/-! ## Paying for a flat name -/

/-- Ledger calls awaiting a reply: `InFlight::start` and its drop. -/
def raiseInFlight : State E := { s with inFlight := s.inFlight + 1 }
def dropInFlight : State E := { s with inFlight := s.inFlight - 1 }

/-- The end of a pull. A failure that certainly moved nothing is just an error; a reply this code
cannot decode may have moved the cycles, so the amount is recorded as unreconciled. -/
def finishPull (payer : Principal) (amount : ℕ) (r : Except Failure ℕ) :
    State E × Except String Unit :=
  match r with
  | .ok _ => (s.dropInFlight, .ok ())
  | .error f =>
      let s := if f.didNothing then s
        else s.noteUnreconciled amount s!"pull {amount} from {E.toText payer}: {f.message}"
      (s.dropInFlight, .error f.message)

/-- The stored flat record settled to `now`, the tax that takes, and what is compared across a
pull; none when there is no flat record. -/
def snapshot (cfg : Config) (name : String) (now : ℕ) : Option (Record × ℕ × Snapshot) :=
  match s.getRecord name with
  | none => none
  | some r =>
      let (r, status, taken) := settleRecord E cfg r now
      match r.flat with
      | none => none
      | some h => some (r, taken, ⟨r.owner, h.price, r.changedHandsNs, status⟩)

def checkPrice (cfg : Config) (price : ℕ) : Except String Unit :=
  if price < cfg.minPrice then .error s!"price below the minimum of {cfg.minPrice} cycles"
  else if price > E.auction.maxPrice then
    .error s!"price above the maximum of {E.auction.maxPrice} cycles"
  else .ok ()

def checkDeposit (cfg : Config) (price deposit : ℕ) : Except String Unit :=
  let min_ := minDeposit E cfg price
  if deposit < min_ then
    .error s!"deposit must cover one grace period of tax: at least {min_} cycles at this price"
  else .ok ()

/-- Buyable: held by someone else, not lapsed, and at most `maxPrice`. -/
def buyable (cfg : Config) (name : String) (caller : Principal) (maxPrice now : ℕ) :
    Except String (Record × ℕ × Snapshot) :=
  match s.snapshot cfg name now with
  | none => .error s!"no record for '{name}'"
  | some (r, tax, snap) =>
      if snap.status = .free then .error s!"'{name}' has lapsed; bid for it instead"
      else if snap.owner = caller then .error "you hold this name; use set_price"
      else if snap.price > maxPrice then
        .error s!"price is now {snap.price} cycles, above your limit of {maxPrice}"
      else .ok (r, tax, snap)

/-- The message that starts a `buy`. -/
def buy (cx : Ctx) (name aliasTo : String) (price deposit maxPrice : ℕ) : State E × Progress :=
  let cfg := s.config
  let target : Target := .alias aliasTo
  s.proceed (do
      let caller ← callerOf cx
      Names.checkFlat name
      checkFlatTarget target
      checkPrice (E := E) cfg price
      checkDeposit (E := E) cfg price deposit
      let (_, _, before) ← s.buyable cfg name caller maxPrice cx.now
      .ok (caller, before)) fun (caller, before) =>
    (s.raiseInFlight,
      .await (.buy ⟨cfg, caller, name, target, price, deposit, maxPrice, before,
        satAdd before.price deposit⟩))

/-- The record a buyer holds from here on. -/
def boughtRecord (c : BuyCall) (r : Record) (now : ℕ) : Record :=
  { r with
    owner := c.caller
    previousTarget := some r.target
    target := c.target
    text := []
    updatedNs := now
    changedHandsNs := now
    flat := some (E.auction.holding c.price c.deposit now) }

/-- The message that resumes a `buy`: if the name still is what it was, it changes hands; if not,
the payer is credited back. -/
def resumeBuy (now : ℕ) (c : BuyCall) (reply : Except Failure ℕ) : State E × Except String Unit :=
  let (s, pulled) := s.finishPull c.caller c.total reply
  s.attempt pulled fun () =>
    match s.buyable c.cfg c.name c.caller c.maxPrice now with
    | .ok (r, tax, snap) =>
        if snap = c.before then
          let unspent := r.balance
          let s := s.addCredit r.owner (satAdd c.before.price unspent)
          let s := s.noteHandedOver c.name now
          (s.commitFlat (boughtRecord (E := E) c r now) tax, .ok ())
        else
          (s.addCredit c.caller c.total,
            .error s!"'{c.name}' changed while paying; payment credited back")
    | .error _ =>
        (s.addCredit c.caller c.total,
          .error s!"'{c.name}' changed while paying; payment credited back")

/-- Payable: held and not lapsed, and the top-up is enough. -/
def payable (cfg : Config) (name : String) (amount now : ℕ) :
    Except String (Record × ℕ × Snapshot) :=
  match s.snapshot cfg name now with
  | none => .error s!"no record for '{name}'"
  | some (r, tax, snap) =>
      if snap.status = .free then .error s!"'{name}' has lapsed; bid for it instead"
      else
        let balance := r.balance
        let min_ := minDeposit E cfg snap.price
        if satAdd balance amount < min_ then
          .error s!"balance after the deposit must cover one grace period of tax: at least {min_} cycles at this price, {balance} left"
        else .ok (r, tax, snap)

/-- The message that starts a `deposit`. -/
def deposit (cx : Ctx) (name : String) (amount : ℕ) : State E × Progress :=
  let cfg := s.config
  s.proceed (do
      let caller ← callerOf cx
      Names.checkFlat name
      if amount = 0 then .error "amount is zero"
      else do
        let (_, _, before) ← s.payable cfg name amount cx.now
        .ok (caller, before)) fun (caller, before) =>
    (s.raiseInFlight, .await (.deposit ⟨cfg, caller, name, amount, before⟩))

/-- The message that resumes a `deposit`. -/
def resumeDeposit (now : ℕ) (c : DepositCall) (reply : Except Failure ℕ) :
    State E × Except String Unit :=
  let (s, pulled) := s.finishPull c.caller c.amount reply
  s.attempt pulled fun () =>
    match s.payable c.cfg c.name c.amount now with
    | .ok (r, tax, snap) =>
        if snap = c.before then
          let topped : Except String (Harberger × ℕ) := match r.flat with
            | some h => E.auction.topUp c.cfg.params h c.amount now
            | none => .error s!"'{c.name}' is not a flat name"
          match topped with
          | .ok (h, more) =>
              (s.commitFlat
                { r with flat := some h, updatedNs := now } (satAdd tax more), .ok ())
          | .error e =>
              (s.addCredit c.caller c.amount, .error s!"{e}; amount credited back")
        else
          (s.addCredit c.caller c.amount,
            .error s!"'{c.name}' changed while paying; amount credited back")
    | .error _ =>
        (s.addCredit c.caller c.amount,
          .error s!"'{c.name}' changed while paying; amount credited back")

/-- Reassess a held flat name. Tax from here on is at the new price. -/
def setPrice (cx : Ctx) (name : String) (price : ℕ) : State E × Except String Unit :=
  let cfg := s.config
  s.attempt (do
      checkPrice (E := E) cfg price
      s.authorizeFlat cx cfg name) fun (r, tax) =>
    (s.commitFlat
      { r with flat := r.flat.map fun h => { h with price := price }, updatedNs := cx.now } tax,
      .ok ())

/-! ## Auctions -/

/-- Bidding for a free name is refused while the market is closed. -/
def marketOpen (cfg : Config) : Except String Unit :=
  if cfg.flatNamesOpen then .ok () else .error "flat names are not open for bidding yet"

/-- The message that starts a `bid`. -/
def bid (cx : Ctx) (name : String) (commitment : Bytes) (deposit : ℕ) : State E × Progress :=
  let cfg := s.config
  s.proceed (do
      marketOpen cfg
      let caller ← callerOf cx
      Names.checkFlat name
      if commitment.length ≠ 32 then .error "commitment must be 32 bytes"
      else do
        s.checkBid cfg name deposit cx.now
        .ok caller) fun caller =>
    (s.raiseInFlight, .await (.bid ⟨cfg, caller, name, commitment, deposit⟩))

/-- The message that resumes a `bid`. -/
def resumeBid (now : ℕ) (c : BidCall) (reply : Except Failure ℕ) : State E × Except String Unit :=
  let (s, pulled) := s.finishPull c.caller c.deposit reply
  s.attempt pulled fun () =>
    match s.placeBid c.cfg c.name c.caller c.commitment c.deposit now with
    | (s, .ok replaced) => (s.addCredit c.caller (replaced.getD 0), .ok ())
    | (s, .error e) => (s.addCredit c.caller c.deposit, .error s!"{e}; deposit credited back")

/-- Open the caller's commitment during the reveal phase. -/
def revealCall (cx : Ctx) (name : String) (amount : ℕ) (salt : Bytes) (aliasTo : String) :
    State E × Except String Unit :=
  s.attempt (do
      let caller ← callerOf cx
      checkFlatTarget (.alias aliasTo)
      .ok caller) fun caller =>
    s.revealBid s.config name caller amount salt aliasTo cx.now

/-- Close an auction whose reveal phase is over. Anyone may call it. -/
def closeAuction (cx : Ctx) (name : String) : State E × Progress :=
  let (s, r) := s.close s.config name cx.now
  (s, .done (r.map .closed))

/-- Phases and reserve for auctions opened from here on. Controllers only. -/
def setAuctionConfig (cx : Ctx) (c : AuctionConfig) : State E × Except String Unit :=
  s.attempt (admin cx) fun _ => s.setAuctionConfigRaw c

/-! ## Paying out -/

/-- The message that starts a `withdraw`: move the caller's credit to their ledger account. -/
def withdraw (cx : Ctx) (amount : ℕ) : State E × Progress :=
  let cfg := s.config
  s.proceed (do
      let caller ← callerOf cx
      if amount ≤ cfg.fee then
        .error s!"amount must exceed the ledger fee of {cfg.fee} cycles"
      else do
        let s ← s.takeCredit caller amount
        .ok (caller, s)) fun (caller, s) =>
    (s.raiseInFlight, .await (.withdraw cfg caller amount))

/-- The message that resumes a `withdraw`: only give the credit back when the ledger certainly paid
nothing. -/
def resumeWithdraw (caller : Principal) (amount : ℕ) (reply : Except Failure ℕ) :
    State E × Progress :=
  match reply with
  | .ok block => (s.dropInFlight, .done (.ok (.block block)))
  | .error f =>
      let s := if f.didNothing then s.addCredit caller amount
        else s.noteUnreconciled amount s!"pay {amount} to {E.toText caller}: {f.message}"
      (s.dropInFlight, .done (.error f.message))

/-- The message that starts a `fund_self`: check the amount, then ask the ledger's live fee. -/
def fundSelf (cx : Ctx) (amount : ℕ) : State E × Progress :=
  let cfg := s.config
  let available := s.taxCollected - s.taxWithdrawn
  s.proceed (do
      let _ ← admin cx
      if amount ≤ cfg.fee ∨ amount > available then
        .error s!"{available} cycles of tax available to withdraw; amount must exceed the ledger fee of {cfg.fee}"
      else .ok ()) fun () =>
    (s.raiseInFlight, .await (.fundSelfFee cfg amount))

/-- The message in which the fee arrives: note the withdrawal, then ask the ledger for it. -/
def resumeFundSelfFee (cfg : Config) (amount : ℕ) (reply : Except Failure ℕ) :
    State E × Progress :=
  match reply with
  | .error f => (s.dropInFlight, .done (.error f.message))
  | .ok live =>
      if live ≠ cfg.fee then
        (s.dropInFlight, .done (.error
          s!"ledger fee is now {live}, config has {cfg.fee}; run set_harberger_config to refresh it"))
      else (s.noteTaxWithdrawn amount, .await (.fundSelf cfg amount))

/-- The message in which the withdrawal's reply arrives. -/
def resumeFundSelf (cfg : Config) (amount : ℕ) (reply : Except Failure ℕ) : State E × Progress :=
  match reply with
  | .ok block => (s.dropInFlight, .done (.ok (.block block)))
  | .error f =>
      let s := match f with
        | .nothingMoved _ => s.undoTaxWithdrawn amount
        -- the cycles came back to the account; only the fee was spent
        | .feeCharged _ => s.undoTaxWithdrawn (amount - cfg.fee)
        | .undecodable m => s.noteUnreconciled amount s!"fund_self {amount}: {m}"
      (s.dropInFlight, .done (.error f.message))

/-! ## The tax config -/

/-- Is any value held that a ledger change would strand? -/
def fundsHeld : Except String Unit :=
  let flat := (s.records.values.filter fun r => r.flat.isSome).length
  let credits := s.creditsOutstanding
  let escrow := s.escrowed
  let tax := s.taxCollected - s.taxWithdrawn
  let unreconciled := s.unreconciled
  let inFlight := s.inFlight
  if flat = 0 ∧ credits = 0 ∧ escrow = 0 ∧ tax = 0 ∧ unreconciled = 0 ∧ inFlight = 0 then .ok ()
  else .error s!"funds are held at the current ledger: {flat} flat name(s), {credits} cycles of credit, {escrow} in auction escrow, {tax} of tax, {unreconciled} unreconciled, {inFlight} call(s) in flight"

/-- One name of `settle_all`. -/
def settleName (cfg : Config) (now : ℕ) (acc : State E × ℕ × ℕ) (name : String) :
    State E × ℕ × ℕ :=
  let (s, settled, taxTotal) := acc
  match s.getRecord name with
  | none => acc
  | some r =>
      let (r, _, tax) := settleRecord E cfg r now
      (s.commitFlat r tax, settled + 1, satAdd taxTotal tax)

/-- Settle every flat name to `now` under `cfg` and store the result. -/
def settleAll (cfg : Config) (now : ℕ) : State E × ℕ × ℕ :=
  let names := (s.records.entries.filter fun e => e.2.flat.isSome).map fun e => e.2.name
  names.foldl (settleName cfg now) (s, 0, 0)

/-- The message that starts a `set_harberger_config`. -/
def setHarbergerConfig (cx : Ctx) (c : Config) : State E × Progress :=
  let current := s.config
  s.proceed (do
      let _ ← admin cx
      if c.ledger ≠ current.ledger then s.fundsHeld else .ok ()) fun () =>
    (s, .await (.setHarbergerConfig c))

/-- The message in which the new ledger's fee arrives. -/
def resumeSetHarbergerConfig (now : ℕ) (c : Config) (reply : Except Failure ℕ) :
    State E × Except String Unit :=
  s.attempt (reply.mapError Failure.message) fun fee =>
    let c := { c with fee := fee }
    -- re-read after the await; another controller may have moved first
    let current := s.config
    s.attempt (if c.ledger ≠ current.ledger then s.fundsHeld else .ok ()) fun () =>
      let s := if c.rateBps ≠ current.rateBps then (s.settleAll current now).1 else s
      s.setConfig c

/-! ## Dispatch -/

/-- The message of an update call. -/
def call (cx : Ctx) : Call → State E × Progress
  | .registerHandle handle => finish (s.registerHandleCall cx handle)
  | .setHandleDeployer handle deployer => finish (s.setHandleDeployer cx handle deployer)
  | .addDeployer p => finish (s.addDeployerCall cx p)
  | .removeDeployer p => finish (s.removeDeployerCall cx p)
  | .announce a => finish (s.announce cx a)
  | .setRecord name target => finish (s.setRecord cx name target)
  | .setText name key value => finish (s.setText cx name key value)
  | .deleteRecord name => finish (s.deleteRecord cx name)
  | .setDomains domains => finish (s.setDomains cx domains)
  | .buy name aliasTo price deposit maxPrice => s.buy cx name aliasTo price deposit maxPrice
  | .deposit name amount => s.deposit cx name amount
  | .setPrice name price => finish (s.setPrice cx name price)
  | .bid name commitment deposit => s.bid cx name commitment deposit
  | .reveal name amount salt aliasTo => finish (s.revealCall cx name amount salt aliasTo)
  | .closeAuction name => s.closeAuction cx name
  | .setAuctionConfig c => finish (s.setAuctionConfig cx c)
  | .withdraw amount => s.withdraw cx amount
  | .fundSelf amount => s.fundSelf cx amount
  | .setHarbergerConfig c => s.setHarbergerConfig cx c

/-- The message that resumes a suspended call with the ledger's reply. -/
def resume (now : ℕ) (reply : Except Failure ℕ) : Pending → State E × Progress
  | .buy c => finish (s.resumeBuy now c reply)
  | .deposit c => finish (s.resumeDeposit now c reply)
  | .bid c => finish (s.resumeBid now c reply)
  | .withdraw _ caller amount => s.resumeWithdraw caller amount reply
  | .fundSelfFee cfg amount => s.resumeFundSelfFee cfg amount reply
  | .fundSelf cfg amount => s.resumeFundSelf cfg amount reply
  | .setHarbergerConfig c => finish (s.resumeSetHarbergerConfig now c reply)

end State
