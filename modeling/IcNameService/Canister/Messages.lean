import IcNameService.Canister.Endpoints

/-!
# What one message does

`Called` and `Resumed` say once what the message of an update call, and the message that resumes a
suspended one, can do to the state: one constructor for each kind of effect, with what was checked
before it.  `call_called` and `resume_resumed` prove that the methods of the source do nothing else.
Every invariant is a case analysis on these two and never unfolds a method.
-/

namespace State

variable {E : Env}

/-! ## The parts of an effect -/

/-- The record stored under a flat name, held by the caller and not lapsed. -/
structure Held (s : State E) (cx : Ctx) (name : String) (old : Record) : Prop where
  flatName : Names.checkFlat name = .ok ()
  stored : s.records.get name = some old
  owner : old.owner = cx.caller
  notFree : (settleRecord E s.config old cx.now).2.1 ≠ .free

/-- How a holder rewrites their record, once it is settled to `r`. -/
inductive Amendment (s : State E) (cx : Ctx) (name : String) (r : Record) : Call → Record → Prop
  | repoint {target : Target} :
      checkFlatTarget target = .ok () →
      Amendment s cx name r (.setRecord name target) (repoint r target cx.now)
  | retext {key : String} {value : Option String} {text : Names.Text} :
      checkText key value = .ok () → Names.setOwnerText r.text key value = .ok text →
      Amendment s cx name r (.setText name key value) { r with text := text, updatedNs := cx.now }
  | reprice {price : ℕ} :
      checkPrice (E := E) s.config price = .ok () →
      Amendment s cx name r (.setPrice name price)
        { r with flat := r.flat.map fun h => { h with price := price }, updatedNs := cx.now }

/-- How the owner of a handle writes a record under it. -/
inductive ScopedWrite (s : State E) (cx : Ctx) (name : String) : Call → Record → Prop
  | create {target : Target} :
      s.records.get name = none → (∀ dest, target = .alias dest → ∃ p, Names.split dest = .ok p) →
      target ≠ .alias name →
      ScopedWrite s cx name (.setRecord name target) (Record.new name cx.caller target cx.now)
  | repoint {target : Target} {old : Record} :
      s.records.get name = some old →
      (∀ dest, target = .alias dest → ∃ p, Names.split dest = .ok p) → target ≠ .alias name →
      ScopedWrite s cx name (.setRecord name target) (repoint old target cx.now)
  | retext {key : String} {value : Option String} {text : Names.Text} {old : Record} :
      s.records.get name = some old → checkText key value = .ok () →
      Names.setOwnerText old.text key value = .ok text →
      ScopedWrite s cx name (.setText name key value)
        { old with text := text, updatedNs := cx.now }

/-- What the methods that touch neither a record nor an amount do. -/
inductive Administered (s : State E) (cx : Ctx) : Call → State E → Prop
  | registerHandle {handle : String} :
      Names.checkSegment "handle" handle = .ok () → s.handles.get handle = none →
      Administered s cx (.registerHandle handle)
        { s with handles := s.handles.insert handle ⟨cx.caller, none⟩ }
  | setHandleDeployer {handle : String} {deployer : Option Principal} {h : Handle} :
      Names.checkSegment "handle" handle = .ok () → s.handles.get handle = some h →
      h.owner = cx.caller → (∀ d, deployer = some d → s.isDeployer d = true) →
      Administered s cx (.setHandleDeployer handle deployer)
        { s with handles := s.handles.insert handle { h with deployer := deployer } }
  | addDeployer {p : Principal} :
      cx.controller = true → p ≠ Principal.anonymous →
      Administered s cx (.addDeployer p) { s with deployers := s.deployers.insert p () }
  | removeDeployer {p : Principal} :
      cx.controller = true →
      Administered s cx (.removeDeployer p) { s with deployers := s.deployers.erase p }
  | setDomains {domains : List String} :
      cx.controller = true → domains.forM Names.checkHostname = .ok () →
      Administered s cx (.setDomains domains) { s with domains := some ("\n".intercalate domains) }
  | setAuctionConfig {c : AuctionConfig} :
      cx.controller = true → c.commitNs ≠ 0 → c.revealNs ≠ 0 → c.reserve ≤ E.auction.maxPrice →
      Administered s cx (.setAuctionConfig c) { s with auctionConfig := some c }

/-- A payment method that starts its pull, with what it checked first. -/
inductive PullStarted (s : State E) (cx : Ctx) : Call → Pending → Prop
  | buy {name aliasTo : String} {price deposit maxPrice : ℕ} {r : Record} {tax : ℕ}
      {before : Snapshot} :
      Names.checkFlat name = .ok () → checkFlatTarget (.alias aliasTo) = .ok () →
      checkPrice (E := E) s.config price = .ok () →
      checkDeposit (E := E) s.config price deposit = .ok () →
      s.buyable s.config name cx.caller maxPrice cx.now = .ok (r, tax, before) →
      PullStarted s cx (.buy name aliasTo price deposit maxPrice)
        (.buy ⟨s.config, cx.caller, name, .alias aliasTo, price, deposit, maxPrice, before,
          satAdd before.price deposit⟩)
  | deposit {name : String} {amount : ℕ} {r : Record} {tax : ℕ} {before : Snapshot} :
      Names.checkFlat name = .ok () → amount ≠ 0 →
      s.payable s.config name amount cx.now = .ok (r, tax, before) →
      PullStarted s cx (.deposit name amount)
        (.deposit ⟨s.config, cx.caller, name, amount, before⟩)
  | bid {name : String} {commitment : Bytes} {deposit : ℕ} :
      s.config.flatNamesOpen = true → Names.checkFlat name = .ok () → commitment.length = 32 →
      s.checkBid s.config name deposit cx.now = .ok () →
      PullStarted s cx (.bid name commitment deposit)
        (.bid ⟨s.config, cx.caller, name, commitment, deposit⟩)

/-- The record an announce writes over the state it found, and the handle it may have registered. -/
inductive Announced (s : State E) (cx : Ctx) (a : Announcement) : State E → Prop
  | fresh {handle label : String} :
      Names.split a.name = .ok (handle, label) → s.handles.get handle = none →
      Announced s cx a
        (State.commit { s with handles := s.handles.insert handle ⟨cx.caller, none⟩ }
          (s.announceRecord cx a cx.caller))
  | allowed {handle label : String} {h : Handle} :
      Names.split a.name = .ok (handle, label) → s.handles.get handle = some h →
      (h.owner = cx.caller ∨ h.deployer = some cx.caller) →
      Announced s cx a (s.commit (s.announceRecord cx a h.owner))

/-- A pending call in its ledger pull: who pays, and how much. -/
inductive Pulling : Pending → Principal → ℕ → Prop
  | buy (c : BuyCall) : Pulling (.buy c) c.caller c.total
  | deposit (c : DepositCall) : Pulling (.deposit c) c.caller c.amount
  | bid (c : BidCall) : Pulling (.bid c) c.caller c.deposit

/-! ## The two relations -/

/-- What the message of an update call does. -/
inductive Called (s : State E) (cx : Ctx) : Call → State E → Progress → Prop
  /-- Refused: the state is as it was. -/
  | refused {c : Call} (e : String) : Called s cx c s (.done (.error e))
  | administered {c : Call} {s' : State E} :
      Administered s cx c s' → cx.caller ≠ Principal.anonymous →
      Called s cx c s' (.done (.ok .unit))
  | announced {a : Announcement} {s' : State E} :
      s.isDeployer cx.caller = true → Names.checkTextValue a.repo = .ok () →
      Names.checkHex "commit" a.commit [20, 32] = .ok () →
      Names.checkHex "module_hash" a.moduleHash [32] = .ok () →
      Announced s cx a s' → Called s cx (.announce a) s' (.done (.ok .unit))
  | underHandle {c : Call} {name : String} {p : String × String} {h : Handle} {r : Record} :
      Names.split name = .ok p → s.handles.get p.1 = some h → h.owner = cx.caller →
      ScopedWrite s cx name c r → Called s cx c (s.commit r) (.done (.ok .unit))
  | amended {c : Call} {name : String} {old r : Record} :
      Held s cx name old → Amendment s cx name (settleRecord E s.config old cx.now).1 c r →
      Called s cx c
        (s.commitFlat r
          (settleRecord E s.config old cx.now).2.2) (.done (.ok .unit))
  | discarded {name : String} {p : String × String} {h : Handle} {old : Record} :
      Names.split name = .ok p → s.handles.get p.1 = some h → h.owner = cx.caller →
      s.records.get name = some old →
      Called s cx (.deleteRecord name) (((s.eraseRecord name).unindex old).certifyRemove name)
        (.done (.ok .unit))
  | released {name : String} {old : Record} :
      Held s cx name old →
      Called s cx (.deleteRecord name)
        (s.release
          (settleRecord E s.config old cx.now).1 (settleRecord E s.config old cx.now).2.2 name)
        (.done (.ok .unit))
  | revealed {name aliasTo : String} {amount : ℕ} {salt : Bytes} {r : Running E} :
      checkFlatTarget (.alias aliasTo) = .ok () →
      s.revealed s.config name cx.caller amount salt aliasTo cx.now = .ok r →
      Called s cx (.reveal name amount salt aliasTo) (s.putAuction name r) (.done (.ok .unit))
  | closed {name : String} {s' : State E} {c : Closed} :
      s.close s.config name cx.now = (s', .ok c) →
      Called s cx (.closeAuction name) s' (.done (.ok (.closed c)))
  | pulling {c : Call} {p : Pending} :
      PullStarted s cx c p → cx.caller ≠ Principal.anonymous →
      Called s cx c s.raiseInFlight (.await p)
  | withdrawing {amount : ℕ} {s' : State E} :
      cx.caller ≠ Principal.anonymous → s.config.fee < amount →
      s.takeCredit cx.caller amount = .ok s' →
      Called s cx (.withdraw amount) s'.raiseInFlight
        (.await (.withdraw s.config cx.caller amount))
  | funding {amount : ℕ} :
      cx.controller = true → s.config.fee < amount → amount ≤ s.taxCollected - s.taxWithdrawn →
      Called s cx (.fundSelf amount) s.raiseInFlight (.await (.fundSelfFee s.config amount))
  | configuring {c : Config} :
      cx.controller = true → (c.ledger ≠ s.config.ledger → s.fundsHeld = .ok ()) →
      Called s cx (.setHarbergerConfig c) s (.await (.setHarbergerConfig c))

/-- What a failed pull leaves behind. -/
def pullFailed (s : State E) (payer : Principal) (amount : ℕ) (f : Failure) : State E :=
  (if f.didNothing then s
    else s.noteUnreconciled amount
      s!"pull {amount} from {E.toText payer}: {f.message}").dropInFlight

/-- What a successful `buy` leaves behind. -/
def bought (s : State E) (now : ℕ) (c : BuyCall) (r : Record) (tax : ℕ) : State E :=
  ((s.addCredit r.owner (satAdd c.before.price r.balance)).noteHandedOver c.name now).commitFlat
    (boughtRecord (E := E) c r now) tax

/-- What the message that resumes a suspended call does. -/
inductive Resumed (s : State E) (now : ℕ) (reply : Except Failure ℕ) :
    Pending → State E → Progress → Prop
  | pullFailed {p : Pending} {payer : Principal} {amount : ℕ} {f : Failure} :
      Pulling p payer amount → reply = .error f →
      Resumed s now reply p (s.pullFailed payer amount f) (.done (.error f.message))
  | bought {c : BuyCall} {block : ℕ} {r : Record} {tax : ℕ} :
      reply = .ok block →
      s.buyable c.cfg c.name c.caller c.maxPrice now = .ok (r, tax, c.before) →
      Resumed s now reply (.buy c) (s.dropInFlight.bought now c r tax) (.done (.ok .unit))
  | toppedUp {c : DepositCall} {block : ℕ} {r : Record} {tax more : ℕ} {h h' : Harberger} :
      reply = .ok block → s.payable c.cfg c.name c.amount now = .ok (r, tax, c.before) →
      r.flat = some h → E.auction.topUp c.cfg.params h c.amount now = .ok (h', more) →
      Resumed s now reply (.deposit c)
        (s.dropInFlight.commitFlat
          { r with flat := some h', updatedNs := now } (satAdd tax more)) (.done (.ok .unit))
  /-- The name is not what it was: the payer is credited back. -/
  | creditedBack {p : Pending} {payer : Principal} {amount block : ℕ} (e : String) :
      Pulling p payer amount → (∀ c, p ≠ .bid c) → reply = .ok block →
      Resumed s now reply p (s.dropInFlight.addCredit payer amount) (.done (.error e))
  | placed {c : BidCall} {block : ℕ} {s' : State E} {replaced : Option ℕ} :
      reply = .ok block →
      s.dropInFlight.placeBid c.cfg c.name c.caller c.commitment c.deposit now =
        (s', .ok replaced) →
      Resumed s now reply (.bid c) (s'.addCredit c.caller (replaced.getD 0)) (.done (.ok .unit))
  | bidRefused {c : BidCall} {block : ℕ} {s' : State E} {e : String} :
      reply = .ok block →
      s.dropInFlight.placeBid c.cfg c.name c.caller c.commitment c.deposit now =
        (s', .error e) →
      Resumed s now reply (.bid c) (s'.addCredit c.caller c.deposit)
        (.done (.error s!"{e}; deposit credited back"))
  | paid {cfg : Config} {caller : Principal} {amount block : ℕ} :
      reply = .ok block →
      Resumed s now reply (.withdraw cfg caller amount) s.dropInFlight
        (.done (.ok (.block block)))
  | payRefused {cfg : Config} {caller : Principal} {amount : ℕ} {m : String} :
      reply = .error (.nothingMoved m) →
      Resumed s now reply (.withdraw cfg caller amount) (s.addCredit caller amount).dropInFlight
        (.done (.error m))
  | payUnconfirmed {cfg : Config} {caller : Principal} {amount : ℕ} {f : Failure} (what : String) :
      reply = .error f → f.didNothing = false →
      Resumed s now reply (.withdraw cfg caller amount) (s.noteUnreconciled amount what).dropInFlight
        (.done (.error f.message))
  | feeRefused {cfg : Config} {amount : ℕ} (e : String) :
      reply ≠ .ok cfg.fee →
      Resumed s now reply (.fundSelfFee cfg amount) s.dropInFlight (.done (.error e))
  | feeAgreed {cfg : Config} {amount : ℕ} :
      reply = .ok cfg.fee →
      Resumed s now reply (.fundSelfFee cfg amount) (s.noteTaxWithdrawn amount)
        (.await (.fundSelf cfg amount))
  | funded {cfg : Config} {amount block : ℕ} :
      reply = .ok block →
      Resumed s now reply (.fundSelf cfg amount) s.dropInFlight (.done (.ok (.block block)))
  | fundRefused {cfg : Config} {amount : ℕ} {m : String} :
      reply = .error (.nothingMoved m) →
      Resumed s now reply (.fundSelf cfg amount) (s.undoTaxWithdrawn amount).dropInFlight
        (.done (.error m))
  | fundCharged {cfg : Config} {amount : ℕ} {m : String} :
      reply = .error (.feeCharged m) →
      Resumed s now reply (.fundSelf cfg amount)
        (s.undoTaxWithdrawn (amount - cfg.fee)).dropInFlight (.done (.error m))
  | fundUnconfirmed {cfg : Config} {amount : ℕ} {m : String} (what : String) :
      reply = .error (.undecodable m) →
      Resumed s now reply (.fundSelf cfg amount) (s.noteUnreconciled amount what).dropInFlight
        (.done (.error m))
  | configRefused {c : Config} (e : String) :
      Resumed s now reply (.setHarbergerConfig c) s (.done (.error e))
  /-- The check on the new config comes after the settlement, so this one is settled and refused. -/
  | configSettled {c : Config} {fee : ℕ} {e : String} :
      reply = .ok fee → c.rateBps ≠ s.config.rateBps →
      E.auction.checkParams c.params = .error e →
      Resumed s now reply (.setHarbergerConfig c) (s.settleAll s.config now).1
        (.done (.error e))
  | configured {c : Config} {fee : ℕ} {s' : State E} :
      reply = .ok fee → (c.ledger ≠ s.config.ledger → s.fundsHeld = .ok ()) →
      E.auction.checkParams c.params = .ok () →
      s' = (if c.rateBps ≠ s.config.rateBps then (s.settleAll s.config now).1 else s) →
      Resumed s now reply (.setHarbergerConfig c) { s' with harberger := some { c with fee := fee } }
        (.done (.ok .unit))

/-! ## The update methods do nothing else -/

variable {s : State E} {cx : Ctx} {c : Call}

/-- A method that fails leaves the state alone; one that goes on is what `k` says. -/
lemma called_attempt {α : Type} {x : Except String α} {k : α → State E × Except String Unit}
    (h : ∀ a, x = .ok a → Called s cx c (finish (k a)).1 (finish (k a)).2) :
    Called s cx c (finish (s.attempt x k)).1 (finish (s.attempt x k)).2 := by
  cases x with
  | error e => exact .refused e
  | ok a => exact h a rfl

lemma called_proceed {α : Type} {x : Except String α} {k : α → State E × Progress}
    (h : ∀ a, x = .ok a → Called s cx c (k a).1 (k a).2) :
    Called s cx c (s.proceed x k).1 (s.proceed x k).2 := by
  cases x with
  | error e => exact .refused e
  | ok a => exact h a rfl

lemma called_registerHandle (handle : String) :
    Called s cx (.registerHandle handle) (finish (s.registerHandleCall cx handle)).1
      (finish (s.registerHandleCall cx handle)).2 := by
  refine called_attempt fun s' h => ?_
  obtain ⟨_, hseg, h⟩ := Except.bind_eq_ok.mp h
  obtain ⟨p, hp, h⟩ := Except.bind_eq_ok.mp h
  obtain ⟨rfl, hanon⟩ := callerOf_ok hp
  simp only [registerHandle] at h
  split_ifs at h with hc
  cases h
  refine .administered (.registerHandle hseg ?_) hanon
  simpa [OrdMap.contains] using hc

lemma called_setHandleDeployer (handle : String) (deployer : Option Principal) :
    Called s cx (.setHandleDeployer handle deployer)
      (finish (s.setHandleDeployer cx handle deployer)).1
      (finish (s.setHandleDeployer cx handle deployer)).2 := by
  refine called_attempt fun h hok => ?_
  obtain ⟨_, hseg, hok⟩ := Except.bind_eq_ok.mp hok
  obtain ⟨h', hh, hok⟩ := Except.bind_eq_ok.mp hok
  obtain ⟨p, hp, -⟩ := Except.bind_eq_ok.mp hh
  obtain ⟨hget, howner⟩ := authorizeHandle_ok hh
  have hlisted : h' = h ∧ ∀ d, deployer = some d → s.isDeployer d = true := by
    cases deployer with
    | none =>
        cases hok
        exact ⟨rfl, fun d hd => by cases hd⟩
    | some d =>
        simp only at hok
        split_ifs at hok with hd
        cases hok
        refine ⟨rfl, fun d' hd' => ?_⟩
        cases hd'
        simpa using hd
  obtain ⟨rfl, hlisted⟩ := hlisted
  exact .administered (.setHandleDeployer hseg hget howner hlisted) (callerOf_ok hp).2

lemma admin_caller {p : Principal} (h : admin cx = .ok p) : cx.caller ≠ Principal.anonymous := by
  obtain ⟨q, hq, -⟩ := Except.bind_eq_ok.mp h
  exact (callerOf_ok hq).2

lemma called_addDeployer (p : Principal) :
    Called s cx (.addDeployer p) (finish (s.addDeployerCall cx p)).1
      (finish (s.addDeployerCall cx p)).2 := by
  refine called_attempt fun _ h => ?_
  obtain ⟨q, hq, h⟩ := Except.bind_eq_ok.mp h
  split_ifs at h with hp
  exact .administered (.addDeployer (admin_ok hq) hp) (admin_caller hq)

lemma called_removeDeployer (p : Principal) :
    Called s cx (.removeDeployer p) (finish (s.removeDeployerCall cx p)).1
      (finish (s.removeDeployerCall cx p)).2 := by
  refine called_attempt fun q hq => ?_
  cases hc : s.deployers.contains p with
  | true =>
      simp only [removeDeployer, hc]
      exact .administered (.removeDeployer (admin_ok hq)) (admin_caller hq)
  | false =>
      -- nothing was listed, so the removal changed nothing
      have : s.deployers.erase p = s.deployers :=
        OrdMap.erase_eq_self (by simpa [OrdMap.contains] using hc)
      simp only [removeDeployer, hc, this]
      exact .refused _

lemma called_setDomains (domains : List String) :
    Called s cx (.setDomains domains) (finish (s.setDomains cx domains)).1
      (finish (s.setDomains cx domains)).2 := by
  refine called_attempt fun _ h => ?_
  obtain ⟨q, hq, h⟩ := Except.bind_eq_ok.mp h
  exact .administered (.setDomains (admin_ok hq) h) (admin_caller hq)

lemma called_setAuctionConfig (a : AuctionConfig) :
    Called s cx (.setAuctionConfig a) (finish (s.setAuctionConfig cx a)).1
      (finish (s.setAuctionConfig cx a)).2 := by
  refine called_attempt fun q hq => ?_
  simp only [setAuctionConfigRaw]
  split_ifs with h₁ h₂
  · exact .refused _
  · exact .refused _
  · rw [not_or] at h₁
    exact .administered (.setAuctionConfig (admin_ok hq) h₁.1 h₁.2 (not_lt.mp h₂)) (admin_caller hq)

lemma called_announce (a : Announcement) :
    Called s cx (.announce a) (finish (s.announce cx a)).1 (finish (s.announce cx a)).2 := by
  refine called_attempt fun ⟨deployer, hdl⟩ h => ?_
  obtain ⟨d, hd, h⟩ := Except.bind_eq_ok.mp h
  obtain ⟨rfl, -⟩ := callerOf_ok hd
  split_ifs at h with hlisted
  obtain ⟨⟨hdl', lbl⟩, hs, h⟩ := Except.bind_eq_ok.mp h
  obtain ⟨_, hcommit, h⟩ := Except.bind_eq_ok.mp h
  obtain ⟨_, hmodule, h⟩ := Except.bind_eq_ok.mp h
  obtain ⟨_, hrepo, h⟩ := Except.bind_eq_ok.mp h
  cases h
  have hlisted : s.isDeployer cx.caller = true := by simpa using hlisted
  simp only
  split
  · rename_i hnone
    have hreg : s.registerHandle hdl cx.caller =
        .ok { s with handles := s.handles.insert hdl ⟨cx.caller, none⟩ } := by
      simp [registerHandle, OrdMap.contains, hnone]
    rw [hreg]
    exact .announced hlisted hrepo hcommit hmodule (.fresh hs hnone)
  · rename_i h hget
    split_ifs with hallow
    · exact .announced hlisted hrepo hcommit hmodule (.allowed hs hget hallow)
    · exact .refused _

/-- What a write to a held flat name has checked. -/
lemma held_of_authorizeFlat {name : String} {r : Record} {tax : ℕ}
    (h : s.authorizeFlat cx s.config name = .ok (r, tax)) :
    ∃ old, Held s cx name old ∧ r = (settleRecord E s.config old cx.now).1 ∧
      tax = (settleRecord E s.config old cx.now).2.2 := by
  obtain ⟨old, hf, hget, howner, hfree, hr, ht⟩ := authorizeFlat_ok h
  exact ⟨old, ⟨hf, hget, howner, hfree⟩, hr, ht⟩

lemma called_setRecord (name : String) (target : Target) :
    Called s cx (.setRecord name target) (finish (s.setRecord cx name target)).1
      (finish (s.setRecord cx name target)).2 := by
  simp only [setRecord]
  split_ifs with hscoped
  · refine called_attempt fun ⟨r, tax⟩ h => ?_
    obtain ⟨⟨r', tax'⟩, hauth, h⟩ := Except.bind_eq_ok.mp h
    obtain ⟨_, htarget, h⟩ := Except.bind_eq_ok.mp h
    cases h
    obtain ⟨old, hheld, rfl, rfl⟩ := held_of_authorizeFlat hauth
    exact .amended hheld (.repoint htarget)
  · refine called_attempt fun caller h => ?_
    obtain ⟨c', hauth, h⟩ := Except.bind_eq_ok.mp h
    obtain ⟨handle, label, hd, hs, hget, howner, rfl⟩ := authorize_ok hauth
    have htarget : caller = cx.caller ∧
        (∀ dest, target = .alias dest → ∃ p, Names.split dest = .ok p) ∧
        target ≠ .alias name := by
      cases target with
      | address p =>
          cases h
          exact ⟨rfl, (fun dest hd => by cases hd), by simp⟩
      | «alias» dest =>
          obtain ⟨p, hp, h⟩ := Except.bind_eq_ok.mp h
          split_ifs at h with hself
          cases h
          exact ⟨rfl, (fun d hd => by cases hd; exact ⟨p, hp⟩), by simpa using hself⟩
    obtain ⟨rfl, hdest, hself⟩ := htarget
    cases hold : s.records.get name with
    | none =>
        simp only [getRecord, hold]
        exact .underHandle hs hget howner (.create hold hdest hself)
    | some old =>
        simp only [getRecord, hold]
        exact .underHandle hs hget howner (.repoint hold hdest hself)

lemma called_setText (name key : String) (value : Option String) :
    Called s cx (.setText name key value) (finish (s.setText cx name key value)).1
      (finish (s.setText cx name key value)).2 := by
  refine called_attempt fun ⟨r, tax⟩ h => ?_
  obtain ⟨⟨r', tax'⟩, hauth, h⟩ := Except.bind_eq_ok.mp h
  obtain ⟨_, hcheck, h⟩ := Except.bind_eq_ok.mp h
  obtain ⟨text, htext, h⟩ := Except.bind_eq_ok.mp h
  cases h
  simp only [textRecord] at hauth
  cases hscoped : Names.isScoped name with
  | true =>
      simp only [hscoped, if_true] at hauth ⊢
      obtain ⟨c', hown, hauth⟩ := Except.bind_eq_ok.mp hauth
      obtain ⟨handle, label, hd, hs, hget, howner, rfl⟩ := authorize_ok hown
      split at hauth
      · cases hauth
      · rename_i old hold
        cases hauth
        -- a scoped write owes no tax
        exact .underHandle hs hget howner (.retext hold hcheck htext)
  | false =>
      simp only [hscoped, Bool.false_eq_true, if_false] at hauth ⊢
      obtain ⟨old, hheld, rfl, rfl⟩ := held_of_authorizeFlat hauth
      exact .amended hheld (.retext hcheck htext)

lemma called_deleteRecord (name : String) :
    Called s cx (.deleteRecord name) (finish (s.deleteRecord cx name)).1
      (finish (s.deleteRecord cx name)).2 := by
  simp only [deleteRecord]
  split_ifs with hscoped
  · refine called_attempt fun ⟨r, tax⟩ h => ?_
    obtain ⟨old, hheld, rfl, rfl⟩ := held_of_authorizeFlat h
    exact .released hheld
  · refine called_attempt fun caller h => ?_
    obtain ⟨handle, label, hd, hs, hget, howner, rfl⟩ := authorize_ok h
    cases hold : s.records.get name with
    | none =>
        simp only [getRecord, hold]
        exact .refused _
    | some old =>
        simp only [getRecord, hold]
        exact .discarded hs hget howner hold

lemma called_setPrice (name : String) (price : ℕ) :
    Called s cx (.setPrice name price) (finish (s.setPrice cx name price)).1
      (finish (s.setPrice cx name price)).2 := by
  refine called_attempt fun ⟨r, tax⟩ h => ?_
  obtain ⟨_, hprice, hauth⟩ := Except.bind_eq_ok.mp h
  obtain ⟨old, hheld, rfl, rfl⟩ := held_of_authorizeFlat hauth
  exact .amended hheld (.reprice hprice)

lemma called_reveal (name : String) (amount : ℕ) (salt : Bytes) (aliasTo : String) :
    Called s cx (.reveal name amount salt aliasTo)
      (finish (s.revealCall cx name amount salt aliasTo)).1
      (finish (s.revealCall cx name amount salt aliasTo)).2 := by
  refine called_attempt fun caller h => ?_
  obtain ⟨c', hc, h⟩ := Except.bind_eq_ok.mp h
  obtain ⟨_, htarget, h⟩ := Except.bind_eq_ok.mp h
  cases h
  obtain ⟨rfl, -⟩ := callerOf_ok hc
  exact called_attempt fun r hr => .revealed htarget hr

/-- A close that fails changes nothing. -/
lemma close_error {cfg : Config} {name : String} {now : ℕ} {s' : State E} {e : String}
    (h : s.close cfg name now = (s', .error e)) : s' = s := by
  simp only [close] at h
  split at h
  · cases h
    rfl
  · rename_i r hget
    cases ho : E.auction.outcome r.auction now with
    | error e =>
        rw [ho] at h
        cases h
        rfl
    | ok outcome =>
        rw [ho] at h
        simp only [attempt] at h
        split at h
        · cases h
          rfl
        · cases h

lemma called_closeAuction (name : String) :
    Called s cx (.closeAuction name) (s.closeAuction cx name).1 (s.closeAuction cx name).2 := by
  simp only [closeAuction]
  cases hclose : s.close s.config name cx.now with
  | mk s' r =>
      cases r with
      | error e =>
          obtain rfl := close_error hclose
          exact .refused e
      | ok out => exact .closed hclose

lemma called_buy (name aliasTo : String) (price deposit maxPrice : ℕ) :
    Called s cx (.buy name aliasTo price deposit maxPrice)
      (s.buy cx name aliasTo price deposit maxPrice).1
      (s.buy cx name aliasTo price deposit maxPrice).2 := by
  refine called_proceed fun ⟨caller, before⟩ h => ?_
  obtain ⟨c', hc, h⟩ := Except.bind_eq_ok.mp h
  obtain ⟨_, hflat, h⟩ := Except.bind_eq_ok.mp h
  obtain ⟨_, htarget, h⟩ := Except.bind_eq_ok.mp h
  obtain ⟨_, hprice, h⟩ := Except.bind_eq_ok.mp h
  obtain ⟨_, hdeposit, h⟩ := Except.bind_eq_ok.mp h
  obtain ⟨⟨r, tax, snap⟩, hbuy, h⟩ := Except.bind_eq_ok.mp h
  cases h
  obtain ⟨rfl, hanon⟩ := callerOf_ok hc
  exact .pulling (.buy hflat htarget hprice hdeposit hbuy) hanon

lemma called_deposit (name : String) (amount : ℕ) :
    Called s cx (.deposit name amount) (s.deposit cx name amount).1
      (s.deposit cx name amount).2 := by
  refine called_proceed fun ⟨caller, before⟩ h => ?_
  obtain ⟨c', hc, h⟩ := Except.bind_eq_ok.mp h
  obtain ⟨_, hflat, h⟩ := Except.bind_eq_ok.mp h
  split_ifs at h with hzero
  obtain ⟨⟨r, tax, snap⟩, hpay, h⟩ := Except.bind_eq_ok.mp h
  cases h
  obtain ⟨rfl, hanon⟩ := callerOf_ok hc
  exact .pulling (.deposit hflat hzero hpay) hanon

lemma called_bid (name : String) (commitment : Bytes) (deposit : ℕ) :
    Called s cx (.bid name commitment deposit) (s.bid cx name commitment deposit).1
      (s.bid cx name commitment deposit).2 := by
  refine called_proceed fun caller h => ?_
  obtain ⟨_, hopen, h⟩ := Except.bind_eq_ok.mp h
  obtain ⟨c', hc, h⟩ := Except.bind_eq_ok.mp h
  obtain ⟨_, hflat, h⟩ := Except.bind_eq_ok.mp h
  split_ifs at h with hlen
  obtain ⟨_, hcheck, h⟩ := Except.bind_eq_ok.mp h
  cases h
  obtain ⟨rfl, hanon⟩ := callerOf_ok hc
  have hopen : s.config.flatNamesOpen = true := by
    simp only [marketOpen] at hopen
    split_ifs at hopen with ho
    exact ho
  exact .pulling (.bid hopen hflat (not_not.mp hlen) hcheck) hanon

lemma called_withdraw (amount : ℕ) :
    Called s cx (.withdraw amount) (s.withdraw cx amount).1 (s.withdraw cx amount).2 := by
  refine called_proceed fun ⟨caller, s'⟩ h => ?_
  obtain ⟨c', hc, h⟩ := Except.bind_eq_ok.mp h
  split_ifs at h with hfee
  obtain ⟨s₁, htake, h⟩ := Except.bind_eq_ok.mp h
  cases h
  obtain ⟨rfl, hanon⟩ := callerOf_ok hc
  exact .withdrawing hanon (not_le.mp hfee) htake

lemma called_fundSelf (amount : ℕ) :
    Called s cx (.fundSelf amount) (s.fundSelf cx amount).1 (s.fundSelf cx amount).2 := by
  refine called_proceed fun _ h => ?_
  obtain ⟨q, hq, h⟩ := Except.bind_eq_ok.mp h
  split_ifs at h with hcheck
  rw [not_or] at hcheck
  exact .funding (admin_ok hq) (not_le.mp hcheck.1) (not_lt.mp hcheck.2)

lemma called_setHarbergerConfig (cfg : Config) :
    Called s cx (.setHarbergerConfig cfg) (s.setHarbergerConfig cx cfg).1
      (s.setHarbergerConfig cx cfg).2 := by
  refine called_proceed fun _ h => ?_
  obtain ⟨q, hq, h⟩ := Except.bind_eq_ok.mp h
  refine .configuring (admin_ok hq) fun hne => ?_
  rw [if_pos hne] at h
  exact h

/-- **The message of an update call does what `Called` says and nothing else.** -/
theorem call_called (s : State E) (cx : Ctx) :
    ∀ c : Call, Called s cx c (s.call cx c).1 (s.call cx c).2
  | .registerHandle handle => called_registerHandle handle
  | .setHandleDeployer handle deployer => called_setHandleDeployer handle deployer
  | .addDeployer p => called_addDeployer p
  | .removeDeployer p => called_removeDeployer p
  | .announce a => called_announce a
  | .setRecord name target => called_setRecord name target
  | .setText name key value => called_setText name key value
  | .deleteRecord name => called_deleteRecord name
  | .setDomains domains => called_setDomains domains
  | .buy name aliasTo price deposit maxPrice => called_buy name aliasTo price deposit maxPrice
  | .deposit name amount => called_deposit name amount
  | .setPrice name price => called_setPrice name price
  | .bid name commitment deposit => called_bid name commitment deposit
  | .reveal name amount salt aliasTo => called_reveal name amount salt aliasTo
  | .closeAuction name => called_closeAuction name
  | .setAuctionConfig a => called_setAuctionConfig a
  | .withdraw amount => called_withdraw amount
  | .fundSelf amount => called_fundSelf amount
  | .setHarbergerConfig cfg => called_setHarbergerConfig cfg

/-! ## Nor do the messages that resume -/

section

variable {now : ℕ} {reply : Except Failure ℕ}

/-- A pull that failed ends its method the same way in every payment method. -/
lemma resumed_pull {p : Pending} {payer : Principal} {amount : ℕ}
    {k : Unit → State E × Except String Unit} (hp : Pulling p payer amount)
    (h : ∀ block, reply = .ok block →
      Resumed s now reply p (finish (k ())).1 (finish (k ())).2) :
    Resumed s now reply p
      (finish ((s.finishPull payer amount reply).1.attempt
        (s.finishPull payer amount reply).2 k)).1
      (finish ((s.finishPull payer amount reply).1.attempt
        (s.finishPull payer amount reply).2 k)).2 := by
  cases reply with
  | ok block => exact h block rfl
  | error f => exact .pullFailed hp rfl

lemma resumed_buy (c : BuyCall) :
    Resumed s now reply (.buy c) (finish (s.resumeBuy now c reply)).1
      (finish (s.resumeBuy now c reply)).2 := by
  refine resumed_pull (.buy c) fun block hr => ?_
  obtain rfl := hr
  simp only
  split
  · rename_i r tax snap hbuy
    split_ifs with hsnap
    · subst hsnap
      exact .bought rfl hbuy
    · exact .creditedBack _ (.buy c) (by simp) rfl
  · exact .creditedBack _ (.buy c) (by simp) rfl

lemma resumed_deposit (c : DepositCall) :
    Resumed s now reply (.deposit c) (finish (s.resumeDeposit now c reply)).1
      (finish (s.resumeDeposit now c reply)).2 := by
  refine resumed_pull (.deposit c) fun block hr => ?_
  obtain rfl := hr
  simp only
  split
  · rename_i r tax snap hpay
    split_ifs with hsnap
    · subst hsnap
      cases hflat : r.flat with
      | none => exact .creditedBack _ (.deposit c) (by simp) rfl
      | some h =>
          simp only
          cases htop : E.auction.topUp c.cfg.params h c.amount now with
          | error e => exact .creditedBack _ (.deposit c) (by simp) rfl
          | ok x => exact .toppedUp rfl hpay hflat htop
    · exact .creditedBack _ (.deposit c) (by simp) rfl
  · exact .creditedBack _ (.deposit c) (by simp) rfl

lemma resumed_bid (c : BidCall) :
    Resumed s now reply (.bid c) (finish (s.resumeBid now c reply)).1
      (finish (s.resumeBid now c reply)).2 := by
  refine resumed_pull (.bid c) fun block hr => ?_
  obtain rfl := hr
  simp only
  split
  · rename_i s' replaced hplace
    exact .placed rfl hplace
  · rename_i s' e hplace
    exact .bidRefused rfl hplace

lemma resumed_withdraw (cfg : Config) (caller : Principal) (amount : ℕ) :
    Resumed s now reply (.withdraw cfg caller amount) (s.resumeWithdraw caller amount reply).1
      (s.resumeWithdraw caller amount reply).2 := by
  cases reply with
  | ok block => exact .paid rfl
  | error f =>
      cases f with
      | nothingMoved m => exact .payRefused rfl
      | feeCharged m => exact .payUnconfirmed _ rfl rfl
      | undecodable m => exact .payUnconfirmed _ rfl rfl

lemma resumed_fundSelfFee (cfg : Config) (amount : ℕ) :
    Resumed s now reply (.fundSelfFee cfg amount) (s.resumeFundSelfFee cfg amount reply).1
      (s.resumeFundSelfFee cfg amount reply).2 := by
  cases reply with
  | error f => exact .feeRefused _ (by simp)
  | ok live =>
      unfold resumeFundSelfFee
      simp only
      split_ifs with hfee
      · exact .feeRefused _ (by simpa using hfee)
      · exact .feeAgreed (by rw [not_not.mp hfee])

lemma resumed_fundSelf (cfg : Config) (amount : ℕ) :
    Resumed s now reply (.fundSelf cfg amount) (s.resumeFundSelf cfg amount reply).1
      (s.resumeFundSelf cfg amount reply).2 := by
  cases reply with
  | ok block => exact .funded rfl
  | error f =>
      cases f with
      | nothingMoved m => exact .fundRefused rfl
      | feeCharged m => exact .fundCharged rfl
      | undecodable m => exact .fundUnconfirmed _ rfl

lemma resumed_setHarbergerConfig (c : Config) :
    Resumed s now reply (.setHarbergerConfig c) (finish (s.resumeSetHarbergerConfig now c reply)).1
      (finish (s.resumeSetHarbergerConfig now c reply)).2 := by
  simp only [resumeSetHarbergerConfig]
  cases reply with
  | error f => exact .configRefused _
  | ok fee =>
      simp only [Except.mapError, attempt]
      split
      · exact .configRefused _
      · rename_i hguard
        have hguard : c.ledger ≠ s.config.ledger → s.fundsHeld = .ok () := fun hne => by
          rwa [if_pos hne] at hguard
        simp only [setConfig]
        cases hcheck : E.auction.checkParams c.params with
        | ok _ =>
            have hcheck' : E.auction.checkParams { c with fee := fee }.params = .ok () := hcheck
            rw [hcheck']
            exact .configured rfl hguard hcheck rfl
        | error e =>
            have hcheck' : E.auction.checkParams { c with fee := fee }.params = .error e := hcheck
            rw [hcheck']
            by_cases hrate : c.rateBps ≠ s.config.rateBps
            · simp only [if_pos hrate]
              exact .configSettled rfl hrate hcheck
            · simp only [if_neg hrate]
              exact .configRefused e

end

/-- **The message that resumes a suspended call does what `Resumed` says and nothing else.** -/
theorem resume_resumed (s : State E) (now : ℕ) (reply : Except Failure ℕ) :
    ∀ p : Pending, Resumed s now reply p (s.resume now reply p).1 (s.resume now reply p).2
  | .buy c => resumed_buy c
  | .deposit c => resumed_deposit c
  | .bid c => resumed_bid c
  | .withdraw cfg caller amount => resumed_withdraw cfg caller amount
  | .fundSelfFee cfg amount => resumed_fundSelfFee cfg amount
  | .fundSelf cfg amount => resumed_fundSelf cfg amount
  | .setHarbergerConfig c => resumed_setHarbergerConfig c

end State
