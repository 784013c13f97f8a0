import IcNameService.Canister.Endpoints

/-!
# The certified tree is a cache

No method reads the certified tree: it is written beside the records and read by the queries that prove
an answer.  So two states that differ at most in the tree answer every message alike, and are left two
such states.

* `SameMemory` — two states that differ at most in the certified tree.
* `Agree` — two messages that answer alike and leave two such states.
* `call_sameMemory`, `resume_sameMemory` — **every method answers from the rest of the state.**
-/

namespace State

variable {E : Env}

/-- The state with another certified tree, and another root published. -/
def withTree (s : State E) (tree : E.cert.Tree) (data : E.cert.Hash) : State E :=
  { s with tree := tree, certifiedData := data }

/-- The two states differ at most in the certified tree and what is published of it. -/
def SameMemory (s s' : State E) : Prop := ∃ tree data, s' = s.withTree tree data

namespace SameMemory

variable {s s' s'' : State E}

lemma refl (s : State E) : SameMemory s s := ⟨s.tree, s.certifiedData, rfl⟩

lemma symm : SameMemory s s' → SameMemory s' s
  | ⟨_, _, h⟩ => ⟨s.tree, s.certifiedData, by rw [h]; rfl⟩

lemma trans : SameMemory s s' → SameMemory s' s'' → SameMemory s s''
  | ⟨_, _, h⟩, ⟨tree, data, h'⟩ => ⟨tree, data, by rw [h', h]; rfl⟩

end SameMemory

/-! ## The writers -/

section

variable {s s' : State E} (h : SameMemory s s')

include h

lemma SameMemory.commit (r : Record) : SameMemory (s.commit r) (s'.commit r) := by
  obtain ⟨tree, data, rfl⟩ := h
  exact ⟨_, _, rfl⟩

lemma SameMemory.noteTaxCollected (tax : ℕ) :
    SameMemory (s.noteTaxCollected tax) (s'.noteTaxCollected tax) := by
  obtain ⟨tree, data, rfl⟩ := h
  simp only [State.noteTaxCollected]
  split
  · exact ⟨tree, data, rfl⟩
  · exact ⟨tree, data, rfl⟩

lemma SameMemory.commitFlat (r : Record) (tax : ℕ) :
    SameMemory (s.commitFlat r tax) (s'.commitFlat r tax) :=
  (h.noteTaxCollected tax).commit r

lemma SameMemory.addCredit (p : Principal) (amount : ℕ) :
    SameMemory (s.addCredit p amount) (s'.addCredit p amount) := by
  obtain ⟨tree, data, rfl⟩ := h
  simp only [State.addCredit]
  split
  · exact ⟨tree, data, rfl⟩
  · exact ⟨tree, data, rfl⟩

lemma SameMemory.noteHandedOver (name : String) (now : ℕ) :
    SameMemory (s.noteHandedOver name now) (s'.noteHandedOver name now) := by
  obtain ⟨tree, data, rfl⟩ := h
  exact ⟨tree, data, rfl⟩

lemma SameMemory.raiseInFlight : SameMemory s.raiseInFlight s'.raiseInFlight := by
  obtain ⟨tree, data, rfl⟩ := h
  exact ⟨tree, data, rfl⟩

lemma SameMemory.dropInFlight : SameMemory s.dropInFlight s'.dropInFlight := by
  obtain ⟨tree, data, rfl⟩ := h
  exact ⟨tree, data, rfl⟩

lemma SameMemory.noteUnreconciled (amount : ℕ) (what : String) :
    SameMemory (s.noteUnreconciled amount what) (s'.noteUnreconciled amount what) := by
  obtain ⟨tree, data, rfl⟩ := h
  exact ⟨tree, data, rfl⟩

lemma SameMemory.noteProceeds (amount : ℕ) :
    SameMemory (s.noteProceeds amount) (s'.noteProceeds amount) := by
  obtain ⟨tree, data, rfl⟩ := h
  simp only [State.noteProceeds]
  split
  · exact SameMemory.noteTaxCollected ⟨tree, data, rfl⟩ amount
  · exact ⟨tree, data, rfl⟩

lemma SameMemory.release (r : Record) (tax : ℕ) (name : String) :
    SameMemory (s.release r tax name) (s'.release r tax name) := by
  have htaxed := h.noteTaxCollected tax
  simp only [State.release]
  cases r.flat with
  | none =>
      obtain ⟨tree, data, heq⟩ := htaxed
      rw [heq]
      exact ⟨_, _, rfl⟩
  | some x =>
      obtain ⟨tree, data, heq⟩ := htaxed.addCredit r.owner x.balance
      simp only [heq]
      exact ⟨_, _, rfl⟩

end

/-! ## The methods -/

/-- Two messages agree: they answer alike, and leave two states that differ at most in the tree. -/
def Agree {α : Type} (x y : State E × α) : Prop := SameMemory x.1 y.1 ∧ y.2 = x.2

variable {s s' : State E}

lemma Agree.attempt_both {α β γ : Type} {R : α → β → Prop} (h : SameMemory s s')
    {x : Except String α} {y : Except String β} (hxy : Except.Both R x y)
    {k : α → State E × Except String γ} {k' : β → State E × Except String γ}
    (hk : ∀ a b, R a b → Agree (k a) (k' b)) : Agree (s.attempt x k) (s'.attempt y k') := by
  cases hxy with
  | error e => exact ⟨h, rfl⟩
  | ok hab => exact hk _ _ hab

lemma Agree.attempt {α β : Type} (h : SameMemory s s') (x : Except String α)
    {k k' : α → State E × Except String β} (hk : ∀ a, Agree (k a) (k' a)) :
    Agree (s.attempt x k) (s'.attempt x k') := by
  cases x with
  | error e => exact ⟨h, rfl⟩
  | ok a => exact hk a

lemma Agree.proceed {α : Type} (h : SameMemory s s') (x : Except String α)
    {k k' : α → State E × Progress} (hk : ∀ a, Agree (k a) (k' a)) :
    Agree (s.proceed x k) (s'.proceed x k') := by
  cases x with
  | error e => exact ⟨h, rfl⟩
  | ok a => exact hk a

lemma Agree.proceed_both {α β : Type} {R : α → β → Prop} (h : SameMemory s s')
    {x : Except String α} {y : Except String β} (hxy : Except.Both R x y)
    {k : α → State E × Progress} {k' : β → State E × Progress}
    (hk : ∀ a b, R a b → Agree (k a) (k' b)) : Agree (s.proceed x k) (s'.proceed y k') := by
  cases hxy with
  | error e => exact ⟨h, rfl⟩
  | ok hab => exact hk _ _ hab

lemma Agree.finish {x y : State E × Except String Unit} (h : Agree x y) :
    Agree (finish x) (finish y) :=
  ⟨h.1, by rw [State.finish, State.finish, h.2]⟩

section

variable (h : SameMemory s s') (cx : Ctx)

include h

lemma both_registerHandle (handle : String) (owner : Principal) :
    Except.Both SameMemory (s.registerHandle handle owner) (s'.registerHandle handle owner) := by
  obtain ⟨tree, data, rfl⟩ := h
  by_cases htaken : s.handles.contains handle
  · have htaken' : (s.withTree tree data).handles.contains handle := htaken
    rw [registerHandle, registerHandle, if_pos htaken, if_pos htaken']
    exact .error _
  · have htaken' : ¬ (s.withTree tree data).handles.contains handle := htaken
    rw [registerHandle, registerHandle, if_neg htaken, if_neg htaken']
    exact .ok ⟨tree, data, rfl⟩

lemma agree_setDomains (domains : List String) :
    Agree (s.setDomains cx domains) (s'.setDomains cx domains) := by
  obtain ⟨tree, data, rfl⟩ := h
  exact .attempt ⟨tree, data, rfl⟩ _ fun _ => ⟨⟨tree, data, rfl⟩, rfl⟩

lemma agree_registerHandle (handle : String) :
    Agree (s.registerHandleCall cx handle) (s'.registerHandleCall cx handle) :=
  .attempt_both h (.bind _ fun _ => .bind _ fun owner => both_registerHandle h handle owner)
    fun _ _ hs => ⟨hs, rfl⟩

lemma agree_setHandleDeployer (handle : String) (deployer : Option Principal) :
    Agree (s.setHandleDeployer cx handle deployer) (s'.setHandleDeployer cx handle deployer) := by
  obtain ⟨tree, data, rfl⟩ := h
  exact .attempt ⟨tree, data, rfl⟩ _ fun _ => ⟨⟨tree, data, rfl⟩, rfl⟩

lemma agree_addDeployer (p : Principal) :
    Agree (s.addDeployerCall cx p) (s'.addDeployerCall cx p) := by
  obtain ⟨tree, data, rfl⟩ := h
  exact .attempt ⟨tree, data, rfl⟩ _ fun _ => ⟨⟨tree, data, rfl⟩, rfl⟩

lemma agree_removeDeployer (p : Principal) :
    Agree (s.removeDeployerCall cx p) (s'.removeDeployerCall cx p) := by
  obtain ⟨tree, data, rfl⟩ := h
  refine .attempt ⟨tree, data, rfl⟩ _ fun _ => ?_
  simp only [removeDeployer, show (s.withTree tree data).deployers = s.deployers from rfl]
  cases s.deployers.contains p with
  | true => exact ⟨⟨tree, data, rfl⟩, rfl⟩
  | false => exact ⟨⟨tree, data, rfl⟩, rfl⟩

lemma agree_announce (a : Announcement) : Agree (s.announce cx a) (s'.announce cx a) := by
  obtain ⟨tree, data, rfl⟩ := h
  refine .attempt ⟨tree, data, rfl⟩ _ fun c => ?_
  simp only [show (s.withTree tree data).handles = s.handles from rfl]
  cases s.handles.get c.2 with
  | none =>
      refine .attempt_both ⟨tree, data, rfl⟩ (both_registerHandle ⟨tree, data, rfl⟩ c.2 c.1) ?_
      rintro t _ ⟨tree, data, rfl⟩
      exact ⟨SameMemory.commit ⟨tree, data, rfl⟩ _, rfl⟩
  | some x =>
      by_cases hallowed : x.owner = c.1 ∨ x.deployer = some c.1
      · simp only [if_pos hallowed]
        exact ⟨SameMemory.commit ⟨tree, data, rfl⟩ _, rfl⟩
      · simp only [if_neg hallowed]
        exact ⟨⟨tree, data, rfl⟩, rfl⟩

lemma agree_setRecord (name : String) (target : Target) :
    Agree (s.setRecord cx name target) (s'.setRecord cx name target) := by
  obtain ⟨tree, data, rfl⟩ := h
  simp only [setRecord]
  split
  · exact .attempt ⟨tree, data, rfl⟩ _ fun c =>
      ⟨SameMemory.commitFlat ⟨tree, data, rfl⟩ _ _, rfl⟩
  · refine .attempt ⟨tree, data, rfl⟩ _ fun caller => ?_
    exact ⟨SameMemory.commit ⟨tree, data, rfl⟩ _, rfl⟩

lemma agree_setText (name key : String) (value : Option String) :
    Agree (s.setText cx name key value) (s'.setText cx name key value) := by
  obtain ⟨tree, data, rfl⟩ := h
  exact .attempt ⟨tree, data, rfl⟩ _ fun c => ⟨SameMemory.commitFlat ⟨tree, data, rfl⟩ _ _, rfl⟩

lemma agree_deleteRecord (name : String) :
    Agree (s.deleteRecord cx name) (s'.deleteRecord cx name) := by
  obtain ⟨tree, data, rfl⟩ := h
  simp only [deleteRecord]
  split
  · exact .attempt ⟨tree, data, rfl⟩ _ fun c =>
      ⟨SameMemory.release ⟨tree, data, rfl⟩ _ _ _, rfl⟩
  · refine .attempt ⟨tree, data, rfl⟩ _ fun caller => ?_
    simp only [show (s.withTree tree data).getRecord name = s.getRecord name from rfl]
    cases s.getRecord name with
    | none => exact ⟨⟨tree, data, rfl⟩, rfl⟩
    | some old => exact ⟨⟨_, _, rfl⟩, rfl⟩

lemma agree_buy (name aliasTo : String) (price deposit maxPrice : ℕ) :
    Agree (s.buy cx name aliasTo price deposit maxPrice)
      (s'.buy cx name aliasTo price deposit maxPrice) := by
  obtain ⟨tree, data, rfl⟩ := h
  exact .proceed ⟨tree, data, rfl⟩ _ fun c => ⟨⟨tree, data, rfl⟩, rfl⟩

lemma agree_deposit (name : String) (amount : ℕ) :
    Agree (s.deposit cx name amount) (s'.deposit cx name amount) := by
  obtain ⟨tree, data, rfl⟩ := h
  exact .proceed ⟨tree, data, rfl⟩ _ fun c => ⟨⟨tree, data, rfl⟩, rfl⟩

lemma agree_setPrice (name : String) (price : ℕ) :
    Agree (s.setPrice cx name price) (s'.setPrice cx name price) := by
  obtain ⟨tree, data, rfl⟩ := h
  exact .attempt ⟨tree, data, rfl⟩ _ fun c =>
    ⟨SameMemory.commitFlat ⟨tree, data, rfl⟩ _ _, rfl⟩

lemma agree_bid (name : String) (commitment : Bytes) (deposit : ℕ) :
    Agree (s.bid cx name commitment deposit) (s'.bid cx name commitment deposit) := by
  obtain ⟨tree, data, rfl⟩ := h
  exact .proceed ⟨tree, data, rfl⟩ _ fun c => ⟨⟨tree, data, rfl⟩, rfl⟩

lemma agree_reveal (name : String) (amount : ℕ) (salt : Bytes) (aliasTo : String) :
    Agree (s.revealCall cx name amount salt aliasTo)
      (s'.revealCall cx name amount salt aliasTo) := by
  obtain ⟨tree, data, rfl⟩ := h
  refine .attempt ⟨tree, data, rfl⟩ _ fun caller => ?_
  exact .attempt ⟨tree, data, rfl⟩ _ fun r => ⟨⟨tree, data, rfl⟩, rfl⟩

lemma agree_setAuctionConfig (c : AuctionConfig) :
    Agree (s.setAuctionConfig cx c) (s'.setAuctionConfig cx c) := by
  obtain ⟨tree, data, rfl⟩ := h
  refine .attempt ⟨tree, data, rfl⟩ _ fun _ => ?_
  simp only [setAuctionConfigRaw]
  split_ifs
  · exact ⟨⟨tree, data, rfl⟩, rfl⟩
  · exact ⟨⟨tree, data, rfl⟩, rfl⟩
  · exact ⟨⟨tree, data, rfl⟩, rfl⟩

lemma agree_fundSelf (amount : ℕ) : Agree (s.fundSelf cx amount) (s'.fundSelf cx amount) := by
  obtain ⟨tree, data, rfl⟩ := h
  exact .proceed ⟨tree, data, rfl⟩ _ fun _ => ⟨⟨tree, data, rfl⟩, rfl⟩

lemma agree_setHarbergerConfig (c : Config) :
    Agree (s.setHarbergerConfig cx c) (s'.setHarbergerConfig cx c) := by
  obtain ⟨tree, data, rfl⟩ := h
  exact .proceed ⟨tree, data, rfl⟩ _ fun _ => ⟨⟨tree, data, rfl⟩, rfl⟩

lemma both_takeCredit (p : Principal) (amount : ℕ) :
    Except.Both SameMemory (s.takeCredit p amount) (s'.takeCredit p amount) := by
  obtain ⟨tree, data, rfl⟩ := h
  simp only [takeCredit, show (s.withTree tree data).creditOf p = s.creditOf p from rfl]
  split_ifs
  · exact .error _
  · exact .ok ⟨tree, data, rfl⟩
  · exact .ok ⟨tree, data, rfl⟩

lemma agree_withdraw (amount : ℕ) : Agree (s.withdraw cx amount) (s'.withdraw cx amount) := by
  have hsame : s'.config = s.config := by
    obtain ⟨tree, data, rfl⟩ := h
    rfl
  simp only [withdraw, hsame]
  refine .proceed_both (R := fun a b => b.1 = a.1 ∧ SameMemory a.2 b.2) h
    (.bind _ fun caller => ?_) ?_
  · split_ifs
    · exact .error _
    · exact (both_takeCredit h caller amount).andThen fun _ _ hs => .ok ⟨rfl, hs⟩
  · rintro ⟨caller, t⟩ ⟨_, t'⟩ ⟨rfl, hs⟩
    exact ⟨hs.raiseInFlight, rfl⟩

end

/-! ## Closing and settling -/

lemma sameMemory_settleBids (o : Outcome) (winner : Option Bytes) (holding : Option Holding) :
    ∀ (xs : List Settlement) {c c' : Closing E}, SameMemory c.state c'.state →
      c'.forfeited = c.forfeited → c'.openingBalance = c.openingBalance →
      SameMemory (xs.foldl (settleBid o winner holding) c).state
          (xs.foldl (settleBid o winner holding) c').state ∧
        (xs.foldl (settleBid o winner holding) c').forfeited =
          (xs.foldl (settleBid o winner holding) c).forfeited ∧
        (xs.foldl (settleBid o winner holding) c').openingBalance =
          (xs.foldl (settleBid o winner holding) c).openingBalance
  | [], _, _, h, hforfeited, hopening => ⟨h, hforfeited, hopening⟩
  | x :: xs, c, c', h, hforfeited, hopening => by
      rw [List.foldl_cons, List.foldl_cons]
      refine sameMemory_settleBids o winner holding xs ?_ ?_ ?_
      all_goals
        simp only [settleBid, hforfeited]
        split_ifs
      · exact h.addCredit _ _
      · exact h.addCredit _ _
      · exact h.addCredit _ _
      all_goals first | rfl | exact hopening

lemma SameMemory.handOver (h : SameMemory s s') (name : String) (now : ℕ)
    (lapsed : Option (Record × ℕ)) (holding : Option Holding) (openingBalance : ℕ) :
    SameMemory (s.handOver name now lapsed holding openingBalance)
      (s'.handOver name now lapsed holding openingBalance) := by
  cases holding with
  | none => exact h
  | some x => exact (h.noteHandedOver name now).commitFlat _ _

lemma agree_close (h : SameMemory s s') (cfg : Config) (name : String) (now : ℕ) :
    Agree (s.close cfg name now) (s'.close cfg name now) := by
  have hauction : s'.getAuction name = s.getAuction name := by
    obtain ⟨tree, data, rfl⟩ := h
    rfl
  have hlapsed : s'.lapsedRecord cfg name now = s.lapsedRecord cfg name now := by
    obtain ⟨tree, data, rfl⟩ := h
    rfl
  simp only [close, hauction, hlapsed]
  cases s.getAuction name with
  | none => exact ⟨h, rfl⟩
  | some r =>
      refine .attempt h _ fun o => .attempt h _ fun holding => ?_
      obtain ⟨hsettled, hforfeited, hopening⟩ := @sameMemory_settleBids _ o
        (o.winner.filter fun _ => (s.lapsedRecord cfg name now).2) holding o.settlements
        ⟨s, 0, 0⟩ ⟨s', 0, 0⟩ h rfl rfl
      simp only [hforfeited, hopening]
      obtain ⟨tree, data, heq⟩ := (hsettled.handOver name now _ holding _).noteProceeds _
      exact ⟨⟨tree, data, congrArg (removeAuction · name) heq⟩, rfl⟩

lemma agree_closeAuction (h : SameMemory s s') (cx : Ctx) (name : String) :
    Agree (s.closeAuction cx name) (s'.closeAuction cx name) := by
  have hsame : s'.config = s.config := by
    obtain ⟨tree, data, rfl⟩ := h
    rfl
  obtain ⟨hs, hr⟩ := agree_close h s.config name cx.now
  simp only [closeAuction, hsame]
  exact ⟨hs, by rw [hr]⟩

lemma agree_closeEnded (h : SameMemory s s') (cfg : Config) (name : String) (now : ℕ) :
    Agree (s.closeEnded cfg name now) (s'.closeEnded cfg name now) := by
  have hauction : s'.getAuction name = s.getAuction name := by
    obtain ⟨tree, data, rfl⟩ := h
    rfl
  simp only [closeEnded, hauction]
  cases s.getAuction name with
  | none => exact ⟨h, rfl⟩
  | some r =>
      simp only
      split_ifs
      · obtain ⟨hs, hr⟩ := agree_close h cfg name now
        rcases hx : s.close cfg name now with ⟨t, x⟩
        rcases hy : s'.close cfg name now with ⟨t', y⟩
        rw [hx, hy] at hs hr
        cases hr
        cases x with
        | error e => exact ⟨hs, rfl⟩
        | ok c => exact ⟨hs, rfl⟩
      · exact ⟨h, rfl⟩

lemma agree_placeBid (h : SameMemory s s') (cfg : Config) (name : String) (bidder : Principal)
    (commitment : Bytes) (deposit now : ℕ) :
    Agree (s.placeBid cfg name bidder commitment deposit now)
      (s'.placeBid cfg name bidder commitment deposit now) := by
  obtain ⟨hs, hr⟩ := agree_closeEnded h cfg name now
  simp only [placeBid, hr]
  generalize s.closeEnded cfg name now = x at hs ⊢
  generalize s'.closeEnded cfg name now = y at hs ⊢
  obtain ⟨tree, data, heq⟩ := hs
  rw [heq]
  refine .attempt ⟨tree, data, rfl⟩ _ fun _ => .attempt ⟨tree, data, rfl⟩ _ fun _ => ?_
  exact .attempt ⟨tree, data, rfl⟩ _ fun _ => ⟨⟨tree, data, rfl⟩, rfl⟩

lemma sameMemory_settleNames (cfg : Config) (now : ℕ) : ∀ {names : List String}
    {acc acc' : State E × ℕ × ℕ}, Agree acc acc' →
      Agree (names.foldl (settleName cfg now) acc) (names.foldl (settleName cfg now) acc')
  | [], _, _, h => h
  | name :: names, acc, acc', ⟨h, hcount⟩ => by
      rw [List.foldl_cons, List.foldl_cons]
      refine sameMemory_settleNames cfg now ?_
      have hget : acc'.1.getRecord name = acc.1.getRecord name := by
        obtain ⟨tree, data, heq⟩ := h
        rw [heq]
        rfl
      simp only [settleName, hget, hcount]
      cases acc.1.getRecord name with
      | none => exact ⟨h, hcount⟩
      | some r => exact ⟨h.commitFlat _ _, rfl⟩

lemma agree_settleAll (h : SameMemory s s') (cfg : Config) (now : ℕ) :
    Agree (s.settleAll cfg now) (s'.settleAll cfg now) := by
  have hrecords : s'.records = s.records := by
    obtain ⟨tree, data, rfl⟩ := h
    rfl
  simp only [settleAll, hrecords]
  exact sameMemory_settleNames cfg now ⟨h, rfl⟩

/-! ## The messages after a ledger call -/

section

variable (h : SameMemory s s') (now : ℕ) (reply : Except Failure ℕ)

include h

lemma agree_finishPull (payer : Principal) (amount : ℕ) :
    Agree (s.finishPull payer amount reply) (s'.finishPull payer amount reply) := by
  cases reply with
  | ok _ => exact ⟨h.dropInFlight, rfl⟩
  | error f =>
      simp only [finishPull]
      split_ifs
      · exact ⟨h.dropInFlight, rfl⟩
      · exact ⟨(h.noteUnreconciled _ _).dropInFlight, rfl⟩

lemma agree_resumeBuy (c : BuyCall) : Agree (s.resumeBuy now c reply) (s'.resumeBuy now c reply) := by
  obtain ⟨hs, hr⟩ := agree_finishPull h reply c.caller c.total
  simp only [resumeBuy, hr]
  refine .attempt hs _ fun _ => ?_
  generalize (s.finishPull c.caller c.total reply).1 = t at hs ⊢
  generalize (s'.finishPull c.caller c.total reply).1 = t' at hs ⊢
  obtain ⟨tree, data, rfl⟩ := hs
  simp only [show (t.withTree tree data).buyable c.cfg c.name c.caller c.maxPrice now =
    t.buyable c.cfg c.name c.caller c.maxPrice now from rfl]
  cases t.buyable c.cfg c.name c.caller c.maxPrice now with
  | error e => exact ⟨SameMemory.addCredit ⟨tree, data, rfl⟩ _ _, rfl⟩
  | ok x =>
      by_cases hsnap : x.2.2 = c.before
      · simp only [if_pos hsnap]
        exact ⟨((SameMemory.addCredit ⟨tree, data, rfl⟩ _ _).noteHandedOver
          _ _).commitFlat _ _, rfl⟩
      · simp only [if_neg hsnap]
        exact ⟨SameMemory.addCredit ⟨tree, data, rfl⟩ _ _, rfl⟩

lemma agree_resumeDeposit (c : DepositCall) :
    Agree (s.resumeDeposit now c reply) (s'.resumeDeposit now c reply) := by
  obtain ⟨hs, hr⟩ := agree_finishPull h reply c.caller c.amount
  simp only [resumeDeposit, hr]
  refine .attempt hs _ fun _ => ?_
  generalize (s.finishPull c.caller c.amount reply).1 = t at hs ⊢
  generalize (s'.finishPull c.caller c.amount reply).1 = t' at hs ⊢
  obtain ⟨tree, data, rfl⟩ := hs
  simp only [show (t.withTree tree data).payable c.cfg c.name c.amount now =
    t.payable c.cfg c.name c.amount now from rfl]
  cases t.payable c.cfg c.name c.amount now with
  | error e => exact ⟨SameMemory.addCredit ⟨tree, data, rfl⟩ _ _, rfl⟩
  | ok x =>
      by_cases hsnap : x.2.2 = c.before
      · simp only [if_pos hsnap]
        split
        · exact ⟨SameMemory.commitFlat ⟨tree, data, rfl⟩ _ _, rfl⟩
        · exact ⟨SameMemory.addCredit ⟨tree, data, rfl⟩ _ _, rfl⟩
      · simp only [if_neg hsnap]
        exact ⟨SameMemory.addCredit ⟨tree, data, rfl⟩ _ _, rfl⟩

lemma agree_resumeBid (c : BidCall) : Agree (s.resumeBid now c reply) (s'.resumeBid now c reply) := by
  obtain ⟨hs, hr⟩ := agree_finishPull h reply c.caller c.deposit
  simp only [resumeBid, hr]
  refine .attempt hs _ fun _ => ?_
  obtain ⟨hplaced, hsame⟩ := agree_placeBid hs c.cfg c.name c.caller c.commitment c.deposit now
  generalize State.placeBid _ c.cfg c.name c.caller c.commitment c.deposit now = x at hplaced hsame ⊢
  generalize State.placeBid _ c.cfg c.name c.caller c.commitment c.deposit now = y at hplaced hsame ⊢
  obtain ⟨t, placed⟩ := x
  obtain ⟨t', placed'⟩ := y
  cases hsame
  cases placed with
  | error e => exact ⟨SameMemory.addCredit hplaced _ _, rfl⟩
  | ok replaced => exact ⟨SameMemory.addCredit hplaced _ _, rfl⟩

lemma agree_resumeWithdraw (caller : Principal) (amount : ℕ) :
    Agree (s.resumeWithdraw caller amount reply) (s'.resumeWithdraw caller amount reply) := by
  cases reply with
  | ok block => exact ⟨h.dropInFlight, rfl⟩
  | error f =>
      simp only [resumeWithdraw]
      split_ifs
      · exact ⟨(h.addCredit _ _).dropInFlight, rfl⟩
      · exact ⟨(h.noteUnreconciled _ _).dropInFlight, rfl⟩

lemma agree_resumeFundSelfFee (cfg : Config) (amount : ℕ) :
    Agree (s.resumeFundSelfFee cfg amount reply) (s'.resumeFundSelfFee cfg amount reply) := by
  cases reply with
  | error f => exact ⟨h.dropInFlight, rfl⟩
  | ok live =>
      simp only [resumeFundSelfFee]
      split_ifs
      · exact ⟨h.dropInFlight, rfl⟩
      · obtain ⟨tree, data, rfl⟩ := h
        exact ⟨⟨tree, data, rfl⟩, rfl⟩

lemma agree_resumeFundSelf (cfg : Config) (amount : ℕ) :
    Agree (s.resumeFundSelf cfg amount reply) (s'.resumeFundSelf cfg amount reply) := by
  obtain ⟨tree, data, rfl⟩ := h
  cases reply with
  | ok block => exact ⟨⟨tree, data, rfl⟩, rfl⟩
  | error f =>
      cases f with
      | nothingMoved m => exact ⟨⟨tree, data, rfl⟩, rfl⟩
      | feeCharged m => exact ⟨⟨tree, data, rfl⟩, rfl⟩
      | undecodable m => exact ⟨⟨tree, data, rfl⟩, rfl⟩

lemma agree_resumeSetHarbergerConfig (c : Config) :
    Agree (s.resumeSetHarbergerConfig now c reply) (s'.resumeSetHarbergerConfig now c reply) := by
  have hsame : s'.config = s.config ∧ s'.fundsHeld = s.fundsHeld := by
    obtain ⟨tree, data, rfl⟩ := h
    exact ⟨rfl, rfl⟩
  simp only [resumeSetHarbergerConfig, hsame.1, hsame.2]
  refine .attempt h _ fun fee => .attempt h _ fun _ => ?_
  have hset : ∀ {t t' : State E} (c : Config), SameMemory t t' →
      Agree (t.setConfig c) (t'.setConfig c) := by
    rintro t _ c ⟨tree, data, rfl⟩
    simp only [setConfig]
    cases E.auction.checkParams c.params with
    | error e => exact ⟨⟨tree, data, rfl⟩, rfl⟩
    | ok _ => exact ⟨⟨tree, data, rfl⟩, rfl⟩
  split_ifs
  · exact hset _ (agree_settleAll h s.config now).1
  · exact hset _ h

/-- **Every method answers from the rest of the state.** -/
theorem call_sameMemory (cx : Ctx) (c : Call) : Agree (s.call cx c) (s'.call cx c) := by
  cases c with
  | registerHandle handle => exact (agree_registerHandle h cx handle).finish
  | setHandleDeployer handle deployer => exact (agree_setHandleDeployer h cx handle deployer).finish
  | addDeployer p => exact (agree_addDeployer h cx p).finish
  | removeDeployer p => exact (agree_removeDeployer h cx p).finish
  | announce a => exact (agree_announce h cx a).finish
  | setRecord name target => exact (agree_setRecord h cx name target).finish
  | setText name key value => exact (agree_setText h cx name key value).finish
  | deleteRecord name => exact (agree_deleteRecord h cx name).finish
  | setDomains domains => exact (agree_setDomains h cx domains).finish
  | buy name aliasTo price deposit maxPrice =>
      exact agree_buy h cx name aliasTo price deposit maxPrice
  | deposit name amount => exact agree_deposit h cx name amount
  | setPrice name price => exact (agree_setPrice h cx name price).finish
  | bid name commitment deposit => exact agree_bid h cx name commitment deposit
  | reveal name amount salt aliasTo => exact (agree_reveal h cx name amount salt aliasTo).finish
  | closeAuction name => exact agree_closeAuction h cx name
  | setAuctionConfig c => exact (agree_setAuctionConfig h cx c).finish
  | withdraw amount => exact agree_withdraw h cx amount
  | fundSelf amount => exact agree_fundSelf h cx amount
  | setHarbergerConfig c => exact agree_setHarbergerConfig h cx c

/-- **So does every message that brings a ledger reply.** -/
theorem resume_sameMemory (p : Pending) : Agree (s.resume now reply p) (s'.resume now reply p) := by
  cases p with
  | buy c => exact (agree_resumeBuy h now reply c).finish
  | deposit c => exact (agree_resumeDeposit h now reply c).finish
  | bid c => exact (agree_resumeBid h now reply c).finish
  | withdraw cfg caller amount => exact agree_resumeWithdraw h reply caller amount
  | fundSelfFee cfg amount => exact agree_resumeFundSelfFee h reply cfg amount
  | fundSelf cfg amount => exact agree_resumeFundSelf h reply cfg amount
  | setHarbergerConfig c => exact (agree_resumeSetHarbergerConfig h now reply c).finish

end

end State
