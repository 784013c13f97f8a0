import IcNameService.Canister.Effects

/-!
# What changes the config and the in-flight count

Only the end of a `set_harberger_config` writes the config.  A payment method raises the in-flight
count in the message that reads the config, and lowers it in the message that ends it.

* `Pending.sentTo` — the ledger a payment method sent its call to, if it is one.
* `called_harberger`, `called_inFlight`, `resumed_harberger`, `resumed_inFlight` — the two frames.
* `fundsHeld_ok` — what it takes for a ledger change to pass.
-/

namespace Pending

/-- The ledger a suspended payment method sent its call to. -/
def sentTo : Pending → Option Principal
  | .buy c => some c.cfg.ledger
  | .deposit c => some c.cfg.ledger
  | .bid c => some c.cfg.ledger
  | .withdraw cfg _ _ => some cfg.ledger
  | .fundSelfFee cfg _ => some cfg.ledger
  | .fundSelf cfg _ => some cfg.ledger
  | .setHarbergerConfig _ => none

/-- Does the call hold an in-flight guard? -/
def guards (p : Pending) : ℕ := if p.sentTo.isSome then 1 else 0

end Pending

namespace State

variable {E : Env} {s s' : State E}

/-! ## Calls -/

lemma called_harberger {cx : Ctx} {c : Call} {p : Progress} (h : Called s cx c s' p) :
    s'.harberger = s.harberger := by
  cases h with
  | refused => rfl
  | administered h => cases h <;> rfl
  | announced _ _ _ _ h =>
      cases h with
      | fresh => exact (sameSettings_commit _ _).harberger
      | allowed => exact (sameSettings_commit _ _).harberger
  | underHandle => exact (sameSettings_commit _ _).harberger
  | amended =>
      exact (sameSettings_commitFlat _ _ _).harberger
  | discarded => rfl
  | released =>
      exact (sameSettings_release _ _ _ _).harberger
  | revealed => rfl
  | closed h => exact (sameSettings_close h).harberger
  | pulling => rfl
  | withdrawing _ _ h =>
      obtain ⟨-, credits, rfl, -⟩ := takeCredit_ok h
      rfl
  | funding => rfl
  | configuring => rfl

lemma called_config {cx : Ctx} {c : Call} {p : Progress} (h : Called s cx c s' p) :
    s'.config = s.config := by
  simp only [config]
  rw [called_harberger h]

/-- A call that is answered leaves the count alone. -/
lemma called_inFlight_done {cx : Ctx} {c : Call} {r : Reply} (h : Called s cx c s' (.done r)) :
    s'.inFlight = s.inFlight := by
  cases h with
  | refused => rfl
  | administered h => cases h <;> rfl
  | announced _ _ _ _ h =>
      cases h with
      | fresh => exact (sameSettings_commit _ _).inFlight
      | allowed => exact (sameSettings_commit _ _).inFlight
  | underHandle => exact (sameSettings_commit _ _).inFlight
  | amended =>
      exact (sameSettings_commitFlat _ _ _).inFlight
  | discarded => rfl
  | released =>
      exact (sameSettings_release _ _ _ _).inFlight
  | revealed => rfl
  | closed h => exact (sameSettings_close h).inFlight

/-- A call that is suspended raises the count if it pays, and sends its call to the stored ledger. -/
lemma called_inFlight_await {cx : Ctx} {c : Call} {p : Pending}
    (h : Called s cx c s' (.await p)) :
    s'.inFlight = s.inFlight + p.guards ∧ ∀ ledger, p.sentTo = some ledger →
      ledger = s.config.ledger := by
  cases h with
  | pulling hp => cases hp <;> exact ⟨rfl, fun ledger hl => by cases hl; rfl⟩
  | withdrawing _ _ h =>
      obtain ⟨-, credits, rfl, -⟩ := takeCredit_ok h
      exact ⟨rfl, fun ledger hl => by cases hl; rfl⟩
  | funding => exact ⟨rfl, fun ledger hl => by cases hl; rfl⟩
  | configuring => exact ⟨rfl, fun ledger hl => by cases hl⟩

/-! ## Replies -/

/-- Frames of a reply to a payment method, from frames of what it did once the guard was dropped. -/
lemma SameSettings.afterDrop (h : SameSettings s.dropInFlight s') :
    s'.harberger = s.harberger ∧ s'.inFlight = s.inFlight - 1 :=
  ⟨h.harberger, h.inFlight⟩

/-- The end of a payment method leaves the config alone and lowers the count. -/
lemma resumed_payment {now : ℕ} {reply : Except Failure ℕ} {p : Pending} {r : Reply}
    (hp : p.sentTo.isSome) (h : Resumed s now reply p s' (.done r)) :
    s'.harberger = s.harberger ∧ s'.inFlight = s.inFlight - 1 := by
  cases h with
  | pullFailed =>
      simp only [State.pullFailed]
      split_ifs <;> exact ⟨rfl, rfl⟩
  | bought =>
      exact ((sameSettings_addCredit s.dropInFlight _ _).trans
        ((sameSettings_noteHandedOver _ _ _).trans (sameSettings_commitFlat _ _ _))).afterDrop
  | toppedUp =>
      exact (sameSettings_commitFlat _ _ _).afterDrop
  | creditedBack => exact (sameSettings_addCredit s.dropInFlight _ _).afterDrop
  | placed _ hplace =>
      exact ((sameSettings_placeBid hplace).trans (sameSettings_addCredit _ _ _)).afterDrop
  | bidRefused _ hplace =>
      exact ((sameSettings_placeBid hplace).trans (sameSettings_addCredit _ _ _)).afterDrop
  | paid => exact ⟨rfl, rfl⟩
  | @payRefused _ caller amount =>
      have := sameSettings_addCredit s caller amount
      refine ⟨this.harberger, ?_⟩
      change (s.addCredit caller amount).inFlight - 1 = _
      rw [this.inFlight]
  | payUnconfirmed => exact ⟨rfl, rfl⟩
  | feeRefused => exact ⟨rfl, rfl⟩
  | funded => exact ⟨rfl, rfl⟩
  | fundRefused => exact ⟨rfl, rfl⟩
  | fundCharged => exact ⟨rfl, rfl⟩
  | fundUnconfirmed => exact ⟨rfl, rfl⟩
  | configRefused => cases hp
  | configSettled => cases hp
  | configured => cases hp

/-- How a `set_harberger_config` ends: the config stands, or the new one is stored. -/
inductive Reconfigured (s : State E) (now : ℕ) (reply : Except Failure ℕ) (c : Config) :
    State E → Prop
  | kept {s' : State E} : SameSettings s s' → Reconfigured s now reply c s'
  | stored {fee : ℕ} {s' : State E} :
      reply = .ok fee → (c.ledger ≠ s.config.ledger → s.fundsHeld = .ok ()) →
      E.auction.checkParams c.params = .ok () →
      s' = (if c.rateBps ≠ s.config.rateBps then (s.settleAll s.config now).1 else s) →
      Reconfigured s now reply c { s' with harberger := some { c with fee := fee } }

lemma resumed_config {now : ℕ} {reply : Except Failure ℕ} {c : Config} {r : Progress}
    (h : Resumed s now reply (.setHarbergerConfig c) s' r) : Reconfigured s now reply c s' := by
  cases h with
  | configRefused => exact .kept (.refl s)
  | configSettled => exact .kept (sameSettings_settleAll s _ _)
  | configured hreply hheld hcheck hs' => exact .stored hreply hheld hcheck hs'
  | pullFailed hp => cases hp
  | creditedBack _ hp => cases hp

/-- Does a `set_harberger_config` store its config when this reply arrives? -/
def stores (s : State E) (c : Config) (reply : Except Failure ℕ) : Bool :=
  reply.isOk && (c.ledger = s.config.ledger || s.fundsHeld.isOk) &&
    (E.auction.checkParams c.params).isOk

lemma stores_of_configured {c : Config} {fee : ℕ}
    (hheld : c.ledger ≠ s.config.ledger → s.fundsHeld = .ok ())
    (hcheck : E.auction.checkParams c.params = .ok ()) : s.stores c (.ok fee) = true := by
  have hledger : c.ledger = s.config.ledger ∨ s.fundsHeld.isOk = true := by
    by_cases hne : c.ledger = s.config.ledger
    · exact Or.inl hne
    · rw [hheld hne]
      exact Or.inr rfl
  simp only [stores]
  rw [hcheck]
  simpa [Except.isOk, Except.toBool] using hledger

/-- Settling first touches no setting. -/
lemma sameSettings_resettled (s : State E) (c : Config) (now : ℕ) :
    SameSettings s
      (if c.rateBps ≠ s.config.rateBps then (s.settleAll s.config now).1 else s) := by
  split_ifs
  · exact sameSettings_settleAll s _ _
  · exact .refl s

lemma Reconfigured.inFlight {now : ℕ} {reply : Except Failure ℕ} {c : Config}
    (h : Reconfigured s now reply c s') : s'.inFlight = s.inFlight := by
  cases h with
  | kept hsame => exact hsame.inFlight
  | @stored fee s₁ _ _ _ hs' =>
      change s₁.inFlight = s.inFlight
      subst hs'
      exact (s.sameSettings_resettled c now).inFlight

/-! ## What a ledger change needs -/

/-- Nothing is held that a ledger change would strand. -/
structure NothingHeld (s : State E) : Prop where
  noFlat : ∀ name r, s.records.get name = some r → r.flat = none
  noCredit : ∀ p, s.creditOf p = 0
  noEscrow : ∀ name r, s.auctions.get name = some r → ∀ b ∈ E.auction.bids r.auction, b.deposit = 0
  noTax : s.taxCollected ≤ s.taxWithdrawn
  noUnreconciled : s.unreconciled = 0
  noneInFlight : s.inFlight = 0

lemma foldl_bids_eq_zero : ∀ {l : List Bid} {acc : ℕ},
    l.foldl (fun acc b => satAdd acc b.deposit) acc = 0 ↔ acc = 0 ∧ ∀ b ∈ l, b.deposit = 0
  | [], acc => by simp
  | b :: l, acc => by
      rw [List.foldl_cons, foldl_bids_eq_zero, satAdd_eq_zero]
      simp only [List.mem_cons, forall_eq_or_imp, and_assoc]

lemma foldl_auctions_eq_zero : ∀ {l : List (Running E)} {acc : ℕ},
    l.foldl (fun acc r => (E.auction.bids r.auction).foldl (fun acc b => satAdd acc b.deposit) acc)
      acc = 0 ↔ acc = 0 ∧ ∀ r ∈ l, ∀ b ∈ E.auction.bids r.auction, b.deposit = 0
  | [], acc => by simp
  | r :: l, acc => by
      rw [List.foldl_cons, foldl_auctions_eq_zero, foldl_bids_eq_zero]
      simp only [List.mem_cons, forall_eq_or_imp, and_assoc]

/-- **The guard of a ledger change passes on nothing held.** -/
lemma fundsHeld_ok (h : s.fundsHeld = .ok ()) : s.NothingHeld := by
  unfold fundsHeld at h
  simp only at h
  split_ifs at h with hc
  obtain ⟨hflat, hcredits, hescrow, htax, hunreconciled, hinFlight⟩ := hc
  refine ⟨fun name r hget => ?_, fun p => ?_, fun name r hget => ?_, Nat.sub_eq_zero_iff_le.mp htax,
    hunreconciled, hinFlight⟩
  · have hnil := List.length_eq_zero_iff.mp hflat
    have := List.filter_eq_nil_iff.mp hnil r (OrdMap.mem_values.mpr ⟨name, hget⟩)
    simpa using this
  · simp only [creditOf]
    cases hget : s.credits.get p with
    | none => rfl
    | some n =>
        exact (foldl_satAdd_eq_zero.mp hcredits).2 n (OrdMap.mem_values.mpr ⟨p, hget⟩)
  · exact (foldl_auctions_eq_zero.mp hescrow).2 r (OrdMap.mem_values.mpr ⟨name, hget⟩)

end State
