import IcNameService.Core.Keyed
import IcNameService.Canister.Messages

/-!
# What the writers leave alone

Two frames, each with one lemma per writer.  `SameSettings` is what records, credits and auctions never
touch: the configs, the handles and deployers, the counters of what was withdrawn or could not be
reconciled.  `SameRecords` is what amounts never touch: the records, the certified tree and the
certified data.

Closing an auction is the one long writer: `ClosedAs` names its parts, `close_ok` reads them off, and
`placeBid_cases` says how a bid may close an ended auction first.
-/

namespace State

variable {E : Env}

/-! ## The settings -/

/-- The two states agree on everything that is not a record, a credit, an auction or collected tax. -/
structure SameSettings (s s' : State E) : Prop where
  handles : s'.handles = s.handles
  deployers : s'.deployers = s.deployers
  schema : s'.schema = s.schema
  domains : s'.domains = s.domains
  harberger : s'.harberger = s.harberger
  taxWithdrawn : s'.taxWithdrawn = s.taxWithdrawn
  unreconciled : s'.unreconciled = s.unreconciled
  auctionConfig : s'.auctionConfig = s.auctionConfig
  inFlight : s'.inFlight = s.inFlight

namespace SameSettings

variable {s s' s'' : State E}

lemma refl (s : State E) : SameSettings s s := ⟨rfl, rfl, rfl, rfl, rfl, rfl, rfl, rfl, rfl⟩

lemma trans (h : SameSettings s s') (h' : SameSettings s' s'') : SameSettings s s'' where
  handles := h'.handles.trans h.handles
  deployers := h'.deployers.trans h.deployers
  schema := h'.schema.trans h.schema
  domains := h'.domains.trans h.domains
  harberger := h'.harberger.trans h.harberger
  taxWithdrawn := h'.taxWithdrawn.trans h.taxWithdrawn
  unreconciled := h'.unreconciled.trans h.unreconciled
  auctionConfig := h'.auctionConfig.trans h.auctionConfig
  inFlight := h'.inFlight.trans h.inFlight

lemma config (h : SameSettings s s') : s'.config = s.config := by
  simp only [State.config, h.harberger]

end SameSettings

/-- The two states agree on the records and on what certifies them. -/
structure SameRecords (s s' : State E) : Prop where
  records : s'.records = s.records
  tree : s'.tree = s.tree
  certifiedData : s'.certifiedData = s.certifiedData

namespace SameRecords

variable {s s' s'' : State E}

lemma refl (s : State E) : SameRecords s s := ⟨rfl, rfl, rfl⟩

lemma trans (h : SameRecords s s') (h' : SameRecords s' s'') : SameRecords s s'' where
  records := h'.records.trans h.records
  tree := h'.tree.trans h.tree
  certifiedData := h'.certifiedData.trans h.certifiedData

end SameRecords

/-! ## The small writers -/

section

variable (s : State E)

lemma sameSettings_commit (r : Record) : SameSettings s (s.commit r) :=
  ⟨rfl, rfl, rfl, rfl, rfl, rfl, rfl, rfl, rfl⟩

lemma sameSettings_noteHandedOver (name : String) (now : ℕ) :
    SameSettings s (s.noteHandedOver name now) :=
  ⟨rfl, rfl, rfl, rfl, rfl, rfl, rfl, rfl, rfl⟩

lemma sameSettings_noteTaxCollected (tax : ℕ) : SameSettings s (s.noteTaxCollected tax) := by
  rw [noteTaxCollected_eq]
  exact ⟨rfl, rfl, rfl, rfl, rfl, rfl, rfl, rfl, rfl⟩

lemma sameSettings_addCredit (p : Principal) (n : ℕ) : SameSettings s (s.addCredit p n) := by
  rw [addCredit_eq]
  exact ⟨rfl, rfl, rfl, rfl, rfl, rfl, rfl, rfl, rfl⟩

lemma sameSettings_putAuction (name : String) (r : Running E) :
    SameSettings s (s.putAuction name r) :=
  ⟨rfl, rfl, rfl, rfl, rfl, rfl, rfl, rfl, rfl⟩

lemma sameSettings_removeAuction (name : String) : SameSettings s (s.removeAuction name) :=
  ⟨rfl, rfl, rfl, rfl, rfl, rfl, rfl, rfl, rfl⟩

lemma sameSettings_noteProceeds (n : ℕ) : SameSettings s (s.noteProceeds n) := by
  simp only [noteProceeds]
  split_ifs
  · refine SameSettings.trans ?_
      (sameSettings_noteTaxCollected { s with proceeds := satAdd s.proceeds n } n)
    exact ⟨rfl, rfl, rfl, rfl, rfl, rfl, rfl, rfl, rfl⟩
  · exact .refl s

lemma sameSettings_commitFlat (r : Record) (tax : ℕ) : SameSettings s (s.commitFlat r tax) :=
  (s.sameSettings_noteTaxCollected tax).trans (sameSettings_commit _ r)

lemma sameSettings_discard (name : String) (r : Record) :
    SameSettings s (((s.eraseRecord name).unindex r).certifyRemove name) :=
  ⟨rfl, rfl, rfl, rfl, rfl, rfl, rfl, rfl, rfl⟩

/-- The state a release takes the record out of: the tax counted, the balance credited. -/
def paidOut (r : Record) (tax : ℕ) : State E := (s.noteTaxCollected tax).addCredit r.owner r.balance

lemma release_eq (r : Record) (tax : ℕ) (name : String) :
    s.release r tax name = (((s.paidOut r tax).eraseRecord name).unindex r).certifyRemove name := by
  simp only [release, paidOut, Record.balance]
  cases r.flat with
  | none => simp [addCredit]
  | some h => rfl

lemma sameSettings_release (r : Record) (tax : ℕ) (name : String) :
    SameSettings s (s.release r tax name) := by
  rw [release_eq]
  exact ((s.sameSettings_noteTaxCollected tax).trans (sameSettings_addCredit _ _ _)).trans
    (sameSettings_discard _ name r)

lemma sameRecords_noteHandedOver (name : String) (now : ℕ) :
    SameRecords s (s.noteHandedOver name now) := ⟨rfl, rfl, rfl⟩

lemma sameRecords_noteTaxCollected (tax : ℕ) : SameRecords s (s.noteTaxCollected tax) := by
  rw [noteTaxCollected_eq]
  exact ⟨rfl, rfl, rfl⟩

lemma sameRecords_addCredit (p : Principal) (n : ℕ) : SameRecords s (s.addCredit p n) := by
  rw [addCredit_eq]
  exact ⟨rfl, rfl, rfl⟩

lemma sameRecords_putAuction (name : String) (r : Running E) :
    SameRecords s (s.putAuction name r) := ⟨rfl, rfl, rfl⟩

lemma sameRecords_removeAuction (name : String) : SameRecords s (s.removeAuction name) :=
  ⟨rfl, rfl, rfl⟩

lemma sameRecords_noteProceeds (n : ℕ) : SameRecords s (s.noteProceeds n) := by
  simp only [noteProceeds]
  split_ifs
  · refine SameRecords.trans ?_
      (sameRecords_noteTaxCollected { s with proceeds := satAdd s.proceeds n } n)
    exact ⟨rfl, rfl, rfl⟩
  · exact .refl s

lemma sameRecords_paidOut (r : Record) (tax : ℕ) : SameRecords s (s.paidOut r tax) :=
  (s.sameRecords_noteTaxCollected tax).trans (sameRecords_addCredit _ _ _)

end

/-! ## Withdrawals -/

lemma takeCredit_ok {s s' : State E} {p : Principal} {amount : ℕ}
    (h : s.takeCredit p amount = .ok s') :
    amount ≤ s.creditOf p ∧ ∃ credits, s' = { s with credits := credits } ∧
      (credits = s.credits.erase p ∧ s.creditOf p = amount ∨
        credits = s.credits.insert p (s.creditOf p - amount)) := by
  unfold takeCredit at h
  simp only at h
  split_ifs at h with h₁ h₂
  · cases h
    exact ⟨not_lt.mp h₁, _, rfl, Or.inl ⟨rfl, h₂⟩⟩
  · cases h
    exact ⟨not_lt.mp h₁, _, rfl, Or.inr rfl⟩

/-! ## Closing an auction -/

/-- Who wins once it is known whether the name is free: nobody, if it is not. -/
def winnerIf (outcome : Outcome) (free : Bool) : Option Bytes :=
  outcome.winner.filter fun _ => free

/-- The settlement loop. -/
def settleBids (s : State E) (outcome : Outcome) (winner : Option Bytes)
    (holding : Option Holding) : Closing E :=
  outcome.settlements.foldl (settleBid outcome winner holding) ⟨s, 0, 0⟩

/-- A close that went through, by its parts. -/
structure ClosedAs (s : State E) (cfg : Config) (name : String) (now : ℕ) (r : Running E)
    (outcome : Outcome) (holding : Option Holding) (s' : State E) (c : Closed) : Prop where
  stored : s.auctions.get name = some r
  ended : E.auction.outcome r.auction now = .ok outcome
  holds : winnerHolding r (winnerIf outcome (s.lapsedRecord cfg name now).2) = .ok holding
  state_eq : s' =
    let winner := winnerIf outcome (s.lapsedRecord cfg name now).2
    let closing := s.settleBids outcome winner holding
    (((closing.state.handOver name now (s.lapsedRecord cfg name now).1 holding
      closing.openingBalance).noteProceeds
        (satAdd (if winner.isSome then outcome.price else 0) closing.forfeited)).removeAuction name)
  closed_eq : c =
    let winner := winnerIf outcome (s.lapsedRecord cfg name now).2
    ⟨winner.map Principal.mk, if winner.isSome then outcome.price else 0,
      (holding.map fun h => h.2.2).getD 0, (s.settleBids outcome winner holding).forfeited⟩

lemma close_ok {s s' : State E} {cfg : Config} {name : String} {now : ℕ} {c : Closed}
    (h : s.close cfg name now = (s', .ok c)) :
    ∃ r outcome holding, ClosedAs s cfg name now r outcome holding s' c := by
  simp only [close] at h
  split at h
  · cases h
  · rename_i r hget
    cases ho : E.auction.outcome r.auction now with
    | error e =>
        rw [ho] at h
        cases h
    | ok outcome =>
        rw [ho] at h
        simp only [attempt] at h
        split at h
        · cases h
        · rename_i holding hholding
          cases h
          exact ⟨r, outcome, holding, ⟨hget, ho, hholding, rfl, rfl⟩⟩

/-- The settlement loop only adds credits. -/
lemma settleBid_state (outcome : Outcome) (winner : Option Bytes) (holding : Option Holding)
    (c : Closing E) (x : Settlement) :
    ∃ n, (settleBid outcome winner holding c x).state = c.state.addCredit ⟨x.bidder⟩ n := by
  simp only [settleBid]
  split_ifs <;> exact ⟨_, rfl⟩

lemma settleBids_induction {P : State E → Prop} (hstep : ∀ s p n, P s → P (s.addCredit p n))
    (outcome : Outcome) (winner : Option Bytes) (holding : Option Holding) :
    ∀ (l : List Settlement) (c : Closing E), P c.state →
      P (l.foldl (settleBid outcome winner holding) c).state
  | [], _, h => h
  | x :: l, c, h => by
      rw [List.foldl_cons]
      refine settleBids_induction hstep outcome winner holding l _ ?_
      obtain ⟨n, hn⟩ := settleBid_state outcome winner holding c x
      rw [hn]
      exact hstep _ _ _ h

lemma sameSettings_settleBids (s : State E) (outcome : Outcome) (winner : Option Bytes)
    (holding : Option Holding) :
    SameSettings s (s.settleBids outcome winner holding).state :=
  settleBids_induction (fun s' p n h => h.trans (sameSettings_addCredit s' p n)) _ _ _ _ ⟨s, 0, 0⟩
    (.refl s)

lemma sameRecords_settleBids (s : State E) (outcome : Outcome) (winner : Option Bytes)
    (holding : Option Holding) :
    SameRecords s (s.settleBids outcome winner holding).state :=
  settleBids_induction (fun s' p n h => h.trans (sameRecords_addCredit s' p n)) _ _ _ _ ⟨s, 0, 0⟩
    (.refl s)

lemma settleBids_auctions (s : State E) (outcome : Outcome) (winner : Option Bytes)
    (holding : Option Holding) :
    (s.settleBids outcome winner holding).state.auctions = s.auctions :=
  settleBids_induction (P := fun s' => s'.auctions = s.auctions)
    (fun s' p n h => (addCredit_auctions s' p n).trans h) _ _ _ _ ⟨s, 0, 0⟩ rfl

lemma settleBids_notes (s : State E) (outcome : Outcome) (winner : Option Bytes)
    (holding : Option Holding) :
    (s.settleBids outcome winner holding).state.notes = s.notes :=
  settleBids_induction (P := fun s' => s'.notes = s.notes)
    (fun s' p n h => (addCredit_notes s' p n).trans h) _ _ _ _ ⟨s, 0, 0⟩ rfl

lemma settleBids_taxCollected (s : State E) (outcome : Outcome) (winner : Option Bytes)
    (holding : Option Holding) :
    (s.settleBids outcome winner holding).state.taxCollected = s.taxCollected :=
  settleBids_induction (P := fun s' => s'.taxCollected = s.taxCollected)
    (fun s' p n h => (addCredit_taxCollected s' p n).trans h) _ _ _ _ ⟨s, 0, 0⟩ rfl

/-- A hand-over is a commit of the won record. -/
lemma handOver_some (s : State E) (name : String) (now : ℕ)
    (lapsed : Option (Record × ℕ)) (h : Holding) (opening : ℕ) :
    s.handOver name now lapsed (some h) opening =
      (s.noteHandedOver name now).commitFlat
        (wonRecord (E := E) name lapsed h opening now).1
        (wonRecord (E := E) name lapsed h opening now).2 := rfl

lemma sameSettings_handOver (s : State E) (name : String) (now : ℕ)
    (lapsed : Option (Record × ℕ)) (holding : Option Holding) (opening : ℕ) :
    SameSettings s (s.handOver name now lapsed holding opening) := by
  cases holding with
  | none => exact .refl s
  | some h =>
      exact (sameSettings_noteHandedOver _ name now).trans (sameSettings_commitFlat _ _ _)

lemma handOver_auctions (s : State E) (name : String) (now : ℕ)
    (lapsed : Option (Record × ℕ)) (holding : Option Holding) (opening : ℕ) :
    (s.handOver name now lapsed holding opening).auctions = s.auctions := by
  cases holding with
  | none => rfl
  | some h =>
      rw [handOver_some]
      simp only [commitFlat]
      rw [commit_auctions, noteTaxCollected_auctions]
      rfl

lemma noteProceeds_auctions (s : State E) (n : ℕ) : (s.noteProceeds n).auctions = s.auctions := by
  simp only [noteProceeds]
  split_ifs
  · rw [noteTaxCollected_auctions]
  · rfl

namespace ClosedAs

variable {s s' : State E} {cfg : Config} {name : String} {now : ℕ} {r : Running E}
  {outcome : Outcome} {holding : Option Holding} {c : Closed}

lemma sameSettings (h : ClosedAs s cfg name now r outcome holding s' c) : SameSettings s s' := by
  rw [h.state_eq]
  exact (((s.sameSettings_settleBids _ _ _).trans (sameSettings_handOver _ _ _ _ _ _)).trans
    (sameSettings_noteProceeds _ _)).trans (sameSettings_removeAuction _ _)

/-- The auction goes, and no other does. -/
lemma auctions (h : ClosedAs s cfg name now r outcome holding s' c) :
    s'.auctions = s.auctions.erase name := by
  rw [h.state_eq]
  simp only
  change OrdMap.erase (State.auctions _) name = _
  rw [noteProceeds_auctions, handOver_auctions, settleBids_auctions]

/-- The winner's terms are the ones written down at their reveal. -/
lemma terms_mem (h : ClosedAs s cfg name now r outcome holding s' c) {x : Holding}
    (hx : holding = some x) : (x.1.bytes, x.2.1) ∈ r.targets := by
  have hh := h.holds
  simp only [winnerHolding] at hh
  rw [hx] at hh
  split at hh
  · cases hh
  · rename_i w heq
    split at hh
    · cases hh
    · split at hh
      · cases hh
      · rename_i terms hterms
        cases hh
        obtain ⟨t, ht, rfl⟩ := Option.map_eq_some_iff.mp hterms
        have hmem := List.mem_of_find?_eq_some ht
        have hkey : t.1 = w := by simpa using List.find?_some ht
        rw [← hkey]
        exact hmem

/-- The holding is the winner's, and there is one exactly when somebody wins. -/
lemma holding_isSome (h : ClosedAs s cfg name now r outcome holding s' c) :
    holding.isSome = (winnerIf outcome (s.lapsedRecord cfg name now).2).isSome := by
  have hh := h.holds
  simp only [winnerHolding] at hh
  split at hh
  · rename_i heq
    cases hh
    simp [heq]
  · rename_i w heq
    split at hh
    · cases hh
    · split at hh
      · cases hh
      · cases hh
        simp [heq]

/-- Somebody wins a name only when it is free. -/
lemma free {x : Holding} (h : ClosedAs s cfg name now r outcome (some x) s' c) :
    (s.lapsedRecord cfg name now).2 = true := by
  have hsome := h.holding_isSome
  cases hfree : (s.lapsedRecord cfg name now).2 with
  | true => rfl
  | false =>
      have hnone : winnerIf outcome false = none := by simp [winnerIf]
      rw [hfree, hnone] at hsome
      cases hsome

end ClosedAs

lemma sameSettings_close {s s' : State E} {cfg : Config} {name : String} {now : ℕ} {c : Closed}
    (h : s.close cfg name now = (s', .ok c)) : SameSettings s s' := by
  obtain ⟨r, outcome, holding, hc⟩ := close_ok h
  exact hc.sameSettings

lemma lapsedRecord_some {s : State E} {cfg : Config} {name : String} {now : ℕ} {r : Record}
    {tax : ℕ} {free : Bool} (h : s.lapsedRecord cfg name now = (some (r, tax), free)) :
    ∃ old, s.records.get name = some old ∧ r = (settleRecord E cfg old now).1 ∧
      tax = (settleRecord E cfg old now).2.2 ∧ (settleRecord E cfg old now).2.1 = .free ∧
      free = true := by
  rw [lapsedRecord] at h
  split at h
  · cases h
  · rename_i old hget
    simp only at h
    split_ifs at h with hfree
    · cases h
      exact ⟨old, hget, rfl, rfl, hfree, rfl⟩
    · cases h

lemma lapsedRecord_none {s : State E} {cfg : Config} {name : String} {now : ℕ} {free : Bool}
    (h : s.lapsedRecord cfg name now = (none, free)) :
    (s.records.get name = none ∧ free = true) ∨ free = false := by
  rw [lapsedRecord] at h
  split at h
  · rename_i hget
    cases h
    exact Or.inl ⟨hget, rfl⟩
  · simp only at h
    split_ifs at h
    · cases h
    · cases h
      exact Or.inr rfl

/-! ## Placing a bid -/

/-- What closing an ended auction first leaves for `place_bid`. -/
inductive ClosedFirst (s : State E) (cfg : Config) (name : String) (now : ℕ) : State E → Prop
  | running : (∀ r, s.auctions.get name = some r → E.auction.phase r.auction now ≠ .closed) →
      ClosedFirst s cfg name now s
  | ended {s' : State E} {c : Closed} :
      s.close cfg name now = (s', .ok c) → ClosedFirst s cfg name now s'

lemma closeEnded_ok {s s' : State E} {cfg : Config} {name : String} {now : ℕ}
    (h : s.closeEnded cfg name now = (s', .ok ())) : ClosedFirst s cfg name now s' := by
  simp only [closeEnded] at h
  split at h
  · rename_i hnone
    cases h
    exact .running fun r hr => by simp [getAuction, hr] at hnone
  · rename_i r hget
    split_ifs at h with hphase
    · split at h
      · rename_i s₁ c hclose
        cases h
        exact .ended hclose
      · cases h
    · cases h
      refine .running fun r' hr' => ?_
      have : s.auctions.get name = some r := hget
      rw [this] at hr'
      cases hr'
      exact hphase

lemma closeEnded_error {s s' : State E} {cfg : Config} {name : String} {now : ℕ} {e : String}
    (h : s.closeEnded cfg name now = (s', .error e)) : s' = s := by
  simp only [closeEnded] at h
  split at h
  · cases h
  · split_ifs at h with hphase
    · split at h
      · cases h
      · rename_i s₁ e' hclose
        cases h
        exact close_error hclose
    · cases h

/-- The auction a bid is committed to: the one running, or a new one. -/
def bidAuction (s : State E) (cfg : Config) (name : String) (now : ℕ) : Running E :=
  (s.getAuction name).getD
    { auction := E.auction.start
        ⟨s.auctionCfg.commitNs, s.auctionCfg.revealNs, reserve cfg s.auctionCfg⟩ now
      targets := [] }

/-- **How a bid is placed**: an ended auction is closed first, and then the bid is committed or
refused. -/
lemma placeBid_ok {s s' : State E} {cfg : Config} {name : String} {bidder : Principal}
    {commitment : Bytes} {deposit now : ℕ} {replaced : Option ℕ}
    (h : s.placeBid cfg name bidder commitment deposit now = (s', .ok replaced)) :
    ∃ s₁ auction, ClosedFirst s cfg name now s₁ ∧ s₁.checkBid cfg name deposit now = .ok () ∧
      E.auction.commit (s₁.bidAuction cfg name now).auction now bidder.bytes commitment deposit =
        .ok (auction, replaced) ∧
      s' = s₁.putAuction name { s₁.bidAuction cfg name now with auction := auction } := by
  simp only [placeBid] at h
  cases hc : s.closeEnded cfg name now with
  | mk s₁ res =>
      rw [hc] at h
      cases res with
      | error e => cases h
      | ok u =>
          simp only [attempt] at h
          split at h
          · cases h
          · rename_i hcheck
            split at h
            · cases h
            · rename_i x hcommit
              cases h
              exact ⟨s₁, x.1, closeEnded_ok hc, hcheck, hcommit, rfl⟩

lemma placeBid_error {s s' : State E} {cfg : Config} {name : String} {bidder : Principal}
    {commitment : Bytes} {deposit now : ℕ} {e : String}
    (h : s.placeBid cfg name bidder commitment deposit now = (s', .error e)) :
    s' = s ∨ ClosedFirst s cfg name now s' := by
  simp only [placeBid] at h
  cases hc : s.closeEnded cfg name now with
  | mk s₁ res =>
      rw [hc] at h
      cases res with
      | error e =>
          cases h
          exact Or.inl (closeEnded_error hc)
      | ok u =>
          simp only [attempt] at h
          split at h
          · cases h
            exact Or.inr (closeEnded_ok hc)
          · split at h
            · cases h
              exact Or.inr (closeEnded_ok hc)
            · cases h

/-- What holds before a bid and after a close that comes first, and does not depend on the auctions
stored, holds after the bid. -/
lemma placeBid_induction {P : State E → Prop} {s s' : State E} {cfg : Config} {name : String}
    {bidder : Principal} {commitment : Bytes} {deposit now : ℕ} {res : Except String (Option ℕ)}
    (hp : s.placeBid cfg name bidder commitment deposit now = (s', res)) (hstay : P s)
    (hfirst : ∀ s₁, ClosedFirst s cfg name now s₁ → P s₁)
    (hput : ∀ s₁ r, P s₁ → P (s₁.putAuction name r)) : P s' := by
  cases res with
  | error e =>
      rcases placeBid_error hp with rfl | hc
      · exact hstay
      · exact hfirst _ hc
  | ok replaced =>
      obtain ⟨s₁, auction, hc, -, -, rfl⟩ := placeBid_ok hp
      exact hput _ _ (hfirst s₁ hc)

lemma sameSettings_closedFirst {s s' : State E} {cfg : Config} {name : String} {now : ℕ}
    (h : ClosedFirst s cfg name now s') : SameSettings s s' := by
  cases h with
  | running _ => exact .refl s
  | ended hclose => exact sameSettings_close hclose

lemma sameSettings_placeBid {s s' : State E} {cfg : Config} {name : String} {bidder : Principal}
    {commitment : Bytes} {deposit now : ℕ} {res : Except String (Option ℕ)}
    (h : s.placeBid cfg name bidder commitment deposit now = (s', res)) : SameSettings s s' := by
  refine placeBid_induction h (.refl _) (fun _ hc => sameSettings_closedFirst hc) ?_
  exact fun _ _ hsame => hsame.trans (sameSettings_putAuction _ _ _)

/-! ## Settling every name -/

/-- A property that every round of `settle_all` keeps. -/
lemma settleAll_induction {P : State E → Prop} {cfg : Config} {now : ℕ}
    (hstep : ∀ (s : State E) (name : String) (old : Record), P s → s.records.get name = some old →
      P (s.commitFlat (settleRecord E cfg old now).1
        (settleRecord E cfg old now).2.2))
    {s : State E} (h : P s) : P (s.settleAll cfg now).1 := by
  have key : ∀ (names : List String) (acc : State E × ℕ × ℕ), P acc.1 →
      P (names.foldl (settleName cfg now) acc).1 := by
    intro names
    induction names with
    | nil => exact fun _ h => h
    | cons name names ih =>
        intro acc hacc
        rw [List.foldl_cons]
        apply ih
        simp only [settleName]
        cases hget : acc.1.records.get name with
        | none => simpa only [getRecord, hget] using hacc
        | some old => simpa only [getRecord, hget] using hstep acc.1 name old hacc hget
  exact key _ _ h

lemma sameSettings_settleAll (s : State E) (cfg : Config) (now : ℕ) :
    SameSettings s (s.settleAll cfg now).1 :=
  settleAll_induction (P := SameSettings s)
    (fun _ _ _ h _ => h.trans (sameSettings_commitFlat _ _ _)) (.refl s)

/-! ## The schema marker never changes -/

lemma called_schema {s s' : State E} {cx : Ctx} {c : Call} {p : Progress}
    (h : Called s cx c s' p) : s'.schema = s.schema := by
  cases h with
  | refused => rfl
  | administered h => cases h <;> rfl
  | announced _ _ _ _ h =>
      cases h with
      | fresh => exact (sameSettings_commit _ _).schema
      | allowed => exact (sameSettings_commit _ _).schema
  | underHandle => exact (sameSettings_commit _ _).schema
  | amended =>
      exact (sameSettings_commitFlat _ _ _).schema
  | discarded => rfl
  | released =>
      exact (sameSettings_release _ _ _ _).schema
  | revealed => rfl
  | closed h => exact (sameSettings_close h).schema
  | pulling => rfl
  | withdrawing _ _ h =>
      obtain ⟨-, credits, rfl, -⟩ := takeCredit_ok h
      rfl
  | funding => rfl
  | configuring => rfl

lemma resumed_schema {s s' : State E} {now : ℕ} {reply : Except Failure ℕ} {p : Pending}
    {pr : Progress} (h : Resumed s now reply p s' pr) : s'.schema = s.schema := by
  cases h with
  | pullFailed => simp only [State.pullFailed]; split_ifs <;> rfl
  | bought =>
      exact ((sameSettings_addCredit s.dropInFlight _ _).trans
        ((sameSettings_noteHandedOver _ _ _).trans (sameSettings_commitFlat _ _ _))).schema
  | toppedUp =>
      exact (sameSettings_commitFlat _ _ _).schema
  | creditedBack => exact (sameSettings_addCredit s.dropInFlight _ _).schema
  | placed _ hp => exact ((sameSettings_placeBid hp).trans (sameSettings_addCredit _ _ _)).schema
  | bidRefused _ hp => exact ((sameSettings_placeBid hp).trans (sameSettings_addCredit _ _ _)).schema
  | paid => rfl
  | payRefused => exact (sameSettings_addCredit s _ _).schema
  | payUnconfirmed => rfl
  | feeRefused => rfl
  | feeAgreed => rfl
  | funded => rfl
  | fundRefused => rfl
  | fundCharged => rfl
  | fundUnconfirmed => rfl
  | configRefused => rfl
  | configSettled => exact (sameSettings_settleAll s _ _).schema
  | configured _ _ _ hs' =>
      subst hs'
      split_ifs
      · exact (sameSettings_settleAll s _ _).schema
      · rfl

/-! ## Records change by commits and discards only -/

/-- A property of the records and what certifies them that every commit and every discard keeps. -/
structure RecordsInvariant (P : State E → Prop) : Prop where
  same : ∀ s s', SameRecords s s' → P s → P s'
  commit : ∀ s r, P s → P (s.commit r)
  discard : ∀ s name r, P s → P (((s.eraseRecord name).unindex r).certifyRemove name)

namespace RecordsInvariant

variable {P : State E → Prop} (hP : RecordsInvariant P)

include hP

lemma commitFlat {s : State E} (h : P s) (r : Record) (tax : ℕ) : P (s.commitFlat r tax) :=
  hP.commit _ r (hP.same _ _ (s.sameRecords_noteTaxCollected tax) h)

lemma handOver {s : State E} (h : P s) (name : String) (now : ℕ)
    (lapsed : Option (Record × ℕ)) (holding : Option Holding) (opening : ℕ) :
    P (s.handOver name now lapsed holding opening) := by
  cases holding with
  | none => exact h
  | some x =>
      exact hP.commitFlat (hP.same _ _ (sameRecords_noteHandedOver _ name now) h) _ _

lemma close {s s' : State E} {cfg : Config} {name : String} {now : ℕ} {c : Closed} (h : P s)
    (hclose : s.close cfg name now = (s', .ok c)) : P s' := by
  obtain ⟨r, outcome, holding, hc⟩ := close_ok hclose
  rw [hc.state_eq]
  exact hP.same _ _ ((sameRecords_noteProceeds _ _).trans (sameRecords_removeAuction _ _))
    (hP.handOver (hP.same _ _ (s.sameRecords_settleBids _ _ _) h) _ _ _ _ _)

lemma closedFirst {s s' : State E} {cfg : Config} {name : String} {now : ℕ} (h : P s)
    (hc : ClosedFirst s cfg name now s') : P s' := by
  cases hc with
  | running => exact h
  | ended hclose => exact hP.close h hclose

lemma placeBid {s s' : State E} {cfg : Config} {name : String} {bidder : Principal}
    {commitment : Bytes} {deposit now : ℕ} {res : Except String (Option ℕ)} (h : P s)
    (hp : s.placeBid cfg name bidder commitment deposit now = (s', res)) : P s' := by
  refine placeBid_induction hp h (fun _ hc => hP.closedFirst h hc) ?_
  exact fun _ _ hfirst => hP.same _ _ (sameRecords_putAuction _ _ _) hfirst

lemma called {s s' : State E} {cx : Ctx} {c : Call} {p : Progress} (h : P s)
    (hc : Called s cx c s' p) : P s' := by
  cases hc with
  | refused => exact h
  | administered ha => cases ha <;> exact hP.same s _ ⟨rfl, rfl, rfl⟩ h
  | announced _ _ _ _ ha =>
      cases ha with
      | fresh => exact hP.commit _ _ (hP.same s _ ⟨rfl, rfl, rfl⟩ h)
      | allowed => exact hP.commit _ _ h
  | underHandle => exact hP.commit _ _ h
  | amended => exact hP.commitFlat h _ _
  | discarded => exact hP.discard _ _ _ h
  | released =>
      rw [release_eq]
      exact hP.discard _ _ _ (hP.same s _ (sameRecords_paidOut _ _ _) h)
  | revealed => exact hP.same s _ ⟨rfl, rfl, rfl⟩ h
  | closed hclose => exact hP.close h hclose
  | pulling => exact hP.same s _ ⟨rfl, rfl, rfl⟩ h
  | withdrawing _ _ ht =>
      obtain ⟨-, credits, rfl, -⟩ := takeCredit_ok ht
      exact hP.same s _ ⟨rfl, rfl, rfl⟩ h
  | funding => exact hP.same s _ ⟨rfl, rfl, rfl⟩ h
  | configuring => exact h

lemma settleAll {s : State E} (h : P s) (cfg : Config) (now : ℕ) : P (s.settleAll cfg now).1 :=
  settleAll_induction (P := P) (fun _ _ _ h _ => hP.commitFlat h _ _) h

lemma resumed {s s' : State E} {now : ℕ} {reply : Except Failure ℕ} {p : Pending} {pr : Progress}
    (h : P s) (hr : Resumed s now reply p s' pr) : P s' := by
  have hdrop : P s.dropInFlight := hP.same s s.dropInFlight ⟨rfl, rfl, rfl⟩ h
  cases hr with
  | @pullFailed _ payer amount f =>
      refine hP.same s _ ?_ h
      simp only [State.pullFailed]
      split_ifs
      · exact ⟨rfl, rfl, rfl⟩
      · exact ⟨rfl, rfl, rfl⟩
  | bought =>
      refine hP.commitFlat (hP.same s.dropInFlight _ ?_ hdrop) _ _
      exact (sameRecords_addCredit _ _ _).trans (sameRecords_noteHandedOver _ _ _)
  | toppedUp =>
      exact hP.commitFlat hdrop _ _
  | creditedBack => exact hP.same _ _ (sameRecords_addCredit _ _ _) hdrop
  | placed _ hp => exact hP.same _ _ (sameRecords_addCredit _ _ _) (hP.placeBid hdrop hp)
  | bidRefused _ hp => exact hP.same _ _ (sameRecords_addCredit _ _ _) (hP.placeBid hdrop hp)
  | paid => exact hdrop
  | @payRefused _ caller amount =>
      exact hP.same (s.addCredit caller amount) _ ⟨rfl, rfl, rfl⟩
        (hP.same _ _ (s.sameRecords_addCredit caller amount) h)
  | @payUnconfirmed _ _ amount _ what =>
      exact hP.same s (s.noteUnreconciled amount what).dropInFlight ⟨rfl, rfl, rfl⟩ h
  | feeRefused => exact hdrop
  | @feeAgreed _ amount => exact hP.same s (s.noteTaxWithdrawn amount) ⟨rfl, rfl, rfl⟩ h
  | funded => exact hdrop
  | @fundRefused _ amount =>
      exact hP.same s (s.undoTaxWithdrawn amount).dropInFlight ⟨rfl, rfl, rfl⟩ h
  | @fundCharged cfg amount =>
      exact hP.same s (s.undoTaxWithdrawn (amount - cfg.fee)).dropInFlight ⟨rfl, rfl, rfl⟩ h
  | @fundUnconfirmed _ amount _ what =>
      exact hP.same s (s.noteUnreconciled amount what).dropInFlight ⟨rfl, rfl, rfl⟩ h
  | configRefused => exact h
  | configSettled => exact hP.settleAll h _ _
  | @configured c fee s₁ _ _ _ hs' =>
      have hsettled : P s₁ := by
        subst hs'
        split_ifs
        · exact hP.settleAll h _ _
        · exact h
      exact hP.same s₁ { s₁ with harberger := some { c with fee := fee } } ⟨rfl, rfl, rfl⟩ hsettled

end RecordsInvariant

/-- Every record stands under its own name. -/
def Named (s : State E) : Prop := ∀ name r, s.records.get name = some r → r.name = name

lemma named_invariant : RecordsInvariant (Named (E := E)) where
  same s s' hsame h name r hget := h name r (by rw [← hsame.records]; exact hget)
  commit s r h name r' hget := by
    rw [commit_records] at hget
    rcases OrdMap.get_insert_eq_some.mp hget with ⟨rfl, rfl⟩ | ⟨-, hget⟩
    · rfl
    · exact h name r' hget
  discard s name r h name' r' hget := by
    obtain ⟨-, hget⟩ := OrdMap.get_erase_eq_some.mp hget
    exact h name' r' hget

/-- The names of the records, in key order, are the keys. -/
lemma Named.map_name_values {s : State E} (hn : s.Named) :
    s.records.values.map Record.name = s.records.keys := by
  rw [OrdMap.values, OrdMap.keys, List.map_map]
  refine List.map_congr_left fun e he => ?_
  exact hn e.1 e.2 (OrdMap.mem_entries.mp he)

/-! ## The names that are written -/

lemma Named.announceRecord_name {s : State E} (hn : s.Named) (cx : Ctx) (a : Announcement)
    (owner : Principal) : (s.announceRecord cx a owner).name = a.name := by
  simp only [announceRecord, getRecord]
  cases hget : s.records.get a.name with
  | none => rfl
  | some r =>
      have := hn _ _ hget
      exact this

lemma Named.scopedWrite_name {s : State E} (hn : s.Named) {cx : Ctx} {name : String} {c : Call}
    {r : Record} (h : ScopedWrite s cx name c r) : r.name = name := by
  cases h with
  | create => rfl
  | repoint hget =>
      have := hn _ _ hget
      exact this
  | retext hget =>
      have := hn _ _ hget
      exact this

lemma amendment_name {s : State E} {cx : Ctx} {name : String} {r r' : Record} {c : Call}
    (h : Amendment s cx name r c r') : r'.name = r.name := by
  cases h <;> rfl

/-- The record a winner holds once the name is theirs. -/
def wonAs (s : State E) (cfg : Config) (name : String) (now : ℕ) (outcome : Outcome)
    (x : Holding) : Record :=
  (wonRecord (E := E) name (s.lapsedRecord cfg name now).1 x
    (s.settleBids outcome (winnerIf outcome (s.lapsedRecord cfg name now).2)
      (some x)).openingBalance now).1

/-- The record that is won stands under the name of the auction. -/
lemma Named.wonRecord_name {s : State E} (hn : s.Named) (cfg : Config) (name : String) (now : ℕ)
    (x : Holding) (opening : ℕ) :
    (wonRecord (E := E) name (s.lapsedRecord cfg name now).1 x opening now).1.name = name := by
  cases hl : s.lapsedRecord cfg name now with
  | mk lapsed free =>
      cases lapsed with
      | none => rfl
      | some l =>
          obtain ⟨stored, hget, hr, -, -, -⟩ := lapsedRecord_some hl
          change l.1.name = name
          rw [hr, settleRecord_name]
          exact hn name stored hget

lemma Named.wonAs_name {s : State E} (hn : s.Named) (cfg : Config) (name : String) (now : ℕ)
    (outcome : Outcome) (x : Holding) : (s.wonAs cfg name now outcome x).name = name :=
  hn.wonRecord_name cfg name now x _

/-- The records once the name is handed over. -/
def wonRecords (s : State E) (cfg : Config) (name : String) (now : ℕ) (outcome : Outcome) :
    Option Holding → OrdMap String Record
  | none => s.records
  | some x => s.records.insert (s.wonAs cfg name now outcome x).name
      (s.wonAs cfg name now outcome x)

namespace ClosedAs

variable {s s' : State E} {cfg : Config} {name : String} {now : ℕ} {r : Running E}
  {outcome : Outcome} {holding : Option Holding} {c : Closed}

/-- **What a close does to the records**: the won record is written, if there is a winner. -/
lemma records (h : ClosedAs s cfg name now r outcome holding s' c) :
    s'.records = s.wonRecords cfg name now outcome holding := by
  rw [h.state_eq]
  simp only
  change State.records (State.noteProceeds _ _) = _
  rw [(sameRecords_noteProceeds _ _).records]
  have hloop := (s.sameRecords_settleBids outcome
    (winnerIf outcome (s.lapsedRecord cfg name now).2) holding).records
  cases holding with
  | none => exact hloop
  | some x =>
      rw [handOver_some]
      simp only [State.commitFlat]
      rw [commit_records, noteTaxCollected_records]
      change OrdMap.insert (Closing.state _).records _ _ = _
      rw [hloop]
      rfl

end ClosedAs

/-! ## What settling every name writes -/

lemma settleName_get {cfg : Config} {now : ℕ} {acc : State E × ℕ × ℕ} (hn : acc.1.Named)
    (name k : String) : (settleName cfg now acc name).1.records.get k =
      if k = name then (acc.1.records.get k).map fun r => (settleRecord E cfg r now).1
      else acc.1.records.get k := by
  simp only [settleName]
  cases hget : acc.1.records.get name with
  | none =>
      simp only [getRecord, hget]
      split_ifs with hk
      · rw [hk, hget]
        rfl
      · rfl
  | some old =>
      simp only [getRecord, hget]
      simp only [commitFlat]
      rw [commit_records, noteTaxCollected_records, OrdMap.get_insert, settleRecord_name,
        hn _ _ hget]
      split_ifs with hk
      · rw [hk, hget]
        rfl
      · rfl

lemma settleName_named {cfg : Config} {now : ℕ} {acc : State E × ℕ × ℕ} (hn : acc.1.Named)
    (name : String) : (settleName cfg now acc name).1.Named := by
  simp only [settleName]
  cases hget : acc.1.records.get name with
  | none => simpa only [getRecord, hget] using hn
  | some old =>
      simp only [getRecord, hget]
      exact named_invariant.commitFlat (s := acc.1) hn _ _

lemma settleNames_get {cfg : Config} {now : ℕ} : ∀ {names : List String} {acc : State E × ℕ × ℕ},
    acc.1.Named → names.Nodup → ∀ k, (names.foldl (settleName cfg now) acc).1.records.get k =
      if k ∈ names then (acc.1.records.get k).map fun r => (settleRecord E cfg r now).1
      else acc.1.records.get k
  | [], _, _, _, _ => by simp
  | name :: names, acc, hn, hnd, k => by
      obtain ⟨hnot, hnd⟩ := List.nodup_cons.mp hnd
      rw [List.foldl_cons, settleNames_get (settleName_named hn name) hnd, settleName_get hn]
      by_cases hk : k = name
      · subst hk
        simp [hnot]
      · simp [hk]

/-- **Settling every name settles each record once.** -/
theorem Named.settleAll_get {s : State E} (hn : s.Named) (cfg : Config) (now : ℕ) (k : String) :
    (s.settleAll cfg now).1.records.get k =
      (s.records.get k).map fun r => (settleRecord E cfg r now).1 := by
  have hkeys : ((s.records.entries.filter fun e => e.2.flat.isSome).map fun e => e.2.name) =
      (s.records.entries.filter fun e => e.2.flat.isSome).map Prod.fst :=
    List.map_congr_left fun e he =>
      hn e.1 e.2 (OrdMap.mem_entries.mp (List.mem_filter.mp he).1)
  have hnd : ((s.records.entries.filter fun e => e.2.flat.isSome).map fun e => e.2.name).Nodup := by
    rw [hkeys]
    exact s.records.keys_nodup.sublist (List.filter_sublist.map _)
  simp only [settleAll]
  rw [settleNames_get hn hnd]
  split_ifs with hk
  · rfl
  · cases hget : s.records.get k with
    | none => rfl
    | some r =>
        -- a name that was passed over has no tax state, and settles to itself
        have hnone : r.flat = none := by
          by_contra hne
          refine hk ?_
          rw [hkeys]
          refine List.mem_map.mpr ⟨(k, r), List.mem_filter.mpr ⟨OrdMap.mem_entries.mpr hget, ?_⟩, rfl⟩
          simpa [Option.isSome_iff_ne_none] using hne
        simp [settleRecord_none cfg now hnone]

/-! ## Auctions change by commitments, reveals and closes only -/

/-- No bidder has two bids in one auction. -/
def OneBid (s : State E) : Prop := ∀ name r, s.auctions.get name = some r →
  ((E.auction.bids r.auction).map Bid.bidder).Nodup

section

variable {s s' : State E}

/-- A reveal opens one bid of the auction stored, and writes down the bidder's terms. -/
lemma revealed_ok {cfg : Config} {name aliasTo : String} {bidder : Principal} {amount now : ℕ}
    {salt : Bytes} {r : Running E}
    (h : s.revealed cfg name bidder amount salt aliasTo now = .ok r) :
    ∃ old, s.auctions.get name = some old ∧
      E.auction.reveal old.auction now bidder.bytes amount salt = .ok r.auction ∧
      amount ≤ E.auction.maxPrice ∧
      r.targets = old.targets.filter (fun t => t.1 ≠ bidder.bytes) ++
        [(bidder.bytes, ⟨aliasTo, minDeposit E cfg amount⟩)] := by
  rw [revealed] at h
  split at h
  · cases h
  · rename_i old hget
    obtain ⟨auction, hreveal, h⟩ := Except.bind_eq_ok.mp h
    split_ifs at h with hmax
    simp only at h
    split_ifs at h with hneed
    cases h
    exact ⟨old, hget, hreveal, not_lt.mp hmax, rfl⟩

lemma nodup_reveal (hV : E.auction.VickreyLaws) {a a' : E.auction.Auction} {now n : ℕ}
    {bidder salt : Bytes} (hnd : ((E.auction.bids a).map Bid.bidder).Nodup)
    (h : E.auction.reveal a now bidder n salt = .ok a') :
    ((E.auction.bids a').map Bid.bidder).Nodup := by
  obtain ⟨-, -, hbids⟩ := hV.reveal_ok _ _ _ _ _ _ h
  have hkeys : (E.auction.bids a').map Bid.bidder = (E.auction.bids a).map Bid.bidder := by
    rw [hbids, List.map_map]
    refine List.map_congr_left fun b _ => ?_
    simp only [Function.comp_apply]
    split_ifs <;> rfl
  rw [hkeys]
  exact hnd

end

/-- **How an auction came to be stored**: it was, one commitment made it of one that was or of a new
one, or the reveal the message asked for opened one of its bids. -/
inductive AuctionWrite (s : State E) : Option (Ctx × Call) → String → Running E → Prop
  | kept {m : Option (Ctx × Call)} {name : String} {r : Running E} :
      s.auctions.get name = some r → AuctionWrite s m name r
  | committed {m : Option (Ctx × Call)} {name : String} {r r' : Running E} {bidder sealed : Bytes}
      {deposit now : ℕ} {replaced : Option ℕ} :
      (s.auctions.get name = some r ∨ (E.auction.bids r.auction = [] ∧ r.targets = [])) →
      E.auction.commit r.auction now bidder sealed deposit = .ok (r'.auction, replaced) →
      r'.targets = r.targets → AuctionWrite s m name r'
  | revealed {cx : Ctx} {name aliasTo : String} {n : ℕ} {salt : Bytes} {r : Running E} :
      s.revealed s.config name cx.caller n salt aliasTo cx.now = .ok r →
      AuctionWrite s (some (cx, .reveal name n salt aliasTo)) name r

section

variable {s s' : State E} {m : Option (Ctx × Call)} {name other : String} {r : Running E}

/-- A write depends on the auctions alone, unless it is a reveal. -/
lemma AuctionWrite.congr (h : AuctionWrite s' none name r) (heq : s'.auctions = s.auctions) :
    AuctionWrite s none name r := by
  cases h with
  | kept hget => exact .kept (heq ▸ hget)
  | committed hbase hcommit htargets => exact .committed (heq ▸ hbase) hcommit htargets

lemma auctionWrite_close {cfg : Config} {now : ℕ} {c : Closed}
    (hc : s.close cfg other now = (s', .ok c)) (hget : s'.auctions.get name = some r) :
    s.auctions.get name = some r := by
  obtain ⟨r₀, outcome, holding, hclosed⟩ := close_ok hc
  rw [hclosed.auctions] at hget
  exact (OrdMap.get_erase_eq_some.mp hget).2

lemma auctionWrite_closedFirst {cfg : Config} {now : ℕ} (hc : ClosedFirst s cfg other now s')
    (hget : s'.auctions.get name = some r) : s.auctions.get name = some r := by
  cases hc with
  | running => exact hget
  | ended hclose => exact auctionWrite_close hclose hget

lemma get_putAuction {r' : Running E} (hget : (s.putAuction other r').auctions.get name = some r) :
    (name = other ∧ r = r') ∨ s.auctions.get name = some r := by
  rcases OrdMap.get_insert_eq_some.mp hget with hnew | ⟨-, hget⟩
  · exact Or.inl hnew
  · exact Or.inr hget

/-- A bid commits to the auction stored, or to a new one. -/
lemma auctionWrite_placeBid (hV : E.auction.VickreyLaws) {cfg : Config} {bidder : Principal}
    {sealed : Bytes} {deposit now : ℕ} {res : Except String (Option ℕ)}
    (hp : s.placeBid cfg other bidder sealed deposit now = (s', res))
    (hget : s'.auctions.get name = some r) : AuctionWrite s m name r := by
  cases res with
  | error e =>
      rcases placeBid_error hp with rfl | hc
      · exact .kept hget
      · exact .kept (auctionWrite_closedFirst hc hget)
  | ok replaced =>
      obtain ⟨s₁, auction, hc, -, hcommit, rfl⟩ := placeBid_ok hp
      rcases get_putAuction hget with ⟨rfl, rfl⟩ | hget
      · refine .committed (r := s₁.bidAuction cfg name now) ?_ hcommit rfl
        rw [State.bidAuction, getAuction]
        cases hstored : s₁.auctions.get name with
        | none => exact Or.inr ⟨hV.start_bids _ _, rfl⟩
        | some r₀ => exact Or.inl (auctionWrite_closedFirst hc hstored)
      · exact .kept (auctionWrite_closedFirst hc hget)

theorem called_auctionWrite {cx : Ctx} {c : Call} {p : Progress} (hc : Called s cx c s' p)
    (hget : s'.auctions.get name = some r) : AuctionWrite s (some (cx, c)) name r := by
  cases hc with
  | refused => exact .kept hget
  | administered ha => cases ha <;> exact .kept hget
  | announced _ _ _ _ ha =>
      cases ha <;>
        · rw [commit_auctions] at hget
          exact .kept hget
  | underHandle =>
      rw [commit_auctions] at hget
      exact .kept hget
  | amended =>
      rw [commitFlat, commit_auctions, noteTaxCollected_auctions] at hget
      exact .kept hget
  | discarded => exact .kept hget
  | released =>
      rw [release_eq] at hget
      change (State.auctions (paidOut _ _ _)).get name = some r at hget
      rw [paidOut, addCredit_auctions, noteTaxCollected_auctions] at hget
      exact .kept hget
  | revealed _ hr =>
      rcases get_putAuction hget with ⟨rfl, rfl⟩ | hget
      · exact .revealed hr
      · exact .kept hget
  | closed hclose => exact .kept (auctionWrite_close hclose hget)
  | pulling => exact .kept hget
  | withdrawing _ _ ht =>
      obtain ⟨-, credits, rfl, -⟩ := takeCredit_ok ht
      exact .kept hget
  | funding => exact .kept hget
  | configuring => exact .kept hget

lemma settleAll_auctions (s : State E) (cfg : Config) (now : ℕ) :
    (s.settleAll cfg now).1.auctions = s.auctions :=
  settleAll_induction (P := fun s' => s'.auctions = s.auctions)
    (fun s' name _ h _ => by
      rw [commitFlat, commit_auctions, noteTaxCollected_auctions]
      exact h) rfl

lemma bought_records (s : State E) (now : ℕ) (c : BuyCall) (r : Record) (tax : ℕ) :
    (s.bought now c r tax).records = s.records.insert r.name (boughtRecord (E := E) c r now) := by
  rw [bought, commitFlat_records, noteHandedOver_records, addCredit_records]
  rfl

lemma bought_auctions (s : State E) (now : ℕ) (c : BuyCall) (r : Record) (tax : ℕ) :
    (s.bought now c r tax).auctions = s.auctions := by
  rw [bought, commitFlat, commit_auctions, noteTaxCollected_auctions, noteHandedOver_auctions,
    addCredit_auctions]

theorem resumed_auctionWrite (hV : E.auction.VickreyLaws) {now : ℕ} {reply : Except Failure ℕ}
    {p : Pending} {pr : Progress} (hr : Resumed s now reply p s' pr)
    (hget : s'.auctions.get name = some r) : AuctionWrite s none name r := by
  cases hr with
  | pullFailed =>
      simp only [State.pullFailed] at hget
      split_ifs at hget <;> exact .kept hget
  | bought =>
      rw [bought_auctions] at hget
      exact .kept hget
  | toppedUp =>
      rw [commitFlat, commit_auctions, noteTaxCollected_auctions] at hget
      exact .kept hget
  | creditedBack =>
      rw [addCredit_auctions] at hget
      exact .kept hget
  | placed _ hp =>
      rw [addCredit_auctions] at hget
      exact (auctionWrite_placeBid hV hp hget).congr rfl
  | bidRefused _ hp =>
      rw [addCredit_auctions] at hget
      exact (auctionWrite_placeBid hV hp hget).congr rfl
  | paid => exact .kept hget
  | payRefused =>
      change (State.auctions (s.addCredit _ _)).get name = some r at hget
      rw [addCredit_auctions] at hget
      exact .kept hget
  | payUnconfirmed => exact .kept hget
  | feeRefused => exact .kept hget
  | feeAgreed => exact .kept hget
  | funded => exact .kept hget
  | fundRefused => exact .kept hget
  | fundCharged => exact .kept hget
  | fundUnconfirmed => exact .kept hget
  | configRefused => exact .kept hget
  | configSettled =>
      rw [settleAll_auctions] at hget
      exact .kept hget
  | configured _ _ _ hs' =>
      subst hs'
      change (State.auctions (if _ then _ else _)).get name = some r at hget
      split_ifs at hget
      · rw [settleAll_auctions] at hget
        exact .kept hget
      · exact .kept hget

/-- However an auction came to be stored, it has one bid per bidder. -/
lemma OneBid.written (hV : E.auction.VickreyLaws) (h : OneBid s) (hw : AuctionWrite s m name r) :
    ((E.auction.bids r.auction).map Bid.bidder).Nodup := by
  cases hw with
  | kept hget => exact h name r hget
  | @committed _ _ r₀ _ _ _ _ _ _ hbase hcommit =>
      have hnodup : ((E.auction.bids r₀.auction).map Bid.bidder).Nodup := by
        rcases hbase with hget | ⟨hbids, -⟩
        · exact h name r₀ hget
        · rw [hbids]
          exact List.nodup_nil
      obtain ⟨-, hperm, -⟩ := hV.commit_ok _ _ _ _ _ _ _ hcommit
      exact Keyed.nodup_replace hnodup hperm
  | revealed hr =>
      obtain ⟨old, hget, hreveal, -, -⟩ := revealed_ok hr
      exact nodup_reveal hV (h _ _ hget) hreveal

lemma called_oneBid (hV : E.auction.VickreyLaws) (h : OneBid s) {cx : Ctx} {c : Call}
    {p : Progress} (hc : Called s cx c s' p) : OneBid s' :=
  fun _ _ hget => h.written hV (called_auctionWrite hc hget)

lemma resumed_oneBid (hV : E.auction.VickreyLaws) (h : OneBid s) {now : ℕ}
    {reply : Except Failure ℕ} {p : Pending} {pr : Progress} (hr : Resumed s now reply p s' pr) :
    OneBid s' :=
  fun _ _ hget => h.written hV (resumed_auctionWrite hV hr hget)

/-- The auction a bid goes to has one bid per bidder: it is stored, or it is new. -/
lemma OneBid.bidAuction (hV : E.auction.VickreyLaws) (h : OneBid s) (cfg : Config) (name : String)
    (now : ℕ) : ((E.auction.bids (s.bidAuction cfg name now).auction).map Bid.bidder).Nodup := by
  rw [State.bidAuction, getAuction]
  cases hget : s.auctions.get name with
  | none =>
      rw [Option.getD_none, hV.start_bids]
      exact List.nodup_nil
  | some r => exact h name r hget

lemma OneBid.closedFirst (h : OneBid s) {cfg : Config} {now : ℕ}
    (hc : ClosedFirst s cfg name now s') : OneBid s' :=
  fun _ _ hget => h _ _ (auctionWrite_closedFirst hc hget)

end

/-! ## What a payment method saw -/

/-- The stored flat record settled to `now`, the tax that took, and the snapshot taken of it. -/
structure Seen (s : State E) (cfg : Config) (name : String) (now : ℕ) (old : Record)
    (h : Harberger) (r : Record) (tax : ℕ) (snap : Snapshot) : Prop where
  stored : s.records.get name = some old
  settled : r = (settleRecord E cfg old now).1
  tax_eq : tax = (settleRecord E cfg old now).2.2
  flat : r.flat = some h
  snap_eq : snap = ⟨r.owner, h.price, r.changedHandsNs, (settleRecord E cfg old now).2.1⟩

section

variable {s : State E} {cfg : Config} {name : String} {now : ℕ} {r : Record} {tax : ℕ}
  {snap : Snapshot}

lemma snapshot_some (h : s.snapshot cfg name now = some (r, tax, snap)) :
    ∃ old x, Seen s cfg name now old x r tax snap := by
  rw [snapshot] at h
  split at h
  · cases h
  · rename_i old hget
    simp only at h
    split at h
    · cases h
    · rename_i x hflat
      cases h
      exact ⟨old, x, ⟨hget, rfl, rfl, hflat, rfl⟩⟩

/-- What makes a name buyable. -/
lemma buyable_ok {caller : Principal} {maxPrice : ℕ}
    (h : s.buyable cfg name caller maxPrice now = .ok (r, tax, snap)) :
    (∃ old x, Seen s cfg name now old x r tax snap) ∧ snap.status ≠ .free ∧
      snap.owner ≠ caller ∧ snap.price ≤ maxPrice := by
  simp only [buyable] at h
  split at h
  · cases h
  · rename_i r' tax' snap' hsnap
    split_ifs at h with h₁ h₂ h₃
    cases h
    exact ⟨snapshot_some hsnap, h₁, h₂, not_lt.mp h₃⟩

/-- What makes a name payable. -/
lemma payable_ok {amount : ℕ} (h : s.payable cfg name amount now = .ok (r, tax, snap)) :
    (∃ old x, Seen s cfg name now old x r tax snap) ∧ snap.status ≠ .free ∧
      minDeposit E cfg snap.price ≤ satAdd r.balance amount := by
  rw [payable] at h
  split at h
  · cases h
  · rename_i r' tax' snap' hsnap
    split_ifs at h with h₁
    simp only at h
    split_ifs at h with h₂
    cases h
    exact ⟨snapshot_some hsnap, h₁, not_lt.mp h₂⟩

/-- A settlement moves balance into tax. -/
lemma Seen.balance (hX : E.auction.TaxLaws) {old : Record} {x : Harberger}
    (h : Seen s cfg name now old x r tax snap) : r.balance + tax = old.balance := by
  rw [h.settled, h.tax_eq]
  exact settleRecord_balance cfg now hX old

lemma Seen.name_eq {old : Record} {x : Harberger} (h : Seen s cfg name now old x r tax snap) :
    r.name = old.name := by rw [h.settled, settleRecord_name]

lemma Seen.name_of_named {old : Record} {x : Harberger} (h : Seen s cfg name now old x r tax snap)
    (hn : s.Named) : r.name = name := h.name_eq.trans (hn name old h.stored)

end

/-- A purchase, its pull done, finds the name as its call saw it. -/
def StillSees (s : State E) (now : ℕ) : Pending → Prop
  | .buy c =>
      (s.buyable c.cfg c.name c.caller c.maxPrice now).toOption.map (fun x => x.2.2) = some c.before
  | .deposit c =>
      (s.payable c.cfg c.name c.amount now).toOption.map (fun x => x.2.2) = some c.before
  | _ => False

instance (s : State E) (now : ℕ) : ∀ p, Decidable (s.StillSees now p)
  | .buy c => inferInstanceAs (Decidable
      ((s.buyable c.cfg c.name c.caller c.maxPrice now).toOption.map (fun x => x.2.2) =
        some c.before))
  | .deposit c => inferInstanceAs (Decidable
      ((s.payable c.cfg c.name c.amount now).toOption.map (fun x => x.2.2) = some c.before))
  | .bid _ | .withdraw _ _ _ | .fundSelfFee _ _ | .fundSelf _ _ | .setHarbergerConfig _ =>
      inferInstanceAs (Decidable False)

end State
