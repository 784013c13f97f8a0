import IcNameService.Books.Account

/-!
# What `fund_self` may spend

`fund_self` checks its amount against the collected tax, asks the ledger for its fee, and notes the
withdrawal when the fee arrives.  Between the check and the note another `fund_self` may have taken
the same tax.  `stillAvailable` says that none did: under it the treasury never spends more than it
collected, and `fund_self_overspends` is a history without it.

`Collects` is the frame: no message takes collected tax away.
-/

namespace State

variable {E : Env}

/-! ## Collected tax only grows -/

/-- The collected tax stays in range and does not go down. -/
def Collects (s s' : State E) : Prop :=
  s.taxCollected ≤ u128Max → s.taxCollected ≤ s'.taxCollected ∧ s'.taxCollected ≤ u128Max

namespace Collects

variable {s s' s'' : State E}

lemma of_eq (h : s'.taxCollected = s.taxCollected) : Collects s s' := fun hle => by
  rw [h]
  exact ⟨le_rfl, hle⟩

lemma trans (h : Collects s s') (h' : Collects s' s'') : Collects s s'' := fun hle =>
  ⟨(h hle).1.trans (h' (h hle).2).1, (h' (h hle).2).2⟩

end Collects

section

variable (s : State E)

lemma collects_noteTaxCollected (tax : ℕ) : Collects s (s.noteTaxCollected tax) := fun hle => by
  refine ⟨s.taxCollected_le_noteTaxCollected tax hle, ?_⟩
  simp only [noteTaxCollected]
  split_ifs
  · exact satAdd_le_max _ _
  · exact hle

lemma collects_commitFlat (r : Record) (tax : ℕ) : Collects s (s.commitFlat r tax) :=
  (s.collects_noteTaxCollected tax).trans (.of_eq (commit_taxCollected _ r))

lemma collects_noteProceeds (n : ℕ) : Collects s (s.noteProceeds n) := by
  simp only [noteProceeds]
  split_ifs
  · exact collects_noteTaxCollected { s with proceeds := satAdd s.proceeds n } n
  · exact .of_eq rfl

lemma collects_release (r : Record) (tax : ℕ) (name : String) :
    Collects s (s.release r tax name) := by
  rw [release_eq]
  refine (s.collects_noteTaxCollected tax).trans (.of_eq ?_)
  exact addCredit_taxCollected (s.noteTaxCollected tax) r.owner r.balance

lemma collects_handOver (name : String) (now : ℕ) (lapsed : Option (Record × ℕ))
    (holding : Option Holding) (opening : ℕ) :
    Collects s (s.handOver name now lapsed holding opening) := by
  cases holding with
  | none => exact .of_eq rfl
  | some h =>
      rw [handOver_some]
      exact collects_commitFlat (s.noteHandedOver name now) _ _

lemma collects_settleAll (cfg : Config) (now : ℕ) : Collects s (s.settleAll cfg now).1 :=
  settleAll_induction (P := Collects s)
    (fun s' _ _ h _ => h.trans (collects_commitFlat s' _ _))
    (.of_eq rfl)

end

variable {s s' : State E}

lemma collects_close {cfg : Config} {name : String} {now : ℕ} {c : Closed}
    (h : s.close cfg name now = (s', .ok c)) : Collects s s' := by
  obtain ⟨r, outcome, holding, hc⟩ := close_ok h
  rw [hc.state_eq]
  refine Collects.trans (.of_eq (s.settleBids_taxCollected outcome
    (winnerIf outcome (s.lapsedRecord cfg name now).2) holding)) ?_
  exact (collects_handOver _ name now _ _ _).trans
    ((collects_noteProceeds _ _).trans (.of_eq rfl))

lemma collects_closedFirst {cfg : Config} {name : String} {now : ℕ}
    (h : ClosedFirst s cfg name now s') : Collects s s' := by
  cases h with
  | running => exact .of_eq rfl
  | ended hclose => exact collects_close hclose

lemma collects_placeBid {cfg : Config} {name : String} {bidder : Principal} {commitment : Bytes}
    {deposit now : ℕ} {res : Except String (Option ℕ)}
    (h : s.placeBid cfg name bidder commitment deposit now = (s', res)) : Collects s s' := by
  cases res with
  | error e =>
      rcases placeBid_error h with rfl | hc
      · exact .of_eq rfl
      · exact collects_closedFirst hc
  | ok replaced =>
      obtain ⟨s₁, auction, hc, -, -, rfl⟩ := placeBid_ok h
      exact (collects_closedFirst hc).trans (.of_eq rfl)

lemma called_collects {cx : Ctx} {c : Call} {p : Progress} (h : Called s cx c s' p) :
    Collects s s' := by
  cases h with
  | refused => exact .of_eq rfl
  | administered h => cases h <;> exact .of_eq rfl
  | announced _ _ _ _ h =>
      cases h with
      | fresh => exact .of_eq (commit_taxCollected _ _)
      | allowed => exact .of_eq (commit_taxCollected _ _)
  | underHandle => exact .of_eq (commit_taxCollected _ _)
  | amended => exact collects_commitFlat s _ _
  | discarded => exact .of_eq rfl
  | released => exact collects_release s _ _ _
  | revealed => exact .of_eq rfl
  | closed h => exact collects_close h
  | pulling => exact .of_eq rfl
  | withdrawing _ _ h =>
      obtain ⟨-, credits, rfl, -⟩ := takeCredit_ok h
      exact .of_eq rfl
  | funding => exact .of_eq rfl
  | configuring => exact .of_eq rfl

lemma resumed_collects {now : ℕ} {reply : Except Failure ℕ} {p : Pending} {pr : Progress}
    (h : Resumed s now reply p s' pr) : Collects s s' := by
  cases h with
  | pullFailed =>
      simp only [State.pullFailed]
      split_ifs <;> exact .of_eq rfl
  | bought =>
      rw [State.bought]
      refine Collects.trans (.of_eq ?_) (collects_commitFlat _ _ _)
      rw [noteHandedOver_taxCollected, addCredit_taxCollected]
      rfl
  | toppedUp => exact collects_commitFlat s.dropInFlight _ _
  | creditedBack => exact .of_eq (addCredit_taxCollected s.dropInFlight _ _)
  | placed _ hp =>
      exact (collects_placeBid (s := s.dropInFlight) hp).trans
        (.of_eq (addCredit_taxCollected _ _ _))
  | bidRefused _ hp =>
      exact (collects_placeBid (s := s.dropInFlight) hp).trans
        (.of_eq (addCredit_taxCollected _ _ _))
  | paid => exact .of_eq rfl
  | payRefused => exact .of_eq (addCredit_taxCollected s _ _)
  | payUnconfirmed => exact .of_eq rfl
  | feeRefused => exact .of_eq rfl
  | feeAgreed => exact .of_eq rfl
  | funded => exact .of_eq rfl
  | fundRefused => exact .of_eq rfl
  | fundCharged => exact .of_eq rfl
  | fundUnconfirmed => exact .of_eq rfl
  | configRefused => exact .of_eq rfl
  | configSettled => exact s.collects_settleAll _ _
  | @configured c fee s₁ _ _ _ hs' =>
      have hsettled : Collects s s₁ := by
        subst hs'
        split_ifs
        · exact s.collects_settleAll _ _
        · exact .of_eq rfl
      exact hsettled.trans (.of_eq rfl)

end State

namespace World

variable {E : Env} {w : World E} {tr : History E}

/-! ## When the treasury covers what is withdrawn -/

/-- The amount a `fund_self` notes as withdrawn when its fee arrives. -/
def noted (r : Except Failure ℕ) : Pending → ℕ
  | .fundSelfFee cfg amount => match r with
      | .ok live => if live = cfg.fee then amount else 0
      | .error _ => 0
  | _ => 0

/-- A `fund_self` that goes on when its fee arrives finds its amount still in the treasury. -/
def stillAvailable (w : World E) : Event → Prop
  | .reply _ id r _ => ∀ p ∈ w.pending.get id,
      noted r p ≤ w.canister.taxCollected - w.canister.taxWithdrawn
  | _ => True

instance (w : World E) : ∀ e, Decidable (stillAvailable w e)
  | .call _ _ => inferInstanceAs (Decidable True)
  | .reply _ id r _ => inferInstanceAs (Decidable (∀ p ∈ w.pending.get id,
      noted r p ≤ w.canister.taxCollected - w.canister.taxWithdrawn))
  | .upgrade _ => inferInstanceAs (Decidable True)

/-- The treasury has collected what it has withdrawn. -/
def Covered (w : World E) : Prop :=
  w.canister.taxWithdrawn ≤ w.canister.taxCollected ∧ w.canister.taxCollected ≤ u128Max

lemma covered_step {w' : World E} {e : Event} {o : Output} (h : Covered w)
    (hav : stillAvailable w e) (hs : Stepped w e w' o) : Covered w' := by
  obtain ⟨hle, hmax⟩ := h
  cases hs with
  | answered _ hc =>
      obtain ⟨hgrow, hmax'⟩ := State.called_collects hc hmax
      exact ⟨(State.called_counters hc).1 ▸ hle.trans hgrow, hmax'⟩
  | suspended _ hc =>
      obtain ⟨hgrow, hmax'⟩ := State.called_collects hc hmax
      exact ⟨(State.called_counters hc).1 ▸ hle.trans hgrow, hmax'⟩
  | @resumed now id r moved p s reply _ _ hr =>
      obtain ⟨hgrow, hmax'⟩ := State.resumed_collects hr hmax
      refine ⟨?_, hmax'⟩
      change s.taxWithdrawn ≤ s.taxCollected
      rw [(State.resumed_counters hr).1]
      exact (Nat.sub_le _ _).trans (hle.trans hgrow)
  | @continued now id moved cfg amount _ hget =>
      have hav := hav _ hget
      simp only [noted, if_true] at hav
      refine ⟨(satAdd_le _ _).trans ?_, hmax⟩
      change w.canister.taxWithdrawn + amount ≤ w.canister.taxCollected
      omega
  | upgraded => exact ⟨hle, hmax⟩

/-- **`fund_self` spends collected tax only**, in every history in which each amount is still
available when its fee arrives, whatever the ledger replies. -/
theorem withdrawn_le_collected (h : Run (machine E) stillAvailable init tr w) :
    w.canister.taxWithdrawn ≤ w.canister.taxCollected :=
  (run_invariant (I := Covered) rfl ⟨le_rfl, Nat.zero_le _⟩
    (fun _ _ _ _ hc hav hs => covered_step hc hav hs) h).1

/-- One `fund_self` on its own spends what was collected. -/
theorem withdrawn_le_collected_once : ∃ w : World Env.reference,
    w.canister.taxWithdrawn ≤ w.canister.taxCollected ∧ w.canister.taxWithdrawn = 60 := by
  obtain ⟨tr, w, hrun, -, hwithdrawn⟩ := Machine.exists_run_of_exec
    (machine Env.reference) stillAvailable init
    (Script.forfeiting ++
      [.call (Script.controller 20) (.fundSelf 60), .reply 20 2 (.ok 1) 0,
        .reply 20 2 (.ok 0) (-60)])
    (fun _ w => w.canister.taxWithdrawn = 60) (by decide +kernel)
  exact ⟨w, withdrawn_le_collected hrun, hwithdrawn⟩

/-- **Two `fund_self` calls spend the same tax.**  A hundred cycles are collected; both calls are
checked against them before either fee arrives, and a hundred and twenty are noted as withdrawn. -/
theorem fund_self_overspends : ∃ (tr : History Env.reference) (w : World Env.reference),
    Run (machine Env.reference) lawful init tr w ∧
      tr.reverse.map Entry.event = Script.forfeiting ++
        [.call (Script.controller 20) (.fundSelf 60), .call (Script.controller 20) (.fundSelf 60),
          .reply 20 2 (.ok 1) 0, .reply 20 3 (.ok 1) 0] ∧
      w.canister.taxCollected = 100 ∧ w.canister.taxWithdrawn = 120 :=
  Machine.exists_run_of_exec _ _ _ _
    (fun _ (w : World Env.reference) => w.canister.taxCollected = 100 ∧ w.canister.taxWithdrawn = 120)
    (by decide +kernel)

end World
