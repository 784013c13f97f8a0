import IcNameService.Canister.Settings
import IcNameService.System.Histories

/-!
# A ledger change strands nothing

Cycles sit at the ledger the config names, so the config may name another only when nothing is held
and nothing is on its way.  `Guarded` is why the in-flight count is enough to know the latter: it
counts the suspended payment methods, and each of them sent its call to the stored ledger.
-/

namespace World

variable {E : Env} {w w' : World E} {tr : History E}

/-- The in-flight count is the number of suspended payment methods, all sent to the stored ledger. -/
structure Guarded (w : World E) : Prop where
  numbered : Numbered w
  counted : w.canister.inFlight = w.pending.total fun _ p => p.guards
  sentTo : Suspended (fun p => ∀ ledger, p.sentTo = some ledger →
    ledger = w.canister.config.ledger) w

lemma guarded_init : Guarded (init (E := E)) where
  numbered := numbered_start _
  counted := rfl
  sentTo := suspended_start _ _

namespace Guarded

/-- With none in flight, no payment method is suspended. -/
lemma none_suspended (h : Guarded w) (hzero : w.canister.inFlight = 0) :
    Suspended (fun p => p.sentTo = none) w := by
  intro id p hget
  have hguards : p.guards = 0 := by
    have := h.counted
    rw [hzero] at this
    exact OrdMap.total_eq_zero.mp this.symm id p hget
  simp only [Pending.guards] at hguards
  split_ifs at hguards with hs
  simpa using hs

/-- A `set_harberger_config` that ends leaves every suspended payment method at its ledger. -/
lemma reconfigured (h : Guarded w) {now : ℕ} {reply : Except Failure ℕ} {c : Config} {s : State E}
    (hr : State.Reconfigured w.canister now reply c s) :
    Suspended (fun p => ∀ ledger, p.sentTo = some ledger → ledger = s.config.ledger) w := by
  cases hr with
  | kept hsame =>
      rw [hsame.config]
      exact h.sentTo
  | @stored fee s₁ _ hheld _ _ =>
      by_cases hledger : c.ledger = w.canister.config.ledger
      · intro id p hget ledger hl
        rw [h.sentTo id p hget ledger hl]
        exact hledger.symm
      · -- the guard saw no call in flight, so there is none to be elsewhere
        have hzero := (State.fundsHeld_ok (hheld hledger)).noneInFlight
        intro id p hget ledger hl
        rw [h.none_suspended hzero id p hget] at hl
        cases hl

end Guarded

/-- **Every message keeps the count.** -/
theorem guarded_step {e : Event} {o : Output} (h : Guarded w) (hs : Stepped w e w' o) :
    Guarded w' := by
  have hnumbered := numbered_step h.numbered hs
  cases hs with
  | answered _ hc =>
      refine ⟨hnumbered, (State.called_inFlight_done hc).trans h.counted, ?_⟩
      change Suspended _ w
      rw [State.called_config hc]
      exact h.sentTo
  | @suspended cx c s p _ hc =>
      obtain ⟨hcount, hledger⟩ := State.called_inFlight_await hc
      refine ⟨hnumbered, ?_, fun id q hget ledger hl => ?_⟩
      · have := OrdMap.total_insert_of_zero (f := fun _ p => p.guards) (m := w.pending)
          (k := w.nextId) p (by rw [h.numbered.fresh]; rfl)
        exact (hcount.trans (by rw [h.counted])).trans this.symm
      · change ledger = s.config.ledger
        rw [State.called_config hc]
        rcases OrdMap.get_insert_eq_some.mp hget with ⟨-, rfl⟩ | ⟨-, hget⟩
        · exact hledger ledger hl
        · exact h.sentTo id q hget ledger hl
  | @resumed now id r moved p s reply _ hget hr =>
      have herase := OrdMap.total_erase_add (f := fun _ p => p.guards) hget
      have hrest : ∀ {Q : Pending → Prop}, Suspended Q w →
          ∀ id' q, (w.pending.erase id).get id' = some q → Q q := by
        intro Q hq id' q hget'
        exact hq id' q (OrdMap.get_erase_eq_some.mp hget').2
      have hcounted := h.counted
      by_cases hp : p.sentTo.isSome
      · obtain ⟨hconfig, hcount⟩ := State.resumed_payment hp hr
        have hguards : p.guards = 1 := if_pos hp
        refine ⟨hnumbered, ?_, ?_⟩
        · change s.inFlight = (w.pending.erase id).total _
          omega
        · have hcfg : s.config = w.canister.config := by
            simp only [State.config]
            rw [hconfig]
          refine fun id' q hget' => ?_
          change ∀ ledger, _ → ledger = s.config.ledger
          rw [hcfg]
          exact hrest h.sentTo id' q hget'
      · have hguards : p.guards = 0 := if_neg hp
        cases p with
        | setHarbergerConfig c =>
            have hre := State.resumed_config hr
            refine ⟨hnumbered, ?_, hrest (h.reconfigured hre)⟩
            have hcount := hre.inFlight
            change s.inFlight = (w.pending.erase id).total _
            omega
        | _ => simp [Pending.sentTo] at hp
  | @continued now id moved cfg amount _ hget =>
      refine ⟨hnumbered, ?_, fun id' q hget' ledger hl => ?_⟩
      · have := w.pending.total_insert (fun _ p => p.guards) id (.fundSelf cfg amount)
        rw [hget] at this
        change w.canister.inFlight = _
        rw [h.counted]
        exact (Nat.add_right_cancel this).symm
      · rcases OrdMap.get_insert_eq_some.mp hget' with ⟨-, rfl⟩ | ⟨-, hget'⟩
        · exact h.sentTo id _ hget ledger hl
        · exact h.sentTo id' q hget' ledger hl
  | upgraded _ hempty =>
      refine ⟨hnumbered, ?_, h.sentTo⟩
      change 0 = w.pending.total _
      rw [hempty]
      rfl

/-- What every history reaches is guarded. -/
theorem run_guarded (h : Run (machine E) anyEvent init tr w) : Guarded w :=
  run_invariant rfl guarded_init (fun _ _ _ _ hg _ hs => guarded_step hg hs) h

/-- A message that changes the ledger found nothing held. -/
lemma nothingHeld_of_ledger_ne {e : Event} {o : Output} (hs : Stepped w e w' o)
    (hne : w'.canister.config.ledger ≠ w.canister.config.ledger) : w.canister.NothingHeld := by
  cases hs with
  | answered _ hc => exact absurd (by rw [← State.called_config hc]) hne
  | suspended _ hc => exact absurd (by rw [← State.called_config hc]) hne
  | @resumed now id r moved p s reply _ hget hr =>
      by_cases hp : p.sentTo.isSome
      · refine absurd ?_ hne
        simp only [State.config, (State.resumed_payment hp hr).1]
      · cases p with
        | setHarbergerConfig c =>
            cases State.resumed_config hr with
            | kept hsame => exact absurd (by rw [← hsame.config]) hne
            | stored _ hheld _ _ => exact State.fundsHeld_ok (hheld hne)
        | _ => simp [Pending.sentTo] at hp
  | continued => exact absurd rfl hne
  | upgraded => exact absurd rfl hne

/-- **Funds are never stranded by a ledger change.**  A message that changes the stored ledger finds
nothing held and no payment under way, so a suspended payment method was sent to the stored ledger at
every moment from its call to the message that resumes it. -/
theorem ledger_change_strands_nothing (h : Run (machine E) anyEvent init tr w) :
    (∀ id p ledger, w.pending.get id = some p → p.sentTo = some ledger →
      w.canister.config.ledger = ledger) ∧
    (∀ e w' o, w.step e = some (w', o) →
      w'.canister.config.ledger ≠ w.canister.config.ledger →
        w.canister.NothingHeld ∧ ∀ id p, w.pending.get id = some p → p.sentTo = none) ∧
    (∀ now id r moved w' o p ledger, w.step (.reply now id r moved) = some (w', o) →
      w.pending.get id = some p → p.sentTo = some ledger → w'.canister.config.ledger = ledger) := by
  have hg := run_guarded h
  have hstepped : ∀ {e w' o}, w.step e = some (w', o) → Stepped w e w' o :=
    fun hstep => stepped_of_step (run_schema rfl h) hstep
  have hsent : ∀ id p ledger, w.pending.get id = some p → p.sentTo = some ledger →
      w.canister.config.ledger = ledger := fun id p ledger hget hl =>
    (hg.sentTo id p hget ledger hl).symm
  have hheld : ∀ e w' o, w.step e = some (w', o) →
      w'.canister.config.ledger ≠ w.canister.config.ledger →
        w.canister.NothingHeld ∧ ∀ id p, w.pending.get id = some p → p.sentTo = none := by
    intro e w' o hstep hne
    have hnothing := nothingHeld_of_ledger_ne (hstepped hstep) hne
    exact ⟨hnothing, hg.none_suspended hnothing.noneInFlight⟩
  refine ⟨hsent, hheld, fun now id r moved w' o p ledger hstep hget hl => ?_⟩
  by_contra hne
  -- were the ledger another one now, this very call would have been seen in flight
  rw [← hsent id p ledger hget hl] at hne
  have := (hheld _ _ _ hstep hne).2 id p hget
  rw [this] at hl
  cases hl

/-- A controller names another ledger before anything is held. -/
theorem ledger_change_strands_nothing_early : ∃ (w w' : World Env.reference) (o : Output),
    w.step (.reply 1 1 (.ok 1) 0) = some (w', o) ∧
      w'.canister.config.ledger ≠ w.canister.config.ledger ∧ w.canister.NothingHeld := by
  obtain ⟨tr, w, hrun, -, hp⟩ := Machine.exists_run_of_exec
    (machine Env.reference) anyEvent init
    (Script.opening ++
      [.call (Script.controller 1) (.setHarbergerConfig { Script.market with ledger := ⟨[7]⟩ })])
    (fun _ (w : World Env.reference) => (w.step (.reply 1 1 (.ok 1) 0)).any (fun r =>
      decide (r.1.canister.config.ledger ≠ w.canister.config.ledger)) = true)
    (by decide +kernel)
  obtain ⟨⟨w', o⟩, hstep, hne⟩ := (Option.any_eq_true _ _).mp hp
  have hne := of_decide_eq_true hne
  exact ⟨w, w', o, hstep, hne, ((ledger_change_strands_nothing hrun).2.1 _ _ _ hstep hne).1⟩

end World
