import IcNameService.Market.Vacant
import IcNameService.System.Histories

/-!
# Nobody holds a name under auction

A free name goes to auction, and the lapse clock that made it free is read with the config of the
moment.  A config that changes under a running auction, or under a payment that resumes with an older
one, may wind the clock back.  `steady` says of a step when it does not.

* `World.steady_of_unchanged` — payments that carry the stored config, and a grace period that does not
  grow, are steady.
* `World.under_auction_held_by_nobody` — **in every history of steady steps nobody holds a name under
  auction**, no close voids a win, and closing is as the views show.
* `World.regraced_auction_has_holder` — a history without the condition.
-/

namespace World

variable {E : Env} {lapse : ℕ → Harberger → ℕ → Option ℕ} {w w' : World E} {tr : History E}

/-! ## The condition -/

/-- What the reply to a suspended call must find: a config that is stored leaves names under auction free,
and a payment that goes on is dated. -/
def steadyReply (w : World E) (now : ℕ) (r : Except Failure ℕ) : Pending → Prop
  | .setHarbergerConfig c => w.canister.stores c r = true → w.canister.LeavesFree now c
  | .buy c => r.isOk = true → w.canister.Dated now (.buy c)
  | .deposit c => r.isOk = true → w.canister.Dated now (.deposit c)
  | .bid c => r.isOk = true → w.canister.Dated now (.bid c)
  | _ => True

/-- The clocks in use are left alone. -/
def steady (w : World E) : Event → Prop
  | .reply now id r _ => ∀ p ∈ w.pending.get id, steadyReply w now r p
  | _ => True

instance (s : State E) (now : ℕ) (c : Config) : Decidable (s.LeavesFree now c) := by
  simp only [State.LeavesFree]
  infer_instance

instance (s : State E) (now : ℕ) : ∀ p, Decidable (s.Dated now p)
  | .buy c =>
      inferInstanceAs (Decidable (s.StillSees now (.buy c) → s.auctions.get c.name = none))
  | .deposit c =>
      inferInstanceAs (Decidable (s.StillSees now (.deposit c) → s.auctions.get c.name = none))
  | .bid c => by
      simp only [State.Dated]
      infer_instance
  | .withdraw _ _ _ | .fundSelfFee _ _ | .fundSelf _ _ | .setHarbergerConfig _ =>
      inferInstanceAs (Decidable True)

instance (w : World E) (now : ℕ) (r : Except Failure ℕ) : ∀ p, Decidable (steadyReply w now r p)
  | .setHarbergerConfig c =>
      inferInstanceAs (Decidable (w.canister.stores c r = true → w.canister.LeavesFree now c))
  | .buy c => inferInstanceAs (Decidable (r.isOk = true → w.canister.Dated now (.buy c)))
  | .deposit c => inferInstanceAs (Decidable (r.isOk = true → w.canister.Dated now (.deposit c)))
  | .bid c => inferInstanceAs (Decidable (r.isOk = true → w.canister.Dated now (.bid c)))
  | .withdraw _ _ _ | .fundSelfFee _ _ | .fundSelf _ _ => inferInstanceAs (Decidable True)

instance (w : World E) : ∀ e, Decidable (steady w e)
  | .call _ _ => inferInstanceAs (Decidable True)
  | .reply now id r _ =>
      inferInstanceAs (Decidable (∀ p ∈ w.pending.get id, steadyReply w now r p))
  | .upgrade _ => inferInstanceAs (Decidable True)

/-! ## Closing -/

/-- The auction that a message closes if it has ended, and the config it is closed with: the stored one
for a `close_auction`, the one it carries for a bid whose pull is done. -/
def closing (w : World E) : Event → Option (String × Config × ℕ)
  | .call cx (.closeAuction name) => some (name, w.canister.config, cx.now)
  | .reply now id (.ok _) _ =>
      match w.pending.get id with
      | some (.bid c) => some (c.name, c.cfg, now)
      | _ => none
  | _ => none

/-- What a message closes. -/
inductive Closing (w : World E) : Event → String → Config → ℕ → Prop
  | asked {cx : Ctx} {name : String} :
      Closing w (.call cx (.closeAuction name)) name w.canister.config cx.now
  | first {now id block : ℕ} {moved : ℤ} {c : BidCall} :
      w.pending.get id = some (.bid c) →
      Closing w (.reply now id (.ok block) moved) c.name c.cfg now

lemma closing_cases {e : Event} {name : String} {cfg : Config} {now : ℕ}
    (h : closing w e = some (name, cfg, now)) : Closing w e name cfg now := by
  unfold closing at h
  split at h
  · cases h
    exact .asked
  · split at h
    · rename_i c hget
      cases h
      exact .first hget
    · cases h
  · cases h

/-! ## The invariant -/

/-- Names under auction are vacant. -/
structure Unheld (lapse : ℕ → Harberger → ℕ → Option ℕ) (w : World E) : Prop where
  shape : w.canister.Shape
  carried : Suspended State.Carried w
  vacant : State.Vacant lapse w.canister.config w.now w.canister

lemma unheld_init : Unheld lapse (init (E := E)) where
  shape := shape_init
  carried := suspended_start _ _
  vacant name r old h := by cases h

section

variable (hL : E.auction.LapseLaws lapse)

include hL

/-- The end of a `set_harberger_config`. -/
lemma vacant_reconfigured (h : Unheld lapse w) {now : ℕ} {r : Except Failure ℕ} {c : Config}
    {s : State E} {pr : Progress} (hnow : w.now ≤ now)
    (hok : steadyReply w now r (.setHarbergerConfig c))
    (hr : State.Resumed w.canister now r (.setHarbergerConfig c) s pr) :
    State.Vacant lapse s.config now s := by
  have hvacant := h.vacant.mono hL hnow
  have hn := h.shape.named
  cases hr with
  | configRefused => exact hvacant
  | configSettled =>
      rw [(w.canister.sameSettings_settleAll w.canister.config now).config]
      intro name a old hauc hrec
      rw [State.settleAll_auctions] at hauc
      rw [hn.settleAll_get, Option.map_eq_some_iff] at hrec
      obtain ⟨stored, hget, rfl⟩ := hrec
      exact (hvacant name a stored hauc hget).settled hL le_rfl _ rfl
  | @configured c fee s₁ hreply hheld hcheck hs' =>
      subst hreply
      exact State.reconfigured_vacant hL h.shape hvacant
        (hok (State.stores_of_configured hheld hcheck)) (.configured rfl hheld hcheck hs')
  | pullFailed hp => cases hp
  | creditedBack _ hp => cases hp

/-- **Every message leaves names under auction vacant**, as long as steps are steady. -/
theorem unheld_step {e : Event} {o : Output} (h : Unheld lapse w) (hok : steady w e)
    (hs : Stepped w e w' o) : Unheld lapse w' := by
  have hcarried := suspended_carried_step h.carried hs
  cases hs with
  | @answered cx c s r hnow hc =>
      refine ⟨State.called_shape h.shape hc, hcarried, ?_⟩
      change State.Vacant lapse s.config cx.now s
      rw [State.called_config hc]
      exact State.called_vacant hL h.shape (h.vacant.mono hL hnow) hc
  | @suspended cx c s p hnow hc =>
      refine ⟨State.called_shape h.shape hc, hcarried, ?_⟩
      change State.Vacant lapse s.config cx.now s
      rw [State.called_config hc]
      exact State.called_vacant hL h.shape (h.vacant.mono hL hnow) hc
  | @resumed now id r moved p s reply hnow hget hr =>
      refine ⟨State.resumed_shape h.shape (h.carried id p hget) hr, hcarried, ?_⟩
      have hp := hok p hget
      by_cases hpays : p.sentTo.isSome
      · have hcfg : s.config = w.canister.config := by
          simp only [State.config]
          rw [(State.resumed_payment hpays hr).1]
        have hdated : r.isOk = true → w.canister.Dated now p := by
          cases p with
          | buy c => exact hp
          | deposit c => exact hp
          | bid c => exact hp
          | _ => exact fun _ => trivial
        change State.Vacant lapse s.config now s
        rw [hcfg]
        refine State.resumed_vacant hL h.shape hdated (h.vacant.mono hL hnow) ?_ hr
        rintro c rfl
        cases hpays
      · cases p with
        | setHarbergerConfig c => exact vacant_reconfigured hL h hnow hp hr
        | _ => simp [Pending.sentTo] at hpays
  | continued hnow =>
      exact ⟨h.shape.congr rfl rfl, hcarried, (h.vacant.mono hL hnow).congr rfl rfl⟩
  | upgraded hnow =>
      exact ⟨h.shape.congr rfl rfl, hcarried, (h.vacant.mono hL hnow).congr rfl rfl⟩

/-- What a steady history reaches has its auctions on vacant names. -/
theorem run_unheld (h : Run (machine E) steady init tr w) : Unheld lapse w :=
  run_invariant rfl unheld_init (fun _ _ _ _ hu hok hs => unheld_step hL hu hok hs) h

/-- A close by the stored config finds the name free. -/
lemma Unheld.free_at_close (h : Unheld lapse w) {name : String} {r : Running E} {now : ℕ}
    (hget : w.canister.auctions.get name = some r) (hnow : w.now ≤ now) :
    (w.canister.lapsedRecord w.canister.config name now).2 = true :=
  (h.vacant.mono hL hnow).lapsedRecord_free hL hget

/-! ## A simpler condition -/

/-- The config stays as payments saw it, and the grace period does not grow. -/
def unchanged (w : World E) : Event → Prop
  | .reply _ id _ _ => ∀ p ∈ w.pending.get id,
      (∀ cfg ∈ p.carriedConfig, cfg = w.canister.config) ∧
        ∀ c, p = .setHarbergerConfig c → c.graceNs ≤ w.canister.config.graceNs
  | _ => True

lemma Unheld.steadyReply (h : Unheld lapse w) {now : ℕ} (hnow : w.now ≤ now) {r : Except Failure ℕ}
    {p : Pending} (hsame : ∀ cfg ∈ p.carriedConfig, cfg = w.canister.config)
    (hgrace : ∀ c, p = .setHarbergerConfig c → c.graceNs ≤ w.canister.config.graceNs) :
    steadyReply w now r p := by
  have hdated := (h.vacant.mono hL hnow).dated hL hsame
  cases p with
  | buy c => exact fun _ => hdated
  | deposit c => exact fun _ => hdated
  | bid c => exact fun _ => hdated
  | setHarbergerConfig c =>
      exact fun _ hraised => absurd hraised (not_lt.mpr (hgrace c rfl))
  | _ => trivial

/-- **Payments that carry the stored config, and a grace period that does not grow, are steady.** -/
theorem steady_of_unchanged (h : Run (machine E) unchanged init tr w) :
    Run (machine E) steady init tr w := by
  induction h with
  | nil => exact .nil
  | @snoc tr w w' e o _ hok hs ih =>
      refine ih.snoc ?_ hs
      cases stepped_of_step (run_schema rfl ih) hs with
      | resumed hnow hget =>
          intro p hp
          exact (run_unheld hL ih).steadyReply hL hnow (hok p hp).1 (hok p hp).2
      | continued hnow hget =>
          intro p hp
          exact (run_unheld hL ih).steadyReply hL hnow (hok p hp).1 (hok p hp).2
      | answered => trivial
      | suspended => trivial
      | upgraded => trivial

/-! ## The history of a steady world -/

/-- A message that closes an auction with a winner finds the name free. -/
lemma Unheld.free_when_won (h : Unheld lapse w) {e : Event} {o : Output} (hok : steady w e)
    (hs : Stepped w e w' o) {name : String} {cfg : Config} {now : ℕ} {r : Running E}
    {outcome : Outcome} (hclosing : closing w e = some (name, cfg, now))
    (hget : w.canister.auctions.get name = some r)
    (hended : E.auction.outcome r.auction now = .ok outcome) (hwon : outcome.winner.isSome = true) :
    (w.canister.lapsedRecord cfg name now).2 = true := by
  cases closing_cases hclosing with
  | asked =>
      refine h.free_at_close hL hget ?_
      cases hs with
      | answered hnow => exact hnow
      | suspended hnow => exact hnow
  | first hpending =>
      exact (hok _ hpending rfl).2 r hget outcome (by rw [hended]; rfl) hwon

/-- **A name under auction is held by nobody**, in every history of steady steps: not now and not later.
So no message of the history voids a win, and the winner and price that `auction_status` shows once an
auction has ended are the ones `close_auction` returns. -/
theorem under_auction_held_by_nobody (hV : E.auction.VickreyLaws)
    (h : Run (machine E) steady init tr w) :
    (∀ name r now, w.canister.auctions.get name = some r → w.now ≤ now →
      w.canister.holder w.canister.config name now = none) ∧
    (∀ name r now, w.canister.auctions.get name = some r → w.now ≤ now →
      (w.canister.lapsedRecord w.canister.config name now).2 = true) ∧
    (∀ e ∈ tr, ∀ name cfg now r outcome, closing e.pre e.event = some (name, cfg, now) →
      e.pre.canister.auctions.get name = some r →
        E.auction.outcome r.auction now = .ok outcome → outcome.winner.isSome = true →
          (e.pre.canister.lapsedRecord cfg name now).2 = true) ∧
    (∀ name v now now' s c, w.canister.auctionStatus name now = some v → v.phase = .closed →
      w.now ≤ now → now ≤ now' →
        w.canister.close w.canister.config name now' = (s, .ok c) →
          v.winner = c.winner ∧ v.price = c.winner.map fun _ => c.price) := by
  have hu := run_unheld hL h
  refine ⟨fun name r now hget hnow => ?_, fun name r now hget hnow => hu.free_at_close hL hget hnow,
    fun e he name cfg now r outcome hclosing hget hended hwon => ?_,
    fun name v now now' s c hv hclosed hnow hnow' hclose => ?_⟩
  · exact (State.holder_eq_none hL).mpr fun old hold =>
      (hu.vacant.mono hL hnow) name r old hget hold
  · obtain ⟨newer, older, htr⟩ := List.append_of_mem he
    obtain ⟨hr, hok, hs, -⟩ := run_entry rfl h htr
    exact (run_unheld hL hr).free_when_won hL hok hs hclosing hget hended hwon
  · obtain ⟨r, outcome, holding, hc⟩ := State.close_ok hclose
    have hfree := hu.free_at_close hL hc.stored (hnow.trans hnow')
    simp only [State.auctionStatus, State.getAuction] at hv
    rw [hc.stored] at hv
    cases hv
    -- the outcome shown is the outcome closed over: an ended auction keeps its outcome
    obtain ⟨shown, hshown⟩ := (hV.outcome_isOk r.auction now).mpr hclosed
    have hsame : shown = outcome := by
      have := hV.outcome_stable _ _ _ _ hshown hnow'
      rw [hc.ended] at this
      cases this
      rfl
    subst hsame
    have hclosed' := hc.closed_eq
    have hwinner : State.winnerIf shown true = shown.winner := by
      simp only [State.winnerIf]
      cases shown.winner <;> rfl
    simp only [hfree, hwinner] at hclosed'
    rw [hclosed']
    simp only [State.view, hshown, Except.toOption, Option.bind_some]
    refine ⟨trivial, ?_⟩
    cases hw : shown.winner with
    | none => simp [Option.filter, hw]
    | some x => simp [Option.filter, hw]

end

/-- A lapsed name goes to auction, and the grace period shrinks meanwhile: it stays free. -/
theorem under_auction_held_by_nobody_lapsed : ∃ w : World Env.reference,
    w.canister.auctions.contains "abc" = true ∧ w.canister.records.contains "abc" = true ∧
      w.canister.holder w.canister.config "abc" w.now = none := by
  obtain ⟨tr, w, hrun, -, hauction, hrecord⟩ := Machine.exists_run_of_exec
    (machine Env.reference) steady init
    (Script.reauctioned ++
      [.call (Script.controller 47) (.setHarbergerConfig { Script.market with graceNs := 5 }),
        .reply 47 3 (.ok 1) 0])
    (fun _ (w : World Env.reference) => w.canister.auctions.contains "abc" = true ∧
      w.canister.records.contains "abc" = true) (by decide +kernel)
  obtain ⟨r, hr⟩ := Option.isSome_iff_exists.mp hauction
  exact ⟨w, hauction, hrecord, (under_auction_held_by_nobody Reference.auction_lapseLaws
    Reference.auction_vickreyLaws hrun).1 "abc" r w.now hr le_rfl⟩

/-- **A longer grace period gives a name under auction its holder back.**  The name lapsed and was put
to auction; the config that is stored next has the lapsed holder in grace again. -/
theorem regraced_auction_has_holder : ∃ (tr : History Env.reference) (w : World Env.reference),
    Run (machine Env.reference) lawful init tr w ∧
      tr.reverse.map Entry.event = Script.reauctioned ++
        [.call (Script.controller 47) (.setHarbergerConfig { Script.market with graceNs := 1000 }),
          .reply 47 3 (.ok 1) 0] ∧
      w.canister.auctions.contains "abc" = true ∧
      w.canister.holder w.canister.config "abc" w.now = some ⟨[2]⟩ :=
  Machine.exists_run_of_exec _ _ _ _
    (fun _ (w : World Env.reference) => w.canister.auctions.contains "abc" = true ∧
      w.canister.holder w.canister.config "abc" w.now = some ⟨[2]⟩)
    (by decide +kernel)

end World
