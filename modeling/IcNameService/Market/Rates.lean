import IcNameService.Market.Settlements
import IcNameService.System.Histories

/-!
# The rate in force

Tax is settled lazily: a record carries the moment it was settled to, and whoever touches it next
settles the stretch since then at one rate, the one of the config they settle by.  `World.TaxedInForce` says
of a message that for every record it settles, this is the rate that was in force all along the stretch.

* `Record.UnderRate` — the stretch still open on a record lies where a rate is in force.
* `State.Current` — what the reply to a suspended call must find: a payment over an open stretch carries the
  stored rate, and a new rate is stored over no open stretch.
* `World.rateAt` — the rate in force, read off a history.
* `World.stretches_taxed_in_force` — every stretch of a history of current replies is taxed at the rate in
  force along it.
* `World.stale_buy_taxes_at_old_rate` — a history where a payment carries another rate.
-/

/-- The stretch still open on the record, up to `now`, lies where `rate` is in force. -/
def Record.UnderRate (inForce : ℕ → ℕ) (rate now : ℕ) (r : Record) : Prop :=
  ∀ h, r.flat = some h → h.settledNs ≤ now ∧ ∀ t, h.settledNs ≤ t → t < now → inForce t = rate

/-- The record has no open stretch. -/
def Record.SettledAt (now : ℕ) (r : Record) : Prop := ∀ h, r.flat = some h → h.settledNs = now

lemma Record.SettledAt.underRate {inForce : ℕ → ℕ} {rate now : ℕ} {r : Record} (h : r.SettledAt now) :
    r.UnderRate inForce rate now := by
  intro x hx
  rw [h x hx]
  exact ⟨le_rfl, fun t ht ht' => absurd ht' (not_lt.mpr ht)⟩

namespace State

variable {E : Env} {s s' : State E} {now : ℕ}

/-! ## The condition -/

/-- A record is stored under `name` whose stretch up to `now` is still open. -/
def OpenStretch (s : State E) (name : String) (now : ℕ) : Prop :=
  ∃ r ∈ s.records.get name, ∃ h ∈ r.flat, h.settledNs < now

/-- A payment whose pull is done would settle an open stretch now: a purchase, because the name still
settles to what the call saw; a bid, because the name has an auction that has ended and hands it over. -/
def Resettles (s : State E) (now : ℕ) : Pending → Prop
  | .buy c => s.OpenStretch c.name now ∧ s.StillSees now (.buy c)
  | .deposit c => s.OpenStretch c.name now ∧ s.StillSees now (.deposit c)
  | .bid c => s.OpenStretch c.name now ∧ s.Awards c.cfg c.name now
  | _ => False

/-- Settling every name by the stored config leaves no part of a stretch for later. -/
def SettlesFully (s : State E) (now : ℕ) : Prop :=
  ∀ e ∈ s.records.entries, ∀ h ∈ e.2.flat,
    (E.auction.settle s.config.params h now).1.settledNs = now

/-- What the reply to a suspended call must find: a payment settles an open stretch at the stored rate, and
a config with another rate is stored only when every stretch is settled to its end. -/
def Current (s : State E) (now : ℕ) (reply : Except Failure ℕ) : Pending → Prop
  | .setHarbergerConfig c => s.stores c reply = true → c.rateBps ≠ s.config.rateBps → s.SettlesFully now
  | p => reply.isOk = true → s.Resettles now p → (p.settlesBy s.config).rateBps = s.config.rateBps

instance (s : State E) (name : String) (now : ℕ) : Decidable (s.OpenStretch name now) := by
  simp only [OpenStretch]
  infer_instance

instance (s : State E) (cfg : Config) (name : String) (now : ℕ) :
    Decidable (s.Awards cfg name now) := by
  simp only [Awards]
  infer_instance

instance (s : State E) (now : ℕ) : Decidable (s.SettlesFully now) := by
  simp only [SettlesFully]
  infer_instance

instance (s : State E) (now : ℕ) : ∀ p, Decidable (s.Resettles now p)
  | .buy c => inferInstanceAs (Decidable (s.OpenStretch c.name now ∧ s.StillSees now (.buy c)))
  | .deposit c =>
      inferInstanceAs (Decidable (s.OpenStretch c.name now ∧ s.StillSees now (.deposit c)))
  | .bid c => inferInstanceAs (Decidable (s.OpenStretch c.name now ∧ s.Awards c.cfg c.name now))
  | .withdraw _ _ _ | .fundSelfFee _ _ | .fundSelf _ _ | .setHarbergerConfig _ =>
      inferInstanceAs (Decidable False)

instance (s : State E) (now : ℕ) (reply : Except Failure ℕ) : ∀ p, Decidable (s.Current now reply p)
  | .setHarbergerConfig c => inferInstanceAs (Decidable
      (s.stores c reply = true → c.rateBps ≠ s.config.rateBps → s.SettlesFully now))
  | .buy c => inferInstanceAs (Decidable (reply.isOk = true → s.Resettles now (.buy c) →
      ((Pending.buy c).settlesBy s.config).rateBps = s.config.rateBps))
  | .deposit c => inferInstanceAs (Decidable (reply.isOk = true → s.Resettles now (.deposit c) →
      ((Pending.deposit c).settlesBy s.config).rateBps = s.config.rateBps))
  | .bid c => inferInstanceAs (Decidable (reply.isOk = true → s.Resettles now (.bid c) →
      ((Pending.bid c).settlesBy s.config).rateBps = s.config.rateBps))
  | .withdraw _ _ _ | .fundSelfFee _ _ | .fundSelf _ _ =>
      inferInstanceAs (Decidable (reply.isOk = true → False → s.config.rateBps = s.config.rateBps))

/-! ## The rate of a settlement -/

/-- What a current reply lets a call settle, it settles at the stored rate. -/
lemma Current.rate {reply : Except Failure ℕ} {p : Pending} {name : String}
    (h : s.Current now reply p) (hlets : s.Lets now reply name p) (hopen : s.OpenStretch name now) :
    (p.settlesBy s.config).rateBps = s.config.rateBps := by
  cases p with
  | buy c =>
      obtain ⟨hok, rfl, hsees⟩ := hlets
      exact h hok ⟨hopen, hsees⟩
  | deposit c =>
      obtain ⟨hok, rfl, hsees⟩ := hlets
      exact h hok ⟨hopen, hsees⟩
  | bid c =>
      obtain ⟨hok, rfl, hawards⟩ := hlets
      exact h hok ⟨hopen, hawards⟩
  | _ => rfl

/-- Settling every name leaves no stretch open, where it leaves no part of one for later. -/
lemma SettlesFully.settledAt (h : s.SettlesFully now) (hn : s.Named) {name : String} {r : Record}
    (hget : (s.settleAll s.config now).1.records.get name = some r) : r.SettledAt now := by
  rw [hn.settleAll_get, Option.map_eq_some_iff] at hget
  obtain ⟨old, hold, rfl⟩ := hget
  intro x hx
  cases hflat : old.flat with
  | none =>
      rw [settleRecord_none _ now hflat, hflat] at hx
      cases hx
  | some y =>
      rw [settleRecord_flat _ now hflat] at hx
      cases hx
      exact h _ (OrdMap.mem_entries.mpr hold) y hflat

/-- **A rate changes only with every stretch closed.** -/
lemma resumed_rate (hn : s.Named) {reply : Except Failure ℕ} {p : Pending} {pr : Progress}
    (h : s.Current now reply p) (hr : Resumed s now reply p s' pr) :
    s'.config.rateBps = s.config.rateBps ∨
      ∀ name r, s'.records.get name = some r → r.SettledAt now := by
  cases p with
  | setHarbergerConfig c =>
      cases resumed_config hr with
      | kept hsame => exact Or.inl (by rw [hsame.config])
      | @stored fee s₁ hreply hheld hcheck hs₁ =>
          by_cases hrate : c.rateBps = s.config.rateBps
          · exact Or.inl hrate
          · subst hreply
            have hfully := h (stores_of_configured hheld hcheck) hrate
            rw [if_pos hrate] at hs₁
            subst hs₁
            exact Or.inr fun name r hget => hfully.settledAt hn hget
  | _ =>
      refine Or.inl ?_
      cases pr with
      | done r =>
          simp only [State.config]
          rw [(resumed_payment rfl hr).1]
      | await q => cases hr <;> rfl

end State

namespace World

variable {E : Env} {w w' : World E} {tr : History E}

/-! ## The rate in force -/

/-- The rate in force at a time: the one stored after the newest message up to then. -/
def rateAt : History E → ℕ → ℕ
  | [], _ => (State.init (E := E)).config.rateBps
  | e :: older, t => if e.post.now ≤ t then e.post.canister.config.rateBps else rateAt older t

/-- The call that a message resumes. -/
def resumes (w : World E) : Event → Option Pending
  | .reply _ id _ _ => w.pending.get id
  | _ => none

/-- The config a message settles records by. -/
def settlesBy (w : World E) (e : Event) : Config :=
  ((resumes w e).map fun p => p.settlesBy w.canister.config).getD w.canister.config

/-- What a message adds to a balance. -/
def adds (w : World E) (e : Event) : ℕ := ((resumes w e).map Pending.adds).getD 0

/-- **What a message settles, it settles at the rate in force**: a record with a tax state is as it was, or
its settlement is committed, at the rate that was in force since it was settled last. -/
def TaxedInForce (inForce : ℕ → ℕ) (e : Entry (World E) Event Output) : Prop :=
  ∀ name old h, e.pre.canister.records.get name = some old → old.flat = some h →
    e.post.canister.records.get name = some old ∨
      (State.Settled e.pre.canister e.post.canister (settlesBy e.pre e.event) (adds e.pre e.event) name
          e.post.now old h ∧
        ∀ t, h.settledNs ≤ t → t < e.post.now → inForce t = (settlesBy e.pre e.event).rateBps)

/-- Replies are current. -/
def ratesCurrent (w : World E) : Event → Prop
  | .reply now id r _ => ∀ p ∈ w.pending.get id, w.canister.Current now r p
  | _ => True

instance (w : World E) : ∀ e, Decidable (ratesCurrent w e)
  | .call _ _ => inferInstanceAs (Decidable True)
  | .reply now id r _ =>
      inferInstanceAs (Decidable (∀ p ∈ w.pending.get id, w.canister.Current now r p))
  | .upgrade _ => inferInstanceAs (Decidable True)

/-! ## One message -/

/-- **A message settles the name it touches by the config it settles by**, and over an open stretch this has
the stored rate, if the reply is current. -/
lemma stepped_touches (hs : w.canister.Shape) {e : Event} {o : Output}
    (hstep : Stepped w e w' o) (name : String) :
    w'.canister.records.get name = w.canister.records.get name ∨
      ((ratesCurrent w e → w.canister.OpenStretch name w'.now →
          (settlesBy w e).rateBps = w.canister.config.rateBps) ∧
        State.Touches w.canister w'.canister (settlesBy w e) (adds w e) name w'.now) := by
  cases hstep with
  | answered _ hc => exact Or.inr ⟨fun _ _ => rfl, State.called_touches hs hc⟩
  | suspended _ hc => exact Or.inr ⟨fun _ _ => rfl, State.called_touches hs hc⟩
  | @resumed now id r moved p s reply _ hget hr =>
      rcases @State.resumed_touches _ _ _ _ name hs.named _ _ _ hr with
        hsame | ⟨hlets, htouches⟩
      · exact Or.inl hsame
      · refine Or.inr ⟨fun hok hopen => ?_, ?_⟩
        · simp only [settlesBy, resumes, hget]
          exact (hok p hget).rate hlets hopen
        · simp only [settlesBy, adds, resumes, hget]
          exact htouches
  | continued => exact Or.inl rfl
  | upgraded => exact Or.inl rfl

/-! ## The run -/

/-- Every stretch so far was taxed at the rate in force along it, the open ones lie where the stored rate is
in force, and it is in force from now on. -/
structure InForce (tr : History E) (w : World E) : Prop where
  past : ∀ e ∈ tr, e.post.now ≤ w.now ∧ TaxedInForce (rateAt tr) e
  still : ∀ name r, w.canister.records.get name = some r →
    r.UnderRate (rateAt tr) w.canister.config.rateBps w.now
  stored : ∀ t, w.now ≤ t → rateAt tr t = w.canister.config.rateBps

lemma inForce_init : InForce [] (init (E := E)) where
  past e he := by cases he
  still name r h := by cases h
  stored _ _ := rfl

/-- Time goes by. -/
lemma InForce.at (h : InForce tr w) {now : ℕ} (hnow : w.now ≤ now) {name : String} {r : Record}
    (hget : w.canister.records.get name = some r) :
    r.UnderRate (rateAt tr) w.canister.config.rateBps now := by
  intro x hx
  obtain ⟨hle, hforce⟩ := h.still name r hget x hx
  refine ⟨hle.trans hnow, fun t ht _ => ?_⟩
  rcases lt_or_ge t w.now with hlt | hge
  · exact hforce t ht hlt
  · exact h.stored t hge

/-- A message changes no rate in force before it. -/
lemma rateAt_before {e : Entry (World E) Event Output} {t : ℕ} (ht : t < e.post.now) :
    rateAt (e :: tr) t = rateAt tr t := by
  rw [rateAt, if_neg (not_le.mpr ht)]

lemma TaxedInForce.older {e e' : Entry (World E) Event Output} (h : TaxedInForce (rateAt tr) e)
    (hle : e.post.now ≤ e'.post.now) : TaxedInForce (rateAt (e' :: tr)) e := by
  intro name old x hget hx
  rcases h name old x hget hx with hsame | ⟨hsettled, hforce⟩
  · exact Or.inl hsame
  · refine Or.inr ⟨hsettled, fun t ht ht' => ?_⟩
    rw [rateAt_before (ht'.trans_le hle)]
    exact hforce t ht ht'

section

variable (hX : E.auction.TaxLaws) (hT : E.auction.ClockLaws)

/-- What a message settles, it settles at the rate in force. -/
lemma InForce.settles (h : InForce tr w) (hs : w.canister.Shape) {e : Event} {o : Output}
    (hok : ratesCurrent w e) (hstep : Stepped w e w' o) :
    TaxedInForce (rateAt (⟨w, e, o, w'⟩ :: tr)) ⟨w, e, o, w'⟩ := by
  intro name old x hget hx
  have hopen := h.at (stepped_now hstep) hget x hx
  rcases stepped_touches hs hstep name with hsame | ⟨hrate, htouches⟩
  · exact Or.inl (hsame.trans hget)
  · rcases htouches.settles hget hx with hsame | hsettled
    · exact Or.inl hsame
    · refine Or.inr ⟨hsettled, fun t ht ht' => ?_⟩
      rw [rateAt_before ht', hopen.2 t ht ht']
      exact (hrate hok ⟨old, hget, x, hx, ht.trans_lt ht'⟩).symm

include hX hT in
/-- What is left open lies where the stored rate was in force, before the message as after. -/
lemma InForce.leaves (h : InForce tr w) (hs : w.canister.Shape) {e : Event} {o : Output}
    (hstep : Stepped w e w' o) {name : String} {r : Record}
    (hget : w'.canister.records.get name = some r) :
    r.UnderRate (rateAt tr) w.canister.config.rateBps w'.now := by
  have hnow := stepped_now hstep
  rcases stepped_touches hs hstep name with hsame | ⟨-, htouches⟩
  · exact h.at hnow (hsame ▸ hget)
  · intro x hx
    rcases htouches.clock hX hT hget hx (fun old y hold hy => (h.at hnow hold y hy).1) with
      heq | ⟨old, y, hold, hy, hle, hle'⟩
    · exact ⟨heq.le, fun t ht ht' => absurd (heq ▸ ht) (not_le.mpr ht')⟩
    · exact ⟨hle', fun t ht ht' => (h.at hnow hold y hy).2 t (hle.trans ht) ht'⟩

include hX hT

/-- **Every message keeps every stretch at the rate in force along it**, if replies are current. -/
theorem inForce_step {e : Event} {o : Output} (h : InForce tr w) (hs : w.canister.Shape)
    (hok : ratesCurrent w e) (hstep : Stepped w e w' o) : InForce (⟨w, e, o, w'⟩ :: tr) w' := by
  have hnow := stepped_now hstep
  have hrate : w'.canister.config.rateBps = w.canister.config.rateBps ∨
      ∀ name r, w'.canister.records.get name = some r → r.SettledAt w'.now := by
    cases hstep with
    | answered _ hc => exact Or.inl (by rw [State.called_config hc])
    | suspended _ hc => exact Or.inl (by rw [State.called_config hc])
    | resumed _ hget hr => exact State.resumed_rate hs.named (hok _ hget) hr
    | continued => exact Or.inl rfl
    | upgraded => exact Or.inl rfl
  refine ⟨fun e' he' => ?_, fun name r hget => ?_, fun t ht => by rw [rateAt, if_pos ht]⟩
  · rcases List.mem_cons.mp he' with rfl | he'
    · exact ⟨le_rfl, h.settles hs hok hstep⟩
    · obtain ⟨hle, htaxed⟩ := h.past e' he'
      exact ⟨hle.trans hnow, htaxed.older (hle.trans hnow)⟩
  · rcases hrate with hsame | hclosed
    · intro x hx
      obtain ⟨hle, hforce⟩ := h.leaves hX hT hs hstep hget x hx
      refine ⟨hle, fun t ht ht' => ?_⟩
      rw [rateAt_before ht', hforce t ht ht', hsame]
    · exact (hclosed name r hget).underRate

/-- **Every stretch of holding time is taxed at the rate in force during it**, in every history of current
replies: what a message settles, it settles at the rate in force since the last settlement, and so will the
next message that settles by the stored config. -/
theorem stretches_taxed_in_force (h : Run (machine E) ratesCurrent init tr w) :
    (∀ e ∈ tr, TaxedInForce (rateAt tr) e) ∧
    ∀ name r, w.canister.records.get name = some r →
      r.UnderRate (rateAt tr) w.canister.config.rateBps w.now := by
  have hf : InForce tr w := run_induction rfl inForce_init
    (fun _ _ _ _ _ hrun hf hok hstep => inForce_step hX hT hf (run_shape hrun) hok hstep) h
  exact ⟨fun e he => (hf.past e he).2, hf.still⟩

end

/-! ## Two histories -/

/-- A name won at 25 is taxed up to 27 at the rate it was held at, as the rate is cut. -/
theorem stretches_taxed_in_force_cut : ∃ (tr older : History Env.reference) (w : World Env.reference)
    (e : Entry (World Env.reference) Event Output) (old : Record),
    Run (machine Env.reference) ratesCurrent init tr w ∧ tr = e :: older ∧
      w.canister.config.rateBps = 1 ∧
      State.Settled e.pre.canister e.post.canister (settlesBy e.pre e.event) (adds e.pre e.event) "abc"
        27 old ⟨Script.cyclePerNs, 10, 25, none⟩ ∧
      ∀ t, 25 ≤ t → t < 27 → rateAt tr t = 10000 := by
  obtain ⟨tr, w, hrun, -, hcut, e, hhead, hheld, htouched, hnow, hrate⟩ := Machine.exists_run_of_exec
    (machine Env.reference) ratesCurrent init
    (Script.opening ++ Script.winning 1 2 "abc" "h/x" Script.cyclePerNs (2 * Script.cyclePerNs) 5 ++
      [.call (Script.controller 27) (.setHarbergerConfig { Script.market with rateBps := 1 }),
        .reply 27 2 (.ok 1) 0])
    (fun tr w => w.canister.config.rateBps = 1 ∧ ∃ e ∈ tr.head?,
      e.pre.canister.flatOf "abc" = some ⟨Script.cyclePerNs, 10, 25, none⟩ ∧
      e.post.canister.flatOf "abc" ≠ some ⟨Script.cyclePerNs, 10, 25, none⟩ ∧
      e.post.now = 27 ∧ (settlesBy e.pre e.event).rateBps = 10000)
    (by decide +kernel)
  obtain ⟨older, htr⟩ := List.head?_eq_some_iff.mp hhead
  obtain ⟨old, hget, hflat⟩ := State.flatOf_eq_some hheld
  have htaxed := (stretches_taxed_in_force Reference.auction_taxLaws Reference.auction_clockLaws
    hrun).1 e (by rw [htr]; exact List.mem_cons_self) "abc" old _ hget hflat
  rcases htaxed with hsame | ⟨hsettled, hforce⟩
  · exact absurd (State.flatOf_of_get hsame hflat) htouched
  · rw [hnow, hrate] at hforce
    exact ⟨tr, older, w, e, old, hrun, htr, hcut, hnow ▸ hsettled, hforce⟩

/-- **A purchase carries the rate it saw.**  The rate is cut at 27 while the purchase waits for its pull;
the stretch from 27 to 30 is taxed three cycles, at the old rate, where the rate in force takes none. -/
theorem stale_buy_taxes_at_old_rate : ∃ (tr older : History Env.reference) (w : World Env.reference)
    (e : Entry (World Env.reference) Event Output) (old : Record) (h : Harberger),
    Run (machine Env.reference) lawful init tr w ∧
      tr.reverse.map Entry.event = Script.opening ++
        Script.winning 1 2 "abc" "h/x" Script.cyclePerNs (2 * Script.cyclePerNs) 5 ++
        [.call (Script.caller 3 26) (.buy "abc" "h/y" 900 50 Script.cyclePerNs),
          .call (Script.controller 27) (.setHarbergerConfig { Script.market with rateBps := 1 }),
          .reply 27 3 (.ok 1) 0,
          .reply 30 2 (.ok 0) (Script.cyclePerNs + 50)] ∧
      tr = e :: older ∧ h.settledNs = 27 ∧
      State.Settled e.pre.canister e.post.canister (settlesBy e.pre e.event) (adds e.pre e.event) "abc"
        30 old h ∧
      (Reference.settle (settlesBy e.pre e.event).params h 30).2.2 = 3 ∧
      (Reference.settle e.pre.canister.config.params h 30).2.2 = 0 ∧
      (settlesBy e.pre e.event).rateBps = 10000 ∧ ∀ t, 27 ≤ t → t < 30 → rateAt tr t = 1 := by
  obtain ⟨tr, w, hrun, hevents, e, hhead, hheld, hsold, hnow, htaxed, hforce, hcarried, h27, h28, h29⟩ :=
    Machine.exists_run_of_exec (machine Env.reference) lawful init
    (Script.opening ++ Script.winning 1 2 "abc" "h/x" Script.cyclePerNs (2 * Script.cyclePerNs) 5 ++
      [.call (Script.caller 3 26) (.buy "abc" "h/y" 900 50 Script.cyclePerNs),
        .call (Script.controller 27) (.setHarbergerConfig { Script.market with rateBps := 1 }),
        .reply 27 3 (.ok 1) 0,
        .reply 30 2 (.ok 0) (Script.cyclePerNs + 50)])
    (fun tr _ => ∃ e ∈ tr.head?,
      e.pre.canister.flatOf "abc" = some ⟨Script.cyclePerNs, 8, 27, none⟩ ∧
      e.post.canister.flatOf "abc" = some ⟨900, 50, 30, none⟩ ∧ e.post.now = 30 ∧
      (Reference.settle (settlesBy e.pre e.event).params ⟨Script.cyclePerNs, 8, 27, none⟩ 30).2.2 = 3 ∧
      (Reference.settle e.pre.canister.config.params ⟨Script.cyclePerNs, 8, 27, none⟩ 30).2.2 = 0 ∧
      (settlesBy e.pre e.event).rateBps = 10000 ∧
      rateAt tr 27 = 1 ∧ rateAt tr 28 = 1 ∧ rateAt tr 29 = 1)
    (by decide +kernel)
  obtain ⟨older, htr⟩ := List.head?_eq_some_iff.mp hhead
  obtain ⟨old, hget, hflat⟩ := State.flatOf_eq_some hheld
  obtain ⟨hrun', -, hstep, -⟩ := run_entry rfl hrun (htr.trans (List.nil_append _).symm)
  have hsettled : State.Settled e.pre.canister e.post.canister (settlesBy e.pre e.event)
      (adds e.pre e.event) "abc" 30 old ⟨Script.cyclePerNs, 8, 27, none⟩ := by
    have hkept : e.post.canister.records.get "abc" ≠ some old := fun hsame => by
      rw [State.flatOf_of_get hsame hflat] at hsold
      cases hsold
    rcases stepped_touches (run_shape hrun') hstep "abc" with
      hsame | ⟨-, htouches⟩
    · exact absurd (hsame.trans hget) hkept
    · rw [hnow] at htouches
      exact (htouches.settles hget hflat).resolve_left hkept
  refine ⟨tr, older, w, e, old, _, hrun, hevents, htr, rfl, hsettled, htaxed, hforce, hcarried, ?_⟩
  intro t ht ht'
  obtain rfl | rfl | rfl : t = 27 ∨ t = 28 ∨ t = 29 := by omega
  · exact h27
  · exact h28
  · exact h29

end World
