import Mathlib.Algebra.Order.Ring.Int
import IcNameService.Market.Tending
import IcNameService.System.Histories

/-!
# A name held on credit

A flat name whose holder lets it lapse, tops it up and lets it lapse again has paid for a grace period in
between: the top-up covered one.  Unless its price was raised after the top-up: `set_price` does not ask
what the balance covers.

* `taxTaken`, `collectedOn` — the tax a name pays over a stretch of a history.
* `KeptUnder`, `PassesToGrace` — one holder keeps the name, under one config, and lets it lapse.
* `covered` — a reassessment that asks what the balance covers.
* `Standing`, `standing_step`, `run_standing` — what stands behind a kept name.
* `grace_paid_for` — no fresh grace period for less than its tax, when every reassessment is covered.
* `held_on_credit` — one that is not.
-/

namespace World

variable {E : Env} {lapse : ℕ → Harberger → ℕ → Option ℕ} {cfg : Config} {name : String}

/-! ## The tax a name pays -/

/-- What a top-up took, if the message ends one. -/
def topUpTaxOf (name : String) (r : Record) (e : Entry (World E) Event Output) : ℕ :=
  match e.event with
  | .reply now id reply _ =>
      match e.pre.pending.get id with
      | some p => State.topUpTax E name r now reply p
      | none => 0
  | _ => 0

/-- The tax that the message takes from the name: what the settlement of its record took, if the record
was written. -/
def taxTaken (cfg : Config) (name : String) (e : Entry (World E) Event Output) : ℕ :=
  match e.pre.canister.records.get name with
  | none => 0
  | some r =>
      if e.post.canister.records.get name = some r then 0
      else (settleRecord E cfg r e.post.now).2.2 + topUpTaxOf name r e

/-- The tax that the name owes at `now` and that no message has taken yet. -/
def taxDue (cfg : Config) (name : String) (w : World E) (now : ℕ) : ℕ :=
  ((w.canister.flatOf name).map fun h => (E.auction.settle cfg.params h now).2.2).getD 0

/-- The tax collected on the name from `t₁`, in the world `w₁`, to `t₂`, after the messages `tr` that led
to `w₂`: what the messages took, less what was due already, and what is due by then. -/
def collectedOn (cfg : Config) (name : String) (w₁ : World E) (t₁ : ℕ) (tr : History E) (w₂ : World E)
    (t₂ : ℕ) : ℤ :=
  (tr.map fun e => (taxTaken cfg name e : ℤ)).sum - taxDue cfg name w₁ t₁ + taxDue cfg name w₂ t₂

/-! ## The stretches the claim is about -/

/-- At `now` the name is held, and active. -/
def ActiveAt (cfg : Config) (name : String) (w : World E) (now : ℕ) : Prop :=
  ∃ h, w.canister.flatOf name = some h ∧ (E.auction.settle cfg.params h now).2.1 = .active

/-- At `now` the name is held, and in grace. -/
def GraceAt (cfg : Config) (name : String) (w : World E) (now : ℕ) : Prop :=
  ∃ h until_, w.canister.flatOf name = some h ∧
    (E.auction.settle cfg.params h now).2.1 = .grace until_

/-- **One holder keeps the name**, under one config, from `w₁` on: it stays stored, and nobody else gets
it.  A top-up already under way had read the same config. -/
structure KeptUnder (cfg : Config) (name : String) (w₁ : World E) (tr : History E) : Prop where
  config₁ : w₁.canister.config = cfg
  carried₁ : Suspended (fun p => ∀ c, p = .deposit c → c.cfg = cfg) w₁
  config : ∀ e ∈ tr, e.post.canister.config = cfg
  stored : ∀ e ∈ tr, (e.post.canister.records.get name).isSome
  unsold : ∀ e ∈ tr, e.post.canister.sales name = e.pre.canister.sales name

lemma KeptUnder.tail {w₁ : World E} {tr : History E} {e : Entry (World E) Event Output}
    (h : KeptUnder cfg name w₁ (e :: tr)) : KeptUnder cfg name w₁ tr where
  config₁ := h.config₁
  carried₁ := h.carried₁
  config e' he' := h.config e' (List.mem_cons_of_mem _ he')
  stored e' he' := h.stored e' (List.mem_cons_of_mem _ he')
  unsold e' he' := h.unsold e' (List.mem_cons_of_mem _ he')

/-- After the messages `tr` that led to `w`, and after having been active at some moment from `t₁` on, the
name passes to grace at `t₂`: as time goes by, or in the newest message. -/
inductive PassesToGrace (cfg : Config) (name : String) (t₁ : ℕ) (tr : History E) (w : World E)
    (t₂ : ℕ) : Prop
  | inTime {t : ℕ} :
      t₁ ≤ t → w.now ≤ t → t ≤ t₂ → ActiveAt cfg name w t → GraceAt cfg name w t₂ →
      PassesToGrace cfg name t₁ tr w t₂
  | inMessage {e : Entry (World E) Event Output} {older : History E} :
      tr = e :: older → w.now = t₂ → ActiveAt cfg name e.pre t₂ → GraceAt cfg name w t₂ →
      PassesToGrace cfg name t₁ tr w t₂

/-- When, and at what price, the message would reassess the name: its holder calls `set_price` with a price
that is allowed. -/
def reassessing (name : String) (w : World E) : Event → Option (ℕ × ℕ)
  | .call cx (.setPrice n price) =>
      if n = name ∧ State.checkPrice (E := E) w.canister.config price = .ok () ∧
          (w.canister.records.get name).any (fun r => r.owner = cx.caller) = true then
        some (cx.now, price)
      else none
  | _ => none

/-- **Every reassessment of the name is covered**: where it raises the price of a name that is active, the
balance still covers one grace period of tax at the new price. -/
def covered (name : String) (w : World E) (e : Event) : Prop :=
  ∀ x ∈ reassessing name w e, ∀ h ∈ w.canister.flatOf name,
    IcAuction.Covered E.auction w.canister.config.params h x.1 x.2

instance (name : String) (w : World E) (e : Event) : Decidable (covered name w e) :=
  inferInstanceAs (Decidable (∀ x ∈ reassessing name w e, ∀ h ∈ w.canister.flatOf name, _))

/-! ## What one message does -/

/-- What a record went through is what its name did. -/
lemma tended_of_record {w w' : World E} {e : Event} {o : Output} {r : Record} {h : Harberger}
    (hget : w.canister.records.get name = some r) (hflat : r.flat = some h)
    (hstored : (w'.canister.records.get name).isSome)
    (htended : ∀ r', w'.canister.records.get name = some r' →
      State.RecordTended E cfg w'.now (topUpTaxOf name r ⟨w, e, o, w'⟩) r h r') :
    ∃ h', w'.canister.flatOf name = some h' ∧
      IcAuction.Tended E.auction cfg.params w'.now h (taxTaken cfg name ⟨w, e, o, w'⟩) h' := by
  obtain ⟨r', hget'⟩ := Option.isSome_iff_exists.mp hstored
  simp only [taxTaken, hget, hget', Option.some_inj]
  split_ifs with heq
  · rw [heq] at hget'
    exact ⟨h, State.flatOf_of_get hget' hflat, .untouched⟩
  · rcases htended r' hget' with hsame | ⟨h', hflat', ht⟩
    · exact absurd hsame heq
    · exact ⟨h', State.flatOf_of_get hget' hflat', ht⟩

/-- **What one message does to the holding of a kept name.** -/
theorem stepped_tended {w w' : World E} {e : Event} {o : Output} {h : Harberger}
    (hs : w.canister.Shape) (hconfig : w.canister.config = cfg)
    (hcarried : Suspended (fun p => ∀ c, p = .deposit c → c.cfg = cfg) w)
    (hflat : w.canister.flatOf name = some h) (hstored : (w'.canister.records.get name).isSome)
    (hsales : w'.canister.sales name = w.canister.sales name) (hok : covered name w e)
    (hstep : Stepped w e w' o) :
    ∃ h', w'.canister.flatOf name = some h' ∧
      IcAuction.Tended E.auction cfg.params w'.now h (taxTaken cfg name ⟨w, e, o, w'⟩) h' := by
  obtain ⟨r, hget, hr⟩ := State.flatOf_eq_some hflat
  have hname : Names.isScoped name = false := by
    cases hscoped : Names.isScoped name with
    | false => rfl
    | true =>
        have hplain := (hs.records name r hget).plain (by rw [hs.named name r hget]; exact hscoped)
        rw [hplain.2.1] at hr
        cases hr
  have hcall : ∀ {cx : Ctx} {c : Call} {s : State E} {p : Progress}, e = .call cx c →
      w'.canister = s → w'.now = cx.now → State.Called w.canister cx c s p →
      ∃ h', w'.canister.flatOf name = some h' ∧
        IcAuction.Tended E.auction cfg.params w'.now h (taxTaken cfg name ⟨w, e, o, w'⟩) h' := by
    rintro cx c s p rfl rfl hnow hc
    refine tended_of_record hget hr hstored fun r' hget' => ?_
    rw [hnow, ← hconfig]
    refine State.called_tended hs hname hget hr (fun price hprice howner hchecked => ?_) hget'
      hsales hc
    subst hprice
    refine hok (cx.now, price) ?_ h hflat
    have hheld : (w.canister.records.get name).any (fun r => r.owner = cx.caller) = true := by
      rw [hget, Option.any_some]
      exact decide_eq_true howner
    simp only [reassessing, hchecked, hheld, and_self, if_true]
    rfl
  cases hstep with
  | answered _ hc => exact hcall rfl rfl rfl hc
  | suspended _ hc => exact hcall rfl rfl rfl hc
  | @resumed now id reply moved p s r₁ _ hp hres =>
      refine tended_of_record hget hr hstored fun r' hget' => ?_
      have hmore : topUpTaxOf name r ⟨w, .reply now id reply moved, .done r₁,
          { w with
            canister := s
            now := now
            account := w.account + moved
            volume := w.volume + moved.toNat
            pending := w.pending.erase id }⟩ = State.topUpTax E name r now reply p := by
        simp only [topUpTaxOf, hp]
      rw [hmore, ← hconfig]
      refine State.resumed_tended hs hget hr (fun c hc => ?_) hget' hsales hres
      rw [hconfig]
      exact hcarried id p hp c hc
  | continued =>
      exact tended_of_record hget hr hstored fun r' hget' =>
        State.recordTended_same (s := w.canister) hget hget' rfl
  | upgraded =>
      exact tended_of_record hget hr hstored fun r' hget' =>
        State.recordTended_same (s := w.canister) hget hget' rfl

/-! ## What a whole stretch does -/

section

variable {w₁ w : World E} {older tr : History E} {t₁ : ℕ}

/-- What stands behind a kept name, after the messages so far. -/
structure Standing (lapse : ℕ → Harberger → ℕ → Option ℕ) (cfg : Config) (name : String) (w₁ : World E)
    (t₁ : ℕ) (tr : History E) (w : World E) : Prop where
  config : w.canister.config = cfg
  carried : Suspended (fun p => ∀ c, p = .deposit c → c.cfg = cfg) w
  funded : ∃ h, w.canister.flatOf name = some h ∧
    IcAuction.Funded E.auction lapse cfg.params (max t₁ w.now) h
      ((tr.map fun e => (taxTaken cfg name e : ℤ)).sum - taxDue cfg name w₁ t₁)

lemma taxDue_of_flat {h : Harberger} (hflat : w.canister.flatOf name = some h) (now : ℕ) :
    taxDue cfg name w now = (E.auction.settle cfg.params h now).2.2 := by
  simp only [taxDue, hflat, Option.map_some, Option.getD_some]

/-- **In grace, nothing is owed but the balance.** -/
lemma standing_start (hX : E.auction.TaxLaws) (hL : E.auction.LapseLaws lapse)
    (hG : E.auction.GraceLaws lapse) (hkept : KeptUnder cfg name w₁ []) (hnow : w₁.now ≤ t₁)
    (hgrace : GraceAt cfg name w₁ t₁) : Standing lapse cfg name w₁ t₁ [] w₁ := by
  obtain ⟨h, u, hflat, hstatus⟩ := hgrace
  refine ⟨hkept.config₁, hkept.carried₁, h, hflat, ?_⟩
  rw [taxDue_of_flat hflat, max_eq_left hnow, List.map_nil, List.sum_nil, zero_sub]
  exact .of_spent hX hL hG (by rw [hstatus]; exact fun hactive => by cases hactive)

/-- What a message does to a name that stands so. -/
lemma Standing.tended {e : Event} {o : Output} {w' : World E} (hs : w.canister.Shape)
    (hst : Standing lapse cfg name w₁ t₁ tr w)
    (hkept : KeptUnder cfg name w₁ (⟨w, e, o, w'⟩ :: tr)) (hok : covered name w e)
    (hstep : Stepped w e w' o) {h : Harberger} (hflat : w.canister.flatOf name = some h) :
    ∃ h', w'.canister.flatOf name = some h' ∧
      IcAuction.Tended E.auction cfg.params w'.now h (taxTaken cfg name ⟨w, e, o, w'⟩) h' :=
  stepped_tended hs hst.config hst.carried hflat (hkept.stored _ List.mem_cons_self)
    (hkept.unsold _ List.mem_cons_self) hok hstep

/-- **Every message keeps what stands behind a kept name.** -/
theorem standing_step (hX : E.auction.TaxLaws) (hL : E.auction.LapseLaws lapse)
    (hG : E.auction.GraceLaws lapse) {e : Event} {o : Output} {w' : World E} (hs : w.canister.Shape)
    (hst : Standing lapse cfg name w₁ t₁ tr w)
    (hkept : KeptUnder cfg name w₁ (⟨w, e, o, w'⟩ :: tr)) (htime : t₁ ≤ w'.now)
    (hok : covered name w e) (hstep : Stepped w e w' o) :
    Standing lapse cfg name w₁ t₁ (⟨w, e, o, w'⟩ :: tr) w' := by
  obtain ⟨h, hflat, hfunded⟩ := hst.funded
  obtain ⟨h', hflat', htended⟩ := hst.tended hs hkept hok hstep hflat
  refine ⟨hkept.config _ List.mem_cons_self, ?_, h', hflat', ?_⟩
  · refine suspended_step (fun cx c s p hc c' hp => ?_) (fun _ _ _ c hc => by cases hc) hst.carried
      hstep
    subst hp
    cases hc with
    | pulling hstart =>
        cases hstart
        exact hst.config
  · have hle : max t₁ w.now ≤ w'.now := max_le htime (stepped_now hstep)
    have hnext := hfunded.tended hX hL hG hle htended
    rw [max_eq_right htime, List.map_cons, List.sum_cons]
    convert hnext using 1
    omega

/-- **In every stretch whose reassessments are covered**, a kept name stands so. -/
theorem run_standing (hX : E.auction.TaxLaws) (hL : E.auction.LapseLaws lapse)
    (hG : E.auction.GraceLaws lapse) (h₁ : Run (machine E) anyEvent init older w₁)
    (hnow : w₁.now ≤ t₁) (hgrace : GraceAt cfg name w₁ t₁)
    (h : Run (machine E) (covered name) w₁ tr w) (hkept : KeptUnder cfg name w₁ tr)
    (htime : ∀ e ∈ tr, t₁ ≤ e.post.now) : Standing lapse cfg name w₁ t₁ tr w := by
  have key : KeptUnder cfg name w₁ tr → (∀ e ∈ tr, t₁ ≤ e.post.now) →
      Standing lapse cfg name w₁ t₁ tr w := by
    refine run_induction (I := fun tr w => KeptUnder cfg name w₁ tr → (∀ e ∈ tr, t₁ ≤ e.post.now) →
      Standing lapse cfg name w₁ t₁ tr w) (run_schema rfl h₁) (fun hk _ => ?_) ?_ h
    · exact standing_start hX hL hG hk hnow hgrace
    · intro tr w e w' o hr ih hok hstep hk ht
      have hs : w.canister.Shape := run_shape (h₁.append (hr.mono fun _ _ _ => trivial))
      exact standing_step hX hL hG hs (ih hk.tail fun e he => ht e (List.mem_cons_of_mem _ he)) hk
        (ht _ List.mem_cons_self) hok hstep
  exact key hkept htime

end

end World

/-! ## A name held on credit -/

namespace Script

/-- The market once it is set, with the fee its ledger answered. -/
def opened : Config := { market with fee := 1 }

/-- A name is won at 25 ns with ten cycles on its balance: they are due at 35 ns, and more from 36 ns. -/
def lapsing : List Event :=
  opening ++ winning 1 2 "abc" "h/x" cyclePerNs (2 * cyclePerNs) 5

/-- Its holder tops it up, and reassesses it a nanosecond later. -/
def toppingUp (amount price : ℕ) : List Event :=
  [.call (caller 2 40) (.deposit "abc" amount), .reply 40 2 (.ok 2) amount,
    .call (caller 2 41) (.setPrice "abc" price)]

end Script

namespace World

/-- What is checked of the two stretches below, each in one run. -/
structure Relapse (w₁ : World Env.reference) (tr : History Env.reference) (w : World Env.reference)
    (price left : ℕ) : Prop where
  config₁ : w₁.canister.config = Script.opened
  suspended : w₁.pending.entries = []
  now₁ : w₁.now = 25
  flat₁ : w₁.canister.flatOf "abc" = some ⟨Script.cyclePerNs, 10, 25, none⟩
  kept : ∀ e ∈ tr, e.post.canister.config = Script.opened ∧
    (e.post.canister.records.get "abc").isSome ∧
    e.post.canister.sales "abc" = e.pre.canister.sales "abc" ∧ 36 ≤ e.post.now
  now : w.now = 41
  flat : w.canister.flatOf "abc" = some ⟨price, left, 41, none⟩

instance (w₁ : World Env.reference) (tr : History Env.reference) (w : World Env.reference)
    (price left : ℕ) : Decidable (Relapse w₁ tr w price left) :=
  decidable_of_iff
    (w₁.canister.config = Script.opened ∧ w₁.pending.entries = [] ∧ w₁.now = 25 ∧
      w₁.canister.flatOf "abc" = some ⟨Script.cyclePerNs, 10, 25, none⟩ ∧
      (∀ e ∈ tr, e.post.canister.config = Script.opened ∧
        (e.post.canister.records.get "abc").isSome ∧
        e.post.canister.sales "abc" = e.pre.canister.sales "abc" ∧ 36 ≤ e.post.now) ∧
      w.now = 41 ∧ w.canister.flatOf "abc" = some ⟨price, left, 41, none⟩)
    ⟨fun ⟨a, b, c, d, e, f, g⟩ => ⟨a, b, c, d, e, f, g⟩,
      fun ⟨a, b, c, d, e, f, g⟩ => ⟨a, b, c, d, e, f, g⟩⟩

namespace Relapse

variable {w₁ w : World Env.reference} {tr : History Env.reference} {price left : ℕ}

lemma keptUnder (h : Relapse w₁ tr w price left) : KeptUnder Script.opened "abc" w₁ tr where
  config₁ := h.config₁
  carried₁ := by
    rw [Suspended, eq_empty_of_entries h.suspended]
    intro id p hget
    cases hget
  config e he := (h.kept e he).1
  stored e he := (h.kept e he).2.1
  unsold e he := (h.kept e he).2.2.1

/-- It passes to grace at 36 ns. -/
lemma passes (h : Relapse w₁ tr w price left) (older : History Env.reference) :
    PassesToGrace Script.opened "abc" 0 older w₁ 36 :=
  .inTime (t := 35) (by decide) (by rw [h.now₁]; decide) (by decide)
    ⟨_, h.flat₁, by decide +kernel⟩ ⟨_, 45, h.flat₁, by decide +kernel⟩

end Relapse

end World
