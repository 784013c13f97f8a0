import Mathlib.Algebra.Order.Ring.Int
import IcNameService.System.Undo

/-!
# A refused call leaves no trace

A call may write in several messages, and other calls run between them.  What it leaves behind is what its
own messages changed, taken together: nothing at all of the records, the handles, the auctions, the tag
index, the certified tree and the configs, and nothing in sum of the credits, the treasury counter and the
in-flight count, which a suspended call holds back and a refused one gives back.

* `messages` — the messages of one call in a history.
* `Accumulated`, `NoTrace` — what they changed, taken together.
* `Tracked` — what the messages of each suspended call have changed so far is what it holds back.
* `NoTrace.alone` — when no other message came between, the canister is as it was.
* `refused_leaves_no_trace` — every refused call in every history, and the one way to leave a trace.
-/

namespace World

variable {E : Env} {tr : History E} {w : World E}

/-! ## The messages of a call -/

/-- Is this a message of the call suspended under `id`? -/
def OfCall (id : ℕ) (e : Entry (World E) Event Output) : Bool :=
  match e.event, e.out with
  | .call _ _, .awaiting _ => e.pre.nextId = id
  | .reply _ id' _ _, _ => id' = id
  | _, _ => false

/-- The messages of the call whose latest message is the newest of the history. -/
def messages : History E → History E
  | [] => []
  | e :: tr =>
      match e.event with
      | .reply _ id _ _ => (e :: tr).filter (OfCall id)
      | _ => [e]

lemma mem_messages (tr : History E) (e : Entry (World E) Event Output) : e ∈ messages (e :: tr) := by
  obtain ⟨pre, ev, o, post⟩ := e
  cases ev with
  | call => exact List.mem_singleton_self _
  | upgrade => exact List.mem_singleton_self _
  | reply => exact List.mem_filter.mpr ⟨List.mem_cons_self, by simp [OfCall]⟩

/-- The message brought no reply of a ledger call that moved cycles, or may have. -/
def MovedNothing (e : Entry (World E) Event Output) : Prop :=
  match e.event with
  | .reply _ id r _ => ∀ p ∈ e.pre.pending.get id, p.unmoved r = true
  | _ => True

instance (e : Entry (World E) Event Output) : Decidable (MovedNothing e) :=
  match e with
  | ⟨_, .call _ _, _, _⟩ => isTrue trivial
  | ⟨pre, .reply _ id r _, _, _⟩ =>
      inferInstanceAs (Decidable (∀ p ∈ pre.pending.get id, p.unmoved r = true))
  | ⟨_, .upgrade _, _, _⟩ => isTrue trivial

/-! ## What they changed -/

/-- How much the messages changed an amount, taken together. -/
def change (amount : State E → ℕ) (ms : History E) : ℤ :=
  (ms.map fun m => (amount m.post.canister : ℤ) - amount m.pre.canister).sum

@[simp] lemma change_nil (amount : State E → ℕ) : change amount [] = 0 := rfl

@[simp] lemma change_cons (amount : State E → ℕ) (m : Entry (World E) Event Output)
    (ms : History E) : change amount (m :: ms) =
      amount m.post.canister - amount m.pre.canister + change amount ms := rfl

/-- The messages wrote nothing but credits, the treasury counter and the in-flight count, and these by
the given amounts, taken together. -/
structure Accumulated (ms : History E) (credit : Principal → ℤ) (withdrawn inFlight : ℤ) : Prop where
  rest : ∀ m ∈ ms, m.post.canister.rest = m.pre.canister.rest
  credit : ∀ q, change (fun s => s.creditOf q) ms = credit q
  withdrawn : change State.taxWithdrawn ms = withdrawn
  inFlight : change State.inFlight ms = inFlight

/-- **The call left no trace.** -/
def NoTrace (ms : History E) : Prop := Accumulated ms (fun _ => 0) 0 0

namespace Accumulated

variable {ms : History E} {credit : Principal → ℤ} {withdrawn inFlight : ℤ}

lemma nil : Accumulated ([] : History E) (fun _ => 0) 0 0 where
  rest m hm := by cases hm
  credit _ := rfl
  withdrawn := rfl
  inFlight := rfl

lemma cons (h : Accumulated ms credit withdrawn inFlight) {m : Entry (World E) Event Output}
    {credit' credit'' : Principal → ℤ} {withdrawn' withdrawn'' inFlight' inFlight'' : ℤ}
    (hm : State.Shifts m.pre.canister m.post.canister credit' withdrawn' inFlight')
    (hcredit : ∀ q, credit'' q = credit' q + credit q) (hwithdrawn : withdrawn'' = withdrawn' + withdrawn)
    (hinFlight : inFlight'' = inFlight' + inFlight) :
    Accumulated (m :: ms) credit'' withdrawn'' inFlight'' where
  rest m' hmem := by
    rcases List.mem_cons.mp hmem with rfl | hmem
    · exact hm.rest
    · exact h.rest m' hmem
  credit q := by
    have hq := hm.credit q
    rw [change_cons, h.credit, hcredit]
    omega
  withdrawn := by
    have hw := hm.withdrawn
    rw [change_cons, h.withdrawn, hwithdrawn]
    omega
  inFlight := by
    have hf := hm.inFlight
    rw [change_cons, h.inFlight, hinFlight]
    omega

lemma single {m : Entry (World E) Event Output}
    (hm : State.Shifts m.pre.canister m.post.canister credit withdrawn inFlight) :
    Accumulated [m] credit withdrawn inFlight :=
  nil.cons hm (fun _ => (add_zero _).symm) (add_zero _).symm (add_zero _).symm

end Accumulated

/-! ## A call with no other message between its own -/

/-- What a chain of messages changed is what stands between its two ends. -/
lemma change_chain (amount : State E → ℕ) : ∀ (ms : History E) (m : Entry (World E) Event Output)
    (hne : m :: ms ≠ []), (m :: ms).IsChain (fun newer older => newer.pre = older.post) →
      change amount (m :: ms) =
        amount m.post.canister - amount ((m :: ms).getLast hne).pre.canister
  | [], m, _, _ => by simp
  | m' :: ms, m, _, hchain => by
      rw [List.isChain_cons_cons] at hchain
      rw [change_cons, change_chain amount ms m' (List.cons_ne_nil m' ms) hchain.2, hchain.1,
        List.getLast_cons (List.cons_ne_nil m' ms)]
      omega

lemma rest_chain : ∀ (ms : History E) (m : Entry (World E) Event Output)
    (hne : m :: ms ≠ []), (m :: ms).IsChain (fun newer older => newer.pre = older.post) →
      (∀ x ∈ m :: ms, x.post.canister.rest = x.pre.canister.rest) →
        m.post.canister.rest = ((m :: ms).getLast hne).pre.canister.rest
  | [], m, _, _, h => h m List.mem_cons_self
  | m' :: ms, m, _, hchain, h => by
      rw [List.isChain_cons_cons] at hchain
      rw [h m List.mem_cons_self, hchain.1, List.getLast_cons (List.cons_ne_nil m' ms)]
      exact rest_chain ms m' (List.cons_ne_nil m' ms) hchain.2
        fun x hx => h x (List.mem_cons_of_mem _ hx)

/-- **When no other message came between the messages of a call that left no trace, the canister is as it
was before the first of them.** -/
theorem NoTrace.alone {m : Entry (World E) Event Output} {ms : History E} (h : NoTrace (m :: ms))
    (hchain : (m :: ms).IsChain (fun newer older => newer.pre = older.post)) :
    let before := ((m :: ms).getLast (List.cons_ne_nil m ms)).pre.canister
    m.post.canister.rest = before.rest ∧ (∀ q, m.post.canister.creditOf q = before.creditOf q) ∧
      m.post.canister.taxWithdrawn = before.taxWithdrawn ∧
      m.post.canister.inFlight = before.inFlight := by
  have hne := List.cons_ne_nil m ms
  refine ⟨rest_chain ms m hne hchain h.rest, fun q => ?_, ?_, ?_⟩
  · have hq := h.credit q
    rw [change_chain _ ms m hne hchain] at hq
    omega
  · have hw := h.withdrawn
    rw [change_chain _ ms m hne hchain] at hw
    omega
  · have hf := h.inFlight
    rw [change_chain _ ms m hne hchain] at hf
    omega

/-! ## What a suspended call holds back -/

/-- The messages of every suspended call have changed, so far, what it holds back. -/
structure Tracked (tr : History E) (w : World E) : Prop where
  waiting : ∀ id p, w.pending.get id = some p →
    Accumulated (tr.filter (OfCall id)) (fun q => -(p.takenFrom q : ℤ)) p.funding p.guards
  fresh : ∀ id, w.nextId ≤ id → tr.filter (OfCall id) = []

lemma tracked_init : Tracked [] (init (E := E)) where
  waiting id p hget := by cases hget
  fresh _ _ := rfl

lemma filter_suspended (tr : History E) (id : ℕ) (w w' : World E) (cx : Ctx) (c : Call)
    (p : Pending) : ((⟨w, .call cx c, .awaiting p, w'⟩ :: tr : History E).filter (OfCall id)) =
      if w.nextId = id then ⟨w, .call cx c, .awaiting p, w'⟩ :: tr.filter (OfCall id)
      else tr.filter (OfCall id) := by
  simp only [List.filter_cons, OfCall, decide_eq_true_eq]

lemma filter_reply (tr : History E) (id id' : ℕ) (w w' : World E) (now : ℕ) (r : Except Failure ℕ)
    (moved : ℤ) (o : Output) :
    ((⟨w, .reply now id' r moved, o, w'⟩ :: tr : History E).filter (OfCall id)) =
      if id' = id then ⟨w, .reply now id' r moved, o, w'⟩ :: tr.filter (OfCall id)
      else tr.filter (OfCall id) := by
  simp only [List.filter_cons, OfCall, decide_eq_true_eq]

/-- **Every message keeps track.** -/
theorem tracked_step {w' : World E} {e : Event} {o : Output} (hb : Balanced w)
    (hfits : ∀ cfg amount, o = .awaiting (.fundSelf cfg amount) →
      w.canister.taxWithdrawn + amount ≤ u128Max)
    (h : Tracked tr w) (hs : Stepped w e w' o) : Tracked (⟨w, e, o, w'⟩ :: tr) w' := by
  cases hs with
  | answered => exact ⟨h.waiting, h.fresh⟩
  | suspended _ hc =>
      refine ⟨fun id q hget => ?_, fun id hid => ?_⟩
      · rw [filter_suspended]
        rcases OrdMap.get_insert_eq_some.mp hget with ⟨rfl, rfl⟩ | ⟨hne, hget⟩
        · rw [if_pos rfl, h.fresh _ le_rfl]
          exact .single (State.called_shifts hc)
        · rw [if_neg (Ne.symm hne)]
          exact h.waiting id q hget
      · have hid : w.nextId + 1 ≤ id := hid
        rw [filter_suspended, if_neg (by omega)]
        exact h.fresh id (by omega)
  | @resumed now id r moved p s reply _ hp _ =>
      refine ⟨fun id' q hget => ?_, fun id' hid => ?_⟩
      · obtain ⟨hne, hget⟩ := OrdMap.get_erase_eq_some.mp hget
        rw [filter_reply, if_neg (Ne.symm hne)]
        exact h.waiting id' q hget
      · have hlt := hb.numbered id p hp
        have hid : w.nextId ≤ id' := hid
        rw [filter_reply, if_neg (by omega)]
        exact h.fresh id' hid
  | @continued now id moved cfg amount _ hp =>
      refine ⟨fun id' q hget => ?_, fun id' hid => ?_⟩
      · rw [filter_reply]
        rcases OrdMap.get_insert_eq_some.mp hget with ⟨rfl, rfl⟩ | ⟨hne, hget⟩
        · rw [if_pos rfl]
          have hnow := State.noteTaxWithdrawn_shifts (hfits cfg amount rfl)
          exact (h.waiting id' _ hp).cons hnow (fun _ => rfl) rfl rfl
        · rw [if_neg (Ne.symm hne)]
          exact h.waiting id' q hget
      · have hlt := hb.numbered id _ hp
        have hid : w.nextId ≤ id' := hid
        rw [filter_reply, if_neg (by omega)]
        exact h.fresh id' hid
  | upgraded => exact ⟨h.waiting, h.fresh⟩

/-- In every history the ledger's laws allow, every suspended call is kept track of. -/
theorem run_tracked (hX : E.auction.TaxLaws) (hV : E.auction.VickreyLaws)
    (h : Run (machine E) lawful init tr w) : Tracked tr w := by
  refine run_induction rfl tracked_init (fun tr w e w' o hr ht hlaw hs => ?_) h
  have hb := run_balanced hX hV hr
  refine tracked_step hb (fun cfg amount ho => ?_) ht hs
  cases hs with
  | answered => cases ho
  | resumed => cases ho
  | upgraded => cases ho
  | suspended _ hc =>
      cases ho
      cases hc with
      | pulling hp => cases hp
  | @continued now id moved _ _ _ hp =>
      cases ho
      obtain ⟨-, hfit⟩ := hlaw _ hp
      have hset : setOut (w.canister.resume now (.ok cfg.fee) (.fundSelfFee cfg amount)).2 =
          amount := by
        simp [State.resume, State.resumeFundSelfFee, setOut]
      have hwithdrawn := hb.withdrawn_le
      omega

/-! ## Refused calls -/

/-- **The one way to leave a trace**: a `set_harberger_config` that gets to its last check, with some name
stored that the settlement before the check changes. -/
def SettledInVain (e : Entry (World E) Event Output) : Prop :=
  ∃ now id fee moved c, e.event = .reply now id (.ok fee) moved ∧
    e.pre.pending.get id = some (.setHarbergerConfig c) ∧ e.pre.canister.ChecksLate c ∧
    ∃ name r, e.pre.canister.records.get name = some r ∧
      (settleRecord E e.pre.canister.config r now).1 ≠ r

/-- The message that resumes a suspended call and ends it. -/
lemma resume_of_step {w' : World E} {now id : ℕ} {r : Except Failure ℕ} {moved : ℤ} {reply : Reply}
    (h : w.step (.reply now id r moved) = some (w', .done reply)) :
    ∃ p, w.pending.get id = some p ∧ w.canister.resume now r p = (w'.canister, .done reply) := by
  simp only [step] at h
  split_ifs at h
  cases hp : w.pending.get id with
  | none => simp [hp] at h
  | some p =>
      cases hc : w.canister.resume now r p with
      | mk s progress =>
          simp only [hp, hc] at h
          cases progress with
          | done reply' =>
              cases h
              exact ⟨p, rfl, hc⟩
          | await => cases h

/-- A refused payment method gives back all that it held. -/
lemma payment_leaves_no_trace {w' : World E} {now id : ℕ} {r : Except Failure ℕ} {moved : ℤ}
    {p : Pending} {msg : String} (hb : Balanced w) (hg : Guarded w) (ht : Tracked tr w)
    (hp : w.pending.get id = some p) (hpays : p.sentTo.isSome) (hmoved : p.unmoved r = true)
    (hr : State.Resumed w.canister now r p w'.canister (.done (.error msg))) :
    NoTrace (⟨w, .reply now id r moved, .done (.error msg), w'⟩ :: tr.filter (OfCall id)) := by
  have hvalue := hb.value_le
  have hvolume := hb.volume_lt
  have houtgoing : p.outgoing ≤ w.outgoing := OrdMap.le_total (f := fun _ p => p.outgoing) hp
  have hfunding : p.funding ≤ w.funding := OrdMap.le_total (f := fun _ p => p.funding) hp
  have hguards : p.guards ≤ w.canister.inFlight := by
    rw [hg.counted]
    exact OrdMap.le_total (f := fun _ p => p.guards) hp
  have hcredit : ∀ q, w.canister.creditOf q + p.takenFrom q ≤ u128Max := by
    intro q
    have hle := w.canister.creditOf_le_value q
    have htaken := p.takenFrom_le_outgoing q
    omega
  have hshifts := State.resumed_shifts hpays hmoved hcredit
    (hfunding.trans hb.funding_le) hguards hr
  exact (ht.waiting id p hp).cons hshifts (fun q => by omega) (by omega) (by omega)

/-- A refused `set_harberger_config` leaves no trace unless it settled something in vain. -/
lemma config_leaves_no_trace (hX : E.auction.TaxLaws) (hK : E.cert.KeepsStored) {w' : World E}
    {now id : ℕ} {r : Except Failure ℕ} {moved : ℤ} {c : Config} {msg : String}
    (hc : w.canister.Catalogued) (hm : w.canister.Mirrored) (ht : Tracked tr w)
    (hp : w.pending.get id = some (.setHarbergerConfig c))
    (hr : w.canister.resumeSetHarbergerConfig now c r = (w'.canister, .error msg)) :
    NoTrace (⟨w, .reply now id r moved, .done (.error msg), w'⟩ :: tr.filter (OfCall id)) ↔
      ¬ SettledInVain ⟨w, .reply now id r moved, .done (.error msg), w'⟩ := by
  have hquiet : w'.canister = w.canister →
      NoTrace (⟨w, .reply now id r moved, .done (.error msg), w'⟩ :: tr.filter (OfCall id)) := by
    intro hs
    have hshifts : State.Shifts w.canister w'.canister (fun _ => 0) 0 0 := by
      rw [hs]
      exact State.shifts_refl _
    exact (ht.waiting id _ hp).cons hshifts (fun _ => rfl) rfl rfl
  rcases State.resumeSetHarbergerConfig_error hr with ⟨hearly, hs⟩ | ⟨⟨⟨fee, rfl⟩, hlate⟩, hs⟩
  · refine ⟨fun _ => ?_, fun _ => hquiet hs⟩
    rintro ⟨now', id', fee, moved', c', hev, hp', hlate, -⟩
    cases hev
    rw [hp] at hp'
    cases hp'
    exact hearly ⟨⟨fee, rfl⟩, hlate⟩
  · constructor
    · rintro hno ⟨now', id', fee', moved', c', hev, -, -, name, x, hget, hne⟩
      cases hev
      have hrest := hno.rest _ List.mem_cons_self
      have hrecords : w'.canister.rest.records = w.canister.rest.records :=
        congrArg (fun t : State E => t.records) hrest
      change w'.canister.records = w.canister.records at hrecords
      have hsettled := hc.named.settleAll_get w.canister.config now name
      rw [← hs, hrecords, hget, Option.map_some] at hsettled
      exact hne (Option.some_inj.mp hsettled).symm
    · intro hvain
      have hsettled : ∀ name x, w.canister.records.get name = some x →
          (settleRecord E w.canister.config x now).1 = x := by
        intro name x hget
        by_contra hne
        exact hvain ⟨now, id, fee, moved, c, rfl, hp, hlate, name, x, hget, hne⟩
      exact hquiet (hs.trans (State.settleAll_eq_self hX hK hc hm hsettled))

/-- **A refused call leaves no trace.**  In every history the ledger's laws allow, a call that returns an
error, and none of whose ledger calls moved cycles or may have, leaves the canister as it was but for what
other calls did meanwhile — exactly when it is not a `set_harberger_config` that settled a name before it
looked at its parameters. -/
theorem refused_leaves_no_trace (hX : E.auction.TaxLaws) (hV : E.auction.VickreyLaws)
    (hC : E.cert.CertLaws) (hK : E.cert.KeepsStored) (h : Run (machine E) lawful init tr w)
    {newer older : History E} {e : Entry (World E) Event Output} (htr : tr = newer ++ e :: older)
    {msg : String} (hout : e.out = .done (.error msg))
    (hmoved : ∀ m ∈ messages (e :: older), MovedNothing m) :
    NoTrace (messages (e :: older)) ↔ ¬ SettledInVain e := by
  obtain ⟨hrun, -, hstep, -⟩ := h.split htr
  have hs := stepped_of_step (run_schema rfl hrun) hstep
  have ht := run_tracked hX hV hrun
  obtain ⟨w₀, ev, o, w₁⟩ := e
  simp only at hout hstep hs hrun ht
  subst hout
  cases hs with
  | @answered cx c s r _ hc =>
      have hsame : s = w₀.canister := State.called_refused hc
      refine ⟨fun _ => ?_, fun _ => .single ?_⟩
      · rintro ⟨_, _, _, _, _, hev, -⟩
        cases hev
      · rw [hsame]
        exact State.shifts_refl _
  | @resumed now id r moved p s reply _ hp hr =>
      have hself : ∀ w₂ : World E, messages (⟨w₀, .reply now id r moved, .done (.error msg), w₂⟩ :: older)
          = ⟨w₀, .reply now id r moved, .done (.error msg), w₂⟩ :: older.filter (OfCall id) := by
        intro w₂
        refine (filter_reply older id id w₀ w₂ now r moved _).trans ?_
        rw [if_pos rfl]
      rw [hself] at hmoved ⊢
      have hmoved := hmoved _ List.mem_cons_self p hp
      cases hpays : p.sentTo with
      | some ledger =>
          refine ⟨fun _ => ?_, fun _ => ?_⟩
          · rintro ⟨_, _, _, _, _, hev, hp', -⟩
            cases hev
            rw [hp] at hp'
            cases hp'
            cases hpays
          · exact payment_leaves_no_trace (run_balanced hX hV hrun)
              (run_invariant rfl guarded_init (fun _ _ _ _ hg _ hs => guarded_step hg hs) hrun)
              ht hp (by rw [hpays]; rfl) hmoved hr
      | none =>
          cases p with
          | setHarbergerConfig c =>
              obtain ⟨p', hp', hresume⟩ := resume_of_step hstep
              rw [hp] at hp'
              cases hp'
              exact config_leaves_no_trace hX hK (run_catalogued hrun)
                (run_mirrored hC .fresh hrun) ht hp (State.finish_error hresume)
          | _ => cases hpays

end World

namespace Script

/-- A name is won and held; a payout of what the auction left its winner is refused by the ledger. -/
def refusedPayout : List Event :=
  opening ++ winning 1 2 "abc" "h/x" 1000 2000 5 ++
    [.call (caller 2 30) (.withdraw 500), .reply 40 2 (.error (.nothingMoved "ledger busy")) 0]

/-- A name is won and held; then a controller asks for a rate that no config may have. -/
def misconfigured : List Event :=
  opening ++ winning 1 2 "abc" "h/x" (10 ^ 17) (2 * 10 ^ 17) 5 ++
    [.call (controller 30) (.setHarbergerConfig { market with rateBps := 20000 }),
      .reply 30 2 (.ok 1) 0]

end Script

/-- The error a call was answered with. -/
def Output.refusal : Output → Option String
  | .done (.error msg) => some msg
  | _ => none

lemma Output.refusal_eq_some {o : Output} {msg : String} (h : o.refusal = some msg) :
    o = .done (.error msg) := by
  cases o with
  | done r =>
      cases r with
      | ok v => cases h
      | error e =>
          cases h
          rfl
  | awaiting p => cases h
  | upgraded => cases h

namespace World

theorem refused_leaves_no_trace_payout : ∃ (tr : History Env.reference) (w : World Env.reference)
    (e : Entry (World Env.reference) Event Output),
    Run (machine Env.reference) lawful init (e :: tr) w ∧
      (e :: tr).reverse.map Entry.event = Script.refusedPayout ∧
      e.out = .done (.error "ledger busy") ∧ (messages (e :: tr)).length = 2 ∧
      (NoTrace (messages (e :: tr)) ↔ ¬ SettledInVain e) := by
  obtain ⟨tr, w, hr, hevents, hp⟩ := Machine.exists_run_of_exec (machine Env.reference) lawful init
    Script.refusedPayout (fun tr _ => (∀ m ∈ messages tr, MovedNothing m) ∧
      (messages tr).length = 2 ∧ (tr.head?.bind fun e => e.out.refusal) = some "ledger busy")
      (by decide +kernel)
  obtain ⟨hmoved, hlength, hrefusal⟩ := hp
  cases tr with
  | nil => cases hrefusal
  | cons e tr =>
      have hout := Output.refusal_eq_some hrefusal
      have htr : e :: tr = [] ++ e :: tr := rfl
      exact ⟨tr, w, e, hr, hevents, hout, hlength, refused_leaves_no_trace Reference.auction_taxLaws
        Reference.auction_vickreyLaws Reference.certification_certLaws
        Reference.certification_keepsStored hr htr hout hmoved⟩

/-- **A refused call that leaves a trace**: the rate is refused, and the tax of five nanoseconds at the old
one is in the treasury. -/
theorem refused_config_settles : ∃ (tr : History Env.reference) (w : World Env.reference)
    (e : Entry (World Env.reference) Event Output),
    Run (machine Env.reference) lawful init (e :: tr) w ∧
      (e :: tr).reverse.map Entry.event = Script.misconfigured ∧
      e.out = .done (.error "rate_bps above 10000") ∧
      (∀ m ∈ messages (e :: tr), MovedNothing m) ∧
      e.post.canister.taxCollected = e.pre.canister.taxCollected + 15 ∧
      ¬ NoTrace (messages (e :: tr)) := by
  obtain ⟨tr, w, hr, hevents, hp⟩ := Machine.exists_run_of_exec (machine Env.reference) lawful init
    Script.misconfigured (fun tr _ => (∀ m ∈ messages tr, MovedNothing m) ∧
      (tr.head?.bind fun e => e.out.refusal) = some "rate_bps above 10000" ∧
      ∀ e ∈ tr.head?, e.post.canister.taxCollected = e.pre.canister.taxCollected + 15)
      (by decide +kernel)
  obtain ⟨hmoved, hrefusal, htax⟩ := hp
  cases tr with
  | nil => cases hrefusal
  | cons e tr =>
      have htax := htax e rfl
      refine ⟨tr, w, e, hr, hevents, Output.refusal_eq_some hrefusal, hmoved, htax, fun hno => ?_⟩
      have hrest := congrArg (fun t : State Env.reference => t.taxCollected)
        (hno.rest e (mem_messages tr e))
      change e.post.canister.taxCollected = e.pre.canister.taxCollected at hrest
      omega

end World
