import IcNameService.Core.Machine
import IcNameService.Canister.Lifecycle
import IcNameService.Canister.Messages

/-!
# The canister among its callers and the ledger

A `World` is the canister with its suspended calls.  Any message may come next: a call by anyone, the
ledger's reply to any suspended call, or an upgrade once no call is suspended.  Time never goes
back.  Two ghosts stand beside the canister: `account`, the cycles its own ledger calls have put
into and not taken out of its ledger account, and `volume`, the cycles those calls have moved or set
out to move in all.

* `World.machine` — the system as a machine; a run is a history of messages in any order.
* `lawful` — what the ledger promises: which replies go with which movements, and that the cycles
  ever moved fit a `u128`.
* `Stepped`, `stepped_of_step` — what one message does to the world.
-/

/-- The canister, the calls it has suspended, and the ghosts. -/
structure World (E : Env) where
  canister : State E
  pending : OrdMap ℕ Pending
  nextId : ℕ
  now : ℕ
  /-- Ghost: cycles in the ledger account by this canister's own calls. -/
  account : ℤ
  /-- Ghost: cycles moved, or set out to be moved, in all. -/
  volume : ℕ

/-- One message. -/
inductive Event
  | call (cx : Ctx) (c : Call)
  /-- The ledger's reply to a suspended call, and what the ledger call moved. -/
  | reply (now id : ℕ) (r : Except Failure ℕ) (moved : ℤ)
  | upgrade (now : ℕ)
  deriving Repr

/-- What a message leaves behind for its caller. -/
inductive Output
  | done (r : Reply)
  | awaiting (p : Pending)
  | upgraded

namespace World

variable {E : Env}

/-- A world before its first message, around a given canister state. -/
def start (s : State E) : World E := ⟨s, OrdMap.empty, 0, 0, 0, 0⟩

/-- The world after `init`. -/
def init : World E := start State.init

/-- The cycles a method sets out to move by what it now awaits, besides what replies report. -/
def setOut : Progress → ℕ
  | .await (.fundSelf _ amount) => amount
  | _ => 0

/-- Take one message. -/
def step (w : World E) : Event → Option (World E × Output)
  | .call cx c =>
      if cx.now < w.now then none
      else
        match w.canister.call cx c with
        | (s, .done r) => some ({ w with canister := s, now := cx.now }, .done r)
        | (s, .await p) =>
            some ({ w with
              canister := s
              now := cx.now
              pending := w.pending.insert w.nextId p
              nextId := w.nextId + 1 }, .awaiting p)
  | .reply now id r moved =>
      if now < w.now then none
      else
        match w.pending.get id with
        | none => none
        | some p =>
            let (s, progress) := w.canister.resume now r p
            let w := { w with
              canister := s
              now := now
              account := w.account + moved
              volume := w.volume + moved.toNat + setOut progress }
            match progress with
            | .done reply => some ({ w with pending := w.pending.erase id }, .done reply)
            | .await p => some ({ w with pending := w.pending.insert id p }, .awaiting p)
  | .upgrade now =>
      if now < w.now ∨ w.pending.entries ≠ [] then none
      else
        match w.canister.postUpgrade none with
        | .error _ => none
        | .ok s => some ({ w with canister := s, now := now }, .upgraded)

/-- The system. -/
def machine (E : Env) : Machine (World E) Event Output := ⟨step⟩

/-! ## What the ledger promises -/

/-- A pull of `amount`: all of it on success, none of it on a failure that moved nothing, some of it
when the reply does not say. -/
def pullLaw (amount : ℕ) (moved : ℤ) : Except Failure ℕ → Bool
  | .ok _ => moved = amount
  | .error (.nothingMoved _) => moved = 0
  | .error _ => 0 ≤ moved ∧ moved ≤ amount

/-- A payout that debits `amount`, fee included. -/
def payLaw (amount : ℕ) (moved : ℤ) : Except Failure ℕ → Bool
  | .ok _ => moved = -amount
  | .error (.nothingMoved _) => moved = 0
  | .error _ => -amount ≤ moved ∧ moved ≤ 0

/-- A `fund_self` withdrawal: like a payout, but when the fee was charged the rest came back. -/
def fundLaw (amount fee : ℕ) (moved : ℤ) : Except Failure ℕ → Bool
  | .error (.feeCharged _) => moved = -fee
  | r => payLaw amount moved r

/-- Which movement goes with which reply. -/
def ledgerLaw (r : Except Failure ℕ) (moved : ℤ) : Pending → Bool
  | .buy c => pullLaw c.total moved r
  | .deposit c => pullLaw c.amount moved r
  | .bid c => pullLaw c.deposit moved r
  | .withdraw _ _ amount => payLaw amount moved r
  | .fundSelf cfg amount => fundLaw amount cfg.fee moved r
  | .fundSelfFee _ _ => moved = 0
  | .setHarbergerConfig _ => moved = 0

/-- The ledger keeps its laws, and the cycles ever moved fit a `u128`. -/
def lawful (w : World E) : Event → Prop
  | .reply now id r moved => ∀ p ∈ w.pending.get id,
      ledgerLaw r moved p = true ∧
        w.volume + moved.toNat + setOut (w.canister.resume now r p).2 < u128Max
  | _ => True

/-- No assumption at all. -/
def anyEvent (_ : World E) (_ : Event) : Prop := True

instance (w : World E) : ∀ e, Decidable (lawful w e)
  | .call _ _ => inferInstanceAs (Decidable True)
  | .reply now id r moved => inferInstanceAs (Decidable (∀ p ∈ w.pending.get id,
      ledgerLaw r moved p = true ∧
        w.volume + moved.toNat + setOut (w.canister.resume now r p).2 < u128Max))
  | .upgrade _ => inferInstanceAs (Decidable True)

instance (w : World E) (e : Event) : Decidable (anyEvent w e) := inferInstanceAs (Decidable True)

/-! ## What one message does -/

/-- What a message does to the world. -/
inductive Stepped (w : World E) : Event → World E → Output → Prop
  | answered {cx : Ctx} {c : Call} {s : State E} {r : Reply} :
      w.now ≤ cx.now → State.Called w.canister cx c s (.done r) →
      Stepped w (.call cx c) { w with canister := s, now := cx.now } (.done r)
  | suspended {cx : Ctx} {c : Call} {s : State E} {p : Pending} :
      w.now ≤ cx.now → State.Called w.canister cx c s (.await p) →
      Stepped w (.call cx c)
        { w with
          canister := s
          now := cx.now
          pending := w.pending.insert w.nextId p
          nextId := w.nextId + 1 } (.awaiting p)
  | resumed {now id : ℕ} {r : Except Failure ℕ} {moved : ℤ} {p : Pending} {s : State E}
      {reply : Reply} :
      w.now ≤ now → w.pending.get id = some p →
      State.Resumed w.canister now r p s (.done reply) →
      Stepped w (.reply now id r moved)
        { w with
          canister := s
          now := now
          account := w.account + moved
          volume := w.volume + moved.toNat
          pending := w.pending.erase id } (.done reply)
  /-- Only `fund_self` awaits twice. -/
  | continued {now id : ℕ} {moved : ℤ} {cfg : Config} {amount : ℕ} :
      w.now ≤ now → w.pending.get id = some (.fundSelfFee cfg amount) →
      Stepped w (.reply now id (.ok cfg.fee) moved)
        { w with
          canister := w.canister.noteTaxWithdrawn amount
          now := now
          account := w.account + moved
          volume := w.volume + moved.toNat + amount
          pending := w.pending.insert id (.fundSelf cfg amount) } (.awaiting (.fundSelf cfg amount))
  | upgraded {now : ℕ} :
      w.now ≤ now → w.pending = OrdMap.empty →
      Stepped w (.upgrade now)
        { w with canister := w.canister.resetHeap.certifyRebuild, now := now }
        .upgraded

lemma eq_empty_of_entries {m : OrdMap ℕ Pending} (h : m.entries = []) : m = OrdMap.empty := by
  cases m
  simp only at h
  subst h
  rfl

/-- **One message does what `Stepped` says and nothing else.** -/
theorem stepped_of_step {w w' : World E} {e : Event} {o : Output}
    (hschema : w.canister.schema = some schemaCurrent) (h : w.step e = some (w', o)) :
    Stepped w e w' o := by
  cases e with
  | call cx c =>
      simp only [step] at h
      split_ifs at h with hnow
      have hcalled := State.call_called w.canister cx c
      cases hc : w.canister.call cx c with
      | mk s progress =>
          rw [hc] at h hcalled
          cases progress with
          | done r =>
              cases h
              exact .answered (not_lt.mp hnow) hcalled
          | await p =>
              cases h
              exact .suspended (not_lt.mp hnow) hcalled
  | reply now id r moved =>
      simp only [step] at h
      split_ifs at h with hnow
      cases hp : w.pending.get id with
      | none => simp [hp] at h
      | some p =>
          have hresumed := State.resume_resumed w.canister now r p
          cases hc : w.canister.resume now r p with
          | mk s progress =>
              simp only [hp, hc] at h
              rw [hc] at hresumed
              cases progress with
              | done reply =>
                  cases h
                  exact .resumed (not_lt.mp hnow) hp hresumed
              | await p' =>
                  cases h
                  cases hresumed with
                  | feeAgreed hr =>
                      subst hr
                      exact .continued (not_lt.mp hnow) hp
  | upgrade now =>
      simp only [step] at h
      split_ifs at h with hnow
      rw [not_or, not_not] at hnow
      rw [State.postUpgrade_current hschema] at h
      cases h
      exact .upgraded (not_lt.mp hnow.1) (eq_empty_of_entries hnow.2)

end World
