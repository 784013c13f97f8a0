import IcNameService.Books.Messages
import IcNameService.System.Histories

/-!
# The books match the ledger account

What the canister says it holds, and what its own ledger calls have left in its ledger account.  A
call that pays out takes its amount from the books when it starts and from the account when the
ledger does: between the two the account is ahead by `outgoing`.  A reply that cannot be decoded
leaves the account anywhere between the two, and `unreconciled` says how far that can be.

* `Balanced` — the invariant of a world; `balanced_step` is the one step lemma.
* `reply_moves` — what a reply puts into the books is what the ledger moved, up to the amount it
  left unconfirmed.
* `books_match_account` — the two sides agree whenever no ledger call is outstanding.
-/

/-! ## What a suspended call means to the account -/

namespace Pending

/-- Cycles out of the books and still in the account. -/
def outgoing : Pending → ℕ
  | .withdraw _ _ amount => amount
  | .fundSelf _ amount => amount
  | _ => 0

/-- Cycles noted as withdrawn from the treasury and still in the account. -/
def funding : Pending → ℕ
  | .fundSelf _ amount => amount
  | _ => 0

/-- Awaiting a fee: nothing will move. -/
def asksFee : Pending → Prop
  | .fundSelfFee _ _ => True
  | .setHarbergerConfig _ => True
  | _ => False

lemma outgoing_of_asksFee {p : Pending} (h : p.asksFee) : p.outgoing = 0 := by
  cases p <;> first | rfl | cases h

end Pending

namespace State

variable {E : Env} {s s' : State E}

/-- Tax noted as withdrawn that a reply gives back to the treasury. -/
def undone (reply : Except Failure ℕ) : Pending → ℕ
  | .fundSelf cfg amount => match reply with
      | .error (.nothingMoved _) => amount
      | .error (.feeCharged _) => amount - cfg.fee
      | _ => 0
  | _ => 0

/-- The amount of a ledger call whose movement the reply does not say. -/
def unconfirmed (reply : Except Failure ℕ) (p : Pending) : ℕ :=
  match reply, p with
  | .ok _, _ => 0
  | .error (.nothingMoved _), _ => 0
  | .error _, .buy c => c.total
  | .error _, .deposit c => c.amount
  | .error _, .bid c => c.deposit
  | .error _, .withdraw _ _ amount => amount
  | .error (.undecodable _), .fundSelf _ amount => amount
  | _, _ => 0

lemma undone_le_funding (reply : Except Failure ℕ) (p : Pending) :
    undone reply p ≤ p.funding := by
  cases p with
  | fundSelf cfg amount =>
      rcases reply with (m | m | m) | n
      · exact le_rfl
      · exact Nat.sub_le _ _
      · exact Nat.zero_le _
      · exact Nat.zero_le _
  | _ => exact le_rfl

/-- A question for the fee moves nothing, whatever comes back. -/
lemma unconfirmed_of_asksFee (reply : Except Failure ℕ) {p : Pending} (h : p.asksFee) :
    unconfirmed reply p = 0 := by
  cases p with
  | fundSelfFee => rcases reply with (m | m | m) | n <;> rfl
  | setHarbergerConfig => rcases reply with (m | m | m) | n <;> rfl
  | _ => cases h

/-! ## The counters after each message -/

lemma SameSettings.counters (h : SameSettings s s') :
    s'.taxWithdrawn = s.taxWithdrawn ∧ s'.unreconciled = s.unreconciled :=
  ⟨h.taxWithdrawn, h.unreconciled⟩

lemma called_counters {cx : Ctx} {c : Call} {p : Progress} (h : Called s cx c s' p) :
    s'.taxWithdrawn = s.taxWithdrawn ∧ s'.unreconciled = s.unreconciled := by
  cases h with
  | refused => exact ⟨rfl, rfl⟩
  | administered h => cases h <;> exact ⟨rfl, rfl⟩
  | announced _ _ _ _ h =>
      cases h with
      | fresh => exact (sameSettings_commit _ _).counters
      | allowed => exact (sameSettings_commit _ _).counters
  | underHandle => exact (sameSettings_commit _ _).counters
  | amended =>
      exact (sameSettings_commitFlat _ _ _).counters
  | discarded => exact ⟨rfl, rfl⟩
  | released =>
      exact (sameSettings_release _ _ _ _).counters
  | revealed => exact ⟨rfl, rfl⟩
  | closed h => exact (sameSettings_close h).counters
  | pulling => exact ⟨rfl, rfl⟩
  | withdrawing _ _ h =>
      obtain ⟨-, credits, rfl, -⟩ := takeCredit_ok h
      exact ⟨rfl, rfl⟩
  | funding => exact ⟨rfl, rfl⟩
  | configuring => exact ⟨rfl, rfl⟩

/-- What a call sets out to pay is what it took out of the books. -/
lemma called_outgoing {cx : Ctx} {c : Call} {p : Pending} (h : Called s cx c s' (.await p)) :
    p.outgoing = takenOut (.await p) ∧ p.funding = 0 := by
  cases h with
  | pulling hp => cases hp <;> exact ⟨rfl, rfl⟩
  | withdrawing => exact ⟨rfl, rfl⟩
  | funding => exact ⟨rfl, rfl⟩
  | configuring => exact ⟨rfl, rfl⟩

/-- **What a reply does to the counters**: it undoes a withdrawal that did not happen, and adds what
it leaves unconfirmed. -/
lemma resumed_counters {now : ℕ} {reply : Except Failure ℕ} {p : Pending} {r : Reply}
    (h : Resumed s now reply p s' (.done r)) :
    s'.taxWithdrawn = s.taxWithdrawn - undone reply p ∧
      satAdd s.unreconciled (unconfirmed reply p) ≤ s'.unreconciled ∧
      s'.unreconciled ≤ s.unreconciled + unconfirmed reply p := by
  have hsame : ∀ {x : State E}, x.taxWithdrawn = s.taxWithdrawn ∧ x.unreconciled = s.unreconciled →
      unconfirmed reply p = 0 → undone reply p = 0 →
      x.taxWithdrawn = s.taxWithdrawn - undone reply p ∧
        satAdd s.unreconciled (unconfirmed reply p) ≤ x.unreconciled ∧
        x.unreconciled ≤ s.unreconciled + unconfirmed reply p := by
    intro x ⟨hw, hu⟩ h₀ h₁
    rw [hw, hu, h₀, h₁]
    exact ⟨rfl, satAdd_le _ _, le_rfl⟩
  have hok : ∀ {n : ℕ} {x : State E}, reply = .ok n →
      x.taxWithdrawn = s.taxWithdrawn ∧ x.unreconciled = s.unreconciled →
      x.taxWithdrawn = s.taxWithdrawn - undone reply p ∧
        satAdd s.unreconciled (unconfirmed reply p) ≤ x.unreconciled ∧
        x.unreconciled ≤ s.unreconciled + unconfirmed reply p := by
    rintro n x rfl hx
    exact hsame hx (by cases p <;> rfl) (by cases p <;> rfl)
  cases h with
  | @pullFailed _ payer amount f hp hreply =>
      subst hreply
      have hundone : undone (.error f) p = 0 := by cases hp <;> rfl
      have hun : unconfirmed (.error f) p = if f.didNothing then 0 else amount := by
        cases hp <;> cases f <;> rfl
      rw [hundone, hun]
      simp only [State.pullFailed]
      split_ifs
      · exact ⟨rfl, satAdd_le _ _, le_rfl⟩
      · exact ⟨rfl, le_rfl, satAdd_le _ _⟩
  | bought hreply =>
      exact hok hreply ((sameSettings_addCredit s.dropInFlight _ _).trans
        ((sameSettings_noteHandedOver _ _ _).trans (sameSettings_commitFlat _ _ _))).counters
  | toppedUp hreply =>
      exact hok hreply (sameSettings_commitFlat _ _ _).counters
  | creditedBack _ _ _ hreply =>
      exact hok hreply (sameSettings_addCredit s.dropInFlight _ _).counters
  | placed hreply hp =>
      exact hok hreply ((sameSettings_placeBid hp).trans (sameSettings_addCredit _ _ _)).counters
  | bidRefused hreply hp =>
      exact hok hreply ((sameSettings_placeBid hp).trans (sameSettings_addCredit _ _ _)).counters
  | paid hreply => exact hok hreply ⟨rfl, rfl⟩
  | payRefused hreply =>
      subst hreply
      exact hsame (sameSettings_addCredit s _ _).counters rfl rfl
  | @payUnconfirmed _ _ amount f _ hreply hmoved =>
      subst hreply
      have hun : ∀ cfg caller, unconfirmed (.error f) (.withdraw cfg caller amount) = amount := by
        cases f with
        | nothingMoved m => simp [Failure.didNothing] at hmoved
        | feeCharged m => exact fun _ _ => rfl
        | undecodable m => exact fun _ _ => rfl
      rw [hun]
      exact ⟨rfl, le_rfl, satAdd_le _ _⟩
  | feeRefused => exact hsame ⟨rfl, rfl⟩ (unconfirmed_of_asksFee reply trivial) rfl
  | funded hreply => exact hok hreply ⟨rfl, rfl⟩
  | fundRefused hreply =>
      subst hreply
      exact ⟨rfl, satAdd_le _ _, le_rfl⟩
  | fundCharged hreply =>
      subst hreply
      exact ⟨rfl, satAdd_le _ _, le_rfl⟩
  | fundUnconfirmed _ hreply =>
      subst hreply
      exact ⟨rfl, le_rfl, satAdd_le _ _⟩
  | configRefused => exact hsame ⟨rfl, rfl⟩ (unconfirmed_of_asksFee reply trivial) rfl
  | configSettled hreply =>
      exact hok hreply (sameSettings_settleAll s _ _).counters
  | @configured c fee s₁ hreply _ _ hs' =>
      have hcount : s₁.taxWithdrawn = s.taxWithdrawn ∧ s₁.unreconciled = s.unreconciled := by
        subst hs'
        split_ifs
        · exact (sameSettings_settleAll s _ _).counters
        · exact ⟨rfl, rfl⟩
      exact hok (x := { s₁ with harberger := some { c with fee := fee } }) hreply hcount

end State

namespace World

variable {E : Env}

/-! ## The invariant -/

/-- The books: what the canister holds, less the tax it has withdrawn. -/
def books (w : World E) : ℤ := (w.canister.value : ℤ) - w.canister.taxWithdrawn

/-- Cycles out of the books and still in the account, over all suspended calls. -/
def outgoing (w : World E) : ℕ := w.pending.total fun _ p => p.outgoing

/-- Cycles noted as withdrawn from the treasury and still in the account. -/
def funding (w : World E) : ℕ := w.pending.total fun _ p => p.funding

/-- **The account between two messages.**  It is ahead of the books by what is going out, and by no
more than that and what could not be confirmed. -/
structure Balanced (w : World E) : Prop where
  tidy : w.canister.Tidy
  carried : Suspended State.Carried w
  numbered : Numbered w
  volume_lt : w.volume < u128Max
  account_le : w.account + w.canister.taxWithdrawn ≤ w.volume
  withdrawn_le : w.canister.taxWithdrawn ≤ w.volume
  funding_le : w.funding ≤ w.canister.taxWithdrawn
  lower : w.books + w.outgoing ≤ w.account
  upper : w.account ≤ w.books + w.outgoing + w.canister.unreconciled

namespace Balanced

variable {w : World E}

/-- All that is held was once moved. -/
lemma value_le (h : Balanced w) : w.canister.value + w.outgoing ≤ w.volume := by
  have hl := h.lower
  have ha := h.account_le
  simp only [books] at hl
  omega

end Balanced

lemma tidy_init : (State.init (E := E)).Tidy where
  shape := shape_init
  oneBid name r h := by cases h

lemma balanced_init : Balanced (init (E := E)) where
  tidy := tidy_init
  carried := suspended_start _ _
  numbered := numbered_start _
  volume_lt := show 0 < u128Max by decide
  account_le := le_rfl
  withdrawn_le := le_rfl
  funding_le := le_rfl
  lower := le_rfl
  upper := le_rfl

/-! ## What a reply moves -/

/-- **A reply puts into the books what the ledger moved**, up to what it leaves unconfirmed. -/
lemma reply_moves {reply : Except Failure ℕ} {moved : ℤ} {p : Pending}
    (hlaw : ledgerLaw reply moved p = true) (hcarried : State.Carried p) :
    (State.putIn reply p : ℤ) + State.undone reply p ≤ moved + p.outgoing ∧
      moved + p.outgoing ≤
        State.putIn reply p + State.undone reply p + State.unconfirmed reply p := by
  cases p with
  | fundSelfFee cfg amount =>
      have hmoved : moved = 0 := by simpa [ledgerLaw] using hlaw
      subst hmoved
      rcases reply with (m | m | m) | n <;> exact ⟨le_rfl, le_rfl⟩
  | setHarbergerConfig c =>
      have hmoved : moved = 0 := by simpa [ledgerLaw] using hlaw
      subst hmoved
      rcases reply with (m | m | m) | n <;> exact ⟨le_rfl, le_rfl⟩
  | fundSelf cfg amount =>
      -- `fee < amount`, so what comes back after a charged fee is the rest
      have hfee : cfg.fee < amount := hcarried
      rcases reply with (m | m | m) | n <;>
        simp [ledgerLaw, fundLaw, payLaw] at hlaw <;>
        simp only [State.putIn, State.undone, State.unconfirmed, Pending.outgoing] <;> omega
  | _ =>
      rcases reply with (m | m | m) | n <;>
        simp [ledgerLaw, pullLaw, payLaw] at hlaw <;>
        simp only [State.putIn, State.undone, State.unconfirmed, Pending.outgoing] <;> omega

/-- What comes into the books was pulled, or was still going out. -/
lemma putIn_le {reply : Except Failure ℕ} {moved : ℤ} {p : Pending}
    (hlaw : ledgerLaw reply moved p = true) :
    State.putIn reply p ≤ moved.toNat + p.outgoing := by
  cases p <;> rcases reply with (m | m | m) | n <;>
    simp [ledgerLaw, pullLaw, payLaw, fundLaw] at hlaw <;>
    simp only [State.putIn, Pending.outgoing] <;> omega

/-! ## Every message keeps the balance -/

lemma balanced_call {w : World E} {cx : Ctx} {c : Call} {s : State E} {pr : Progress}
    (hX : E.auction.TaxLaws) (hV : E.auction.VickreyLaws) (h : Balanced w)
    (hc : State.Called w.canister cx c s pr) :
    s.Tidy ∧ s.value + State.takenOut pr = w.canister.value ∧
      s.taxWithdrawn = w.canister.taxWithdrawn ∧ s.unreconciled = w.canister.unreconciled := by
  have hle := h.value_le
  have hlt := h.volume_lt
  exact ⟨⟨State.called_shape h.tidy.shape hc, State.called_oneBid hV h.tidy.oneBid hc⟩,
    State.called_value hX hV h.tidy (by omega) hc, State.called_counters hc⟩

/-- **Every message keeps the balance**, as long as the ledger keeps its laws. -/
theorem balanced_step (hX : E.auction.TaxLaws) (hV : E.auction.VickreyLaws) {w w' : World E}
    {e : Event} {o : Output} (h : Balanced w) (hlaw : lawful w e) (hs : Stepped w e w' o) :
    Balanced w' := by
  have hcarried' := suspended_carried_step h.carried hs
  have hnumbered' := numbered_step h.numbered hs
  have hvalue := h.value_le
  obtain ⟨htidy, hcarried, hnumbered, hvolume, haccount, hwithdrawn, hfunding, hlower, hupper⟩ := h
  have hbalanced : Balanced w := ⟨htidy, hcarried, hnumbered, hvolume, haccount, hwithdrawn,
    hfunding, hlower, hupper⟩
  simp only [books, outgoing, funding] at *
  cases hs with
  | @answered cx c s r hnow hc =>
      obtain ⟨htidy', hval, hw, hu⟩ := balanced_call hX hV hbalanced hc
      simp only [State.takenOut] at hval
      refine ⟨htidy', hcarried', hnumbered', hvolume, ?_, ?_, ?_, ?_, ?_⟩ <;>
        simp only [books, outgoing, funding, hw, hu] <;> omega
  | @suspended cx c s p hnow hc =>
      obtain ⟨htidy', hval, hw, hu⟩ := balanced_call hX hV hbalanced hc
      obtain ⟨hout, hfund⟩ := State.called_outgoing hc
      have hfresh := hnumbered.fresh
      have hout' := OrdMap.total_insert_of_zero (f := fun _ p => p.outgoing) (m := w.pending)
        (k := w.nextId) p (by rw [hfresh]; rfl)
      have hfund' := OrdMap.total_insert_of_zero (f := fun _ p => p.funding) (m := w.pending)
        (k := w.nextId) p (by rw [hfresh]; rfl)
      refine ⟨htidy', hcarried', hnumbered', hvolume, ?_, ?_, ?_, ?_, ?_⟩ <;>
        simp only [books, outgoing, funding, hw, hu, hout', hfund'] <;> omega
  | @resumed now id r moved p s reply hnow hget hr =>
      obtain ⟨hmoves, hfit⟩ := hlaw p hget
      obtain ⟨hlow, hup⟩ := reply_moves hmoves (hcarried id p hget)
      have hput := putIn_le hmoves
      have hout := OrdMap.total_erase_add (f := fun _ p => p.outgoing) hget
      have hfund := OrdMap.total_erase_add (f := fun _ p => p.funding) hget
      have hval := State.resumed_value hX hV htidy (hcarried id p hget)
        (by omega : w.canister.value + State.putIn r p < u128Max) hr
      obtain ⟨hw, hule, hule'⟩ := State.resumed_counters hr
      have hundone := State.undone_le_funding r p
      have htidy' : s.Tidy := ⟨State.resumed_shape htidy.shape (hcarried id p hget) hr,
        State.resumed_oneBid hV htidy.oneBid hr⟩
      have haccount' : w.account + moved + (s.taxWithdrawn : ℤ) ≤ w.volume + moved.toNat := by
        omega
      refine ⟨htidy', hcarried', hnumbered', ?_, haccount', ?_, ?_, ?_, ?_⟩ <;>
        simp only [books, outgoing, funding]
      · omega
      · omega
      · omega
      · omega
      · -- an unreconciled total at the top of its range covers any account
        rcases satAdd_cases w.canister.unreconciled (State.unconfirmed r p) with hsat | ⟨hsat, -⟩
        · omega
        · omega
  | @continued now id moved cfg amount hnow hget =>
      obtain ⟨hmoves, hfit⟩ := hlaw _ hget
      have hmoved : moved = 0 := by simpa [ledgerLaw] using hmoves
      subst hmoved
      have hout : (w.pending.insert id (.fundSelf cfg amount)).total (fun _ p => p.outgoing) =
          w.pending.total (fun _ p => p.outgoing) + amount :=
        OrdMap.total_insert_of_zero _ (by rw [hget]; rfl)
      have hfund : (w.pending.insert id (.fundSelf cfg amount)).total (fun _ p => p.funding) =
          w.pending.total (fun _ p => p.funding) + amount :=
        OrdMap.total_insert_of_zero _ (by rw [hget]; rfl)
      have hset : setOut (w.canister.resume now (.ok cfg.fee) (.fundSelfFee cfg amount)).2 =
          amount := by
        simp [State.resume, State.resumeFundSelfFee, setOut]
      rw [hset] at hfit
      have hnoted : (w.canister.noteTaxWithdrawn amount).taxWithdrawn =
          w.canister.taxWithdrawn + amount := satAdd_of_le (by omega)
      have hval : (w.canister.noteTaxWithdrawn amount).value = w.canister.value := rfl
      have hun : (w.canister.noteTaxWithdrawn amount).unreconciled = w.canister.unreconciled := rfl
      refine ⟨⟨htidy.shape.congr rfl rfl, htidy.oneBid⟩, hcarried', hnumbered', ?_, ?_, ?_, ?_, ?_,
        ?_⟩ <;>
        simp only [books, outgoing, funding, hnoted, hval, hun, hout, hfund] <;> omega
  | upgraded hnow hempty =>
      refine ⟨⟨htidy.shape.congr rfl rfl, htidy.oneBid⟩, hcarried', hnumbered', hvolume, haccount,
        hwithdrawn, hfunding, ?_, ?_⟩
      · exact hlower
      · exact hupper

/-! ## The books and the account -/

variable {w : World E} {tr : History E}

/-- What every lawful history reaches is balanced. -/
theorem run_balanced (hX : E.auction.TaxLaws) (hV : E.auction.VickreyLaws)
    (h : Run (machine E) lawful init tr w) : Balanced w :=
  run_invariant rfl balanced_init (fun _ _ _ _ hb hlaw hs => balanced_step hX hV hb hlaw hs) h

/-- No ledger call that moves cycles is outstanding. -/
def Quiet (w : World E) : Prop := Suspended Pending.asksFee w

lemma outgoing_of_quiet (h : Quiet w) : w.outgoing = 0 :=
  OrdMap.total_eq_zero.mpr fun id p hget => Pending.outgoing_of_asksFee (h id p hget)

/-- The reply says what moved: it decodes, and a charged fee is a `fund_self`'s. -/
def saysWhatMoved : Except Failure ℕ → Pending → Bool
  | .ok _, _ => true
  | .error (.nothingMoved _), _ => true
  | .error (.feeCharged _), .fundSelf _ _ => true
  | _, _ => false

/-- The message is no reply, or one that says what moved. -/
def Decoded (w : World E) : Event → Prop
  | .reply _ id r _ => ∀ p ∈ w.pending.get id, saysWhatMoved r p = true
  | _ => True

instance (w : World E) : ∀ e, Decidable (Decoded w e)
  | .call _ _ => inferInstanceAs (Decidable True)
  | .reply _ id r _ =>
      inferInstanceAs (Decidable (∀ p ∈ w.pending.get id, saysWhatMoved r p = true))
  | .upgrade _ => inferInstanceAs (Decidable True)

lemma unconfirmed_of_saysWhatMoved {r : Except Failure ℕ} {p : Pending}
    (h : saysWhatMoved r p = true) : State.unconfirmed r p = 0 := by
  rcases r with (m | m | m) | n
  · rfl
  · cases p with
    | fundSelf => rfl
    | _ => simp [saysWhatMoved] at h
  · cases p <;> simp [saysWhatMoved] at h
  · rfl

lemma unreconciled_step {w' : World E} {e : Event} {o : Output} (hd : Decoded w e)
    (h : Stepped w e w' o) : w'.canister.unreconciled ≤ w.canister.unreconciled := by
  cases h with
  | answered _ hc => exact (State.called_counters hc).2.le
  | suspended _ hc => exact (State.called_counters hc).2.le
  | resumed _ hget hr =>
      have := (State.resumed_counters hr).2.2
      rwa [unconfirmed_of_saysWhatMoved (hd _ hget)] at this
  | continued => exact le_rfl
  | upgraded => exact le_rfl

/-- While every reply says what moved, nothing is unreconciled. -/
lemma unreconciled_of_decoded {ok : World E → Event → Prop} (h : Run (machine E) ok init tr w)
    (hd : ∀ e ∈ tr, Decoded e.pre e.event) : w.canister.unreconciled = 0 := by
  have key : (∀ e ∈ tr, Decoded e.pre e.event) → w.canister.unreconciled = 0 := by
    refine run_induction (I := fun tr w => (∀ e ∈ tr, Decoded e.pre e.event) →
      w.canister.unreconciled = 0) rfl (fun _ => rfl) ?_ h
    intro tr w e w' o _ ih _ hs hd
    have hle := unreconciled_step (hd _ List.mem_cons_self) hs
    rw [ih fun e' he' => hd e' (List.mem_cons_of_mem _ he')] at hle
    exact Nat.le_zero.mp hle
  exact key hd

/-- **The books match the ledger account.**  Whenever no ledger call that moves cycles is outstanding,
the account holds the books, and no more than the unreconciled amounts besides; if every reply said
what moved, it holds the books to the cycle. -/
theorem books_match_account (hX : E.auction.TaxLaws) (hV : E.auction.VickreyLaws)
    (h : Run (machine E) lawful init tr w) (hq : Quiet w) :
    w.books ≤ w.account ∧ w.account ≤ w.books + w.canister.unreconciled ∧
      ((∀ e ∈ tr, Decoded e.pre e.event) → w.account = w.books) := by
  have hb := run_balanced hX hV h
  have hlower := hb.lower
  have hupper := hb.upper
  rw [outgoing_of_quiet hq] at hlower hupper
  refine ⟨by omega, by omega, fun hd => ?_⟩
  rw [unreconciled_of_decoded h hd] at hupper
  omega

/-- A deposit is forfeited, and part of it withdrawn: what is left is in the account. -/
theorem books_match_account_funded :
    ∃ w : World Env.reference, w.account = w.books ∧ w.account = 40 := by
  obtain ⟨tr, w, hrun, -, hempty, hdecoded, haccount⟩ := Machine.exists_run_of_exec
    (machine Env.reference) lawful init
    (Script.forfeiting ++
      [.call (Script.controller 20) (.fundSelf 60), .reply 20 2 (.ok 1) 0,
        .reply 20 2 (.ok 0) (-60)])
    (fun tr w => w.pending.entries = [] ∧ (∀ e ∈ tr, Decoded e.pre e.event) ∧ w.account = 40)
    (by decide +kernel)
  have hquiet : Quiet w := fun id p hget => by
    rw [eq_empty_of_entries hempty] at hget
    cases hget
  exact ⟨w, (books_match_account Reference.auction_taxLaws Reference.auction_vickreyLaws hrun
    hquiet).2.2 hdecoded, haccount⟩

end World
