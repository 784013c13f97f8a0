import IcNameService.Books.Account
import IcNameService.Books.Ledger
import IcNameService.Directory.Index
import IcNameService.Resolution.Mirror

/-!
# What a refused call puts back

A method that awaits the ledger may have written before it knows the reply: the in-flight count, the
credit a withdrawal takes, the treasury counter.  `Shifts` says of one message that it wrote no more than
these three, and by how much; what the suspended call holds back is in `Pending`.

* `called_shifts` — what a message that suspends a call shifts.
* `resumed_shifts` — what the message that refuses it shifts, when nothing was moved at the ledger.
* `settleAll_eq_self` — committing what is stored changes nothing, so a settlement to the moment
  everything is settled to already does nothing.
-/

namespace Pending

/-- What the suspended call has taken from a credit. -/
def takenFrom (q : Principal) : Pending → ℕ
  | .withdraw _ caller amount => if caller = q then amount else 0
  | _ => 0

lemma takenFrom_le_outgoing (p : Pending) (q : Principal) : p.takenFrom q ≤ p.outgoing := by
  cases p with
  | withdraw cfg caller amount =>
      simp only [takenFrom, outgoing]
      split_ifs
      · exact le_rfl
      · exact Nat.zero_le _
  | _ => exact Nat.zero_le _

/-- The reply says that nothing was moved.  A question for the fee moves nothing whatever the answer. -/
def unmoved (reply : Except Failure ℕ) : Pending → Bool
  | .fundSelfFee _ _ => true
  | .setHarbergerConfig _ => true
  | _ =>
      match reply with
      | .error f => f.didNothing
      | .ok _ => false

lemma unmoved_of_pulling {reply : Except Failure ℕ} {p : Pending} {payer : Principal} {amount : ℕ}
    (h : p.unmoved reply = true) (hp : State.Pulling p payer amount) :
    ∃ f, reply = .error f ∧ f.didNothing = true := by
  cases reply with
  | ok block => cases hp <;> cases h
  | error f => cases hp <;> exact ⟨f, rfl, h⟩

end Pending

namespace State

variable {E : Env} {s s' : State E}

/-- Everything but the three amounts a suspended call holds back, and the ghost notes. -/
def rest (s : State E) : State E :=
  { s with credits := OrdMap.empty, taxWithdrawn := 0, inFlight := 0, notes := [] }

/-- The message wrote nothing but credits, the treasury counter and the in-flight count, and these by
the given amounts. -/
structure Shifts (s s' : State E) (credit : Principal → ℤ) (withdrawn inFlight : ℤ) : Prop where
  rest : s'.rest = s.rest
  credit : ∀ q, (s'.creditOf q : ℤ) = s.creditOf q + credit q
  withdrawn : (s'.taxWithdrawn : ℤ) = s.taxWithdrawn + withdrawn
  inFlight : (s'.inFlight : ℤ) = s.inFlight + inFlight

lemma shifts_refl (s : State E) : Shifts s s (fun _ => 0) 0 0 :=
  ⟨rfl, fun _ => (add_zero _).symm, (add_zero _).symm, (add_zero _).symm⟩

/-! ## Taking a credit and giving it back -/

lemma takeCredit_creditOf {p : Principal} {amount : ℕ} (h : s.takeCredit p amount = .ok s')
    (q : Principal) : (s'.creditOf q : ℤ) = s.creditOf q + -(if p = q then (amount : ℤ) else 0) := by
  obtain ⟨hle, credits, rfl, hcredits⟩ := takeCredit_ok h
  by_cases hq : p = q
  · subst hq
    rw [if_pos rfl]
    rcases hcredits with ⟨rfl, heq⟩ | rfl
    · simp only [creditOf, OrdMap.get_erase_self, Option.getD_none] at heq ⊢
      omega
    · simp only [creditOf, OrdMap.get_insert_self, Option.getD_some] at hle ⊢
      omega
  · rw [if_neg hq]
    rcases hcredits with ⟨rfl, -⟩ | rfl
    · simp [creditOf, OrdMap.get_erase_ne _ (Ne.symm hq)]
    · simp [creditOf, OrdMap.get_insert_ne _ _ (Ne.symm hq)]

lemma addCredit_creditOf {p : Principal} {amount : ℕ} (h : s.creditOf p + amount ≤ u128Max)
    (q : Principal) :
    ((s.addCredit p amount).creditOf q : ℤ) = s.creditOf q + if p = q then (amount : ℤ) else 0 := by
  by_cases hq : p = q
  · subst hq
    rw [if_pos rfl, creditOf_addCredit_self _ p h]
    push_cast
    rfl
  · rw [if_neg hq, creditOf_addCredit_ne _ _ (Ne.symm hq), add_zero]

/-! ## The messages of a call -/

/-- **A message that suspends a call** shifts what the call then holds back. -/
lemma called_shifts {cx : Ctx} {c : Call} {p : Pending} (h : Called s cx c s' (.await p)) :
    Shifts s s' (fun q => -(p.takenFrom q : ℤ)) p.funding p.guards := by
  cases h with
  | pulling hp => cases hp <;> exact ⟨rfl, fun _ => (add_zero _).symm, (add_zero _).symm, rfl⟩
  | withdrawing _ _ htake =>
      refine ⟨?_, fun q => ?_, ?_, ?_⟩
      · obtain ⟨-, credits, rfl, -⟩ := takeCredit_ok htake
        rfl
      · refine (takeCredit_creditOf htake q).trans ?_
        simp only [Pending.takenFrom]
        split_ifs <;> rfl
      · obtain ⟨-, credits, rfl, -⟩ := takeCredit_ok htake
        exact (add_zero _).symm
      · obtain ⟨-, credits, rfl, -⟩ := takeCredit_ok htake
        rfl
  | funding => exact ⟨rfl, fun _ => (add_zero _).symm, (add_zero _).symm, rfl⟩
  | configuring => exact ⟨rfl, fun _ => (add_zero _).symm, (add_zero _).symm, (add_zero _).symm⟩

/-- A call that is answered with an error has written nothing. -/
lemma called_refused {cx : Ctx} {c : Call} {e : String} (h : Called s cx c s' (.done (.error e))) :
    s' = s := by
  cases h with
  | refused => rfl

/-- **The message in which the fee arrives** notes the withdrawal that goes out next. -/
lemma noteTaxWithdrawn_shifts {amount : ℕ} (hfit : s.taxWithdrawn + amount ≤ u128Max) :
    Shifts s (s.noteTaxWithdrawn amount) (fun _ => 0) amount 0 := by
  refine ⟨rfl, fun _ => (add_zero _).symm, ?_, (add_zero _).symm⟩
  simp only [noteTaxWithdrawn, satAdd_of_le hfit]
  push_cast
  rfl

/-- **The message that refuses a call** gives back what the call held, when nothing was moved: unless
it is a `set_harberger_config`, which holds nothing back. -/
lemma resumed_shifts {now : ℕ} {reply : Except Failure ℕ} {p : Pending} {e : String}
    (hpays : p.sentTo.isSome) (hmoved : p.unmoved reply = true)
    (hcredit : ∀ q, s.creditOf q + p.takenFrom q ≤ u128Max) (hfunding : p.funding ≤ s.taxWithdrawn)
    (hguards : p.guards ≤ s.inFlight) (h : Resumed s now reply p s' (.done (.error e))) :
    Shifts s s' (fun q => p.takenFrom q) (-p.funding) (-p.guards) := by
  have hdrop : ((s.inFlight - 1 : ℕ) : ℤ) = s.inFlight + -(p.guards : ℤ) := by
    have hone : p.guards = 1 := if_pos hpays
    omega
  cases h with
  | pullFailed hp hreply =>
      obtain ⟨f, hf, hnothing⟩ := Pending.unmoved_of_pulling hmoved hp
      rw [hreply] at hf
      cases hf
      rw [State.pullFailed, if_pos hnothing]
      cases hp <;> exact ⟨rfl, fun _ => (add_zero _).symm, (add_zero _).symm, hdrop⟩
  | creditedBack _ hp _ hreply =>
      obtain ⟨f, hf, -⟩ := Pending.unmoved_of_pulling hmoved hp
      rw [hreply] at hf
      cases hf
  | bidRefused hreply =>
      subst hreply
      cases hmoved
  | @payRefused cfg caller amount m _ =>
      have hfit : s.creditOf caller + amount ≤ u128Max := by
        have := hcredit caller
        rwa [Pending.takenFrom, if_pos rfl] at this
      refine ⟨?_, fun q => ?_, ?_, ?_⟩
      · rw [addCredit_eq]
        rfl
      · refine (addCredit_creditOf hfit q).trans ?_
        simp only [Pending.takenFrom]
        split_ifs <;> rfl
      · change ((s.addCredit caller amount).taxWithdrawn : ℤ) = _
        rw [addCredit_taxWithdrawn]
        exact (add_zero _).symm
      · change (((s.addCredit caller amount).inFlight - 1 : ℕ) : ℤ) = _
        rw [addCredit_inFlight]
        exact hdrop
  | payUnconfirmed _ hreply hf =>
      subst hreply
      change Failure.didNothing _ = true at hmoved
      rw [hf] at hmoved
      cases hmoved
  | feeRefused => exact ⟨rfl, fun _ => (add_zero _).symm, (add_zero _).symm, hdrop⟩
  | @fundRefused cfg amount m _ =>
      refine ⟨rfl, fun _ => (add_zero _).symm, ?_, hdrop⟩
      change ((s.taxWithdrawn - amount : ℕ) : ℤ) = s.taxWithdrawn + -(amount : ℤ)
      change amount ≤ s.taxWithdrawn at hfunding
      omega
  | fundCharged hreply =>
      subst hreply
      cases hmoved
  | fundUnconfirmed _ hreply =>
      subst hreply
      cases hmoved
  | configRefused => cases hpays
  | configSettled => cases hpays

/-! ## Committing what is stored -/

/-- **Committing a record that is stored changes nothing.** -/
lemma commit_eq_self (hK : E.cert.KeepsStored) (hc : s.Catalogued) (hm : s.Mirrored) {r : Record}
    (hget : s.records.get r.name = some r) : s.commit r = s := by
  have hrecords : (s.commit r).records = s.records := by
    rw [commit_records]
    refine OrdMap.ext_get fun k => ?_
    rw [OrdMap.get_insert]
    split_ifs with hk
    · rw [hk, hget]
    · rfl
  have htree : (s.commit r).tree = s.tree := hK _ _ _ (hm.leaf hget)
  have hroot : (s.commit r).certifiedData = s.certifiedData := by
    rw [commit_certifiedData, htree, hm.published]
  have htags : (s.commit r).tags = s.tags := by
    have hindexed := hc.indexed.commit hc.named hc.texts r
    refine OrdMap.ext_get fun k => ?_
    have hiff := (hindexed k).trans (by rw [hrecords, ← hc.indexed k])
    cases h₁ : (s.commit r).tags.get k <;> cases h₂ : s.tags.get k <;>
      simp [OrdMap.contains, h₁, h₂] at hiff ⊢
  calc s.commit r = { s with
        records := (s.commit r).records
        tree := (s.commit r).tree
        certifiedData := (s.commit r).certifiedData
        tags := (s.commit r).tags } := rfl
    _ = s := by rw [hrecords, htree, hroot, htags]

/-- **Settling what is settled changes nothing.** -/
lemma settleAll_eq_self (hX : E.auction.TaxLaws) (hK : E.cert.KeepsStored) (hc : s.Catalogued)
    (hm : s.Mirrored) {cfg : Config} {now : ℕ}
    (hsettled : ∀ name r, s.records.get name = some r → (settleRecord E cfg r now).1 = r) :
    (s.settleAll cfg now).1 = s := by
  refine settleAll_induction (P := fun t => t = s) ?_ rfl
  rintro _ name r rfl hget
  have hr := hsettled name r hget
  have htax : (settleRecord E cfg r now).2.2 = 0 := by
    have := settleRecord_balance cfg now hX r
    rw [hr] at this
    omega
  have hname := hc.named name r hget
  subst hname
  rw [hr, htax]
  exact commit_eq_self hK hc hm hget

/-! ## The config that is checked last -/

lemma finish_error {x : State E × Except String Unit} {e : String}
    (h : finish x = (s', .done (.error e))) : x = (s', .error e) := by
  obtain ⟨t, r⟩ := x
  cases r with
  | ok a => cases h
  | error e' =>
      cases h
      rfl

/-- **`set_harberger_config` checks the new config last.**  It gets so far with a changed rate, and the
check of its parameters fails. -/
structure ChecksLate (s : State E) (c : Config) : Prop where
  mayMove : c.ledger ≠ s.config.ledger → s.fundsHeld = .ok ()
  rate : c.rateBps ≠ s.config.rateBps
  refused : ∃ e, E.auction.checkParams c.params = .error e

/-- A `set_harberger_config` refused before its settlement changes nothing; refused after it, it has
settled every name. -/
lemma resumeSetHarbergerConfig_error {now : ℕ} {c : Config} {reply : Except Failure ℕ} {e : String}
    (h : s.resumeSetHarbergerConfig now c reply = (s', .error e)) :
    (¬ ((∃ fee, reply = .ok fee) ∧ s.ChecksLate c) ∧ s' = s) ∨
      (((∃ fee, reply = .ok fee) ∧ s.ChecksLate c) ∧ s' = (s.settleAll s.config now).1) := by
  cases reply with
  | error f =>
      cases h
      refine Or.inl ⟨?_, rfl⟩
      rintro ⟨⟨fee, hfee⟩, -⟩
      cases hfee
  | ok fee =>
      simp only [resumeSetHarbergerConfig, Except.mapError, attempt] at h
      split at h
      · rename_i hheld
        cases h
        refine Or.inl ⟨?_, rfl⟩
        rintro ⟨-, hmay, -, -⟩
        split_ifs at hheld with hledger
        rw [hmay hledger] at hheld
        cases hheld
      · rename_i hheld
        have hmay : c.ledger ≠ s.config.ledger → s.fundsHeld = .ok () := by
          intro hledger
          rwa [if_pos hledger] at hheld
        simp only [setConfig] at h
        split at h
        · rename_i hcheck
          cases h
          split_ifs with hrate
          · exact Or.inr ⟨⟨⟨fee, rfl⟩, hmay, hrate, _, hcheck⟩, rfl⟩
          · exact Or.inl ⟨fun hlate => hrate hlate.2.rate, rfl⟩
        · cases h

end State
