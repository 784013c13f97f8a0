import IcNameService.Canister.Effects

/-!
# What controllers set

The deployer list, the gateway domains and the auction config change by the method that sets them and
by nothing else: no write to a name, no payment and no ledger reply touches them.

* `SameAdministration` — the frame, which every `SameSettings` lies in.
* `called_administration`, `resumed_administration` — a message that is not `Administered` stays in it.
-/

namespace State

variable {E : Env}

/-- The two states agree on what controllers set, besides the tax config. -/
structure SameAdministration (s s' : State E) : Prop where
  deployers : s'.deployers = s.deployers
  domains : s'.domains = s.domains
  auctionConfig : s'.auctionConfig = s.auctionConfig

variable {s s' s'' : State E}

lemma SameAdministration.refl (s : State E) : SameAdministration s s := ⟨rfl, rfl, rfl⟩

lemma SameAdministration.trans (h : SameAdministration s s') (h' : SameAdministration s' s'') :
    SameAdministration s s'' where
  deployers := h'.deployers.trans h.deployers
  domains := h'.domains.trans h.domains
  auctionConfig := h'.auctionConfig.trans h.auctionConfig

lemma SameSettings.administration (h : SameSettings s s') : SameAdministration s s' :=
  ⟨h.deployers, h.domains, h.auctionConfig⟩

/-- **A call sets what controllers set only if it is one of theirs**, or a caller's own handle. -/
theorem called_administration {cx : Ctx} {c : Call} {p : Progress} (h : Called s cx c s' p) :
    SameAdministration s s' ∨ Administered s cx c s' := by
  cases h with
  | refused => exact Or.inl (.refl s)
  | administered ha => exact Or.inr ha
  | announced _ _ _ _ ha =>
      cases ha with
      | fresh =>
          refine Or.inl (SameAdministration.trans ?_ (sameSettings_commit _ _).administration)
          exact ⟨rfl, rfl, rfl⟩
      | allowed => exact Or.inl (sameSettings_commit _ _).administration
  | underHandle => exact Or.inl (sameSettings_commit _ _).administration
  | amended =>
      exact Or.inl (sameSettings_commitFlat _ _ _).administration
  | discarded => exact Or.inl ⟨rfl, rfl, rfl⟩
  | released =>
      exact Or.inl (sameSettings_release _ _ _ _).administration
  | revealed => exact Or.inl ⟨rfl, rfl, rfl⟩
  | closed hclose => exact Or.inl (sameSettings_close hclose).administration
  | pulling => exact Or.inl ⟨rfl, rfl, rfl⟩
  | withdrawing _ _ ht =>
      obtain ⟨-, credits, rfl, -⟩ := takeCredit_ok ht
      exact Or.inl ⟨rfl, rfl, rfl⟩
  | funding => exact Or.inl ⟨rfl, rfl, rfl⟩
  | configuring => exact Or.inl (.refl s)

/-- **No ledger reply sets what controllers set.** -/
theorem resumed_administration {now : ℕ} {reply : Except Failure ℕ} {p : Pending} {pr : Progress}
    (h : Resumed s now reply p s' pr) : SameAdministration s s' := by
  have hdrop : SameAdministration s s.dropInFlight := ⟨rfl, rfl, rfl⟩
  cases h with
  | pullFailed =>
      simp only [State.pullFailed]
      split_ifs <;> exact ⟨rfl, rfl, rfl⟩
  | bought =>
      exact hdrop.trans ((sameSettings_addCredit s.dropInFlight _ _).trans
        ((sameSettings_noteHandedOver _ _ _).trans (sameSettings_commitFlat _ _ _))).administration
  | toppedUp =>
      exact hdrop.trans (sameSettings_commitFlat _ _ _).administration
  | creditedBack => exact hdrop.trans (sameSettings_addCredit _ _ _).administration
  | placed _ hp =>
      exact hdrop.trans ((sameSettings_placeBid hp).trans
        (sameSettings_addCredit _ _ _)).administration
  | bidRefused _ hp =>
      exact hdrop.trans ((sameSettings_placeBid hp).trans
        (sameSettings_addCredit _ _ _)).administration
  | paid => exact hdrop
  | @payRefused _ caller amount =>
      have hpaid := (sameSettings_addCredit s caller amount).administration
      exact ⟨hpaid.deployers, hpaid.domains, hpaid.auctionConfig⟩
  | payUnconfirmed => exact ⟨rfl, rfl, rfl⟩
  | feeRefused => exact hdrop
  | feeAgreed => exact ⟨rfl, rfl, rfl⟩
  | funded => exact hdrop
  | fundRefused => exact ⟨rfl, rfl, rfl⟩
  | fundCharged => exact ⟨rfl, rfl, rfl⟩
  | fundUnconfirmed => exact ⟨rfl, rfl, rfl⟩
  | configRefused => exact .refl s
  | configSettled => exact (sameSettings_settleAll s _ _).administration
  | configured _ _ _ hs' =>
      subst hs'
      split_ifs
      · refine (sameSettings_settleAll s s.config now).administration.trans ?_
        exact ⟨rfl, rfl, rfl⟩
      · exact ⟨rfl, rfl, rfl⟩

end State
