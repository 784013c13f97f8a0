import IcNameService.Books.Value

/-!
# What each party holds

The value the canister holds, account by account: the treasury has the collected tax, a party its credit,
the balances of the flat names it owns, and the deposits of its bids.

* `State.holds` — what an account holds.
* `holds_addCredit`, `holds_takeCredit`, `holds_commitFlat`, `holds_putAuction`, `holds_removeAuction`,
  `holds_noteProceeds` — one lemma for each writer, for every account at once.
-/

/-- An account of the canister. -/
inductive Account
  | treasury
  | party (p : Principal)
  deriving DecidableEq, Repr

/-- A bidder is a party by its bytes. -/
lemma Account.party_mk_eq {w : Bytes} {p : Principal} :
    Account.party ⟨w⟩ = .party p ↔ w = p.bytes := by
  constructor
  · intro heq
    cases heq
    rfl
  · intro heq
    rw [heq]

namespace IcAuction

variable (X : IcAuction)

/-- The deposits of an account's bids in one auction. -/
def pledge (a : X.Auction) : Account → ℕ
  | .treasury => 0
  | .party p => ((X.bids a).map fun b => if b.bidder = p.bytes then b.deposit else 0).sum

end IcAuction

/-- The balance of a record, as its owner's. -/
def Record.prepaid (r : Record) (a : Account) : ℕ := if a = .party r.owner then r.balance else 0

namespace State

variable {E : Env} (s : State E)

/-- What an account holds in credit, for the treasury in tax. -/
def cash : Account → ℕ
  | .treasury => s.taxCollected
  | .party p => s.creditOf p

/-- **What an account holds**: cash, prepaid tax on its flat names, and deposits of its bids. -/
def holds (a : Account) : ℕ :=
  s.cash a + s.records.total (fun _ r => r.prepaid a) +
    s.auctions.total fun _ r => E.auction.pledge r.auction a

/-- What stands under a name, as an account's. -/
def prepaidAt (name : String) (a : Account) : ℕ :=
  ((s.records.get name).map fun r => r.prepaid a).getD 0

/-- The deposits of an account's bids on one name. -/
def pledgedAt (name : String) (a : Account) : ℕ :=
  ((s.auctions.get name).map fun r => E.auction.pledge r.auction a).getD 0

variable {s} {s' : State E}

lemma prepaidAt_of_get {name : String} {r : Record} (h : s.records.get name = some r) (a : Account) :
    s.prepaidAt name a = r.prepaid a := by simp [prepaidAt, h]

lemma pledgedAt_of_get {name : String} {r : Running E} (h : s.auctions.get name = some r)
    (a : Account) : s.pledgedAt name a = E.auction.pledge r.auction a := by simp [pledgedAt, h]

/-- Only four stores count. -/
lemma holds_congr (hc : s'.credits = s.credits) (hr : s'.records = s.records)
    (ha : s'.auctions = s.auctions) (ht : s'.taxCollected = s.taxCollected) (a : Account) :
    s'.holds a = s.holds a := by
  cases a <;> simp only [holds, cash, creditOf, hc, hr, ha, ht]

/-! ## Cash -/

lemma holds_addCredit {p : Principal} {n : ℕ} (h : s.creditOf p + n ≤ u128Max) (a : Account) :
    (s.addCredit p n).holds a = s.holds a + if a = .party p then n else 0 := by
  have hcash : (s.addCredit p n).cash a = s.cash a + if a = .party p then n else 0 := by
    cases a with
    | treasury => simp [cash]
    | party q =>
        simp only [cash, Account.party.injEq]
        by_cases hq : q = p
        · subst hq
          rw [if_pos rfl]
          exact creditOf_addCredit_self s q h
        · rw [if_neg hq, creditOf_addCredit_ne s n hq]
          rfl
  rw [holds, holds, hcash, addCredit_records, addCredit_auctions]
  omega

lemma holds_takeCredit {p : Principal} {n : ℕ} (h : s.takeCredit p n = .ok s') (a : Account) :
    s'.holds a + (if a = .party p then n else 0) = s.holds a := by
  obtain ⟨hle, credits, rfl, hcredits⟩ := takeCredit_ok h
  have hcash : cash { s with credits := credits } a + (if a = .party p then n else 0) = s.cash a := by
    cases a with
    | treasury => simp [cash]
    | party q =>
        simp only [cash, Account.party.injEq]
        by_cases hq : q = p
        · subst hq
          rw [if_pos rfl]
          rcases hcredits with ⟨rfl, heq⟩ | rfl
          · simp only [creditOf, OrdMap.get_erase_self, Option.getD_none] at heq ⊢
            omega
          · simp only [creditOf, OrdMap.get_insert_self, Option.getD_some] at hle ⊢
            omega
        · rw [if_neg hq]
          rcases hcredits with ⟨rfl, -⟩ | rfl
          · simp [creditOf, OrdMap.get_erase_ne _ hq]
          · simp [creditOf, OrdMap.get_insert_ne _ _ hq]
  simp only [holds]
  omega

lemma holds_noteTaxCollected {tax : ℕ} (h : s.taxCollected + tax ≤ u128Max) (a : Account) :
    (s.noteTaxCollected tax).holds a = s.holds a + if a = .treasury then tax else 0 := by
  have hcash : (s.noteTaxCollected tax).cash a = s.cash a + if a = .treasury then tax else 0 := by
    cases a with
    | treasury => simp [cash, s.noteTaxCollected_taxCollected h]
    | party q => simp [cash, creditOf]
  rw [holds, holds, hcash, noteTaxCollected_records, noteTaxCollected_auctions]
  omega

lemma holds_noteProceeds {n : ℕ} (h : s.taxCollected + n ≤ u128Max) (a : Account) :
    (s.noteProceeds n).holds a = s.holds a + if a = .treasury then n else 0 := by
  simp only [noteProceeds]
  split_ifs with hpos htreasury
  · rw [holds_noteTaxCollected (s := { s with proceeds := satAdd s.proceeds n }) h, if_pos htreasury]
    rfl
  · rw [holds_noteTaxCollected (s := { s with proceeds := satAdd s.proceeds n }) h, if_neg htreasury]
    rfl
  · omega
  · rfl

/-! ## Records -/

/-- A commit gives the owner the balance, and takes from the old owner what stood under the name. -/
lemma holds_commit (r : Record) (a : Account) :
    (s.commit r).holds a + s.prepaidAt r.name a = s.holds a + r.prepaid a := by
  have htotal := s.records.total_insert (fun _ r => r.prepaid a) r.name r
  have hcash : (s.commit r).cash a = s.cash a := by cases a <;> rfl
  simp only [holds, prepaidAt] at htotal ⊢
  rw [hcash, commit_records, commit_auctions]
  omega

/-- **A commit that counts the tax of its settlement.** -/
lemma holds_commitFlat {r : Record} {tax : ℕ} (h : s.taxCollected + tax ≤ u128Max) (a : Account) :
    (s.commitFlat r tax).holds a + s.prepaidAt r.name a =
      s.holds a + r.prepaid a + if a = .treasury then tax else 0 := by
  have hcommit := (s.noteTaxCollected tax).holds_commit r a
  rw [holds_noteTaxCollected h] at hcommit
  have hsame : (s.noteTaxCollected tax).prepaidAt r.name a = s.prepaidAt r.name a := by
    simp only [prepaidAt, noteTaxCollected_records]
  rw [hsame] at hcommit
  rw [commitFlat]
  omega

lemma holds_discard {name : String} {old r : Record} (hget : s.records.get name = some old)
    (a : Account) : (((s.eraseRecord name).unindex r).certifyRemove name).holds a + old.prepaid a =
      s.holds a := by
  have htotal := s.records.total_erase (fun _ r => r.prepaid a) name
  rw [hget] at htotal
  simp only [Option.map_some, Option.getD_some] at htotal
  have hcash : (((s.eraseRecord name).unindex r).certifyRemove name).cash a = s.cash a := by
    cases a <;> rfl
  simp only [holds]
  rw [hcash]
  change s.cash a + OrdMap.total _ (s.records.erase name) + s.auctions.total _ + _ = _
  omega

/-! ## Auctions -/

lemma holds_putAuction (name : String) (r : Running E) (a : Account) :
    (s.putAuction name r).holds a + s.pledgedAt name a =
      s.holds a + E.auction.pledge r.auction a := by
  have htotal := s.auctions.total_insert (fun _ r => E.auction.pledge r.auction a) name r
  have hcash : (s.putAuction name r).cash a = s.cash a := by cases a <;> rfl
  simp only [holds, pledgedAt] at htotal ⊢
  rw [hcash]
  change s.cash a + s.records.total _ + OrdMap.total _ (s.auctions.insert name r) + _ = _
  omega

lemma holds_removeAuction {name : String} {r : Running E} (h : s.auctions.get name = some r)
    (a : Account) :
    (s.removeAuction name).holds a + E.auction.pledge r.auction a = s.holds a := by
  have htotal := s.auctions.total_erase (fun _ r => E.auction.pledge r.auction a) name
  rw [h] at htotal
  simp only [Option.map_some, Option.getD_some] at htotal
  have hcash : (s.removeAuction name).cash a = s.cash a := by cases a <;> rfl
  simp only [holds]
  rw [hcash]
  change s.cash a + s.records.total _ + OrdMap.total _ (s.auctions.erase name) + _ = _
  omega

end State
