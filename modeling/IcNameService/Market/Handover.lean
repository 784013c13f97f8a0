import IcNameService.Canister.Settings
import IcNameService.Canister.Shape

/-!
# How a flat name last changed hands

A flat record carries two fields about its past: when it last changed hands, and what it pointed at
before.  A message either leaves both as they are (or discards the record), or it hands the name over
and writes both.

* `State.sales` — when a name changed hands, newest first, read off the ghost notes.
* `Keeps`, `HandsOver` — the two things a message can do to a flat name's past.
* `called_changes`, `resumed_changes` — it does one of them.
-/

namespace State

variable {E : Env}

/-- When `name` changed hands, newest first. -/
def sales (s : State E) (name : String) : List ℕ :=
  s.notes.filterMap fun note => if note.name = name then some note.now else none

section

variable (s : State E) (name : String)

lemma sales_congr {s' : State E} (h : s'.notes = s.notes) : s'.sales name = s.sales name := by
  simp only [sales, h]

lemma sales_noteHandedOver_self (now : ℕ) :
    (s.noteHandedOver name now).sales name = now :: s.sales name := by
  simp [sales, noteHandedOver]

lemma sales_noteHandedOver_ne {n : String} (h : n ≠ name) (now : ℕ) :
    (s.noteHandedOver n now).sales name = s.sales name := by
  simp [sales, noteHandedOver, h]

@[simp] lemma sales_commitFlat (r : Record) (tax : ℕ) :
    (s.commitFlat r tax).sales name = s.sales name := by
  refine (s.noteTaxCollected tax).sales_congr name (commit_notes _ r) |>.trans ?_
  exact s.sales_congr name (noteTaxCollected_notes s tax)

end

/-- The message leaves the name's past alone: nobody gets the name, and a record that still stands
under it says what it said. -/
structure Keeps (s s' : State E) (name : String) : Prop where
  sales : s'.sales name = s.sales name
  past : ∀ r', s'.records.get name = some r' → ∃ r, s.records.get name = some r ∧
    r'.changedHandsNs = r.changedHandsNs ∧ r'.previousTarget = r.previousTarget

/-- The message hands the name over: the record says when, and what it pointed at before, if it stood
under the name until now. -/
structure HandsOver (s s' : State E) (name : String) (now : ℕ) : Prop where
  sales : s'.sales name = now :: s.sales name
  past : ∃ r', s'.records.get name = some r' ∧ r'.changedHandsNs = now ∧
    r'.previousTarget = (s.records.get name).map Record.target

/-- One or the other. -/
def Changes (s s' : State E) (name : String) (now : ℕ) : Prop :=
  Keeps s s' name ∨ HandsOver s s' name now

variable {s s' s'' : State E} {name : String} {now : ℕ}

/-! ## Keeping -/

namespace Keeps

lemma refl (s : State E) (name : String) : Keeps s s name := ⟨rfl, fun r h => ⟨r, h, rfl, rfl⟩⟩

lemma of_eq (hrecords : s'.records = s.records) (hnotes : s'.notes = s.notes) : Keeps s s' name :=
  ⟨s.sales_congr name hnotes, fun r h => ⟨r, hrecords ▸ h, rfl, rfl⟩⟩

lemma trans (h : Keeps s s' name) (h' : Keeps s' s'' name) : Keeps s s'' name where
  sales := h'.sales.trans h.sales
  past r'' hr'' := by
    obtain ⟨r', hr', hchanged', hprevious'⟩ := h'.past r'' hr''
    obtain ⟨r, hr, hchanged, hprevious⟩ := h.past r' hr'
    exact ⟨r, hr, hchanged'.trans hchanged, hprevious'.trans hprevious⟩

lemma addCredit (s : State E) (name : String) (p : Principal) (n : ℕ) :
    Keeps s (s.addCredit p n) name :=
  of_eq (addCredit_records s p n) (addCredit_notes s p n)

lemma noteTaxCollected (s : State E) (name : String) (tax : ℕ) :
    Keeps s (s.noteTaxCollected tax) name :=
  of_eq (noteTaxCollected_records s tax) (noteTaxCollected_notes s tax)

/-- Writing another name's record. -/
lemma commit_other (s : State E) {r : Record} (h : r.name ≠ name) : Keeps s (s.commit r) name where
  sales := s.sales_congr name (commit_notes s r)
  past r' hr' := by
    rw [commit_records, OrdMap.get_insert_ne _ _ h.symm] at hr'
    exact ⟨r', hr', rfl, rfl⟩

/-- Rewriting a record with the past it had. -/
lemma commit {r old : Record} (hget : s.records.get r.name = some old)
    (hchanged : r.changedHandsNs = old.changedHandsNs)
    (hprevious : r.previousTarget = old.previousTarget) : Keeps s (s.commit r) name := by
  by_cases hname : r.name = name
  · subst hname
    refine ⟨s.sales_congr _ (commit_notes s r), fun r' hr' => ?_⟩
    rw [commit_records, OrdMap.get_insert_self] at hr'
    cases hr'
    exact ⟨old, hget, hchanged, hprevious⟩
  · exact commit_other s hname

lemma commitFlat {r old : Record} (hget : s.records.get r.name = some old)
    (hchanged : r.changedHandsNs = old.changedHandsNs)
    (hprevious : r.previousTarget = old.previousTarget) (tax : ℕ) :
    Keeps s (s.commitFlat r tax) name :=
  (noteTaxCollected s name tax).trans
    (commit (by rwa [noteTaxCollected_records]) hchanged hprevious)

lemma discard (s : State E) (name n : String) (r : Record) :
    Keeps s (((s.eraseRecord n).unindex r).certifyRemove n) name where
  sales := rfl
  past r' hr' := by
    obtain ⟨-, hr'⟩ := OrdMap.get_erase_eq_some.mp hr'
    exact ⟨r', hr', rfl, rfl⟩

end Keeps

/-! ## Handing over -/

lemma Changes.after (h : Changes s s' name now) (hk : Keeps s' s'' name)
    (hrecords : s''.records = s'.records) : Changes s s'' name now := by
  rcases h with h | ⟨hsales, r', hr', hpast⟩
  · exact Or.inl (h.trans hk)
  · exact Or.inr ⟨hk.sales.trans hsales, r', hrecords ▸ hr', hpast⟩

lemma Changes.before (hk : Keeps s s' name) (hrecords : s'.records = s.records)
    (h : Changes s' s'' name now) : Changes s s'' name now := by
  rcases h with h | ⟨hsales, r', hr', hchanged, hprevious⟩
  · exact Or.inl (hk.trans h)
  · exact Or.inr ⟨by rw [hsales, hk.sales], r', hr', hchanged, by rw [hprevious, hrecords]⟩

/-- **A hand-over writes the past down**: now, and the target of the record that stood here. -/
lemma changes_handOver (s : State E) (name : String) {r : Record} (now tax : ℕ)
    (hchanged : r.changedHandsNs = now)
    (hprevious : r.previousTarget = (s.records.get r.name).map Record.target) :
    Changes s ((s.noteHandedOver r.name now).commitFlat r tax) name now := by
  by_cases hname : r.name = name
  · subst hname
    refine Or.inr ⟨?_, r, ?_, hchanged, hprevious⟩
    · rw [sales_commitFlat, sales_noteHandedOver_self]
    · simp [State.commitFlat]
  · refine Or.inl ⟨?_, fun r' hr' => ?_⟩
    · rw [sales_commitFlat, sales_noteHandedOver_ne _ _ hname]
    · rw [State.commitFlat, commit_records, OrdMap.get_insert_ne _ _ (Ne.symm hname),
        noteTaxCollected_records] at hr'
      exact ⟨r', hr', rfl, rfl⟩

/-! ## Closing and bidding -/

lemma Keeps.noteProceeds (s : State E) (name : String) (n : ℕ) :
    Keeps s (s.noteProceeds n) name := by
  simp only [State.noteProceeds]
  split_ifs
  · exact of_eq (noteTaxCollected_records _ _) (noteTaxCollected_notes _ _)
  · exact .refl s name

/-- The record a winner holds remembers what the lapsed one pointed at, if there was one. -/
lemma wonRecord_past (cfg : Config) (name : String) (now opening : ℕ) (x : Holding)
    (hfree : (s.lapsedRecord cfg name now).2 = true) :
    (wonRecord (E := E) name (s.lapsedRecord cfg name now).1 x opening now).1.changedHandsNs = now ∧
      (wonRecord (E := E) name (s.lapsedRecord cfg name now).1 x opening now).1.previousTarget =
        (s.records.get name).map Record.target := by
  cases hl : s.lapsedRecord cfg name now with
  | mk lapsed free =>
      rw [hl] at hfree
      cases lapsed with
      | none =>
          rcases lapsedRecord_none hl with ⟨hget, -⟩ | hheld
          · exact ⟨rfl, by rw [hget]; rfl⟩
          · rw [hheld] at hfree
            cases hfree
      | some l =>
          obtain ⟨old, hget, hr, -, -, -⟩ := lapsedRecord_some hl
          refine ⟨rfl, ?_⟩
          change some l.1.target = _
          rw [hget, hr, settleRecord_target]
          rfl

lemma changes_close (hn : s.Named) {cfg : Config} {n : String} {c : Closed}
    (hclose : s.close cfg n now = (s', .ok c)) : Changes s s' name now := by
  obtain ⟨r, outcome, holding, hc⟩ := close_ok hclose
  have hrecords := (s.sameRecords_settleBids outcome
    (winnerIf outcome (s.lapsedRecord cfg n now).2) holding).records
  have hnotes := s.settleBids_notes outcome (winnerIf outcome (s.lapsedRecord cfg n now).2) holding
  rw [hc.state_eq]
  suffices hover : Changes s (State.handOver _ _ _ _ _ _) name now from
    (hover.after (.noteProceeds _ _ _) (sameRecords_noteProceeds _ _).records).after
      (.of_eq rfl rfl) rfl
  refine Changes.before (.of_eq hrecords hnotes) hrecords ?_
  cases holding with
  | none => exact Or.inl (.refl _ _)
  | some x =>
      have hwon := hn.wonAs_name cfg n now outcome x
      obtain ⟨hchanged, hprevious⟩ : (s.wonAs cfg n now outcome x).changedHandsNs = now ∧
          (s.wonAs cfg n now outcome x).previousTarget = (s.records.get n).map Record.target :=
        wonRecord_past cfg n now _ x hc.free
      have hreplaced : (s.wonAs cfg n now outcome x).previousTarget =
          ((s.settleBids outcome (winnerIf outcome (s.lapsedRecord cfg n now).2)
            (some x)).state.records.get (s.wonAs cfg n now outcome x).name).map Record.target := by
        rw [hrecords, hwon]
        exact hprevious
      rw [handOver_some]
      have key := changes_handOver _ name now (wonRecord (E := E) n (s.lapsedRecord cfg n now).1 x
        (s.settleBids outcome (winnerIf outcome (s.lapsedRecord cfg n now).2)
          (some x)).openingBalance now).2 hchanged hreplaced
      rwa [hwon] at key

lemma changes_placeBid (hn : s.Named) {cfg : Config} {n : String} {bidder : Principal}
    {commitment : Bytes} {deposit : ℕ} {res : Except String (Option ℕ)}
    (hp : s.placeBid cfg n bidder commitment deposit now = (s', res)) :
    Changes s s' name now := by
  have hfirst : ∀ s₁ : State E, ClosedFirst s cfg n now s₁ → Changes s s₁ name now := by
    intro s₁ hc
    cases hc with
    | running => exact Or.inl (.refl _ _)
    | ended hclose => exact changes_close hn hclose
  refine placeBid_induction (P := fun x => Changes s x name now) hp (Or.inl (.refl _ _)) hfirst ?_
  exact fun _ _ hchange => hchange.after (.of_eq rfl rfl) rfl

lemma keeps_settleAll (hn : s.Named) (cfg : Config) (now : ℕ) :
    Keeps s (s.settleAll cfg now).1 name := by
  have key : (s.settleAll cfg now).1.Named ∧ Keeps s (s.settleAll cfg now).1 name := by
    refine settleAll_induction (P := fun s' => s'.Named ∧ Keeps s s' name) ?_ ⟨hn, .refl _ _⟩
    rintro s' n old ⟨hn', hkeep⟩ hget
    refine ⟨named_invariant.commitFlat (s := s') hn' _ _, ?_⟩
    refine hkeep.trans ?_
    have hstored : s'.records.get
        (settleRecord E cfg old now).1.name = some old := by
      rw [settleRecord_name, hn' n old hget]
      exact hget
    exact Keeps.commitFlat hstored (by simp) (by simp) _
  exact key.2

/-! ## Every message -/

section

variable (hs : s.Shape) (hflat : Names.isScoped name = false)

include hflat

/-- What is written under a scoped name is no flat name's. -/
lemma keeps_commit_scoped {n : String} {p : String × String} {r : Record} (hr : r.name = n)
    (hsplit : Names.split n = .ok p) : Keeps s (s.commit r) name := by
  refine Keeps.commit_other s fun heq => ?_
  have hscoped := Names.isScoped_of_split hsplit
  rw [← hr, heq, hflat] at hscoped
  cases hscoped

include hs

/-- **A call keeps a flat name's past, or hands the name over.** -/
theorem called_changes {cx : Ctx} {c : Call} {p : Progress} (hc : Called s cx c s' p) :
    Changes s s' name cx.now := by
  have hn := hs.named
  cases hc with
  | refused => exact Or.inl (.refl _ _)
  | administered ha => cases ha <;> exact Or.inl (.of_eq rfl rfl)
  | announced _ _ _ _ ha =>
      cases ha with
      | fresh hsplit =>
          refine Or.inl (Keeps.trans ?_
            (keeps_commit_scoped hflat (hn.announceRecord_name cx _ _) hsplit))
          exact .of_eq rfl rfl
      | allowed hsplit =>
          exact Or.inl (keeps_commit_scoped hflat (hn.announceRecord_name cx _ _) hsplit)
  | underHandle hsplit _ _ hw =>
      exact Or.inl (keeps_commit_scoped hflat (hn.scopedWrite_name hw) hsplit)
  | @amended _ n old r hheld ha =>
      have hstored : s.records.get r.name = some old := by
        rw [amendment_name ha, settleRecord_name, hn _ _ hheld.stored]
        exact hheld.stored
      refine Or.inl (Keeps.commitFlat hstored ?_ ?_ _)
      · cases ha <;> simp [repoint]
      · cases ha <;> simp [repoint]
  | discarded => exact Or.inl (.discard s name _ _)
  | @released n old =>
      rw [release_eq]
      exact Or.inl (((Keeps.noteTaxCollected _ name _).trans (.addCredit _ name _ _)).trans
        (.discard _ name _ _))
  | revealed => exact Or.inl (.of_eq rfl rfl)
  | closed hclose => exact changes_close hn hclose
  | pulling => exact Or.inl (.of_eq rfl rfl)
  | withdrawing _ _ ht =>
      obtain ⟨-, credits, rfl, -⟩ := takeCredit_ok ht
      exact Or.inl (.of_eq rfl rfl)
  | funding => exact Or.inl (.of_eq rfl rfl)
  | configuring => exact Or.inl (.refl _ _)

omit hflat in
/-- **A reply keeps a flat name's past, or hands the name over.** -/
theorem resumed_changes {reply : Except Failure ℕ} {p : Pending} {pr : Progress}
    (hr : Resumed s now reply p s' pr) : Changes s s' name now := by
  have hn := hs.named
  have hdrop : Keeps s s.dropInFlight name := .of_eq rfl rfl
  cases hr with
  | pullFailed =>
      simp only [State.pullFailed]
      split_ifs <;> exact Or.inl (.of_eq rfl rfl)
  | @bought c block r tax _ hbuy =>
      obtain ⟨⟨old, x, hseen⟩, -, -⟩ := buyable_ok hbuy
      have hname : (boughtRecord (E := E) c r now).name = c.name := by
        change r.name = c.name
        rw [hseen.name_of_named hn]
      have hcredit := hdrop.trans
        (.addCredit s.dropInFlight name r.owner (satAdd c.before.price r.balance))
      refine Changes.before hcredit (addCredit_records _ _ _) ?_
      have hchanged : (boughtRecord (E := E) c r now).changedHandsNs = now := rfl
      have key := changes_handOver
        (s.dropInFlight.addCredit r.owner (satAdd c.before.price r.balance)) name now tax
        hchanged ?_
      · rwa [hname] at key
      · rw [addCredit_records, hname]
        change some r.target = (s.records.get c.name).map Record.target
        rw [hseen.stored, hseen.settled, settleRecord_target]
        rfl
  | @toppedUp c block r tax more x x' _ hpay =>
      obtain ⟨⟨old, y, hseen⟩, -, -⟩ := payable_ok hpay
      have hstored : s.dropInFlight.records.get
          ({ r with flat := some x', updatedNs := now } : Record).name = some old := by
        change s.records.get r.name = some old
        rw [hseen.name_of_named hn]
        exact hseen.stored
      refine Or.inl (hdrop.trans (Keeps.commitFlat hstored ?_ ?_ _))
      · change r.changedHandsNs = _
        rw [hseen.settled, settleRecord_changedHandsNs]
      · change r.previousTarget = _
        rw [hseen.settled, settleRecord_previousTarget]
  | creditedBack => exact Or.inl (hdrop.trans (.addCredit _ name _ _))
  | placed _ hp =>
      refine Changes.after ?_ (.addCredit _ name _ _) (addCredit_records _ _ _)
      exact Changes.before hdrop rfl (changes_placeBid hn hp)
  | bidRefused _ hp =>
      refine Changes.after ?_ (.addCredit _ name _ _) (addCredit_records _ _ _)
      exact Changes.before hdrop rfl (changes_placeBid hn hp)
  | paid => exact Or.inl hdrop
  | @payRefused _ caller amount =>
      exact Or.inl ((Keeps.addCredit s name caller amount).trans (.of_eq rfl rfl))
  | payUnconfirmed => exact Or.inl (.of_eq rfl rfl)
  | feeRefused => exact Or.inl hdrop
  | feeAgreed => exact Or.inl (.of_eq rfl rfl)
  | funded => exact Or.inl hdrop
  | fundRefused => exact Or.inl (.of_eq rfl rfl)
  | fundCharged => exact Or.inl (.of_eq rfl rfl)
  | fundUnconfirmed => exact Or.inl (.of_eq rfl rfl)
  | configRefused => exact Or.inl (.refl _ _)
  | configSettled => exact Or.inl (keeps_settleAll hn _ _)
  | configured _ _ _ hs' =>
      subst hs'
      split_ifs
      · exact Or.inl ((keeps_settleAll hn _ _).trans (.of_eq rfl rfl))
      · exact Or.inl (.of_eq rfl rfl)

end

end State
