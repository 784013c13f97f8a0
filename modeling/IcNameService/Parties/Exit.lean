import IcNameService.Books.Account
import IcNameService.Directory.Index
import IcNameService.Market.Settling
import IcNameService.Market.Visible

/-!
# Taking everything out

Whatever the canister owes a party it can take out by its own calls: it releases the flat names it
holds, each for the balance that is left, and withdraws the credit that makes.  Nobody else has to do
anything, and nobody else's part changes.

* `State.owed` — what a party can take out at a time: its credit, and the settled balances of its
  names.
* `released_owed` — **a release turns a balance into credit**, and moves nothing else.
* `World.releases`, `World.withdraws` — a party releases its names, one call after the other, and
  withdraws its credit.
* `World.everything_taken_out` — **what is owed is paid**, in one withdrawal.
-/

namespace State

variable {E : Env}

/-- What a party can take out at `now`: its credit, and what is then left of the balances of its flat
names. -/
def owed (s : State E) (p : Principal) (now : ℕ) : ℕ :=
  s.creditOf p + s.records.total fun _ r =>
    if r.owner = p then (settleRecord E s.config r now).1.balance else 0

/-- A flat name and the party that holds it at `now`. -/
def HeldBy (s : State E) (p : Principal) (now : ℕ) (name : String) (r : Record) : Prop :=
  Names.checkFlat name = .ok () ∧ s.records.get name = some r ∧ r.owner = p ∧
    (settleRecord E s.config r now).2.1 ≠ .free

variable {s : State E} {p : Principal} {now : ℕ} {name : String} {r : Record}

/-- The state a release leaves. -/
def afterRelease (s : State E) (now : ℕ) (name : String) (r : Record) : State E :=
  s.release (settleRecord E s.config r now).1 (settleRecord E s.config r now).2.2 name

/-- The holder of a flat name can release it. -/
lemma call_release (h : s.HeldBy p now name r) (hp : p ≠ Principal.anonymous) :
    s.call ⟨now, p, false⟩ (.deleteRecord name) =
      (s.afterRelease now name r, .done (.ok .unit)) := by
  obtain ⟨hflat, hget, rfl, hfree⟩ := h
  have hscoped : Names.isScoped name = false := Names.isScoped_of_checkFlat hflat
  have hstored : s.getRecord name = some r := hget
  simp only [call, deleteRecord, hscoped, authorizeFlat, hflat, callerOf, if_neg hp, hstored]
  simp [attempt, finish, hfree, afterRelease, bind, Except.bind, Except.map]

/-- What a party can take out is part of the value held, beside the tax collected. -/
lemma owed_add_taxCollected_le (hX : E.auction.TaxLaws) (p : Principal) (now : ℕ) :
    s.owed p now + s.taxCollected ≤ s.value := by
  have hcredit := s.creditOf_le_creditTotal p
  have hbalances : (s.records.total fun _ r =>
      if r.owner = p then (settleRecord E s.config r now).1.balance else 0) ≤ s.balances := by
    refine OrdMap.total_mono fun _ r _ => ?_
    have hsettled := settleRecord_balance s.config now hX r
    split_ifs
    · omega
    · exact Nat.zero_le _
  simp only [owed, value]
  omega

/-! ## What a release leaves -/

lemma afterRelease_records : (s.afterRelease now name r).records = s.records.erase name := by
  rw [afterRelease, release_eq]
  change (State.records (paidOut _ _ _)).erase name = _
  rw [paidOut, addCredit_records, noteTaxCollected_records]

lemma afterRelease_config : (s.afterRelease now name r).config = s.config := by
  rw [afterRelease, release_eq]
  change State.config (paidOut _ _ _) = _
  rw [paidOut, addCredit_config, noteTaxCollected_config]

lemma afterRelease_creditOf
    (hfit : s.creditOf r.owner + (settleRecord E s.config r now).1.balance ≤ u128Max)
    (q : Principal) : (s.afterRelease now name r).creditOf q =
      s.creditOf q + if r.owner = q then (settleRecord E s.config r now).1.balance else 0 := by
  rw [afterRelease, release_eq]
  change State.creditOf (paidOut _ _ _) q = _
  have hsame : ∀ q : Principal, (s.noteTaxCollected
      (settleRecord E s.config r now).2.2).creditOf q = s.creditOf q := fun q => by
    rw [creditOf, noteTaxCollected_credits]
    rfl
  rw [paidOut, settleRecord_owner]
  split_ifs with hq
  · subst hq
    rw [creditOf_addCredit_self _ _ (by rw [hsame]; exact hfit), hsame]
  · rw [creditOf_addCredit_ne _ _ (Ne.symm hq), hsame]
    rfl

/-- **A release turns a balance into credit**, and moves nothing else: what each party can take out is
what it was. -/
theorem released_owed (hX : E.auction.TaxLaws) (hget : s.records.get name = some r)
    (hfit : s.value ≤ u128Max) (q : Principal) :
    (s.afterRelease now name r).owed q now = s.owed q now := by
  have hledger := s.owed_add_taxCollected_le hX r.owner now
  have herase := OrdMap.total_erase_add (f := fun _ (r : Record) =>
    if r.owner = q then (settleRecord E s.config r now).1.balance else 0) hget
  have hown := OrdMap.le_total (f := fun _ (x : Record) =>
    if x.owner = r.owner then (settleRecord E s.config x now).1.balance else 0) hget
  simp only [if_true] at hown
  have hroom : s.creditOf r.owner + (settleRecord E s.config r now).1.balance ≤ u128Max := by
    simp only [owed] at hledger
    omega
  simp only [owed, afterRelease_records, afterRelease_config, afterRelease_creditOf hroom]
  omega

/-- What a party can take out is its credit, once it holds no flat name. -/
lemma owed_eq_creditOf (hX : E.auction.TaxLaws) (hs : s.Shape)
    (hnone : ∀ name r, ¬ s.HeldBy p now name r) :
    s.owed p now = s.creditOf p := by
  rw [owed, Nat.add_eq_left, OrdMap.total_eq_zero]
  intro name r hget
  split_ifs with howner
  · by_cases hfree : (settleRecord E s.config r now).2.1 = .free
    · exact settleRecord_free s.config now hX r hfree
    · -- a record that has not lapsed is the party's to release, unless it has no balance at all
      cases hflat : r.flat with
      | none => simp [settleRecord_none s.config now hflat, Record.balance, hflat]
      | some x =>
          refine absurd ⟨?_, hget, howner, hfree⟩ (hnone name r)
          cases hscoped : Names.isScoped r.name with
          | true =>
              obtain ⟨-, hplain, -⟩ := (hs.records name r hget).plain hscoped
              rw [hplain] at hflat
              cases hflat
          | false => exact hs.named name r hget ▸ ((hs.records name r hget).flatName hscoped).1
  · rfl

/-! ## The withdrawal -/

/-- A party can withdraw its whole credit, when that is more than the fee. -/
lemma call_withdraw {amount : ℕ} (hp : p ≠ Principal.anonymous) (hfee : s.config.fee < amount)
    (hcredit : s.creditOf p = amount) : s.call ⟨now, p, false⟩ (.withdraw amount) =
      (raiseInFlight { s with credits := s.credits.erase p },
        .await (.withdraw s.config p amount)) := by
  have htake : s.takeCredit p amount = .ok { s with credits := s.credits.erase p } := by
    subst hcredit
    simp [takeCredit]
  simp only [call, withdraw, callerOf, if_neg hp]
  simp [proceed, htake, bind, Except.bind, not_le.mpr hfee]

/-- A withdrawal of the whole credit leaves what the other parties can take out. -/
lemma owed_erase_credit (q : Principal) :
    (raiseInFlight { s with credits := s.credits.erase p }).owed q now =
      if q = p then s.owed p now - s.creditOf p else s.owed q now := by
  have hcredit : (raiseInFlight { s with credits := s.credits.erase p }).creditOf q =
      if q = p then 0 else s.creditOf q := by
    split_ifs with hq
    · subst hq
      exact congrArg (Option.getD · 0) (OrdMap.get_erase_self _ _)
    · exact congrArg (Option.getD · 0) (OrdMap.get_erase_ne _ hq)
  rw [owed, hcredit]
  split_ifs with hq
  · subst hq
    rw [owed, Nat.zero_add, Nat.add_sub_cancel_left]
    rfl
  · rfl

end State

namespace World

variable {E : Env} {w : World E} {tr : History E} {p : Principal} {now : ℕ}

/-- The entry is a release by `p` at `now` that was answered. -/
def Releases (p : Principal) (now : ℕ) (e : Entry (World E) Event Output) : Prop :=
  ∃ name, e.event = .call ⟨now, p, false⟩ (.deleteRecord name) ∧ e.out = .done (.ok .unit)

lemma step_release {name : String} {r : Record} (hw : w.now ≤ now)
    (h : w.canister.HeldBy p now name r) (hp : p ≠ Principal.anonymous) :
    w.step (.call ⟨now, p, false⟩ (.deleteRecord name)) =
      some ({ w with canister := w.canister.afterRelease now name r, now := now },
        .done (.ok .unit)) := by
  simp only [World.step, if_neg (not_lt.mpr hw), State.call_release h hp]

/-- **A party releases its names**, one call after the other; what each party can take out stays, and
what resolves under a handle. -/
theorem releases (hX : E.auction.TaxLaws) (hV : E.auction.VickreyLaws)
    (hp : p ≠ Principal.anonymous) :
    ∀ {names : List String} {w : World E} {tr : History E}, Run (machine E) lawful init tr w →
      w.now ≤ now → (∀ name r, w.canister.HeldBy p now name r → name ∈ names) →
      ∃ newer v, Run (machine E) lawful init (newer ++ tr) v ∧ (∀ e ∈ newer, Releases p now e) ∧
        (∀ name r, ¬ v.canister.HeldBy p now name r) ∧ v.now ≤ now ∧ v.account = w.account ∧
        v.canister.config = w.canister.config ∧
        (∀ q, v.canister.owed q now = w.canister.owed q now) ∧
        ∀ x, Names.isScoped x = true → v.canister.records.get x = w.canister.records.get x
  | [], w, tr, hr, hw, hnames =>
      ⟨[], w, hr, fun _ h => (by cases h), fun name r h => (by cases hnames name r h), hw, rfl, rfl,
        fun _ => rfl, fun _ _ => rfl⟩
  | name :: names, w, tr, hr, hw, hnames => by
      by_cases hheld : ∃ r, w.canister.HeldBy p now name r
      · obtain ⟨r, hheld⟩ := hheld
        have hbalanced := run_balanced hX hV hr
        have hfit : w.canister.value ≤ u128Max := by
          have hvalue := hbalanced.value_le
          have hvolume := hbalanced.volume_lt
          omega
        have hstep := step_release hw hheld hp
        have hrun := Run.snoc hr (show lawful w (.call ⟨now, p, false⟩ (.deleteRecord name)) from
          trivial) hstep
        have hrest : ∀ other x, (w.canister.afterRelease now name r).HeldBy p now other x →
            other ∈ names := by
          rintro other x ⟨hflat, hget, howner, hfree⟩
          rw [State.afterRelease_records] at hget
          obtain ⟨hne, hget⟩ := OrdMap.get_erase_eq_some.mp hget
          rw [State.afterRelease_config] at hfree
          exact (List.mem_cons.mp (hnames other x ⟨hflat, hget, howner, hfree⟩)).resolve_left hne
        obtain ⟨newer, v, hrun, hreleases, hnone, hnow, haccount, hconfig, howed, hrecords⟩ :=
          releases hX hV hp hrun le_rfl hrest
        refine ⟨newer ++ [⟨w, .call ⟨now, p, false⟩ (.deleteRecord name), .done (.ok .unit),
          { w with canister := w.canister.afterRelease now name r, now := now }⟩], v,
          by simpa using hrun, fun e he => ?_, hnone, hnow, haccount,
          hconfig.trans State.afterRelease_config, fun q => ?_, fun x hx => ?_⟩
        · rcases List.mem_append.mp he with he | he
          · exact hreleases e he
          · obtain rfl := List.mem_singleton.mp he
            exact ⟨name, rfl, rfl⟩
        · exact (howed q).trans (State.released_owed hX hheld.2.1 hfit q)
        · rw [hrecords x hx]
          change (w.canister.afterRelease now name r).records.get x = _
          rw [State.afterRelease_records, OrdMap.get_erase_ne]
          rintro rfl
          rw [Names.isScoped_of_checkFlat hheld.1] at hx
          cases hx
      · have hrest : ∀ other x, w.canister.HeldBy p now other x → other ∈ names := by
          intro other x h
          refine (List.mem_cons.mp (hnames other x h)).resolve_left ?_
          rintro rfl
          exact hheld ⟨x, h⟩
        exact releases hX hV hp hr hw hrest

/-- A party withdraws its whole credit, and the ledger pays it. -/
lemma withdraws (hX : E.auction.TaxLaws) (hV : E.auction.VickreyLaws)
    (h : Run (machine E) lawful init tr w) (hp : p ≠ Principal.anonymous) (hw : w.now ≤ now)
    (hfee : w.canister.config.fee < w.canister.creditOf p) (block : ℕ) :
    ∃ asked paid u, Run (machine E) lawful init (paid :: asked :: tr) u ∧
      asked.event = .call ⟨now, p, false⟩ (.withdraw (w.canister.creditOf p)) ∧
      paid.event = .reply now asked.pre.nextId (.ok block) (-(w.canister.creditOf p)) ∧
      paid.out = .done (.ok (.block block)) ∧ u.account = w.account - w.canister.creditOf p ∧
      u.canister = { w.canister with credits := w.canister.credits.erase p } := by
  have hvolume := (run_balanced hX hV h).volume_lt
  have hcall := @State.call_withdraw _ w.canister p now _ hp hfee rfl
  have hasked := Run.snoc h
    (show lawful w (.call ⟨now, p, false⟩ (.withdraw (w.canister.creditOf p))) from trivial)
    (by simp only [machine, step, if_neg (not_lt.mpr hw), hcall]; rfl)
  have hpaid := Run.snoc (e := .reply now w.nextId (.ok block) (-(w.canister.creditOf p))) hasked
    (by
      intro q hq
      obtain rfl : q = _ := (Option.some.inj ((OrdMap.get_insert_self _ _ _).symm.trans hq)).symm
      refine ⟨by simp [ledgerLaw, payLaw], ?_⟩
      simpa [State.resume, State.resumeWithdraw, setOut] using hvolume)
    (by
      simp only [machine, step, lt_irrefl, if_false, OrdMap.get_insert_self]
      rfl)
  exact ⟨_, _, _, hpaid, rfl, rfl, rfl, rfl, rfl⟩

/-- **What is owed is paid.**  In every lawful history, at any later time, a party that is owed more
than the ledger fee can take all of it out by its own calls: it releases its names, asks for the sum
of what is left, and when the ledger pays, the account is down by exactly that and the party is owed
nothing.  What the others are owed stays, and what stands under the handles; and the account held
that much, unless more tax was withdrawn than was collected. -/
theorem everything_taken_out (hX : E.auction.TaxLaws) (hV : E.auction.VickreyLaws)
    (h : Run (machine E) lawful init tr w) (hp : p ≠ Principal.anonymous) (hw : w.now ≤ now)
    (hfee : w.canister.config.fee < w.canister.owed p now) (block : ℕ) :
    ∃ newer asked paid u, Run (machine E) lawful init (paid :: asked :: (newer ++ tr)) u ∧
      (∀ e ∈ newer, Releases p now e) ∧
      asked.event = .call ⟨now, p, false⟩ (.withdraw (w.canister.owed p now)) ∧
      paid.event = .reply now asked.pre.nextId (.ok block) (-(w.canister.owed p now)) ∧
      paid.out = .done (.ok (.block block)) ∧
      u.account = w.account - w.canister.owed p now ∧ u.canister.owed p now = 0 ∧
      (∀ q, q ≠ p → u.canister.owed q now = w.canister.owed q now) ∧
      (∀ x, Names.isScoped x = true → u.canister.records.get x = w.canister.records.get x) ∧
      (w.canister.taxWithdrawn ≤ w.canister.taxCollected →
        (w.canister.owed p now : ℤ) ≤ w.account) := by
  obtain ⟨newer, v, hr, hreleases, hnone, hnow, haccount, hconfig, howed, hrecords⟩ :=
    @releases _ p now hX hV hp w.canister.records.keys w tr h hw
      fun name r hheld => OrdMap.mem_keys.mpr (OrdMap.contains_iff.mpr ⟨r, hheld.2.1⟩)
  have hcredit : v.canister.creditOf p = w.canister.owed p now :=
    (State.owed_eq_creditOf hX (run_shape hr) hnone).symm.trans (howed p)
  obtain ⟨asked, paid, u, hrun, hasked, hpaid, hout, hpaidout, hleft⟩ :=
    withdraws hX hV hr hp hnow (by rwa [hcredit, hconfig]) block
  rw [hcredit] at hasked hpaid hpaidout
  have howing : ∀ q, u.canister.owed q now =
      if q = p then v.canister.owed p now - v.canister.creditOf p else v.canister.owed q now :=
    fun q => by rw [hleft]; exact State.owed_erase_credit q
  refine ⟨newer, asked, paid, u, hrun, hreleases, hasked, hpaid, hout, haccount ▸ hpaidout, ?_,
    fun q hq => ?_, fun x hx => ?_, fun htax => ?_⟩
  · rw [howing, if_pos rfl, howed, hcredit, Nat.sub_self]
  · rw [howing, if_neg hq, howed]
  · rw [hleft]
    exact hrecords x hx
  · have hbalanced := run_balanced hX hV h
    have hlower := hbalanced.lower
    have hvalue := w.canister.owed_add_taxCollected_le hX p now
    simp only [books] at hlower
    omega

/-- The buyer of a sold name takes out the balance that is left. -/
theorem everything_taken_out_sold : ∃ (tr : History Env.reference) (w : World Env.reference),
    Run (machine Env.reference) lawful init tr w ∧ tr.reverse.map Entry.event = Script.sold ∧
      w.account = 3050 ∧ ∃ newer asked paid u,
        Run (machine Env.reference) lawful init (paid :: asked :: (newer ++ tr)) u ∧
        asked.event = .call ⟨30, ⟨[3]⟩, false⟩ (.withdraw 50) ∧ u.account = 3000 ∧
        u.canister.owed ⟨[3]⟩ 30 = 0 ∧ u.canister.owed ⟨[2]⟩ 30 = 3000 := by
  obtain ⟨tr, w, hr, hevents, hnow, haccount, hfee, howed, hother⟩ := Machine.exists_run_of_exec
    (machine Env.reference) lawful init Script.sold (fun _ w => w.now ≤ 30 ∧ w.account = 3050 ∧
      w.canister.config.fee < 50 ∧ w.canister.owed ⟨[3]⟩ 30 = 50 ∧
        w.canister.owed ⟨[2]⟩ 30 = 3000)
    (by decide +kernel)
  obtain ⟨newer, asked, paid, u, hrun, -, hasked, -, -, hpaidout, hnone, hothers, -, -⟩ :=
    @everything_taken_out _ w tr ⟨[3]⟩ 30 Reference.auction_taxLaws
      Reference.auction_vickreyLaws hr (by decide) hnow (howed ▸ hfee) 7
  rw [howed] at hasked hpaidout
  refine ⟨tr, w, hr, hevents, haccount, newer, asked, paid, u, hrun, hasked, ?_, hnone,
    (hothers _ (by decide)).trans hother⟩
  rw [hpaidout, haccount]
  rfl

end World
