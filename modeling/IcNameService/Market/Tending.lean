import IcNameService.Market.Handover
import IcNameService.Market.Holding
import IcNameService.Market.Settlements

/-!
# What a message does to a holding that stays with its holder

The holding under a flat name that nobody else gets in the message: the message leaves the record alone, or
settles it, reassesses it or tops it up, as `IcAuction.Tended` says, and takes the tax of that from the
balance.

* `close_keeps`, `placeBid_keeps` — an auction that hands nothing over leaves the record alone.
* `called_tended`, `resumed_tended` — every call and every reply.
-/

namespace State

variable {E : Env}

/-- The tax that a top-up of `name` takes on top of the settlement before it. -/
def topUpTax (E : Env) (name : String) (r : Record) (now : ℕ) : Except Failure ℕ → Pending → ℕ
  | .ok _, .deposit c =>
      if c.name = name then
        match (settleRecord E c.cfg r now).1.flat with
        | none => 0
        | some h =>
            match E.auction.topUp c.cfg.params h c.amount now with
            | .ok (_, more) => more
            | .error _ => 0
      else 0
  | _, _ => 0

lemma sales_ne_of_handedOver {s s' : State E} {name : String} {now : ℕ}
    (h : s'.sales name = now :: s.sales name) : s'.sales name ≠ s.sales name := by
  intro heq
  have hlength := congrArg List.length (h.symm.trans heq)
  rw [List.length_cons] at hlength
  omega

section

variable {s s' : State E} {name : String} {r : Record} {h : Harberger} {now : ℕ}

/-! ## Closing an auction -/

/-- A close that does not hand `name` over leaves its record alone. -/
lemma close_keeps (hn : s.Named) {cfg : Config} {n : String} {c : Closed}
    (hclose : s.close cfg n now = (s', .ok c)) (hsales : s'.sales name = s.sales name) :
    s'.records.get name = s.records.get name := by
  obtain ⟨a, outcome, holding, hc⟩ := close_ok hclose
  rw [hc.records]
  cases holding with
  | none => rfl
  | some x =>
      rw [wonRecords, hn.wonAs_name, OrdMap.get_insert]
      split_ifs with hname
      · subst hname
        have hnotes := (s.settleBids_notes outcome
          (winnerIf outcome (s.lapsedRecord cfg name now).2) (some x))
        have hsold : s'.sales name = now :: s.sales name := by
          rw [hc.state_eq]
          refine (Keeps.noteProceeds _ name _).sales.trans ?_
          rw [handOver_some, sales_commitFlat, sales_noteHandedOver_self,
            sales_congr _ name hnotes]
        exact absurd hsales (sales_ne_of_handedOver hsold)
      · rfl

lemma placeBid_keeps (hn : s.Named) {cfg : Config} {n : String} {bidder : Principal}
    {commitment : Bytes} {deposit : ℕ} {res : Except String (Option ℕ)}
    (hp : s.placeBid cfg n bidder commitment deposit now = (s', res))
    (hsales : s'.sales name = s.sales name) : s'.records.get name = s.records.get name := by
  have hfirst : ∀ s₁ : State E, ClosedFirst s cfg n now s₁ → s₁.sales name = s.sales name →
      s₁.records.get name = s.records.get name := by
    intro s₁ hc hsales
    cases hc with
    | running => rfl
    | ended hclose => exact close_keeps hn hclose hsales
  exact placeBid_induction (P := fun x => x.sales name = s.sales name →
    x.records.get name = s.records.get name) hp (fun _ => rfl) hfirst (fun _ _ hkeeps => hkeeps) hsales

/-! ## What a message does to a holding -/

/-- The record is as it was, or what a message does to a holding was done to it. -/
def RecordTended (E : Env) (cfg : Config) (now more : ℕ) (r : Record) (h : Harberger)
    (r' : Record) : Prop :=
  r' = r ∨ ∃ h', r'.flat = some h' ∧
    IcAuction.Tended E.auction cfg.params now h ((settleRecord E cfg r now).2.2 + more) h'

lemma recordTended_stored {cfg : Config} {more : ℕ} {r' : Record}
    (hget : s.records.get name = some r) (hget' : s.records.get name = some r') :
    RecordTended E cfg now more r h r' := by
  rw [hget] at hget'
  exact Or.inl (Option.some_inj.mp hget').symm

lemma recordTended_same {cfg : Config} {more : ℕ} {r' : Record} (hget : s.records.get name = some r)
    (hget' : s'.records.get name = some r') (hsame : s'.records.get name = s.records.get name) :
    RecordTended E cfg now more r h r' :=
  recordTended_stored hget (hsame ▸ hget')

/-- A record that was settled and kept its price. -/
lemma recordTended_settled {cfg : Config} {r' : Record} (hflat : r.flat = some h)
    (hsettled : r'.flat = (settleRecord E cfg r now).1.flat) :
    RecordTended E cfg now 0 r h r' := by
  rw [settleRecord_flat cfg now hflat] at hsettled
  refine Or.inr ⟨_, hsettled, ?_⟩
  rw [settleRecord_flat cfg now hflat]
  exact .settled

/-- A top-up that went through. -/
lemma tended_of_payable {c : DepositCall} {block tax more : ℕ} {r₁ : Record} {x x' : Harberger}
    (hget : s.records.get c.name = some r) (hflat : r.flat = some h)
    (hpay : s.payable c.cfg c.name c.amount now = .ok (r₁, tax, c.before)) (hx : r₁.flat = some x)
    (htop : E.auction.topUp c.cfg.params x c.amount now = .ok (x', more)) :
    IcAuction.Tended E.auction c.cfg.params now h ((settleRecord E c.cfg r now).2.2 +
      topUpTax E c.name r now (.ok block) (.deposit c)) x' := by
  obtain ⟨⟨old, y, hseen⟩, -, henough⟩ := payable_ok hpay
  have hstored := hseen.stored
  rw [hget] at hstored
  cases hstored
  have hsettled := settleRecord_flat (E := E) c.cfg now hflat
  have hr₁ : r₁.flat = some (E.auction.settle c.cfg.params h now).1 := by
    rw [hseen.settled, hsettled]
  have hy := hseen.flat
  rw [hr₁] at hx hy
  cases hx
  cases hy
  have hmore : topUpTax E c.name r now (.ok block) (.deposit c) = more := by
    simp only [topUpTax, if_pos, hsettled, htop]
  have hbalance : r₁.balance = (E.auction.settle c.cfg.params h now).1.balance := by
    simp only [Record.balance, hr₁, Option.map_some, Option.getD_some]
  rw [hmore, hsettled]
  refine .toppedUp htop ?_
  rw [hseen.snap_eq, hbalance] at henough
  exact henough.trans (satAdd_le _ _)

variable (hs : s.Shape) (hname : Names.isScoped name = false) (hget : s.records.get name = some r)
  (hflat : r.flat = some h)

include hs hname hget hflat

/-- **What a call does to the holding of a name** that nobody else gets. -/
theorem called_tended {cx : Ctx} {c : Call} {p : Progress} {r' : Record}
    (hcovered : ∀ price, c = .setPrice name price → r.owner = cx.caller →
      checkPrice (E := E) s.config price = .ok () →
        IcAuction.Covered E.auction s.config.params h cx.now price)
    (hget' : s'.records.get name = some r') (hsales : s'.sales name = s.sales name)
    (hc : Called s cx c s' p) : RecordTended E s.config cx.now 0 r h r' := by
  have hn := hs.named
  have hscoped : ∀ {n : String} {p : String × String}, Names.split n = .ok p → name ≠ n := by
    rintro n p hsplit rfl
    rw [Names.isScoped_of_split hsplit] at hname
    cases hname
  -- a record under a handle is another name's
  have hcommit : ∀ {x : State E} {n : String} {p : String × String} {r₁ : Record},
      x.records = s.records → r₁.name = n → Names.split n = .ok p →
      (x.commit r₁).records.get name = s.records.get name := by
    rintro x n p r₁ hx rfl hsplit
    rw [commit_records, OrdMap.get_insert_ne _ _ (hscoped hsplit), hx]
  cases hc with
  | refused => exact recordTended_same hget hget' rfl
  | administered ha => cases ha <;> exact recordTended_same hget hget' rfl
  | announced _ _ _ _ ha =>
      cases ha with
      | fresh hsplit =>
          exact recordTended_same hget hget' (hcommit rfl (hn.announceRecord_name cx _ _) hsplit)
      | allowed hsplit =>
          exact recordTended_same hget hget' (hcommit rfl (hn.announceRecord_name cx _ _) hsplit)
  | underHandle hsplit _ _ hw =>
      exact recordTended_same hget hget' (hcommit rfl (hn.scopedWrite_name hw) hsplit)
  | @amended _ n old r₁ hheld ha =>
      have hr₁ : r₁.name = n := by
        rw [amendment_name ha, settleRecord_name, hn _ _ hheld.stored]
      by_cases hnn : name = n
      · subst hnn
        have hstored := hheld.stored
        rw [hget] at hstored
        cases hstored
        rw [commitFlat_records, hr₁, OrdMap.get_insert_self] at hget'
        cases hget'
        cases ha with
        | repoint => exact recordTended_settled hflat rfl
        | retext => exact recordTended_settled hflat rfl
        | @reprice price hprice =>
            refine Or.inr ⟨_, by rw [settleRecord_flat s.config cx.now hflat]; rfl, ?_⟩
            rw [settleRecord_flat s.config cx.now hflat]
            exact .reassessed (hcovered price rfl hheld.owner hprice)
      · refine recordTended_same hget hget' ?_
        rw [commitFlat_records, hr₁, OrdMap.get_insert_ne _ _ hnn]
  | discarded hsplit =>
      refine recordTended_same hget hget' ?_
      change (s.records.erase _).get name = _
      rw [OrdMap.get_erase_ne _ (hscoped hsplit)]
  | @released n old =>
      rw [release_eq] at hget'
      change ((State.paidOut s _ _).records.erase n).get name = some r' at hget'
      rw [(sameRecords_paidOut _ _ _).records, OrdMap.get_erase] at hget'
      split_ifs at hget' with hnn
      exact recordTended_stored hget hget'
  | revealed => exact recordTended_same hget hget' rfl
  | closed hclose => exact recordTended_same hget hget' (close_keeps hn hclose hsales)
  | pulling => exact recordTended_same hget hget' rfl
  | withdrawing _ _ ht =>
      obtain ⟨-, credits, rfl, -⟩ := takeCredit_ok ht
      exact recordTended_same hget hget' rfl
  | funding => exact recordTended_same hget hget' rfl
  | configuring => exact recordTended_same hget hget' rfl

omit hflat hname in
/-- A purchase that is not of the name leaves it alone. -/
lemma tended_bought {c : BuyCall} {r₁ r' : Record} {tax taxed : ℕ}
    (hbuy : s.buyable c.cfg c.name c.caller c.maxPrice now = .ok (r₁, tax, c.before))
    (hget' : (s.dropInFlight.bought now c r₁ tax).records.get name = some r')
    (hsales : (s.dropInFlight.bought now c r₁ tax).sales name = s.sales name) :
    RecordTended E s.config now taxed r h r' := by
  obtain ⟨⟨old, x, hseen⟩, -, -⟩ := buyable_ok hbuy
  have hname : r₁.name = c.name := hseen.name_of_named hs.named
  by_cases hnn : name = c.name
  · have hsold : (s.dropInFlight.bought now c r₁ tax).sales name = now :: s.sales name := by
      rw [State.bought, sales_commitFlat, hnn, sales_noteHandedOver_self,
        (Keeps.addCredit s.dropInFlight c.name _ _).sales]
      rfl
    exact absurd hsales (sales_ne_of_handedOver hsold)
  · refine recordTended_same hget hget' ?_
    rw [bought_records, hname, OrdMap.get_insert_ne _ _ hnn]
    rfl

omit hname in
/-- **What a reply does to the holding of a name** that nobody else gets. -/
theorem resumed_tended {reply : Except Failure ℕ} {p : Pending} {pr : Progress} {r' : Record}
    (hcarried : ∀ c, p = .deposit c → c.cfg = s.config) (hget' : s'.records.get name = some r')
    (hsales : s'.sales name = s.sales name) (hr : Resumed s now reply p s' pr) :
    RecordTended E s.config now (topUpTax E name r now reply p) r h r' := by
  have hn := hs.named
  cases hr with
  | pullFailed =>
      refine recordTended_same hget hget' ?_
      simp only [State.pullFailed]
      split_ifs <;> rfl
  | bought _ hbuy => exact tended_bought hs hget hbuy hget' hsales
  | @toppedUp c block r₁ tax more x x' hreply hpay hx htop =>
      obtain ⟨⟨old, y, hseen⟩, -, -⟩ := payable_ok hpay
      have hr₁ : r₁.name = c.name := hseen.name_of_named hn
      rw [commitFlat_records] at hget'
      change (s.records.insert r₁.name _).get name = some r' at hget'
      rw [hr₁] at hget'
      rcases OrdMap.get_insert_eq_some.mp hget' with ⟨rfl, rfl⟩ | ⟨-, hget'⟩
      · subst hreply
        refine Or.inr ⟨x', rfl, ?_⟩
        rw [← hcarried c rfl]
        exact tended_of_payable hget hflat hpay hx htop
      · exact recordTended_stored hget hget'
  | creditedBack =>
      refine recordTended_same hget hget' ?_
      rw [addCredit_records]
      rfl
  | placed _ hp =>
      refine recordTended_same hget hget' ?_
      rw [(Keeps.addCredit _ name _ _).sales] at hsales
      rw [addCredit_records]
      exact placeBid_keeps (s := s.dropInFlight) hn hp hsales
  | bidRefused _ hp =>
      refine recordTended_same hget hget' ?_
      rw [(Keeps.addCredit _ name _ _).sales] at hsales
      rw [addCredit_records]
      exact placeBid_keeps (s := s.dropInFlight) hn hp hsales
  | paid => exact recordTended_same hget hget' rfl
  | @payRefused _ caller amount =>
      refine recordTended_same hget hget' ?_
      change (s.addCredit caller amount).records.get name = _
      rw [addCredit_records]
  | payUnconfirmed => exact recordTended_same hget hget' rfl
  | feeRefused => exact recordTended_same hget hget' rfl
  | feeAgreed => exact recordTended_same hget hget' rfl
  | funded => exact recordTended_same hget hget' rfl
  | fundRefused => exact recordTended_same hget hget' rfl
  | fundCharged => exact recordTended_same hget hget' rfl
  | fundUnconfirmed => exact recordTended_same hget hget' rfl
  | configRefused => exact recordTended_same hget hget' rfl
  | configSettled hreply =>
      subst hreply
      rw [hn.settleAll_get, hget] at hget'
      cases hget'
      exact recordTended_settled hflat rfl
  | @configured c fee s₁ hreply _ _ hs₁ =>
      subst hreply
      change s₁.records.get name = some r' at hget'
      subst hs₁
      split_ifs at hget'
      · rw [hn.settleAll_get, hget] at hget'
        cases hget'
        exact recordTended_settled hflat rfl
      · exact recordTended_stored hget hget'

end

end State
