import IcNameService.Naming.Handles
import IcNameService.Resolution.Follow

/-!
# Flat and scoped records never mix

Records of both kinds share one map.  `Shape` keeps their grammar apart and `Housed` their owners;
what is left is `Bounded`: a price is at most the maximum, whichever of the writers set it, and a
record under a handle does not alias itself.  The price of a won name is a revealed bid, so `Bounded`
speaks of the bids too.

* `Unmixed` — the whole of it, name by name.
* `World.flat_and_scoped_never_mix` — every history keeps it, and so only the first record `follow`
  visits can be flat.
-/

/-- A price within the maximum, and no alias to itself under a handle. -/
structure Record.Bounded (E : Env) (r : Record) : Prop where
  price : ∀ h, r.flat = some h → h.price ≤ E.auction.maxPrice
  outward : Names.isScoped r.name = true → r.target ≠ .alias r.name

namespace State

variable {E : Env}

/-- Every record and every revealed bid is within the maximum price. -/
structure Bounded (s : State E) : Prop where
  records : ∀ name r, s.records.get name = some r → r.Bounded E
  bids : ∀ name r, s.auctions.get name = some r → ∀ b ∈ E.auction.bids r.auction, ∀ n,
    b.revealed = some n → n ≤ E.auction.maxPrice

/-- A suspended purchase carries a price that was checked. -/
def Priced (E : Env) : Pending → Prop
  | .buy c => c.price ≤ E.auction.maxPrice
  | _ => True

section

variable {s s' : State E}

lemma checkPrice_ok {cfg : Config} {price : ℕ} (h : checkPrice (E := E) cfg price = .ok ()) :
    cfg.minPrice ≤ price ∧ price ≤ E.auction.maxPrice := by
  simp only [checkPrice] at h
  split_ifs at h with h₁ h₂
  exact ⟨not_lt.mp h₁, not_lt.mp h₂⟩

lemma priced_called {cx : Ctx} {c : Call} {p : Pending} (h : Called s cx c s' (.await p)) :
    Priced E p := by
  cases h with
  | pulling hp =>
      cases hp with
      | buy _ _ hprice => exact (checkPrice_ok hprice).2
      | deposit => trivial
      | bid => trivial
  | withdrawing => trivial
  | funding => trivial
  | configuring => trivial

/-! ## One write -/

namespace Bounded

lemma congr (h : s.Bounded) (hrecords : s'.records = s.records)
    (hauctions : s'.auctions = s.auctions) : s'.Bounded where
  records name r hget := h.records name r (hrecords ▸ hget)
  bids name r hget := h.bids name r (hauctions ▸ hget)

lemma noteHandedOver (h : s.Bounded) (name : String) (now : ℕ) :
    (s.noteHandedOver name now).Bounded :=
  h.congr (noteHandedOver_records s name now) (noteHandedOver_auctions s name now)

lemma commit (h : s.Bounded) {r : Record} (hr : r.Bounded E) : (s.commit r).Bounded where
  records name r' hget := by
    rw [commit_records] at hget
    rcases OrdMap.get_insert_eq_some.mp hget with ⟨-, rfl⟩ | ⟨-, hget⟩
    · exact hr
    · exact h.records name r' hget
  bids name r' hget := h.bids name r' (by rwa [commit_auctions] at hget)

lemma commitFlat (h : s.Bounded) {r : Record} (hr : r.Bounded E) (tax : ℕ) :
    (s.commitFlat r tax).Bounded :=
  commit (h.congr (noteTaxCollected_records s tax) (noteTaxCollected_auctions s tax)) hr

lemma discard (h : s.Bounded) (name : String) (r : Record) :
    (((s.eraseRecord name).unindex r).certifyRemove name).Bounded where
  records name' r' hget := by
    obtain ⟨-, hget⟩ := OrdMap.get_erase_eq_some.mp hget
    exact h.records name' r' hget
  bids := h.bids

lemma addCredit (h : s.Bounded) (p : Principal) (n : ℕ) : (s.addCredit p n).Bounded :=
  h.congr (addCredit_records s p n) (addCredit_auctions s p n)

lemma put (h : s.Bounded) {name : String} {r : Running E}
    (hr : ∀ b ∈ E.auction.bids r.auction, ∀ n, b.revealed = some n → n ≤ E.auction.maxPrice) :
    (s.putAuction name r).Bounded where
  records := h.records
  bids name' r' hget := by
    rcases OrdMap.get_insert_eq_some.mp hget with ⟨-, rfl⟩ | ⟨-, hget⟩
    · exact hr
    · exact h.bids name' r' hget

end Bounded

/-! ## The records that are written -/

lemma bounded_of_flat {r : Record} (hname : Names.isScoped r.name = false)
    (hprice : ∀ h, r.flat = some h → h.price ≤ E.auction.maxPrice) : r.Bounded E where
  price := hprice
  outward hscoped := by
    rw [hname] at hscoped
    cases hscoped

lemma bounded_of_untaxed {r : Record} (hflat : r.flat = none) (hout : r.target ≠ .alias r.name) :
    r.Bounded E where
  price h hr := by
    rw [hflat] at hr
    cases hr
  outward _ := hout

/-- A settlement leaves the price and the target alone. -/
lemma bounded_settled (hX : E.auction.TaxLaws) {r : Record} (h : r.Bounded E) (cfg : Config)
    (now : ℕ) : (settleRecord E cfg r now).1.Bounded E where
  price y hy := by
    cases hflat : r.flat with
    | none =>
        rw [settleRecord_none cfg now hflat, hflat] at hy
        cases hy
    | some x =>
        rw [settleRecord_flat cfg now hflat] at hy
        cases hy
        rw [hX.settle_price]
        exact h.price x hflat
  outward hscoped := by
    rw [settleRecord_name] at hscoped ⊢
    rw [settleRecord_target]
    exact h.outward hscoped

lemma bounded_amendment {cx : Ctx} {name : String} {r r' : Record} {c : Call}
    (hname : Names.isScoped r.name = false) (hr : r.Bounded E) (h : Amendment s cx name r c r') :
    r'.Bounded E := by
  cases h with
  | repoint => exact bounded_of_flat hname hr.price
  | retext => exact bounded_of_flat hname hr.price
  | reprice hprice =>
      refine bounded_of_flat hname fun y hy => ?_
      obtain ⟨x, -, rfl⟩ := Option.map_eq_some_iff.mp hy
      exact (checkPrice_ok hprice).2

lemma Bounded.scopedWrite (h : s.Bounded) (hs : s.Shape) {cx : Ctx} {name : String}
    {p : String × String} {c : Call} {r : Record} (hsplit : Names.split name = .ok p)
    (hw : ScopedWrite s cx name c r) : r.Bounded E := by
  cases hw with
  | create _ _ hself => exact bounded_of_untaxed rfl hself
  | repoint hget _ hself =>
      obtain ⟨hn, hnone, -, -⟩ := hs.plain_of_split hsplit hget
      exact bounded_of_untaxed hnone (hn.symm ▸ hself)
  | retext hget =>
      obtain ⟨hn, hnone, -, -⟩ := hs.plain_of_split hsplit hget
      have hscoped := Names.isScoped_of_split hsplit
      exact bounded_of_untaxed hnone ((h.records _ _ hget).outward (hn.symm ▸ hscoped))

lemma Shape.bounded_announceRecord (hs : s.Shape) {cx : Ctx} {a : Announcement} {p : String × String}
    (owner : Principal) (hsplit : Names.split a.name = .ok p) :
    (s.announceRecord cx a owner).Bounded E := by
  have haddress : ∀ name, Target.address a.canister ≠ .alias name := fun _ h => by cases h
  simp only [State.announceRecord, getRecord]
  cases hget : s.records.get a.name with
  | none => exact bounded_of_untaxed rfl (haddress _)
  | some r =>
      obtain ⟨-, hnone, -, -⟩ := hs.plain_of_split hsplit hget
      exact bounded_of_untaxed hnone (haddress _)

/-! ## Closing and bidding -/

/-- What the winner pays by is a bid they revealed. -/
lemma ClosedAs.bid_mem {cfg : Config} {name : String} {now : ℕ} {r : Running E}
    {outcome : Outcome} {holding : Option Holding} {c : Closed}
    (h : ClosedAs s cfg name now r outcome holding s' c) {x : Holding} (hx : holding = some x) :
    ∃ b ∈ E.auction.bids r.auction, b.bidder = x.1.bytes ∧ b.revealed = some x.2.2 := by
  have hh := h.holds
  simp only [winnerHolding, hx] at hh
  split at hh
  · cases hh
  · rename_i w heq
    split at hh
    · cases hh
    · rename_i bid hbid
      split at hh
      · cases hh
      · cases hh
        obtain ⟨b, hfind, hrevealed⟩ := Option.bind_eq_some_iff.mp hbid
        refine ⟨b, List.mem_of_find?_eq_some hfind, ?_, hrevealed⟩
        simpa using List.find?_some hfind

lemma Bounded.close (hX : E.auction.TaxLaws) (h : s.Bounded) (hs : s.Shape) {cfg : Config}
    {name : String} {now : ℕ} {c : Closed} (hclose : s.close cfg name now = (s', .ok c)) :
    s'.Bounded := by
  obtain ⟨r, outcome, holding, hc⟩ := close_ok hclose
  obtain ⟨hname, -⟩ := hs.auctions name r hc.stored
  refine ⟨fun n r' hget => ?_, fun n r' hget => ?_⟩
  · rw [hc.records] at hget
    cases hx : holding with
    | none =>
        rw [hx] at hget
        exact h.records n r' hget
    | some x =>
        rw [hx] at hget
        simp only [wonRecords] at hget
        rcases OrdMap.get_insert_eq_some.mp hget with ⟨-, rfl⟩ | ⟨-, hget⟩
        · obtain ⟨b, hb, -, hrevealed⟩ := hc.bid_mem hx
          refine bounded_of_flat ?_ fun y hy => ?_
          · rw [hs.named.wonAs_name]
            exact Names.isScoped_of_checkFlat hname
          · cases hy
            rw [hX.holding_price]
            exact h.bids name r hc.stored b hb _ hrevealed
        · exact h.records n r' hget
  · rw [hc.auctions] at hget
    exact h.bids n r' (OrdMap.get_erase_eq_some.mp hget).2

lemma Bounded.closedFirst (hX : E.auction.TaxLaws) (h : s.Bounded) (hs : s.Shape) {cfg : Config}
    {name : String} {now : ℕ} (hc : ClosedFirst s cfg name now s') : s'.Bounded := by
  cases hc with
  | running => exact h
  | ended hclose => exact h.close hX hs hclose

/-- The bids of the auction a commitment goes to are those stored, or none. -/
lemma Bounded.bidAuction (hV : E.auction.VickreyLaws) (h : s.Bounded) (cfg : Config) (name : String)
    (now : ℕ) : ∀ b ∈ E.auction.bids (s.bidAuction cfg name now).auction, ∀ n,
      b.revealed = some n → n ≤ E.auction.maxPrice := by
  simp only [State.bidAuction, getAuction]
  cases hget : s.auctions.get name with
  | none =>
      intro b hb
      simp [hV.start_bids] at hb
  | some r => exact h.bids name r hget

lemma Bounded.placeBid (hX : E.auction.TaxLaws) (hV : E.auction.VickreyLaws) (h : s.Bounded)
    (hs : s.Shape) {cfg : Config} {name : String} {bidder : Principal} {commitment : Bytes}
    {deposit now : ℕ} {res : Except String (Option ℕ)}
    (hp : s.placeBid cfg name bidder commitment deposit now = (s', res)) : s'.Bounded := by
  cases res with
  | error e =>
      rcases placeBid_error hp with rfl | hc
      · exact h
      · exact h.closedFirst hX hs hc
  | ok replaced =>
      obtain ⟨s₁, auction, hc, -, hcommit, rfl⟩ := placeBid_ok hp
      have h₁ := h.closedFirst hX hs hc
      obtain ⟨-, hperm, -⟩ := hV.commit_ok _ _ _ _ _ _ _ hcommit
      refine h₁.put fun b hb n hn => ?_
      rcases List.mem_cons.mp (hperm.mem_iff.mp hb) with rfl | hb
      · cases hn
      · exact h₁.bidAuction hV cfg name now b (List.mem_filter.mp hb).1 n hn

/-! ## Every message -/

theorem called_bounded (hX : E.auction.TaxLaws) (hV : E.auction.VickreyLaws) (h : s.Bounded)
    (hs : s.Shape) {cx : Ctx} {c : Call} {p : Progress} (hc : Called s cx c s' p) : s'.Bounded := by
  cases hc with
  | refused => exact h
  | administered ha => cases ha <;> exact h.congr rfl rfl
  | announced _ _ _ _ ha =>
      cases ha with
      | @fresh handle _ hsplit =>
          have hregistered : State.Bounded { s with
              handles := s.handles.insert handle ⟨cx.caller, none⟩ } := h.congr rfl rfl
          exact hregistered.commit (hs.bounded_announceRecord _ hsplit)
      | allowed hsplit => exact h.commit (hs.bounded_announceRecord _ hsplit)
  | underHandle hsplit _ _ hw => exact h.commit (h.scopedWrite hs hsplit hw)
  | @amended _ name old r hheld ha =>
      refine h.commitFlat (bounded_amendment ?_ ?_ ha) _
      · rw [settleRecord_name, hs.named _ _ hheld.stored]
        exact Names.isScoped_of_checkFlat hheld.flatName
      · exact bounded_settled hX (h.records _ _ hheld.stored) _ _
  | discarded => exact h.discard _ _
  | @released name old =>
      rw [release_eq]
      refine Bounded.discard (Bounded.addCredit ?_ _ _) _ _
      exact h.congr (noteTaxCollected_records _ _) (noteTaxCollected_auctions _ _)
  | revealed _ hr =>
      obtain ⟨old, hget, hreveal, hmax, -⟩ := revealed_ok hr
      obtain ⟨-, -, hbids⟩ := hV.reveal_ok _ _ _ _ _ _ hreveal
      refine h.put fun b hb n hn => ?_
      rw [hbids] at hb
      obtain ⟨b₀, hb₀, rfl⟩ := List.mem_map.mp hb
      split_ifs at hn
      · cases hn
        exact hmax
      · exact h.bids _ _ hget b₀ hb₀ n hn
  | closed hclose => exact h.close hX hs hclose
  | pulling => exact h.congr rfl rfl
  | withdrawing _ _ ht =>
      obtain ⟨-, credits, rfl, -⟩ := takeCredit_ok ht
      exact h.congr rfl rfl
  | funding => exact h.congr rfl rfl
  | configuring => exact h

lemma Bounded.settleAll (hX : E.auction.TaxLaws) (h : s.Bounded) (hn : s.Named) (cfg : Config)
    (now : ℕ) : (s.settleAll cfg now).1.Bounded where
  records name r hget := by
    rw [hn.settleAll_get] at hget
    obtain ⟨old, hold, rfl⟩ := Option.map_eq_some_iff.mp hget
    exact bounded_settled hX (h.records name old hold) cfg now
  bids name r hget := h.bids name r (by rwa [settleAll_auctions] at hget)

theorem resumed_bounded (hX : E.auction.TaxLaws) (hV : E.auction.VickreyLaws) (h : s.Bounded)
    (hs : s.Shape) {now : ℕ} {reply : Except Failure ℕ} {p : Pending} {pr : Progress}
    (hcarried : Carried p) (hpriced : Priced E p) (hr : Resumed s now reply p s' pr) :
    s'.Bounded := by
  have hdrop : s.dropInFlight.Bounded := h.congr rfl rfl
  have hshape : s.dropInFlight.Shape := hs.congr rfl rfl
  cases hr with
  | pullFailed =>
      simp only [State.pullFailed]
      split_ifs <;> exact h.congr rfl rfl
  | @bought c block r tax _ hbuy =>
      obtain ⟨⟨old, x, hseen⟩, -⟩ := buyable_ok hbuy
      have hpaid := hdrop.addCredit r.owner (satAdd c.before.price r.balance)
      have hnoted := hpaid.noteHandedOver c.name now
      refine hnoted.commitFlat (bounded_of_flat ?_ fun y hy => ?_) _
      · change Names.isScoped r.name = false
        rw [hseen.name_of_named hs.named]
        exact Names.isScoped_of_checkFlat hcarried.1
      · cases hy
        rw [hX.holding_price]
        exact hpriced
  | @toppedUp c block r tax more y y' _ hpay hflat htop =>
      obtain ⟨⟨old, x, hseen⟩, -⟩ := payable_ok hpay
      have hsettled : r.Bounded E := by
        rw [hseen.settled]
        exact bounded_settled hX (hdrop.records _ _ hseen.stored) _ _
      refine hdrop.commitFlat (bounded_of_flat ?_ fun z hz => ?_) _
      · change Names.isScoped r.name = false
        rw [hseen.name_of_named hs.named]
        exact Names.isScoped_of_checkFlat hcarried
      · cases hz
        rw [hX.topUp_price _ _ _ _ _ _ htop]
        exact hsettled.price _ hflat
  | creditedBack => exact hdrop.addCredit _ _
  | placed _ hp => exact (hdrop.placeBid hX hV hshape hp).addCredit _ _
  | bidRefused _ hp => exact (hdrop.placeBid hX hV hshape hp).addCredit _ _
  | paid => exact hdrop
  | payRefused => exact (h.addCredit _ _).congr rfl rfl
  | payUnconfirmed => exact h.congr rfl rfl
  | feeRefused => exact hdrop
  | feeAgreed => exact h.congr rfl rfl
  | funded => exact hdrop
  | fundRefused => exact h.congr rfl rfl
  | fundCharged => exact h.congr rfl rfl
  | fundUnconfirmed => exact h.congr rfl rfl
  | configRefused => exact h
  | configSettled => exact h.settleAll hX hs.named _ _
  | configured _ _ _ hs' =>
      subst hs'
      split_ifs
      · exact (h.settleAll hX hs.named _ _).congr rfl rfl
      · exact h.congr rfl rfl

end

/-! ## The whole of it -/

/-- What stands under a flat name: a taxed record, priced within the maximum, that aliases a scoped
name now and before it last changed hands. -/
structure FlatRecord (E : Env) (name : String) (r : Record) : Prop where
  valid : Names.checkFlat name = .ok ()
  taxed : ∃ h, r.flat = some h ∧ h.price ≤ E.auction.maxPrice
  target : r.target.Flat
  previous : ∀ t, r.previousTarget = some t → t.Flat

/-- What stands under a scoped name: a record of a registered handle that is not taxed, was never
sold, and holds an address or aliases another scoped name. -/
structure ScopedRecord (s : State E) (name : String) (r : Record) : Prop where
  valid : ∃ handle label, Names.split name = .ok (handle, label) ∧ (s.handles.get handle).isSome = true
  untaxed : r.flat = none
  unsold : r.previousTarget = none
  target : ∀ dest, r.target = .alias dest → dest ≠ name ∧ ∃ p, Names.split dest = .ok p

/-- **Flat and scoped records are apart**: every record under its own name, of the kind the name says,
and auctions under flat names only. -/
structure Unmixed (s : State E) : Prop where
  named : ∀ name r, s.records.get name = some r → r.name = name
  flat : ∀ name r, s.records.get name = some r → Names.isScoped name = false → FlatRecord E name r
  housed : ∀ name r, s.records.get name = some r → Names.isScoped name = true →
    ScopedRecord s name r
  auctions : ∀ name r, s.auctions.get name = some r → Names.checkFlat name = .ok () ∧
    ∀ t ∈ r.targets, ∃ p, Names.split t.2.aliasTo = .ok p

section

variable {s : State E} {name : String} {p : Principal} {chain : List Record}

theorem Shape.unmixed (hs : s.Shape) (hh : s.Housed) (hb : s.Bounded) : s.Unmixed where
  named := hs.named
  auctions := hs.auctions
  flat name r hget hflat := by
    have hn := hs.named name r hget
    obtain ⟨hvalid, hsome, htarget, hprevious⟩ := (hs.records name r hget).flatName (hn ▸ hflat)
    obtain ⟨h, hh⟩ := Option.isSome_iff_exists.mp hsome
    exact ⟨hn ▸ hvalid, ⟨h, hh, (hb.records name r hget).price h hh⟩, htarget, hprevious⟩
  housed name r hget hscoped := by
    have hn := hs.named name r hget
    obtain ⟨⟨⟨handle, label⟩, hsplit⟩, hnone, hprevious, hvalid⟩ :=
      (hs.records name r hget).plain (hn ▸ hscoped)
    rw [hn] at hsplit
    obtain ⟨v, hv, -⟩ := hh name _ r hsplit hget
    refine ⟨⟨handle, label, hsplit, by rw [hv]; rfl⟩, hnone, hprevious, fun dest hdest => ?_⟩
    refine ⟨?_, hvalid dest hdest⟩
    rintro rfl
    exact (hb.records dest r hget).outward (hn.symm ▸ hscoped) (hn.symm ▸ hdest)

/-- On the way from a scoped name every record is plain. -/
lemma Shape.plain_of_resolves (hs : s.Shape) (h : s.Resolves name chain p)
    (hname : ∃ q, Names.split name = .ok q) :
    ∀ r ∈ chain, r.flat = none ∧ r.previousTarget = none := by
  induction h with
  | @ends k r p hget =>
      intro x hx
      obtain ⟨q, hq⟩ := hname
      obtain ⟨-, hnone, hprevious, -⟩ := hs.plain_of_split hq hget
      rw [List.mem_singleton] at hx
      subst hx
      exact ⟨hnone, hprevious⟩
  | @on k next r rest p hget hpoint _ ih =>
      obtain ⟨q, hq⟩ := hname
      obtain ⟨-, hnone, hprevious, hvalid⟩ := hs.plain_of_split hq hget
      have hnext : ∃ q, Names.split next = .ok q := by
        simp only [Record.pointsTo] at hpoint
        split at hpoint
        · rename_i htarget
          cases hpoint
          exact hvalid _ htarget
        · cases hpoint
      intro x hx
      rcases List.mem_cons.mp hx with rfl | hx
      · exact ⟨hnone, hprevious⟩
      · exact ih hnext x hx

/-- After the first record of a walk every record is plain: a flat name aliases a scoped one. -/
lemma Shape.plain_of_tail (hs : s.Shape) (hname : Nameable name) (h : s.Resolves name chain p) :
    ∀ r ∈ chain.tail, r.flat = none := by
  intro x hx
  simp only [Nameable] at hname
  split_ifs at hname with hscoped
  · exact (hs.plain_of_resolves h hname x (List.mem_of_mem_tail hx)).1
  · cases h with
    | ends => cases hx
    | on hget hpoint hrest =>
        obtain ⟨-, -, ⟨dest, q, htarget, hsplit⟩, -⟩ := hs.flat_of_checkFlat hname hget
        simp only [Record.pointsTo, htarget, Sum.inl.injEq] at hpoint
        subst hpoint
        exact (hs.plain_of_resolves hrest ⟨q, hsplit⟩ x hx).1

end

end State

namespace World

variable {E : Env} {w : World E} {tr : History E}

lemma bounded_init : (State.init (E := E)).Bounded where
  records name r hget := by cases hget
  bids name r hget := by cases hget

lemma run_bounded (hX : E.auction.TaxLaws) (hV : E.auction.VickreyLaws)
    (h : Run (machine E) anyEvent init tr w) : w.canister.Bounded := by
  have key : w.canister.Bounded ∧ Suspended (State.Priced E) w := by
    refine run_induction (I := fun _ w => w.canister.Bounded ∧ Suspended (State.Priced E) w) rfl
      ⟨bounded_init, suspended_start _ _⟩ ?_ h
    rintro tr w e w' o hr ⟨hb, hpriced⟩ - hs
    have hshape := run_shape hr
    refine ⟨?_, suspended_step (fun _ _ _ _ => State.priced_called) (fun _ _ h => h) hpriced hs⟩
    cases hs with
    | answered _ hc => exact State.called_bounded hX hV hb hshape hc
    | suspended _ hc => exact State.called_bounded hX hV hb hshape hc
    | resumed _ hget hr' =>
        exact State.resumed_bounded hX hV hb hshape (run_carried hr _ _ hget) (hpriced _ _ hget) hr'
    | continued => exact hb.congr rfl rfl
    | upgraded => exact hb.congr rfl rfl
  exact key.1

/-- **Flat and scoped records never mix**, in any state that any history reaches; hence in every
successful `follow` only the first record of the chain can be flat. -/
theorem flat_and_scoped_never_mix (hX : E.auction.TaxLaws) (hV : E.auction.VickreyLaws)
    (h : Run (machine E) anyEvent init tr w) :
    w.canister.Unmixed ∧ ∀ name now p chain, w.canister.follow name now = .ok (p, chain) →
      ∀ r ∈ chain.tail, r.flat = none := by
  have hshape := run_shape h
  refine ⟨hshape.unmixed (run_housed h).1 (run_bounded hX hV h), ?_⟩
  intro name now p chain hfollow
  obtain ⟨hname, hwalk, -, -⟩ := (State.follow_eq_ok hshape.named).mp hfollow
  exact hshape.plain_of_tail hname hwalk

theorem flat_and_scoped_never_mix_won : ∃ w : World Env.reference,
    (∃ tr, Run (machine Env.reference) anyEvent init tr w ∧ tr.reverse.map Entry.event =
      Script.housing ++ Script.opening ++ Script.winning 1 2 "abc" "h/x" 10 2000 5) ∧
    (∃ r, w.canister.records.get "abc" = some r ∧ State.FlatRecord Env.reference "abc" r) ∧
    ∃ r, w.canister.records.get "h/x" = some r ∧ State.ScopedRecord w.canister "h/x" r := by
  obtain ⟨tr, w, hr, hevents, habc, hhx⟩ := Machine.exists_run_of_exec (machine Env.reference)
    anyEvent init (Script.housing ++ Script.opening ++ Script.winning 1 2 "abc" "h/x" 10 2000 5)
    (fun _ w => (w.canister.records.get "abc").isSome = true ∧
      (w.canister.records.get "h/x").isSome = true) (by decide +kernel)
  obtain ⟨abc, habc⟩ := Option.isSome_iff_exists.mp habc
  obtain ⟨hx, hhx⟩ := Option.isSome_iff_exists.mp hhx
  have hunmixed := (flat_and_scoped_never_mix Reference.auction_taxLaws
    Reference.auction_vickreyLaws hr).1
  exact ⟨w, ⟨tr, hr, hevents⟩,
    ⟨abc, habc, hunmixed.flat _ _ habc (by decide +kernel)⟩,
    ⟨hx, hhx, hunmixed.housed _ _ hhx (by decide +kernel)⟩⟩

end World
