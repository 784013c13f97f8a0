import IcNameService.Canister.Effects

/-!
# Flat and scoped records never mix

`Shape` is the grammar of a state: a record stands under its own name, and the name says what kind it
is.  A scoped name is a valid `<handle>/<label>` whose record has no tax state and nothing before it;
a flat name is a valid unreserved segment whose record is taxed and aliases a scoped name, now and
before it last changed hands.  Auctions run under flat names only, and every revealed bid names a
scoped name.

`called_shape` and `resumed_shape` say that no message breaks it, given what a suspended call
carries (`Carried`).
-/

/-- An alias target is a valid scoped name. -/
def Target.Valid (t : Target) : Prop := ∀ dest, t = .alias dest → ∃ p, Names.split dest = .ok p

/-- The target of a flat name: an alias to a valid scoped name. -/
def Target.Flat (t : Target) : Prop := ∃ dest p, t = .alias dest ∧ Names.split dest = .ok p

lemma Target.Flat.valid {t : Target} (h : t.Flat) : t.Valid := by
  obtain ⟨dest, p, rfl, hsplit⟩ := h
  intro dest' hdest
  cases hdest
  exact ⟨p, hsplit⟩

/-- The grammar of a record under its own name. -/
structure Record.Shaped (r : Record) : Prop where
  plain : Names.isScoped r.name = true →
    (∃ p, Names.split r.name = .ok p) ∧ r.flat = none ∧ r.previousTarget = none ∧ r.target.Valid
  flatName : Names.isScoped r.name = false →
    Names.checkFlat r.name = .ok () ∧ r.flat.isSome = true ∧ r.target.Flat ∧
      ∀ t, r.previousTarget = some t → t.Flat

namespace State

variable {E : Env}

/-- The grammar of a state. -/
structure Shape (s : State E) : Prop where
  named : s.Named
  records : ∀ name r, s.records.get name = some r → r.Shaped
  auctions : ∀ name r, s.auctions.get name = some r →
    Names.checkFlat name = .ok () ∧ ∀ t ∈ r.targets, ∃ p, Names.split t.2.aliasTo = .ok p

/-- What a suspended call carries, as it was checked before the call was suspended. -/
def Carried : Pending → Prop
  | .buy c => Names.checkFlat c.name = .ok () ∧ c.target.Flat ∧
      c.total = satAdd c.before.price c.deposit
  | .deposit c => Names.checkFlat c.name = .ok ()
  | .bid c => Names.checkFlat c.name = .ok ()
  | .withdraw cfg _ amount => cfg.fee < amount
  | .fundSelfFee cfg amount => cfg.fee < amount
  | .fundSelf cfg amount => cfg.fee < amount
  | .setHarbergerConfig _ => True

lemma carried_called {s s' : State E} {cx : Ctx} {c : Call} {p : Pending}
    (h : Called s cx c s' (.await p)) : Carried p := by
  cases h with
  | pulling hp =>
      cases hp with
      | buy hflat htarget =>
          obtain ⟨dest, p, hdest, hsplit⟩ := checkFlatTarget_ok htarget
          exact ⟨hflat, ⟨dest, p, hdest, hsplit⟩, rfl⟩
      | deposit hflat => exact hflat
      | bid _ hflat => exact hflat
  | withdrawing _ hfee => exact hfee
  | funding _ hfee => exact hfee
  | configuring => trivial

section

variable {s s' : State E}

/-! ## One write -/

lemma Shape.congr (h : s.Shape) (hr : s'.records = s.records) (ha : s'.auctions = s.auctions) :
    s'.Shape where
  named name r hget := h.named name r (hr ▸ hget)
  records name r hget := h.records name r (hr ▸ hget)
  auctions name r hget := h.auctions name r (ha ▸ hget)

lemma Shape.noteHandedOver (h : s.Shape) (name : String) (now : ℕ) :
    (s.noteHandedOver name now).Shape :=
  h.congr (noteHandedOver_records s name now) (noteHandedOver_auctions s name now)

lemma Shape.commit (h : s.Shape) {r : Record} (hr : r.Shaped) : (s.commit r).Shape where
  named := named_invariant.commit s r h.named
  records name r' hget := by
    rw [commit_records] at hget
    rcases OrdMap.get_insert_eq_some.mp hget with ⟨-, rfl⟩ | ⟨-, hget⟩
    · exact hr
    · exact h.records name r' hget
  auctions name r' hget := h.auctions name r' (by rwa [commit_auctions] at hget)

lemma Shape.commitFlat (h : s.Shape) {r : Record} (hr : r.Shaped) (tax : ℕ) :
    (s.commitFlat r tax).Shape :=
  Shape.commit (h.congr (noteTaxCollected_records s tax) (noteTaxCollected_auctions s tax)) hr

lemma Shape.discard (h : s.Shape) (name : String) (r : Record) :
    (((s.eraseRecord name).unindex r).certifyRemove name).Shape where
  named := named_invariant.discard s name r h.named
  records name' r' hget := by
    obtain ⟨-, hget⟩ := OrdMap.get_erase_eq_some.mp hget
    exact h.records name' r' hget
  auctions := h.auctions

lemma Shape.addCredit (h : s.Shape) (p : Principal) (n : ℕ) : (s.addCredit p n).Shape :=
  h.congr (addCredit_records s p n) (addCredit_auctions s p n)

lemma Shape.put (h : s.Shape) {name : String} {r : Running E}
    (hname : Names.checkFlat name = .ok ())
    (hr : ∀ t ∈ r.targets, ∃ p, Names.split t.2.aliasTo = .ok p) : (s.putAuction name r).Shape where
  named := h.named
  records := h.records
  auctions name' r' hget := by
    change (s.auctions.insert name r).get name' = some r' at hget
    rcases OrdMap.get_insert_eq_some.mp hget with ⟨rfl, rfl⟩ | ⟨-, hget⟩
    · exact ⟨hname, hr⟩
    · exact h.auctions name' r' hget

/-! ## The records that are written -/

/-- Under a flat name, a record is flat. -/
lemma Shape.flat_of_checkFlat (h : s.Shape) {name : String} {r : Record}
    (hname : Names.checkFlat name = .ok ()) (hget : s.records.get name = some r) :
    r.name = name ∧ r.flat.isSome = true ∧ r.target.Flat ∧
      ∀ t, r.previousTarget = some t → t.Flat := by
  have hn := h.named name r hget
  have hflat := Names.isScoped_of_checkFlat hname
  obtain ⟨-, hsome, htarget, hprev⟩ := (h.records name r hget).flatName (hn ▸ hflat)
  exact ⟨hn, hsome, htarget, hprev⟩

/-- Under a scoped name, a record is plain. -/
lemma Shape.plain_of_split (h : s.Shape) {name : String} {p : String × String} {r : Record}
    (hname : Names.split name = .ok p) (hget : s.records.get name = some r) :
    r.name = name ∧ r.flat = none ∧ r.previousTarget = none ∧ r.target.Valid := by
  have hn := h.named name r hget
  obtain ⟨-, hnone, hprev, htarget⟩ :=
    (h.records name r hget).plain (hn ▸ Names.isScoped_of_split hname)
  exact ⟨hn, hnone, hprev, htarget⟩

lemma shaped_of_flat {r : Record} (hname : Names.checkFlat r.name = .ok ())
    (hsome : r.flat.isSome = true) (htarget : r.target.Flat)
    (hprev : ∀ t, r.previousTarget = some t → t.Flat) : r.Shaped where
  plain h := by simp [Names.isScoped_of_checkFlat hname] at h
  flatName _ := ⟨hname, hsome, htarget, hprev⟩

lemma shaped_of_scoped {r : Record} {p : String × String} (hname : Names.split r.name = .ok p)
    (hnone : r.flat = none) (hprev : r.previousTarget = none) (htarget : r.target.Valid) :
    r.Shaped where
  plain _ := ⟨⟨p, hname⟩, hnone, hprev, htarget⟩
  flatName h := by simp [Names.isScoped_of_split hname] at h

lemma Shape.settled (h : s.Shape) (cfg : Config) {name : String} (now : ℕ) {old : Record}
    (hname : Names.checkFlat name = .ok ()) (hget : s.records.get name = some old) :
    (settleRecord E cfg old now).1.Shaped := by
  obtain ⟨hn, hsome, htarget, hprev⟩ := h.flat_of_checkFlat hname hget
  exact shaped_of_flat (by simpa [hn] using hname) (by simpa using hsome) (by simpa using htarget)
    (by simpa using hprev)

lemma shaped_amendment {cx : Ctx} {name : String} {r r' : Record} {c : Call}
    (hname : Names.checkFlat r.name = .ok ()) (hr : r.Shaped) (h : Amendment s cx name r c r') :
    r'.Shaped := by
  obtain ⟨-, hsome, htarget, hprev⟩ := hr.flatName (Names.isScoped_of_checkFlat hname)
  cases h with
  | repoint ht =>
      obtain ⟨dest, p, hdest, hsplit⟩ := checkFlatTarget_ok ht
      exact shaped_of_flat hname hsome ⟨dest, p, hdest, hsplit⟩ hprev
  | retext => exact shaped_of_flat hname hsome htarget hprev
  | reprice => exact shaped_of_flat hname (by simpa using hsome) htarget hprev

lemma Shape.scopedWrite (h : s.Shape) {cx : Ctx} {name : String} {p : String × String} {c : Call}
    {r : Record} (hname : Names.split name = .ok p) (hw : ScopedWrite s cx name c r) :
    r.Shaped := by
  cases hw with
  | create _ hdest => exact shaped_of_scoped hname rfl rfl hdest
  | repoint hget hdest =>
      obtain ⟨hn, hnone, hprev, -⟩ := h.plain_of_split hname hget
      exact shaped_of_scoped (hn ▸ hname) hnone hprev hdest
  | retext hget =>
      obtain ⟨hn, hnone, hprev, htarget⟩ := h.plain_of_split hname hget
      exact shaped_of_scoped (hn ▸ hname) hnone hprev htarget

lemma Shape.announceRecord (h : s.Shape) {cx : Ctx} {a : Announcement} {p : String × String}
    (owner : Principal) (hname : Names.split a.name = .ok p) :
    (s.announceRecord cx a owner).Shaped := by
  have haddress : Target.Valid (.address a.canister) := fun dest hd => by cases hd
  simp only [State.announceRecord, getRecord]
  cases hget : s.records.get a.name with
  | none => exact shaped_of_scoped hname rfl rfl haddress
  | some r =>
      obtain ⟨hn, hnone, hprev, -⟩ := h.plain_of_split hname hget
      exact shaped_of_scoped (hn ▸ hname) hnone hprev haddress

/-- What the winner gets: the name aliases what they revealed, and remembers what it aliased. -/
lemma Shape.wonRecord (h : s.Shape) {cfg : Config} {name : String} {now opening : ℕ}
    {x : Holding} (hname : Names.checkFlat name = .ok ())
    (hterms : ∃ p, Names.split x.2.1.aliasTo = .ok p) :
    (wonRecord (E := E) name (s.lapsedRecord cfg name now).1 x opening now).1.Shaped := by
  obtain ⟨p, hp⟩ := hterms
  cases hl : s.lapsedRecord cfg name now with
  | mk lapsed free =>
      cases lapsed with
      | none => exact shaped_of_flat hname rfl ⟨_, p, rfl, hp⟩ (fun t ht => by cases ht)
      | some old =>
          obtain ⟨stored, hget, hr, -, -, -⟩ := lapsedRecord_some hl
          obtain ⟨hn, -, htarget, -⟩ := h.flat_of_checkFlat hname hget
          refine shaped_of_flat ?_ rfl ⟨_, p, rfl, hp⟩ fun t ht => ?_
          · change Names.checkFlat old.1.name = .ok ()
            rw [hr, settleRecord_name, hn]
            exact hname
          · change some old.1.target = some t at ht
            cases ht
            rw [hr, settleRecord_target]
            exact htarget

/-! ## Closing and bidding -/

lemma Shape.close (h : s.Shape) {cfg : Config} {name : String} {now : ℕ} {c : Closed}
    (hclose : s.close cfg name now = (s', .ok c)) : s'.Shape := by
  obtain ⟨r, outcome, holding, hc⟩ := close_ok hclose
  obtain ⟨hname, hterms⟩ := h.auctions name r hc.stored
  have hauc := hc.auctions
  rw [hc.state_eq] at hauc ⊢
  simp only at hauc ⊢
  set closing := s.settleBids outcome (winnerIf outcome (s.lapsedRecord cfg name now).2) holding
  have hrec : SameRecords s closing.state := s.sameRecords_settleBids _ _ _
  have hloop : closing.state.Shape := h.congr hrec.records (s.settleBids_auctions _ _ _)
  have hhand : (closing.state.handOver name now (s.lapsedRecord cfg name now).1 holding
      closing.openingBalance).Shape := by
    cases hx : holding with
    | none => exact hloop
    | some x =>
        have hterm := hterms _ (hc.terms_mem hx)
        rw [handOver_some]
        refine Shape.commitFlat ?_ (h.wonRecord hname hterm) _
        exact hloop.noteHandedOver name now
  refine ⟨fun n r' hget => hhand.named n r' ?_, fun n r' hget => hhand.records n r' ?_,
    fun n r' hget => ?_⟩
  · rw [← (sameRecords_noteProceeds _ _).records]
    exact hget
  · rw [← (sameRecords_noteProceeds _ _).records]
    exact hget
  · rw [hauc] at hget
    exact h.auctions n r' (OrdMap.get_erase_eq_some.mp hget).2

lemma Shape.closedFirst (h : s.Shape) {cfg : Config} {name : String} {now : ℕ}
    (hc : ClosedFirst s cfg name now s') : s'.Shape := by
  cases hc with
  | running => exact h
  | ended hclose => exact h.close hclose

lemma Shape.placeBid (h : s.Shape) {cfg : Config} {name : String} {bidder : Principal}
    {commitment : Bytes} {deposit now : ℕ} {res : Except String (Option ℕ)}
    (hname : Names.checkFlat name = .ok ())
    (hp : s.placeBid cfg name bidder commitment deposit now = (s', res)) : s'.Shape := by
  cases res with
  | error e =>
      rcases placeBid_error hp with rfl | hc
      · exact h
      · exact h.closedFirst hc
  | ok replaced =>
      obtain ⟨s₁, auction, hc, -, -, rfl⟩ := placeBid_ok hp
      have h₁ := h.closedFirst hc
      refine h₁.put hname fun t ht => ?_
      change t ∈ (s₁.bidAuction cfg name now).targets at ht
      simp only [bidAuction, getAuction] at ht
      cases hget : s₁.auctions.get name with
      | none => simp [hget] at ht
      | some r =>
          rw [hget] at ht
          exact (h₁.auctions name r hget).2 t ht

/-! ## Every message -/

theorem called_shape (h : s.Shape) {cx : Ctx} {c : Call} {p : Progress}
    (hc : Called s cx c s' p) : s'.Shape := by
  cases hc with
  | refused => exact h
  | administered ha => cases ha <;> exact h.congr rfl rfl
  | announced _ _ _ _ ha =>
      cases ha with
      | fresh hs =>
          refine Shape.commit ?_ (h.announceRecord _ hs)
          exact h.congr rfl rfl
      | allowed hs => exact h.commit (h.announceRecord _ hs)
  | underHandle hs _ _ hw => exact h.commit (h.scopedWrite hs hw)
  | @amended _ name old r hheld ha =>
      have hsettled := h.settled s.config cx.now hheld.flatName hheld.stored
      have hn := h.named _ _ hheld.stored
      refine h.commitFlat (shaped_amendment ?_ hsettled ha) _
      rw [settleRecord_name, hn]
      exact hheld.flatName
  | discarded => exact h.discard _ _
  | released =>
      rw [release_eq]
      refine Shape.discard ?_ _ _
      simp only [paidOut]
      refine Shape.addCredit (Shape.congr ?_ (noteTaxCollected_records _ _)
        (noteTaxCollected_auctions _ _)) _ _
      exact h.congr rfl rfl
  | revealed htarget hr =>
      obtain ⟨old, hget, -, -, htargets⟩ := revealed_ok hr
      obtain ⟨hname, hterms⟩ := h.auctions _ _ hget
      refine h.put hname fun t ht => ?_
      rw [htargets] at ht
      rcases List.mem_append.mp ht with ht | ht
      · exact hterms t (List.mem_filter.mp ht).1
      · rw [List.mem_singleton] at ht
        subst ht
        obtain ⟨dest, p, hdest, hsplit⟩ := checkFlatTarget_ok htarget
        cases hdest
        exact ⟨p, hsplit⟩
  | closed hclose => exact h.close hclose
  | pulling => exact h.congr rfl rfl
  | withdrawing _ _ ht =>
      obtain ⟨-, credits, rfl, -⟩ := takeCredit_ok ht
      exact h.congr rfl rfl
  | funding => exact h.congr rfl rfl
  | configuring => exact h

/-- `settle_all` walks the flat records that are stored. -/
lemma Shape.settleAll (h : s.Shape) (cfg : Config) (now : ℕ) : (s.settleAll cfg now).1.Shape := by
  refine settleAll_induction (P := Shape) (fun s' name old hs' hget => ?_) h
  have hn := hs'.named name old hget
  refine hs'.commitFlat ?_ _
  cases hscoped : Names.isScoped old.name with
  | true =>
      obtain ⟨⟨p, hp⟩, hnone, hprev, htarget⟩ := (hs'.records name old hget).plain hscoped
      rw [settleRecord_none cfg now hnone]
      exact shaped_of_scoped hp hnone hprev htarget
  | false =>
      obtain ⟨hflat, -, -, -⟩ := (hs'.records name old hget).flatName hscoped
      exact hs'.settled _ _ (hn ▸ hflat) hget

theorem resumed_shape (h : s.Shape) {now : ℕ} {reply : Except Failure ℕ} {p : Pending}
    {pr : Progress} (hcarried : Carried p) (hr : Resumed s now reply p s' pr) : s'.Shape := by
  have hdrop : s.dropInFlight.Shape := h.congr rfl rfl
  cases hr with
  | pullFailed =>
      simp only [State.pullFailed]
      split_ifs <;> exact h.congr rfl rfl
  | @bought c block r tax _ hbuy =>
      obtain ⟨hname, htarget, -⟩ := hcarried
      obtain ⟨⟨old, x, hseen⟩, -⟩ := buyable_ok hbuy
      obtain ⟨-, -, hold, -⟩ := h.flat_of_checkFlat hname hseen.stored
      have hpaid := hdrop.addCredit r.owner (satAdd c.before.price r.balance)
      have hnoted := hpaid.noteHandedOver c.name now
      refine hnoted.commitFlat (shaped_of_flat ?_ rfl htarget fun t ht => ?_) _
      · change Names.checkFlat r.name = .ok ()
        rw [hseen.name_of_named h.named]
        exact hname
      · change some r.target = some t at ht
        cases ht
        rw [hseen.settled, settleRecord_target]
        exact hold
  | @toppedUp c block r tax more y y' _ hpay =>
      obtain ⟨⟨old, x, hseen⟩, -⟩ := payable_ok hpay
      obtain ⟨-, -, hold, hprev⟩ := h.flat_of_checkFlat hcarried hseen.stored
      refine hdrop.commitFlat (shaped_of_flat ?_ rfl ?_ fun t ht => ?_) _
      · change Names.checkFlat r.name = .ok ()
        rw [hseen.name_of_named h.named]
        exact hcarried
      · change r.target.Flat
        rw [hseen.settled, settleRecord_target]
        exact hold
      · change r.previousTarget = some t at ht
        rw [hseen.settled, settleRecord_previousTarget] at ht
        exact hprev t ht
  | creditedBack => exact hdrop.addCredit _ _
  | placed _ hp => exact (Shape.placeBid hdrop hcarried hp).addCredit _ _
  | bidRefused _ hp => exact (Shape.placeBid hdrop hcarried hp).addCredit _ _
  | paid => exact hdrop
  | payRefused => exact (h.addCredit _ _).congr rfl rfl
  | payUnconfirmed => exact h.congr rfl rfl
  | feeRefused => exact hdrop
  | feeAgreed => exact h.congr rfl rfl
  | funded => exact hdrop
  | fundRefused => exact h.congr rfl rfl
  | fundCharged => exact h.congr rfl rfl
  | fundUnconfirmed => exact h.congr rfl rfl
  | configRefused => exact h
  | configSettled => exact h.settleAll _ _
  | configured _ _ _ hs' =>
      subst hs'
      split_ifs
      · exact (h.settleAll _ _).congr rfl rfl
      · exact h.congr rfl rfl

end

end State
