import IcNameService.Canister.Resolve
import IcNameService.System.Histories

/-!
# Scoped names belong to their handle

`SameScoped` is the frame of the flat side of the canister: the handles and every record under one are
as they were.  All it does for flat names (bids, reveals, closes, purchases, deposits, prices, configs
and writes to a flat record) lies in that frame, and so does every ledger reply.  `ScopedEffect` says
what is left: a handle is registered or deputed, and a record under it is written by its owner or by a
deployer it lets in.

* `Housed` — every record under a handle has the handle's owner.
* `OwnersKept` — no handle changes its owner.
* `WritesScoped` — who may have written a record under a handle.
* `World.scoped_names_belong` — over every history.
-/

namespace State

variable {E : Env}

/-! ## The frame -/

/-- The two states agree on the handles and on every record under one. -/
structure SameScoped (s s' : State E) : Prop where
  handles : s'.handles = s.handles
  records : ∀ name, Names.isScoped name = true → s'.records.get name = s.records.get name

namespace SameScoped

variable {s s' s'' : State E}

lemma refl (s : State E) : SameScoped s s := ⟨rfl, fun _ _ => rfl⟩

lemma trans (h : SameScoped s s') (h' : SameScoped s' s'') : SameScoped s s'' where
  handles := h'.handles.trans h.handles
  records name hname := (h'.records name hname).trans (h.records name hname)

lemma of_eq (hhandles : s'.handles = s.handles) (hrecords : s'.records = s.records) :
    SameScoped s s' :=
  ⟨hhandles, fun name _ => by rw [hrecords]⟩

/-- A record is written under a flat name. -/
lemma of_insert {name : String} {r : Record} (hname : Names.isScoped name = false)
    (hhandles : s'.handles = s.handles) (hrecords : s'.records = s.records.insert name r) :
    SameScoped s s' where
  handles := hhandles
  records name' hname' := by
    rw [hrecords, OrdMap.get_insert_ne]
    rintro rfl
    rw [hname] at hname'
    cases hname'

/-- The record under a flat name goes. -/
lemma of_erase {name : String} (hname : Names.isScoped name = false)
    (hhandles : s'.handles = s.handles) (hrecords : s'.records = s.records.erase name) :
    SameScoped s s' where
  handles := hhandles
  records name' hname' := by
    rw [hrecords, OrdMap.get_erase_ne]
    rintro rfl
    rw [hname] at hname'
    cases hname'

lemma commitFlat (s : State E) {r : Record} (hname : Names.isScoped r.name = false) (tax : ℕ) :
    SameScoped s (s.commitFlat r tax) :=
  of_insert hname (s.sameSettings_commitFlat r tax).handles (s.commitFlat_records r tax)

lemma addCredit (s : State E) (p : Principal) (n : ℕ) : SameScoped s (s.addCredit p n) :=
  of_eq (addCredit_handles s p n) (addCredit_records s p n)

lemma noteHandedOver (s : State E) (name : String) (now : ℕ) :
    SameScoped s (s.noteHandedOver name now) := of_eq rfl rfl

lemma dropInFlight (s : State E) : SameScoped s s.dropInFlight := of_eq rfl rfl

end SameScoped

variable {s s' : State E}

/-! ## The writers of flat names -/

lemma sameScoped_close (hs : s.Shape) {cfg : Config} {name : String} {now : ℕ} {c : Closed}
    (hclose : s.close cfg name now = (s', .ok c)) : SameScoped s s' := by
  obtain ⟨r, outcome, holding, hc⟩ := close_ok hclose
  obtain ⟨hname, -⟩ := hs.auctions name r hc.stored
  have hrecords := hc.records
  cases holding with
  | none => exact .of_eq hc.sameSettings.handles hrecords
  | some x =>
      refine .of_insert ?_ hc.sameSettings.handles hrecords
      rw [hs.named.wonAs_name]
      exact Names.isScoped_of_checkFlat hname

lemma sameScoped_closedFirst (hs : s.Shape) {cfg : Config} {name : String} {now : ℕ}
    (hc : ClosedFirst s cfg name now s') : SameScoped s s' := by
  cases hc with
  | running => exact .refl s
  | ended hclose => exact sameScoped_close hs hclose

lemma sameScoped_placeBid (hs : s.Shape) {cfg : Config} {name : String} {bidder : Principal}
    {commitment : Bytes} {deposit now : ℕ} {res : Except String (Option ℕ)}
    (hp : s.placeBid cfg name bidder commitment deposit now = (s', res)) : SameScoped s s' := by
  refine placeBid_induction hp (.refl _) (fun _ hc => sameScoped_closedFirst hs hc) ?_
  exact fun _ _ hsame => hsame.trans (.of_eq rfl rfl)

/-- A record under a handle is not taxed, so settling every name leaves it as it is. -/
lemma sameScoped_settleAll (hs : s.Shape) (cfg : Config) (now : ℕ) :
    SameScoped s (s.settleAll cfg now).1 where
  handles := (s.sameSettings_settleAll cfg now).handles
  records name hname := by
    rw [hs.named.settleAll_get]
    cases hget : s.records.get name with
    | none => rfl
    | some r =>
        have hn := hs.named name r hget
        obtain ⟨-, hnone, -, -⟩ := (hs.records name r hget).plain (hn ▸ hname)
        rw [Option.map_some, settleRecord_none cfg now hnone]

/-! ## What one message does on the scoped side -/

/-- What the message of an update call does to the handles and the records under them. -/
inductive ScopedEffect (s : State E) (cx : Ctx) : Call → State E → Prop
  | kept {c : Call} {s' : State E} : SameScoped s s' → ScopedEffect s cx c s'
  | registered {handle : String} {s' : State E} :
      s.handles.get handle = none → s'.handles = s.handles.insert handle ⟨cx.caller, none⟩ →
      s'.records = s.records → ScopedEffect s cx (.registerHandle handle) s'
  | deputed {handle : String} {deployer : Option Principal} {v : Handle} {s' : State E} :
      s.handles.get handle = some v →
      s'.handles = s.handles.insert handle { v with deployer := deployer } →
      s'.records = s.records → ScopedEffect s cx (.setHandleDeployer handle deployer) s'
  | written {c : Call} {name : String} {p : String × String} {v : Handle} {r : Record}
      {s' : State E} :
      Names.split name = .ok p → s.handles.get p.1 = some v → v.owner = cx.caller →
      ScopedWrite s cx name c r → s'.handles = s.handles →
      s'.records = s.records.insert name r → ScopedEffect s cx c s'
  | deleted {name : String} {p : String × String} {v : Handle} {s' : State E} :
      Names.split name = .ok p → s.handles.get p.1 = some v → v.owner = cx.caller →
      s'.handles = s.handles → s'.records = s.records.erase name →
      ScopedEffect s cx (.deleteRecord name) s'
  | announced {a : Announcement} {s' : State E} :
      s.isDeployer cx.caller = true → Announced s cx a s' → ScopedEffect s cx (.announce a) s'

/-- **The message of an update call, seen from the scoped side.** -/
theorem called_scoped (hs : s.Shape) {cx : Ctx} {c : Call} {p : Progress}
    (hc : Called s cx c s' p) : ScopedEffect s cx c s' := by
  cases hc with
  | refused => exact .kept (.refl s)
  | administered ha =>
      cases ha with
      | registerHandle _ hnone => exact .registered hnone rfl rfl
      | setHandleDeployer _ hget => exact .deputed hget rfl rfl
      | addDeployer => exact .kept (.of_eq rfl rfl)
      | removeDeployer => exact .kept (.of_eq rfl rfl)
      | setDomains => exact .kept (.of_eq rfl rfl)
      | setAuctionConfig => exact .kept (.of_eq rfl rfl)
  | announced hlisted _ _ _ ha => exact .announced hlisted ha
  | underHandle hsplit hget howner hw =>
      refine .written hsplit hget howner hw rfl ?_
      rw [commit_records, hs.named.scopedWrite_name hw]
  | @amended _ name old r hheld ha =>
      refine .kept (.commitFlat _ ?_ _)
      rw [amendment_name ha, settleRecord_name, hs.named _ _ hheld.stored]
      exact Names.isScoped_of_checkFlat hheld.flatName
  | discarded hsplit hget howner => exact .deleted hsplit hget howner rfl rfl
  | @released name old hheld =>
      refine .kept (.of_erase (Names.isScoped_of_checkFlat hheld.flatName)
        (sameSettings_release _ _ _ _).handles ?_)
      rw [release_eq]
      exact congrArg (OrdMap.erase · name) (sameRecords_paidOut _ _ _).records
  | revealed => exact .kept (.of_eq rfl rfl)
  | closed hclose => exact .kept (sameScoped_close hs hclose)
  | pulling => exact .kept (.of_eq rfl rfl)
  | withdrawing _ _ ht =>
      obtain ⟨-, credits, rfl, -⟩ := takeCredit_ok ht
      exact .kept (.of_eq rfl rfl)
  | funding => exact .kept (.of_eq rfl rfl)
  | configuring => exact .kept (.refl s)

/-- **A ledger reply writes flat names only.** -/
theorem resumed_scoped (hs : s.Shape) {now : ℕ} {reply : Except Failure ℕ} {p : Pending}
    {pr : Progress} (hcarried : Carried p) (hr : Resumed s now reply p s' pr) :
    SameScoped s s' := by
  have hdrop : s.dropInFlight.Shape := hs.congr rfl rfl
  cases hr with
  | pullFailed =>
      simp only [State.pullFailed]
      split_ifs <;> exact .of_eq rfl rfl
  | @bought c block r tax _ hbuy =>
      obtain ⟨hname, -, -⟩ := hcarried
      obtain ⟨⟨old, x, hseen⟩, -⟩ := buyable_ok hbuy
      have hflat : Names.isScoped (boughtRecord (E := E) c r now).name = false := by
        change Names.isScoped r.name = false
        rw [hseen.name_of_named hs.named]
        exact Names.isScoped_of_checkFlat hname
      exact (((SameScoped.dropInFlight s).trans (.addCredit _ _ _)).trans
        (.noteHandedOver _ _ _)).trans (.commitFlat _ hflat _)
  | @toppedUp c block r tax more y y' _ hpay =>
      obtain ⟨⟨old, x, hseen⟩, -⟩ := payable_ok hpay
      have hflat : Names.isScoped ({ r with flat := some y', updatedNs := now } : Record).name =
          false := by
        change Names.isScoped r.name = false
        rw [hseen.name_of_named hs.named]
        exact Names.isScoped_of_checkFlat hcarried
      exact (SameScoped.dropInFlight s).trans (.commitFlat _ hflat _)
  | creditedBack => exact (SameScoped.dropInFlight s).trans (.addCredit _ _ _)
  | placed _ hp =>
      exact ((SameScoped.dropInFlight s).trans (sameScoped_placeBid hdrop hp)).trans
        (.addCredit _ _ _)
  | bidRefused _ hp =>
      exact ((SameScoped.dropInFlight s).trans (sameScoped_placeBid hdrop hp)).trans
        (.addCredit _ _ _)
  | paid => exact .of_eq rfl rfl
  | payRefused => exact .trans (.addCredit s _ _) (.of_eq rfl rfl)
  | payUnconfirmed => exact .of_eq rfl rfl
  | feeRefused => exact .of_eq rfl rfl
  | feeAgreed => exact .of_eq rfl rfl
  | funded => exact .of_eq rfl rfl
  | fundRefused => exact .of_eq rfl rfl
  | fundCharged => exact .of_eq rfl rfl
  | fundUnconfirmed => exact .of_eq rfl rfl
  | configRefused => exact .refl s
  | configSettled => exact sameScoped_settleAll hs _ _
  | configured _ _ _ hs' =>
      subst hs'
      split_ifs
      · exact (sameScoped_settleAll hs _ _).trans (.of_eq rfl rfl)
      · exact .of_eq rfl rfl

/-! ## What follows for handles, owners and writers -/

/-- No handle is lost, and none changes its owner. -/
def OwnersKept (s s' : State E) : Prop :=
  ∀ handle v, s.handles.get handle = some v → ∃ v', s'.handles.get handle = some v' ∧ v'.owner = v.owner

/-- Every record under a handle has the handle's owner. -/
def Housed (s : State E) : Prop :=
  ∀ name p r, Names.split name = .ok p → s.records.get name = some r →
    ∃ v, s.handles.get p.1 = some v ∧ v.owner = r.owner

/-- What is stored under a name, as far as a reader of the name can tell. -/
def written (s : State E) (name : String) : Option (Target × Names.Text) :=
  (s.records.get name).map fun r => (r.target, r.text)

/-- **Who writes a record under a handle**: the handle's owner, or a listed deployer that owns it, was
let in by its owner, or found it unregistered and now owns it. -/
inductive WritesScoped (s s' : State E) (cx : Ctx) (name handle : String) : Call → Prop
  | set {target : Target} {v : Handle} :
      s.handles.get handle = some v → v.owner = cx.caller →
      WritesScoped s s' cx name handle (.setRecord name target)
  | text {key : String} {value : Option String} {v : Handle} :
      s.handles.get handle = some v → v.owner = cx.caller →
      WritesScoped s s' cx name handle (.setText name key value)
  | delete {v : Handle} :
      s.handles.get handle = some v → v.owner = cx.caller →
      WritesScoped s s' cx name handle (.deleteRecord name)
  | announce {a : Announcement} {v : Handle} :
      a.name = name → s.isDeployer cx.caller = true → s.handles.get handle = some v →
      (v.owner = cx.caller ∨ v.deployer = some cx.caller) →
      WritesScoped s s' cx name handle (.announce a)
  | claim {a : Announcement} :
      a.name = name → s.isDeployer cx.caller = true → s.handles.get handle = none →
      s'.handles.get handle = some ⟨cx.caller, none⟩ →
      WritesScoped s s' cx name handle (.announce a)

lemma OwnersKept.of_handles (h : s'.handles = s.handles) : OwnersKept s s' :=
  fun _ v hget => ⟨v, h ▸ hget, rfl⟩

lemma OwnersKept.trans {s'' : State E} (h : OwnersKept s s') (h' : OwnersKept s' s'') :
    OwnersKept s s'' := by
  intro handle v hget
  obtain ⟨v', hget', howner⟩ := h handle v hget
  obtain ⟨v'', hget'', howner'⟩ := h' handle v' hget'
  exact ⟨v'', hget'', howner'.trans howner⟩

/-- A handle that was free is registered. -/
lemma OwnersKept.register {handle : String} {v : Handle} (hnone : s.handles.get handle = none)
    (h : s'.handles = s.handles.insert handle v) : OwnersKept s s' := by
  intro handle' v' hget
  refine ⟨v', ?_, rfl⟩
  rw [h, OrdMap.get_insert_ne]
  · exact hget
  · rintro rfl
    rw [hnone] at hget
    cases hget

/-- The records under a handle are housed as long as neither they nor their handle's owner change. -/
lemma Housed.kept (hh : s.Housed) (howners : OwnersKept s s')
    (hrecords : ∀ name, Names.isScoped name = true → s'.records.get name = s.records.get name) :
    s'.Housed := by
  intro name p r hsplit hget
  rw [hrecords name (Names.isScoped_of_split hsplit)] at hget
  obtain ⟨v, hv, howner⟩ := hh name p r hsplit hget
  obtain ⟨v', hv', howner'⟩ := howners p.1 v hv
  exact ⟨v', hv', howner'.trans howner⟩

/-- A record is written with its handle's owner. -/
lemma Housed.insert (hh : s.Housed) (howners : OwnersKept s s') {name : String}
    {p : String × String} {v : Handle} {r : Record} (hsplit : Names.split name = .ok p)
    (hv : s'.handles.get p.1 = some v) (howner : v.owner = r.owner)
    (hrecords : s'.records = s.records.insert name r) : s'.Housed := by
  intro name' p' r' hsplit' hget
  rw [hrecords] at hget
  rcases OrdMap.get_insert_eq_some.mp hget with ⟨rfl, rfl⟩ | ⟨-, hget⟩
  · rw [hsplit] at hsplit'
    cases hsplit'
    exact ⟨v, hv, howner⟩
  · obtain ⟨v₁, hv₁, howner₁⟩ := hh name' p' r' hsplit' hget
    obtain ⟨v₂, hv₂, howner₂⟩ := howners p'.1 v₁ hv₁
    exact ⟨v₂, hv₂, howner₂.trans howner₁⟩

lemma Housed.erase (hh : s.Housed) {name : String} (hhandles : s'.handles = s.handles)
    (hrecords : s'.records = s.records.erase name) : s'.Housed := by
  intro name' p' r' hsplit' hget
  rw [hrecords] at hget
  obtain ⟨-, hget⟩ := OrdMap.get_erase_eq_some.mp hget
  rw [hhandles]
  exact hh name' p' r' hsplit' hget

/-- An announce leaves the record with the owner it had, or gives it the handle's. -/
lemma Housed.announceRecord_owner (hh : s.Housed) (cx : Ctx) (a : Announcement)
    {p : String × String} {owner : Principal} (hsplit : Names.split a.name = .ok p)
    (howner : ∀ v, s.handles.get p.1 = some v → v.owner = owner) :
    (s.announceRecord cx a owner).owner = owner := by
  simp only [announceRecord, getRecord]
  cases hget : s.records.get a.name with
  | none => rfl
  | some r =>
      obtain ⟨v, hv, hr⟩ := hh a.name p r hsplit hget
      exact hr.symm.trans (howner v hv)

lemma Housed.scopedWrite_owner (hh : s.Housed) {cx : Ctx} {name : String} {p : String × String}
    {c : Call} {v : Handle} {r : Record} (hsplit : Names.split name = .ok p)
    (hv : s.handles.get p.1 = some v) (howner : v.owner = cx.caller)
    (hw : ScopedWrite s cx name c r) : v.owner = r.owner := by
  have stored : ∀ old, s.records.get name = some old → v.owner = old.owner := by
    intro old hget
    obtain ⟨v', hv', howner'⟩ := hh name p old hsplit hget
    rw [hv] at hv'
    cases hv'
    exact howner'
  cases hw with
  | create => exact howner
  | repoint hget =>
      have howner := stored _ hget
      exact howner
  | retext hget =>
      have howner := stored _ hget
      exact howner

namespace ScopedEffect

variable {cx : Ctx} {c : Call}

lemma ownersKept (h : ScopedEffect s cx c s') : OwnersKept s s' := by
  cases h with
  | kept h => exact .of_handles h.handles
  | registered hnone hhandles => exact .register hnone hhandles
  | @deputed handle deployer v _ hget hhandles =>
      intro handle' v' hget'
      rw [hhandles, OrdMap.get_insert]
      split_ifs with hname
      · subst hname
        rw [hget] at hget'
        cases hget'
        exact ⟨_, rfl, rfl⟩
      · exact ⟨v', hget', rfl⟩
  | written _ _ _ _ hhandles => exact .of_handles hhandles
  | deleted _ _ _ hhandles => exact .of_handles hhandles
  | announced _ ha =>
      cases ha with
      | fresh _ hnone => exact .register hnone (commit_handles _ _)
      | allowed => exact .of_handles (commit_handles _ _)

lemma housed (hn : s.Named) (hh : s.Housed) (h : ScopedEffect s cx c s') : s'.Housed := by
  have howners := h.ownersKept
  cases h with
  | kept h => exact hh.kept howners h.records
  | registered _ _ hrecords => exact hh.kept howners fun _ _ => by rw [hrecords]
  | deputed _ _ hrecords => exact hh.kept howners fun _ _ => by rw [hrecords]
  | @written _ name p v r _ hsplit hget howner hw hhandles hrecords =>
      exact hh.insert howners hsplit (hhandles ▸ hget) (hh.scopedWrite_owner hsplit hget howner hw)
        hrecords
  | deleted _ _ _ hhandles hrecords => exact hh.erase hhandles hrecords
  | @announced a _ _ ha =>
      cases ha with
      | @fresh handle label hsplit hnone =>
          refine hh.insert (r := s.announceRecord cx a cx.caller) howners hsplit
            (OrdMap.get_insert_self _ _ _) ?_ ?_
          · refine (hh.announceRecord_owner cx _ hsplit fun v hv => ?_).symm
            rw [hnone] at hv
            cases hv
          · rw [commit_records, hn.announceRecord_name]
      | @allowed handle label v hsplit hget =>
          refine hh.insert (r := s.announceRecord cx a v.owner) (v := v) howners hsplit ?_ ?_ ?_
          · rw [commit_handles]
            exact hget
          · refine (hh.announceRecord_owner cx _ hsplit fun v' hv' => ?_).symm
            rw [hget] at hv'
            cases hv'
            rfl
          · rw [commit_records, hn.announceRecord_name]

/-- Where the record under a name is not what it was, the call was a write to that very name. -/
lemma attributed (hn : s.Named) (h : ScopedEffect s cx c s') {name handle label : String}
    (hsplit : Names.split name = .ok (handle, label)) (hne : s'.written name ≠ s.written name) :
    WritesScoped s s' cx name handle c := by
  have same : ∀ {n : String} {r : Record}, s'.records = s.records.insert n r → n = name := by
    intro n r hrecords
    by_contra hname
    apply hne
    simp only [State.written, hrecords, OrdMap.get_insert_ne _ _ (Ne.symm hname)]
  cases h with
  | kept h =>
      apply absurd _ hne
      simp only [State.written, h.records name (Names.isScoped_of_split hsplit)]
  | registered _ _ hrecords => exact absurd (by simp only [State.written, hrecords]) hne
  | deputed _ _ hrecords => exact absurd (by simp only [State.written, hrecords]) hne
  | written hsplit' hget howner hw _ hrecords =>
      obtain rfl := same hrecords
      rw [hsplit] at hsplit'
      cases hsplit'
      cases hw with
      | create => exact .set hget howner
      | repoint => exact .set hget howner
      | retext => exact .text hget howner
  | @deleted n _ _ _ hsplit' hget howner _ hrecords =>
      have hname : n = name := by
        by_contra hname
        apply hne
        simp only [State.written, hrecords, OrdMap.get_erase_ne _ (Ne.symm hname)]
      subst hname
      rw [hsplit] at hsplit'
      cases hsplit'
      exact .delete hget howner
  | @announced a _ hlisted ha =>
      cases ha with
      | fresh hsplit' hnone =>
          have hname : a.name = name := by
            refine same (r := s.announceRecord cx a cx.caller) ?_
            rw [commit_records, hn.announceRecord_name]
          rw [hname, hsplit] at hsplit'
          cases hsplit'
          exact .claim hname hlisted hnone (OrdMap.get_insert_self _ _ _)
      | @allowed _ _ v hsplit' hget hallowed =>
          have hname : a.name = name := by
            refine same (r := s.announceRecord cx a v.owner) ?_
            rw [commit_records, hn.announceRecord_name]
          rw [hname, hsplit] at hsplit'
          cases hsplit'
          exact .announce hname hlisted hget hallowed

end ScopedEffect

/-! ## Following a scoped name -/

/-- From a scoped name only records under handles are visited: none of them lapses, so neither the
time nor the config matters. -/
lemma SameScoped.followFrom (h : SameScoped s s') (hs : s.Shape) (now now' : ℕ) :
    ∀ (fuel : ℕ) (chain : List Record) (current : String), Names.isScoped current = true →
      s'.followFrom now' fuel chain current = s.followFrom now fuel chain current := by
  intro fuel
  induction fuel with
  | zero => intro chain current _; rfl
  | succ fuel ih =>
      intro chain current hscoped
      simp only [State.followFrom, getRecord, h.records current hscoped]
      cases hget : s.records.get current with
      | none => rfl
      | some r =>
          have hn := hs.named current r hget
          obtain ⟨-, hnone, -, htarget⟩ := (hs.records current r hget).plain (hn ▸ hscoped)
          have held : ∀ (cfg : Config) (now : ℕ), lapsed (E := E) cfg r now = false := by
            intro cfg now
            simp only [lapsed, hnone]
          simp only [held]
          cases hr : r.target with
          | address p => rfl
          | «alias» next =>
              obtain ⟨p, hp⟩ := htarget next hr
              simp only [ih _ next (Names.isScoped_of_split hp)]

/-- **A scoped name resolves as before**, at any time. -/
theorem SameScoped.follow (h : SameScoped s s') (hs : s.Shape) {name : String}
    (hscoped : Names.isScoped name = true) (now now' : ℕ) :
    s'.follow name now' = s.follow name now := by
  simp only [State.follow, hscoped, if_true, h.followFrom hs now now' _ _ name hscoped]

/-! ## The methods of the flat side -/

/-- The methods that write neither to a handle nor to a record under one. -/
def offScoped : Call → Bool
  | .registerHandle _ => false
  | .setHandleDeployer _ _ => false
  | .announce _ => false
  | .setRecord name _ => !Names.isScoped name
  | .setText name _ _ => !Names.isScoped name
  | .deleteRecord name => !Names.isScoped name
  | _ => true

lemma ScopedEffect.sameScoped {cx : Ctx} {c : Call} (h : ScopedEffect s cx c s')
    (hoff : offScoped c = true) : SameScoped s s' := by
  cases h with
  | kept h => exact h
  | registered => cases hoff
  | deputed => cases hoff
  | @written _ name p _ _ _ hsplit _ _ hw =>
      have hscoped := Names.isScoped_of_split hsplit
      cases hw <;> simp [offScoped, hscoped] at hoff
  | deleted hsplit => simp [offScoped, Names.isScoped_of_split hsplit] at hoff
  | announced => cases hoff

end State

namespace World

variable {E : Env}

/-- A message of the flat side: a method that is, a ledger reply, or an upgrade. -/
def offScoped : Event → Bool
  | .call _ c => State.offScoped c
  | _ => true

variable {w w' : World E} {tr : History E}

/-- What a message does on the scoped side, whether it is a call, a reply or an upgrade. -/
lemma stepped_scoped {e : Event} {o : Output} (hs : w.canister.Shape)
    (hcarried : Suspended State.Carried w) (h : Stepped w e w' o) :
    (∃ cx c, e = .call cx c ∧ State.ScopedEffect w.canister cx c w'.canister) ∨
      State.SameScoped w.canister w'.canister := by
  cases h with
  | answered _ hc => exact Or.inl ⟨_, _, rfl, State.called_scoped hs hc⟩
  | suspended _ hc => exact Or.inl ⟨_, _, rfl, State.called_scoped hs hc⟩
  | resumed _ hget hr =>
      exact Or.inr (State.resumed_scoped hs (hcarried _ _ hget) hr)
  | continued => exact Or.inr (.of_eq rfl rfl)
  | upgraded => exact Or.inr (.of_eq rfl rfl)

lemma run_carried {ok : World E → Event → Prop} (h : Run (machine E) ok init tr w) :
    Suspended State.Carried w :=
  run_invariant rfl (suspended_start _ _) (fun _ _ _ _ hq _ hs => suspended_carried_step hq hs) h

/-- Every record is housed, and no handle has changed its owner since any earlier message. -/
lemma run_housed (h : Run (machine E) anyEvent init tr w) :
    w.canister.Housed ∧ ∀ e ∈ tr, State.OwnersKept e.pre.canister w.canister := by
  refine run_induction (I := fun tr w => w.canister.Housed ∧
    ∀ e ∈ tr, State.OwnersKept e.pre.canister w.canister) rfl ?_ ?_ h
  · refine ⟨fun name p r _ hget => ?_, fun e he => by cases he⟩
    cases hget
  · rintro tr w e w' o hr ⟨hhoused, hkept⟩ - hs
    have hshape := run_shape hr
    have hstep : w'.canister.Housed ∧ State.OwnersKept w.canister w'.canister := by
      rcases stepped_scoped hshape (run_carried hr) hs with ⟨cx, c, -, heffect⟩ | hsame
      · exact ⟨heffect.housed hshape.named hhoused, heffect.ownersKept⟩
      · have howners := State.OwnersKept.of_handles hsame.handles
        exact ⟨hhoused.kept howners hsame.records, howners⟩
    refine ⟨hstep.1, fun e' he' => ?_⟩
    rcases List.mem_cons.mp he' with rfl | he'
    · exact hstep.2
    · exact (hkept e' he').trans hstep.2

/-- **Scoped names belong to their handle.**  Every record under a handle has the handle's owner, and
that owner never changes; a record under a handle changes only by a write to that very name that
`WritesScoped` allows; and no message of the flat side changes a handle, a record under one, or what a
scoped name resolves to. -/
theorem scoped_names_belong (h : Run (machine E) anyEvent init tr w) :
    w.canister.Housed ∧ ∀ e ∈ tr, State.OwnersKept e.pre.canister w.canister ∧
      (∀ name handle label, Names.split name = .ok (handle, label) →
        e.post.canister.written name ≠ e.pre.canister.written name →
        ∃ cx c, e.event = .call cx c ∧
          State.WritesScoped e.pre.canister e.post.canister cx name handle c) ∧
      (offScoped e.event = true → State.SameScoped e.pre.canister e.post.canister ∧
        ∀ name, Names.isScoped name = true → ∀ now,
          e.post.canister.follow name now = e.pre.canister.follow name now) := by
  obtain ⟨hhoused, hkept⟩ := run_housed h
  refine ⟨hhoused, fun e he => ⟨hkept e he, ?_⟩⟩
  obtain ⟨newer, older, htr⟩ := List.append_of_mem he
  obtain ⟨hr, -, hs, -⟩ := run_entry rfl h htr
  have hshape := run_shape hr
  have hsame : offScoped e.event = true → State.SameScoped e.pre.canister e.post.canister := by
    intro hoff
    rcases stepped_scoped hshape (run_carried hr) hs with ⟨cx, c, hevent, heffect⟩ | hsame
    · rw [hevent] at hoff
      exact heffect.sameScoped hoff
    · exact hsame
  refine ⟨fun name handle label hsplit hne => ?_, fun hoff => ⟨hsame hoff, ?_⟩⟩
  · rcases stepped_scoped hshape (run_carried hr) hs with ⟨cx, c, hevent, heffect⟩ | hkeep
    · exact ⟨cx, c, hevent, heffect.attributed hshape.named hsplit hne⟩
    · refine absurd ?_ hne
      simp only [State.written, hkeep.records name (Names.isScoped_of_split hsplit)]
  · intro name hscoped now
    exact (hsame hoff).follow hshape hscoped now now

theorem scoped_names_belong_housed : ∃ (tr : History Env.reference) (w : World Env.reference),
    Run (machine Env.reference) anyEvent init tr w ∧ tr.reverse.map Entry.event = Script.housing ∧
      ∃ r v, w.canister.records.get "h/x" = some r ∧ w.canister.handles.get "h" = some v ∧
        v.owner = r.owner := by
  obtain ⟨tr, w, hr, hevents, hstored⟩ := Machine.exists_run_of_exec (machine Env.reference)
    anyEvent init Script.housing (fun _ w => (w.canister.records.get "h/x").isSome = true)
    (by decide +kernel)
  obtain ⟨r, hget⟩ := Option.isSome_iff_exists.mp hstored
  obtain ⟨v, hv, howner⟩ := (scoped_names_belong hr).1 "h/x" ("h", "x") r (by decide +kernel) hget
  exact ⟨tr, w, hr, hevents, r, v, hget, hv, howner⟩

end World
