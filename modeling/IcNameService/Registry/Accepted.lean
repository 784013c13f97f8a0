import IcNameService.Core.Lines
import IcNameService.Naming.Handles
import IcNameService.Naming.Routes
import IcNameService.Registry.Abstract

/-!
# The registry as the canister stores it

`Registry.of` is what the abstract registry sees of a state.  A method of the scoped side is answered
`Ok` exactly when the abstract registry allows what it asks for: one lemma for each method, read off
its checks in both directions.
-/

/-- The name of a place. -/
def nameOf (place : Place) : String := place.1 ++ "/" ++ place.2

/-- What a record lists. -/
def Record.listing (r : Record) : Listing := ⟨r.target, r.text, r.createdNs, r.updatedNs⟩

/-- What the abstract registry sees of a state. -/
def Registry.of {E : Env} (s : State E) : Registry where
  handles := s.handles.get
  deployers := {p | s.isDeployer p = true}
  listings place := (s.records.get (nameOf place)).map Record.listing

namespace Names

lemma toList_nameOf (place : Place) :
    (nameOf place).toList = place.1.toList ++ '/' :: place.2.toList := by
  simp [nameOf]

/-- A valid scoped name is the name of its place. -/
lemma nameOf_split {name : String} {place : Place} (h : split name = .ok place) :
    nameOf place = name := by
  apply String.toList_inj.mp
  rw [toList_nameOf]
  exact (split_ok (show split name = .ok (place.1, place.2) from h)).1.symm

/-- No other place has the name of a valid one. -/
lemma nameOf_inj {name : String} {place other : Place} (h : split name = .ok place)
    (heq : nameOf other = name) : other = place := by
  obtain ⟨hname, hhandle, hlabel⟩ := split_ok (show split name = .ok (place.1, place.2) from h)
  rw [← heq, toList_nameOf] at hname
  obtain ⟨h₁, h₂⟩ := List.append_cons_cancel_single (slash_notMem_of_checkSegment hhandle)
    (slash_notMem_of_checkSegment hlabel) hname
  exact Prod.ext (String.toList_inj.mp h₁) (String.toList_inj.mp h₂)

end Names

/-! ## Answers -/

/-- The message was answered `Ok`. -/
def Progress.accepted : Progress → Bool
  | .done (.ok _) => true
  | _ => false

lemma callerOf_eq_ok {cx : Ctx} {p : Principal} :
    callerOf cx = .ok p ↔ cx.caller ≠ Principal.anonymous ∧ p = cx.caller := by
  constructor
  · intro h
    exact ⟨(callerOf_ok h).2, (callerOf_ok h).1⟩
  · rintro ⟨hanon, rfl⟩
    simp [callerOf, hanon]

lemma admin_eq_ok {cx : Ctx} {p : Principal} :
    admin cx = .ok p ↔ (cx.caller ≠ Principal.anonymous ∧ cx.controller = true) ∧ p = cx.caller := by
  simp only [admin, Except.bind_eq_ok, callerOf_eq_ok]
  constructor
  · rintro ⟨q, ⟨hanon, rfl⟩, h⟩
    split_ifs at h with hc
    cases h
    exact ⟨⟨hanon, by simpa using hc⟩, rfl⟩
  · rintro ⟨⟨hanon, hc⟩, rfl⟩
    exact ⟨cx.caller, ⟨hanon, rfl⟩, by simp [hc]⟩

namespace State

variable {E : Env} {s : State E} {cx : Ctx}

lemma accepted_attempt {α : Type} {x : Except String α} {k : α → State E × Except String Unit} :
    (finish (s.attempt x k)).2.accepted = true ↔
      ∃ a, x = .ok a ∧ (finish (k a)).2.accepted = true := by
  cases x with
  | error e => simp [attempt, finish, Except.map, Progress.accepted]
  | ok a => simp [attempt]

@[simp] lemma accepted_ok (s : State E) :
    (finish ((s, .ok ()) : State E × Except String Unit)).2.accepted = true := rfl

@[simp] lemma accepted_error (s : State E) (e : String) :
    (finish ((s, .error e) : State E × Except String Unit)).2.accepted = false := rfl

lemma authorizeHandle_eq_ok {handle : String} {h : Handle} : s.authorizeHandle cx handle = .ok h ↔
    cx.caller ≠ Principal.anonymous ∧ s.handles.get handle = some h ∧ h.owner = cx.caller := by
  simp only [authorizeHandle, Except.bind_eq_ok, callerOf_eq_ok]
  constructor
  · rintro ⟨p, ⟨hanon, rfl⟩, hok⟩
    split at hok
    · cases hok
    · rename_i h' hget
      split_ifs at hok with howner
      cases hok
      exact ⟨hanon, hget, not_not.mp howner⟩
  · rintro ⟨hanon, hget, howner⟩
    exact ⟨cx.caller, ⟨hanon, rfl⟩, by simp [hget, howner]⟩

/-- The caller owns the handle of a name exactly when it is authorized for it. -/
lemma authorize_eq_ok {name : String} {place : Place} (hsplit : Names.split name = .ok place)
    {p : Principal} : s.authorize cx name = .ok p ↔
      (Registry.of s).Owns cx place.1 ∧ p = cx.caller := by
  simp only [authorize, hsplit, Except.bind_eq_ok, authorizeHandle_eq_ok, Registry.Owns, Registry.of]
  constructor
  · rintro ⟨q, hq, h, ⟨hanon, hget, howner⟩, hp⟩
    cases hq
    cases hp
    exact ⟨⟨hanon, h, hget, howner⟩, howner⟩
  · rintro ⟨⟨hanon, h, hget, howner⟩, rfl⟩
    exact ⟨place, rfl, h, ⟨hanon, hget, howner⟩, by rw [howner]⟩

/-! ## One lemma for each method -/

lemma registerHandle_eq_ok {handle : String} {owner : Principal} {s' : State E} :
    s.registerHandle handle owner = .ok s' ↔
      s.handles.get handle = none ∧ s' = s.putHandle handle ⟨owner, none⟩ := by
  rw [registerHandle, OrdMap.contains]
  cases s.handles.get handle with
  | none => simp [putHandle, eq_comm]
  | some h => simp

lemma accepted_registerHandle (handle : String) :
    (finish (s.registerHandleCall cx handle)).2.accepted = true ↔
      (Registry.of s).Allows cx (.claim handle) := by
  simp only [registerHandleCall, accepted_attempt, Except.bind_eq_ok, callerOf_eq_ok,
    registerHandle_eq_ok, Registry.Allows, Registry.of]
  constructor
  · rintro ⟨s', ⟨u, hsegment, p, ⟨hanon, rfl⟩, hnone, -⟩, -⟩
    exact ⟨hsegment, hanon, hnone⟩
  · rintro ⟨hsegment, hanon, hnone⟩
    exact ⟨_, ⟨(), hsegment, cx.caller, ⟨hanon, rfl⟩, hnone, rfl⟩, rfl⟩

lemma accepted_setHandleDeployer (handle : String) (deployer : Option Principal) :
    (finish (s.setHandleDeployer cx handle deployer)).2.accepted = true ↔
      (Registry.of s).Allows cx (.appoint handle deployer) := by
  simp only [setHandleDeployer, accepted_attempt, Except.bind_eq_ok, authorizeHandle_eq_ok,
    Registry.Allows, Registry.Owns, Registry.of]
  constructor
  · rintro ⟨h, ⟨u, hsegment, h', ⟨hanon, hget, howner⟩, hok⟩, -⟩
    refine ⟨hsegment, ⟨hanon, h', hget, howner⟩, ?_⟩
    rintro p rfl
    simp only at hok
    split_ifs at hok with hlisted
    simpa using hlisted
  · rintro ⟨hsegment, ⟨hanon, h, hget, howner⟩, hlisted⟩
    refine ⟨h, ⟨(), hsegment, h, ⟨hanon, hget, howner⟩, ?_⟩, rfl⟩
    cases deployer with
    | none => rfl
    | some d =>
        have hd : s.isDeployer d = true := hlisted d rfl
        simp [hd]

lemma accepted_addDeployer (p : Principal) :
    (finish (s.addDeployerCall cx p)).2.accepted = true ↔
      (Registry.of s).Allows cx (.enlist p) := by
  simp only [addDeployerCall, accepted_attempt, Except.bind_eq_ok, admin_eq_ok, Registry.Allows]
  constructor
  · rintro ⟨u, ⟨q, ⟨⟨hanon, hcontroller⟩, rfl⟩, hok⟩, -⟩
    split_ifs at hok with hp
    exact ⟨hanon, hcontroller, hp⟩
  · rintro ⟨hanon, hcontroller, hp⟩
    exact ⟨(), ⟨cx.caller, ⟨⟨hanon, hcontroller⟩, rfl⟩, by simp [hp]⟩, rfl⟩

lemma accepted_removeDeployer (p : Principal) :
    (finish (s.removeDeployerCall cx p)).2.accepted = true ↔
      (Registry.of s).Allows cx (.delist p) := by
  have hmem : p ∈ (Registry.of s).deployers ↔ s.deployers.contains p = true := Iff.rfl
  simp only [removeDeployerCall, accepted_attempt, admin_eq_ok, Registry.Allows, hmem,
    removeDeployer]
  cases s.deployers.contains p with
  | true => simp
  | false => simp

lemma accepted_announce {a : Announcement} {place : Place} (hsplit : Names.split a.name = .ok place) :
    (finish (s.announce cx a)).2.accepted = true ↔
      (Registry.of s).Allows cx (.announce place a) := by
  simp only [announce, accepted_attempt, Except.bind_eq_ok, callerOf_eq_ok, hsplit, Registry.Allows,
    Registry.Reported, Registry.LetsIn, Registry.of]
  constructor
  · rintro ⟨⟨d, handle⟩, ⟨q, ⟨hanon, rfl⟩, hok⟩, hrest⟩
    split_ifs at hok with hlisted
    obtain ⟨place', hplace, hok⟩ := Except.bind_eq_ok.mp hok
    cases hplace
    obtain ⟨_, hcommit, hok⟩ := Except.bind_eq_ok.mp hok
    obtain ⟨_, hmodule, hok⟩ := Except.bind_eq_ok.mp hok
    obtain ⟨_, hrepo, hok⟩ := Except.bind_eq_ok.mp hok
    cases hok
    refine ⟨hanon, ?_, ⟨hcommit, hmodule, hrepo⟩, fun h hget => ?_⟩
    · simpa using hlisted
    · simp only [hget] at hrest
      split_ifs at hrest with hin
      · exact hin
      · cases hrest
  · rintro ⟨hanon, hlisted, ⟨hcommit, hmodule, hrepo⟩, hin⟩
    have hlisted : s.isDeployer cx.caller = true := hlisted
    refine ⟨(cx.caller, place.1), ⟨cx.caller, ⟨hanon, rfl⟩, ?_⟩, ?_⟩
    · simp only [hlisted, Bool.not_true, Bool.false_eq_true, if_false]
      exact Except.bind_eq_ok.mpr ⟨place, rfl, Except.bind_eq_ok.mpr ⟨(), hcommit,
        Except.bind_eq_ok.mpr ⟨(), hmodule, Except.bind_eq_ok.mpr ⟨(), hrepo, rfl⟩⟩⟩⟩
    · cases hget : s.handles.get place.1 with
      | none => simp [attempt, registerHandle_eq_ok.mpr ⟨hget, rfl⟩]
      | some h => simp [hin h hget]

lemma accepted_setRecord {name : String} {place : Place} (hsplit : Names.split name = .ok place)
    (target : Target) : (finish (s.setRecord cx name target)).2.accepted = true ↔
      (Registry.of s).Allows cx (.point place target) := by
  have hname := Names.nameOf_split hsplit
  simp only [setRecord, Names.isScoped_of_split hsplit, Bool.not_true, Bool.false_eq_true, if_false,
    accepted_attempt, Except.bind_eq_ok, authorize_eq_ok hsplit, Registry.Allows, Registry.Points]
  constructor
  · rintro ⟨c, ⟨c', ⟨howns, rfl⟩, hok⟩, -⟩
    refine ⟨howns, ?_⟩
    rintro dest rfl
    obtain ⟨other, hother, hok⟩ := Except.bind_eq_ok.mp hok
    split_ifs at hok with hself
    refine ⟨other, hother, ?_⟩
    rintro rfl
    exact hself ((Names.nameOf_split hother).symm.trans hname)
  · rintro ⟨howns, hpoints⟩
    refine ⟨cx.caller, ⟨cx.caller, ⟨howns, rfl⟩, ?_⟩, rfl⟩
    cases target with
    | address p => rfl
    | «alias» dest =>
        obtain ⟨other, hother, hne⟩ := hpoints dest rfl
        have hself : dest ≠ name := by
          rintro rfl
          rw [hsplit] at hother
          cases hother
          exact hne rfl
        exact Except.bind_eq_ok.mpr ⟨other, hother, by simp [hself]⟩

lemma accepted_setText {name : String} {place : Place} (hsplit : Names.split name = .ok place)
    (key : String) (value : Option String) :
    (finish (s.setText cx name key value)).2.accepted = true ↔
      (Registry.of s).Allows cx (.describe place key value) := by
  have hname := Names.nameOf_split hsplit
  simp only [setText, textRecord, Names.isScoped_of_split hsplit, if_true, accepted_attempt,
    Except.bind_eq_ok, authorize_eq_ok hsplit, Registry.Allows, Registry.of, hname, getRecord]
  constructor
  · rintro ⟨a, ⟨⟨r, tax⟩, ⟨c, ⟨howns, rfl⟩, hget⟩, u, hcheck, text, htext, -⟩, -⟩
    split at hget
    · cases hget
    · rename_i old hold
      cases hget
      exact ⟨howns, hcheck, r.listing, text, by rw [hold]; rfl, htext⟩
  · rintro ⟨howns, hcheck, l, text, hl, htext⟩
    obtain ⟨old, hold, rfl⟩ := Option.map_eq_some_iff.mp hl
    exact ⟨_, ⟨(old, 0), ⟨cx.caller, ⟨howns, rfl⟩, by simp only [hold]⟩, (), hcheck, text, htext,
      rfl⟩, rfl⟩

lemma accepted_deleteRecord {name : String} {place : Place}
    (hsplit : Names.split name = .ok place) :
    (finish (s.deleteRecord cx name)).2.accepted = true ↔
      (Registry.of s).Allows cx (.remove place) := by
  have hname := Names.nameOf_split hsplit
  simp only [deleteRecord, Names.isScoped_of_split hsplit, Bool.not_true, Bool.false_eq_true,
    if_false, accepted_attempt, authorize_eq_ok hsplit, Registry.Allows, getRecord]
  have hlisting : ((Registry.of s).listings place).isSome = (s.records.get name).isSome := by
    simp [Registry.of, hname]
  rw [hlisting]
  cases s.records.get name with
  | none => simp
  | some old => simp

end State
