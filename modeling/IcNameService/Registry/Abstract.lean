import Mathlib.Data.Set.Basic
import Mathlib.Logic.Function.Basic
import IcNameService.Core.Simulation
import IcNameService.Canister.Endpoints

/-!
# The registry, abstractly

What the scoped half of the canister is for: handles that have one owner for good, and listings under
them that the owner, and the deployers it lets in, may write.  There is no index, no certified tree,
no flat name, no payment and no time but the caller's own; a listing has no owner of its own, since
its handle has one.

* `Registry.Allows` — who may ask for what.
* `Registry.after` — what becomes of the registry when it is allowed.
* `Registry.machine` — the registry as a machine that answers yes or no.
* `Registry.target_eq_latest` — **a place points where the latest accepted write pointed it.**
-/

/-- What stands under a label of a handle. -/
structure Listing where
  target : Target
  text : Names.Text
  createdNs : ℕ
  updatedNs : ℕ

/-- A label of a handle. -/
abbrev Place := String × String

/-- Handles, listed deployers, and what is listed where. -/
structure Registry where
  handles : String → Option Handle
  deployers : Set Principal
  listings : Place → Option Listing

namespace Registry

/-! ## Requests -/

/-- What may be asked of the registry. -/
inductive Request
  | claim (handle : String)
  | appoint (handle : String) (deployer : Option Principal)
  | enlist (p : Principal)
  | delist (p : Principal)
  | announce (place : Place) (a : Announcement)
  | point (place : Place) (target : Target)
  | describe (place : Place) (key : String) (value : Option String)
  | remove (place : Place)

/-- Before anything was asked. -/
def empty : Registry := ⟨fun _ => none, ∅, fun _ => none⟩

variable (reg : Registry) (cx : Ctx)

/-- The caller owns the handle. -/
def Owns (handle : String) : Prop :=
  cx.caller ≠ Principal.anonymous ∧ ∃ h, reg.handles handle = some h ∧ h.owner = cx.caller

/-- The caller may announce under the handle: it is free, the caller's, or lets the caller in. -/
def LetsIn (handle : String) : Prop :=
  ∀ h, reg.handles handle = some h → h.owner = cx.caller ∨ h.deployer = some cx.caller

/-- What a deployer reports is well formed. -/
def Reported (a : Announcement) : Prop :=
  Names.checkHex "commit" a.commit [20, 32] = .ok () ∧
    Names.checkHex "module_hash" a.moduleHash [32] = .ok () ∧ Names.checkTextValue a.repo = .ok ()

/-- A target for a place: an address, or another place. -/
def Points (place : Place) (target : Target) : Prop :=
  ∀ dest, target = .alias dest → ∃ other, Names.split dest = .ok other ∧ other ≠ place

/-- Who may ask for what. -/
def Allows : Request → Prop
  | .claim handle =>
      Names.checkSegment "handle" handle = .ok () ∧ cx.caller ≠ Principal.anonymous ∧
        reg.handles handle = none
  | .appoint handle deployer =>
      Names.checkSegment "handle" handle = .ok () ∧ reg.Owns cx handle ∧
        ∀ p, deployer = some p → p ∈ reg.deployers
  | .enlist p =>
      cx.caller ≠ Principal.anonymous ∧ cx.controller = true ∧ p ≠ Principal.anonymous
  | .delist p =>
      cx.caller ≠ Principal.anonymous ∧ cx.controller = true ∧ p ∈ reg.deployers
  | .announce place a =>
      cx.caller ≠ Principal.anonymous ∧ cx.caller ∈ reg.deployers ∧ Reported a ∧
        reg.LetsIn cx place.1
  | .point place target => reg.Owns cx place.1 ∧ Points place target
  | .describe place key value =>
      reg.Owns cx place.1 ∧ State.checkText key value = .ok () ∧
        ∃ l text, reg.listings place = some l ∧ Names.setOwnerText l.text key value = .ok text
  | .remove place => reg.Owns cx place.1 ∧ (reg.listings place).isSome = true

/-! ## What a request does -/

/-- A listing pointed elsewhere: what described the old target goes with it. -/
def Listing.repoint (l : Listing) (target : Target) (now : ℕ) : Listing :=
  { l with
    text := if l.target ≠ target then Names.clearProvenance l.text else l.text
    target := target
    updatedNs := now }

/-- What an announce leaves of the listing it found. -/
def Listing.announce (sign : Principal → String) (a : Announcement) (cx : Ctx)
    (found : Option Listing) : Listing :=
  let l := found.getD ⟨.address a.canister, [], cx.now, cx.now⟩
  { l with
    target := .address a.canister
    updatedNs := cx.now
    text := Names.setProvenance l.text
      ⟨a.repo, a.commit, a.moduleHash, sign cx.caller, toString cx.now⟩ }

/-- What an owner's text leaves of the listing it found. -/
def Listing.describe (key : String) (value : Option String) (cx : Ctx) (l : Listing) : Listing :=
  { l with text := (Names.setOwnerText l.text key value).toOption.getD l.text, updatedNs := cx.now }

/-- List something at a place, or nothing. -/
def list (place : Place) (l : Option Listing) : Registry :=
  { reg with listings := Function.update reg.listings place l }

/-- Give a handle an entry. -/
def enter (handle : String) (h : Handle) : Registry :=
  { reg with handles := Function.update reg.handles handle (some h) }

/-- A free handle becomes the caller's. -/
def claim (handle : String) : Registry :=
  match reg.handles handle with
  | none => reg.enter handle ⟨cx.caller, none⟩
  | some _ => reg

variable (sign : Principal → String)

/-- What a request that is allowed does. -/
def after : Request → Registry
  | .claim handle => reg.claim cx handle
  | .appoint handle deployer =>
      match reg.handles handle with
      | none => reg
      | some h => reg.enter handle { h with deployer := deployer }
  | .enlist p => { reg with deployers := insert p reg.deployers }
  | .delist p => { reg with deployers := reg.deployers \ {p} }
  | .announce place a =>
      (reg.claim cx place.1).list place (Listing.announce sign a cx (reg.listings place))
  | .point place target =>
      reg.list place (some (match reg.listings place with
        | none => ⟨target, [], cx.now, cx.now⟩
        | some l => Listing.repoint l target cx.now))
  | .describe place key value =>
      reg.list place ((reg.listings place).map (Listing.describe key value cx))
  | .remove place => reg.list place none

open Classical in
/-- One request: done if it is allowed, refused and nothing done if not. -/
noncomputable def act (req : Request) : Registry × Bool :=
  if reg.Allows cx req then (reg.after cx sign req, true) else (reg, false)

/-- The registry as a machine that answers yes or no. -/
noncomputable def machine : Machine Registry (Ctx × Request) Bool :=
  ⟨fun reg d => some (reg.act d.1 sign d.2)⟩

variable {reg cx sign}

lemma act_of_allows {req : Request} (h : reg.Allows cx req) :
    reg.act cx sign req = (reg.after cx sign req, true) := if_pos h

lemma act_of_not_allows {req : Request} (h : ¬ reg.Allows cx req) :
    reg.act cx sign req = (reg, false) := if_neg h

/-! ## What every request leaves alone -/

@[simp] lemma claim_listings (handle : String) : (reg.claim cx handle).listings = reg.listings := by
  rw [claim]
  split <;> rfl

/-! ## The latest write -/

/-- What an answered request sets the target of a place to; nothing, if it was refused or asked for
something else. -/
def setsTarget (place : Place) (e : Entry Registry (Ctx × Request) Bool) : Option (Option Target) :=
  if e.out then
    match e.event.2 with
    | .announce p a => if p = place then some (some (.address a.canister)) else none
    | .point p target => if p = place then some (some target) else none
    | .remove p => if p = place then some none else none
    | _ => none
  else none

/-- What is listed at a place after something was listed at a place. -/
lemma list_listings (place other : Place) (l : Option Listing) :
    (reg.list place l).listings other = if other = place then l else reg.listings other := by
  simp only [list, Function.update_apply]

/-- One request sets the target of a place to what it says, or leaves it alone. -/
lemma target_step {d : Ctx × Request} {reg' : Registry} {b : Bool} (place : Place)
    (hs : (machine sign).step reg d = some (reg', b)) :
    (reg'.listings place).map Listing.target =
      (setsTarget place ⟨reg, d, b, reg'⟩).getD ((reg.listings place).map Listing.target) := by
  have hact : reg.act d.1 sign d.2 = (reg', b) := Option.some.inj hs
  by_cases hallows : reg.Allows d.1 d.2
  · rw [act_of_allows hallows] at hact
    cases hact
    cases hreq : d.2 with
    | claim handle => simp [setsTarget, after, hreq]
    | appoint handle deployer =>
        simp only [setsTarget, after, hreq, if_true, Option.getD_none]
        split <;> rfl
    | enlist p => simp [setsTarget, after, hreq]
    | delist p => simp [setsTarget, after, hreq]
    | announce p a =>
        simp only [setsTarget, after, hreq, if_true, list_listings, claim_listings]
        by_cases hp : p = place
        · simp [hp, Listing.announce]
        · simp [hp, Ne.symm hp]
    | point p target =>
        simp only [setsTarget, after, hreq, if_true, list_listings]
        by_cases hp : p = place
        · subst hp
          cases hl : reg.listings p with
          | none => simp
          | some l => simp [Listing.repoint]
        · simp [hp, Ne.symm hp]
    | describe p key value =>
        simp only [setsTarget, after, hreq, if_true, list_listings, Option.getD_none]
        by_cases hp : place = p
        · subst hp
          cases reg.listings place with
          | none => simp
          | some l => simp [Listing.describe]
        · simp [hp]
    | remove p =>
        simp only [setsTarget, after, hreq, if_true, list_listings]
        by_cases hp : p = place
        · simp [hp]
        · simp [hp, Ne.symm hp]
  · rw [act_of_not_allows hallows] at hact
    cases hact
    simp [setsTarget]

/-- **The target of a place is the one the latest accepted write gave it.** -/
theorem target_eq_latest {ok : Registry → Ctx × Request → Prop} {reg₀ : Registry}
    {tr : List (Entry Registry (Ctx × Request) Bool)} (h : Run (machine sign) ok reg₀ tr reg)
    (place : Place) : (reg.listings place).map Listing.target =
      (tr.findSome? (setsTarget place)).getD ((reg₀.listings place).map Listing.target) :=
  h.cell_eq fun _ _ hs => target_step place hs

end Registry
