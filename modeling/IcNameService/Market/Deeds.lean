import Mathlib.Logic.Function.Basic
import IcNameService.Core.Simulation
import IcNameService.Canister.Names
import IcNameService.Canister.Store

/-!
# The market in flat names, abstractly

What the flat half of the canister is for: a name has a deed or none, and a deed passes from one holder to
the next.  There is no tax clock, no payment in flight, no ledger and no auction here, only what comes of
them: a name is awarded, it is sold at the price its holder set, its holder rewrites or releases it.

* `Deed.Act.apply` — what can be done to a name, by whom, and what comes of it.
* `Deeds.machine` — the market as a machine that takes nothing else.
* `Deeds.field_eq_latest` — **each part of a deed is what the latest act that sets it set it to.**
-/

/-- What stands under a flat name, without its tax clock. -/
structure Deed where
  owner : Principal
  price : ℕ
  target : Target
  text : Names.Text
  createdNs : ℕ
  updatedNs : ℕ
  changedHandsNs : ℕ
  previousTarget : Option Target
  deriving DecidableEq

namespace Deed

/-- What can be done to a name. -/
inductive Act
  /-- An auction ended, and somebody won.  A deed found under the name is no obstacle: whether its tax has
  run out is a matter of the clock that deeds leave out, and `World.award_asked_for` answers it where the
  clock is. -/
  | award (winner : Principal) (price : ℕ) (target : Target)
  /-- Somebody paid what the holder asked. -/
  | sell (buyer : Principal) (paid price : ℕ) (target : Target)
  | repoint (holder : Principal) (target : Target)
  | describe (holder : Principal) (key : String) (value : Option String)
  | reprice (holder : Principal) (price : ℕ)
  /-- Somebody, anybody, paid its tax ahead. -/
  | tend
  | release (holder : Principal)
  deriving DecidableEq

/-- What a new holder gets: a clean deed that remembers what the name pointed at. -/
def conveyed (found : Option Deed) (owner : Principal) (price : ℕ) (target : Target) (now : ℕ) :
    Deed where
  owner := owner
  price := price
  target := target
  text := []
  createdNs := (found.map createdNs).getD now
  updatedNs := now
  changedHandsNs := now
  previousTarget := found.map Deed.target

/-- Pointed elsewhere: what described the old target goes with it. -/
def repointed (d : Deed) (target : Target) (now : ℕ) : Deed :=
  { d with
    text := if d.target = target then d.text else Names.clearProvenance d.text
    target := target
    updatedNs := now }

namespace Act

/-- What becomes of the deed found under a name; none when the act is not allowed.  A sale is to somebody
else and at the price on the deed; what only a holder may do, the holder does. -/
def apply (now : ℕ) : Act → Option Deed → Option (Option Deed)
  | .award winner price target, found => some (some (conveyed found winner price target now))
  | .sell buyer paid price target, some d =>
      if d.owner ≠ buyer ∧ d.price = paid then some (some (conveyed (some d) buyer price target now))
      else none
  | .repoint holder target, some d =>
      if d.owner = holder then some (some (d.repointed target now)) else none
  | .describe holder key value, some d =>
      if d.owner = holder then
        (Names.setOwnerText d.text key value).toOption.map fun text =>
          some { d with text := text, updatedNs := now }
      else none
  | .reprice holder price, some d =>
      if d.owner = holder then some (some { d with price := price, updatedNs := now }) else none
  | .tend, some d => some (some { d with updatedNs := now })
  | .release holder, some d => if d.owner = holder then some none else none
  | _, none => none

/-- What an act that is allowed finds, and what it leaves. -/
inductive Applied (now : ℕ) : Act → Option Deed → Option Deed → Prop
  | awarded (winner : Principal) (price : ℕ) (target : Target) (found : Option Deed) :
      Applied now (.award winner price target) found (some (conveyed found winner price target now))
  | sold {d : Deed} {buyer : Principal} (price : ℕ) (target : Target) :
      d.owner ≠ buyer →
      Applied now (.sell buyer d.price price target) (some d)
        (some (conveyed (some d) buyer price target now))
  | repointed (d : Deed) (target : Target) :
      Applied now (.repoint d.owner target) (some d) (some (d.repointed target now))
  | described {d : Deed} {key : String} {value : Option String} {text : Names.Text} :
      Names.setOwnerText d.text key value = .ok text →
      Applied now (.describe d.owner key value) (some d)
        (some { d with text := text, updatedNs := now })
  | repriced (d : Deed) (price : ℕ) :
      Applied now (.reprice d.owner price) (some d)
        (some { d with price := price, updatedNs := now })
  | tended (d : Deed) : Applied now .tend (some d) (some { d with updatedNs := now })
  | released (d : Deed) : Applied now (.release d.owner) (some d) none

variable {now : ℕ} {act : Act} {found after : Option Deed}

lemma applied_of_apply (h : act.apply now found = some after) : Applied now act found after := by
  cases act with
  | award winner price target =>
      cases h
      exact .awarded winner price target found
  | sell buyer paid price target =>
      cases found with
      | none => cases h
      | some d =>
          simp only [apply] at h
          split_ifs at h with hd
          cases h
          obtain ⟨hne, rfl⟩ := hd
          exact .sold price target hne
  | repoint holder target =>
      cases found with
      | none => cases h
      | some d =>
          simp only [apply] at h
          split_ifs at h with hd
          cases h
          exact hd ▸ .repointed d target
  | describe holder key value =>
      cases found with
      | none => cases h
      | some d =>
          simp only [apply] at h
          split_ifs at h with hd
          cases htext : Names.setOwnerText d.text key value with
          | error e =>
              rw [htext] at h
              cases h
          | ok text =>
              rw [htext] at h
              cases h
              exact hd ▸ .described htext
  | reprice holder price =>
      cases found with
      | none => cases h
      | some d =>
          simp only [apply] at h
          split_ifs at h with hd
          cases h
          exact hd ▸ .repriced d price
  | tend =>
      cases found with
      | none => cases h
      | some d =>
          cases h
          exact .tended d
  | release holder =>
      cases found with
      | none => cases h
      | some d =>
          simp only [apply] at h
          split_ifs at h with hd
          cases h
          exact hd ▸ .released d

/-- **An act is allowed exactly when `Applied` says so**, and leaves what it says. -/
lemma apply_eq_some : act.apply now found = some after ↔ Applied now act found after := by
  refine ⟨applied_of_apply, fun h => ?_⟩
  cases h with
  | sold price target hne => simp [apply, hne]
  | described htext => simp [apply, htext, Except.toOption]
  | _ => simp [apply]

/-! ## What an act sets -/

/-- Who holds the name after the act; nothing, if it does not say. -/
def setsOwner : Act → Option (Option Principal)
  | .award winner _ _ => some (some winner)
  | .sell buyer _ _ _ => some (some buyer)
  | .release _ => some none
  | _ => none

def setsPrice : Act → Option (Option ℕ)
  | .award _ price _ => some (some price)
  | .sell _ _ price _ => some (some price)
  | .reprice _ price => some (some price)
  | .release _ => some none
  | _ => none

def setsTarget : Act → Option (Option Target)
  | .award _ _ target => some (some target)
  | .sell _ _ _ target => some (some target)
  | .repoint _ target => some (some target)
  | .release _ => some none
  | _ => none

/-- `sets` tells of every act what it does to a part of the deed. -/
def Tells {α : Type} (part : Deed → α) (sets : Act → Option (Option α)) : Prop :=
  ∀ {now : ℕ} {act : Act} {found after : Option Deed}, Applied now act found after →
    after.map part = (sets act).getD (found.map part)

lemma tells_owner : Tells Deed.owner setsOwner := fun h => by cases h <;> rfl

lemma tells_price : Tells Deed.price setsPrice := fun h => by cases h <;> rfl

lemma tells_target : Tells Deed.target setsTarget := fun h => by cases h <;> rfl

end Act

end Deed

/-- Every name, and its deed if it has one. -/
abbrev Deeds := String → Option Deed

/-- One act on one name. -/
structure Conveyance where
  name : String
  now : ℕ
  act : Deed.Act
  deriving DecidableEq

namespace Deeds

/-- No name has a deed. -/
def empty : Deeds := fun _ => none

/-- One conveyance, if it is allowed. -/
def convey (deeds : Deeds) (c : Conveyance) : Option Deeds :=
  (c.act.apply c.now (deeds c.name)).map (Function.update deeds c.name)

/-- The market. -/
def machine : Machine Deeds Conveyance Unit := ⟨fun deeds c => (deeds.convey c).map fun d => (d, ())⟩

/-- What a conveyance sets a part of a name's deed to. -/
def sets {α : Type} (tells : Deed.Act → Option (Option α)) (name : String) (c : Conveyance) :
    Option (Option α) :=
  if c.name = name then tells c.act else none

/-- One conveyance sets a part of a deed to what it says, or leaves it alone. -/
lemma field_step {α : Type} {part : Deed → α} {tells : Deed.Act → Option (Option α)}
    (htells : Deed.Act.Tells part tells) (name : String) {deeds deeds' : Deeds} {c : Conveyance}
    {o : Unit} (hs : machine.step deeds c = some (deeds', o)) :
    (deeds' name).map part = (sets tells name c).getD ((deeds name).map part) := by
  obtain ⟨after, hconvey, hafter⟩ := Option.map_eq_some_iff.mp hs
  obtain ⟨d, hact, rfl⟩ := Option.map_eq_some_iff.mp hconvey
  cases hafter
  by_cases hname : c.name = name
  · subst hname
    rw [sets, if_pos rfl, Function.update_self]
    exact htells (Deed.Act.applied_of_apply hact)
  · rw [sets, if_neg hname, Function.update_of_ne (Ne.symm hname)]
    rfl

/-- **Each part of a deed is what the latest act that sets it set it to.** -/
theorem field_eq_latest {α : Type} {part : Deed → α} {tells : Deed.Act → Option (Option α)}
    (htells : Deed.Act.Tells part tells) {ok : Deeds → Conveyance → Prop} {deeds₀ deeds : Deeds}
    {tr : List (Entry Deeds Conveyance Unit)} (h : Run machine ok deeds₀ tr deeds) (name : String) :
    (deeds name).map part =
      (tr.findSome? fun e => sets tells name e.event).getD ((deeds₀ name).map part) :=
  @Run.cell_eq _ _ _ _ machine ok deeds₀ deeds tr (fun d => (d name).map part)
    (fun e => sets tells name e.event) (fun _ _ hs => field_step htells name hs) h

end Deeds
