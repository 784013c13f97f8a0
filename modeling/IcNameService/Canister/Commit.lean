import IcNameService.Canister.Harberger
import IcNameService.Canister.Certify
import IcNameService.Canister.Directory

/-!
# Who may write, and how a write is made (lib.rs, helpers)

The authorization checks, and `commit`: the one way a record reaches the tag index, the certified
tree and stable memory.  `attempt` is the source's `?` at the level of a method: an error leaves the
state as it is.
-/

/-- What a message carries besides its arguments: the time, the caller, and whether the caller is a
controller of the canister. -/
structure Ctx where
  now : ℕ
  caller : Principal
  controller : Bool
  deriving DecidableEq, Repr

/-- `caller()`: anonymous callers are refused. -/
def callerOf (cx : Ctx) : Except String Principal :=
  if cx.caller = Principal.anonymous then .error "anonymous caller" else .ok cx.caller

/-- Controllers administer the canister. -/
def admin (cx : Ctx) : Except String Principal := do
  let c ← callerOf cx
  if !cx.controller then .error "caller is not a controller" else .ok c

/-- A flat name must alias a scoped name, so a sale never changes what a scoped name means. -/
def checkFlatTarget : Target → Except String Unit
  | .alias dest =>
      match Names.split dest with
      | .ok _ => .ok ()
      | .error e => .error s!"a flat name must alias a scoped name: {e}"
  | .address _ => .error "a flat name must alias a scoped name"

namespace State

variable {E : Env} (s : State E)

/-- Run `k` if `x` is `Ok`; on an error, return it and leave the state alone. -/
def attempt {α β : Type} (x : Except String α) (k : α → State E × Except String β) :
    State E × Except String β :=
  match x with
  | .error e => (s, .error e)
  | .ok a => k a

/-! ## Authorization -/

/-- The caller must own `handle`. Returns the handle's entry. -/
def authorizeHandle (cx : Ctx) (handle : String) : Except String Handle := do
  let caller ← callerOf cx
  match s.handles.get handle with
  | none => .error s!"handle '{handle}' is not registered"
  | some h =>
      if h.owner ≠ caller then .error s!"caller does not own handle '{handle}'" else .ok h

/-- The caller must own the handle a scoped name lives under. Returns the caller. -/
def authorize (cx : Ctx) (name : String) : Except String Principal := do
  let (handle, _) ← Names.split name
  let h ← s.authorizeHandle cx handle
  .ok h.owner

/-- The caller must own the flat name and it must not have lapsed. Returns the record settled to
now (not yet stored) and the tax that settlement took, for `commitFlat`. -/
def authorizeFlat (cx : Ctx) (cfg : Config) (name : String) : Except String (Record × ℕ) := do
  Names.checkFlat name
  let caller ← callerOf cx
  match s.getRecord name with
  | none => .error s!"no record for '{name}'"
  | some r =>
      if r.owner ≠ caller then .error s!"caller does not own '{name}'"
      else
        let (r, status, tax) := settleRecord E cfg r cx.now
        if status = .free then .error s!"'{name}' has lapsed and is up for auction"
        else .ok (r, tax)

/-! ## Commits -/

/-- Take what is stored under `name` out of the tag index. -/
def unindexStored (name : String) : State E :=
  { s with
    tags := match s.getRecord name with
      | some old => (s.unindex old).tags
      | none => s.tags }

/-- Write a record everywhere it lives: the tag index, the certified tree and stable memory. -/
def commit (r : Record) : State E :=
  (((s.unindexStored r.name).index r).certifySet r.name (r.canonical E)).putRecord r

/-- Commit a settled flat record and only then count the tax its settlement took. -/
def commitFlat (r : Record) (tax : ℕ) : State E := (s.noteTaxCollected tax).commit r

/-! ## What a commit changes

`commit` writes the records, the tag index, the tree and the certified data; everything else is
left as it was, definitionally. -/

@[simp] lemma commit_records (r : Record) : (s.commit r).records = s.records.insert r.name r := rfl
@[simp] lemma commit_tree (r : Record) :
    (s.commit r).tree = E.cert.treeInsert s.tree (asBytes r.name) (r.canonical E) := rfl
@[simp] lemma commit_certifiedData (r : Record) :
    (s.commit r).certifiedData = Certify.rootHash E (s.commit r).tree := rfl
@[simp] lemma commit_handles (r : Record) : (s.commit r).handles = s.handles := rfl
@[simp] lemma commit_deployers (r : Record) : (s.commit r).deployers = s.deployers := rfl
@[simp] lemma commit_harberger (r : Record) : (s.commit r).harberger = s.harberger := rfl
@[simp] lemma commit_taxCollected (r : Record) : (s.commit r).taxCollected = s.taxCollected := rfl
@[simp] lemma commit_taxWithdrawn (r : Record) : (s.commit r).taxWithdrawn = s.taxWithdrawn := rfl
@[simp] lemma commit_unreconciled (r : Record) : (s.commit r).unreconciled = s.unreconciled := rfl
@[simp] lemma commit_credits (r : Record) : (s.commit r).credits = s.credits := rfl
@[simp] lemma commit_auctions (r : Record) : (s.commit r).auctions = s.auctions := rfl
@[simp] lemma commit_inFlight (r : Record) : (s.commit r).inFlight = s.inFlight := rfl
@[simp] lemma commit_notes (r : Record) : (s.commit r).notes = s.notes := rfl
@[simp] lemma commit_config (r : Record) : (s.commit r).config = s.config := rfl

/-! ## What a ghost note changes -/

section

variable (name : String) (now : ℕ)

@[simp] lemma noteHandedOver_records : (s.noteHandedOver name now).records = s.records := rfl
@[simp] lemma noteHandedOver_credits : (s.noteHandedOver name now).credits = s.credits := rfl
@[simp] lemma noteHandedOver_auctions : (s.noteHandedOver name now).auctions = s.auctions := rfl
@[simp] lemma noteHandedOver_taxCollected :
    (s.noteHandedOver name now).taxCollected = s.taxCollected := rfl

end

/-! ## What counting tax changes -/

/-- Counting tax touches one counter. -/
lemma noteTaxCollected_eq (tax : ℕ) :
    s.noteTaxCollected tax = { s with taxCollected := (s.noteTaxCollected tax).taxCollected } := by
  simp only [noteTaxCollected]; split <;> rfl

@[simp] lemma noteTaxCollected_records (tax : ℕ) :
    (s.noteTaxCollected tax).records = s.records := by rw [noteTaxCollected_eq]
@[simp] lemma commitFlat_records (r : Record) (tax : ℕ) :
    (s.commitFlat r tax).records = s.records.insert r.name r := by
  rw [commitFlat, commit_records, noteTaxCollected_records]
@[simp] lemma noteTaxCollected_tree (tax : ℕ) :
    (s.noteTaxCollected tax).tree = s.tree := by rw [noteTaxCollected_eq]
@[simp] lemma noteTaxCollected_certifiedData (tax : ℕ) :
    (s.noteTaxCollected tax).certifiedData = s.certifiedData := by rw [noteTaxCollected_eq]
@[simp] lemma noteTaxCollected_handles (tax : ℕ) :
    (s.noteTaxCollected tax).handles = s.handles := by rw [noteTaxCollected_eq]
@[simp] lemma noteTaxCollected_deployers (tax : ℕ) :
    (s.noteTaxCollected tax).deployers = s.deployers := by rw [noteTaxCollected_eq]
@[simp] lemma noteTaxCollected_harberger (tax : ℕ) :
    (s.noteTaxCollected tax).harberger = s.harberger := by rw [noteTaxCollected_eq]
@[simp] lemma noteTaxCollected_taxWithdrawn (tax : ℕ) :
    (s.noteTaxCollected tax).taxWithdrawn = s.taxWithdrawn := by rw [noteTaxCollected_eq]
@[simp] lemma noteTaxCollected_unreconciled (tax : ℕ) :
    (s.noteTaxCollected tax).unreconciled = s.unreconciled := by rw [noteTaxCollected_eq]
@[simp] lemma noteTaxCollected_credits (tax : ℕ) :
    (s.noteTaxCollected tax).credits = s.credits := by rw [noteTaxCollected_eq]
@[simp] lemma noteTaxCollected_auctions (tax : ℕ) :
    (s.noteTaxCollected tax).auctions = s.auctions := by rw [noteTaxCollected_eq]
@[simp] lemma noteTaxCollected_inFlight (tax : ℕ) :
    (s.noteTaxCollected tax).inFlight = s.inFlight := by rw [noteTaxCollected_eq]
@[simp] lemma noteTaxCollected_notes (tax : ℕ) :
    (s.noteTaxCollected tax).notes = s.notes := by rw [noteTaxCollected_eq]

lemma noteTaxCollected_taxCollected {tax : ℕ} (h : s.taxCollected + tax ≤ u128Max) :
    (s.noteTaxCollected tax).taxCollected = s.taxCollected + tax := by
  simp only [noteTaxCollected]
  split_ifs with hpos
  · exact satAdd_of_le h
  · omega

lemma taxCollected_le_noteTaxCollected (tax : ℕ) (h : s.taxCollected ≤ u128Max) :
    s.taxCollected ≤ (s.noteTaxCollected tax).taxCollected := by
  simp only [noteTaxCollected]
  split_ifs with hpos
  · exact le_min (by omega) h
  · exact le_rfl

/-- Adding a credit touches the credits only. -/
lemma addCredit_eq (p : Principal) (amount : ℕ) :
    s.addCredit p amount = { s with credits := (s.addCredit p amount).credits } := by
  simp only [addCredit]; split <;> rfl

@[simp] lemma addCredit_records (p : Principal) (n : ℕ) :
    (s.addCredit p n).records = s.records := by rw [addCredit_eq]
@[simp] lemma addCredit_tree (p : Principal) (n : ℕ) :
    (s.addCredit p n).tree = s.tree := by rw [addCredit_eq]
@[simp] lemma addCredit_certifiedData (p : Principal) (n : ℕ) :
    (s.addCredit p n).certifiedData = s.certifiedData := by rw [addCredit_eq]
@[simp] lemma addCredit_handles (p : Principal) (n : ℕ) :
    (s.addCredit p n).handles = s.handles := by rw [addCredit_eq]
@[simp] lemma addCredit_deployers (p : Principal) (n : ℕ) :
    (s.addCredit p n).deployers = s.deployers := by rw [addCredit_eq]
@[simp] lemma addCredit_harberger (p : Principal) (n : ℕ) :
    (s.addCredit p n).harberger = s.harberger := by rw [addCredit_eq]
@[simp] lemma addCredit_taxCollected (p : Principal) (n : ℕ) :
    (s.addCredit p n).taxCollected = s.taxCollected := by rw [addCredit_eq]
@[simp] lemma addCredit_taxWithdrawn (p : Principal) (n : ℕ) :
    (s.addCredit p n).taxWithdrawn = s.taxWithdrawn := by rw [addCredit_eq]
@[simp] lemma addCredit_unreconciled (p : Principal) (n : ℕ) :
    (s.addCredit p n).unreconciled = s.unreconciled := by rw [addCredit_eq]
@[simp] lemma addCredit_auctions (p : Principal) (n : ℕ) :
    (s.addCredit p n).auctions = s.auctions := by rw [addCredit_eq]
@[simp] lemma addCredit_inFlight (p : Principal) (n : ℕ) :
    (s.addCredit p n).inFlight = s.inFlight := by rw [addCredit_eq]
@[simp] lemma addCredit_notes (p : Principal) (n : ℕ) :
    (s.addCredit p n).notes = s.notes := by rw [addCredit_eq]

@[simp] lemma noteTaxCollected_config (tax : ℕ) :
    (s.noteTaxCollected tax).config = s.config := by simp [config]
@[simp] lemma addCredit_config (p : Principal) (n : ℕ) :
    (s.addCredit p n).config = s.config := by simp [config]

/-! ## Credits after a payment -/

@[simp] lemma creditOf_addCredit_ne {p q : Principal} (n : ℕ) (h : q ≠ p) :
    (s.addCredit p n).creditOf q = s.creditOf q := by
  simp only [addCredit]
  split_ifs with h₀
  · rfl
  · simp only [creditOf, OrdMap.get_insert_ne _ _ h]

lemma creditOf_addCredit_self (p : Principal) {n : ℕ} (h : s.creditOf p + n ≤ u128Max) :
    (s.addCredit p n).creditOf p = s.creditOf p + n := by
  simp only [addCredit]
  split_ifs with h₀
  · omega
  · simp only [creditOf, OrdMap.get_insert_self, Option.getD_some]
    exact satAdd_of_le h

end State

/-! ## What the checks establish -/

lemma callerOf_ok {cx : Ctx} {p : Principal} (h : callerOf cx = .ok p) :
    p = cx.caller ∧ cx.caller ≠ Principal.anonymous := by
  simp only [callerOf] at h
  split_ifs at h with hc
  cases h
  exact ⟨rfl, hc⟩

lemma admin_ok {cx : Ctx} {p : Principal} (h : admin cx = .ok p) :
    cx.controller = true := by
  obtain ⟨_, -, h⟩ := Except.bind_eq_ok.mp h
  split_ifs at h with hc
  simpa using hc

lemma checkFlatTarget_ok : ∀ {t : Target}, checkFlatTarget t = .ok () →
    ∃ dest p, t = .alias dest ∧ Names.split dest = .ok p
  | .alias dest, h => by
      simp only [checkFlatTarget] at h
      cases hs : Names.split dest with
      | error e => rw [hs] at h; cases h
      | ok p => exact ⟨dest, p, rfl, hs⟩

namespace State

variable {E : Env} {s : State E} {cx : Ctx}

lemma authorizeHandle_ok {handle : String} {h : Handle}
    (hok : s.authorizeHandle cx handle = .ok h) :
    s.handles.get handle = some h ∧ h.owner = cx.caller := by
  obtain ⟨p, hp, hok⟩ := Except.bind_eq_ok.mp hok
  split at hok
  · cases hok
  · rename_i h' heq
    split_ifs at hok with hc
    cases hok
    exact ⟨heq, (not_not.mp hc).trans (callerOf_ok hp).1⟩

lemma authorize_ok {name : String} {p : Principal} (hok : s.authorize cx name = .ok p) :
    ∃ handle label h, Names.split name = .ok (handle, label) ∧
      s.handles.get handle = some h ∧ h.owner = cx.caller ∧ p = cx.caller := by
  obtain ⟨⟨handle, label⟩, hs, hok⟩ := Except.bind_eq_ok.mp hok
  obtain ⟨h, hh, hok⟩ := Except.bind_eq_ok.mp hok
  cases hok
  obtain ⟨hget, howner⟩ := authorizeHandle_ok hh
  exact ⟨handle, label, h, hs, hget, howner, howner⟩

/-- **What `authorizeFlat` has checked**: the record stored under a valid flat name, owned by the
caller, settled to now and not free. -/
lemma authorizeFlat_ok {cfg : Config} {name : String} {r : Record} {tax : ℕ}
    (hok : s.authorizeFlat cx cfg name = .ok (r, tax)) :
    ∃ old, Names.checkFlat name = .ok () ∧ s.records.get name = some old ∧ old.owner = cx.caller ∧
      (settleRecord E cfg old cx.now).2.1 ≠ .free ∧
      r = (settleRecord E cfg old cx.now).1 ∧ tax = (settleRecord E cfg old cx.now).2.2 := by
  obtain ⟨_, hf, hok⟩ := Except.bind_eq_ok.mp hok
  obtain ⟨p, hp, hok⟩ := Except.bind_eq_ok.mp hok
  split at hok
  · cases hok
  · rename_i old heq
    split_ifs at hok with hc
    simp only at hok
    split_ifs at hok with hfree
    cases hok
    exact ⟨old, hf, heq, (not_not.mp hc).trans (callerOf_ok hp).1, hfree, rfl, rfl⟩

end State
