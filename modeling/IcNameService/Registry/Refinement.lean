import IcNameService.Canister.Administration
import IcNameService.Core.Simulation
import IcNameService.Registry.Accepted

/-!
# The canister refines the registry

Seen from the scoped side, the canister among its callers and the ledger is the abstract registry: a
call that asks something of the registry is one step of it, answered as the registry answers, and every
other message (a flat name's, a payment's, a ledger reply, an upgrade) is silent.

* `Registry.requestOf` — what a call asks of the registry.
* `State.after_of_called` — what an accepted call does is what the registry does.
* `World.registry_simulates` — the simulation.
* `World.registry_refined` — over every history, with the records the canister stores rebuilt from what
  the registry lists.
-/

namespace Registry

/-- What a call asks of the registry; a name that is not `<handle>/<label>` asks nothing. -/
def requestOf : Call → Option Request
  | .registerHandle handle => some (.claim handle)
  | .setHandleDeployer handle deployer => some (.appoint handle deployer)
  | .addDeployer p => some (.enlist p)
  | .removeDeployer p => some (.delist p)
  | .announce a => (Names.split a.name).toOption.map fun place => .announce place a
  | .setRecord name target => (Names.split name).toOption.map fun place => .point place target
  | .setText name key value => (Names.split name).toOption.map fun place => .describe place key value
  | .deleteRecord name => (Names.split name).toOption.map fun place => .remove place
  | _ => none

/-- A place is asked for by its own name only. -/
lemma split_of_toOption {α : Type} {name : String} {f : Place → α} {a : α}
    (h : (Names.split name).toOption.map f = some a) :
    ∃ place, Names.split name = .ok place ∧ f place = a := by
  cases hs : Names.split name with
  | error e =>
      rw [hs] at h
      cases h
  | ok place =>
      rw [hs] at h
      cases h
      exact ⟨place, rfl, rfl⟩

end Registry

namespace State

variable {E : Env} {s s' : State E} {cx : Ctx}

/-! ## Acceptance -/

/-- **A call is accepted exactly when the registry allows what it asks.** -/
theorem accepted_call {c : Call} {req : Registry.Request} (hreq : Registry.requestOf c = some req) :
    (s.call cx c).2.accepted = true ↔ (Registry.of s).Allows cx req := by
  cases c with
  | registerHandle handle =>
      cases hreq
      exact accepted_registerHandle handle
  | setHandleDeployer handle deployer =>
      cases hreq
      exact accepted_setHandleDeployer handle deployer
  | addDeployer p =>
      cases hreq
      exact accepted_addDeployer p
  | removeDeployer p =>
      cases hreq
      exact accepted_removeDeployer p
  | announce a =>
      obtain ⟨place, hsplit, rfl⟩ := Registry.split_of_toOption hreq
      exact accepted_announce hsplit
  | setRecord name target =>
      obtain ⟨place, hsplit, rfl⟩ := Registry.split_of_toOption hreq
      exact accepted_setRecord hsplit target
  | setText name key value =>
      obtain ⟨place, hsplit, rfl⟩ := Registry.split_of_toOption hreq
      exact accepted_setText hsplit key value
  | deleteRecord name =>
      obtain ⟨place, hsplit, rfl⟩ := Registry.split_of_toOption hreq
      exact accepted_deleteRecord hsplit
  | _ => cases hreq

/-! ## What the registry sees of a write -/

/-- A write under a valid name is one listing. -/
lemma of_insert {name : String} {place : Place} {r : Record} (hsplit : Names.split name = .ok place)
    (hhandles : s'.handles = s.handles) (hdeployers : s'.deployers = s.deployers)
    (hrecords : s'.records = s.records.insert name r) :
    Registry.of s' = (Registry.of s).list place (some r.listing) := by
  have hlistings : (Registry.of s').listings =
      Function.update (Registry.of s).listings place (some r.listing) := by
    funext other
    by_cases hother : other = place
    · subst hother
      simp [Registry.of, hrecords, Names.nameOf_split hsplit]
    · have hne : nameOf other ≠ name := fun h => hother (Names.nameOf_inj hsplit h)
      simp [Registry.of, hrecords, OrdMap.get_insert_ne _ _ hne, Function.update_of_ne hother]
  simp only [Registry.of, isDeployer, hhandles, hdeployers] at hlistings ⊢
  simp only [Registry.list, hlistings]

lemma of_erase {name : String} {place : Place} (hsplit : Names.split name = .ok place)
    (hhandles : s'.handles = s.handles) (hdeployers : s'.deployers = s.deployers)
    (hrecords : s'.records = s.records.erase name) :
    Registry.of s' = (Registry.of s).list place none := by
  have hlistings : (Registry.of s').listings =
      Function.update (Registry.of s).listings place none := by
    funext other
    by_cases hother : other = place
    · subst hother
      simp [Registry.of, hrecords, Names.nameOf_split hsplit]
    · have hne : nameOf other ≠ name := fun h => hother (Names.nameOf_inj hsplit h)
      simp [Registry.of, hrecords, OrdMap.get_erase_ne _ hne, Function.update_of_ne hother]
  simp only [Registry.of, isDeployer, hhandles, hdeployers] at hlistings ⊢
  simp only [Registry.list, hlistings]

/-- An entry for a handle. -/
lemma of_enter {handle : String} {h : Handle} (hhandles : s'.handles = s.handles.insert handle h)
    (hdeployers : s'.deployers = s.deployers) (hrecords : s'.records = s.records) :
    Registry.of s' = (Registry.of s).enter handle h := by
  have hget : s'.handles.get = Function.update s.handles.get handle (some h) := by
    funext other
    rw [hhandles, OrdMap.get_insert, Function.update_apply]
  simp only [Registry.of, isDeployer, hdeployers, hrecords, hget, Registry.enter]

lemma of_eq (hhandles : s'.handles = s.handles) (hdeployers : s'.deployers = s.deployers)
    (hrecords : ∀ name, Names.isScoped name = true → s'.records.get name = s.records.get name) :
    Registry.of s' = Registry.of s := by
  have hlistings : (Registry.of s').listings = (Registry.of s).listings := by
    funext place
    have hscoped : Names.isScoped (nameOf place) = true := by
      simp [Names.isScoped, Names.toList_nameOf]
    simp only [Registry.of, hrecords _ hscoped]
  simp only [Registry.of, isDeployer, hhandles, hdeployers] at hlistings ⊢
  simp only [hlistings]

/-! ## What an accepted call does -/

/-- What an announce writes is what the registry lists. -/
lemma listing_announceRecord (s : State E) (cx : Ctx) {a : Announcement} {place : Place}
    (hsplit : Names.split a.name = .ok place) (owner : Principal) :
    (s.announceRecord cx a owner).listing =
      Registry.Listing.announce E.toText a cx ((Registry.of s).listings place) := by
  simp only [Registry.of, Names.nameOf_split hsplit, announceRecord, getRecord]
  cases s.records.get a.name with
  | none => rfl
  | some r => rfl

/-- A deployer that is listed, and one that is dropped. -/
lemma of_addDeployer (s : State E) (p : Principal) :
    Registry.of { s with deployers := s.deployers.insert p () } =
      { Registry.of s with deployers := insert p (Registry.of s).deployers } := by
  have hset : (Registry.of { s with deployers := s.deployers.insert p () }).deployers =
      insert p (Registry.of s).deployers := by
    ext q
    change (s.deployers.insert p ()).contains q = true ↔ q = p ∨ s.deployers.contains q = true
    rw [OrdMap.contains, OrdMap.contains, OrdMap.get_insert]
    split_ifs with hq
    · simp [hq]
    · simp [hq]
  rw [← hset]
  rfl

lemma of_removeDeployer (s : State E) (p : Principal) :
    Registry.of { s with deployers := s.deployers.erase p } =
      { Registry.of s with deployers := (Registry.of s).deployers \ {p} } := by
  have hset : (Registry.of { s with deployers := s.deployers.erase p }).deployers =
      (Registry.of s).deployers \ {p} := by
    ext q
    change (s.deployers.erase p).contains q = true ↔ s.deployers.contains q = true ∧ q ≠ p
    rw [OrdMap.contains, OrdMap.contains, OrdMap.get_erase]
    split_ifs with hq
    · simp [hq]
    · simp [hq]
  rw [← hset]
  rfl

/-- A call about a flat name asks nothing of the registry. -/
lemma requestOf_flat {c : Call} {name : String} {r r' : Record} {req : Registry.Request}
    (hflat : Names.checkFlat name = .ok ()) (ha : Amendment s cx name r c r')
    (hreq : Registry.requestOf c = some req) : False := by
  have hnot := Names.isScoped_of_checkFlat hflat
  cases ha with
  | repoint =>
      obtain ⟨place, hsplit, -⟩ := Registry.split_of_toOption hreq
      rw [Names.isScoped_of_split hsplit] at hnot
      cases hnot
  | retext =>
      obtain ⟨place, hsplit, -⟩ := Registry.split_of_toOption hreq
      rw [Names.isScoped_of_split hsplit] at hnot
      cases hnot
  | reprice => cases hreq

/-- What is written under a valid name is what the registry lists at its place. -/
lemma after_scopedWrite {c : Call} {name : String} {place : Place} {r : Record}
    {req : Registry.Request} (hsplit : Names.split name = .ok place)
    (hw : ScopedWrite s cx name c r) (hreq : Registry.requestOf c = some req) :
    (Registry.of s).after cx E.toText req = (Registry.of s).list place (some r.listing) := by
  have hname := Names.nameOf_split hsplit
  cases hw with
  | create hget =>
      obtain ⟨place', hsplit', rfl⟩ := Registry.split_of_toOption hreq
      obtain rfl : place = place' := by
        rw [hsplit] at hsplit'
        exact Except.ok.inj hsplit'
      simp only [Registry.after, Registry.of, hname, hget]
      rfl
  | repoint hget =>
      obtain ⟨place', hsplit', rfl⟩ := Registry.split_of_toOption hreq
      obtain rfl : place = place' := by
        rw [hsplit] at hsplit'
        exact Except.ok.inj hsplit'
      simp only [Registry.after, Registry.of, hname, hget]
      rfl
  | retext hget _ htext =>
      obtain ⟨place', hsplit', rfl⟩ := Registry.split_of_toOption hreq
      obtain rfl : place = place' := by
        rw [hsplit] at hsplit'
        exact Except.ok.inj hsplit'
      simp only [Registry.after, Registry.of, hname, hget, Option.map_some,
        Registry.Listing.describe, Record.listing, htext]
      rfl

/-- **What an accepted call does is what the registry does.** -/
theorem after_of_called (hs : s.Shape) {c : Call} {req : Registry.Request} {v : Value}
    (hreq : Registry.requestOf c = some req) (hc : Called s cx c s' (.done (.ok v))) :
    Registry.of s' = (Registry.of s).after cx E.toText req := by
  cases hc with
  | administered ha =>
      cases ha with
      | @registerHandle handle _ hnone =>
          cases hreq
          have hfree : (Registry.of s).handles handle = none := hnone
          simp only [Registry.after, Registry.claim, hfree]
          exact of_enter rfl rfl rfl
      | @setHandleDeployer handle deployer h _ hget =>
          cases hreq
          have hentry : (Registry.of s).handles handle = some h := hget
          simp only [Registry.after, hentry]
          exact of_enter rfl rfl rfl
      | addDeployer =>
          cases hreq
          exact of_addDeployer s _
      | removeDeployer =>
          cases hreq
          exact of_removeDeployer s _
      | setDomains => cases hreq
      | setAuctionConfig => cases hreq
  | @announced a _ _ _ _ _ ha =>
      obtain ⟨place, hsplit, rfl⟩ := Registry.split_of_toOption hreq
      cases ha with
      | @fresh handle label hsplit' hnone =>
          obtain rfl : place = (handle, label) := by
            rw [hsplit] at hsplit'
            exact Except.ok.inj hsplit'
          have hfree : (Registry.of s).handles handle = none := hnone
          have henter : Registry.of ({ s with handles := s.handles.insert handle ⟨cx.caller, none⟩ } :
              State E) = (Registry.of s).enter handle ⟨cx.caller, none⟩ := of_enter rfl rfl rfl
          simp only [Registry.after, Registry.claim, hfree, ← henter,
            ← listing_announceRecord s cx hsplit cx.caller]
          refine of_insert hsplit rfl rfl ?_
          rw [commit_records, hs.named.announceRecord_name]
      | @allowed handle label h hsplit' hget =>
          obtain rfl : place = (handle, label) := by
            rw [hsplit] at hsplit'
            exact Except.ok.inj hsplit'
          have hentry : (Registry.of s).handles handle = some h := hget
          simp only [Registry.after, Registry.claim, hentry,
            ← listing_announceRecord s cx hsplit h.owner]
          have hsame := sameSettings_commit s (s.announceRecord cx a h.owner)
          refine of_insert hsplit hsame.handles hsame.deployers ?_
          rw [commit_records, hs.named.announceRecord_name]
  | underHandle hsplit _ _ hw =>
      rw [after_scopedWrite hsplit hw hreq]
      refine of_insert hsplit rfl rfl ?_
      rw [commit_records, hs.named.scopedWrite_name hw]
  | amended hheld ha => exact (requestOf_flat hheld.flatName ha hreq).elim
  | @discarded name _ _ old =>
      obtain ⟨place, hsplit, rfl⟩ := Registry.split_of_toOption hreq
      have hsame := sameSettings_discard s name old
      exact of_erase hsplit hsame.handles hsame.deployers rfl
  | released hheld =>
      obtain ⟨place, hsplit, -⟩ := Registry.split_of_toOption hreq
      have hnot := Names.isScoped_of_checkFlat hheld.flatName
      rw [Names.isScoped_of_split hsplit] at hnot
      cases hnot
  | revealed => cases hreq
  | closed => cases hreq

/-- A call that asks something of the registry is answered at once, and one that is refused changes
nothing. -/
lemma called_not_accepted {c : Call} {req : Registry.Request} {p : Progress}
    (hreq : Registry.requestOf c = some req) (hc : Called s cx c s' p)
    (hp : p.accepted = false) : s' = s := by
  cases hc with
  | refused => rfl
  | pulling hstart => cases hstart <;> cases hreq
  | withdrawing => cases hreq
  | funding => cases hreq
  | configuring => cases hreq
  | _ => cases hp

/-- **One call of the scoped side is one step of the registry.** -/
theorem act_call (hs : s.Shape) {c : Call} {req : Registry.Request}
    (hreq : Registry.requestOf c = some req) :
    (Registry.of s).act cx E.toText req = (Registry.of (s.call cx c).1, (s.call cx c).2.accepted) := by
  have hcalled := call_called s cx c
  have hiff : (s.call cx c).2.accepted = true ↔ (Registry.of s).Allows cx req := accepted_call hreq
  cases haccepted : (s.call cx c).2.accepted with
  | true =>
      rw [haccepted] at hiff
      rw [Registry.act_of_allows (hiff.mp rfl)]
      cases hp : (s.call cx c).2 with
      | await p =>
          rw [hp] at haccepted
          cases haccepted
      | done r =>
          rw [hp] at haccepted hcalled
          cases r with
          | error e => cases haccepted
          | ok v => rw [after_of_called hs hreq hcalled]
  | false =>
      rw [haccepted] at hiff
      have hnot : ¬ (Registry.of s).Allows cx req := fun h => by cases hiff.mpr h
      rw [Registry.act_of_not_allows hnot, called_not_accepted hreq hcalled haccepted]

/-- **A call that asks nothing of the registry is not seen by it.** -/
theorem of_called_silent (hs : s.Shape) {c : Call} {p : Progress} (hc : Called s cx c s' p)
    (hreq : Registry.requestOf c = none) : Registry.of s' = Registry.of s := by
  have hdeployers : s'.deployers = s.deployers := by
    rcases called_administration hc with hsame | ha
    · exact hsame.deployers
    · cases ha with
      | addDeployer => cases hreq
      | removeDeployer => cases hreq
      | _ => rfl
  have hasks : ∀ {name : String} {place : Place} {f : Place → Registry.Request},
      Names.split name = .ok place → (Names.split name).toOption.map f ≠ none := by
    intro name place f hsplit hnone
    rw [hsplit] at hnone
    cases hnone
  cases called_scoped hs hc with
  | kept hsame => exact of_eq hsame.handles hdeployers hsame.records
  | registered => cases hreq
  | deputed => cases hreq
  | written hsplit _ _ hw => cases hw <;> exact absurd hreq (hasks hsplit)
  | deleted hsplit => exact absurd hreq (hasks hsplit)
  | announced _ ha =>
      cases ha with
      | fresh hsplit => exact absurd hreq (hasks hsplit)
      | allowed hsplit => exact absurd hreq (hasks hsplit)

end State

/-- The record of a listing: the handle's owner owns it, and it is not flat. -/
def Listing.record (l : Listing) (name : String) (owner : Principal) : Record where
  name := name
  owner := owner
  target := l.target
  text := l.text
  createdNs := l.createdNs
  updatedNs := l.updatedNs
  changedHandsNs := l.createdNs
  flat := none
  previousTarget := none

namespace World

variable {E : Env} {w w' : World E} {tr : History E}

/-- What a message asks of the registry. -/
def asked : Event → Option (Ctx × Registry.Request)
  | .call cx c => (Registry.requestOf c).map fun req => (cx, req)
  | _ => none

/-- What an entry asks of the registry. -/
def request (e : Entry (World E) Event Output) : Option (Ctx × Registry.Request) := asked e.event

/-- How a message was answered. -/
def answer : Output → Bool
  | .done (.ok _) => true
  | _ => false

/-- What the registry sees of a world. -/
def registry (w : World E) : Registry := Registry.of w.canister

/-- What a call leaves behind, and how it was answered. -/
lemma step_call {cx : Ctx} {c : Call} {o : Output} (h : w.step (.call cx c) = some (w', o)) :
    w'.canister = (w.canister.call cx c).1 ∧ answer o = (w.canister.call cx c).2.accepted := by
  simp only [step] at h
  split_ifs at h
  split at h
  · rename_i s r hcall
    cases h
    rw [hcall]
    cases r <;> exact ⟨rfl, rfl⟩
  · rename_i s p hcall
    cases h
    rw [hcall]
    exact ⟨rfl, rfl⟩

/-- **The canister among its callers and the ledger simulates the registry**, from its first state and
under any assumption on its messages. -/
theorem registry_simulates (ok : World E → Event → Prop) :
    Simulates (machine E) ok init (Registry.machine E.toText) registry request answer where
  silent := by
    intro tr w e w' o hr hok hs hreq
    have hshape := run_shape hr
    cases e with
    | call cx c =>
        obtain ⟨hstate, -⟩ := step_call hs
        have hnone : Registry.requestOf c = none := by simpa [request, asked] using hreq
        rw [registry, hstate]
        exact State.of_called_silent hshape (State.call_called _ _ _) hnone
    | reply now id r moved =>
        have hschema := run_schema rfl hr
        have hstep : w.step (.reply now id r moved) = some (w', o) := hs
        have hstepped := stepped_of_step hschema hstep
        have hscoped : State.SameScoped w.canister w'.canister := by
          rcases stepped_scoped hshape (run_carried hr) hstepped with ⟨cx, c, hcall, -⟩ | hsame
          · cases hcall
          · exact hsame
        refine State.of_eq hscoped.handles ?_ hscoped.records
        cases hstepped with
        | resumed _ _ hresumed => exact (State.resumed_administration hresumed).deployers
        | continued => rfl
    | upgrade now =>
        have hschema := run_schema rfl hr
        have hstep : w.step (.upgrade now) = some (w', o) := hs
        cases stepped_of_step hschema hstep with
        | upgraded => rfl
  acts := by
    intro tr w e w' o d hr hok hs hreq
    cases e with
    | call cx c =>
        obtain ⟨hstate, hanswer⟩ := step_call hs
        obtain ⟨req, hasks, rfl⟩ := Option.map_eq_some_iff.mp hreq
        change some (Registry.act _ cx E.toText req) = _
        rw [registry, registry, hstate, hanswer, State.act_call (run_shape hr) hasks]
    | reply now id r moved => cases hreq
    | upgrade now => cases hreq

/-- Before the first message the registry is empty. -/
lemma registry_init : registry (init (E := E)) = Registry.empty := by
  have hdeployers : (registry (init (E := E))).deployers = ∅ := by
    ext p
    exact iff_of_false (by rintro ⟨⟩) (by rintro ⟨⟩)
  rw [Registry.empty, ← hdeployers]
  rfl

/-! ## The records, rebuilt -/

/-- A record under a handle keeps the moment it was made as the moment it changed hands: it never
does. -/
def Unhanded (s : State E) : Prop :=
  ∀ name r, Names.isScoped name = true → s.records.get name = some r →
    r.changedHandsNs = r.createdNs

lemma unhanded_effect {s s' : State E} (hu : Unhanded s) {cx : Ctx} {c : Call}
    (h : State.ScopedEffect s cx c s') : Unhanded s' := by
  intro name r hscoped hget
  cases h with
  | kept hsame => exact hu name r hscoped (hsame.records name hscoped ▸ hget)
  | registered _ _ hrecords => exact hu name r hscoped (hrecords ▸ hget)
  | deputed _ _ hrecords => exact hu name r hscoped (hrecords ▸ hget)
  | written _ _ _ hw _ hrecords =>
      rw [hrecords] at hget
      rcases OrdMap.get_insert_eq_some.mp hget with ⟨rfl, rfl⟩ | ⟨-, hget⟩
      · cases hw with
        | create => rfl
        | repoint hold =>
            have hkept := hu _ _ hscoped hold
            exact hkept
        | retext hold =>
            have hkept := hu _ _ hscoped hold
            exact hkept
      · exact hu name r hscoped hget
  | deleted _ _ _ _ hrecords =>
      rw [hrecords] at hget
      exact hu name r hscoped (OrdMap.get_erase_eq_some.mp hget).2
  | @announced a _ _ ha =>
      have hwritten : ∀ owner, (s.announceRecord cx a owner).changedHandsNs =
          (s.announceRecord cx a owner).createdNs := by
        intro owner
        simp only [State.announceRecord, State.getRecord]
        cases hold : s.records.get a.name with
        | none => rfl
        | some old =>
            have hchanged : old.changedHandsNs = old.createdNs := by
              cases ha with
              | fresh hsplit => exact hu _ _ (Names.isScoped_of_split hsplit) hold
              | allowed hsplit => exact hu _ _ (Names.isScoped_of_split hsplit) hold
            exact hchanged
      cases ha with
      | fresh =>
          rw [State.commit_records] at hget
          rcases OrdMap.get_insert_eq_some.mp hget with ⟨-, rfl⟩ | ⟨-, hget⟩
          · exact hwritten _
          · exact hu name r hscoped hget
      | allowed =>
          rw [State.commit_records] at hget
          rcases OrdMap.get_insert_eq_some.mp hget with ⟨-, rfl⟩ | ⟨-, hget⟩
          · exact hwritten _
          · exact hu name r hscoped hget

lemma run_unhanded {ok : World E → Event → Prop} (h : Run (machine E) ok init tr w) :
    Unhanded w.canister := by
  refine run_induction (I := fun _ w => Unhanded w.canister) rfl
    (fun name r _ hget => by cases hget) ?_ h
  intro tr w e w' o hr hu _ hs
  rcases stepped_scoped (run_shape hr) (run_carried hr) hs with ⟨cx, c, -, heffect⟩ | hsame
  · exact unhanded_effect hu heffect
  · exact fun name r hscoped hget => hu name r hscoped (hsame.records name hscoped ▸ hget)

/-- **The canister refines the registry.**  What is seen of any history is a history of the abstract
registry, each call answered as the registry answers it; and every record under a handle is the one
the registry lists, with the handle's owner. -/
theorem registry_refined (h : Run (machine E) anyEvent init tr w) :
    Run (Registry.machine E.toText) (fun _ _ => True) Registry.empty
        (tr.filterMap (Entry.seen registry request answer)) (registry w) ∧
      ∀ name place, Names.split name = .ok place →
        w.canister.records.get name = (do
          let l ← (registry w).listings place
          let v ← (registry w).handles place.1
          some (l.record name v.owner)) := by
  refine ⟨?_, ?_⟩
  · have hrun := (registry_simulates anyEvent).run h
    rwa [registry_init] at hrun
  · intro name place hsplit
    have hname := Names.nameOf_split hsplit
    have hshape := run_shape h
    simp only [registry, Registry.of, hname]
    cases hget : w.canister.records.get name with
    | none => rfl
    | some r =>
        obtain ⟨v, hv, howner⟩ := (run_housed h).1 name place r hsplit hget
        obtain ⟨hn, hnone, hprev, -⟩ := hshape.plain_of_split hsplit hget
        have hchanged := run_unhanded h name r (Names.isScoped_of_split hsplit) hget
        simp only [hv, Option.map_some, Option.bind_eq_bind, Option.bind_some, Option.some.injEq]
        rw [howner]
        cases r
        simp_all [Listing.record, Record.listing]

/-- A handle and a record under it: two requests of the registry, both answered yes. -/
theorem registry_refined_housed : ∃ (tr : History Env.reference) (w : World Env.reference),
    Run (machine Env.reference) anyEvent init tr w ∧ tr.reverse.map Entry.event = Script.housing ∧
      Run (Registry.machine Env.reference.toText) (fun _ _ => True) Registry.empty
        (tr.filterMap (Entry.seen registry request answer)) (registry w) ∧
      (tr.filterMap (Entry.seen registry request answer)).length = 2 ∧
      ∃ r l v, w.canister.records.get "h/x" = some r ∧ (registry w).listings ("h", "x") = some l ∧
        (registry w).handles "h" = some v ∧ r = l.record "h/x" v.owner := by
  obtain ⟨tr, w, hr, hevents, hlen, hstored⟩ := Machine.exists_run_of_exec (machine Env.reference)
    anyEvent init Script.housing (fun tr w =>
      (tr.countP fun e => (request e).isSome) = 2 ∧
        (w.canister.records.get "h/x").isSome = true) (by decide +kernel)
  obtain ⟨hrun, hrecords⟩ := registry_refined hr
  refine ⟨tr, w, hr, hevents, hrun, ?_, ?_⟩
  · rw [List.length_filterMap_eq_countP, ← hlen]
    simp [Entry.seen]
  · obtain ⟨r, hget⟩ := Option.isSome_iff_exists.mp hstored
    have hrebuilt := hrecords "h/x" ("h", "x") (by decide +kernel)
    rw [hget] at hrebuilt
    obtain ⟨l, hl, hrest⟩ := Option.bind_eq_some_iff.mp hrebuilt.symm
    obtain ⟨v, hv, hrest⟩ := Option.bind_eq_some_iff.mp hrest
    exact ⟨r, l, v, hget, hl, hv, (Option.some.inj hrest).symm⟩

end World
