import IcNameService.Registry.Refinement
import IcNameService.Resolution.Bounded

/-!
# Resolution, replayed

What a scoped name resolves to is decided by the accepted writes of the history alone: by the latest
one to each name on the way.  Nothing else the canister has been through (flat names, payments, ledger
replies, upgrades, refused calls) matters, and neither does the time.

* `World.latestTarget` — the latest accepted write to a name, found in the history.
* `World.target_eq_latestTarget` — a record points where it says, through the refinement.
* `World.walk_replayed`, `World.resolution_replayed` — **`follow` is the walk over the latest writes.**
-/

/-- Where a target points: on to a name, or to an address. -/
def Target.pointsTo : Target → String ⊕ Principal
  | .alias next => .inl next
  | .address p => .inr p

lemma Target.pointsTo_target (r : Record) : r.target.pointsTo = r.pointsTo := by
  rw [Record.pointsTo]
  cases r.target <;> rfl

namespace World

variable {E : Env} {w : World E} {tr : History E} {name : String} {place : Place}

/-- What an accepted call sets the target of a name to. -/
def setsTarget (name : String) (e : Entry (World E) Event Output) : Option (Option Target) :=
  if answer e.out then
    match e.event with
    | .call _ (.announce a) => if a.name = name then some (some (.address a.canister)) else none
    | .call _ (.setRecord n target) => if n = name then some (some target) else none
    | .call _ (.deleteRecord n) => if n = name then some none else none
    | _ => none
  else none

/-- Where the latest accepted write pointed a name. -/
def latestTarget (tr : History E) (name : String) : Option Target :=
  (tr.findSome? (setsTarget name)).getD none

/-- A write under a name is a request for its place, and for no other. -/
lemma requestOf_place {n : String} {f : Place → Registry.Request}
    (hsplit : Names.split name = .ok place)
    {sets : Registry.Request → Option (Option Target)} {t : Option Target}
    (hsets : ∀ other, sets (f other) = if other = place then some t else none) :
    (((Names.split n).toOption.map f).bind sets) = if n = name then some t else none := by
  cases hn : Names.split n with
  | error e =>
      have hne : n ≠ name := by
        rintro rfl
        rw [hsplit] at hn
        cases hn
      simp [Except.toOption, hne]
  | ok other =>
      have hsame : other = place ↔ n = name := by
        constructor
        · rintro rfl
          rw [← Names.nameOf_split hn, Names.nameOf_split hsplit]
        · rintro rfl
          rw [hsplit] at hn
          exact (Except.ok.inj hn).symm
      simp [Except.toOption, hsets, hsame]

/-- What the registry sees an entry do to a place is what the entry does to the name of it. -/
lemma seen_setsTarget (hsplit : Names.split name = .ok place)
    (e : Entry (World E) Event Output) :
    (Entry.seen registry request answer e).bind (Registry.setsTarget place) = setsTarget name e := by
  obtain ⟨pre, event, out, post⟩ := e
  simp only [Entry.seen, setsTarget, request]
  cases event with
  | reply now id r moved => simp [asked]
  | upgrade now => simp [asked]
  | call cx c =>
      simp only [asked, Option.map_map, Option.bind_map]
      cases hanswer : answer out with
      | false => simp [Registry.setsTarget, Function.comp_def]
      | true =>
          cases c with
          | announce a =>
              exact requestOf_place hsplit fun other => by simp [Registry.setsTarget]
          | setRecord n target =>
              exact requestOf_place hsplit fun other => by simp [Registry.setsTarget]
          | deleteRecord n =>
              exact requestOf_place hsplit fun other => by simp [Registry.setsTarget]
          | setText n key value =>
              cases hn : (Names.split n).toOption <;>
                simp [Registry.requestOf, Registry.setsTarget, hn]
          | _ => simp [Registry.requestOf, Registry.setsTarget]

/-- **A record under a handle points where the latest accepted write pointed it.** -/
lemma target_eq_latestTarget (h : Run (machine E) anyEvent init tr w)
    (hsplit : Names.split name = .ok place) :
    (w.canister.records.get name).map Record.target = latestTarget tr name := by
  have hrun := (registry_simulates anyEvent).run h
  have htarget := Registry.target_eq_latest hrun place
  rw [← List.head?_filterMap, List.filterMap_filterMap, List.head?_filterMap, registry_init]
    at htarget
  simp only [seen_setsTarget hsplit] at htarget
  simpa [registry, Registry.of, Names.nameOf_split hsplit, Registry.empty, latestTarget,
    Function.comp_def, Record.listing] using htarget

/-- **The chain of a scoped name is the chain of the latest writes**, and no record on it lapses. -/
lemma walk_replayed (h : Run (machine E) anyEvent init tr w) (hsplit : Names.split name = .ok place)
    (now : ℕ) (p : Principal) (targets : List Target) :
    (∃ chain, w.canister.Resolves name chain p ∧ chain.map Record.target = targets ∧
      ∀ r ∈ chain, State.lapsed (E := E) w.canister.config r now = false) ↔
      Walk (latestTarget tr) Target.pointsTo name targets p := by
  have hshape := run_shape h
  let Scoped (n : String) : Prop := ∃ q, Names.split n = .ok q
  have hclosed : ∀ n r next, Scoped n → w.canister.records.get n = some r →
      r.pointsTo = .inl next → Scoped next := by
    rintro n r next ⟨q, hq⟩ hget hpoint
    obtain ⟨-, -, -, hvalid⟩ := hshape.plain_of_split hq hget
    rw [← Target.pointsTo_target] at hpoint
    cases htarget : r.target with
    | address p => simp [Target.pointsTo, htarget] at hpoint
    | «alias» dest =>
        simp only [Target.pointsTo, htarget, Sum.inl.injEq] at hpoint
        exact hvalid next (hpoint ▸ htarget)
  have hlatest : ∀ n, Scoped n →
      latestTarget tr n = (w.canister.records.get n).map Record.target := by
    rintro n ⟨q, hq⟩
    exact (target_eq_latestTarget h hq).symm
  have hscoped : Scoped name := ⟨place, hsplit⟩
  constructor
  · rintro ⟨chain, hwalk, rfl, -⟩
    exact Walk.map hclosed hlatest Target.pointsTo_target hwalk hscoped
  · intro hwalk
    obtain ⟨chain, rfl, hchain⟩ := Walk.of_map hclosed hlatest Target.pointsTo_target hwalk hscoped
    refine ⟨chain, hchain, rfl, fun r hr => ?_⟩
    obtain ⟨n, ⟨q, hq⟩, hget⟩ := Walk.stored_closed hclosed hchain hscoped r hr
    obtain ⟨-, hnone, -, -⟩ := hshape.plain_of_split hq hget
    simp only [State.lapsed, hnone]

/-- **What a scoped name resolves to is a replay of the history.**  `follow` finds an address, with
certain targets on the way, exactly when the latest accepted writes lead from the name over these
targets to that address in at most eight steps: at whatever time it is asked, and whatever else has
happened. -/
theorem resolution_replayed (h : Run (machine E) anyEvent init tr w)
    (hsplit : Names.split name = .ok place) (now : ℕ) (p : Principal) (targets : List Target) :
    (∃ chain, w.canister.follow name now = .ok (p, chain) ∧ chain.map Record.target = targets) ↔
      Walk (latestTarget tr) Target.pointsTo name targets p ∧ targets.length ≤ 8 := by
  have hshape := run_shape h
  have hnameable : State.Nameable name := by
    rw [State.Nameable, if_pos (Names.isScoped_of_split hsplit)]
    exact ⟨place, hsplit⟩
  rw [← walk_replayed h hsplit now p targets]
  constructor
  · rintro ⟨chain, hfollow, rfl⟩
    obtain ⟨-, hwalk, hlen, hheld⟩ := (State.follow_eq_ok hshape.named).mp hfollow
    refine ⟨⟨chain, hwalk, rfl, hheld⟩, ?_⟩
    rw [List.length_map]
    exact hlen
  · rintro ⟨⟨chain, hwalk, rfl, hheld⟩, hlen⟩
    rw [List.length_map] at hlen
    exact ⟨chain, (State.follow_eq_ok hshape.named).mpr ⟨hnameable, hwalk, hlen, hheld⟩, rfl⟩

/-- A record for an address, and an alias to it. -/
theorem resolution_replayed_aliased :
    ∃ (tr : History Env.reference) (w : World Env.reference),
      Run (machine Env.reference) anyEvent init tr w ∧
        tr.reverse.map Entry.event = Script.housing ++
          [.call (Script.caller 5 0) (.setRecord "h/y" (.alias "h/x"))] ∧
        ∃ chain, w.canister.follow "h/y" 7 = .ok (⟨[9]⟩, chain) ∧
          chain.map Record.target = [.alias "h/x", .address ⟨[9]⟩] := by
  obtain ⟨tr, w, hr, hevents, hy, hx⟩ := Machine.exists_run_of_exec (machine Env.reference)
    anyEvent init
    (Script.housing ++ [.call (Script.caller 5 0) (.setRecord "h/y" (.alias "h/x"))])
    (fun tr _ => latestTarget tr "h/y" = some (.alias "h/x") ∧
      latestTarget tr "h/x" = some (.address ⟨[9]⟩)) (by decide +kernel)
  have hsplit : Names.split "h/y" = .ok ("h", "y") := by decide +kernel
  refine ⟨tr, w, hr, hevents, (resolution_replayed hr hsplit 7 ⟨[9]⟩ _).mpr ⟨?_, by decide⟩⟩
  exact .on hy rfl (.ends hx rfl)

end World
