import IcNameService.Books.Ledger
import IcNameService.Canister.Memory
import IcNameService.Core.Simulation
import IcNameService.System.Undo

/-!
# Restarts

An upgrade refills the certified tree from the records and resets a counter that is zero when no call
is suspended; a refused call writes nothing.  So neither changes what is answered later.

* `Alike` — two worlds that differ at most in the certified tree, and in how late it is.
* `Alike.step` — **alike worlds answer alike.**
* `upgrades_invisible` — a history without its upgrades and refused calls is a history that is heard
  alike, and an upgrade may be put in wherever no call is suspended.
-/

namespace World

variable {E : Env} {w w' v : World E}

/-- The two worlds differ at most in the certified tree; the second may be the earlier one. -/
structure Alike (w v : World E) : Prop where
  memory : w.canister.SameMemory v.canister
  pending : v.pending = w.pending
  nextId : v.nextId = w.nextId
  now : v.now ≤ w.now
  account : v.account = w.account
  volume : v.volume = w.volume

lemma Alike.refl (w : World E) : Alike w w := ⟨.refl _, rfl, rfl, le_rfl, rfl, rfl⟩

/-- Alike worlds may assume the same of the ledger. -/
lemma Alike.lawful (h : Alike w v) {e : Event} (hok : lawful w e) : lawful v e := by
  cases e with
  | call cx c => trivial
  | upgrade now => trivial
  | reply now id r moved =>
      intro p hp
      rw [h.pending] at hp
      rw [(State.resume_sameMemory h.memory now r p).2, h.volume]
      exact hok p hp

/-- **Alike worlds answer alike**, and are left alike. -/
theorem Alike.step (h : Alike w v) (hschema : w.canister.schema = some schemaCurrent) {e : Event}
    {o : Output} (hs : w.step e = some (w', o)) : ∃ v', v.step e = some (v', o) ∧ Alike w' v' := by
  cases e with
  | call cx c =>
      have hnow := h.now
      simp only [World.step] at hs ⊢
      split_ifs at hs with htime
      rw [if_neg (by omega)]
      obtain ⟨hm, hr⟩ := State.call_sameMemory h.memory cx c
      rcases hx : w.canister.call cx c with ⟨s, p⟩
      rcases hy : v.canister.call cx c with ⟨s', p'⟩
      rw [hx, hy] at hm hr
      rw [hx] at hs
      cases hr
      cases p with
      | done r =>
          cases hs
          exact ⟨_, rfl, hm, h.pending, h.nextId, le_rfl, h.account, h.volume⟩
      | await p =>
          cases hs
          refine ⟨_, rfl, hm, ?_, ?_, le_rfl, h.account, h.volume⟩
          · rw [h.pending, h.nextId]
          · rw [h.nextId]
  | reply now id r moved =>
      have hnow := h.now
      simp only [World.step] at hs ⊢
      split_ifs at hs with htime
      rw [if_neg (by omega), h.pending]
      cases hget : w.pending.get id with
      | none =>
          rw [hget] at hs
          cases hs
      | some p =>
          rw [hget] at hs
          obtain ⟨hm, hr⟩ := State.resume_sameMemory h.memory now r p
          rcases hx : w.canister.resume now r p with ⟨s, progress⟩
          rcases hy : v.canister.resume now r p with ⟨s', progress'⟩
          rw [hx, hy] at hm hr
          simp only [hx] at hs
          simp only [hy]
          cases hr
          cases progress with
          | done reply =>
              cases hs
              refine ⟨_, rfl, ?_⟩
              exact ⟨hm, rfl, h.nextId, le_rfl, by rw [h.account], by rw [h.volume]⟩
          | await p' =>
              cases hs
              refine ⟨_, rfl, ?_⟩
              exact ⟨hm, rfl, h.nextId, le_rfl, by rw [h.account], by rw [h.volume]⟩
  | upgrade now =>
      have hnow := h.now
      obtain ⟨tree, data, hv⟩ := h.memory
      have hschema' : v.canister.schema = some schemaCurrent := by
        rw [hv]
        exact hschema
      simp only [World.step, State.postUpgrade_current hschema] at hs
      simp only [World.step, State.postUpgrade_current hschema', h.pending]
      split_ifs at hs with hbusy
      obtain ⟨htime, hempty⟩ := not_or.mp hbusy
      rw [if_neg (not_or.mpr ⟨by omega, hempty⟩)]
      cases hs
      have hm : w.canister.resetHeap.certifyRebuild.SameMemory
          v.canister.resetHeap.certifyRebuild := by
        rw [hv]
        exact ⟨_, _, rfl⟩
      exact ⟨_, rfl, hm, rfl, h.nextId, le_rfl, h.account, h.volume⟩

/-! ## What is invisible -/

/-- With no call suspended, an upgrade only refills the tree. -/
lemma sameMemory_upgrade (hg : Guarded w) (hempty : w.pending = OrdMap.empty) :
    w.canister.SameMemory w.canister.resetHeap.certifyRebuild := by
  have hzero : w.canister.inFlight = 0 := by
    rw [hg.counted, hempty]
    rfl
  have hreset : w.canister.resetHeap = w.canister := by
    rw [State.resetHeap, ← hzero]
  rw [hreset]
  exact ⟨_, _, rfl⟩

/-- An upgrade, or a call that was refused. -/
def idle (e : Entry (World E) Event Output) : Bool :=
  match e.event, e.out with
  | .upgrade _, _ => true
  | .call _ _, .done (.error _) => true
  | _, _ => false

/-- **An idle message changes nothing but the tree.** -/
lemma alike_idle (hg : Guarded w) (h : Alike w v) {e : Event} {o : Output}
    (hs : Stepped w e w' o) (hi : idle ⟨w, e, o, w'⟩ = true) : Alike w' v := by
  have hnow := h.now
  cases hs with
  | @answered cx c s r htime hc =>
      cases r with
      | ok _ => cases hi
      | error e =>
          cases State.called_refused hc
          exact ⟨h.memory, h.pending, h.nextId, by dsimp; omega, h.account, h.volume⟩
  | suspended => cases hi
  | resumed => cases hi
  | continued => cases hi
  | upgraded htime hempty =>
      exact ⟨(sameMemory_upgrade hg hempty).symm.trans h.memory, h.pending, h.nextId,
        by dsimp; omega, h.account, h.volume⟩

variable {tr : History E}

/-- **Upgrades and refused calls are invisible.**  Leave them out of a history: what is left is a
history, every message of it answered as it was, and the two end in worlds that differ at most in the
certified tree.  And wherever no call is suspended an upgrade may be put in: it is not refused, every
later message is answered as it was, and again only the tree may differ. -/
theorem upgrades_invisible (h : Run (machine E) lawful init tr w) :
    (∃ tr' v, Run (machine E) lawful init tr' v ∧ Alike w v ∧
      tr'.map Entry.heard = (tr.filter fun e => !idle e).map Entry.heard) ∧
    ∀ newer older mid, tr = newer ++ older → Run (machine E) lawful init older mid →
      mid.pending = OrdMap.empty → ∃ newer' up v,
        Run (machine E) lawful init (newer' ++ up :: older) v ∧ Alike w v ∧
          up.heard = (.upgrade mid.now, .upgraded) ∧
          newer'.map Entry.heard = newer.map Entry.heard := by
  have guarded : ∀ {tr : History E} {w : World E}, Run (machine E) lawful init tr w → Guarded w :=
    fun hr => run_guarded (hr.mono fun _ _ _ => trivial)
  constructor
  · refine Run.erase Alike idle (Alike.refl init) ?_ ?_ h
    · intro tr s t e s' o hr hR hs hi
      exact alike_idle (guarded hr) hR (stepped_of_step (run_schema rfl hr) hs) hi
    · intro tr s t e s' o hr hR hok hs hi
      exact ⟨hR.lawful hok, hR.step (run_schema rfl hr) hs⟩
  · rintro newer older mid rfl hmid hempty
    obtain ⟨mid', hmid', hrest⟩ := h.of_append
    cases hmid.end_unique hmid'
    have hup : (machine E).step mid (.upgrade mid.now) =
        some ({ mid with canister := mid.canister.resetHeap.certifyRebuild }, .upgraded) := by
      simp [machine, World.step, hempty, OrdMap.empty, State.postUpgrade_current (run_schema rfl hmid)]
    have hrun := Run.snoc (e := Event.upgrade mid.now) hmid trivial hup
    have halike : Alike mid { mid with canister := mid.canister.resetHeap.certifyRebuild } :=
      ⟨sameMemory_upgrade (guarded hmid) hempty, rfl, rfl, le_rfl, rfl, rfl⟩
    have herased := Run.erase Alike (fun _ => false) halike
      (fun _ _ _ hi => by cases hi) ?_ hrest
    · obtain ⟨newer', v, hr', hR, hheard⟩ := herased
      exact ⟨newer', _, v, hrun.append hr', hR, rfl, by simpa using hheard⟩
    · intro tr s t e s' o hr hR hok hs _
      exact ⟨hR.lawful hok, hR.step (run_schema rfl (hmid.append hr)) hs⟩

end World

namespace Script

/-- A name is won; an upgrade; a handle that is taken is asked for, and the name is released. -/
def restarted : List Event :=
  housing ++ opening ++ winning 1 2 "abc" "h/x" 1000 2000 5 ++
    [.upgrade 26, .call (caller 3 26) (.registerHandle "h"), .call (caller 2 27) (.deleteRecord "abc")]

end Script

namespace World

/-- Two messages are left out, and an upgrade is put in before the name is released. -/
theorem upgrades_invisible_restarted : ∃ (e : Entry (World Env.reference) Event Output)
    (tr : History Env.reference) (w : World Env.reference),
    Run (machine Env.reference) lawful init (e :: tr) w ∧
      (e :: tr).reverse.map Entry.event = Script.restarted ∧
      (∃ tr' v, Run (machine Env.reference) lawful init tr' v ∧ Alike w v ∧
        tr'.length + 2 = (e :: tr).length) ∧
      ∃ newer' up v, Run (machine Env.reference) lawful init (newer' ++ up :: tr) v ∧ Alike w v ∧
        newer'.map Entry.heard = [e.heard] := by
  obtain ⟨tr, w, hr, hevents, hidle, hquiet⟩ := Machine.exists_run_of_exec (machine Env.reference)
    lawful init Script.restarted (fun tr _ => tr.countP (fun e => !idle e) + 2 = tr.length ∧
      ∀ e ∈ tr.head?, e.pre.pending.entries = []) (by decide +kernel)
  cases tr with
  | nil => cases hevents
  | cons e tr =>
      obtain ⟨⟨tr', v, hr', halike, hheard⟩, hput⟩ := upgrades_invisible hr
      refine ⟨e, tr, w, hr, hevents, ⟨tr', v, hr', halike, ?_⟩, ?_⟩
      · rw [← hidle, List.countP_eq_length_filter, ← List.length_map (f := Entry.heard), hheard,
          List.length_map]
      · have htr : e :: tr = [] ++ e :: tr := rfl
        obtain ⟨hmid, -⟩ := hr.split htr
        obtain ⟨newer', up, v, hr', halike, -, hheard⟩ :=
          hput [e] tr e.pre rfl hmid (eq_empty_of_entries (hquiet e rfl))
        exact ⟨newer', up, v, hr', halike, hheard⟩

end World
