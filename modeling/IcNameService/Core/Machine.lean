import Mathlib.Tactic.Common
import Mathlib.Tactic.SplitIfs

/-!
# Machines and their runs

A machine takes one event at a time: `step` is a partial function from a state and an event to a
state and an output.  A `Run` is a finite history, newest entry first, each entry with the state
before the event, the event, the output and the state after.  `ok` is what a run may assume of each
event in the state it meets: the laws of the machine's surroundings, or the condition a result
holds under.

* `Run.invariantWith` — what the first state has and every step keeps, of the state and the history
  that led to it, every reached state has.
* `Run.append` — a run that goes on where another one ended.
* `Run.split` — an entry of a run splits it: what came before is a run to the entry's own state.
* `Machine.exec` — a list of events run in order, for concrete histories.
-/

universe u v w

/-- A deterministic machine with outputs. -/
structure Machine (σ : Type u) (ε : Type v) (ω : Type w) where
  step : σ → ε → Option (σ × ω)

/-- One step of a history. -/
structure Entry (σ : Type u) (ε : Type v) (ω : Type w) where
  pre : σ
  event : ε
  out : ω
  post : σ

variable {σ : Type u} {ε : Type v} {ω : Type w}

/-- The runs of `M` from `s₀` all of whose steps satisfy `ok`: the history, newest first, and the
state reached. -/
inductive Run (M : Machine σ ε ω) (ok : σ → ε → Prop) (s₀ : σ) :
    List (Entry σ ε ω) → σ → Prop
  | nil : Run M ok s₀ [] s₀
  | snoc {tr : List (Entry σ ε ω)} {s s' : σ} {e : ε} {o : ω} :
      Run M ok s₀ tr s → ok s e → M.step s e = some (s', o) →
      Run M ok s₀ (⟨s, e, o, s'⟩ :: tr) s'

namespace Run

variable {M : Machine σ ε ω} {ok : σ → ε → Prop} {s₀ s : σ} {tr : List (Entry σ ε ω)}

/-- An invariant of the history and the state. -/
theorem invariantWith {I : List (Entry σ ε ω) → σ → Prop} (h₀ : I [] s₀)
    (hstep : ∀ tr s e s' o, Run M ok s₀ tr s → I tr s → ok s e → M.step s e = some (s', o) →
      I (⟨s, e, o, s'⟩ :: tr) s')
    (h : Run M ok s₀ tr s) : I tr s := by
  induction h with
  | nil => exact h₀
  | snoc hr hok hs ih => exact hstep _ _ _ _ _ hr ih hok hs

/-- Every entry of a run met its assumption, is a step of the machine, and stands after a run that
reached the state it starts in. -/
theorem split (h : Run M ok s₀ tr s) {newer older : List (Entry σ ε ω)} {e : Entry σ ε ω}
    (htr : tr = newer ++ e :: older) :
    Run M ok s₀ older e.pre ∧ ok e.pre e.event ∧ M.step e.pre e.event = some (e.post, e.out) ∧
      Run M ok s₀ (e :: older) e.post := by
  induction h generalizing newer with
  | nil => cases newer <;> simp at htr
  | @snoc tr s s' ev o hr hok hs ih =>
      cases newer with
      | nil =>
          simp only [List.nil_append, List.cons.injEq] at htr
          obtain ⟨rfl, rfl⟩ := htr
          exact ⟨hr, hok, hs, hr.snoc hok hs⟩
      | cons _ newer =>
          simp only [List.cons_append, List.cons.injEq] at htr
          exact ih htr.2

/-- A run under a stronger assumption. -/
theorem mono {ok' : σ → ε → Prop} (himp : ∀ s e, ok s e → ok' s e) (h : Run M ok s₀ tr s) :
    Run M ok' s₀ tr s := by
  induction h with
  | nil => exact nil
  | snoc _ hok hs ih => exact ih.snoc (himp _ _ hok) hs

/-- A run goes on where another one ended. -/
theorem append {s₁ : σ} {tr' : List (Entry σ ε ω)} (h : Run M ok s₀ tr s)
    (h' : Run M ok s tr' s₁) : Run M ok s₀ (tr' ++ tr) s₁ := by
  induction h' with
  | nil => exact h
  | snoc _ hok hs ih => exact ih.snoc hok hs

end Run

namespace Machine

variable (M : Machine σ ε ω) (ok : σ → ε → Prop) [∀ s e, Decidable (ok s e)]

/-- Take the events in order, keeping the history; none when an event breaks `ok` or has no step. -/
def exec : σ → List ε → List (Entry σ ε ω) → Option (List (Entry σ ε ω) × σ)
  | s, [], tr => some (tr, s)
  | s, e :: es, tr =>
      if ok s e then
        match M.step s e with
        | none => none
        | some (s', o) => exec s' es (⟨s, e, o, s'⟩ :: tr)
      else none

variable {M ok}

/-- What `exec` computes is a run. -/
theorem exec_run {s₀ : σ} : ∀ {es : List ε} {s s' : σ} {tr tr' : List (Entry σ ε ω)},
    Run M ok s₀ tr s → M.exec ok s es tr = some (tr', s') → Run M ok s₀ tr' s'
  | [], s, s', tr, tr', hr, h => by
      cases h
      exact hr
  | e :: es, s, s', tr, tr', hr, h => by
      rw [exec] at h
      split_ifs at h with hok
      split at h
      · cases h
      · rename_i s₁ o hs
        exact exec_run (hr.snoc hok hs) h

/-- What `exec` computes took exactly its events. -/
theorem exec_events : ∀ {es : List ε} {s s' : σ} {tr tr' : List (Entry σ ε ω)},
    M.exec ok s es tr = some (tr', s') →
      tr'.reverse.map Entry.event = tr.reverse.map Entry.event ++ es
  | [], s, s', tr, tr', h => by
      cases h
      simp
  | e :: es, s, s', tr, tr', h => by
      rw [exec] at h
      split_ifs at h with hok
      split at h
      · cases h
      · rename_i s₁ o hs
        rw [exec_events h]
        simp

variable (M ok) in
/-- A concrete list of events whose history and end satisfy `p` gives a run that does, and took these
events. -/
theorem exists_run_of_exec (s₀ : σ) (es : List ε) (p : List (Entry σ ε ω) → σ → Prop)
    [∀ tr s, Decidable (p tr s)]
    (h : (M.exec ok s₀ es []).any (fun r => decide (p r.1 r.2)) = true) :
    ∃ tr s, Run M ok s₀ tr s ∧ tr.reverse.map Entry.event = es ∧ p tr s := by
  cases hx : M.exec ok s₀ es [] with
  | none => simp [hx] at h
  | some r =>
      rw [hx, Option.any_some, decide_eq_true_iff] at h
      exact ⟨r.1, r.2, exec_run Run.nil hx, by simpa using exec_events hx, h⟩

end Machine
