import IcNameService.Core.Machine

/-!
# Simulation

A machine simulates another when every event of it is either silent, and leaves the view of its state
alone, or one event of the other machine, with the same answer.  Then what is seen of a run is a run of
the other machine, so whatever holds of every run there holds here.

* `Simulates` — the relation, over the runs of the simulating machine.
* `Simulates.run`, `Simulates.run_from` — **what is seen of a run is a run.**
* `Run.cell_eq` — in a run, a part of the state that each entry sets or leaves alone is what the
  newest entry that sets it set it to.
* `Run.replay` — and one that entries rewrite is their rewrites, in order.
* `Run.erase` — **a run without its idle entries is a run** that is heard alike.
-/

universe u₁ u₂ u₃ v₁ v₂ v₃ w

variable {σ : Type u₁} {ε : Type u₂} {ω : Type u₃} {τ : Type v₁} {δ : Type v₂} {θ : Type v₃}

/-- `M` simulates `A` on its runs from `s₀`: `view` is what `A` sees of a state, `request` of an entry,
`answer` of an output. -/
structure Simulates (M : Machine σ ε ω) (ok : σ → ε → Prop) (s₀ : σ) (A : Machine τ δ θ)
    (view : σ → τ) (request : Entry σ ε ω → Option δ) (answer : ω → θ) : Prop where
  silent : ∀ {tr s e s' o}, Run M ok s₀ tr s → ok s e → M.step s e = some (s', o) →
    request ⟨s, e, o, s'⟩ = none → view s' = view s
  acts : ∀ {tr s e s' o d}, Run M ok s₀ tr s → ok s e → M.step s e = some (s', o) →
    request ⟨s, e, o, s'⟩ = some d → A.step (view s) d = some (view s', answer o)

/-- What is seen of an entry. -/
def Entry.seen (view : σ → τ) (request : Entry σ ε ω → Option δ) (answer : ω → θ)
    (e : Entry σ ε ω) : Option (Entry τ δ θ) :=
  (request e).map fun d => ⟨view e.pre, d, answer e.out, view e.post⟩

namespace Simulates

variable {M : Machine σ ε ω} {ok : σ → ε → Prop} {s₀ s : σ} {A : Machine τ δ θ} {view : σ → τ}
  {request : Entry σ ε ω → Option δ} {answer : ω → θ} {tr : List (Entry σ ε ω)}

/-- **What is seen of a run is a run**, from wherever on the way it is watched. -/
theorem run_from (h : Simulates M ok s₀ A view request answer) {s₁ : σ}
    {tr₁ : List (Entry σ ε ω)} (h₁ : Run M ok s₀ tr₁ s₁) (hr : Run M ok s₁ tr s) :
    Run A (fun _ _ => True) (view s₁) (tr.filterMap (Entry.seen view request answer)) (view s) := by
  induction hr with
  | nil => exact .nil
  | @snoc tr s s' e o hr hok hs ih =>
      have hrun := h₁.append hr
      cases hreq : request ⟨s, e, o, s'⟩ with
      | none =>
          rw [List.filterMap_cons_none (by simp [Entry.seen, hreq]), h.silent hrun hok hs hreq]
          exact ih
      | some d =>
          have hseen : Entry.seen view request answer ⟨s, e, o, s'⟩ =
              some ⟨view s, d, answer o, view s'⟩ := by simp [Entry.seen, hreq]
          rw [List.filterMap_cons_some hseen]
          exact ih.snoc trivial (h.acts hrun hok hs hreq)

/-- What is seen of a whole run. -/
theorem run (h : Simulates M ok s₀ A view request answer) (hr : Run M ok s₀ tr s) :
    Run A (fun _ _ => True) (view s₀) (tr.filterMap (Entry.seen view request answer)) (view s) :=
  h.run_from .nil hr

end Simulates

/-! ## A part of the state that entries set -/

/-- **The newest entry that sets a part of the state decides it.**  `sets` says what an entry sets it
to, and nothing when it leaves it alone. -/
theorem Run.cell_eq {α : Type w} {M : Machine σ ε ω} {ok : σ → ε → Prop} {s₀ s : σ}
    {tr : List (Entry σ ε ω)} {cell : σ → α} {sets : Entry σ ε ω → Option α}
    (hstep : ∀ {tr s e s' o}, Run M ok s₀ tr s → ok s e → M.step s e = some (s', o) →
      cell s' = (sets ⟨s, e, o, s'⟩).getD (cell s))
    (h : Run M ok s₀ tr s) : cell s = (tr.findSome? sets).getD (cell s₀) := by
  induction h with
  | nil => rfl
  | @snoc tr s s' e o hr hok hs ih =>
      rw [hstep hr hok hs, List.findSome?_cons]
      cases sets ⟨s, e, o, s'⟩ with
      | none => exact ih
      | some a => rfl

/-- **A part of the state that entries rewrite is their rewrites, in order.** -/
theorem Run.replay {α : Type w} {M : Machine σ ε ω} {ok : σ → ε → Prop} {s₀ s : σ}
    {tr : List (Entry σ ε ω)} {cell : σ → α} {rewrites : Entry σ ε ω → α → α}
    (hstep : ∀ {tr s e s' o}, Run M ok s₀ tr s → ok s e → M.step s e = some (s', o) →
      cell s' = rewrites ⟨s, e, o, s'⟩ (cell s))
    (h : Run M ok s₀ tr s) : cell s = tr.foldr rewrites (cell s₀) := by
  induction h with
  | nil => rfl
  | snoc hr hok hs ih => rw [hstep hr hok hs, ih, List.foldr_cons]

/-! ## Runs without their idle entries -/

/-- What is heard of an entry from outside. -/
def Entry.heard (e : Entry σ ε ω) : ε × ω := (e.event, e.out)

/-- **A run without its idle entries is a run.**  `R` relates a state of the run to one of the run that
leaves them out: an idle entry moves the first state alone, and any other entry moves both, alike. -/
theorem Run.erase {M : Machine σ ε ω} {ok : σ → ε → Prop} {s₀ t₀ s : σ} {tr : List (Entry σ ε ω)}
    (R : σ → σ → Prop) (idle : Entry σ ε ω → Bool) (h₀ : R s₀ t₀)
    (hidle : ∀ {tr s t e s' o}, Run M ok s₀ tr s → R s t → M.step s e = some (s', o) →
      idle ⟨s, e, o, s'⟩ = true → R s' t)
    (hmove : ∀ {tr s t e s' o}, Run M ok s₀ tr s → R s t → ok s e → M.step s e = some (s', o) →
      idle ⟨s, e, o, s'⟩ = false → ok t e ∧ ∃ t', M.step t e = some (t', o) ∧ R s' t')
    (h : Run M ok s₀ tr s) : ∃ tr' t, Run M ok t₀ tr' t ∧ R s t ∧
      tr'.map Entry.heard = (tr.filter fun e => !idle e).map Entry.heard := by
  induction h with
  | nil => exact ⟨[], t₀, .nil, h₀, rfl⟩
  | @snoc tr s s' e o hr hok hs ih =>
      obtain ⟨tr', t, hr', hR, hheard⟩ := ih
      cases hi : idle ⟨s, e, o, s'⟩ with
      | true => exact ⟨tr', t, hr', hidle hr hR hs hi, by simpa [hi] using hheard⟩
      | false =>
          obtain ⟨hok', t', hs', hR'⟩ := hmove hr hR hok hs hi
          refine ⟨⟨t, e, o, t'⟩ :: tr', t', hr'.snoc hok' hs', hR', ?_⟩
          simpa [hi, Entry.heard] using hheard

/-- A run goes through the end of every older part of it. -/
theorem Run.of_append {M : Machine σ ε ω} {ok : σ → ε → Prop} {s₀ s : σ}
    {older : List (Entry σ ε ω)} : ∀ {newer : List (Entry σ ε ω)},
    Run M ok s₀ (newer ++ older) s → ∃ mid, Run M ok s₀ older mid ∧ Run M ok mid newer s
  | [], h => ⟨s, h, .nil⟩
  | _ :: newer, .snoc hr hok hs =>
      let ⟨mid, ho, hn⟩ := Run.of_append hr
      ⟨mid, ho, hn.snoc hok hs⟩

/-- A history ends in one state. -/
theorem Run.end_unique {M : Machine σ ε ω} {ok : σ → ε → Prop} {s₀ s s' : σ}
    {tr : List (Entry σ ε ω)} (h : Run M ok s₀ tr s) (h' : Run M ok s₀ tr s') : s' = s := by
  cases h with
  | nil =>
      cases h'
      rfl
  | snoc =>
      cases h'
      rfl
