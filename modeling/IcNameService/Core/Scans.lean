import Mathlib.Algebra.Order.Ring.Nat
import Mathlib.Data.List.Induction
import Mathlib.Data.List.Sort
import Mathlib.Data.String.Basic
import Mathlib.Tactic.Common
import Mathlib.Tactic.SplitIfs

/-!
# Scans of an ordered list

What a walk over ordered keys finds: the keys under a prefix, which lie together; the runs of equal
elements, with their lengths; a window of the matches, and how many there are.

* `takeWhile_eq_filter` — a scan that stops at the first miss finds every hit, when hits come first.
* `prefix_of_le` — between a prefix and a text that starts with it, every text starts with it.
* `countRun`, `tallied_foldl` — one pass over a sorted list counts each element.
* `foldl_collect`, `pages_eq_take` — one pass counts the matches and keeps a window of them; the
  windows at `0`, `L`, `2L`, … are the matches in order.
-/

namespace Scan

universe u v

variable {α : Type u} {β : Type v}

/-! ## Ordered prefixes -/

/-- **A scan that stops at the first miss finds every hit**, when no hit comes after a miss. -/
theorem takeWhile_eq_filter {P : α → Bool} : ∀ {l : List α},
    l.Pairwise (fun a b => P b = true → P a = true) → l.takeWhile P = l.filter P
  | [], _ => rfl
  | a :: l, h => by
      obtain ⟨hhead, htail⟩ := List.pairwise_cons.mp h
      cases ha : P a with
      | true =>
          rw [List.takeWhile_cons_of_pos ha, List.filter_cons_of_pos ha, takeWhile_eq_filter htail]
      | false =>
          have hnone : l.filter P = [] :=
            List.filter_eq_nil_iff.mpr fun b hb hPb => by simp [hhead b hb hPb] at ha
          rw [List.takeWhile_cons_of_neg (by simp [ha]), List.filter_cons_of_neg (by simp [ha]),
            hnone]

lemma cons_le_cons_iff [LinearOrder α] {c d : α} {a b : List α} :
    c :: a ≤ d :: b ↔ c < d ∨ c = d ∧ a ≤ b := by
  simp only [le_iff_lt_or_eq, List.cons_lt_cons_iff, List.cons.injEq]
  tauto

lemma not_cons_le_nil [LinearOrder α] {c : α} {a : List α} : ¬ c :: a ≤ [] :=
  not_le.mpr (List.nil_lt_cons c a)

lemma nil_le [LinearOrder α] : ∀ a : List α, [] ≤ a
  | [] => le_rfl
  | c :: a => (List.nil_lt_cons c a).le

/-- A text comes after its prefixes. -/
lemma le_of_startsWith [LinearOrder α] : ∀ {p a : List α}, p <+: a → p ≤ a
  | [], a, _ => nil_le a
  | c :: p, [], h => absurd h (by simp)
  | c :: p, d :: a, h => by
      obtain ⟨rfl, htail⟩ := List.cons_prefix_cons.mp h
      exact cons_le_cons_iff.mpr (Or.inr ⟨rfl, le_of_startsWith htail⟩)

/-- After a common prefix, texts come in the order of what follows it. -/
lemma lt_of_append_lt_append [LinearOrder α] : ∀ {p a b : List α}, p ++ a < p ++ b → a < b
  | [], _, _, h => h
  | c :: p, a, b, h => by
      rw [List.cons_append, List.cons_append, List.cons_lt_cons_iff] at h
      rcases h with h | ⟨-, h⟩
      · exact absurd h (lt_irrefl c)
      · exact lt_of_append_lt_append h

/-- **Between a prefix and a text that starts with it, every text starts with it.** -/
theorem prefix_of_le [LinearOrder α] : ∀ {p a b : List α}, p ≤ a → a ≤ b → p <+: b → p <+: a
  | [], a, _, _, _, _ => ⟨a, rfl⟩
  | c :: p, [], _, hpa, _, _ => absurd hpa not_cons_le_nil
  | c :: p, d :: a, [], _, _, hpb => absurd hpb (by simp)
  | c :: p, d :: a, e :: b, hpa, hab, hpb => by
      obtain ⟨rfl, htail⟩ := List.cons_prefix_cons.mp hpb
      rw [cons_le_cons_iff] at hpa hab
      rcases hpa with hlt | ⟨rfl, hpa⟩
      · rcases hab with hlt' | ⟨rfl, -⟩
        · exact absurd (hlt.trans hlt') (lt_irrefl _)
        · exact absurd hlt (lt_irrefl _)
      · rcases hab with hlt | ⟨-, hab⟩
        · exact absurd hlt (lt_irrefl _)
        · exact List.cons_prefix_cons.mpr ⟨rfl, prefix_of_le hpa hab htail⟩

/-- A separator below every element of the first field: the fields come in the order of the whole. -/
lemma le_of_append_cons_le [LinearOrder α] {x : α} : ∀ {a b y z : List α}, (∀ e ∈ a, x < e) →
    a ++ x :: y ≤ b ++ x :: z → a ≤ b
  | [], b, _, _, _, _ => nil_le b
  | c :: a, [], y, z, ha, h => by
      rw [List.cons_append, List.nil_append, cons_le_cons_iff] at h
      have hlt := ha c List.mem_cons_self
      rcases h with h | ⟨rfl, -⟩
      · exact absurd (h.trans hlt) (lt_irrefl _)
      · exact absurd hlt (lt_irrefl _)
  | c :: a, d :: b, y, z, ha, h => by
      rw [List.cons_append, List.cons_append, cons_le_cons_iff] at h
      rw [cons_le_cons_iff]
      rcases h with h | ⟨rfl, h⟩
      · exact Or.inl h
      · exact Or.inr ⟨rfl, le_of_append_cons_le (fun e he => ha e (List.mem_cons_of_mem _ he)) h⟩

/-! ## Runs of equal elements -/

section

variable [DecidableEq α]

/-- One more element: the last run grows, or a new one starts. -/
def countRun (out : List (α × ℕ)) (a : α) : List (α × ℕ) :=
  match out.getLast? with
  | some last => if last.1 = a then out.dropLast ++ [(last.1, last.2 + 1)] else out ++ [(a, 1)]
  | none => out ++ [(a, 1)]

/-- Each element of the list once, in order, with how often it occurs. -/
structure Tallied [LinearOrder α] (l : List α) (out : List (α × ℕ)) : Prop where
  sorted : (out.map Prod.fst).Pairwise (· < ·)
  exact : ∀ a n, (a, n) ∈ out ↔ n = l.count a ∧ 0 < n

end

section

variable [LinearOrder α]

lemma Tallied.nil : Tallied ([] : List α) [] where
  sorted := List.Pairwise.nil
  exact a n := by
    simp only [List.not_mem_nil, List.count_nil, false_iff, not_and]
    omega

lemma Tallied.mem_of_mem {l : List α} {out : List (α × ℕ)} (h : Tallied l out) {e : α × ℕ}
    (he : e ∈ out) : e.1 ∈ l := by
  obtain ⟨hn, hpos⟩ := (h.exact e.1 e.2).mp he
  exact List.count_pos_iff.mp (hn ▸ hpos)

lemma count_concat (l : List α) (a b : α) :
    (l ++ [a]).count b = l.count b + if a = b then 1 else 0 := by
  rw [List.count_append, List.count_singleton]
  simp only [beq_iff_eq]

/-- An element past every run starts a new one. -/
lemma Tallied.fresh {l : List α} {out : List (α × ℕ)} (h : Tallied l out) {a : α}
    (ha : ∀ e ∈ out, e.1 < a) (hl : a ∉ l) : Tallied (l ++ [a]) (out ++ [(a, 1)]) where
  sorted := by
    rw [List.map_append, List.pairwise_append]
    refine ⟨h.sorted, by simp, ?_⟩
    intro x hx y hy
    obtain ⟨e, he, rfl⟩ := List.mem_map.mp hx
    simp only [List.map_cons, List.map_nil, List.mem_singleton] at hy
    exact hy ▸ ha e he
  exact b n := by
    rw [List.mem_append, h.exact, count_concat, List.mem_singleton, Prod.mk.injEq]
    have hzero := List.count_eq_zero.mpr hl
    by_cases hab : a = b
    · subst hab
      rw [if_pos rfl, hzero]
      constructor
      · rintro (⟨rfl, hpos⟩ | ⟨-, rfl⟩) <;> omega
      · rintro ⟨rfl, -⟩
        exact Or.inr ⟨rfl, rfl⟩
    · rw [if_neg hab, Nat.add_zero]
      constructor
      · rintro (hb | ⟨rfl, -⟩)
        · exact hb
        · exact absurd rfl hab
      · exact Or.inl

/-- The element of the last run makes it longer. -/
lemma Tallied.grow {l : List α} {init : List (α × ℕ)} {a : α} {m : ℕ}
    (h : Tallied l (init ++ [(a, m)])) : Tallied (l ++ [a]) (init ++ [(a, m + 1)]) where
  sorted := by simpa using h.sorted
  exact b n := by
    have hm := ((h.exact a m).mp (by simp)).1
    have hinit : ∀ k, (a, k) ∉ init := by
      intro k hk
      have hs := h.sorted
      rw [List.map_append, List.pairwise_append] at hs
      exact lt_irrefl a (hs.2.2 a (List.mem_map_of_mem hk) a (by simp))
    rw [count_concat, List.mem_append, List.mem_singleton, Prod.mk.injEq]
    by_cases hab : a = b
    · subst hab
      rw [if_pos rfl, ← hm]
      constructor
      · rintro (hb | ⟨-, rfl⟩)
        · exact absurd hb (hinit n)
        · omega
      · rintro ⟨rfl, -⟩
        exact Or.inr ⟨rfl, rfl⟩
    · rw [if_neg hab, Nat.add_zero (l.count b), ← h.exact b n, List.mem_append, List.mem_singleton,
        Prod.mk.injEq]
      constructor
      · rintro (hb | ⟨rfl, -⟩)
        · exact Or.inl hb
        · exact absurd rfl hab
      · rintro (hb | ⟨rfl, -⟩)
        · exact Or.inl hb
        · exact absurd rfl hab

lemma Tallied.step {l : List α} {out : List (α × ℕ)} (h : Tallied l out) {a : α}
    (ha : ∀ b ∈ l, b ≤ a) : Tallied (l ++ [a]) (countRun out a) := by
  rcases List.eq_nil_or_concat out with rfl | ⟨init, ⟨c, m⟩, rfl⟩
  · refine h.fresh (by simp) fun hmem => ?_
    have := (h.exact a (l.count a)).mpr ⟨rfl, List.count_pos_iff.mpr hmem⟩
    simp at this
  · simp only [countRun, List.concat_eq_append, List.getLast?_concat, List.dropLast_concat] at h ⊢
    split_ifs with hc
    · subst hc
      exact h.grow
    · -- every run ends at or before the last one, which ends before the new element
      have hlast : c < a := lt_of_le_of_ne (ha c (h.mem_of_mem (e := (c, m)) (by simp))) hc
      have hpast : ∀ e ∈ init ++ [(c, m)], e.1 < a := by
        intro e he
        rcases List.mem_append.mp he with hi | hi
        · have hs := h.sorted
          rw [List.map_append, List.pairwise_append] at hs
          exact (hs.2.2 e.1 (List.mem_map_of_mem hi) c (by simp)).trans hlast
        · rw [List.mem_singleton.mp hi]
          exact hlast
      refine h.fresh hpast fun hmem => ?_
      have hin := (h.exact a (l.count a)).mpr ⟨rfl, List.count_pos_iff.mpr hmem⟩
      exact lt_irrefl a (hpast _ hin)

/-- **One pass over a sorted list counts each of its elements.** -/
theorem tallied_foldl {l : List α} (h : l.Pairwise (· ≤ ·)) : Tallied l (l.foldl countRun []) := by
  induction l using List.reverseRecOn with
  | nil => exact Tallied.nil
  | append_singleton l a ih =>
      obtain ⟨hl, -, hlast⟩ := List.pairwise_append.mp h
      rw [List.foldl_append]
      exact (ih hl).step fun b hb => hlast b hb a (by simp)

end

/-! ## Windows -/

/-- Count one more match, and keep it while the window is open. -/
def collect (f : α → β) (offset limit : ℕ) (acc : ℕ × List β) (a : α) : ℕ × List β :=
  (acc.1 + 1,
    if acc.1 ≥ offset ∧ acc.2.length < limit then acc.2 ++ [f a] else acc.2)

/-- **One pass counts the matches and keeps a window of them.** -/
theorem foldl_collect (f : α → β) (offset limit : ℕ) (l : List α) :
    l.foldl (collect f offset limit) (0, [])
      = (l.length, ((l.drop offset).take limit).map f) := by
  induction l using List.reverseRecOn with
  | nil => simp
  | append_singleton l a ih =>
      rw [List.foldl_append, ih]
      simp only [List.foldl_cons, List.foldl_nil, collect, List.length_map, List.length_take,
        List.length_drop, List.length_append, List.length_singleton]
      by_cases hopen : offset ≤ l.length
      · rw [List.drop_append_of_le_length hopen, List.take_append, List.map_append,
          List.length_drop]
        by_cases hroom : min limit (l.length - offset) < limit
        · obtain ⟨n, hn⟩ : ∃ n, limit - (l.length - offset) = n + 1 :=
            ⟨limit - (l.length - offset) - 1, by omega⟩
          rw [if_pos ⟨hopen, hroom⟩, hn, List.take_succ_cons, List.take_nil, List.map_cons,
            List.map_nil]
        · have hn : limit - (l.length - offset) = 0 := by omega
          rw [if_neg (fun h => hroom h.2), hn, List.take_zero, List.map_nil, List.append_nil]
      · have hclosed : l.length + 1 ≤ offset := by omega
        rw [if_neg (fun h => hopen h.1), List.drop_eq_nil_of_le (by omega),
          List.drop_eq_nil_of_le (by simpa using hclosed)]

/-- **The windows at `0`, `L`, `2L`, … are the list in order.** -/
theorem pages_eq_take (l : List α) (limit k : ℕ) :
    (List.range k).flatMap (fun i => (l.drop (i * limit)).take limit) = l.take (k * limit) := by
  induction k with
  | zero => simp
  | succ k ih =>
      rw [List.range_succ, List.flatMap_append, ih, List.flatMap_singleton, Nat.succ_mul,
        List.take_add]

end Scan
