import Mathlib.Algebra.BigOperators.Group.List.Basic
import Mathlib.Algebra.Order.Ring.Nat
import Mathlib.Data.List.Nodup
import Mathlib.Data.List.Sort
import Mathlib.Tactic.Common
import Mathlib.Tactic.SplitIfs

/-!
# Lists with distinct keys

A list read as a table: `key` says which row an element is, and no two elements share a row
(`(l.map key).Nodup`).  The lemmas take one row out of a sum, and compare two tables with the same
rows.
-/

universe u v w

variable {α : Type u} {β : Type v} {κ : Type w} [DecidableEq κ]

namespace Keyed

/-- The row under a key is the element that has it. -/
lemma find_eq {key : α → κ} : ∀ {l : List α}, (l.map key).Nodup → ∀ a ∈ l,
    l.find? (fun b => key b = key a) = some a
  | b :: l, hnd, a, ha => by
      rw [List.map_cons, List.nodup_cons] at hnd
      rcases List.mem_cons.mp ha with rfl | ha
      · simp
      · have hne : key b ≠ key a := fun h => hnd.1 (h ▸ List.mem_map_of_mem ha)
        rw [List.find?_cons_of_neg (by simpa using hne)]
        exact find_eq hnd.2 a ha

/-- Dropping a key that no row has drops nothing. -/
lemma filter_eq_self {key : α → κ} {k : κ} {l : List α} (h : k ∉ l.map key) :
    l.filter (fun b => key b ≠ k) = l := by
  rw [List.filter_eq_self]
  intro b hb
  have : key b ≠ k := fun hk => h (hk ▸ List.mem_map_of_mem hb)
  simpa using this

/-- What is found under a key is the row that has it. -/
lemma find_eq_some_iff {key : α → κ} {l : List α} (hnd : (l.map key).Nodup) {k : κ} {a : α} :
    l.find? (fun b => key b = k) = some a ↔ a ∈ l ∧ key a = k := by
  constructor
  · intro h
    exact ⟨List.mem_of_find?_eq_some h, by simpa using List.find?_some h⟩
  · rintro ⟨ha, rfl⟩
    exact find_eq hnd a ha

/-- Dropping the rows of one key leaves what is found under another. -/
lemma find_filter_ne {key : α → κ} {k k' : κ} (h : k ≠ k') (l : List α) :
    (l.filter fun b => key b ≠ k).find? (fun b => key b = k') = l.find? fun b => key b = k' := by
  rw [List.find?_filter]
  congr 1
  funext b
  by_cases hb : key b = k'
  · simp [hb, Ne.symm h]
  · simp [hb]

/-- The order of a table does not matter to what is found in it. -/
lemma find_perm {key : α → κ} {l l' : List α} (hnd : (l.map key).Nodup) (hp : l'.Perm l) (k : κ) :
    l'.find? (fun b => key b = k) = l.find? (fun b => key b = k) := by
  refine Option.ext fun a => ?_
  rw [find_eq_some_iff hnd, find_eq_some_iff ((hp.map key).nodup_iff.mpr hnd), hp.mem_iff]

/-- Sorting rows with distinct keys sorts the keys strictly. -/
lemma pairwise_insertionSort {κ : Type w} [LinearOrder κ] {key : α → κ} {l : List α}
    (hnd : (l.map key).Nodup) :
    (l.insertionSort fun a b => key a ≤ key b).Pairwise fun a b => key a < key b := by
  have htrans : IsTrans α fun a b => key a ≤ key b := ⟨fun _ _ _ => le_trans⟩
  have htotal : Std.Total fun a b : α => key a ≤ key b := ⟨fun a b => le_total _ _⟩
  have hsorted := List.pairwise_insertionSort (fun a b => key a ≤ key b) l
  have hkeys : ((l.insertionSort fun a b => key a ≤ key b).map key).Nodup :=
    ((List.perm_insertionSort _ l).map key).nodup_iff.mpr hnd
  rw [List.Nodup, List.pairwise_map] at hkeys
  exact hsorted.imp₂ (fun _ _ hle hne => lt_of_le_of_ne hle hne) hkeys

/-- **A sum is one row and the others.** -/
theorem sum_eq_find_add_filter {key : α → κ} (g : α → ℕ) (k : κ) :
    ∀ {l : List α}, (l.map key).Nodup →
      (l.map g).sum = ((l.find? (fun b => key b = k)).map g).getD 0 +
        ((l.filter (fun b => key b ≠ k)).map g).sum
  | [], _ => rfl
  | b :: l, hnd => by
      rw [List.map_cons, List.nodup_cons] at hnd
      by_cases hb : key b = k
      · have hrest : k ∉ l.map key := hb ▸ hnd.1
        rw [List.find?_cons_of_pos (by simpa using hb),
          List.filter_cons_of_neg (by simpa using hb), filter_eq_self hrest]
        simp
      · have ih := sum_eq_find_add_filter g k hnd.2
        rw [List.find?_cons_of_neg (by simpa using hb),
          List.filter_cons_of_pos (by simpa using hb)]
        simp only [List.map_cons, List.sum_cons]
        omega

/-- Keys stay distinct when a row is replaced. -/
lemma nodup_replace {key : α → κ} {l l' : List α} {a : α} (hnd : (l.map key).Nodup)
    (hp : l'.Perm (a :: l.filter (fun b => key b ≠ key a))) : (l'.map key).Nodup := by
  rw [(hp.map key).nodup_iff, List.map_cons, List.nodup_cons]
  constructor
  · intro hmem
    obtain ⟨b, hb, hk⟩ := List.mem_map.mp hmem
    simp [hk] at hb
  · exact hnd.sublist ((List.filter_sublist).map key)

/-- **Two tables with the same rows have the same sum**, row by row. -/
theorem sum_eq_of_perm {key : α → κ} {key' : β → κ} (g : α → ℕ) (g' : β → ℕ) {l : List α}
    {l' : List β} (hnd : (l.map key).Nodup) (hp : (l'.map key').Perm (l.map key))
    (h : ∀ b ∈ l', ∃ a ∈ l, key a = key' b ∧ g' b = g a) : (l'.map g').sum = (l.map g).sum := by
  let value : κ → ℕ := fun k => ((l.find? (fun a => key a = k)).map g).getD 0
  have hl : l.map g = (l.map key).map value := by
    rw [List.map_map]
    refine List.map_congr_left fun a ha => ?_
    simp [value, find_eq hnd a ha]
  have hl' : l'.map g' = (l'.map key').map value := by
    rw [List.map_map]
    refine List.map_congr_left fun b hb => ?_
    obtain ⟨a, ha, hk, hg⟩ := h b hb
    simp [value, ← hk, find_eq hnd a ha, hg]
  rw [hl, hl']
  exact (hp.map value).sum_eq

/-- **Two tables with the same rows have the same value at every key.** -/
theorem find_of_perm {key : α → κ} {key' : β → κ} (g : α → ℕ) (g' : β → ℕ) {l : List α} {l' : List β}
    (hnd : (l.map key).Nodup) (hp : (l'.map key').Perm (l.map key))
    (h : ∀ b ∈ l', ∃ a ∈ l, key a = key' b ∧ g' b = g a) (k : κ) :
    ((l'.find? fun b => key' b = k).map g').getD 0 = ((l.find? fun a => key a = k).map g).getD 0 := by
  cases hfind : l'.find? fun b => key' b = k with
  | none =>
      have hnone : (l.find? fun a => key a = k) = none := by
        refine List.find?_eq_none.mpr fun a ha hk => ?_
        obtain ⟨b, hb, hkey⟩ := List.mem_map.mp (hp.mem_iff.mpr (List.mem_map_of_mem ha))
        refine List.find?_eq_none.mp hfind b hb ?_
        rw [hkey]
        exact hk
      rw [hnone]
      rfl
  | some b =>
      have hk : key' b = k := by simpa using List.find?_some hfind
      obtain ⟨a, ha, hkey, hg⟩ := h b (List.mem_of_find?_eq_some hfind)
      have hfind' := find_eq hnd a ha
      rw [hkey, hk] at hfind'
      rw [hfind', Option.map_some, Option.map_some, Option.getD_some, Option.getD_some, hg]

/-- A sum that counts only the row under a key. -/
lemma sum_ite_key {key : α → κ} (g : α → ℕ) (k : κ) {l : List α} (hnd : (l.map key).Nodup) :
    (l.map fun a => if key a = k then g a else 0).sum =
      ((l.find? fun a => key a = k).map g).getD 0 := by
  rw [sum_eq_find_add_filter _ k hnd]
  have hrest : ((l.filter fun a => key a ≠ k).map fun a => if key a = k then g a else 0).sum = 0 := by
    refine List.sum_eq_zero fun m hm => ?_
    obtain ⟨a, ha, rfl⟩ := List.mem_map.mp hm
    rw [if_neg (by simpa using (List.mem_filter.mp ha).2)]
  rw [hrest, Nat.add_zero]
  cases hfind : l.find? fun a => key a = k with
  | none => rfl
  | some a =>
      have hk : key a = k := by simpa using List.find?_some hfind
      simp [hk]

/-- A sum that counts `n` at one row, and nothing at the others. -/
lemma sum_ite_eq {key : α → κ} (n : ℕ) (k : κ) {l : List α} (hnd : (l.map key).Nodup)
    (hmem : k ∈ l.map key) : (l.map fun a => if k = key a then n else 0).sum = n := by
  obtain ⟨a, ha, rfl⟩ := List.mem_map.mp hmem
  rw [sum_eq_find_add_filter _ (key a) hnd, find_eq hnd a ha]
  have hrest : ((l.filter (fun b => key b ≠ key a)).map fun b =>
      if key a = key b then n else 0).sum = 0 := by
    refine List.sum_eq_zero fun m hm => ?_
    obtain ⟨b, hb, rfl⟩ := List.mem_map.mp hm
    have : key b ≠ key a := by simpa using (List.mem_filter.mp hb).2
    rw [if_neg (fun h => this h.symm)]
  rw [hrest]
  simp

end Keyed
