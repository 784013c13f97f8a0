import Mathlib.Algebra.Order.Ring.Nat
import Mathlib.Data.List.Sort
import Mathlib.Tactic.Common
import Mathlib.Tactic.SplitIfs

/-!
# Ordered finite maps

A finite map kept as its list of entries in strictly ascending key order: what a B-tree map is to
the code that uses it.  The order is a field of the structure, so a list out of order or with a
repeated key cannot be built, and two maps with the same lookups are equal (`OrdMap.ext_get`).

* `get`, `insert`, `erase` — with one lemma for each pair of a lookup and a write.
* `total` — the sum of a measure over the entries, with the two laws an account needs:
  `total_insert` and `total_erase` say what one write moves.
* `keys`, `values` — the entries in key order, for code that walks the map.
-/

universe u v w

/-- A finite map, as its entries in ascending key order. -/
structure OrdMap (κ : Type u) (α : Type v) [LinearOrder κ] where
  entries : List (κ × α)
  sorted : entries.Pairwise (fun a b => a.1 < b.1)

namespace OrdMap

variable {κ : Type u} {α : Type v} {β : Type w} [LinearOrder κ]

/-! ## The operations -/

/-- The map with no entry. -/
def empty : OrdMap κ α := ⟨[], List.Pairwise.nil⟩

instance : Inhabited (OrdMap κ α) := ⟨empty⟩

/-- The first entry under `k`, if any. -/
def find (k : κ) : List (κ × α) → Option α
  | [] => none
  | (k', a) :: rest => if k' = k then some a else find k rest

/-- The value stored under `k`. -/
def get (m : OrdMap κ α) (k : κ) : Option α := find k m.entries

/-- Put an entry in its place, over an earlier one with the same key. -/
def place (k : κ) (a : α) : List (κ × α) → List (κ × α)
  | [] => [(k, a)]
  | (k', a') :: rest =>
      if k < k' then (k, a) :: (k', a') :: rest
      else if k = k' then (k, a) :: rest
      else (k', a') :: place k a rest

/-- Drop the entry under `k`. -/
def drop (k : κ) (l : List (κ × α)) : List (κ × α) := l.filter (fun e => e.1 ≠ k)

lemma mem_place {k : κ} {a : α} {e : κ × α} :
    ∀ {l : List (κ × α)}, e ∈ place k a l → e = (k, a) ∨ e ∈ l
  | [], h => by
      simp only [place, List.mem_singleton] at h
      exact Or.inl h
  | (k', a') :: rest, h => by
      rw [place] at h
      split_ifs at h with h₁ h₂
      · exact List.mem_cons.mp h
      · rcases List.mem_cons.mp h with h | h
        · exact Or.inl h
        · exact Or.inr (List.mem_cons_of_mem _ h)
      · rcases List.mem_cons.mp h with h | h
        · exact Or.inr (h ▸ List.mem_cons_self)
        · exact (mem_place h).imp id (List.mem_cons_of_mem _)

lemma sorted_place (k : κ) (a : α) :
    ∀ {l : List (κ × α)}, l.Pairwise (fun a b => a.1 < b.1) →
      (place k a l).Pairwise (fun a b => a.1 < b.1)
  | [], _ => by simp [place]
  | (k', a') :: rest, h => by
      obtain ⟨hhead, htail⟩ := List.pairwise_cons.mp h
      rw [place]
      split_ifs with h₁ h₂
      · refine List.pairwise_cons.mpr ⟨fun e he => ?_, h⟩
        rcases List.mem_cons.mp he with rfl | he
        · exact h₁
        · exact h₁.trans (hhead e he)
      · subst h₂
        exact List.pairwise_cons.mpr ⟨hhead, htail⟩
      · refine List.pairwise_cons.mpr ⟨fun e he => ?_, sorted_place k a htail⟩
        rcases mem_place he with rfl | he
        · exact lt_of_le_of_ne (not_lt.mp h₁) (fun h => h₂ h.symm)
        · exact hhead e he

/-- Store `a` under `k`. -/
def insert (m : OrdMap κ α) (k : κ) (a : α) : OrdMap κ α :=
  ⟨place k a m.entries, sorted_place k a m.sorted⟩

/-- Remove what is stored under `k`. -/
def erase (m : OrdMap κ α) (k : κ) : OrdMap κ α :=
  ⟨drop k m.entries, m.sorted.filter _⟩

/-- The keys in ascending order. -/
def keys (m : OrdMap κ α) : List κ := m.entries.map Prod.fst

/-- The values in key order. -/
def values (m : OrdMap κ α) : List α := m.entries.map Prod.snd

/-- Is anything stored under `k`? -/
def contains (m : OrdMap κ α) (k : κ) : Bool := (m.get k).isSome

/-! ## Lookups after a write -/

@[simp] lemma get_empty (k : κ) : (empty : OrdMap κ α).get k = none := rfl

@[simp] lemma find_place_self (k : κ) (a : α) : ∀ l : List (κ × α), find k (place k a l) = some a
  | [] => by simp [place, find]
  | (k', a') :: rest => by
      rw [place]
      split_ifs with h₁ h₂
      · simp [find]
      · simp [find]
      · rw [find, if_neg (fun h => h₂ h.symm), find_place_self k a rest]

lemma find_place_ne {k k' : κ} (a : α) (h : k' ≠ k) :
    ∀ l : List (κ × α), find k' (place k a l) = find k' l
  | [] => by simp [place, find, Ne.symm h]
  | (c, b) :: rest => by
      rw [place]
      split_ifs with h₁ h₂
      · simp [find, Ne.symm h]
      · subst h₂
        simp [find, Ne.symm h]
      · simp only [find, find_place_ne a h rest]

lemma find_drop_self (k : κ) : ∀ l : List (κ × α), find k (drop k l) = none
  | [] => rfl
  | (c, b) :: rest => by
      by_cases h : c = k
      · rw [drop, List.filter_cons_of_neg (by simp [h])]
        exact find_drop_self k rest
      · rw [drop, List.filter_cons_of_pos (by simp [h]), find, if_neg h]
        exact find_drop_self k rest

lemma find_drop_ne {k k' : κ} (h : k' ≠ k) : ∀ l : List (κ × α), find k' (drop k l) = find k' l
  | [] => rfl
  | (c, b) :: rest => by
      have ih := find_drop_ne h rest
      by_cases hc : c = k
      · rw [drop, List.filter_cons_of_neg (by simp [hc]), find, if_neg (fun he => h (he.symm.trans hc))]
        exact ih
      · rw [drop, List.filter_cons_of_pos (by simp [hc]), find, find]
        simp only [drop] at ih
        rw [ih]

@[simp] lemma get_insert_self (m : OrdMap κ α) (k : κ) (a : α) : (m.insert k a).get k = some a :=
  find_place_self k a m.entries

lemma get_insert_ne (m : OrdMap κ α) {k k' : κ} (a : α) (h : k' ≠ k) :
    (m.insert k a).get k' = m.get k' :=
  find_place_ne a h m.entries

lemma get_insert (m : OrdMap κ α) (k k' : κ) (a : α) :
    (m.insert k a).get k' = if k' = k then some a else m.get k' := by
  split_ifs with h
  · rw [h, get_insert_self]
  · exact get_insert_ne m a h

@[simp] lemma get_erase_self (m : OrdMap κ α) (k : κ) : (m.erase k).get k = none :=
  find_drop_self k m.entries

lemma get_erase_ne (m : OrdMap κ α) {k k' : κ} (h : k' ≠ k) : (m.erase k).get k' = m.get k' :=
  find_drop_ne h m.entries

lemma get_erase (m : OrdMap κ α) (k k' : κ) :
    (m.erase k).get k' = if k' = k then none else m.get k' := by
  split_ifs with h
  · rw [h, get_erase_self]
  · exact get_erase_ne m h

/-- What stands after an insertion is the entry inserted, or one that stood under another key. -/
lemma get_insert_eq_some {m : OrdMap κ α} {k k' : κ} {a b : α} :
    (m.insert k a).get k' = some b ↔ (k' = k ∧ b = a) ∨ (k' ≠ k ∧ m.get k' = some b) := by
  rw [get_insert]
  split_ifs with h
  · simp [h, eq_comm]
  · simp [h]

/-- What stands after a removal stood there under another key. -/
lemma get_erase_eq_some {m : OrdMap κ α} {k k' : κ} {b : α} :
    (m.erase k).get k' = some b ↔ k' ≠ k ∧ m.get k' = some b := by
  rw [get_erase]
  split_ifs with h
  · simp [h]
  · simp [h]

/-! ## Lookups and entries -/

lemma mem_of_find {k : κ} {a : α} : ∀ {l : List (κ × α)}, find k l = some a → (k, a) ∈ l
  | (c, b) :: rest, h => by
      rw [find] at h
      split_ifs at h with hc
      · cases h
        exact hc ▸ List.mem_cons_self
      · exact List.mem_cons_of_mem _ (mem_of_find h)

lemma find_of_mem {k : κ} {a : α} :
    ∀ {l : List (κ × α)}, l.Pairwise (fun a b => a.1 < b.1) → (k, a) ∈ l → find k l = some a
  | (c, b) :: rest, hs, h => by
      obtain ⟨hhead, htail⟩ := List.pairwise_cons.mp hs
      rcases List.mem_cons.mp h with h | h
      · cases h
        simp [find]
      · rw [find, if_neg (ne_of_lt (hhead _ h))]
        exact find_of_mem htail h

/-- The entries are exactly the lookups. -/
theorem mem_entries {m : OrdMap κ α} {k : κ} {a : α} : (k, a) ∈ m.entries ↔ m.get k = some a :=
  ⟨find_of_mem m.sorted, mem_of_find⟩

lemma mem_values {m : OrdMap κ α} {a : α} : a ∈ m.values ↔ ∃ k, m.get k = some a := by
  simp only [values, List.mem_map, Prod.exists, exists_eq_right, mem_entries]

lemma keys_sorted (m : OrdMap κ α) : m.keys.Pairwise (· < ·) :=
  List.pairwise_map.mpr m.sorted

lemma keys_nodup (m : OrdMap κ α) : m.keys.Nodup :=
  m.keys_sorted.imp ne_of_lt

/-- **Two maps with the same lookups are the same map**: both lists hold the same entries in the
same strict order. -/
theorem ext_get {m₁ m₂ : OrdMap κ α} (h : ∀ k, m₁.get k = m₂.get k) : m₁ = m₂ := by
  obtain ⟨l₁, s₁⟩ := m₁
  obtain ⟨l₂, s₂⟩ := m₂
  have hmem : ∀ e : κ × α, e ∈ l₁ ↔ e ∈ l₂ := fun e => by
    have h₁ := mem_entries (m := ⟨l₁, s₁⟩) (k := e.1) (a := e.2)
    have h₂ := mem_entries (m := ⟨l₂, s₂⟩) (k := e.1) (a := e.2)
    rw [h] at h₁
    exact h₁.trans h₂.symm
  have hperm : l₁.Perm l₂ :=
    (List.perm_ext_iff_of_nodup (s₁.imp fun hlt he => absurd (he ▸ hlt) (lt_irrefl _))
      (s₂.imp fun hlt he => absurd (he ▸ hlt) (lt_irrefl _))).mpr hmem
  have : l₁ = l₂ :=
    hperm.eq_of_pairwise (fun a b _ _ hab hba => absurd hab (not_lt.mpr hba.le)) s₁ s₂
  subst this
  rfl

/-- Removing what is not there changes nothing. -/
lemma erase_eq_self {m : OrdMap κ α} {k : κ} (h : m.get k = none) : m.erase k = m := by
  refine ext_get fun k' => ?_
  rw [get_erase]
  split_ifs with hk
  · rw [hk, h]
  · rfl

/-! ## Totals -/

/-- The sum of a measure over the entries. -/
def total (f : κ → α → ℕ) (m : OrdMap κ α) : ℕ := (m.entries.map fun e => f e.1 e.2).sum

@[simp] lemma total_empty (f : κ → α → ℕ) : (empty : OrdMap κ α).total f = 0 := rfl

lemma sum_place (f : κ → α → ℕ) (k : κ) (a : α) :
    ∀ {l : List (κ × α)}, l.Pairwise (fun a b => a.1 < b.1) →
      ((place k a l).map fun e => f e.1 e.2).sum + ((find k l).map (f k)).getD 0
        = (l.map fun e => f e.1 e.2).sum + f k a
  | [], _ => by simp [place, find]
  | (c, b) :: rest, hs => by
      obtain ⟨hhead, htail⟩ := List.pairwise_cons.mp hs
      rw [place]
      split_ifs with h₁ h₂
      · have hfind : find k ((c, b) :: rest) = none := by
          cases hf : find k ((c, b) :: rest) with
          | none => rfl
          | some a' =>
              exfalso
              rcases List.mem_cons.mp (mem_of_find hf) with h | h
              · cases h
                exact lt_irrefl _ h₁
              · exact lt_asymm h₁ (hhead _ h)
        rw [hfind]
        simp only [List.map_cons, List.sum_cons, Option.map_none, Option.getD_none]
        omega
      · subst h₂
        simp only [find, if_true, List.map_cons, List.sum_cons, Option.map_some, Option.getD_some]
        omega
      · have ih := sum_place f k a htail
        simp only [find, if_neg (fun h => h₂ (Eq.symm h)), List.map_cons, List.sum_cons]
        omega

lemma sum_drop (f : κ → α → ℕ) (k : κ) :
    ∀ {l : List (κ × α)}, l.Pairwise (fun a b => a.1 < b.1) →
      ((drop k l).map fun e => f e.1 e.2).sum + ((find k l).map (f k)).getD 0
        = (l.map fun e => f e.1 e.2).sum
  | [], _ => by simp [drop, find]
  | (c, b) :: rest, hs => by
      obtain ⟨hhead, htail⟩ := List.pairwise_cons.mp hs
      by_cases h : c = k
      · subst h
        have hrest : drop c rest = rest :=
          List.filter_eq_self.mpr fun e he => by simpa using (ne_of_lt (hhead e he)).symm
        rw [drop, List.filter_cons_of_neg (by simp)]
        simp only [drop] at hrest
        rw [hrest]
        simp only [find, if_true, List.map_cons, List.sum_cons, Option.map_some, Option.getD_some]
        omega
      · have ih := sum_drop f k htail
        rw [drop, List.filter_cons_of_pos (by simp [h])]
        simp only [drop] at ih
        simp only [find, if_neg h, List.map_cons, List.sum_cons]
        omega

/-- **One insertion moves the total by the new entry, less the one it replaces.** -/
theorem total_insert (f : κ → α → ℕ) (m : OrdMap κ α) (k : κ) (a : α) :
    (m.insert k a).total f + ((m.get k).map (f k)).getD 0 = m.total f + f k a :=
  sum_place f k a m.sorted

/-- **One removal moves the total by the entry it removes.** -/
theorem total_erase (f : κ → α → ℕ) (m : OrdMap κ α) (k : κ) :
    (m.erase k).total f + ((m.get k).map (f k)).getD 0 = m.total f :=
  sum_drop f k m.sorted

/-- An insertion over nothing, or over what measures nothing. -/
lemma total_insert_of_zero {f : κ → α → ℕ} {m : OrdMap κ α} {k : κ} (a : α)
    (h : ((m.get k).map (f k)).getD 0 = 0) : (m.insert k a).total f = m.total f + f k a := by
  have := m.total_insert f k a
  omega

lemma total_erase_add {f : κ → α → ℕ} {m : OrdMap κ α} {k : κ} {a : α} (h : m.get k = some a) :
    (m.erase k).total f + f k a = m.total f := by
  have := m.total_erase f k
  rw [h] at this
  exact this

lemma le_total {f : κ → α → ℕ} {m : OrdMap κ α} {k : κ} {a : α} (h : m.get k = some a) :
    f k a ≤ m.total f :=
  total_erase_add (f := f) h ▸ Nat.le_add_left _ _

lemma total_eq_zero {f : κ → α → ℕ} {m : OrdMap κ α} :
    m.total f = 0 ↔ ∀ k a, m.get k = some a → f k a = 0 := by
  rw [total, List.sum_eq_zero_iff_forall_eq_nat]
  constructor
  · intro h k a hk
    exact h _ (List.mem_map.mpr ⟨(k, a), mem_entries.mpr hk, rfl⟩)
  · intro h n hn
    obtain ⟨⟨k, a⟩, he, rfl⟩ := List.mem_map.mp hn
    exact h k a (mem_entries.mp he)

/-- A measure that is nowhere more sums to no more. -/
lemma total_mono {f g : κ → α → ℕ} {m : OrdMap κ α}
    (h : ∀ k a, m.get k = some a → f k a ≤ g k a) : m.total f ≤ m.total g := by
  have key : ∀ {l : List (κ × α)}, (∀ e ∈ l, f e.1 e.2 ≤ g e.1 e.2) →
      (l.map fun e => f e.1 e.2).sum ≤ (l.map fun e => g e.1 e.2).sum := by
    intro l
    induction l with
    | nil => exact fun _ => le_rfl
    | cons e l ih =>
        intro hl
        simp only [List.map_cons, List.sum_cons]
        exact Nat.add_le_add (hl e List.mem_cons_self)
          (ih fun e' he' => hl e' (List.mem_cons_of_mem _ he'))
  exact key fun e he => h e.1 e.2 (mem_entries.mp he)

end OrdMap
