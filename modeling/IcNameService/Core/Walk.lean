import Mathlib.Data.List.Nodup
import Mathlib.Logic.Relation
import Mathlib.Tactic.Common

/-!
# Chains of pointers

A store of records, each of which points on to another key or ends at a value.  `Walk` is the chain of
records from a key to where it ends.

* `Walk.functional` — a key has one chain.
* `Walk.suffix` — the rest of a chain is the chain of the key it goes on from.
* `Walk.nodup` — a chain that ends visits no key twice.
* `Walk.no_cycle` — a key whose pointers lead into a cycle has no chain.
* `Walk.map`, `Walk.of_map` — a store that keeps less of each record has the same chains.
-/

universe u v w

variable {κ : Type u} {ρ : Type v} {π : Type w} {get : κ → Option ρ} {point : ρ → κ ⊕ π}

/-- The chain of records from a key to the value it ends at. -/
inductive Walk (get : κ → Option ρ) (point : ρ → κ ⊕ π) : κ → List ρ → π → Prop
  | ends {k : κ} {r : ρ} {p : π} : get k = some r → point r = .inr p → Walk get point k [r] p
  | on {k k' : κ} {r : ρ} {rest : List ρ} {p : π} :
      get k = some r → point r = .inl k' → Walk get point k' rest p →
      Walk get point k (r :: rest) p

namespace Walk

variable {k : κ} {chain chain' : List ρ} {p p' : π}

/-- A key's record points to one place. -/
lemma next_functional {r r' : ρ} {n n' : κ ⊕ π} (hget : get k = some r) (hget' : get k = some r')
    (hpoint : point r = n) (hpoint' : point r' = n') : r = r' ∧ n = n' := by
  obtain rfl := Option.some.inj (hget.symm.trans hget')
  exact ⟨rfl, hpoint.symm.trans hpoint'⟩

/-- A chain starts with the key's record. -/
lemma head_get (h : Walk get point k chain p) : ∃ r rest, chain = r :: rest ∧ get k = some r := by
  cases h with
  | ends hget => exact ⟨_, [], rfl, hget⟩
  | on hget => exact ⟨_, _, rfl, hget⟩

/-- **A key has one chain**, and it ends at one value. -/
theorem functional (h : Walk get point k chain p) (h' : Walk get point k chain' p') :
    chain = chain' ∧ p = p' := by
  induction h generalizing chain' with
  | ends hget hpoint =>
      cases h' with
      | ends hget' hpoint' =>
          obtain ⟨rfl, hnext⟩ := next_functional hget hget' hpoint hpoint'
          exact ⟨rfl, Sum.inr.inj hnext⟩
      | on hget' hpoint' =>
          obtain ⟨-, hnext⟩ := next_functional hget hget' hpoint hpoint'
          cases hnext
  | on hget hpoint _ ih =>
      cases h' with
      | ends hget' hpoint' =>
          obtain ⟨-, hnext⟩ := next_functional hget hget' hpoint hpoint'
          cases hnext
      | on hget' hpoint' hrest =>
          obtain ⟨rfl, hnext⟩ := next_functional hget hget' hpoint hpoint'
          cases hnext
          obtain ⟨rfl, rfl⟩ := ih hrest
          exact ⟨rfl, rfl⟩

/-- Every record of a chain is stored, and the chain goes on from it as its own key's does. -/
lemma suffix (h : Walk get point k chain p) {r : ρ} {before after : List ρ}
    (hchain : chain = before ++ r :: after) :
    ∃ k', get k' = some r ∧ Walk get point k' (r :: after) p := by
  induction h generalizing before with
  | @ends k r' p hget hpoint =>
      cases before with
      | nil =>
          cases hchain
          exact ⟨k, hget, .ends hget hpoint⟩
      | cons _ before => simp at hchain
  | @on k _ r' rest p hget hpoint hrest ih =>
      cases before with
      | nil =>
          cases hchain
          exact ⟨k, hget, .on hget hpoint hrest⟩
      | cons _ before =>
          simp only [List.cons_append, List.cons.injEq] at hchain
          exact ih hchain.2

lemma stored (h : Walk get point k chain p) {r : ρ} (hr : r ∈ chain) : ∃ k', get k' = some r := by
  obtain ⟨before, after, hchain⟩ := List.append_of_mem hr
  obtain ⟨k', hget, -⟩ := h.suffix hchain
  exact ⟨k', hget⟩

/-- **A chain that ends visits no key twice**: else it would go on forever. -/
theorem nodup {key : ρ → κ} (hkey : ∀ k r, get k = some r → key r = k)
    (h : Walk get point k chain p) : (chain.map key).Nodup := by
  induction h with
  | ends => simp
  | @on k k' r rest p hget hpoint hrest ih =>
      rw [List.map_cons, List.nodup_cons]
      refine ⟨fun hmem => ?_, ih⟩
      obtain ⟨r', hr', hsame⟩ := List.mem_map.mp hmem
      obtain ⟨before, after, hafter⟩ := List.append_of_mem hr'
      obtain ⟨k₁, hget₁, hwalk⟩ := hrest.suffix hafter
      have hk : k₁ = k := by rw [← hkey k₁ r' hget₁, hsame, hkey k r hget]
      subst hk
      obtain ⟨hchain, -⟩ := functional (.on hget hpoint hrest) hwalk
      have hlen := congrArg List.length hchain
      rw [hafter] at hlen
      simp at hlen
      omega

/-! ## Pointers without an end -/

/-- One pointer: the record under `k` points on to `k'`. -/
def Hop (get : κ → Option ρ) (point : ρ → κ ⊕ π) (k k' : κ) : Prop :=
  ∃ r, get k = some r ∧ point r = .inl k'

/-- A chain goes on through the key its first record points to. -/
lemma of_hop {k' : κ} (hop : Hop get point k k') (h : Walk get point k chain p) :
    ∃ rest, Walk get point k' rest p ∧ rest.length < chain.length := by
  obtain ⟨r, hget, hpoint⟩ := hop
  cases h with
  | ends hget' hpoint' =>
      obtain ⟨-, hnext⟩ := next_functional hget hget' hpoint hpoint'
      cases hnext
  | on hget' hpoint' hrest =>
      obtain ⟨-, hnext⟩ := next_functional hget hget' hpoint hpoint'
      cases hnext
      exact ⟨_, hrest, by simp⟩

/-- However many pointers are followed, what is left is a chain. -/
lemma of_hops {k' : κ} (hops : Relation.ReflTransGen (Hop get point) k k')
    (h : Walk get point k chain p) : ∃ rest, Walk get point k' rest p := by
  induction hops with
  | refl => exact ⟨chain, h⟩
  | tail _ hop ih =>
      obtain ⟨rest, hrest⟩ := ih
      obtain ⟨rest', hrest', -⟩ := hrest.of_hop hop
      exact ⟨rest', hrest'⟩

lemma shorter {k' : κ} (hops : Relation.TransGen (Hop get point) k k')
    (h : Walk get point k chain p) :
    ∃ rest, Walk get point k' rest p ∧ rest.length < chain.length := by
  induction hops with
  | single hop => exact h.of_hop hop
  | tail _ hop ih =>
      obtain ⟨rest, hrest, hlen⟩ := ih
      obtain ⟨rest', hrest', hlen'⟩ := hrest.of_hop hop
      exact ⟨rest', hrest', Nat.lt_trans hlen' hlen⟩

/-- **Pointers that lead into a cycle end nowhere**: once round the cycle the same key would have a
shorter chain. -/
theorem no_cycle {k' : κ} (hops : Relation.ReflTransGen (Hop get point) k k')
    (hcycle : Relation.TransGen (Hop get point) k' k') : ¬ Walk get point k chain p := by
  intro h
  obtain ⟨rest, hrest⟩ := h.of_hops hops
  obtain ⟨round, hround, hlen⟩ := hrest.shorter hcycle
  obtain ⟨rfl, -⟩ := hrest.functional hround
  exact Nat.lt_irrefl _ hlen

/-! ## Stores that keep less of a record -/

section

variable {ρ' : Type*} {get' : κ → Option ρ'} {point' : ρ' → κ ⊕ π} {f : ρ → ρ'} {P : κ → Prop}

/-- What a key has, and every pointer keeps, the key of every record of the chain has. -/
lemma stored_closed (hclosed : ∀ k r k', P k → get k = some r → point r = .inl k' → P k')
    (h : Walk get point k chain p) (hk : P k) : ∀ r ∈ chain, ∃ k', P k' ∧ get k' = some r := by
  induction h with
  | @ends k r p hr _ => simpa using ⟨k, hk, hr⟩
  | @on k k' r rest p hr hnext _ ih =>
      intro r' hr'
      rcases List.mem_cons.mp hr' with rfl | hr'
      · exact ⟨k, hk, hr⟩
      · exact ih (hclosed k r k' hk hr hnext) r' hr'

/-- What is kept of each record points where the record does, for the keys a chain can visit. -/
lemma map (hclosed : ∀ k r k', P k → get k = some r → point r = .inl k' → P k')
    (hget : ∀ k, P k → get' k = (get k).map f) (hpoint : ∀ r, point' (f r) = point r)
    (h : Walk get point k chain p) (hk : P k) : Walk get' point' k (chain.map f) p := by
  induction h with
  | @ends k r p hr hend =>
      refine .ends ?_ ((hpoint r).trans hend)
      rw [hget k hk, hr, Option.map_some]
  | @on k k' r rest p hr hnext _ ih =>
      refine .on ?_ ((hpoint r).trans hnext) (ih (hclosed k r k' hk hr hnext))
      rw [hget k hk, hr, Option.map_some]

lemma of_map {chain' : List ρ'}
    (hclosed : ∀ k r k', P k → get k = some r → point r = .inl k' → P k')
    (hget : ∀ k, P k → get' k = (get k).map f) (hpoint : ∀ r, point' (f r) = point r)
    (h : Walk get' point' k chain' p) (hk : P k) :
    ∃ chain, chain' = chain.map f ∧ Walk get point k chain p := by
  induction h with
  | @ends k r' p hr hend =>
      rw [hget k hk] at hr
      obtain ⟨r, hstored, rfl⟩ := Option.map_eq_some_iff.mp hr
      exact ⟨[r], rfl, .ends hstored ((hpoint r).symm.trans hend)⟩
  | @on k k' r' rest p hr hnext _ ih =>
      rw [hget k hk] at hr
      obtain ⟨r, hstored, rfl⟩ := Option.map_eq_some_iff.mp hr
      have hnext := (hpoint r).symm.trans hnext
      obtain ⟨chain, rfl, hwalk⟩ := ih (hclosed k r k' hk hstored hnext)
      exact ⟨r :: chain, rfl, .on hstored hnext hwalk⟩

end

end Walk
