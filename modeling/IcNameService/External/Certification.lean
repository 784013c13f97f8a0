import Mathlib.Data.String.Basic

/-!
# The ic-certification crate

The hash tree, its witnesses and their lookups come from ic-certification, as a parameter:
`IcCertification` is what the canister and the verifier call of it.  `CertLaws` says the red-black
tree behaves as a map whose witnesses keep the digest and reveal the leaf asked for, and `Binding`
that hash trees are collision free: a tree with the published digest reveals nothing but the
leaves of the tree that was published.
-/

/-- `Vec<u8>`. -/
abbrev Bytes := List UInt8

/-- `str::as_bytes`. -/
def asBytes (s : String) : Bytes := s.toUTF8.data.toList

theorem asBytes_injective : Function.Injective asBytes := by
  intro a b h
  have hdata : a.toUTF8.data = b.toUTF8.data := Array.toList_inj.mp h
  apply String.toByteArray_inj.mp
  cases ha : a.toByteArray
  cases hb : b.toByteArray
  simp_all [String.toUTF8]

/-- What the canister and the verifier call of ic-certification. -/
structure IcCertification where
  Hash : Type
  hashDecidableEq : DecidableEq Hash
  HashTree : Type
  /-- `HashTree::digest`. -/
  digest : HashTree → Hash
  /-- `HashTree::lookup_path`, `Found` or not. -/
  lookupPath : HashTree → List Bytes → Option Bytes
  fork : HashTree → HashTree → HashTree
  labeled : Bytes → HashTree → HashTree
  leaf : Bytes → HashTree
  pruned : Hash → HashTree
  forkHash : Hash → Hash → Hash
  labeledHash : Bytes → Hash → Hash
  mergeHashTrees : HashTree → HashTree → HashTree
  /-- `RbTree<Vec<u8>, Vec<u8>>`. -/
  Tree : Type
  newTree : Tree
  treeGet : Tree → Bytes → Option Bytes
  treeInsert : Tree → Bytes → Bytes → Tree
  treeDelete : Tree → Bytes → Tree
  rootHash : Tree → Hash
  /-- `RbTree::witness`. -/
  witness : Tree → Bytes → HashTree
  /-- `Sha256::digest`. -/
  sha256 : Bytes → Bytes

namespace IcCertification

variable (C : IcCertification)

instance : DecidableEq C.Hash := C.hashDecidableEq

/-- The tree is a map, and a witness keeps the digest and reveals its leaf. -/
structure CertLaws : Prop where
  get_new : ∀ k, C.treeGet C.newTree k = none
  get_insert : ∀ t k k' v, C.treeGet (C.treeInsert t k v) k' = if k' = k then some v else C.treeGet t k'
  get_delete : ∀ t k k', C.treeGet (C.treeDelete t k) k' = if k' = k then none else C.treeGet t k'
  digest_fork : ∀ a b, C.digest (C.fork a b) = C.forkHash (C.digest a) (C.digest b)
  digest_labeled : ∀ l t, C.digest (C.labeled l t) = C.labeledHash l (C.digest t)
  digest_pruned : ∀ h, C.digest (C.pruned h) = h
  digest_witness : ∀ t k, C.digest (C.witness t k) = C.rootHash t
  digest_merge : ∀ a b, C.digest a = C.digest b → C.digest (C.mergeHashTrees a b) = C.digest a
  lookup_witness : ∀ t k v, C.treeGet t k = some v → C.lookupPath (C.witness t k) [k] = some v
  /-- Witnesses of one tree merge to one that reveals what either did. -/
  lookup_merge : ∀ t a b k v, C.digest a = C.rootHash t → C.digest b = C.rootHash t →
    (C.lookupPath a [k] = some v ∨ C.lookupPath b [k] = some v) →
    C.lookupPath (C.mergeHashTrees a b) [k] = some v
  lookup_labeled : ∀ h l t p, C.lookupPath (C.fork (C.pruned h) (C.labeled l t)) (l :: p) =
    C.lookupPath t p

/-- Inserting under a key the leaf that is already there leaves the tree as it is. -/
def KeepsStored : Prop := ∀ t k v, C.treeGet t k = some v → C.treeInsert t k v = t

/-- **Collision freedom**, in the form a verifier leans on: a hash tree that digests to the
published root, the fork of two labeled subtrees, reveals under the second label only leaves of the
published tree. -/
def Binding : Prop :=
  ∀ (l₀ l : Bytes) (h : C.Hash) (t : C.Tree) (w : C.HashTree) (k v : Bytes), l₀ ≠ l →
    C.digest w = C.forkHash (C.labeledHash l₀ h) (C.labeledHash l (C.rootHash t)) →
    C.lookupPath w [l, k] = some v → C.treeGet t k = some v

/-- Leaves inserted one after another, no key twice, stand over those that were there. -/
lemma get_foldl_insert {C : IcCertification} (hC : C.CertLaws) {α : Type} (key val : α → Bytes) :
    ∀ (l : List α) (t : C.Tree), (l.map key).Nodup → ∀ k v,
      C.treeGet (l.foldl (fun t a => C.treeInsert t (key a) (val a)) t) k = some v ↔
        (∃ a ∈ l, key a = k ∧ val a = v) ∨ (k ∉ l.map key ∧ C.treeGet t k = some v) := by
  intro l
  induction l with
  | nil => simp
  | cons a l ih =>
      intro t hnd k v
      rw [List.map_cons, List.nodup_cons] at hnd
      rw [List.foldl_cons, ih _ hnd.2, hC.get_insert]
      by_cases hk : k = key a
      · subst hk
        simp [hnd.1]
        grind
      · simp [hk, Ne.symm hk]

end IcCertification
