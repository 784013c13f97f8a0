import IcNameService.Canister.Store

/-!
# Certified resolution (certify.rs)

The certified tree mirrors the records: key the name, leaf the canonical bytes.  The certified data
is the fork of a static HTTP subtree and the names tree; a names witness prunes the first, an HTTP
witness the second.  Witnesses are kept as trees: their CBOR form is not modelled.
-/

namespace Certify

def namesLabel : Bytes := asBytes "names"

/-- The CEL expression that tells the gateway to skip response certification. -/
def skipCel : String :=
  "default_certification(ValidationArgs\x7bno_certification:Empty\x7b\x7d\x7d)"

/-- Alias chains longer than this fail to resolve. -/
def maxAliasDepth : ℕ := 8

variable (E : Env)

def skipTree : E.cert.HashTree :=
  E.cert.labeled (asBytes "http_expr") (E.cert.labeled (asBytes "<*>")
    (E.cert.labeled (E.cert.sha256 (asBytes skipCel)) (E.cert.leaf [])))

def skipDigest : E.cert.Hash := E.cert.digest (skipTree E)

def namesHash (t : E.cert.Tree) : E.cert.Hash := E.cert.labeledHash namesLabel (E.cert.rootHash t)

/-- The certified data: fork of the static HTTP subtree and the names tree. -/
def rootHash (t : E.cert.Tree) : E.cert.Hash := E.cert.forkHash (skipDigest E) (namesHash E t)

end Certify

namespace State

variable {E : Env} (s : State E)

/-- Push the current root into certified data. -/
def publish : State E := { s with certifiedData := Certify.rootHash E s.tree }

/-- `certify::set`. -/
def certifySet (name : String) (canonical : Bytes) : State E :=
  publish { s with tree := E.cert.treeInsert s.tree (asBytes name) canonical }

/-- `certify::remove`. -/
def certifyRemove (name : String) : State E :=
  publish { s with tree := E.cert.treeDelete s.tree (asBytes name) }

/-- Drop the tree and refill it from stable memory (`certify::rebuild`, `for_each_canonical`). -/
def certifyRebuild : State E :=
  publish { s with
    tree := s.records.entries.foldl
      (fun t e => E.cert.treeInsert t (asBytes e.1) (e.2.canonical E)) E.cert.newTree }

/-- The witnesses of every name, merged left to right. -/
def mergedWitness (t : E.cert.Tree) : Option E.cert.HashTree → List String → Option E.cert.HashTree
  | merged, [] => merged
  | none, n :: rest => mergedWitness t (some (E.cert.witness t (asBytes n))) rest
  | some m, n :: rest =>
      mergedWitness t (some (E.cert.mergeHashTrees m (E.cert.witness t (asBytes n)))) rest

/-- A witness covering every name in `names`, wrapped under the label.  An empty list yields a
fully pruned tree, never the whole map. -/
def witness (names : List String) : E.cert.HashTree :=
  let tree := (mergedWitness s.tree none names).getD (E.cert.pruned (E.cert.rootHash s.tree))
  E.cert.fork (E.cert.pruned (Certify.skipDigest E)) (E.cert.labeled Certify.namesLabel tree)

/-- The witness of `http_headers`: the whole HTTP subtree, the names tree pruned to its hash. -/
def httpWitness : E.cert.HashTree :=
  E.cert.fork (Certify.skipTree E) (E.cert.pruned (Certify.namesHash E s.tree))

end State
