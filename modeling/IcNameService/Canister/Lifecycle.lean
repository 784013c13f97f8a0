import IcNameService.Canister.Commit

/-!
# Init and upgrades (lib.rs, lifecycle)

`init` starts from empty stable memory.  `postUpgrade` takes the stable memory an older version left
behind: it migrates what that version's schema needs, rebuilds the certified tree and resets the
heap.  A config of schema 2 does not decode as a `Config`, so such a memory holds it apart.
-/

/-- `store::SCHEMA`. -/
def schemaCurrent : ℕ := 4

/-- The config as schema 2 wrote it: no market flag, no handover window. -/
structure ConfigV2 where
  ledger : Principal
  rateBps : ℕ
  minPrice : ℕ
  graceNs : ℕ
  fee : ℕ
  deriving DecidableEq, Repr

/-- `migrate_config_from_v2`: closed, like a fresh deploy. -/
def ConfigV2.migrate (c : ConfigV2) : Config :=
  { Config.default with
    ledger := c.ledger
    rateBps := c.rateBps
    minPrice := c.minPrice
    graceNs := c.graceNs
    fee := c.fee
    flatNamesOpen := false }

namespace State

variable {E : Env}

/-- The state before anything was ever written, the tree empty. -/
def blank : State E where
  handles := OrdMap.empty
  deployers := OrdMap.empty
  records := OrdMap.empty
  tags := OrdMap.empty
  schema := none
  domains := none
  harberger := none
  taxCollected := 0
  taxWithdrawn := 0
  unreconciled := 0
  unreconciledLast := ""
  auctionConfig := none
  proceeds := 0
  credits := OrdMap.empty
  auctions := OrdMap.empty
  tree := E.cert.newTree
  certifiedData := Certify.rootHash E E.cert.newTree
  inFlight := 0
  notes := []

/-- `init`. -/
def init : State E := certifyRebuild { blank with schema := some schemaCurrent }

variable (s : State E)

/-- The layout the stable memory was last written with. Absent means 1: M0 wrote no marker. -/
def schemaVersion : ℕ := s.schema.getD 1

/-- A record without the text records only `announce` may write. -/
def dropMarker (r : Record) : Record :=
  { r with text := r.text.filter fun e => !Names.announceKeys.contains e.1 }

/-- `migrate_announce_marker_from_v3`: drop both announce keys from every record that has one. -/
def migrateAnnounceMarker : State E :=
  let changed := s.records.values.filter fun r =>
    r.text.any fun e => Names.announceKeys.contains e.1
  (changed.map dropMarker).foldl putRecord s

/-- `migrate_config_from_v2`: a no-op when nothing is stored or it already decodes. -/
def migrateConfigFromV2 : Option ConfigV2 → State E
  | none => s
  | some c => { s with harberger := some c.migrate }

def setSchemaVersion (v : ℕ) : State E := { s with schema := some v }

/-- What an upgrade finds: the heap is fresh. -/
def resetHeap : State E := { s with inFlight := 0 }

/-- `post_upgrade`, over the stable memory that is left and a config of schema 2 if that is what it
holds. A newer schema than this code knows traps. -/
def postUpgrade (configV2 : Option ConfigV2) : Except String (State E) :=
  let v := s.schemaVersion
  if v > schemaCurrent then
    .error s!"stable memory schema {v} is newer than this code's {schemaCurrent}"
  else
    let s := s.resetHeap
    let s := if v < 4 then s.migrateAnnounceMarker else s
    let s := s.certifyRebuild
    let s := if v < 2 then s.rebuildIndex else s
    let s := if v < 3 then s.migrateConfigFromV2 configV2 else s
    .ok (s.setSchemaVersion schemaCurrent)

/-- An upgrade from the current schema rebuilds the tree and resets the heap, and that is all. -/
lemma postUpgrade_current {s : State E} (h : s.schema = some schemaCurrent) :
    s.postUpgrade none = .ok s.resetHeap.certifyRebuild := by
  have hv : s.schemaVersion = 4 := by simp [schemaVersion, h, schemaCurrent]
  simp only [postUpgrade, hv, schemaCurrent, gt_iff_lt, lt_self_iff_false, if_false,
    show ¬ (4 < 2) by decide, show ¬ (4 < 3) by decide]
  cases s
  simp only at h
  subst h
  rfl

/-- Every version this code knows upgrades to the current schema. -/
lemma postUpgrade_schema {s s' : State E} {v2 : Option ConfigV2}
    (h : s.postUpgrade v2 = .ok s') : s'.schema = some schemaCurrent := by
  simp only [postUpgrade] at h
  split at h
  · cases h
  · cases h
    rfl

end State

/-- Stable memory as an upgrade finds it: every record under its own name, and a config of schema 2
only where the schema is that old. -/
structure StableMemory (E : Env) where
  state : State E
  configV2 : Option ConfigV2
  named : ∀ name r, state.records.get name = some r → r.name = name
  configV2_schema : configV2.isSome → state.schemaVersion < 3
