import IcNameService.Canister.Endpoints

/-!
# Resolving a name (lib.rs, resolve)

`follow` walks the aliases from a name to an address.  The source loops while the chain is shorter
than `MAX_ALIAS_DEPTH`; the model's fuel is what is left of that depth, so running out of it is the
source's own error and the function is total.
-/

/-- The answer of `resolve`. -/
structure Resolved (E : Env) where
  /-- The name asked for. -/
  name : String
  /-- Where it ends up after following aliases. -/
  canister : Principal
  /-- Every record visited, requested name first, address last. -/
  chain : List Record
  certificate : Option Bytes
  witness : E.cert.HashTree

namespace State

variable {E : Env} (s : State E)

/-- Has the record lapsed and become free? Only a flat record can. -/
def lapsed (cfg : Config) (r : Record) (now : ℕ) : Bool :=
  match r.flat with
  | none => false
  | some h => (E.auction.settle cfg.params h now).2.1 = .free

/-- The loop of `follow`: `fuel` more records may be visited. -/
def followFrom (now : ℕ) : ℕ → List Record → String → Except String (Principal × List Record)
  | 0, _, _ => .error s!"alias chain deeper than {Certify.maxAliasDepth}"
  | fuel + 1, chain, current =>
      if chain.any (fun r => r.name = current) then .error s!"alias loop at '{current}'"
      else
        match s.getRecord current with
        | none => .error s!"no record for '{current}'"
        | some r =>
            if lapsed (E := E) s.config r now then
              .error s!"'{current}' has lapsed and is up for auction"
            else
              match r.target with
              | .address p => .ok (p, chain ++ [r])
              | .alias next => followFrom now fuel (chain ++ [r]) next

/-- Follow aliases from `name` to an address. Returns the canister and every record visited. -/
def follow (name : String) (now : ℕ) : Except String (Principal × List Record) := do
  if Names.isScoped name then do
    let _ ← Names.split name
    .ok ()
  else Names.checkFlat name
  s.followFrom now Certify.maxAliasDepth [] name

/-- `resolve_inner`: the chain, the replica's certificate and a witness for every record. -/
def resolve (name : String) (now : ℕ) (dataCertificate : Option Bytes) :
    Except String (Resolved E) := do
  let (canister, chain) ← s.follow name now
  .ok ⟨name, canister, chain, dataCertificate, s.witness (chain.map Record.name)⟩

end State
