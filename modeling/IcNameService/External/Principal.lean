import Mathlib.Order.Lattice
import Mathlib.Data.List.Lex
import Mathlib.Order.Nat

/-!
# Principals

A principal is its raw bytes; the stable maps order them by those bytes.
-/

/-- `candid::Principal`, by its bytes. -/
structure Principal where
  bytes : List UInt8
  deriving DecidableEq, Repr

namespace Principal

lemma toNat_bytes_injective :
    Function.Injective fun p : Principal => p.bytes.map UInt8.toNat := by
  rintro ⟨a⟩ ⟨b⟩ h
  have := List.map_injective_iff.mpr (fun _ _ => UInt8.toNat_inj.mp) h
  rw [Principal.mk.injEq]
  exact this

instance : LinearOrder Principal :=
  LinearOrder.lift' (fun p => p.bytes.map UInt8.toNat) toNat_bytes_injective

/-- `Principal::anonymous()`. -/
def anonymous : Principal := ⟨[4]⟩

end Principal
