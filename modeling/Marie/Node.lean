-- The identity of a node, and the maps that are keyed by an identifier.
import Marie.Basic
import Marie.Lib.OrderedMap

open Std

namespace marie

/-- The raw bytes of a peer id. Any bytes deserialize. -/
structure NodeId where
  bytes : List UInt8
deriving DecidableEq

/-! ## The order of identifiers -/

instance : Ord SessionId := ⟨compareOn SessionId.id⟩

instance : TransOrd SessionId := inferInstanceAs (TransCmp (compareOn SessionId.id))

instance : LawfulEqOrd SessionId :=
  OrderedMap.lawful_compareOn (f := SessionId.id) (by rintro ⟨_⟩ ⟨_⟩ rfl; rfl)

end marie
