-- The Raft group of the lease authority: the ids of its nodes, which each node
-- derives by a hash, and the entries of its log.
import Marie.Lease.Protocol

open Std (ExtTreeMap TransOrd TransCmp LawfulEqOrd)

namespace marie.lease

/-! ## The ids of the nodes -/

structure LeaseNodeId where
  id : UInt64
deriving DecidableEq

instance : Ord LeaseNodeId := ⟨compareOn LeaseNodeId.id⟩

instance : TransOrd LeaseNodeId := inferInstanceAs (TransCmp (compareOn LeaseNodeId.id))

instance : LawfulEqOrd LeaseNodeId :=
  OrderedMap.lawful_compareOn (f := LeaseNodeId.id) (by rintro ⟨_⟩ ⟨_⟩ rfl; rfl)

def FNV_OFFSET : UInt64 := 0xcbf29ce484222325

def FNV_PRIME : UInt64 := 0x100000001b3

/-- FNV-1a, then the last mix of MurmurHash3. -/
def stable_hash (bytes : List UInt8) : UInt64 :=
  let hash := bytes.foldl (fun hash b => (hash ^^^ b.toUInt64) * FNV_PRIME) FNV_OFFSET
  let hash := hash ^^^ (hash >>> 33)
  let hash := hash * 0xff51afd7ed558ccd
  let hash := hash ^^^ (hash >>> 33)
  let hash := hash * 0xc4ceb9fe1a85ec53
  hash ^^^ (hash >>> 33)

/-- `LeaseNodeId::from(&NodeId)`. -/
def LeaseNodeId.from_node (node : NodeId) : LeaseNodeId := ⟨stable_hash node.bytes⟩

/-! ## The log -/

structure LeaderId where
  term : Nat
  node_id : LeaseNodeId
deriving DecidableEq

structure LogId where
  leader_id : LeaderId
  index : Nat
deriving DecidableEq

structure Membership where
  configs : List (List LeaseNodeId)
  nodes : ExtTreeMap LeaseNodeId NodeId
deriving DecidableEq

inductive EntryPayload
  | Blank
  | Normal (request : LeaseRequest)
  | Membership (membership : Membership)
deriving DecidableEq

structure Entry where
  log_id : LogId
  payload : EntryPayload
deriving DecidableEq

end marie.lease
