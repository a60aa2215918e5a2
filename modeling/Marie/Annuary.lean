-- The annuary of a node: the peers it knows of, and what each of them offers.
import Marie.Node

namespace marie.annuary

/-- The roles that a node offers, one bit each. -/
structure Capabilities where
  bits : UInt8
deriving DecidableEq

def Capabilities.default : Capabilities := ⟨0⟩

def Capabilities.includes (self capabilities : Capabilities) : Bool :=
  self.bits &&& capabilities.bits = capabilities.bits

def Capabilities.set_lease (self : Capabilities) : Capabilities := ⟨self.bits ||| 0b10000⟩

structure PeerTracker where
  capabilities : Capabilities
deriving DecidableEq

/-- The peers are in the order in which the map is walked. -/
structure Annuary where
  capabilities : Capabilities
  local_node_id : NodeId
  peers : List (NodeId × PeerTracker)

/-- The known peers with the capabilities, and the local node if it has them too. -/
def Annuary.nodes_with (annuary : Annuary) (capabilities : Capabilities) : List NodeId :=
  let nodes := (annuary.peers.filter fun x => x.2.capabilities.includes capabilities).map Prod.fst
  if annuary.capabilities.includes capabilities then nodes ++ [annuary.local_node_id] else nodes

end marie.annuary
