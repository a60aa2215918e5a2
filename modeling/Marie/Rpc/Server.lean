-- The nodes on their network: what each posts, what the tasks of the swarms take
-- over, and the calls that the servers answer.
import Mathlib.Logic.Function.Basic
import Marie.Rpc.Protocol

namespace marie.rpc

open post

variable {PeerId : Type}

/-! ## The server -/

/-- `RpcServer::execute_call`. `ret` is what the executor gives, if there is one. -/
def execute_call (executors : List String) (call : RpcCall) (ret : Value) :
    Except RpcError Value :=
  if call.name ∈ executors then .ok ret else .error (.NoExecutorFound call.name)

/-- `RpcServer::handle_call`, on the node of a peer. -/
def handle_call (lib : Libraries PeerId) (rpc : Message RpcMessage) (peer : PeerId)
    (call : RpcCall) (callee : NodeId) (ret : Value) (self : Node) : Node :=
  let result := execute_call self.executors call ret
  (self.send lib peer rpc (.Reply ⟨call.id, result⟩) callee).2

/-! ## The network -/

/-- The messages in flight, each with the node that it is from, the one it is to, and its bytes. -/
structure Network (PeerId : Type) where
  nodes : PeerId → Node
  in_flight : List (PeerId × PeerId × Bytes)

inductive NodeEvent (PeerId : Type) where
  /-- A node opens a stream of a channel. -/
  | stream_messages (peer : PeerId) (channel : String)
  | register (peer : PeerId) (name : String)
  /-- `PostOffice::send` on a node. -/
  | send {M : Type} (peer : PeerId) (message : Message M) (msg : M) (destination : NodeId)
  /-- The task of the swarm takes a command. -/
  | command (peer : PeerId)
  /-- The transport hands over a message in flight. -/
  | deliver (i : Nat)
  /-- The server of a node takes an envelope that a stream gave, and answers the call in it. -/
  | handle_call (peer : PeerId) (stream : Nat) (i : Nat) (ret : Value)

namespace Network

def new : Network PeerId := ⟨fun _ => Node.new, []⟩

variable [DecidableEq PeerId]

def at_node (peer : PeerId) (f : Node → Node) (self : Network PeerId) : Network PeerId :=
  { self with nodes := Function.update self.nodes peer (f (self.nodes peer)) }

/-- `NetworkCommand::Send` in the loop of the swarm. A destination that is no peer id panics. -/
def command (lib : Libraries PeerId) (peer : PeerId) (self : Network PeerId) : Network PeerId :=
  match (self.nodes peer).commands with
  | [] => self
  | (data, destination) :: rest =>
    match lib.from_bytes destination.bytes with
    | some dest =>
      { self.at_node peer fun node => { node with commands := rest } with
        in_flight := self.in_flight ++ [(peer, dest, data)] }
    | none => self.at_node peer fun node => { node with commands := [], panicked := true }

/-- The swarm of the node that a message is to reports it, and each stream parses it. -/
def deliver (lib : Libraries PeerId) (i : Nat) (self : Network PeerId) : Network PeerId :=
  match self.in_flight[i]? with
  | none => self
  | some (_, dest, data) =>
    let self := { self with in_flight := self.in_flight.eraseIdx i }
    match lib.from_slice data with
    | .ok env => if (self.nodes dest).panicked then self else self.at_node dest (Node.give env)
    | .error _ => self

/-- The envelope that the server of a node takes, with the call in it. -/
def call_at (rpc : Message RpcMessage) (peer : PeerId) (stream i : Nat) (self : Network PeerId) :
    Option (RpcCall × NodeId) := do
  let stream ← (self.nodes peer).streams[stream]?
  let env ← stream.received[i]?
  match MessageEnveloppe.deserialize rpc env with
  | .ok ⟨_, _, source, .Call call⟩ =>
    if stream.channel = rpc.CHANNEL then some (call, source) else none
  | _ => none

def step (lib : Libraries PeerId) (rpc : Message RpcMessage) (self : Network PeerId) :
    NodeEvent PeerId → Network PeerId
  | .stream_messages peer channel =>
    self.at_node peer fun node => { node with streams := node.streams ++ [⟨channel, []⟩] }
  | .register peer name =>
    self.at_node peer fun node => { node with executors := name :: node.executors }
  | .send peer message msg destination =>
    self.at_node peer fun node => (node.send lib peer message msg destination).2
  | .command peer => self.command lib peer
  | .deliver i => self.deliver lib i
  | .handle_call peer stream i ret =>
    match self.call_at rpc peer stream i with
    | some (call, callee) => self.at_node peer (handle_call lib rpc peer call callee ret)
    | none => self

def run (lib : Libraries PeerId) (rpc : Message RpcMessage) (events : List (NodeEvent PeerId)) :
    Network PeerId := events.foldl (step lib rpc) new

end Network

end marie.rpc
