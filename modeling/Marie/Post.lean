-- The post office of a node. A message is put in an envelope, and the router
-- takes the envelope to the streams of the node itself or gives its bytes to the
-- network.
import Marie.Node

namespace marie

/-- `NodeId::default`. -/
def NodeId.default : NodeId := ⟨[]⟩

namespace post

abbrev Bytes := List UInt8

inductive PostError where
  | SerializerError (err : String)
  | DeserializeError (err : String)
deriving DecidableEq

structure MessageEnveloppe (T : Type) where
  channel : String
  destination : NodeId
  source : NodeId
  payload : T
deriving DecidableEq

/-- A type of messages, with its JSON. -/
structure Message (M : Type) where
  CHANNEL : String
  to_vec : M → Except String Bytes
  from_slice : Bytes → Except String M

variable {M PeerId : Type}

def MessageEnveloppe.serialize (message : Message M) (self : MessageEnveloppe M) :
    Except PostError (MessageEnveloppe Bytes) :=
  match message.to_vec self.payload with
  | .ok payload => .ok ⟨self.channel, self.destination, self.source, payload⟩
  | .error err => .error (.SerializerError err)

def MessageEnveloppe.deserialize (message : Message M) (self : MessageEnveloppe Bytes) :
    Except PostError (MessageEnveloppe M) :=
  match message.from_slice self.payload with
  | .ok payload => .ok ⟨self.channel, self.destination, self.source, payload⟩
  | .error err => .error (.DeserializeError err)

/-- What `PostOffice::send` gives its router. -/
def enveloppe (message : Message M) (msg : M) (destination : NodeId) :
    Except PostError (MessageEnveloppe Bytes) :=
  MessageEnveloppe.serialize message ⟨message.CHANNEL, destination, .default, msg⟩

/-- What comes from libraries: the bytes of a peer id, and the JSON of an envelope. -/
structure Libraries (PeerId : Type) where
  to_bytes : PeerId → Bytes
  from_bytes : Bytes → Option PeerId
  to_vec : MessageEnveloppe Bytes → Except String Bytes
  from_slice : Bytes → Except String (MessageEnveloppe Bytes)

/-- A peer id and an envelope are read back from what is written of them, and no bytes are no
peer id. -/
structure Libraries.Lawful (lib : Libraries PeerId) : Prop where
  from_to_bytes : ∀ peer, lib.from_bytes (lib.to_bytes peer) = some peer
  from_no_bytes : lib.from_bytes [] = none
  from_to_vec : ∀ env data, lib.to_vec env = .ok data → lib.from_slice data = .ok env

def Libraries.node_id (lib : Libraries PeerId) (peer : PeerId) : NodeId := ⟨lib.to_bytes peer⟩

/-! ## A node -/

/-- A stream of `stream_messages`, with the envelopes that it gave. -/
structure Stream where
  channel : String
  received : List (MessageEnveloppe Bytes)
deriving DecidableEq

def Stream.give (env : MessageEnveloppe Bytes) (self : Stream) : Stream :=
  if env.channel = self.channel then { self with received := self.received ++ [env] } else self

/-- `commands` is the queue of the task of the swarm, `panicked` says that the task is gone. -/
structure Node where
  streams : List Stream
  commands : List (Bytes × NodeId)
  executors : List String
  panicked : Bool

namespace Node

def new : Node := ⟨[], [], [], false⟩

/-- A local broadcast, or an event of the swarm: each stream takes what is of its channel. -/
def give (env : MessageEnveloppe Bytes) (self : Node) : Node :=
  { self with streams := self.streams.map (Stream.give env) }

/-- `Network::send_message`. -/
def send_message (data : Bytes) (destination : NodeId) (self : Node) : Node :=
  if self.panicked then self else { self with commands := self.commands ++ [(data, destination)] }

/-- `NetworkPostMessageRouter::send` on the node of a peer. -/
def route (lib : Libraries PeerId) (peer : PeerId) (env : MessageEnveloppe Bytes) (self : Node) :
    Except PostError Unit × Node :=
  if env.destination = lib.node_id peer then (.ok (), self.give env)
  else match lib.to_vec env with
    | .ok data => (.ok (), self.send_message data env.destination)
    | .error err => (.error (.SerializerError err), self)

/-- `PostOffice::send`. -/
def send (lib : Libraries PeerId) (peer : PeerId) (message : Message M) (msg : M)
    (destination : NodeId) (self : Node) : Except PostError Unit × Node :=
  match enveloppe message msg destination with
  | .ok env => self.route lib peer env
  | .error err => (.error err, self)

/-- The envelopes that the streams of the node gave. -/
def delivered (self : Node) : List (MessageEnveloppe Bytes) :=
  self.streams.flatMap Stream.received

end Node

end post

end marie
