-- The bus of the events: a router with a channel for each topic, a counter of the
-- subscriptions to each topic, and the subscriptions themselves. A channel keeps the last
-- envelopes, and each subscription reads the channels at its own pace.
import Marie.Events.Envelope
import Marie.Lib.Broadcast
import Marie.Post

open Std (HashMap)
open Broadcast

namespace marie.events

open post (Bytes)

variable {ε V PeerId : Type}

/-- `LocalEventRouter::CHANNEL_CAPACITY`. -/
def CHANNEL_CAPACITY : Nat := 256

def NETWORK_EVENTS_CAPACITY : Nat := 1024

inductive NetworkEvent (PeerId : Type) where
  | ReceivedMessage (message : Bytes) (source : NodeId)
  | BootstrapDiscovered (peer_id : PeerId)
  | NodeDisconnected (node_id : NodeId)
  | NodeConnected (node_id : NodeId)
  | EventReceived (id topic : String) (data : Bytes) (source : PeerId)

/-! ## The router -/

/-- A `LocalEventRouter`, whose channels are numbered as they are made. `gossip` is there for a
`NetworkEventRouter`: the topics that its network is subscribed to. -/
structure EventRouter where
  topics : HashMap String Nat
  channels : Nat
  gossip : Option (List String)

namespace EventRouter

/-- `LocalEventRouter::channel`: the channel of the topic, made if there is none. -/
def channel (topic : String) (self : EventRouter) : Nat × EventRouter :=
  match self.topics[topic]? with
  | some channel => (channel, self)
  | none => (self.channels,
      { self with topics := self.topics.insert topic self.channels, channels := self.channels + 1 })

def subscribe (topic : String) (self : EventRouter) : EventRouter :=
  let self := (self.channel topic).2
  { self with gossip := self.gossip.map (List.insert topic) }

def unsubscribe (topic : String) (self : EventRouter) : EventRouter :=
  { self with
    topics := self.topics.erase topic
    gossip := self.gossip.map (List.filter fun t => t ≠ topic) }

/-- The router has a channel for the topic, and its network is subscribed to it. -/
def Subscribed (topic : String) (self : EventRouter) : Prop :=
  self.topics[topic]?.isSome ∧ ∀ gossip, self.gossip = some gossip → topic ∈ gossip

end EventRouter

/-! ## The bus -/

/-- An `EventSubscription` to the events of a type. It is alive until it is dropped. Its stream has
two halves, on the channel of the topic and on the events of the network; a `LocalEventRouter` makes
the first only, and nothing comes of the second. -/
structure EventSubscription (ε V : Type) where
  event : ε
  topic : String
  channel : Nat
  alive : Bool
  local_stream : Reader (EventEnvelope V)
  network_stream : Reader (EventEnvelope V)

/-- The bus, with what the channels of its router hold, by their numbers, and what the channel of
the network does. -/
structure EventBus (ε V PeerId : Type) where
  router : EventRouter
  counter : HashMap String Nat
  channels : Nat → Channel (EventEnvelope Bytes) CHANNEL_CAPACITY
  network : Channel (NetworkEvent PeerId) NETWORK_EVENTS_CAPACITY
  subscriptions : List (EventSubscription ε V)

/-- What a stream of the bus gives for an envelope of its router. `from_slice` reads the payload as
an envelope of an event of the type. -/
def EventSubscription.takes (from_slice : ε → Bytes → Option (EventEnvelope V))
    (self : EventSubscription ε V) (env : EventEnvelope Bytes) : Option (EventEnvelope V) :=
  if env.topic = self.topic then from_slice self.event env.payload else none

/-- What the half of `NetworkEventRouter::stream_events` on the network gives for an event. -/
def EventSubscription.takes_event (from_slice : ε → Bytes → Option (EventEnvelope V))
    (self : EventSubscription ε V) : NetworkEvent PeerId → Option (EventEnvelope V)
  | .EventReceived id topic data _ =>
    if topic = self.topic then self.takes from_slice ⟨id, topic, data⟩ else none
  | .ReceivedMessage .. | .BootstrapDiscovered _ | .NodeDisconnected _ | .NodeConnected _ => none

namespace EventBus

def new (router : EventRouter) : EventBus ε V PeerId := ⟨router, ∅, fun _ => .empty, .empty, []⟩

def inc_sub (topic : String) (self : EventBus ε V PeerId) : EventBus ε V PeerId :=
  let counter := (self.counter.getD topic 0 + 1) % 2 ^ 32
  { self with
    counter := self.counter.insert topic counter
    router := if counter = 1 then self.router.subscribe topic else self.router }

/-- The value that `checked_sub` gives is not stored. -/
def dec_sub (topic : String) (self : EventBus ε V PeerId) : EventBus ε V PeerId :=
  let counter := self.counter.getD topic 0
  let value := if 1 ≤ counter then some (counter - 1) else none
  { self with
    counter := self.counter.insert topic counter
    router := if value.isNone ∨ some 0 = value then self.router.unsubscribe topic else self.router }

/-- The stream is made before the subscription is counted. It reads what is sent from now on. -/
def stream_events (event : ε) (topic : String) (self : EventBus ε V PeerId) :
    EventBus ε V PeerId :=
  let (channel, router) := self.router.channel topic
  let subscription : EventSubscription ε V :=
    ⟨event, topic, channel, true, (self.channels channel).subscribe, self.network.subscribe⟩
  { self with router, subscriptions := self.subscriptions ++ [subscription] }.inc_sub topic

/-- The drop of a subscription drops its stream. `EventSubscription` has no `Drop` of its own. -/
def drop (i : Nat) (self : EventBus ε V PeerId) : EventBus ε V PeerId :=
  { self with subscriptions := self.subscriptions.modify i fun s => { s with alive := false } }

/-- `LocalEventRouter::emit`: the channel of the topic, if there is one, takes the envelope. With no
receiver the code sends nothing; a receiver that is made later reads from there on either way. -/
def emit_envelope (env : EventEnvelope Bytes) (self : EventBus ε V PeerId) : EventBus ε V PeerId :=
  match self.router.topics[env.topic]? with
  | some channel =>
    { self with channels := fun c =>
        if c = channel then (self.channels c).send env else self.channels c }
  | none => self

/-- The network only brings the topics that it is subscribed to. -/
def Brings (event : NetworkEvent PeerId) (self : EventBus ε V PeerId) : Prop :=
  match self.router.gossip, event with
  | some gossip, .EventReceived _ topic _ _ => topic ∈ gossip
  | some _, _ => True
  | none, _ => False

instance (event : NetworkEvent PeerId) (self : EventBus ε V PeerId) :
    Decidable (self.Brings event) := by
  unfold Brings
  split <;> infer_instance

/-- An event of the swarm. -/
def network_event (event : NetworkEvent PeerId) (self : EventBus ε V PeerId) : EventBus ε V PeerId :=
  if self.Brings event then { self with network := self.network.send event } else self

/-- One receive of the local half of a stream. `select` polls the halves in turn. -/
def poll_local (from_slice : ε → Bytes → Option (EventEnvelope V)) (i : Nat)
    (self : EventBus ε V PeerId) : EventBus ε V PeerId :=
  { self with subscriptions := self.subscriptions.modify i fun s =>
      if s.alive then
        { s with local_stream := s.local_stream.poll (s.takes from_slice) (self.channels s.channel) }
      else s }

/-- One receive of the half of a stream on the network. -/
def poll_network (from_slice : ε → Bytes → Option (EventEnvelope V)) (i : Nat)
    (self : EventBus ε V PeerId) : EventBus ε V PeerId :=
  { self with subscriptions := self.subscriptions.modify i fun s =>
      if s.alive then
        { s with network_stream := s.network_stream.poll (s.takes_event from_slice) self.network }
      else s }

end EventBus

/-- What happens to the bus. `EventBus::emit` is an `emit_envelope` for each topic of the event:
another thread may come in between. -/
inductive Event (ε PeerId : Type) where
  | stream_events (event : ε) (topic : String)
  | drop (i : Nat)
  | emit_envelope (env : EventEnvelope Bytes)
  | network_event (event : NetworkEvent PeerId)
  | poll_local (i : Nat)
  | poll_network (i : Nat)

namespace EventBus

def step (from_slice : ε → Bytes → Option (EventEnvelope V)) (self : EventBus ε V PeerId) :
    Event ε PeerId → EventBus ε V PeerId
  | .stream_events event topic => self.stream_events event topic
  | .drop i => self.drop i
  | .emit_envelope env => self.emit_envelope env
  | .network_event event => self.network_event event
  | .poll_local i => self.poll_local from_slice i
  | .poll_network i => self.poll_network from_slice i

def runFrom (from_slice : ε → Bytes → Option (EventEnvelope V)) (self : EventBus ε V PeerId)
    (events : List (Event ε PeerId)) : EventBus ε V PeerId :=
  events.foldl (step from_slice) self

/-- A run of the bus over a router that has no topic yet. `network` says if there is a network. -/
def run (from_slice : ε → Bytes → Option (EventEnvelope V)) (network : Bool)
    (events : List (Event ε PeerId)) : EventBus ε V PeerId :=
  (new ⟨∅, 0, if network then some [] else none⟩).runFrom from_slice events

/-- The live subscriptions to the topic. -/
def live (topic : String) (self : EventBus ε V PeerId) : Nat :=
  self.subscriptions.countP fun s => s.alive && s.topic == topic

/-- What the halves of the stream of a subscription gave. -/
def received (i : Nat) (self : EventBus ε V PeerId) :
    Option (List (EventEnvelope V) × List (EventEnvelope V)) :=
  (self.subscriptions[i]?).map fun s => (s.local_stream.got, s.network_stream.got)

end EventBus

end marie.events
