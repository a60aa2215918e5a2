-- The client of the remote calls: each call waits on its own channel, whose
-- sender is in a table under the id of the call, and a reply takes the sender of
-- its id out of the table.
import Mathlib.Data.List.Induction
import Marie.Rpc.Protocol

open Std (HashMap)

namespace marie.rpc

open post (PostError)

/-- A oneshot channel: nothing was sent yet, a value was, or the sender was dropped. -/
inductive Oneshot (α : Type) where
  | Empty
  | Sent (a : α)
  | Closed
deriving DecidableEq

variable {α : Type}

/-- `oneshot::Sender::send`. -/
def Oneshot.send (a : α) : Oneshot α → Oneshot α
  | .Empty => .Sent a
  | channel => channel

/-- The drop of a sender that sent nothing. -/
def Oneshot.drop_sender : Oneshot α → Oneshot α
  | .Empty => .Closed
  | channel => channel

structure RpcCallArgs where
  name : String
  args : Value
  destination : NodeId

/-- `tx` is the sender of the channel of that call. -/
structure RpcTracker where
  tx : Nat
deriving DecidableEq

/-- Where the future of a call stands: `send` has not returned, it awaits its channel, it is done,
or its `unwrap` panicked. -/
inductive Progress where
  | Sending
  | Waiting
  | Done
  | Panicked
deriving DecidableEq

/-- The future of a call. `decode` is `serde_json::from_value` at the type that the caller wants,
one of the cases of `R`. -/
structure CallFuture (R : Type) where
  call : RpcCall
  destination : NodeId
  decode : Value → Except String R
  rx : Oneshot (Except RpcError Value)
  progress : Progress

/-- `calls` are the futures of the calls, in the order in which they began, and `returned` is what
they gave their callers. -/
structure RpcClient (R : Type) where
  tracked : HashMap RpcId RpcTracker
  calls : List (CallFuture R)
  returned : List (Nat × Except RpcError R)

inductive Event (R : Type) where
  /-- `call` begins: the id is drawn and tracked. -/
  | call (id : RpcId) (args : RpcCallArgs) (decode : Value → Except String R)
  /-- `send` returns to a call. -/
  | sent (k : Nat) (result : Except PostError Unit)
  /-- The loop of `run` takes a message. -/
  | message (msg : RpcMessage)
  /-- A call is polled at its `rx.await`. -/
  | poll (k : Nat)

namespace RpcClient

variable {R : Type}

def new : RpcClient R := ⟨∅, [], []⟩

/-- An insertion drops the tracker that it replaces, and the sender with it. -/
def track (id : RpcId) (tracker : RpcTracker) (self : RpcClient R) : RpcClient R :=
  { self with
    tracked := self.tracked.insert id tracker
    calls := match self.tracked[id]? with
      | none => self.calls
      | some old => self.calls.modify old.tx fun c => { c with rx := c.rx.drop_sender } }

def handle_ack (_ : RpcAck) (self : RpcClient R) : RpcClient R := self

def handle_reply (reply : RpcReply) (self : RpcClient R) : RpcClient R :=
  match self.tracked[reply.id]? with
  | none => self
  | some tracker =>
    { self with
      tracked := self.tracked.erase reply.id
      calls := self.calls.modify tracker.tx fun c => { c with rx := c.rx.send reply.result } }

/-- What a call makes of the result that it received. -/
def decoded (decode : Value → Except String R) : Except RpcError Value → Except RpcError R
  | .error err => .error err
  | .ok value => match decode value with
    | .error err => .error (.DeserializeError err)
    | .ok ret => .ok ret

def call (id : RpcId) (args : RpcCallArgs) (decode : Value → Except String R)
    (self : RpcClient R) : RpcClient R :=
  let future : CallFuture R := ⟨⟨id, args.name, args.args⟩, args.destination, decode, .Empty, .Sending⟩
  { self with calls := self.calls ++ [future] }.track id ⟨self.calls.length⟩

/-- The future of a call goes on, and it may return to its caller. -/
def go_on (k : Nat) (progress : Progress) (ret : Option (Except RpcError R))
    (self : RpcClient R) : RpcClient R :=
  { self with
    calls := self.calls.modify k fun c => { c with progress }
    returned := self.returned ++ ret.toList.map fun r => (k, r) }

def sent (k : Nat) (result : Except PostError Unit) (self : RpcClient R) : RpcClient R :=
  match self.calls[k]? with
  | some c => match c.progress, result with
    | .Sending, .ok _ => self.go_on k .Waiting none
    | .Sending, .error err => self.go_on k .Done (some (.error (.PostError err)))
    | _, _ => self
  | none => self

def poll (k : Nat) (self : RpcClient R) : RpcClient R :=
  match self.calls[k]? with
  | some c => match c.progress, c.rx with
    | .Waiting, .Sent result => self.go_on k .Done (some (decoded c.decode result))
    | .Waiting, .Closed => self.go_on k .Panicked none
    | _, _ => self
  | none => self

def step (self : RpcClient R) : Event R → RpcClient R
  | .call id args decode => self.call id args decode
  | .sent k result => self.sent k result
  | .message (.Reply reply) => self.handle_reply reply
  | .message (.Ack ack) => self.handle_ack ack
  | .message (.Call _) => self
  | .poll k => self.poll k

def run (events : List (Event R)) : RpcClient R := events.foldl step new

/-- What call `k` gave its caller. -/
def results (k : Nat) (self : RpcClient R) : List (Except RpcError R) :=
  (self.returned.filter fun x => x.1 = k).map Prod.snd

end RpcClient

end marie.rpc
