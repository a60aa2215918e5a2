-- Every envelope is sent under the default node id, which is the id of no node.
-- A reply goes to the source of its call, so it is delivered to no one.
import Mathlib.Data.List.Induction
import Marie.Rpc.Server

namespace marie.rpc

open post

variable {PeerId : Type} {lib : Libraries PeerId} {peer : PeerId} {node : Node}

/-! ## A node -/

/-- What a node holds was sent under the default id, and what its streams gave is for the node. -/
structure Stamped (lib : Libraries PeerId) (peer : PeerId) (node : Node) : Prop where
  delivered : ∀ env ∈ node.delivered,
    env.source = .default ∧ lib.from_bytes env.destination.bytes = some peer
  commands : ∀ x ∈ node.commands, ∃ env, lib.to_vec env = .ok x.1 ∧ env.source = .default ∧
    env.destination = x.2

theorem mem_delivered {env : MessageEnveloppe Bytes} :
    env ∈ node.delivered ↔ ∃ st ∈ node.streams, env ∈ st.received := by
  simp [Node.delivered]

theorem mem_delivered_give {env env' : MessageEnveloppe Bytes}
    (h : env' ∈ (node.give env).delivered) : env' ∈ node.delivered ∨ env' = env := by
  simp only [mem_delivered, Node.give, List.mem_map] at h
  obtain ⟨_, ⟨st, hst, rfl⟩, henv⟩ := h
  unfold Stream.give at henv
  split at henv
  · rcases List.mem_append.mp henv with hold | hnew
    · exact .inl (mem_delivered.mpr ⟨st, hst, hold⟩)
    · exact .inr (List.mem_singleton.mp hnew)
  · exact .inl (mem_delivered.mpr ⟨st, hst, henv⟩)

theorem Stamped.give (h : Stamped lib peer node) {env : MessageEnveloppe Bytes}
    (hsource : env.source = .default) (hdest : lib.from_bytes env.destination.bytes = some peer) :
    Stamped lib peer (node.give env) := by
  constructor
  · intro env' henv'
    rcases mem_delivered_give henv' with hold | rfl
    · exact h.delivered env' hold
    · exact ⟨hsource, hdest⟩
  · exact h.commands

theorem Stamped.route (hlib : lib.Lawful) (h : Stamped lib peer node)
    {env : MessageEnveloppe Bytes} (hsource : env.source = .default) :
    Stamped lib peer (node.route lib peer env).2 := by
  unfold Node.route
  split
  · rename_i hlocal
    apply h.give hsource
    rw [hlocal]
    exact hlib.from_to_bytes peer
  · split
    · rename_i data hdata
      unfold Node.send_message
      split
      · exact h
      · refine ⟨h.delivered, ?_⟩
        intro x hx
        rcases List.mem_append.mp hx with hold | hnew
        · exact h.commands x hold
        · rw [List.mem_singleton.mp hnew]
          exact ⟨env, hdata, hsource, rfl⟩
    · exact h

theorem enveloppe_eq_ok {M : Type} {message : Message M} {msg : M} {destination : NodeId}
    {env : MessageEnveloppe Bytes} (h : enveloppe message msg destination = .ok env) :
    env.channel = message.CHANNEL ∧ env.source = .default ∧ env.destination = destination := by
  unfold enveloppe MessageEnveloppe.serialize at h
  split at h
  · cases h
    exact ⟨rfl, rfl, rfl⟩
  · cases h

theorem Stamped.send (hlib : lib.Lawful) (h : Stamped lib peer node) {M : Type}
    (message : Message M) (msg : M) (destination : NodeId) :
    Stamped lib peer (node.send lib peer message msg destination).2 := by
  unfold Node.send
  split
  · rename_i env henv
    exact h.route hlib (enveloppe_eq_ok henv).2.1
  · exact h

theorem node_id_ne_default (hlib : lib.Lawful) (peer : PeerId) :
    lib.node_id peer ≠ NodeId.default := by
  intro h
  have hsome := hlib.from_to_bytes peer
  have hbytes : lib.to_bytes peer = [] := congrArg NodeId.bytes h
  rw [hbytes, hlib.from_no_bytes] at hsome
  cases hsome

theorem node_id_injective (hlib : lib.Lawful) {a b : PeerId} (h : lib.node_id a = lib.node_id b) :
    a = b := by
  have hbytes : lib.to_bytes a = lib.to_bytes b := congrArg NodeId.bytes h
  have hsome := hlib.from_to_bytes a
  rw [hbytes, hlib.from_to_bytes] at hsome
  exact (Option.some.inj hsome).symm

/-! ## The network -/

variable {rpc : Message RpcMessage} {s : Network PeerId}

/-- What is anywhere on the network was sent under the default id. -/
structure Network.AllStamped (lib : Libraries PeerId) (s : Network PeerId) : Prop where
  nodes : ∀ peer, Stamped lib peer (s.nodes peer)
  in_flight : ∀ x ∈ s.in_flight, ∃ env, lib.to_vec env = .ok x.2.2 ∧ env.source = .default ∧
    lib.from_bytes env.destination.bytes = some x.2.1

theorem call_source (h : s.AllStamped lib) {stream i : Nat} {call : RpcCall} {callee : NodeId}
    (hcall : s.call_at rpc peer stream i = some (call, callee)) : callee = .default := by
  unfold Network.call_at at hcall
  simp only [Option.bind_eq_bind, Option.bind_eq_some_iff] at hcall
  obtain ⟨st, hst, env, henv, hcall⟩ := hcall
  have hmem : env ∈ (s.nodes peer).delivered :=
    mem_delivered.mpr ⟨st, List.mem_of_getElem? hst, List.mem_of_getElem? henv⟩
  have hsource := ((h.nodes peer).delivered env hmem).1
  unfold MessageEnveloppe.deserialize at hcall
  split at hcall
  · rename_i hok
    split at hok
    · simp only [Except.ok.injEq, MessageEnveloppe.mk.injEq] at hok
      split at hcall
      · simp only [Option.some.injEq, Prod.mk.injEq] at hcall
        rw [← hcall.2, ← hok.2.2.1, hsource]
      · cases hcall
    · cases hok
  · cases hcall

section

variable [DecidableEq PeerId]

namespace Network

theorem AllStamped.at_node (h : s.AllStamped lib) {f : Node → Node}
    (hf : Stamped lib peer (f (s.nodes peer))) : (s.at_node peer f).AllStamped lib := by
  refine ⟨?_, h.in_flight⟩
  intro other
  unfold Network.at_node
  by_cases hother : other = peer
  · subst hother
    simpa using hf
  · simpa [Function.update_of_ne hother] using h.nodes other

theorem AllStamped.command (h : s.AllStamped lib) : (s.command lib peer).AllStamped lib := by
  unfold Network.command
  split
  · exact h
  · rename_i data destination rest hcommands
    have hnode := h.nodes peer
    have hhead := hnode.commands (data, destination) (by simp [hcommands])
    split
    · rename_i dest hdest
      have hrest : Stamped lib peer { s.nodes peer with commands := rest } :=
        ⟨hnode.delivered, fun x hx => hnode.commands x (by simp [hcommands, hx])⟩
      refine ⟨(h.at_node (f := fun node => { node with commands := rest }) hrest).nodes, ?_⟩
      intro x hx
      rcases List.mem_append.mp hx with hold | hnew
      · exact h.in_flight x hold
      · obtain ⟨env, henv, hsource, hdestination⟩ := hhead
        rw [List.mem_singleton.mp hnew]
        exact ⟨env, henv, hsource, by rw [hdestination, hdest]⟩
    · exact h.at_node ⟨hnode.delivered, by simp⟩

theorem AllStamped.deliver (hlib : lib.Lawful) (h : s.AllStamped lib) (i : Nat) :
    (s.deliver lib i).AllStamped lib := by
  unfold Network.deliver
  split
  · exact h
  · rename_i sender dest data hi
    obtain ⟨env, henv, hsource, hdest⟩ := h.in_flight _ (List.mem_of_getElem? hi)
    have hrest : ({ s with in_flight := s.in_flight.eraseIdx i } : Network PeerId).AllStamped lib :=
      ⟨h.nodes, fun x hx => h.in_flight x (List.mem_of_mem_eraseIdx hx)⟩
    have hparse : lib.from_slice data = .ok env := hlib.from_to_vec env data henv
    simp only [hparse]
    split
    · exact hrest
    · exact hrest.at_node ((h.nodes dest).give hsource hdest)

theorem AllStamped.step (hlib : lib.Lawful) (h : s.AllStamped lib) (event : NodeEvent PeerId) :
    (s.step lib rpc event).AllStamped lib := by
  cases event with
  | stream_messages peer channel =>
    rw [Network.step]
    apply h.at_node
    refine ⟨?_, (h.nodes peer).commands⟩
    intro env henv
    apply (h.nodes peer).delivered
    simpa [Node.delivered] using henv
  | register peer name =>
    rw [Network.step]
    apply h.at_node
    exact ⟨(h.nodes peer).delivered, (h.nodes peer).commands⟩
  | send peer message msg destination =>
    rw [Network.step]
    apply h.at_node
    exact (h.nodes peer).send hlib message msg destination
  | command peer => exact h.command
  | deliver i => exact h.deliver hlib i
  | handle_call peer stream i ret =>
    rw [Network.step]
    split
    · apply h.at_node
      exact (h.nodes peer).send hlib _ _ _
    · exact h

theorem allStamped_run (hlib : lib.Lawful) (events : List (NodeEvent PeerId)) :
    (run lib rpc events).AllStamped lib := by
  induction events using List.reverseRecOn with
  | nil =>
    constructor
    · intro peer
      constructor
      · simp [run, new, Node.new, Node.delivered]
      · simp [run, new, Node.new]
    · simp [run, new]
  | append_singleton events event ih =>
    have hrun : run lib rpc (events ++ [event]) = (run lib rpc events).step lib rpc event := by
      simp [run]
    rw [hrun]
    exact ih.step hlib event

end Network

/-! ## The deliveries -/

/-- A node that sends to itself takes the envelope at once. -/
theorem local_delivery {M : Type} {message : Message M} {msg : M} {env : MessageEnveloppe Bytes}
    (henv : enveloppe message msg (lib.node_id peer) = .ok env) :
    (s.step lib rpc (.send peer message msg (lib.node_id peer))).nodes peer =
      (s.nodes peer).give env := by
  simp [Network.step, Network.at_node, Node.send, henv, Node.route, (enveloppe_eq_ok henv).2.2]

/-- A node that sends to another one: the envelope is delivered, under the default id. -/
theorem remote_delivery (hlib : lib.Lawful) {M : Type} {message : Message M} {msg : M}
    {a b : PeerId} {env : MessageEnveloppe Bytes} {data : Bytes} (hne : b ≠ a)
    (henv : enveloppe message msg (lib.node_id b) = .ok env) (hdata : lib.to_vec env = .ok data)
    (ha : (s.nodes a).panicked = false) (hcommands : (s.nodes a).commands = [])
    (hb : (s.nodes b).panicked = false) (hflight : s.in_flight = []) :
    (((s.step lib rpc (.send a message msg (lib.node_id b))).step lib rpc (.command a)).step lib
      rpc (.deliver 0)).nodes b = (s.nodes b).give env := by
  have hdest := (enveloppe_eq_ok henv).2.2
  have hremote : lib.node_id b ≠ lib.node_id a := fun h => hne (node_id_injective hlib h)
  have hsend : s.step lib rpc (.send a message msg (lib.node_id b)) =
      s.at_node a fun node => { node with commands := [(data, lib.node_id b)] } := by
    simp only [Network.step, Network.at_node, Node.send, henv, Node.route, hdest, hremote,
      if_false, hdata, Node.send_message, ha, hcommands]
    simp
  have hfrom : lib.from_bytes (lib.node_id b).bytes = some b := hlib.from_to_bytes b
  have hparse := hlib.from_to_vec env data hdata
  rw [hsend]
  simp [Network.step, Network.command, Network.deliver, Network.at_node, hfrom, hflight, hparse,
    hne, hb]

/-! ## The addresses -/

/-- The message is delivered on node `b`, and its source is node `a`. -/
def Arrives {M : Type} (lib : Libraries PeerId) (message : Message M) (msg : M) (a b : PeerId)
    (s : Network PeerId) : Prop :=
  ∃ env ∈ (s.nodes b).delivered, MessageEnveloppe.deserialize message env =
    .ok ⟨message.CHANNEL, lib.node_id b, lib.node_id a, msg⟩

/-- No message ever has the node that sent it as its source, and no reply of a server is ever
delivered. -/
theorem no_message_names_its_sender (hlib : lib.Lawful) (rpc : Message RpcMessage)
    (events : List (NodeEvent PeerId)) :
    (∀ {M : Type} (message : Message M) (msg : M) (a b : PeerId),
      ¬ Arrives lib message msg a b (Network.run lib rpc events)) ∧
    ∀ (b : PeerId) (stream i : Nat) (call : RpcCall) (callee : NodeId) (ret : Value)
      (reply : MessageEnveloppe Bytes) (later : List (NodeEvent PeerId)) (a : PeerId),
      (Network.run lib rpc events).call_at rpc b stream i = some (call, callee) →
      enveloppe rpc (.Reply ⟨call.id, execute_call
        ((Network.run lib rpc events).nodes b).executors call ret⟩) callee = .ok reply →
      reply ∉ ((Network.run lib rpc (events ++ .handle_call b stream i ret :: later)).nodes
        a).delivered := by
  refine ⟨?_, ?_⟩
  · intro M message msg a b
    rintro ⟨env, henv, hdeserialize⟩
    have hsource := (((Network.allStamped_run hlib events).nodes b).delivered env henv).1
    unfold MessageEnveloppe.deserialize at hdeserialize
    split at hdeserialize
    · simp only [Except.ok.injEq, MessageEnveloppe.mk.injEq] at hdeserialize
      exact node_id_ne_default hlib a (hdeserialize.2.2.1.symm.trans hsource)
    · cases hdeserialize
  · intro b stream i call callee ret reply later a hcall hreply hmem
    have hcallee := call_source (Network.allStamped_run hlib events) hcall
    -- What is delivered anywhere has a peer id as its destination, and the reply has none.
    have hdest := (((Network.allStamped_run hlib _).nodes a).delivered reply hmem).2
    rw [(enveloppe_eq_ok hreply).2.2, hcallee] at hdest
    rw [NodeId.default, hlib.from_no_bytes] at hdest
    cases hdest

end

/-! ## Two nodes -/

/-- A peer id that is the identity multihash of a short public key. -/
structure KeyPeer where
  digest : Bytes
  short : digest.length ≤ 42
deriving DecidableEq

def KeyPeer.to_bytes (self : KeyPeer) : Bytes := 0 :: self.digest.length.toUInt8 :: self.digest

def KeyPeer.from_bytes : Bytes → Option KeyPeer
  | 0 :: length :: digest =>
    if h : digest.length ≤ 42 then
      if length = digest.length.toUInt8 then some ⟨digest, h⟩ else none
    else none
  | _ => none

def text (s : String) : Bytes := s.toList.map fun c => c.toNat.toUInt8

/-- The JSON of a byte: its decimal digits. -/
def byte_json (b : UInt8) : Bytes :=
  let n := b.toNat
  let digit (d : Nat) : UInt8 := (48 + d).toUInt8
  if n < 10 then [digit n] else if n < 100 then [digit (n / 10), digit (n % 10)]
  else [digit (n / 100), digit (n / 10 % 10), digit (n % 10)]

def bytes_json (bytes : Bytes) : Bytes :=
  text "[" ++ (text ",").intercalate (bytes.map byte_json) ++ text "]"

/-- The JSON of an envelope whose channel needs no escapes. -/
def enveloppe_json (env : MessageEnveloppe Bytes) : Bytes :=
  text "\x7b\"channel\":\"" ++ text env.channel ++ text "\",\"destination\":" ++
    bytes_json env.destination.bytes ++ text ",\"source\":" ++ bytes_json env.source.bytes ++
    text ",\"payload\":" ++ bytes_json env.payload ++ text "\x7d"

def keyA : KeyPeer := ⟨[8, 1, 18, 32] ++ List.replicate 32 1, by decide⟩

def keyB : KeyPeer := ⟨[8, 1, 18, 32] ++ List.replicate 32 2, by decide⟩

def call_json : Bytes :=
  text "\x7b\"Call\":\x7b\"id\":\"00000000000000000000000000000001\"," ++
    text "\"name\":\"echo\",\"args\":null\x7d\x7d"

def reply_json : Bytes :=
  text "\x7b\"Reply\":\x7b\"id\":\"00000000000000000000000000000001\"," ++
    text "\"result\":\x7b\"Ok\":null\x7d\x7d\x7d"

/-- The envelope of the call, as node `A` sends it to node `B`, and that of the reply. -/
def call_env : MessageEnveloppe Bytes := ⟨"/marie/rpc", ⟨keyB.to_bytes⟩, .default, call_json⟩

def reply_env : MessageEnveloppe Bytes := ⟨"/marie/rpc", .default, .default, reply_json⟩

/-- The libraries on the two envelopes. -/
def two_nodes : Libraries KeyPeer where
  to_bytes := KeyPeer.to_bytes
  from_bytes := KeyPeer.from_bytes
  to_vec env :=
    if env = call_env ∨ env = reply_env then .ok (enveloppe_json env) else .error "not written here"
  from_slice data :=
    if data = enveloppe_json call_env then .ok call_env
    else if data = enveloppe_json reply_env then .ok reply_env
    else .error "expected value at line 1 column 1"

def echo : RpcCall := ⟨⟨1⟩, "echo", .Null⟩

def rpc_json : Message RpcMessage where
  CHANNEL := RpcMessage.CHANNEL
  to_vec
    | .Call ⟨⟨1⟩, "echo", .Null⟩ => .ok call_json
    | .Reply ⟨⟨1⟩, .ok .Null⟩ => .ok reply_json
    | _ => .error "not written here"
  from_slice data :=
    if data = call_json then .ok (.Call echo)
    else if data = reply_json then .ok (.Reply ⟨⟨1⟩, .ok .Null⟩)
    else .error "expected value at line 1 column 1"

theorem two_nodes_lawful : two_nodes.Lawful where
  from_to_bytes peer := by
    simp [two_nodes, KeyPeer.to_bytes, KeyPeer.from_bytes, peer.short]
  from_no_bytes := rfl
  from_to_vec env data h := by
    have hne : enveloppe_json reply_env ≠ enveloppe_json call_env := by decide +kernel
    simp only [two_nodes] at h ⊢
    split at h
    · rename_i henv
      cases h
      rcases henv with rfl | rfl
      · rw [if_pos rfl]
      · rw [if_neg hne, if_pos rfl]
    · cases h

/-- Node `A` calls node `B`. -/
def asked : List (NodeEvent KeyPeer) :=
  [.stream_messages keyA "/marie/rpc", .stream_messages keyB "/marie/rpc", .register keyB "echo",
    .send keyA rpc_json (.Call echo) (two_nodes.node_id keyB), .command keyA, .deliver 0]

theorem asked_streams : ((Network.run two_nodes rpc_json asked).nodes keyB).streams =
    [⟨"/marie/rpc", [call_env]⟩] := by
  decide +kernel

theorem call_parse : MessageEnveloppe.deserialize rpc_json call_env =
    .ok ⟨"/marie/rpc", ⟨keyB.to_bytes⟩, .default, .Call echo⟩ := by
  simp [MessageEnveloppe.deserialize, rpc_json, call_env]

theorem asked_call : (Network.run two_nodes rpc_json asked).call_at rpc_json keyB 0 0 =
    some (echo, .default) := by
  simp [Network.call_at, asked_streams, call_parse]
  rfl

/-- Node `B` answers the call, and node `A` never sees the reply. -/
theorem a_call_has_no_caller :
    (¬ Arrives two_nodes rpc_json (.Call echo) keyA keyB (Network.run two_nodes rpc_json asked)) ∧
    reply_env ∉ ((Network.run two_nodes rpc_json
      (asked ++ .handle_call keyB 0 0 .Null :: [.command keyB])).nodes keyA).delivered := by
  have h := no_message_names_its_sender two_nodes_lawful rpc_json asked
  refine ⟨h.1 rpc_json (.Call echo) keyA keyB, ?_⟩
  apply h.2 keyB 0 0 echo .default .Null reply_env _ keyA asked_call
  have hexec : (((Network.run two_nodes rpc_json asked).nodes keyB).executors) = ["echo"] := by
    decide +kernel
  rw [hexec]
  rfl

/-- The call is delivered on node `B`, under the default id, and the reply stops the swarm of
node `B`. -/
theorem the_reply_is_lost :
    ((Network.run two_nodes rpc_json asked).nodes keyB).delivered = [call_env] ∧
    (¬ Arrives two_nodes rpc_json (.Call echo) keyA keyB (Network.run two_nodes rpc_json asked)) ∧
    ((Network.run two_nodes rpc_json
      (asked ++ [.handle_call keyB 0 0 .Null, .command keyB])).nodes keyA).delivered = [] ∧
    ((Network.run two_nodes rpc_json
      (asked ++ [.handle_call keyB 0 0 .Null, .command keyB])).nodes keyB).panicked = true := by
  have hdelivered : ((Network.run two_nodes rpc_json asked).nodes keyB).delivered = [call_env] := by
    simp [Node.delivered, asked_streams]
  refine ⟨hdelivered, ?_, by decide +kernel, by decide +kernel⟩
  rintro ⟨env, henv, hdeserialize⟩
  rw [hdelivered, List.mem_singleton] at henv
  subst henv
  have hsource : two_nodes.node_id keyA ≠ NodeId.default := by decide
  rw [call_parse] at hdeserialize
  simp only [Except.ok.injEq, MessageEnveloppe.mk.injEq] at hdeserialize
  exact hsource hdeserialize.2.2.1.symm

end marie.rpc
