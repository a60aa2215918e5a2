-- The peers that come and go. A peer that connects is asked for its capabilities
-- and enters the table when it answers; one that disconnects leaves it at once.
import Marie.Annuary
import Marie.Annuary.Hrw
import Marie.Lib.Runs
import Marie.Rpc.Protocol

namespace marie.annuary

open rpc (RpcError)

inductive AnnuaryEvent where
  | NodeConnected (node_id : NodeId)
  | NodeDisconnected (node_id : NodeId)
deriving DecidableEq

def AnnuaryEvent.node_id : AnnuaryEvent → NodeId
  | .NodeConnected node_id => node_id
  | .NodeDisconnected node_id => node_id

namespace Annuary

variable {Score : Type} [LinearOrder Score]

/-- The candidates are those of `nodes_with`. -/
def pick_top_n (score : UInt64 → Score) (annuary : Annuary) (id : List UInt8)
    (capabilities : Capabilities) (n : Nat) : List NodeId :=
  hrw.pick_top_n score id (annuary.nodes_with capabilities) n

def on_node_disconnected (node_id : NodeId) (annuary : Annuary) : Annuary :=
  { annuary with peers := annuary.peers.filter fun x => x.1 ≠ node_id }

/-- `entry(..).or_insert_with(..)`. -/
def or_insert (node_id : NodeId) (tracker : PeerTracker) (annuary : Annuary) : Annuary :=
  if node_id ∈ annuary.peers.map Prod.fst then annuary
  else { annuary with peers := annuary.peers ++ [(node_id, tracker)] }

end Annuary

/-- The future of `handle_peer_connection`: the node that it asks, and the answer it had. -/
structure Query where
  node_id : NodeId
  answer : Option (Except RpcError Capabilities)

/-- The annuary, and the futures that it spawned so far. -/
structure State where
  known : Annuary
  queries : List Query

inductive Event where
  | event (event : AnnuaryEvent)
  /-- The call of a query returns. -/
  | answered (k : Nat) (answer : Except RpcError Capabilities)

namespace State

/-- `handle_peer_connection`, from the answer on. -/
def answered (k : Nat) (answer : Except RpcError Capabilities) (s : State) : State :=
  match s.queries[k]? with
  | some ⟨node_id, none⟩ =>
    let queries := s.queries.set k ⟨node_id, some answer⟩
    match answer with
    | .ok capabilities => ⟨s.known.or_insert node_id ⟨capabilities⟩, queries⟩
    | .error _ => ⟨s.known, queries⟩
  | _ => s

def handle_event (event : AnnuaryEvent) (s : State) : State :=
  match event with
  | .NodeConnected node_id => { s with queries := s.queries ++ [⟨node_id, none⟩] }
  | .NodeDisconnected node_id => { s with known := s.known.on_node_disconnected node_id }

def step (s : State) : Event → State
  | .event event => s.handle_event event
  | .answered k answer => s.answered k answer

def new (capabilities : Capabilities) (local_node_id : NodeId) : State :=
  ⟨⟨capabilities, local_node_id, []⟩, []⟩

def run (capabilities : Capabilities) (local_node_id : NodeId) (events : List Event) : State :=
  events.foldl step (new capabilities local_node_id)

/-- The nodes in the table. -/
def keys (s : State) : List NodeId := s.known.peers.map Prod.fst

/-- The query of the most recent connection of a node. -/
def last_connection (id : NodeId) (s : State) : Option Nat :=
  (s.queries.map Query.node_id).zipIdx.reverse.findSome? fun x =>
    if x.1 = id then some x.2 else none

def answer (k : Nat) (s : State) : Option (Except RpcError Capabilities) :=
  (s.queries[k]?).bind Query.answer

end State

/-- The most recent event of a node. -/
def last_event (id : NodeId) (events : List Event) : Option AnnuaryEvent :=
  events.reverse.findSome? fun
    | .event event => if event.node_id = id then some event else none
    | _ => none

/-! ## One step -/

section

variable {capabilities : Capabilities} {local_node_id id : NodeId} {events : List Event}
  {event : Event} {s : State} {k : Nat}

theorem run_concat : State.run capabilities local_node_id (events ++ [event]) =
    (State.run capabilities local_node_id events).step event := by
  simp [State.run]

namespace State

theorem last_connection_connected (node_id : NodeId) :
    (s.step (.event (.NodeConnected node_id))).last_connection id =
      if node_id = id then some s.queries.length else s.last_connection id := by
  simp only [step, handle_event, last_connection, List.map_append, List.map_cons, List.map_nil,
    List.zipIdx_append, List.reverse_append, List.findSome?_append]
  by_cases hid : node_id = id
  · simp [hid]
  · simp [hid]

theorem node_of_last_connection (h : s.last_connection id = some k) :
    ∃ query, s.queries[k]? = some query ∧ query.node_id = id := by
  unfold last_connection at h
  obtain ⟨x, hx, hfound⟩ := List.exists_of_findSome?_eq_some h
  rw [List.mem_reverse, List.mem_zipIdx_iff_getElem?] at hx
  split at hfound
  · rename_i hid
    cases hfound
    rw [List.getElem?_map] at hx
    obtain ⟨query, hquery, hnode⟩ := Option.map_eq_some_iff.mp hx
    exact ⟨query, hquery, hnode.trans hid⟩
  · cases hfound

theorem node_ids_answered (answer : Except RpcError Capabilities) :
    (s.answered k answer).queries.map Query.node_id = s.queries.map Query.node_id := by
  have hset : ∀ node_id a, s.queries[k]? = some ⟨node_id, none⟩ →
      (s.queries.set k ⟨node_id, a⟩).map Query.node_id = s.queries.map Query.node_id := by
    intro node_id a hk
    apply List.ext_getElem?
    intro j
    rw [List.getElem?_map, List.getElem?_map, List.getElem?_set]
    by_cases hj : k = j
    · subst hj
      have hlt := (List.getElem?_eq_some_iff.mp hk).1
      rw [if_pos rfl, if_pos hlt, hk]
      rfl
    · simp [hj]
  unfold answered
  split
  · rename_i node_id hk
    split <;> exact hset node_id _ hk
  · rfl

theorem last_connection_answered (answer : Except RpcError Capabilities) :
    (s.answered k answer).last_connection id = s.last_connection id := by
  unfold last_connection
  rw [node_ids_answered]

/-- A connection leaves the answers as they are: its own query has none. -/
theorem answer_connected (node_id : NodeId) :
    (s.step (.event (.NodeConnected node_id))).answer k = s.answer k := by
  unfold answer step handle_event
  simp only
  by_cases hlt : k < s.queries.length
  · rw [List.getElem?_append_left hlt]
  · rw [List.getElem?_eq_none (Nat.le_of_not_lt hlt)]
    rcases Nat.eq_or_lt_of_le (Nat.le_of_not_lt hlt) with heq | hgt
    · simp [← heq]
    · rw [List.getElem?_eq_none (by simp; omega)]

/-- A query that is still open takes its answer, and a positive one makes the node known. -/
theorem answered_pending (answer : Except RpcError Capabilities)
    (hk : s.queries[k]? = some ⟨id, none⟩) :
    (∀ j, (s.answered k answer).answer j = if j = k then some answer else s.answer j) ∧
    (s.answered k answer).known = match answer with
      | .ok capabilities => s.known.or_insert id ⟨capabilities⟩
      | .error _ => s.known := by
  have hlt := (List.getElem?_eq_some_iff.mp hk).1
  have hset : ∀ (known : Annuary) (j : Nat),
      (⟨known, s.queries.set k ⟨id, some answer⟩⟩ : State).answer j =
        if j = k then some answer else s.answer j := by
    intro known j
    unfold State.answer
    rw [List.getElem?_set]
    by_cases hj : j = k
    · simp [hj, hlt]
    · simp [hj, Ne.symm hj]
  unfold answered
  rw [hk]
  cases answer with
  | ok capabilities => exact ⟨hset _, rfl⟩
  | error error => exact ⟨hset _, rfl⟩

theorem answered_done (answer : Except RpcError Capabilities)
    (hk : ∀ id, s.queries[k]? ≠ some ⟨id, none⟩) : s.answered k answer = s := by
  unfold answered
  split
  · rename_i id hid
    exact absurd hid (hk id)
  · rfl

end State

end

end marie.annuary
