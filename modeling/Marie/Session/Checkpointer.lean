-- The checkpointer of a session: the handlers of its events. A handler reads
-- and writes the frames and the snapshots of the session, sends events, and
-- gives frames to the worker.
import Marie.Session.FrameTree
import Marie.Session.Snapshot

namespace marie.session

/-! ## The state of a checkpointer -/

inductive SessionStatus
  | Pending
  | Archived
  | Ongoing
  | Failed (error : String)
deriving DecidableEq

def SessionStatus.has_failed : SessionStatus → Bool
  | .Failed _ => true
  | _ => false

structure RunFrameArgs where
  session_id : SessionId
  frame_id : FrameId
  channels : Channels
  logs : List RunLog
  data : FrameKind

/-- `listeners` holds every event sent so far, `dispatched` every frame given to the worker,
and `hitls` the requests that no one has answered. -/
structure State where
  session_status : SessionStatus
  frames : FrameTree
  snapshots : SessionSnapshots
  hitls : List (HitlId × Hitl)
  next_id : Nat
  listeners : List SessionCheckpointEvent
  dispatched : List RunFrameArgs

/-- The state of a checkpointer that takes up a session with these frames and rows of
snapshots. -/
def State.new (session_id : SessionId) (frames : FrameTree) (rows : SnapshotRows) : State where
  session_status := .Ongoing
  frames := frames
  snapshots := { session_id, store := rows, cache := fun _ => none, writebacks := [] }
  hitls := []
  next_id := 0
  listeners := []
  dispatched := []

/-- Programs of the checkpointer. -/
abbrev Ckp := Program Fault State

/-- What stays the same while a checkpointer runs: its session, the catalog, and what is
around it. `spawn` is the answer of the worker to the call with that number,
`upsert_hitl_frame` is the answer of the store to the write of a request, and `flush_on_push`
says that a pushed snapshot is written to the store at once. -/
structure SessionCheckpointer where
  session_id : SessionId
  graphs : Graphs
  spawn : Nat → RunFrameArgs → Option WorkerError
  upsert_hitl_frame : HitlId → Hitl → Option StoreError
  flush_on_push : Bool

/-- A checkpointer with no graph, over a worker that takes every job and a store that takes every
request. -/
def plain (flush_on_push : Bool) : SessionCheckpointer where
  session_id := ⟨0⟩
  graphs := .of []
  spawn _ _ := none
  upsert_hitl_frame _ _ := none
  flush_on_push := flush_on_push

open Program FrameTree

/-- A call on the frames of the session. -/
def frames {α : Type} (m : Tree α) : Ckp α :=
  zoom State.frames (fun t s => { s with frames := t }) m

/-- A call on the snapshots of the session. -/
def snapshots {α : Type} (m : Snaps α) : Ckp α :=
  zoom State.snapshots (fun t s => { s with snapshots := t }) m

def emit (event : SessionCheckpointEvent) : Ckp Unit :=
  modify fun s => { s with listeners := s.listeners ++ [event] }

/-- `IdGenerator::next`. -/
def next_id : Ckp Nat := do
  let id ← asks State.next_id
  modify fun s => { s with next_id := s.next_id + 1 }
  pure id

/-! ## Marks -/

def mark_as_waiting_children (frame_id : FrameId) : Ckp Unit :=
  frames (set_status frame_id .WaitingChildren)

def mark_frame_run_completed (frame_id : FrameId) (response : FrameResponse) : Ckp Unit := do
  frames (set_status frame_id (.RunCompleted response))
  emit (.FrameRunTerminated frame_id)

def mark_frame_run_failed (frame_id : FrameId) (error : WorkerError) : Ckp Unit := do
  frames (set_status frame_id (.RunFailed error.to_string))
  emit (.FrameRunTerminated frame_id)

def mark_ready_to_run_frame (frame_id : FrameId) : Ckp Unit := do
  frames (set_status frame_id .Ready)
  emit (.FrameReady frame_id)

def mark_failed_frame (err : String) (frame_id : FrameId) : Ckp Unit := do
  frames (set_status frame_id (.Failed err))
  emit (.FrameTerminated frame_id)

def mark_completed_frame (frame_id : FrameId) : Ckp Unit := do
  frames (set_status frame_id .Completed)
  emit (.FrameTerminated frame_id)
  match ← frames (asks (parent_of · frame_id)) with
  | some parent_id => emit (.ChildFrameTerminated parent_id frame_id)
  | none => pure ()

/-! ## Channels that a new frame takes -/

/-- The channels of `names` that `values` has. -/
def restrict (names : List ChannelName) (values : Channels) : Channels :=
  fun n => if n ∈ names then values.get n else none

namespace SessionCheckpointer

variable (self : SessionCheckpointer)

/-- `SessionHitls::request`. The id is drawn before the store may refuse the request. -/
def request (hitl : Hitl) : Ckp HitlId := do
  let id ← next_id
  match self.upsert_hitl_frame ⟨id⟩ hitl with
  | none =>
    modify fun s => { s with hitls := s.hitls ++ [(⟨id⟩, hitl)] }
    pure ⟨id⟩
  | some error => throw (.error (.HitlError (.StorageError error)))

def run_frame (frame_id : FrameId) : Ckp Unit := do
  let snapshot ← snapshots (SessionSnapshots.latest frame_id)
  let logs ← frames (logs_of frame_id)
  let data ← frames (data_of frame_id)
  let args : RunFrameArgs :=
    { session_id := self.session_id, frame_id, channels := snapshot.channels, logs, data }
  let calls ← asks (·.dispatched.length)
  modify fun s => { s with dispatched := s.dispatched ++ [args] }
  match self.spawn calls args with
  | none => pure ()
  | some error => throw (.error (.WorkerError error))

/-- The root gets its channels from outside, and no event tells of it. -/
def set_root (args : NewFrameNodeArgs) (initial_channels : List (ChannelName × Value)) :
    Ckp FrameId := do
  let tree ← asks State.frames
  let frame_id := (tree.set_root args).1
  modify fun s => { s with frames := (s.frames.set_root args).2 }
  frames (write frame_id (·.extend_inherited (channelsOf initial_channels)))
  pure frame_id

def write_to_inherited_channels (frame_id : FrameId) (values : List (ChannelName × Value)) :
    Ckp Unit := do
  let spec ← frames (common_spec_of self.graphs frame_id)
  let _ ← frames (try_get self.session_id frame_id)
  frames (write frame_id
    (·.extend_inherited (restrict spec.inherited_channels (channelsOf values))))

/-- What `inherit_from_parent` and `inherit_from_prev_sibling` have in common: the channels
and the superstep that `frame_id` takes from the last snapshot of `source`. -/
def inherit_from (source frame_id : FrameId) : Ckp Unit := do
  let snapshot ← snapshots (SessionSnapshots.latest source)
  let spec ← frames (common_spec_of self.graphs frame_id)
  frames (write frame_id fun n =>
    { n.extend_inherited (restrict spec.inherited_channels snapshot.channels) with
      superstep := snapshot.superstep })

def inherit_from_parent (frame_id : FrameId) : Ckp Unit := do
  match ← frames (asks (parent_of · frame_id)) with
  | some parent_id => self.inherit_from parent_id frame_id
  | none => pure ()

def inherit_from_prev_sibling (frame_id : FrameId) : Ckp Unit := do
  match ← frames (asks (prev_sibling_of · frame_id)) with
  | some sibling => self.inherit_from sibling frame_id
  | none => pure ()

/-- The choice of `append_frame`. The new frame is a child of its parent by then, so the list of
children is not empty. -/
def inherit_channels (policy : FramePolicy) (parent_id frame_id : FrameId) : Ckp Unit := do
  if policy.resume_policy = .Sequential then
    let children ← frames (asks (iter_children_of · parent_id))
    if children.head?.isSome then self.inherit_from_prev_sibling frame_id
    else self.inherit_from_parent frame_id
  else self.inherit_from_parent frame_id

def append_frame (parent_id : FrameId) (args : NewFrameNodeArgs) : Ckp FrameId := do
  let tree ← asks State.frames
  let frame_id := (tree.append parent_id args).1
  modify fun s => { s with frames := (s.frames.append parent_id args).2 }
  let policy ← frames (policy_of parent_id)
  let spec ← frames (common_spec_of self.graphs frame_id)
  frames (write frame_id (·.extend_inherited spec.default_values))
  self.inherit_channels policy parent_id frame_id
  emit (.FrameCreated frame_id)
  pure frame_id

end SessionCheckpointer

/-! ## Joins -/

/-- The loop of `drain_pending_accumulators` over the channels that one child exports. -/
def export_channels (parent_spec child_spec : CommonSpec) (channels : Channels)
    (per_channel : List (ChannelName × List Value)) : List (ChannelName × List Value) :=
  child_spec.exported_channels.foldl
    (fun m exported =>
      if exported ∈ parent_spec.imported_channels then
        match channels.get exported with
        | some value => push_entry exported value m
        | none => m
      else m)
    per_channel

/-- The updates that `drain_pending_accumulators` makes of the values of each channel. -/
def accumulated (contributor : FrameId) (per_channel : List (ChannelName × List Value)) :
    List ChannelUpdate :=
  per_channel.flatMap fun e => e.2.map fun value => { name := e.1, value, contributor }

/-- The object of the exported channels of a sub-graph. -/
def exported_object (spec : CommonSpec) (channels : Channels) : Value :=
  .Object (spec.exported_channels.foldl
    (fun fields name =>
      match channels.get name with
      | some v => insert_field name v fields
      | none => fields)
    [])

namespace SessionCheckpointer

variable (self : SessionCheckpointer)

def drain_child (parent_spec : CommonSpec) (per_channel : List (ChannelName × List Value))
    (child_id : FrameId) : Ckp (List (ChannelName × List Value)) := do
  let child_spec ← frames (common_spec_of self.graphs child_id)
  let child_snapshot ← snapshots (SessionSnapshots.latest child_id)
  pure (export_channels parent_spec child_spec child_snapshot.channels per_channel)

/-- The code keeps the values by channel in a `HashMap`; here the channels stand in the order
of their first value. -/
def drain_pending_accumulators (frame_id : FrameId) (relevants : List FrameId) :
    Ckp (List ChannelUpdate) := do
  let parent_spec ← frames (common_spec_of self.graphs frame_id)
  let per_channel ← relevants.foldlM (self.drain_child parent_spec) []
  pure (accumulated frame_id per_channel)

/-- What a child with these channels gives to a pending entry, if anything. -/
def resolved_by (content : RunLogContent) (child_id : FrameId) (spec_ref : FrameSpecRef)
    (channels : Channels) : Ckp (Option Value) :=
  match content, spec_ref with
  | .HitlLog _, .Hitl => pure (channels.get "hitl_answer")
  | .ConsultExpertsLog _, .ExpertAggregator => pure (channels.get "expert_consultation_answer")
  | .CallToolsLog _, .ToolAggregator => pure (channels.get "tool_result")
  | .GraphLog _, .Graph _ => do
    let sub_spec ← frames (common_spec_of self.graphs child_id)
    pure (some (exported_object sub_spec channels))
  | _, _ => pure none

/-- The loop of `resolve_pending_log`: the first child that gives a value ends it. -/
def resolve_from (frame_id : FrameId) (pending : RunLog) : List FrameId → Ckp Unit
  | [] => pure ()
  | child_id :: rest => do
    let child_spec_ref ← frames (spec_ref_of child_id)
    let snapshot ← snapshots (SessionSnapshots.latest child_id)
    match ← self.resolved_by pending.content child_id child_spec_ref snapshot.channels with
    | some value => frames (resolve_log frame_id pending.index value)
    | none => resolve_from frame_id pending rest

def resolve_pending_log (frame_id : FrameId) (relevants : List FrameId) : Ckp Unit := do
  match ← frames (pending_log_of frame_id) with
  | some pending => self.resolve_from frame_id pending relevants
  | none => pure ()

/-- The third step of `commit_snapshot`: the updates, reduced channel by channel. -/
def apply_updates (frame_id : FrameId) (channels : Channels) (updates : List ChannelUpdate) :
    Ckp Channels :=
  if updates.isEmpty then pure channels
  else do
    let spec ← frames (common_spec_of self.graphs frame_id)
    pure (commit_channels spec channels updates)

/-- `SessionSnapshots::push`, with what the surroundings do after it. -/
def push (snapshot : Snapshot) : Ckp SnapshotRef := do
  let snap_ref ← snapshots (SessionSnapshots.push snapshot)
  modify fun s =>
    if self.flush_on_push then { s with snapshots := s.snapshots.flush snap_ref } else s
  pure snap_ref

/-- The sum `expected_superstep + 1` is checked: it panics past the end of `u32`. -/
def commit_snapshot (frame_id : FrameId) (expected_superstep : Nat)
    (updates : List ChannelUpdate) (join_sources : List SnapshotRef) : Ckp SnapshotRef := do
  let last ← snapshots (SessionSnapshots.latest frame_id)
  if last.superstep ≠ expected_superstep then
    throw (.error (.StaleSuperstep expected_superstep last.superstep))
  else
    let channels ← self.apply_updates frame_id last.channels updates
    if 2 ^ 32 ≤ expected_superstep + 1 then throw (.panic "attempt to add with overflow")
    else
      self.push
        { session_id := self.session_id, frame_id, superstep := expected_superstep + 1, channels,
          join_sources }

/-! ## Frames of a graph -/

def append_graph_node (parent_id : FrameId) (graph_ref : GraphRef) (node_id : NodeId) :
    Ckp Unit := do
  let _ ← self.append_frame parent_id
    { spec_ref := .Graph graph_ref, data := .GraphNode graph_ref node_id }

def append_graph_thread (parent_id : FrameId) (graph_ref : GraphRef) (start : NodeId) :
    Ckp FrameId := do
  let thread_id ← self.append_frame parent_id
    { frame_policy :=
        { on_child_failed := .FailIfAtLeastHasFailed 1, resume_policy := .Sequential }
      spec_ref := .Graph graph_ref
      data := .GraphThread graph_ref }
  mark_as_waiting_children thread_id
  self.append_graph_node thread_id graph_ref start
  pure thread_id

/-- One turn of the loop of `append_graph_span`. -/
def append_branch (span_id : FrameId) (graph_ref : GraphRef) (branch : Branch) : Ckp Unit := do
  let frame_id ← self.append_graph_thread span_id graph_ref branch.start
  if branch.overrides.isEmpty then pure ()
  else self.write_to_inherited_channels frame_id branch.overrides

def append_graph_span (parent_id : FrameId) (graph_ref : GraphRef) (branches : List Branch)
    (join : NodeId) : Ckp Unit := do
  let span_id ← self.append_frame parent_id
    { frame_policy :=
        { on_child_failed := .FailIfAtLeastHasFailed 1, resume_policy := .FanIn }
      spec_ref := .Graph graph_ref
      data := .GraphSpan graph_ref join }
  mark_as_waiting_children span_id
  branches.forM (self.append_branch span_id graph_ref)

def append_graph (parent_id : FrameId) (graph_id : GraphId) : Ckp Unit := do
  match self.graphs.latest graph_id with
  | .error error => throw (.error (.CatalogError error))
  | .ok none => throw (.error (.GraphNotFound graph_id))
  | .ok (some graph_ref) =>
    match self.graphs.get graph_ref with
    | .error error => throw (.error (.CatalogError error))
    | .ok graph_spec =>
      let frame_id ← self.append_frame parent_id
        { frame_policy :=
            { on_child_failed := .FailIfAtLeastHasFailed 1
              resume_policy := .Sequential
              on_start_policy := .AppendGraphThread graph_ref graph_spec.entry }
          spec_ref := .Graph graph_ref
          data := .Graph graph_ref }
      mark_as_waiting_children frame_id

/-! ## Frames of experts and tools -/

/-- The call of `write_to_inherited_channels` is not awaited. -/
def append_expert_consultation (parent_id : FrameId) (request : RequestAskExpert) :
    Ckp Unit := do
  let expert_id ← self.append_frame parent_id { spec_ref := .Expert, data := .ExpertConsultation }
  unpolled (self.write_to_inherited_channels expert_id
    [("expert_id", .String request.expert_id),
      ("expert_consultation_task", .String request.task)])

def append_experts_consultations (callee_id : FrameId) (requests : List RequestAskExpert) :
    Ckp Unit :=
  requests.forM (self.append_expert_consultation callee_id)

def append_tool_call (parent_id : FrameId) (request : RequestToolCall) : Ckp Unit := do
  let id ← next_id
  let _ ← self.append_frame parent_id
    { spec_ref := .ToolCall, data := .ToolCall ⟨id⟩ request.name request.parameters }

def append_tool_aggregator (callee_id : FrameId) : Ckp FrameId := do
  let agg_id ← self.append_frame callee_id
    { frame_policy :=
        { on_child_failed := .FailIfAtLeastHasFailed 1, resume_policy := .FanIn }
      spec_ref := .ToolAggregator
      data := .Void }
  mark_as_waiting_children agg_id
  pure agg_id

def append_tool_calls (callee_id : FrameId) (requests : List RequestToolCall) : Ckp Unit := do
  let agg_id ← self.append_tool_aggregator callee_id
  requests.forM (self.append_tool_call agg_id)

end SessionCheckpointer

/-! ## Children of a frame -/

def all_have_terminated (ids : List FrameId) : Tree Bool :=
  ids.allM fun id => do pure (← get id).has_terminated

def all_children_have_terminated (parent_id : FrameId) : Tree Bool := do
  all_have_terminated (← asks (iter_children_of · parent_id))

def count_failed_frame_child (parent_id : FrameId) : Tree Nat := do
  let children ← asks (iter_children_of · parent_id)
  let failed ← children.filterM fun child_id => do pure (← status_of child_id).has_failed
  pure failed.length

namespace SessionCheckpointer

variable (self : SessionCheckpointer)

/-! ## Handlers -/

def resume_frame (frame_id : FrameId) : Ckp Unit := do
  match ← frames (on_resume_policy frame_id) with
  | .RunFrame => mark_ready_to_run_frame frame_id
  | .MarkComplete => mark_completed_frame frame_id

/-- Finds the frame by the rows of the store, and ends in `todo!()`. -/
def on_hitl_response (hitl_id : HitlId) (answers : Answers) : Ckp Unit := do
  match ← frames (frame_id_bound_to_hitl_id hitl_id) with
  | none => pure ()
  | some frame_id =>
    match ← frames (log_index_bound_to_hitl_id frame_id hitl_id) with
    | none => throw (.panic "called Option::unwrap() on a None value")
    | some run_log_index =>
      frames (resolve_log frame_id run_log_index (answers_to_value answers))
      mark_ready_to_run_frame frame_id
      throw (.panic "not yet implemented")

/-- The errors of the three `append_graph_*` are ignored. -/
def on_frame_created (frame_id : FrameId) : Ckp Unit := do
  match ← frames (status_of frame_id) with
  | .Pending =>
    match (← frames (policy_of frame_id)).on_start_policy with
    | .RunFrame => mark_ready_to_run_frame frame_id
    | .AppendGraphThread graph_ref start =>
      ignore Fault.isError (self.append_graph_thread frame_id graph_ref start)
      mark_as_waiting_children frame_id
    | .AppendGraphSpan graph_ref join branches =>
      ignore Fault.isError (self.append_graph_span frame_id graph_ref branches join)
      mark_as_waiting_children frame_id
    | .AppendGraphNode graph_ref start =>
      ignore Fault.isError (self.append_graph_node frame_id graph_ref start)
      frames (set_resume_policy frame_id .Sequential)
      mark_as_waiting_children frame_id
  | _ => pure ()

def on_frame_ready (frame_id : FrameId) : Ckp Unit := self.run_frame frame_id

/-- The mark sends `FrameRunTerminated`, and the handler sends it once more. -/
def on_frame_run_update (frame_id : FrameId) (state : JobState FrameResponse) : Ckp Unit := do
  match state with
  | .Completed response =>
    mark_frame_run_completed frame_id response
    emit (.FrameRunTerminated frame_id)
  | .Failed error =>
    mark_frame_run_failed frame_id error
    emit (.FrameRunTerminated frame_id)
  | _ => pure ()

/-- The updates of a run are committed, when there are some. -/
def commit_updates (frame_id : FrameId) (updates : List ChannelUpdate) : Ckp Unit := do
  if updates.isEmpty then pure ()
  else
    let generation := (← snapshots (SessionSnapshots.latest frame_id)).superstep
    let _ ← self.commit_snapshot frame_id generation updates []

/-- The first half of `on_frame_run_terminated`: the updates of the run are committed, and its
new entries join the log of the frame. -/
def record_run (frame_id : FrameId) (response : FrameResponse) : Ckp Unit := do
  self.commit_updates frame_id response.updates
  if response.new_logs.isEmpty then pure ()
  else frames (append_logs frame_id response.new_logs)

/-- The second half of `on_frame_run_terminated`: the dispatch on the result of the run. The
futures of `bind_hitl_to_log`, of each `set_resume_policy` and of the `set_reduce_policy` of a
fork are not awaited. -/
def dispatch (frame_id : FrameId) (result : FrameResult) : Ckp Unit := do
  match result with
  | .RequestHitl hitl =>
    let hitl_id ← self.request hitl
    let logs ← frames (logs_of frame_id)
    unpolled (frames (bind_hitl_to_log frame_id (logs.length % 2 ^ 32) hitl_id))
    unpolled (frames (set_resume_policy frame_id .Hitl))
    mark_as_waiting_children frame_id
  | .ConsultExperts requests =>
    self.append_experts_consultations frame_id requests
    unpolled (frames (set_resume_policy frame_id .FanIn))
    frames (set_reduce_policy frame_id .Reduce)
    mark_as_waiting_children frame_id
  | .CallTools requests =>
    self.append_tool_calls frame_id requests
    unpolled (frames (set_resume_policy frame_id .FanIn))
    frames (set_reduce_policy frame_id .Reduce)
    mark_as_waiting_children frame_id
  | .ExecuteGraph graph_id =>
    self.append_graph frame_id graph_id
    mark_as_waiting_children frame_id
  | .Continue =>
    match ← frames (asks (parent_of · frame_id)) with
    | none => pure ()
    | some parent_id =>
      match ← frames (data_of frame_id) with
      | .GraphNode graph_ref node_id =>
        match self.graphs.get graph_ref with
        | .error error => throw (.error (.CatalogError error))
        | .ok graph_spec =>
          match graph_spec.edges node_id with
          | none => pure ()
          | some next =>
            self.append_graph_node parent_id graph_ref next
            mark_completed_frame frame_id
      | _ => pure ()
  | .GoTo node_id =>
    match ← frames (asks (parent_of · frame_id)) with
    | none => pure ()
    | some parent_id =>
      match ← frames (data_of frame_id) with
      | .GraphNode graph_ref _ =>
        self.append_graph_node parent_id graph_ref node_id
        mark_completed_frame frame_id
      | _ => pure ()
  | .Fork branches join =>
    match ← frames (asks (parent_of · frame_id)) with
    | none => pure ()
    | some parent_id =>
      match ← frames (spec_ref_of parent_id) with
      | .Graph graph_ref =>
        self.append_graph_span parent_id graph_ref branches join
        unpolled (frames (set_resume_policy parent_id .Sequential))
        unpolled (frames (set_reduce_policy parent_id .DontReduce))
        mark_as_waiting_children parent_id
        mark_completed_frame frame_id
      | _ => throw (.panic "not a graph ref")
  | .Completed => mark_completed_frame frame_id
  | .Failed err => mark_failed_frame err frame_id

def on_frame_run_terminated (frame_id : FrameId) : Ckp Unit := do
  match ← frames (status_of frame_id) with
  | .RunCompleted response =>
    self.record_run frame_id response
    self.dispatch frame_id response.result
  | _ => pure ()

def on_frame_terminated (frame_id : FrameId) : Ckp Unit := do
  match ← frames (asks (parent_of · frame_id)) with
  | some parent_id => emit (.ChildFrameTerminated parent_id frame_id)
  | none => pure ()

/-- The failure policy of a parent, asked when a child with this status has terminated: the
count of the policy when it is reached. -/
def failure_reached (frame_id : FrameId) (child_status : FrameStatus)
    (on_child_failed : ChildFailurePolicy) : Ckp (Option Nat) := do
  match child_status, on_child_failed with
  | .Failed _, .FailIfAtLeastHasFailed count =>
    let failed ← frames (count_failed_frame_child frame_id)
    pure (if count ≤ failed then some count else none)
  | _, _ => pure none

/-- What the branch `Sequential` takes from a last child that has completed. -/
def commit_last_child (frame_id last_child : FrameId) : Ckp Unit := do
  let generation := (← snapshots (SessionSnapshots.latest frame_id)).superstep
  let child_snapshot_ref := (← snapshots (SessionSnapshots.latest frame_id)).ref
  let updates ← self.drain_pending_accumulators frame_id [last_child]
  let _ ← self.commit_snapshot frame_id generation updates [child_snapshot_ref]
  self.resolve_pending_log frame_id [last_child]

def join_last_child (frame_id last_child : FrameId) : Ckp Unit := do
  match ← frames (status_of last_child) with
  | .Completed => self.commit_last_child frame_id last_child
  | _ => pure ()

/-- The branch `Sequential` of `on_child_frame_terminated`. The frame resumes whatever the
status of its last child. -/
def join_sequential (frame_id : FrameId) : Ckp Unit := do
  match ← frames (last_child_of frame_id) with
  | none => mark_ready_to_run_frame frame_id
  | some last_child =>
    self.join_last_child frame_id last_child
    resume_frame frame_id

/-- What the branch `FanIn` takes from its children that have completed. -/
def join_children (frame_id : FrameId) : Ckp Unit := do
  let generation := (← snapshots (SessionSnapshots.latest frame_id)).superstep
  let children ← frames (asks (iter_children_of · frame_id))
  let relevant_children ← children.filterM fun child_id => do
    pure (← frames (status_of child_id)).has_completed
  let join_sources ← relevant_children.mapM fun child_id => do
    pure (← snapshots (SessionSnapshots.latest child_id)).ref
  let updates ← self.drain_pending_accumulators frame_id relevant_children
  let _ ← self.commit_snapshot frame_id generation updates join_sources
  self.resolve_pending_log frame_id relevant_children

/-- The branch `FanIn` of `on_child_frame_terminated`, when every child has terminated. -/
def join_fan_in (frame_id : FrameId) : Ckp Unit := do
  self.join_children frame_id
  resume_frame frame_id

def on_child_frame_terminated (frame_id child_id : FrameId) : Ckp Unit := do
  let child_status ← frames (status_of child_id)
  let parent_policy ← frames (policy_of frame_id)
  match ← failure_reached frame_id child_status parent_policy.on_child_failed with
  | some count =>
    mark_failed_frame ("au moins " ++ toString count ++ " enfants ont échoué") frame_id
  | none =>
    match parent_policy.resume_policy with
    | .Sequential => self.join_sequential frame_id
    | .FanIn =>
      if ← frames (all_children_have_terminated frame_id) then self.join_fan_in frame_id
    | .Hitl => pure ()

/-! ## Events -/

/-- The handler of an event. -/
def on_event (event : SessionCheckpointEvent) : Ckp Unit :=
  match event with
  | .SessionCreated => pure ()
  | .FrameCreated frame_id => self.on_frame_created frame_id
  | .HitlAnswered response => on_hitl_response response.id response.answers
  | .FrameRunJobStateUpdate frame_id job_state => on_frame_run_update frame_id job_state
  | .FrameReady frame_id => self.on_frame_ready frame_id
  | .FrameRunTerminated frame_id => self.on_frame_run_terminated frame_id
  | .ChildFrameTerminated parent_id child_id => self.on_child_frame_terminated parent_id child_id
  | .FrameTerminated frame_id => on_frame_terminated frame_id

/-- An error of the handler fails the session; a panic ends the task of the checkpointer. -/
def process_event (event : SessionCheckpointEvent) : Ckp Unit :=
  tryCatch (self.on_event event) fun
    | .error error => do
      modify fun s => { s with session_status := .Failed error.to_string }
      throw (.error error)
    | .panic message => throw (.panic message)

/-- The state after an event. -/
def step (s : State) (event : SessionCheckpointEvent) : State :=
  (exec (self.process_event event) s).2

/-- The handler of an event panics. -/
def panics (s : State) (event : SessionCheckpointEvent) : Bool :=
  match (exec (self.process_event event) s).1 with
  | .error (.panic _) => true
  | _ => false

/-! ## Runs -/

end SessionCheckpointer

/-- What happens to a session: the checkpointer takes an event, or the snapshots change beside
it. -/
inductive SessionMove
  | event (event : SessionCheckpointEvent)
  | snapshots (snapshots : SessionSnapshots)

namespace SessionCheckpointer

variable (self : SessionCheckpointer)

/-- The loop of the checkpointer. It goes on after an error, and a panic ends it. -/
def run (s : State) : List SessionMove → State
  | [] => s
  | .event event :: moves =>
    if self.panics s event then self.step s event else run (self.step s event) moves
  | .snapshots snapshots :: moves => run { s with snapshots } moves

/-- Each event that a run takes finds a state with `C`. -/
def Along (C : State → SessionCheckpointEvent → Prop) (s : State) : List SessionMove → Prop
  | [] => True
  | .event event :: moves =>
    C s event ∧ (self.panics s event = false → Along C (self.step s event) moves)
  | .snapshots snapshots :: moves => Along C { s with snapshots } moves

/-- What each event keeps, the run keeps. -/
theorem run_keeps {C : State → SessionCheckpointEvent → Prop} {I : State → Prop}
    (hstep : ∀ s event, I s → C s event → I (self.step s event))
    (hsnapshots : ∀ s snapshots, I s → I { s with snapshots }) (s : State) (moves : List SessionMove)
    (hs : I s) (h : self.Along C s moves) : I (self.run s moves) := by
  induction moves generalizing s with
  | nil => exact hs
  | cons move moves ih =>
    cases move with
    | snapshots t => exact ih _ (hsnapshots s t hs) h
    | event event =>
      have hnext := hstep s event hs h.1
      unfold run
      cases hp : self.panics s event with
      | true => exact hnext
      | false => exact ih _ hnext (h.2 hp)

end SessionCheckpointer

end marie.session
