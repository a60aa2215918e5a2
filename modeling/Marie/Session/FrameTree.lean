-- The tree of frames of a session: a cache of nodes over a store. A read by
-- `get` loads a node that is only in the store; the links of the tree are
-- read from the cache alone.
import Marie.Lib.Program
import Marie.Session.RunLog

namespace marie.session

/-! ## Frames -/

inductive FrameStatus
  | Pending
  | RunCompleted (response : FrameResponse)
  | RunFailed (error : String)
  | Failed (error : String)
  | Completed
  | Ready
  | Running (state : JobState Value)
  | RunExhausted
  | WaitingChildren

namespace FrameStatus

def has_terminated : FrameStatus → Bool
  | .Failed _ | .Completed => true
  | _ => false

def has_completed : FrameStatus → Bool
  | .Completed => true
  | _ => false

def has_failed : FrameStatus → Bool
  | .Failed _ => true
  | _ => false

end FrameStatus

inductive ReducePolicy
  | DontReduce
  | Reduce
deriving DecidableEq

inductive OnStartPolicy
  | RunFrame
  | AppendGraphThread (graph_ref : GraphRef) (start : NodeId)
  | AppendGraphSpan (graph_ref : GraphRef) (join : NodeId) (branches : List Branch)
  | AppendGraphNode (graph_ref : GraphRef) (start : NodeId)

inductive OnResumePolicy
  | RunFrame
  | MarkComplete
deriving DecidableEq

inductive ChildFailurePolicy
  | FailIfAtLeastHasFailed (count : Nat)
  | DontFail
deriving DecidableEq

inductive ResumePolicy
  | Sequential
  | Hitl
  | FanIn
deriving DecidableEq

/-- The default of each field is the `#[default]` of its type. -/
structure FramePolicy where
  on_child_failed : ChildFailurePolicy := .DontFail
  resume_policy : ResumePolicy := .Sequential
  reduce_policy : ReducePolicy := .DontReduce
  on_resume_policy : OnResumePolicy := .RunFrame
  on_start_policy : OnStartPolicy := .RunFrame

inductive FrameSpecRef
  | Graph (graph_ref : GraphRef)
  | ToolAggregator
  | ToolCall
  | Expert
  | ExpertAggregator
  | Hitl
deriving DecidableEq

inductive ShellMode
  | LoopModel (system_prompt model_id : String) (allowed_tools : List String)
  | Expert (expert_id : ExpertId)

inductive FrameKind
  | Void
  | Shell (mode : ShellMode)
  | Hitl (hitl_id : HitlId)
  | ExpertConsultation
  | ToolCall (id : ToolCallId) (name : ToolName) (parameters : Value)
  | Graph (graph_ref : GraphRef)
  | GraphNode (graph_ref : GraphRef) (node_id : NodeId)
  | GraphThread (graph_ref : GraphRef)
  | GraphSpan (graph_ref : GraphRef) (join : NodeId)

structure NewFrameNodeArgs where
  spec_ref : FrameSpecRef
  data : FrameKind
  inherited_channels : Channels := Channels.empty
  forked_from : Option SnapshotRef := none
  frame_policy : FramePolicy := {}
  barrier : Bool := false
  superstep : Nat := 0

structure FrameNode where
  id : FrameId
  status : FrameStatus
  frame_policy : FramePolicy
  superstep : Nat
  barrier : Bool
  forked_from : Option SnapshotRef
  inherited_channels : Channels
  spec_ref : FrameSpecRef
  data : FrameKind
  logs : List RunLog
  hitl_aliases : List (Nat × HitlId)
  is_root : Bool
  parent : Option FrameId
  next_sibling : Option FrameId
  prev_sibling : Option FrameId
  children : List FrameId

namespace FrameNode

def new (id : FrameId) (args : NewFrameNodeArgs) : FrameNode where
  id := id
  data := args.data
  forked_from := args.forked_from
  status := .Pending
  inherited_channels := args.inherited_channels
  superstep := args.superstep
  frame_policy := args.frame_policy
  barrier := args.barrier
  spec_ref := args.spec_ref
  logs := []
  hitl_aliases := []
  is_root := false
  parent := none
  next_sibling := none
  prev_sibling := none
  children := []

def has_terminated (n : FrameNode) : Bool := n.status.has_terminated

/-- `inherited_channels.extend(..)`. -/
def extend_inherited (n : FrameNode) (values : Channels) : FrameNode :=
  { n with inherited_channels := n.inherited_channels.extend values }

def bind_hitl_to_log (n : FrameNode) (index : Nat) (hitl_id : HitlId) : FrameNode :=
  { n with hitl_aliases := (index, hitl_id) :: n.hitl_aliases.filter (·.1 ≠ index) }

def log_index_of_hitl (n : FrameNode) (hitl_id : HitlId) : Option Nat :=
  (n.hitl_aliases.find? (·.2 = hitl_id)).map (·.1)

end FrameNode

/-! ## The tree -/

structure FrameNodeContainer where
  node : FrameNode
  dirty : Bool

/-- The frames of one session: the cache (`arena`) and the rows of the store. `next` is the
first identifier that no frame has. -/
structure FrameTree where
  store : FrameId → Option FrameNode
  arena : FrameId → Option FrameNodeContainer
  next : Nat
  store_fresh : ∀ id : FrameId, next ≤ id.id → store id = none
  arena_fresh : ∀ id : FrameId, next ≤ id.id → arena id = none

namespace FrameTree

/-- `FrameTree::new` over a store with no frame. -/
def new : FrameTree where
  store _ := none
  arena _ := none
  next := 0
  store_fresh _ _ := rfl
  arena_fresh _ _ := rfl

/-- One more than the largest identifier of these nodes. -/
def nextOf : List FrameNode → Nat
  | [] => 0
  | n :: nodes => max (n.id.id + 1) (nextOf nodes)

theorem id_lt_nextOf {nodes : List FrameNode} {n : FrameNode} (h : n ∈ nodes) :
    n.id.id < nextOf nodes := by
  induction nodes with
  | nil => cases h
  | cons m nodes ih =>
    simp only [nextOf]
    rcases List.mem_cons.mp h with rfl | h
    · omega
    · have := ih h
      omega

/-- A tree whose cache holds these nodes. -/
def ofNodes (nodes : List FrameNode) : FrameTree where
  store _ := none
  arena x := (nodes.find? (·.id = x)).map (⟨·, true⟩)
  next := nextOf nodes
  store_fresh _ _ := rfl
  arena_fresh := by
    intro x hx
    rw [Option.map_eq_none_iff, List.find?_eq_none]
    intro n hn heq
    have := id_lt_nextOf hn
    simp only [decide_eq_true_eq] at heq
    rw [heq] at this
    omega

/-- The node `id`: the one of the cache, else the one of the store. -/
def find (t : FrameTree) (id : FrameId) : Option FrameNode :=
  match t.arena id with
  | some c => some c.node
  | none => t.store id

/-- A node that is only in the store enters the cache. -/
def load (t : FrameTree) (id : FrameId) : FrameTree where
  store := t.store
  arena x := if x = id then (t.arena x).or ((t.store x).map (fun n => ⟨n, false⟩)) else t.arena x
  next := t.next
  store_fresh := t.store_fresh
  arena_fresh := by
    intro x hx
    simp [t.arena_fresh x hx, t.store_fresh x hx]

/-- A write through the lock of a node of the cache; nothing when the node is not there. -/
def edit (t : FrameTree) (id : FrameId) (f : FrameNode → FrameNode) : FrameTree where
  store := t.store
  arena x := if x = id then (t.arena x).map (fun c => ⟨f c.node, true⟩) else t.arena x
  next := t.next
  store_fresh := t.store_fresh
  arena_fresh := by
    intro x hx
    simp [t.arena_fresh x hx]

/-! ### Links -/

def parent_of (t : FrameTree) (id : FrameId) : Option FrameId :=
  (t.arena id).bind (·.node.parent)

def next_sibling_of (t : FrameTree) (id : FrameId) : Option FrameId :=
  (t.arena id).bind (·.node.next_sibling)

def prev_sibling_of (t : FrameTree) (id : FrameId) : Option FrameId :=
  (t.arena id).bind (·.node.prev_sibling)

def iter_children_of (t : FrameTree) (parent : FrameId) : List FrameId :=
  match t.arena parent with
  | some c => c.node.children
  | none => []

def create_node (t : FrameTree) (args : NewFrameNodeArgs) : FrameId × FrameTree :=
  (⟨t.next⟩,
    { store := t.store
      arena := fun x =>
        if x = ⟨t.next⟩ then some ⟨.new ⟨t.next⟩ args, true⟩ else t.arena x
      next := t.next + 1
      store_fresh := fun x hx => t.store_fresh x (by omega)
      arena_fresh := by
        intro x hx
        have hne : x ≠ ⟨t.next⟩ := by rintro rfl; simp only at hx; omega
        simp [hne, t.arena_fresh x (by omega)] })

def detach_from_siblings (t : FrameTree) (id : FrameId) : FrameTree :=
  match t.arena id with
  | none => t
  | some c =>
    let t := match c.node.prev_sibling with
      | some p => t.edit p (fun n => { n with next_sibling := c.node.next_sibling })
      | none => t
    let t := match c.node.next_sibling with
      | some x => t.edit x (fun n => { n with prev_sibling := c.node.prev_sibling })
      | none => t
    t.edit id (fun n => { n with prev_sibling := none, next_sibling := none })

def detach_from_parent (t : FrameTree) (id : FrameId) : FrameTree :=
  match t.parent_of id with
  | none => t
  | some p =>
    (t.edit p (fun n => { n with children := n.children.filter (· ≠ id) })).edit id
      (fun n => { n with parent := none })

def detach (t : FrameTree) (id : FrameId) : FrameTree :=
  (t.detach_from_siblings id).detach_from_parent id

def link_siblings (t : FrameTree) (prev next : FrameId) : FrameTree :=
  (t.edit prev (fun n => { n with next_sibling := some next })).edit next
    (fun n => { n with prev_sibling := some prev })

def insert_child (t : FrameTree) (parent child : FrameId) (index : Nat) : FrameTree :=
  let t := t.detach child
  match t.arena parent with
  | none => t
  | some c =>
    let index := min index c.node.children.length
    let prev := if index = 0 then none else c.node.children[index - 1]?
    let t := match prev with
      | some p => t.link_siblings p child
      | none => t.edit child (fun n => { n with prev_sibling := none })
    let t := match c.node.children[index]? with
      | some x => t.link_siblings child x
      | none => t.edit child (fun n => { n with next_sibling := none })
    let t := t.edit parent (fun n => { n with children := n.children.insertIdx index child })
    t.edit child (fun n => { n with parent := some parent })

def insert (t : FrameTree) (parent : FrameId) (args : NewFrameNodeArgs) (position : Nat) :
    FrameId × FrameTree :=
  let (id, t) := t.create_node args
  (id, t.insert_child parent id position)

def append (t : FrameTree) (parent : FrameId) (args : NewFrameNodeArgs) : FrameId × FrameTree :=
  let position := match t.arena parent with
    | some c => c.node.children.length
    | none => 0
  t.insert parent args position

def set_root (t : FrameTree) (args : NewFrameNodeArgs) : FrameId × FrameTree :=
  let (id, t) := t.create_node args
  (id, t.edit id (fun n => { n with is_root := true }))

/-! ### Reads and writes of a node -/

end FrameTree

/-- Programs over the frames of a session. -/
abbrev Tree := Program Fault FrameTree

namespace FrameTree

open Program

def try_get (session_id : SessionId) (id : FrameId) : Tree FrameNode := do
  match ← asks (find · id) with
  | some node =>
    modify (load · id)
    pure node
  | none => throw (.error (.StorageError (.FrameNotFound session_id id)))

def get (id : FrameId) : Tree FrameNode := do
  match ← asks (find · id) with
  | some node =>
    modify (load · id)
    pure node
  | none => throw (.panic "frame introuvable ou erreur de stockage")

/-- `self.get(id).await.lock()`, written through. -/
def write (id : FrameId) (f : FrameNode → FrameNode) : Tree Unit := do
  let _ ← get id
  modify (edit · id f)

def status_of (id : FrameId) : Tree FrameStatus := do pure (← get id).status

def data_of (id : FrameId) : Tree FrameKind := do pure (← get id).data

def spec_ref_of (id : FrameId) : Tree FrameSpecRef := do pure (← get id).spec_ref

def policy_of (id : FrameId) : Tree FramePolicy := do pure (← get id).frame_policy

def set_policy_of (id : FrameId) (policy : FramePolicy) : Tree Unit :=
  write id (fun n => { n with frame_policy := policy })

/-- The call of `set_policy_of` is not awaited. -/
def set_resume_policy (id : FrameId) (resume_policy : ResumePolicy) : Tree Unit := do
  let policy ← policy_of id
  unpolled (set_policy_of id { policy with resume_policy })

/-- As `set_resume_policy`: the call of `set_policy_of` is not awaited. -/
def set_reduce_policy (id : FrameId) (reduce_policy : ReducePolicy) : Tree Unit := do
  let policy ← policy_of id
  unpolled (set_policy_of id { policy with reduce_policy })

def on_resume_policy (id : FrameId) : Tree OnResumePolicy := do
  pure (← policy_of id).on_resume_policy

def logs_of (id : FrameId) : Tree (List RunLog) := do pure (← get id).logs

def pending_log_of (id : FrameId) : Tree (Option RunLog) := do
  pure (pending_log (← get id).logs)

def append_logs (id : FrameId) (new_logs : List RunLog) : Tree Unit :=
  if new_logs.isEmpty then pure ()
  else write id (fun n => { n with logs := n.logs ++ new_logs })

def resolve_log (id : FrameId) (index : Nat) (value : Value) : Tree Unit :=
  write id (fun n => { n with logs := resolve_entry index value n.logs })

def set_status (id : FrameId) (status : FrameStatus) : Tree Unit :=
  write id (fun n => { n with status })

def bind_hitl_to_log (id : FrameId) (index : Nat) (hitl_id : HitlId) : Tree Unit :=
  write id (fun n => n.bind_hitl_to_log index hitl_id)

def log_index_bound_to_hitl_id (id : FrameId) (hitl_id : HitlId) : Tree (Option Nat) := do
  pure ((← get id).log_index_of_hitl hitl_id)

/-- `get_frame_id_by_hitl_id`: a row of the store whose kind is this request. The code takes
any such row; here the one of the oldest frame. -/
def get_frame_id_by_hitl_id (t : FrameTree) (hitl_id : HitlId) : Option FrameId :=
  ((List.range t.next).map FrameId.mk).find? fun id =>
    match t.store id with
    | some { data := .Hitl h, .. } => h = hitl_id
    | _ => false

def frame_id_bound_to_hitl_id (hitl_id : HitlId) : Tree (Option FrameId) :=
  asks (get_frame_id_by_hitl_id · hitl_id)

def last_child_of (parent : FrameId) : Tree (Option FrameId) := do
  pure (← get parent).children.getLast?

def common_spec_of (graphs : Graphs) (id : FrameId) : Tree CommonSpec := do
  match (← get id).spec_ref with
  | .Graph graph_ref =>
    match graphs.get graph_ref with
    | .ok graph_spec => pure graph_spec.common
    | .error _ => throw (.panic "called Result::unwrap() on an Err value")
  | .Hitl => pure .hitl
  | .ToolCall => pure .tool
  | .ToolAggregator => pure .tool_aggregator
  | .Expert => pure .expert
  | .ExpertAggregator => pure .expert_aggregator

end FrameTree

end marie.session
