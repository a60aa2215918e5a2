-- A frame as the store has it: with every field that `serde` writes, the
-- identifiers in their 128 bits and the integers in their width. The module
-- has the JSON of each type in it, and says of which frames nothing is lost.
import Marie.Session.FrameTree
import Marie.Session.RequestSerde

namespace marie.session.stored

open Codecs Maps serde

/-! ## The data -/

abbrev SessionId := ID
abbrev FrameId := ID
abbrev HitlId := ID
abbrev ToolCallId := ID
abbrev JobId := ID

/-- The bytes of a `NodeId` of the network: the worker that has a job. -/
abbrev Worker := List UInt8

abbrev Channels := Entries ChannelName Value

structure CatalogItemRef where
  kind : String
  id : String
  version : UInt64

abbrev GraphRef := CatalogItemRef

structure SnapshotRef where
  session_id : SessionId
  frame_id : FrameId
  superstep : UInt32

structure ChannelUpdate where
  name : ChannelName
  value : Value
  contributor : FrameId

structure Branch where
  start : NodeId
  overrides : Channels

inductive FrameResult
  | RequestHitl (hitl : Hitl)
  | ConsultExperts (requests : List RequestAskExpert)
  | CallTools (requests : List RequestToolCall)
  | ExecuteGraph (graph_id : GraphId)
  | Continue
  | GoTo (node_id : NodeId)
  | Fork (branches : List Branch) (join : NodeId)
  | Completed
  | Failed (error : String)

structure RunLog where
  index : UInt32
  content : RunLogContent
  value : Option Value

structure FrameResponse where
  frame_id : FrameId
  updates : List ChannelUpdate
  new_logs : List RunLog
  result : FrameResult

structure JobInstance where
  id : JobId
  name : String
  args : Value

/-- `chain` is the `crate::Error` of the job. -/
inductive WorkerError
  | NoJobExecutorFound (name : String)
  | NoJobFound (id : JobId)
  | Panicked (message : String)
  | ExecutionError (chain : List String)
  | NoWorkerAvailable
  | ProbingTimeOut
  | AckTimeOut
  | ScheduledError (error : String)
  | RpcError (error : String)
  | SerdeError (error : String)

/-- `JobState<Value>`. -/
inductive JobState
  | Unknown
  | PendingScheduling (instance_ : JobInstance) (worker : Worker)
  | PendingAck (worker : Worker)
  | Probing (worker : Worker)
  | Scheduled (worker : Worker)
  | Running (worker : Worker)
  | Completed (result : Value)
  | Failed (error : WorkerError)

inductive FrameStatus
  | Pending
  | RunCompleted (response : FrameResponse)
  | RunFailed (error : String)
  | Failed (error : String)
  | Completed
  | Ready
  | Running (state : JobState)
  | RunExhausted
  | WaitingChildren

inductive ChildFailurePolicy
  | FailIfAtLeastHasFailed (count : UInt64)
  | DontFail

inductive OnStartPolicy
  | RunFrame
  | AppendGraphThread (graph_ref : GraphRef) (start : NodeId)
  | AppendGraphSpan (graph_ref : GraphRef) (join : NodeId) (branches : List Branch)
  | AppendGraphNode (graph_ref : GraphRef) (start : NodeId)

structure FramePolicy where
  on_child_failed : ChildFailurePolicy
  resume_policy : ResumePolicy
  reduce_policy : ReducePolicy
  on_resume_policy : OnResumePolicy
  on_start_policy : OnStartPolicy

inductive FrameSpecRef
  | Graph (graph_ref : GraphRef)
  | ToolAggregator
  | ToolCall
  | Expert
  | ExpertAggregator
  | Hitl

inductive FrameKind
  | Void
  | Shell (mode : ShellMode)
  | Hitl (hitl_id : HitlId)
  | ExpertConsultation
  | ToolCall (id : ToolCallId) (name : ToolName) (parameters : Value)
  | Graph (graph_ref : GraphRef)
  | GraphNode (graph_ref : GraphRef) (node_id : NodeId)
  | GraphThread (graph_ref : GraphRef)
  | GraphSpan (graph_ref : GraphRef) (join : NodeId)

structure FrameNode where
  session_id : SessionId
  id : FrameId
  status : FrameStatus
  frame_policy : FramePolicy
  superstep : UInt32
  barrier : Bool
  forked_from : Option SnapshotRef
  inherited_channels : Channels
  spec_ref : FrameSpecRef
  data : FrameKind
  logs : List RunLog
  hitl_aliases : Entries UInt32 HitlId
  is_root : Bool
  parent : Option FrameId
  next_sibling : Option FrameId
  prev_sibling : Option FrameId
  children : List FrameId

/-! ## References -/

def CatalogItemRef.serde : Serde CatalogItemRef :=
  record (((Fields.field "kind" string).both ((Fields.field "id" string).both
    (.field "version" u64))).iso (fun r => (r.kind, r.id, r.version))
      (fun p => ⟨p.1, p.2.1, p.2.2⟩)) (by decide)

@[simp] theorem lossless_catalog_item_ref (r : CatalogItemRef) :
    CatalogItemRef.serde.Lossless r := by
  rw [CatalogItemRef.serde, lossless_record,
    Fields.lossless_iso (fun _ => rfl) (fun _ => rfl), Fields.lossless_both (by decide),
    Fields.lossless_both (by decide)]
  simp

def SnapshotRef.serde : Serde SnapshotRef :=
  record (((Fields.field "session_id" identifier).both ((Fields.field "frame_id" identifier).both
    (.field "superstep" u32))).iso (fun r => (r.session_id, r.frame_id, r.superstep))
      (fun p => ⟨p.1, p.2.1, p.2.2⟩)) (by decide)

@[simp] theorem lossless_snapshot_ref (r : SnapshotRef) : SnapshotRef.serde.Lossless r := by
  rw [SnapshotRef.serde, lossless_record,
    Fields.lossless_iso (fun _ => rfl) (fun _ => rfl), Fields.lossless_both (by decide),
    Fields.lossless_both (by decide)]
  simp

/-! ## The answer of a run -/

def ChannelUpdate.serde : Serde ChannelUpdate :=
  record (((Fields.field "name" string).both ((Fields.field "value" json).both
    (.field "contributor" identifier))).iso (fun u => (u.name, u.value, u.contributor))
      (fun p => ⟨p.1, p.2.1, p.2.2⟩)) (by decide)

@[simp] theorem lossless_channel_update (u : ChannelUpdate) : ChannelUpdate.serde.Lossless u := by
  rw [ChannelUpdate.serde, lossless_record,
    Fields.lossless_iso (fun _ => rfl) (fun _ => rfl), Fields.lossless_both (by decide),
    Fields.lossless_both (by decide)]
  simp

def channels : Serde Channels := map string_key json

def Branch.serde : Serde Branch :=
  record (((Fields.field "start" string).both (.field "overrides" channels)).iso
    (fun b => (b.start, b.overrides)) (fun p => ⟨p.1, p.2⟩)) (by decide)

@[simp] theorem lossless_branch (b : Branch) : Branch.serde.Lossless b := by
  rw [Branch.serde, lossless_record,
    Fields.lossless_iso (fun _ => rfl) (fun _ => rfl), Fields.lossless_both (by decide)]
  simp [channels]

def fork : Serde (List Branch × NodeId) :=
  record ((Fields.field "branches" (seq Branch.serde)).both (.field "join" string)) (by decide)

theorem lossless_fork (branches : List Branch) (join : NodeId) : fork.Lossless (branches, join) := by
  rw [fork, lossless_record, Fields.lossless_both (by decide)]
  simp

def FrameResult.serde : Serde FrameResult where
  encode
    | .RequestHitl hitl => (Hitl.serde.encode hitl).map (variant "RequestHitl")
    | .ConsultExperts requests =>
      ((seq RequestAskExpert.serde).encode requests).map (variant "ConsultExperts")
    | .CallTools requests => ((seq RequestToolCall.serde).encode requests).map (variant "CallTools")
    | .ExecuteGraph graph_id => (string.encode graph_id).map (variant "ExecuteGraph")
    | .Continue => some (.String "Continue")
    | .GoTo node_id => (string.encode node_id).map (variant "GoTo")
    | .Fork branches join => (fork.encode (branches, join)).map (variant "Fork")
    | .Completed => some (.String "Completed")
    | .Failed error => (string.encode error).map (variant "Failed")
  decode v :=
    match read_variant v with
    | some ("RequestHitl", some v) => (Hitl.serde.decode v).map .RequestHitl
    | some ("ConsultExperts", some v) => ((seq RequestAskExpert.serde).decode v).map .ConsultExperts
    | some ("CallTools", some v) => ((seq RequestToolCall.serde).decode v).map .CallTools
    | some ("ExecuteGraph", some v) => (string.decode v).map .ExecuteGraph
    | some ("Continue", none) => some .Continue
    | some ("GoTo", some v) => (string.decode v).map .GoTo
    | some ("Fork", some v) => (fork.decode v).map fun p => .Fork p.1 p.2
    | some ("Completed", none) => some .Completed
    | some ("Failed", some v) => (string.decode v).map .Failed
    | _ => none
  Fits
    | .RequestHitl hitl => Hitl.serde.Fits hitl
    | .ConsultExperts requests => (seq RequestAskExpert.serde).Fits requests
    | .CallTools requests => (seq RequestToolCall.serde).Fits requests
    | .ExecuteGraph name | .GoTo name | .Failed name => no_nul name = true
    | .Fork branches join => fork.Fits (branches, join)
    | .Continue | .Completed => True
  fits_iff := by
    intro r v h
    cases r with
    | Continue => exact fits_unit h rfl
    | Completed => exact fits_unit h rfl
    | ExecuteGraph graph_id => exact Codec.fits_variant (c := string) (jsonb_variant rfl) h
    | GoTo node_id => exact Codec.fits_variant (c := string) (jsonb_variant rfl) h
    | Failed error => exact Codec.fits_variant (c := string) (jsonb_variant rfl) h
    | _ => exact Codec.fits_variant (jsonb_variant rfl) h

@[simp] theorem lossless_frame_result (r : FrameResult) : FrameResult.serde.Lossless r := by
  cases r with
  | RequestHitl hitl =>
    refine (lossless_external "RequestHitl" ?_ rfl (fun _ => rfl)).mpr (lossless_hitl hitl)
    rintro _ _ ⟨⟩
    rfl
  | ConsultExperts requests =>
    refine (lossless_external "ConsultExperts" ?_ rfl (fun _ => rfl)).mpr (by simp)
    rintro _ _ ⟨⟩
    rfl
  | CallTools requests =>
    refine (lossless_external "CallTools" ?_ rfl (fun _ => rfl)).mpr (by simp)
    rintro _ _ ⟨⟩
    rfl
  | Fork branches join =>
    refine (lossless_external (f := fun p : List Branch × NodeId => FrameResult.Fork p.1 p.2)
      (a := (branches, join)) "Fork" ?_ rfl (fun _ => rfl)).mpr (lossless_fork branches join)
    rintro ⟨⟩ ⟨⟩ ⟨⟩
    rfl
  | _ => exact ⟨_, rfl, rfl⟩

/-- An answer that is `null` is read back as no answer. -/
def RunLog.Readable (l : RunLog) : Prop := l.value ≠ some .Null

def RunLog.serde : Serde RunLog :=
  record (((Fields.field "index" u32).both ((Fields.field "content" RunLogContent.serde).both
    (optional_field "value" json))).iso (fun l => (l.index, l.content, l.value))
      (fun p => ⟨p.1, p.2.1, p.2.2⟩)) (by decide)

@[simp] theorem lossless_run_log {l : RunLog} : RunLog.serde.Lossless l ↔ l.Readable := by
  have hvalue : ∀ o : Option Value, (option json).Lossless o ↔ o ≠ some .Null := by
    intro o
    cases o with
    | none => simp
    | some v =>
      have hencode : json.encode v = some v := rfl
      simp [hencode]
  rw [RunLog.serde, lossless_record,
    Fields.lossless_iso (fun _ => rfl) (fun _ => rfl), Fields.lossless_both (by decide),
    Fields.lossless_both (by decide)]
  simp [optional_field, hvalue, RunLog.Readable]

def FrameResponse.serde : Serde FrameResponse :=
  record (((Fields.field "frame_id" identifier).both
    ((Fields.field "updates" (seq ChannelUpdate.serde)).both
      ((Fields.field "new_logs" (seq RunLog.serde)).both
        (.field "result" FrameResult.serde)))).iso
      (fun r => (r.frame_id, r.updates, r.new_logs, r.result))
      (fun p => ⟨p.1, p.2.1, p.2.2.1, p.2.2.2⟩)) (by decide)

@[simp] theorem lossless_frame_response {r : FrameResponse} :
    FrameResponse.serde.Lossless r ↔ ∀ l ∈ r.new_logs, l.Readable := by
  rw [FrameResponse.serde, lossless_record,
    Fields.lossless_iso (fun _ => rfl) (fun _ => rfl), Fields.lossless_both (by decide),
    Fields.lossless_both (by decide), Fields.lossless_both (by decide)]
  simp

/-! ## The state of a job -/

def JobInstance.serde : Serde JobInstance :=
  record (((Fields.field "id" identifier).both ((Fields.field "name" string).both
    (.field "args" json))).iso (fun j => (j.id, j.name, j.args))
      (fun p => ⟨p.1, p.2.1, p.2.2⟩)) (by decide)

@[simp] theorem lossless_job_instance (j : JobInstance) : JobInstance.serde.Lossless j := by
  rw [JobInstance.serde, lossless_record,
    Fields.lossless_iso (fun _ => rfl) (fun _ => rfl), Fields.lossless_both (by decide),
    Fields.lossless_both (by decide)]
  simp

/-- `crate::Error`. -/
def error_chain : Serde (List String) := record (.field "chain" (seq string)) (by decide)

def WorkerError.serde : Serde WorkerError where
  encode
    | .NoJobExecutorFound name => (string.encode name).map (variant "NoJobExecutorFound")
    | .NoJobFound id => (identifier.encode id).map (variant "NoJobFound")
    | .Panicked message => (string.encode message).map (variant "Panicked")
    | .ExecutionError chain => (error_chain.encode chain).map (variant "ExecutionError")
    | .NoWorkerAvailable => some (.String "NoWorkerAvailable")
    | .ProbingTimeOut => some (.String "ProbingTimeOut")
    | .AckTimeOut => some (.String "AckTimeOut")
    | .ScheduledError error => (string.encode error).map (variant "ScheduledError")
    | .RpcError error => (string.encode error).map (variant "RpcError")
    | .SerdeError error => (string.encode error).map (variant "SerdeError")
  decode v :=
    match read_variant v with
    | some ("NoJobExecutorFound", some v) => (string.decode v).map .NoJobExecutorFound
    | some ("NoJobFound", some v) => (identifier.decode v).map .NoJobFound
    | some ("Panicked", some v) => (string.decode v).map .Panicked
    | some ("ExecutionError", some v) => (error_chain.decode v).map .ExecutionError
    | some ("NoWorkerAvailable", none) => some .NoWorkerAvailable
    | some ("ProbingTimeOut", none) => some .ProbingTimeOut
    | some ("AckTimeOut", none) => some .AckTimeOut
    | some ("ScheduledError", some v) => (string.decode v).map .ScheduledError
    | some ("RpcError", some v) => (string.decode v).map .RpcError
    | some ("SerdeError", some v) => (string.decode v).map .SerdeError
    | _ => none
  Fits
    | .NoJobExecutorFound text | .Panicked text | .ScheduledError text | .RpcError text
    | .SerdeError text => no_nul text = true
    | .NoJobFound _ | .NoWorkerAvailable | .ProbingTimeOut | .AckTimeOut => True
    | .ExecutionError chain => error_chain.Fits chain
  fits_iff := by
    intro e v h
    cases e with
    | NoJobFound id => exact Codec.fits_variant (c := identifier) (jsonb_variant rfl) h
    | ExecutionError chain => exact Codec.fits_variant (jsonb_variant rfl) h
    | NoWorkerAvailable => exact fits_unit h rfl
    | ProbingTimeOut => exact fits_unit h rfl
    | AckTimeOut => exact fits_unit h rfl
    | _ => exact Codec.fits_variant (c := string) (jsonb_variant rfl) h

@[simp] theorem lossless_worker_error (e : WorkerError) : WorkerError.serde.Lossless e := by
  cases e with
  | NoJobFound id =>
    refine (lossless_external "NoJobFound" ?_ rfl (fun _ => rfl)).mpr (lossless_identifier id)
    rintro _ _ ⟨⟩
    rfl
  | ExecutionError chain =>
    refine (lossless_external "ExecutionError" ?_ rfl (fun _ => rfl)).mpr (by simp [error_chain])
    rintro _ _ ⟨⟩
    rfl
  | _ => exact ⟨_, rfl, rfl⟩

def worker_bytes : Serde Worker := seq u8

/-- The content of a variant that only names the worker. -/
def on_worker : Serde Worker := record (.field "worker" worker_bytes) (by decide)

theorem lossless_on_worker (worker : Worker) : on_worker.Lossless worker := by
  simp [on_worker, worker_bytes]

def pending_scheduling : Serde (JobInstance × Worker) :=
  record ((Fields.field "instance" JobInstance.serde).both (.field "worker" worker_bytes))
    (by decide)

theorem lossless_pending_scheduling (instance_ : JobInstance) (worker : Worker) :
    pending_scheduling.Lossless (instance_, worker) := by
  rw [pending_scheduling, lossless_record, Fields.lossless_both (by decide)]
  simp [worker_bytes]

def job_error : Serde WorkerError := record (.field "error" WorkerError.serde) (by decide)

def JobState.serde : Serde JobState where
  encode
    | .Unknown => some (.String "Unknown")
    | .PendingScheduling instance_ worker =>
      (pending_scheduling.encode (instance_, worker)).map (variant "PendingScheduling")
    | .PendingAck worker => (on_worker.encode worker).map (variant "PendingAck")
    | .Probing worker => (on_worker.encode worker).map (variant "Probing")
    | .Scheduled worker => (on_worker.encode worker).map (variant "Scheduled")
    | .Running worker => (on_worker.encode worker).map (variant "Running")
    | .Completed result => (json.encode result).map (variant "Completed")
    | .Failed error => (job_error.encode error).map (variant "Failed")
  decode v :=
    match read_variant v with
    | some ("Unknown", none) => some .Unknown
    | some ("PendingScheduling", some v) =>
      (pending_scheduling.decode v).map fun p => .PendingScheduling p.1 p.2
    | some ("PendingAck", some v) => (on_worker.decode v).map .PendingAck
    | some ("Probing", some v) => (on_worker.decode v).map .Probing
    | some ("Scheduled", some v) => (on_worker.decode v).map .Scheduled
    | some ("Running", some v) => (on_worker.decode v).map .Running
    | some ("Completed", some v) => (json.decode v).map .Completed
    | some ("Failed", some v) => (job_error.decode v).map .Failed
    | _ => none
  Fits
    | .Unknown => True
    | .PendingScheduling instance_ worker => pending_scheduling.Fits (instance_, worker)
    | .PendingAck worker | .Probing worker | .Scheduled worker | .Running worker =>
      on_worker.Fits worker
    | .Completed result => Jsonb result
    | .Failed error => job_error.Fits error
  fits_iff := by
    intro s v h
    cases s with
    | Unknown => exact fits_unit h rfl
    | Completed result => exact Codec.fits_variant (c := json) (jsonb_variant rfl) h
    | _ => exact Codec.fits_variant (jsonb_variant rfl) h

theorem lossless_worker_variant {f : Worker → JobState} (name : String)
    (hf : Function.Injective f)
    (henc : ∀ w, JobState.serde.encode (f w) = (on_worker.encode w).map (variant name))
    (hdec : ∀ v, JobState.serde.decode (variant name v) = (on_worker.decode v).map f)
    (worker : Worker) : JobState.serde.Lossless (f worker) :=
  (lossless_external name hf (henc worker) hdec).mpr (lossless_on_worker worker)

@[simp] theorem lossless_job_state (s : JobState) : JobState.serde.Lossless s := by
  cases s with
  | Unknown => exact ⟨_, rfl, rfl⟩
  | PendingScheduling instance_ worker =>
    refine (lossless_external (f := fun p : JobInstance × Worker => JobState.PendingScheduling p.1 p.2)
      (a := (instance_, worker)) "PendingScheduling" ?_ rfl (fun _ => rfl)).mpr
        (lossless_pending_scheduling instance_ worker)
    rintro ⟨⟩ ⟨⟩ ⟨⟩
    rfl
  | PendingAck worker =>
    refine lossless_worker_variant "PendingAck" ?_ (fun _ => rfl) (fun _ => rfl) worker
    rintro _ _ ⟨⟩
    rfl
  | Probing worker =>
    refine lossless_worker_variant "Probing" ?_ (fun _ => rfl) (fun _ => rfl) worker
    rintro _ _ ⟨⟩
    rfl
  | Scheduled worker =>
    refine lossless_worker_variant "Scheduled" ?_ (fun _ => rfl) (fun _ => rfl) worker
    rintro _ _ ⟨⟩
    rfl
  | Running worker =>
    refine lossless_worker_variant "Running" ?_ (fun _ => rfl) (fun _ => rfl) worker
    rintro _ _ ⟨⟩
    rfl
  | Completed result => exact ⟨_, rfl, rfl⟩
  | Failed error =>
    refine (lossless_external "Failed" ?_ rfl (fun _ => rfl)).mpr (by simp [job_error])
    rintro _ _ ⟨⟩
    rfl

/-- The status of a frame that loses nothing: one of `RunCompleted` holds a response. -/
def FrameStatus.Readable : FrameStatus → Prop
  | .RunCompleted response => ∀ l ∈ response.new_logs, l.Readable
  | _ => True

def FrameStatus.serde : Serde FrameStatus where
  encode
    | .Pending => some (.String "Pending")
    | .RunCompleted response => (FrameResponse.serde.encode response).map (variant "RunCompleted")
    | .RunFailed error => (string.encode error).map (variant "RunFailed")
    | .Failed error => (string.encode error).map (variant "Failed")
    | .Completed => some (.String "Completed")
    | .Ready => some (.String "Ready")
    | .Running state => (JobState.serde.encode state).map (variant "Running")
    | .RunExhausted => some (.String "RunExhausted")
    | .WaitingChildren => some (.String "WaitingChildren")
  decode v :=
    match read_variant v with
    | some ("Pending", none) => some .Pending
    | some ("RunCompleted", some v) => (FrameResponse.serde.decode v).map .RunCompleted
    | some ("RunFailed", some v) => (string.decode v).map .RunFailed
    | some ("Failed", some v) => (string.decode v).map .Failed
    | some ("Completed", none) => some .Completed
    | some ("Ready", none) => some .Ready
    | some ("Running", some v) => (JobState.serde.decode v).map .Running
    | some ("RunExhausted", none) => some .RunExhausted
    | some ("WaitingChildren", none) => some .WaitingChildren
    | _ => none
  Fits
    | .RunCompleted response => FrameResponse.serde.Fits response
    | .RunFailed error | .Failed error => no_nul error = true
    | .Running state => JobState.serde.Fits state
    | .Pending | .Completed | .Ready | .RunExhausted | .WaitingChildren => True
  fits_iff := by
    intro s v h
    cases s with
    | RunCompleted response => exact Codec.fits_variant (jsonb_variant rfl) h
    | RunFailed error => exact Codec.fits_variant (c := string) (jsonb_variant rfl) h
    | Failed error => exact Codec.fits_variant (c := string) (jsonb_variant rfl) h
    | Running state => exact Codec.fits_variant (jsonb_variant rfl) h
    | _ => exact fits_unit h rfl

@[simp] theorem lossless_frame_status {s : FrameStatus} :
    FrameStatus.serde.Lossless s ↔ s.Readable := by
  cases s with
  | RunCompleted response =>
    have h := lossless_external (e := FrameStatus.serde) (c := FrameResponse.serde)
      (f := .RunCompleted) (a := response) "RunCompleted"
      (by rintro _ _ ⟨⟩; rfl) rfl (fun _ => rfl)
    rw [h, lossless_frame_response]
    rfl
  | Running state =>
    refine iff_of_true ?_ trivial
    refine (lossless_external "Running" ?_ rfl (fun _ => rfl)).mpr (lossless_job_state state)
    rintro _ _ ⟨⟩
    rfl
  | _ => exact iff_of_true ⟨_, rfl, rfl⟩ trivial

/-! ## The policy -/

def ReducePolicy.serde : Serde ReducePolicy where
  encode
    | .DontReduce => some (.String "DontReduce")
    | .Reduce => some (.String "Reduce")
  decode
    | .String "DontReduce" => some .DontReduce
    | .String "Reduce" => some .Reduce
    | _ => none
  Fits _ := True
  fits_iff := by
    intro p v h
    cases p <;> exact fits_unit h rfl

@[simp] theorem lossless_reduce_policy (p : ReducePolicy) : ReducePolicy.serde.Lossless p := by
  cases p <;> exact ⟨_, rfl, rfl⟩

def OnResumePolicy.serde : Serde OnResumePolicy where
  encode
    | .RunFrame => some (.String "RunFrame")
    | .MarkComplete => some (.String "MarkComplete")
  decode
    | .String "RunFrame" => some .RunFrame
    | .String "MarkComplete" => some .MarkComplete
    | _ => none
  Fits _ := True
  fits_iff := by
    intro p v h
    cases p <;> exact fits_unit h rfl

@[simp] theorem lossless_on_resume_policy (p : OnResumePolicy) :
    OnResumePolicy.serde.Lossless p := by
  cases p <;> exact ⟨_, rfl, rfl⟩

def ResumePolicy.serde : Serde ResumePolicy where
  encode
    | .Sequential => some (.String "Sequential")
    | .Hitl => some (.String "Hitl")
    | .FanIn => some (.String "FanIn")
  decode
    | .String "Sequential" => some .Sequential
    | .String "Hitl" => some .Hitl
    | .String "FanIn" => some .FanIn
    | _ => none
  Fits _ := True
  fits_iff := by
    intro p v h
    cases p <;> exact fits_unit h rfl

@[simp] theorem lossless_resume_policy (p : ResumePolicy) : ResumePolicy.serde.Lossless p := by
  cases p <;> exact ⟨_, rfl, rfl⟩

def ChildFailurePolicy.serde : Serde ChildFailurePolicy where
  encode
    | .FailIfAtLeastHasFailed count => (u64.encode count).map (variant "FailIfAtLeastHasFailed")
    | .DontFail => some (.String "DontFail")
  decode v :=
    match read_variant v with
    | some ("FailIfAtLeastHasFailed", some v) => (u64.decode v).map .FailIfAtLeastHasFailed
    | some ("DontFail", none) => some .DontFail
    | _ => none
  Fits _ := True
  fits_iff := by
    intro p v h
    cases p with
    | FailIfAtLeastHasFailed count => exact Codec.fits_variant (c := u64) (jsonb_variant rfl) h
    | DontFail => exact fits_unit h rfl

@[simp] theorem lossless_child_failure_policy (p : ChildFailurePolicy) :
    ChildFailurePolicy.serde.Lossless p := by
  cases p with
  | FailIfAtLeastHasFailed count =>
    refine (lossless_external "FailIfAtLeastHasFailed" ?_ rfl (fun _ => rfl)).mpr
      (lossless_u64 count)
    rintro _ _ ⟨⟩
    rfl
  | DontFail => exact ⟨_, rfl, rfl⟩

def graph_start : Serde (GraphRef × NodeId) :=
  record ((Fields.field "graph_ref" CatalogItemRef.serde).both (.field "start" string)) (by decide)

theorem lossless_graph_start (graph_ref : GraphRef) (start : NodeId) :
    graph_start.Lossless (graph_ref, start) := by
  rw [graph_start, lossless_record, Fields.lossless_both (by decide)]
  simp

def span_start : Serde (GraphRef × NodeId × List Branch) :=
  record ((Fields.field "graph_ref" CatalogItemRef.serde).both
    ((Fields.field "join" string).both (.field "branches" (seq Branch.serde)))) (by decide)

theorem lossless_span_start (graph_ref : GraphRef) (join : NodeId) (branches : List Branch) :
    span_start.Lossless (graph_ref, join, branches) := by
  rw [span_start, lossless_record, Fields.lossless_both (by decide),
    Fields.lossless_both (by decide)]
  simp

def OnStartPolicy.serde : Serde OnStartPolicy where
  encode
    | .RunFrame => some (.String "RunFrame")
    | .AppendGraphThread graph_ref start =>
      (graph_start.encode (graph_ref, start)).map (variant "AppendGraphThread")
    | .AppendGraphSpan graph_ref join branches =>
      (span_start.encode (graph_ref, join, branches)).map (variant "AppendGraphSpan")
    | .AppendGraphNode graph_ref start =>
      (graph_start.encode (graph_ref, start)).map (variant "AppendGraphNode")
  decode v :=
    match read_variant v with
    | some ("RunFrame", none) => some .RunFrame
    | some ("AppendGraphThread", some v) =>
      (graph_start.decode v).map fun p => .AppendGraphThread p.1 p.2
    | some ("AppendGraphSpan", some v) =>
      (span_start.decode v).map fun p => .AppendGraphSpan p.1 p.2.1 p.2.2
    | some ("AppendGraphNode", some v) =>
      (graph_start.decode v).map fun p => .AppendGraphNode p.1 p.2
    | _ => none
  Fits
    | .RunFrame => True
    | .AppendGraphThread graph_ref start | .AppendGraphNode graph_ref start =>
      graph_start.Fits (graph_ref, start)
    | .AppendGraphSpan graph_ref join branches => span_start.Fits (graph_ref, join, branches)
  fits_iff := by
    intro p v h
    cases p with
    | RunFrame => exact fits_unit h rfl
    | _ => exact Codec.fits_variant (jsonb_variant rfl) h

@[simp] theorem lossless_on_start_policy (p : OnStartPolicy) : OnStartPolicy.serde.Lossless p := by
  cases p with
  | RunFrame => exact ⟨_, rfl, rfl⟩
  | AppendGraphThread graph_ref start =>
    refine (lossless_external (f := fun p : GraphRef × NodeId => OnStartPolicy.AppendGraphThread p.1 p.2)
      (a := (graph_ref, start)) "AppendGraphThread" ?_ rfl (fun _ => rfl)).mpr
        (lossless_graph_start graph_ref start)
    rintro ⟨⟩ ⟨⟩ ⟨⟩
    rfl
  | AppendGraphSpan graph_ref join branches =>
    refine (lossless_external
      (f := fun p : GraphRef × NodeId × List Branch =>
        OnStartPolicy.AppendGraphSpan p.1 p.2.1 p.2.2)
      (a := (graph_ref, join, branches)) "AppendGraphSpan" ?_ rfl (fun _ => rfl)).mpr
        (lossless_span_start graph_ref join branches)
    rintro ⟨_, _, _⟩ ⟨_, _, _⟩ ⟨⟩
    rfl
  | AppendGraphNode graph_ref start =>
    refine (lossless_external (f := fun p : GraphRef × NodeId => OnStartPolicy.AppendGraphNode p.1 p.2)
      (a := (graph_ref, start)) "AppendGraphNode" ?_ rfl (fun _ => rfl)).mpr
        (lossless_graph_start graph_ref start)
    rintro ⟨⟩ ⟨⟩ ⟨⟩
    rfl

def FramePolicy.serde : Serde FramePolicy :=
  record (((Fields.field "on_child_failed" ChildFailurePolicy.serde).both
    ((Fields.field "resume_policy" ResumePolicy.serde).both
      ((Fields.field "reduce_policy" ReducePolicy.serde).both
        ((Fields.field "on_resume_policy" OnResumePolicy.serde).both
          (.field "on_start_policy" OnStartPolicy.serde))))).iso
      (fun p => (p.on_child_failed, p.resume_policy, p.reduce_policy, p.on_resume_policy,
        p.on_start_policy))
      (fun p => ⟨p.1, p.2.1, p.2.2.1, p.2.2.2.1, p.2.2.2.2⟩)) (by decide)

@[simp] theorem lossless_frame_policy (p : FramePolicy) : FramePolicy.serde.Lossless p := by
  rw [FramePolicy.serde, lossless_record,
    Fields.lossless_iso (fun _ => rfl) (fun _ => rfl), Fields.lossless_both (by decide),
    Fields.lossless_both (by decide), Fields.lossless_both (by decide),
    Fields.lossless_both (by decide)]
  simp

/-! ## What a frame is -/

def FrameSpecRef.serde : Serde FrameSpecRef where
  encode
    | .Graph graph_ref => (CatalogItemRef.serde.encode graph_ref).map (variant "Graph")
    | .ToolAggregator => some (.String "ToolAggregator")
    | .ToolCall => some (.String "ToolCall")
    | .Expert => some (.String "Expert")
    | .ExpertAggregator => some (.String "ExpertAggregator")
    | .Hitl => some (.String "Hitl")
  decode v :=
    match read_variant v with
    | some ("Graph", some v) => (CatalogItemRef.serde.decode v).map .Graph
    | some ("ToolAggregator", none) => some .ToolAggregator
    | some ("ToolCall", none) => some .ToolCall
    | some ("Expert", none) => some .Expert
    | some ("ExpertAggregator", none) => some .ExpertAggregator
    | some ("Hitl", none) => some .Hitl
    | _ => none
  Fits
    | .Graph graph_ref => CatalogItemRef.serde.Fits graph_ref
    | _ => True
  fits_iff := by
    intro r v h
    cases r with
    | Graph graph_ref => exact Codec.fits_variant (jsonb_variant rfl) h
    | _ => exact fits_unit h rfl

@[simp] theorem lossless_frame_spec_ref (r : FrameSpecRef) : FrameSpecRef.serde.Lossless r := by
  cases r with
  | Graph graph_ref =>
    refine (lossless_external "Graph" ?_ rfl (fun _ => rfl)).mpr
      (lossless_catalog_item_ref graph_ref)
    rintro _ _ ⟨⟩
    rfl
  | _ => exact ⟨_, rfl, rfl⟩

def loop_model : Serde (String × String × List String) :=
  record ((Fields.field "system_prompt" string).both
    ((Fields.field "model_id" string).both (.field "allowed_tools" (seq string)))) (by decide)

def ShellMode.serde : Serde ShellMode where
  encode
    | .LoopModel system_prompt model_id allowed_tools =>
      (loop_model.encode (system_prompt, model_id, allowed_tools)).map (variant "LoopModel")
    | .Expert expert_id => (string.encode expert_id).map (variant "Expert")
  decode v :=
    match read_variant v with
    | some ("LoopModel", some v) => (loop_model.decode v).map fun p => .LoopModel p.1 p.2.1 p.2.2
    | some ("Expert", some v) => (string.decode v).map .Expert
    | _ => none
  Fits
    | .LoopModel system_prompt model_id allowed_tools =>
      loop_model.Fits (system_prompt, model_id, allowed_tools)
    | .Expert expert_id => no_nul expert_id = true
  fits_iff := by
    intro m v h
    cases m with
    | LoopModel => exact Codec.fits_variant (jsonb_variant rfl) h
    | Expert => exact Codec.fits_variant (c := string) (jsonb_variant rfl) h

@[simp] theorem lossless_shell_mode (m : ShellMode) : ShellMode.serde.Lossless m := by
  cases m with
  | LoopModel system_prompt model_id allowed_tools =>
    refine (lossless_external
      (f := fun p : String × String × List String => ShellMode.LoopModel p.1 p.2.1 p.2.2)
      (a := (system_prompt, model_id, allowed_tools)) "LoopModel" ?_ rfl (fun _ => rfl)).mpr ?_
    · rintro ⟨_, _, _⟩ ⟨_, _, _⟩ ⟨⟩
      rfl
    · rw [loop_model, lossless_record, Fields.lossless_both (by decide),
        Fields.lossless_both (by decide)]
      simp
  | Expert expert_id => exact ⟨_, rfl, rfl⟩

theorem untagged_shell_mode {m : ShellMode} {v : Value} (h : ShellMode.serde.encode m = some v) :
    Untagged "kind" v := by
  cases m with
  | LoopModel =>
    obtain ⟨w, -, rfl⟩ := Option.map_eq_some_iff.mp h
    exact ⟨_, rfl, by simp⟩
  | Expert =>
    obtain rfl := Option.some.inj h
    exact ⟨_, rfl, by simp⟩

def tool_call : Serde (ToolCallId × ToolName × Value) :=
  record ((Fields.field "id" identifier).both ((Fields.field "name" string).both
    (.field "parameters" json))) (by decide)

theorem lossless_tool_call (id : ToolCallId) (name : ToolName) (parameters : Value) :
    tool_call.Lossless (id, name, parameters) := by
  rw [tool_call, lossless_record, Fields.lossless_both (by decide),
    Fields.lossless_both (by decide)]
  simp

def of_graph : Serde GraphRef := record (.field "graph_ref" CatalogItemRef.serde) (by decide)

theorem lossless_of_graph (graph_ref : GraphRef) : of_graph.Lossless graph_ref := by
  simp [of_graph]

def at_node : Serde (GraphRef × NodeId) :=
  record ((Fields.field "graph_ref" CatalogItemRef.serde).both (.field "node_id" string))
    (by decide)

theorem lossless_at_node (graph_ref : GraphRef) (node_id : NodeId) :
    at_node.Lossless (graph_ref, node_id) := by
  rw [at_node, lossless_record, Fields.lossless_both (by decide)]
  simp

def to_join : Serde (GraphRef × NodeId) :=
  record ((Fields.field "graph_ref" CatalogItemRef.serde).both (.field "join" string)) (by decide)

theorem lossless_to_join (graph_ref : GraphRef) (join : NodeId) :
    to_join.Lossless (graph_ref, join) := by
  rw [to_join, lossless_record, Fields.lossless_both (by decide)]
  simp

/-- `#[serde(tag = "kind")]`. The content of `Hitl` is written as a string, which has no place for
the tag. -/
def FrameKind.serde : Serde FrameKind where
  encode
    | .Void => some (.Object [("kind", .String "Void")])
    | .Shell mode => (ShellMode.serde.encode mode).bind (with_tag "kind" "Shell")
    | .Hitl hitl_id => (identifier.encode hitl_id).bind (with_tag "kind" "Hitl")
    | .ExpertConsultation => some (.Object [("kind", .String "ExpertConsultation")])
    | .ToolCall id name parameters =>
      (tool_call.encode (id, name, parameters)).bind (with_tag "kind" "ToolCall")
    | .Graph graph_ref => (of_graph.encode graph_ref).bind (with_tag "kind" "Graph")
    | .GraphNode graph_ref node_id =>
      (at_node.encode (graph_ref, node_id)).bind (with_tag "kind" "GraphNode")
    | .GraphThread graph_ref => (of_graph.encode graph_ref).bind (with_tag "kind" "GraphThread")
    | .GraphSpan graph_ref join =>
      (to_join.encode (graph_ref, join)).bind (with_tag "kind" "GraphSpan")
  decode v :=
    match read_tag "kind" v with
    | some ("Void", _) => some .Void
    | some ("Shell", v) => (ShellMode.serde.decode v).map .Shell
    | some ("Hitl", v) => (identifier.decode v).map .Hitl
    | some ("ExpertConsultation", _) => some .ExpertConsultation
    | some ("ToolCall", v) => (tool_call.decode v).map fun p => .ToolCall p.1 p.2.1 p.2.2
    | some ("Graph", v) => (of_graph.decode v).map .Graph
    | some ("GraphNode", v) => (at_node.decode v).map fun p => .GraphNode p.1 p.2
    | some ("GraphThread", v) => (of_graph.decode v).map .GraphThread
    | some ("GraphSpan", v) => (to_join.decode v).map fun p => .GraphSpan p.1 p.2
    | _ => none
  Fits
    | .Void | .ExpertConsultation | .Hitl _ => True
    | .Shell mode => ShellMode.serde.Fits mode
    | .ToolCall id name parameters => tool_call.Fits (id, name, parameters)
    | .Graph graph_ref | .GraphThread graph_ref => of_graph.Fits graph_ref
    | .GraphNode graph_ref node_id => at_node.Fits (graph_ref, node_id)
    | .GraphSpan graph_ref join => to_join.Fits (graph_ref, join)
  fits_iff := by
    intro k v h
    cases k with
    | Void => exact fits_unit h rfl
    | ExpertConsultation => exact fits_unit h rfl
    | Hitl hitl_id => exact fits_internal (c := identifier) rfl rfl h
    | _ => exact fits_internal rfl rfl h

/-- The kind of a frame that is bound to a request has no JSON. -/
theorem encode_hitl (hitl_id : HitlId) : FrameKind.serde.encode (.Hitl hitl_id) = none := rfl

@[simp] theorem lossless_frame_kind {k : FrameKind} :
    FrameKind.serde.Lossless k ↔ ∀ hitl_id, k ≠ .Hitl hitl_id := by
  cases k with
  | Hitl hitl_id =>
    refine iff_of_false ?_ (by simp)
    rintro ⟨v, henc, -⟩
    cases henc
  | Void => exact iff_of_true ⟨_, rfl, rfl⟩ (by simp)
  | ExpertConsultation => exact iff_of_true ⟨_, rfl, rfl⟩ (by simp)
  | Shell mode =>
    refine iff_of_true ?_ (by simp)
    refine (lossless_internal "kind" "Shell" ?_ (fun _ h => untagged_shell_mode h) rfl ?_).mpr
      (lossless_shell_mode mode)
    · rintro _ _ ⟨⟩
      rfl
    · intro v v' h
      simp only [FrameKind.serde, h]
  | ToolCall id name parameters =>
    refine iff_of_true ?_ (by simp)
    refine (lossless_internal (c := tool_call)
      (f := fun p : ToolCallId × ToolName × Value => FrameKind.ToolCall p.1 p.2.1 p.2.2)
      (a := (id, name, parameters)) "kind" "ToolCall" ?_
      (fun _ h => untagged_record (by decide) h) rfl ?_).mpr (lossless_tool_call id name parameters)
    · rintro ⟨_, _, _⟩ ⟨_, _, _⟩ ⟨⟩
      rfl
    · intro v v' h
      simp only [FrameKind.serde, h]
  | Graph graph_ref =>
    refine iff_of_true ?_ (by simp)
    refine (lossless_internal (c := of_graph) "kind" "Graph" ?_
      (fun _ h => untagged_record (by decide) h) rfl ?_).mpr (lossless_of_graph graph_ref)
    · rintro _ _ ⟨⟩
      rfl
    · intro v v' h
      simp only [FrameKind.serde, h]
  | GraphNode graph_ref node_id =>
    refine iff_of_true ?_ (by simp)
    refine (lossless_internal (c := at_node)
      (f := fun p : GraphRef × NodeId => FrameKind.GraphNode p.1 p.2) (a := (graph_ref, node_id))
      "kind" "GraphNode" ?_ (fun _ h => untagged_record (by decide) h) rfl ?_).mpr
        (lossless_at_node graph_ref node_id)
    · rintro ⟨⟩ ⟨⟩ ⟨⟩
      rfl
    · intro v v' h
      simp only [FrameKind.serde, h]
  | GraphThread graph_ref =>
    refine iff_of_true ?_ (by simp)
    refine (lossless_internal (c := of_graph) "kind" "GraphThread" ?_
      (fun _ h => untagged_record (by decide) h) rfl ?_).mpr (lossless_of_graph graph_ref)
    · rintro _ _ ⟨⟩
      rfl
    · intro v v' h
      simp only [FrameKind.serde, h]
  | GraphSpan graph_ref join =>
    refine iff_of_true ?_ (by simp)
    refine (lossless_internal (c := to_join)
      (f := fun p : GraphRef × NodeId => FrameKind.GraphSpan p.1 p.2) (a := (graph_ref, join))
      "kind" "GraphSpan" ?_ (fun _ h => untagged_record (by decide) h) rfl ?_).mpr
        (lossless_to_join graph_ref join)
    · rintro ⟨⟩ ⟨⟩ ⟨⟩
      rfl
    · intro v v' h
      simp only [FrameKind.serde, h]

/-! ## A frame -/

/-- The fields of a frame before `is_root`. -/
def state_fields : Fields Jsonb (SessionId × FrameId × FrameStatus × FramePolicy × UInt32 × Bool ×
    Option SnapshotRef × Channels × FrameSpecRef × FrameKind × List RunLog ×
    Entries UInt32 HitlId) :=
  (Fields.field "session_id" identifier).both ((Fields.field "id" identifier).both
    ((Fields.field "status" FrameStatus.serde).both
      ((Fields.field "frame_policy" FramePolicy.serde).both
        ((Fields.field "superstep" u32).both ((Fields.field "barrier" bool).both
          ((optional_field "forked_from" SnapshotRef.serde).both
            ((Fields.field "inherited_channels" channels).both
              ((Fields.field "spec_ref" FrameSpecRef.serde).both
                ((Fields.field "data" FrameKind.serde).both
                  ((Fields.fieldOr "logs" (seq RunLog.serde) (some [])).both
                    (.fieldOr "hitl_aliases" (map u32_key identifier) (some .empty))))))))))))

/-- The links of a frame in its tree. -/
def link_fields : Fields Jsonb (Option FrameId × Option FrameId × Option FrameId × List FrameId) :=
  (optional_field "parent" identifier).both ((optional_field "next_sibling" identifier).both
    ((optional_field "prev_sibling" identifier).both (.field "children" (seq identifier))))

def root_fields : Fields Jsonb (Bool × Option FrameId × Option FrameId × Option FrameId ×
    List FrameId) :=
  (Fields.fieldOr "is_root" bool (some false)).both link_fields

def FrameNode.fields : Fields Jsonb FrameNode :=
  (state_fields.both root_fields).iso
    (fun n => ((n.session_id, n.id, n.status, n.frame_policy, n.superstep, n.barrier,
      n.forked_from, n.inherited_channels, n.spec_ref, n.data, n.logs, n.hitl_aliases),
      n.is_root, n.parent, n.next_sibling, n.prev_sibling, n.children))
    (fun p => ⟨p.1.1, p.1.2.1, p.1.2.2.1, p.1.2.2.2.1, p.1.2.2.2.2.1, p.1.2.2.2.2.2.1,
      p.1.2.2.2.2.2.2.1, p.1.2.2.2.2.2.2.2.1, p.1.2.2.2.2.2.2.2.2.1, p.1.2.2.2.2.2.2.2.2.2.1,
      p.1.2.2.2.2.2.2.2.2.2.2.1, p.1.2.2.2.2.2.2.2.2.2.2.2, p.2.1, p.2.2.1, p.2.2.2.1,
      p.2.2.2.2.1, p.2.2.2.2.2⟩)

def FrameNode.serde : Serde FrameNode := record FrameNode.fields (by decide)

/-- Of a frame nothing is lost exactly when it has another kind than `Hitl`, and no answer that is
`null`, neither in its log nor in the response that it ended with. -/
theorem lossless_frame_node {n : FrameNode} :
    FrameNode.serde.Lossless n ↔
      (∀ hitl_id, n.data ≠ .Hitl hitl_id) ∧ (∀ l ∈ n.logs, l.Readable) ∧ n.status.Readable := by
  rw [FrameNode.serde, lossless_record, FrameNode.fields,
    Fields.lossless_iso (fun _ => rfl) (fun _ => rfl), Fields.lossless_both (by decide)]
  have hlinks : root_fields.Lossless
      (n.is_root, n.parent, n.next_sibling, n.prev_sibling, n.children) := by
    rw [root_fields, link_fields, Fields.lossless_both (by decide),
      Fields.lossless_both (by decide), Fields.lossless_both (by decide),
      Fields.lossless_both (by decide)]
    simp [lossless_optional_id]
  have hforked : (optional_field "forked_from" SnapshotRef.serde).Lossless n.forked_from :=
    lossless_optional_field lossless_snapshot_ref fun _ => record_ne_null
  rw [state_fields, Fields.lossless_both (by decide), Fields.lossless_both (by decide),
    Fields.lossless_both (by decide), Fields.lossless_both (by decide),
    Fields.lossless_both (by decide), Fields.lossless_both (by decide),
    Fields.lossless_both (by decide), Fields.lossless_both (by decide),
    Fields.lossless_both (by decide), Fields.lossless_both (by decide),
    Fields.lossless_both (by decide)]
  simp only [Fields.lossless_field, Fields.lossless_fieldOr, lossless_identifier,
    lossless_frame_status, lossless_frame_policy, lossless_u32, lossless_bool, hforked, channels,
    lossless_map, lossless_json, lossless_frame_spec_ref, lossless_frame_kind, lossless_seq,
    lossless_run_log, hlinks]
  tauto

/-- A frame that is bound to a request has no JSON. -/
theorem encode_of_hitl {n : FrameNode} {hitl_id : HitlId} (h : n.data = .Hitl hitl_id) :
    FrameNode.serde.encode n = none := by
  rw [← Option.not_isSome_iff_eq_none]
  intro hsome
  have hwrite : ((state_fields.both root_fields).write
      ((n.session_id, n.id, n.status, n.frame_policy, n.superstep, n.barrier, n.forked_from,
        n.inherited_channels, n.spec_ref, n.data, n.logs, n.hitl_aliases),
        n.is_root, n.parent, n.next_sibling, n.prev_sibling, n.children)).isSome := by
    have : (FrameNode.fields.write n).isSome := by simpa [FrameNode.serde, record] using hsome
    exact this
  rw [Fields.isSome_write_both, state_fields] at hwrite
  simp only [Fields.isSome_write_both, Fields.isSome_write_field] at hwrite
  have hdata := hwrite.1.2.2.2.2.2.2.2.2.2.1
  rw [h, encode_hitl] at hdata
  cases hdata

end marie.session.stored
