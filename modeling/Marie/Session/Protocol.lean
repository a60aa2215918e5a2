-- The messages of a session: what a run of a frame asks for, the replay log
-- that keeps the answers, the states of a job, and the checkpoint events.
import Marie.Session.Channel

namespace marie.session

/-! ## Requests of a run -/

abbrev GraphId := String
abbrev NodeId := String
abbrev ToolName := String
abbrev ExpertId := String

/-- `CatalogItemRef` of a graph: one published version. -/
structure GraphRef where
  id : GraphId
  version : Nat
deriving DecidableEq

structure RequestAskExpert where
  task : String
  expert_id : ExpertId
deriving DecidableEq

structure RequestToolCall where
  name : ToolName
  parameters : Value

inductive QuestionKind
  | ShortText
  | LongText
  | Select (options : List String)
  | Radio (options : List String)
  | Checkboxes (options : List String)
  | FileUpload (accept : List String)
deriving DecidableEq

structure Question where
  key : String
  label : String
  kind : QuestionKind
deriving DecidableEq

inductive Hitl
  | Questions (questions : List Question)
  | Text
deriving DecidableEq

inductive Answer
  | Single (text : String)
  | Multiple (texts : List String)
deriving DecidableEq

/-- A `HashMap` from the keys of questions to answers. -/
abbrev Answers := List (String × Answer)

/-- `serde_json::to_value` of one answer, untagged. -/
def Answer.to_value : Answer → Value
  | .Single text => .String text
  | .Multiple texts => .Array (texts.map .String)

/-- `serde_json::to_value` of the answers. -/
def answers_to_value (answers : Answers) : Value :=
  .Object (answers.foldl (fun fields a => insert_field a.1 a.2.to_value fields) [])

/-! ## The replay log -/

inductive RunLogContent
  | ConsultExpertsLog (requests : List RequestAskExpert)
  | CallToolsLog (requests : List RequestToolCall)
  | GraphLog (graph_id : GraphId)
  | HitlLog (request : Hitl)

structure RunLog where
  index : Nat
  content : RunLogContent
  value : Option Value

/-! ## The answer of a run -/

structure Branch where
  start : NodeId
  overrides : List (ChannelName × Value)

inductive FrameResult
  | RequestHitl (hitl : Hitl)
  | ConsultExperts (requests : List RequestAskExpert)
  | CallTools (requests : List RequestToolCall)
  | ExecuteGraph (graph_id : GraphId)
  | Continue
  | GoTo (node_id : NodeId)
  | Fork (branches : List Branch) (join : NodeId)
  | Completed
  | Failed (error : String)

structure FrameResponse where
  frame_id : FrameId
  updates : List ChannelUpdate
  new_logs : List RunLog
  result : FrameResult

/-! ## Jobs -/

/-- `WorkerError`; `ExecutionError` keeps the text of the error of the job. -/
inductive WorkerError
  | NoJobExecutorFound (name : String)
  | NoJobFound (id : JobId)
  | Panicked (message : String)
  | ExecutionError (error : String)
  | NoWorkerAvailable
  | ProbingTimeOut
  | AckTimeOut
  | ScheduledError (error : String)
  | RpcError (error : String)
  | SerdeError (error : String)
deriving DecidableEq

def WorkerError.to_string : WorkerError → String
  | .NoJobExecutorFound name => "aucun exécuteur de travail trouvé pour " ++ name
  | .NoJobFound id => "le job " ++ display_id id.id ++ " n'a pas été trouvé"
  | .Panicked message => "l'exécution du travail a paniqué : " ++ message
  | .ExecutionError error => "l'exécution a échoué : " ++ error
  | .NoWorkerAvailable => "aucun travailleur disponible"
  | .ProbingTimeOut => "le sondage a expiré sans réponse"
  | .AckTimeOut => "le travailleur n'a pas reconnu la tâche dans les temps"
  | .ScheduledError error =>
    "une erreur est survenue pendant la programmation de la tâche: " ++ error
  | .RpcError error => "erreur lors de l'appel RPC : " ++ error
  | .SerdeError error => "erreur lors des opérations serde: " ++ error

structure JobInstance where
  id : JobId
  name : String
  args : Value

/-- `JobState<R>`; `worker` is the node that has the job. -/
inductive JobState (R : Type)
  | Unknown
  | PendingScheduling (instance_ : JobInstance) (worker : String)
  | PendingAck (worker : String)
  | Probing (worker : String)
  | Scheduled (worker : String)
  | Running (worker : String)
  | Completed (result : R)
  | Failed (error : WorkerError)

def JobState.has_terminated {R : Type} : JobState R → Bool
  | .Completed _ | .Failed _ => true
  | _ => false

/-! ## Checkpoint events -/

structure HitlResponse where
  id : HitlId
  answers : Answers

/-- `SessionCheckpointEvent` of one session: each event carries the id of the session, and a
checkpointer only sees the events of its own. -/
inductive SessionCheckpointEvent
  | SessionCreated
  | HitlAnswered (response : HitlResponse)
  | FrameCreated (frame_id : FrameId)
  | FrameRunJobStateUpdate (frame_id : FrameId) (job_state : JobState FrameResponse)
  | FrameReady (frame_id : FrameId)
  | FrameRunTerminated (frame_id : FrameId)
  | ChildFrameTerminated (parent_id child_id : FrameId)
  | FrameTerminated (frame_id : FrameId)

/-! ## Snapshot references and graphs -/

structure SnapshotRef where
  session_id : SessionId
  frame_id : FrameId
  superstep : Nat
deriving DecidableEq

structure GraphSpec where
  id : GraphId
  edges : NodeId → Option NodeId
  entry : NodeId
  common : CommonSpec

inductive CatalogError
  | StoreError (error : String)
  | NotFound (kind id : String)
  | Deserialize (error : String)
deriving DecidableEq

/-- The catalog of graphs: the last version of an id, and the content of a version. -/
structure Graphs where
  latest : GraphId → Except CatalogError (Option GraphRef)
  get : GraphRef → Except CatalogError GraphSpec

/-- The catalog that holds one version of each of these graphs. -/
def Graphs.of (specs : List GraphSpec) : Graphs where
  latest id := .ok ((specs.find? (·.id = id)).map fun g => ⟨g.id, 1⟩)
  get ref :=
    match specs.find? (·.id = ref.id) with
    | some g => if ref.version = 1 then .ok g else .error (.NotFound "graph" ref.id)
    | none => .error (.NotFound "graph" ref.id)

/-! ## Errors -/

def CatalogError.to_string : CatalogError → String
  | .StoreError error => "erreur lors des opérations de stockage du catalogue: " ++ error
  | .NotFound kind id => "élément de catalogue introuvable: " ++ kind ++ "/" ++ id
  | .Deserialize error => "erreur de (dé)sérialisation d'un élément de catalogue: " ++ error

/-- What the stores answer when a row is not there, or when the database refuses a write. -/
inductive StoreError
  | Refused (message : String)
  | FrameNotFound (session_id : SessionId) (frame_id : FrameId)
  | NoRootFrame (session_id : SessionId)
  | SnapshotNotFound (session_id : SessionId) (frame_id : FrameId) (superstep : Nat)
  | HitlNotFound (session_id : SessionId) (hitl_id : HitlId)
deriving DecidableEq

def StoreError.to_string : StoreError → String
  | .Refused message => message
  | .FrameNotFound session_id frame_id =>
    "frame " ++ display_id frame_id.id ++ " introuvable pour la session " ++
      display_id session_id.id
  | .NoRootFrame session_id =>
    "la session " ++ display_id session_id.id ++ " n'a pas encore de frame racine"
  | .SnapshotNotFound session_id frame_id superstep =>
    "cliché (" ++ display_id session_id.id ++ ", " ++ display_id frame_id.id ++
      ", superstep " ++ toString superstep ++ ") introuvable"
  | .HitlNotFound session_id hitl_id =>
    "hitl " ++ display_id hitl_id.id ++ " introuvable pour la session " ++
      display_id session_id.id

inductive HitlError
  | StorageError (error : StoreError)
  | ValidationError (message : String)
deriving DecidableEq

def HitlError.to_string : HitlError → String
  | .StorageError error => "erreur lors des opérations de stockage: " ++ error.to_string
  | .ValidationError message => "erreur de validation: " ++ message

inductive SessionError
  | StorageError (error : StoreError)
  | StaleSuperstep (expected got : Nat)
  | CatalogError (error : CatalogError)
  | GraphNotFound (graph_id : GraphId)
  | WorkerError (error : WorkerError)
  | HitlError (error : HitlError)
deriving DecidableEq

def SessionError.to_string : SessionError → String
  | .StorageError error => "erreur lors des opérations de stockage: " ++ error.to_string
  | .StaleSuperstep expected got =>
    "superstep périmé: attendu " ++ toString expected ++ ", trouvé " ++ toString got
  | .CatalogError error => "erreur de catalogue: " ++ error.to_string
  | .GraphNotFound graph_id => "graphe introuvable: " ++ graph_id
  | .WorkerError error => "erreur du worker: " ++ error.to_string
  | .HitlError error => "erreur hitl: " ++ error.to_string

/-- How a handler stops before its end: an error that it returns, or a panic. -/
inductive Fault
  | error (error : SessionError)
  | panic (message : String)
deriving DecidableEq

def Fault.isError : Fault → Bool
  | .error _ => true
  | .panic _ => false

end marie.session
