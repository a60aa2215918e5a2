-- The commands of an external client of the gateway, and what it is sent back.
import Marie.Basic

namespace marie.gateway

/-- The types that the gateway only passes on. -/
structure Core where
  Session : Type
  Workspace : Type
  SessionEvent : Type
  WorkspaceEvent : Type
  HitlFrameId : Type
  Answer : Type
  session_id : SessionEvent → SessionId
  workspace_id : WorkspaceEvent → WorkspaceId

variable (core : Core)

inductive MarieGatewayCommand where
  | AccessSession (id : SessionId)
  | AccessWorkspace (id : WorkspaceId)
  | GetSession (id : SessionId)
  | RemoveSession (id : SessionId)
  | AppendSessionLog (session_id : SessionId) (line : String)
  | QuerySessionVars (session_id : SessionId) (path : String)
  | PatchSessionVars (session_id : SessionId) (path : String) (value : Value)
  | ReportUserInput (session_id : SessionId) (hitl_id : Option core.HitlFrameId)
      (answers : List (String × core.Answer))
  | CreateWorkspace (id : WorkspaceId)
  | GetWorkspace (id : WorkspaceId)
  | RemoveWorkspace (id : WorkspaceId)
  | ListWorkspaceSessions (id : WorkspaceId)
  | QueryWorkspaceVars (workspace_id : WorkspaceId) (path : String)
  | PatchWorkspaceVars (workspace_id : WorkspaceId) (path : String) (value : Value)
  | AddSessionToWorkspace (workspace_id : WorkspaceId) (session_id : SessionId)
  | RemoveSessionFromWorkspace (workspace_id : WorkspaceId) (session_id : SessionId)
  | CreateSession (workspace_id : WorkspaceId)

namespace MarieGatewayCommand

variable {core}

/-- The session that must be authorized for the command to be handled. -/
def required_session : MarieGatewayCommand core → Option SessionId
  | .GetSession id | .RemoveSession id => some id
  | .AppendSessionLog session_id _ | .QuerySessionVars session_id _
  | .PatchSessionVars session_id _ _ | .ReportUserInput session_id _ _ => some session_id
  | _ => none

/-- The workspace that must be authorized for the command to be handled. -/
def required_workspace : MarieGatewayCommand core → Option WorkspaceId
  | .GetWorkspace id | .RemoveWorkspace id | .ListWorkspaceSessions id | .CreateSession id => some id
  | .QueryWorkspaceVars workspace_id _ | .PatchWorkspaceVars workspace_id _ _
  | .AddSessionToWorkspace workspace_id _ | .RemoveSessionFromWorkspace workspace_id _ =>
    some workspace_id
  | _ => none

end MarieGatewayCommand

inductive MarieGatewayEvent where
  | Session (event : core.SessionEvent)
  | Workspace (event : core.WorkspaceEvent)
  | SessionAccessGranted (id : SessionId)
  | SessionAccessDenied (id : SessionId)
  | WorkspaceAccessGranted (id : WorkspaceId)
  | WorkspaceAccessDenied (id : WorkspaceId)
  | SessionFetched (session : core.Session)
  | SessionRemoved (id : SessionId)
  | SessionLogAppended (id : SessionId)
  | SessionVarsQueried (session_id : SessionId) (values : List Value)
  | SessionVarsPatched (id : SessionId)
  | UserInputReported (session_id : SessionId) (hitl_id : core.HitlFrameId)
  | WorkspaceCreated (id : WorkspaceId)
  | WorkspaceFetched (workspace : core.Workspace)
  | WorkspaceRemoved (id : WorkspaceId)
  | WorkspaceSessionsListed (workspace_id : WorkspaceId) (sessions : List SessionId)
  | WorkspaceVarsQueried (workspace_id : WorkspaceId) (values : List Value)
  | WorkspaceVarsPatched (id : WorkspaceId)
  | SessionAddedToWorkspace (workspace_id : WorkspaceId) (session_id : SessionId)
  | SessionRemovedFromWorkspace (workspace_id : WorkspaceId) (session_id : SessionId)
  | SessionCreated (workspace_id : WorkspaceId) (session_id : SessionId)
  | CommandRejected (reason : String)
  | CommandFailed (reason : String)

/-- A call of `SessionClient` or `WorkspaceClient`, with its arguments. The session that is inserted
is an empty one. -/
inductive Call where
  | session_get (id : SessionId)
  | session_remove (id : SessionId)
  | session_append_log (id : SessionId) (line : String)
  | session_query_state (id : SessionId) (path : String)
  | session_patch_vars (id : SessionId) (path : String) (value : Value)
  | session_report_user_input (id : SessionId) (hitl_id : Option core.HitlFrameId)
      (answers : List (String × core.Answer))
  | session_insert (id : SessionId)
  | workspace_create (id : WorkspaceId)
  | workspace_get (id : WorkspaceId)
  | workspace_remove (id : WorkspaceId)
  | workspace_sessions (id : WorkspaceId)
  | workspace_query_vars (id : WorkspaceId) (path : String)
  | workspace_patch_vars (id : WorkspaceId) (path : String) (value : Value)
  | workspace_add_session (id : WorkspaceId) (session_id : SessionId)
  | workspace_remove_session (id : WorkspaceId) (session_id : SessionId)
  | workspace_create_session (id : WorkspaceId)

/-- What the checks and the clients answer while a command is handled. An error is its text. -/
structure Answers where
  check_session : SessionId → Except String Bool
  check_workspace : WorkspaceId → Except String Bool
  session_get : SessionId → Except String core.Session
  session_remove : SessionId → Except String Unit
  session_append_log : SessionId → String → Except String Unit
  session_query_state : SessionId → String → Except String (List Value)
  session_patch_vars : SessionId → String → Value → Except String Unit
  session_report_user_input : SessionId → Option core.HitlFrameId → List (String × core.Answer) →
    Except String core.HitlFrameId
  session_insert : SessionId → Except String Unit
  workspace_create : WorkspaceId → Except String Unit
  workspace_get : WorkspaceId → Except String core.Workspace
  workspace_remove : WorkspaceId → Except String Unit
  workspace_sessions : WorkspaceId → Except String (List SessionId)
  workspace_query_vars : WorkspaceId → String → Except String (List Value)
  workspace_patch_vars : WorkspaceId → String → Value → Except String Unit
  workspace_add_session : WorkspaceId → SessionId → Except String Unit
  workspace_remove_session : WorkspaceId → SessionId → Except String Unit
  workspace_create_session : WorkspaceId → Except String SessionId

end marie.gateway
