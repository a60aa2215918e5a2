-- The actor of one connection: it checks the ids that a command requires, calls
-- the clients of the sessions and workspaces, and relays the events of the network.
import Marie.Gateway.Protocol

namespace marie.gateway

variable {core : Core}

/-- What the actor did: the answer of a check, a call, what a call created, or a message that the
client was sent. -/
inductive Action (core : Core) where
  | checked_session (id : SessionId) (answer : Except String Bool)
  | checked_workspace (id : WorkspaceId) (answer : Except String Bool)
  | called (call : Call core)
  | created_session (id : SessionId)
  | created_workspace (id : WorkspaceId)
  | sent (event : MarieGatewayEvent core)

/-- `trace` is what the actor did so far. -/
structure MarieGatewayActor (core : Core) where
  authorized_sessions : List SessionId
  authorized_workspaces : List WorkspaceId
  trace : List (Action core)

/-- An event of the network, decoded: one of a session, one of a workspace, or anything else. -/
inductive NetworkMessage (core : Core) where
  | session (event : core.SessionEvent)
  | workspace (event : core.WorkspaceEvent)
  | other

inductive Event (core : Core) where
  | command (command : MarieGatewayCommand core) (answers : Answers core)
  | network (msg : NetworkMessage core)

namespace MarieGatewayActor

def new : MarieGatewayActor core := ⟨[], [], []⟩

def log (action : Action core) (self : MarieGatewayActor core) : MarieGatewayActor core :=
  { self with trace := self.trace ++ [action] }

def authorize_session (id : SessionId) (self : MarieGatewayActor core) : MarieGatewayActor core :=
  { self with authorized_sessions := self.authorized_sessions.insert id }

def authorize_workspace (id : WorkspaceId) (self : MarieGatewayActor core) :
    MarieGatewayActor core :=
  { self with authorized_workspaces := self.authorized_workspaces.insert id }

/-- A call whose answer is the reply. -/
def reply_to {α : Type} (call : Call core) (answer : Except String α)
    (reply : α → MarieGatewayEvent core) (self : MarieGatewayActor core) :
    MarieGatewayEvent core × MarieGatewayActor core :=
  (match answer with
    | .ok a => reply a
    | .error err => .CommandFailed err, self.log (.called call))

def handle_create_session (answers : Answers core) (workspace_id : WorkspaceId)
    (self : MarieGatewayActor core) : MarieGatewayEvent core × MarieGatewayActor core :=
  let self := self.log (.called (.workspace_create_session workspace_id))
  match answers.workspace_create_session workspace_id with
  | .error err => (.CommandFailed ("échec de rattachement au workspace : " ++ err), self)
  | .ok session_id =>
    let self := (self.log (.created_session session_id)).log (.called (.session_insert session_id))
    match answers.session_insert session_id with
    | .ok _ => (.SessionCreated workspace_id session_id, self.authorize_session session_id)
    | .error err => (.CommandFailed ("échec de création de session : " ++ err),
        self.log (.called (.workspace_remove_session workspace_id session_id)))

/-- The commands that `handle_command` handles itself do not get here. -/
def dispatch (answers : Answers core) (command : MarieGatewayCommand core)
    (self : MarieGatewayActor core) : MarieGatewayEvent core × MarieGatewayActor core :=
  match command with
  | .AccessSession _ | .AccessWorkspace _ => (.CommandFailed "géré par handle_command", self)
  | .GetSession id => self.reply_to (.session_get id) (answers.session_get id) .SessionFetched
  | .RemoveSession id =>
    self.reply_to (.session_remove id) (answers.session_remove id) fun _ => .SessionRemoved id
  | .AppendSessionLog session_id line =>
    self.reply_to (.session_append_log session_id line) (answers.session_append_log session_id line)
      fun _ => .SessionLogAppended session_id
  | .QuerySessionVars session_id path =>
    self.reply_to (.session_query_state session_id path)
      (answers.session_query_state session_id path) (.SessionVarsQueried session_id)
  | .PatchSessionVars session_id path value =>
    self.reply_to (.session_patch_vars session_id path value)
      (answers.session_patch_vars session_id path value) fun _ => .SessionVarsPatched session_id
  | .ReportUserInput session_id hitl_id inputs =>
    self.reply_to (.session_report_user_input session_id hitl_id inputs)
      (answers.session_report_user_input session_id hitl_id inputs) (.UserInputReported session_id)
  | .CreateWorkspace id =>
    let self := self.log (.called (.workspace_create id))
    match answers.workspace_create id with
    | .ok _ =>
      (.WorkspaceCreated id, (self.log (.created_workspace id)).authorize_workspace id)
    | .error err => (.CommandFailed err, self)
  | .GetWorkspace id => self.reply_to (.workspace_get id) (answers.workspace_get id) .WorkspaceFetched
  | .RemoveWorkspace id =>
    self.reply_to (.workspace_remove id) (answers.workspace_remove id) fun _ => .WorkspaceRemoved id
  | .ListWorkspaceSessions id =>
    self.reply_to (.workspace_sessions id) (answers.workspace_sessions id)
      (.WorkspaceSessionsListed id)
  | .QueryWorkspaceVars workspace_id path =>
    self.reply_to (.workspace_query_vars workspace_id path)
      (answers.workspace_query_vars workspace_id path) (.WorkspaceVarsQueried workspace_id)
  | .PatchWorkspaceVars workspace_id path value =>
    self.reply_to (.workspace_patch_vars workspace_id path value)
      (answers.workspace_patch_vars workspace_id path value) fun _ =>
        .WorkspaceVarsPatched workspace_id
  | .AddSessionToWorkspace workspace_id session_id =>
    self.reply_to (.workspace_add_session workspace_id session_id)
      (answers.workspace_add_session workspace_id session_id) fun _ =>
        .SessionAddedToWorkspace workspace_id session_id
  | .RemoveSessionFromWorkspace workspace_id session_id =>
    self.reply_to (.workspace_remove_session workspace_id session_id)
      (answers.workspace_remove_session workspace_id session_id) fun _ =>
        .SessionRemovedFromWorkspace workspace_id session_id
  | .CreateSession workspace_id => self.handle_create_session answers workspace_id

/-- The ids that the command requires are authorized. -/
def allowed (command : MarieGatewayCommand core) (self : MarieGatewayActor core) : Bool :=
  (match command.required_session with
    | some id => decide (id ∈ self.authorized_sessions)
    | none => true) &&
  match command.required_workspace with
    | some id => decide (id ∈ self.authorized_workspaces)
    | none => true

/-- The reply to a command. -/
def reply (answers : Answers core) (command : MarieGatewayCommand core)
    (self : MarieGatewayActor core) : MarieGatewayEvent core × MarieGatewayActor core :=
  match command with
  | .AccessSession id =>
    let self := self.log (.checked_session id (answers.check_session id))
    match answers.check_session id with
    | .ok true => (.SessionAccessGranted id, self.authorize_session id)
    | .ok false => (.SessionAccessDenied id, self)
    | .error err => (.CommandFailed err, self)
  | .AccessWorkspace id =>
    let self := self.log (.checked_workspace id (answers.check_workspace id))
    match answers.check_workspace id with
    | .ok true => (.WorkspaceAccessGranted id, self.authorize_workspace id)
    | .ok false => (.WorkspaceAccessDenied id, self)
    | .error err => (.CommandFailed err, self)
  | other =>
    if self.allowed other then self.dispatch answers other
    else (.CommandRejected "accès non autorisé pour cette session/workspace", self)

def handle_command (answers : Answers core) (command : MarieGatewayCommand core)
    (self : MarieGatewayActor core) : MarieGatewayActor core :=
  let (reply, self) := self.reply answers command
  self.log (.sent reply)

def handle_network_message (msg : NetworkMessage core) (self : MarieGatewayActor core) :
    MarieGatewayActor core :=
  match msg with
  | .session event =>
    if core.session_id event ∈ self.authorized_sessions then self.log (.sent (.Session event))
    else self
  | .workspace event =>
    if core.workspace_id event ∈ self.authorized_workspaces then
      self.log (.sent (.Workspace event))
    else self
  | .other => self

def step (self : MarieGatewayActor core) : Event core → MarieGatewayActor core
  | .command command answers => self.handle_command answers command
  | .network msg => self.handle_network_message msg

def run (events : List (Event core)) : MarieGatewayActor core := events.foldl step new

/-- What the client was sent. -/
def output (self : MarieGatewayActor core) : List (MarieGatewayEvent core) :=
  self.trace.filterMap fun
    | .sent event => some event
    | _ => none

end MarieGatewayActor

end marie.gateway
