-- What one connection reaches: the ids that it was granted and those that it
-- created. Two commands carry a session beside the workspace that they require,
-- and no one checks that session.
import Marie.Gateway.Actor
import Marie.Lib.Runs

open Runs

namespace marie.gateway

variable {core : Core} {s : MarieGatewayActor core} {answers : Answers core}
  {command : MarieGatewayCommand core} {trace : List (Action core)} {action : Action core}

/-! ## The known ids -/

/-- The sessions that a check accepted, and those that were created. -/
def known_sessions (trace : List (Action core)) : List SessionId :=
  trace.filterMap fun
    | .checked_session id (.ok true) => some id
    | .created_session id => some id
    | _ => none

def known_workspaces (trace : List (Action core)) : List WorkspaceId :=
  trace.filterMap fun
    | .checked_workspace id (.ok true) => some id
    | .created_workspace id => some id
    | _ => none

/-- The sessions that a call names. -/
def Call.sessions : Call core → List SessionId
  | .session_get id | .session_remove id | .session_append_log id _ | .session_query_state id _
  | .session_patch_vars id _ _ | .session_report_user_input id _ _ | .session_insert id => [id]
  | .workspace_add_session _ session_id | .workspace_remove_session _ session_id => [session_id]
  | _ => []

/-- The workspaces that a call names, but for the one that it creates. -/
def Call.workspaces : Call core → List WorkspaceId
  | .workspace_get id | .workspace_remove id | .workspace_sessions id | .workspace_query_vars id _
  | .workspace_patch_vars id _ _ | .workspace_add_session id _ | .workspace_remove_session id _
  | .workspace_create_session id => [id]
  | _ => []

/-- A call names known ids, and an event of the network that is relayed is of a known id. -/
def Fits (before : List (Action core)) : Action core → Prop
  | .called call => (∀ id ∈ call.sessions, id ∈ known_sessions before) ∧
    ∀ id ∈ call.workspaces, id ∈ known_workspaces before
  | .sent (.Session event) => core.session_id event ∈ known_sessions before
  | .sent (.Workspace event) => core.workspace_id event ∈ known_workspaces before
  | _ => True

/-- Everything that was done fits what was known before it. -/
def Isolated (trace : List (Action core)) : Prop := EveryStep Fits trace

/-- The authorized ids are known. -/
structure Backed (s : MarieGatewayActor core) : Prop where
  sessions : ∀ id ∈ s.authorized_sessions, id ∈ known_sessions s.trace
  workspaces : ∀ id ∈ s.authorized_workspaces, id ∈ known_workspaces s.trace

theorem known_sessions_concat (id : SessionId) (h : id ∈ known_sessions trace) :
    id ∈ known_sessions (trace ++ [action]) := by
  unfold known_sessions
  rw [List.filterMap_append]
  exact List.mem_append_left _ h

theorem known_workspaces_concat (id : WorkspaceId) (h : id ∈ known_workspaces trace) :
    id ∈ known_workspaces (trace ++ [action]) := by
  unfold known_workspaces
  rw [List.filterMap_append]
  exact List.mem_append_left _ h

theorem isolated_log : Isolated (s.log action).trace ↔ Isolated s.trace ∧ Fits s.trace action :=
  everyStep_concat

theorem Backed.log (h : Backed s) (action : Action core) : Backed (s.log action) :=
  ⟨fun id hid => known_sessions_concat id (h.sessions id hid),
    fun id hid => known_workspaces_concat id (h.workspaces id hid)⟩

theorem Backed.authorize_session (h : Backed s) {id : SessionId}
    (hid : id ∈ known_sessions s.trace) : Backed (s.authorize_session id) := by
  refine ⟨?_, h.workspaces⟩
  intro other hother
  rcases List.mem_insert_iff.mp hother with rfl | hold
  · exact hid
  · exact h.sessions other hold

theorem Backed.authorize_workspace (h : Backed s) {id : WorkspaceId}
    (hid : id ∈ known_workspaces s.trace) : Backed (s.authorize_workspace id) := by
  refine ⟨h.sessions, ?_⟩
  intro other hother
  rcases List.mem_insert_iff.mp hother with rfl | hold
  · exact hid
  · exact h.workspaces other hold

/-! ## The commands -/

namespace MarieGatewayCommand

/-- The session that a command carries beside the workspace that it requires. -/
def unchecked_session : MarieGatewayCommand core → Option SessionId
  | .AddSessionToWorkspace _ session_id | .RemoveSessionFromWorkspace _ session_id =>
    some session_id
  | _ => none

/-- The call of a command that makes just one, and creates nothing. -/
def single_call : MarieGatewayCommand core → Option (Call core)
  | .GetSession id => some (.session_get id)
  | .RemoveSession id => some (.session_remove id)
  | .AppendSessionLog id line => some (.session_append_log id line)
  | .QuerySessionVars id path => some (.session_query_state id path)
  | .PatchSessionVars id path value => some (.session_patch_vars id path value)
  | .ReportUserInput id hitl_id inputs => some (.session_report_user_input id hitl_id inputs)
  | .GetWorkspace id => some (.workspace_get id)
  | .RemoveWorkspace id => some (.workspace_remove id)
  | .ListWorkspaceSessions id => some (.workspace_sessions id)
  | .QueryWorkspaceVars id path => some (.workspace_query_vars id path)
  | .PatchWorkspaceVars id path value => some (.workspace_patch_vars id path value)
  | .AddSessionToWorkspace id session_id => some (.workspace_add_session id session_id)
  | .RemoveSessionFromWorkspace id session_id => some (.workspace_remove_session id session_id)
  | _ => none

end MarieGatewayCommand

theorem dispatch_single {call : Call core} (h : command.single_call = some call) :
    (s.dispatch answers command).2 = s.log (.called call) := by
  cases command <;> simp [MarieGatewayCommand.single_call] at h <;> subst h <;> rfl

/-- The call of an allowed command fits exactly if the session that it carries unchecked is
known. -/
theorem fits_single_iff (hbacked : Backed s) (hallowed : s.allowed command = true)
    {call : Call core} (h : command.single_call = some call) :
    Fits s.trace (.called call) ↔
      ∀ id, command.unchecked_session = some id → id ∈ known_sessions s.trace := by
  have hsession : ∀ id, command.required_session = some id → id ∈ known_sessions s.trace := by
    intro id hid
    apply hbacked.sessions
    simp [MarieGatewayActor.allowed, hid] at hallowed
    exact hallowed.1
  have hworkspace : ∀ id, command.required_workspace = some id →
      id ∈ known_workspaces s.trace := by
    intro id hid
    apply hbacked.workspaces
    simp [MarieGatewayActor.allowed, hid] at hallowed
    exact hallowed.2
  cases command <;> simp [MarieGatewayCommand.single_call] at h <;> subst h <;>
    simp_all [Fits, Call.sessions, Call.workspaces, MarieGatewayCommand.unchecked_session,
      MarieGatewayCommand.required_session, MarieGatewayCommand.required_workspace]

theorem reply_single {call : Call core} (h : command.single_call = some call) :
    (s.reply answers command).2 =
      if s.allowed command then (s.dispatch answers command).2 else s := by
  cases command <;> simp [MarieGatewayCommand.single_call] at h <;>
    simp only [MarieGatewayActor.reply] <;> split <;> rfl

/-- A session that was just created is known. -/
theorem known_created (id : SessionId) (trace : List (Action core)) :
    id ∈ known_sessions (trace ++ [.created_session id]) := by
  simp [known_sessions]

/-- The creation of a session names the workspace that it requires, and the new session. -/
theorem isolated_create_session {workspace_id : WorkspaceId}
    (hknown : workspace_id ∈ known_workspaces s.trace) :
    Isolated (s.handle_create_session answers workspace_id).2.trace ↔ Isolated s.trace := by
  have hcreate : Fits s.trace (.called (.workspace_create_session workspace_id)) := by
    simpa [Fits, Call.sessions, Call.workspaces] using hknown
  have hfirst : Isolated (s.log (.called (.workspace_create_session workspace_id))).trace ↔
      Isolated s.trace := by
    rw [isolated_log]
    exact and_iff_left hcreate
  unfold MarieGatewayActor.handle_create_session
  dsimp only
  split
  · exact hfirst
  · rename_i session_id _
    have hsecond : Isolated (((s.log (.called (.workspace_create_session workspace_id))).log
        (.created_session session_id)).log (.called (.session_insert session_id))).trace ↔
        Isolated s.trace := by
      rw [isolated_log, isolated_log, hfirst]
      have hinsert : Fits ((s.log (.called (.workspace_create_session workspace_id))).log
          (.created_session session_id)).trace (.called (.session_insert session_id)) := by
        refine ⟨?_, by simp [Call.workspaces]⟩
        intro id hid
        rw [Call.sessions, List.mem_singleton] at hid
        rw [hid]
        exact known_created session_id _
      constructor
      · exact fun h => h.1.1
      · exact fun h => ⟨⟨h, trivial⟩, hinsert⟩
    split
    · exact hsecond
    · rw [isolated_log, hsecond]
      apply and_iff_left
      constructor
      · intro id hid
        rw [Call.sessions, List.mem_singleton] at hid
        rw [hid]
        exact known_sessions_concat _ (known_created session_id _)
      · intro id hid
        rw [Call.workspaces, List.mem_singleton] at hid
        rw [hid]
        exact known_workspaces_concat _ (known_workspaces_concat _ (known_workspaces_concat _ hknown))

/-- What a command does fits what was known exactly if the session that it carries unchecked is
known, where the command is allowed. -/
theorem isolated_reply_iff (hbacked : Backed s) :
    Isolated (s.reply answers command).2.trace ↔ Isolated s.trace ∧
      (s.allowed command = true → ∀ id, command.unchecked_session = some id →
        id ∈ known_sessions s.trace) := by
  cases hcall : command.single_call with
  | some call =>
    rw [reply_single hcall]
    by_cases hallowed : s.allowed command = true
    · rw [if_pos hallowed, dispatch_single hcall, isolated_log,
        fits_single_iff hbacked hallowed hcall]
      simp [hallowed]
    · rw [if_neg hallowed]
      simp [hallowed]
  | none =>
    have hunchecked : command.unchecked_session = none := by
      cases command <;> simp [MarieGatewayCommand.single_call] at hcall <;> rfl
    simp only [hunchecked, reduceCtorEq, false_implies, implies_true, and_true]
    cases command with
    | AccessSession id =>
      have hlog : Isolated (s.log (.checked_session id (answers.check_session id))).trace ↔
          Isolated s.trace := by simp [isolated_log, Fits]
      unfold MarieGatewayActor.reply
      dsimp only
      split <;> exact hlog
    | AccessWorkspace id =>
      have hlog : Isolated (s.log (.checked_workspace id (answers.check_workspace id))).trace ↔
          Isolated s.trace := by simp [isolated_log, Fits]
      unfold MarieGatewayActor.reply
      dsimp only
      split <;> exact hlog
    | CreateWorkspace id =>
      have hlog : Isolated (s.log (.called (.workspace_create id))).trace ↔ Isolated s.trace := by
        simp [isolated_log, Fits, Call.sessions, Call.workspaces]
      unfold MarieGatewayActor.reply
      dsimp only
      split
      · unfold MarieGatewayActor.dispatch
        dsimp only
        split
        · have hcreated : Isolated ((s.log (.called (.workspace_create id))).log
              (.created_workspace id)).trace ↔ Isolated s.trace := by
            simp [isolated_log, hlog, Fits]
          exact hcreated
        · exact hlog
      · rfl
    | CreateSession id =>
      unfold MarieGatewayActor.reply
      dsimp only
      split
      · rename_i hallowed
        apply isolated_create_session
        apply hbacked.workspaces
        simpa [MarieGatewayActor.allowed, MarieGatewayCommand.required_session,
          MarieGatewayCommand.required_workspace] using hallowed
      · rfl
    | _ => simp [MarieGatewayCommand.single_call] at hcall

theorem backed_reply (h : Backed s) : Backed (s.reply answers command).2 := by
  cases hcall : command.single_call with
  | some call =>
    rw [reply_single hcall, dispatch_single hcall]
    split
    · exact h.log _
    · exact h
  | none =>
    cases command with
    | AccessSession id =>
      unfold MarieGatewayActor.reply
      dsimp only
      split
      · rename_i hcheck
        apply (h.log _).authorize_session
        simp [MarieGatewayActor.log, known_sessions, hcheck]
      · exact h.log _
      · exact h.log _
    | AccessWorkspace id =>
      unfold MarieGatewayActor.reply
      dsimp only
      split
      · rename_i hcheck
        apply (h.log _).authorize_workspace
        simp [MarieGatewayActor.log, known_workspaces, hcheck]
      · exact h.log _
      · exact h.log _
    | CreateWorkspace id =>
      unfold MarieGatewayActor.reply
      dsimp only
      split
      · unfold MarieGatewayActor.dispatch
        dsimp only
        split
        · apply ((h.log _).log _).authorize_workspace
          simp [MarieGatewayActor.log, known_workspaces]
        · exact h.log _
      · exact h
    | CreateSession id =>
      unfold MarieGatewayActor.reply
      dsimp only
      split
      · unfold MarieGatewayActor.dispatch MarieGatewayActor.handle_create_session
        dsimp only
        split
        · exact h.log _
        · split
          · apply (((h.log _).log _).log _).authorize_session
            exact known_sessions_concat _ (known_created _ _)
          · exact (((h.log _).log _).log _).log _
      · exact h
    | _ => simp [MarieGatewayCommand.single_call] at hcall

theorem Backed.step (h : Backed s) (event : Event core) : Backed (s.step event) := by
  cases event with
  | command command answers => exact (backed_reply h).log _
  | network msg =>
    rw [MarieGatewayActor.step]
    unfold MarieGatewayActor.handle_network_message
    split
    · split
      · exact h.log _
      · exact h
    · split
      · exact h.log _
      · exact h
    · exact h

theorem run_concat (events : List (Event core)) (event : Event core) :
    MarieGatewayActor.run (events ++ [event]) = (MarieGatewayActor.run events).step event := by
  simp [MarieGatewayActor.run]

theorem backed_run (events : List (Event core)) : Backed (MarieGatewayActor.run events) := by
  induction events using List.reverseRecOn with
  | nil => constructor <;> intro id hid <;> simp [MarieGatewayActor.run, MarieGatewayActor.new] at hid
  | append_singleton events event ih =>
    rw [run_concat]
    exact ih.step event

/-! ## The replies -/

/-- An event of the network that is relayed. -/
def MarieGatewayEvent.Relayed : MarieGatewayEvent core → Prop
  | .Session _ | .Workspace _ => True
  | _ => False

theorem not_relayed_reply_to {α : Type} {call : Call core} {answer : Except String α}
    {reply : α → MarieGatewayEvent core} (h : ∀ a, ¬ (reply a).Relayed) :
    ¬ (s.reply_to call answer reply).1.Relayed := by
  unfold MarieGatewayActor.reply_to
  cases answer with
  | ok a => exact h a
  | error err => exact id

theorem not_relayed_dispatch : ¬ (s.dispatch answers command).1.Relayed := by
  unfold MarieGatewayActor.dispatch
  cases command with
  | AccessSession => exact id
  | AccessWorkspace => exact id
  | CreateWorkspace =>
    dsimp only
    split <;> exact id
  | CreateSession =>
    dsimp only
    unfold MarieGatewayActor.handle_create_session
    dsimp only
    split
    · exact id
    · split <;> exact id
  | _ => exact not_relayed_reply_to fun _ => id

/-- The reply to a command is never an event of the network. -/
theorem not_relayed_reply : ¬ (s.reply answers command).1.Relayed := by
  unfold MarieGatewayActor.reply
  split
  · dsimp only
    split <;> exact id
  · dsimp only
    split <;> exact id
  · split
    · exact not_relayed_dispatch
    · exact id

theorem fits_reply (trace : List (Action core)) :
    Fits trace (.sent (s.reply answers command).1) := by
  have h := @not_relayed_reply core s answers command
  cases hreply : (s.reply answers command).1 <;> simp_all [Fits, MarieGatewayEvent.Relayed]

/-! ## What the client cannot see -/

/-- An event of the network of a session or a workspace that is not known. -/
def hidden (s : MarieGatewayActor core) : Event core → Bool
  | .network (.session event) => core.session_id event ∉ known_sessions s.trace
  | .network (.workspace event) => core.workspace_id event ∉ known_workspaces s.trace
  | _ => false

/-- The events of a run without those that are hidden when they come. -/
def visible (s : MarieGatewayActor core) : List (Event core) → List (Event core)
  | [] => []
  | event :: events =>
    if hidden s event then visible s events else event :: visible (s.step event) events

theorem step_hidden (hbacked : Backed s) {event : Event core} (h : hidden s event = true) :
    s.step event = s := by
  cases event with
  | command command answers => simp [hidden] at h
  | network msg =>
    rw [MarieGatewayActor.step]
    unfold MarieGatewayActor.handle_network_message
    split
    · rename_i event
      have hnot : core.session_id event ∉ s.authorized_sessions := by
        intro hmem
        simp [hidden] at h
        exact h (hbacked.sessions _ hmem)
      rw [if_neg hnot]
    · rename_i event
      have hnot : core.workspace_id event ∉ s.authorized_workspaces := by
        intro hmem
        simp [hidden] at h
        exact h (hbacked.workspaces _ hmem)
      rw [if_neg hnot]
    · rfl

/-- The actor ends as if the hidden events had not come. -/
theorem foldl_visible (hbacked : Backed s) (events : List (Event core)) :
    (visible s events).foldl MarieGatewayActor.step s = events.foldl MarieGatewayActor.step s := by
  induction events generalizing s with
  | nil => rfl
  | cons event events ih =>
    unfold visible
    split
    · rename_i h
      rw [ih hbacked, List.foldl_cons, step_hidden hbacked h]
    · rw [List.foldl_cons, List.foldl_cons, ih (hbacked.step event)]

theorem run_visible (events : List (Event core)) :
    MarieGatewayActor.run (visible MarieGatewayActor.new events) = MarieGatewayActor.run events :=
  foldl_visible (backed_run []) events

/-! ## The isolation -/

/-- An allowed command carries no session unchecked but a known one. -/
def Guarded (before : List (Event core)) : Event core → Prop
  | .command command _ => (MarieGatewayActor.run before).allowed command = true →
    ∀ id, command.unchecked_session = some id →
      id ∈ known_sessions (MarieGatewayActor.run before).trace
  | .network _ => True

theorem isolated_step_iff (before : List (Event core)) (event : Event core) :
    Isolated (MarieGatewayActor.run (before ++ [event])).trace ↔
      Isolated (MarieGatewayActor.run before).trace ∧ Guarded before event := by
  have hbacked := backed_run before
  rw [run_concat]
  cases event with
  | command command answers =>
    rw [MarieGatewayActor.step]
    unfold MarieGatewayActor.handle_command
    dsimp only
    rw [isolated_log, isolated_reply_iff hbacked]
    exact and_iff_left (fits_reply _)
  | network msg =>
    rw [MarieGatewayActor.step]
    unfold MarieGatewayActor.handle_network_message
    split
    · split
      · rename_i hmem
        rw [isolated_log]
        exact and_congr_right fun _ => iff_of_true (hbacked.sessions _ hmem) trivial
      · exact (and_iff_left trivial).symm
    · split
      · rename_i hmem
        rw [isolated_log]
        exact and_congr_right fun _ => iff_of_true (hbacked.workspaces _ hmem) trivial
      · exact (and_iff_left trivial).symm
    · exact (and_iff_left trivial).symm

/-- The gateway isolates its client exactly when no allowed command carries an unknown session
beside its workspace. What the client sees never depends on what is hidden from it. -/
theorem gateway_isolated_iff (events : List (Event core)) :
    (Isolated (MarieGatewayActor.run events).trace ∧
      ∀ events' : List (Event core),
        visible MarieGatewayActor.new events' = visible MarieGatewayActor.new events →
        (MarieGatewayActor.run events').output = (MarieGatewayActor.run events).output) ↔
      EveryStep Guarded events := by
  have hsame : ∀ events' : List (Event core),
      visible MarieGatewayActor.new events' = visible MarieGatewayActor.new events →
      (MarieGatewayActor.run events').output = (MarieGatewayActor.run events).output := by
    intro events' h
    rw [← run_visible events', h, run_visible]
  rw [and_iff_left hsame]
  clear hsame
  induction events using List.reverseRecOn with
  | nil => exact iff_of_true everyStep_nil everyStep_nil
  | append_singleton events event ih =>
    rw [isolated_step_iff, everyStep_concat]
    exact and_congr_left fun _ => ih

/-! ## An unchecked session -/

/-- A core of plain values. -/
def plain : Core := ⟨SessionId, WorkspaceId, SessionId, WorkspaceId, Nat, String, id, id⟩

/-- Every check and every call is accepted. -/
def granted : Answers plain where
  check_session _ := .ok true
  check_workspace _ := .ok true
  session_get := .ok
  session_remove _ := .ok ()
  session_append_log _ _ := .ok ()
  session_query_state _ _ := .ok []
  session_patch_vars _ _ _ := .ok ()
  session_report_user_input _ _ _ := .ok (0 : Nat)
  session_insert _ := .ok ()
  workspace_create _ := .ok ()
  workspace_get := .ok
  workspace_remove _ := .ok ()
  workspace_sessions _ := .ok []
  workspace_query_vars _ _ := .ok []
  workspace_patch_vars _ _ _ := .ok ()
  workspace_add_session _ _ := .ok ()
  workspace_remove_session _ _ := .ok ()
  workspace_create_session _ := .ok ⟨8⟩

/-- A client that has its workspace takes in a session that it was never granted. -/
def taken_in : List (Event plain) :=
  [.command (.AccessWorkspace ⟨1⟩) granted, .command (.AddSessionToWorkspace ⟨1⟩ ⟨7⟩) granted]

/-- The clients are called for the session all the same. -/
theorem an_unchecked_session_is_taken_in :
    ¬ Isolated (MarieGatewayActor.run taken_in).trace := by
  intro h
  have htrace : (MarieGatewayActor.run taken_in).trace =
      [.checked_workspace ⟨1⟩ (.ok true), .sent (.WorkspaceAccessGranted ⟨1⟩)] ++
        .called (.workspace_add_session ⟨1⟩ ⟨7⟩) :: [.sent (.SessionAddedToWorkspace ⟨1⟩ ⟨7⟩)] := by
    rfl
  have hcall := (h _ _ _ htrace).1 ⟨7⟩ (by simp [Call.sessions])
  simp [known_sessions] at hcall

end marie.gateway
