-- The start policy of a frame, over every run of a session. `on_frame_created`
-- executes it when the frame is still pending, so a `FrameCreated` that comes
-- twice executes it once. The frames that a handler marks as waiting when it
-- makes them are not pending any more, and their policy is never executed.
import Marie.Session.GraphRuns
import Marie.Session.StartMarks

namespace marie.session

open Program FrameTree

/-! ## The execution of a policy -/

/-- What `on_frame_created` does for a frame that is pending. -/
def SessionCheckpointer.start_policy (self : SessionCheckpointer) (frame_id : FrameId) :
    OnStartPolicy → Ckp Unit
  | .RunFrame => mark_ready_to_run_frame frame_id
  | .AppendGraphThread graph_ref start => do
    ignore Fault.isError (self.append_graph_thread frame_id graph_ref start)
    mark_as_waiting_children frame_id
  | .AppendGraphSpan graph_ref join branches => do
    ignore Fault.isError (self.append_graph_span frame_id graph_ref branches join)
    mark_as_waiting_children frame_id
  | .AppendGraphNode graph_ref start => do
    ignore Fault.isError (self.append_graph_node frame_id graph_ref start)
    frames (set_resume_policy frame_id .Sequential)
    mark_as_waiting_children frame_id

section Policy

variable {self : SessionCheckpointer} {s s' : State} {f p x : FrameId} {n m : FrameNode}

/-- The policy is executed when the frame is pending. -/
theorem exec_on_frame_created_pending (hn : s.frames.find f = some n) (hst : n.status = .Pending) :
    exec (self.on_frame_created f) s =
      exec (self.start_policy f n.frame_policy.on_start_policy) (s.loaded f) := by
  obtain ⟨c, hc, rfl⟩ := resident_load hn
  have hn1 : (s.loaded f).frames.find f = some c.node := by rw [State.loaded, find_load, hn]
  have hload : (s.loaded f).loaded f = s.loaded f := by
    rw [State.loaded, load_of_resident (t := (s.loaded f).frames) hc]
  unfold SessionCheckpointer.on_frame_created SessionCheckpointer.start_policy
  rw [status_of, exec_read hn, hst]
  cases hpol : c.node.frame_policy.on_start_policy <;>
    simp only [policy_of, exec_read hn1, hload, hpol]

/-- Else the handler does nothing. -/
theorem exec_on_frame_created_begun (hn : s.frames.find f = some n) (hst : n.status ≠ .Pending) :
    exec (self.on_frame_created f) s = (.ok (), s.loaded f) := by
  unfold SessionCheckpointer.on_frame_created
  rw [status_of, exec_read hn]
  cases hstatus : n.status with
  | Pending => exact absurd hstatus hst
  | _ => rfl

/-- A program that ends well leaves `f` begun, and one that stops does so by a panic. -/
def Begins (f : FrameId) (r : Except Fault Unit × State) : Prop :=
  (∃ message, r.1 = .error (.panic message)) ∨ Begun r.2 f

theorem begins_mark (hn : s.frames.find f = some n) :
    Begins f (exec (mark_as_waiting_children f) s) := by
  have hmark : exec (mark_as_waiting_children f) s = (.ok (), s.marked f .WaitingChildren) :=
    exec_set_status hn .WaitingChildren
  rw [hmark]
  exact .inr ⟨_, by rw [find_marked hn, if_pos rfl], by simp⟩

/-- The errors of the first part are ignored, and the frame is still there. -/
theorem begins_after_ignored {α : Type} {k : Ckp α} {rest : Ckp Unit}
    (hn : s.frames.find f = some n) (hk : Sows noFrame (· = f) s (exec k s).2)
    (hrest : ∀ s' n', s'.frames.find f = some n' → Begins f (exec rest s')) :
    Begins f (exec (do
      ignore Fault.isError k
      rest) s) := by
  have hstate := exec_ignore_state Fault.isError k s
  rw [exec_bind]
  rcases hr : exec (ignore Fault.isError k) s with ⟨r, s'⟩
  rw [hr] at hstate
  cases r with
  | error e =>
    left
    rw [ignore, exec_tryCatch, exec_bind] at hr
    rcases hm : exec k s with ⟨_ | _, s1⟩
    · rename_i fault
      rw [hm] at hr
      cases fault with
      | error error => simp [Fault.isError] at hr
      | panic message =>
        simp only [Fault.isError] at hr
        cases hr
        exact ⟨message, rfl⟩
    · rw [hm] at hr
      cases hr
  | ok u =>
    rw [← hstate] at hk
    obtain ⟨n', hn', -⟩ := hk.found hn
    exact hrest s' n' hn'

/-- A policy that is executed leaves its frame begun. -/
theorem begins_start_policy (hl : s.frames.Linked) (hn : s.frames.find f = some n)
    (policy : OnStartPolicy) : Begins f (exec (self.start_policy f policy) s) := by
  have hwait : ∀ s' n', s'.frames.find f = some n' → Begins f (exec (mark_as_waiting_children f) s') :=
    fun _ _ => begins_mark
  cases policy with
  | RunFrame =>
    change Begins f (exec (mark_ready_to_run_frame f) s)
    rw [exec_mark_ready hn]
    refine .inr ⟨{ n with status := .Ready }, ?_, by simp⟩
    change (s.marked f .Ready).frames.find f = _
    rw [find_marked hn, if_pos rfl]
  | AppendGraphThread graph_ref start =>
    exact begins_after_ignored hn (sows_append_graph_thread hl hn graph_ref start) hwait
  | AppendGraphSpan graph_ref join branches =>
    exact begins_after_ignored hn (sows_append_graph_span hl hn graph_ref branches join) hwait
  | AppendGraphNode graph_ref start =>
    refine begins_after_ignored hn (sows_append_graph_node hl hn graph_ref start) fun s' n' hn' => ?_
    have hset : exec (frames (set_resume_policy f .Sequential)) s' = (.ok (), s'.loaded f) := by
      unfold set_resume_policy policy_of
      exact exec_frames (by rw [exec_bind_ok (exec_get_map _ hn'), exec_unpolled])
    have hn1 : (s'.loaded f).frames.find f = some n' := by rw [State.loaded, find_load, hn']
    rw [exec_bind_ok hset]
    exact begins_mark hn1

theorem begins_on_frame_created (hl : s.frames.Linked) (hn : s.frames.find f = some n) :
    Begins f (exec (self.on_frame_created f) s) := by
  have hn1 : (s.loaded f).frames.find f = some n := by rw [State.loaded, find_load, hn]
  by_cases hst : n.status = .Pending
  · rw [exec_on_frame_created_pending hn hst]
    exact begins_start_policy (((SameLinks.refl _).load f).linked hl) hn1 _
  · rw [exec_on_frame_created_begun hn hst]
    exact .inr ⟨n, hn1, hst⟩

/-! ## Frames that have begun -/

/-- No event marks a frame as pending. -/
theorem Marks.not_pending {event : SessionCheckpointEvent} {status : FrameStatus}
    (h : Marks s event f status) : status ≠ .Pending := by
  rintro rfl
  cases event with
  | FrameCreated g => simp [Marks] at h
  | HitlAnswered response => simp [Marks] at h
  | FrameRunJobStateUpdate g job_state => simp [Marks] at h
  | FrameRunTerminated g =>
    rcases h.of_run_terminated with hst | hst | ⟨err, hst⟩
    all_goals cases hst
  | ChildFrameTerminated p c => simp [Marks, ResumesAs] at h
  | _ => exact h.elim

/-- The events that mark a frame as ready. -/
theorem Marks.ready_cases {event : SessionCheckpointEvent} (h : Marks s event f .Ready) :
    event = .FrameCreated f ∨
    (∃ response, event = .HitlAnswered response ∧
      s.frames.get_frame_id_by_hitl_id response.id = some f) ∨
    ∃ c, event = .ChildFrameTerminated f c := by
  cases event with
  | FrameCreated g =>
    rcases h with ⟨-, ⟨⟩⟩ | ⟨rfl, -⟩
    exact .inl rfl
  | HitlAnswered response => exact .inr (.inl ⟨response, rfl, h.1⟩)
  | ChildFrameTerminated p c =>
    obtain ⟨rfl, -⟩ := h
    exact .inr (.inr ⟨c, rfl⟩)
  | FrameRunJobStateUpdate g job_state => simp [Marks] at h
  | FrameRunTerminated g =>
    rcases h.of_run_terminated with hst | hst | ⟨err, hst⟩
    all_goals cases hst
  | _ => exact h.elim

/-- Only the end of its job completes a run. -/
theorem Marks.run_completed {event : SessionCheckpointEvent} {response : FrameResponse}
    (h : Marks s event f (.RunCompleted response)) :
    ∃ job_state, event = .FrameRunJobStateUpdate f job_state := by
  cases event with
  | FrameCreated g => simp [Marks] at h
  | HitlAnswered answered => simp [Marks] at h
  | FrameRunJobStateUpdate g job_state =>
    obtain ⟨rfl, -⟩ := h
    exact ⟨job_state, rfl⟩
  | FrameRunTerminated g =>
    rcases h.of_run_terminated with hst | hst | ⟨err, hst⟩
    all_goals cases hst
  | ChildFrameTerminated p c => simp [Marks, ResumesAs] at h
  | _ => exact h.elim

/-- A frame that has begun is never pending again. -/
theorem Acts.begun {M : FrameId → FrameStatus → Prop} (h : Acts self M s s')
    (hM : ∀ status, M f status → status ≠ .Pending) (hf : Begun s f) : Begun s' f := by
  refine h.keeps (I := fun a => Begun a f) (fun a b hab ha => ?_) hf
  obtain ⟨m, hm, hst⟩ := ha
  obtain ⟨n, hn, -⟩ := hab.acts.found hm
  refine ⟨n, hn, ?_⟩
  rcases hab.node hn with ⟨m', hm', -, -, -, hsame | ⟨hmark, -⟩⟩ | ⟨hnone, -⟩
  · rw [hm] at hm'
    cases hm'
    rw [hsame]
    exact hst
  · exact hM _ hmark
  · rw [hm] at hnone
    cases hnone

theorem begun_step (self : SessionCheckpointer) (event : SessionCheckpointEvent) (hf : Begun s f) :
    Begun (self.step s event) f := by
  obtain ⟨s', status, dispatched, hacts, hstep, -⟩ := step_acts self s event
  rw [hstep]
  exact hacts.begun (fun _ h => h.not_pending) hf

/-- A handler that suspends `f` and ends well leaves it waiting. -/
theorem waits_of_dispatch {result : FrameResult} (hsuspends : result.suspends)
    (hrun : exec (self.dispatch f result) s = (.ok (), s')) :
    s'.frames.statusIs FrameStatus.is_waiting f := by
  have hmark : ∀ s1, exec (mark_as_waiting_children f) s1 = (.ok (), s') →
      s'.frames.statusIs FrameStatus.is_waiting f := by
    intro s1 h
    unfold mark_as_waiting_children at h
    cases hn : s1.frames.find f with
    | none =>
      rw [exec_set_status_none hn] at h
      cases h
    | some n =>
      rw [exec_set_status hn] at h
      cases h
      rw [statusIs, find_marked hn, if_pos rfl]
      rfl
  unfold SessionCheckpointer.dispatch at hrun
  cases result with
  | ConsultExperts requests =>
    obtain ⟨-, s1, -, hrun⟩ := exec_bind_eq_ok hrun
    obtain ⟨-, s2, -, hrun⟩ := exec_bind_eq_ok hrun
    obtain ⟨-, s3, -, hrun⟩ := exec_bind_eq_ok hrun
    exact hmark s3 hrun
  | CallTools requests =>
    obtain ⟨-, s1, -, hrun⟩ := exec_bind_eq_ok hrun
    obtain ⟨-, s2, -, hrun⟩ := exec_bind_eq_ok hrun
    obtain ⟨-, s3, -, hrun⟩ := exec_bind_eq_ok hrun
    exact hmark s3 hrun
  | ExecuteGraph graph_id =>
    obtain ⟨-, s1, -, hrun⟩ := exec_bind_eq_ok hrun
    exact hmark s1 hrun
  | _ => cases hsuspends

theorem waits_of_suspended {response : FrameResponse} (hn : s.frames.find f = some n)
    (hst : n.status = .RunCompleted response) (hsuspends : response.result.suspends)
    (hrun : exec (self.on_frame_run_terminated f) s = (.ok (), s')) :
    s'.frames.statusIs FrameStatus.is_waiting f := by
  rw [exec_terminated hn hst] at hrun
  obtain ⟨-, s1, -, hrun⟩ := exec_bind_eq_ok hrun
  exact waits_of_dispatch hsuspends hrun

/-- A run that is ready goes to the worker, or the handler stops. -/
theorem dispatched_of_ready (hrun : exec (self.on_frame_ready f) s = (.ok (), s')) :
    ∃ args, args.frame_id = f ∧ s'.dispatched = s.dispatched ++ [args] := by
  cases hx : s.snapshots.last f with
  | none =>
    unfold SessionCheckpointer.on_frame_ready SessionCheckpointer.run_frame at hrun
    rw [exec_bind_error (exec_snapshots (SessionSnapshots.exec_latest_none hx))] at hrun
    cases hrun
  | some x =>
    cases hn : s.frames.find f with
    | none =>
      unfold SessionCheckpointer.on_frame_ready SessionCheckpointer.run_frame logs_of at hrun
      rw [exec_bind_ok (exec_snapshots (SessionSnapshots.exec_latest hx)),
        exec_read_none (s := { s with snapshots := s.snapshots.insert x.ref ⟨x, false⟩ }) hn] at hrun
      cases hrun
    | some n =>
      have hstate := exec_on_frame_ready self hx hn
      rw [hrun] at hstate
      exact ⟨_, rfl, congrArg (·.dispatched) hstate⟩

end Policy

/-! ## A session that is watched -/

/-- What happens to a session: a move of the system, or a `FrameCreated` of the queue comes
twice. -/
inductive StartMove
  | move (move : SystemMove)
  | twice (index : Nat)

/-- The frame has terminated, or it is suspended. -/
def FrameStatus.has_left (status : FrameStatus) : Bool :=
  status.has_terminated || status.is_waiting

/-- How often the worker was asked to run `f`. -/
def State.runs (s : State) (f : FrameId) : Nat := s.dispatched.countP (·.frame_id = f)

namespace RunningSession

variable (x : RunningSession)

/-- The frame whose `FrameCreated` a move handles. -/
def greeted : SystemMove → Option FrameId
  | .event index =>
    match x.state.listeners[index]? with
    | some (.FrameCreated f) => some f
    | _ => none
  | _ => none

/-- The frame whose start policy a move executes. -/
def launched (move : SystemMove) : Option FrameId :=
  (x.greeted move).filter fun f => x.state.frames.statusIs FrameStatus.is_pending f

/-- The session once the event at an index has come twice, when it is a `FrameCreated`. -/
def repeated (index : Nat) : RunningSession :=
  match x.state.listeners[index]? with
  | some (.FrameCreated f) => { x with state := x.state.emits [.FrameCreated f] }
  | _ => x

end RunningSession

/-- A session with what is noted of it: the frames whose `FrameCreated` was handled, those whose
start policy was executed, and how often a frame had been dispatched when it first terminated or
was suspended. -/
structure Watched where
  running : RunningSession
  handled : List FrameId
  started : List FrameId
  left : FrameId → Option Nat

namespace Watched

def new (x : RunningSession) : Watched where
  running := x
  handled := []
  started := []
  left _ := none

/-- The session is `x` now. -/
def sees (w : Watched) (x : RunningSession) (greeted launched : Option FrameId) : Watched where
  running := x
  handled := w.handled ++ greeted.toList
  started := w.started ++ launched.toList
  left f := (w.left f).or
    (if x.state.frames.statusIs FrameStatus.has_left f then some (x.state.runs f) else none)

end Watched

namespace SessionCheckpointer

variable (self : SessionCheckpointer) (decode : Value → Except String FrameResponse)

/-- The watched session after some moves. A panic ends the task of the checkpointer. -/
def watch (w : Watched) : List StartMove → Watched
  | [] => w
  | .move move :: moves =>
    let next := w.sees (self.next decode w.running move) (w.running.greeted move)
      (w.running.launched move)
    if self.stops w.running move then next else watch next moves
  | .twice index :: moves => watch (w.sees (w.running.repeated index) none none) moves

/-- Without events that come twice, the session is the one of the run. -/
theorem watch_running (w : Watched) (moves : List SystemMove) :
    (self.watch decode w (moves.map .move)).running = self.runSystem decode w.running moves := by
  induction moves generalizing w with
  | nil => rfl
  | cons move moves ih =>
    rw [runSystem_cons, List.map_cons, watch]
    split
    · rfl
    · exact ih _

end SessionCheckpointer

/-- The frames that wait for their `FrameCreated`: the root, and those that the worker runs. -/
def AwaitsStart (f : FrameId) (n : FrameNode) : Prop := f = ⟨0⟩ ∨ n.data.is_executable

/-- The containers that are made with what comes under them. -/
def FrameKind.is_filled : FrameKind → Bool
  | .Void | .GraphThread _ | .GraphSpan _ _ => true
  | _ => false

/-- Each start policy is executed at most once: never for a container that is made with what
comes under it, and else as soon as a `FrameCreated` of the frame was handled. A frame that starts
by a run is dispatched at most once before it terminates or is suspended, and exactly once when
it first does, in a session that has not failed. -/
structure StartsOnce (w : Watched) : Prop where
  once : w.started.Nodup
  after : ∀ f ∈ w.started, f ∈ w.handled
  starts : ∀ f n, w.running.state.frames.find f = some n → AwaitsStart f n → f ∈ w.handled →
    f ∈ w.started
  skips : ∀ f n, w.running.state.frames.find f = some n → f ≠ ⟨0⟩ → n.data.is_filled →
    f ∉ w.started
  runs : w.running.state.session_status.has_failed = false → ∀ f n,
    w.running.state.frames.find f = some n → AwaitsStart f n →
    n.frame_policy.on_start_policy = .RunFrame →
    match w.left f with
    | none => w.running.state.runs f ≤ 1
    | some count => count = 1

/-! ## The invariant -/

def SessionCheckpointEvent.isReady (f : FrameId) : SessionCheckpointEvent → Bool
  | .FrameReady g => g = f
  | _ => false

@[simp]
theorem isReady_iff {event : SessionCheckpointEvent} {f : FrameId} :
    event.isReady f = true ↔ event = .FrameReady f := by
  unfold SessionCheckpointEvent.isReady
  cases event <;> simp [eq_comm]

/-- The queue does not tell `f` to run. -/
theorem countP_isReady_eq_zero {f : FrameId} {events : List SessionCheckpointEvent} :
    events.countP (·.isReady f) = 0 ↔ .FrameReady f ∉ events := by
  rw [List.countP_eq_zero]
  simp only [isReady_iff]
  constructor
  · exact fun h hmem => h _ hmem rfl
  · rintro h event hevent rfl
    exact h hevent

/-- The frame `f`, whose node is `n`, has not left yet: it was told to run once if it has begun,
and nothing stands under it. -/
structure OnItsWay (x : RunningSession) (f : FrameId) (n : FrameNode) : Prop where
  stays : n.status.has_left = false
  count : n.status ≠ .Pending →
    x.state.listeners.countP (·.isReady f) + x.state.runs f = 1
  jobs : f ∈ x.jobs → 0 < x.state.runs f
  updates : ∀ job_state, .FrameRunJobStateUpdate f job_state ∈ x.state.listeners →
    0 < x.state.runs f
  completed : ∀ response, n.status = .RunCompleted response → 0 < x.state.runs f
  childless : ∀ c m, x.state.frames.find c = some m → m.parent ≠ some f

/-- What a session keeps until its checkpointer panics. -/
structure StartsLive (x : RunningSession) : Prop where
  linked : x.state.frames.Linked
  store : ∀ f, x.state.frames.store f = none
  root : 0 < x.state.frames.next
  parents : ∀ c n p, x.state.frames.find c = some n → n.parent = some p → Begun x.state p
  told : ∀ p c, .ChildFrameTerminated p c ∈ x.state.listeners →
    ∃ n, x.state.frames.find c = some n ∧ n.parent = some p
  created : ∀ f, .FrameCreated f ∈ x.state.listeners → ∃ n, x.state.frames.find f = some n ∧
    (AwaitsStart f n ∨ n.status ≠ .Pending)
  ready : ∀ f, .FrameReady f ∈ x.state.listeners → Begun x.state f
  updates : ∀ f job_state, .FrameRunJobStateUpdate f job_state ∈ x.state.listeners →
    Begun x.state f
  jobs : ∀ f ∈ x.jobs, Begun x.state f
  sent : ∀ args ∈ x.state.dispatched, Begun x.state args.frame_id

/-- What is noted of the session agrees with its frames. -/
structure StartsNoted (w : Watched) : Prop extends StartsOnce w, StartsLive w.running where
  found : ∀ f ∈ w.handled, ∃ n, w.running.state.frames.find f = some n
  seen : ∀ f count, w.left f = some count → ∃ n, w.running.state.frames.find f = some n
  begun : ∀ f ∈ w.started, Begun w.running.state f
  pending : ∀ f n, w.running.state.frames.find f = some n → AwaitsStart f n → f ∉ w.started →
    n.status = .Pending
  on_its_way : w.running.state.session_status.has_failed = false → ∀ f n,
    w.running.state.frames.find f = some n → AwaitsStart f n →
    n.frame_policy.on_start_policy = .RunFrame → w.left f = none → OnItsWay w.running f n

/-! ### What one event does -/

section Step

variable {self : SessionCheckpointer} {x : RunningSession} {s s' : State} {index : Nat}
  {event : SessionCheckpointEvent} {f : FrameId} {n : FrameNode}

theorem Begun.of_find (hn : s.frames.find f = some n) (hf : Begun s f) : n.status ≠ .Pending := by
  obtain ⟨m, hm, hst⟩ := hf
  rw [hn] at hm
  cases hm
  exact hst

/-- The frames that an event may change: the one that it tells of, and a frame with a child. -/
theorem acts_on_cases (hx : StartsLive x) (he : x.state.listeners[index]? = some event)
    (h : ActsOn (x.state.taken index) event f) :
    event = .FrameCreated f ∨ (∃ job_state, event = .FrameRunJobStateUpdate f job_state) ∨
    (event = .FrameRunTerminated f ∧
      ∃ n response, x.state.frames.find f = some n ∧ n.status = .RunCompleted response) ∨
    ∃ c n, x.state.frames.find c = some n ∧ n.parent = some f := by
  cases event with
  | FrameCreated g =>
    obtain ⟨rfl, -⟩ := h
    exact .inl rfl
  | HitlAnswered response =>
    have hnone := get_frame_id_of_empty (t := (x.state.taken index).frames) hx.store response.id
    change (x.state.taken index).frames.get_frame_id_by_hitl_id response.id = some f at h
    rw [hnone] at h
    cases h
  | FrameRunJobStateUpdate g job_state =>
    obtain ⟨rfl, -⟩ := h
    exact .inr (.inl ⟨job_state, rfl⟩)
  | FrameRunTerminated g =>
    obtain ⟨n, response, hn, hst, rfl | ⟨-, hparent⟩⟩ := h
    · exact .inr (.inr (.inl ⟨rfl, n, response, hn, hst⟩))
    · exact .inr (.inr (.inr ⟨g, n, hn, hparent⟩))
  | ChildFrameTerminated p c =>
    obtain ⟨rfl, -⟩ := h
    obtain ⟨n, hn, hparent⟩ := hx.told f c (List.mem_of_getElem? he)
    exact .inr (.inr (.inr ⟨c, n, hn, hparent⟩))
  | _ => exact h.elim

/-- A frame that is pending is changed by its `FrameCreated` alone. -/
theorem created_of_acts_on (hx : StartsLive x) (he : x.state.listeners[index]? = some event)
    (hn : x.state.frames.find f = some n) (hst : n.status = .Pending)
    (h : ActsOn (x.state.taken index) event f) : event = .FrameCreated f := by
  rcases acts_on_cases hx he h with hcreated | ⟨job_state, rfl⟩ | ⟨-, m, response, hm, hrun⟩ |
    ⟨c, m, hm, hparent⟩
  · exact hcreated
  · exact absurd hst ((hx.updates f job_state (List.mem_of_getElem? he)).of_find hn)
  · rw [hn] at hm
    cases hm
    rw [hst] at hrun
    cases hrun
  · exact absurd hst ((hx.parents c m f hm hparent).of_find hn)

/-- A frame that the event does not change keeps its status. -/
theorem status_of_not_acts_on (self : SessionCheckpointer) (event : SessionCheckpointEvent)
    (hn : s.frames.find f = some n) (h : ¬ ActsOn s event f) :
    ∃ n', (self.step s event).frames.find f = some n' ∧ n'.status = n.status := by
  obtain ⟨n', hn', hk⟩ := (step_evolves self s event).node f n hn
  exact ⟨n', hn', (hk (id_lt_next hn)).status h⟩

/-- Only `FrameReady` asks the worker to run its frame. -/
theorem runs_step (self : SessionCheckpointer) (s : State) (event : SessionCheckpointEvent)
    (f : FrameId) : (self.step s event).runs f = s.runs f ∨
      (event = .FrameReady f ∧ (self.step s event).runs f = s.runs f + 1) := by
  unfold State.runs
  rcases step_dispatched self s event with h | ⟨args, rfl, h⟩
  · exact .inl (by rw [h])
  · rw [h, List.countP_append, List.countP_singleton]
    by_cases hf : args.frame_id = f
    · subst hf
      exact .inr ⟨rfl, by simp⟩
    · exact .inl (by simp [hf])

theorem runs_le_step (self : SessionCheckpointer) (s : State) (event : SessionCheckpointEvent)
    (f : FrameId) : s.runs f ≤ (self.step s event).runs f := by
  rcases runs_step self s event f with h | ⟨-, h⟩ <;> omega

/-- The queue tells a frame to run when it is marked as ready. -/
theorem Acts.count_ready {M : FrameId → FrameStatus → Prop} (h : Acts self M s s')
    (hno : ¬ M f .Ready) :
    s'.listeners.countP (·.isReady f) = s.listeners.countP (·.isReady f) := by
  refine h.keeps (I := fun a => a.listeners.countP (·.isReady f) =
    s.listeners.countP (·.isReady f)) (fun a b hab ha => ?_) rfl
  cases hab with
  | @mark g m status hm hM =>
    have hsent : .FrameReady f ∉ status.announces g m.parent := by
      intro he
      cases status with
      | Ready =>
        cases List.mem_singleton.mp he
        exact hno hM
      | _ => simp [FrameStatus.announces] at he
    change (a.listeners ++ _).countP _ = _
    rw [List.countP_append, countP_isReady_eq_zero.mpr hsent]
    exact ha
  | @send event hnotice =>
    have hsent : .FrameReady f ∉ [event] := by
      intro he
      rw [← List.mem_singleton.mp he] at hnotice
      exact hnotice
    change (a.listeners ++ _).countP _ = _
    rw [List.countP_append, countP_isReady_eq_zero.mpr hsent]
    exact ha
  | _ => exact ha

theorem count_ready_step (self : SessionCheckpointer) (hno : ¬ Marks s event f .Ready) :
    (self.step s event).listeners.countP (·.isReady f) = s.listeners.countP (·.isReady f) := by
  obtain ⟨s', status, dispatched, hacts, hstep, -⟩ := step_acts self s event
  rw [hstep]
  exact hacts.count_ready hno

/-- A frame that no event marks as ready is not told to run. -/
theorem ready_of_mem_step (self : SessionCheckpointer)
    (hmem : .FrameReady f ∈ (self.step s event).listeners) :
    .FrameReady f ∈ s.listeners ∨ Marks s event f .Ready := by
  by_cases hno : Marks s event f .Ready
  · exact .inr hno
  · left
    have hcount := count_ready_step self hno
    have hpos : 0 < (self.step s event).listeners.countP (·.isReady f) :=
      List.countP_pos_iff.mpr ⟨_, hmem, isReady_iff.mpr rfl⟩
    rw [hcount] at hpos
    obtain ⟨e, he, hready⟩ := List.countP_pos_iff.mp hpos
    rw [isReady_iff.mp hready] at he
    exact he

/-- No handler reports a state of a job. -/
theorem update_of_mem_step (self : SessionCheckpointer) {job_state : JobState FrameResponse}
    (hmem : .FrameRunJobStateUpdate f job_state ∈ (self.step s event).listeners) :
    .FrameRunJobStateUpdate f job_state ∈ s.listeners := by
  obtain ⟨s', status, dispatched, hacts, hstep, -⟩ := step_acts self s event
  rw [hstep] at hmem
  rcases hacts.event hmem with hold | hnotice | ⟨g, parent, status, -, hsent⟩
  · exact hold
  · exact hnotice.elim
  · cases status <;> simp [FrameStatus.announces] at hsent

end Step

/-! ### What stays true of the session -/

section Live

variable {self : SessionCheckpointer} {decode : Value → Except String FrameResponse}
  {x : RunningSession} {index : Nat} {event : SessionCheckpointEvent} {f : FrameId} {n : FrameNode}

/-- Each event finds the frames that it tells of. -/
theorem StartsLive.sows (hx : StartsLive x) (self : SessionCheckpointer)
    (he : x.state.listeners[index]? = some event) :
    Sows (Old (x.state.taken index)) (Plants (x.state.taken index) event) (x.state.taken index)
      (self.step (x.state.taken index) event) := by
  refine sows_step (s := x.state.taken index) self hx.linked hx.store ?_ ?_
  · rintro g job_state rfl
    obtain ⟨n, hn, -⟩ := hx.updates g job_state (List.mem_of_getElem? he)
    exact id_lt_next hn
  · rintro p c rfl
    obtain ⟨n, hn, hparent⟩ := hx.told p c (List.mem_of_getElem? he)
    obtain ⟨m, hm, -⟩ := hx.parents c n p hn hparent
    exact ⟨m, hm⟩

theorem not_panicked {s : State} (h : self.panics s event = false) (message : String) :
    (exec (self.on_event event) s).1 ≠ .error (.panic message) := by
  intro hpanic
  unfold SessionCheckpointer.panics SessionCheckpointer.process_event at h
  rw [exec_tryCatch] at h
  rcases hr : exec (self.on_event event) s with ⟨r, s'⟩
  rw [hr] at h hpanic
  change r = _ at hpanic
  subst hpanic
  cases h

/-- A frame whose `FrameCreated` was handled has begun. -/
theorem begun_of_created (hx : StartsLive x) (he : x.state.listeners[index]? = some (.FrameCreated f))
    (hon : self.panics (x.state.taken index) (.FrameCreated f) = false) :
    Begun (self.step (x.state.taken index) (.FrameCreated f)) f := by
  obtain ⟨n, hn, -⟩ := hx.created f (List.mem_of_getElem? he)
  obtain ⟨status, hstep⟩ := step_eq self (x.state.taken index) (.FrameCreated f)
  rw [hstep]
  have hbegins : Begins f (exec (self.on_frame_created f) (x.state.taken index)) :=
    begins_on_frame_created hx.linked hn
  rcases hbegins with ⟨message, hpanic⟩ | hbegun
  · exact absurd hpanic (not_panicked hon message)
  · exact hbegun

/-- The frames under which an event appends have begun after it. -/
theorem begun_of_plants (hx : StartsLive x) (he : x.state.listeners[index]? = some event)
    (hon : self.panics (x.state.taken index) event = false)
    (h : Plants (x.state.taken index) event f) : Begun (self.step (x.state.taken index) event) f := by
  cases event with
  | FrameCreated g =>
    obtain ⟨rfl, -⟩ := h
    exact begun_of_created hx he hon
  | FrameRunTerminated g =>
    obtain ⟨n, response, hn, hst, ⟨rfl, -⟩ | hparent⟩ := h
    · exact begun_step self _ ⟨n, hn, by rw [hst]; simp⟩
    · exact begun_step self _ (hx.parents g n f hn hparent)
  | _ => exact h.elim

/-- A frame is marked as ready when it is created, or when a child of it has terminated. -/
theorem StartsLive.ready_cases (hx : StartsLive x) (he : x.state.listeners[index]? = some event)
    (h : Marks (x.state.taken index) event f .Ready) :
    event = .FrameCreated f ∨ ∃ c n, x.state.frames.find c = some n ∧ n.parent = some f := by
  rcases h.ready_cases with hcreated | ⟨response, rfl, hbound⟩ | ⟨c, rfl⟩
  · exact .inl hcreated
  · have hnone := get_frame_id_of_empty (t := (x.state.taken index).frames) hx.store response.id
    rw [hbound] at hnone
    cases hnone
  · exact .inr ⟨c, hx.told f c (List.mem_of_getElem? he)⟩

/-- A frame that is told to run has begun. -/
theorem begun_of_marked_ready (hx : StartsLive x) (he : x.state.listeners[index]? = some event)
    (hon : self.panics (x.state.taken index) event = false)
    (h : Marks (x.state.taken index) event f .Ready) :
    Begun (self.step (x.state.taken index) event) f := by
  rcases hx.ready_cases he h with rfl | ⟨c, n, hn, hparent⟩
  · exact begun_of_created hx he hon
  · exact begun_step self _ (hx.parents c n f hn hparent)

/-- An event keeps what the session keeps, unless the checkpointer panics. -/
theorem StartsLive.handle (hx : StartsLive x) (he : x.state.listeners[index]? = some event)
    (hon : self.panics (x.state.taken index) event = false) :
    StartsLive (self.handle x index event) := by
  let s := x.state.taken index
  let s' := self.step s event
  have hsows := hx.sows self he
  have hbegun : ∀ g, Begun x.state g → Begun s' g := fun g hg => begun_step (s := s) self event hg
  have hqueue : ∀ e, e ∈ s.listeners → e ∈ x.state.listeners := fun e h => List.mem_of_mem_eraseIdx h
  constructor
  · exact hsows.linked
  · intro g
    change s'.frames.store g = none
    rw [hsows.evolves.store]
    exact hx.store g
  · exact Nat.lt_of_lt_of_le hx.root hsows.next_le
  · intro c n p hn hparent
    rcases hsows.cases hn with hnew | ⟨m, hm, hk⟩
    · obtain ⟨q, hq, hplant | ⟨-, hb⟩⟩ := hsows.placed c n hn hnew
      · rw [hparent] at hq
        cases hq
        exact begun_of_plants hx he hon hplant
      · rw [hparent] at hq
        cases hq
        exact hb
    · exact hbegun p (hx.parents c m p hm (hk.parent.symm.trans hparent))
  · intro p c hmem
    rcases hsows.told p c hmem with hold | hnew
    · obtain ⟨n, hn, hparent⟩ := hx.told p c (hqueue _ hold)
      obtain ⟨n', hn', hk⟩ := hsows.found hn
      exact ⟨n', hn', hk.parent.trans hparent⟩
    · exact hnew
  · intro g hmem
    rcases hsows.created g hmem with hold | ⟨-, n, hn, hcase⟩
    · obtain ⟨n, hn, hcase⟩ := hx.created g (hqueue _ hold)
      obtain ⟨n', hn', hk⟩ := hsows.found hn
      refine ⟨n', hn', ?_⟩
      rcases hcase with (hroot | hkind) | hst
      · exact .inl (.inl hroot)
      · exact .inl (.inr (by rw [hk.data]; exact hkind))
      · exact .inr ((hbegun g ⟨n, hn, hst⟩).of_find hn')
    · exact ⟨n, hn, hcase.imp_left .inr⟩
  · intro g hmem
    rcases ready_of_mem_step self hmem with hold | hM
    · exact hbegun g (hx.ready g (hqueue _ hold))
    · exact begun_of_marked_ready hx he hon hM
  · intro g job_state hmem
    exact hbegun g (hx.updates g job_state (hqueue _ (update_of_mem_step self hmem)))
  · intro g hmem
    rcases jobs_handle self x index event with hjobs | ⟨r, rfl, hjobs⟩
    · rw [hjobs] at hmem
      exact hbegun g (hx.jobs g hmem)
    · rw [hjobs] at hmem
      rcases List.mem_append.mp hmem with hold | hnew
      · exact hbegun g (hx.jobs g hold)
      · rw [List.mem_singleton.mp hnew]
        exact hbegun r (hx.ready r (List.mem_of_getElem? he))
  · intro args hmem
    change args ∈ s'.dispatched at hmem
    rcases step_dispatched self s event with hsame | ⟨sent, rfl, hmore⟩
    · rw [hsame] at hmem
      exact hbegun _ (hx.sent args hmem)
    · rw [hmore] at hmem
      rcases List.mem_append.mp hmem with hold | hnew
      · exact hbegun _ (hx.sent args hold)
      · rw [List.mem_singleton.mp hnew]
        exact hbegun _ (hx.ready _ (List.mem_of_getElem? he))

/-- A frame that is pending is on its way. -/
theorem StartsLive.on_its_way (hx : StartsLive x) (hn : x.state.frames.find f = some n)
    (hst : n.status = .Pending) : OnItsWay x f n := by
  have hno : ¬ Begun x.state f := fun hf => hf.of_find hn hst
  refine ⟨by rw [hst]; rfl, fun h => absurd hst h, fun h => absurd (hx.jobs f h) hno,
    fun job_state h => absurd (hx.updates f job_state h) hno, fun response h => ?_,
    fun c m hm hparent => hno (hx.parents c m f hm hparent)⟩
  rw [hst] at h
  cases h

theorem StartsLive.runs_eq_zero (hx : StartsLive x) (hno : ¬ Begun x.state f) :
    x.state.runs f = 0 := by
  unfold State.runs
  rw [List.countP_eq_zero]
  intro args hargs hf
  rw [← of_decide_eq_true hf] at hno
  exact hno (hx.sent args hargs)

theorem StartsLive.ready_eq_zero (hx : StartsLive x) (hno : ¬ Begun x.state f) :
    x.state.listeners.countP (·.isReady f) = 0 :=
  countP_isReady_eq_zero.mpr fun he => hno (hx.ready f he)

/-- The frame on its way is not made ready again. -/
theorem OnItsWay.not_marked_ready (h : OnItsWay x f n) (hx : StartsLive x)
    (he : x.state.listeners[index]? = some event) (hno : event ≠ .FrameCreated f) :
    ¬ Marks (x.state.taken index) event f .Ready := by
  intro hM
  rcases hx.ready_cases he hM with hcreated | ⟨c, m, hm, hparent⟩
  · exact hno hcreated
  · exact h.childless c m hm hparent

/-- The frame on its way leaves at the end of its run. -/
theorem OnItsWay.leaves (h : OnItsWay x f n) (hx : StartsLive x)
    (he : x.state.listeners[index]? = some event) (hn : x.state.frames.find f = some n)
    (hpol : n.frame_policy.on_start_policy = .RunFrame) {n' : FrameNode}
    (hn' : (self.step (x.state.taken index) event).frames.find f = some n')
    (hleft : n'.status.has_left) :
    event = .FrameRunTerminated f ∧ ∃ response, n.status = .RunCompleted response := by
  have hf : f.id < (x.state.taken index).frames.next := id_lt_next hn
  by_cases hacts : ActsOn (x.state.taken index) event f
  · obtain ⟨s', status, dispatched, hmarks, hstep, -⟩ := step_acts self (x.state.taken index) event
    rw [hstep] at hn'
    -- a status that is as before, or that the event marks, has not left
    have hmarked : (Marks (x.state.taken index) event f n'.status → n'.status.has_left = false) →
        False := by
      intro hM
      rcases hmarks.status hn' with hst | ⟨m, hm, hst⟩ | ⟨hmark, -⟩
      · rw [hst] at hleft
        cases hleft
      · change x.state.frames.find f = some m at hm
        rw [hn] at hm
        cases hm
        rw [hst, h.stays] at hleft
        cases hleft
      · rw [hM hmark] at hleft
        cases hleft
    rcases acts_on_cases hx he hacts with rfl | ⟨job_state, rfl⟩ | ⟨rfl, m, response, hm, hrun⟩ |
      ⟨c, m, hm, hparent⟩
    · refine (hmarked fun hM => ?_).elim
      rcases hM with ⟨hid, -⟩ | ⟨-, m, hm, -, ⟨hst, -⟩ | ⟨-, hother⟩⟩
      · omega
      · rw [hst]
        rfl
      · change x.state.frames.find f = some m at hm
        rw [hn] at hm
        cases hm
        exact absurd hpol hother
    · refine (hmarked fun hM => ?_).elim
      rcases hM with ⟨-, ⟨response, -, hst⟩ | ⟨error, -, hst⟩⟩
      · rw [hst]
        rfl
      · rw [hst]
        rfl
    · rw [hn] at hm
      cases hm
      exact ⟨rfl, response, hrun⟩
    · exact absurd hparent (h.childless c m hm)
  · obtain ⟨k, hk, hst⟩ := status_of_not_acts_on (s := x.state.taken index) self event hn hacts
    rw [hn'] at hk
    cases hk
    rw [hst, h.stays] at hleft
    cases hleft

/-- It leaves once it was dispatched. -/
theorem OnItsWay.runs_of_completed (h : OnItsWay x f n) {response : FrameResponse}
    (hst : n.status = .RunCompleted response) : x.state.runs f = 1 := by
  have hpos := h.completed response hst
  have hcount := h.count (by rw [hst]; simp)
  omega

/-- It is dispatched at most once. -/
theorem OnItsWay.runs_le (h : OnItsWay x f n) (hx : StartsLive x)
    (he : x.state.listeners[index]? = some event) (hn : x.state.frames.find f = some n) :
    (self.step (x.state.taken index) event).runs f ≤ 1 := by
  have hstep := runs_step self (x.state.taken index) event f
  change _ = x.state.runs f ∨ (_ ∧ _ = x.state.runs f + 1) at hstep
  by_cases hst : n.status = .Pending
  · have hno : ¬ Begun x.state f := fun hf => hf.of_find hn hst
    have hzero := hx.runs_eq_zero hno
    omega
  · have hcount := h.count hst
    rcases hstep with hsame | ⟨rfl, hmore⟩
    · omega
    · -- the event is the one that tells the frame to run
      have hqueue := countP_eraseIdx (·.isReady f) he
      have hself : SessionCheckpointEvent.isReady f (.FrameReady f) = true := isReady_iff.mpr rfl
      rw [hself, Bool.toNat_true] at hqueue
      omega

/-- A frame that starts by a run is told to run, once. -/
theorem listeners_of_started {s : State} (self : SessionCheckpointer)
    (hn : s.frames.find f = some n) (hst : n.status = .Pending)
    (hpol : n.frame_policy.on_start_policy = .RunFrame) :
    (self.step s (.FrameCreated f)).listeners = s.listeners ++ [.FrameReady f] := by
  have hn1 : (s.loaded f).frames.find f = some n := by rw [State.loaded, find_load, hn]
  have hrun : exec (self.on_frame_created f) s =
      (.ok (), ((s.loaded f).marked f .Ready).emits [.FrameReady f]) := by
    rw [exec_on_frame_created_pending hn hst, hpol]
    exact exec_mark_ready hn1
  obtain ⟨status, hstep⟩ := step_eq self s (.FrameCreated f)
  rw [hstep]
  change (exec (self.on_frame_created f) s).2.listeners = _
  rw [hrun]
  rfl

/-- The count of a frame on its way, after an event that ends well. -/
theorem OnItsWay.count_handle (h : OnItsWay x f n) (hx : StartsLive x)
    (he : x.state.listeners[index]? = some event) (hn : x.state.frames.find f = some n)
    (hpol : n.frame_policy.on_start_policy = .RunFrame) {s' : State}
    (hrun : exec (self.on_event event) (x.state.taken index) = (.ok (), s'))
    (hstep : self.step (x.state.taken index) event = s')
    (hbegun : Begun s' f) : s'.listeners.countP (·.isReady f) + s'.runs f = 1 := by
  have hqueue := countP_eraseIdx (·.isReady f) he
  have hruns : s'.runs f = x.state.runs f ∨
      (event = .FrameReady f ∧ s'.runs f = x.state.runs f + 1) := by
    rw [← hstep]
    exact runs_step self (x.state.taken index) event f
  have hsame : ¬ Marks (x.state.taken index) event f .Ready →
      s'.listeners.countP (·.isReady f) = (x.state.listeners.eraseIdx index).countP (·.isReady f) := by
    intro hno
    rw [← hstep]
    exact count_ready_step (s := x.state.taken index) self hno
  by_cases hst : n.status = .Pending
  · -- the frame begins now
    have hno : ¬ Begun x.state f := fun hf => hf.of_find hn hst
    have hcreated : event = .FrameCreated f := by
      by_contra hother
      have hacts : ¬ ActsOn (x.state.taken index) event f := fun hacts =>
        hother (created_of_acts_on hx he hn hst hacts)
      obtain ⟨k, hk, hsame⟩ :=
        status_of_not_acts_on (s := x.state.taken index) self event hn hacts
      rw [hstep] at hk
      exact hbegun.of_find hk (hsame.trans hst)
    subst hcreated
    have hlisteners := listeners_of_started (s := x.state.taken index) self hn hst hpol
    rw [hstep] at hlisteners
    have hself : SessionCheckpointEvent.isReady f (.FrameReady f) = true := isReady_iff.mpr rfl
    have hzero := hx.ready_eq_zero hno
    have hnone := hx.runs_eq_zero hno
    have hruns : s'.runs f = x.state.runs f := hruns.resolve_right (by rintro ⟨⟨⟩, -⟩)
    rw [hlisteners, List.countP_append, List.countP_singleton, if_pos hself]
    change (x.state.listeners.eraseIdx index).countP _ + 1 + s'.runs f = 1
    omega
  · have hcount := h.count hst
    have hno : ¬ Marks (x.state.taken index) event f .Ready := by
      by_cases hcreated : event = .FrameCreated f
      · subst hcreated
        rintro (⟨-, ⟨⟩⟩ | ⟨-, m, hm, hpending, -⟩)
        change x.state.frames.find f = some m at hm
        rw [hn] at hm
        cases hm
        exact hst hpending
      · exact h.not_marked_ready hx he hcreated
    have hsame := hsame hno
    by_cases hready : event = .FrameReady f
    · -- the worker is asked to run it now
      subst hready
      obtain ⟨args, hargs, hmore⟩ := dispatched_of_ready hrun
      have hself : SessionCheckpointEvent.isReady f (.FrameReady f) = true := isReady_iff.mpr rfl
      rw [hself, Bool.toNat_true] at hqueue
      have hone : s'.runs f = x.state.runs f + 1 := by
        unfold State.runs
        rw [hmore, List.countP_append, List.countP_singleton, if_pos (by simp [hargs])]
        rfl
      omega
    · have hother : event.isReady f = false :=
        Bool.eq_false_iff.mpr fun h => hready (isReady_iff.mp h)
      rw [hother, Bool.toNat_false] at hqueue
      have hruns : s'.runs f = x.state.runs f := hruns.resolve_right fun hr => hready hr.1
      omega

/-- Nothing comes under a frame on its way, unless it is suspended. -/
theorem OnItsWay.childless_handle (h : OnItsWay x f n) (hx : StartsLive x)
    (he : x.state.listeners[index]? = some event) (hn : x.state.frames.find f = some n)
    (hpol : n.frame_policy.on_start_policy = .RunFrame) {s' : State}
    (hrun : exec (self.on_event event) (x.state.taken index) = (.ok (), s'))
    (hstep : self.step (x.state.taken index) event = s')
    (hstays : s'.frames.statusIs FrameStatus.is_waiting f = false) {c : FrameId} {m : FrameNode}
    (hm : s'.frames.find c = some m) : m.parent ≠ some f := by
  intro hparent
  have hsows := hx.sows self he
  rw [hstep] at hsows
  rcases hsows.cases hm with hnew | ⟨k, hk, hkept⟩
  · obtain ⟨p, hp, hplace⟩ := hsows.placed c m hm hnew
    rw [hparent] at hp
    cases hp
    rcases hplace with hplant | ⟨hid, -⟩
    · cases event with
      | FrameCreated g =>
        obtain ⟨rfl, k, hk, -, hother⟩ := hplant
        change x.state.frames.find f = some k at hk
        rw [hn] at hk
        cases hk
        exact hother hpol
      | FrameRunTerminated g =>
        obtain ⟨k, response, hk, hst, ⟨rfl, hsuspends⟩ | hparent⟩ := hplant
        · have hwait := waits_of_suspended hk hst hsuspends hrun
          rw [hstays] at hwait
          cases hwait
        · exact h.childless g k hk hparent
      | _ => exact hplant.elim
    · have hlt : f.id < (x.state.taken index).frames.next := id_lt_next hn
      omega
  · exact h.childless c k hk (hkept.parent.symm.trans hparent)

/-- A run completes when its end is reported. -/
theorem OnItsWay.completed_handle (h : OnItsWay x f n)
    (he : x.state.listeners[index]? = some event) (hn : x.state.frames.find f = some n)
    {n' : FrameNode} (hn' : (self.step (x.state.taken index) event).frames.find f = some n')
    {response : FrameResponse} (hst : n'.status = .RunCompleted response) : 0 < x.state.runs f := by
  obtain ⟨s', status, dispatched, hmarks, hstep, -⟩ := step_acts self (x.state.taken index) event
  rw [hstep] at hn'
  rcases hmarks.status hn' with hpending | ⟨m, hm, hsame⟩ | ⟨hM, -⟩
  · rw [hst] at hpending
    cases hpending
  · change x.state.frames.find f = some m at hm
    rw [hn] at hm
    cases hm
    exact h.completed response (hsame.symm.trans hst)
  · rw [hst] at hM
    obtain ⟨job_state, rfl⟩ := hM.run_completed
    exact h.updates job_state (List.mem_of_getElem? he)

/-- The frame goes on, unless it leaves, or the handler stops. -/
theorem OnItsWay.handle (h : OnItsWay x f n) (hx : StartsLive x)
    (he : x.state.listeners[index]? = some event) (hn : x.state.frames.find f = some n)
    (hpol : n.frame_policy.on_start_policy = .RunFrame) {s' : State}
    (hrun : exec (self.on_event event) (x.state.taken index) = (.ok (), s'))
    (hstep : self.step (x.state.taken index) event = s') {n' : FrameNode}
    (hn' : s'.frames.find f = some n') (hstays : n'.status.has_left = false) :
    OnItsWay (self.handle x index event) f n' := by
  have hstate : (self.handle x index event).state = s' := hstep
  have hpos : 0 < x.state.runs f → 0 < s'.runs f := by
    have hle : x.state.runs f ≤ (self.step (x.state.taken index) event).runs f :=
      runs_le_step self (x.state.taken index) event f
    rw [hstep] at hle
    omega
  have hwaits : s'.frames.statusIs FrameStatus.is_waiting f = false := by
    rw [FrameStatus.has_left, Bool.or_eq_false_iff] at hstays
    simp [statusIs, hn', hstays.2]
  constructor
  · exact hstays
  · intro hst
    rw [hstate]
    exact h.count_handle hx he hn hpol hrun hstep ⟨n', hn', hst⟩
  · intro hmem
    rw [hstate]
    rcases jobs_handle self x index event with hjobs | ⟨g, rfl, hjobs⟩
    · rw [hjobs] at hmem
      exact hpos (h.jobs hmem)
    · rw [hjobs] at hmem
      rcases List.mem_append.mp hmem with hold | hnew
      · exact hpos (h.jobs hold)
      · cases List.mem_singleton.mp hnew
        obtain ⟨args, hargs, hmore⟩ := dispatched_of_ready hrun
        refine List.countP_pos_iff.mpr ⟨args, ?_, by simp [hargs]⟩
        rw [hmore]
        exact List.mem_append_right _ (List.mem_singleton.mpr rfl)
  · intro job_state hmem
    rw [hstate] at hmem ⊢
    rw [← hstep] at hmem
    exact hpos (h.updates job_state (List.mem_of_mem_eraseIdx (update_of_mem_step self hmem)))
  · intro response hst
    rw [hstate]
    rw [← hstep] at hn'
    exact hpos (h.completed_handle he hn hn' hst)
  · intro c m hm
    rw [hstate] at hm
    exact h.childless_handle hx he hn hpol hrun hstep hwaits hm

end Live

/-! ### What is noted -/

section Noted

variable {self : SessionCheckpointer} {decode : Value → Except String FrameResponse}
  {x : RunningSession} {w : Watched} {index : Nat} {event : SessionCheckpointEvent} {f : FrameId}
  {n : FrameNode}

theorem mem_greeted (he : x.state.listeners[index]? = some event) :
    f ∈ (x.greeted (.event index)).toList ↔ event = .FrameCreated f := by
  unfold RunningSession.greeted
  cases event <;> simp [he, eq_comm]

theorem mem_launched (he : x.state.listeners[index]? = some event) :
    f ∈ (x.launched (.event index)).toList ↔
      event = .FrameCreated f ∧ ∃ n, x.state.frames.find f = some n ∧ n.status = .Pending := by
  have hpending : x.state.frames.statusIs FrameStatus.is_pending f = true ↔
      ∃ n, x.state.frames.find f = some n ∧ n.status = .Pending := by
    unfold statusIs
    cases hn : x.state.frames.find f with
    | none => simp
    | some n => cases hst : n.status <;> simp [hst, FrameStatus.is_pending]
  have hgreeted := mem_greeted (f := f) he
  rw [Option.mem_toList] at hgreeted
  rw [RunningSession.launched, Option.mem_toList, Option.filter_eq_some_iff, hpending]
  exact and_congr_left fun _ => hgreeted

/-- How often a frame had been dispatched when it left. -/
theorem left_sees (w : Watched) (x : RunningSession) (greeted launched : Option FrameId)
    (hn : x.state.frames.find f = some n) :
    (w.sees x greeted launched).left f =
      (w.left f).or (if n.status.has_left then some (x.state.runs f) else none) := by
  simp [Watched.sees, statusIs, hn]

/-- A session that has not failed had not failed before. -/
theorem not_failed_before
    (hok : (self.step (x.state.taken index) event).session_status.has_failed = false) :
    x.state.session_status.has_failed = false := by
  refine Bool.eq_false_iff.mpr fun hfailed => ?_
  have hfailed' : (self.step (x.state.taken index) event).session_status.has_failed = true :=
    step_has_failed hfailed
  rw [hok] at hfailed'
  cases hfailed'

/-- Nothing is noted of a frame that is not there. -/
theorem StartsNoted.left_of_new (hw : StartsNoted w)
    (hnone : w.running.state.frames.find f = none) : w.left f = none := by
  cases hl : w.left f with
  | none => rfl
  | some count =>
    obtain ⟨n, hn⟩ := hw.seen f count hl
    rw [hnone] at hn
    cases hn

/-- A frame that left is there. -/
theorem found_of_left {x' : RunningSession} {greeted launched : Option FrameId} {count : Nat}
    (hw : StartsNoted w)
    (hstays : ∀ g m, w.running.state.frames.find g = some m →
      ∃ m', x'.state.frames.find g = some m')
    (hleft : (w.sees x' greeted launched).left f = some count) :
    ∃ n, x'.state.frames.find f = some n := by
  rcases Option.or_eq_some_iff.mp hleft with hold | ⟨-, hnew⟩
  · obtain ⟨n, hn⟩ := hw.seen f count hold
    exact hstays f n hn
  · split at hnew
    · rename_i hstatus
      cases hn : x'.state.frames.find f with
      | none => simp [statusIs, hn] at hstatus
      | some n => exact ⟨n, rfl⟩
    · cases hnew

section Event

variable (hw : StartsNoted w) (he : w.running.state.listeners[index]? = some event)
include hw he

/-- A frame after an event is new, or it was there. -/
theorem awaits_cases {n' : FrameNode}
    (hn' : (self.step (w.running.state.taken index) event).frames.find f = some n')
    (hawaits : AwaitsStart f n') :
    (w.running.state.frames.find f = none ∧ n'.status = .Pending) ∨
      ∃ n, w.running.state.frames.find f = some n ∧ AwaitsStart f n ∧
        n'.frame_policy = n.frame_policy := by
  have hsows := hw.toStartsLive.sows self he
  rcases hsows.cases hn' with hnew | ⟨n, hn, hk⟩
  · left
    refine ⟨find_fresh hnew, ?_⟩
    rcases hawaits with rfl | hkind
    · have hroot : 0 < (w.running.state.taken index).frames.next := hw.root
      exact absurd hroot (Nat.not_lt.mpr hnew)
    · exact hsows.pending f n' hn' hnew hkind
  · right
    refine ⟨n, hn, hawaits.imp_right fun hkind => ?_, hk.frame_policy⟩
    rwa [hk.data] at hkind

theorem nodup_started :
    (w.started ++ (w.running.launched (.event index)).toList).Nodup := by
  refine List.nodup_append.mpr ⟨hw.once, ?_, ?_⟩
  · cases w.running.launched (.event index) <;> simp
  · rintro f hf g hg rfl
    obtain ⟨-, n, hn, hst⟩ := (mem_launched he).mp hg
    exact (hw.begun f hf).of_find hn hst

/-- The frames whose `FrameCreated` was handled are there. -/
theorem found_handled (hf : f ∈ w.handled ++ (w.running.greeted (.event index)).toList) :
    ∃ n, w.running.state.frames.find f = some n := by
  rcases List.mem_append.mp hf with hold | hnew
  · exact hw.found f hold
  · have hmem := List.mem_of_getElem? he
    rw [(mem_greeted he).mp hnew] at hmem
    obtain ⟨n, hn, -⟩ := hw.created f hmem
    exact ⟨n, hn⟩

/-- A frame that awaits its start is started when its `FrameCreated` is handled. -/
theorem started_of_handled (hn : w.running.state.frames.find f = some n)
    (hawaits : AwaitsStart f n)
    (hf : f ∈ w.handled ++ (w.running.greeted (.event index)).toList) :
    f ∈ w.started ++ (w.running.launched (.event index)).toList := by
  rcases List.mem_append.mp hf with hold | hnew
  · exact List.mem_append_left _ (hw.starts f n hn hawaits hold)
  · by_cases hstarted : f ∈ w.started
    · exact List.mem_append_left _ hstarted
    · have hst := hw.pending f n hn hawaits hstarted
      exact List.mem_append_right _ ((mem_launched he).mpr ⟨(mem_greeted he).mp hnew, n, hn, hst⟩)

/-- A frame that is started awaited it. -/
theorem awaits_of_started (hf : f ∈ w.started ++ (w.running.launched (.event index)).toList) :
    f ∈ w.started ∨ ∃ n, w.running.state.frames.find f = some n ∧ AwaitsStart f n := by
  rcases List.mem_append.mp hf with hold | hnew
  · exact .inl hold
  · obtain ⟨hcreated, n, hn, hst⟩ := (mem_launched he).mp hnew
    have hmem := List.mem_of_getElem? he
    rw [hcreated] at hmem
    obtain ⟨k, hk, hcase⟩ := hw.created f hmem
    rw [hn] at hk
    cases hk
    exact .inr ⟨n, hn, hcase.resolve_right fun hbegun => hbegun hst⟩

/-- A container that is made with what comes under it is not started. -/
theorem not_started_of_filled {n' : FrameNode}
    (hn' : (self.step (w.running.state.taken index) event).frames.find f = some n')
    (hroot : f ≠ ⟨0⟩) (hfilled : n'.data.is_filled) :
    f ∉ w.started ++ (w.running.launched (.event index)).toList := by
  intro hf
  have hsows := hw.toStartsLive.sows self he
  have hno : ∀ n, w.running.state.frames.find f = some n → n.data.is_filled := by
    intro n hn
    obtain ⟨k, hk, hkept⟩ := hsows.found hn
    rw [hn'] at hk
    cases hk
    rwa [hkept.data] at hfilled
  rcases awaits_of_started hw he hf with hold | ⟨n, hn, rfl | hkind⟩
  · obtain ⟨n, hn, -⟩ := hw.begun f hold
    exact hw.skips f n hn hroot (hno n hn) hold
  · exact hroot rfl
  · have hfilled := hno n hn
    cases hd : n.data <;> simp [hd, FrameKind.is_filled, FrameKind.is_executable] at hfilled hkind

/-- A new frame was never dispatched. -/
theorem runs_of_new (hnone : w.running.state.frames.find f = none) :
    (self.step (w.running.state.taken index) event).runs f = 0 := by
  have hno : ¬ Begun w.running.state f := by
    rintro ⟨n, hn, -⟩
    rw [hnone] at hn
    cases hn
  have hzero : (w.running.state.taken index).runs f = 0 := hw.toStartsLive.runs_eq_zero hno
  rcases runs_step self (w.running.state.taken index) event f with hsame | ⟨rfl, -⟩
  · exact hsame.trans hzero
  · exact absurd (hw.ready f (List.mem_of_getElem? he)) hno

/-- How often a frame is dispatched before it leaves, and when it does. -/
theorem runs_before_left {n' : FrameNode}
    (hok : w.running.state.session_status.has_failed = false)
    (hn' : (self.step (w.running.state.taken index) event).frames.find f = some n')
    (hawaits : AwaitsStart f n') (hpol : n'.frame_policy.on_start_policy = .RunFrame) :
    match (w.left f).or (if n'.status.has_left then
      some ((self.step (w.running.state.taken index) event).runs f) else none) with
    | none => (self.step (w.running.state.taken index) event).runs f ≤ 1
    | some count => count = 1 := by
  have hx := hw.toStartsLive
  rcases awaits_cases hw he hn' hawaits with ⟨hnone, hst⟩ | ⟨n, hn, hawaits, hpolicy⟩
  · -- a new frame is pending
    rw [hw.left_of_new hnone, hst, runs_of_new hw he hnone]
    exact Nat.zero_le 1
  · rw [hpolicy] at hpol
    cases hl : w.left f with
    | some count =>
      have hone := hw.runs hok f n hn hawaits hpol
      rw [hl] at hone
      exact hone
    | none =>
      have hway := hw.on_its_way hok f n hn hawaits hpol hl
      rw [Option.none_or]
      cases hleft : n'.status.has_left with
      | false => exact hway.runs_le hx he hn
      | true =>
        obtain ⟨rfl, response, hst⟩ := hway.leaves hx he hn hpol hn' hleft
        have hsame := (runs_step self (w.running.state.taken index) (.FrameRunTerminated f)
          f).resolve_right (by rintro ⟨⟨⟩, -⟩)
        exact hsame.trans (hway.runs_of_completed hst)

/-- What an event leads to, also when the checkpointer panics. -/
theorem startsOnce_event (self : SessionCheckpointer) :
    StartsOnce (w.sees (self.handle w.running index event) (w.running.greeted (.event index))
      (w.running.launched (.event index))) := by
  constructor
  · exact nodup_started hw he
  · intro f hf
    rcases List.mem_append.mp hf with hold | hnew
    · exact List.mem_append_left _ (hw.after f hold)
    · exact List.mem_append_right _ ((mem_greeted he).mpr ((mem_launched he).mp hnew).1)
  · intro f n' hn' hawaits hf
    obtain ⟨n, hn⟩ := found_handled hw he hf
    rcases awaits_cases hw he hn' hawaits with ⟨hnone, -⟩ | ⟨m, hm, hawaits, -⟩
    · rw [hn] at hnone
      cases hnone
    · exact started_of_handled hw he hm hawaits hf
  · exact fun f n' hn' hroot hfilled => not_started_of_filled hw he hn' hroot hfilled
  · intro hok f n' hn' hawaits hpol
    change (self.handle w.running index event).state.frames.find f = some n' at hn'
    have hleft := left_sees w (self.handle w.running index event)
      (w.running.greeted (.event index)) (w.running.launched (.event index)) hn'
    rw [hleft]
    exact runs_before_left hw he (not_failed_before hok) hn' hawaits hpol

/-- An event that ends well lets a frame go on. -/
theorem on_its_way_event {n' : FrameNode}
    (hon : self.panics (w.running.state.taken index) event = false)
    (hok : (self.step (w.running.state.taken index) event).session_status.has_failed = false)
    (hn' : (self.step (w.running.state.taken index) event).frames.find f = some n')
    (hawaits : AwaitsStart f n') (hpol : n'.frame_policy.on_start_policy = .RunFrame)
    (hl : w.left f = none) (hstays : n'.status.has_left = false) :
    OnItsWay (self.handle w.running index event) f n' := by
  have hx := hw.toStartsLive
  rcases awaits_cases hw he hn' hawaits with ⟨-, hst⟩ | ⟨n, hn, hawaits, hpolicy⟩
  · exact (hx.handle he hon).on_its_way hn' hst
  · rw [hpolicy] at hpol
    have hway := hw.on_its_way (not_failed_before hok) f n hn hawaits hpol hl
    rcases step_cases self (w.running.state.taken index) event with ⟨_, -, hfailed⟩ | ⟨hno, hstep⟩
    · rw [hok] at hfailed
      cases hfailed
    · have hrun : exec (self.on_event event) (w.running.state.taken index) =
          (.ok (), self.step (w.running.state.taken index) event) := by
        rw [hstep]
        rcases hr : exec (self.on_event event) (w.running.state.taken index) with ⟨r, s'⟩
        have hpanic := not_panicked hon
        rw [hr] at hno hpanic
        cases r with
        | ok u => rfl
        | error e =>
          cases e with
          | error error => exact absurd rfl (hno error)
          | panic message => exact absurd rfl (hpanic message)
      exact hway.handle hx he hn hpol hrun rfl hn' hstays

/-- A frame that was not started is still pending. -/
theorem pending_of_not_started {n' : FrameNode}
    (hn' : (self.step (w.running.state.taken index) event).frames.find f = some n')
    (hawaits : AwaitsStart f n')
    (hf : f ∉ w.started ++ (w.running.launched (.event index)).toList) : n'.status = .Pending := by
  rw [List.mem_append, not_or] at hf
  rcases awaits_cases hw he hn' hawaits with ⟨-, hst⟩ | ⟨n, hn, hawaits, -⟩
  · exact hst
  · have hst := hw.pending f n hn hawaits hf.1
    have hno : ¬ ActsOn (w.running.state.taken index) event f := by
      intro hacts
      have hcreated := created_of_acts_on hw.toStartsLive he hn hst hacts
      exact hf.2 ((mem_launched he).mpr ⟨hcreated, n, hn, hst⟩)
    obtain ⟨m, hm, hsame⟩ := status_of_not_acts_on (s := w.running.state.taken index) self event hn hno
    rw [hn'] at hm
    cases hm
    exact hsame.trans hst

/-- What is noted agrees with the session, until the checkpointer panics. -/
theorem startsNoted_event (hon : self.panics (w.running.state.taken index) event = false) :
    StartsNoted (w.sees (self.handle w.running index event) (w.running.greeted (.event index))
      (w.running.launched (.event index))) := by
  have hx := hw.toStartsLive
  have hsows := hx.sows self he
  have hstays : ∀ {g : FrameId} {m : FrameNode}, w.running.state.frames.find g = some m →
      ∃ m', (self.step (w.running.state.taken index) event).frames.find g = some m' := by
    intro g m hm
    obtain ⟨m', hm', -⟩ := hsows.found hm
    exact ⟨m', hm'⟩
  refine { toStartsOnce := startsOnce_event hw he self, toStartsLive := hx.handle he hon,
           found := ?_, seen := ?_, begun := ?_, pending := ?_, on_its_way := ?_ }
  · intro g hg
    obtain ⟨m, hm⟩ := found_handled hw he hg
    exact hstays hm
  · exact fun g count => found_of_left hw fun h m hm => hstays hm
  · intro g hg
    rcases List.mem_append.mp hg with hold | hnew
    · exact begun_step (s := w.running.state.taken index) self event (hw.begun g hold)
    · obtain ⟨rfl, -⟩ := (mem_launched he).mp hnew
      exact begun_of_created hx he hon
  · intro g m hm hawaits hg
    exact pending_of_not_started hw he hm hawaits hg
  · intro hok g m hm hawaits hpol hl
    change (self.handle w.running index event).state.frames.find g = some m at hm
    have hleft := left_sees w (self.handle w.running index event)
      (w.running.greeted (.event index)) (w.running.launched (.event index)) hm
    rw [hleft, Option.or_eq_none_iff] at hl
    have hstays : m.status.has_left = false := by
      cases hb : m.status.has_left with
      | false => rfl
      | true => simp [hb] at hl
    exact on_its_way_event hw he hon hok hm hawaits hpol hl.1 hstays

end Event

/-! ### What happens beside the checkpointer -/

section Meanwhile

variable {x' : RunningSession}

/-- The events that join the queue without a handler. -/
def RunningSession.Brings (x : RunningSession) : SessionCheckpointEvent → Prop
  | .HitlAnswered _ => True
  | .FrameRunJobStateUpdate f _ => f ∈ x.jobs
  | .FrameCreated f => .FrameCreated f ∈ x.state.listeners
  | _ => False

/-- The session goes from `x` to `x'` while the checkpointer waits. -/
structure Meanwhile (x x' : RunningSession) : Prop where
  frames : x'.state.frames = x.state.frames
  dispatched : x'.state.dispatched = x.state.dispatched
  session_status : x'.state.session_status = x.state.session_status
  jobs : ∀ f ∈ x'.jobs, f ∈ x.jobs
  listeners : ∃ events, x'.state.listeners = x.state.listeners ++ events ∧
    ∀ event ∈ events, x.Brings event

theorem Meanwhile.refl (x : RunningSession) : Meanwhile x x :=
  ⟨rfl, rfl, rfl, fun _ h => h, [], by simp⟩

theorem Meanwhile.mem (h : Meanwhile x x') (he : event ∈ x'.state.listeners) :
    event ∈ x.state.listeners ∨ x.Brings event := by
  obtain ⟨events, hlisteners, hevents⟩ := h.listeners
  rw [hlisteners] at he
  exact (List.mem_append.mp he).imp_right (hevents event)

theorem Meanwhile.runs (h : Meanwhile x x') (f : FrameId) : x'.state.runs f = x.state.runs f := by
  unfold State.runs
  rw [h.dispatched]

theorem Meanwhile.begun (h : Meanwhile x x') (hf : Begun x.state f) : Begun x'.state f := by
  unfold Begun
  rw [h.frames]
  exact hf

theorem meanwhile_relay (x : RunningSession) (index : Nat) (job_state : JobState Value) :
    Meanwhile x (SessionCheckpointer.relay decode x index job_state) := by
  have herase : ∀ g ∈ x.jobs.eraseIdx index, g ∈ x.jobs := fun g => List.mem_of_mem_eraseIdx
  unfold SessionCheckpointer.relay
  cases hf : x.jobs[index]? with
  | none => exact Meanwhile.refl x
  | some f =>
    cases job_state.deserialize decode with
    | error e => exact ⟨rfl, rfl, rfl, herase, [], by simp⟩
    | ok state =>
      refine ⟨rfl, rfl, rfl, ?_, [_], rfl, ?_⟩
      · intro g hg
        dsimp only at hg
        split at hg
        · exact herase g hg
        · exact hg
      · intro event he
        rw [List.mem_singleton.mp he]
        exact List.mem_of_getElem? hf

/-- A `FrameCreated` comes twice. -/
theorem meanwhile_repeated (x : RunningSession) (index : Nat) : Meanwhile x (x.repeated index) := by
  unfold RunningSession.repeated
  split
  · rename_i f he
    refine ⟨rfl, rfl, rfl, fun _ h => h, [_], rfl, fun event hevent => ?_⟩
    rw [List.mem_singleton.mp hevent]
    exact List.mem_of_getElem? he
  · exact Meanwhile.refl x

/-- The checkpointer handles an event, or the move is beside it. -/
theorem moves_cases (self : SessionCheckpointer) (decode : Value → Except String FrameResponse)
    (x : RunningSession) (move : SystemMove) :
    (∃ index event, move = .event index ∧ x.state.listeners[index]? = some event ∧
      self.next decode x move = self.handle x index event ∧
      self.stops x move = self.panics (x.state.taken index) event) ∨
    (Meanwhile x (self.next decode x move) ∧ x.greeted move = none ∧ self.stops x move = false) := by
  cases move with
  | event index =>
    cases he : x.state.listeners[index]? with
    | none =>
      right
      rw [self.next_event_none decode he]
      exact ⟨Meanwhile.refl x, by simp [RunningSession.greeted, he],
        by simp [SessionCheckpointer.stops, he]⟩
    | some event =>
      exact .inl ⟨index, event, rfl, he, self.next_event decode he,
        by simp [SessionCheckpointer.stops, he]⟩
  | report index job_state => exact .inr ⟨meanwhile_relay x index job_state, rfl, rfl⟩
  | answer response =>
    refine .inr ⟨⟨rfl, rfl, rfl, fun _ h => h, [_], rfl, fun event he => ?_⟩, rfl, rfl⟩
    rw [List.mem_singleton.mp he]
    trivial
  | snapshots snapshots =>
    exact .inr ⟨⟨rfl, rfl, rfl, fun _ h => h, [], (List.append_nil _).symm, by simp⟩, rfl, rfl⟩

theorem StartsLive.meanwhile (hx : StartsLive x) (h : Meanwhile x x') : StartsLive x' := by
  constructor
  · rw [h.frames]
    exact hx.linked
  · rw [h.frames]
    exact hx.store
  · rw [h.frames]
    exact hx.root
  · rw [h.frames]
    exact fun c n p hn hparent => h.begun (hx.parents c n p hn hparent)
  · intro p c hmem
    rw [h.frames]
    rcases h.mem hmem with hold | hnew
    · exact hx.told p c hold
    · exact hnew.elim
  · intro f hmem
    rw [h.frames]
    rcases h.mem hmem with hold | hnew
    · exact hx.created f hold
    · exact hx.created f hnew
  · intro f hmem
    rcases h.mem hmem with hold | hnew
    · exact h.begun (hx.ready f hold)
    · exact hnew.elim
  · intro f job_state hmem
    rcases h.mem hmem with hold | hnew
    · exact h.begun (hx.updates f job_state hold)
    · exact h.begun (hx.jobs f hnew)
  · exact fun f hf => h.begun (hx.jobs f (h.jobs f hf))
  · rw [h.dispatched]
    exact fun args hargs => h.begun (hx.sent args hargs)

theorem OnItsWay.meanwhile (hf : OnItsWay x f n) (h : Meanwhile x x') : OnItsWay x' f n := by
  constructor
  · exact hf.stays
  · intro hst
    obtain ⟨events, hlisteners, hevents⟩ := h.listeners
    have hzero : events.countP (·.isReady f) = 0 :=
      countP_isReady_eq_zero.mpr fun he => (hevents _ he).elim
    have hcount := hf.count hst
    rw [hlisteners, List.countP_append, hzero, h.runs]
    exact hcount
  · intro hmem
    rw [h.runs]
    exact hf.jobs (h.jobs f hmem)
  · intro job_state hmem
    rw [h.runs]
    rcases h.mem hmem with hold | hnew
    · exact hf.updates job_state hold
    · exact hf.jobs hnew
  · intro response hst
    rw [h.runs]
    exact hf.completed response hst
  · rw [h.frames]
    exact hf.childless

/-- Meanwhile the checkpointer nothing starts, and nothing leaves. -/
theorem startsNoted_meanwhile (hw : StartsNoted w) (h : Meanwhile w.running x') :
    StartsNoted (w.sees x' none none) := by
  have hhandled : (w.sees x' none none).handled = w.handled := List.append_nil _
  have hstarted : (w.sees x' none none).started = w.started := List.append_nil _
  have hleft : ∀ {g m}, w.running.state.session_status.has_failed = false →
      w.running.state.frames.find g = some m → AwaitsStart g m →
      m.frame_policy.on_start_policy = .RunFrame → (w.sees x' none none).left g = w.left g := by
    intro g m hok hm hawaits hpol
    rw [left_sees w x' none none (by rw [h.frames]; exact hm)]
    cases hl : w.left g with
    | some count => rfl
    | none =>
      rw [(hw.on_its_way hok g m hm hawaits hpol hl).stays]
      rfl
  refine { toStartsOnce := ?_, toStartsLive := hw.toStartsLive.meanwhile h,
           found := ?_, seen := ?_, begun := ?_, pending := ?_, on_its_way := ?_ }
  · constructor
    · rw [hstarted]
      exact hw.once
    · rw [hstarted, hhandled]
      exact hw.after
    · change ∀ f n, x'.state.frames.find f = some n → _
      rw [hstarted, hhandled, h.frames]
      exact hw.starts
    · change ∀ f n, x'.state.frames.find f = some n → _
      rw [hstarted, h.frames]
      exact hw.skips
    · intro hok f n hn hawaits hpol
      change x'.state.session_status.has_failed = false at hok
      change x'.state.frames.find f = some n at hn
      rw [h.session_status] at hok
      rw [h.frames] at hn
      change match (w.sees x' none none).left f with
        | none => x'.state.runs f ≤ 1
        | some count => count = 1
      rw [hleft hok hn hawaits hpol, h.runs]
      exact hw.runs hok f n hn hawaits hpol
  · change ∀ f ∈ _, ∃ n, x'.state.frames.find f = some n
    rw [hhandled, h.frames]
    exact hw.found
  · refine fun f count => found_of_left hw ?_
    intro g m hm
    rw [h.frames]
    exact ⟨m, hm⟩
  · change ∀ f ∈ _, Begun x'.state f
    rw [hstarted]
    exact fun f hf => h.begun (hw.begun f hf)
  · change ∀ f n, x'.state.frames.find f = some n → _
    rw [hstarted, h.frames]
    exact hw.pending
  · intro hok f n hn hawaits hpol hl
    change x'.state.session_status.has_failed = false at hok
    change x'.state.frames.find f = some n at hn
    rw [h.session_status] at hok
    rw [h.frames] at hn
    rw [hleft hok hn hawaits hpol] at hl
    exact (hw.on_its_way hok f n hn hawaits hpol hl).meanwhile h

end Meanwhile

/-! ### Every run -/

section Start

variable (self : SessionCheckpointer) (args : NewFrameNodeArgs)
  (initial_channels : List (ChannelName × Value)) (rows : SnapshotRows)

/-- The root waits for its `FrameCreated`. -/
theorem startsLive_start : StartsLive (self.start args initial_channels rows) := by
  have hroot : ∀ {g m}, (self.start args initial_channels rows).state.frames.find g = some m →
      m = rootNode args initial_channels := by
    intro g m hm
    rw [find_start] at hm
    split at hm
    · exact (Option.some.inj hm).symm
    · cases hm
  have hqueue : (self.start args initial_channels rows).state.listeners = [.FrameCreated ⟨0⟩] := rfl
  constructor
  · exact linked_start self args initial_channels rows
  · exact fun _ => rfl
  · exact Nat.one_pos
  · intro c n p hn hparent
    rw [hroot hn] at hparent
    cases hparent
  · intro p c hmem
    simp [hqueue] at hmem
  · intro f hmem
    rw [hqueue] at hmem
    cases List.mem_singleton.mp hmem
    exact ⟨rootNode args initial_channels, by rw [find_start, if_pos rfl], .inl (.inl rfl)⟩
  · intro f hmem
    simp [hqueue] at hmem
  · intro f job_state hmem
    simp [hqueue] at hmem
  · intro f hmem
    cases hmem
  · intro sent hmem
    cases hmem

theorem startsNoted_start : StartsNoted (.new (self.start args initial_channels rows)) := by
  have hlive := startsLive_start self args initial_channels rows
  have hpending : ∀ f n, (self.start args initial_channels rows).state.frames.find f = some n →
      n.status = .Pending := by
    intro f n hn
    rw [find_start] at hn
    split at hn
    · cases hn
      rfl
    · cases hn
  refine { toStartsOnce := ?_, toStartsLive := hlive, found := by simp [Watched.new],
           seen := by simp [Watched.new], begun := by simp [Watched.new],
           pending := fun f n hn _ _ => hpending f n hn,
           on_its_way := fun _ f n hn _ _ _ => hlive.on_its_way hn (hpending f n hn) }
  exact ⟨List.nodup_nil, by simp [Watched.new], by simp [Watched.new], by simp [Watched.new],
    fun _ _ _ _ _ _ => Nat.zero_le 1⟩

end Start

/-- What an event and what happens beside the checkpointer keep is kept throughout a run, also when
the checkpointer panics at its end. -/
theorem noted_watch {I : Watched → Prop} (hw : StartsNoted w) (hI : I w)
    (hevent : ∀ w index event, StartsNoted w → I w → w.running.state.listeners[index]? = some event →
      I (w.sees (self.handle w.running index event) (w.running.greeted (.event index))
        (w.running.launched (.event index))))
    (hmeanwhile : ∀ w x', StartsNoted w → I w → Meanwhile w.running x' → I (w.sees x' none none))
    (moves : List StartMove) : I (self.watch decode w moves) := by
  induction moves generalizing w with
  | nil => exact hI
  | cons move moves ih =>
    cases move with
    | twice index =>
      have hsame := meanwhile_repeated w.running index
      exact ih (startsNoted_meanwhile hw hsame) (hmeanwhile w _ hw hI hsame)
    | move move =>
      unfold SessionCheckpointer.watch
      rcases moves_cases self decode w.running move with
        ⟨index, event, rfl, he, hnext, hstops⟩ | ⟨hsame, hgreeted, hstops⟩
      · rw [hnext, hstops]
        cases hp : self.panics (w.running.state.taken index) event with
        | true => exact hevent w index event hw hI he
        | false => exact ih (startsNoted_event hw he hp) (hevent w index event hw hI he)
      · have hlaunched : w.running.launched move = none := by
          rw [RunningSession.launched, hgreeted]
          rfl
        rw [hgreeted, hlaunched, hstops]
        exact ih (startsNoted_meanwhile hw hsame) (hmeanwhile w _ hw hI hsame)

/-- What is noted agrees with the session throughout a run. -/
theorem startsOnce_watch (hw : StartsNoted w) (moves : List StartMove) :
    StartsOnce (self.watch decode w moves) :=
  noted_watch hw hw.toStartsOnce (fun _ _ _ hw _ he => startsOnce_event hw he self)
    (fun _ _ hw _ h => (startsNoted_meanwhile hw h).toStartsOnce) moves

end Noted

end marie.session
