-- The end of every run. A frame that the worker has is in its jobs, and the
-- end of the job comes back as an event; so a frame that is ready or whose run
-- has completed has something on its way. That fails for a job that fails, for
-- a result that is not decoded, and for a dispatch that stops: such a frame
-- stays where it is, and nothing is on its way.
import Marie.Session.RunTermination

namespace marie.session

open Program FrameTree

/-! ## Runs that are over -/

/-- The event is one of the run of `f`. -/
def SessionCheckpointEvent.IsOfRun (f : FrameId) : SessionCheckpointEvent → Prop
  | .FrameReady g | .FrameRunJobStateUpdate g _ | .FrameRunTerminated g => g = f
  | _ => False

/-- The run of a frame with this status is not dealt with. -/
def FrameStatus.InRun : FrameStatus → Prop
  | .Ready | .RunCompleted _ | .RunFailed _ => True
  | _ => False

/-- The worker has no job of `f`, and every event of its run was handled. -/
def RunningSession.RunIsOver (x : RunningSession) (f : FrameId) : Prop :=
  f ∉ x.jobs ∧ ∀ event ∈ x.state.listeners, ¬ event.IsOfRun f

/-- A frame whose run is over has moved on. -/
def RunningSession.NoRunIsLost (x : RunningSession) : Prop :=
  ∀ f n, x.state.frames.find f = some n → x.RunIsOver f → ¬ n.status.InRun

/-- The worker takes the run of `f`: there is a snapshot for it, and the call is accepted. -/
def WorkerTakes (ckp : SessionCheckpointer) (s : State) (f : FrameId) : Prop :=
  ∀ n, s.frames.find f = some n → ∃ x, s.snapshots.last f = some x ∧
    ckp.spawn s.dispatched.length ⟨ckp.session_id, f, x.channels, n.logs, n.data⟩ = none

/-- The run of `f` is recorded, and its dispatch reaches its last mark. -/
def RunIsDispatched (ckp : SessionCheckpointer) (s : State) (f : FrameId) : Prop :=
  ∀ n response, s.frames.find f = some n → n.status = .RunCompleted response →
    Records ckp s f response ∧ GoesThrough ckp (s.loaded f) f n response.result

/-- What each move must find, so that no run is lost: a job ends with a result that is decoded,
the worker takes the frames that are ready, and the end of a run is dispatched. -/
def Follows (ckp : SessionCheckpointer) (decode : Value → Except String FrameResponse)
    (x : RunningSession) : SystemMove → Prop
  | .event index => ∀ event, x.state.listeners[index]? = some event →
    match event with
    | .FrameReady f => WorkerTakes ckp (x.state.taken index) f
    | .FrameRunTerminated f => RunIsDispatched ckp (x.state.taken index) f
    | _ => True
  | .report index job_state => ∀ f, x.jobs[index]? = some f →
    ∃ state, job_state.deserialize decode = .ok state ∧ ∀ error, state ≠ .Failed error
  | _ => True

/-! ## What is on its way -/

/-- Each frame that is ready has its event, its job or its result on the way, and each run that
has completed has its event. -/
structure Followed (x : RunningSession) : Prop where
  parents : x.state.frames.ParentsFound
  ready : ∀ f n, x.state.frames.find f = some n → n.status = .Ready →
    .FrameReady f ∈ x.state.listeners ∨ f ∈ x.jobs ∨
      ∃ response, .FrameRunJobStateUpdate f (.Completed response) ∈ x.state.listeners
  completed : ∀ f n response, x.state.frames.find f = some n → n.status = .RunCompleted response →
    .FrameRunTerminated f ∈ x.state.listeners
  failed : ∀ f n err, x.state.frames.find f = some n → n.status ≠ .RunFailed err
  reports : ∀ f error, .FrameRunJobStateUpdate f (.Failed error) ∉ x.state.listeners

/-- Nothing on its way is lost from a session that is followed. -/
theorem Followed.noRunIsLost {x : RunningSession} (h : Followed x) : x.NoRunIsLost := by
  rintro f n hn ⟨hjobs, hqueue⟩ hrun
  cases hst : n.status with
  | Ready =>
    rcases h.ready f n hn hst with hready | hjob | ⟨response, hreport⟩
    · exact hqueue _ hready rfl
    · exact hjobs hjob
    · exact hqueue _ hreport rfl
  | RunCompleted response => exact hqueue _ (h.completed f n response hn hst) rfl
  | RunFailed err => exact h.failed f n err hn hst
  | _ =>
    rw [hst] at hrun
    exact hrun

section Follow

variable {self : SessionCheckpointer} {decode : Value → Except String FrameResponse}
  {x : RunningSession} {s : State} {f : FrameId} {n : FrameNode} {index : Nat}
  {event : SessionCheckpointEvent}

/-- The end of the run of `f`, when it is dispatched. -/
theorem step_dispatches (hparents : s.frames.ParentsFound) (h : RunIsDispatched self s f)
    (hn : (self.step s (.FrameRunTerminated f)).frames.find f = some n) (response : FrameResponse) :
    n.status ≠ .RunCompleted response := by
  obtain ⟨status, hstep⟩ := step_eq self s (.FrameRunTerminated f)
  rw [hstep] at hn
  change (exec (self.on_frame_run_terminated f) s).2.frames.find f = some n at hn
  by_cases hwait : ∃ m response, s.frames.find f = some m ∧ m.status = .RunCompleted response
  · obtain ⟨m, response', hm, hst⟩ := hwait
    obtain ⟨hrec, hgo⟩ := h m response' hm hst
    obtain ⟨s', hrun, m', hm', hmoved⟩ := terminated_through hm hst
      (fun p hp => hparents f m p hm hp) hrec hgo
    rw [hrun, hm'] at hn
    cases hn
    exact hmoved response
  · push Not at hwait
    have hsame : SameSession s (exec (self.on_frame_run_terminated f) s).2 :=
      handled_of_movedOn hwait
    rw [hsame.frames] at hn
    exact hwait n response hn

/-- The result of a run is taken in. -/
theorem step_completes {response : FrameResponse} {m : FrameNode} (hm : s.frames.find f = some m)
    (hn : (self.step s (.FrameRunJobStateUpdate f (.Completed response))).frames.find f = some n) :
    n.status = .RunCompleted response := by
  obtain ⟨status, hstep⟩ := step_eq self s (.FrameRunJobStateUpdate f (.Completed response))
  have hrun : (exec (self.on_event (.FrameRunJobStateUpdate f (.Completed response))) s).2.frames =
      (s.marked f (.RunCompleted response)).frames := by
    change (exec (do
      mark_frame_run_completed f response
      emit (.FrameRunTerminated f)) s).2.frames = _
    have hmark : exec (mark_frame_run_completed f response) s =
        (.ok (), (s.marked f (.RunCompleted response)).emits [.FrameRunTerminated f]) := by
      unfold mark_frame_run_completed
      rw [exec_bind_ok (exec_set_status hm _)]
      rfl
    rw [exec_bind_ok hmark]
    rfl
  rw [hstep] at hn
  change (exec (self.on_event (.FrameRunJobStateUpdate f (.Completed response))) s).2.frames.find f =
    some n at hn
  rw [hrun, find_marked hm, if_pos rfl] at hn
  cases hn
  rfl

/-- A frame that the worker takes is one of its jobs. -/
theorem mem_jobs_of_ready (hn : x.state.frames.find f = some n)
    (h : WorkerTakes self (x.state.taken index) f) :
    f ∈ (self.handle x index (.FrameReady f)).jobs := by
  obtain ⟨y, hy, hspawn⟩ := h n hn
  obtain ⟨status, hstep⟩ := step_eq self (x.state.taken index) (.FrameReady f)
  have hrun := exec_on_frame_ready self (s := x.state.taken index) hy hn
  have hsent : (self.step (x.state.taken index) (.FrameReady f)).dispatched =
      x.state.dispatched ++ [⟨self.session_id, f, y.channels, n.logs, n.data⟩] := by
    rw [hstep]
    change (exec (self.on_frame_ready f) (x.state.taken index)).2.dispatched = _
    rw [hrun]
    rfl
  have hspawn' : self.spawn x.state.dispatched.length
      ⟨self.session_id, f, y.channels, n.logs, n.data⟩ = none := hspawn
  unfold SessionCheckpointer.handle
  rw [hsent, List.drop_left]
  simp [hspawn']

/-- Only the report of a job that failed marks a run as failed. -/
theorem not_marks_runFailed {err : String} (h : ∀ error, event ≠ .FrameRunJobStateUpdate f (.Failed error)) :
    ¬ Marks s event f (.RunFailed err) := by
  intro hM
  cases event with
  | FrameRunJobStateUpdate g job_state =>
    obtain ⟨rfl, ⟨response, -, hst⟩ | ⟨error, rfl, -⟩⟩ := hM
    · cases hst
    · exact h error rfl
  | FrameRunTerminated g =>
    rcases hM.of_run_terminated with hst | hst | ⟨err, hst⟩
    all_goals cases hst
  | FrameCreated g => simp [Marks] at hM
  | HitlAnswered response => simp [Marks] at hM
  | ChildFrameTerminated p c => simp [Marks, ResumesAs] at hM
  | _ => exact hM

/-- An event leaves a session followed. -/
theorem followed_handle (hx : Followed x) (he : x.state.listeners[index]? = some event)
    (h : Follows self decode x (.event index)) : Followed (self.handle x index event) := by
  have hfollows := h event he
  obtain ⟨s', status, dispatched, hacts, hstep, -⟩ := step_acts self (x.state.taken index) event
  have hframes : (self.handle x index event).state.frames = s'.frames := by
    change (self.step (x.state.taken index) event).frames = _
    rw [hstep]
  have hlisteners : (self.handle x index event).state.listeners = s'.listeners := by
    change (self.step (x.state.taken index) event).listeners = _
    rw [hstep]
  -- an event of the queue is the one that is taken, or stays
  have hkept : ∀ e ∈ x.state.listeners, e = event ∨ e ∈ s'.listeners := fun e hmem =>
    (mem_or_mem_eraseIdx he hmem).imp id fun hmem => hacts.listeners hmem
  constructor
  · rw [hframes]
    exact hacts.parentsFound hx.parents
  · intro f n hn hst
    rw [hframes] at hn
    rw [hlisteners]
    rcases hacts.status hn with hnew | ⟨m, hm, hsame⟩ | ⟨-, parent, hsent⟩
    · rw [hst] at hnew
      cases hnew
    · rcases hx.ready f m hm (hsame.symm.trans hst) with hready | hjob | ⟨response, hreport⟩
      · rcases hkept _ hready with rfl | hstays
        · exact .inr (.inl (mem_jobs_of_ready hm hfollows))
        · exact .inl hstays
      · exact .inr (.inl (List.mem_append_left _ hjob))
      · rcases hkept _ hreport with rfl | hstays
        · have hafter : (self.step (x.state.taken index)
              (.FrameRunJobStateUpdate f (.Completed response))).frames.find f = some n := by
            rw [hstep]
            exact hn
          have hdone := step_completes hm hafter
          rw [hst] at hdone
          cases hdone
        · exact .inr (.inr ⟨response, hstays⟩)
    · rw [hst] at hsent
      exact .inl (hsent (List.mem_singleton.mpr rfl))
  · intro f n response hn hst
    rw [hframes] at hn
    rw [hlisteners]
    rcases hacts.status hn with hnew | ⟨m, hm, hsame⟩ | ⟨-, parent, hsent⟩
    · rw [hst] at hnew
      cases hnew
    · rcases hkept _ (hx.completed f m response hm (hsame.symm.trans hst)) with rfl | hstays
      · have hafter : (self.step (x.state.taken index) (.FrameRunTerminated f)).frames.find f =
            some n := by
          rw [hstep]
          exact hn
        exact absurd hst (step_dispatches (s := x.state.taken index) hx.parents hfollows hafter
          response)
      · exact hstays
    · rw [hst] at hsent
      exact hsent (List.mem_singleton.mpr rfl)
  · intro f n err hn hst
    rw [hframes] at hn
    rcases hacts.status hn with hnew | ⟨m, hm, hsame⟩ | ⟨hM, -⟩
    · rw [hst] at hnew
      cases hnew
    · exact hx.failed f m err hm (hsame.symm.trans hst)
    · rw [hst] at hM
      refine not_marks_runFailed (fun error heq => ?_) hM
      subst heq
      exact hx.reports f error (List.mem_of_getElem? he)
  · intro f error hmem
    rw [hlisteners] at hmem
    rcases hacts.event hmem with hold | hnotice | ⟨g, parent, status, -, hsent⟩
    · exact hx.reports f error (List.mem_of_mem_eraseIdx hold)
    · exact hnotice
    · cases status <;> simp [FrameStatus.announces] at hsent

/-- What happens beside the frames and the jobs, with one more event in the queue. -/
theorem Followed.emits (hx : Followed x) {y : RunningSession} (events : List SessionCheckpointEvent)
    (hframes : y.state.frames = x.state.frames)
    (hlisteners : y.state.listeners = x.state.listeners ++ events)
    (hjobs : ∀ f ∈ x.jobs, f ∈ y.jobs ∨
      ∃ response, .FrameRunJobStateUpdate f (.Completed response) ∈ events)
    (hreports : ∀ f error, .FrameRunJobStateUpdate f (.Failed error) ∉ events) : Followed y := by
  constructor
  · rw [hframes]
    exact hx.parents
  · intro f n hn hst
    rw [hframes] at hn
    rw [hlisteners]
    rcases hx.ready f n hn hst with hready | hjob | ⟨response, hreport⟩
    · exact .inl (List.mem_append_left _ hready)
    · rcases hjobs f hjob with hstays | ⟨response, hreport⟩
      · exact .inr (.inl hstays)
      · exact .inr (.inr ⟨response, List.mem_append_right _ hreport⟩)
    · exact .inr (.inr ⟨response, List.mem_append_left _ hreport⟩)
  · intro f n response hn hst
    rw [hframes] at hn
    rw [hlisteners]
    exact List.mem_append_left _ (hx.completed f n response hn hst)
  · intro f n err hn
    rw [hframes] at hn
    exact hx.failed f n err hn
  · intro f error hmem
    rw [hlisteners] at hmem
    rcases List.mem_append.mp hmem with hold | hnew
    · exact hx.reports f error hold
    · exact hreports f error hnew

/-- A job that ends has a result that is decoded. -/
theorem deserialize_terminated {job_state : JobState Value} {state : JobState FrameResponse}
    (h : job_state.deserialize decode = .ok state) (hno : ∀ error, state ≠ .Failed error)
    (hend : job_state.has_terminated = true) : ∃ response, state = .Completed response := by
  cases job_state with
  | Completed value =>
    cases hvalue : decode value with
    | error error => simp [JobState.deserialize, hvalue] at h
    | ok response =>
      refine ⟨response, ?_⟩
      simpa [JobState.deserialize, hvalue] using h.symm
  | Failed error =>
    cases h
    exact absurd rfl (hno error)
  | _ => cases hend

theorem followed_relay {job_state : JobState Value} (hx : Followed x)
    (h : Follows self decode x (.report index job_state)) :
    Followed (SessionCheckpointer.relay decode x index job_state) := by
  unfold SessionCheckpointer.relay
  cases hf : x.jobs[index]? with
  | none => exact hx
  | some f =>
    obtain ⟨state, hstate, hno⟩ := h f hf
    simp only [hstate]
    refine hx.emits [.FrameRunJobStateUpdate f state] rfl rfl (fun g hg => ?_) fun g error hmem => ?_
    · by_cases hend : job_state.has_terminated = true
      · rw [if_pos hend]
        rcases mem_or_mem_eraseIdx hf hg with rfl | hstays
        · obtain ⟨response, rfl⟩ := deserialize_terminated hstate hno hend
          exact .inr ⟨response, List.mem_singleton.mpr rfl⟩
        · exact .inl hstays
      · rw [if_neg hend]
        exact .inl hg
    · have heq := List.mem_singleton.mp hmem
      simp only [SessionCheckpointEvent.FrameRunJobStateUpdate.injEq] at heq
      exact hno error heq.2.symm

theorem followed_next {move : SystemMove} (hx : Followed x) (h : Follows self decode x move) :
    Followed (self.next decode x move) := by
  cases move with
  | event index =>
    cases he : x.state.listeners[index]? with
    | none =>
      rw [self.next_event_none decode he]
      exact hx
    | some event =>
      rw [self.next_event decode he]
      exact followed_handle hx he h
  | report index job_state => exact followed_relay hx h
  | answer response =>
    exact hx.emits [.HitlAnswered response] rfl rfl (fun f hf => .inl hf) (by simp)
  | snapshots t => exact hx.emits [] rfl (by simp [SessionCheckpointer.next]) (fun f hf => .inl hf) (by simp)

theorem followed_start (args : NewFrameNodeArgs) (initial_channels : List (ChannelName × Value))
    (rows : SnapshotRows) : Followed (self.start args initial_channels rows) := by
  have hpending : ∀ f n, (self.start args initial_channels rows).state.frames.find f = some n →
      n.status = .Pending := by
    intro f n hn
    rw [find_start] at hn
    split at hn
    · cases hn
      rfl
    · cases hn
  refine ⟨(rooted_start args initial_channels rows).1, ?_, ?_, ?_, ?_⟩
  · intro f n hn hst
    rw [hpending f n hn] at hst
    cases hst
  · intro f n response hn hst
    rw [hpending f n hn] at hst
    cases hst
  · intro f n err hn hst
    rw [hpending f n hn] at hst
    cases hst
  · intro f error hmem
    cases List.mem_singleton.mp hmem

end Follow

/-- **No run is lost**: in every state that a session reaches, a frame whose run is over has
moved on, when each job ended with a result that was decoded, and each of these was recorded and
dispatched. -/
theorem no_run_is_lost (self : SessionCheckpointer)
    (decode : Value → Except String FrameResponse) (args : NewFrameNodeArgs)
    (initial_channels : List (ChannelName × Value)) (rows : SnapshotRows)
    (moves : List SystemMove)
    (h : self.Throughout decode (Follows self decode) (self.start args initial_channels rows) moves) :
    (self.runSystem decode (self.start args initial_channels rows) moves).NoRunIsLost :=
  (self.runSystem_invariant decode (fun _ _ hx hmove => followed_next hx hmove) _ moves
    (followed_start args initial_channels rows) h).noRunIsLost

/-! ## Ends of the run of one node -/

/-- The node goes to the worker, its job ends like this, and some events are taken. -/
def jobEnds (job_state : JobState Value) (events : Nat) : List SystemMove :=
  [.event 0, .event 0, .report 0 job_state] ++ List.replicate events (.event 0)

/-- The session of one node whose job ends like this. -/
def afterJob (decode : Value → Except String FrameResponse) (job_state : JobState Value)
    (events : Nat) : RunningSession :=
  overTwoNodes.runSystem decode (overTwoNodes.start nodeArgs [] [⟨⟨0⟩, ⟨0⟩, 0, .empty, []⟩])
    (jobEnds job_state events)

/-- A node that completes is not lost. -/
theorem a_completed_node_is_not_lost :
    (afterJob (logsAndEnds .Completed) (.Completed .Null) 4).state.dispatched.length = 1 ∧
    (afterJob (logsAndEnds .Completed) (.Completed .Null) 4).RunIsOver ⟨0⟩ ∧
    (afterJob (logsAndEnds .Completed) (.Completed .Null) 4).NoRunIsLost := by
  refine ⟨rfl, ⟨List.not_mem_nil, fun _ h => absurd h List.not_mem_nil⟩,
    no_run_is_lost overTwoNodes (logsAndEnds .Completed) nodeArgs [] _ _ ?_⟩
  refine ⟨by rintro event ⟨⟩; trivial, fun _ => ⟨?_, fun _ => ⟨?_, fun _ => ⟨?_, fun _ => ⟨?_, fun _ =>
    ⟨?_, fun _ => ⟨?_, fun _ => trivial⟩⟩⟩⟩⟩⟩⟩
  · rintro event ⟨⟩ n ⟨⟩
    exact ⟨_, rfl, rfl⟩
  · exact fun _ _ => ⟨_, rfl, by simp⟩
  · rintro event ⟨⟩
    trivial
  · rintro event ⟨⟩ n response ⟨⟩ ⟨⟩
    exact ⟨.inl rfl, trivial⟩
  · rintro event ⟨⟩ n response ⟨⟩ ⟨⟩
  · rintro event ⟨⟩
    trivial

/-- A job that fails leaves its frame in `RunFailed`, and a result that is not decoded leaves it
ready, with nothing on the way. -/
theorem a_run_that_errs_is_lost :
    (afterJob (logsAndEnds .Completed) (.Failed .AckTimeOut) 3).Quiescent ∧
    ¬ (afterJob (logsAndEnds .Completed) (.Failed .AckTimeOut) 3).NoRunIsLost ∧
    (afterJob (fun _ => .error "") (.Completed .Null) 0).Quiescent ∧
    ¬ (afterJob (fun _ => .error "") (.Completed .Null) 0).NoRunIsLost := by
  refine ⟨⟨rfl, rfl⟩, fun h => ?_, ⟨rfl, rfl⟩, fun h => ?_⟩
  · exact h ⟨0⟩ _ rfl ⟨List.not_mem_nil, fun _ hmem => absurd hmem List.not_mem_nil⟩ trivial
  · exact h ⟨0⟩ _ rfl ⟨List.not_mem_nil, fun _ hmem => absurd hmem List.not_mem_nil⟩ trivial

end marie.session
