-- The frames that reach the worker. The worker runs experts, tools and nodes of
-- graphs; the other frames only hold children. A frame becomes ready when it is
-- created, when someone answers it, or when its children have terminated, and
-- each of the three looks at the policy of the frame alone. So a container with
-- the default policy goes to the worker after its last child.
import Marie.Session.RunTermination

namespace marie.session

open Program FrameTree

/-! ## Kinds -/

/-- The kinds that the job `run_frame` of the worker knows. -/
def FrameKind.is_executable : FrameKind → Bool
  | .ExpertConsultation | .ToolCall _ _ _ | .GraphNode _ _ => true
  | _ => false

/-- The kinds that only hold children. -/
def FrameKind.is_container : FrameKind → Bool
  | .Void | .Graph _ | .GraphThread _ | .GraphSpan _ _ | .Hitl _ => true
  | _ => false

/-- The frame is one that the worker can run. -/
def FrameTree.Runs (t : FrameTree) (f : FrameId) : Prop :=
  ∃ n, t.find f = some n ∧ n.data.is_executable

/-- The end of `c` makes the container `p` resume. -/
def ResumesContainer (s : State) (p c : FrameId) : Prop :=
  ∃ n, s.frames.find p = some n ∧ n.data.is_container ∧ ¬ s.frames.Fires p c ∧
    s.frames.Resumes p n

/-- The worker is asked to run frames that it can run, and a container that resumes is completed
at once. -/
def WorksAsMeant (ckp : SessionCheckpointer) (x : RunningSession) : SystemMove → Prop
  | .event index => ∀ event, x.state.listeners[index]? = some event →
    match event with
    | .FrameReady f => x.state.frames.Runs f
    | .ChildFrameTerminated p c => ResumesContainer (x.state.taken index) p c →
      (exec (ckp.on_child_frame_terminated p c) (x.state.taken index)).1 = .ok () →
      (ckp.handle x index event).state.frames.statusIs FrameStatus.has_completed p
    | _ => True
  | _ => True

/-- What each event must find, so that it makes no other frame ready: the frame that was created
does not start by a run, no frame is bound to the answer, the frame that resumes is completed by
its policy. -/
def ReadiesExecutables (x : RunningSession) : SystemMove → Prop
  | .event index => ∀ event, x.state.listeners[index]? = some event →
    match event with
    | .FrameCreated f => ∀ n, x.state.frames.find f = some n → n.status = .Pending →
      n.frame_policy.on_start_policy = .RunFrame → n.data.is_executable
    | .HitlAnswered response => ∀ f n index,
      x.state.frames.get_frame_id_by_hitl_id response.id = some f →
      x.state.frames.find f = some n → n.log_index_of_hitl response.id = some index →
      n.data.is_executable
    | .ChildFrameTerminated p c => ∀ n, x.state.frames.find p = some n →
      ¬ x.state.frames.Fires p c → x.state.frames.Resumes p n → n.data.is_executable ∨
        (n.frame_policy.on_resume_policy = .MarkComplete ∧
          ¬ (n.frame_policy.resume_policy = .Sequential ∧ n.children = []))
    | _ => True
  | _ => True

/-! ## The frames that are ready -/

/-- The frames that are ready, or are told to be, are of the right kind. -/
structure OnlyExecutables (s : State) : Prop where
  queued : ∀ f, .FrameReady f ∈ s.listeners → s.frames.Runs f
  ready : ∀ f n, s.frames.find f = some n → n.status = .Ready → n.data.is_executable

section Law

variable {self : SessionCheckpointer} {decode : Value → Except String FrameResponse}
  {x : RunningSession} {s s' : State} {f : FrameId} {n : FrameNode} {index : Nat}
  {event : SessionCheckpointEvent} {M : FrameId → FrameStatus → Prop}

/-- A frame keeps its kind. -/
theorem Acts.runs (h : Acts self M s s') (hf : s.frames.Runs f) : s'.frames.Runs f := by
  obtain ⟨n, hn, hkind⟩ := hf
  obtain ⟨n', hn', hk⟩ := h.found hn
  exact ⟨n', hn', by rw [hk.data]; exact hkind⟩

/-- The frames that an event makes ready. -/
theorem runs_of_marks (he : x.state.listeners[index]? = some event)
    (h : ReadiesExecutables x (.event index)) (hM : Marks (x.state.taken index) event f .Ready) :
    x.state.frames.Runs f := by
  have hfinds := h event he
  cases event with
  | FrameCreated g =>
    rcases hM with ⟨-, hst⟩ | ⟨rfl, n, hn, hpending, ⟨-, hstart⟩ | ⟨hst, -⟩⟩
    · cases hst
    · exact ⟨n, hn, hfinds n hn hpending hstart⟩
    · cases hst
  | HitlAnswered response =>
    obtain ⟨hbound, -, n, i, hn, hindex⟩ := hM
    exact ⟨n, hn, hfinds f n i hbound hn hindex⟩
  | ChildFrameTerminated p c =>
    rcases hM with ⟨rfl, ⟨-, err, hst⟩ | ⟨hno, n, hn, hresumes, hresumed⟩⟩
    · cases hst
    · rcases hfinds n hn hno hresumes with hkind | ⟨hpol, hchildren⟩
      · exact ⟨n, hn, hkind⟩
      · rcases hresumed with ⟨-, hrun | hnone⟩ | ⟨hst, -⟩
        · rw [hpol] at hrun
          cases hrun
        · exact absurd hnone hchildren
        · cases hst
  | FrameRunJobStateUpdate g job_state =>
    rcases hM with ⟨rfl, ⟨response, -, hst⟩ | ⟨error, -, hst⟩⟩
    · cases hst
    · cases hst
  | FrameRunTerminated g =>
    rcases hM.of_run_terminated with hst | hst | ⟨err, hst⟩
    all_goals cases hst
  | _ => exact hM.elim

theorem onlyExecutables_step (hx : OnlyExecutables x.state)
    (he : x.state.listeners[index]? = some event) (h : ReadiesExecutables x (.event index)) :
    OnlyExecutables (self.step (x.state.taken index) event) := by
  obtain ⟨s', status, dispatched, hacts, hstep, -⟩ := step_acts self (x.state.taken index) event
  rw [hstep]
  constructor
  · intro f hmem
    rcases hacts.event hmem with hold | hnotice | ⟨g, parent, status, hM, hsent⟩
    · exact hacts.runs (hx.queued f (List.mem_of_mem_eraseIdx hold))
    · exact hnotice.elim
    · cases status with
      | Ready =>
        cases List.mem_singleton.mp hsent
        exact hacts.runs (runs_of_marks he h hM)
      | _ => simp [FrameStatus.announces] at hsent
  · intro f n hn hst
    have hkind : ∀ m, (x.state.taken index).frames.find f = some m → m.data.is_executable →
        n.data.is_executable := by
      intro m hm hm'
      obtain ⟨n', hn', hk⟩ := hacts.found hm
      rw [hn] at hn'
      cases hn'
      rw [hk.data]
      exact hm'
    rcases hacts.status hn with hnew | ⟨m, hm, hsame⟩ | ⟨hM, -⟩
    · rw [hst] at hnew
      cases hnew
    · exact hkind m hm (hx.ready f m hm (hsame.symm.trans hst))
    · rw [hst] at hM
      obtain ⟨m, hm, hm'⟩ := runs_of_marks he h hM
      exact hkind m hm hm'

theorem onlyExecutables_next {move : SystemMove} (hx : OnlyExecutables x.state)
    (h : ReadiesExecutables x move) : OnlyExecutables (self.next decode x move).state := by
  rcases self.next_cases decode x move with
    ⟨index, event, rfl, he, hnext⟩ | ⟨hitls, snapshots, events, houtside, -, hnext⟩
  · rw [hnext]
    exact onlyExecutables_step hx he h
  · rw [hnext]
    refine ⟨fun f hmem => ?_, hx.ready⟩
    rcases List.mem_append.mp hmem with hold | hnew
    · exact hx.queued f hold
    · exact (houtside _ hnew).elim

theorem onlyExecutables_start (args : NewFrameNodeArgs)
    (initial_channels : List (ChannelName × Value)) (rows : SnapshotRows) :
    OnlyExecutables (self.start args initial_channels rows).state := by
  refine ⟨fun f hmem => ?_, fun f n hn hst => ?_⟩
  · cases List.mem_singleton.mp hmem
  · rw [find_start] at hn
    split at hn
    · cases hn
      cases hst
    · cases hn

/-- The end of `c` makes the frame `p` resume. -/
theorem resumed_of_resumes {p c : FrameId} (hn : s.frames.find p = some n)
    (hno : ¬ s.frames.Fires p c) (hresumes : s.frames.Resumes p n)
    (h : exec (self.on_child_frame_terminated p c) s = (.ok (), s')) :
    s'.frames.statusIs FrameStatus.has_resumed p := by
  rcases child_terminated_cases self s p c with
    ⟨e, t, ht, hr⟩ | ⟨t, cp, ht, hfind, hcp, hcase⟩
  · rw [hr] at h
    cases h
  · rw [hn] at hfind
    cases hfind
    rcases hcase with ⟨hfires, -⟩ | ⟨-, -, hr⟩ | ⟨-, -, -, hr⟩ | ⟨-, hwaits, -⟩
    · exact absurd hfires hno
    · exact resumed_of_join_sequential (hr.symm.trans h)
    · exact resumed_of_join_fan_in (hr.symm.trans h)
    · rcases hresumes with hseq | ⟨hfan, hall⟩ <;> rcases hwaits with ⟨hfan', hlive⟩ | hhitl
      · rw [hseq] at hfan'
        cases hfan'
      · rw [hseq] at hhitl
        cases hhitl
      · exact absurd hall hlive
      · rw [hfan] at hhitl
        cases hhitl

/-- A container that resumes is completed. -/
theorem completed_of_resumes {p c : FrameId} (hx : OnlyExecutables x.state)
    (he : x.state.listeners[index]? = some (.ChildFrameTerminated p c))
    (h : ReadiesExecutables x (.event index)) (hp : ResumesContainer (x.state.taken index) p c)
    (hok : (exec (self.on_child_frame_terminated p c) (x.state.taken index)).1 = .ok ()) :
    (self.handle x index (.ChildFrameTerminated p c)).state.frames.statusIs
      FrameStatus.has_completed p := by
  obtain ⟨n, hn, hkind, hno, hresumes⟩ := hp
  have hrun : exec (self.on_child_frame_terminated p c) (x.state.taken index) =
      (.ok (), (exec (self.on_child_frame_terminated p c) (x.state.taken index)).2) := by
    rw [← hok]
  have hres := resumed_of_resumes hn hno hresumes hrun
  have hafter : OnlyExecutables (self.step (x.state.taken index) (.ChildFrameTerminated p c)) :=
    onlyExecutables_step hx he h
  obtain ⟨status, hstep⟩ := step_eq self (x.state.taken index) (.ChildFrameTerminated p c)
  have hevolves := step_evolves self (x.state.taken index) (.ChildFrameTerminated p c)
  obtain ⟨n', hn', hk⟩ := hevolves.node p n hn
  have hframes : (self.step (x.state.taken index) (.ChildFrameTerminated p c)).frames =
      (exec (self.on_child_frame_terminated p c) (x.state.taken index)).2.frames := by
    rw [hstep]
    rfl
  change (self.step (x.state.taken index) (.ChildFrameTerminated p c)).frames.statusIs
    FrameStatus.has_completed p
  rw [← hframes] at hres
  simp only [statusIs, hn', Option.map_some, Option.getD_some] at hres ⊢
  cases hst : n'.status with
  | Ready =>
    have hruns := hafter.ready p n' hn' hst
    rw [(hk (id_lt_next hn)).data] at hruns
    cases hdata : n.data <;> simp [hdata, FrameKind.is_container, FrameKind.is_executable] at hkind hruns
  | Completed => rfl
  | _ => simp [hst, FrameStatus.has_resumed] at hres

end Law

/-- **Only executable frames reach the worker**: in a session whose events make no other frame
ready, the worker is asked to run experts, tools and nodes alone, and a container that resumes is
completed at once. -/
theorem only_executable_frames_reach_the_worker (self : SessionCheckpointer)
    (decode : Value → Except String FrameResponse) (args : NewFrameNodeArgs)
    (initial_channels : List (ChannelName × Value)) (rows : SnapshotRows)
    (moves : List SystemMove)
    (h : self.Throughout decode ReadiesExecutables (self.start args initial_channels rows) moves) :
    self.Throughout decode (WorksAsMeant self) (self.start args initial_channels rows) moves := by
  refine self.throughout_of_invariant decode (I := fun x => OnlyExecutables x.state)
    (fun x move hx hmove => onlyExecutables_next hx hmove) (fun x move hx hmove => ?_) _ moves
    (onlyExecutables_start args initial_channels rows) h
  cases move with
  | event index =>
    intro event he
    cases event with
    | FrameReady f => exact hx.queued f (List.mem_of_getElem? he)
    | ChildFrameTerminated p c => exact fun hp hok => completed_of_resumes hx he hmove hp hok
    | _ => trivial
  | _ => trivial

/-! ## A node that calls one tool -/

/-- The run of the node calls one tool, and the run of the tool completes. -/
def callsOneTool : Value → Except String FrameResponse
  | .Null => .ok { frame_id := ⟨0⟩, updates := [], new_logs := [], result := .CallTools [⟨"t", .Null⟩] }
  | _ => .ok { frame_id := ⟨2⟩, updates := [], new_logs := [], result := .Completed }

/-- A session whose root is a node of a graph, with a snapshot for each frame. -/
def oneNode : RunningSession :=
  overTwoNodes.start nodeArgs []
    [⟨⟨0⟩, ⟨0⟩, 0, .empty, []⟩, ⟨⟨0⟩, ⟨1⟩, 0, .empty, []⟩, ⟨⟨0⟩, ⟨2⟩, 0, .empty, []⟩]

/-- The node runs, then the tool, and the aggregator of the call resumes. -/
def toolRuns : List SystemMove :=
  [.event 0, .event 0, .report 0 (.Completed .Null), .event 0, .event 0, .event 0, .event 0, .event 0,
    .event 0, .report 0 (.Completed (.Bool true)), .event 0, .event 0, .event 2]

/-- The event tells that a frame is ready, and the frame is not executable. -/
def tellsOfContainer (t : FrameTree) : SessionCheckpointEvent → Bool
  | .FrameReady f => ((t.find f).map (!·.data.is_executable)).getD false
  | _ => false

/-- The aggregator goes to the worker. -/
theorem an_aggregator_reaches_the_worker :
    ¬ overTwoNodes.Throughout callsOneTool (WorksAsMeant overTwoNodes) oneNode
      (toolRuns ++ [.event 2]) := by
  intro h
  have hlast := (overTwoNodes.throughout_append callsOneTool oneNode toolRuns [.event 2]
    (by decide +kernel) h).1
  have hwrong : ((overTwoNodes.runSystem callsOneTool oneNode toolRuns).state.listeners[2]?).map
      (tellsOfContainer (overTwoNodes.runSystem callsOneTool oneNode toolRuns).state.frames) =
        some true := by
    decide +kernel
  generalize overTwoNodes.runSystem callsOneTool oneNode toolRuns = x at hlast hwrong
  obtain ⟨event, he, htells⟩ := Option.map_eq_some_iff.mp hwrong
  have hevent := hlast event he
  cases event with
  | FrameReady f =>
    obtain ⟨n, hn, hkind⟩ := hevent
    simp [tellsOfContainer, hn, hkind] at htells
  | _ => cases htells

/-! ## A thread that is completed by its policy -/

/-- A thread of a graph that is completed when it resumes. -/
def completedThread : NewFrameNodeArgs :=
  { threadArgs with
    frame_policy := { on_start_policy := .AppendGraphNode ⟨"g", 1⟩ "a", on_resume_policy := .MarkComplete } }

/-- The session of that thread, with a snapshot for it and for its node. -/
def oneThread : RunningSession :=
  overTwoNodes.start completedThread [] [⟨⟨0⟩, ⟨0⟩, 0, .empty, []⟩, ⟨⟨0⟩, ⟨1⟩, 0, .empty, []⟩]

/-- The node of the thread runs, and the thread resumes. -/
def threadRuns : List SystemMove :=
  [.event 0, .event 0, .event 0, .report 0 (.Completed .Null), .event 0, .event 0, .event 2]

theorem a_thread_is_completed_at_once :
    (overTwoNodes.runSystem (logsAndEnds .Completed) oneThread threadRuns).state.frames.statusIs
      FrameStatus.has_completed ⟨0⟩ = true ∧
    overTwoNodes.Throughout (logsAndEnds .Completed) (WorksAsMeant overTwoNodes) oneThread
      threadRuns := by
  refine ⟨by decide +kernel, only_executable_frames_reach_the_worker overTwoNodes
    (logsAndEnds .Completed) completedThread [] _ threadRuns ?_⟩
  refine ⟨?_, fun _ => ⟨?_, fun _ => ⟨?_, fun _ => ⟨trivial, fun _ => ⟨?_, fun _ => ⟨?_, fun _ =>
    ⟨?_, fun _ => trivial⟩⟩⟩⟩⟩⟩⟩
  · rintro event ⟨⟩ n ⟨⟩ - hstart
    cases hstart
  · rintro event ⟨⟩ n ⟨⟩ - -
    rfl
  · rintro event ⟨⟩
    trivial
  · rintro event ⟨⟩
    trivial
  · rintro event ⟨⟩
    trivial
  · rintro event ⟨⟩ n ⟨⟩ - -
    exact .inr ⟨rfl, by rintro ⟨-, ⟨⟩⟩⟩

end marie.session
