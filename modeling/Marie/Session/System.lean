-- A session with all that runs beside its checkpointer: the queue of events,
-- the jobs of the worker with the tasks that relay their states, the humans
-- that answer, and the cache of snapshots. Here `listeners` is the queue: the
-- events that are sent and not yet taken.
import Marie.Session.Handlers

namespace marie.session

open Program FrameTree

/-! ## The states of a job -/

/-- `JobState::deserialize`; `decode` is `serde_json::from_value`. -/
def JobState.deserialize {R : Type} (decode : Value → Except String R) :
    JobState Value → Except WorkerError (JobState R)
  | .Unknown => .ok .Unknown
  | .PendingScheduling instance_ worker => .ok (.PendingScheduling instance_ worker)
  | .PendingAck worker => .ok (.PendingAck worker)
  | .Probing worker => .ok (.Probing worker)
  | .Scheduled worker => .ok (.Scheduled worker)
  | .Running worker => .ok (.Running worker)
  | .Completed value =>
    match decode value with
    | .ok result => .ok (.Completed result)
    | .error error => .error (.SerdeError error)
  | .Failed error => .ok (.Failed error)

/-! ## Moves -/

/-- The jobs are those whose states are still relayed to the queue. -/
structure RunningSession where
  state : State
  jobs : List FrameId

namespace RunningSession

def Quiescent (x : RunningSession) : Prop := x.state.listeners = [] ∧ x.jobs = []

end RunningSession

/-- What happens to a session: the checkpointer takes the event at an index of the queue, the
job at an index of the jobs has a new state, someone answers a request, or the snapshots change
beside the checkpointer. -/
inductive SystemMove
  | event (index : Nat)
  | report (index : Nat) (job_state : JobState Value)
  | answer (response : HitlResponse)
  | snapshots (snapshots : SessionSnapshots)

/-- The event does not come from the checkpointer. -/
def SessionCheckpointEvent.IsFromOutside : SessionCheckpointEvent → Prop
  | .HitlAnswered _ | .FrameRunJobStateUpdate _ _ => True
  | _ => False

/-- The state once the event at an index of the queue is taken. -/
def State.taken (s : State) (index : Nat) : State :=
  { s with listeners := s.listeners.eraseIdx index }

/-- The other elements of a list stay when the one at an index is taken out. -/
theorem mem_or_mem_eraseIdx {α : Type} {xs : List α} {index : Nat} {x y : α}
    (hx : xs[index]? = some x) (hy : y ∈ xs) : y = x ∨ y ∈ xs.eraseIdx index := by
  obtain ⟨i, hi⟩ := List.mem_iff_getElem?.mp hy
  by_cases heq : i = index
  · subst heq
    rw [hx] at hi
    exact .inl (Option.some.inj hi).symm
  · exact .inr (List.mem_eraseIdx_iff_getElem?.mpr ⟨i, heq, hi⟩)

namespace SessionCheckpointer

variable (self : SessionCheckpointer) (decode : Value → Except String FrameResponse)

/-- The session whose root frame was just made; its first event is on the way. -/
def start (args : NewFrameNodeArgs) (initial_channels : List (ChannelName × Value))
    (rows : SnapshotRows) : RunningSession where
  state := (exec (SessionCheckpointer.set_root args initial_channels)
    (State.new self.session_id FrameTree.new rows)).2.emits [.FrameCreated ⟨0⟩]
  jobs := []

/-- The task that relays the states of a job. A state that is not decoded ends it, as does a
state that terminates the job. -/
def relay (x : RunningSession) (index : Nat) (job_state : JobState Value) : RunningSession :=
  match x.jobs[index]? with
  | none => x
  | some f =>
    match job_state.deserialize decode with
    | .error _ => { x with jobs := x.jobs.eraseIdx index }
    | .ok state =>
      { state := x.state.emits [.FrameRunJobStateUpdate f state]
        jobs := if job_state.has_terminated then x.jobs.eraseIdx index else x.jobs }

/-- The checkpointer takes an event. A frame that the worker takes is a job from then on. -/
def handle (x : RunningSession) (index : Nat) (event : SessionCheckpointEvent) : RunningSession where
  state := self.step (x.state.taken index) event
  jobs := x.jobs ++ (((self.step (x.state.taken index) event).dispatched.drop
    x.state.dispatched.length).filter
      fun args => (self.spawn x.state.dispatched.length args).isNone).map (·.frame_id)

/-- The session after some moves. A panic ends the task of the checkpointer. -/
def runSystem (x : RunningSession) : List SystemMove → RunningSession
  | [] => x
  | .event index :: moves =>
    match x.state.listeners[index]? with
    | none => runSystem x moves
    | some event =>
      if self.panics (x.state.taken index) event then self.handle x index event
      else runSystem (self.handle x index event) moves
  | .report index job_state :: moves => runSystem (relay decode x index job_state) moves
  | .answer response :: moves =>
    runSystem
      { x with
        state := { x.state with hitls := x.state.hitls.filter (·.1 ≠ response.id) }.emits
          [.HitlAnswered response] }
      moves
  | .snapshots snapshots :: moves => runSystem { x with state := { x.state with snapshots } } moves

/-- Each event that is taken finds a state with `C`. -/
def AlongSystem (C : State → SessionCheckpointEvent → Prop) (x : RunningSession) :
    List SystemMove → Prop
  | [] => True
  | .event index :: moves =>
    match x.state.listeners[index]? with
    | none => AlongSystem C x moves
    | some event =>
      C (x.state.taken index) event ∧
        (self.panics (x.state.taken index) event = false →
          AlongSystem C (self.handle x index event) moves)
  | .report index job_state :: moves => AlongSystem C (relay decode x index job_state) moves
  | .answer response :: moves =>
    AlongSystem C
      { x with
        state := { x.state with hitls := x.state.hitls.filter (·.1 ≠ response.id) }.emits
          [.HitlAnswered response] }
      moves
  | .snapshots snapshots :: moves =>
    AlongSystem C { x with state := { x.state with snapshots } } moves

/-- What the checkpointer, the relays, the humans and the snapshots keep, the session keeps. -/
theorem runSystem_keeps {C : State → SessionCheckpointEvent → Prop} {I : RunningSession → Prop}
    (hevent : ∀ x index event, I x → x.state.listeners[index]? = some event →
      C (x.state.taken index) event → I (self.handle x index event))
    (hreport : ∀ x index job_state, I x → I (relay decode x index job_state))
    (hanswer : ∀ x response hitls, I x →
      I { x with state := { x.state with hitls }.emits [.HitlAnswered response] })
    (hsnapshots : ∀ x snapshots, I x → I { x with state := { x.state with snapshots } })
    (x : RunningSession) (moves : List SystemMove) (hx : I x)
    (h : self.AlongSystem decode C x moves) : I (self.runSystem decode x moves) := by
  induction moves generalizing x with
  | nil => exact hx
  | cons move moves ih =>
    cases move with
    | event index =>
      unfold AlongSystem at h
      unfold runSystem
      cases he : x.state.listeners[index]? with
      | none =>
        simp only [he] at h ⊢
        exact ih x hx h
      | some event =>
        simp only [he] at h ⊢
        have hnext := hevent x index event hx he h.1
        cases hp : self.panics (x.state.taken index) event with
        | true => simpa [hp] using hnext
        | false => simpa [hp] using ih _ hnext (h.2 hp)
    | report index job_state => exact ih _ (hreport x index job_state hx) h
    | answer response => exact ih _ (hanswer x response _ hx) h
    | snapshots snapshots => exact ih _ (hsnapshots x snapshots hx) h

/-! ## Moves, one by one -/

/-- The session after one move. -/
def next (x : RunningSession) : SystemMove → RunningSession
  | .event index =>
    match x.state.listeners[index]? with
    | none => x
    | some event => self.handle x index event
  | .report index job_state => relay decode x index job_state
  | .answer response =>
    { x with
      state := { x.state with hitls := x.state.hitls.filter (·.1 ≠ response.id) }.emits
        [.HitlAnswered response] }
  | .snapshots snapshots => { x with state := { x.state with snapshots } }

theorem next_event {x : RunningSession} {index : Nat} {event : SessionCheckpointEvent}
    (he : x.state.listeners[index]? = some event) :
    self.next decode x (.event index) = self.handle x index event := by
  simp [next, he]

theorem next_event_none {x : RunningSession} {index : Nat} (he : x.state.listeners[index]? = none) :
    self.next decode x (.event index) = x := by
  simp [next, he]

/-- The move ends the task of the checkpointer. -/
def stops (x : RunningSession) : SystemMove → Bool
  | .event index =>
    match x.state.listeners[index]? with
    | none => false
    | some event => self.panics (x.state.taken index) event
  | _ => false

theorem runSystem_cons (x : RunningSession) (move : SystemMove) (moves : List SystemMove) :
    self.runSystem decode x (move :: moves) =
      if self.stops x move then self.next decode x move
      else self.runSystem decode (self.next decode x move) moves := by
  cases move with
  | event index =>
    cases he : x.state.listeners[index]? with
    | none => simp [runSystem, next, stops, he]
    | some event => simp [runSystem, next, stops, he]
  | report index job_state => rfl
  | answer response => rfl
  | snapshots snapshots => rfl

/-- The checkpointer handles an event, or something comes from outside. -/
theorem next_cases (x : RunningSession) (move : SystemMove) :
    (∃ index event, move = .event index ∧ x.state.listeners[index]? = some event ∧
      self.next decode x move = self.handle x index event) ∨
    ∃ hitls snapshots events, (∀ event ∈ events, event.IsFromOutside) ∧
      (snapshots = x.state.snapshots ∨ move = .snapshots snapshots) ∧
      (self.next decode x move).state = { x.state with hitls, snapshots }.emits events := by
  have hstays : { x.state with hitls := x.state.hitls, snapshots := x.state.snapshots }.emits [] =
      x.state := by
    simp [State.emits]
  cases move with
  | event index =>
    cases he : x.state.listeners[index]? with
    | none =>
      rw [self.next_event_none decode he]
      exact .inr ⟨_, _, [], by simp, .inl rfl, hstays.symm⟩
    | some event => exact .inl ⟨index, event, rfl, he, self.next_event decode he⟩
  | report index job_state =>
    right
    change ∃ hitls snapshots events, _ ∧ _ ∧ (relay decode x index job_state).state = _
    unfold relay
    split
    · exact ⟨_, _, [], by simp, .inl rfl, hstays.symm⟩
    · split
      · exact ⟨_, _, [], by simp, .inl rfl, hstays.symm⟩
      · exact ⟨_, _, [_], by simp [SessionCheckpointEvent.IsFromOutside], .inl rfl, rfl⟩
  | answer response =>
    exact .inr ⟨_, _, [_], by simp [SessionCheckpointEvent.IsFromOutside], .inl rfl, rfl⟩
  | snapshots snapshots => exact .inr ⟨x.state.hitls, _, [], by simp, .inr rfl, by simp [next, State.emits]⟩

/-- Each move finds a session with `P`. -/
def Throughout (P : RunningSession → SystemMove → Prop) (x : RunningSession) :
    List SystemMove → Prop
  | [] => True
  | move :: moves =>
    P x move ∧ (self.stops x move = false → Throughout P (self.next decode x move) moves)

/-- What each move keeps, the session keeps. -/
theorem runSystem_invariant {P : RunningSession → SystemMove → Prop} {I : RunningSession → Prop}
    (hnext : ∀ x move, I x → P x move → I (self.next decode x move)) (x : RunningSession)
    (moves : List SystemMove) (hx : I x) (h : self.Throughout decode P x moves) :
    I (self.runSystem decode x moves) := by
  induction moves generalizing x with
  | nil => exact hx
  | cons move moves ih =>
    have hmoved := hnext x move hx h.1
    rw [runSystem_cons]
    cases hs : self.stops x move with
    | true => exact hmoved
    | false => exact ih _ hmoved (h.2 hs)

/-- What each move of a session with an invariant has, every move of the run has. -/
theorem throughout_of_invariant {P Q : RunningSession → SystemMove → Prop}
    {I : RunningSession → Prop} (hnext : ∀ x move, I x → P x move → I (self.next decode x move))
    (hmove : ∀ x move, I x → P x move → Q x move) (x : RunningSession) (moves : List SystemMove)
    (hx : I x) (h : self.Throughout decode P x moves) : self.Throughout decode Q x moves := by
  induction moves generalizing x with
  | nil => trivial
  | cons move moves ih =>
    exact ⟨hmove x move hx h.1, fun hs => ih _ (hnext x move hx h.1) (h.2 hs)⟩

/-- None of these moves ends the task of the checkpointer. -/
def goesOn (x : RunningSession) : List SystemMove → Bool
  | [] => true
  | move :: moves => !self.stops x move && goesOn (self.next decode x move) moves

/-- What holds throughout a run holds after the first moves of it. -/
theorem throughout_append {P : RunningSession → SystemMove → Prop} (x : RunningSession)
    (moves rest : List SystemMove) (hon : self.goesOn decode x moves = true)
    (h : self.Throughout decode P x (moves ++ rest)) :
    self.Throughout decode P (self.runSystem decode x moves) rest := by
  induction moves generalizing x with
  | nil => exact h
  | cons move moves ih =>
    rw [goesOn, Bool.and_eq_true, Bool.not_eq_true'] at hon
    rw [runSystem_cons, if_neg (by simp [hon.1])]
    exact ih _ hon.2 (h.2 hon.1)

end SessionCheckpointer

/-! ## The start -/

section Start

variable (self : SessionCheckpointer) (args : NewFrameNodeArgs)
  (initial_channels : List (ChannelName × Value)) (rows : SnapshotRows)

/-- The root frame of a new session. -/
def rootNode : FrameNode :=
  { FrameNode.new ⟨0⟩ args with is_root := true }.extend_inherited (channelsOf initial_channels)

theorem start_frames :
    (self.start args initial_channels rows).state.frames =
      ((FrameTree.new.set_root args).2.load ⟨0⟩).edit ⟨0⟩
        (·.extend_inherited (channelsOf initial_channels)) := rfl

theorem arena_start (x : FrameId) :
    (self.start args initial_channels rows).state.frames.arena x =
      if x = ⟨0⟩ then some ⟨rootNode args initial_channels, true⟩ else none := by
  rw [start_frames]
  by_cases hx : x = ⟨0⟩
  · subst hx
    rfl
  · simp [edit, load, FrameTree.set_root, create_node, FrameTree.new, hx]

theorem find_start (x : FrameId) :
    (self.start args initial_channels rows).state.frames.find x =
      if x = ⟨0⟩ then some (rootNode args initial_channels) else none := by
  by_cases hx : x = ⟨0⟩
  · subst hx
    rfl
  · have hnone := arena_start self args initial_channels rows x
    rw [if_neg hx] at hnone
    rw [if_neg hx, find_of_not_resident hnone]
    rfl

end Start

end marie.session
