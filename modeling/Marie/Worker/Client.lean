-- The client of the workers: it tracks the jobs that it spawned, and what it
-- knows of a job comes from the bus, from the replies of the workers and from its
-- timers. Each of these writes the state of the job that it brings.
import Marie.Lib.OrderedMap
import Marie.Session.Protocol

open Std (ExtTreeMap TransOrd TransCmp LawfulEqOrd)

namespace marie

instance : Ord JobId := ⟨compareOn JobId.id⟩

instance : TransOrd JobId := inferInstanceAs (TransCmp (compareOn JobId.id))

instance : LawfulEqOrd JobId :=
  OrderedMap.lawful_compareOn (f := JobId.id) (by rintro ⟨_⟩ ⟨_⟩ rfl; rfl)

namespace worker

open session (JobInstance JobState WorkerError)

/-- The state of a job, with the JSON of its result. -/
abbrev State := JobState Value

inductive TimerEvent where
  | ProbingTimeOut (id : JobId)
  | AckTimeOut (id : JobId)
  | Probe (id : JobId)
deriving DecidableEq

/-- A stream that `StreamHandle::after` puts in the pool: an interval of so many seconds. -/
structure Timer where
  seconds : Nat
  event : TimerEvent
deriving DecidableEq

/-! ## The state of the client -/

/-- A watch channel: its latest value, and how many values were sent before it. -/
structure Watch where
  value : State
  version : Nat

def Watch.send (self : Watch) (value : State) : Watch := ⟨value, self.version + 1⟩

/-- `listeners` only ever holds the one sender that `watch` makes. -/
structure JobInfo where
  id : JobId
  state : State
  listener : Watch

/-- A future that was spawned, at the point where it goes on. -/
inductive Task where
  /-- `watch`, after the tracker is in the map and before its first state is handled. -/
  | watch (id : JobId) (initial : State)
  | schedule_job (instance_ : JobInstance) (worker : String)
  /-- `schedule_job`, at the reply of `ScheduleJob`. -/
  | scheduling (id : JobId) (worker : String)
  | probe_state (id : JobId) (worker : String)
  /-- `probe_state`, after it read that the job has not terminated. -/
  | probing (id : JobId) (worker : String)
  /-- `probe_state`, at the reply of `GetJobState`. -/
  | awaiting (id : JobId)

/-- `JobHandle::stream`: the version that it took last, and the states that it took. -/
structure Listener where
  job_id : JobId
  seen : Option Nat
  observed : List State
  ended : Bool

/-- The stream takes the value of the channel if it is newer than the one it took last, and ends
after one that has terminated. -/
def Listener.take (self : Listener) (channel : Watch) : Listener :=
  if self.ended ∨ self.seen = some channel.version then self
  else ⟨self.job_id, some channel.version, self.observed ++ [channel.value], channel.value.has_terminated⟩

/-- `handling` is the write that the loop of `run` is about to make for a timer that it checked. -/
structure Client where
  trackers : ExtTreeMap JobId JobInfo
  timers : List Timer
  tasks : List Task
  handling : Option (JobId × State)
  streams : List Listener

namespace Client

def new : Client := ⟨∅, [], [], none, []⟩

/-! ## Handling a state -/

/-- `tokio::spawn`. -/
def spawn_task (task : Task) (self : Client) : Client := { self with tasks := self.tasks ++ [task] }

/-- `StreamHandle::after`. -/
def after (seconds : Nat) (event : TimerEvent) (self : Client) : Client :=
  { self with timers := self.timers ++ [⟨seconds, event⟩] }

/-- The call of an `async fn` whose future is dropped: its body does not run. -/
def unawaited (_ : Client → Client) (self : Client) : Client := self

def handle_job_state (id : JobId) (state : State) (self : Client) : Client :=
  match self.trackers[id]? with
  | none => self
  | some tracker =>
    let self := { self with
      trackers := self.trackers.insert id { tracker with state, listener := tracker.listener.send state } }
    match state with
    | .PendingScheduling instance_ worker => self.spawn_task (.schedule_job instance_ worker)
    | .PendingAck _ => self.unawaited (after 30 (.AckTimeOut id))
    | .Probing worker =>
      (self.spawn_task (.probe_state id worker)).unawaited (after 30 (.ProbingTimeOut id))
    | .Scheduled worker | .Running worker =>
      (self.spawn_task (.probe_state id worker)).unawaited (after 30 (.Probe id))
    | _ => self

/-! ## The events -/

/-- What the call of a worker gives: the text of an error of the call, or the worker's answer. -/
abbrev Reply (α : Type) := Except String (Except WorkerError α)

/-- The state that `schedule_job` writes at the reply. -/
def scheduled_state (worker : String) : Reply Unit → State
  | .error error => .Failed (.ScheduledError error)
  | .ok (.error error) => .Failed error
  | .ok (.ok _) => .Scheduled worker

end Client

inductive Event where
  /-- `spawn`, with the id that was drawn and the worker that was picked. -/
  | spawn (instance_ : JobInstance) (worker : String)
  /-- A `JobUpdate` that the stream of the bus yields, taken by the loop of `run`. Of those that the
  workers emit the stream yields none (`events.EventJson.yields_to_value`). -/
  | update (id : JobId) (state : State)
  /-- A timer event, taken by the loop of `run`: the state of the job is read. -/
  | timer (event : TimerEvent)
  /-- The loop writes for the timer that it checked. -/
  | resume
  /-- A task goes on up to its next call of a worker, or to its end. -/
  | go (task : Nat)
  /-- The reply of `ScheduleJob` to a task. -/
  | scheduled (task : Nat) (reply : Client.Reply Unit)
  /-- The reply of `GetJobState` to a task. -/
  | probed (task : Nat) (reply : Client.Reply State)
  /-- A handle of the job is made a stream. -/
  | listen (id : JobId)
  /-- A stream is polled. -/
  | poll (stream : Nat)

namespace Client

/-- An id that is drawn is one that no job has. -/
def spawn (instance_ : JobInstance) (worker : String) (self : Client) : Client :=
  match self.trackers[instance_.id]? with
  | some _ => self
  | none =>
    { self with
      trackers := self.trackers.insert instance_.id ⟨instance_.id, .Unknown, ⟨.Unknown, 0⟩⟩
      tasks := self.tasks ++ [.watch instance_.id (.PendingScheduling instance_ worker)] }

/-- The write that a timer event asks for, after it read the state of the job. -/
def handle_timer_event (event : TimerEvent) (self : Client) : Option (JobId × State) :=
  match event with
  | .ProbingTimeOut id => do
    match (← self.trackers[id]?).state with
    | .Probing _ => some (id, .Failed .ProbingTimeOut)
    | _ => none
  | .Probe id => do
    match (← self.trackers[id]?).state with
    | .Running worker | .Scheduled worker => some (id, .Probing worker)
    | _ => none
  | .AckTimeOut id => do
    match (← self.trackers[id]?).state with
    | .PendingAck _ => some (id, .Failed .AckTimeOut)
    | _ => none

/-- A task goes on: the one it becomes, if it does not end, is set in its place. -/
def go (i : Nat) (self : Client) : Client :=
  match self.tasks[i]? with
  | some (.watch id initial) =>
    { self with tasks := self.tasks.eraseIdx i }.handle_job_state id initial
  | some (.schedule_job instance_ worker) =>
    { self with tasks := self.tasks.set i (.scheduling instance_.id worker) }.handle_job_state
      instance_.id (.PendingAck worker)
  | some (.probe_state id worker) =>
    match self.trackers[id]? with
    | none => { self with tasks := self.tasks.eraseIdx i }
    | some tracker =>
      if tracker.state.has_terminated then { self with tasks := self.tasks.eraseIdx i }
      else { self with tasks := self.tasks.set i (.probing id worker) }
  | some (.probing id worker) =>
    { self with tasks := self.tasks.set i (.awaiting id) }.handle_job_state id (.Probing worker)
  | _ => self

def scheduled (i : Nat) (reply : Reply Unit) (self : Client) : Client :=
  match self.tasks[i]? with
  | some (.scheduling id worker) =>
    { self with tasks := self.tasks.eraseIdx i }.handle_job_state id (scheduled_state worker reply)
  | _ => self

def probed (i : Nat) (reply : Reply State) (self : Client) : Client :=
  match self.tasks[i]?, reply with
  | some (.awaiting id), .ok (.ok state) =>
    { self with tasks := self.tasks.eraseIdx i }.handle_job_state id state
  | some (.awaiting _), _ => { self with tasks := self.tasks.eraseIdx i }
  | _, _ => self

def poll (i : Nat) (self : Client) : Client :=
  match self.streams[i]? with
  | none => self
  | some stream =>
    match self.trackers[stream.job_id]? with
    | none => self
    | some tracker => { self with streams := self.streams.set i (stream.take tracker.listener) }

def step (self : Client) : Event → Client
  | .spawn instance_ worker => self.spawn instance_ worker
  | .update id state => if self.handling.isNone then self.handle_job_state id state else self
  | .timer event =>
    if self.handling.isNone then { self with handling := self.handle_timer_event event } else self
  | .resume =>
    match self.handling with
    | some (id, state) => { self with handling := none }.handle_job_state id state
    | none => self
  | .go i => self.go i
  | .scheduled i reply => self.scheduled i reply
  | .probed i reply => self.probed i reply
  | .listen id =>
    match self.trackers[id]? with
    | none => self
    | some _ => { self with streams := self.streams ++ [⟨id, none, [], false⟩] }
  | .poll i => self.poll i

def run (events : List Event) : Client := events.foldl step new

end Client

end worker

end marie
