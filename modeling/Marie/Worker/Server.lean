-- The worker: it schedules a job, and a task executes it. Every state of a job is
-- written in the map and then emitted, and the tasks of several jobs go on in any
-- order. A task whose executor panics before it has built its future is gone
-- without a last state.
import Marie.Lib.Closures
import Marie.Lib.Runs
import Marie.Worker.Client

open Closures Runs
open Std (ExtTreeMap)

namespace marie.worker

open session (JobInstance WorkerError)

/-! ## The worker -/

/-- A call of a registered executor, in the world that it finds: a value, or the text of the
error of the job. -/
abbrev JobExecutor (World : Type) := Closure Value World (Except String Value)

/-- The result of a job, with the JSON of its value. -/
def job_result {R : Type} (to_value : R → Except String Value) :
    Except String R → Except String (Except String Value)
  | .ok value => (to_value value).map .ok
  | .error error => .ok (.error error)

/-- `register_job_executor`: the closure that is kept for an executor. -/
def wrapped {World Args R : Type} (from_value : Value → Except String Args)
    (executor : World → Args → Unwind (Unwind (Except String R)))
    (to_value : R → Except String Value) : JobExecutor World :=
  Closure.of from_value executor (job_result to_value)

/-- The closure builds its future when the arguments are decoded and the executor is called on them
without a panic. -/
theorem wrapped_builds_iff {World Args R : Type} {from_value : Value → Except String Args}
    {executor : World → Args → Unwind (Unwind (Except String R))}
    {to_value : R → Except String Value} {w : World} {args : Value} :
    (∃ fut, (wrapped from_value executor to_value).Builds w args fut) ↔
      ∃ decoded fut, from_value args = .ok decoded ∧ executor w decoded = .ok fut := by
  unfold wrapped
  exact Closure.builds_of_iff

def extract_panic_message : Payload → String
  | .text message => message
  | .other => "panique inconnue"

/-- Where a call of `schedule_job`, and then its task, stands after a state is emitted. -/
inductive After (World : Type)
  | accepted
  | calling (executor : JobExecutor World)
  | refused
  | ended

/-- Where a call of `schedule_job` stands, and then the task that it spawns. -/
inductive Phase (World : Type)
  | called
  /-- `update_state`, before it writes. -/
  | writing (state : State) (after : After World)
  /-- `update_state`, after it wrote and before it emits. -/
  | emitting (state : State) (after : After World)
  /-- `Scheduled` is emitted, and the task is not spawned yet. -/
  | accepted
  /-- `schedule_job` returned `Ok`. -/
  | spawned
  /-- `Running` is emitted, and the executor is called next. -/
  | calling (executor : JobExecutor World)
  /-- The future of the job is polled: it gives this when it ends. -/
  | polling (future : Unwind (Except String Value))
  /-- `schedule_job` returned an error. -/
  | refused
  /-- The task has ended. -/
  | ended

def After.phase {World : Type} : After World → Phase World
  | .accepted => .accepted
  | .calling executor => .calling executor
  | .refused => .refused
  | .ended => .ended

/-- A job that was given to `schedule_job`. -/
structure Thread (World : Type) where
  job : JobInstance
  phase : Phase World

structure Worker (World : Type) where
  local_node_id : String
  executors : List (String × JobExecutor World)
  jobs : ExtTreeMap JobId State
  emitted : List (JobId × State)
  threads : List (Thread World)

inductive Move (World : Type)
  | register (name : String) (executor : JobExecutor World)
  | schedule_job (job : JobInstance)
  /-- A thread goes on, in the world that it finds. -/
  | go (k : Nat) (w : World)

namespace Worker

variable {World : Type}

def new (local_node_id : String) : Worker World := ⟨local_node_id, [], ∅, [], []⟩

def executor (name : String) (self : Worker World) : Option (JobExecutor World) :=
  self.executors.lookup name

def get_job_state (id : JobId) (self : Worker World) : Except WorkerError State :=
  match self.jobs[id]? with
  | some state => .ok state
  | none => .error (.NoJobFound id)

/-- Where a thread goes. -/
def next (w : World) (self : Worker World) (t : Thread World) : Phase World :=
  match t.phase with
  | .called =>
    match self.executor t.job.name with
    | none => .writing (.Failed (.NoJobExecutorFound t.job.name)) .refused
    | some _ => .writing (.Scheduled self.local_node_id) .accepted
  | .writing state after => .emitting state after
  | .emitting _ after => after.phase
  | .accepted => .spawned
  | .spawned =>
    match self.executor t.job.name with
    | none => .writing (.Failed (.NoJobExecutorFound t.job.name)) .ended
    | some executor => .writing (.Running self.local_node_id) (.calling executor)
  | .calling executor =>
    -- the call is made before `catch_unwind` gets its future
    match executor.execute w t.job.args with
    | .error _ => .ended
    | .ok future => .polling future
  | .polling (.error payload) =>
    .writing (.Failed (.Panicked (extract_panic_message payload))) .ended
  | .polling (.ok (.error error)) => .writing (.Failed (.ExecutionError error)) .ended
  | .polling (.ok (.ok value)) => .writing (.Completed value) .ended
  | .refused => .refused
  | .ended => .ended

def go (k : Nat) (w : World) (self : Worker World) : Worker World :=
  match self.threads[k]? with
  | none => self
  | some t =>
    let self' := { self with threads := self.threads.set k ⟨t.job, self.next w t⟩ }
    match t.phase with
    | .writing state _ => { self' with jobs := self.jobs.insert t.job.id state }
    | .emitting state _ => { self' with emitted := self.emitted ++ [(t.job.id, state)] }
    | _ => self'

def step (self : Worker World) : Move World → Worker World
  | .register name executor => { self with executors := (name, executor) :: self.executors }
  | .schedule_job job => { self with threads := self.threads ++ [⟨job, .called⟩] }
  | .go k w => self.go k w

def run (local_node_id : String) (moves : List (Move World)) : Worker World :=
  moves.foldl step (new local_node_id)

/-! ## What a step does -/

/-- The last state that was emitted for the job. -/
def last_update (id : JobId) (self : Worker World) : Option State :=
  ((self.emitted.filter (·.1 = id)).getLast?).map (·.2)

end Worker

/-- The call of `schedule_job` has failed, or the task of the job has ended. -/
def Phase.Done {World : Type} (p : Phase World) : Prop := p = .refused ∨ p = .ended

/-- The thread is in `update_state`, between the map and the event. -/
def Phase.Emitting {World : Type} (p : Phase World) : Prop :=
  ∃ state after, p = .emitting state after

/-- After its last state a job has ended, and before its executor is called it is running. -/
def After.Fits {World : Type} (local_node_id : String) (state : State) : After World → Prop
  | .accepted => True
  | .calling _ => state = .Running local_node_id
  | .refused | .ended => state.has_terminated = true

namespace Worker

variable {World : Type} {self : Worker World} {k : Nat} {w : World} {t : Thread World}
  {id : JobId} {state : State}

/-- The ways of a thread, each with the worker that it leaves. -/
inductive Went (self : Worker World) (k : Nat) (w : World) (t : Thread World) :
    Worker World → Prop
  | quiet {p : Phase World} (hfrom : ¬ t.phase.Emitting ∧ ¬ t.phase.Done)
      (hto : ¬ p.Emitting ∧ ¬ p.Done) (hcalling : ∀ executor, p ≠ .calling executor)
      (hfits : ∀ state after, p = .writing state after → after.Fits self.local_node_id state) :
      Went self k w t { self with threads := self.threads.set k ⟨t.job, p⟩ }
  | wrote {state : State} {after : After World} (hphase : t.phase = .writing state after) :
      Went self k w t { self with
        threads := self.threads.set k ⟨t.job, .emitting state after⟩
        jobs := self.jobs.insert t.job.id state }
  | emitted {state : State} {after : After World} (hphase : t.phase = .emitting state after) :
      Went self k w t { self with
        threads := self.threads.set k ⟨t.job, after.phase⟩
        emitted := self.emitted ++ [(t.job.id, state)] }
  | panicked {executor : JobExecutor World} (hphase : t.phase = .calling executor)
      (hpanics : ∀ fut, ¬ executor.Builds w t.job.args fut) :
      Went self k w t { self with threads := self.threads.set k ⟨t.job, .ended⟩ }
  | still (hdone : t.phase.Done) : Went self k w t self

theorem quiet_of {p p' : Phase World} (hthread : self.threads[k]? = some t) (hphase : t.phase = p)
    (hnext : self.next w t = p') (hfrom : ¬ p.Emitting ∧ ¬ p.Done) (hto : ¬ p'.Emitting ∧ ¬ p'.Done)
    (hwriting : ∀ state after, p ≠ .writing state after)
    (hcalling : ∀ executor, p' ≠ .calling executor)
    (hfits : ∀ state after, p' = .writing state after → after.Fits self.local_node_id state) :
    Went self k w t (self.go k w) := by
  have hgo : self.go k w = { self with threads := self.threads.set k ⟨t.job, p'⟩ } := by
    unfold go
    rw [hthread]
    dsimp only
    rw [hnext]
    split
    · next state after h => exact absurd (hphase.symm.trans h) (hwriting state after)
    · next state after h => exact absurd ⟨state, after, hphase.symm.trans h⟩ hfrom.1
    · rfl
  rw [hgo]
  exact .quiet (hphase ▸ hfrom) hto hcalling hfits

/-- A thread that goes on to a write: of a last state, or before the call of its executor. -/
theorem quiet_of_writing {p : Phase World} {after : After World}
    (hthread : self.threads[k]? = some t) (hphase : t.phase = p)
    (hnext : self.next w t = .writing state after)
    (hfrom : ¬ p.Emitting ∧ ¬ p.Done) (hwriting : ∀ state after, p ≠ .writing state after)
    (hfits : after.Fits self.local_node_id state) : Went self k w t (self.go k w) := by
  apply quiet_of hthread hphase hnext hfrom ?_ hwriting ?_ ?_
  · simp [Phase.Emitting, Phase.Done]
  · simp
  · rintro _ _ ⟨⟩
    exact hfits

theorem still_of {p : Phase World} (hthread : self.threads[k]? = some t)
    (hnext : self.next w t = t.phase) (hphase : t.phase = p) (hdone : p.Done) :
    Went self k w t (self.go k w) := by
  obtain ⟨hlt, hget⟩ := List.getElem?_eq_some_iff.mp hthread
  have hset : self.threads.set k ⟨t.job, t.phase⟩ = self.threads := by
    rw [← hget, List.set_getElem_self]
  have hgo : self.go k w = self := by
    unfold go
    rw [hthread]
    dsimp only
    rw [hnext, hset, hphase]
    rcases hdone with rfl | rfl
    · rfl
    · rfl
  rw [hgo]
  exact .still (hphase ▸ hdone)

theorem went (hthread : self.threads[k]? = some t) (w : World) :
    Went self k w t (self.go k w) := by
  cases hphase : t.phase with
  | called =>
    have hfrom : ¬ (.called : Phase World).Emitting ∧ ¬ (.called : Phase World).Done := by
      simp [Phase.Emitting, Phase.Done]
    cases hexecutor : self.executor t.job.name with
    | none =>
      have hnext : self.next w t =
          .writing (.Failed (.NoJobExecutorFound t.job.name)) .refused := by
        simp [next, hphase, hexecutor]
      exact quiet_of_writing hthread hphase hnext hfrom (by simp) rfl
    | some executor =>
      have hnext : self.next w t = .writing (.Scheduled self.local_node_id) .accepted := by
        simp [next, hphase, hexecutor]
      exact quiet_of_writing hthread hphase hnext hfrom (by simp) trivial
  | writing state after =>
    have hgo : self.go k w = { self with
        threads := self.threads.set k ⟨t.job, .emitting state after⟩
        jobs := self.jobs.insert t.job.id state } := by
      simp [go, hthread, next, hphase]
    rw [hgo]
    exact .wrote hphase
  | emitting state after =>
    have hgo : self.go k w = { self with
        threads := self.threads.set k ⟨t.job, after.phase⟩
        emitted := self.emitted ++ [(t.job.id, state)] } := by
      simp [go, hthread, next, hphase]
    rw [hgo]
    exact .emitted hphase
  | accepted =>
    have hnext : self.next w t = .spawned := by simp [next, hphase]
    apply quiet_of hthread hphase hnext
    all_goals simp [Phase.Emitting, Phase.Done]
  | spawned =>
    have hfrom : ¬ (.spawned : Phase World).Emitting ∧ ¬ (.spawned : Phase World).Done := by
      simp [Phase.Emitting, Phase.Done]
    cases hexecutor : self.executor t.job.name with
    | none =>
      have hnext : self.next w t = .writing (.Failed (.NoJobExecutorFound t.job.name)) .ended := by
        simp [next, hphase, hexecutor]
      exact quiet_of_writing hthread hphase hnext hfrom (by simp) rfl
    | some executor =>
      have hnext : self.next w t =
          .writing (.Running self.local_node_id) (.calling executor) := by
        simp [next, hphase, hexecutor]
      exact quiet_of_writing hthread hphase hnext hfrom (by simp) rfl
  | calling executor =>
    by_cases hbuilds : ∃ fut, executor.Builds w t.job.args fut
    · obtain ⟨task, htask⟩ := Closure.execute_ok_iff.mpr hbuilds
      have hnext : self.next w t = .polling task := by simp [next, hphase, htask]
      apply quiet_of hthread hphase hnext
      all_goals simp [Phase.Emitting, Phase.Done]
    · have hno : ∀ fut, ¬ executor.Builds w t.job.args fut := fun fut h => hbuilds ⟨fut, h⟩
      obtain ⟨payload, hpanics⟩ := Closure.execute_of_not_builds hno
      have hgo : self.go k w = { self with threads := self.threads.set k ⟨t.job, .ended⟩ } := by
        simp [go, hthread, next, hphase, hpanics]
      rw [hgo]
      exact .panicked hphase hno
  | polling future =>
    have hfrom : ¬ (.polling future : Phase World).Emitting ∧
        ¬ (.polling future : Phase World).Done := by
      simp [Phase.Emitting, Phase.Done]
    rcases future with payload | error | value
    · have hnext : self.next w t =
          .writing (.Failed (.Panicked (extract_panic_message payload))) .ended := by
        simp [next, hphase]
      exact quiet_of_writing hthread hphase hnext hfrom (by simp) rfl
    · have hnext : self.next w t = .writing (.Failed (.ExecutionError error)) .ended := by
        simp [next, hphase]
      exact quiet_of_writing hthread hphase hnext hfrom (by simp) rfl
    · have hnext : self.next w t = .writing (.Completed value) .ended := by simp [next, hphase]
      exact quiet_of_writing hthread hphase hnext hfrom (by simp) rfl
  | refused => exact still_of hthread (by simp [next, hphase]) hphase (.inl rfl)
  | ended => exact still_of hthread (by simp [next, hphase]) hphase (.inr rfl)

end Worker

end marie.worker
