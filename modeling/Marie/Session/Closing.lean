-- The task of a checkpointer and its end. The task waits at once for a change
-- of its status and for an event; when it is asked to close, it takes the
-- events that are left. The task holds a sender of its own queue, so the queue
-- never ends.
import Mathlib.Logic.Relation
import Marie.Session.Checkpointer

namespace marie.session

open Program

/-! ## The task -/

inductive SessionCheckpointerStatus
  | Initialising
  | Running
  | Closing
  | Closed
deriving DecidableEq

/-- Where the task is. In `select!` a branch whose pattern did not match is off until the next
round. -/
inductive TaskPhase
  | spawned
  | select (watching : Bool)
  | draining
  | returned
  | panicked
deriving DecidableEq

/-- The task of a checkpointer: `fresh` says that the `WatchStream` has not given the status yet,
and `handles` counts the senders of the queue that others hold. -/
structure CheckpointerTask where
  status : SessionCheckpointerStatus
  fresh : Bool
  queue : List SessionCheckpointEvent
  handles : Nat
  phase : TaskPhase
  state : State
  handled : List SessionCheckpointEvent
  flushed : Bool

namespace CheckpointerTask

/-- The senders of the queue: the task has one in `self` as long as it runs. -/
def senders (t : CheckpointerTask) : Nat :=
  t.handles + match t.phase with
    | .returned | .panicked => 0
    | _ => 1

/-- `close` asks for the end; then it waits for `Closed`. -/
def close (t : CheckpointerTask) : CheckpointerTask :=
  { t with status := .Closing, fresh := true }

variable (self : SessionCheckpointer)

/-- The task after `process_event` on the first event of the queue. -/
def processed (t : CheckpointerTask) (event : SessionCheckpointEvent)
    (queue : List SessionCheckpointEvent) (phase : TaskPhase) : CheckpointerTask :=
  { t with
    queue
    state := self.step t.state event
    handled := t.handled ++ [event]
    phase := if self.panics t.state event then .panicked else phase }

/-- `process_event` returns an error. -/
def failsOn (s : State) (event : SessionCheckpointEvent) : Bool :=
  match (exec (self.process_event event) s).1 with
  | .error (.error _) => true
  | _ => false

/-- What `run` does after its loop. -/
def finish (t : CheckpointerTask) : CheckpointerTask :=
  { t with flushed := true, status := .Closed, fresh := true, phase := .returned }

/-- A step of the task. -/
inductive Step : CheckpointerTask → CheckpointerTask → Prop
  /-- `run` begins. -/
  | start (t : CheckpointerTask) : t.phase = .spawned →
      Step t { t with status := .Running, fresh := true, phase := .select true }
  /-- The stream gives a status other than `Closing`: the pattern does not match. -/
  | ignore (t : CheckpointerTask) : t.phase = .select true → t.fresh = true →
      t.status ≠ .Closing → Step t { t with fresh := false, phase := .select false }
  | notice (t : CheckpointerTask) : t.phase = .select true → t.fresh = true →
      t.status = .Closing → Step t { t with fresh := false, phase := .draining }
  /-- An event in the loop; its result is dropped. -/
  | receive (t : CheckpointerTask) (watching : Bool) (event : SessionCheckpointEvent)
      (queue : List SessionCheckpointEvent) : t.phase = .select watching →
      t.queue = event :: queue → Step t (t.processed self event queue (.select true))
  /-- An event in `close_and_process_remaining_events`, that succeeds. -/
  | drain (t : CheckpointerTask) (event : SessionCheckpointEvent)
      (queue : List SessionCheckpointEvent) : t.phase = .draining → t.queue = event :: queue →
      failsOn self t.state event = false → Step t (t.processed self event queue .draining)
  /-- An event in `close_and_process_remaining_events`, that fails: the `?` ends the loop. -/
  | abort (t : CheckpointerTask) (event : SessionCheckpointEvent)
      (queue : List SessionCheckpointEvent) : t.phase = .draining → t.queue = event :: queue →
      failsOn self t.state event = true →
      Step t (t.processed self event queue .draining).finish
  /-- `recv` gives `None`: the queue is empty and no one can send to it. -/
  | ended (t : CheckpointerTask) : t.phase = .draining → t.queue = [] → t.senders = 0 →
      Step t t.finish

def Reaches : CheckpointerTask → CheckpointerTask → Prop := Relation.ReflTransGen (Step self)

/-- The task waits for ever, or it is over. -/
def Stuck (t : CheckpointerTask) : Prop := ∀ t', ¬ Step self t t'

/-- From the call of `close`, every way the task can go handles the events of the queue in order,
flushes the session and ends with `Closed`, and none waits in `Closing` with an empty queue. -/
structure DrainsAndStops (ckp : SessionCheckpointer) (t : CheckpointerTask) : Prop where
  ends : ∀ t', Reaches ckp t.close t' → Stuck ckp t' →
    t'.status = .Closed ∧ t'.flushed = true ∧ t'.handled = t.handled ++ t.queue
  no_wait : ∀ t', Reaches ckp t.close t' → t'.status = .Closing → t'.queue = [] →
    ¬ Stuck ckp t'

/-- The last event of the queue, and no event before it, fails. -/
def FailsAtLast (s : State) : List SessionCheckpointEvent → Prop
  | [] => False
  | event :: queue =>
    if failsOn self s event then queue = []
    else self.panics s event = false ∧ FailsAtLast (self.step s event) queue

/-! ## Tasks that wait for ever -/

section Waits

variable {t : CheckpointerTask}

theorem stuck_of_drained (hphase : t.phase = .draining) (hqueue : t.queue = []) : Stuck self t := by
  intro t' h
  cases h with
  | ended _ _ hnone =>
    -- the task itself is a sender
    simp [senders, hphase] at hnone
  | _ => simp_all

theorem stuck_of_off (hphase : t.phase = .select false) (hqueue : t.queue = []) : Stuck self t := by
  intro t' h
  cases h <;> simp_all

theorem stuck_of_over (hphase : t.phase = .returned ∨ t.phase = .panicked) : Stuck self t := by
  intro t' h
  rcases hphase with hphase | hphase <;> cases h <;> simp_all

/-- The loop may take every event before it looks at the status. -/
theorem reaches_empty (watching : Bool) (hphase : t.phase = .select watching) :
    ∃ t', Reaches self t t' ∧ t'.status = t.status ∧ t'.fresh = t.fresh ∧
      (t'.phase = .panicked ∨ (t'.queue = [] ∧ ∃ w, t'.phase = .select w)) := by
  generalize hq : t.queue = queue
  induction queue generalizing t watching with
  | nil => exact ⟨t, .refl, rfl, rfl, .inr ⟨hq, watching, hphase⟩⟩
  | cons event queue ih =>
    have hstep : Step self t (t.processed self event queue (.select true)) :=
      .receive t watching event queue hphase hq
    cases hp : self.panics t.state event with
    | true =>
      refine ⟨_, .single hstep, rfl, rfl, .inl ?_⟩
      simp [processed, hp]
    | false =>
      obtain ⟨t', hreach, hstatus, hfresh, hend⟩ := ih (t := t.processed self event queue (.select true))
        true (by simp [processed, hp]) rfl
      exact ⟨t', .head hstep hreach, hstatus, hfresh, hend⟩

/-- From the loop, the task may come to wait for ever. -/
theorem reaches_stuck (watching : Bool) (hphase : t.phase = .select watching)
    (hstatus : t.status ≠ .Closed) :
    ∃ t', Reaches self t t' ∧ Stuck self t' ∧ t'.status ≠ .Closed := by
  obtain ⟨t', hreach, hs, -, hend⟩ := reaches_empty self watching hphase
  have hs' : t'.status ≠ .Closed := by rwa [hs]
  rcases hend with hpanic | ⟨hqueue, w, hw⟩
  · exact ⟨t', hreach, stuck_of_over self (.inr hpanic), hs'⟩
  · by_cases hon : w = true ∧ t'.fresh = true
    · obtain ⟨rfl, hfresh⟩ := hon
      by_cases hclosing : t'.status = .Closing
      · exact ⟨_, hreach.tail (.notice t' hw hfresh hclosing),
          stuck_of_drained self rfl hqueue, hs'⟩
      · exact ⟨_, hreach.tail (.ignore t' hw hfresh hclosing), stuck_of_off self rfl hqueue, hs'⟩
    · refine ⟨t', hreach, ?_, hs'⟩
      intro t'' hstep
      cases hstep <;> simp_all

/-- The drain loop, when the failure of an event does not come at the end. -/
theorem drains_badly (hphase : t.phase = .draining) (hstatus : t.status = .Closing)
    (hfail : ¬ FailsAtLast self t.state t.queue) :
    ∃ t', Reaches self t t' ∧ Stuck self t' ∧
      ¬ (t'.status = .Closed ∧ t'.handled = t.handled ++ t.queue) := by
  generalize hq : t.queue = queue
  rw [hq] at hfail
  induction queue generalizing t with
  | nil => exact ⟨t, .refl, stuck_of_drained self hphase hq, by simp [hstatus]⟩
  | cons event queue ih =>
    unfold FailsAtLast at hfail
    cases hf : failsOn self t.state event with
    | true =>
      rw [hf, if_pos rfl] at hfail
      refine ⟨_, .single (.abort t event queue hphase hq hf), stuck_of_over self (.inl rfl), ?_⟩
      rintro ⟨-, hall⟩
      simp only [finish, processed, List.append_cancel_left_eq, List.cons.injEq, true_and] at hall
      exact hfail hall.symm
    | false =>
      rw [hf] at hfail
      have hstep : Step self t (t.processed self event queue .draining) :=
        .drain t event queue hphase hq hf
      cases hp : self.panics t.state event with
      | true =>
        refine ⟨_, .single hstep, stuck_of_over self (.inr ?_), ?_⟩
        · simp [processed, hp]
        · simp [processed, hstatus]
      | false =>
        have hrest : ¬ FailsAtLast self (self.step t.state event) queue := fun h =>
          hfail (by simpa using ⟨hp, h⟩)
        obtain ⟨t', hreach, hstuck, hbad⟩ := ih (t := t.processed self event queue .draining)
          (by simp [processed, hp]) hstatus hrest rfl
        refine ⟨t', .head hstep hreach, hstuck, ?_⟩
        simpa [processed] using hbad

/-- The drain loop, when the last event and no other fails. -/
def DrainingWell (t₀ t : CheckpointerTask) : Prop :=
  (t.phase = .draining ∧ t.status = .Closing ∧ FailsAtLast self t.state t.queue ∧
      t.handled ++ t.queue = t₀.handled ++ t₀.queue) ∨
    (t.phase = .returned ∧ t.status = .Closed ∧ t.flushed = true ∧
      t.handled = t₀.handled ++ t₀.queue)

theorem drainingWell_step {t₀ t' : CheckpointerTask} (h : DrainingWell self t₀ t)
    (hstep : Step self t t') : DrainingWell self t₀ t' := by
  rcases h with ⟨hphase, hstatus, hfail, hall⟩ | ⟨hphase, -⟩
  · cases hstep with
    | drain event queue _ hq hf =>
      rw [hq] at hfail hall
      unfold FailsAtLast at hfail
      rw [hf] at hfail
      obtain ⟨hp, hrest⟩ : _ ∧ _ := by simpa using hfail
      refine .inl ⟨by simp [processed, hp], hstatus, hrest, ?_⟩
      simpa [processed] using hall
    | abort event queue _ hq hf =>
      rw [hq] at hfail hall
      unfold FailsAtLast at hfail
      rw [hf, if_pos rfl] at hfail
      subst hfail
      exact .inr ⟨rfl, rfl, rfl, hall⟩
    | ended _ hq => simp [hq, FailsAtLast] at hfail
    | _ => simp_all
  · exact absurd hstep (stuck_of_over self (.inl hphase) t')

theorem drainingWell_reaches {t₀ t' : CheckpointerTask} (h : DrainingWell self t₀ t)
    (hreach : Reaches self t t') : DrainingWell self t₀ t' := by
  induction hreach with
  | refl => exact h
  | tail _ hstep ih => exact drainingWell_step self ih hstep

theorem FailsAtLast.not_stuck (hphase : t.phase = .draining)
    (h : FailsAtLast self t.state t.queue) : ¬ Stuck self t := by
  intro hstuck
  cases hq : t.queue with
  | nil =>
    rw [hq] at h
    exact h
  | cons event queue =>
    cases hf : failsOn self t.state event with
    | true => exact hstuck _ (.abort t event queue hphase hq hf)
    | false => exact hstuck _ (.drain t event queue hphase hq hf)

end Waits

/-- A call of `close` ends as it should only when it comes a second time, while the task drains
its queue already, and when of the events left there the last one fails and no other. The first
call, before the task runs or while it is in its loop, may always leave the task waiting for
ever. -/
theorem drains_and_stops_iff (t : CheckpointerTask) :
    DrainsAndStops self t ↔ t.phase = .draining ∧ FailsAtLast self t.state t.queue := by
  constructor
  · intro h
    -- a task that may end in another status than `Closed` does not stop as it should
    have hend : ∀ t', Reaches self t.close t' → Stuck self t' → t'.status = .Closed :=
      fun t' hreach hstuck => (h.ends t' hreach hstuck).1
    cases hphase : t.phase with
    | spawned =>
      have hstart : Step self t.close { t.close with
          status := .Running, fresh := true, phase := .select true } := .start t.close hphase
      obtain ⟨t', hreach, hstuck, hno⟩ := reaches_stuck self (t := { t.close with
        status := .Running, fresh := true, phase := .select true }) true rfl (by simp)
      exact absurd (hend t' (.head hstart hreach) hstuck) hno
    | select watching =>
      obtain ⟨t', hreach, hstuck, hno⟩ := reaches_stuck self (t := t.close) watching hphase
        (by simp [close])
      exact absurd (hend t' hreach hstuck) hno
    | returned => cases hend t.close .refl (stuck_of_over self (.inl hphase))
    | panicked => cases hend t.close .refl (stuck_of_over self (.inr hphase))
    | draining =>
      refine ⟨rfl, ?_⟩
      by_contra hfail
      obtain ⟨t', hreach, hstuck, hbad⟩ := drains_badly self (t := t.close) hphase rfl hfail
      obtain ⟨hclosed, -, hall⟩ := h.ends t' hreach hstuck
      exact hbad ⟨hclosed, hall⟩
  · rintro ⟨hphase, hfail⟩
    have hwell : DrainingWell self t t.close := .inl ⟨hphase, rfl, hfail, rfl⟩
    constructor
    · intro t' hreach hstuck
      rcases drainingWell_reaches self hwell hreach with ⟨hp, -, hf, -⟩ | ⟨-, hend⟩
      · exact absurd hstuck (FailsAtLast.not_stuck self hp hf)
      · exact hend
    · intro t' hreach hclosing hqueue hstuck
      rcases drainingWell_reaches self hwell hreach with ⟨-, -, hf, -⟩ | ⟨-, hclosed, -⟩
      · rw [hqueue] at hf
        exact hf
      · rw [hclosing] at hclosed
        cases hclosed

/-- A task in its loop, with nothing to do. -/
def idleTask : CheckpointerTask where
  status := .Running
  fresh := false
  queue := []
  handles := 1
  phase := .select true
  state := State.new ⟨0⟩ FrameTree.new []
  handled := []
  flushed := false

/-- It is asked to close, and waits in `Closing` with an empty queue. -/
theorem an_idle_task_never_closes :
    (∃ t', Reaches (plain false) idleTask.close t' ∧ t'.status = .Closing ∧ t'.queue = [] ∧
      Stuck (plain false) t') ∧ ¬ DrainsAndStops (plain false) idleTask := by
  have hreach : Reaches (plain false) idleTask.close
      { idleTask.close with fresh := false, phase := .draining } :=
    .single (.notice _ rfl rfl rfl)
  have hstuck : Stuck (plain false)
      { idleTask.close with fresh := false, phase := .draining } :=
    stuck_of_drained (plain false) rfl rfl
  refine ⟨⟨_, hreach, rfl, rfl, hstuck⟩, ?_⟩
  intro h
  exact h.no_wait _ hreach rfl rfl hstuck

end CheckpointerTask

end marie.session
