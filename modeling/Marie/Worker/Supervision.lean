-- The timers that should watch over a job. The futures that would arm them are
-- dropped, so no timer is ever armed, and a job is watched over by none.
import Marie.Worker.Trackers
import Mathlib.Data.Set.Basic

open Std (ExtTreeMap)

namespace marie.worker

open Runs
open session (JobInstance JobState)

/-! ## What is asked -/

/-- The timer that watches over a job in a state. -/
def supervisor (id : JobId) : State → Option TimerEvent
  | .PendingAck _ => some (.AckTimeOut id)
  | .Probing _ => some (.ProbingTimeOut id)
  | .Scheduled _ | .Running _ => some (.Probe id)
  | _ => none

/-- The moments at which an interval ticks, in seconds after it was made: the first tick is
immediate. -/
def Timer.ticks (timer : Timer) : Set Nat := {t | ∃ k, t = k * timer.seconds}

/-- The timer fires once, and not before its delay. -/
def Timer.FiresOnce (timer : Timer) : Prop := ∃ t, timer.seconds ≤ t ∧ timer.ticks = {t}

/-- An armed timer watches over every job that waits, and a job is probed by one task at most. -/
structure Client.Supervises (c : Client) : Prop where
  armed : ∀ (id : JobId) (info : JobInfo) (event : TimerEvent), c.trackers[id]? = some info →
    supervisor id info.state = some event → ∃ timer ∈ c.timers, timer.event = event
  once : ∀ timer ∈ c.timers, timer.FiresOnce
  probes : ∀ id, c.tasks.countP (Task.probes id) ≤ 1

/-- No state that a timer should watch over is written for a tracked job. -/
def Client.LeavesUnsupervised (c : Client) (e : Event) : Prop :=
  ∀ id state, c.writes e = some (id, state) → c.trackers[id]?.isSome = true →
    supervisor id state = none

/-! ## No timer is armed -/

variable {c : Client} {e : Event} {id : JobId} {state : State} {info : JobInfo}

theorem timers_step (h : c.timers = []) : (c.step e).timers = [] := by
  rcases step_cases c e with ⟨c', id, state, -, hsame, hstep⟩ | ⟨-, hcases⟩
  · obtain ⟨tasks, heq⟩ := handle_job_state_eq c' id state
    rw [hstep, heq]
    exact hsame.timers.trans h
  · rcases hcases with ⟨instance_, worker, rfl⟩ | ⟨id, rfl⟩ | ⟨i, rfl⟩ | hsame
    · change (c.spawn instance_ worker).timers = []
      rw [Client.spawn]
      split <;> exact h
    · rw [Client.step]
      split <;> exact h
    · change (c.poll i).timers = []
      rw [Client.poll]
      split
      · exact h
      · split <;> exact h
    · exact hsame.timers.trans h

theorem timers_run (events : List Event) : (Client.run events).timers = [] := by
  induction events using List.reverseRecOn with
  | nil => rfl
  | append_singleton events e ih =>
    rw [run_concat]
    exact timers_step ih

/-- Were one armed, it would fire at once, and then again. -/
theorem interval_not_firesOnce {timer : Timer} (h : 0 < timer.seconds) : ¬ timer.FiresOnce := by
  rintro ⟨t, hdelay, hticks⟩
  have hfirst : (0 : Nat) ∈ timer.ticks := ⟨0, by simp⟩
  rw [hticks, Set.mem_singleton_iff] at hfirst
  omega

/-! ## Jobs that wait for nothing -/

/-- No tracked job is in a state that a timer should watch over, and none is probed. -/
structure Client.Idle (c : Client) : Prop where
  states : ∀ (id : JobId) (info : JobInfo), c.trackers[id]? = some info →
    supervisor id info.state = none
  tasks : ∀ task ∈ c.tasks, ∀ id, task.probes id = false

theorem Client.Idle.supervises (h : c.Idle) (htimers : c.timers = []) : c.Supervises where
  armed id info event hinfo hevent := by
    rw [h.states id info hinfo] at hevent
    cases hevent
  once := by simp [htimers]
  probes id := by
    rw [List.countP_eq_zero.mpr fun task htask => by simp [h.tasks task htask id]]
    exact Nat.zero_le _

/-- Handling a state that no timer should watch over spawns no probe. -/
theorem handle_probes (hstate : c.trackers[id]?.isSome = true → supervisor id state = none) :
    ∀ task ∈ (c.handle_job_state id state).tasks, ∀ id, task.probes id = true → task ∈ c.tasks := by
  intro task htask id' hprobes
  rw [Client.handle_job_state] at htask
  cases hinfo : c.trackers[id]? with
  | none =>
    rw [hinfo] at htask
    exact htask
  | some info =>
    rw [hinfo] at htask hstate
    cases state with
    | PendingScheduling instance_ worker =>
      rcases List.mem_append.mp htask with h | h
      · exact h
      · rw [List.mem_singleton.mp h] at hprobes
        cases hprobes
    | Unknown | Completed | Failed => exact htask
    | PendingAck | Probing | Scheduled | Running => simp [supervisor] at hstate

theorem idle_step (h : c.Idle) (hleaves : c.LeavesUnsupervised e) : (c.step e).Idle := by
  have hold : ∀ {task : Task}, task ∈ c.tasks → ∀ {id}, task.probes id = true → False := by
    intro task htask id hprobes
    rw [h.tasks task htask id] at hprobes
    cases hprobes
  refine ⟨?_, ?_⟩
  · intro id info hinfo
    rcases tracker_cases hinfo with ⟨old, state, hold, hwrites, rfl⟩ | hold | rfl
    · exact hleaves id state hwrites (by rw [hold]; rfl)
    · exact h.states id info hold
    · rfl
  · intro task htask id
    rw [Bool.eq_false_iff]
    intro hprobes
    rcases step_cases c e with ⟨c', id', state, hwrites, hsame, hstep⟩ | ⟨-, hcases⟩
    · rw [hstep] at htask
      have hin := handle_probes (fun htracked => hleaves id' state hwrites (hsame.trackers ▸ htracked))
        task htask id hprobes
      obtain ⟨old, hmem, hprobes'⟩ := hsame.tasks task hin id hprobes
      exact hold hmem hprobes'
    · rcases hcases with ⟨instance_, worker, rfl⟩ | ⟨id', rfl⟩ | ⟨i, rfl⟩ | hsame
      · change task ∈ (c.spawn instance_ worker).tasks at htask
        rw [Client.spawn] at htask
        split at htask
        · exact hold htask hprobes
        · rcases List.mem_append.mp htask with hin | hin
          · exact hold hin hprobes
          · rw [List.mem_singleton.mp hin] at hprobes
            cases hprobes
      · rw [Client.step] at htask
        split at htask <;> exact hold htask hprobes
      · change task ∈ (c.poll i).tasks at htask
        rw [Client.poll] at htask
        split at htask
        · exact hold htask hprobes
        · split at htask <;> exact hold htask hprobes
      · obtain ⟨old, hmem, hprobes'⟩ := hsame.tasks task htask id hprobes
        exact hold hmem hprobes'

/-! ## Runs -/

/-- Every job that waits has its timer, at every moment, exactly when no job ever waits. -/
theorem supervised_iff (events : List Event) :
    EveryState (fun before => (Client.run before).Supervises) events ↔
      EveryStep (fun before e => (Client.run before).LeavesUnsupervised e) events := by
  have hidle : (Client.run []).Idle := ⟨by simp [Client.run, Client.new], by simp [Client.run, Client.new]⟩
  refine everyState_iff_everyStep (I := fun before => (Client.run before).Idle) hidle
    (hidle.supervises (timers_run [])) ?_
  intro before e _ hbefore _
  rw [run_concat]
  refine ⟨⟨?_, fun hleaves => (idle_step hbefore hleaves).supervises (timers_step (timers_run before))⟩,
    idle_step hbefore⟩
  -- A state that a timer should watch over is left without one.
  intro hsupervises id state hwrites htracked
  obtain ⟨info, hinfo⟩ := Option.isSome_iff_exists.mp htracked
  rcases step_tracker e hinfo with ⟨state', hwrites', hnext⟩ | ⟨hno, -⟩
  · rw [hwrites] at hwrites'
    cases hwrites'
    cases hevent : supervisor id state with
    | none => rfl
    | some event =>
      obtain ⟨timer, htimer, -⟩ := hsupervises.armed id _ event hnext hevent
      rw [timers_step (timers_run before)] at htimer
      cases htimer
  · exact absurd hwrites (hno state)

/-- A job that is spawned, up to its `PendingAck`. -/
def firstSteps : List Event := [.spawn ⟨⟨1⟩, "run-frame", .Null⟩ "w", .go 0, .go 0]

theorem a_spawned_job_has_no_timer :
    ¬ EveryState (fun before => (Client.run before).Supervises) firstSteps := by
  intro h
  have hevent : ((Client.run firstSteps).trackers[(⟨1⟩ : JobId)]?.map
      (supervisor ⟨1⟩ ·.state)) = some (some (.AckTimeOut ⟨1⟩)) := by decide +kernel
  obtain ⟨info, hinfo, hstate⟩ := Option.map_eq_some_iff.mp hevent
  obtain ⟨timer, htimer, -⟩ := (h firstSteps (List.prefix_refl _)).armed ⟨1⟩ info _ hinfo hstate
  rw [timers_run] at htimer
  cases htimer

end marie.worker
