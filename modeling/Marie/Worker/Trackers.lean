-- A job that has terminated keeps its state exactly as long as no event writes
-- another one: nothing in the client looks at the state that it writes over.
import Marie.Lib.Runs
import Marie.Worker.Client

open Std (ExtTreeMap)

namespace marie.worker

open Runs
open session (JobInstance JobState)

variable {c : Client} {e : Event} {id : JobId} {state : State} {info : JobInfo} {i : Nat}

/-! ## What an event writes -/

/-- The state that an event writes, and the job that it writes it for. The check of a probe and the
check of a timer write nothing. -/
def Client.writes (c : Client) : Event → Option (JobId × State)
  | .update id state => if c.handling.isNone then some (id, state) else none
  | .resume => c.handling
  | .go i =>
    match c.tasks[i]? with
    | some (.watch id initial) => some (id, initial)
    | some (.schedule_job instance_ worker) => some (instance_.id, .PendingAck worker)
    | some (.probing id worker) => some (id, .Probing worker)
    | _ => none
  | .scheduled i reply =>
    match c.tasks[i]? with
    | some (.scheduling id worker) => some (id, Client.scheduled_state worker reply)
    | _ => none
  | .probed i reply =>
    match c.tasks[i]?, reply with
    | some (.awaiting id), .ok (.ok state) => some (id, state)
    | _, _ => none
  | _ => none

/-- A job that has terminated is written the state that it has, or nothing. -/
def Client.Respects (c : Client) (e : Event) : Prop :=
  ∀ id state info, c.writes e = some (id, state) → c.trackers[id]? = some info →
    info.state.has_terminated = true → state = info.state

/-- What a write leaves of a tracker. -/
def JobInfo.written (info : JobInfo) (state : State) : JobInfo :=
  { info with state, listener := info.listener.send state }

theorem handle_job_state_eq (c : Client) (id : JobId) (state : State) : ∃ tasks,
    c.handle_job_state id state = { c with
      trackers := match c.trackers[id]? with
        | none => c.trackers
        | some info => c.trackers.insert id (info.written state)
      tasks := c.tasks ++ tasks } := by
  rw [Client.handle_job_state]
  cases c.trackers[id]? with
  | none => exact ⟨[], by simp⟩
  | some info =>
    cases state with
    | PendingScheduling instance_ worker => exact ⟨_, rfl⟩
    | Probing worker => exact ⟨_, rfl⟩
    | Scheduled worker => exact ⟨_, rfl⟩
    | Running worker => exact ⟨_, rfl⟩
    | _ => exact ⟨[], by simp [JobInfo.written, Client.unawaited]⟩

theorem handle_job_state_trackers (c : Client) (id id' : JobId) (state : State) :
    (c.handle_job_state id state).trackers[id']? =
      if id = id' then c.trackers[id']?.map (·.written state) else c.trackers[id']? := by
  obtain ⟨tasks, heq⟩ := handle_job_state_eq c id state
  rw [heq]
  by_cases h : id = id'
  · subst h
    rw [if_pos rfl]
    cases hinfo : c.trackers[id]? <;> simp [hinfo]
  · rw [if_neg h]
    cases hinfo : c.trackers[id]? with
    | none => rfl
    | some info => exact OrderedMap.get_insert_of_ne (Ne.symm h)

theorem handle_job_state_streams (c : Client) (id : JobId) (state : State) :
    (c.handle_job_state id state).streams = c.streams := by
  obtain ⟨tasks, heq⟩ := handle_job_state_eq c id state
  rw [heq]

/-- A `probe_state` of the job that has not ended. -/
def Task.probes (id : JobId) : Task → Bool
  | .probe_state id' _ | .probing id' _ | .awaiting id' => id' = id
  | _ => false

/-- The parts of the client that only a write, a spawn or a stream changes. A task that goes on may
have another place, but it probes no other job. -/
structure Client.Same (c c' : Client) : Prop where
  trackers : c'.trackers = c.trackers
  timers : c'.timers = c.timers
  streams : c'.streams = c.streams
  tasks : ∀ task ∈ c'.tasks, ∀ id, task.probes id = true → ∃ old ∈ c.tasks, old.probes id = true

theorem Client.same_handling (c : Client) (handling : Option (JobId × State)) :
    c.Same { c with handling } :=
  ⟨rfl, rfl, rfl, fun task htask _ hprobes => ⟨task, htask, hprobes⟩⟩

theorem Client.same_erase (c : Client) (i : Nat) : c.Same { c with tasks := c.tasks.eraseIdx i } :=
  ⟨rfl, rfl, rfl, fun task htask _ hprobes => ⟨task, List.mem_of_mem_eraseIdx htask, hprobes⟩⟩

theorem Client.same_set {task task' : Task} (htask : c.tasks[i]? = some task)
    (hprobes : ∀ id, task'.probes id = true → task.probes id = true) :
    c.Same { c with tasks := c.tasks.set i task' } := by
  refine ⟨rfl, rfl, rfl, fun t ht id h => ?_⟩
  rcases List.mem_or_eq_of_mem_set ht with hin | rfl
  · exact ⟨t, hin, h⟩
  · exact ⟨task, List.mem_of_getElem? htask, hprobes id h⟩

/-- The event handles the state that it writes. -/
def Client.Handles (c : Client) (e : Event) : Prop :=
  ∃ c' id state, c.writes e = some (id, state) ∧ c.Same c' ∧
    c.step e = c'.handle_job_state id state

/-- The event writes nothing, and changes tasks only. -/
def Client.Leaves (c : Client) (e : Event) : Prop := c.writes e = none ∧ c.Same (c.step e)

theorem go_cases (c : Client) (i : Nat) : c.Handles (.go i) ∨ c.Leaves (.go i) := by
  have hself : c.Same c := c.same_handling c.handling
  unfold Client.Handles Client.Leaves
  rw [Client.step, Client.go, Client.writes]
  cases htask : c.tasks[i]? with
  | none => exact .inr ⟨rfl, hself⟩
  | some task =>
    cases task with
    | watch id initial => exact .inl ⟨_, _, _, rfl, c.same_erase i, rfl⟩
    | schedule_job instance_ worker =>
      refine .inl ⟨{ c with tasks := c.tasks.set i (.scheduling instance_.id worker) }, _, _, rfl,
        Client.same_set htask ?_, rfl⟩
      intro _ h
      cases h
    | probing id worker =>
      exact .inl ⟨{ c with tasks := c.tasks.set i (.awaiting id) }, _, _, rfl,
        Client.same_set htask fun _ h => h, rfl⟩
    | probe_state id worker =>
      refine .inr ⟨rfl, ?_⟩
      dsimp only
      split
      · exact c.same_erase i
      · split
        · exact c.same_erase i
        · exact Client.same_set htask fun _ h => h
    | scheduling id worker => exact .inr ⟨rfl, hself⟩
    | awaiting id => exact .inr ⟨rfl, hself⟩

theorem scheduled_cases (c : Client) (i : Nat) (reply : Client.Reply Unit) :
    c.Handles (.scheduled i reply) ∨ c.Leaves (.scheduled i reply) := by
  have hself : c.Same c := c.same_handling c.handling
  unfold Client.Handles Client.Leaves
  rw [Client.step, Client.scheduled, Client.writes]
  cases htask : c.tasks[i]? with
  | none => exact .inr ⟨rfl, hself⟩
  | some task =>
    cases task with
    | scheduling id worker => exact .inl ⟨_, _, _, rfl, c.same_erase i, rfl⟩
    | _ => exact .inr ⟨rfl, hself⟩

theorem probed_cases (c : Client) (i : Nat) (reply : Client.Reply State) :
    c.Handles (.probed i reply) ∨ c.Leaves (.probed i reply) := by
  have hself : c.Same c := c.same_handling c.handling
  unfold Client.Handles Client.Leaves Client.step Client.probed Client.writes
  dsimp only
  cases htask : c.tasks[i]? with
  | none => exact .inr ⟨rfl, hself⟩
  | some task =>
    cases task with
    | awaiting id =>
      rcases reply with error | error | state
      · exact .inr ⟨rfl, c.same_erase i⟩
      · exact .inr ⟨rfl, c.same_erase i⟩
      · exact .inl ⟨_, _, _, rfl, c.same_erase i, rfl⟩
    | _ => exact .inr ⟨rfl, hself⟩

/-- An event handles the state that it writes. One that writes nothing spawns, makes a stream or
polls one, or changes tasks only. -/
theorem step_cases (c : Client) (e : Event) :
    (∃ c' id state, c.writes e = some (id, state) ∧ c.Same c' ∧
      c.step e = c'.handle_job_state id state) ∨
      (c.writes e = none ∧ ((∃ instance_ worker, e = .spawn instance_ worker) ∨
        (∃ id, e = .listen id) ∨ (∃ i, e = .poll i) ∨ c.Same (c.step e))) := by
  have hself : c.Same c := c.same_handling c.handling
  have hleaves : c.Leaves e → c.writes e = none ∧ ((∃ instance_ worker, e = .spawn instance_ worker) ∨
      (∃ id, e = .listen id) ∨ (∃ i, e = .poll i) ∨ c.Same (c.step e)) :=
    fun h => ⟨h.1, .inr (.inr (.inr h.2))⟩
  cases e with
  | spawn instance_ worker => exact .inr ⟨rfl, .inl ⟨_, _, rfl⟩⟩
  | listen id => exact .inr ⟨rfl, .inr (.inl ⟨_, rfl⟩)⟩
  | poll i => exact .inr ⟨rfl, .inr (.inr (.inl ⟨_, rfl⟩))⟩
  | update id state =>
    cases h : c.handling with
    | none => exact .inl ⟨c, id, state, by simp [Client.writes, h], hself, by simp [Client.step, h]⟩
    | some p =>
      refine .inr (hleaves ⟨by simp [Client.writes, h], ?_⟩)
      rw [Client.step, h]
      exact hself
  | timer event =>
    refine .inr (hleaves ⟨rfl, ?_⟩)
    rw [Client.step]
    split
    · exact c.same_handling _
    · exact hself
  | resume =>
    cases h : c.handling with
    | none =>
      refine .inr (hleaves ⟨h, ?_⟩)
      rw [Client.step, h]
      exact hself
    | some p =>
      refine .inl ⟨{ c with handling := none }, p.1, p.2, h, c.same_handling none, ?_⟩
      rw [Client.step, h]
  | go i => exact (go_cases c i).imp_right hleaves
  | scheduled i reply => exact (scheduled_cases c i reply).imp_right hleaves
  | probed i reply => exact (probed_cases c i reply).imp_right hleaves

theorem spawn_trackers (instance_ : JobInstance) (worker : String) (hinfo : c.trackers[id]? = some info) :
    (c.spawn instance_ worker).trackers[id]? = some info := by
  rw [Client.spawn]
  cases hnew : c.trackers[instance_.id]? with
  | some _ => exact hinfo
  | none =>
    dsimp only
    rw [OrderedMap.get_insert_of_ne, hinfo]
    rintro rfl
    rw [hnew] at hinfo
    cases hinfo

theorem poll_trackers (c : Client) (i : Nat) : (c.poll i).trackers = c.trackers := by
  rw [Client.poll]
  split
  · rfl
  · split <;> rfl

theorem listen_trackers (c : Client) (id : JobId) : (c.step (.listen id)).trackers = c.trackers := by
  rw [Client.step]
  cases c.trackers[id]? <;> rfl

/-- An event leaves a tracked job what it writes for it, and what it had when it writes nothing. -/
theorem step_tracker (e : Event) (hinfo : c.trackers[id]? = some info) :
    (∃ state, c.writes e = some (id, state) ∧ (c.step e).trackers[id]? = some (info.written state)) ∨
      ((∀ state, c.writes e ≠ some (id, state)) ∧ (c.step e).trackers[id]? = some info) := by
  rcases step_cases c e with ⟨c', id', state, hwrites, hsame, hstep⟩ | ⟨hnone, hcases⟩
  · rw [hstep, handle_job_state_trackers, hsame.trackers, hinfo, hwrites]
    by_cases h : id' = id
    · subst h
      exact .inl ⟨state, rfl, by simp⟩
    · exact .inr ⟨fun state' heq => h (by cases heq; rfl), by simp [h]⟩
  · refine .inr ⟨by simp [hnone], ?_⟩
    rcases hcases with ⟨instance_, worker, rfl⟩ | ⟨id', rfl⟩ | ⟨i, rfl⟩ | hsame
    · exact spawn_trackers instance_ worker hinfo
    · rw [listen_trackers, hinfo]
    · change (c.poll i).trackers[id]? = _
      rw [poll_trackers, hinfo]
    · rw [hsame.trackers, hinfo]

/-! ## What a stream heard -/

/-- What a stream took of the channel of its job. -/
structure Listener.Hears (s : Listener) (info : JobInfo) : Prop where
  channel : info.listener.value = info.state
  seen : ∀ v, s.seen = some v → v ≤ info.listener.version
  current : s.ended = false → s.seen = some info.listener.version → info.state.has_terminated = false
  waiting : s.ended = false → s.observed.filter JobState.has_terminated = []
  finished : s.ended = true → s.observed.filter JobState.has_terminated = [info.state]

variable {s : Listener}

theorem Listener.Hears.terminated (h : s.Hears info) (hended : s.ended = true) :
    info.state.has_terminated = true := by
  have hmem : info.state ∈ s.observed.filter JobState.has_terminated := by
    rw [h.finished hended]
    exact List.mem_singleton_self _
  exact (List.mem_filter.mp hmem).2

/-- A write that leaves a job that has terminated its state. -/
theorem Listener.Hears.written (h : s.Hears info)
    (hrespects : info.state.has_terminated = true → state = info.state) :
    s.Hears (info.written state) where
  channel := rfl
  seen v hv := (h.seen v hv).trans (Nat.le_succ _)
  current _ hseen := by
    have := h.seen _ hseen
    exact absurd this (by simp [JobInfo.written, Watch.send])
  waiting := h.waiting
  finished hended := by rw [h.finished hended, ← hrespects (h.terminated hended)]; rfl

/-- A stream that is polled takes the state of its job, and ends if it has terminated. -/
theorem Listener.Hears.take (h : s.Hears info) :
    (s.take info.listener).Hears info ∧
      (info.state.has_terminated = true → (s.take info.listener).ended = true) := by
  rw [Listener.take]
  by_cases hskip : s.ended = true ∨ s.seen = some info.listener.version
  · rw [if_pos hskip]
    refine ⟨h, fun hterminated => ?_⟩
    rcases hskip with hended | hseen
    · exact hended
    · cases hended : s.ended with
      | true => rfl
      | false =>
        rw [h.current hended hseen] at hterminated
        cases hterminated
  · rw [if_neg hskip]
    have hended : s.ended = false := by
      cases hended : s.ended with
      | true => exact absurd (.inl hended) hskip
      | false => rfl
    have hwaiting := h.waiting hended
    refine ⟨⟨h.channel, ?_, ?_, ?_, ?_⟩, fun hterminated => by rw [h.channel]; exact hterminated⟩
    · rintro v hv
      exact (Option.some.inj hv).ge
    · intro hended' _
      rw [← h.channel]
      exact hended'
    · intro hended'
      simp only at hended'
      rw [List.filter_append, hwaiting, List.filter_cons_of_neg (by rw [hended']; decide)]
      rfl
    · intro hended'
      simp only at hended'
      rw [List.filter_append, hwaiting, List.filter_cons_of_pos hended', h.channel]
      rfl

/-- Every stream is of a tracked job, and hears it. -/
def Client.Hearing (c : Client) : Prop :=
  ∀ s ∈ c.streams, ∃ info, c.trackers[s.job_id]? = some info ∧ s.Hears info

/-- The channel of a job holds its state. -/
def Client.Sends (c : Client) : Prop :=
  ∀ (id : JobId) (info : JobInfo), c.trackers[id]? = some info → info.listener.value = info.state

theorem hearing_step (h : c.Hearing) (hchannels : c.Sends) (hrespects : c.Respects e) :
    (c.step e).Hearing := by
  -- A stream that was there before hears what the event left of its job.
  have hold : ∀ s ∈ c.streams, ∃ info, (c.step e).trackers[s.job_id]? = some info ∧ s.Hears info := by
    intro s hs
    obtain ⟨info, hinfo, hhears⟩ := h s hs
    rcases step_tracker e hinfo with ⟨state, hwrites, hnext⟩ | ⟨-, hnext⟩
    · exact ⟨_, hnext, hhears.written (hrespects _ _ _ hwrites hinfo)⟩
    · exact ⟨info, hnext, hhears⟩
  rcases step_cases c e with ⟨c', id', state, -, hsame, hstep⟩ | ⟨-, hcases⟩
  · intro s hs
    rw [hstep, handle_job_state_streams, hsame.streams] at hs
    exact hold s hs
  · rcases hcases with ⟨instance_, worker, rfl⟩ | ⟨id', rfl⟩ | ⟨i, rfl⟩ | hsame
    · intro s hs
      refine hold s ?_
      change s ∈ (c.spawn instance_ worker).streams at hs
      rw [Client.spawn] at hs
      split at hs <;> exact hs
    · intro s hs
      rw [Client.step] at hs
      cases hinfo : c.trackers[id']? with
      | none =>
        rw [hinfo] at hs
        exact hold s hs
      | some info =>
        rw [hinfo] at hs
        rcases List.mem_append.mp hs with hs | hs
        · exact hold s hs
        · rw [List.mem_singleton.mp hs, listen_trackers]
          exact ⟨info, hinfo, hchannels _ _ hinfo, by simp, by simp, by simp, by simp⟩
    · intro s hs
      change s ∈ (c.poll i).streams at hs
      change ∃ info, (c.poll i).trackers[s.job_id]? = some info ∧ _
      rw [poll_trackers]
      rw [Client.poll] at hs
      split at hs
      · exact h s hs
      · rename_i stream hstream
        split at hs
        · exact h s hs
        · rename_i info hinfo
          rcases List.mem_or_eq_of_mem_set hs with hs | rfl
          · exact h s hs
          · obtain ⟨info', hinfo', hhears⟩ := h stream (List.mem_of_getElem? hstream)
            rw [hinfo] at hinfo'
            cases hinfo'
            refine ⟨info, ?_, hhears.take.1⟩
            rw [← hinfo, Listener.take]
            split <;> rfl
    · intro s hs
      rw [hsame.streams] at hs
      exact hold s hs

/-- A tracker has what was written for it, or is as it was, or is a new one. -/
theorem tracker_cases (hinfo : (c.step e).trackers[id]? = some info) :
    (∃ old state, c.trackers[id]? = some old ∧ c.writes e = some (id, state) ∧
      info = old.written state) ∨ c.trackers[id]? = some info ∨
      info = ⟨id, .Unknown, ⟨.Unknown, 0⟩⟩ := by
  cases hold : c.trackers[id]? with
  | some old =>
    rcases step_tracker e hold with ⟨state, hwrites, hnext⟩ | ⟨-, hnext⟩
    · rw [hnext] at hinfo
      exact .inl ⟨old, state, rfl, hwrites, (Option.some.inj hinfo).symm⟩
    · rw [hnext] at hinfo
      exact .inr (.inl hinfo)
  | none =>
    right; right
    rcases step_cases c e with ⟨c', id', state, -, hsame, hstep⟩ | ⟨-, hcases⟩
    · rw [hstep, handle_job_state_trackers, hsame.trackers, hold] at hinfo
      simp at hinfo
    · rcases hcases with ⟨instance_, worker, rfl⟩ | ⟨id', rfl⟩ | ⟨i, rfl⟩ | hsame
      · change (c.spawn instance_ worker).trackers[id]? = _ at hinfo
        rw [Client.spawn] at hinfo
        split at hinfo
        · rw [hold] at hinfo
          cases hinfo
        · by_cases hid : id = instance_.id
          · subst hid
            simpa using hinfo.symm
          · rw [OrderedMap.get_insert_of_ne hid, hold] at hinfo
            cases hinfo
      · rw [listen_trackers, hold] at hinfo
        cases hinfo
      · change (c.poll i).trackers[id]? = _ at hinfo
        rw [poll_trackers, hold] at hinfo
        cases hinfo
      · rw [hsame.trackers, hold] at hinfo
        cases hinfo

theorem sends_step (h : c.Sends) (e : Event) : (c.step e).Sends := by
  intro id info hinfo
  rcases tracker_cases hinfo with ⟨old, state, -, -, rfl⟩ | hold | rfl
  · rfl
  · exact h id info hold
  · rfl

/-! ## Runs -/

theorem run_concat (events : List Event) (e : Event) :
    Client.run (events ++ [e]) = (Client.run events).step e := by
  rw [Client.run, List.foldl_append]
  rfl

/-- A job that had terminated has kept its state, every stream of it took at most one state that
has terminated, the job's own, and one that is polled has then taken exactly this one. -/
structure Settled (events : List Event) : Prop where
  absorbing : ∀ earlier, earlier <+: events → ∀ (id : JobId) (info : JobInfo),
    (Client.run earlier).trackers[id]? = some info → info.state.has_terminated = true →
      ∃ info', (Client.run events).trackers[id]? = some info' ∧ info'.state = info.state
  heard : ∀ s ∈ (Client.run events).streams, ∃ info, (Client.run events).trackers[s.job_id]? = some info ∧
    s.observed.filter JobState.has_terminated = if s.ended then [info.state] else []
  hears : ∀ (i : Nat) (s : Listener) (info : JobInfo), (Client.run events).streams[i]? = some s →
    (Client.run events).trackers[s.job_id]? = some info → info.state.has_terminated = true →
      ∃ s', ((Client.run events).poll i).streams[i]? = some s' ∧
        s'.observed.filter JobState.has_terminated = [info.state]

theorem Client.Hearing.heard (h : c.Hearing) (hs : s ∈ c.streams) :
    ∃ info, c.trackers[s.job_id]? = some info ∧
      s.observed.filter JobState.has_terminated = if s.ended then [info.state] else [] := by
  obtain ⟨info, hinfo, hhears⟩ := h s hs
  refine ⟨info, hinfo, ?_⟩
  cases hended : s.ended with
  | true => exact hhears.finished hended
  | false => exact hhears.waiting hended

theorem Client.Hearing.hears (h : c.Hearing) (hs : c.streams[i]? = some s)
    (hinfo : c.trackers[s.job_id]? = some info) (hterminated : info.state.has_terminated = true) :
    ∃ s', (c.poll i).streams[i]? = some s' ∧
      s'.observed.filter JobState.has_terminated = [info.state] := by
  obtain ⟨info', hinfo', hhears⟩ := h s (List.mem_of_getElem? hs)
  rw [hinfo] at hinfo'
  cases hinfo'
  obtain ⟨htaken, hended⟩ := hhears.take
  refine ⟨s.take info.listener, ?_, htaken.finished (hended hterminated)⟩
  have hpoll : c.poll i = { c with streams := c.streams.set i (s.take info.listener) } := by
    simp only [Client.poll, hs, hinfo]
  rw [hpoll]
  exact List.getElem?_set_self (List.getElem?_eq_some_iff.mp hs).1

/-- At every moment the jobs that have terminated are settled exactly when no event writes another
state for one of them. -/
theorem settled_iff (events : List Event) :
    EveryState Settled events ↔
      EveryStep (fun before e => (Client.run before).Respects e) events := by
  refine everyState_iff_everyStep
    (I := fun before => (Client.run before).Hearing ∧ (Client.run before).Sends) ?_ ?_ ?_
  · exact ⟨by simp [Client.Hearing, Client.run, Client.new], by simp [Client.Sends, Client.run, Client.new]⟩
  · refine ⟨?_, by simp [Client.run, Client.new], by simp [Client.run, Client.new]⟩
    intro earlier hearlier id info hinfo
    rw [List.prefix_nil.mp hearlier] at hinfo
    simp [Client.run, Client.new] at hinfo
  rintro before e - ⟨hhearing, hsends⟩ hsettled
  rw [run_concat]
  refine ⟨⟨?_, ?_⟩, fun hrespects => ⟨hearing_step hhearing hsends hrespects, sends_step hsends e⟩⟩
  · intro h id state info hwrites hinfo hterminated
    obtain ⟨info', hinfo', hstate⟩ :=
      h.absorbing before (List.prefix_append _ _) id info hinfo hterminated
    rw [run_concat] at hinfo'
    rcases step_tracker e hinfo with ⟨state', hwrites', hnext⟩ | ⟨hno, -⟩
    · rw [hwrites] at hwrites'
      cases hwrites'
      rw [hnext] at hinfo'
      cases hinfo'
      exact hstate
    · exact absurd hwrites (hno state)
  · intro hrespects
    have hnext := hearing_step hhearing hsends hrespects
    refine ⟨?_, ?_, ?_⟩
    · intro earlier hearlier id info hinfo hterminated
      rcases List.prefix_concat_iff.mp hearlier with rfl | hbefore
      · exact ⟨info, hinfo, rfl⟩
      obtain ⟨info', hinfo', hstate⟩ := hsettled.absorbing earlier hbefore id info hinfo hterminated
      rw [run_concat]
      rcases step_tracker e hinfo' with ⟨state, hwrites, hwritten⟩ | ⟨-, hkept⟩
      · refine ⟨_, hwritten, ?_⟩
        rw [← hstate]
        exact hrespects id state info' hwrites hinfo' (hstate ▸ hterminated)
      · exact ⟨info', hkept, hstate⟩
    · intro s hs
      rw [run_concat] at hs ⊢
      exact hnext.heard hs
    · intro i s info hs hinfo hterminated
      rw [run_concat] at hs hinfo ⊢
      exact hnext.hears hs hinfo hterminated

/-- A job is scheduled, and probed twice. The worker has the result when it answers one probe, and
its answer to the other, given before, comes after. -/
def lateReply : List Event :=
  [.spawn ⟨⟨1⟩, "run-frame", .Null⟩ "w", .listen ⟨1⟩, .go 0, .go 0, .scheduled 0 (.ok (.ok ())),
    .go 0, .go 0, .go 1, .go 1, .probed 0 (.ok (.ok (.Completed .Null))),
    .probed 0 (.ok (.ok (.Running "w")))]

/-- The late reply writes `Running` over the result, which no stream of the job will take. -/
theorem a_late_reply_hides_the_result : ¬ EveryState Settled lateReply := by
  intro h
  have hdone : ((Client.run (lateReply.take 10)).trackers[(⟨1⟩ : JobId)]?.map
      (·.state.has_terminated)) = some true := by decide +kernel
  have hover : ((Client.run lateReply).trackers[(⟨1⟩ : JobId)]?.map
      (·.state.has_terminated)) = some false := by decide +kernel
  obtain ⟨info, hinfo, hterminated⟩ := Option.map_eq_some_iff.mp hdone
  obtain ⟨info', hinfo', hstate⟩ := (h lateReply (List.prefix_refl _)).absorbing (lateReply.take 10)
    (List.take_prefix _ _) ⟨1⟩ info hinfo hterminated
  rw [hinfo', Option.map_some, hstate, hterminated] at hover
  cases hover

end marie.worker
