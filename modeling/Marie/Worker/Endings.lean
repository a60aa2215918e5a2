-- The ends of the jobs: when every executor builds its future, a job whose task has
-- ended is completed or failed, and its last event says so. A task that panics
-- before leaves its job running.
import Marie.Lib.Threads
import Marie.Worker.Server

open Closures Runs
open Std (ExtTreeMap)

namespace marie.worker

variable {World : Type} {self : Worker World} {k : Nat} {w : World} {t : Thread World}
  {id : JobId} {state : State} {p : Phase World}

namespace Worker

/-- A job whose task has ended, and that no other call is about, is completed or failed, and the
last event of it has that state. -/
def Recorded (self : Worker World) : Prop :=
  ∀ t ∈ self.threads, t.phase = .ended →
    (∀ u ∈ self.threads, u.job.id = t.job.id → u.phase.Done) →
    ∃ state, self.get_job_state t.job.id = .ok state ∧ state.has_terminated = true ∧
      self.last_update t.job.id = some state

/-- The executor of a job builds its future, and no state of a job is written between another
write of it and its event. -/
def Safe (self : Worker World) : Move World → Prop
  | .go k w => ∀ t, self.threads[k]? = some t →
      (∀ executor, t.phase = .calling executor → ∃ fut, executor.Builds w t.job.args fut) ∧
      ∀ state after, t.phase = .writing state after →
        ∀ (j : Nat) (u : Thread World), self.threads[j]? = some u → u.job.id = t.job.id →
          ¬ u.phase.Emitting
  | .register _ _ | .schedule_job _ => True

/-! ## The invariant -/

/-- No call is about the job but the one of the thread `k`. -/
def Only (self : Worker World) (id : JobId) (k : Nat) : Prop :=
  ∀ (j : Nat) (u : Thread World), self.threads[j]? = some u → u.job.id = id → j = k

structure Kept (worker : Worker World) : Prop where
  /-- Between the write and the event, the map has the state that is to be emitted. -/
  emitting : ∀ (k : Nat) (t : Thread World) (state : State) (after : After World),
    worker.threads[k]? = some t → t.phase = .emitting state after →
    worker.jobs[t.job.id]? = some state
  settled : ∀ id : JobId, (∀ (k : Nat) (t : Thread World), worker.threads[k]? = some t →
    t.job.id = id → ¬ t.phase.Emitting) →
    worker.jobs[id]? = worker.last_update id
  fits : ∀ (k : Nat) (t : Thread World) (state : State) (after : After World),
    worker.threads[k]? = some t → t.phase = .writing state after ∨ t.phase = .emitting state after →
    after.Fits worker.local_node_id state
  /-- A job that has not terminated has a thread that goes on. -/
  owed : ∀ (id : JobId) (state : State), worker.jobs[id]? = some state →
    state.has_terminated = false →
    ∃ (k : Nat) (t : Thread World), worker.threads[k]? = some t ∧ t.job.id = id ∧ ¬ t.phase.Done
  written : ∀ (k : Nat) (t : Thread World), worker.threads[k]? = some t → t.phase.Done →
    (worker.jobs[t.job.id]?).isSome
  running : ∀ (k : Nat) (t : Thread World) (executor : JobExecutor World),
    worker.threads[k]? = some t → t.phase = .calling executor → worker.Only t.job.id k →
    worker.jobs[t.job.id]? = some (.Running worker.local_node_id)

theorem Kept.recorded (h : self.Kept) : self.Recorded := by
  intro t ht hended hall
  obtain ⟨k, hk⟩ := List.mem_iff_getElem?.mp ht
  obtain ⟨state, hstate⟩ := Option.isSome_iff_exists.mp (h.written k t hk (.inr hended))
  have hdone : ∀ (j : Nat) (u : Thread World), self.threads[j]? = some u →
      u.job.id = t.job.id → u.phase.Done :=
    fun j u hu => hall u (List.mem_of_getElem? hu)
  have hlast : self.jobs[t.job.id]? = self.last_update t.job.id := by
    apply h.settled
    rintro j u hu hid ⟨state, after, hemitting⟩
    have hu' := hdone j u hu hid
    rw [hemitting] at hu'
    rcases hu' with hu' | hu' <;> cases hu'
  refine ⟨state, by simp [get_job_state, hstate], ?_, by rw [← hlast, hstate]⟩
  by_contra hno
  obtain ⟨j, u, hu, hid, hlive⟩ := h.owed _ state hstate (by simpa using hno)
  exact hlive (hdone j u hu hid)

/-! ## What a step keeps -/

/-- The threads are those of before, with the thread `k` in another phase: a job that only `k` was
about is so still. -/
theorem only_of_set (hk : self.threads[k]? = some t) {other : Worker World}
    (hthreads : other.threads = self.threads.set k ⟨t.job, p⟩) {j : Nat}
    (h : other.Only id j) : self.Only id j := by
  intro i u hu hid
  by_cases hi : i = k
  · subst hi
    rw [hk] at hu
    cases hu
    exact h i ⟨t.job, p⟩ (hthreads ▸ Threads.set_self hk) hid
  · exact h i u (hthreads ▸ Threads.set_of_ne hk hi hu) hid

theorem last_update_concat {other : Worker World} {id' : JobId}
    (h : other.emitted = self.emitted ++ [(id', state)]) :
    other.last_update id = if id' = id then some state else self.last_update id := by
  unfold last_update
  rw [h, List.filter_append]
  by_cases hid : id' = id
  · simp [hid]
  · simp [hid]

theorem not_emitting_phase (after : After World) : ¬ after.phase.Emitting := by
  rintro ⟨state, after', h⟩
  cases after <;> cases h

theorem kept_quiet (h : self.Kept) (hk : self.threads[k]? = some t)
    (hfrom : ¬ t.phase.Emitting ∧ ¬ t.phase.Done) (hto : ¬ p.Emitting ∧ ¬ p.Done)
    (hcalling : ∀ executor, p ≠ .calling executor)
    (hfits : ∀ state after, p = .writing state after → after.Fits self.local_node_id state) :
    Kept { self with threads := self.threads.set k ⟨t.job, p⟩ } where
  emitting j u state after hu hphase := by
    rcases (Threads.set_iff hk).mp hu with ⟨rfl, rfl⟩ | ⟨hj, hu⟩
    · exact absurd ⟨state, after, hphase⟩ hto.1
    · exact h.emitting j u state after hu hphase
  settled id hnone := by
    apply h.settled id
    intro j u hu hid
    by_cases hj : j = k
    · subst hj
      rw [hk] at hu
      cases hu
      exact hfrom.1
    · exact hnone j u (Threads.set_of_ne hk hj hu) hid
  fits j u state after hu hphase := by
    rcases (Threads.set_iff hk).mp hu with ⟨rfl, rfl⟩ | ⟨hj, hu⟩
    · rcases hphase with hphase | hphase
      · exact hfits state after hphase
      · exact absurd ⟨state, after, hphase⟩ hto.1
    · exact h.fits j u state after hu hphase
  owed id state hstate hlive := by
    obtain ⟨j, u, hu, hid, hdone⟩ := h.owed id state hstate hlive
    by_cases hj : j = k
    · subst hj
      rw [hk] at hu
      cases hu
      exact ⟨j, _, Threads.set_self hk, hid, hto.2⟩
    · exact ⟨j, u, Threads.set_of_ne hk hj hu, hid, hdone⟩
  written j u hu hdone := by
    rcases (Threads.set_iff hk).mp hu with ⟨rfl, rfl⟩ | ⟨hj, hu⟩
    · exact absurd hdone hto.2
    · exact h.written j u hu hdone
  running j u executor hu hphase honly := by
    rcases (Threads.set_iff hk).mp hu with ⟨rfl, rfl⟩ | ⟨hj, hu⟩
    · exact absurd hphase (hcalling executor)
    · exact h.running j u executor hu hphase (only_of_set hk rfl honly)

theorem kept_wrote (h : self.Kept) (hk : self.threads[k]? = some t) {after : After World}
    (hphase : t.phase = .writing state after)
    (halone : ∀ (j : Nat) (u : Thread World), self.threads[j]? = some u →
      u.job.id = t.job.id → ¬ u.phase.Emitting) :
    Kept { self with
      threads := self.threads.set k ⟨t.job, .emitting state after⟩
      jobs := self.jobs.insert t.job.id state } where
  emitting j u state' after' hu hphase' := by
    rcases (Threads.set_iff hk).mp hu with ⟨rfl, rfl⟩ | ⟨hj, hu⟩
    · cases hphase'
      exact ExtTreeMap.getElem?_insert_self
    · have hid : u.job.id ≠ t.job.id := fun hid => halone j u hu hid ⟨state', after', hphase'⟩
      exact (OrderedMap.get_insert_of_ne hid).trans (h.emitting j u state' after' hu hphase')
  settled id hnone := by
    have hid : id ≠ t.job.id := by
      rintro rfl
      exact hnone k _ (Threads.set_self hk) rfl ⟨state, after, rfl⟩
    refine (OrderedMap.get_insert_of_ne hid).trans (h.settled id ?_)
    intro j u hu hid'
    have hj : j ≠ k := by
      rintro rfl
      rw [hk] at hu
      cases hu
      exact hid hid'.symm
    exact hnone j u (Threads.set_of_ne hk hj hu) hid'
  fits j u state' after' hu hphase' := by
    rcases (Threads.set_iff hk).mp hu with ⟨rfl, rfl⟩ | ⟨hj, hu⟩
    · rcases hphase' with hphase' | hphase'
      · cases hphase'
      · cases hphase'
        exact h.fits j t state after hk (.inl hphase)
    · exact h.fits j u state' after' hu hphase'
  owed id state' hstate hlive := by
    by_cases hid : id = t.job.id
    · subst hid
      refine ⟨k, _, Threads.set_self hk, rfl, ?_⟩
      rintro (hdone | hdone) <;> cases hdone
    · obtain ⟨j, u, hu, hid', hdone⟩ :=
        h.owed id state' ((OrderedMap.get_insert_of_ne hid).symm.trans hstate) hlive
      have hj : j ≠ k := by
        rintro rfl
        rw [hk] at hu
        cases hu
        exact hid hid'.symm
      exact ⟨j, u, Threads.set_of_ne hk hj hu, hid', hdone⟩
  written j u hu hdone := by
    rcases (Threads.set_iff hk).mp hu with ⟨rfl, rfl⟩ | ⟨hj, hu⟩
    · rcases hdone with hdone | hdone <;> cases hdone
    · have hsome := h.written j u hu hdone
      by_cases hid : u.job.id = t.job.id
      · rw [hid]
        simp
      · rwa [OrderedMap.get_insert_of_ne hid]
  running j u executor hu hphase' honly := by
    rcases (Threads.set_iff hk).mp hu with ⟨rfl, rfl⟩ | ⟨hj, hu⟩
    · cases hphase'
    · have hid : u.job.id ≠ t.job.id := by
        intro hid
        exact hj (honly k _ (Threads.set_self hk) hid.symm).symm
      exact (OrderedMap.get_insert_of_ne hid).trans
        (h.running j u executor hu hphase' (only_of_set hk rfl honly))

theorem kept_emitted (h : self.Kept) (hk : self.threads[k]? = some t) {after : After World}
    (hphase : t.phase = .emitting state after) :
    Kept { self with
      threads := self.threads.set k ⟨t.job, after.phase⟩
      emitted := self.emitted ++ [(t.job.id, state)] } := by
  have hstate := h.emitting k t state after hk hphase
  have hafter := h.fits k t state after hk (.inr hphase)
  have hdone : after.phase.Done → state.has_terminated = true := by
    intro hdone
    cases after with
    | accepted => rcases hdone with hdone | hdone <;> cases hdone
    | calling executor => rcases hdone with hdone | hdone <;> cases hdone
    | refused => exact hafter
    | ended => exact hafter
  constructor
  · intro j u state' after' hu hphase'
    rcases (Threads.set_iff hk).mp hu with ⟨rfl, rfl⟩ | ⟨hj, hu⟩
    · exact absurd ⟨state', after', hphase'⟩ (not_emitting_phase after)
    · exact h.emitting j u state' after' hu hphase'
  · intro id hnone
    rw [last_update_concat rfl]
    split
    · next hid =>
      subst hid
      exact hstate
    · next hid =>
      apply h.settled id
      intro j u hu hid'
      have hj : j ≠ k := by
        rintro rfl
        rw [hk] at hu
        cases hu
        exact hid hid'
      exact hnone j u (Threads.set_of_ne hk hj hu) hid'
  · intro j u state' after' hu hphase'
    rcases (Threads.set_iff hk).mp hu with ⟨rfl, rfl⟩ | ⟨hj, hu⟩
    · rcases hphase' with hphase' | hphase'
      · cases after <;> cases hphase'
      · exact absurd ⟨state', after', hphase'⟩ (not_emitting_phase after)
    · exact h.fits j u state' after' hu hphase'
  · intro id state' hstate' hlive
    obtain ⟨j, u, hu, hid, hnot⟩ := h.owed id state' hstate' hlive
    by_cases hj : j = k
    · subst hj
      rw [hk] at hu
      cases hu
      subst hid
      refine ⟨j, _, Threads.set_self hk, rfl, ?_⟩
      intro hafter'
      have hsame : state = state' := Option.some.inj (hstate.symm.trans hstate')
      rw [← hsame, hdone hafter'] at hlive
      cases hlive
    · exact ⟨j, u, Threads.set_of_ne hk hj hu, hid, hnot⟩
  · intro j u hu hu'
    rcases (Threads.set_iff hk).mp hu with ⟨rfl, rfl⟩ | ⟨hj, hu⟩
    · simp [hstate]
    · exact h.written j u hu hu'
  · intro j u executor hu hphase' honly
    rcases (Threads.set_iff hk).mp hu with ⟨rfl, rfl⟩ | ⟨hj, hu⟩
    · cases after with
      | calling executor' =>
        have hrunning : state = .Running self.local_node_id := hafter
        rw [← hrunning]
        exact hstate
      | accepted => cases hphase'
      | refused => cases hphase'
      | ended => cases hphase'
    · exact h.running j u executor hu hphase' (only_of_set hk rfl honly)

theorem kept_scheduled (h : self.Kept) (job : session.JobInstance) :
    (self.step (.schedule_job job)).Kept := by
  have hold : ∀ (j : Nat) (u : Thread World),
      (self.step (.schedule_job job)).threads[j]? = some u →
        self.threads[j]? = some u ∨ u = ⟨job, .called⟩ :=
    fun j u hu => (Threads.concat_iff.mp hu).imp_right And.right
  have hnew : ∀ (j : Nat) (u : Thread World), self.threads[j]? = some u →
      (self.step (.schedule_job job)).threads[j]? = some u :=
    fun j u hu => Threads.concat_iff.mpr (.inl hu)
  constructor
  · intro j u state after hu hphase
    rcases hold j u hu with hu | rfl
    · exact h.emitting j u state after hu hphase
    · cases hphase
  · intro id hnone
    exact h.settled id fun j u hu => hnone j u (hnew j u hu)
  · intro j u state after hu hphase
    rcases hold j u hu with hu | rfl
    · exact h.fits j u state after hu hphase
    · rcases hphase with hphase | hphase <;> cases hphase
  · intro id state hstate hlive
    obtain ⟨j, u, hu, hrest⟩ := h.owed id state hstate hlive
    exact ⟨j, u, hnew j u hu, hrest⟩
  · intro j u hu hdone
    rcases hold j u hu with hu | rfl
    · exact h.written j u hu hdone
    · rcases hdone with hdone | hdone <;> cases hdone
  · intro j u executor hu hphase honly
    rcases hold j u hu with hu | rfl
    · exact h.running j u executor hu hphase fun i v hv => honly i v (hnew i v hv)
    · cases hphase

theorem kept_step {move : Move World} (h : self.Kept) (hsafe : self.Safe move) :
    (self.step move).Kept := by
  cases move with
  | register name executor =>
    exact ⟨h.emitting, h.settled, h.fits, h.owed, h.written, h.running⟩
  | schedule_job job => exact kept_scheduled h job
  | go k w =>
    cases hk : self.threads[k]? with
    | none =>
      have hgo : self.step (.go k w) = self := by simp [step, go, hk]
      rwa [hgo]
    | some t =>
      obtain ⟨hbuilds, halone⟩ := hsafe t hk
      have hwent := went hk w
      change (self.go k w).Kept
      generalize self.go k w = after at hwent
      cases hwent with
      | quiet hfrom hto hcalling hfits => exact kept_quiet h hk hfrom hto hcalling hfits
      | wrote hphase => exact kept_wrote h hk hphase (halone _ _ hphase)
      | emitted hphase => exact kept_emitted h hk hphase
      | panicked hphase hpanics =>
        obtain ⟨fut, hfut⟩ := hbuilds _ hphase
        exact absurd hfut (hpanics fut)
      | still hdone => exact h

theorem kept_new (local_node_id : String) : (new local_node_id : Worker World).Kept := by
  constructor <;> simp [new, last_update]

/-! ## Runs -/

theorem run_concat {local_node_id : String} {moves : List (Move World)} {move : Move World} :
    run local_node_id (moves ++ [move]) = (run local_node_id moves).step move := by
  unfold run
  rw [List.foldl_append, List.foldl_cons, List.foldl_nil]

theorem kept_run {local_node_id : String} {moves : List (Move World)}
    (h : EveryStep (fun before move => (run local_node_id before).Safe move) moves) :
    (run local_node_id moves).Kept := by
  induction moves using List.reverseRecOn with
  | nil => exact kept_new local_node_id
  | append_singleton moves move ih =>
    obtain ⟨hmoves, hsafe⟩ := everyStep_concat.mp h
    rw [run_concat]
    exact kept_step (ih hmoves) hsafe

/-- A task that panics before it has built its future leaves its job running. -/
theorem not_recorded_of_panic (h : self.Kept) (hk : self.threads[k]? = some t)
    {executor : JobExecutor World} (hphase : t.phase = .calling executor)
    (honly : self.Only t.job.id k) (hpanics : ∀ fut, ¬ executor.Builds w t.job.args fut) :
    ¬ (self.step (.go k w)).Recorded := by
  have hrunning := h.running k t executor hk hphase honly
  have hgo : self.step (.go k w) = { self with threads := self.threads.set k ⟨t.job, .ended⟩ } := by
    obtain ⟨payload, hexecute⟩ := Closure.execute_of_not_builds hpanics
    simp [step, go, hk, next, hphase, hexecute]
  rw [hgo]
  intro hrecorded
  have hlt : k < self.threads.length := (List.getElem?_eq_some_iff.mp hk).1
  obtain ⟨state, hstate, hterminated, -⟩ := hrecorded ⟨t.job, .ended⟩ (List.mem_set hlt _) rfl (by
    intro u hu hid
    obtain ⟨j, hj⟩ := List.mem_iff_getElem?.mp hu
    rcases (Threads.set_iff hk).mp hj with ⟨rfl, rfl⟩ | ⟨hne, hj⟩
    · exact .inr rfl
    · exact absurd (honly j u hj hid) hne)
  simp only [get_job_state, hrunning] at hstate
  cases hstate
  cases hterminated

end Worker

open Worker

/-- In a run where every executor builds its future, and no state of a job is written between
another write of it and its event, a job whose task has ended is completed or failed and its last
event says so, at every moment. In such a run a step of a job with an id of its own whose executor
builds no future leaves the job running, with its task gone. -/
theorem jobs_end_recorded (local_node_id : String) (moves : List (Move World))
    (h : EveryStep (fun before move => (run local_node_id before).Safe move) moves) :
    EveryState (fun before => (run local_node_id before).Recorded) moves ∧
    ∀ (k : Nat) (w : World) (t : Thread World) (executor : JobExecutor World),
      (run local_node_id moves).threads[k]? = some t → t.phase = .calling executor →
      (run local_node_id moves).Only t.job.id k →
      ((run local_node_id (moves ++ [.go k w])).Recorded ↔
        ∃ fut, executor.Builds w t.job.args fut) := by
  constructor
  · rintro before ⟨later, rfl⟩
    exact (kept_run h.of_append).recorded
  · intro k w t executor hk hphase honly
    rw [run_concat]
    constructor
    · intro hrecorded
      by_contra hno
      have hpanics : ∀ fut, ¬ executor.Builds w t.job.args fut := fun fut hfut => hno ⟨fut, hfut⟩
      exact not_recorded_of_panic (kept_run h) hk hphase honly hpanics hrecorded
    · intro hbuilds
      refine (kept_step (kept_run h) ?_).recorded
      intro u hu
      rw [hk] at hu
      cases hu
      refine ⟨?_, ?_⟩
      · intro executor' hphase'
        rw [hphase] at hphase'
        cases hphase'
        exact hbuilds
      · intro state after hphase'
        rw [hphase] at hphase'
        cases hphase'

/-- An executor that takes `null` for its arguments, and gives `null`. -/
def noop : JobExecutor Unit :=
  wrapped (fun | .Null => .ok () | _ => .error "invalid type") (fun _ _ => .ok (.ok (.ok ())))
    (fun _ => .ok .Null)

theorem safe_of_one (hone : self.threads = [t])
    (hbuilds : ∀ executor, t.phase = .calling executor →
      ∃ fut, executor.Builds w t.job.args fut) : self.Safe (.go k w) := by
  intro u hu
  have hut : u = t := by simpa [hone] using List.mem_of_getElem? hu
  subst hut
  refine ⟨hbuilds, ?_⟩
  intro state after hphase j v hv _
  have hvu : v = u := by simpa [hone] using List.mem_of_getElem? hv
  rw [hvu, hphase]
  rintro ⟨state', after', h⟩
  cases h

/-- A job of the executor on some arguments, with all its steps up to the call of the executor. -/
def called (args : Value) : List (Move Unit) :=
  [.register "noop" noop, .schedule_job ⟨⟨1⟩, "noop", args⟩, .go 0 (), .go 0 (), .go 0 (), .go 0 (),
    .go 0 (), .go 0 (), .go 0 ()]

theorem safe_called (args : Value) :
    EveryStep (fun before move => (run "w" before).Safe move) (called args) := by
  have hsplit : ∀ register schedule go : Move Unit,
      [register, schedule, go, go, go, go, go, go, go] =
        ((((((((([] ++ [register]) ++ [schedule]) ++ [go]) ++ [go]) ++ [go]) ++ [go]) ++ [go]) ++
          [go]) ++ [go]) := fun _ _ _ => rfl
  unfold called
  rw [hsplit]
  simp only [everyStep_concat]
  refine ⟨⟨⟨⟨⟨⟨⟨⟨⟨everyStep_nil, trivial⟩, trivial⟩, ?_⟩, ?_⟩, ?_⟩, ?_⟩, ?_⟩, ?_⟩, ?_⟩
  all_goals exact safe_of_one rfl nofun

theorem only_of_one (hone : self.threads = [t]) : self.Only id 0 := by
  intro j u hu _
  rw [hone] at hu
  have hlt := (List.getElem?_eq_some_iff.mp hu).1
  simp only [List.length_singleton] at hlt
  omega

/-- The job on `null`, up to the end of its task. -/
def finished : List (Move Unit) := called .Null ++ [.go 0 (), .go 0 (), .go 0 (), .go 0 ()]

theorem safe_finished : EveryStep (fun before move => (run "w" before).Safe move) finished := by
  have hsplit : ∀ moves : List (Move Unit), ∀ go, moves ++ [go, go, go, go] =
      (((moves ++ [go]) ++ [go]) ++ [go]) ++ [go] := by simp
  unfold finished
  rw [hsplit]
  simp only [everyStep_concat]
  refine ⟨⟨⟨⟨safe_called .Null, ?_⟩, ?_⟩, ?_⟩, ?_⟩
  · refine safe_of_one (t := ⟨⟨⟨1⟩, "noop", .Null⟩, .calling noop⟩) rfl ?_
    rintro _ ⟨⟩
    exact ⟨_, _, rfl, rfl⟩
  all_goals exact safe_of_one rfl nofun

/-- The executor was called on `null`: when its task has ended, its job is completed, and its last
event says so. -/
theorem the_noop_job_ends_recorded :
    (run "w" finished).threads = [⟨⟨⟨1⟩, "noop", .Null⟩, .ended⟩] ∧
      (run "w" finished).get_job_state ⟨1⟩ = .ok (.Completed .Null) ∧
      (run "w" finished).last_update ⟨1⟩ = some (.Completed .Null) := by
  have hthreads : (run "w" finished).threads = [⟨⟨⟨1⟩, "noop", .Null⟩, .ended⟩] := rfl
  have hstate : (run "w" finished).get_job_state ⟨1⟩ = .ok (.Completed .Null) := rfl
  obtain ⟨state, hrecorded, -, hlast⟩ :=
    (jobs_end_recorded "w" finished safe_finished).1 finished (List.prefix_refl _)
      ⟨⟨⟨1⟩, "noop", .Null⟩, .ended⟩ (by rw [hthreads]; exact List.mem_singleton_self _) rfl (by
        rw [hthreads]
        intro u hu _
        rw [List.mem_singleton.mp hu]
        exact .inr rfl)
  obtain rfl : state = .Completed .Null := Except.ok.inj (hrecorded.symm.trans hstate)
  exact ⟨hthreads, hstate, hlast⟩

/-- The executor was called on `true`, which is no argument of it: the task panics and the job is
running for ever. -/
theorem a_job_with_bad_arguments_runs_for_ever :
    ¬ (run "w" (called (.Bool true) ++ [.go 0 ()])).Recorded := by
  have hkept := kept_run (safe_called (.Bool true))
  have hpanics : ∀ fut, ¬ noop.Builds () (.Bool true) fut := by
    intro fut hbuilds
    obtain ⟨_, _, hdecode, -⟩ := wrapped_builds_iff.mp ⟨fut, hbuilds⟩
    cases hdecode
  rw [run_concat]
  exact not_recorded_of_panic (t := ⟨⟨⟨1⟩, "noop", .Bool true⟩, .calling noop⟩) hkept rfl rfl
    (only_of_one rfl) hpanics

end marie.worker
