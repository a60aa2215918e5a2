-- The run of a graph by a session: the queue, the jobs and the relays keep that a
-- node is told of once, so no result is walked two times, and the frames of the
-- session stay a walk.
import Mathlib.Data.List.Perm.Basic
import Marie.Session.GraphTurns

namespace marie.session

open Program FrameTree

/-! ## The session -/

/-- What a session that walks a graph keeps. Each node is told of, or runs, or has run, once. -/
structure InWalk (ckp : SessionCheckpointer) (w : Walk) (x : RunningSession) : Prop where
  meets : Meets ckp w x.state
  known : ∀ event ∈ x.state.listeners, Known w x.state.frames.outline x.state.frames.next event
  jobs : ∀ f ∈ x.jobs, f.id < x.state.frames.next
  once : ∀ f k status, x.state.frames.outline f = some k → k.run = some status →
    x.state.listeners.countP (·.isTurn f) + x.jobs.count f + status.spent ≤ 1
  starts : x.state.listeners.countP (·.isStart) ≤ 1
  first : .FrameCreated ⟨0⟩ ∈ x.state.listeners → x.state.frames.next = 1
  results : ∀ f k response, x.state.frames.outline f = some k →
    k.run = some (.RunCompleted response) → response.result = w.oracle f
  pending : ∀ f k response, x.state.frames.outline f = some k →
    k.run = some (.RunCompleted response) → .FrameRunTerminated f ∈ x.state.listeners

/-- The runs of the nodes have the results of the oracle, and no other run completes: the worker
has none for a container. -/
def Walk.Answers (w : Walk) (decode : Value → Except String FrameResponse) (x : RunningSession) :
    SystemMove → Prop
  | .report index job_state => ∀ f response, x.jobs[index]? = some f →
    job_state.deserialize decode = .ok (.Completed response) →
      (∃ node_id, x.state.frames.outline.Is f (.GraphNode w.graph_ref node_id)) ∧
        response.result = w.oracle f
  | _ => True

/-- What the end of a node's run has to find: the snapshot of the node if its run writes, those
that the new frames are made from, and an edge, a branch or another open branch, as the result
asks for. -/
def Walk.GoesOnRight (ckp : SessionCheckpointer) (w : Walk) (x : RunningSession) : SystemMove → Prop
  | .event index => ∀ f, x.state.listeners[index]? = some (.FrameRunTerminated f) →
    ∀ n p node_id response, x.state.frames.find f = some n → n.parent = some p →
      n.data = .GraphNode w.graph_ref node_id → n.status = .RunCompleted response →
      Records ckp (x.state.taken index) f response ∧
        GoesThrough ckp ((x.state.taken index).loaded f) f n response.result ∧
          w.GoesRight x.state.frames.outline p node_id response.result
  | _ => True

section Session

variable {self : SessionCheckpointer} {decode : Value → Except String FrameResponse} {w : Walk}
  {x : RunningSession} {s : State} {event : SessionCheckpointEvent} {index : Nat} {f : FrameId}

/-- The element at an index counts, and so do the others. -/
theorem countP_eraseIdx {α : Type} (q : α → Bool) {xs : List α} {a : α} {index : Nat}
    (h : xs[index]? = some a) : (xs.eraseIdx index).countP q + (q a).toNat = xs.countP q := by
  obtain ⟨hi, rfl⟩ := List.getElem?_eq_some_iff.mp h
  rw [← (List.getElem_cons_eraseIdx_perm hi).countP_eq q, List.countP_cons]
  cases q xs[index] <;> rfl

theorem Meets.next_pos (h : Meets self w s) : 0 < s.frames.next := by
  obtain ⟨k, hk, -⟩ := h.walking.root
  exact (fresh_outline _).lt hk

/-- The parent of a frame is there, and has no run. -/
theorem Meets.parent (h : Meets self w s) {k : Part} {p : FrameId}
    (hf : s.frames.outline f = some k) (hparent : k.parent = some p) :
    ∃ m, s.frames.outline p = some m ∧ m.run = none := by
  rcases h.walking.stands f k hf with rfl | ⟨q, m, hq, hm, -, hcase⟩
  · obtain ⟨k', hk', -, hnone, -⟩ := h.walking.root
    rw [hf] at hk'
    cases hk'
    rw [hparent] at hnone
    cases hnone
  · rw [hparent] at hq
    cases hq
    obtain ⟨n, hn, rfl⟩ := find_of_outline hm
    have hno : ∀ kind, n.data = kind → kind.run n.status = none → n.part.run = none := by
      rintro kind rfl hnone
      exact hnone
    refine ⟨_, hm, ?_⟩
    rcases hcase with ⟨-, rfl | ⟨join, hspan⟩⟩ | ⟨hthread, -⟩
    · exact hno _ (h.walking.root_kind hm) rfl
    · exact hno _ hspan rfl
    · exact hno _ hthread rfl

/-- A root that is alone has no child. -/
theorem Meets.root_alone (h : Meets self w s) (hnext : s.frames.next = 1) {k : Part}
    (hk : s.frames.outline ⟨0⟩ = some k) : k.children = [] := by
  obtain ⟨k', hk', -, hnone, hempty | ⟨t, ht, -⟩⟩ := h.walking.root
  all_goals
    rw [hk] at hk'
    cases hk'
  · exact hempty
  · obtain ⟨m, hm, hparent⟩ := h.walking.child ⟨0⟩ k t hk (by simp [ht])
    obtain ⟨t⟩ := t
    have hlt := (fresh_outline _).lt hm
    rw [hnext] at hlt
    obtain rfl : t = 0 := Nat.lt_one_iff.mp hlt
    rw [hk] at hm
    cases hm
    rw [hnone] at hparent
    cases hparent

/-- Each event takes its turn. -/
theorem turns_step (hs : Meets self w s) (hknown : Known w s.frames.outline s.frames.next event)
    (hfirst : event = .FrameCreated ⟨0⟩ → s.frames.next = 1)
    (hresults : ∀ f k response, s.frames.outline f = some k →
      k.run = some (.RunCompleted response) → response.result = w.oracle f)
    (hgoes : ∀ f, event = .FrameRunTerminated f → ∀ n p node_id response,
      s.frames.find f = some n → n.parent = some p → n.data = .GraphNode w.graph_ref node_id →
      n.status = .RunCompleted response → Records self s f response ∧
        GoesThrough self (s.loaded f) f n response.result ∧
          w.GoesRight s.frames.outline p node_id response.result) :
    Turns w s event (self.step s event) := by
  have hevent : Turns w s event (exec (self.on_event event) s).2 := by
    cases event with
    | SessionCreated => exact turns_stay trivial
    | HitlAnswered response => exact turns_on_hitl_response response hs.store
    | FrameCreated f =>
      refine turns_on_frame_created hs fun k hf hk => ?_
      subst hf
      exact hs.root_alone (hfirst rfl) hk
    | FrameRunJobStateUpdate f state =>
      exact turns_on_frame_run_update state fun response hr => (hknown.2 response hr).1
    | FrameReady f => exact turns_on_frame_ready f
    | FrameRunTerminated f =>
      refine turns_on_frame_run_terminated hs (fun k response hk hrun => ?_) (hgoes f rfl)
      rw [hresults f k response hk hrun]
      exact w.steps f
    | ChildFrameTerminated p c =>
      refine turns_on_child_frame_terminated fun k hk => ?_
      obtain ⟨m, hm, hrun⟩ := hknown
      rw [hk] at hm
      cases hm
      exact hrun
    | FrameTerminated f => exact turns_on_frame_terminated f
  obtain ⟨status, hstep⟩ := step_eq self s event
  rw [hstep]
  obtain ⟨o, made, sent, ⟨houtline, hnext, hlisteners, hstore, hofGraph⟩, hturn⟩ := hevent
  exact ⟨o, made, sent, ⟨houtline, hnext, hlisteners, hstore, hofGraph⟩, hturn⟩

/-- A frame that is ready is one job more, or the worker does not take it. -/
theorem jobs_handle (self : SessionCheckpointer) (x : RunningSession) (index : Nat)
    (event : SessionCheckpointEvent) :
    (self.handle x index event).jobs = x.jobs ∨
      ∃ f, event = .FrameReady f ∧ (self.handle x index event).jobs = x.jobs ++ [f] := by
  have htaken : (x.state.taken index).dispatched = x.state.dispatched := rfl
  unfold SessionCheckpointer.handle
  rcases step_dispatched self (x.state.taken index) event with h | ⟨args, rfl, h⟩
  all_goals rw [htaken] at h
  · exact .inl (by simp [h])
  · simp only [h, List.drop_left]
    by_cases hspawn : (self.spawn x.state.dispatched.length args).isNone
    · exact .inr ⟨_, rfl, by simp [hspawn]⟩
    · exact .inl (by simp [hspawn])

end Session

/-! ### One event -/

/-- From `x` to `x'`, the event at an index of the queue takes its turn. -/
structure Takes (w : Walk) (x : RunningSession) (index : Nat) (event : SessionCheckpointEvent)
    (x' : RunningSession) (made : Nat) (sent : List SessionCheckpointEvent) : Prop where
  taken : x.state.listeners[index]? = some event
  turn : Turn w x.state.frames.outline x.state.frames.next event x'.state.frames.outline made sent
  next : x'.state.frames.next = x.state.frames.next + made
  listeners : x'.state.listeners = x.state.listeners.eraseIdx index ++ sent
  jobs : x'.jobs = x.jobs ∨ ∃ f, event = .FrameReady f ∧ x'.jobs = x.jobs ++ [f]

section Takes

variable {self : SessionCheckpointer} {w : Walk} {x x' : RunningSession} {index made : Nat}
  {event : SessionCheckpointEvent} {sent : List SessionCheckpointEvent} {f : FrameId}

theorem Takes.count (h : Takes w x index event x' made sent) (q : SessionCheckpointEvent → Bool) :
    x'.state.listeners.countP q + (q event).toNat = x.state.listeners.countP q + sent.countP q := by
  rw [h.listeners, List.countP_append, ← countP_eraseIdx q h.taken]
  omega

theorem Takes.count_jobs (h : Takes w x index event x' made sent) (f : FrameId) :
    x'.jobs.count f ≤ x.jobs.count f + (event.isRun f).toNat ∧
      ((∀ g, event ≠ .FrameReady g) → x'.jobs.count f = x.jobs.count f) := by
  rcases h.jobs with hjobs | ⟨g, rfl, hjobs⟩
  · rw [hjobs]
    exact ⟨Nat.le_add_right _ _, fun _ => rfl⟩
  · refine ⟨?_, fun hno => absurd rfl (hno g)⟩
    rw [hjobs, List.count_append, List.count_singleton]
    by_cases hg : g = f <;> simp [SessionCheckpointEvent.isRun, hg]

theorem Takes.known_after (h : Takes w x index event x' made sent) (hx : InWalk self w x) :
    ∀ e ∈ x'.state.listeners, Known w x'.state.frames.outline x'.state.frames.next e := by
  have hfresh := fresh_outline x.state.frames
  intro e hmem
  rw [h.listeners] at hmem
  rw [h.next]
  rcases List.mem_append.mp hmem with hold | hnew
  · exact (hx.known e (List.mem_of_mem_eraseIdx hold)).later h.turn hfresh
  · exact h.turn.known hfresh (hx.known event (List.mem_of_getElem? h.taken))
      (fun f k p hf hparent => hx.meets.parent hf hparent) hnew

theorem Takes.jobs_after (h : Takes w x index event x' made sent) (hx : InWalk self w x) :
    ∀ f ∈ x'.jobs, f.id < x'.state.frames.next := by
  intro f hmem
  rw [h.next]
  refine Nat.lt_of_lt_of_le ?_ (Nat.le_add_right _ _)
  rcases h.jobs with hjobs | ⟨g, rfl, hjobs⟩
  · rw [hjobs] at hmem
    exact hx.jobs f hmem
  · rw [hjobs] at hmem
    rcases List.mem_append.mp hmem with hold | hnew
    · exact hx.jobs f hold
    · cases List.mem_singleton.mp hnew
      exact hx.known _ (List.mem_of_getElem? h.taken)

/-- Nothing is told of a frame before it is there. -/
theorem InWalk.unborn (hx : InWalk self w x) (hf : x.state.frames.next ≤ f.id) :
    x.state.listeners.countP (·.isTurn f) = 0 ∧ x.jobs.count f = 0 := by
  constructor
  · rw [List.countP_eq_zero]
    intro e he hturn
    have hknown := hx.known e he
    refine absurd hf (Nat.not_le.mpr ?_)
    cases e with
    | FrameCreated g =>
      rw [← of_decide_eq_true hturn]
      exact hknown
    | FrameReady g =>
      rw [← of_decide_eq_true hturn]
      exact hknown
    | FrameRunJobStateUpdate g state =>
      cases state with
      | Completed response =>
        rw [← of_decide_eq_true hturn]
        exact hknown.1
      | Failed error =>
        rw [← of_decide_eq_true hturn]
        exact hknown.1
      | _ => cases hturn
    | _ => cases hturn
  · rw [List.count_eq_zero]
    intro hmem
    exact absurd hf (Nat.not_le.mpr (hx.jobs f hmem))

/-- A node is told of once, also after the event. -/
theorem Takes.once_after (h : Takes w x index event x' made sent) (hx : InWalk self w x)
    {k' : Part} {new : FrameStatus} (hk' : x'.state.frames.outline f = some k')
    (hnew : k'.run = some new) :
    x'.state.listeners.countP (·.isTurn f) + x'.jobs.count f + new.spent ≤ 1 := by
  have hfresh := fresh_outline x.state.frames
  have hcount := h.count (·.isTurn f)
  rcases h.turn.old_run hfresh hk' hnew with ⟨hnone, rfl⟩ | ⟨k, old, hk, hold, -⟩
  · -- a new node, and the event is the only one that tells of it
    have hid := h.turn.new_id hnone (by simp [hk'])
    obtain ⟨hqueue, hjobs⟩ := hx.unborn hid
    have hsent := h.turn.tells_new hnone (by simp [hk'])
    have hno : (event.isTurn f).toNat = 0 := by
      have hle := countP_eraseIdx (·.isTurn f) h.taken
      omega
    have hrun := isRun_le_isTurn f event
    have hjobs' := (h.count_jobs f).1
    simp only [FrameStatus.spent]
    omega
  · have honce := hx.once f k old hk hold
    have hsent := h.turn.tells_once (hfresh.lt hk) hk (by simp [hold])
    rcases h.turn.spent hfresh hk hold hk' hnew with hspent | ⟨state, rfl, hrun, hspent⟩
    · have hjobs := (h.count_jobs f).1
      omega
    · -- the run of the node ends, and no job starts
      have hjobs := (h.count_jobs f).2 fun g hg => by cases hg
      rw [hrun, Bool.toNat_true] at hsent
      omega

theorem Takes.starts_after (h : Takes w x index event x' made sent) (hx : InWalk self w x) :
    x'.state.listeners.countP (·.isStart) ≤ 1 ∧
      (.FrameCreated ⟨0⟩ ∈ x'.state.listeners → x'.state.frames.next = 1) := by
  have hpos := hx.meets.next_pos
  have hcount := h.count (·.isStart)
  have hsent := h.turn.tells_no_start hpos
  have hstarts := hx.starts
  refine ⟨by omega, fun hmem => ?_⟩
  have hthere : 0 < x'.state.listeners.countP (·.isStart) :=
    List.countP_pos_iff.mpr ⟨_, hmem, by simp [SessionCheckpointEvent.isStart]⟩
  have hqueue : 0 < x.state.listeners.countP (·.isStart) := by omega
  obtain ⟨e, he, hstart⟩ := List.countP_pos_iff.mp hqueue
  have hfirst : x.state.frames.next = 1 := by
    cases e with
    | FrameCreated f =>
      rw [of_decide_eq_true hstart] at he
      exact hx.first he
    | _ => cases hstart
  rcases h.turn.makes (fresh_outline x.state.frames) with hmade | rfl | hmore
  · rw [h.next, hfirst, hmade]
  · -- the event was the only one
    have hone : (SessionCheckpointEvent.isStart (.FrameCreated ⟨0⟩)).toNat = 1 := rfl
    rw [hone] at hcount
    omega
  · omega

theorem Takes.results_after (h : Takes w x index event x' made sent) (hx : InWalk self w x)
    {k' : Part} {response : FrameResponse} (hk' : x'.state.frames.outline f = some k')
    (hrun : k'.run = some (.RunCompleted response)) : response.result = w.oracle f := by
  rcases h.turn.old_run (fresh_outline x.state.frames) hk' hrun with
    ⟨-, hst⟩ | ⟨k, old, hk, hold, rfl | ⟨-, -, hst⟩ | ⟨r, rfl, hst⟩ | ⟨error, -, hst⟩ | ⟨-, -, hst⟩⟩
  · cases hst
  · exact hx.results f k response hk hold
  · cases hst
  · cases hst
    exact ((hx.known _ (List.mem_of_getElem? h.taken)).2 response rfl).2
  · cases hst
  · cases hst

/-- A run that has completed is still to be walked. -/
theorem Takes.pending_after (h : Takes w x index event x' made sent) (hx : InWalk self w x)
    {k' : Part} {response : FrameResponse} (hk' : x'.state.frames.outline f = some k')
    (hrun : k'.run = some (.RunCompleted response)) : .FrameRunTerminated f ∈ x'.state.listeners := by
  have hturn := h.turn
  rw [h.listeners, List.mem_append]
  rcases hturn.old_run (fresh_outline x.state.frames) hk' hrun with
    ⟨-, hst⟩ | ⟨k, old, hk, hold, rfl | ⟨-, -, hst⟩ | ⟨r, rfl, -⟩ | ⟨error, -, hst⟩ | ⟨-, -, hst⟩⟩
  · cases hst
  · rcases mem_or_mem_eraseIdx h.taken (hx.pending f k response hk hold) with rfl | hstays
    · exact absurd hrun (hturn.ends_run hk')
    · exact .inl hstays
  · cases hst
  · exact .inr hturn.tells_end
  · cases hst
  · cases hst

/-- An event that goes on right keeps the session in the walk. -/
theorem inWalk_handle (hx : InWalk self w x) (he : x.state.listeners[index]? = some event)
    (hright : w.GoesOnRight self x (.event index)) : InWalk self w (self.handle x index event) := by
  have hknown := hx.known event (List.mem_of_getElem? he)
  have hmeets : Meets self w (x.state.taken index) :=
    ⟨hx.meets.graph, hx.meets.store, hx.meets.ofGraph, hx.meets.walking⟩
  have hfirst : event = .FrameCreated ⟨0⟩ → x.state.frames.next = 1 := by
    rintro rfl
    exact hx.first (List.mem_of_getElem? he)
  have hturns : Turns w (x.state.taken index) event (self.step (x.state.taken index) event) := by
    refine turns_step hmeets hknown hfirst hx.results fun f hf n p node_id response hn => ?_
    subst hf
    exact hright f he n p node_id response hn
  obtain ⟨o, made, sent, hdraws, hturn⟩ := hturns
  obtain rfl : (self.handle x index event).state.frames.outline = o := hdraws.outline
  have htakes : Takes w x index event (self.handle x index event) made sent :=
    ⟨he, hturn, hdraws.next, hdraws.listeners, jobs_handle self x index event⟩
  -- a node that is told to run has not completed
  have hopen : ∀ f, event.isTurn f → ¬ x.state.frames.outline.Done f := by
    rintro f hf ⟨k, hk, hdone⟩
    have honce := hx.once f k _ hk hdone
    have hqueue := countP_eraseIdx (·.isTurn f) he
    rw [hf, Bool.toNat_true] at hqueue
    simp only [FrameStatus.spent] at honce
    omega
  have hwalking := hturn.walking (fresh_outline x.state.frames) hx.meets.walking
    (fun hf k hk => hx.meets.root_alone (hfirst hf) hk) hopen hx.results
  exact {
    meets := ⟨hx.meets.graph, hdraws.storeless hx.meets.store, hdraws.ofGraph hx.meets.ofGraph,
      hwalking⟩
    known := htakes.known_after hx
    jobs := htakes.jobs_after hx
    once := fun f k status hk hrun => htakes.once_after hx hk hrun
    starts := (htakes.starts_after hx).1
    first := (htakes.starts_after hx).2
    results := fun f k response hk hrun => htakes.results_after hx hk hrun
    pending := fun f k response hk hrun => htakes.pending_after hx hk hrun }

end Takes

/-! ### Whole runs -/

section Runs

variable {self : SessionCheckpointer} {decode : Value → Except String FrameResponse} {w : Walk}
  {x : RunningSession} {index : Nat} {f : FrameId}

/-- Some events from outside join the queue, and some jobs end. -/
theorem inWalk_outside (hx : InWalk self w x) {s' : State} {jobs : List FrameId}
    {events : List SessionCheckpointEvent} (hframes : s'.frames = x.state.frames)
    (hlisteners : s'.listeners = x.state.listeners ++ events)
    (hknown : ∀ e ∈ events, Known w x.state.frames.outline x.state.frames.next e ∧ e.isStart = false)
    (hjobs : ∀ g, g ∈ jobs → g ∈ x.jobs)
    (hcount : ∀ g, events.countP (·.isTurn g) + jobs.count g ≤ x.jobs.count g) :
    InWalk self w ⟨s', jobs⟩ := by
  have hno : events.countP (·.isStart) = 0 := by
    rw [List.countP_eq_zero]
    intro e he
    simp [(hknown e he).2]
  constructor
  · exact ⟨hx.meets.graph, by rw [hframes]; exact hx.meets.store,
      by rw [hframes]; exact hx.meets.ofGraph, by rw [hframes]; exact hx.meets.walking⟩
  · intro e he
    rw [hframes]
    rw [hlisteners] at he
    exact (List.mem_append.mp he).elim (hx.known e) fun h => (hknown e h).1
  · intro g hg
    rw [hframes]
    exact hx.jobs g (hjobs g hg)
  · intro g k status hk hrun
    rw [hframes] at hk
    have honce := hx.once g k status hk hrun
    have hg := hcount g
    change s'.listeners.countP (·.isTurn g) + jobs.count g + status.spent ≤ 1
    rw [hlisteners, List.countP_append]
    omega
  · rw [hlisteners, List.countP_append, hno]
    exact hx.starts
  · intro hmem
    rw [hframes]
    rw [hlisteners] at hmem
    rcases List.mem_append.mp hmem with hold | hnew
    · exact hx.first hold
    · cases (hknown _ hnew).2
  · intro g k response hk hrun
    rw [hframes] at hk
    exact hx.results g k response hk hrun
  · intro g k response hk hrun
    rw [hframes] at hk
    rw [hlisteners]
    exact List.mem_append_left _ (hx.pending g k response hk hrun)

theorem inWalk_fewer (hx : InWalk self w x) {s' : State} {jobs : List FrameId}
    (hframes : s'.frames = x.state.frames) (hlisteners : s'.listeners = x.state.listeners)
    (hjobs : ∀ g, g ∈ jobs → g ∈ x.jobs) (hcount : ∀ g, jobs.count g ≤ x.jobs.count g) :
    InWalk self w ⟨s', jobs⟩ := by
  have hqueue : s'.listeners = x.state.listeners ++ [] := hlisteners.trans (List.append_nil _).symm
  refine inWalk_outside hx hframes hqueue (by simp) hjobs fun g => ?_
  rw [List.countP_nil, Nat.zero_add]
  exact hcount g

theorem count_eraseIdx {jobs : List FrameId} (h : jobs[index]? = some f) (g : FrameId) :
    (jobs.eraseIdx index).count g + (f == g).toNat = jobs.count g :=
  countP_eraseIdx (· == g) h

/-- A job that tells that its run is over has ended. -/
theorem ends_of_turn {job_state : JobState Value} {state : JobState FrameResponse} {g : FrameId}
    (hstate : job_state.deserialize decode = .ok state)
    (hturn : (SessionCheckpointEvent.FrameRunJobStateUpdate f state).isTurn g) :
    job_state.has_terminated ∧ f = g := by
  cases job_state with
  | Completed value =>
    refine ⟨rfl, ?_⟩
    rw [JobState.deserialize] at hstate
    cases hdecode : decode value with
    | ok response =>
      rw [hdecode] at hstate
      cases hstate
      exact of_decide_eq_true hturn
    | error message =>
      rw [hdecode] at hstate
      cases hstate
  | Failed error =>
    cases hstate
    exact ⟨rfl, of_decide_eq_true hturn⟩
  | _ =>
    cases hstate
    cases hturn

/-- A state of a job is relayed. -/
theorem inWalk_report (hx : InWalk self w x) (job_state : JobState Value)
    (hanswers : w.Answers decode x (.report index job_state)) :
    InWalk self w (SessionCheckpointer.relay decode x index job_state) := by
  unfold SessionCheckpointer.relay
  cases hf : x.jobs[index]? with
  | none => exact hx
  | some f =>
    have hcount := count_eraseIdx hf
    cases hstate : job_state.deserialize decode with
    | error e =>
      refine inWalk_fewer hx rfl rfl (fun g hg => List.mem_of_mem_eraseIdx hg) fun g => ?_
      exact Nat.le_of_add_right_le (hcount g).le
    | ok state =>
      have hid := hx.jobs f (List.mem_of_getElem? hf)
      refine inWalk_outside hx rfl rfl (fun e he => ?_) (fun g hg => ?_) fun g => ?_
      · cases List.mem_singleton.mp he
        refine ⟨⟨hid, fun response hr => ?_⟩, rfl⟩
        subst hr
        obtain ⟨⟨node_id, k, hk, hkind⟩, hresult⟩ := hanswers f response hf hstate
        obtain ⟨n, hn, rfl⟩ := find_of_outline hk
        have hdata : n.data = .GraphNode w.graph_ref node_id := hkind
        exact ⟨⟨_, hk, by simp [FrameNode.part, hdata, FrameKind.run]⟩, hresult⟩
      · split at hg
        · exact List.mem_of_mem_eraseIdx hg
        · exact hg
      · have hg := hcount g
        rw [List.countP_singleton]
        split
        · rename_i hturn
          obtain ⟨hover, rfl⟩ := ends_of_turn hstate hturn
          rw [beq_self_eq_true, Bool.toNat_true] at hg
          rw [if_pos hover]
          omega
        · split <;> omega

theorem inWalk_next (hx : InWalk self w x) (move : SystemMove) (hanswers : w.Answers decode x move)
    (hright : w.GoesOnRight self x move) : InWalk self w (self.next decode x move) := by
  cases move with
  | event index =>
    cases he : x.state.listeners[index]? with
    | none =>
      rw [self.next_event_none decode he]
      exact hx
    | some event =>
      rw [self.next_event decode he]
      exact inWalk_handle hx he hright
  | report index job_state => exact inWalk_report hx job_state hanswers
  | answer response =>
    refine inWalk_outside hx rfl rfl (fun e he => ?_) (fun _ hg => hg) fun g => ?_
    · cases List.mem_singleton.mp he
      exact ⟨trivial, rfl⟩
    · simp [SessionCheckpointEvent.isTurn]
  | snapshots snapshots =>
    exact inWalk_fewer hx rfl rfl (fun _ hg => hg) fun _ => Nat.le_refl _

/-! ### From the start -/

/-- The root is the frame of the graph, as `append_graph` makes it. -/
structure Walk.IsRoot (w : Walk) (args : NewFrameNodeArgs) : Prop where
  data : args.data = .Graph w.graph_ref
  spec_ref : args.spec_ref = .Graph w.graph_ref
  on_start : args.frame_policy.on_start_policy = .AppendGraphThread w.graph_ref w.entry
  resume : args.frame_policy.resume_policy = .Sequential

theorem outline_start (self : SessionCheckpointer) (args : NewFrameNodeArgs)
    (initial_channels : List (ChannelName × Value)) (rows : SnapshotRows) (f : FrameId) :
    (self.start args initial_channels rows).state.frames.outline f =
      if f = ⟨0⟩ then some ⟨args.data, none, [], args.data.run .Pending⟩ else none := by
  unfold outline
  rw [find_start]
  split
  · rfl
  · rfl

theorem walking_start {args : NewFrameNodeArgs} (hroot : w.IsRoot args)
    (initial_channels : List (ChannelName × Value)) (rows : SnapshotRows) :
    w.Walking (self.start args initial_channels rows).state.frames.outline := by
  have hout := outline_start self args initial_channels rows
  have honly : ∀ f k, (self.start args initial_channels rows).state.frames.outline f = some k →
      f = ⟨0⟩ ∧ k = ⟨args.data, none, [], args.data.run .Pending⟩ := by
    intro f k hk
    rw [hout] at hk
    split at hk
    · rename_i hf
      cases hk
      exact ⟨hf, rfl⟩
    · cases hk
  constructor
  · intro f k hk
    exact .inl (honly f k hk).1
  · intro p k c hk hc
    rw [(honly p k hk).2] at hc
    cases hc
  · exact ⟨_, by rw [hout, if_pos rfl], hroot.data, rfl, .inl rfl⟩
  · intro p k hk hkind
    rw [(honly p k hk).2, hroot.data] at hkind
    cases hkind

theorem inWalk_start {args : NewFrameNodeArgs} (hgraph : self.graphs.get w.graph_ref = .ok w.spec)
    (hroot : w.IsRoot args) (initial_channels : List (ChannelName × Value)) (rows : SnapshotRows) :
    InWalk self w (self.start args initial_channels rows) := by
  have hout := outline_start self args initial_channels rows
  have hrun : ∀ f k, (self.start args initial_channels rows).state.frames.outline f = some k →
      k.run = none := by
    intro f k hk
    rw [hout] at hk
    split at hk
    · cases hk
      rw [hroot.data]
      rfl
    · cases hk
  constructor
  · refine ⟨hgraph, fun _ => rfl, fun f n hn => ?_, walking_start hroot initial_channels rows⟩
    rw [find_start] at hn
    split at hn
    · rename_i hf
      cases hn
      refine ⟨hroot.spec_ref, ?_, fun _ => hroot.resume, fun response hst => by cases hst⟩
      rw [if_pos hf]
      exact hroot.on_start
    · cases hn
  · intro e he
    cases List.mem_singleton.mp he
    exact Nat.zero_lt_one
  · intro f hf
    cases hf
  · intro f k status hk hst
    rw [hrun f k hk] at hst
    cases hst
  · exact Nat.le_refl _
  · exact fun _ => rfl
  · intro f k response hk hst
    rw [hrun f k hk] at hst
    cases hst
  · intro f k response hk hst
    rw [hrun f k hk] at hst
    cases hst

end Runs

/-! ## The graph is walked -/

/-- The session walks the graph: the frames are those of the walk, and no thread lacks one; once
the session is at rest, each run that completed has been walked, and a node that continued along
no edge has completed with its thread. -/
structure Walk.IsWalked (w : Walk) (x : RunningSession) : Prop where
  walks : w.Walks x.state.frames.outline
  catches : w.Catches x.state.frames.outline
  settles : x.Quiescent → ∀ f k response, x.state.frames.outline f = some k →
    k.run ≠ some (.RunCompleted response)
  ends : x.Quiescent → ∀ f k p node_id, x.state.frames.outline f = some k →
    k.kind = .GraphNode w.graph_ref node_id → k.run = some .Completed → k.parent = some p →
    w.oracle f = .Continue → w.spec.edges node_id = none →
    x.state.frames.statusIs FrameStatus.has_completed p

/-- No node that went right continued along no edge. -/
theorem Walk.Walking.edge_of_continue {w : Walk} {o : Outline} {f : FrameId} {k : Part}
    {node_id : NodeId} (h : w.Walking o) (hf : o f = some k)
    (hkind : k.kind = .GraphNode w.graph_ref node_id) (hrun : k.run = some .Completed)
    (hresult : w.oracle f = .Continue) : w.spec.edges node_id ≠ none := by
  intro hnone
  obtain ⟨p, kp, -, hp, hthread, hmem⟩ := h.thread_of hf (.inl ⟨node_id, hkind⟩)
  have hline := h.line p kp hp hthread
  have hlast : kp.children.getLast? = some f := by
    refine hline.last_of hmem ?_
    rintro ⟨d, -, node, ⟨m, hm, hnode⟩, hleads⟩
    rw [hf] at hm
    cases hm
    rw [hkind] at hnode
    cases hnode
    rw [hresult] at hleads
    obtain ⟨target, htarget, -⟩ := hleads
    rw [hnone] at htarget
    cases htarget
  have hend := (hline.rests f hlast).1 ⟨k, hf, hrun⟩
  rw [hresult] at hend
  cases hend

/-- **The graph is walked**: in a session whose runs have the results of the oracle, and in which
the end of each run finds its snapshots and has somewhere to go, the frames are those of the walk
of the graph. -/
theorem the_graph_is_walked (self : SessionCheckpointer)
    (decode : Value → Except String FrameResponse) (w : Walk) (args : NewFrameNodeArgs)
    (initial_channels : List (ChannelName × Value)) (rows : SnapshotRows) (moves : List SystemMove)
    (hgraph : self.graphs.get w.graph_ref = .ok w.spec) (hroot : w.IsRoot args)
    (h : self.Throughout decode
      (fun x move => w.Answers decode x move ∧ w.GoesOnRight self x move)
      (self.start args initial_channels rows) moves) :
    w.IsWalked (self.runSystem decode (self.start args initial_channels rows) moves) := by
  have hwalk : InWalk self w (self.runSystem decode (self.start args initial_channels rows) moves) :=
    self.runSystem_invariant decode (I := InWalk self w)
      (fun x move hx hmove => inWalk_next hx move hmove.1 hmove.2) _ moves
      (inWalk_start hgraph hroot initial_channels rows) h
  have hwalking := hwalk.meets.walking
  constructor
  · exact hwalking.walks
  · exact hwalking.catches
  · intro hquiet f k response hk hrun
    have hmem := hwalk.pending f k response hk hrun
    rw [hquiet.1] at hmem
    cases hmem
  · intro _ f k p node_id hk hkind hrun _ hresult hnone
    exact absurd hnone (hwalking.edge_of_continue hk hkind hrun hresult)

/-- The frame that `append_graph` makes. -/
def graphArgs (graph_ref : GraphRef) (entry : NodeId) : NewFrameNodeArgs where
  frame_policy :=
    { on_child_failed := .FailIfAtLeastHasFailed 1
      resume_policy := .Sequential
      on_start_policy := .AppendGraphThread graph_ref entry }
  spec_ref := .Graph graph_ref
  data := .Graph graph_ref

/-- The walk of a graph all of whose nodes continue. -/
def continues (spec : GraphSpec) : Walk where
  graph_ref := ⟨"g", 1⟩
  spec := spec
  entry := spec.entry
  oracle _ := .Continue
  steps _ := trivial

/-- The root starts its thread, and the run of the first node ends. -/
def firstNode : List SystemMove :=
  [.event 0, .event 1, .event 1, .report 0 (.Completed .Null), .event 1, .event 1]

theorem two_nodes_are_walked :
    (continues twoNodes).IsWalked (overTwoNodes.runSystem (logsAndEnds .Continue)
      (overTwoNodes.start (graphArgs ⟨"g", 1⟩ "a") [] [⟨⟨0⟩, ⟨2⟩, 0, .empty, []⟩]) firstNode) := by
  refine the_graph_is_walked overTwoNodes _ (continues twoNodes) _ _ _ firstNode rfl
    ⟨rfl, rfl, rfl, rfl⟩ ?_
  refine ⟨⟨trivial, ?_⟩, fun _ => ⟨⟨trivial, ?_⟩, fun _ => ⟨⟨trivial, ?_⟩, fun _ => ⟨⟨?_, trivial⟩,
    fun _ => ⟨⟨trivial, ?_⟩, fun _ => ⟨⟨trivial, ?_⟩, fun _ => trivial⟩⟩⟩⟩⟩⟩
  · rintro f ⟨⟩
  · rintro f ⟨⟩
  · rintro f ⟨⟩
  · rintro f response ⟨⟩ ⟨⟩
    exact ⟨⟨"a", _, rfl, rfl⟩, rfl⟩
  · rintro f ⟨⟩
  · rintro f ⟨⟩ n p node_id response ⟨⟩ ⟨⟩ ⟨⟩ ⟨⟩
    refine ⟨.inl rfl, ⟨⟨1⟩, ⟨"g", 1⟩, ⟨rfl, "a", twoNodes, "b", rfl, rfl, rfl⟩, ⟨_, rfl⟩, ⟨_, rfl⟩, ?_⟩,
      "b", rfl⟩
    -- the thread has one child, whose snapshot is there
    rintro q ⟨⟩
    exact ⟨_, rfl⟩

/-! ### A node with no edge -/

/-- The graph with one node, which leads to no other. -/
def lastNode : GraphSpec := { twoNodes with edges := fun _ => none }

def overLastNode : SessionCheckpointer := { plain true with graphs := .of [lastNode] }

/-- The run of the node ends, and all that it sends is taken. -/
def onlyNode : List SystemMove :=
  [.event 0, .event 0, .event 0, .event 0, .report 0 (.Completed .Null), .event 0, .event 0, .event 0]

theorem a_node_with_no_edge_is_left_behind :
    (overLastNode.Throughout (logsAndEnds .Continue)
      ((continues lastNode).Answers (logsAndEnds .Continue))
      (overLastNode.start (graphArgs ⟨"g", 1⟩ "a") [] [⟨⟨0⟩, ⟨2⟩, 0, .empty, []⟩]) onlyNode) ∧
    ¬ (continues lastNode).IsWalked (overLastNode.runSystem (logsAndEnds .Continue)
      (overLastNode.start (graphArgs ⟨"g", 1⟩ "a") [] [⟨⟨0⟩, ⟨2⟩, 0, .empty, []⟩]) onlyNode) := by
  refine ⟨?_, fun h => ?_⟩
  · refine ⟨trivial, fun _ => ⟨trivial, fun _ => ⟨trivial, fun _ => ⟨trivial, fun _ => ⟨?_, fun _ =>
      ⟨trivial, fun _ => ⟨trivial, fun _ => ⟨trivial, fun _ => trivial⟩⟩⟩⟩⟩⟩⟩⟩
    rintro f response ⟨⟩ ⟨⟩
    exact ⟨⟨"a", _, rfl, rfl⟩, rfl⟩
  · exact h.settles ⟨rfl, rfl⟩ ⟨2⟩ _ _ rfl rfl

end marie.session
