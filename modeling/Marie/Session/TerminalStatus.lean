-- A frame that has terminated stays as it is. No handler looks at the status
-- of the frame that it writes, so this holds in the runs that take no event
-- which is late for the frame.
import Marie.Session.Handlers

namespace marie.session

open Program FrameTree

/-! ## Late events -/

/-- The event would write the status of `f`, or run it again, once `f` has terminated. -/
def Late (f : FrameId) (s : State) (event : SessionCheckpointEvent) : Prop :=
  match event with
  | .HitlAnswered response => s.frames.get_frame_id_by_hitl_id response.id = some f
  | .FrameRunJobStateUpdate g job_state => g = f ∧ job_state.has_terminated
  | .FrameReady g => g = f
  | .FrameRunTerminated g =>
    ∃ n response branches join, s.frames.find g = some n ∧ n.status = .RunCompleted response ∧
      response.result = .Fork branches join ∧ n.parent = some f
  | .ChildFrameTerminated p c => p = f ∧ s.frames.Joins f c
  | _ => False

/-- The frame `f`, if it has terminated in `s`, has the same status after these moves, and no run
of it went to the worker. -/
def StaysTerminated (ckp : SessionCheckpointer) (s : State) (f : FrameId)
    (moves : List SessionMove) : Prop :=
  ∀ n, s.frames.find f = some n → n.status.has_terminated →
    (∃ n', (ckp.run s moves).frames.find f = some n' ∧ n'.status = n.status) ∧
    ∃ sent, (ckp.run s moves).dispatched = s.dispatched ++ sent ∧ ∀ args ∈ sent, args.frame_id ≠ f

variable {s : State} {f : FrameId} {n : FrameNode} {event : SessionCheckpointEvent}

/-- An event that acts on a frame that has terminated is late for it. -/
theorem late_of_actsOn (hf : s.frames.find f = some n) (hn : n.status.has_terminated)
    (h : ActsOn s event f) : Late f s event := by
  cases event with
  | SessionCreated => exact h
  | HitlAnswered response => exact h
  | FrameCreated g =>
    -- only a pending frame starts
    obtain ⟨rfl, hpending⟩ := h
    simp only [statusIs, hf, Option.map_some, Option.getD_some] at hpending
    cases hst : n.status <;> simp_all [FrameStatus.is_pending, FrameStatus.has_terminated]
  | FrameRunJobStateUpdate g job_state => exact ⟨h.1.symm, h.2⟩
  | FrameReady g => exact h.elim
  | FrameRunTerminated g =>
    obtain ⟨m, response, hm, hst, rfl | ⟨⟨branches, join, hfork⟩, hp⟩⟩ := h
    · -- a frame whose run has just completed has not terminated
      rw [hf] at hm
      cases hm
      rw [hst] at hn
      cases hn
    · exact ⟨m, response, branches, join, hm, hst, hfork, hp⟩
  | ChildFrameTerminated p c =>
    obtain ⟨rfl, hjoins⟩ := h
    exact ⟨rfl, hjoins⟩
  | FrameTerminated g => exact h

/-! ## Runs -/

/-- What a run keeps of a frame that has terminated, from the state `s0` on. -/
structure Untouched (f : FrameId) (n : FrameNode) (s0 s : State) : Prop where
  status : ∃ n', s.frames.find f = some n' ∧ n'.status = n.status
  dispatched : ∃ sent, s.dispatched = s0.dispatched ++ sent ∧ ∀ args ∈ sent, args.frame_id ≠ f

theorem Untouched.step {s0 : State} (hn : n.status.has_terminated) (self : SessionCheckpointer)
    (h : Untouched f n s0 s) (hlate : ¬ Late f s event) :
    Untouched f n s0 (self.step s event) := by
  obtain ⟨⟨n', hn', hst⟩, sent, hsent, hother⟩ := h
  constructor
  · have hacts : ¬ ActsOn s event f := fun ha => hlate (late_of_actsOn hn' (by rw [hst, hn]) ha)
    obtain ⟨n'', hn'', hkept⟩ := (step_evolves self s event).node f n' hn'
    exact ⟨n'', hn'', ((hkept (id_lt_next hn')).status hacts).trans hst⟩
  · rcases step_dispatched self s event with hsame | ⟨args, rfl, hadd⟩
    · exact ⟨sent, by rw [hsame, hsent], hother⟩
    · refine ⟨sent ++ [args], by rw [hadd, hsent, List.append_assoc], ?_⟩
      intro a ha
      rcases List.mem_append.mp ha with ha | ha
      · exact hother a ha
      · obtain rfl := List.mem_singleton.mp ha
        exact hlate

/-- **Terminal statuses are absorbing** in every run that takes no event late for the frame. -/
theorem terminal_statuses_are_absorbing (self : SessionCheckpointer) (s : State) (f : FrameId)
    (moves : List SessionMove) (h : self.Along (fun s event => ¬ Late f s event) s moves) :
    StaysTerminated self s f moves := by
  intro n hf hn
  have hstart : Untouched f n s s := ⟨⟨n, hf, rfl⟩, [], by simp, by simp⟩
  have hrun : Untouched f n s (self.run s moves) :=
    self.run_keeps (fun s event hs hlate => hs.step hn self hlate)
      (fun s t hs => ⟨hs.status, hs.dispatched⟩) s moves hstart h
  exact ⟨hrun.status, hrun.dispatched⟩

/-! ## A thread that wakes up -/

/-- A thread that has failed: its first node completed, and its second one failed. -/
def failedThread : State :=
  .new ⟨0⟩ (.ofNodes
    [{ FrameNode.new ⟨0⟩
        { spec_ref := .Graph ⟨"g", 1⟩, data := .GraphThread ⟨"g", 1⟩
          frame_policy := { on_child_failed := .FailIfAtLeastHasFailed 1 } } with
        status := .Failed "au moins 1 enfants ont échoué", children := [⟨1⟩, ⟨2⟩] },
      { FrameNode.new ⟨1⟩ { spec_ref := .Graph ⟨"g", 1⟩, data := .GraphNode ⟨"g", 1⟩ "a" } with
        status := .Completed, parent := some ⟨0⟩ },
      { FrameNode.new ⟨2⟩ { spec_ref := .Graph ⟨"g", 1⟩, data := .GraphNode ⟨"g", 1⟩ "b" } with
        status := .Failed "b", parent := some ⟨0⟩ }]) []

/-- The second notification of the first node comes late: the thread is ready again. -/
theorem a_late_notification_wakes_a_failed_thread :
    ¬ StaysTerminated (plain false) failedThread ⟨0⟩ [.event (.ChildFrameTerminated ⟨0⟩ ⟨1⟩)] := by
  intro h
  obtain ⟨⟨n', hn', hst⟩, -⟩ := h _ rfl rfl
  have hready : ((plain false).run failedThread [.event (.ChildFrameTerminated ⟨0⟩ ⟨1⟩)]).frames.find
      ⟨0⟩ = some { FrameNode.new ⟨0⟩
        { spec_ref := .Graph ⟨"g", 1⟩, data := .GraphThread ⟨"g", 1⟩
          frame_policy := { on_child_failed := .FailIfAtLeastHasFailed 1 } } with
        status := .Ready, children := [⟨1⟩, ⟨2⟩] } := rfl
  rw [hready] at hn'
  cases hn'
  cases hst

/-- Events that no frame waits for leave the thread as it is. -/
theorem a_failed_thread_stays_failed :
    StaysTerminated (plain false) failedThread ⟨0⟩
      [.event (.FrameTerminated ⟨2⟩), .event (.FrameCreated ⟨0⟩)] :=
  terminal_statuses_are_absorbing (plain false) failedThread ⟨0⟩ _
    ⟨fun h => h, fun _ => ⟨fun h => h, fun _ => trivial⟩⟩

end marie.session
