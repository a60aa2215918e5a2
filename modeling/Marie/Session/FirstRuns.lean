-- The first run of a frame. A frame runs on its last snapshot, and a commit
-- makes a snapshot of a frame on top of its last one: no one makes the first.
-- So the snapshots of a new session stay empty, whatever happens to it, and no
-- frame that is ready can run.
import Marie.Session.Actions
import Marie.Session.Quiescence

namespace marie.session

open Program FrameTree

/-! ## Snapshots beside the checkpointer -/

/-- What the cache of the snapshots does on its own: it flushes a container, evicts one, or a
dropped container is written. -/
def SessionSnapshots.Beside (t t' : SessionSnapshots) : Prop :=
  (∃ ref, t' = t.flush ref) ∨ (∃ ref, t' = t.evict ref) ∨ ∃ index, t' = t.writeback index

/-- The snapshots change beside the checkpointer by what their cache does. -/
def LeavesSnapshots (x : RunningSession) : SystemMove → Prop
  | .snapshots t => x.state.snapshots.Beside t
  | _ => True

/-- Nothing is in the store, in the cache or on its way to the store. -/
structure SessionSnapshots.Empty (t : SessionSnapshots) : Prop where
  store : t.store = []
  cache : ∀ ref, t.cache ref = none
  writebacks : t.writebacks = []

namespace SessionSnapshots

variable {t t' : SessionSnapshots} {f : FrameId}

theorem Empty.last (h : t.Empty) : t.last f = none := by
  unfold SessionSnapshots.last
  rw [h.store]
  rfl

theorem Empty.beside (h : t.Empty) (hb : t.Beside t') : t'.Empty := by
  rcases hb with ⟨ref, rfl⟩ | ⟨ref, rfl⟩ | ⟨index, rfl⟩
  · simpa [flush, h.cache ref] using h
  · refine ⟨h.store, fun r => ?_, ?_⟩
    · simp [evict, h.cache]
    · simp [evict, h.cache, h.writebacks, dropped]
  · simpa [writeback, h.writebacks] using h

end SessionSnapshots

/-! ## Runs of a new session -/

/-- The frame can run on what it inherited: it has a snapshot, and the first of its runs got the
channels that the frame had inherited. -/
def RunsOnItsInputs (s : State) (f : FrameId) (n : FrameNode) : Prop :=
  (∃ y, (exec (snapshots (SessionSnapshots.latest f)) s).1 = .ok y) ∧
    ∀ args, s.dispatched.find? (·.frame_id = f) = some args → args.channels = n.inherited_channels

def ReadyFramesRun (s : State) : Prop :=
  ∀ f n, s.frames.find f = some n → n.status = .Ready → RunsOnItsInputs s f n

/-- The session has no snapshot, and gave no frame to the worker. -/
def NeverRan (s : State) : Prop := s.snapshots.Empty ∧ s.dispatched = []

section NeverRan

variable {self : SessionCheckpointer} {decode : Value → Except String FrameResponse}
  {x : RunningSession} {s s' : State} {move : SystemMove} {M : FrameId → FrameStatus → Prop}

/-- An action reads or pushes a snapshot where there is one. -/
theorem Act.snapshots_of_empty (h : Act self M s s') (hs : s.snapshots.Empty) :
    s'.snapshots = s.snapshots := by
  cases h with
  | read hx =>
    rw [hs.last] at hx
    cases hx
  | push hx hy =>
    rw [hs.last] at hx
    cases hx
  | _ => rfl

theorem Acts.snapshots_of_empty (h : Acts self M s s') (hs : s.snapshots.Empty) :
    s'.snapshots = s.snapshots :=
  h.keeps (I := fun a => a.snapshots = s.snapshots)
    (fun a b hab ha => (hab.snapshots_of_empty (by rw [ha]; exact hs)).trans ha) rfl

theorem neverRan_step (hs : NeverRan s) (event : SessionCheckpointEvent) :
    NeverRan (self.step s event) := by
  obtain ⟨s', status, dispatched, hacts, hstep, hrun⟩ := step_acts self s event
  rw [hstep]
  constructor
  · change s'.snapshots.Empty
    rw [hacts.snapshots_of_empty hs.1]
    exact hs.1
  · rcases hrun with hsame | ⟨f, n, y, -, -, hy, -⟩
    · exact hsame.trans hs.2
    · rw [hs.1.last] at hy
      cases hy

theorem neverRan_next (hx : NeverRan x.state) (h : LeavesSnapshots x move) :
    NeverRan (self.next decode x move).state := by
  rcases self.next_cases decode x move with
    ⟨index, event, rfl, -, hnext⟩ | ⟨hitls, t, events, -, hsnapshots, hnext⟩
  · rw [hnext]
    exact neverRan_step (s := x.state.taken index) hx event
  · rw [hnext]
    rcases hsnapshots with rfl | rfl
    · exact hx
    · exact ⟨hx.1.beside h, hx.2⟩

end NeverRan

/-- **No ready frame can run**: in every state that a new session reaches, the frames that are
ready can run on what they inherited only when no frame is ready. -/
theorem ready_frames_run_iff (self : SessionCheckpointer)
    (decode : Value → Except String FrameResponse) (args : NewFrameNodeArgs)
    (initial_channels : List (ChannelName × Value)) (moves : List SystemMove)
    (h : self.Throughout decode LeavesSnapshots (self.start args initial_channels []) moves) :
    ReadyFramesRun (self.runSystem decode (self.start args initial_channels []) moves).state ↔
      ∀ f n, (self.runSystem decode (self.start args initial_channels []) moves).state.frames.find f =
        some n → n.status ≠ .Ready := by
  have hstart : NeverRan (self.start args initial_channels []).state :=
    ⟨⟨rfl, fun _ => rfl, rfl⟩, rfl⟩
  obtain ⟨hempty, -⟩ := self.runSystem_invariant decode (I := fun x => NeverRan x.state)
    (fun x move hx hmove => neverRan_next hx hmove) _ moves hstart h
  constructor
  · intro hrun f n hn hready
    obtain ⟨⟨y, hy⟩, -⟩ := hrun f n hn hready
    rw [exec_snapshots (SessionSnapshots.exec_latest_none hempty.last)] at hy
    cases hy
  · exact fun hnone f n hn hready => absurd hready (hnone f n hn)

/-! ## The root of a new session -/

/-- The root of a session is ready, and cannot run. -/
theorem the_root_cannot_run :
    ¬ ReadyFramesRun (overTwoNodes.runSystem callsNoTool (overTwoNodes.start nodeArgs [] [])
      [.event 0]).state := by
  intro hrun
  obtain ⟨⟨y, hy⟩, -⟩ := hrun ⟨0⟩ _ rfl rfl
  cases hy

/-- A thread that waits for its node has nothing to run. -/
theorem a_waiting_thread_runs_nothing :
    ReadyFramesRun (overTwoNodes.runSystem callsNoTool (overTwoNodes.start threadArgs [] [])
      [.event 0]).state := by
  refine (ready_frames_run_iff overTwoNodes callsNoTool threadArgs [] [.event 0]
    ⟨trivial, fun _ => trivial⟩).mpr ?_
  rintro ⟨id⟩ n hn hready
  have hlt : id < 2 := id_lt_next hn
  obtain rfl | rfl : id = 0 ∨ id = 1 := by omega
  · cases hn
    cases hready
  · cases hn
    cases hready

end marie.session
