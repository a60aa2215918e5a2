-- The runs of the calls that the handlers are made of: on the frames, on the
-- snapshots, and the commit of a snapshot.
import Marie.Session.Checkpointer
import Marie.Session.FrameLaws

namespace marie.session

open Program FrameTree

variable {s : State} {f : FrameId}

theorem exec_frames {α : Type} {m : Tree α} {r : Except Fault α} {t : FrameTree}
    (h : exec m s.frames = (r, t)) : exec (frames m) s = (r, { s with frames := t }) := by
  change ((exec m s.frames).1, { s with frames := (exec m s.frames).2 }) = _
  rw [h]

theorem exec_snapshots {α : Type} {m : Snaps α} {r : Except Fault α} {t : SessionSnapshots}
    (h : exec m s.snapshots = (r, t)) : exec (snapshots m) s = (r, { s with snapshots := t }) := by
  change ((exec m s.snapshots).1, { s with snapshots := (exec m s.snapshots).2 }) = _
  rw [h]

theorem exec_emit (event : SessionCheckpointEvent) (s : State) :
    exec (emit event) s = (.ok (), { s with listeners := s.listeners ++ [event] }) := rfl

/-! ## Requests to a human -/

section Requests

variable {self : SessionCheckpointer} {hitl : Hitl}

/-- The state once a request is written. -/
def State.requested (s : State) (hitl : Hitl) : State :=
  { s with next_id := s.next_id + 1, hitls := s.hitls ++ [(⟨s.next_id⟩, hitl)] }

/-- The state once a request is refused: its id is drawn all the same. -/
def State.refused (s : State) : State := { s with next_id := s.next_id + 1 }

theorem exec_next_id (s : State) : exec next_id s = (.ok s.next_id, s.refused) := rfl

theorem exec_request (h : self.upsert_hitl_frame ⟨s.next_id⟩ hitl = none) :
    exec (self.request hitl) s = (.ok ⟨s.next_id⟩, s.requested hitl) := by
  rw [SessionCheckpointer.request, exec_bind_ok (exec_next_id s), h]
  rfl

theorem exec_request_refused {error : StoreError}
    (h : self.upsert_hitl_frame ⟨s.next_id⟩ hitl = some error) :
    exec (self.request hitl) s = (.error (.error (.HitlError (.StorageError error))), s.refused) := by
  rw [SessionCheckpointer.request, exec_bind_ok (exec_next_id s), h]
  rfl

end Requests

/-! ## Marks -/

/-- The state once the status of `f` is written. -/
def State.marked (s : State) (f : FrameId) (status : FrameStatus) : State :=
  { s with frames := (s.frames.load f).edit f (fun n => { n with status }) }

/-- The state once `events` are sent. -/
def State.emits (s : State) (events : List SessionCheckpointEvent) : State :=
  { s with listeners := s.listeners ++ events }

section Marks

variable {n : FrameNode}

theorem find_marked (h : s.frames.find f = some n) (status : FrameStatus) (x : FrameId) :
    (s.marked f status).frames.find x = if x = f then some { n with status } else s.frames.find x :=
  find_write (f := fun n => { n with status }) h x

theorem exec_set_status (h : s.frames.find f = some n) (status : FrameStatus) :
    exec (frames (set_status f status)) s = (.ok (), s.marked f status) :=
  exec_frames (exec_write h)

theorem exec_set_status_none (h : s.frames.find f = none) (status : FrameStatus) :
    exec (frames (set_status f status)) s =
      (.error (.panic "frame introuvable ou erreur de stockage"), s) :=
  exec_frames (exec_write_none h)

theorem exec_mark_ready (h : s.frames.find f = some n) :
    exec (mark_ready_to_run_frame f) s = (.ok (), (s.marked f .Ready).emits [.FrameReady f]) := by
  unfold mark_ready_to_run_frame
  rw [exec_bind_ok (exec_set_status h _)]
  rfl

theorem exec_mark_failed (h : s.frames.find f = some n) (err : String) :
    exec (mark_failed_frame err f) s =
      (.ok (), (s.marked f (.Failed err)).emits [.FrameTerminated f]) := by
  unfold mark_failed_frame
  rw [exec_bind_ok (exec_set_status h _)]
  rfl

/-- A frame that completes tells its parent at once; `on_frame_terminated` tells it again. -/
theorem exec_mark_completed (h : s.frames.find f = some n) :
    exec (mark_completed_frame f) s =
      (.ok (), (s.marked f .Completed).emits (.FrameTerminated f ::
        (n.parent.map (.ChildFrameTerminated · f)).toList)) := by
  have hparent : (s.marked f .Completed).frames.parent_of f = n.parent := by
    obtain ⟨c, hc, rfl⟩ := resident_load h
    simp [State.marked, parent_of, edit, hc]
  unfold mark_completed_frame
  rw [exec_bind_ok (exec_set_status h _), exec_bind_ok (exec_emit _ _),
    exec_bind_ok (exec_frames (exec_asks _ _))]
  simp only [State.emits] at hparent ⊢
  cases hp : n.parent with
  | none => simp [hparent, hp]
  | some p => simp [hparent, hp, exec_emit]

end Marks

/-! ## Snapshots -/

namespace SessionSnapshots

variable {t : SessionSnapshots} {x : Snapshot}

theorem mem_upsert_snapshot {x y : Snapshot} {rows : SnapshotRows} :
    y ∈ rows.upsert_snapshot x ↔ y = x ∨ (y ∈ rows ∧ y.ref ≠ x.ref) := by
  simp [SnapshotRows.upsert_snapshot]

theorem latest_snapshot_spec {sid : SessionId} {rows : SnapshotRows} {x : Snapshot}
    (h : rows.latest_snapshot sid f = some x) :
    (x.session_id = sid ∧ x.frame_id = f ∧ x ∈ rows) ∧
      ∀ y ∈ rows, y.session_id = sid → y.frame_id = f → y.superstep ≤ x.superstep := by
  have hmem := List.argmax_mem (Option.mem_def.mpr h)
  simp only [List.mem_filter, decide_eq_true_eq] at hmem
  refine ⟨⟨hmem.2.1, hmem.2.2, hmem.1⟩, ?_⟩
  intro y hy hsid hfid
  have hy' : y ∈ rows.filter (fun s => s.session_id = sid ∧ s.frame_id = f) := by
    simp [hy, hsid, hfid]
  exact List.le_of_mem_argmax hy' (Option.mem_def.mpr h)

theorem exists_latest_snapshot {sid : SessionId} {rows : SnapshotRows} {x : Snapshot}
    (hsid : x.session_id = sid) (hfid : x.frame_id = f) (hx : x ∈ rows) :
    ∃ y, rows.latest_snapshot sid f = some y := by
  cases h : rows.latest_snapshot sid f with
  | some y => exact ⟨y, rfl⟩
  | none =>
    have hnil := List.argmax_eq_none.mp h
    have : x ∈ rows.filter (fun s => s.session_id = sid ∧ s.frame_id = f) := by
      simp [hx, hsid, hfid]
    rw [hnil] at this
    cases this

theorem latest_upsert_other {sid : SessionId} {rows : SnapshotRows} (hx : x.frame_id ≠ f) :
    (rows.upsert_snapshot x).latest_snapshot sid f = rows.latest_snapshot sid f := by
  have hrows : (rows.upsert_snapshot x).filter (fun s => s.session_id = sid ∧ s.frame_id = f) =
      rows.filter (fun s => s.session_id = sid ∧ s.frame_id = f) := by
    rw [SnapshotRows.upsert_snapshot, List.filter_cons, if_neg (by simp [hx]), List.filter_filter]
    apply List.filter_congr
    intro y _
    by_cases hy : y.frame_id = f
    · have hne : y.ref ≠ x.ref := fun h => hx (by rw [← hy, ← (SnapshotRef.mk.inj h).2.1])
      simp [hne]
    · simp [hy]
  unfold SnapshotRows.latest_snapshot
  rw [hrows]

theorem latest_upsert_self (rows : SnapshotRows)
    (hnew : ∀ y ∈ rows, y.session_id = x.session_id → y.frame_id = x.frame_id →
      y.superstep < x.superstep) :
    (rows.upsert_snapshot x).latest_snapshot x.session_id x.frame_id = some x := by
  have hx : x ∈ rows.upsert_snapshot x := mem_upsert_snapshot.mpr (.inl rfl)
  obtain ⟨y, hy⟩ := exists_latest_snapshot rfl rfl hx
  obtain ⟨⟨hsid, hfid, hmem⟩, hmax⟩ := latest_snapshot_spec hy
  rcases mem_upsert_snapshot.mp hmem with rfl | ⟨hrow, -⟩
  · exact hy
  · have hlt := hnew y hrow hsid hfid
    have hle := hmax x hx rfl rfl
    omega

/-- The last snapshot of `f` in the store. -/
def last (t : SessionSnapshots) (f : FrameId) : Option Snapshot :=
  t.store.latest_snapshot t.session_id f

theorem exec_latest (h : t.last f = some x) :
    exec (latest f) t = (.ok x, t.insert x.ref ⟨x, false⟩) := by
  unfold latest
  rw [exec_bind_ok (exec_get t)]
  change t.store.latest_snapshot t.session_id f = some x at h
  simp only [h]
  rfl

theorem exec_latest_none (h : t.last f = none) :
    exec (latest f) t =
      (.error (.error (.StorageError (.SnapshotNotFound t.session_id f 0))), t) := by
  unfold latest
  rw [exec_bind_ok (exec_get t)]
  change t.store.latest_snapshot t.session_id f = none at h
  simp only [h]
  rfl

end SessionSnapshots

/-! ## Commits -/

namespace SessionCheckpointer

variable (self : SessionCheckpointer)

/-- The snapshot that a commit of `updates` on the snapshot `x` pushes. -/
def pushed (spec : CommonSpec) (x : Snapshot) (updates : List ChannelUpdate)
    (join_sources : List SnapshotRef) : Snapshot where
  session_id := self.session_id
  frame_id := x.frame_id
  superstep := x.superstep + 1
  channels := commit_channels spec x.channels updates
  join_sources := join_sources

/-- The snapshots of the session after the push of `x`. -/
def push_into (t : SessionSnapshots) (x : Snapshot) : SessionSnapshots :=
  if self.flush_on_push then (t.insert x.ref ⟨x, true⟩).flush x.ref
  else t.insert x.ref ⟨x, true⟩

theorem exec_push (x : Snapshot) (s : State) :
    exec (self.push x) s = (.ok x.ref, { s with snapshots := self.push_into s.snapshots x }) := by
  have hpush : exec (SessionSnapshots.push x) s.snapshots =
      (.ok x.ref, s.snapshots.insert x.ref ⟨x, true⟩) := rfl
  unfold push push_into
  rw [exec_bind_ok (exec_snapshots hpush), exec_bind_ok (exec_modify _ _)]
  cases self.flush_on_push <;> rfl

/-- A commit that names another superstep than the last one. -/
theorem exec_commit_stale {x : Snapshot} {expected : Nat} {updates : List ChannelUpdate}
    {join_sources : List SnapshotRef} (h : s.snapshots.last f = some x)
    (hne : x.superstep ≠ expected) :
    exec (self.commit_snapshot f expected updates join_sources) s =
      (.error (.error (.StaleSuperstep expected x.superstep)),
        { s with snapshots := s.snapshots.insert x.ref ⟨x, false⟩ }) := by
  unfold commit_snapshot
  rw [exec_bind_ok (exec_snapshots (SessionSnapshots.exec_latest h)), if_pos hne]
  rfl

/-- The frames after a read of the spec of `f`: the node of `f` may have been loaded. -/
def SameFrames (f : FrameId) (t t' : FrameTree) : Prop := t' = t ∨ t' = t.load f

theorem exec_apply_updates {spec : CommonSpec} (channels : Channels)
    (updates : List ChannelUpdate) (hspec : spec_at self.graphs s.frames f = some spec) :
    ∃ t, SameFrames f s.frames t ∧ exec (self.apply_updates f channels updates) s =
      (.ok (commit_channels spec channels updates), { s with frames := t }) := by
  unfold apply_updates
  cases updates with
  | nil => exact ⟨s.frames, .inl rfl, rfl⟩
  | cons u updates =>
    refine ⟨s.frames.load f, .inr rfl, ?_⟩
    rw [if_neg (by simp), exec_bind_ok (exec_frames (exec_common_spec_of hspec))]
    rfl

/-- A commit that names the last superstep, with room for one more. -/
theorem exec_commit {x : Snapshot} {spec : CommonSpec} (updates : List ChannelUpdate)
    (join_sources : List SnapshotRef) (h : s.snapshots.last f = some x) (hf : x.frame_id = f)
    (hspec : spec_at self.graphs s.frames f = some spec) (hroom : x.superstep + 1 < 2 ^ 32) :
    ∃ t, SameFrames f s.frames t ∧
      exec (self.commit_snapshot f x.superstep updates join_sources) s =
        (.ok (self.pushed spec x updates join_sources).ref,
          { s with
            frames := t
            snapshots := self.push_into (s.snapshots.insert x.ref ⟨x, false⟩)
              (self.pushed spec x updates join_sources) }) := by
  obtain ⟨t, ht, hup⟩ := self.exec_apply_updates
    (s := { s with snapshots := s.snapshots.insert x.ref ⟨x, false⟩ }) x.channels updates hspec
  refine ⟨t, ht, ?_⟩
  unfold commit_snapshot
  rw [exec_bind_ok (exec_snapshots (SessionSnapshots.exec_latest h)), if_neg (by simp),
    exec_bind_ok hup, if_neg (by omega), exec_push, pushed, hf]

/-- A snapshot that is pushed and flushed is the last one of its frame. -/
theorem last_push_into {t : SessionSnapshots} {x : Snapshot} (hflush : self.flush_on_push = true)
    (hsid : t.session_id = self.session_id) (hx : t.last f = some x) (spec : CommonSpec)
    (updates : List ChannelUpdate) (join_sources : List SnapshotRef) :
    (self.push_into (t.insert x.ref ⟨x, false⟩) (self.pushed spec x updates join_sources)).last f =
        some (self.pushed spec x updates join_sources) ∧
      (self.push_into (t.insert x.ref ⟨x, false⟩)
        (self.pushed spec x updates join_sources)).session_id = self.session_id := by
  obtain ⟨⟨-, hid, -⟩, hmax⟩ := SessionSnapshots.latest_snapshot_spec hx
  have hself := SessionSnapshots.latest_upsert_self t.store
    (x := self.pushed spec x updates join_sources) (by
      intro y hy hys hyf
      have hle := hmax y hy (by rw [hsid]; exact hys) (by rw [← hid]; exact hyf)
      exact Nat.lt_succ_of_le hle)
  unfold push_into
  rw [if_pos hflush]
  constructor
  · unfold SessionSnapshots.last
    rw [← hid]
    simp only [SessionSnapshots.flush, SessionSnapshots.insert, if_true, hsid]
    exact hself
  · simp [SessionSnapshots.flush, SessionSnapshots.insert, hsid]

end SessionCheckpointer

end marie.session
