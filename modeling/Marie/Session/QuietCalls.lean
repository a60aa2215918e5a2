-- The calls that mark nothing, append nothing and send nothing: they load nodes,
-- fill their channels, write their logs, and read and push snapshots. The joins
-- and the record of a run are made of them.
import Mathlib.Logic.Relation
import Marie.Session.Dispatch
import Marie.Session.System

namespace marie.session

open Program FrameTree

/-! ## Quiet actions -/

/-- An action that marks nothing, appends nothing and sends nothing. -/
inductive QuietAct (ckp : SessionCheckpointer) (s : State) : State → Prop
  | load {t : FrameTree} (ht : Loaded s.frames t) : QuietAct ckp s { s with frames := t }
  | fill (f : FrameId) (channels : FrameNode → Channels) (superstep : FrameNode → Nat) :
    QuietAct ckp s { s with frames := s.frames.edit f fun n =>
      { n with inherited_channels := channels n, superstep := superstep n } }
  | log (f : FrameId) (entries : List RunLog → List RunLog) :
    QuietAct ckp s { s with frames := s.frames.edit f fun n => { n with logs := entries n.logs } }
  | number (next_id : Nat) (hitls : List (HitlId × Hitl)) :
    QuietAct ckp s { s with next_id, hitls }
  | read {q : FrameId} {x : Snapshot} (hx : s.snapshots.last q = some x) :
    QuietAct ckp s { s with snapshots := s.snapshots.insert x.ref ⟨x, false⟩ }
  | push {q : FrameId} {x y : Snapshot} (hx : s.snapshots.last q = some x)
    (hy : y.ref = ⟨ckp.session_id, q, x.superstep + 1⟩) :
    QuietAct ckp s { s with snapshots := ckp.push_into s.snapshots y }

/-- Some quiet actions, one after the other. -/
def Calm (ckp : SessionCheckpointer) : State → State → Prop := Relation.ReflTransGen (QuietAct ckp)

section Quiet

variable {self : SessionCheckpointer} {s s' s'' : State} {f : FrameId}

theorem Calm.refl (s : State) : Calm self s s := Relation.ReflTransGen.refl

theorem Calm.trans (h : Calm self s s') (h' : Calm self s' s'') : Calm self s s'' :=
  Relation.ReflTransGen.trans h h'

theorem QuietAct.calm (h : QuietAct self s s') : Calm self s s' := Relation.ReflTransGen.single h

/-- What each quiet action keeps, the actions keep. -/
theorem Calm.keeps {I : State → Prop} (hact : ∀ s s', QuietAct self s s' → I s → I s')
    (h : Calm self s s') (hs : I s) : I s' := by
  induction h with
  | refl => exact hs
  | tail _ hlast ih => exact hact _ _ hlast ih

/-- A load of one node. -/
theorem calm_loaded (s : State) (f : FrameId) : Calm self s (s.loaded f) :=
  (QuietAct.load ((Loaded.refl _).load f)).calm

/-! ## Calls on the tree and on the snapshots -/

/-- A program that is quiet from each state. -/
theorem calm_of {α : Type} {m : Ckp α} (h : ∀ s', Calm self s' (exec m s').2) :
    Keeps (Calm self s) m (fun _ => True) :=
  fun s' hs => ⟨hs.trans (h s'), fun _ _ => trivial⟩

theorem calm_get {α : Type} (f : FrameId) (φ : FrameNode → α) (s' : State) :
    Calm self s' (exec (frames (do pure (φ (← FrameTree.get f)))) s').2 := by
  cases hn : s'.frames.find f with
  | none =>
    rw [exec_frames (exec_bind_error (exec_get_none hn))]
    exact .refl _
  | some n =>
    rw [exec_frames (exec_get_map φ hn)]
    exact calm_loaded s' f

theorem calm_read {α : Type} (f : FrameId) (φ : FrameNode → α) :
    Keeps (Calm self s) (frames (do pure (φ (← FrameTree.get f)))) (fun _ => True) :=
  calm_of (calm_get f φ)

theorem calm_asks {α : Type} (φ : FrameTree → α) :
    Keeps (Calm self s) (frames (asks φ)) (fun _ => True) :=
  calm_of fun _ => .refl _

theorem calm_common_spec_of (graphs : Graphs) (f : FrameId) :
    Keeps (Calm self s) (frames (common_spec_of graphs f)) (fun _ => True) := by
  refine calm_of fun s' => ?_
  have hread := keeps_common_spec_of
    (I := fun t => Calm self s' { s' with frames := t })
    (fun t id ht => ht.trans (calm_loaded { s' with frames := t } id)) graphs f
  exact hread.run (s := s'.frames) (.refl s')

theorem calm_try_get (session_id : SessionId) (f : FrameId) :
    Keeps (Calm self s) (frames (try_get session_id f)) (fun _ => True) := by
  refine calm_of fun s' => ?_
  have hread := keeps_try_get
    (I := fun t => Calm self s' { s' with frames := t })
    (fun t id ht => ht.trans (calm_loaded { s' with frames := t } id)) session_id f
  exact hread.run (s := s'.frames) (.refl s')

/-- A write is a load and the change. -/
theorem calm_write {φ : FrameNode → FrameNode}
    (hφ : ∀ s', QuietAct self s' { s' with frames := s'.frames.edit f φ }) :
    Keeps (Calm self s) (frames (write f φ)) (fun _ => True) := by
  refine calm_of fun s' => ?_
  cases hn : s'.frames.find f with
  | none =>
    rw [exec_frames (exec_write_none hn)]
    exact .refl _
  | some n =>
    rw [exec_frames (exec_write hn)]
    exact (calm_loaded s' f).trans (hφ (s'.loaded f)).calm

theorem calm_fill {φ : FrameNode → FrameNode}
    (hφ : ∀ n, φ n = { n with
      inherited_channels := (φ n).inherited_channels, superstep := (φ n).superstep }) :
    Keeps (Calm self s) (frames (write f φ)) (fun _ => True) := by
  have heq : φ = fun n => { n with
      inherited_channels := (φ n).inherited_channels, superstep := (φ n).superstep } := funext hφ
  rw [heq]
  exact calm_write fun _ => .fill f _ _

theorem calm_log (entries : List RunLog → List RunLog) :
    Keeps (Calm self s) (frames (write f fun n => { n with logs := entries n.logs }))
      (fun _ => True) :=
  calm_write fun _ => .log f entries

theorem calm_on_resume_policy (f : FrameId) :
    Keeps (Calm self s) (frames (on_resume_policy f)) (fun _ => True) := by
  refine calm_of fun s' => ?_
  have hread : Keeps (fun t => Calm self s' { s' with frames := t }) (on_resume_policy f)
      (fun _ => True) :=
    (keeps_read (fun t id ht => ht.trans (calm_loaded { s' with frames := t } id)) f _).andThen
      fun _ => keeps_pure trivial
  exact hread.run (s := s'.frames) (.refl s')

theorem calm_set_resume_policy (f : FrameId) (resume_policy : ResumePolicy) :
    Keeps (Calm self s) (frames (set_resume_policy f resume_policy)) (fun _ => True) := by
  refine calm_of fun s' => ?_
  have hread := keeps_set_resume_policy
    (I := fun t => Calm self s' { s' with frames := t })
    (fun t id ht => ht.trans (calm_loaded { s' with frames := t } id)) f resume_policy
  exact hread.run (s := s'.frames) (.refl s')

theorem calm_set_reduce_policy (f : FrameId) (reduce_policy : ReducePolicy) :
    Keeps (Calm self s) (frames (set_reduce_policy f reduce_policy)) (fun _ => True) := by
  refine calm_of fun s' => ?_
  have hread := keeps_set_reduce_policy
    (I := fun t => Calm self s' { s' with frames := t })
    (fun t id ht => ht.trans (calm_loaded { s' with frames := t } id)) f reduce_policy
  exact hread.run (s := s'.frames) (.refl s')

theorem calm_next_id : Keeps (Calm self s) next_id (fun _ => True) :=
  calm_of fun s' => (QuietAct.number (s'.next_id + 1) s'.hitls).calm

theorem calm_request (ckp : SessionCheckpointer) (hitl : Hitl) :
    Keeps (Calm self s) (ckp.request hitl) (fun _ => True) := by
  refine calm_of fun s' => ?_
  cases h : ckp.upsert_hitl_frame ⟨s'.next_id⟩ hitl with
  | none =>
    rw [exec_request h]
    exact (QuietAct.number (s'.next_id + 1) (s'.hitls ++ [(⟨s'.next_id⟩, hitl)])).calm
  | some error =>
    rw [exec_request_refused h]
    exact (QuietAct.number (s'.next_id + 1) s'.hitls).calm

/-- The last snapshot, when there is one. -/
theorem calm_latest (q : FrameId) :
    Keeps (Calm self s) (snapshots (SessionSnapshots.latest q)) (fun _ => True) := by
  refine calm_of fun s' => ?_
  cases hx : s'.snapshots.last q with
  | none =>
    rw [exec_snapshots (SessionSnapshots.exec_latest_none hx)]
    exact .refl _
  | some x =>
    rw [exec_snapshots (SessionSnapshots.exec_latest hx)]
    exact (QuietAct.read hx).calm

theorem calm_inherit_from (source f : FrameId) :
    Keeps (Calm self s) (self.inherit_from source f) (fun _ => True) := by
  unfold SessionCheckpointer.inherit_from
  refine (calm_latest source).andThen fun x => (calm_common_spec_of _ f).andThen fun spec => ?_
  exact calm_fill fun _ => by rfl

theorem calm_inherit_channels (policy : FramePolicy) (p f : FrameId) :
    Keeps (Calm self s) (self.inherit_channels policy p f) (fun _ => True) :=
  self.keeps_inherit_channels fun source => calm_inherit_from source f

theorem calm_write_to_inherited_channels (f : FrameId) (values : List (ChannelName × Value)) :
    Keeps (Calm self s) (self.write_to_inherited_channels f values) (fun _ => True) := by
  unfold SessionCheckpointer.write_to_inherited_channels
  refine (calm_common_spec_of _ f).andThen fun spec => (calm_try_get _ f).andThen fun _ => ?_
  exact calm_fill fun _ => by rfl

/-! ### Joins -/

theorem calm_drain_pending_accumulators (f : FrameId) (relevants : List FrameId) :
    Keeps (Calm self s) (self.drain_pending_accumulators f relevants) (fun _ => True) := by
  unfold SessionCheckpointer.drain_pending_accumulators
  refine (calm_common_spec_of _ _).andThen fun spec => ?_
  refine (keeps_foldlM relevants [] fun m x _ => ?_).andThen fun _ => keeps_pure trivial
  unfold SessionCheckpointer.drain_child
  exact (calm_common_spec_of _ _).andThen fun _ => (calm_latest _).andThen fun _ =>
    keeps_pure trivial

/-- A commit reads the last snapshot, and pushes one on top of it. -/
theorem calm_commit_snapshot (f : FrameId) (expected : Nat) (updates : List ChannelUpdate)
    (join_sources : List SnapshotRef) :
    Keeps (Calm self s) (self.commit_snapshot f expected updates join_sources)
      (fun _ => True) := by
  refine calm_of fun s' => ?_
  cases hx : s'.snapshots.last f with
  | none =>
    unfold SessionCheckpointer.commit_snapshot
    rw [exec_bind_error (exec_snapshots (SessionSnapshots.exec_latest_none hx))]
    exact .refl _
  | some x =>
    have hid : x.frame_id = f := (SessionSnapshots.latest_snapshot_spec hx).1.2.1
    by_cases hstale : x.superstep = expected
    · subst hstale
      unfold SessionCheckpointer.commit_snapshot
      rw [exec_bind_ok (exec_snapshots (SessionSnapshots.exec_latest hx)), if_neg (by simp)]
      let s1 : State := { s' with snapshots := s'.snapshots.insert x.ref ⟨x, false⟩ }
      have hread : Calm self s' s1 := (QuietAct.read hx).calm
      refine hread.trans ?_
      -- the reads of the spec leave the snapshot that was read
      have hup : Keeps (fun s2 => Calm self s1 s2 ∧ s2.snapshots.last f = some x)
          (self.apply_updates f x.channels updates) (fun _ => True) := by
        unfold SessionCheckpointer.apply_updates
        split
        · exact keeps_pure trivial
        · refine Keeps.andThen (Q := fun _ => True) (fun s2 hs2 => ?_) fun _ => keeps_pure trivial
          exact ⟨⟨(calm_common_spec_of _ _).run hs2.1, hs2.2⟩, fun _ _ => trivial⟩
      refine hup.before (J := Calm self s1) (fun _ h => h.1) ?_ s1 ⟨.refl s1, hx⟩
      intro channels _ s2 hs2
      split
      · exact hs2.1
      · rw [self.exec_push]
        exact hs2.1.trans (QuietAct.push hs2.2 rfl).calm
    · rw [self.exec_commit_stale hx hstale]
      exact (QuietAct.read hx).calm

theorem calm_resolve_pending_log (f : FrameId) (relevants : List FrameId) :
    Keeps (Calm self s) (self.resolve_pending_log f relevants) (fun _ => True) := by
  unfold SessionCheckpointer.resolve_pending_log
  refine (calm_read f _).andThen fun o => ?_
  split
  · rename_i pending
    induction relevants with
    | nil => exact keeps_pure trivial
    | cons x relevants ih =>
      unfold SessionCheckpointer.resolve_from
      refine (calm_read x _).andThen fun spec_ref => (calm_latest _).andThen fun snapshot => ?_
      refine Keeps.andThen (Q := fun _ => True) ?_ fun value => ?_
      · unfold SessionCheckpointer.resolved_by
        split
        · exact keeps_pure trivial
        · exact keeps_pure trivial
        · exact keeps_pure trivial
        · exact (calm_common_spec_of _ _).andThen fun _ => keeps_pure trivial
        · exact keeps_pure trivial
      · split
        · exact calm_log _
        · exact ih
  · exact keeps_pure trivial

theorem calm_join_last_child (f last_child : FrameId) :
    Keeps (Calm self s) (self.join_last_child f last_child) (fun _ => True) := by
  unfold SessionCheckpointer.join_last_child SessionCheckpointer.commit_last_child
  refine (calm_read _ _).andThen fun status => ?_
  split
  · refine (calm_latest _).andThen fun x => (calm_latest _).andThen fun y => ?_
    refine (calm_drain_pending_accumulators _ _).andThen fun updates => ?_
    exact (calm_commit_snapshot _ _ _ _).andThen fun _ => calm_resolve_pending_log _ _
  · exact keeps_pure trivial

theorem calm_join_children (f : FrameId) :
    Keeps (Calm self s) (self.join_children f) (fun _ => True) := by
  unfold SessionCheckpointer.join_children
  refine (calm_latest _).andThen fun x => (calm_asks _).andThen fun ids => ?_
  refine (keeps_filterM ids fun y _ => ?_).andThen fun relevants => ?_
  · exact (calm_read y _).andThen fun _ => keeps_pure trivial
  refine (keeps_mapM relevants fun y _ => ?_).andThen fun sources => ?_
  · exact (calm_latest _).andThen fun _ => keeps_pure trivial
  refine (calm_drain_pending_accumulators _ _).andThen fun updates => ?_
  exact (calm_commit_snapshot _ _ _ _).andThen fun _ => calm_resolve_pending_log _ _

/-! ### The record of a run -/

theorem calm_record_run (f : FrameId)
    (response : FrameResponse) :
    Keeps (Calm self s) (self.record_run f response) (fun _ => True) := by
  unfold SessionCheckpointer.record_run SessionCheckpointer.commit_updates
  refine Keeps.andThen (Q := fun _ => True) ?_ fun _ => ?_
  · split
    · exact keeps_pure trivial
    · refine (calm_latest _).andThen fun x => ?_
      exact (calm_commit_snapshot _ _ _ _).andThen fun _ => keeps_pure trivial
  · unfold append_logs
    split
    · exact keeps_pure trivial
    · exact calm_log (· ++ response.new_logs)

end Quiet

end marie.session
