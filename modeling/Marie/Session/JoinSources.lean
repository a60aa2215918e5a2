-- Where the snapshot of a join comes from: which snapshots the handler of a
-- termination pushes, and the references that it gives as their sources.
import Marie.Session.FanIn
import Marie.Session.JoinResult

namespace marie.session

open Program FrameTree

/-! ## Snapshots that are pushed -/

/-- Between `s` and `s'` the snapshot of `new` is pushed, which has no row before, and no other:
whatever else enters the cache is a row of the store. -/
structure Pushes (ckp : SessionCheckpointer) (s : State) (new : Option Snapshot) (s' : State) :
    Prop where
  session_id : s'.snapshots.session_id = s.snapshots.session_id
  fresh : ∀ y ∈ new, ∀ z ∈ s.snapshots.store,
    z.session_id = s.snapshots.session_id → z.ref ≠ y.ref
  store : s'.snapshots.store =
    (new.map (ckp.rowsAfter s.snapshots.store)).getD s.snapshots.store
  pushed : ∀ y ∈ new, s'.snapshots.cache y.ref = some ⟨y, !ckp.flush_on_push⟩
  other : ∀ r k, (∀ y ∈ new, r ≠ y.ref) → s'.snapshots.cache r = some k →
    s.snapshots.cache r = some k ∨
      (k.dirty = false ∧ k.snapshot.ref = r ∧ k.snapshot ∈ s'.snapshots.store)

section Pushes

variable {self : SessionCheckpointer} {s s' s'' : State} {o : Option Snapshot} {x y : Snapshot}
  {f : FrameId}

theorem Pushes.refl (s : State) : Pushes self s none s :=
  ⟨rfl, by simp, rfl, by simp, fun _ _ _ h => .inl h⟩

/-- What the rest of the state is does not matter. -/
theorem Pushes.same (h : Pushes self s o s') (heq : s''.snapshots = s'.snapshots) :
    Pushes self s o s'' := by
  constructor
  · rw [heq, h.session_id]
  · exact h.fresh
  · rw [heq, h.store]
  · rw [heq]
    exact h.pushed
  · rw [heq]
    exact h.other

/-- A last snapshot enters the cache. -/
theorem Pushes.read (h : Pushes self s o s') (hx : s'.snapshots.last f = some x) :
    Pushes self s o { s' with snapshots := s'.snapshots.insert x.ref ⟨x, false⟩ } := by
  obtain ⟨⟨hsid, -, hmem⟩, -⟩ := SessionSnapshots.latest_snapshot_spec hx
  refine ⟨h.session_id, h.fresh, h.store, ?_, ?_⟩
  · intro y hy
    by_cases href : y.ref = x.ref
    · have hstore := h.store
      rw [Option.mem_def.mp hy, Option.map_some, Option.getD_some] at hstore
      rw [hstore] at hmem
      unfold SessionCheckpointer.rowsAfter at hmem
      by_cases hflush : self.flush_on_push = true
      · rw [if_pos hflush] at hmem
        rcases SessionSnapshots.mem_upsert_snapshot.mp hmem with rfl | ⟨-, hne⟩
        · simp [SessionSnapshots.insert, hflush]
        · exact absurd href.symm hne
      · rw [if_neg hflush] at hmem
        exact absurd href.symm (h.fresh y hy x hmem (hsid.trans h.session_id))
    · simpa [SessionSnapshots.insert, href] using h.pushed y hy
  · intro r k hr hk
    by_cases href : r = x.ref
    · subst href
      simp only [SessionSnapshots.insert, if_true, Option.some.injEq] at hk
      subst hk
      exact .inr ⟨rfl, rfl, hmem⟩
    · simp only [SessionSnapshots.insert, if_neg href] at hk
      exact h.other r k hr hk

theorem pushes_frames {α : Type} (m : Tree α) :
    Keeps (Pushes self s o) (frames m) (fun _ => True) := by
  intro s' h
  exact ⟨h.same rfl, fun _ _ => trivial⟩

theorem pushes_emit (event : SessionCheckpointEvent) :
    Keeps (Pushes self s o) (emit event) (fun _ => True) := by
  intro s' h
  exact ⟨h.same rfl, fun _ _ => trivial⟩

theorem pushes_latest (f : FrameId) :
    Keeps (Pushes self s o) (snapshots (SessionSnapshots.latest f)) (fun _ => True) := by
  intro s' h
  cases hx : s'.snapshots.last f with
  | none =>
    rw [exec_snapshots (SessionSnapshots.exec_latest_none hx)]
    exact ⟨h, fun _ _ => trivial⟩
  | some x =>
    rw [exec_snapshots (SessionSnapshots.exec_latest hx)]
    exact ⟨h.read hx, fun _ _ => trivial⟩

theorem pushes_resolve_pending_log (relevants : List FrameId) :
    Keeps (Pushes self s o) (self.resolve_pending_log f relevants) (fun _ => True) := by
  unfold SessionCheckpointer.resolve_pending_log
  apply (pushes_frames _).andThen
  intro pending
  cases pending with
  | none => exact keeps_pure trivial
  | some pending =>
    induction relevants with
    | nil => exact keeps_pure trivial
    | cons c relevants ih =>
      unfold SessionCheckpointer.resolve_from
      apply (pushes_frames _).andThen
      intro spec_ref
      apply (pushes_latest c).andThen
      intro snapshot
      apply Keeps.andThen (Q := fun _ => True)
      · unfold SessionCheckpointer.resolved_by
        split
        all_goals try exact keeps_pure trivial
        exact (pushes_frames _).andThen fun _ => keeps_pure trivial
      · intro value
        cases value with
        | none => exact ih
        | some value => exact pushes_frames _

theorem pushes_mark_ready (f : FrameId) :
    Keeps (Pushes self s o) (mark_ready_to_run_frame f) (fun _ => True) := by
  unfold mark_ready_to_run_frame
  exact (pushes_frames _).andThen fun _ => pushes_emit _

theorem pushes_resume_frame (f : FrameId) :
    Keeps (Pushes self s o) (SessionCheckpointer.resume_frame f) (fun _ => True) := by
  unfold SessionCheckpointer.resume_frame
  apply (pushes_frames _).andThen
  intro policy
  cases policy with
  | RunFrame => exact pushes_mark_ready f
  | MarkComplete =>
    unfold mark_completed_frame
    apply (pushes_frames _).andThen
    intro _
    apply (pushes_emit _).andThen
    intro _
    apply (pushes_frames _).andThen
    intro parent
    cases parent with
    | none => exact keeps_pure trivial
    | some parent => exact pushes_emit _

/-- A snapshot past the last one of its frame is pushed. -/
theorem Pushes.push (h : Pushes self s none s') (hx : s'.snapshots.last f = some x)
    (hframe : y.frame_id = f) (hstep : x.superstep < y.superstep) {t : FrameTree} :
    Pushes self s (some y) { s' with
      frames := t
      snapshots := self.push_into (s'.snapshots.insert x.ref ⟨x, false⟩) y } := by
  have hread := h.read hx
  have hstore : s'.snapshots.store = s.snapshots.store := h.store
  have hsession : (self.push_into (s'.snapshots.insert x.ref ⟨x, false⟩) y).session_id =
      s'.snapshots.session_id := by
    unfold SessionCheckpointer.push_into
    split <;> simp [SessionSnapshots.insert, SessionSnapshots.flush]
  have hrows : (self.push_into (s'.snapshots.insert x.ref ⟨x, false⟩) y).store =
      self.rowsAfter s.snapshots.store y := by
    unfold SessionCheckpointer.push_into SessionCheckpointer.rowsAfter
    split <;> simp [SessionSnapshots.insert, SessionSnapshots.flush, hstore]
  refine ⟨hsession.trans h.session_id, ?_, hrows, ?_, ?_⟩
  · rintro _ ⟨⟩ z hz hsid href
    obtain ⟨-, hmax⟩ := SessionSnapshots.latest_snapshot_spec hx
    have hframe' : z.frame_id = f := (SnapshotRef.mk.inj href).2.1.trans hframe
    have hle := hmax z (by rw [hstore]; exact hz) (hsid.trans h.session_id.symm) hframe'
    have heq : z.superstep = y.superstep := (SnapshotRef.mk.inj href).2.2
    omega
  · rintro _ ⟨⟩
    exact SessionCheckpointer.cache_push_into _ _
  · intro r k hr hk
    have hne : r ≠ y.ref := hr y rfl
    have hk' : (s'.snapshots.insert x.ref ⟨x, false⟩).cache r = some k := by
      unfold SessionCheckpointer.push_into at hk
      split at hk <;> simpa [SessionSnapshots.flush, SessionSnapshots.insert, hne] using hk
    rcases hread.other r k (by simp) hk' with hold | ⟨hclean, href, hmem⟩
    · exact .inl hold
    · refine .inr ⟨hclean, href, ?_⟩
      change k.snapshot ∈ (self.push_into (s'.snapshots.insert x.ref ⟨x, false⟩) y).store
      rw [hrows]
      have hmem' : k.snapshot ∈ s.snapshots.store := by rw [← hstore]; exact hmem
      unfold SessionCheckpointer.rowsAfter
      split
      · exact SessionSnapshots.mem_upsert_snapshot.mpr (.inr ⟨hmem', href ▸ hne⟩)
      · exact hmem'

end Pushes

/-! ## The reads before a join -/

namespace FrameTree

/-- What the handler of the termination of `c` reads before it looks at the resume policy of its
parent `n` is there, and the failure policy does not fire. -/
structure Reaches (t : FrameTree) (p c : FrameId) (n : FrameNode) : Prop where
  child : (t.find c).isSome
  parent : t.find p = some n
  counted : t.statusIs FrameStatus.has_failed c →
    (∃ count, n.frame_policy.on_child_failed = .FailIfAtLeastHasFailed count) →
    ∀ x ∈ n.children, (t.find x).isSome
  quiet : ¬ t.Fires p c

variable {t : FrameTree} {p c : FrameId} {n : FrameNode}

theorem finds_get (x : FrameId) : Finds (Loaded t) (FrameTree.get x) (t.find x) := by
  intro t' h
  rw [← h.find]
  cases hn : t'.find x with
  | none =>
    rw [exec_get_none hn]
    exact ⟨h, rfl⟩
  | some n =>
    rw [exec_get hn]
    exact ⟨h.load x, rfl⟩

theorem finds_statusIs (test : FrameStatus → Bool) (x : FrameId) :
    Finds (Loaded t) (do pure (test (← status_of x)))
      (if (t.find x).isSome then some (t.statusIs test x) else none) := by
  have hread : Finds (Loaded t) (do pure (test (← status_of x)))
      ((t.find x).bind fun n => some (test n.status)) := by
    unfold status_of
    rw [bind_assoc]
    apply (finds_get x).bind
    intro n _
    exact finds_pure _
  cases hn : t.find x with
  | none => simpa [hn] using hread
  | some n => simpa [hn, statusIs] using hread

theorem finds_count_failed {k : FrameNodeContainer} (hp : t.arena p = some k) :
    Finds (Loaded t) (count_failed_frame_child p)
      (if ∀ x ∈ k.node.children, (t.find x).isSome then some (t.failedChildren p) else none) := by
  have hchildren : t.childrenAt p = k.node.children := by simp [childrenAt, find_of_arena hp]
  have hfilter : Finds (Loaded t) (count_failed_frame_child p)
      ((some k.node.children).bind fun xs =>
        (if ∀ x ∈ xs, (t.find x).isSome then some (xs.filter (t.statusIs FrameStatus.has_failed))
          else none).bind fun ys => some ys.length) := by
    unfold count_failed_frame_child
    apply Finds.bind
    · intro t' h
      simp [iter_children_of, h.arena p k hp, h, Except.toOption]
    · intro xs _
      apply (finds_filterM xs fun x _ => finds_statusIs _ x).bind
      intro ys _
      exact finds_pure _
  unfold failedChildren
  rw [hchildren]
  rw [Option.bind_some] at hfilter
  by_cases hfound : ∀ x ∈ k.node.children, (t.find x).isSome
  · rw [if_pos hfound] at hfilter ⊢
    exact hfilter
  · rw [if_neg hfound] at hfilter ⊢
    exact hfilter

/-- When all children have terminated, the handler finds that out. -/
theorem ends_children_terminated {k : FrameNodeContainer} (hp : t.arena p = some k)
    (h : t.AllTerminated p) : Ends (Loaded t) (all_children_have_terminated p) (· = true) := by
  have hchildren : t.childrenAt p = k.node.children := by simp [childrenAt, find_of_arena hp]
  unfold AllTerminated at h
  rw [hchildren] at h
  unfold all_children_have_terminated
  apply Ends.bindEq (a := k.node.children)
  · apply ends_asks
    intro t' ht'
    simp [iter_children_of, ht'.arena p k hp]
  · have hall : Ends (Loaded t) (all_have_terminated k.node.children)
        (· = k.node.children.all fun _ => true) := by
      unfold all_have_terminated
      apply ends_allM
      intro x hx t' ht'
      have hx := h x hx
      cases hn : t'.find x with
      | none => simp [statusIs, ← ht'.find, hn] at hx
      | some n =>
        refine ⟨_, _, exec_get_map _ hn, ht'.load x, ?_⟩
        simpa [statusIs, ← ht'.find, hn, FrameNode.has_terminated] using hx
    apply hall.mono
    rintro _ rfl
    simp

theorem Loaded.fires {t' : FrameTree} (h : Loaded t t') : t'.Fires p c ↔ t.Fires p c := by
  simp only [Fires, h.statusIs, h.find, h.failedChildren]

theorem Loaded.reaches {t' : FrameTree} (h : Loaded t t') (n : FrameNode) :
    t'.Reaches p c n ↔ t.Reaches p c n := by
  constructor
  · intro hr
    refine ⟨?_, ?_, ?_, ?_⟩
    · rw [← h.find]; exact hr.child
    · rw [← h.find]; exact hr.parent
    · simpa only [h.statusIs, h.find] using hr.counted
    · rw [← h.fires]; exact hr.quiet
  · intro hr
    refine ⟨?_, ?_, ?_, ?_⟩
    · rw [h.find]; exact hr.child
    · rw [h.find]; exact hr.parent
    · simpa only [h.statusIs, h.find] using hr.counted
    · rw [h.fires]; exact hr.quiet

end FrameTree

section Front

variable {self : SessionCheckpointer} {s : State} {p c : FrameId}

/-- The failure policy of `p` is asked: the reads fail, or the policy fires, or the handler goes
on. -/
theorem failure_reached_runs {m : FrameNode} {k : FrameNodeContainer}
    (hc : s.frames.find c = some m) (hp : s.frames.arena p = some k) :
    ∃ r t, exec (SessionCheckpointer.failure_reached p m.status
        k.node.frame_policy.on_child_failed) s = (r, { s with frames := t }) ∧
      Loaded s.frames t ∧ (r = .ok none ↔ s.frames.Reaches p c k.node) := by
  have hparent : s.frames.find p = some k.node := find_of_arena hp
  have hchildren : s.frames.childrenAt p = k.node.children := by simp [childrenAt, hparent]
  have hfailed : s.frames.statusIs FrameStatus.has_failed c = m.status.has_failed := by
    simp [statusIs, hc]
  unfold SessionCheckpointer.failure_reached
  split
  · rename_i err count hst hpol
    have hm : s.frames.statusIs FrameStatus.has_failed c = true := by rw [hfailed, hst]; rfl
    obtain ⟨h1, h2⟩ := finds_count_failed hp s.frames (.refl _)
    cases hrun : exec (count_failed_frame_child p) s.frames with
    | mk r t =>
    rw [hrun] at h1 h2
    cases r with
    | error e =>
      refine ⟨.error e, t, exec_bind_error (exec_frames hrun), h1, ?_⟩
      refine iff_of_false (by simp) fun hr => ?_
      rw [if_pos (hr.counted hm ⟨count, hpol⟩)] at h2
      cases h2
    | ok failed =>
      refine ⟨_, t, exec_bind_ok (exec_frames hrun), h1, ?_⟩
      by_cases hfound : ∀ x ∈ k.node.children, (s.frames.find x).isSome
      · rw [if_pos hfound] at h2
        obtain rfl := Option.some.inj h2
        have hfires : s.frames.Fires p c ↔ count ≤ s.frames.failedChildren p := by
          constructor
          · rintro ⟨-, n', count', hn', hpol', hle⟩
            rw [hparent] at hn'
            cases hn'
            rw [hpol] at hpol'
            cases hpol'
            exact hle
          · intro hle
            exact ⟨hm, k.node, count, hparent, hpol, hle⟩
        by_cases hle : count ≤ s.frames.failedChildren p
        · rw [if_pos hle]
          refine iff_of_false (by rintro ⟨⟩) fun hr => ?_
          exact hr.quiet (hfires.mpr hle)
        · rw [if_neg hle]
          exact iff_of_true rfl ⟨by simp [hc], hparent, fun _ _ => hfound,
            fun h => hle (hfires.mp h)⟩
      · rw [if_neg hfound] at h2
        cases h2
  · rename_i hno
    refine ⟨_, s.frames, rfl, .refl _, iff_of_true rfl ⟨by simp [hc], hparent, ?_, ?_⟩⟩
    · rintro hst ⟨count, hpol⟩
      rw [hfailed] at hst
      cases hm : m.status with
      | Failed err => exact absurd hpol (hno err count hm)
      | _ => simp [hm, FrameStatus.has_failed] at hst
    · rintro ⟨hst, n', count, hn', hpol, -⟩
      rw [hparent] at hn'
      cases hn'
      rw [hfailed] at hst
      cases hm : m.status with
      | Failed err => exact absurd hpol (hno err count hm)
      | _ => simp [hm, FrameStatus.has_failed] at hst

/-- What the handler of a termination comes to: no snapshot is touched, or the policy of the
parent `k` makes it join. -/
theorem child_terminated_runs (self : SessionCheckpointer) (s : State) (p c : FrameId) :
    ((exec (self.on_child_frame_terminated p c) s).2.snapshots = s.snapshots ∧
      ∀ n, s.frames.Reaches p c n → n.frame_policy.resume_policy = .Hitl ∨
        n.frame_policy.resume_policy = .FanIn ∧ ¬ s.frames.AllTerminated p) ∨
    ∃ k t, Loaded s.frames t ∧ t.arena p = some k ∧ s.frames.Reaches p c k.node ∧
      (k.node.frame_policy.resume_policy = .Sequential ∧
          exec (self.on_child_frame_terminated p c) s =
            exec (self.join_sequential p) { s with frames := t } ∨
        k.node.frame_policy.resume_policy = .FanIn ∧ s.frames.AllTerminated p ∧
          exec (self.on_child_frame_terminated p c) s =
            exec (self.join_fan_in p) { s with frames := t }) := by
  unfold SessionCheckpointer.on_child_frame_terminated
  cases hc : s.frames.find c with
  | none =>
    left
    rw [status_of, exec_read_none hc]
    refine ⟨rfl, fun n hr => ?_⟩
    have := hr.child
    simp [hc] at this
  | some m =>
  rw [status_of, exec_read hc]
  cases hp : s.frames.find p with
  | none =>
    left
    have hp' : (s.loaded c).frames.find p = none := by rw [State.loaded, find_load, hp]
    rw [policy_of, exec_read_none hp']
    refine ⟨rfl, fun n hr => ?_⟩
    have := hr.parent
    simp [hp] at this
  | some n =>
  have hp' : (s.loaded c).frames.find p = some n := by rw [State.loaded, find_load, hp]
  rw [policy_of, exec_read hp']
  have hload : Loaded s.frames ((s.loaded c).loaded p).frames := ((Loaded.refl _).load c).load p
  obtain ⟨k, hk, rfl⟩ := resident_load hp'
  have hc' : ((s.loaded c).loaded p).frames.find c = some m := by rw [hload.find, hc]
  obtain ⟨r, t, hr, ht, hreach⟩ := failure_reached_runs hc' hk
  have ht' : Loaded s.frames t := hload.trans ht
  have hk' : t.arena p = some k := ht.arena p k hk
  have hreach' : ∀ n, s.frames.Reaches p c n → n = k.node ∧ r = .ok none := by
    intro n hn
    have hnode : n = k.node := Option.some.inj (hn.parent.symm.trans hp)
    exact ⟨hnode, hreach.mpr ((hload.reaches _).mpr (hnode ▸ hn))⟩
  cases r with
  | error e =>
    left
    rw [exec_bind_error hr]
    refine ⟨rfl, fun n hn => ?_⟩
    cases (hreach' n hn).2
  | ok o =>
  rw [exec_bind_ok hr]
  cases o with
  | some count =>
    left
    have hfind : t.find p = some k.node := by rw [ht'.find, hp]
    refine ⟨?_, fun n hn => by cases (hreach' n hn).2⟩
    simp only [exec_mark_failed (s := { (s.loaded c).loaded p with frames := t }) hfind]
    rfl
  | none =>
  have hnode : s.frames.Reaches p c k.node := (hload.reaches _).mp (hreach.mp rfl)
  cases hpol : k.node.frame_policy.resume_policy with
  | Sequential => exact .inr ⟨k, t, ht', hk', hnode, .inl ⟨hpol, rfl⟩⟩
  | Hitl =>
    refine .inl ⟨rfl, fun n hn => ?_⟩
    rw [(hreach' n hn).1]
    exact .inl hpol
  | FanIn =>
    by_cases hall : s.frames.AllTerminated p
    · right
      have hall' : t.AllTerminated p := (ht'.allTerminated p).mpr hall
      obtain ⟨t1, h1, ht1⟩ := (ends_children_terminated hk' hall').exec (.refl t)
      refine ⟨k, t1, ht'.trans ht1, ht1.arena p k hk', hnode, .inr ⟨hpol, hall, ?_⟩⟩
      have hread : exec (frames (all_children_have_terminated p))
          { (s.loaded c).loaded p with frames := t } =
          (.ok true, { (s.loaded c).loaded p with frames := t1 }) := exec_frames h1
      simp only []
      rw [exec_bind_ok hread]
      rfl
    · left
      refine ⟨?_, fun n hn => by rw [(hreach' n hn).1]; exact .inr ⟨hpol, hall⟩⟩
      obtain ⟨r1, t1, hr1, ht1, hq1⟩ := exec_loaded
        (s := { (s.loaded c).loaded p with frames := t }) (loaded_all_children_have_terminated hk')
      simp only []
      cases r1 with
      | error e =>
        rw [exec_bind_error hr1]
        rfl
      | ok b =>
        rw [exec_bind_ok hr1]
        cases b with
        | false => rfl
        | true => exact absurd ((ht'.allTerminated p).mp ((hq1 true rfl).mp rfl)) hall

end Front

/-! ## The joins -/

namespace FrameTree

/-- The children whose values a join of `p` drains: the last one under the policy `Sequential`, all
under `FanIn`, as far as they have completed. -/
def drained (t : FrameTree) (p : FrameId) : List FrameId :=
  match (t.find p).map fun n => n.frame_policy.resume_policy with
  | some ResumePolicy.Sequential =>
    (t.childrenAt p).getLast?.toList.filter (t.statusIs FrameStatus.has_completed)
  | some ResumePolicy.FanIn => (t.childrenAt p).filter (t.statusIs FrameStatus.has_completed)
  | _ => []

theorem Loaded.drained {t t' : FrameTree} (h : Loaded t t') (p : FrameId) :
    t'.drained p = t.drained p := by
  have hs : t'.statusIs FrameStatus.has_completed = t.statusIs FrameStatus.has_completed :=
    funext (h.statusIs _)
  simp [FrameTree.drained, h.find, h.childrenAt, hs]

end FrameTree

section Joins

variable {self : SessionCheckpointer} {s s1 : State} {p : FrameId} {children : List FrameId}
  {spec : CommonSpec} {x : Snapshot} {sources : List SnapshotRef}

theorem Reads.trans {s2 : State} (h : Reads s s1) (h' : Reads s1 s2) : Reads s s2 :=
  ⟨h.frames.trans h'.frames, h'.store.trans h.store, h'.session_id.trans h.session_id⟩

theorem Reads.canJoin (h : Reads s s1) (expected : Nat) :
    CanJoin self s1 p children expected spec x ↔ CanJoin self s p children expected spec x := by
  constructor
  · intro hj
    refine ⟨?_, ?_, hj.superstep, hj.room, ?_⟩
    · rw [← h.spec_at]; exact hj.parent
    · rw [← h.last]; exact hj.last
    · simpa only [h.spec_at, h.last] using hj.children
  · intro hj
    refine ⟨?_, ?_, hj.superstep, hj.room, ?_⟩
    · rw [h.spec_at]; exact hj.parent
    · rw [h.last]; exact hj.last
    · simpa only [h.spec_at, h.last] using hj.children

theorem Reads.gather (h : Reads s s1) {graphs : Graphs} :
    marie.session.gather graphs s1 spec = marie.session.gather graphs s spec := by
  funext groups c
  unfold marie.session.gather
  rw [h.spec_at, h.last]

/-- A commit with no room left pushes nothing. -/
theorem pushes_commit_full {updates : List ChannelUpdate} {expected : Nat}
    (h : 2 ^ 32 ≤ expected + 1) :
    Keeps (Pushes self s none) (self.commit_snapshot p expected updates sources)
      (fun _ => True) := by
  unfold SessionCheckpointer.commit_snapshot
  apply (pushes_latest p).andThen
  intro last
  split
  · exact keeps_throw _
  · apply Keeps.andThen (Q := fun _ => True)
    · unfold SessionCheckpointer.apply_updates
      split
      · exact keeps_pure trivial
      · exact (pushes_frames _).andThen fun _ => keeps_pure trivial
    · intro channels
      exact keeps_throw _

/-- A join on the last snapshot `x` of `p`, and the resolution of the log that comes after it. -/
theorem join_runs (children : List FrameId) (sources : List SnapshotRef)
    (hp : Pushes self s none s1) (hx : s1.snapshots.last p = some x) :
    (Pushes self s none (exec (do
        let _ ← self.join p children x.superstep sources
        self.resolve_pending_log p children) s1).2 ∧
      ∀ spec y, ¬ CanJoin self s1 p children y.superstep spec y) ∨
    ∃ spec groups, CanJoin self s1 p children x.superstep spec x ∧
      children.foldlM (gather self.graphs s1 spec) [] = some groups ∧
      Pushes self s (some (self.pushed spec x (accumulated p groups) sources)) (exec (do
        let _ ← self.join p children x.superstep sources
        self.resolve_pending_log p children) s1).2 := by
  have hgathered : Keeps (Pushes self s none) (self.gathered p children) (fun _ => True) := by
    unfold SessionCheckpointer.gathered
    apply (pushes_frames _).andThen
    intro spec
    apply keeps_foldlM
    intro groups c _
    unfold SessionCheckpointer.drain_child
    apply (pushes_frames _).andThen
    intro child_spec
    apply (pushes_latest c).andThen
    intro y
    exact keeps_pure trivial
  have hp2 := hgathered.run hp
  have hlast : ∀ spec y, CanJoin self s1 p children y.superstep spec y → y = x := by
    intro spec y hj
    exact Option.some.inj (hj.last.symm.trans hx)
  rw [SessionCheckpointer.join_eq]
  rcases self.join_in_cases s1 p children x.superstep sources with
    ⟨e, s2, rfl, hrun, hno⟩ | ⟨spec, groups, s2, rfl, hreads, hspec, hg, hrun⟩
  · left
    rw [exec_bind_error (hrun .first_come .first_come)]
    refine ⟨hp2, fun spec y hj => ?_⟩
    obtain rfl := hlast spec y hj
    exact hno spec y hj
  · have hx2 := hx
    rw [← hreads.last] at hx2
    have hid : x.frame_id = p := (SessionSnapshots.latest_snapshot_spec hx).1.2.1
    by_cases hroom : x.superstep + 1 < 2 ^ 32
    · right
      have hspec2 := hspec
      rw [← hreads.spec_at] at hspec2
      obtain ⟨t, -, hcommit⟩ := self.exec_commit (accumulated p groups) sources hx2 hid hspec2 hroom
      refine ⟨spec, groups, ⟨hspec, hx, rfl, hroom, exists_gathered_iff.mp ⟨groups, hg⟩⟩, hg, ?_⟩
      rw [exec_bind_ok ((hrun .first_come .first_come).trans hcommit)]
      have hstep : x.superstep < (self.pushed spec x (accumulated p groups) sources).superstep :=
        Nat.lt_succ_self x.superstep
      have hpush := hp2.push (t := t) hx2 (y := self.pushed spec x (accumulated p groups) sources)
        hid hstep
      exact (pushes_resolve_pending_log children).run hpush
    · left
      constructor
      · have hfull : 2 ^ 32 ≤ x.superstep + 1 := by omega
        have hfails : Keeps (Pushes self s none)
            (self.commit_snapshot p x.superstep (accumulated p groups) sources) (fun _ => True) :=
          pushes_commit_full hfull
        have hcommit := hfails.run hp2
        cases hr : exec (self.commit_snapshot p x.superstep (accumulated p groups) sources)
            (exec (self.gathered p children) s1).2 with
        | mk r s3 =>
        rw [hr] at hcommit
        cases r with
        | error e =>
          rw [exec_bind_error ((hrun .first_come .first_come).trans hr)]
          exact hcommit
        | ok ref =>
          rw [exec_bind_ok ((hrun .first_come .first_come).trans hr)]
          exact (pushes_resolve_pending_log children).run hcommit
      · intro spec y hj
        obtain rfl := hlast spec y hj
        exact hroom hj.room

/-- What comes after keeps what is pushed. -/
theorem pushes_bind {α β : Type} {o : Option Snapshot} {m : Ckp α} {f : α → Ckp β}
    (hm : Pushes self s o (exec m s1).2)
    (hf : ∀ a, Keeps (Pushes self s o) (f a) (fun _ => True)) :
    Pushes self s o (exec (m >>= f) s1).2 := by
  cases h : exec m s1 with
  | mk r s2 =>
    rw [h] at hm
    cases r with
    | error e =>
      rw [exec_bind_error h]
      exact hm
    | ok a =>
      rw [exec_bind_ok h]
      exact (hf a).run hm

/-- The join of `children` on the last snapshot of `p`, with these references as its sources. -/
def Joined (ckp : SessionCheckpointer) (s s1 : State) (p : FrameId) (children : List FrameId)
    (sources : Snapshot → List SnapshotRef) (s2 : State) : Prop :=
  ∃ spec x groups, CanJoin ckp s1 p children x.superstep spec x ∧
    children.foldlM (gather ckp.graphs s1 spec) [] = some groups ∧
    Pushes ckp s (some (ckp.pushed spec x (accumulated p groups) (sources x))) s2

theorem commit_last_child_runs (last_child : FrameId) (hp : Pushes self s none s1) :
    (Pushes self s none (exec (self.commit_last_child p last_child) s1).2 ∧
      ∀ spec y, ¬ CanJoin self s1 p [last_child] y.superstep spec y) ∨
    Joined self s s1 p [last_child] (fun x => [x.ref])
      (exec (self.commit_last_child p last_child) s1).2 := by
  unfold SessionCheckpointer.commit_last_child
  cases hx : s1.snapshots.last p with
  | none =>
    left
    rw [exec_bind_error (exec_snapshots (SessionSnapshots.exec_latest_none hx))]
    refine ⟨hp, fun spec y hj => ?_⟩
    cases hx.symm.trans hj.last
  | some x =>
    let s2 : State := { s1 with snapshots := s1.snapshots.insert x.ref ⟨x, false⟩ }
    let s3 : State := { s2 with snapshots := s2.snapshots.insert x.ref ⟨x, false⟩ }
    have hx2 : s2.snapshots.last p = some x := hx
    have hx3 : s3.snapshots.last p = some x := hx
    have hp3 : Pushes self s none s3 := (hp.read hx).read hx2
    have hreads : Reads s1 s3 := ⟨.refl _, rfl, rfl⟩
    rw [exec_bind_ok (exec_snapshots (SessionSnapshots.exec_latest hx)),
      exec_bind_ok (exec_snapshots (s := s2) (SessionSnapshots.exec_latest hx2))]
    have hjoin := join_runs [last_child] [x.ref] hp3 hx3
    unfold SessionCheckpointer.join at hjoin
    simp only [bind_assoc] at hjoin
    rcases hjoin with ⟨h1, hno⟩ | ⟨spec, groups, hj, hg, h1⟩
    · refine .inl ⟨h1, fun spec y hj => hno spec y ((hreads.canJoin _).mpr hj)⟩
    · refine .inr ⟨spec, x, groups, (hreads.canJoin _).mp hj, ?_, h1⟩
      rw [← hreads.gather, hg]

theorem join_sequential_runs {k : FrameNodeContainer} (hp : Pushes self s none s1)
    (hk : s1.frames.arena p = some k) (hpol : k.node.frame_policy.resume_policy = .Sequential) :
    (Pushes self s none (exec (self.join_sequential p) s1).2 ∧
      (s1.frames.drained p = [] ∨
        ∀ spec y, ¬ CanJoin self s1 p (s1.frames.drained p) y.superstep spec y)) ∨
    s1.frames.drained p ≠ [] ∧ Joined self s s1 p (s1.frames.drained p) (fun x => [x.ref])
      (exec (self.join_sequential p) s1).2 := by
  have hn : s1.frames.find p = some k.node := find_of_arena hk
  have hdrained : s1.frames.drained p =
      k.node.children.getLast?.toList.filter (s1.frames.statusIs FrameStatus.has_completed) := by
    simp [FrameTree.drained, FrameTree.childrenAt, hn, hpol]
  have hp1 : Pushes self s none (s1.loaded p) := hp.same rfl
  have hreads1 : Reads s1 (s1.loaded p) := ⟨(Loaded.refl _).load p, rfl, rfl⟩
  unfold SessionCheckpointer.join_sequential
  rw [last_child_of, exec_read hn, hdrained]
  cases hlast : k.node.children.getLast? with
  | none => exact .inl ⟨(pushes_mark_ready p).run hp1, .inl rfl⟩
  | some c =>
  have hresume : ∀ o, ∀ u : Unit, Keeps (Pushes self s o) (SessionCheckpointer.resume_frame p)
      (fun _ => True) := fun o u => pushes_resume_frame p
  simp only [Option.toList_some]
  cases hc : (s1.loaded p).frames.find c with
  | none =>
    left
    have hstatus : s1.frames.statusIs FrameStatus.has_completed c = false := by
      rw [← hreads1.frames.statusIs]
      simp [statusIs, hc]
    refine ⟨?_, .inl (by simp [hstatus])⟩
    apply pushes_bind _ (hresume none)
    unfold SessionCheckpointer.join_last_child
    rw [status_of, exec_read_none hc]
    exact hp1
  | some m =>
    have hstatus : s1.frames.statusIs FrameStatus.has_completed c = m.status.has_completed := by
      rw [← hreads1.frames.statusIs]
      simp [statusIs, hc]
    have hp2 : Pushes self s none ((s1.loaded p).loaded c) := hp1.same rfl
    have hreads2 : Reads s1 ((s1.loaded p).loaded c) :=
      hreads1.trans ⟨(Loaded.refl _).load c, rfl, rfl⟩
    cases hm : m.status.has_completed with
    | true =>
      have hcompleted : m.status = .Completed := by
        cases h : m.status <;> simp [h, FrameStatus.has_completed] at hm ⊢
      have hcs : [c].filter (s1.frames.statusIs FrameStatus.has_completed) = [c] := by
        simp [hstatus, hm]
      rw [hcs]
      have hrun : exec (self.join_last_child p c) (s1.loaded p) =
          exec (self.commit_last_child p c) ((s1.loaded p).loaded c) := by
        unfold SessionCheckpointer.join_last_child
        rw [status_of, exec_read hc, hcompleted]
      rcases commit_last_child_runs c hp2 with ⟨h1, hno⟩ | ⟨spec, x, groups, hj, hg, h1⟩
      · refine .inl ⟨pushes_bind (hrun ▸ h1) (hresume none), .inr fun spec y hj => ?_⟩
        exact hno spec y ((hreads2.canJoin _).mpr hj)
      · refine .inr ⟨by simp, spec, x, groups, (hreads2.canJoin _).mp hj, ?_,
          pushes_bind (hrun ▸ h1) (hresume _)⟩
        rw [← hreads2.gather, hg]
    | false =>
      refine .inl ⟨?_, .inl (by simp [hstatus, hm])⟩
      apply pushes_bind _ (hresume none)
      unfold SessionCheckpointer.join_last_child
      rw [status_of, exec_read hc]
      cases h : m.status <;> first | exact hp2 | simp [h, FrameStatus.has_completed] at hm

/-- The references of the last snapshots of `children`, as far as they have one. -/
def lastRefs (s : State) (children : List FrameId) : List SnapshotRef :=
  children.filterMap fun c => (s.snapshots.last c).map Snapshot.ref

/-- All references of last snapshots, when each child has one. -/
theorem mapM_lastRefs : ∀ refs,
    (children.mapM fun c => (s.snapshots.last c).bind fun y => some y.ref) = some refs →
      refs = lastRefs s children ∧ ∀ c ∈ children, ∃ y, s.snapshots.last c = some y := by
  induction children with
  | nil =>
    rintro refs ⟨⟩
    exact ⟨rfl, by simp⟩
  | cons c children ih =>
    intro refs h
    rw [List.mapM_cons] at h
    obtain ⟨ref, hc, h⟩ := Option.bind_eq_some_iff.mp h
    obtain ⟨rest, hrest, h⟩ := Option.bind_eq_some_iff.mp h
    obtain ⟨y, hy, href⟩ := Option.bind_eq_some_iff.mp hc
    obtain rfl := Option.some.inj h
    obtain rfl := Option.some.inj href
    obtain ⟨rfl, hall⟩ := ih rest hrest
    constructor
    · simp [lastRefs, hy]
    · intro x hx
      rcases List.mem_cons.mp hx with rfl | hx
      · exact ⟨y, hy⟩
      · exact hall x hx

theorem mapM_lastRefs_none
    (h : (children.mapM fun c => (s.snapshots.last c).bind fun y => some y.ref) = none) :
    ∃ c ∈ children, s.snapshots.last c = none := by
  induction children with
  | nil => cases h
  | cons c children ih =>
    rw [List.mapM_cons] at h
    cases hy : s.snapshots.last c with
    | none => exact ⟨c, by simp, hy⟩
    | some y =>
      cases hrest : children.mapM fun c => (s.snapshots.last c).bind fun y => some y.ref with
      | none =>
        obtain ⟨x, hx, hnone⟩ := ih hrest
        exact ⟨x, by simp [hx], hnone⟩
      | some refs => simp [hy, hrest] at h

theorem join_children_runs {k : FrameNodeContainer} (hp : Pushes self s none s1)
    (hk : s1.frames.arena p = some k) (hpol : k.node.frame_policy.resume_policy = .FanIn)
    (hall : s1.frames.AllTerminated p) :
    (Pushes self s none (exec (self.join_children p) s1).2 ∧
      ∀ spec y, ¬ CanJoin self s1 p (s1.frames.drained p) y.superstep spec y) ∨
    Joined self s s1 p (s1.frames.drained p) (fun _ => lastRefs s1 (s1.frames.drained p))
      (exec (self.join_children p) s1).2 := by
  have hn : s1.frames.find p = some k.node := find_of_arena hk
  have hchildren : s1.frames.childrenAt p = k.node.children := by simp [childrenAt, hn]
  have hdrained : s1.frames.drained p =
      k.node.children.filter (s1.frames.statusIs FrameStatus.has_completed) := by
    simp [FrameTree.drained, hchildren, hn, hpol]
  unfold AllTerminated at hall
  rw [hchildren] at hall
  unfold SessionCheckpointer.join_children
  rw [hdrained]
  cases hx : s1.snapshots.last p with
  | none =>
    left
    rw [exec_bind_error (exec_snapshots (SessionSnapshots.exec_latest_none hx))]
    refine ⟨hp, fun spec y hj => ?_⟩
    cases hx.symm.trans hj.last
  | some x =>
  let s2 : State := { s1 with snapshots := s1.snapshots.insert x.ref ⟨x, false⟩ }
  have hp2 : Pushes self s none s2 := hp.read hx
  have hreads2 : Reads s1 s2 := ⟨.refl _, rfl, rfl⟩
  have hids : exec (frames (asks (iter_children_of · p))) s2 = (.ok k.node.children, s2) := by
    rw [exec_frames (exec_asks _ _)]
    simp [iter_children_of, s2, hk]
  rw [exec_bind_ok (exec_snapshots (SessionSnapshots.exec_latest hx)), exec_bind_ok hids]
  -- all children can be read, for they have terminated
  have hfilter : Ends (fun s' => Reads s1 s' ∧ Pushes self s none s')
      (k.node.children.filterM fun c => do pure (← frames (status_of c)).has_completed)
      (· = k.node.children.filter (s1.frames.statusIs FrameStatus.has_completed)) := by
    apply ends_filterM
    rintro c hc s' ⟨hr, hpush⟩
    have hterm := hall c hc
    rw [← hr.frames.statusIs] at hterm
    cases hm : s'.frames.find c with
    | none => simp [statusIs, hm] at hterm
    | some m =>
      have hstep : exec (do pure (← frames (status_of c)).has_completed) s' =
          (.ok m.status.has_completed, s'.loaded c) := by
        rw [status_of, exec_read hm]
        rfl
      refine ⟨_, _, hstep, ⟨hr.trans ⟨(Loaded.refl _).load c, rfl, rfl⟩, hpush.same rfl⟩, ?_⟩
      rw [← hr.frames.statusIs]
      simp [statusIs, hm]
  obtain ⟨s3, h3, hreads3, hp3⟩ := hfilter.exec ⟨hreads2, hp2⟩
  rw [exec_bind_ok h3]
  generalize k.node.children.filter (s1.frames.statusIs FrameStatus.has_completed) = children
  -- the references of the sources
  have hsources : Finds (Reads s1)
      (children.mapM fun c => do pure (← snapshots (SessionSnapshots.latest c)).ref)
      (children.mapM fun c => (s1.snapshots.last c).bind fun y => some y.ref) := by
    apply finds_mapM
    intro c _
    apply (finds_latest s1 c).bind
    intro y _
    exact finds_pure _
  have hpsources : Keeps (Pushes self s none)
      (children.mapM fun c => do pure (← snapshots (SessionSnapshots.latest c)).ref)
      (fun _ => True) := by
    apply keeps_mapM
    intro c _
    exact (pushes_latest c).andThen fun _ => keeps_pure trivial
  obtain ⟨hreads4, hfound⟩ := hsources s3 hreads3
  have hp4 := hpsources.run hp3
  cases h4 : exec (children.mapM fun c => do pure (← snapshots (SessionSnapshots.latest c)).ref)
      s3 with
  | mk r s4 =>
  rw [h4] at hreads4 hfound hp4
  cases r with
  | error e =>
    left
    rw [exec_bind_error h4]
    refine ⟨hp4, fun spec y hj => ?_⟩
    obtain ⟨c, hc, hnone⟩ := mapM_lastRefs_none hfound.symm
    obtain ⟨-, z, hz⟩ := hj.children c hc
    cases hnone.symm.trans hz
  | ok refs =>
    rw [exec_bind_ok h4]
    obtain ⟨rfl, -⟩ := mapM_lastRefs refs hfound.symm
    have hx4 : s4.snapshots.last p = some x := by rw [hreads4.last, hx]
    have hjoin := join_runs children (lastRefs s1 children) hp4 hx4
    unfold SessionCheckpointer.join at hjoin
    simp only [bind_assoc] at hjoin
    rcases hjoin with ⟨h1, hno⟩ | ⟨spec, groups, hj, hg, h1⟩
    · exact .inl ⟨h1, fun spec y hj => hno spec y ((hreads4.canJoin _).mpr hj)⟩
    · refine .inr ⟨spec, x, groups, (hreads4.canJoin _).mp hj, ?_, h1⟩
      rw [← hreads4.gather, hg]

end Joins

/-! ## Every commit of the handler -/

/-- The handler of the termination of `c` commits a join on the last snapshot `x` of its parent
`n`. -/
structure CommitsJoin (ckp : SessionCheckpointer) (s : State) (p c : FrameId) (n : FrameNode)
    (spec : CommonSpec) (x : Snapshot) : Prop where
  reaches : s.frames.Reaches p c n
  policy : n.frame_policy.resume_policy = .Sequential ∧ s.frames.drained p ≠ [] ∨
    n.frame_policy.resume_policy = .FanIn ∧ s.frames.AllTerminated p
  joinable : CanJoin ckp s p (s.frames.drained p) x.superstep spec x

/-- The sources are the references of the last snapshots of `children` in their order, and none
is of `p` itself. -/
structure Provenance (s : State) (p : FrameId) (children : List FrameId)
    (join_sources : List SnapshotRef) : Prop where
  sources : List.Forall₂
    (fun c ref => ∃ y, s.snapshots.last c = some y ∧
      ref = ⟨s.snapshots.session_id, c, y.superstep⟩) children join_sources
  never : ∀ ref ∈ join_sources, ref.frame_id ≠ p

section Commits

variable {self : SessionCheckpointer} {s : State} {p c : FrameId} {children : List FrameId}
  {x : Snapshot}

theorem last_ref (h : s.snapshots.last c = some x) :
    x.ref = ⟨s.snapshots.session_id, c, x.superstep⟩ := by
  obtain ⟨⟨hsid, hid, -⟩, -⟩ := SessionSnapshots.latest_snapshot_spec h
  unfold Snapshot.ref
  rw [hsid, hid]

/-- A join that names the snapshot of `p` itself. -/
theorem not_provenance_self (h : s.snapshots.last p = some x) :
    ¬ Provenance s p children [x.ref] := by
  intro hprov
  apply hprov.never x.ref (by simp)
  rw [last_ref h]

theorem provenance_lastRefs_iff (h : ∀ c ∈ children, ∃ y, s.snapshots.last c = some y) :
    Provenance s p children (lastRefs s children) ↔ p ∉ children := by
  have hsources : List.Forall₂
      (fun c ref => ∃ y, s.snapshots.last c = some y ∧
        ref = ⟨s.snapshots.session_id, c, y.superstep⟩) children (lastRefs s children) ∧
      (lastRefs s children).map (·.frame_id) = children := by
    induction children with
    | nil => exact ⟨.nil, rfl⟩
    | cons c children ih =>
      obtain ⟨y, hy⟩ := h c (by simp)
      obtain ⟨h1, h2⟩ := ih fun x hx => h x (by simp [hx])
      have hcons : lastRefs s (c :: children) = y.ref :: lastRefs s children := by
        simp [lastRefs, hy]
      rw [hcons, last_ref hy]
      exact ⟨.cons ⟨y, hy, rfl⟩ h1, by simp [h2]⟩
  obtain ⟨h1, h2⟩ := hsources
  constructor
  · intro hprov hmem
    rw [← h2] at hmem
    obtain ⟨ref, href, hp⟩ := List.mem_map.mp hmem
    exact hprov.never ref href hp
  · intro hmem
    refine ⟨h1, fun ref href hp => hmem ?_⟩
    rw [← h2]
    exact List.mem_map.mpr ⟨ref, href, hp⟩

theorem Joined.back {s1 s2 : State} {sources : Snapshot → List SnapshotRef} (hr : Reads s s1)
    (h : Joined self s s1 p children sources s2) : Joined self s s p children sources s2 := by
  obtain ⟨spec, x, groups, hj, hg, hp⟩ := h
  refine ⟨spec, x, groups, (hr.canJoin _).mp hj, ?_, hp⟩
  rw [← hr.gather, hg]

/-- The snapshot of a join, for the spec and the last snapshot that it reads. -/
theorem Joined.commit {s2 : State} {sources : Snapshot → List SnapshotRef} {spec : CommonSpec}
    (h : Joined self s s p children sources s2)
    (hj : CanJoin self s p children x.superstep spec x) :
    ∃ groups y, children.foldlM (gather self.graphs s spec) [] = some groups ∧
      y.ref = ⟨self.session_id, p, x.superstep + 1⟩ ∧
      y.channels = commit_channels spec x.channels (accumulated p groups) ∧
      Pushes self s (some y) s2 ∧ y.join_sources = sources x := by
  obtain ⟨spec', x', groups, hj', hg, hp⟩ := h
  obtain rfl := Option.some.inj (hj.last.symm.trans hj'.last)
  obtain rfl := Option.some.inj (hj.parent.symm.trans hj'.parent)
  have hid : x.frame_id = p := (SessionSnapshots.latest_snapshot_spec hj.last).1.2.1
  refine ⟨groups, _, hg, ?_, rfl, hp, rfl⟩
  simp [SessionCheckpointer.pushed, Snapshot.ref, hid]

/-- Which snapshots the handler of a termination pushes, and where they say they come from. When
it comes to a join the new snapshot of the parent is the one with the values of the drained
children, and its sources are the last snapshots of these children under the policy `FanIn`
alone. -/
theorem join_provenance_iff (self : SessionCheckpointer) (s : State) (p c : FrameId) :
    ((∀ n spec x, ¬ CommitsJoin self s p c n spec x) →
      Pushes self s none (exec (self.on_child_frame_terminated p c) s).2) ∧
    ∀ n spec x, CommitsJoin self s p c n spec x →
      ∃ groups y, (s.frames.drained p).foldlM (gather self.graphs s spec) [] = some groups ∧
        y.ref = ⟨self.session_id, p, x.superstep + 1⟩ ∧
        y.channels = commit_channels spec x.channels (accumulated p groups) ∧
        Pushes self s (some y) (exec (self.on_child_frame_terminated p c) s).2 ∧
        (Provenance s p (s.frames.drained p) y.join_sources ↔
          n.frame_policy.resume_policy = .FanIn ∧ p ∉ s.frames.drained p) := by
  rcases child_terminated_runs self s p c with
    ⟨hsame, hno⟩ | ⟨k, t, ht, hk, hreach, ⟨hpol, hrun⟩ | ⟨hpol, hall, hrun⟩⟩
  · refine ⟨fun _ => (Pushes.refl s).same hsame, fun n spec x hc => ?_⟩
    rcases hno n hc.reaches with hpol | ⟨hpol, hnot⟩
    · rcases hc.policy with ⟨hseq, -⟩ | ⟨hfan, -⟩
      · cases hpol.symm.trans hseq
      · cases hpol.symm.trans hfan
    · rcases hc.policy with ⟨hseq, -⟩ | ⟨-, hall⟩
      · cases hpol.symm.trans hseq
      · exact absurd hall hnot
  · -- under `Sequential` the handler reads the last snapshot of the parent in place of the child's
    have hreads : Reads s { s with frames := t } := ⟨ht, rfl, rfl⟩
    have hp : Pushes self s none { s with frames := t } := (Pushes.refl s).same rfl
    have hseq : ∀ n, s.frames.Reaches p c n → n.frame_policy.resume_policy = .Sequential := by
      intro n hn
      rw [Option.some.inj (hn.parent.symm.trans hreach.parent), hpol]
    rw [hrun]
    rcases join_sequential_runs hp hk hpol with ⟨h1, hno⟩ | ⟨hne, hj⟩
    · refine ⟨fun _ => h1, fun n spec x hc => ?_⟩
      rw [ht.drained] at hno
      rcases hc.policy with ⟨-, hne⟩ | ⟨hfan, -⟩
      · rcases hno with hnil | hno
        · exact absurd hnil hne
        · exact absurd ((hreads.canJoin _).mpr hc.joinable) (hno spec x)
      · cases (hseq n hc.reaches).symm.trans hfan
    · rw [ht.drained] at hne hj
      have hj := hj.back hreads
      refine ⟨fun hno => ?_, fun n spec x hc => ?_⟩
      · obtain ⟨spec, x, -, hcan, -⟩ := hj
        exact absurd ⟨hreach, .inl ⟨hpol, hne⟩, hcan⟩ (hno k.node spec x)
      · obtain ⟨groups, y, hg, href, hch, hpush, hsrc⟩ := hj.commit hc.joinable
        refine ⟨groups, y, hg, href, hch, hpush, ?_⟩
        rw [hsrc]
        refine iff_of_false (not_provenance_self hc.joinable.last) ?_
        rintro ⟨hfan, -⟩
        cases (hseq n hc.reaches).symm.trans hfan
  · have hreads : Reads s { s with frames := t } := ⟨ht, rfl, rfl⟩
    have hp : Pushes self s none { s with frames := t } := (Pushes.refl s).same rfl
    have hfan : ∀ n, s.frames.Reaches p c n → n.frame_policy.resume_policy = .FanIn := by
      intro n hn
      rw [Option.some.inj (hn.parent.symm.trans hreach.parent), hpol]
    have hafter : ∀ o, ∀ u : Unit, Keeps (Pushes self s o) (SessionCheckpointer.resume_frame p)
        (fun _ => True) := fun o u => pushes_resume_frame p
    rw [hrun]
    unfold SessionCheckpointer.join_fan_in
    rcases join_children_runs hp hk hpol ((ht.allTerminated p).mpr hall) with ⟨h1, hno⟩ | hj
    · refine ⟨fun _ => pushes_bind h1 (hafter none), fun n spec x hc => ?_⟩
      rw [ht.drained] at hno
      exact absurd ((hreads.canJoin _).mpr hc.joinable) (hno spec x)
    · rw [ht.drained] at hj
      have hrefs : lastRefs { s with frames := t } (s.frames.drained p) =
          lastRefs s (s.frames.drained p) := rfl
      rw [hrefs] at hj
      have hj := hj.back hreads
      refine ⟨fun hno => ?_, fun n spec x hc => ?_⟩
      · obtain ⟨spec, x, -, hcan, -⟩ := hj
        exact absurd ⟨hreach, .inr ⟨hpol, hall⟩, hcan⟩ (hno k.node spec x)
      · obtain ⟨groups, y, hg, href, hch, hpush, hsrc⟩ := hj.commit hc.joinable
        refine ⟨groups, y, hg, href, hch, pushes_bind hpush (hafter _), ?_⟩
        rw [hsrc, provenance_lastRefs_iff fun c hc' => (hc.joinable.children c hc').2]
        simp [hfan n hc.reaches]

/-- A frame with the policy `Sequential` whose only child has completed. -/
def lastCompleted : State :=
  .new ⟨0⟩
    (.ofNodes
      [{ FrameNode.new ⟨0⟩ { spec_ref := .ToolAggregator, data := .Void } with children := [⟨1⟩] },
        { FrameNode.new ⟨1⟩ { spec_ref := .ToolCall, data := .Void } with
          parent := some ⟨0⟩, status := .Completed }])
    [⟨⟨0⟩, ⟨0⟩, 0, Channels.empty, []⟩, ⟨⟨0⟩, ⟨1⟩, 0, Channels.empty, []⟩]

/-- The join of the child names the snapshot of the parent as its source. -/
theorem a_sequential_join_names_the_parent :
    lastCompleted.frames.drained ⟨0⟩ = [⟨1⟩] ∧
      ((exec ((plain false).on_child_frame_terminated ⟨0⟩ ⟨1⟩) lastCompleted).2.snapshots.cache
        ⟨⟨0⟩, ⟨0⟩, 1⟩).map (·.snapshot.join_sources) = some [⟨⟨0⟩, ⟨0⟩, 0⟩] ∧
      ¬ Provenance lastCompleted ⟨0⟩ [⟨1⟩] [⟨⟨0⟩, ⟨0⟩, 0⟩] := by
  refine ⟨by decide, by rfl, fun h => ?_⟩
  exact h.never ⟨⟨0⟩, ⟨0⟩, 0⟩ (by simp) rfl

/-- A frame with the policy `FanIn` whose only child has completed. -/
def allCompleted : State :=
  .new ⟨0⟩
    (.ofNodes
      [{ FrameNode.new ⟨0⟩
          { spec_ref := .ToolAggregator, data := .Void, frame_policy := { resume_policy := .FanIn } }
          with children := [⟨1⟩] },
        { FrameNode.new ⟨1⟩ { spec_ref := .ToolCall, data := .Void } with
          parent := some ⟨0⟩, status := .Completed }])
    [⟨⟨0⟩, ⟨0⟩, 0, Channels.empty, []⟩, ⟨⟨0⟩, ⟨1⟩, 0, Channels.empty, []⟩]

theorem a_fan_in_join_names_the_child :
    ∃ y, Pushes (plain false) allCompleted (some y)
        (exec ((plain false).on_child_frame_terminated ⟨0⟩ ⟨1⟩) allCompleted).2 ∧
      Provenance allCompleted ⟨0⟩ [⟨1⟩] y.join_sources := by
  obtain ⟨-, hcommits⟩ := join_provenance_iff (plain false) allCompleted ⟨0⟩ ⟨1⟩
  obtain ⟨groups, y, -, -, -, hpush, hiff⟩ := hcommits _ .tool_aggregator
    ⟨⟨0⟩, ⟨0⟩, 0, Channels.empty, []⟩
    { reaches := ⟨rfl, rfl, by rintro ⟨⟩, by rintro ⟨⟨⟩, -⟩⟩
      policy := .inr ⟨rfl, by intro x hx; obtain rfl := List.mem_singleton.mp hx; rfl⟩
      joinable := ⟨rfl, rfl, rfl, by decide, by
        intro c hc
        obtain rfl := List.mem_singleton.mp hc
        exact ⟨⟨_, rfl⟩, _, rfl⟩⟩ }
  exact ⟨y, hpush, hiff.mpr ⟨rfl, by decide⟩⟩

end Commits

end marie.session
