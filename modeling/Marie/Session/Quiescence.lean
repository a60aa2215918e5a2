-- A session with its queue and its jobs. It is quiescent when no event is
-- queued and no job is in flight. A frame that still waits then must have
-- someone left to wait for.
import Marie.Session.System
import Marie.Session.WaitingFrames

namespace marie.session

open Program FrameTree

/-! ## A notification wakes its frame -/

/-- The specs of `p` and of its children `K` are there. -/
structure Served (graphs : Graphs) (p : FrameId) (K : List FrameId) (t : FrameTree) : Prop where
  known : ∀ x ∈ p :: K, ∃ spec, spec_at graphs t x = some spec
  children : t.childrenAt p = K

section Served

variable {graphs : Graphs} {p : FrameId} {K : List FrameId} {t : FrameTree}

theorem Served.found (h : Served graphs p K t) {x : FrameId} (hx : x ∈ p :: K) :
    ∃ n, t.find x = some n := by
  obtain ⟨spec, hspec⟩ := h.known x hx
  obtain ⟨n, hn, -⟩ := Option.bind_eq_some_iff.mp hspec
  exact ⟨n, hn⟩

theorem Served.load (h : Served graphs p K t) (id : FrameId) : Served graphs p K (t.load id) where
  known x hx := by rw [spec_at_load]; exact h.known x hx
  children := by rw [((Loaded.refl t).load id).childrenAt, h.children]

/-- A write that leaves the children and the spec of its node. -/
theorem Served.edit (h : Served graphs p K t) {id : FrameId} {f : FrameNode → FrameNode}
    (hchildren : ∀ n, (f n).children = n.children) (hspec : ∀ n, (f n).spec_ref = n.spec_ref) :
    Served graphs p K (t.edit id f) := by
  have hfind : ∀ x, (t.edit id f).find x = t.find x ∨
      ∃ n, t.find x = some n ∧ (t.edit id f).find x = some (f n) := by
    intro x
    by_cases hx : x = id
    · subst hx
      cases hc : t.arena x with
      | none => exact .inl (by simp [find, FrameTree.edit, hc])
      | some c => exact .inr ⟨c.node, find_of_arena hc, find_edit_self hc⟩
    · exact .inl (find_edit_ne hx)
  constructor
  · intro x hx
    obtain ⟨spec, hs⟩ := h.known x hx
    refine ⟨spec, ?_⟩
    unfold spec_at at hs ⊢
    rcases hfind x with heq | ⟨n, hn, heq⟩
    · rw [heq, hs]
    · rw [heq]
      rw [hn] at hs
      simpa [hspec] using hs
  · rw [← h.children]
    unfold childrenAt
    rcases hfind p with heq | ⟨n, hn, heq⟩
    · rw [heq]
    · simp [heq, hn, hchildren]

end Served

/-- Not a panic. -/
def IsError (e : Fault) : Prop := e.isError = true

section Tree

variable {graphs : Graphs} {p x : FrameId} {K : List FrameId}

theorem guards_get (hx : x ∈ p :: K) :
    Guards IsError (Served graphs p K) (Served graphs p K) (FrameTree.get x)
      (fun n => x = p → n.children = K) := by
  intro t ht
  obtain ⟨n, hn⟩ := ht.found hx
  rw [exec_get hn]
  refine ⟨ht.load x, ?_, by rintro _ ⟨⟩⟩
  rintro _ ⟨⟩ rfl
  have hchildren := ht.children
  simpa [childrenAt, hn] using hchildren

theorem guards_read {α : Type} (hx : x ∈ p :: K) (φ : FrameNode → α) :
    Guards IsError (Served graphs p K) (Served graphs p K) (do pure (φ (← FrameTree.get x)))
      (fun _ => True) :=
  (guards_get hx).andThen fun _ _ => guards_pure trivial

theorem guards_common_spec_of (hx : x ∈ p :: K) :
    Guards IsError (Served graphs p K) (Served graphs p K) (common_spec_of graphs x)
      (fun _ => True) := by
  intro t ht
  obtain ⟨spec, hspec⟩ := ht.known x hx
  rw [exec_common_spec_of hspec]
  exact ⟨ht.load x, fun _ _ => trivial, by rintro _ ⟨⟩⟩

theorem guards_children :
    Guards IsError (Served graphs p K) (Served graphs p K)
      (asks (iter_children_of · p) : Tree (List FrameId)) (fun ids => ids ⊆ K) := by
  refine guards_asks fun t ht => ?_
  have hchildren := ht.children
  unfold iter_children_of
  cases hc : t.arena p with
  | none => simp
  | some c =>
    simp only [childrenAt, find_of_arena hc, Option.map_some, Option.getD_some] at hchildren
    exact hchildren ▸ List.Subset.refl _

theorem guards_write (hx : x ∈ p :: K) {f : FrameNode → FrameNode}
    (hchildren : ∀ n, (f n).children = n.children) (hspec : ∀ n, (f n).spec_ref = n.spec_ref) :
    Guards IsError (Served graphs p K) (Served graphs p K) (write x f) (fun _ => True) :=
  (guards_get hx).andThen fun _ _ => guards_modify fun _ h => h.edit hchildren hspec

theorem guards_count_failed_frame_child :
    Guards IsError (Served graphs p K) (Served graphs p K) (count_failed_frame_child p)
      (fun _ => True) := by
  unfold count_failed_frame_child
  refine guards_children.andThen fun ids hids => ?_
  refine (guards_filterM ids fun c hc => ?_).andThen fun _ _ => guards_pure trivial
  exact (guards_read (List.mem_cons_of_mem p (hids hc)) (·.status)).andThen fun _ _ =>
    guards_pure trivial

theorem guards_all_children_have_terminated :
    Guards IsError (Served graphs p K) (Served graphs p K) (all_children_have_terminated p)
      (fun _ => True) := by
  unfold all_children_have_terminated all_have_terminated
  refine guards_children.andThen fun ids hids => ?_
  exact guards_allM ids fun c hc => guards_read (List.mem_cons_of_mem p (hids hc)) _

end Tree

/-- The frame `p` is served, and its snapshots are in `R`. -/
def Joinable (ckp : SessionCheckpointer) (p : FrameId) (K : List FrameId)
    (R : SessionSnapshots → Prop) (s : State) : Prop :=
  Served ckp.graphs p K s.frames ∧ R s.snapshots

/-- The superstep of `p` can grow. -/
def HasRoom (p : FrameId) (t : SessionSnapshots) : Prop :=
  ∀ y, t.last p = some y → y.superstep + 1 < 2 ^ 32

def anySnapshots : SessionSnapshots → Prop := fun _ => True

section Wakes

variable {self : SessionCheckpointer} {p x : FrameId} {K : List FrameId}
  {R : SessionSnapshots → Prop}

theorem guards_frames {α : Type} {m : Tree α} {Q : α → Prop}
    (h : Guards IsError (Served self.graphs p K) (Served self.graphs p K) m Q) :
    Guards IsError (Joinable self p K R) (Joinable self p K R) (frames m) Q := by
  intro s hs
  obtain ⟨h1, h2, h3⟩ := h s.frames hs.1
  exact ⟨⟨h1, hs.2⟩, h2, h3⟩

/-- A snapshot that is not there is an error, not a panic. -/
theorem guards_latest (x : FrameId) :
    Guards IsError (Joinable self p K R) (Joinable self p K anySnapshots)
      (snapshots (SessionSnapshots.latest x)) (fun _ => True) := by
  intro s hs
  cases hy : s.snapshots.last x with
  | some y =>
    rw [exec_snapshots (SessionSnapshots.exec_latest hy)]
    exact ⟨⟨hs.1, trivial⟩, fun _ _ => trivial, by rintro _ ⟨⟩⟩
  | none =>
    rw [exec_snapshots (SessionSnapshots.exec_latest_none hy)]
    exact ⟨⟨hs.1, trivial⟩, fun _ _ => trivial, by rintro _ ⟨⟩; rfl⟩

/-- The superstep that a join reads has room. -/
theorem guards_latest_room :
    Guards IsError (Joinable self p K (HasRoom p)) (Joinable self p K anySnapshots)
      (snapshots (SessionSnapshots.latest p)) (fun y => y.superstep + 1 < 2 ^ 32) := by
  intro s hs
  obtain ⟨h1, -, h3⟩ := guards_latest (R := HasRoom p) p s hs
  refine ⟨h1, ?_, h3⟩
  cases hy : s.snapshots.last p with
  | some y =>
    rw [exec_snapshots (SessionSnapshots.exec_latest hy)]
    rintro _ ⟨⟩
    exact hs.2 y hy
  | none =>
    rw [exec_snapshots (SessionSnapshots.exec_latest_none hy)]
    rintro _ ⟨⟩

theorem guards_drain_pending_accumulators {relevants : List FrameId} (h : relevants ⊆ K) :
    Guards IsError (Joinable self p K anySnapshots) (Joinable self p K anySnapshots)
      (self.drain_pending_accumulators p relevants) (fun _ => True) := by
  unfold SessionCheckpointer.drain_pending_accumulators
  refine (guards_frames (guards_common_spec_of (List.mem_cons_self))).andThen fun spec _ => ?_
  refine (guards_foldlM relevants [] fun m c hc => ?_).andThen fun _ _ => guards_pure trivial
  unfold SessionCheckpointer.drain_child
  refine (guards_frames (guards_common_spec_of (List.mem_cons_of_mem p (h hc)))).andThen
    fun _ _ => ?_
  exact (guards_latest c).andThen fun _ _ => guards_pure trivial

theorem guards_commit_snapshot {expected : Nat} (hroom : expected + 1 < 2 ^ 32)
    (updates : List ChannelUpdate) (join_sources : List SnapshotRef) :
    Guards IsError (Joinable self p K anySnapshots) (Joinable self p K anySnapshots)
      (self.commit_snapshot p expected updates join_sources) (fun _ => True) := by
  unfold SessionCheckpointer.commit_snapshot
  refine (guards_latest p).andThen fun last _ => ?_
  split
  · exact guards_throw rfl
  · refine Guards.andThen (Q := fun _ => True) ?_ fun channels _ => ?_
    · unfold SessionCheckpointer.apply_updates
      split
      · exact guards_pure trivial
      · exact (guards_frames (guards_common_spec_of (List.mem_cons_self))).andThen fun _ _ =>
          guards_pure trivial
    · rw [if_neg (by omega)]
      unfold SessionCheckpointer.push SessionSnapshots.push
      refine Guards.andThen (Q := fun _ => True) ?_ fun ref _ => ?_
      · exact fun s hs => ⟨⟨hs.1, trivial⟩, fun _ _ => trivial, by rintro _ ⟨⟩⟩
      · refine Guards.andThen (Q := fun _ => True) ?_ fun _ _ => guards_pure trivial
        refine guards_modify fun s hs => ?_
        split
        · exact ⟨hs.1, trivial⟩
        · exact hs

theorem guards_resolve_pending_log {relevants : List FrameId} (h : relevants ⊆ K) :
    Guards IsError (Joinable self p K anySnapshots) (Joinable self p K anySnapshots)
      (self.resolve_pending_log p relevants) (fun _ => True) := by
  unfold SessionCheckpointer.resolve_pending_log
  refine (guards_frames (guards_read (List.mem_cons_self) _)).andThen fun o _ => ?_
  cases o with
  | none => exact guards_pure trivial
  | some pending =>
    induction relevants with
    | nil => exact guards_pure trivial
    | cons c relevants ih =>
      have hc : c ∈ p :: K := List.mem_cons_of_mem p (h (by simp))
      unfold SessionCheckpointer.resolve_from
      refine (guards_frames (guards_read hc _)).andThen fun spec_ref _ => ?_
      refine (guards_latest c).andThen fun snapshot _ => ?_
      refine Guards.andThen (Q := fun _ => True) ?_ fun value _ => ?_
      · unfold SessionCheckpointer.resolved_by
        split
        · exact guards_pure trivial
        · exact guards_pure trivial
        · exact guards_pure trivial
        · exact (guards_frames (guards_common_spec_of hc)).andThen fun _ _ => guards_pure trivial
        · exact guards_pure trivial
      · cases value with
        | none => exact ih fun y hy => h (by simp [hy])
        | some value =>
          exact guards_frames (guards_write (List.mem_cons_self) (fun _ => rfl) fun _ => rfl)

theorem guards_set_status (status : FrameStatus) :
    Guards IsError (Joinable self p K anySnapshots) (Joinable self p K anySnapshots)
      (frames (set_status p status)) (fun _ => True) :=
  guards_frames (guards_write (List.mem_cons_self) (fun _ => rfl) fun _ => rfl)

theorem guards_emit (event : SessionCheckpointEvent) :
    Guards IsError (Joinable self p K R) (Joinable self p K R) (emit event) (fun _ => True) :=
  guards_modify fun _ h => h

theorem guards_mark_ready_to_run_frame :
    Guards IsError (Joinable self p K anySnapshots) (Joinable self p K anySnapshots)
      (mark_ready_to_run_frame p) (fun _ => True) :=
  (guards_set_status _).andThen fun _ _ => guards_emit _

theorem guards_resume_frame :
    Guards IsError (Joinable self p K anySnapshots) (Joinable self p K anySnapshots)
      (SessionCheckpointer.resume_frame p) (fun _ => True) := by
  unfold SessionCheckpointer.resume_frame
  have hread : Guards IsError (Served self.graphs p K) (Served self.graphs p K)
      (on_resume_policy p) (fun _ => True) :=
    (guards_read (List.mem_cons_self) _).andThen fun _ _ => guards_pure trivial
  refine (guards_frames hread).andThen fun policy _ => ?_
  cases policy with
  | RunFrame => exact guards_mark_ready_to_run_frame
  | MarkComplete =>
    unfold mark_completed_frame
    refine (guards_set_status _).andThen fun _ _ => (guards_emit _).andThen fun _ _ => ?_
    refine (guards_frames (guards_asks (Q := fun _ => True) fun _ _ => trivial)).andThen
      fun o _ => ?_
    cases o with
    | none => exact guards_pure trivial
    | some parent_id => exact guards_emit _

theorem guards_join_sequential :
    Guards IsError (Joinable self p K (HasRoom p)) (Joinable self p K anySnapshots)
      (self.join_sequential p) (fun _ => True) := by
  have hweak : ∀ s, Joinable self p K (HasRoom p) s → Joinable self p K anySnapshots s :=
    fun _ h => ⟨h.1, trivial⟩
  unfold SessionCheckpointer.join_sequential
  have hlast : Guards IsError (Served self.graphs p K) (Served self.graphs p K)
      (last_child_of p) (fun o => ∀ c, o = some c → c ∈ K) := by
    refine (guards_get List.mem_cons_self).andThen fun n hn => guards_pure fun c hc => ?_
    rw [hn rfl] at hc
    exact List.mem_of_getLast? hc
  refine (guards_frames hlast).bind hweak fun o ho => ?_
  cases o with
  | none => exact guards_mark_ready_to_run_frame.mono hweak (fun _ h => h) fun _ h => h
  | some last_child =>
    have hmem : last_child ∈ K := ho last_child rfl
    refine Guards.bind (J := Joinable self p K anySnapshots) (Q := fun _ => True) ?_
      (fun _ h => h) fun _ _ => guards_resume_frame
    unfold SessionCheckpointer.join_last_child
    refine (guards_frames (guards_read (List.mem_cons_of_mem p hmem) _)).bind hweak
      fun status _ => ?_
    cases status with
    | Completed =>
      unfold SessionCheckpointer.commit_last_child
      refine guards_latest_room.bind (fun _ h => h) fun y hy => ?_
      refine (guards_latest p).andThen fun _ _ => ?_
      refine (guards_drain_pending_accumulators (by simpa using hmem)).andThen fun updates _ => ?_
      refine (guards_commit_snapshot hy _ _).andThen fun _ _ => ?_
      exact guards_resolve_pending_log (by simpa using hmem)
    | _ => exact (guards_pure trivial).mono hweak (fun _ h => h) fun _ h => h

theorem guards_join_fan_in :
    Guards IsError (Joinable self p K (HasRoom p)) (Joinable self p K anySnapshots)
      (self.join_fan_in p) (fun _ => True) := by
  unfold SessionCheckpointer.join_fan_in
  refine Guards.bind (J := Joinable self p K anySnapshots) (Q := fun _ => True) ?_
    (fun _ h => h) fun _ _ => guards_resume_frame
  unfold SessionCheckpointer.join_children
  refine guards_latest_room.bind (fun _ h => h) fun y hy => ?_
  refine (guards_frames guards_children).andThen fun ids hids => ?_
  refine (guards_filterM ids fun c hc => ?_).andThen fun relevants hrelevants => ?_
  · exact (guards_frames (guards_read (List.mem_cons_of_mem p (hids hc)) (·.status))).andThen
      fun _ _ => guards_pure trivial
  refine (guards_mapM relevants fun c _ => ?_).andThen fun sources _ => ?_
  · exact (guards_latest c).andThen fun _ _ => guards_pure trivial
  have hsub : relevants ⊆ K := fun c hc => hids (hrelevants hc)
  refine (guards_drain_pending_accumulators hsub).andThen fun updates _ => ?_
  refine (guards_commit_snapshot hy _ _).andThen fun _ _ => ?_
  exact guards_resolve_pending_log hsub

/-- A frame that can join does not panic when a child of it has terminated. -/
theorem guards_on_child_frame_terminated {c : FrameId} (hc : c ∈ K) :
    Guards IsError (Joinable self p K (HasRoom p)) (Joinable self p K anySnapshots)
      (self.on_child_frame_terminated p c) (fun _ => True) := by
  have hweak : ∀ s, Joinable self p K (HasRoom p) s → Joinable self p K anySnapshots s :=
    fun _ h => ⟨h.1, trivial⟩
  unfold SessionCheckpointer.on_child_frame_terminated
  refine (guards_frames (guards_read (List.mem_cons_of_mem p hc) _)).bind hweak fun status _ => ?_
  refine (guards_frames (guards_read List.mem_cons_self _)).bind hweak fun policy _ => ?_
  refine Guards.bind (J := Joinable self p K (HasRoom p)) (Q := fun _ => True) ?_ hweak
    fun o _ => ?_
  · unfold SessionCheckpointer.failure_reached
    split
    · exact (guards_frames guards_count_failed_frame_child).andThen fun _ _ => guards_pure trivial
    · exact guards_pure trivial
  · cases o with
    | some count =>
      refine Guards.mono (I := Joinable self p K anySnapshots) ?_ hweak (fun _ h => h)
        fun _ h => h
      exact (guards_set_status _).andThen fun _ _ => guards_emit _
    | none =>
      simp only
      split
      · exact guards_join_sequential
      · refine (guards_frames guards_all_children_have_terminated).bind hweak fun b _ => ?_
        split
        · exact guards_join_fan_in
        · exact (guards_pure trivial).mono hweak (fun _ h => h) fun _ h => h
      · exact (guards_pure trivial).mono hweak (fun _ h => h) fun _ h => h

theorem resumed_of_join_fan_in {s s' : State} (h : exec (self.join_fan_in p) s = (.ok (), s')) :
    s'.frames.statusIs FrameStatus.has_resumed p := by
  obtain ⟨_, s1, -, h⟩ := exec_bind_eq_ok h
  exact resumed_of_resume_frame h

/-- A frame that acts on the notification of a child is awake after it, or another child of it
has not terminated. -/
theorem woken {s s' : State} {c : FrameId} {n : FrameNode} (hn : s.frames.find p = some n)
    (hpol : n.frame_policy.resume_policy ≠ .Hitl)
    (h : exec (self.on_child_frame_terminated p c) s = (.ok (), s')) :
    ¬ s'.frames.Waits p ∨ ¬ s.frames.AllTerminated p := by
  rcases child_terminated_cases self s p c with
    ⟨e, t, ht, hr⟩ | ⟨t, cp, ht, hfind, hcp, hcase⟩
  · rw [hr] at h
    cases h
  · rw [hn] at hfind
    cases hfind
    have hresumed : s'.frames.statusIs FrameStatus.has_resumed p → ¬ s'.frames.Waits p :=
      fun hres hwait => not_resumed_of_waiting hwait hres
    rcases hcase with ⟨-, err, hr⟩ | ⟨-, -, hr⟩ | ⟨-, -, -, hr⟩ | ⟨-, ⟨-, hall⟩ | hhitl, -⟩
    · left
      rw [hr, exec_mark_failed (find_of_arena hcp)] at h
      cases h
      intro hwait
      change statusIs FrameStatus.is_waiting
        (State.marked _ p (.Failed err)).frames p = true at hwait
      rw [statusIs, find_marked (find_of_arena hcp)] at hwait
      simp [FrameStatus.is_waiting] at hwait
    · exact .inl (hresumed (resumed_of_join_sequential (hr.symm.trans h)))
    · exact .inl (hresumed (resumed_of_join_fan_in (hr.symm.trans h)))
    · exact .inr hall
    · exact absurd hhitl hpol

end Wakes

/-! ## What a waiting frame waits for -/

/-- A child that has not terminated, or a request that no one has answered. -/
def WaitsForSomething (s : State) (n : FrameNode) : Prop :=
  (∃ c ∈ n.children, ∃ m, s.frames.find c = some m ∧ m.status.has_terminated = false) ∨
    ∃ bound ∈ n.hitl_aliases, ∃ hitl ∈ s.hitls, hitl.1 = bound.2

def NoFrameWaitsForNothing (s : State) : Prop :=
  ∀ p n, s.frames.find p = some n → n.status = .WaitingChildren → WaitsForSomething s n

/-- The notification of a child finds a frame that it can wake. -/
def CanWake (ckp : SessionCheckpointer) (s : State) (p : FrameId) : Prop :=
  ∀ n, s.frames.find p = some n → n.status = .WaitingChildren →
    n.frame_policy.resume_policy ≠ .Hitl ∧
    (∀ x ∈ p :: n.children, ∃ spec, spec_at ckp.graphs s.frames x = some spec) ∧
    HasRoom p s.snapshots

/-- What an event needs to find. -/
def Sustains (ckp : SessionCheckpointer) (s : State) : SessionCheckpointEvent → Prop
  | .ChildFrameTerminated p _ => CanWake ckp s p
  | event => Provides s event

/-- The session has failed, or each frame that waits is attended. -/
def Tended (x : RunningSession) : Prop :=
  x.state.session_status.has_failed ∨
    (x.state.frames.Linked ∧ ∀ p, x.state.frames.Waits p → Attended x.state p)

section Law

variable {self : SessionCheckpointer} {s : State} {p : FrameId} {event : SessionCheckpointEvent}
  {index : Nat}

/-- An event that is taken is missed by the frames that waited for it only. -/
theorem attended_taken (h : Attended s p) (he : s.listeners[index]? = some event) :
    Attended (s.taken index) p ∨ ∃ c ∈ s.frames.childrenAt p,
      event = .FrameTerminated c ∨ event = .ChildFrameTerminated p c := by
  obtain ⟨c, hc, hwake⟩ := h
  rcases hwake with hlive | hend | hend
  · exact .inl ⟨c, hc, .inl hlive⟩
  · rcases mem_or_mem_eraseIdx he hend with h | h
    · exact .inr ⟨c, hc, .inl h.symm⟩
    · exact .inl ⟨c, hc, .inr (.inl h)⟩
  · rcases mem_or_mem_eraseIdx he hend with h | h
    · exact .inr ⟨c, hc, .inr h.symm⟩
    · exact .inl ⟨c, hc, .inr (.inr h)⟩

/-- The child of a frame that `on_frame_terminated` tells of. -/
theorem exec_on_frame_terminated (hl : s.frames.Linked) {c : FrameId}
    (hc : c ∈ s.frames.childrenAt p) :
    exec (SessionCheckpointer.on_frame_terminated c) s =
      (.ok (), s.emits [.ChildFrameTerminated p c]) := by
  unfold childrenAt at hc
  cases hn : s.frames.find p with
  | none => simp [hn] at hc
  | some n =>
    simp only [hn, Option.map_some, Option.getD_some] at hc
    obtain ⟨m, hm, hparent⟩ := hl.children p n hn c hc
    obtain ⟨k, hk⟩ := hl.cached c m hm
    rw [find_of_arena hk] at hm
    cases hm
    have hpar : s.frames.parent_of c = some p := by simp [parent_of, hk, hparent]
    unfold SessionCheckpointer.on_frame_terminated
    rw [exec_bind_ok (exec_frames (exec_asks _ s.frames)), hpar]
    rfl

/-- The frame that waits for this very notification is woken by it. -/
theorem attended_or_awake (hl : s.frames.Linked) {c : FrameId} (hc : c ∈ s.frames.childrenAt p)
    (hwait : s.frames.Waits p) (hcan : CanWake self s p) {r : Except Fault Unit} {s' : State}
    (hr : exec (self.on_child_frame_terminated p c) s = (r, s'))
    (hok : ∀ error, r ≠ .error (.error error)) : ¬ s'.frames.Waits p ∨ Attended s p := by
  have hfound : ∃ n, s.frames.find p = some n ∧ n.status = .WaitingChildren := by
    unfold Waits statusIs at hwait
    cases hn : s.frames.find p with
    | none => simp [hn] at hwait
    | some n =>
      simp only [hn, Option.map_some, Option.getD_some] at hwait
      exact ⟨n, rfl, by cases hst : n.status <;> simp_all [FrameStatus.is_waiting]⟩
  obtain ⟨n, hn, hstatus⟩ := hfound
  obtain ⟨hpol, hknown, hroom⟩ := hcan n hn hstatus
  have hchildren : s.frames.childrenAt p = n.children := by simp [childrenAt, hn]
  rw [hchildren] at hc
  have hjoin : Joinable self p n.children (HasRoom p) s := ⟨⟨hknown, hchildren⟩, hroom⟩
  obtain ⟨-, -, herror⟩ := guards_on_child_frame_terminated hc s hjoin
  rw [hr] at herror
  cases r with
  | error e =>
    have hmine : e.isError = true := herror e rfl
    cases e with
    | error error => exact absurd rfl (hok error)
    | panic message => cases hmine
  | ok u =>
    rcases woken hn hpol hr with hawake | hall
    · exact .inl hawake
    · right
      unfold AllTerminated at hall
      push Not at hall
      obtain ⟨x, hx, hlive⟩ := hall
      rw [hchildren] at hx
      obtain ⟨m, hm, -⟩ := hl.children p n hn x hx
      refine ⟨x, by rw [hchildren]; exact hx, .inl ?_⟩
      simp only [statusIs, hm, Option.map_some, Option.getD_some] at hlive
      simp [Live, statusIs, hm, FrameStatus.is_live, hlive]

theorem Sustains.provides (h : Sustains self s event) : Provides s event := by
  cases event with
  | ChildFrameTerminated p c => trivial
  | _ => exact h

/-- The step of an event: an error fails the session, else the status of the session stays. -/
theorem step_cases (self : SessionCheckpointer) (s : State) (event : SessionCheckpointEvent) :
    (∃ error, (exec (self.on_event event) s).1 = .error (.error error) ∧
      (self.step s event).session_status.has_failed) ∨
    ((∀ error, (exec (self.on_event event) s).1 ≠ .error (.error error)) ∧
      self.step s event = (exec (self.on_event event) s).2) := by
  unfold SessionCheckpointer.step SessionCheckpointer.process_event
  rw [exec_tryCatch]
  rcases exec (self.on_event event) s with ⟨e | u, s'⟩
  · cases e with
    | error error => exact .inl ⟨error, rfl, rfl⟩
    | panic message => exact .inr ⟨by rintro error ⟨⟩, rfl⟩
  · exact .inr ⟨by rintro error ⟨⟩, rfl⟩

theorem step_has_failed (h : s.session_status.has_failed) :
    (self.step s event).session_status.has_failed := by
  rcases step_cases self s event with ⟨_, -, hfailed⟩ | ⟨-, hstep⟩
  · exact hfailed
  · rw [hstep, on_event_session_status]
    exact h

/-- A frame that waits after an event is attended after it. -/
theorem attended_on_event (hl : s.frames.Linked) (hs : ∀ p, s.frames.Waits p → Attended s p)
    (he : s.listeners[index]? = some event) (h : Sustains self (s.taken index) event)
    (hok : ∀ error, (exec (self.on_event event) (s.taken index)).1 ≠ .error (.error error))
    (hwait : (exec (self.on_event event) (s.taken index)).2.frames.Waits p) :
    Attended (exec (self.on_event event) (s.taken index)).2 p := by
  have hl' : (s.taken index).frames.Linked := hl
  have htends := tends_on_event self hl' h.provides
  rcases htends.waits p hwait with hbefore | hattended | hno
  · rcases attended_taken (hs p hbefore) he with hattended | ⟨c, hc, rfl | rfl⟩
    · exact htends.attended p hattended
    · -- the parent is told next
      have hrun := exec_on_frame_terminated hl' hc
      change Attended (exec (SessionCheckpointer.on_frame_terminated c) (s.taken index)).2 p
      rw [hrun]
      exact ⟨c, hc, .inr (.inr (List.mem_append_right _ (List.mem_singleton.mpr rfl)))⟩
    · -- the notification is handled now
      rcases attended_or_awake hl' hc hbefore h rfl hok with hawake | hattended
      · exact absurd hwait hawake
      · exact htends.attended p hattended
  · exact hattended
  · exact hno.elim

theorem tended_handle {x : RunningSession} (hx : Tended x)
    (he : x.state.listeners[index]? = some event)
    (h : Sustains self (x.state.taken index) event) : Tended (self.handle x index event) := by
  rcases hx with hfailed | ⟨hl, hwaits⟩
  · exact .inl (step_has_failed hfailed)
  · rcases step_cases self (x.state.taken index) event with ⟨_, -, hfailed⟩ | ⟨hok, hstep⟩
    · exact .inl hfailed
    · right
      have hl' : (x.state.taken index).frames.Linked := hl
      change (self.step (x.state.taken index) event).frames.Linked ∧
        ∀ p, (self.step (x.state.taken index) event).frames.Waits p →
          Attended (self.step (x.state.taken index) event) p
      rw [hstep]
      exact ⟨(tends_on_event self hl' h.provides).linked hl', fun p hwait =>
        attended_on_event hl hwaits he h hok hwait⟩

/-- What happens beside the frames, with more events in the queue, leaves a session tended. -/
theorem Tended.beside {x y : RunningSession} (hx : Tended x)
    (events : List SessionCheckpointEvent) (hframes : y.state.frames = x.state.frames)
    (hl : y.state.listeners = x.state.listeners ++ events)
    (hstatus : y.state.session_status = x.state.session_status) : Tended y := by
  rcases hx with hfailed | ⟨hlinked, hwaits⟩
  · exact .inl (by rw [hstatus]; exact hfailed)
  · right
    have hquiet : Tends noFrame x.state y.state :=
      .of_quiet events (by rw [hframes]; exact .refl _) hl
    refine ⟨hquiet.linked hlinked, fun p hp => ?_⟩
    rw [hframes] at hp
    exact hquiet.attended p (hwaits p hp)

theorem tended_relay (decode : Value → Except String FrameResponse) {x : RunningSession}
    (hx : Tended x) (index : Nat) (job_state : JobState Value) :
    Tended (SessionCheckpointer.relay decode x index job_state) := by
  unfold SessionCheckpointer.relay
  split
  · exact hx
  · split
    · exact hx.beside [] rfl (by simp) rfl
    · exact hx.beside [_] rfl rfl rfl

/-- The root is alone. -/
theorem linked_start (self : SessionCheckpointer) (args : NewFrameNodeArgs)
    (initial_channels : List (ChannelName × Value)) (rows : SnapshotRows) :
    (self.start args initial_channels rows).state.frames.Linked := by
  have hnode : ∀ x n, (self.start args initial_channels rows).state.frames.find x = some n →
      x = ⟨0⟩ ∧ n = rootNode args initial_channels := by
    intro x n hn
    rw [find_start] at hn
    split at hn
    · rename_i hx
      cases hn
      exact ⟨hx, rfl⟩
    · cases hn
  refine ⟨?_, ?_, ?_⟩
  · intro x n hn
    obtain ⟨rfl, -⟩ := hnode x n hn
    exact ⟨_, by rw [arena_start, if_pos rfl]⟩
  · intro p n hn c hc
    obtain ⟨-, rfl⟩ := hnode p n hn
    cases hc
  · intro x n p hn hp
    obtain ⟨-, rfl⟩ := hnode x n hn
    cases hp

theorem tended_start (self : SessionCheckpointer) (args : NewFrameNodeArgs)
    (initial_channels : List (ChannelName × Value)) (rows : SnapshotRows) :
    Tended (self.start args initial_channels rows) := by
  refine .inr ⟨linked_start self args initial_channels rows, fun p hp => ?_⟩
  unfold Waits statusIs at hp
  rw [find_start] at hp
  split at hp <;> cases hp

end Law

/-- **No frame waits for nothing**: once a session that has not failed is quiescent, each frame
that waits has someone to wait for, when each event found what it needs. -/
theorem no_frame_waits_for_nothing (self : SessionCheckpointer)
    (decode : Value → Except String FrameResponse) (args : NewFrameNodeArgs)
    (initial_channels : List (ChannelName × Value)) (rows : SnapshotRows)
    (moves : List SystemMove)
    (h : self.AlongSystem decode (Sustains self) (self.start args initial_channels rows) moves)
    (hquiet :
      (self.runSystem decode (self.start args initial_channels rows) moves).Quiescent)
    (hok : (self.runSystem decode (self.start args initial_channels rows)
      moves).state.session_status.has_failed = false) :
    NoFrameWaitsForNothing
      (self.runSystem decode (self.start args initial_channels rows) moves).state := by
  have htended := self.runSystem_keeps decode (fun x index event hx he hs => tended_handle hx he hs)
    (fun x index job_state hx => tended_relay decode hx index job_state)
    (fun x response hitls hx => hx.beside [.HitlAnswered response] rfl rfl rfl)
    (fun x snapshots hx => hx.beside [] rfl (by simp) rfl)
    _ moves (tended_start self args initial_channels rows) h
  rcases htended with hfailed | ⟨hl, hwaits⟩
  · rw [hok] at hfailed
    cases hfailed
  · intro p n hn hstatus
    obtain ⟨c, hc, hwake⟩ := hwaits p (by simp [Waits, statusIs, hn, hstatus, FrameStatus.is_waiting])
    simp only [childrenAt, hn, Option.map_some, Option.getD_some] at hc
    rw [hquiet.1] at hwake
    rcases hwake with hlive | hend | hend
    · obtain ⟨m, hm, -⟩ := hl.children p n hn c hc
      refine .inl ⟨c, hc, m, hm, ?_⟩
      simpa [Live, statusIs, hm, FrameStatus.is_live] using hlive
    · cases hend
    · cases hend

/-! ## A node that calls no tool -/

/-- The run of the node asks for an empty list of tools. -/
def callsNoTool (_ : Value) : Except String FrameResponse :=
  .ok { frame_id := ⟨0⟩, updates := [], new_logs := [⟨0, .CallToolsLog [], none⟩],
        result := .CallTools [] }

/-- A node of a graph as the root of its session. -/
def nodeArgs : NewFrameNodeArgs :=
  { spec_ref := .Graph ⟨"g", 1⟩, data := .GraphNode ⟨"g", 1⟩ "a" }

/-- The node runs, and all that it sends is handled. -/
def nodeRuns : List SystemMove :=
  [.event 0, .event 0, .report 0 (.Completed .Null), .event 0, .event 0, .event 0, .event 0]

/-- The aggregator of no call waits for ever. -/
theorem an_aggregator_of_no_call_waits_for_nothing :
    (overTwoNodes.runSystem callsNoTool
      (overTwoNodes.start nodeArgs [] [⟨⟨0⟩, ⟨0⟩, 0, .empty, []⟩]) nodeRuns).Quiescent ∧
    (overTwoNodes.runSystem callsNoTool (overTwoNodes.start nodeArgs []
      [⟨⟨0⟩, ⟨0⟩, 0, .empty, []⟩]) nodeRuns).state.session_status.has_failed = false ∧
    ¬ NoFrameWaitsForNothing (overTwoNodes.runSystem callsNoTool
      (overTwoNodes.start nodeArgs [] [⟨⟨0⟩, ⟨0⟩, 0, .empty, []⟩]) nodeRuns).state := by
  refine ⟨⟨rfl, rfl⟩, rfl, fun h => ?_⟩
  rcases h ⟨1⟩ _ rfl rfl with ⟨c, hc, -⟩ | ⟨bound, hbound, -⟩
  · cases hc
  · cases hbound

/-- A thread of a graph as the root of its session. -/
def threadArgs : NewFrameNodeArgs :=
  { nodeArgs with
    data := .GraphThread ⟨"g", 1⟩
    frame_policy := { on_start_policy := .AppendGraphNode ⟨"g", 1⟩ "a" } }

/-- The result of the node is not decoded: the session is quiescent, and the thread waits for
the node. -/
theorem a_thread_waits_for_its_node :
    (overTwoNodes.runSystem (fun _ => .error "")
      (overTwoNodes.start threadArgs [] [⟨⟨0⟩, ⟨1⟩, 0, .empty, []⟩])
      [.event 0, .event 0, .event 0, .report 0 (.Completed .Null)]).state.frames.Waits ⟨0⟩ ∧
    NoFrameWaitsForNothing (overTwoNodes.runSystem (fun _ => .error "")
      (overTwoNodes.start threadArgs [] [⟨⟨0⟩, ⟨1⟩, 0, .empty, []⟩])
      [.event 0, .event 0, .event 0, .report 0 (.Completed .Null)]).state :=
  ⟨rfl, no_frame_waits_for_nothing overTwoNodes (fun _ => .error "") threadArgs []
    [⟨⟨0⟩, ⟨1⟩, 0, .empty, []⟩] [.event 0, .event 0, .event 0, .report 0 (.Completed .Null)]
    ⟨by rintro n graph_ref join ⟨⟩ ⟨⟩, fun _ =>
      ⟨by rintro n graph_ref join ⟨⟩ ⟨⟩, fun _ => ⟨trivial, fun _ => trivial⟩⟩⟩
    ⟨rfl, rfl⟩ rfl⟩

end marie.session
