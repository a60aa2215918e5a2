-- The end of a run, handled twice. A run that completes sends
-- `FrameRunTerminated` two times; the second one does nothing when the first
-- moved the frame on. When the first stopped on its way, the frame is still in
-- `RunCompleted`, and the second commits, logs and appends once more.
import Marie.Session.Actions
import Marie.Session.Quiescence

namespace marie.session

open Program FrameTree

/-! ## What the record of a run leaves to the dispatch -/

/-- Between two states the appends find the same parents, sources and snapshots. -/
structure SameAppends (s s' : State) : Prop where
  next : s'.frames.next = s.frames.next
  next_id : s'.next_id = s.next_id
  store : s'.frames.store = s.frames.store
  arena : ∀ x, (s'.frames.arena x).map (·.node.host) = (s.frames.arena x).map (·.node.host)
  rows : ∀ x, HasSnapshot s' x ↔ HasSnapshot s x

section SameAppends

variable {self : SessionCheckpointer} {s s' : State} {f p : FrameId}

theorem SameAppends.find (h : SameAppends s s') (x : FrameId) :
    (s'.frames.find x).map FrameNode.host = (s.frames.find x).map FrameNode.host := by
  have hx := h.arena x
  unfold FrameTree.find
  cases hc : s.frames.arena x with
  | none =>
    simp only [hc, Option.map_none, Option.map_eq_none_iff] at hx
    simp [hx, h.store]
  | some c =>
    simp only [hc, Option.map_some, Option.map_eq_some_iff] at hx
    obtain ⟨c', hc', hhost⟩ := hx
    simp [hc', hhost]

theorem SameAppends.load (h : SameAppends s s') (x : FrameId) :
    SameAppends (s.loaded x) (s'.loaded x) where
  next := h.next
  next_id := h.next_id
  store := h.store
  rows := h.rows
  arena y := by
    have hy := h.arena y
    by_cases hxy : y = x
    · subst hxy
      cases hc : s.frames.arena y with
      | none =>
        simp only [hc, Option.map_none, Option.map_eq_none_iff] at hy
        simp [State.loaded, FrameTree.load, hc, hy, h.store]
      | some c =>
        simp only [hc, Option.map_some, Option.map_eq_some_iff] at hy
        obtain ⟨c', hc', hhost⟩ := hy
        simp [State.loaded, FrameTree.load, hc, hc', hhost]
    · simpa [State.loaded, FrameTree.load, hxy] using hy

theorem SameAppends.found (h : SameAppends s s') (x : FrameId) : Found x s' ↔ Found x s := by
  have hx := h.find x
  unfold Found
  cases hn : s.frames.find x with
  | none =>
    simp only [hn, Option.map_none, Option.map_eq_none_iff] at hx
    simp [hx]
  | some n =>
    simp only [hn, Option.map_some, Option.map_eq_some_iff] at hx
    obtain ⟨n', hn', -⟩ := hx
    simp [hn']

theorem SameAppends.sourceFor (h : SameAppends s s') (p : FrameId) :
    s'.frames.sourceFor p = s.frames.sourceFor p := by
  have hp := h.arena p
  unfold FrameTree.sourceFor
  cases hc : s.frames.arena p with
  | none =>
    simp only [hc, Option.map_none, Option.map_eq_none_iff] at hp
    simp [hp]
  | some c =>
    simp only [hc, Option.map_some, Option.map_eq_some_iff] at hp
    obtain ⟨c', hc', hhost⟩ := hp
    have hpolicy : c'.node.frame_policy = c.node.frame_policy := congrArg (·.1) hhost
    have hch : c'.node.children = c.node.children := congrArg (·.2.2.2.2) hhost
    simp [hc', hpolicy, hch]

theorem SameAppends.canAppend (h : SameAppends s s') (p : FrameId) (spec_ref : FrameSpecRef) :
    CanAppend self s' p spec_ref ↔ CanAppend self s p spec_ref := by
  constructor
  · rintro ⟨hp, hspec, hsource⟩
    exact ⟨(h.found p).mp hp, hspec, fun q hq => (h.rows q).mp (hsource q (by rw [h.sourceFor, hq]))⟩
  · rintro ⟨hp, hspec, hsource⟩
    refine ⟨(h.found p).mpr hp, hspec, fun q hq => (h.rows q).mpr (hsource q ?_)⟩
    rw [← h.sourceFor, hq]

theorem SameAppends.canConsult (h : SameAppends s s') (f : FrameId) (count : Nat) :
    CanConsult self s' f count ↔ CanConsult self s f count := by
  have hseq : (∃ c, s'.frames.arena f = some c ∧ c.node.frame_policy.resume_policy = .Sequential) ↔
      ∃ c, s.frames.arena f = some c ∧ c.node.frame_policy.resume_policy = .Sequential := by
    have hf := congrArg (Option.map fun host => host.1.resume_policy) (h.arena f)
    simp only [Option.map_map] at hf
    constructor
    · rintro ⟨c', hc', hpol⟩
      rw [hc', Option.map_some] at hf
      obtain ⟨c, hc, hhost⟩ := Option.map_eq_some_iff.mp hf.symm
      exact ⟨c, hc, hhost.trans hpol⟩
    · rintro ⟨c, hc, hpol⟩
      rw [hc, Option.map_some] at hf
      obtain ⟨c', hc', hhost⟩ := Option.map_eq_some_iff.mp hf
      exact ⟨c', hc', hhost.trans hpol⟩
  unfold CanConsult
  rw [h.canAppend, hseq, h.next]
  simp only [h.rows]

/-- The spec that a fork finds at its parent. -/
theorem SameAppends.extends (h : SameAppends s s') (f : FrameId) (n : FrameNode)
    (result : FrameResult) (p : FrameId) (graph_ref : GraphRef) :
    Extends self s'.frames f n result p graph_ref ↔ Extends self s.frames f n result p graph_ref := by
  cases result with
  | Fork branches join =>
    have hp := congrArg (Option.map (·.2.1)) (h.find p)
    simp only [Option.map_map] at hp
    have hspec : (∃ m, s'.frames.find p = some m ∧ m.spec_ref = .Graph graph_ref) ↔
        ∃ m, s.frames.find p = some m ∧ m.spec_ref = .Graph graph_ref := by
      constructor
      · rintro ⟨m', hm', href⟩
        rw [hm', Option.map_some] at hp
        obtain ⟨m, hm, hhost⟩ := Option.map_eq_some_iff.mp hp.symm
        exact ⟨m, hm, hhost.trans href⟩
      · rintro ⟨m, hm, href⟩
        rw [hm, Option.map_some] at hp
        obtain ⟨m', hm', hhost⟩ := Option.map_eq_some_iff.mp hp
        exact ⟨m', hm', hhost.trans href⟩
    simp only [Extends, hspec]
  | _ => rfl

theorem SameAppends.goesThrough (h : SameAppends s s') (f : FrameId) (n : FrameNode)
    (result : FrameResult) :
    GoesThrough self s' f n result ↔ GoesThrough self s f n result := by
  cases result with
  | RequestHitl hitl => simp only [GoesThrough, h.next_id]
  | Completed => rfl
  | Failed err => rfl
  | ConsultExperts requests => exact h.canConsult f requests.length
  | CallTools requests => simp only [GoesThrough, h.canAppend, h.rows, h.next]
  | Fork branches join =>
    simp only [GoesThrough, h.extends, (h.load _).canAppend, h.rows, h.next]
  | _ => simp only [GoesThrough, h.extends, h.canAppend]

/-- A node that differs in its log and its status alone asks for the same. -/
theorem goesThrough_congr {n n' : FrameNode} (hp : n'.parent = n.parent) (hd : n'.data = n.data)
    (result : FrameResult) :
    (GoesThrough self s f n' result ↔ GoesThrough self s f n result) ∧
      (AppendsFrames self s.frames f n' result ↔ AppendsFrames self s.frames f n result) := by
  cases result <;> simp only [GoesThrough, AppendsFrames, Extends, hp, hd, and_self]

end SameAppends

/-! ## The snapshots after a commit -/

section Committed

variable {self : SessionCheckpointer} {t : SessionSnapshots} {x : Snapshot} {spec : CommonSpec}
  {updates : List ChannelUpdate} {f y : FrameId}

theorem committed_store :
    (self.committed t x spec updates).store =
      if self.flush_on_push then t.store.upsert_snapshot (self.pushed spec x updates [])
      else t.store := by
  unfold SessionCheckpointer.committed SessionCheckpointer.push_into
  split
  · simp [SessionSnapshots.flush, SessionSnapshots.insert]
  · rfl

theorem committed_session_id : (self.committed t x spec updates).session_id = t.session_id := by
  unfold SessionCheckpointer.committed SessionCheckpointer.push_into
  split
  · simp [SessionSnapshots.flush, SessionSnapshots.insert]
  · rfl

/-- A commit makes no frame have a snapshot that had none. -/
theorem last_committed (hx : t.last f = some x) :
    (∃ z, (self.committed t x spec updates).last y = some z) ↔ ∃ z, t.last y = some z := by
  obtain ⟨⟨hsid, hid, hmem⟩, -⟩ := SessionSnapshots.latest_snapshot_spec hx
  unfold SessionSnapshots.last
  rw [committed_store, committed_session_id]
  split
  · by_cases hy : y = f
    · subst hy
      have hne : x.ref ≠ (self.pushed spec x updates []).ref := by
        intro heq
        have hstep : x.superstep = x.superstep + 1 := congrArg (·.superstep) heq
        omega
      have hrow := SessionSnapshots.mem_upsert_snapshot.mpr (.inr ⟨hmem, hne⟩)
      exact iff_of_true (SessionSnapshots.exists_latest_snapshot hsid hid hrow) ⟨x, hx⟩
    · have hother : (self.pushed spec x updates []).frame_id ≠ y := by
        change x.frame_id ≠ y
        rw [hid]
        exact Ne.symm hy
      rw [SessionSnapshots.latest_upsert_other hother]
  · rfl

end Committed

/-! ## The two passes -/

/-- The frames, with their logs and their children, and the snapshots are the same. -/
structure SameSession (s s' : State) : Prop where
  frames : ∀ x, s'.frames.find x = s.frames.find x
  store : s'.snapshots.store = s.snapshots.store
  cache : s'.snapshots.cache = s.snapshots.cache

section Passes

variable {self : SessionCheckpointer} {s s1 s2 : State} {f : FrameId} {n : FrameNode}
  {c : FrameNodeContainer} {response : FrameResponse}

/-- A frame with no run to dispatch is left alone. -/
theorem handled_of_movedOn (h : ∀ n response, s.frames.find f = some n →
    n.status ≠ .RunCompleted response) :
    SameSession s (exec (self.on_frame_run_terminated f) s).2 := by
  unfold SessionCheckpointer.on_frame_run_terminated
  cases hn : s.frames.find f with
  | none =>
    rw [status_of, exec_read_none hn]
    exact ⟨fun _ => rfl, rfl, rfl⟩
  | some n =>
    rw [status_of, exec_read hn]
    split
    · rename_i response hst
      exact absurd hst (h n response hn)
    · exact ⟨fun x => by rw [exec_pure, State.loaded, find_load], rfl, rfl⟩

/-- The handler of a frame whose run completed. -/
theorem exec_terminated (hn : s.frames.find f = some n)
    (hst : n.status = .RunCompleted response) :
    exec (self.on_frame_run_terminated f) s =
      exec (do
        self.record_run f response
        self.dispatch f response.result) (s.loaded f) := by
  unfold SessionCheckpointer.on_frame_run_terminated
  rw [status_of, exec_read hn, hst]

theorem logged_arena (hc : s.frames.arena f = some c) (new_logs : List RunLog) :
    ∃ c', (s.frames.logged f new_logs).arena f = some c' ∧
      c'.node = { c.node with logs := c.node.logs ++ new_logs } := by
  unfold FrameTree.logged
  cases new_logs with
  | nil => exact ⟨c, hc, by simp⟩
  | cons l ls => exact ⟨_, by simp [edit, hc]; rfl, rfl⟩

/-- The state that the record of a run leaves. -/
theorem exec_records (hc : s.frames.arena f = some c) (h : Records self s f response) :
    ∃ t, exec (self.record_run f response) s =
        (.ok (), { s with frames := s.frames.logged f response.new_logs, snapshots := t }) ∧
      ((response.updates = [] ∧ t = s.snapshots) ∨
        (response.updates ≠ [] ∧ ∃ x spec, s.snapshots.last f = some x ∧
          spec_at self.graphs s.frames f = some spec ∧ x.superstep + 1 < 2 ^ 32 ∧
          t = self.committed s.snapshots x spec response.updates)) := by
  by_cases hu : response.updates = []
  · exact ⟨_, exec_record_run_silent hc hu, .inl ⟨hu, rfl⟩⟩
  · obtain ⟨x, spec, hx, hspec, hroom⟩ := h.resolve_left hu
    exact ⟨_, exec_record_run hc hu hx hspec hroom, .inr ⟨hu, x, spec, hx, hspec, hroom, rfl⟩⟩

theorem sameAppends_recorded {t : SessionSnapshots} (hc : s.frames.arena f = some c)
    (new_logs : List RunLog) (ht : ∀ y, (∃ z, t.last y = some z) ↔ ∃ z, s.snapshots.last y = some z) :
    SameAppends s { s with frames := s.frames.logged f new_logs, snapshots := t } := by
  unfold FrameTree.logged
  split
  · exact ⟨rfl, rfl, rfl, fun _ => rfl, ht⟩
  · refine ⟨rfl, rfl, rfl, fun x => ?_, ht⟩
    by_cases hx : x = f
    · subst hx
      simp [edit, hc, FrameNode.host]
    · simp [edit, hx]

/-- The record of a run makes no frame have a snapshot that had none. -/
theorem last_recorded {t : SessionSnapshots}
    (ht : (response.updates = [] ∧ t = s.snapshots) ∨ (response.updates ≠ [] ∧
      ∃ x spec, s.snapshots.last f = some x ∧ spec_at self.graphs s.frames f = some spec ∧
        x.superstep + 1 < 2 ^ 32 ∧ t = self.committed s.snapshots x spec response.updates))
    (y : FrameId) : (∃ z, t.last y = some z) ↔ ∃ z, s.snapshots.last y = some z := by
  rcases ht with ⟨-, rfl⟩ | ⟨-, x, spec, hx, -, -, rfl⟩
  · rfl
  · exact last_committed hx

/-- Whether a run can be recorded does not depend on the cache. -/
theorem records_loaded : Records self (s.loaded f) f response ↔ Records self s f response := by
  unfold Records
  rw [State.loaded, spec_at_load]

theorem found_loaded (h : Found p s) : Found p (s.loaded f) := by
  obtain ⟨m, hm⟩ := h
  exact ⟨m, by rw [State.loaded, find_load, hm]⟩

/-- A run that is recorded and whose dispatch goes through moves its frame on. -/
theorem terminated_through (hn : s.frames.find f = some n)
    (hst : n.status = .RunCompleted response) (hparent : ∀ p, n.parent = some p → Found p s)
    (hrec : Records self s f response)
    (hgo : GoesThrough self (s.loaded f) f n response.result) :
    ∃ s', exec (self.on_frame_run_terminated f) s = (.ok (), s') ∧ MovedOn f s' := by
  obtain ⟨c, hc, rfl⟩ := resident_load hn
  have hrec0 : Records self (s.loaded f) f response := records_loaded.mpr hrec
  have hparent0 : ∀ p, c.node.parent = some p → Found p (s.loaded f) :=
    fun p hp => found_loaded (hparent p hp)
  obtain ⟨t, hrun, ht⟩ := exec_records (s := s.loaded f) hc hrec0
  have hsame := sameAppends_recorded (s := s.loaded f) hc response.new_logs (last_recorded ht)
  obtain ⟨c1, hc1, hnode⟩ := logged_arena (s := s.loaded f) hc response.new_logs
  have hp1 : c1.node.parent = c.node.parent := by rw [hnode]
  have hd1 : c1.node.data = c.node.data := by rw [hnode]
  rw [exec_terminated hn hst, exec_bind_ok hrun]
  exact dispatch_through hc1
    (fun p hp => (hsame.found p).mpr (hparent0 p (hp1.symm.trans hp)))
    ((goesThrough_congr hp1 hd1 response.result).1.mpr
      ((hsame.goesThrough f c.node response.result).mpr hgo))

/-- A dispatch that stops short does so in every state with the same next id where it appends
nothing. -/
theorem StopsShort.congr {result : FrameResult} {n' : FrameNode} (h : StopsShort self s f n result)
    (hid : s1.next_id = s.next_id) (happ : ¬ AppendsFrames self s1.frames f n' result) :
    StopsShort self s1 f n' result := by
  refine ⟨happ, ?_⟩
  obtain ⟨-, hkind⟩ := h
  cases result with
  | RequestHitl hitl =>
    change self.upsert_hitl_frame ⟨s1.next_id⟩ hitl ≠ none
    rw [hid]
    exact hkind
  | _ => exact hkind

/-- A frame of the cache that is kept, but for its links to new children. -/
theorem Within.resident {b : Nat} (h : Within b noFrame noFrame s s1) (hlt : f.id < b)
    (hc : s.frames.arena f = some c) :
    ∃ c', s1.frames.arena f = some c' ∧ Kept False False c.node c'.node := by
  obtain ⟨c', hc'⟩ := h.frames.resident f c hc
  obtain ⟨n', hn', hk⟩ := h.frames.node f c.node (find_of_arena hc)
  rw [find_of_arena hc'] at hn'
  cases hn'
  exact ⟨c', hc', hk hlt⟩

/-- The tree matters for a fork alone, and only the specs of its frames. -/
theorem AppendsFrames.mono {t t' : FrameTree} {result : FrameResult}
    (h : AppendsFrames self t f n result) (ht : ∀ x m, t.find x = some m →
      ∃ m', t'.find x = some m' ∧ m'.spec_ref = m.spec_ref) :
    AppendsFrames self t' f n result := by
  cases result with
  | Fork branches join =>
    obtain ⟨p, graph_ref, hp, m, hm, href⟩ := h
    obtain ⟨m', hm', href'⟩ := ht p m hm
    exact ⟨p, graph_ref, hp, m', hm', href'.trans href⟩
  | _ => exact h

/-- What a predicate on the snapshots must allow, so that a dispatch keeps it. -/
def ClosedUnderReads (J : SessionSnapshots → Prop) : Prop :=
  ∀ t q x, J t → t.last q = some x → J (t.insert x.ref ⟨x, false⟩)

/-- The state `s'` after a pass over `s` that recorded the run, with the snapshots `t`, and did
not move `f` on. -/
structure HalfDone (ckp : SessionCheckpointer) (f : FrameId) (n : FrameNode)
    (response : FrameResponse) (t : SessionSnapshots) (s s' : State) : Prop where
  node : ∃ c, s'.frames.arena f = some c ∧ c.node.status = .RunCompleted response ∧
    c.node.logs = n.logs ++ response.new_logs ∧ c.node.parent = n.parent ∧
    c.node.data = n.data ∧ c.node.spec_ref = n.spec_ref
  parent : ∀ p, n.parent = some p → Found p s'
  appends : AppendsFrames ckp s.frames f n response.result →
    AppendsFrames ckp s'.frames f n response.result
  snapshots : ∀ J, ClosedUnderReads J → J t → J s'.snapshots
  short : ¬ AppendsFrames ckp s.frames f n response.result → s'.snapshots = t ∧
    s'.next_id = (s.stopped response.result).next_id ∧
    ∀ x, s'.frames.find x = (s.frames.logged f response.new_logs).find x

/-- Only the frames, the snapshots and the next id matter. -/
theorem HalfDone.congr {t : SessionSnapshots} {s' : State} (h : HalfDone self f n response t s s')
    (hframes : s1.frames = s'.frames) (hsnapshots : s1.snapshots = s'.snapshots)
    (hnext_id : s1.next_id = s'.next_id) : HalfDone self f n response t s s1 := by
  obtain ⟨hnode, hparent, happends, hsnap, hshort⟩ := h
  unfold Found at hparent
  rw [← hframes] at hnode happends
  rw [← hsnapshots, ← hnext_id] at hshort
  simp only [← hframes] at hparent hshort
  simp only [← hsnapshots] at hsnap
  exact ⟨hnode, hparent, happends, hsnap, hshort⟩

end Passes

/-! ## Reachable sessions -/

/-- The parent of a frame is a frame. -/
def FrameTree.ParentsFound (t : FrameTree) : Prop :=
  ∀ x n p, t.find x = some n → n.parent = some p → ∃ m, t.find p = some m

/-- What happens to the snapshots leaves them those of the session. -/
def SystemMove.OfSession (session_id : SessionId) : SystemMove → Prop
  | .snapshots t => t.session_id = session_id
  | _ => True

section Reachable

variable {self : SessionCheckpointer} {decode : Value → Except String FrameResponse} {s s' : State}

theorem Acts.parentsFound {M : FrameId → FrameStatus → Prop} (h : Acts self M s s')
    (hs : s.frames.ParentsFound) : s'.frames.ParentsFound := by
  refine h.keeps (I := fun a => a.frames.ParentsFound) (fun a b hab ha x n p hn hp => ?_) hs
  rcases hab.node hn with ⟨m, hm, hparent, -⟩ | ⟨-, -, hfound⟩
  · obtain ⟨k, hk⟩ := ha x m p hm (hparent.symm.trans hp)
    obtain ⟨k', hk', -⟩ := hab.acts.found hk
    exact ⟨k', hk'⟩
  · exact hfound p hp

/-- The parents of the frames are found, and the snapshots are those of the session. -/
def Rooted (ckp : SessionCheckpointer) (x : RunningSession) : Prop :=
  x.state.frames.ParentsFound ∧ x.state.snapshots.session_id = ckp.session_id

theorem rooted_start (args : NewFrameNodeArgs) (initial_channels : List (ChannelName × Value))
    (rows : SnapshotRows) : Rooted self (self.start args initial_channels rows) := by
  refine ⟨fun x n p hn hp => ?_, rfl⟩
  rw [find_start] at hn
  split at hn
  · cases hn
    cases hp
  · cases hn

end Reachable

/-- A state that a session reaches, whatever its root frame and the rows of its store. -/
def SessionCheckpointer.Reaches (self : SessionCheckpointer)
    (decode : Value → Except String FrameResponse) (s : State) : Prop :=
  ∃ args initial_channels rows moves, (∀ move ∈ moves, SystemMove.OfSession self.session_id move) ∧
    s = (self.runSystem decode (self.start args initial_channels rows) moves).state

/-- The run of the node logs a call, and ends with `result`. -/
def logsAndEnds (result : FrameResult) (_ : Value) : Except String FrameResponse :=
  .ok { frame_id := ⟨0⟩, updates := [], new_logs := [⟨0, .CallToolsLog [], none⟩], result }

end marie.session
