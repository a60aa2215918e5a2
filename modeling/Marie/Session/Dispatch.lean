-- What the end of a run needs to be handled to its end: room for the commit of
-- its updates, and for each result the frames and snapshots that its appends
-- read. A dispatch that lacks one of them stops on its way, with the frame
-- still in `RunCompleted`.
import Marie.Session.Appends

namespace marie.session

open Program FrameTree

/-! ## The first half: the record of a run -/

/-- The snapshots once the last one of `f` was read. -/
def SessionSnapshots.reread (t : SessionSnapshots) (f : FrameId) : SessionSnapshots :=
  match t.last f with
  | some x => t.insert x.ref ⟨x, false⟩
  | none => t

/-- The updates of a run can be committed. -/
def Records (ckp : SessionCheckpointer) (s : State) (f : FrameId) (response : FrameResponse) :
    Prop :=
  response.updates = [] ∨ ∃ x spec, s.snapshots.last f = some x ∧
    spec_at ckp.graphs s.frames f = some spec ∧ x.superstep + 1 < 2 ^ 32

/-- The frames once the new entries of a run joined the log of `f`. -/
def FrameTree.logged (t : FrameTree) (f : FrameId) (new_logs : List RunLog) : FrameTree :=
  if new_logs.isEmpty then t else t.edit f (fun n => { n with logs := n.logs ++ new_logs })

/-- The snapshots once the updates of a run of `f` were committed. -/
def SessionCheckpointer.committed (ckp : SessionCheckpointer) (t : SessionSnapshots)
    (x : Snapshot) (spec : CommonSpec) (updates : List ChannelUpdate) : SessionSnapshots :=
  ckp.push_into (t.insert x.ref ⟨x, false⟩) (ckp.pushed spec x updates [])

namespace SessionSnapshots

variable {t : SessionSnapshots} {x : Snapshot} {f : FrameId}

/-- A container that is clean already is put in again. -/
theorem insert_insert (t : SessionSnapshots) (x : Snapshot) :
    (t.insert x.ref ⟨x, false⟩).insert x.ref ⟨x, false⟩ = t.insert x.ref ⟨x, false⟩ := by
  unfold insert
  simp only [SessionSnapshots.mk.injEq, true_and]
  refine ⟨?_, by simp [dropped]⟩
  funext r
  by_cases hr : r = x.ref
  · simp [hr]
  · simp [hr]

end SessionSnapshots

section Record

variable {self : SessionCheckpointer} {s : State} {f : FrameId} {c : FrameNodeContainer}
  {response : FrameResponse}

theorem load_of_sameFrames {t : FrameTree} (hc : s.frames.arena f = some c)
    (h : SessionCheckpointer.SameFrames f s.frames t) : t = s.frames := by
  rcases h with rfl | rfl
  · rfl
  · exact load_of_resident hc

/-- The entries of a run, written to a frame of the cache. -/
theorem exec_log_run (hc : s.frames.arena f = some c) (new_logs : List RunLog) :
    exec (if new_logs.isEmpty then pure () else frames (append_logs f new_logs)) s =
      (.ok (), { s with frames := s.frames.logged f new_logs }) := by
  unfold FrameTree.logged
  cases hl : new_logs.isEmpty with
  | true => rfl
  | false =>
    have hwrite : exec (append_logs f new_logs) s.frames =
        (.ok (), (s.frames.load f).edit f (fun n => { n with logs := n.logs ++ new_logs })) := by
      unfold append_logs
      rw [if_neg (by simp [hl])]
      exact exec_write (find_of_arena hc)
    rw [load_of_resident hc] at hwrite
    exact exec_frames hwrite

/-- A run without updates is recorded in the log alone. -/
theorem exec_record_run_silent (hc : s.frames.arena f = some c) (hu : response.updates = []) :
    exec (self.record_run f response) s =
      (.ok (), { s with frames := s.frames.logged f response.new_logs }) := by
  have hcommit : exec (self.commit_updates f response.updates) s = (.ok (), s) := by
    unfold SessionCheckpointer.commit_updates
    rw [hu]
    rfl
  unfold SessionCheckpointer.record_run
  rw [exec_bind_ok hcommit]
  exact exec_log_run hc response.new_logs

/-- A run whose updates can be committed. -/
theorem exec_record_run {x : Snapshot} {spec : CommonSpec} (hc : s.frames.arena f = some c)
    (hu : response.updates ≠ []) (hx : s.snapshots.last f = some x)
    (hspec : spec_at self.graphs s.frames f = some spec) (hroom : x.superstep + 1 < 2 ^ 32) :
    exec (self.record_run f response) s =
      (.ok (), { s with
        frames := s.frames.logged f response.new_logs
        snapshots := self.committed s.snapshots x spec response.updates }) := by
  have hid : x.frame_id = f := (SessionSnapshots.latest_snapshot_spec hx).1.2.1
  let s1 : State := { s with snapshots := s.snapshots.insert x.ref ⟨x, false⟩ }
  have hx1 : s1.snapshots.last f = some x := hx
  obtain ⟨t, ht, hrun⟩ := self.exec_commit (s := s1) response.updates [] hx1 hid hspec hroom
  have ht' : t = s.frames := load_of_sameFrames (s := s1) hc ht
  subst ht'
  have hcommit : exec (self.commit_updates f response.updates) s =
      (.ok (), { s with snapshots := self.committed s.snapshots x spec response.updates }) := by
    unfold SessionCheckpointer.commit_updates
    rw [if_neg (by simpa using hu), exec_bind_ok (exec_snapshots (SessionSnapshots.exec_latest hx)),
      exec_bind_ok hrun, SessionSnapshots.insert_insert]
    rfl
  unfold SessionCheckpointer.record_run
  rw [exec_bind_ok hcommit]
  exact exec_log_run (s := { s with
    snapshots := self.committed s.snapshots x spec response.updates }) hc response.new_logs

end Record

/-! ## The second half: the dispatch of a result -/

/-- The frame that a result appends to, and the graph it goes on with; `n` is the node of
`f`. -/
def Extends (ckp : SessionCheckpointer) (t : FrameTree) (f : FrameId) (n : FrameNode) :
    FrameResult → FrameId → GraphRef → Prop
  | .ExecuteGraph graph_id, h, graph_ref => h = f ∧ ckp.Offers graph_id graph_ref
  | .Continue, h, graph_ref => n.parent = some h ∧ ∃ node_id spec next,
      n.data = .GraphNode graph_ref node_id ∧ ckp.graphs.get graph_ref = .ok spec ∧
        spec.edges node_id = some next
  | .GoTo _, h, graph_ref => n.parent = some h ∧ ∃ node_id, n.data = .GraphNode graph_ref node_id
  | .Fork _ _, h, graph_ref => n.parent = some h ∧
      ∃ m, t.find h = some m ∧ m.spec_ref = .Graph graph_ref
  | _, _, _ => False

/-- The dispatch of a result appends at least one frame. -/
def AppendsFrames (ckp : SessionCheckpointer) (t : FrameTree) (f : FrameId) (n : FrameNode) :
    FrameResult → Prop
  | .RequestHitl _ | .Completed | .Failed _ => False
  | .ConsultExperts requests => requests ≠ []
  | .CallTools _ => True
  | result => ∃ h graph_ref, Extends ckp t f n result h graph_ref

/-- The dispatch of a result reaches its last mark. -/
def GoesThrough (ckp : SessionCheckpointer) (s : State) (f : FrameId) (n : FrameNode) :
    FrameResult → Prop
  | .Completed | .Failed _ => True
  | .RequestHitl hitl => ckp.upsert_hitl_frame ⟨s.next_id⟩ hitl = none
  | .ConsultExperts requests => CanConsult ckp s f requests.length
  | .CallTools requests => CanAppend ckp s f .ToolAggregator ∧
      (requests ≠ [] → HasSnapshot s ⟨s.frames.next⟩)
  | .Fork branches join => ∃ h graph_ref,
      Extends ckp s.frames f n (.Fork branches join) h graph_ref ∧
        CanAppend ckp (s.loaded h) h (.Graph graph_ref) ∧
        (branches ≠ [] → HasSnapshot s ⟨s.frames.next⟩)
  | result => ∃ h graph_ref, Extends ckp s.frames f n result h graph_ref ∧
      CanAppend ckp s h (.Graph graph_ref)

/-- The dispatch of a result ends before it writes anything. -/
def StopsShort (ckp : SessionCheckpointer) (s : State) (f : FrameId) (n : FrameNode)
    (result : FrameResult) : Prop :=
  ¬ AppendsFrames ckp s.frames f n result ∧
    match result with
    | .RequestHitl hitl => ckp.upsert_hitl_frame ⟨s.next_id⟩ hitl ≠ none
    | .ExecuteGraph _ | .Continue | .GoTo _ | .Fork _ _ => True
    | _ => False

/-- The state after a dispatch that ended before it wrote anything: a request that is refused has
drawn its id. -/
def State.stopped (s : State) : FrameResult → State
  | .RequestHitl _ => s.refused
  | _ => s

/-- The session has the frame `x`. -/
def Found (x : FrameId) (s : State) : Prop := ∃ n, s.frames.find x = some n

/-- Every frame may change its status and its log. -/
def everyFrame : FrameId → Prop := fun _ => True

/-- The run of `f` is not waiting to be dispatched. -/
def MovedOn (f : FrameId) (s : State) : Prop :=
  ∃ n, s.frames.find f = some n ∧ ∀ response, n.status ≠ .RunCompleted response

section Dispatch

variable {self : SessionCheckpointer} {s s1 : State} {f p x : FrameId} {c : FrameNodeContainer}

theorem Within.found {b : Nat} {S L : FrameId → Prop} (h : Within b S L s s1) (hx : Found x s) :
    Found x s1 := by
  obtain ⟨n, hn⟩ := hx
  obtain ⟨n', hn', -⟩ := h.frames.node x n hn
  exact ⟨n', hn'⟩

theorem found_keeps {α : Type} {m : Ckp α} {Q : α → Prop}
    (h : ∀ s, Keeps (Within s.frames.next everyFrame everyFrame s) m Q) :
    Keeps (Found x) m (fun _ => True) := by
  intro s hs
  exact ⟨((h s).run (.refl (Nat.le_refl _))).found hs, fun _ _ => trivial⟩

/-- What the first part made is there after the second. -/
theorem found_bind {α β : Type} {m : Ckp α} {k : α → Ckp β} {Q : β → Prop}
    (h : Found x (exec m s).2) (hk : ∀ a, Keeps (Found x) (k a) Q) :
    Found x (exec (m >>= k) s).2 := by
  rw [exec_bind]
  rcases hr : exec m s with ⟨r, s'⟩
  rw [hr] at h
  cases r with
  | error e => exact h
  | ok a => exact ((hk a).run h)

/-- A new frame is there, whatever stops the call. -/
theorem append_frame_creates (hp : Found p s) (args : NewFrameNodeArgs) :
    Found ⟨s.frames.next⟩ (exec (self.append_frame p args) s).2 := by
  obtain ⟨n, hn⟩ := hp
  obtain ⟨k, hk, -⟩ := append_links hn args
  rw [append_frame_eq]
  obtain ⟨k', hk', -⟩ := ((tends_fill self (O := noFrame) p ⟨s.frames.next⟩).run
    (.refl (s.appended p args))).found _ k (find_of_arena hk)
  exact ⟨k', hk'⟩

theorem exec_mark_waiting (hf : Found f s) :
    ∃ s', exec (mark_as_waiting_children f) s = (.ok (), s') ∧ MovedOn f s' ∧
      ∀ x, Found x s → Found x s' := by
  obtain ⟨n, hn⟩ := hf
  refine ⟨_, exec_set_status hn _, ⟨{ n with status := .WaitingChildren }, ?_, by simp⟩, ?_⟩
  · rw [find_marked hn, if_pos rfl]
  · rintro x ⟨m, hm⟩
    rw [Found, find_marked hn]
    split
    · exact ⟨_, rfl⟩
    · exact ⟨m, hm⟩

theorem exec_mark_done (hf : Found f s) :
    ∃ s', exec (mark_completed_frame f) s = (.ok (), s') ∧ MovedOn f s' := by
  obtain ⟨n, hn⟩ := hf
  refine ⟨_, exec_mark_completed hn, { n with status := .Completed }, ?_, by simp⟩
  change (s.marked f .Completed).frames.find f = _
  rw [find_marked hn, if_pos rfl]

/-- The end of the branches of experts and tools. -/
theorem exec_reduce_and_wait (hf : Found f s) :
    ∃ s', exec (do
      unpolled (frames (set_resume_policy f .FanIn))
      frames (set_reduce_policy f .Reduce)
      mark_as_waiting_children f) s = (.ok (), s') ∧ MovedOn f s' := by
  obtain ⟨n, hn⟩ := hf
  have hset : exec (frames (set_reduce_policy f .Reduce)) s = (.ok (), s.loaded f) := by
    refine exec_frames ?_
    unfold set_reduce_policy policy_of
    rw [exec_bind_ok (exec_get_map _ hn)]
    rfl
  have hn' : Found f (s.loaded f) := ⟨n, by rw [State.loaded, find_load, hn]⟩
  obtain ⟨s', hrun, hmoved, -⟩ := exec_mark_waiting hn'
  refine ⟨s', ?_, hmoved⟩
  rw [exec_bind_ok (exec_unpolled _ s), exec_bind_ok hset, hrun]

/-- A dispatch that appends is an append, which goes through or not, before the marks. -/
structure Splits (ckp : SessionCheckpointer) (s : State) (f : FrameId) (through : Prop)
    (r : Except Fault Unit × State) : Prop where
  split : ∃ (t : FrameTree) (m k : Ckp Unit), Loaded s.frames t ∧
    r = exec (m >>= fun _ => k) { s with frames := t } ∧
    (Succeeds m { s with frames := t } ↔ through) ∧
    Keeps (Within s.frames.next noFrame noFrame s) m (fun _ => True) ∧
    Found ⟨s.frames.next⟩ (exec m { s with frames := t }).2 ∧
    (∀ x, Keeps (Found x) k (fun _ => True)) ∧
    ∀ s2, (∀ x, Found x s → Found x s2) → ∃ s3, exec k s2 = (.ok (), s3) ∧ MovedOn f s3

theorem splits_consult {requests : List RequestAskExpert} (hc : s.frames.arena f = some c)
    (hne : requests ≠ []) :
    Splits self s f (CanConsult self s f requests.length)
      (exec (self.dispatch f (.ConsultExperts requests)) s) := by
  have hf : Found f s := ⟨c.node, find_of_arena hc⟩
  refine ⟨s.frames, self.append_experts_consultations f requests, _, .refl _, rfl,
    succeeds_append_experts_consultations hc,
    SessionCheckpointer.within_append_experts_consultations f requests, ?_, ?_,
    fun s2 h2 => exec_reduce_and_wait (h2 f hf)⟩
  · cases requests with
    | nil => exact absurd rfl hne
    | cons request requests =>
      refine found_bind (Q := fun _ => True) ?_ fun _ => ?_
      · exact found_bind (append_frame_creates hf _) fun _ => keeps_unpolled _
      · exact found_keeps fun _ => SessionCheckpointer.within_append_experts_consultations f requests
  · intro x
    refine (keeps_unpolled _).andThen fun _ => ?_
    refine (found_keeps fun _ => within_frames (evolves_set_reduce_policy f _)).andThen fun _ => ?_
    exact found_keeps fun _ => within_mark_as_waiting_children (.inl trivial)

theorem splits_tools {requests : List RequestToolCall} (hc : s.frames.arena f = some c) :
    Splits self s f (CanAppend self s f .ToolAggregator ∧
        (requests ≠ [] → HasSnapshot s ⟨s.frames.next⟩))
      (exec (self.dispatch f (.CallTools requests)) s) := by
  have hf : Found f s := ⟨c.node, find_of_arena hc⟩
  refine ⟨s.frames, self.append_tool_calls f requests, _, .refl _, rfl,
    succeeds_append_tool_calls (find_of_arena hc),
    SessionCheckpointer.within_append_tool_calls f requests, ?_, ?_,
    fun s2 h2 => exec_reduce_and_wait (h2 f hf)⟩
  · refine found_bind (Q := fun _ => True) ?_ fun agg => ?_
    · refine found_bind (Q := fun _ => True) (append_frame_creates hf _) fun id => ?_
      refine Keeps.andThen (Q := fun _ => True) ?_ fun _ => keeps_pure trivial
      exact found_keeps fun _ => within_mark_as_waiting_children (.inl trivial)
    · refine keeps_forM requests fun request _ => found_keeps (Q := fun _ => True) fun _ => ?_
      exact within_next_id.andThen fun _ =>
        (SessionCheckpointer.within_append_frame _ _).andThen fun _ =>
          keeps_pure (Q := fun _ => True) trivial
  · intro x
    refine (keeps_unpolled _).andThen fun _ => ?_
    refine (found_keeps fun _ => within_frames (evolves_set_reduce_policy f _)).andThen fun _ => ?_
    exact found_keeps fun _ => within_mark_as_waiting_children (.inl trivial)

theorem splits_graph {graph_id : GraphId} {graph_ref : GraphRef} (hc : s.frames.arena f = some c)
    (hoffer : self.Offers graph_id graph_ref) :
    Splits self s f (CanAppend self s f (.Graph graph_ref))
      (exec (self.dispatch f (.ExecuteGraph graph_id)) s) := by
  have hf : Found f s := ⟨c.node, find_of_arena hc⟩
  refine ⟨s.frames, self.append_graph f graph_id, _, .refl _, rfl,
    succeeds_append_graph hoffer (find_of_arena hc),
    SessionCheckpointer.within_append_graph f graph_id, ?_, ?_, ?_⟩
  · obtain ⟨hlatest, spec, hget⟩ := hoffer
    unfold SessionCheckpointer.append_graph
    simp only [hlatest, hget]
    refine found_bind (Q := fun _ => True) (append_frame_creates hf _) fun id => ?_
    exact found_keeps fun _ => within_mark_as_waiting_children (.inl trivial)
  · exact fun x => found_keeps fun _ => within_mark_as_waiting_children (.inl trivial)
  · intro s2 h2
    obtain ⟨s3, hrun, hmoved, -⟩ := exec_mark_waiting (h2 f hf)
    exact ⟨s3, hrun, hmoved⟩

/-- The read of the kind of a frame of the cache. -/
theorem exec_data_of {β : Type} (hc : s.frames.arena f = some c) (k : FrameKind → Ckp β) :
    exec (frames (data_of f) >>= k) s = exec (k c.node.data) s := by
  rw [data_of, exec_read (find_of_arena hc), State.loaded, load_of_resident hc]

theorem exec_dispatch_continue {graph_ref : GraphRef} {node_id next : NodeId} {spec : GraphSpec}
    (hc : s.frames.arena f = some c) (hp : c.node.parent = some p)
    (hdata : c.node.data = .GraphNode graph_ref node_id)
    (hget : self.graphs.get graph_ref = .ok spec) (hedge : spec.edges node_id = some next) :
    exec (self.dispatch f .Continue) s =
      exec (do
        self.append_graph_node p graph_ref next
        mark_completed_frame f) s := by
  have hpar : s.frames.parent_of f = some p := by simp [parent_of, hc, hp]
  unfold SessionCheckpointer.dispatch
  rw [exec_bind_ok (exec_frames (exec_asks _ s.frames)), hpar]
  simp only
  rw [exec_data_of (s := { s with frames := s.frames }) hc, hdata]
  simp only [hget, hedge]

theorem exec_dispatch_goto {graph_ref : GraphRef} {node_id : NodeId} (target : NodeId)
    (hc : s.frames.arena f = some c) (hp : c.node.parent = some p)
    (hdata : c.node.data = .GraphNode graph_ref node_id) :
    exec (self.dispatch f (.GoTo target)) s =
      exec (do
        self.append_graph_node p graph_ref target
        mark_completed_frame f) s := by
  have hpar : s.frames.parent_of f = some p := by simp [parent_of, hc, hp]
  unfold SessionCheckpointer.dispatch
  rw [exec_bind_ok (exec_frames (exec_asks _ s.frames)), hpar]
  simp only
  rw [exec_data_of (s := { s with frames := s.frames }) hc, hdata]

theorem exec_dispatch_fork {graph_ref : GraphRef} {m : FrameNode} (branches : List Branch)
    (join : NodeId) (hpar : s.frames.parent_of f = some p) (hm : s.frames.find p = some m)
    (href : m.spec_ref = .Graph graph_ref) :
    exec (self.dispatch f (.Fork branches join)) s =
      exec (do
        self.append_graph_span p graph_ref branches join
        unpolled (frames (set_resume_policy p .Sequential))
        unpolled (frames (set_reduce_policy p .DontReduce))
        mark_as_waiting_children p
        mark_completed_frame f) (s.loaded p) := by
  unfold SessionCheckpointer.dispatch
  rw [exec_bind_ok (exec_frames (exec_asks _ s.frames)), hpar]
  simp only
  rw [spec_ref_of, exec_read hm, href]

/-- The last node of a thread is followed by `node_id`. -/
theorem splits_node {graph_ref : GraphRef} (node_id : NodeId) (hf : Found f s) (hp : Found p s) :
    Splits self s f (CanAppend self s p (.Graph graph_ref))
      (exec (do
        self.append_graph_node p graph_ref node_id
        mark_completed_frame f) s) := by
  obtain ⟨n, hn⟩ := hp
  refine ⟨s.frames, self.append_graph_node p graph_ref node_id, _, .refl _, rfl, ?_,
    SessionCheckpointer.within_append_graph_node p graph_ref node_id, ?_, ?_,
    fun s2 h2 => exec_mark_done (h2 f hf)⟩
  · by_cases hcan : CanAppend self s p (.Graph graph_ref)
    · obtain ⟨s', hrun, -⟩ := exec_append_graph_node self graph_ref node_id hcan
      exact iff_of_true (succeeds_of_eq hrun) hcan
    · exact iff_of_false (not_succeeds_append_graph_node hn hcan) hcan
  · exact found_bind (append_frame_creates ⟨n, hn⟩ _) fun _ =>
      keeps_pure (Q := fun _ => True) trivial
  · exact fun x => found_keeps fun _ => within_mark_completed_frame trivial

theorem splits_fork {graph_ref : GraphRef} {branches : List Branch} {join : NodeId}
    {m : FrameNode} (hf : Found f s) (hpar : s.frames.parent_of f = some p)
    (hm : s.frames.find p = some m) (href : m.spec_ref = .Graph graph_ref) :
    Splits self s f (CanAppend self (s.loaded p) p (.Graph graph_ref) ∧
        (branches ≠ [] → HasSnapshot s ⟨s.frames.next⟩))
      (exec (self.dispatch f (.Fork branches join)) s) := by
  have hm' : (s.loaded p).frames.find p = some m := by rw [State.loaded, find_load, hm]
  have hall : ∀ (m : Ckp Unit), (∀ s', Keeps (Within s'.frames.next everyFrame everyFrame s') m
      (fun _ => True)) → ∀ x, Keeps (Found x) m (fun _ => True) := fun m h x => found_keeps h
  refine ⟨s.frames.load p, self.append_graph_span p graph_ref branches join, do
    unpolled (frames (set_resume_policy p .Sequential))
    unpolled (frames (set_reduce_policy p .DontReduce))
    mark_as_waiting_children p
    mark_completed_frame f, (Loaded.refl _).load p, ?_, succeeds_append_graph_span hm',
    SessionCheckpointer.within_append_graph_span p graph_ref branches join, ?_, ?_, ?_⟩
  · exact exec_dispatch_fork branches join hpar hm href
  · refine found_bind (Q := fun _ => True) (append_frame_creates (s := s.loaded p) ⟨m, hm'⟩ _)
      fun span => ?_
    refine (hall _ (fun _ => within_mark_as_waiting_children (.inl trivial)) _).andThen fun _ => ?_
    refine keeps_forM branches fun branch _ => hall _ (fun _ => ?_) _
    unfold SessionCheckpointer.append_branch
    refine (SessionCheckpointer.within_append_graph_thread _ _ _).andThen fun thread => ?_
    split
    · exact keeps_pure trivial
    · exact SessionCheckpointer.within_write_to_inherited_channels _ _
  · intro x
    refine (keeps_unpolled _).andThen fun _ => (keeps_unpolled _).andThen fun _ => ?_
    refine (hall _ (fun _ => within_mark_as_waiting_children (.inl trivial)) _).andThen fun _ => ?_
    exact hall _ (fun _ => within_mark_completed_frame trivial) _
  · intro s2 h2
    obtain ⟨s3, hrun, -, hkept⟩ := exec_mark_waiting (h2 p ⟨m, hm⟩)
    obtain ⟨s4, hrun', hmoved⟩ := exec_mark_done (hkept f (h2 f hf))
    refine ⟨s4, ?_, hmoved⟩
    rw [exec_bind_ok (exec_unpolled _ s2), exec_bind_ok (exec_unpolled _ s2), exec_bind_ok hrun, hrun']

theorem dispatch_splits {result : FrameResult} (hc : s.frames.arena f = some c)
    (hparent : ∀ p, c.node.parent = some p → Found p s)
    (h : AppendsFrames self s.frames f c.node result) :
    Splits self s f (GoesThrough self s f c.node result) (exec (self.dispatch f result) s) := by
  have hf : Found f s := ⟨c.node, find_of_arena hc⟩
  have hpar : s.frames.parent_of f = c.node.parent := by simp [parent_of, hc]
  cases result with
  | RequestHitl hitl => exact h.elim
  | Completed => exact h.elim
  | Failed err => exact h.elim
  | ConsultExperts requests => exact splits_consult hc h
  | CallTools requests => exact splits_tools hc
  | ExecuteGraph graph_id =>
    obtain ⟨h', graph_ref, hh, hoffer⟩ := h
    have hiff : GoesThrough self s f c.node (.ExecuteGraph graph_id) ↔
        CanAppend self s f (.Graph graph_ref) := by
      constructor
      · rintro ⟨h'', graph_ref', ⟨hh', hoffer'⟩, hcan⟩
        subst hh'
        have heq := hoffer'.1
        rw [hoffer.1] at heq
        cases heq
        exact hcan
      · exact fun hcan => ⟨f, graph_ref, ⟨rfl, hoffer⟩, hcan⟩
    rw [hiff]
    exact splits_graph hc hoffer
  | Continue =>
    obtain ⟨p, graph_ref, hp, node_id, spec, next, hdata, hget, hedge⟩ := h
    have hiff : GoesThrough self s f c.node .Continue ↔ CanAppend self s p (.Graph graph_ref) := by
      constructor
      · rintro ⟨p', graph_ref', ⟨hp', node_id', -, -, hdata', -⟩, hcan⟩
        rw [hp] at hp'
        rw [hdata] at hdata'
        cases hp'
        cases hdata'
        exact hcan
      · exact fun hcan =>
          ⟨p, graph_ref, ⟨hp, node_id, spec, next, hdata, hget, hedge⟩, hcan⟩
    rw [hiff, exec_dispatch_continue hc hp hdata hget hedge]
    exact splits_node next hf (hparent p hp)
  | GoTo target =>
    obtain ⟨p, graph_ref, hp, node_id, hdata⟩ := h
    have hiff : GoesThrough self s f c.node (.GoTo target) ↔
        CanAppend self s p (.Graph graph_ref) := by
      constructor
      · rintro ⟨p', graph_ref', ⟨hp', node_id', hdata'⟩, hcan⟩
        rw [hp] at hp'
        rw [hdata] at hdata'
        cases hp'
        cases hdata'
        exact hcan
      · exact fun hcan => ⟨p, graph_ref, ⟨hp, node_id, hdata⟩, hcan⟩
    rw [hiff, exec_dispatch_goto target hc hp hdata]
    exact splits_node target hf (hparent p hp)
  | Fork branches join =>
    obtain ⟨p, graph_ref, hp, m, hm, href⟩ := h
    have hiff : GoesThrough self s f c.node (.Fork branches join) ↔
        CanAppend self (s.loaded p) p (.Graph graph_ref) ∧
          (branches ≠ [] → HasSnapshot s ⟨s.frames.next⟩) := by
      constructor
      · rintro ⟨p', graph_ref', ⟨hp', m', hm', href'⟩, hcan⟩
        rw [hp] at hp'
        cases hp'
        rw [hm] at hm'
        cases hm'
        rw [href] at href'
        cases href'
        exact hcan
      · exact fun hcan => ⟨p, graph_ref, ⟨hp, m, hm, href⟩, hcan⟩
    rw [hiff]
    exact splits_fork hf (hpar.trans hp) hm href

/-- A dispatch that appends nothing and goes through only marks the frame. -/
theorem dispatch_marks {result : FrameResult} (hc : s.frames.arena f = some c)
    (happ : ¬ AppendsFrames self s.frames f c.node result)
    (h : GoesThrough self s f c.node result) :
    ∃ s', exec (self.dispatch f result) s = (.ok (), s') ∧ MovedOn f s' := by
  have hf : Found f s := ⟨c.node, find_of_arena hc⟩
  cases result with
  | RequestHitl hitl =>
    have hn : (s.requested hitl).frames.find f = some c.node := find_of_arena hc
    have hf1 : Found f ((s.requested hitl).loaded f) :=
      ⟨c.node, by rw [State.loaded, find_load, hn]⟩
    obtain ⟨s2, hrun, hmoved, -⟩ := exec_mark_waiting hf1
    refine ⟨s2, ?_, hmoved⟩
    unfold SessionCheckpointer.dispatch
    simp only
    rw [exec_bind_ok (exec_request h), logs_of, exec_read hn, exec_bind_ok (exec_unpolled _ _),
      exec_bind_ok (exec_unpolled _ _), hrun]
  | Completed => exact exec_mark_done hf
  | Failed err =>
    obtain ⟨n, hn⟩ := hf
    refine ⟨_, exec_mark_failed hn err, { n with status := .Failed err }, ?_, by simp⟩
    change (s.marked f (.Failed err)).frames.find f = _
    rw [find_marked hn, if_pos rfl]
  | ConsultExperts requests =>
    have hnone : requests = [] := by
      by_contra hne
      exact happ hne
    subst hnone
    exact exec_reduce_and_wait hf
  | CallTools requests => exact absurd trivial happ
  | Fork branches join =>
    obtain ⟨p, graph_ref, hext, -⟩ := h
    exact absurd ⟨p, graph_ref, hext⟩ happ
  | _ =>
    obtain ⟨p, graph_ref, hext, -⟩ := h
    exact absurd ⟨p, graph_ref, hext⟩ happ

/-- A dispatch that goes through moves the frame on. -/
theorem dispatch_through {result : FrameResult} (hc : s.frames.arena f = some c)
    (hparent : ∀ p, c.node.parent = some p → Found p s)
    (h : GoesThrough self s f c.node result) :
    ∃ s', exec (self.dispatch f result) s = (.ok (), s') ∧ MovedOn f s' := by
  by_cases happ : AppendsFrames self s.frames f c.node result
  · obtain ⟨t, m, k, ht, hrun, hok, hwithin, -, -, hend⟩ := (dispatch_splits hc hparent happ).split
    obtain ⟨a, s1, hm⟩ := hok.mpr h
    have hs : Within s.frames.next noFrame noFrame s { s with frames := t } :=
      within_of_loaded (Nat.le_refl _) ht
    have hs1 : Within s.frames.next noFrame noFrame s s1 := by
      have := hwithin.run hs
      rwa [hm] at this
    obtain ⟨s2, hk, hmoved⟩ := hend s1 fun x hx => hs1.found hx
    refine ⟨s2, ?_, hmoved⟩
    rw [hrun, exec_bind_ok hm, hk]
  · exact dispatch_marks hc happ h

end Dispatch

/-! ## Snapshots are only read -/

section Reads

variable {self : SessionCheckpointer} {J : SessionSnapshots → Prop}
  (hJ : ∀ t q x, J t → t.last q = some x → J (t.insert x.ref ⟨x, false⟩))

include hJ

end Reads

end marie.session
