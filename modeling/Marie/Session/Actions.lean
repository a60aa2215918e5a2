-- The actions that the handlers are made of. A handler loads nodes, fills their
-- channels, writes their logs, marks them, appends new ones, sends notices, and
-- reads and pushes snapshots; a mark sends the event that belongs to its
-- status. The laws below say which marks each handler may make, so that an
-- invariant of every run has to be looked at once for each action.
import Marie.Session.QuietCalls

namespace marie.session

open Program FrameTree

/-! ## Actions -/

/-- The events that a mark sends. -/
def FrameStatus.announces (f : FrameId) (parent : Option FrameId) :
    FrameStatus → List SessionCheckpointEvent
  | .Ready => [.FrameReady f]
  | .RunCompleted _ | .RunFailed _ => [.FrameRunTerminated f]
  | .Completed => .FrameTerminated f :: (parent.map (.ChildFrameTerminated · f)).toList
  | .Failed _ => [.FrameTerminated f]
  | _ => []

/-- The events that are also sent without a mark. -/
def SessionCheckpointEvent.IsNotice : SessionCheckpointEvent → Prop
  | .FrameCreated _ | .FrameRunTerminated _ | .ChildFrameTerminated _ _ => True
  | _ => False

/-- One action of a handler that may make the marks of `M`. -/
inductive Act (ckp : SessionCheckpointer) (M : FrameId → FrameStatus → Prop) (s : State) :
    State → Prop
  | load {t : FrameTree} (ht : Loaded s.frames t) : Act ckp M s { s with frames := t }
  | fill (f : FrameId) (channels : FrameNode → Channels) (superstep : FrameNode → Nat) :
    Act ckp M s { s with frames := s.frames.edit f fun n =>
      { n with inherited_channels := channels n, superstep := superstep n } }
  | log (f : FrameId) (entries : List RunLog → List RunLog) :
    Act ckp M s { s with frames := s.frames.edit f fun n => { n with logs := entries n.logs } }
  | mark {f : FrameId} {n : FrameNode} {status : FrameStatus} (hn : s.frames.find f = some n)
    (hM : M f status) : Act ckp M s ((s.marked f status).emits (status.announces f n.parent))
  | append (p : FrameId) (args : NewFrameNodeArgs) : Act ckp M s (s.appended p args)
  | send {event : SessionCheckpointEvent} (h : event.IsNotice) : Act ckp M s (s.emits [event])
  | number (next_id : Nat) (hitls : List (HitlId × Hitl)) :
    Act ckp M s { s with next_id, hitls }
  | read {q : FrameId} {x : Snapshot} (hx : s.snapshots.last q = some x) :
    Act ckp M s { s with snapshots := s.snapshots.insert x.ref ⟨x, false⟩ }
  | push {q : FrameId} {x y : Snapshot} (hx : s.snapshots.last q = some x)
    (hy : y.ref = ⟨ckp.session_id, q, x.superstep + 1⟩) :
    Act ckp M s { s with snapshots := ckp.push_into s.snapshots y }

/-- Some actions, one after the other. -/
def Acts (ckp : SessionCheckpointer) (M : FrameId → FrameStatus → Prop) : State → State → Prop :=
  Relation.ReflTransGen (Act ckp M)

theorem append_next_succ (t : FrameTree) (p : FrameId) (args : NewFrameNodeArgs) :
    (t.append p args).2.next = t.next + 1 := by
  cases hc : t.arena p with
  | some c => exact append_next hc args
  | none => exact (append_orphan hc args).1

section Calls

variable {self : SessionCheckpointer} {M : FrameId → FrameStatus → Prop} {s s' s'' : State}
  {f p : FrameId}

theorem QuietAct.act (h : QuietAct self s s') : Act self M s s' := by
  cases h with
  | load ht => exact .load ht
  | fill f channels superstep => exact .fill f channels superstep
  | log f entries => exact .log f entries
  | number next_id hitls => exact .number next_id hitls
  | read hx => exact .read hx
  | push hx hy => exact .push hx hy

theorem Calm.acts (h : Calm self s s') : Acts self M s s' :=
  Relation.ReflTransGen.mono (fun _ _ hab => hab.act) s s' h

theorem Acts.refl (s : State) : Acts self M s s := Relation.ReflTransGen.refl

theorem Acts.trans (h : Acts self M s s') (h' : Acts self M s' s'') : Acts self M s s'' :=
  Relation.ReflTransGen.trans h h'

theorem Act.acts (h : Act self M s s') : Acts self M s s' := Relation.ReflTransGen.single h

/-- What each action keeps, the actions keep. -/
theorem Acts.keeps {I : State → Prop} (hact : ∀ s s', Act self M s s' → I s → I s')
    (h : Acts self M s s') (hs : I s) : I s' := by
  induction h with
  | refl => exact hs
  | tail _ hlast ih => exact hact _ _ hlast ih

/-- No identifier is given back. -/
theorem Acts.next_le (h : Acts self M s s') : s.frames.next ≤ s'.frames.next := by
  refine Acts.keeps (I := fun x => s.frames.next ≤ x.frames.next) ?_ h (Nat.le_refl _)
  intro a b hab ha
  cases hab with
  | append p args =>
    have hgrow : (a.appended p args).frames.next = a.frames.next + 1 := append_next_succ _ _ _
    omega
  | @load t ht =>
    have hnext : t.next = a.frames.next := ht.next
    change s.frames.next ≤ t.next
    omega
  | _ => exact ha

/-! ## Calls -/

/-- A program that acts from each state. -/
theorem acts_of {α : Type} {m : Ckp α} (h : ∀ s', Acts self M s' (exec m s').2) :
    Keeps (Acts self M s) m (fun _ => True) :=
  fun s' hs => ⟨hs.trans (h s'), fun _ _ => trivial⟩

/-- A quiet program is made of actions, whatever the marks. -/
theorem acts_of_calm {α : Type} {m : Ckp α} {Q : α → Prop} (h : ∀ s, Keeps (Calm self s) m Q) :
    Keeps (Acts self M s) m Q :=
  fun s' hs => ⟨hs.trans ((h s').run (.refl s')).acts, (h s' s' (.refl s')).2⟩

theorem acts_emit {event : SessionCheckpointEvent} (h : event.IsNotice) :
    Keeps (Acts self M s) (emit event) (fun _ => True) :=
  acts_of fun _ => (Act.send h).acts

/-! ### Marks -/

theorem acts_mark_as_waiting_children (hM : M f .WaitingChildren) :
    Keeps (Acts self M s) (mark_as_waiting_children f) (fun _ => True) := by
  refine acts_of fun s' => ?_
  unfold mark_as_waiting_children
  cases hn : s'.frames.find f with
  | none =>
    rw [exec_set_status_none hn]
    exact .refl _
  | some n =>
    rw [exec_set_status hn]
    have hact : Acts self M s' ((s'.marked f .WaitingChildren).emits
        (FrameStatus.WaitingChildren.announces f n.parent)) := (Act.mark hn hM).acts
    simpa [FrameStatus.announces, State.emits] using hact

/-- A mark that sends one event. -/
theorem acts_mark_and_emit {status : FrameStatus} {event : SessionCheckpointEvent}
    (hM : M f status) (hsent : ∀ parent, status.announces f parent = [event]) :
    Keeps (Acts self M s) (do
      frames (set_status f status)
      emit event) (fun _ => True) := by
  refine acts_of fun s' => ?_
  cases hn : s'.frames.find f with
  | none =>
    rw [(exec_set_status_emit status event).1 s' hn]
    exact .refl _
  | some n =>
    rw [(exec_set_status_emit status event).2 s' n hn]
    have hact : Acts self M s' ((s'.marked f status).emits (status.announces f n.parent)) :=
      (Act.mark hn hM).acts
    rwa [hsent] at hact

theorem acts_mark_ready_to_run_frame (hM : M f .Ready) :
    Keeps (Acts self M s) (mark_ready_to_run_frame f) (fun _ => True) :=
  acts_mark_and_emit hM fun _ => rfl

theorem acts_mark_frame_run_completed {response : FrameResponse} (hM : M f (.RunCompleted response)) :
    Keeps (Acts self M s) (mark_frame_run_completed f response) (fun _ => True) :=
  acts_mark_and_emit hM fun _ => rfl

theorem acts_mark_frame_run_failed {error : WorkerError} (hM : M f (.RunFailed error.to_string)) :
    Keeps (Acts self M s) (mark_frame_run_failed f error) (fun _ => True) :=
  acts_mark_and_emit hM fun _ => rfl

theorem acts_mark_failed_frame {err : String} (hM : M f (.Failed err)) :
    Keeps (Acts self M s) (mark_failed_frame err f) (fun _ => True) :=
  acts_mark_and_emit hM fun _ => rfl

theorem acts_mark_completed_frame (hM : M f .Completed) :
    Keeps (Acts self M s) (mark_completed_frame f) (fun _ => True) := by
  refine acts_of fun s' => ?_
  cases hn : s'.frames.find f with
  | none =>
    unfold mark_completed_frame
    rw [exec_bind_error (exec_set_status_none hn _)]
    exact .refl _
  | some n =>
    rw [exec_mark_completed hn]
    exact (Act.mark hn hM).acts

/-! ### New frames -/

/-- The new frame has an identifier that was free. -/
theorem acts_append_frame (p : FrameId) (args : NewFrameNodeArgs) :
    Keeps (Acts self M s) (self.append_frame p args) (fun id => s.frames.next ≤ id.id) := by
  unfold SessionCheckpointer.append_frame
  refine (keeps_asks (Q := fun t : FrameTree => s.frames.next ≤ t.next)
    fun _ hs => hs.next_le).bind fun t ht => ?_
  refine Keeps.andThen (Q := fun _ => True) (acts_of fun s' => (Act.append p args).acts) fun _ => ?_
  refine (acts_of_calm fun _ => calm_read p _).andThen fun policy => ?_
  refine (acts_of_calm fun _ => calm_common_spec_of _ _).andThen fun spec => ?_
  refine Keeps.andThen (Q := fun _ => True) (acts_of_calm fun _ => calm_fill fun _ => by rfl) fun _ => ?_
  refine (acts_of_calm fun _ => calm_inherit_channels _ _ _).andThen fun _ => ?_
  refine Keeps.andThen (Q := fun _ => True) (acts_emit ?_) fun _ => keeps_pure ht
  trivial

theorem acts_append_graph_node (p : FrameId) (graph_ref : GraphRef) (node_id : NodeId) :
    Keeps (Acts self M s) (self.append_graph_node p graph_ref node_id) (fun _ => True) :=
  (acts_append_frame _ _).andThen fun _ => keeps_pure trivial

section NewFrames

variable (hnew : ∀ id : FrameId, s.frames.next ≤ id.id → M id .WaitingChildren)
include hnew

theorem acts_append_graph_thread (p : FrameId) (graph_ref : GraphRef) (start : NodeId) :
    Keeps (Acts self M s) (self.append_graph_thread p graph_ref start) (fun _ => True) := by
  unfold SessionCheckpointer.append_graph_thread
  refine (acts_append_frame _ _).bind fun id hid => ?_
  refine (acts_mark_as_waiting_children (hnew id hid)).andThen fun _ => ?_
  exact (acts_append_graph_node _ _ _).andThen fun _ => keeps_pure trivial

theorem acts_append_graph_span (p : FrameId) (graph_ref : GraphRef) (branches : List Branch)
    (join : NodeId) :
    Keeps (Acts self M s) (self.append_graph_span p graph_ref branches join) (fun _ => True) := by
  unfold SessionCheckpointer.append_graph_span
  refine (acts_append_frame _ _).bind fun id hid => ?_
  refine (acts_mark_as_waiting_children (hnew id hid)).andThen fun _ => ?_
  refine keeps_forM branches fun branch _ => ?_
  unfold SessionCheckpointer.append_branch
  refine (acts_append_graph_thread hnew _ _ _).andThen fun thread => ?_
  split
  · exact keeps_pure trivial
  · exact acts_of_calm fun _ => calm_write_to_inherited_channels _ _

theorem acts_append_graph (p : FrameId) (graph_id : GraphId) :
    Keeps (Acts self M s) (self.append_graph p graph_id) (fun _ => True) := by
  unfold SessionCheckpointer.append_graph
  split
  · exact keeps_throw _
  · exact keeps_throw _
  · split
    · exact keeps_throw _
    · refine (acts_append_frame _ _).bind fun id hid => ?_
      exact acts_mark_as_waiting_children (hnew id hid)

theorem acts_append_tool_calls (p : FrameId) (requests : List RequestToolCall) :
    Keeps (Acts self M s) (self.append_tool_calls p requests) (fun _ => True) := by
  unfold SessionCheckpointer.append_tool_calls SessionCheckpointer.append_tool_aggregator
  refine Keeps.andThen (Q := fun _ => True) ?_ fun agg => ?_
  · refine (acts_append_frame _ _).bind fun id hid => ?_
    exact (acts_mark_as_waiting_children (hnew id hid)).andThen fun _ => keeps_pure trivial
  · refine keeps_forM requests fun request _ => ?_
    refine (acts_of_calm fun _ => calm_next_id).andThen fun _ => ?_
    exact (acts_append_frame _ _).andThen fun _ => keeps_pure trivial

end NewFrames

theorem acts_append_experts_consultations (p : FrameId) (requests : List RequestAskExpert) :
    Keeps (Acts self M s) (self.append_experts_consultations p requests) (fun _ => True) := by
  refine keeps_forM requests fun request _ => ?_
  exact (acts_append_frame _ _).andThen fun _ => keeps_unpolled _

end Calls

/-! ## What the actions keep of a frame -/

section Kept

variable {self : SessionCheckpointer} {M : FrameId → FrameStatus → Prop} {s s' : State}
  {f x : FrameId} {n : FrameNode}

/-- The frames stay, with their place, their policy, their spec and their kind. -/
theorem Acts.evolves (h : Acts self M s s') :
    Evolves s.frames.next everyFrame everyFrame s.frames s'.frames := by
  refine Acts.keeps (I := fun a => Evolves s.frames.next everyFrame everyFrame s.frames a.frames)
    ?_ h (.refl (Nat.le_refl _))
  intro a b hab ha
  have hedit : ∀ (t : FrameTree) (f : FrameId) (φ : FrameNode → FrameNode),
      Evolves s.frames.next everyFrame everyFrame s.frames t →
      (∀ n, (φ n).children = n.children ∧ (φ n).parent = n.parent ∧
        (φ n).frame_policy = n.frame_policy ∧ (φ n).spec_ref = n.spec_ref ∧ (φ n).data = n.data) →
      Evolves s.frames.next everyFrame everyFrame s.frames (t.edit f φ) := by
    intro t f φ ht hφ
    refine ht.edit fun n _ => ?_
    obtain ⟨hch, hp, hpol, href, hd⟩ := hφ n
    exact ⟨fun h => absurd trivial h, fun h => absurd trivial h, hch ▸ List.prefix_refl _, hp, hpol,
      href, hd⟩
  cases hab with
  | load ht => exact ha.trans (within_of_loaded ha.bound ht).frames
  | fill f channels superstep =>
    refine hedit a.frames f (fun n => { n with
      inherited_channels := channels n, superstep := superstep n }) ha fun n => ?_
    exact ⟨rfl, rfl, rfl, rfl, rfl⟩
  | log f entries =>
    refine hedit a.frames f (fun n => { n with logs := entries n.logs }) ha fun n => ?_
    exact ⟨rfl, rfl, rfl, rfl, rfl⟩
  | @mark f n status hn hM =>
    refine hedit (a.frames.load f) f (fun n => { n with status }) (ha.load f) fun n => ?_
    exact ⟨rfl, rfl, rfl, rfl, rfl⟩
  | append p args => exact ha.append p args
  | _ => exact ha

theorem Acts.found (h : Acts self M s s') (hn : s.frames.find x = some n) :
    ∃ n', s'.frames.find x = some n' ∧ Kept True True n n' := by
  obtain ⟨n', hn', hk⟩ := h.evolves.node x n hn
  exact ⟨n', hn', hk (id_lt_next hn)⟩

/-- A frame resumes as the policy says that it had at the start. -/
theorem acts_resume_frame (hn : s.frames.find f = some n)
    (hrun : n.frame_policy.on_resume_policy = .RunFrame → M f .Ready)
    (hdone : n.frame_policy.on_resume_policy = .MarkComplete → M f .Completed) :
    Keeps (Acts self M s) (SessionCheckpointer.resume_frame f) (fun _ => True) := by
  intro s' hs
  refine ⟨?_, fun _ _ => trivial⟩
  obtain ⟨n', hn', hk⟩ := hs.found hn
  have hread : exec (frames (on_resume_policy f)) s' =
      (.ok n.frame_policy.on_resume_policy, s'.loaded f) := by
    refine exec_frames ?_
    unfold on_resume_policy policy_of
    rw [exec_bind_ok (exec_get_map _ hn'), hk.frame_policy]
    rfl
  have hload : Acts self M s (s'.loaded f) := hs.trans (calm_loaded s' f).acts
  unfold SessionCheckpointer.resume_frame
  rw [exec_bind_ok hread]
  cases hpol : n.frame_policy.on_resume_policy with
  | RunFrame => exact (acts_mark_ready_to_run_frame (hrun hpol)).run hload
  | MarkComplete => exact (acts_mark_completed_frame (hdone hpol)).run hload

end Kept

/-! ## The marks of each event -/

/-- The marks of the dispatch of a result of `f`, whose node is `n`. -/
def MarksAfter (f : FrameId) (n : FrameNode) : FrameResult → FrameId → FrameStatus → Prop
  | .RequestHitl _, g, status | .ConsultExperts _, g, status | .CallTools _, g, status
  | .ExecuteGraph _, g, status => g = f ∧ status = .WaitingChildren
  | .Continue, g, status | .GoTo _, g, status | .Completed, g, status =>
    g = f ∧ status = .Completed
  | .Fork _ _, g, status =>
    (g = f ∧ status = .Completed) ∨ (n.parent = some g ∧ status = .WaitingChildren)
  | .Failed err, g, status => g = f ∧ status = .Failed err

/-- How a frame with this node resumes after the end of a child. -/
def ResumesAs (n : FrameNode) (status : FrameStatus) : Prop :=
  (status = .Ready ∧ (n.frame_policy.on_resume_policy = .RunFrame ∨
    (n.frame_policy.resume_policy = .Sequential ∧ n.children = []))) ∨
  (status = .Completed ∧ n.frame_policy.on_resume_policy = .MarkComplete)

/-- The policy of `p` makes it join its children when one of them has terminated. -/
def FrameTree.Resumes (t : FrameTree) (p : FrameId) (n : FrameNode) : Prop :=
  n.frame_policy.resume_policy = .Sequential ∨
    (n.frame_policy.resume_policy = .FanIn ∧ t.AllTerminated p)

/-- The marks that an event may make in `s`. A frame that a handler appends may be marked as
waiting at once. -/
def Marks (s : State) : SessionCheckpointEvent → FrameId → FrameStatus → Prop
  | .FrameCreated f, g, status =>
    (s.frames.next ≤ g.id ∧ status = .WaitingChildren) ∨
    (g = f ∧ ∃ n, s.frames.find f = some n ∧ n.status = .Pending ∧
      ((status = .Ready ∧ n.frame_policy.on_start_policy = .RunFrame) ∨
        (status = .WaitingChildren ∧ n.frame_policy.on_start_policy ≠ .RunFrame)))
  | .HitlAnswered response, g, status =>
    s.frames.get_frame_id_by_hitl_id response.id = some g ∧ status = .Ready ∧
      ∃ n index, s.frames.find g = some n ∧ n.log_index_of_hitl response.id = some index
  | .FrameRunJobStateUpdate f job_state, g, status =>
    g = f ∧ ((∃ response, job_state = .Completed response ∧ status = .RunCompleted response) ∨
      ∃ error, job_state = .Failed error ∧ status = .RunFailed error.to_string)
  | .FrameRunTerminated f, g, status =>
    (s.frames.next ≤ g.id ∧ status = .WaitingChildren) ∨
    ∃ n response, s.frames.find f = some n ∧ n.status = .RunCompleted response ∧
      MarksAfter f n response.result g status
  | .ChildFrameTerminated p c, g, status =>
    g = p ∧ ((s.frames.Fires p c ∧ ∃ err, status = .Failed err) ∨
      (¬ s.frames.Fires p c ∧ ∃ n, s.frames.find p = some n ∧ s.frames.Resumes p n ∧
        ResumesAs n status))
  | _, _, _ => False

/-- The end of a run marks frames as waiting or as terminated. -/
theorem Marks.of_run_terminated {s : State} {f g : FrameId} {status : FrameStatus}
    (h : Marks s (.FrameRunTerminated f) g status) :
    status = .WaitingChildren ∨ status = .Completed ∨ ∃ err, status = .Failed err := by
  rcases h with ⟨-, hst⟩ | ⟨m, response, -, -, hM⟩
  · exact .inl hst
  · cases hresult : response.result <;> grind [MarksAfter]

section Handlers

variable {self : SessionCheckpointer} {s : State}

theorem acts_on_hitl_response (response : HitlResponse) :
    Acts self (Marks s (.HitlAnswered response)) s
      (exec (SessionCheckpointer.on_hitl_response response.id response.answers) s).2 := by
  unfold SessionCheckpointer.on_hitl_response frame_id_bound_to_hitl_id
  rw [exec_bind_ok (exec_frames (exec_asks _ s.frames))]
  cases hf : s.frames.get_frame_id_by_hitl_id response.id with
  | none => exact .refl s
  | some f =>
    simp only [log_index_bound_to_hitl_id]
    cases hn : s.frames.find f with
    | none => rw [exec_read_none hn]; exact .refl s
    | some n =>
      rw [exec_read hn]
      refine Keeps.run (Q := fun _ => True) ?_ (calm_loaded s f).acts
      cases hindex : n.log_index_of_hitl response.id with
      | none => exact keeps_throw _
      | some index =>
        have hM : Marks s (.HitlAnswered response) f .Ready := ⟨hf, rfl, n, index, hn, hindex⟩
        refine (acts_of_calm fun _ => calm_log _).andThen fun _ => ?_
        exact (acts_mark_ready_to_run_frame hM).andThen fun _ => keeps_throw _

theorem acts_on_frame_created (f : FrameId) :
    Acts self (Marks s (.FrameCreated f)) s (exec (self.on_frame_created f) s).2 := by
  have hnew : ∀ id : FrameId, s.frames.next ≤ id.id → Marks s (.FrameCreated f) id .WaitingChildren :=
    fun id hid => .inl ⟨hid, rfl⟩
  unfold SessionCheckpointer.on_frame_created
  cases hn : s.frames.find f with
  | none => rw [status_of, exec_read_none hn]; exact .refl s
  | some n =>
    have hload : ∀ s', Acts self (Marks s (.FrameCreated f)) s' (s'.loaded f) :=
      fun s' => (calm_loaded s' f).acts
    rw [status_of, exec_read hn]
    cases hstatus : n.status with
    | Pending =>
      have hn' : (s.loaded f).frames.find f = some n := by rw [State.loaded, find_load, hn]
      have hwait : n.frame_policy.on_start_policy ≠ .RunFrame →
          Marks s (.FrameCreated f) f .WaitingChildren :=
        fun hpol => .inr ⟨rfl, n, hn, hstatus, .inr ⟨rfl, hpol⟩⟩
      simp only
      rw [policy_of, exec_read hn']
      refine ((hload s).trans (hload _)).trans ?_
      refine Keeps.run (Q := fun _ => True) ?_ (.refl _)
      cases hstart : n.frame_policy.on_start_policy with
      | RunFrame =>
        exact acts_mark_ready_to_run_frame (.inr ⟨rfl, n, hn, hstatus, .inl ⟨rfl, hstart⟩⟩)
      | AppendGraphThread graph_ref start =>
        refine (acts_append_graph_thread (s := (s.loaded f).loaded f) hnew _ _ _).ignore.andThen fun _ => ?_
        exact acts_mark_as_waiting_children (hwait (by rw [hstart]; simp))
      | AppendGraphSpan graph_ref join branches =>
        refine (acts_append_graph_span (s := (s.loaded f).loaded f) hnew _ _ _ _).ignore.andThen fun _ => ?_
        exact acts_mark_as_waiting_children (hwait (by rw [hstart]; simp))
      | AppendGraphNode graph_ref start =>
        refine (acts_append_graph_node _ _ _).ignore.andThen fun _ => ?_
        refine (acts_of_calm fun _ => calm_set_resume_policy f _).andThen fun _ => ?_
        exact acts_mark_as_waiting_children (hwait (by rw [hstart]; simp))
    | _ => exact hload s

theorem acts_on_frame_run_update (f : FrameId) (job_state : JobState FrameResponse) :
    Acts self (Marks s (.FrameRunJobStateUpdate f job_state)) s
      (exec (SessionCheckpointer.on_frame_run_update f job_state) s).2 := by
  unfold SessionCheckpointer.on_frame_run_update
  split
  · rename_i response
    have hM : Marks s (.FrameRunJobStateUpdate f (.Completed response)) f (.RunCompleted response) :=
      ⟨rfl, .inl ⟨response, rfl, rfl⟩⟩
    refine Keeps.run (Q := fun _ => True) ?_ (.refl s)
    exact (acts_mark_frame_run_completed hM).andThen fun _ => acts_emit (by trivial)
  · rename_i error
    have hM : Marks s (.FrameRunJobStateUpdate f (.Failed error)) f (.RunFailed error.to_string) :=
      ⟨rfl, .inr ⟨error, rfl, rfl⟩⟩
    refine Keeps.run (Q := fun _ => True) ?_ (.refl s)
    exact (acts_mark_frame_run_failed hM).andThen fun _ => acts_emit (by trivial)
  · exact .refl s

/-- The marks of a dispatch are those of its result. -/
theorem acts_dispatch {M : FrameId → FrameStatus → Prop} {f : FrameId} {c : FrameNodeContainer}
    {result : FrameResult} (hc : s.frames.arena f = some c)
    (hnew : ∀ id : FrameId, s.frames.next ≤ id.id → M id .WaitingChildren)
    (hM : ∀ g status, MarksAfter f c.node result g status → M g status) :
    Keeps (Acts self M s) (self.dispatch f result) (fun _ => True) := by
  have hparent : Keeps (Acts self M s) (frames (asks (parent_of · f)))
      (fun o => o = c.node.parent) := by
    intro s' hs
    refine ⟨hs, ?_⟩
    rintro _ ⟨⟩
    obtain ⟨c', hc'⟩ := hs.evolves.resident f c hc
    obtain ⟨n', hn', hk⟩ := hs.found (find_of_arena hc)
    rw [find_of_arena hc'] at hn'
    cases hn'
    simp [parent_of, hc', hk.parent]
  unfold SessionCheckpointer.dispatch
  cases result with
  | RequestHitl hitl =>
    refine (acts_of_calm fun _ => calm_request self hitl).andThen fun id => ?_
    refine (acts_of_calm fun _ => calm_read f _).andThen fun logs => ?_
    refine (keeps_unpolled _).andThen fun _ => (keeps_unpolled _).andThen fun _ => ?_
    exact acts_mark_as_waiting_children (hM f _ ⟨rfl, rfl⟩)
  | ConsultExperts requests =>
    refine (acts_append_experts_consultations _ _).andThen fun _ => ?_
    refine (keeps_unpolled _).andThen fun _ => ?_
    refine (acts_of_calm fun _ => calm_set_reduce_policy _ _).andThen fun _ => ?_
    exact acts_mark_as_waiting_children (hM f _ ⟨rfl, rfl⟩)
  | CallTools requests =>
    refine (acts_append_tool_calls hnew _ _).andThen fun _ => ?_
    refine (keeps_unpolled _).andThen fun _ => ?_
    refine (acts_of_calm fun _ => calm_set_reduce_policy _ _).andThen fun _ => ?_
    exact acts_mark_as_waiting_children (hM f _ ⟨rfl, rfl⟩)
  | ExecuteGraph graph_id =>
    refine (acts_append_graph hnew _ _).andThen fun _ => ?_
    exact acts_mark_as_waiting_children (hM f _ ⟨rfl, rfl⟩)
  | Continue =>
    refine (acts_of_calm fun _ => calm_asks _).andThen fun o => ?_
    split
    · exact keeps_pure trivial
    · refine (acts_of_calm fun _ => calm_read f _).andThen fun data => ?_
      split
      · split
        · exact keeps_throw _
        · split
          · exact keeps_pure trivial
          · refine (acts_append_graph_node _ _ _).andThen fun _ => ?_
            exact acts_mark_completed_frame (hM f _ ⟨rfl, rfl⟩)
      · exact keeps_pure trivial
  | GoTo target =>
    refine (acts_of_calm fun _ => calm_asks _).andThen fun o => ?_
    split
    · exact keeps_pure trivial
    · refine (acts_of_calm fun _ => calm_read f _).andThen fun data => ?_
      split
      · refine (acts_append_graph_node _ _ _).andThen fun _ => ?_
        exact acts_mark_completed_frame (hM f _ ⟨rfl, rfl⟩)
      · exact keeps_pure trivial
  | Fork branches join =>
    refine hparent.bind fun o ho => ?_
    subst ho
    split
    · exact keeps_pure trivial
    · rename_i p hp
      refine (acts_of_calm fun _ => calm_read p _).andThen fun spec_ref => ?_
      split
      · refine (acts_append_graph_span hnew _ _ _ _).andThen fun _ => ?_
        refine (keeps_unpolled _).andThen fun _ => (keeps_unpolled _).andThen fun _ => ?_
        refine (acts_mark_as_waiting_children (hM p _ (.inr ⟨hp, rfl⟩))).andThen fun _ => ?_
        exact acts_mark_completed_frame (hM f _ (.inl ⟨rfl, rfl⟩))
      · exact keeps_throw _
  | Completed => exact acts_mark_completed_frame (hM f _ ⟨rfl, rfl⟩)
  | Failed err => exact acts_mark_failed_frame (hM f _ ⟨rfl, rfl⟩)

theorem acts_on_frame_run_terminated (f : FrameId) :
    Acts self (Marks s (.FrameRunTerminated f)) s (exec (self.on_frame_run_terminated f) s).2 := by
  unfold SessionCheckpointer.on_frame_run_terminated
  cases hn : s.frames.find f with
  | none => rw [status_of, exec_read_none hn]; exact .refl s
  | some n =>
    have hload : Acts self (Marks s (.FrameRunTerminated f)) s (s.loaded f) := (calm_loaded s f).acts
    rw [status_of, exec_read hn]
    split
    · rename_i response hst
      obtain ⟨c, hc, rfl⟩ := resident_load hn
      refine hload.trans (Keeps.run (Q := fun _ => True) ?_ (.refl _))
      refine Keeps.andThen (Q := fun _ => True) (acts_of_calm fun _ => calm_record_run f response) fun _ => ?_
      refine acts_dispatch (s := s.loaded f) hc (fun id hid => .inl ⟨hid, rfl⟩) ?_
      intro g status hmark
      exact .inr ⟨c.node, response, hn, hst, hmark⟩
    · exact hload

/-- The branch `Sequential`. -/
theorem acts_join_sequential {M : FrameId → FrameStatus → Prop} {p : FrameId} {n : FrameNode}
    (hn : s.frames.find p = some n) (hseq : n.frame_policy.resume_policy = .Sequential)
    (hM : ∀ status, ResumesAs n status → M p status) :
    Acts self M s (exec (self.join_sequential p) s).2 := by
  have hlast : exec (frames (last_child_of p)) s = (.ok n.children.getLast?, s.loaded p) :=
    exec_frames (exec_get_map _ hn)
  have hload : Acts self M s (s.loaded p) := (calm_loaded s p).acts
  unfold SessionCheckpointer.join_sequential
  rw [exec_bind_ok hlast]
  cases hch : n.children.getLast? with
  | none =>
    have hnone : n.children = [] := List.getLast?_eq_none_iff.mp hch
    exact (acts_mark_ready_to_run_frame (hM _ (.inl ⟨rfl, .inr ⟨hseq, hnone⟩⟩))).run hload
  | some last =>
    refine Keeps.run (Q := fun _ => True) ?_ hload
    refine (acts_of_calm fun _ => calm_join_last_child p last).andThen fun _ => ?_
    exact acts_resume_frame hn (fun hpol => hM _ (.inl ⟨rfl, .inl hpol⟩))
      fun hpol => hM _ (.inr ⟨rfl, hpol⟩)

theorem acts_join_fan_in {M : FrameId → FrameStatus → Prop} {p : FrameId} {n : FrameNode}
    (hn : s.frames.find p = some n) (hM : ∀ status, ResumesAs n status → M p status) :
    Acts self M s (exec (self.join_fan_in p) s).2 := by
  refine Keeps.run (Q := fun _ => True) ?_ (.refl s)
  refine (acts_of_calm fun _ => calm_join_children p).andThen fun _ => ?_
  exact acts_resume_frame hn (fun hpol => hM _ (.inl ⟨rfl, .inl hpol⟩))
    fun hpol => hM _ (.inr ⟨rfl, hpol⟩)

theorem acts_on_child_frame_terminated (p c : FrameId) :
    Acts self (Marks s (.ChildFrameTerminated p c)) s
      (exec (self.on_child_frame_terminated p c) s).2 := by
  rcases child_terminated_cases self s p c with
    ⟨e, t, ht, hr⟩ | ⟨t, cp, ht, hfind, hcp, hcase⟩
  · rw [hr]
    exact (Act.load ht).acts
  · have hload : Acts self (Marks s (.ChildFrameTerminated p c)) s { s with frames := t } :=
      (Act.load ht).acts
    have hn : t.find p = some cp.node := find_of_arena hcp
    rcases hcase with ⟨hfires, err, hr⟩ | ⟨hno, hpol, hr⟩ | ⟨hno, hpol, hall, hr⟩ | ⟨-, -, hr⟩
    · rw [hr]
      have hM : Marks s (.ChildFrameTerminated p c) p (.Failed err) :=
        ⟨rfl, .inl ⟨hfires, err, rfl⟩⟩
      exact (acts_mark_failed_frame hM).run hload
    · rw [hr]
      refine hload.trans (acts_join_sequential (s := { s with frames := t }) hn hpol ?_)
      exact fun status h => ⟨rfl, .inr ⟨hno, cp.node, hfind, .inl hpol, h⟩⟩
    · rw [hr]
      refine hload.trans (acts_join_fan_in (s := { s with frames := t }) hn ?_)
      exact fun status h => ⟨rfl, .inr ⟨hno, cp.node, hfind, .inr ⟨hpol, hall⟩, h⟩⟩
    · rw [hr]
      exact hload

theorem acts_on_frame_terminated (f : FrameId) :
    Acts self (Marks s (.FrameTerminated f)) s
      (exec (SessionCheckpointer.on_frame_terminated f) s).2 := by
  refine Keeps.run (Q := fun _ => True) ?_ (.refl s)
  unfold SessionCheckpointer.on_frame_terminated
  refine (acts_of_calm fun _ => calm_asks _).andThen fun parent => ?_
  split
  · exact acts_emit (by trivial)
  · exact keeps_pure trivial

/-- Every handler but that of `FrameReady` is made of actions, with the marks of its event. -/
theorem acts_on_event {event : SessionCheckpointEvent} (h : ∀ f, event ≠ .FrameReady f) :
    Acts self (Marks s event) s (exec (self.on_event event) s).2 := by
  cases event with
  | SessionCreated => exact .refl s
  | HitlAnswered response => exact acts_on_hitl_response response
  | FrameCreated f => exact acts_on_frame_created f
  | FrameRunJobStateUpdate f job_state => exact acts_on_frame_run_update f job_state
  | FrameReady f => exact absurd rfl (h f)
  | FrameRunTerminated f => exact acts_on_frame_run_terminated f
  | ChildFrameTerminated p c => exact acts_on_child_frame_terminated p c
  | FrameTerminated f => exact acts_on_frame_terminated f

end Handlers

/-! ## What an action does to a frame -/

/-- The node that an append makes has no parent that is not a frame. -/
theorem append_made (t : FrameTree) (p : FrameId) (args : NewFrameNodeArgs) :
    ∃ k, (t.append p args).2.find ⟨t.next⟩ = some k ∧
      k.bare = (FrameNode.new ⟨t.next⟩ args).bare ∧
      ∀ q, k.parent = some q → (∃ c, t.arena q = some c) ∨ q = ⟨t.next⟩ := by
  cases hc : t.arena p with
  | some c =>
    obtain ⟨k, hk, hbare, hparent, -⟩ := append_new hc args
    refine ⟨k, find_of_arena hk, hbare, fun q hq => .inl ⟨c, ?_⟩⟩
    rw [hparent] at hq
    cases hq
    exact hc
  | none =>
    by_cases hne : p = ⟨t.next⟩
    · subst hne
      have hself := t.created_arena_self args
      have heq : (t.append ⟨t.next⟩ args).2 = insert_child (t.created args) ⟨t.next⟩ ⟨t.next⟩ 0 := by
        change insert_child (t.created args) ⟨t.next⟩ ⟨t.next⟩ _ = _
        simp only [hc]
      rw [heq]
      unfold insert_child
      simp only [detach_created, hself, FrameNode.new, List.length_nil, Nat.min_self, if_true,
        List.getElem?_nil]
      refine ⟨_, find_edit_self (c := ⟨{ FrameNode.new ⟨t.next⟩ args with
        children := [⟨t.next⟩] }, true⟩) ?_, rfl, fun q hq => .inr ?_⟩
      · simp [edit, hself, FrameNode.new]
      · exact (Option.some.inj hq).symm
    · rw [append_eq_created hc hne]
      refine ⟨_, find_of_arena (t.created_arena_self args), rfl, fun q hq => ?_⟩
      cases hq

section Frames

variable {self : SessionCheckpointer} {M : FrameId → FrameStatus → Prop} {s s' : State}
  {f x : FrameId} {n : FrameNode}

/-- A write that leaves the status, the place, the kind and the policy of a node. -/
theorem find_edit_quiet {t : FrameTree} {φ : FrameNode → FrameNode}
    (hφ : ∀ m, (φ m).parent = m.parent ∧ (φ m).data = m.data ∧
      (φ m).frame_policy = m.frame_policy ∧ (φ m).status = m.status)
    (hn : (t.edit f φ).find x = some n) :
    ∃ m, t.find x = some m ∧ n.parent = m.parent ∧ n.data = m.data ∧
      n.frame_policy = m.frame_policy ∧ n.status = m.status := by
  by_cases hx : x = f
  · subst hx
    cases hc : t.arena x with
    | some c =>
      rw [find_edit_self hc] at hn
      cases hn
      exact ⟨c.node, find_of_arena hc, hφ c.node⟩
    | none =>
      refine ⟨n, ?_, rfl, rfl, rfl, rfl⟩
      simpa [find, edit, hc] using hn
  · rw [find_edit_ne hx] at hn
    exact ⟨n, hn, rfl, rfl, rfl, rfl⟩

/-- A frame after an action: it was there, with the same place and the same kind, and its status
is the same or was marked; or it is new. -/
theorem Act.node (h : Act self M s s') (hn : s'.frames.find x = some n) :
    (∃ m, s.frames.find x = some m ∧ n.parent = m.parent ∧ n.data = m.data ∧
      n.frame_policy = m.frame_policy ∧ (n.status = m.status ∨
        (M x n.status ∧ s'.listeners = s.listeners ++ n.status.announces x m.parent))) ∨
    (s.frames.find x = none ∧ n.status = .Pending ∧
      ∀ p, n.parent = some p → ∃ m, s'.frames.find p = some m) := by
  cases h with
  | @load t ht =>
    have hold : s.frames.find x = some n := (ht.find x).symm.trans hn
    exact .inl ⟨n, hold, rfl, rfl, rfl, .inl rfl⟩
  | fill g channels superstep =>
    obtain ⟨m, hm, hp, hd, hpol, hst⟩ := find_edit_quiet (t := s.frames) (f := g)
      (φ := fun n => { n with inherited_channels := channels n, superstep := superstep n })
      (fun _ => ⟨rfl, rfl, rfl, rfl⟩) hn
    exact .inl ⟨m, hm, hp, hd, hpol, .inl hst⟩
  | log g entries =>
    obtain ⟨m, hm, hp, hd, hpol, hst⟩ := find_edit_quiet (t := s.frames) (f := g)
      (φ := fun n => { n with logs := entries n.logs }) (fun _ => ⟨rfl, rfl, rfl, rfl⟩) hn
    exact .inl ⟨m, hm, hp, hd, hpol, .inl hst⟩
  | @mark g m status hm hM =>
    have hfind := find_marked hm status x
    change (s.marked g status).frames.find x = some n at hn
    rw [hfind] at hn
    split at hn
    · rename_i hx
      subst hx
      cases hn
      exact .inl ⟨m, hm, rfl, rfl, rfl, .inr ⟨hM, rfl⟩⟩
    · exact .inl ⟨n, hn, rfl, rfl, rfl, .inl rfl⟩
  | append p args =>
    change (s.frames.append p args).2.find x = some n at hn
    have hevolves : Evolves s.frames.next noFrame noFrame s.frames (s.frames.append p args).2 :=
      (Evolves.refl (Nat.le_refl _)).append p args
    by_cases hlt : x.id < s.frames.next
    · obtain ⟨m, hm⟩ := hevolves.old x n hlt hn
      obtain ⟨n', hn', hk⟩ := hevolves.node x m hm
      rw [hn] at hn'
      cases hn'
      have hk := hk hlt
      exact .inl ⟨m, hm, hk.parent, hk.data, hk.frame_policy, .inl (hk.status id)⟩
    · have hx : x = ⟨s.frames.next⟩ := by
        have hbound := id_lt_next hn
        rw [append_next_succ] at hbound
        cases x
        simp only [FrameId.mk.injEq] at *
        omega
      subst hx
      obtain ⟨k, hk, hbare, hparent⟩ := append_made s.frames p args
      rw [hk] at hn
      cases hn
      refine .inr ⟨find_fresh (Nat.le_refl _), ?_, fun q hq => ?_⟩
      · exact FrameNode.of_bare (·.status) (fun _ => rfl) hbare
      · rcases hparent q hq with ⟨c, hc⟩ | rfl
        · obtain ⟨c', hc'⟩ := hevolves.resident q c hc
          exact ⟨c'.node, find_of_arena hc'⟩
        · exact ⟨_, hk⟩
  | send he => exact .inl ⟨n, hn, rfl, rfl, rfl, .inl rfl⟩
  | number next_id hitls => exact .inl ⟨n, hn, rfl, rfl, rfl, .inl rfl⟩
  | read hx => exact .inl ⟨n, hn, rfl, rfl, rfl, .inl rfl⟩
  | push hx hy => exact .inl ⟨n, hn, rfl, rfl, rfl, .inl rfl⟩

/-- An event after an action: it was sent before, or is sent without a mark, or belongs to the
mark that was made. -/
theorem Act.event {event : SessionCheckpointEvent} (h : Act self M s s')
    (he : event ∈ s'.listeners) :
    event ∈ s.listeners ∨ event.IsNotice ∨ ∃ f m status, s.frames.find f = some m ∧
      M f status ∧ event ∈ status.announces f m.parent := by
  cases h with
  | @mark f m status hm hM =>
    rcases List.mem_append.mp he with hold | hnew
    · exact .inl hold
    · exact .inr (.inr ⟨f, m, status, hm, hM, hnew⟩)
  | send hnotice =>
    rcases List.mem_append.mp he with hold | hnew
    · exact .inl hold
    · rw [List.mem_singleton.mp hnew]
      exact .inr (.inl hnotice)
  | _ => exact .inl he

/-- No event is lost. -/
theorem Act.listeners (h : Act self M s s') : s.listeners ⊆ s'.listeners := by
  cases h with
  | mark hm hM => exact List.subset_append_left _ _
  | send hnotice => exact List.subset_append_left _ _
  | _ => exact fun _ he => he

theorem Act.dispatched (h : Act self M s s') : s'.dispatched = s.dispatched := by
  cases h <;> rfl

theorem Act.session_id (h : Act self M s s') :
    s'.snapshots.session_id = s.snapshots.session_id := by
  cases h with
  | push hx hy =>
    unfold SessionCheckpointer.push_into
    split <;> simp [SessionSnapshots.flush, SessionSnapshots.insert]
  | _ => rfl

theorem Acts.listeners (h : Acts self M s s') : s.listeners ⊆ s'.listeners :=
  h.keeps (I := fun a => s.listeners ⊆ a.listeners) (fun _ _ hab ha => List.Subset.trans ha hab.listeners)
    fun _ he => he

/-- The status of a frame after some actions: that of a new frame, or what it was, or a mark
whose events are sent. -/
theorem Acts.status (h : Acts self M s s') (hn : s'.frames.find f = some n) :
    n.status = .Pending ∨ (∃ m, s.frames.find f = some m ∧ n.status = m.status) ∨
      (M f n.status ∧ ∃ parent, n.status.announces f parent ⊆ s'.listeners) := by
  refine h.keeps (I := fun a => ∀ n, a.frames.find f = some n → n.status = .Pending ∨
    (∃ m, s.frames.find f = some m ∧ n.status = m.status) ∨
      (M f n.status ∧ ∃ parent, n.status.announces f parent ⊆ a.listeners)) ?_
    (fun n hn => .inr (.inl ⟨n, hn, rfl⟩)) n hn
  intro a b hab ha n hn
  rcases hab.node hn with ⟨m, hm, -, -, -, hsame | ⟨hM, hsent⟩⟩ | ⟨-, hnew, -⟩
  · rw [hsame]
    rcases ha m hm with hpending | hold | ⟨hM, parent, hsent⟩
    · exact .inl hpending
    · exact .inr (.inl hold)
    · exact .inr (.inr ⟨hM, parent, List.Subset.trans hsent hab.listeners⟩)
  · exact .inr (.inr ⟨hM, m.parent, by rw [hsent]; exact List.subset_append_right _ _⟩)
  · exact .inl hnew

/-- The events after some actions. -/
theorem Acts.event {event : SessionCheckpointEvent} (h : Acts self M s s')
    (he : event ∈ s'.listeners) :
    event ∈ s.listeners ∨ event.IsNotice ∨
      ∃ f parent status, M f status ∧ event ∈ status.announces f parent := by
  refine h.keeps (I := fun a => event ∈ a.listeners → event ∈ s.listeners ∨ event.IsNotice ∨
    ∃ f parent status, M f status ∧ event ∈ status.announces f parent) ?_ (fun he => .inl he) he
  intro a b hab ha he
  rcases hab.event he with hold | hnotice | ⟨f, m, status, -, hM, hsent⟩
  · exact ha hold
  · exact .inr (.inl hnotice)
  · exact .inr (.inr ⟨f, m.parent, status, hM, hsent⟩)

end Frames

/-! ## The step of an event -/

section Step

variable {self : SessionCheckpointer} {s : State} {f : FrameId} {n : FrameNode} {x : Snapshot}

/-- A frame with a snapshot goes to the worker. -/
theorem exec_on_frame_ready (self : SessionCheckpointer) (hx : s.snapshots.last f = some x)
    (hn : s.frames.find f = some n) :
    (exec (self.on_frame_ready f) s).2 =
      { s with
        frames := s.frames.load f
        snapshots := s.snapshots.insert x.ref ⟨x, false⟩
        dispatched := s.dispatched ++ [⟨self.session_id, f, x.channels, n.logs, n.data⟩] } := by
  obtain ⟨c, hc, -⟩ := resident_load hn
  let s1 : State := { s with snapshots := s.snapshots.insert x.ref ⟨x, false⟩ }
  have hn1 : s1.frames.find f = some n := hn
  have hn2 : (s1.loaded f).frames.find f = some n := by rw [State.loaded, find_load, hn1]
  have hload : (s1.loaded f).loaded f = s1.loaded f := by
    rw [State.loaded, load_of_resident (t := (s1.loaded f).frames) hc]
  unfold SessionCheckpointer.on_frame_ready SessionCheckpointer.run_frame logs_of data_of
  rw [exec_bind_ok (exec_snapshots (SessionSnapshots.exec_latest hx)), exec_read hn1, exec_read hn2,
    hload, exec_bind_ok (exec_asks _ _), exec_bind_ok (exec_modify _ _)]
  cases self.spawn (s1.loaded f).dispatched.length ⟨self.session_id, f, x.channels, n.logs, n.data⟩
    with
  | none => rfl
  | some error => rfl

/-- Without a snapshot or without a node, `on_frame_ready` stops at a read. -/
theorem acts_on_frame_ready {M : FrameId → FrameStatus → Prop}
    (h : s.snapshots.last f = none ∨ s.frames.find f = none) :
    Acts self M s (exec (self.on_frame_ready f) s).2 := by
  unfold SessionCheckpointer.on_frame_ready SessionCheckpointer.run_frame logs_of
  cases hx : s.snapshots.last f with
  | none =>
    rw [exec_bind_error (exec_snapshots (SessionSnapshots.exec_latest_none hx))]
    exact .refl s
  | some x =>
    have hn : s.frames.find f = none := h.resolve_left (by simp [hx])
    rw [exec_bind_ok (exec_snapshots (SessionSnapshots.exec_latest hx)),
      exec_read_none (s := { s with snapshots := s.snapshots.insert x.ref ⟨x, false⟩ }) hn]
    exact (Act.read hx).acts

/-- The step of an event: some actions, with the marks of the event, and at most one run that
goes to the worker. -/
theorem step_acts (self : SessionCheckpointer) (s : State) (event : SessionCheckpointEvent) :
    ∃ s' session_status dispatched, Acts self (Marks s event) s s' ∧
      self.step s event = { s' with session_status, dispatched } ∧
      (dispatched = s.dispatched ∨ ∃ f n x, event = .FrameReady f ∧ s.frames.find f = some n ∧
        s.snapshots.last f = some x ∧
        dispatched = s.dispatched ++ [⟨self.session_id, f, x.channels, n.logs, n.data⟩]) := by
  obtain ⟨session_status, hstep⟩ := step_eq self s event
  have hkeeps : ∀ s', Acts self (Marks s event) s s' → s'.dispatched = s.dispatched := fun s' h =>
    h.keeps (I := fun a => a.dispatched = s.dispatched) (fun _ _ hab ha => hab.dispatched.trans ha) rfl
  by_cases hready : ∃ f, event = .FrameReady f
  · obtain ⟨f, rfl⟩ := hready
    by_cases hmiss : s.snapshots.last f = none ∨ s.frames.find f = none
    · have hacts : Acts self (Marks s (.FrameReady f)) s (exec (self.on_frame_ready f) s).2 :=
        acts_on_frame_ready hmiss
      exact ⟨_, session_status, _, hacts, hstep, .inl (hkeeps _ hacts)⟩
    · push Not at hmiss
      obtain ⟨x, hx⟩ := Option.ne_none_iff_exists'.mp hmiss.1
      obtain ⟨n, hn⟩ := Option.ne_none_iff_exists'.mp hmiss.2
      have hrun := exec_on_frame_ready self hx hn
      change self.step s (.FrameReady f) =
        { (exec (self.on_frame_ready f) s).2 with session_status } at hstep
      rw [hrun] at hstep
      refine ⟨{ s with
        frames := s.frames.load f
        snapshots := s.snapshots.insert x.ref ⟨x, false⟩ }, session_status, _, ?_, hstep,
        .inr ⟨f, n, x, rfl, hn, hx, rfl⟩⟩
      exact ((calm_loaded s f).trans (QuietAct.read (s := s.loaded f) hx).calm).acts
  · have hacts : Acts self (Marks s event) s (exec (self.on_event event) s).2 :=
      acts_on_event fun f hf => hready ⟨f, hf⟩
    exact ⟨_, session_status, _, hacts, hstep, .inl (hkeeps _ hacts)⟩

end Step

end marie.session
