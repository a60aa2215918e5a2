-- The walk of a graph by the checkpointer. Each event takes one turn: it makes
-- the frames that the result of a node leads to, it marks a node, or it only
-- tells other frames.
import Marie.Session.GraphFrames

namespace marie.session

open Program FrameTree

/-! ## The turns of the checkpointer -/

/-- What a container sends upwards when it resumes or fails. -/
def Upward (o : Outline) (p : FrameId) : SessionCheckpointEvent → Prop
  | .FrameReady f | .FrameTerminated f => f = p
  | .ChildFrameTerminated q f => f = p ∧ ∃ k, o p = some k ∧ k.parent = some q
  | _ => False

/-- The event brings no run to its end, and leaves none to be walked. -/
def SessionCheckpointEvent.Rests (o : Outline) : SessionCheckpointEvent → Prop
  | .FrameRunJobStateUpdate _ (.Completed _) => False
  | .FrameRunTerminated f => ∀ k response, o f = some k → k.run ≠ some (.RunCompleted response)
  | _ => True

/-- What an event does to an outline with `next` frames: the new outline, how many frames are
made, and what is sent. -/
inductive Turn (w : Walk) (o : Outline) (next : Nat) :
    SessionCheckpointEvent → Outline → Nat → List SessionCheckpointEvent → Prop
  | rests {event : SessionCheckpointEvent} (hrest : event.Rests o) : Turn w o next event o 0 []
  | readies {f : FrameId} {k : Part} (hk : o f = some k)
    (hpending : ∀ status, k.run = some status → status = .Pending) :
    Turn w o next (.FrameCreated f) (o.mark f .Ready) 0 [.FrameReady f]
  | starts :
    Turn w o next (.FrameCreated ⟨0⟩) ((o.grow ⟨0⟩ ⟨next⟩ (.GraphThread w.graph_ref)).grow
      ⟨next⟩ ⟨next + 1⟩ (.GraphNode w.graph_ref w.entry)) 2 (created next 2)
  | completes {f : FrameId} {k : Part} (response : FrameResponse) (hk : o f = some k) :
    Turn w o next (.FrameRunJobStateUpdate f (.Completed response))
      (o.mark f (.RunCompleted response)) 0 [.FrameRunTerminated f, .FrameRunTerminated f]
  | fails {f : FrameId} {k : Part} (error : WorkerError) (hk : o f = some k) :
    Turn w o next (.FrameRunJobStateUpdate f (.Failed error))
      (o.mark f (.RunFailed error.to_string)) 0 [.FrameRunTerminated f, .FrameRunTerminated f]
  | walks {f p : FrameId} {k kp : Part} {node_id : NodeId} {response : FrameResponse}
    (hk : o f = some k) (hkind : k.kind = .GraphNode w.graph_ref node_id)
    (hrun : k.run = some (.RunCompleted response)) (hparent : k.parent = some p)
    (hp : o p = some kp) (hthread : kp.kind = .GraphThread w.graph_ref) (hmem : f ∈ kp.children)
    (hright : w.GoesRight o p node_id response.result) :
    Turn w o next (.FrameRunTerminated f)
      ((w.adds o next p node_id response.result).mark f .Completed) (w.made node_id response.result)
      (created next (w.made node_id response.result) ++
        [.FrameTerminated f, .ChildFrameTerminated p f])
  | resumes {p c : FrameId} {sent : List SessionCheckpointEvent}
    (hplain : ∀ k, o p = some k → k.run = none) (hsent : ∀ event ∈ sent, Upward o p event) :
    Turn w o next (.ChildFrameTerminated p c) o 0 sent
  | tells {f p : FrameId} {k : Part} (hk : o f = some k) (hparent : k.parent = some p) :
    Turn w o next (.FrameTerminated f) o 0 [.ChildFrameTerminated p f]

/-- What an event meets in a session that walks a graph. -/
structure Meets (ckp : SessionCheckpointer) (w : Walk) (s : State) : Prop where
  graph : ckp.graphs.get w.graph_ref = .ok w.spec
  store : ∀ y, s.frames.store y = none
  ofGraph : w.OfGraph s.frames
  walking : w.Walking s.frames.outline

/-- From `s` to `s'`, the event takes a turn. -/
def Turns (w : Walk) (s : State) (event : SessionCheckpointEvent) (s' : State) : Prop :=
  ∃ o made sent, Draws w s s' o made sent ∧ Turn w s.frames.outline s.frames.next event o made sent

section Handlers

variable {self : SessionCheckpointer} {w : Walk} {s s' : State} {f p c : FrameId} {n : FrameNode}
  {event : SessionCheckpointEvent}

theorem turns_of_calm (h : Calm self s s') (hrest : event.Rests s.frames.outline) :
    Turns w s event s' :=
  ⟨_, 0, [], h.draws, .rests hrest⟩

/-- Nothing happens. -/
theorem turns_stay (hrest : event.Rests s.frames.outline) : Turns w s event s :=
  ⟨_, 0, [], .refl s, .rests hrest⟩

theorem draws_loaded (s : State) (f : FrameId) : Draws w s (s.loaded f) s.frames.outline 0 [] :=
  (calm_loaded s f : Calm (plain true) s (s.loaded f)).draws

theorem turns_load (f : FrameId) (hrest : event.Rests s.frames.outline) :
    Turns w s event (s.loaded f) :=
  ⟨_, 0, [], draws_loaded s f, .rests hrest⟩

/-- The root has no child before it starts, so its thread needs no snapshot. -/
theorem canAppend_root (hs : Meets self w s) (hn : s.frames.find ⟨0⟩ = some n)
    (hnone : n.children = []) : CanAppend self s ⟨0⟩ (.Graph w.graph_ref) := by
  refine ⟨⟨n, hn⟩, ⟨w.spec.common, by simp [spec_of_ref, hs.graph, Except.toOption]⟩, fun q hq => ?_⟩
  obtain ⟨c, hc, rfl⟩ := arena_of_find hs.store hn
  have hpolicy := (hs.ofGraph ⟨0⟩ c.node hn).root rfl
  simp [sourceFor, hc, hpolicy, hnone] at hq

/-- A frame that waits for a run gets ready; the root starts its thread. -/
theorem turns_on_frame_created (hs : Meets self w s)
    (hroot : ∀ k, f = ⟨0⟩ → s.frames.outline f = some k → k.children = []) :
    Turns w s (.FrameCreated f) (exec (self.on_frame_created f) s).2 := by
  unfold SessionCheckpointer.on_frame_created
  cases hn : s.frames.find f with
  | none =>
    rw [status_of, exec_read_none hn]
    exact turns_stay trivial
  | some n =>
  rw [status_of, exec_read hn]
  have hn1 : (s.loaded f).frames.find f = some n := by rw [State.loaded, find_load, hn]
  split
  · rename_i hpending
    rw [policy_of, exec_read hn1, (hs.ofGraph f n hn).on_start]
    have hload : Draws w s ((s.loaded f).loaded f) s.frames.outline 0 [] :=
      (draws_loaded s f).before (draws_loaded _ f)
    have hn2 : ((s.loaded f).loaded f).frames.find f = some n := by
      rw [State.loaded, find_load, hn1]
    generalize (s.loaded f).loaded f = s2 at hload hn2 ⊢
    by_cases h0 : f = ⟨0⟩
    · subst h0
      have hnone : n.children = [] := hroot n.part rfl (outline_of_find hn)
      have hs2 : Meets self w s2 :=
        ⟨hs.graph, hload.storeless hs.store, hload.ofGraph hs.ofGraph, by
          rw [hload.outline]
          exact hs.walking⟩
      obtain ⟨s3, hrun, -⟩ := exec_append_graph_thread w.graph_ref w.entry
        (canAppend_root hs2 hn2 hnone)
      have hignored : exec (ignore Fault.isError
          (self.append_graph_thread ⟨0⟩ w.graph_ref w.entry)) s2 = (.ok (), s3) := by
        rw [ignore, exec_tryCatch, exec_bind_ok hrun]
        rfl
      have hthread := draws_append_graph_thread (w := w) hs2.store hn2 hrun
      rw [hload.outline, hload.next, Nat.add_zero] at hthread
      rw [if_pos rfl]
      dsimp only
      rw [exec_bind_ok hignored]
      have hwait : Draws w s3 (exec (mark_as_waiting_children ⟨0⟩) s3).2 s3.frames.outline 0 [] := by
        refine draws_mark_as_waiting_children (fun k hk => ?_) rfl
        have hne : (⟨0⟩ : FrameId) ≠ ⟨s.frames.next⟩ ∧ (⟨0⟩ : FrameId) ≠ ⟨s.frames.next + 1⟩ := by
          have hlt := id_lt_next hn
          constructor <;> simp only [ne_eq, FrameId.mk.injEq] <;> omega
        rw [hthread.outline, Outline.grow_ne hne.2 hne.1,
          Outline.grow_host hne.1 (outline_of_find hn)] at hk
        cases hk
        have hkind : n.data = .Graph w.graph_ref := hs.walking.root_kind (outline_of_find hn)
        simp [FrameNode.part, hkind, FrameKind.run]
      exact ⟨_, _, _, (hthread.after hload).before hwait, .starts⟩
    · rw [if_neg h0, exec_mark_ready hn2]
      have hfair : Fair s2 f .Ready := fun _ h => by cases h
      have hmark := (draws_mark (w := w) hn2 hfair [.FrameReady f]).after hload
      rw [hload.outline] at hmark
      refine ⟨_, _, _, hmark, .readies (outline_of_find hn) fun status hst => ?_⟩
      rw [eq_of_run hst, hpending]
  · exact turns_load f trivial

theorem turns_on_frame_run_update (state : JobState FrameResponse)
    (hnode : ∀ response, state = .Completed response →
      ∃ k, s.frames.outline f = some k ∧ k.run ≠ none) :
    Turns w s (.FrameRunJobStateUpdate f state)
      (exec (SessionCheckpointer.on_frame_run_update f state) s).2 := by
  unfold SessionCheckpointer.on_frame_run_update
  cases state with
  | Completed response =>
    obtain ⟨k, hk, hrun⟩ := hnode response rfl
    obtain ⟨n, hn, rfl⟩ := find_of_outline hk
    have hmark : exec (mark_frame_run_completed f response) s =
        (.ok (), (s.marked f (.RunCompleted response)).emits [.FrameRunTerminated f]) := by
      unfold mark_frame_run_completed
      rw [exec_bind_ok (exec_set_status hn _)]
      rfl
    have hfair : Fair s f (.RunCompleted response) := fun _ _ => ⟨_, hk, hrun⟩
    have hfirst := draws_mark (w := w) hn hfair [.FrameRunTerminated f]
    have hboth := hfirst.trans (draws_emits (w := w) _ [.FrameRunTerminated f])
    rw [hfirst.outline] at hboth
    rw [exec_bind_ok hmark]
    exact ⟨_, _, _, hboth, .completes response hk⟩
  | Failed error =>
    cases hn : s.frames.find f with
    | none =>
      have hmark : exec (mark_frame_run_failed f error) s = 
          (.error (.panic "frame introuvable ou erreur de stockage"), s) := by
        unfold mark_frame_run_failed
        rw [exec_bind_error (exec_set_status_none hn _)]
      rw [exec_bind_error hmark]
      exact turns_stay trivial
    | some n =>
      have hmark : exec (mark_frame_run_failed f error) s =
          (.ok (), (s.marked f (.RunFailed error.to_string)).emits [.FrameRunTerminated f]) := by
        unfold mark_frame_run_failed
        rw [exec_bind_ok (exec_set_status hn _)]
        rfl
      have hfair : Fair s f (.RunFailed error.to_string) := fun _ h => by cases h
      have hfirst := draws_mark (w := w) hn hfair [.FrameRunTerminated f]
      have hboth := hfirst.trans (draws_emits (w := w) _ [.FrameRunTerminated f])
      rw [hfirst.outline] at hboth
      rw [exec_bind_ok hmark]
      exact ⟨_, _, _, hboth, .fails error (outline_of_find hn)⟩
  | _ => exact turns_stay trivial

/-- A frame that goes to the worker. -/
theorem turns_on_frame_ready (f : FrameId) :
    Turns w s (.FrameReady f) (exec (self.on_frame_ready f) s).2 := by
  cases hx : s.snapshots.last f with
  | none =>
    unfold SessionCheckpointer.on_frame_ready SessionCheckpointer.run_frame
    rw [exec_bind_error (exec_snapshots (SessionSnapshots.exec_latest_none hx))]
    exact turns_stay trivial
  | some x =>
    cases hn : s.frames.find f with
    | none =>
      unfold SessionCheckpointer.on_frame_ready SessionCheckpointer.run_frame logs_of
      rw [exec_bind_ok (exec_snapshots (SessionSnapshots.exec_latest hx)),
        exec_read_none (s := { s with snapshots := s.snapshots.insert x.ref ⟨x, false⟩ }) hn]
      exact turns_of_calm (QuietAct.read hx : QuietAct self s _).calm trivial
    | some n =>
      rw [exec_on_frame_ready self hx hn]
      obtain ⟨houtline, hnext, hlisteners, hstore, hofGraph⟩ :=
        draws_loaded (w := w) s f
      exact ⟨_, 0, [], ⟨houtline, hnext, hlisteners, hstore, hofGraph⟩, .rests trivial⟩

/-- A frame with a run is a node in a thread. -/
theorem thread_of_run (hs : Meets self w s) (hn : s.frames.find f = some n)
    (hrun : n.part.run ≠ none) :
    ∃ p m node_id, n.parent = some p ∧ s.frames.find p = some m ∧
      m.data = .GraphThread w.graph_ref ∧ f ∈ m.children ∧ n.data = .GraphNode w.graph_ref node_id := by
  have hno : ∀ kind, n.data = kind → kind.run n.status ≠ none := by
    rintro kind rfl
    exact hrun
  rcases hs.walking.stands f n.part (outline_of_find hn) with
    rfl | ⟨p, k, hparent, hk, hmem, ⟨hthread, -⟩ | ⟨hthread, ⟨node_id, hnode⟩ | ⟨join, hspan⟩⟩⟩
  · exact absurd rfl (hno _ (hs.walking.root_kind (outline_of_find hn)))
  · exact absurd rfl (hno _ hthread)
  · obtain ⟨m, hm, rfl⟩ := find_of_outline hk
    exact ⟨p, m, node_id, hparent, hm, hthread, hmem, hnode⟩
  · exact absurd rfl (hno _ hspan)

/-- The end of the run of a node that goes right. -/
theorem turns_on_frame_run_terminated (hs : Meets self w s)
    (hresult : ∀ k response, s.frames.outline f = some k → k.run = some (.RunCompleted response) →
      response.result.IsStep)
    (hgoes : ∀ n p node_id response, s.frames.find f = some n → n.parent = some p →
      n.data = .GraphNode w.graph_ref node_id → n.status = .RunCompleted response →
      Records self s f response ∧ GoesThrough self (s.loaded f) f n response.result ∧
        w.GoesRight s.frames.outline p node_id response.result) :
    Turns w s (.FrameRunTerminated f) (exec (self.on_frame_run_terminated f) s).2 := by
  cases hn : s.frames.find f with
  | none =>
    unfold SessionCheckpointer.on_frame_run_terminated
    rw [status_of, exec_read_none hn]
    refine turns_stay fun k response hk => ?_
    simp [outline, hn] at hk
  | some n =>
  by_cases hst : ∃ response, n.status = .RunCompleted response
  · obtain ⟨response, hst⟩ := hst
    obtain ⟨p, m, node_id, hparent, hm, hthread, hmem, hdata⟩ :=
      thread_of_run hs hn ((hs.ofGraph f n hn).runs response hst)
    obtain ⟨hrec, hgo, hright⟩ := hgoes n p node_id response hn hparent hdata hst
    have hrun : n.part.run = some (.RunCompleted response) := by
      simp [FrameNode.part, hdata, hst, FrameKind.run]
    have hrecord : Calm self s (exec (self.record_run f response) (s.loaded f)).2 :=
      (calm_record_run f response).run (calm_loaded s f)
    obtain ⟨s', hend, -⟩ := terminated_through hn hst
      (fun q hq => ⟨m, by rw [hparent] at hq; cases hq; exact hm⟩) hrec hgo
    rw [hend]
    rw [exec_terminated hn hst] at hend
    obtain ⟨u, s1, hfirst, hdispatch⟩ := exec_bind_eq_ok hend
    rw [hfirst] at hrecord
    have hquiet := hrecord.draws (w := w)
    have hstore := hquiet.storeless hs.store
    -- the record leaves the node and its thread where they are
    have hplace : ∀ {x : FrameId} {y : FrameNode}, s.frames.find x = some y →
        ∃ y', s1.frames.find x = some y' ∧ y'.part = y.part := fun hx =>
      find_of_outline (by rw [hquiet.outline, outline_of_find hx])
    obtain ⟨n1, hn1, hpart⟩ := hplace hn
    obtain ⟨m1, hm1, hmpart⟩ := hplace hm
    obtain ⟨c, hc, rfl⟩ := arena_of_find hstore hn1
    have hmrun : m.part.run = none := by simp [FrameNode.part, hthread, FrameKind.run]
    have hne : p ≠ f := by
      rintro rfl
      rw [hn] at hm
      cases hm
      rw [hdata] at hthread
      cases hthread
    have hstep := hresult n.part response (outline_of_find hn) hrun
    have hdraws := draws_dispatch (w := w) hstore hs.graph
      (hquiet.ofGraph hs.ofGraph) hc ((congrArg Part.kind hpart).trans hdata)
      ((congrArg Part.parent hpart).trans hparent) hm1 ((congrArg Part.run hmpart).trans hmrun) hne
      hstep (fun hcont => by
        rw [hcont] at hright
        exact hright) hdispatch
    rw [hquiet.outline, hquiet.next, Nat.add_zero] at hdraws
    exact ⟨_, _, _, hdraws.after hquiet, .walks (outline_of_find hn) hdata hrun hparent
      (outline_of_find hm) hthread hmem hright⟩
  · unfold SessionCheckpointer.on_frame_run_terminated
    rw [status_of, exec_read hn]
    split
    · rename_i response hcompleted
      exact absurd ⟨response, hcompleted⟩ hst
    · refine turns_load f fun k response hk hrun => hst ⟨response, ?_⟩
      rw [outline_of_find hn] at hk
      cases hk
      exact (eq_of_run hrun).symm

theorem turns_on_frame_terminated (f : FrameId) :
    Turns w s (.FrameTerminated f) (exec (SessionCheckpointer.on_frame_terminated f) s).2 := by
  unfold SessionCheckpointer.on_frame_terminated
  rw [exec_bind_ok (exec_frames (exec_asks _ s.frames))]
  cases hp : s.frames.parent_of f with
  | none => exact turns_stay trivial
  | some p =>
    obtain ⟨c, hc, hparent⟩ := Option.bind_eq_some_iff.mp hp
    exact ⟨_, _, _, draws_emits s [.ChildFrameTerminated p f],
      .tells (outline_of_find (find_of_arena hc)) hparent⟩

theorem turns_on_hitl_response (response : HitlResponse) (hstore : ∀ y, s.frames.store y = none) :
    Turns w s (.HitlAnswered response)
      (exec (SessionCheckpointer.on_hitl_response response.id response.answers) s).2 := by
  have hnone := get_frame_id_of_empty hstore response.id
  unfold SessionCheckpointer.on_hitl_response frame_id_bound_to_hitl_id
  rw [exec_bind_ok (exec_frames (exec_asks _ s.frames)), hnone]
  exact turns_stay trivial

/-! ### Joins -/

/-- From `s`, the container `p` has at most told other frames. -/
def Tells (w : Walk) (s : State) (p : FrameId) (s' : State) : Prop :=
  ∃ sent, Draws w s s' s.frames.outline 0 sent ∧ ∀ event ∈ sent, Upward s.frames.outline p event

theorem tells_calm {α : Type} {m : Ckp α} {Q : α → Prop} (self : SessionCheckpointer)
    (h : ∀ s, Keeps (Calm self s) m Q) : Keeps (Tells w s p) m Q := by
  rintro s' ⟨sent, hdraws, hsent⟩
  have hcalm := (h s').run (.refl s')
  exact ⟨⟨sent, hdraws.before hcalm.draws, hsent⟩, (h s' s' (.refl s')).2⟩

/-- A mark of a container, with what it sends upwards. -/
theorem Tells.mark {status : FrameStatus} {events : List SessionCheckpointEvent}
    (h : Tells w s p s') (hplain : ∀ k, s.frames.outline p = some k → k.run = none)
    (hn : s'.frames.find p = some n) (hstatus : ∀ response, status ≠ .RunCompleted response)
    (hevents : ∀ event ∈ events, Upward s'.frames.outline p event) :
    Tells w s p ((s'.marked p status).emits events) := by
  obtain ⟨sent, hdraws, hsent⟩ := h
  have hfair : Fair s' p status := fun response hr => absurd hr (hstatus response)
  have hmark := draws_mark (w := w) hn hfair events
  rw [mark_plain (by rw [hdraws.outline]; exact hplain)] at hmark
  have hall := hdraws.trans hmark
  rw [hdraws.outline] at hall hevents
  exact ⟨_, hall, fun event he => (List.mem_append.mp he).elim (hsent event) (hevents event)⟩

theorem tells_mark_ready (hplain : ∀ k, s.frames.outline p = some k → k.run = none) :
    Keeps (Tells w s p) (mark_ready_to_run_frame p) (fun _ => True) := by
  refine fun s' hs' => ⟨?_, fun _ _ => trivial⟩
  cases hn : s'.frames.find p with
  | none =>
    unfold mark_ready_to_run_frame
    rw [exec_bind_error (exec_set_status_none hn _)]
    exact hs'
  | some n =>
    rw [exec_mark_ready hn]
    exact hs'.mark hplain hn (fun _ h => by cases h) (by simp [Upward])

theorem tells_mark_failed (hplain : ∀ k, s.frames.outline p = some k → k.run = none) (err : String) :
    Keeps (Tells w s p) (mark_failed_frame err p) (fun _ => True) := by
  refine fun s' hs' => ⟨?_, fun _ _ => trivial⟩
  cases hn : s'.frames.find p with
  | none =>
    unfold mark_failed_frame
    rw [exec_bind_error (exec_set_status_none hn _)]
    exact hs'
  | some n =>
    rw [exec_mark_failed hn]
    exact hs'.mark hplain hn (fun _ h => by cases h) (by simp [Upward])

theorem tells_mark_completed (hplain : ∀ k, s.frames.outline p = some k → k.run = none) :
    Keeps (Tells w s p) (mark_completed_frame p) (fun _ => True) := by
  refine fun s' hs' => ⟨?_, fun _ _ => trivial⟩
  cases hn : s'.frames.find p with
  | none =>
    unfold mark_completed_frame
    rw [exec_bind_error (exec_set_status_none hn _)]
    exact hs'
  | some n =>
    rw [exec_mark_completed hn]
    refine hs'.mark hplain hn (fun _ h => by cases h) fun event he => ?_
    rcases List.mem_cons.mp he with rfl | hmem
    · exact rfl
    · obtain ⟨q, hq, rfl⟩ : ∃ q, n.parent = some q ∧ .ChildFrameTerminated q p = event := by
        simpa using hmem
      exact ⟨rfl, n.part, outline_of_find hn, hq⟩

theorem tells_resume_frame (hplain : ∀ k, s.frames.outline p = some k → k.run = none) :
    Keeps (Tells w s p) (SessionCheckpointer.resume_frame p) (fun _ => True) := by
  unfold SessionCheckpointer.resume_frame
  refine (tells_calm (plain true) fun _ => calm_on_resume_policy p).andThen fun policy => ?_
  split
  · exact tells_mark_ready hplain
  · exact tells_mark_completed hplain

/-- A container that is told of a child tells at most other frames. -/
theorem turns_on_child_frame_terminated
    (hplain : ∀ k, s.frames.outline p = some k → k.run = none) :
    Turns w s (.ChildFrameTerminated p c) (exec (self.on_child_frame_terminated p c) s).2 := by
  have hturns : ∀ s', Tells w s p s' → Turns w s (.ChildFrameTerminated p c) s' := by
    rintro s' ⟨sent, hdraws, hsent⟩
    exact ⟨_, _, _, hdraws, .resumes hplain hsent⟩
  have hloaded : ∀ t, Loaded s.frames t → Tells w s p { s with frames := t } := fun t ht =>
    ⟨[], (QuietAct.load ht : QuietAct self s { s with frames := t }).draws, by simp⟩
  rcases child_terminated_cases self s p c with
    ⟨e, t, ht, hr⟩ | ⟨t, cp, ht, -, -, ⟨-, err, hr⟩ | ⟨-, -, hr⟩ | ⟨-, -, -, hr⟩ | ⟨-, -, hr⟩⟩
  all_goals rw [hr]
  · exact hturns _ (hloaded t ht)
  · exact hturns _ ((tells_mark_failed hplain err).run (hloaded t ht))
  · refine hturns _ (Keeps.run (Q := fun _ => True) ?_ (hloaded t ht))
    unfold SessionCheckpointer.join_sequential
    refine (tells_calm self fun _ => calm_read p _).andThen fun last => ?_
    split
    · exact tells_mark_ready hplain
    · exact (tells_calm self fun _ => calm_join_last_child p _).andThen fun _ =>
        tells_resume_frame hplain
  · refine hturns _ (Keeps.run (Q := fun _ => True) ?_ (hloaded t ht))
    unfold SessionCheckpointer.join_fan_in
    exact (tells_calm self fun _ => calm_join_children p).andThen fun _ => tells_resume_frame hplain
  · exact hturns _ (hloaded t ht)

end Handlers

end marie.session
