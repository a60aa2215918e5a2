-- The answers to the requests of the nodes. A run of a node that asks for
-- experts, tools or a graph leaves an entry in its log, and frames are made for
-- it. The container of the tools and that of the graph resume by a run that the
-- worker does not know, and an expert is of no kind that an entry takes its
-- value from. So the entry stays without a value.
import Marie.Session.NewFrames

namespace marie.session

open Program FrameTree

/-! ## The log of a node -/

section Logs

variable {self : SessionCheckpointer} {s s' s'' : State} {f p x : FrameId} {n : FrameNode}
  {S : FrameId → Prop}

/-- From `s` to `s'`, the logs only grow. -/
def LogsGrow (s s' : State) : Prop :=
  ∀ x n, s.frames.find x = some n → ∃ n', s'.frames.find x = some n' ∧ n.logs <+: n'.logs

theorem LogsGrow.refl (s : State) : LogsGrow s s := fun _ n hn => ⟨n, hn, List.prefix_refl _⟩

theorem LogsGrow.trans (h : LogsGrow s s') (h' : LogsGrow s' s'') : LogsGrow s s'' := by
  intro x n hn
  obtain ⟨n', hn', hlogs⟩ := h x n hn
  obtain ⟨n'', hn'', hlogs'⟩ := h' x n' hn'
  exact ⟨n'', hn'', hlogs.trans hlogs'⟩

theorem Within.logsGrow (h : Within s.frames.next S noFrame s s') : LogsGrow s s' := by
  intro x n hn
  obtain ⟨n', hn', hk⟩ := h.frames.node x n hn
  have hsame := (hk (id_lt_next hn)).logs id
  exact ⟨n', hn', hsame ▸ List.prefix_refl _⟩

theorem logsGrow_append_logs (f : FrameId) (logs : List RunLog) :
    LogsGrow s (exec (frames (append_logs f logs)) s).2 := by
  unfold append_logs
  split
  · exact .refl s
  · cases hf : s.frames.find f with
    | none =>
      rw [exec_frames (exec_write_none hf)]
      exact .refl s
    | some m =>
      rw [exec_frames (exec_write hf)]
      intro x n hn
      have hfind := find_write (f := fun n => { n with logs := n.logs ++ logs }) hf x
      by_cases hx : x = f
      · subst hx
        rw [hf] at hn
        cases hn
        exact ⟨_, by rw [hfind, if_pos rfl], List.prefix_append _ _⟩
      · exact ⟨n, by rw [hfind, if_neg hx, hn], List.prefix_refl _⟩

/-- The record of a run adds its entries at the end. -/
theorem logsGrow_record_run (f : FrameId) (response : FrameResponse) :
    LogsGrow s (exec (self.record_run f response) s).2 := by
  have hcommit : Keeps (Within s.frames.next noFrame noFrame s) (self.commit_updates f response.updates)
      (fun _ => True) := by
    unfold SessionCheckpointer.commit_updates
    split
    · exact keeps_pure trivial
    · refine (within_snapshots _).andThen fun x => ?_
      exact (SessionCheckpointer.within_commit_snapshot _ _ _ _).andThen fun _ => keeps_pure trivial
  unfold SessionCheckpointer.record_run
  refine hcommit.before (fun _ hs => hs.logsGrow) (fun _ _ s' hs => hs.logsGrow.trans ?_) s
    (.refl (Nat.le_refl _))
  split
  · exact .refl s'
  · exact logsGrow_append_logs f _

theorem logsGrow_on_frame_run_terminated (f : FrameId) :
    LogsGrow s (exec (self.on_frame_run_terminated f) s).2 := by
  have hload : LogsGrow s (s.loaded f) :=
    Within.logsGrow (S := noFrame) (within_loaded (Nat.le_refl _) f)
  unfold SessionCheckpointer.on_frame_run_terminated
  cases hn : s.frames.find f with
  | none =>
    rw [status_of, exec_read_none hn]
    exact .refl s
  | some n =>
    rw [status_of, exec_read hn]
    split
    · rename_i response hst
      obtain ⟨c, hc, rfl⟩ := resident_load hn
      refine hload.trans ?_
      have hrecord : LogsGrow (s.loaded f) (exec (self.record_run f response) (s.loaded f)).2 :=
        logsGrow_record_run f response
      have hwithin : Within s.frames.next everyFrame everyFrame (s.loaded f)
          (exec (self.record_run f response) (s.loaded f)).2 :=
        (within_record_run trivial response).run (.refl (Nat.le_refl _))
      rw [exec_bind]
      rcases hr : exec (self.record_run f response) (s.loaded f) with ⟨r, s'⟩
      rw [hr] at hrecord hwithin
      cases r with
      | error e => exact hrecord
      | ok a =>
        obtain ⟨c', hc'⟩ := hwithin.frames.resident f c hc
        refine hrecord.trans (Within.logsGrow (S := everyFrame) ?_)
        exact (within_dispatch (s := s') hc' (id_lt_next (find_of_arena hc')) trivial
          fun _ _ _ => trivial).run (.refl (Nat.le_refl _))
    · exact hload

/-! ### Joins that answer nothing -/

/-- The frame is of a kind that answers no entry. -/
def FrameNode.AnswersNothing (n : FrameNode) : Prop := n.spec_ref = .Expert ∨ n.spec_ref = .ToolCall

/-- The read of a field that a frame keeps. -/
theorem within_read_kept {α : Type} {b : Nat} {L : FrameId → Prop} {φ : FrameNode → α}
    (hn : s.frames.find x = some n) (hlt : x.id < b)
    (hφ : ∀ n', Kept (S x) (L x) n n' → φ n' = φ n) :
    Keeps (Within b S L s) (frames (do pure (φ (← FrameTree.get x)))) (fun a => a = φ n) := by
  refine fun s' hs => ⟨(within_frames (evolves_read x φ)).run hs, fun a ha => ?_⟩
  obtain ⟨n', hn', hk⟩ := hs.frames.node x n hn
  rw [exec_frames (exec_get_map _ hn')] at ha
  cases ha
  exact hφ n' (hk hlt)

theorem within_resolve_nothing {b : Nat} (p : FrameId) (relevants : List FrameId)
    (h : ∀ x ∈ relevants, x.id < b ∧ ∃ n, s.frames.find x = some n ∧ n.AnswersNothing) :
    Keeps (Within b S noFrame s) (self.resolve_pending_log p relevants) (fun _ => True) := by
  unfold SessionCheckpointer.resolve_pending_log
  refine (within_frames (evolves_read p _)).andThen fun o => ?_
  split
  · rename_i pending
    induction relevants with
    | nil => exact keeps_pure trivial
    | cons x relevants ih =>
      obtain ⟨hlt, n, hn, hkind⟩ := h x (by simp)
      unfold SessionCheckpointer.resolve_from
      refine (within_read_kept hn hlt fun _ hk => hk.spec_ref).bind fun spec_ref hr => ?_
      refine (within_snapshots _).andThen fun snapshot => ?_
      refine Keeps.bind (Q := fun o => o = none) ?_ fun o ho => ?_
      · unfold SessionCheckpointer.resolved_by
        subst hr
        rcases hkind with hkind | hkind <;> rw [hkind] <;> split <;> first | exact keeps_pure rfl | contradiction
      · subst ho
        exact ih fun y hy => h y (by simp [hy])
  · exact keeps_pure trivial

/-- The children of `p` that have completed answer nothing. -/
def AnsweredByNone (t : FrameTree) (p : FrameId) : Prop :=
  ∀ x ∈ t.childrenAt p, ∃ n, t.find x = some n ∧ (n.status = .Completed → n.AnswersNothing)

theorem logsGrow_join_last_child (p : FrameId)
    (hn : s.frames.find x = some n) (h : n.status = .Completed → n.AnswersNothing) :
    LogsGrow s (exec (self.join_last_child p x) s).2 := by
  have hlt := id_lt_next hn
  refine Within.logsGrow (S := noFrame) (Keeps.run (Q := fun _ => True) ?_ (.refl (Nat.le_refl _)))
  unfold SessionCheckpointer.join_last_child
  refine (within_read_kept hn hlt fun _ hk => hk.status id).bind fun status hst => ?_
  subst hst
  split
  · rename_i hst
    unfold SessionCheckpointer.commit_last_child
    refine (within_snapshots _).andThen fun y => (within_snapshots _).andThen fun z => ?_
    refine (SessionCheckpointer.within_drain_pending_accumulators _ _).andThen fun updates => ?_
    refine (SessionCheckpointer.within_commit_snapshot _ _ _ _).andThen fun _ => ?_
    refine within_resolve_nothing p [x] fun y hy => ?_
    rw [List.mem_singleton.mp hy]
    exact ⟨hlt, n, hn, h hst⟩
  · exact keeps_pure trivial

theorem logsGrow_join_children {c : FrameNodeContainer} (hp : s.frames.arena p = some c)
    (h : AnsweredByNone s.frames p) : LogsGrow s (exec (self.join_children p) s).2 := by
  unfold SessionCheckpointer.join_children
  have hlatest : Keeps (fun s' => Within s.frames.next noFrame noFrame s s' ∧ s'.frames = s.frames)
      (snapshots (SessionSnapshots.latest p)) (fun _ => True) :=
    fun s' hs => ⟨⟨(within_snapshots _).run hs.1, hs.2⟩, fun _ _ => trivial⟩
  refine hlatest.before (fun s' hs => hs.1.logsGrow) (fun y _ s' hs => ?_) s
    ⟨.refl (Nat.le_refl _), rfl⟩
  have hchildren : s'.frames.iter_children_of p = s.frames.childrenAt p := by
    rw [hs.2]
    simp [iter_children_of, hp, childrenAt, find_of_arena hp]
  rw [exec_bind_ok (exec_frames (exec_asks _ s'.frames)), hchildren]
  refine Within.logsGrow (S := noFrame) (Keeps.run (Q := fun _ => True) ?_ hs.1)
  have hdone : Keeps (Within s.frames.next noFrame noFrame s)
      ((s.frames.childrenAt p).filterM fun child_id => do
        pure (← frames (status_of child_id)).has_completed)
      (fun ys => ∀ y ∈ ys, y ∈ s.frames.childrenAt p ∧
        ∃ n, s.frames.find y = some n ∧ n.status = .Completed) := by
    refine keeps_filterM_mem _ fun x hx => ?_
    obtain ⟨n, hn, -⟩ := h x hx
    refine (within_read_kept hn (id_lt_next hn) fun _ hk => hk.status id).bind fun status hst => ?_
    subst hst
    refine keeps_pure fun hcompleted => ⟨n, hn, ?_⟩
    cases hst : n.status <;> simp [hst, FrameStatus.has_completed] at hcompleted ⊢
  refine hdone.bind fun relevants hrelevants => ?_
  refine (keeps_mapM relevants fun y _ => ?_).andThen fun sources => ?_
  · exact (within_snapshots _).andThen fun _ => keeps_pure trivial
  refine (SessionCheckpointer.within_drain_pending_accumulators _ _).andThen fun updates => ?_
  refine (SessionCheckpointer.within_commit_snapshot _ _ _ _).andThen fun _ => ?_
  refine within_resolve_nothing p relevants fun y hy => ?_
  obtain ⟨hmem, n, hn, hst⟩ := hrelevants y hy
  obtain ⟨n', hn', hkind⟩ := h y hmem
  rw [hn] at hn'
  cases hn'
  exact ⟨id_lt_next hn, n, hn, hkind hst⟩

theorem logsGrow_resume_frame (p : FrameId) :
    LogsGrow s (exec (SessionCheckpointer.resume_frame p) s).2 := by
  refine Within.logsGrow (S := everyFrame) (Keeps.run (Q := fun _ => True) ?_ (.refl (Nat.le_refl _)))
  exact SessionCheckpointer.within_resume_frame trivial

/-- A program that lets the logs grow, and then another one. -/
theorem LogsGrow.bind {α β : Type} {m : Ckp α} {k : α → Ckp β} (h : LogsGrow s (exec m s).2)
    (hk : ∀ a s', LogsGrow s' (exec (k a) s').2) : LogsGrow s (exec (m >>= k) s).2 := by
  rw [exec_bind]
  rcases hr : exec m s with ⟨r, s'⟩
  rw [hr] at h
  cases r with
  | error e => exact h
  | ok a => exact h.trans (hk a s')

/-- A frame whose children answer nothing resumes with the log that it had. -/
theorem logsGrow_on_child_frame_terminated (p c : FrameId) (h : AnsweredByNone s.frames p) :
    LogsGrow s (exec (self.on_child_frame_terminated p c) s).2 := by
  have hloaded : ∀ t, Loaded s.frames t →
      Within s.frames.next everyFrame noFrame s { s with frames := t } :=
    fun t ht => within_of_loaded (Nat.le_refl _) ht
  rcases child_terminated_cases self s p c with
    ⟨e, t, ht, hr⟩ | ⟨t, cp, ht, hfind, hcp, hcase⟩
  · rw [hr]
    exact (hloaded t ht).logsGrow
  · have hnone : AnsweredByNone t p := by
      intro x hx
      rw [ht.childrenAt] at hx
      rw [ht.find]
      exact h x hx
    rcases hcase with ⟨-, err, hr⟩ | ⟨-, -, hr⟩ | ⟨-, -, -, hr⟩ | ⟨-, -, hr⟩
    all_goals rw [hr]
    · exact Within.logsGrow ((within_mark_failed_frame trivial err).run (hloaded t ht))
    · have hn : t.find p = some cp.node := find_of_arena hcp
      have hlast : exec (frames (last_child_of p)) { s with frames := t } =
          (.ok cp.node.children.getLast?, { s with frames := t.load p }) :=
        exec_frames (exec_get_map _ hn)
      have hload : Loaded t (t.load p) := (Loaded.refl t).load p
      unfold SessionCheckpointer.join_sequential
      rw [exec_bind_ok hlast]
      have hmark : ∀ s' : State, LogsGrow s' (exec (mark_ready_to_run_frame p) s').2 := fun s' =>
        Within.logsGrow ((within_mark_ready_to_run_frame (S := everyFrame) trivial).run
          (.refl (Nat.le_refl _)))
      cases hch : cp.node.children.getLast? with
      | none => exact (hloaded _ (ht.load p)).logsGrow.trans (hmark _)
      | some x =>
        have hx : x ∈ t.childrenAt p := by
          simp [childrenAt, hn, List.mem_of_getLast? hch]
        obtain ⟨m, hm, hkind⟩ := hnone x hx
        refine (hloaded _ (ht.load p)).logsGrow.trans (LogsGrow.bind ?_ fun _ _ => logsGrow_resume_frame p)
        exact logsGrow_join_last_child p ((hload.find x).trans hm) hkind
    · refine (hloaded t ht).logsGrow.trans (LogsGrow.bind ?_ fun _ _ => logsGrow_resume_frame p)
      exact logsGrow_join_children hcp hnone
    · exact (hloaded t ht).logsGrow

end Logs

/-! ## Containers that never complete -/

/-- A run of the frame has completed. -/
def FrameStatus.has_run : FrameStatus → Bool
  | .RunCompleted _ | .Completed => true
  | _ => false

/-- A session whose worker completes the runs of executable frames alone. -/
structure Stalled (s : State) : Prop where
  laid : Laid s.frames
  empty : ∀ x, s.frames.store x = none
  queued : ∀ f response, .FrameRunJobStateUpdate f (.Completed response) ∈ s.listeners →
    s.frames.Runs f
  stalls : ∀ x n, s.frames.find x = some n → n.Stalls → n.status.has_run = false

section Stalled

variable {self : SessionCheckpointer} {decode : Value → Except String FrameResponse}
  {x : RunningSession} {s : State} {f p : FrameId} {n : FrameNode} {index : Nat}
  {event : SessionCheckpointEvent}

theorem not_executable_of_stalls (h : n.Stalls) : ¬ n.data.is_executable := by
  obtain ⟨hkind, -⟩ := h
  cases hdata : n.data <;> simp [hdata, FrameKind.is_container, FrameKind.is_executable] at hkind ⊢

/-- No event marks a container that stalls as one that has run. -/
theorem not_marks_of_stalls (hs : Stalled s)
    (hjob : ∀ response, event = .FrameRunJobStateUpdate f (.Completed response) → s.frames.Runs f)
    (hf : ∀ n, s.frames.find f = some n → n.Stalls) {status : FrameStatus}
    (hM : Marks s event f status) : status.has_run = false := by
  cases event with
  | FrameCreated g =>
    rcases hM with ⟨-, rfl⟩ | ⟨rfl, n, -, -, ⟨rfl, -⟩ | ⟨rfl, -⟩⟩ <;> rfl
  | HitlAnswered response =>
    obtain ⟨-, rfl, -⟩ := hM
    rfl
  | FrameRunJobStateUpdate g job_state =>
    rcases hM with ⟨rfl, ⟨response, rfl, -⟩ | ⟨error, -, rfl⟩⟩
    · obtain ⟨n, hn, hruns⟩ := hjob response rfl
      exact absurd hruns (not_executable_of_stalls (hf n hn))
    · rfl
  | FrameRunTerminated g =>
    rcases hM with ⟨-, rfl⟩ | ⟨n, response, hn, hst, hM⟩
    · rfl
    · have hother : f ≠ g := by
        rintro rfl
        have hrun := hs.stalls f n hn (hf n hn)
        rw [hst] at hrun
        cases hrun
      cases hresult : response.result <;> simp [hresult, MarksAfter, hother] at hM
      obtain ⟨-, rfl⟩ := hM
      rfl
  | ChildFrameTerminated q c =>
    rcases hM with ⟨rfl, ⟨-, err, rfl⟩ | ⟨-, n, hn, -, ⟨rfl, -⟩ | ⟨-, hpol⟩⟩⟩
    · rfl
    · rfl
    · rw [(hf n hn).2] at hpol
      cases hpol
  | _ => exact hM.elim

/-- A session with an event less is still stalled. -/
theorem Stalled.taken (hs : Stalled s) (index : Nat) : Stalled (s.taken index) :=
  ⟨hs.laid, hs.empty, fun f response h => hs.queued f response (List.mem_of_mem_eraseIdx h), hs.stalls⟩

theorem stalled_step (hs : Stalled x.state) (he : x.state.listeners[index]? = some event) :
    Stalled (self.step (x.state.taken index) event) := by
  have hs' := hs.taken index
  have hevolves := step_evolves self (x.state.taken index) event
  obtain ⟨s', status, dispatched, hacts, hstep, -⟩ := step_acts self (x.state.taken index) event
  refine ⟨hs'.laid.adds (adds_step self hs'.laid event), fun y => ?_, fun f response hmem => ?_,
    fun y n hn hstalls => ?_⟩
  · rw [hevolves.store]
    exact hs'.empty y
  · rw [hstep] at hmem ⊢
    rcases hacts.event hmem with hold | hnotice | ⟨g, parent, status, hM, hsent⟩
    · exact hacts.runs (hs'.queued f response hold)
    · exact hnotice.elim
    · cases status <;> simp [FrameStatus.announces] at hsent
  · rw [hstep] at hn
    -- the frame was of the same kind before
    have hbefore : ∀ m, (x.state.taken index).frames.find y = some m → m.Stalls := by
      intro m hm
      obtain ⟨n', hn', hk⟩ := hacts.found hm
      rw [hn] at hn'
      cases hn'
      unfold FrameNode.Stalls
      rw [← hk.data, ← hk.frame_policy]
      exact hstalls
    rcases hacts.status hn with hnew | ⟨m, hm, hsame⟩ | ⟨hM, -⟩
    · rw [hnew]
      rfl
    · rw [hsame]
      exact hs'.stalls y m hm (hbefore m hm)
    · refine not_marks_of_stalls hs' (fun response hr => ?_) hbefore hM
      subst hr
      exact hs.queued y response (List.mem_of_getElem? he)

/-! ### The entries of a node -/

/-- The children of a node that have completed are experts and calls of tools. -/
theorem Stalled.answeredByNone (hs : Stalled s) (hn : s.frames.find p = some n)
    (hnode : n.data.is_node) : AnsweredByNone s.frames p := by
  intro c hc
  have hmem : c ∈ n.children := by simpa [childrenAt, hn] using hc
  obtain ⟨m, hm, hparent⟩ := hs.laid.linked.children p n hn c hmem
  have husual := hs.laid.usual c m p hm hparent
  refine ⟨m, hm, fun hst => ?_⟩
  rcases husual.kind with hkind | hkind | hkind | hkind
  · exact .inl hkind
  · exact .inr hkind
  · have hrun := hs.stalls c m hm ⟨hkind, husual.resumes⟩
    rw [hst] at hrun
    cases hrun
  · obtain ⟨k, hk, hplain⟩ := hs.laid.placed c m p hm hkind hparent
    rw [hn] at hk
    cases hk
    exact absurd hnode hplain

/-- An event leaves the entries of a node as they are. -/
theorem logs_step (self : SessionCheckpointer) (hs : Stalled s) (event : SessionCheckpointEvent)
    (hn : s.frames.find f = some n) (hnode : n.data.is_node) :
    ∃ n', (self.step s event).frames.find f = some n' ∧ n.logs <+: n'.logs := by
  obtain ⟨status, hstep⟩ := step_eq self s event
  have hgrow : LogsGrow s (exec (self.on_event event) s).2 →
      ∃ n', (self.step s event).frames.find f = some n' ∧ n.logs <+: n'.logs := by
    rw [hstep]
    exact fun h => h f n hn
  by_cases hlogs : LogsOn s event f
  · cases event with
    | HitlAnswered response =>
      have hbound : s.frames.get_frame_id_by_hitl_id response.id = some f := hlogs
      rw [get_frame_id_of_empty hs.empty] at hbound
      cases hbound
    | FrameRunTerminated g => exact hgrow (logsGrow_on_frame_run_terminated g)
    | ChildFrameTerminated q c =>
      obtain rfl : f = q := hlogs
      exact hgrow (logsGrow_on_child_frame_terminated f c (hs.answeredByNone hn hnode))
    | _ => exact hlogs.elim
  · obtain ⟨n', hn', hk⟩ := (step_evolves self s event).node f n hn
    have hsame := (hk (id_lt_next hn)).logs hlogs
    exact ⟨n', hn', hsame ▸ List.prefix_refl _⟩

end Stalled

/-! ## Suspensions -/

/-- The results that leave an entry in the log, and make frames for it. -/
def FrameResult.suspends : FrameResult → Bool
  | .ConsultExperts _ | .CallTools _ | .ExecuteGraph _ => true
  | _ => false

def FrameResult.consults : FrameResult → Bool
  | .ConsultExperts _ => true
  | _ => false

/-- A run of a node that stopped at a request: the entry of the log that waits for the answer,
and the frames that were made for it. -/
structure Suspension where
  node : FrameId
  entry : Nat
  request : FrameResult
  frames : List FrameId

/-- The frames that were made on the way from `s` to `s'`, in order. -/
def madeBetween (s s' : State) : List FrameId :=
  (List.range' s.frames.next (s'.frames.next - s.frames.next)).map FrameId.mk

/-- The suspension that an event handles, when it leads from `s` to `s'`. -/
def suspensionBetween (s s' : State) : SessionCheckpointEvent → Option Suspension
  | .FrameRunTerminated f => do
    let n ← s.frames.find f
    let n' ← s'.frames.find f
    let entry ← n'.logs.getLast?
    match n.status with
    | .RunCompleted response =>
      if n.data.is_node && response.result.suspends && entry.value.isNone then
        some ⟨f, n'.logs.length - 1, response.result, madeBetween s s'⟩
      else none
    | _ => none
  | _ => none

/-- The value of a channel in the last snapshot of a frame. -/
def resultOf (s : State) (name : ChannelName) (f : FrameId) : Option Value :=
  (s.snapshots.last f).bind (·.channels.get name)

/-- The value of the entry of a suspension. -/
def Suspension.value (x : Suspension) (s : State) : Option Value := do
  let n ← s.frames.find x.node
  let entry ← n.logs[x.entry]?
  entry.value

/-- All the frames of a suspension are completed, and no event that tells of it is left. -/
structure Suspension.Over (x : Suspension) (s : State) : Prop where
  completed : ∀ f ∈ x.frames, s.frames.statusIs FrameStatus.has_completed f
  told : ∀ f ∈ x.frames, .FrameTerminated f ∉ s.listeners ∧
    ∀ p, .ChildFrameTerminated p f ∉ s.listeners

/-- What the frames of a suspension answer: the results of the experts or of the calls in the
order of the requests, or what the frame of the graph exports. -/
def Suspension.answer (ckp : SessionCheckpointer) (x : Suspension) (s : State) : Option Value :=
  match x.request, x.frames with
  | .ConsultExperts _, experts =>
    (experts.mapM (resultOf s "expert_consultation_answer")).map .Array
  | .CallTools _, _ :: calls => (calls.mapM (resultOf s "tool_result")).map .Array
  | .ExecuteGraph _, [graph] => do
    let sub_spec ← spec_at ckp.graphs s.frames graph
    let snapshot ← s.snapshots.last graph
    pure (exported_object sub_spec snapshot.channels)
  | _, _ => none

/-- The entry of a suspension has a value once all its frames are over, and never another one
than what they answer. -/
structure Answered (ckp : SessionCheckpointer) (s : State) (x : Suspension) : Prop where
  resolved : x.Over s → (x.value s).isSome
  own : ∀ v, x.value s = some v → x.answer ckp s = some v

namespace SessionCheckpointer

variable (self : SessionCheckpointer) (decode : Value → Except String FrameResponse)

/-- The suspension that a move handles. -/
def suspended (x : RunningSession) : SystemMove → Option Suspension
  | .event index => (x.state.listeners[index]?).bind fun event =>
    suspensionBetween (x.state.taken index) (self.step (x.state.taken index) event) event
  | _ => none

/-- The suspensions of a run, in order. -/
def suspensions (x : RunningSession) : List SystemMove → List Suspension
  | [] => []
  | move :: moves =>
    (self.suspended x move).toList ++
      if self.stops x move then [] else suspensions (self.next decode x move) moves

end SessionCheckpointer

/-- The worker completes the runs of experts, tools and nodes alone. -/
def CompletesExecutables (x : RunningSession) : SystemMove → Prop
  | .report index (.Completed _) => ∀ f, x.jobs[index]? = some f → x.state.frames.Runs f
  | _ => True

/-! ## Suspensions that stay open -/

/-- The entry of a suspension has no value, and a frame that was made for tools or for a graph
is a container that resumes by a run. -/
structure Suspension.Open (x : Suspension) (s : State) : Prop where
  entry : ∃ n e, s.frames.find x.node = some n ∧ n.data.is_node ∧ n.logs[x.entry]? = some e ∧
    e.value = none
  held : x.request.consults = false → x.frames ≠ [] →
    ∃ f ∈ x.frames, ∃ n, s.frames.find f = some n ∧ n.Stalls

section Open

variable {self : SessionCheckpointer} {decode : Value → Except String FrameResponse}
  {s s' : State} {f : FrameId} {n : FrameNode} {event : SessionCheckpointEvent}
  {susp : Suspension}

theorem Suspension.Open.value (h : susp.Open s) : susp.value s = none := by
  obtain ⟨n, e, hn, -, he, hv⟩ := h.entry
  simp [Suspension.value, hn, he, hv]

/-- A frame that stalls never completes. -/
theorem Suspension.Open.not_over (h : susp.Open s) (hs : Stalled s)
    (hkind : susp.request.consults = false) (hmade : susp.frames ≠ []) : ¬ susp.Over s := by
  intro hover
  obtain ⟨f, hf, n, hn, hstalls⟩ := h.held hkind hmade
  have hcompleted := hover.completed f hf
  have hrun := hs.stalls f n hn hstalls
  simp only [statusIs, hn, Option.map_some, Option.getD_some] at hcompleted
  cases hst : n.status <;> simp [hst, FrameStatus.has_completed, FrameStatus.has_run] at hcompleted hrun

/-- What is open is answered just when its frames are not over. -/
theorem Suspension.Open.answered_iff (h : susp.Open s) (hs : Stalled s) :
    Answered self s susp ↔
      ¬ (susp.Over s ∧ (susp.request.consults = true ∨ susp.frames = [])) := by
  have hvalue := h.value
  constructor
  · rintro hanswered ⟨hover, -⟩
    have hsome := hanswered.resolved hover
    rw [hvalue] at hsome
    cases hsome
  · intro hno
    refine ⟨fun hover => ?_, fun v hv => ?_⟩
    · refine absurd hover (h.not_over hs ?_ ?_)
      · cases hc : susp.request.consults with
        | false => rfl
        | true => exact absurd ⟨hover, .inl hc⟩ hno
      · intro hnil
        exact hno ⟨hover, .inr hnil⟩
    · rw [hvalue] at hv
      cases hv

/-- An event leaves a suspension open. -/
theorem Suspension.Open.step (h : susp.Open s) (hs : Stalled s) (event : SessionCheckpointEvent) :
    susp.Open (self.step s event) := by
  have hevolves := step_evolves self s event
  refine ⟨?_, fun hkind hmade => ?_⟩
  · obtain ⟨n, e, hn, hnode, he, hv⟩ := h.entry
    obtain ⟨n', hn', hlogs⟩ := logs_step self hs event hn hnode
    obtain ⟨n'', hn'', hk⟩ := hevolves.node susp.node n hn
    rw [hn'] at hn''
    cases hn''
    refine ⟨n', e, hn', by rw [(hk (id_lt_next hn)).data]; exact hnode, ?_, hv⟩
    obtain ⟨rest, hrest⟩ := hlogs
    rw [← hrest, List.getElem?_append_left (List.getElem?_eq_some_iff.mp he).1]
    exact he
  · obtain ⟨f, hf, n, hn, hdata, hpolicy⟩ := h.held hkind hmade
    obtain ⟨n', hn', hk⟩ := hevolves.node f n hn
    refine ⟨f, hf, n', hn', ?_, ?_⟩
    · rw [(hk (id_lt_next hn)).data]
      exact hdata
    · rw [(hk (id_lt_next hn)).frame_policy]
      exact hpolicy

/-- The dispatch of tools or of a graph makes no frame, or a container first. -/
theorem first_dispatch {result : FrameResult} (hl : s.frames.Linked)
    (hn : s.frames.find f = some n) (hsuspends : result.suspends)
    (hkind : result.consults = false) :
    (exec (self.dispatch f result) s).2.frames.next = s.frames.next ∨
      FirstStalls s (exec (self.dispatch f result) s).2 := by
  have hwait : ∀ s' : State, s'.frames.Linked → Adds s' (exec (mark_as_waiting_children f) s').2 :=
    fun s' hl' => (adds_mark_as_waiting_children f).run (.refl hl')
  unfold SessionCheckpointer.dispatch
  cases result with
  | CallTools requests =>
    obtain ⟨hadds, hfirst⟩ := @adds_append_tool_calls self s f n hl hn requests
    right
    rw [exec_bind]
    rcases hr : exec (self.append_tool_calls f requests) s with ⟨r, s'⟩
    rw [hr] at hadds hfirst
    cases r with
    | error e => exact hfirst
    | ok agg =>
      refine hfirst.adds (Keeps.run (Q := fun _ => True) ?_ (.refl hadds.linked))
      refine (keeps_unpolled _).andThen fun _ => ?_
      exact (adds_of_calm self fun _ => calm_set_reduce_policy _ _).andThen fun _ =>
        adds_mark_as_waiting_children f
  | ExecuteGraph graph_id =>
    rcases @adds_append_graph self s f n hl hn graph_id with ⟨e, hr⟩ | ⟨hadds, hfirst⟩
    · left
      simp only
      rw [exec_bind_error hr]
    · right
      simp only
      rw [exec_bind]
      rcases hr : exec (self.append_graph f graph_id) s with ⟨r, s'⟩
      rw [hr] at hadds hfirst
      cases r with
      | error e => exact hfirst
      | ok _ => exact hfirst.adds (hwait s' hadds.linked)
  | ConsultExperts requests => cases hkind
  | _ => cases hsuspends

theorem first_on_frame_run_terminated {response : FrameResponse} (hl : s.frames.Linked)
    (hn : s.frames.find f = some n) (hst : n.status = .RunCompleted response)
    (hsuspends : response.result.suspends) (hkind : response.result.consults = false) :
    (exec (self.on_frame_run_terminated f) s).2.frames.next = s.frames.next ∨
      FirstStalls s (exec (self.on_frame_run_terminated f) s).2 := by
  -- before the dispatch, the calls make no frame
  have hcalm : Calm self s (exec (self.record_run f response) (s.loaded f)).2 :=
    (calm_loaded s f).trans ((calm_record_run f response).run (.refl _))
  have hnext := hcalm.links.2
  have hadds := hcalm.adds hl
  unfold SessionCheckpointer.on_frame_run_terminated
  rw [status_of, exec_read hn, hst]
  simp only
  rw [exec_bind]
  rcases hr : exec (self.record_run f response) (s.loaded f) with ⟨r, s'⟩
  rw [hr] at hnext hadds
  cases r with
  | error e => exact .inl hnext
  | ok _ =>
    obtain ⟨n', hn', -⟩ := hadds.found hn
    unfold FirstStalls
    rw [← hnext]
    exact first_dispatch hadds.linked hn' hsuspends hkind

/-- What an event suspends is open afterwards. -/
theorem open_of_suspension (hs : Stalled s)
    (h : suspensionBetween s (self.step s event) event = some susp) :
    susp.Open (self.step s event) := by
  cases event with
  | FrameRunTerminated f =>
    simp only [suspensionBetween, Option.bind_eq_bind, Option.bind_eq_some_iff] at h
    obtain ⟨n, hn, n', hn', e, he, h⟩ := h
    split at h
    · rename_i response hst
      split at h
      · rename_i hcond
        cases h
        simp only [Bool.and_eq_true, Option.isNone_iff_eq_none] at hcond
        obtain ⟨⟨hnode, hsuspends⟩, hv⟩ := hcond
        have hevolves := step_evolves self s (.FrameRunTerminated f)
        obtain ⟨n'', hn'', hk⟩ := hevolves.node f n hn
        rw [hn'] at hn''
        cases hn''
        refine ⟨⟨n', e, hn', ?_, ?_, hv⟩, fun hkind hmade => ?_⟩
        · rw [(hk (id_lt_next hn)).data]
          exact hnode
        · rw [← List.getLast?_eq_getElem?]
          exact he
        · have hfirst := @first_on_frame_run_terminated self s f n response hs.laid.linked hn hst
            hsuspends hkind
          obtain ⟨status, hstep⟩ := step_eq self s (.FrameRunTerminated f)
          have hframes : (exec (self.on_frame_run_terminated f) s).2.frames =
              (self.step s (.FrameRunTerminated f)).frames := by
            rw [hstep]
            rfl
          unfold FirstStalls at hfirst
          rw [hframes] at hfirst
          rcases hfirst with hsame | ⟨m, hm, hstalls⟩
          · exact absurd (by simp [madeBetween, hsame]) hmade
          · refine ⟨_, ?_, m, hm, hstalls⟩
            have hlt : s.frames.next < _ := id_lt_next hm
            simp only [madeBetween, List.mem_map, List.mem_range'_1, FrameId.mk.injEq,
              exists_eq_right]
            omega
      · cases h
    · cases h
  | _ => cases h

end Open

/-! ## Runs -/

section Runs

variable {self : SessionCheckpointer} {decode : Value → Except String FrameResponse}
  {x : RunningSession} {s : State} {susp : Suspension}

/-- What happens beside the frames. -/
theorem Stalled.beside {hitls : List (HitlId × Hitl)} {snapshots : SessionSnapshots}
    {events : List SessionCheckpointEvent} (hs : Stalled s)
    (h : ∀ f response, .FrameRunJobStateUpdate f (.Completed response) ∈ events → s.frames.Runs f) :
    Stalled ({ s with hitls, snapshots }.emits events) := by
  refine ⟨hs.laid, hs.empty, fun f response hmem => ?_, hs.stalls⟩
  rcases List.mem_append.mp hmem with hold | hnew
  · exact hs.queued f response hold
  · exact h f response hnew

theorem stalled_next {move : SystemMove} (hs : Stalled x.state) (h : CompletesExecutables x move) :
    Stalled (self.next decode x move).state := by
  cases move with
  | event index =>
    cases he : x.state.listeners[index]? with
    | none =>
      rw [self.next_event_none decode he]
      exact hs
    | some event =>
      rw [self.next_event decode he]
      exact stalled_step hs he
  | report index job_state =>
    change Stalled (SessionCheckpointer.relay decode x index job_state).state
    unfold SessionCheckpointer.relay
    cases hj : x.jobs[index]? with
    | none => exact hs
    | some f =>
      simp only
      cases hd : job_state.deserialize decode with
      | error e => exact hs
      | ok state =>
        change Stalled ({ x.state with hitls := x.state.hitls, snapshots := x.state.snapshots }.emits
          [.FrameRunJobStateUpdate f state])
        refine hs.beside fun g response hmem => ?_
        cases List.mem_singleton.mp hmem
        cases job_state <;> simp [JobState.deserialize] at hd
        exact h f hj
  | answer response => exact hs.beside (by simp)
  | snapshots snapshots => exact ⟨hs.laid, hs.empty, hs.queued, hs.stalls⟩

theorem open_next {move : SystemMove} (h : susp.Open x.state) (hs : Stalled x.state) :
    susp.Open (self.next decode x move).state := by
  rcases self.next_cases decode x move with
    ⟨index, event, rfl, he, hnext⟩ | ⟨hitls, snapshots, events, -, -, hnext⟩
  · rw [hnext]
    exact Suspension.Open.step (s := x.state.taken index) ⟨h.entry, h.held⟩ (hs.taken index) event
  · rw [hnext]
    exact ⟨h.entry, h.held⟩

/-- What a move suspends is open after it. -/
theorem open_of_suspended {move : SystemMove} (hs : Stalled x.state)
    (h : self.suspended x move = some susp) : susp.Open (self.next decode x move).state := by
  cases move with
  | event index =>
    obtain ⟨event, he, hbetween⟩ := Option.bind_eq_some_iff.mp h
    rw [self.next_event decode he]
    exact open_of_suspension (hs.taken index) hbetween
  | _ => cases h

/-- The suspensions of a run, and those that were open before it, are open at the end of it. -/
theorem open_runSystem (moves : List SystemMove) (hs : Stalled x.state)
    (h : self.Throughout decode CompletesExecutables x moves) :
    Stalled (self.runSystem decode x moves).state ∧
      ∀ susp : Suspension, susp.Open x.state ∨ susp ∈ self.suspensions decode x moves →
        susp.Open (self.runSystem decode x moves).state := by
  induction moves generalizing x with
  | nil => exact ⟨hs, fun susp hsusp => hsusp.resolve_right (by simp [SessionCheckpointer.suspensions])⟩
  | cons move moves ih =>
    have hnext : Stalled (self.next decode x move).state := stalled_next hs h.1
    have hopen : ∀ susp : Suspension, susp.Open x.state ∨ susp ∈ (self.suspended x move).toList →
        susp.Open (self.next decode x move).state := by
      rintro susp (hold | hnew)
      · exact open_next hold hs
      · exact open_of_suspended hs (Option.mem_toList.mp hnew)
    rw [SessionCheckpointer.runSystem_cons]
    unfold SessionCheckpointer.suspensions
    cases hstop : self.stops x move with
    | true =>
      simp only [if_true, List.append_nil]
      exact ⟨hnext, hopen⟩
    | false =>
      obtain ⟨hend, hall⟩ := ih hnext (h.2 hstop)
      refine ⟨hend, fun susp hsusp => ?_⟩
      simp only [Bool.false_eq_true, if_false, List.mem_append] at hsusp ⊢
      rcases hsusp with hold | hnew | hlater
      · exact hall susp (.inl (hopen susp (.inl hold)))
      · exact hall susp (.inl (hopen susp (.inr hnew)))
      · exact hall susp (.inr hlater)

theorem stalled_start (args : NewFrameNodeArgs) (initial_channels : List (ChannelName × Value))
    (rows : SnapshotRows)
    (h : args.data.is_node → args.frame_policy.on_start_policy = .RunFrame) :
    Stalled (self.start args initial_channels rows).state := by
  refine ⟨laid_start args initial_channels rows h, fun y => rfl, fun f response hmem => ?_,
    fun y n hn _ => ?_⟩
  · cases List.mem_singleton.mp hmem
  · rw [find_start] at hn
    split at hn
    · cases hn
      rfl
    · cases hn

end Runs

/-- **The entries of a node are never answered**: in a session whose worker completes the runs of
executable frames alone, a suspension is answered just when its frames are not over, or when
they were made for tools or for a graph, which is never over. -/
theorem suspensions_are_answered_iff (self : SessionCheckpointer)
    (decode : Value → Except String FrameResponse) (args : NewFrameNodeArgs)
    (initial_channels : List (ChannelName × Value)) (rows : SnapshotRows)
    (moves : List SystemMove)
    (hroot : args.data.is_node → args.frame_policy.on_start_policy = .RunFrame)
    (h : self.Throughout decode CompletesExecutables (self.start args initial_channels rows) moves) :
    ∀ susp ∈ self.suspensions decode (self.start args initial_channels rows) moves,
      Answered self (self.runSystem decode (self.start args initial_channels rows) moves).state susp ↔
        ¬ (susp.Over (self.runSystem decode (self.start args initial_channels rows) moves).state ∧
          (susp.request.consults = true ∨ susp.frames = [])) := by
  obtain ⟨hs, hopen⟩ := open_runSystem moves (stalled_start args initial_channels rows hroot) h
  exact fun susp hsusp => (hopen susp (.inr hsusp)).answered_iff hs

/-! ## A node that asks an expert -/

/-- The run of the node asks one expert, and the run of the expert completes with its answer. -/
def asksOneExpert : Value → Except String FrameResponse
  | .Null => .ok
    { frame_id := ⟨0⟩, updates := [], new_logs := [⟨0, .ConsultExpertsLog [⟨"t", "e"⟩], none⟩],
      result := .ConsultExperts [⟨"t", "e"⟩] }
  | answer => .ok
    { frame_id := ⟨1⟩, updates := [⟨"expert_consultation_answer", answer, ⟨1⟩⟩], new_logs := [],
      result := .Completed }

/-- A session whose root is a node of a graph, with a snapshot for it and one for its expert,
which holds the channels that the run of an expert reads. -/
def nodeWithExpert : RunningSession :=
  overTwoNodes.start nodeArgs []
    [⟨⟨0⟩, ⟨0⟩, 0, .empty, []⟩,
     ⟨⟨0⟩, ⟨1⟩, 0,
      channelsOf [("expert_id", .String "e"), ("expert_consultation_task", .String "t")], []⟩]

/-- The node runs, then the expert, and the node is told of its end. -/
def expertRuns : List SystemMove :=
  [.event 0, .event 0, .report 0 (.Completed .Null), .event 0, .event 0, .event 0, .event 0, .event 0,
    .report 0 (.Completed (.String "a")), .event 0, .event 0, .event 0, .event 0, .event 0, .event 0]

def SessionCheckpointEvent.readies : SessionCheckpointEvent → Bool
  | .FrameReady _ => true
  | _ => false

/-- The expert is over, and the entry of the node has no value. -/
theorem an_expert_answers_nothing :
    overTwoNodes.Throughout asksOneExpert CompletesExecutables nodeWithExpert expertRuns ∧
    ∃ susp ∈ overTwoNodes.suspensions asksOneExpert nodeWithExpert expertRuns,
      ¬ Answered overTwoNodes
        (overTwoNodes.runSystem asksOneExpert nodeWithExpert expertRuns).state susp := by
  constructor
  · refine ⟨trivial, fun _ => ⟨trivial, fun _ => ⟨?_, fun _ => ⟨trivial, fun _ => ⟨trivial, fun _ =>
      ⟨trivial, fun _ => ⟨trivial, fun _ => ⟨trivial, fun _ => ⟨?_, fun _ => ⟨trivial, fun _ =>
      ⟨trivial, fun _ => ⟨trivial, fun _ => ⟨trivial, fun _ => ⟨trivial, fun _ =>
      ⟨trivial, fun _ => trivial⟩⟩⟩⟩⟩⟩⟩⟩⟩⟩⟩⟩⟩⟩⟩
    · rintro f ⟨⟩
      exact ⟨_, rfl, rfl⟩
    · rintro f ⟨⟩
      exact ⟨_, rfl, rfl⟩
  · have hmade : (overTwoNodes.suspensions asksOneExpert nodeWithExpert expertRuns).map (fun susp =>
        (susp.frames, (susp.value (overTwoNodes.runSystem asksOneExpert nodeWithExpert
          expertRuns).state).isSome)) = [([⟨1⟩], false)] := by
      decide +kernel
    have hdone : (overTwoNodes.runSystem asksOneExpert nodeWithExpert expertRuns).state.frames.statusIs
        FrameStatus.has_completed ⟨1⟩ = true := by
      decide +kernel
    have hleft : (overTwoNodes.runSystem asksOneExpert nodeWithExpert expertRuns).state.listeners.all
        (·.readies) = true := by
      decide +kernel
    generalize overTwoNodes.runSystem asksOneExpert nodeWithExpert expertRuns = x at hmade hdone hleft
    obtain ⟨susp, hsusp, hmade⟩ := List.map_eq_singleton_iff.mp hmade
    rw [Prod.mk.injEq] at hmade
    have hnot : ∀ event ∈ x.state.listeners, event.readies = true := List.all_eq_true.mp hleft
    refine ⟨susp, by rw [hsusp]; exact List.mem_singleton.mpr rfl, fun h => ?_⟩
    have hsome := h.resolved ⟨fun f hf => ?_, fun f _ => ⟨fun hmem => ?_, fun p hmem => ?_⟩⟩
    · rw [hmade.2] at hsome
      cases hsome
    · rw [hmade.1] at hf
      cases List.mem_singleton.mp hf
      exact hdone
    · cases hnot _ hmem
    · cases hnot _ hmem

/-! ## A node that calls a tool -/

/-- The run of the node calls one tool. -/
def callsATool (_ : Value) : Except String FrameResponse :=
  .ok { frame_id := ⟨0⟩, updates := [], new_logs := [⟨0, .CallToolsLog [⟨"t", .Null⟩], none⟩],
        result := .CallTools [⟨"t", .Null⟩] }

def callRuns : List SystemMove :=
  [.event 0, .event 0, .report 0 (.Completed .Null), .event 0, .event 0]

/-- The call is not over, and its suspension is answered so far. -/
theorem a_call_of_a_tool_is_not_over :
    (overTwoNodes.suspensions callsATool oneNode callRuns).length = 1 ∧
    ∀ susp ∈ overTwoNodes.suspensions callsATool oneNode callRuns,
      Answered overTwoNodes (overTwoNodes.runSystem callsATool oneNode callRuns).state susp := by
  have hmade : (overTwoNodes.suspensions callsATool oneNode callRuns).map (fun susp =>
      (susp.frames, susp.request.consults)) = [([⟨1⟩, ⟨2⟩], false)] := by
    decide +kernel
  refine ⟨by decide +kernel, fun susp hsusp => ?_⟩
  refine (suspensions_are_answered_iff overTwoNodes callsATool nodeArgs [] _ callRuns
    (fun _ => rfl) ?_ susp hsusp).mpr ?_
  · refine ⟨trivial, fun _ => ⟨trivial, fun _ => ⟨?_, fun _ => ⟨trivial, fun _ => ⟨trivial, fun _ =>
      trivial⟩⟩⟩⟩⟩
    rintro f ⟨⟩
    exact ⟨_, rfl, rfl⟩
  · generalize overTwoNodes.suspensions callsATool oneNode callRuns = susps at hmade hsusp
    obtain ⟨only, rfl, honly⟩ := List.map_eq_singleton_iff.mp hmade
    cases List.mem_singleton.mp hsusp
    rw [Prod.mk.injEq] at honly
    rintro ⟨-, hasks | hnil⟩
    · rw [honly.2] at hasks
      cases hasks
    · rw [honly.1] at hnil
      cases hnil

end marie.session
