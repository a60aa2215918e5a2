-- What the start policies do. A thread is made under a frame that was there
-- before only by the start policy of that frame: the other calls make theirs
-- under the span that they make themselves. So the threads under a frame tell
-- which policy was executed, and how often.
import Marie.Session.StartPolicy

namespace marie.session

open Program FrameTree

/-! ## Threads under a frame -/

/-- The graph of a thread. -/
def FrameKind.thread : FrameKind → Option GraphRef
  | .GraphThread graph_ref => some graph_ref
  | _ => none

/-- The graph of the thread that the policy appends. -/
def OnStartPolicy.thread : OnStartPolicy → Option GraphRef
  | .AppendGraphThread graph_ref _ => some graph_ref
  | _ => none

/-- The graph of the `i`th frame, when it is a thread right under `p`. -/
def FrameTree.thread_at (t : FrameTree) (p : FrameId) (i : Nat) : Option GraphRef :=
  (t.find ⟨i⟩).bind fun n => if n.parent = some p then n.data.thread else none

/-- The graphs of the threads right under a frame, in the order in which the threads were made. -/
def FrameTree.threads_under (t : FrameTree) (p : FrameId) : List GraphRef :=
  (List.range t.next).filterMap (t.thread_at p)

section Threads

variable {t t' : FrameTree} {S L : FrameId → Prop} {p : FrameId}

/-- The threads that were there stay, and those that are made come after them. -/
theorem threads_under_later (h : Evolves t.next S L t t') (p : FrameId) :
    t'.threads_under p = t.threads_under p ++
      (List.range (t'.next - t.next)).filterMap fun i => t'.thread_at p (t.next + i) := by
  have hsplit : List.range t'.next =
      List.range t.next ++ (List.range (t'.next - t.next)).map (t.next + ·) := by
    rw [← List.range_add, Nat.add_sub_cancel' h.bound]
  unfold FrameTree.threads_under
  rw [hsplit, List.filterMap_append, List.filterMap_map]
  congr 1
  refine List.filterMap_congr fun i hi => ?_
  have hlt : i < t.next := List.mem_range.mp hi
  unfold FrameTree.thread_at
  cases hn' : t'.find ⟨i⟩ with
  | none =>
    cases hn : t.find ⟨i⟩ with
    | none => rfl
    | some n =>
      obtain ⟨k, hk, -⟩ := h.node _ n hn
      rw [hn'] at hk
      cases hk
  | some n' =>
    rcases h.cases hn' with hnew | ⟨n, hn, hk⟩
    · exact absurd hlt (Nat.not_lt_of_le hnew)
    · simp only [hn, Option.bind_some, hk.parent, hk.data]

/-- Where no new frame is a thread under `p`, the threads stay as they are. -/
theorem threads_under_eq (h : Evolves t.next S L t t')
    (hnew : ∀ x n, t'.find x = some n → t.next ≤ x.id → n.parent = some p → n.data.thread = none) :
    t'.threads_under p = t.threads_under p := by
  rw [threads_under_later h p, List.append_right_eq_self, List.filterMap_eq_nil_iff]
  intro i hi
  unfold FrameTree.thread_at
  cases hn : t'.find ⟨t.next + i⟩ with
  | none => rfl
  | some n =>
    rw [Option.bind_some]
    split
    · exact hnew _ n hn (Nat.le_add_right _ _) ‹_›
    · rfl

end Threads

/-- From `s` to `s'`, the frames stay, and no thread is made under a frame below `b`. -/
structure Unthreaded (b : Nat) (s s' : State) : Prop where
  evolves : Evolves s.frames.next everyFrame everyFrame s.frames s'.frames
  linked : s'.frames.Linked
  new : ∀ x n p, s'.frames.find x = some n → s.frames.next ≤ x.id → n.parent = some p → p.id < b →
    n.data.thread = none

section Unthreaded

variable {self : SessionCheckpointer} {b : Nat} {s s' s'' : State} {f p x : FrameId}
  {n m : FrameNode}

theorem Unthreaded.found (h : Unthreaded b s s') (hn : s.frames.find x = some n) :
    ∃ n', s'.frames.find x = some n' ∧ Kept True True n n' := by
  obtain ⟨n', hn', hk⟩ := h.evolves.node x n hn
  exact ⟨n', hn', hk (id_lt_next hn)⟩

theorem Steady.unthreaded (h : Steady s s') : Unthreaded b s s' :=
  ⟨h.evolves, h.linked, fun _ _ _ hn hx => absurd hx (h.not_new hn)⟩

theorem Unthreaded.refl (hl : s.frames.Linked) : Unthreaded b s s := (Steady.refl hl).unthreaded

theorem Unthreaded.trans (h : Unthreaded b s s') (h' : Unthreaded b s' s'') :
    Unthreaded b s s'' := by
  refine ⟨h.evolves.trans (h'.evolves.lower h.evolves.bound), h'.linked, fun x n p hn hx hp hlt => ?_⟩
  rcases h'.evolves.cases hn with hnew | ⟨m, hm, hk⟩
  · exact h'.new x n p hn hnew hp hlt
  · rw [hk.data]
    rw [hk.parent] at hp
    exact h.new x m p hm hx hp hlt

/-! ## The calls -/

/-- A program that makes no thread under an old frame, from each state. -/
theorem unthreaded_of {α : Type} {k : Ckp α}
    (h : ∀ s', s'.frames.Linked → Unthreaded b s' (exec k s').2) :
    Keeps (Unthreaded b s) k (fun _ => True) :=
  fun s' hs => ⟨hs.trans (h s' hs.linked), fun _ _ => trivial⟩

/-- The same from each state that has the frame `p`. -/
theorem unthreaded_under {α : Type} {k : Ckp α} (hp : s.frames.find p = some n)
    (hb : b ≤ s.frames.next)
    (h : ∀ s' n', s'.frames.Linked → s'.frames.find p = some n' → b ≤ s'.frames.next →
      Unthreaded b s' (exec k s').2) :
    Keeps (Unthreaded b s) k (fun _ => True) := by
  intro s' hs
  obtain ⟨n', hn', -⟩ := hs.found hp
  exact ⟨hs.trans (h s' n' hs.linked hn' (Nat.le_trans hb hs.evolves.bound)), fun _ _ => trivial⟩

theorem unthreaded_of_calm {α : Type} {k : Ckp α} {Q : α → Prop} (self : SessionCheckpointer)
    (h : ∀ s, Keeps (Calm self s) k Q) : Keeps (Unthreaded b s) k Q := fun s' hs =>
  ⟨hs.trans (((h s').run (.refl s')).steady hs.linked).unthreaded, (h s' s' (.refl s')).2⟩

theorem unthreaded_mark_as_waiting_children (f : FrameId) :
    Keeps (Unthreaded b s) (mark_as_waiting_children f) (fun _ => True) :=
  unthreaded_of fun _ hl => (steady_mark_as_waiting_children hl f).unthreaded

theorem unthreaded_mark_completed_frame (f : FrameId) :
    Keeps (Unthreaded b s) (mark_completed_frame f) (fun _ => True) :=
  unthreaded_of fun _ hl => (steady_mark_completed_frame hl f).unthreaded

/-- What comes after the frame of an append is there. -/
theorem unthreaded_from_appended {α : Type} {args : NewFrameNodeArgs} {k : FrameId → Ckp α}
    (hl : s.frames.Linked) (hp : s.frames.find p = some m)
    (hk : ∀ s' n, s'.frames.Linked → s'.frames.find ⟨s.frames.next⟩ = some n →
      s.frames.next + 1 ≤ s'.frames.next → Unthreaded b s' (exec (k ⟨s.frames.next⟩) s').2) :
    Unthreaded b (s.appended p args) (exec (self.append_frame p args >>= k) s).2 := by
  have hlinked : (s.appended p args).frames.Linked := linked_append hl hp args
  have hnext : (s.appended p args).frames.next = s.frames.next + 1 := append_next_succ _ _ _
  obtain ⟨hsteady, hid⟩ := steady_append_frame self hlinked
  rw [exec_bind]
  rcases hr : exec (self.append_frame p args) s with ⟨r, s'⟩
  rw [hr] at hsteady hid
  cases r with
  | error e => exact hsteady.unthreaded
  | ok id =>
    cases hid id rfl
    obtain ⟨n, hn, -⟩ := new_appended hl hp args
    obtain ⟨n', hn', -⟩ := hsteady.adds.found hn
    refine hsteady.unthreaded.trans (hk s' n' hsteady.linked hn' ?_)
    rw [hsteady.next, hnext]

/-- An append of a frame that is no thread, or that is made under a new frame, and what goes on
from the frame that it made. -/
theorem unthreaded_append {α : Type} {args : NewFrameNodeArgs} {k : FrameId → Ckp α}
    (hl : s.frames.Linked) (hp : s.frames.find p = some m)
    (hargs : args.data.thread = none ∨ b ≤ p.id) (hb : b ≤ s.frames.next)
    (hk : ∀ s' id n, s'.frames.Linked → s'.frames.find id = some n → b ≤ id.id →
      b ≤ s'.frames.next → Unthreaded b s' (exec (k id) s').2) :
    Unthreaded b s (exec (self.append_frame p args >>= k) s).2 := by
  have hnew : Unthreaded b s (s.appended p args) := by
    refine ⟨evolves_appended s p args, linked_append hl hp args, fun x n q hn hx hq hlt => ?_⟩
    obtain ⟨rfl, hparent, hbare⟩ := of_new_appended hl hp hn hx
    rw [FrameNode.of_bare (·.data) (fun _ => rfl) hbare]
    rw [hparent] at hq
    cases hq
    exact hargs.resolve_right (Nat.not_le_of_lt hlt)
  exact hnew.trans (unthreaded_from_appended hl hp fun s' n hl' hn hle =>
    hk s' _ n hl' hn hb (by omega))

theorem unthreaded_append_graph_node (hl : s.frames.Linked) (hp : s.frames.find p = some m)
    (hb : b ≤ s.frames.next) (graph_ref : GraphRef) (node_id : NodeId) :
    Unthreaded b s (exec (self.append_graph_node p graph_ref node_id) s).2 :=
  unthreaded_append hl hp (.inl rfl) hb fun _ _ _ hl' _ _ _ => .refl hl'

/-- What a thread is made of besides its own frame. -/
theorem unthreaded_thread_body (hl : s.frames.Linked) (hn : s.frames.find f = some n)
    (hb : b ≤ s.frames.next) (graph_ref : GraphRef) (start : NodeId) :
    Unthreaded b s (exec (do
      mark_as_waiting_children f
      self.append_graph_node f graph_ref start
      pure f) s).2 := by
  refine Keeps.run (Q := fun _ => True) ?_ (.refl hl)
  refine (unthreaded_mark_as_waiting_children f).andThen fun _ => ?_
  refine Keeps.andThen (Q := fun _ => True) ?_ fun _ => keeps_pure trivial
  exact unthreaded_under hn hb fun s' n' hl' hn' hb' =>
    unthreaded_append_graph_node hl' hn' hb' graph_ref start

theorem unthreaded_append_branch (hp : s.frames.find p = some m) (hb : b ≤ s.frames.next)
    (hnew : b ≤ p.id) (graph_ref : GraphRef) (branch : Branch) :
    Keeps (Unthreaded b s) (self.append_branch p graph_ref branch) (fun _ => True) := by
  unfold SessionCheckpointer.append_branch SessionCheckpointer.append_graph_thread
  refine Keeps.andThen (Q := fun _ => True) (unthreaded_under hp hb fun s' n' hl hn' hb' => ?_)
    fun id => ?_
  · exact unthreaded_append hl hn' (.inr hnew) hb' fun _ _ _ hl' hn _ hb' =>
      unthreaded_thread_body hl' hn hb' graph_ref branch.start
  · split
    · exact keeps_pure trivial
    · exact unthreaded_of_calm self fun _ => calm_write_to_inherited_channels _ _

theorem unthreaded_append_graph_span (hl : s.frames.Linked) (hp : s.frames.find p = some m)
    (hb : b ≤ s.frames.next) (graph_ref : GraphRef) (branches : List Branch) (join : NodeId) :
    Unthreaded b s (exec (self.append_graph_span p graph_ref branches join) s).2 := by
  unfold SessionCheckpointer.append_graph_span
  refine unthreaded_append hl hp (.inl rfl) hb fun s' id n hl' hn hid hb' => ?_
  refine Keeps.run (Q := fun _ => True) ?_ (.refl hl')
  refine (unthreaded_mark_as_waiting_children id).andThen fun _ => ?_
  exact keeps_forM branches fun branch _ => unthreaded_append_branch hn hb' hid graph_ref branch

theorem unthreaded_append_graph (hl : s.frames.Linked) (hp : s.frames.find p = some m)
    (hb : b ≤ s.frames.next) (graph_id : GraphId) :
    Unthreaded b s (exec (self.append_graph p graph_id) s).2 := by
  unfold SessionCheckpointer.append_graph
  split
  · exact .refl hl
  · exact .refl hl
  · split
    · exact .refl hl
    · refine unthreaded_append hl hp (.inl rfl) hb fun s' id n hl' _ _ _ => ?_
      exact (unthreaded_mark_as_waiting_children id).run (.refl hl')

theorem unthreaded_append_experts_consultations (hp : s.frames.find p = some m)
    (hb : b ≤ s.frames.next) (requests : List RequestAskExpert) :
    Keeps (Unthreaded b s) (self.append_experts_consultations p requests) (fun _ => True) := by
  refine keeps_forM requests fun request _ => unthreaded_under hp hb fun s' n' hl hn' hb' => ?_
  unfold SessionCheckpointer.append_expert_consultation
  exact unthreaded_append hl hn' (.inl rfl) hb' fun _ _ _ hl' _ _ _ =>
    (keeps_unpolled _).run (.refl hl')

theorem unthreaded_append_tool_calls (hl : s.frames.Linked) (hp : s.frames.find p = some m)
    (hb : b ≤ s.frames.next) (requests : List RequestToolCall) :
    Unthreaded b s (exec (self.append_tool_calls p requests) s).2 := by
  unfold SessionCheckpointer.append_tool_calls SessionCheckpointer.append_tool_aggregator
  simp only [bind_assoc, pure_bind]
  refine unthreaded_append hl hp (.inl rfl) hb fun s' id n hl' hn _ hb' => ?_
  refine Keeps.run (Q := fun _ => True) ?_ (.refl hl')
  refine (unthreaded_mark_as_waiting_children id).andThen fun _ => ?_
  refine keeps_forM requests fun request _ => ?_
  unfold SessionCheckpointer.append_tool_call
  refine (unthreaded_of_calm self fun _ => calm_next_id).andThen fun call => ?_
  refine unthreaded_under hn hb' fun s1 n' hl1 hn' hb1 => ?_
  exact unthreaded_append hl1 hn' (.inl rfl) hb1 fun _ _ _ hl2 _ _ _ => .refl hl2

/-! ### The end of a run -/

theorem unthreaded_dispatch {c : FrameNodeContainer} {result : FrameResult} (hl : s.frames.Linked)
    (hc : s.frames.arena f = some c) (hb : b ≤ s.frames.next) :
    Keeps (Unthreaded b s) (self.dispatch f result) (fun _ => True) := by
  have hf := find_of_arena hc
  have hparent : Keeps (Unthreaded b s) (frames (asks (parent_of · f)))
      (fun o => o = c.node.parent) := by
    intro s' hs
    refine ⟨hs, ?_⟩
    rintro _ ⟨⟩
    obtain ⟨c', hc'⟩ := hs.evolves.resident f c hc
    obtain ⟨n', hn', hk⟩ := hs.found hf
    rw [find_of_arena hc'] at hn'
    cases hn'
    simp [parent_of, hc', hk.parent]
  have hdata : Keeps (Unthreaded b s) (frames (data_of f)) (fun _ => True) :=
    unthreaded_of_calm self fun _ => calm_read f _
  have hnode : ∀ p, c.node.parent = some p → ∀ graph_ref node_id,
      Keeps (Unthreaded b s) (self.append_graph_node p graph_ref node_id) (fun _ => True) := by
    intro p hp graph_ref node_id
    obtain ⟨m, hm⟩ := hl.parent f c.node p hf hp
    exact unthreaded_under hm hb fun s' n' hl' hn' hb' =>
      unthreaded_append_graph_node hl' hn' hb' graph_ref node_id
  have hwait := unthreaded_mark_as_waiting_children (b := b) (s := s) f
  have hdone := unthreaded_mark_completed_frame (b := b) (s := s) f
  have hreduce : Keeps (Unthreaded b s) (frames (set_reduce_policy f .Reduce)) (fun _ => True) :=
    unthreaded_of_calm self fun _ => calm_set_reduce_policy _ _
  unfold SessionCheckpointer.dispatch
  cases result with
  | RequestHitl hitl =>
    refine (unthreaded_of_calm self fun _ => calm_request self hitl).andThen fun id => ?_
    refine (unthreaded_of_calm self fun _ => calm_read f _).andThen fun logs => ?_
    exact (keeps_unpolled _).andThen fun _ => (keeps_unpolled _).andThen fun _ => hwait
  | ConsultExperts requests =>
    refine (unthreaded_append_experts_consultations hf hb requests).andThen fun _ => ?_
    exact (keeps_unpolled _).andThen fun _ => hreduce.andThen fun _ => hwait
  | CallTools requests =>
    refine Keeps.andThen (Q := fun _ => True) (unthreaded_under hf hb fun s' n' hl' hn' hb' => ?_)
      fun _ => ?_
    · exact unthreaded_append_tool_calls hl' hn' hb' requests
    · exact (keeps_unpolled _).andThen fun _ => hreduce.andThen fun _ => hwait
  | ExecuteGraph graph_id =>
    refine Keeps.andThen (Q := fun _ => True) (unthreaded_under hf hb fun s' n' hl' hn' hb' => ?_)
      fun _ => hwait
    exact unthreaded_append_graph hl' hn' hb' graph_id
  | Continue =>
    refine hparent.bind fun o ho => ?_
    subst ho
    split
    · exact keeps_pure trivial
    · rename_i p hp
      refine hdata.andThen fun data => ?_
      split
      · split
        · exact keeps_throw _
        · split
          · exact keeps_pure trivial
          · exact (hnode p hp _ _).andThen fun _ => hdone
      · exact keeps_pure trivial
  | GoTo target =>
    refine hparent.bind fun o ho => ?_
    subst ho
    split
    · exact keeps_pure trivial
    · rename_i p hp
      refine hdata.andThen fun data => ?_
      split
      · exact (hnode p hp _ _).andThen fun _ => hdone
      · exact keeps_pure trivial
  | Fork branches join =>
    refine hparent.bind fun o ho => ?_
    subst ho
    split
    · exact keeps_pure trivial
    · rename_i p hp
      obtain ⟨m, hm⟩ := hl.parent f c.node p hf hp
      refine (unthreaded_of_calm self fun _ => calm_read p _).andThen fun spec_ref => ?_
      split
      · refine Keeps.andThen (Q := fun _ => True) (unthreaded_under hm hb fun s' n' hl' hn' hb' => ?_)
          fun _ => ?_
        · exact unthreaded_append_graph_span hl' hn' hb' _ _ _
        · refine (keeps_unpolled _).andThen fun _ => (keeps_unpolled _).andThen fun _ => ?_
          exact (unthreaded_mark_as_waiting_children p).andThen fun _ => hdone
      · exact keeps_throw _
  | Completed => exact hdone
  | Failed err => exact unthreaded_of fun _ hl' => (steady_mark_and_emit hl' f _ _).unthreaded

/-- A dispatch makes its threads under the span that it makes. -/
theorem unthreaded_on_frame_run_terminated (hl : s.frames.Linked) (hb : b ≤ s.frames.next) :
    Unthreaded b s (exec (self.on_frame_run_terminated f) s).2 := by
  have hload : Unthreaded b s (s.loaded f) := ((calm_loaded s f : Calm self _ _).steady hl).unthreaded
  unfold SessionCheckpointer.on_frame_run_terminated
  cases hn : s.frames.find f with
  | none =>
    rw [status_of, exec_read_none hn]
    exact .refl hl
  | some n =>
    rw [status_of, exec_read hn]
    split
    · rename_i response hst
      obtain ⟨c, hc, rfl⟩ := resident_load hn
      refine hload.trans (Keeps.run (Q := fun _ => True) ?_ (.refl hload.linked))
      refine (unthreaded_of_calm self fun _ => calm_record_run f response).andThen fun _ => ?_
      exact unthreaded_dispatch (s := s.loaded f) hload.linked hc hb
    · exact hload

end Unthreaded

/-! ## The effect of a start policy -/

section Effect

variable {self : SessionCheckpointer} {s : State} {x : RunningSession} {index : Nat}
  {event : SessionCheckpointEvent} {f : FrameId} {n : FrameNode}

theorem Steady.threads_under {s' : State} (h : Steady s s') (p : FrameId) :
    s'.frames.threads_under p = s.frames.threads_under p :=
  threads_under_eq h.evolves fun _ _ hn hx _ => absurd hx (h.not_new hn)

theorem Unthreaded.threads_under {b : Nat} {s' : State} (h : Unthreaded b s s') {p : FrameId}
    (hp : p.id < b) : s'.frames.threads_under p = s.frames.threads_under p :=
  threads_under_eq h.evolves fun y n hn hy hparent => h.new y n p hn hy hparent hp

/-- The thread of `append_graph_thread` stands last under its frame. -/
theorem threads_under_appended {args : NewFrameNodeArgs} (hl : s.frames.Linked)
    (hn : s.frames.find f = some n) :
    (s.appended f args).frames.threads_under f =
      s.frames.threads_under f ++ args.data.thread.toList := by
  have hnext : (s.appended f args).frames.next = s.frames.next + 1 := append_next_succ _ _ _
  obtain ⟨k, hk, hbare, hparent⟩ := new_appended hl hn args
  have hdata : k.data = args.data := FrameNode.of_bare (·.data) (fun _ => rfl) hbare
  rw [threads_under_later (evolves_appended s f args) f, hnext, Nat.add_sub_cancel_left]
  simp only [List.range_one, List.filterMap_cons, List.filterMap_nil, Nat.add_zero, FrameTree.thread_at,
    hk, Option.bind_some, hparent, if_true, hdata]
  cases args.data.thread <;> rfl

/-- The policy appends its thread, also when an error stops it later. -/
theorem threads_under_start_policy (hl : s.frames.Linked) (hn : s.frames.find f = some n)
    (policy : OnStartPolicy) :
    (exec (self.start_policy f policy) s).2.frames.threads_under f =
      s.frames.threads_under f ++ policy.thread.toList := by
  have hlt := id_lt_next hn
  have hnone : ∀ {k : Ckp Unit}, Keeps (Unthreaded s.frames.next s) k (fun _ => True) →
      (exec k s).2.frames.threads_under f = s.frames.threads_under f ++ [] := fun hk => by
    rw [List.append_nil]
    exact (hk.run (.refl hl)).threads_under hlt
  cases policy with
  | RunFrame =>
    exact hnone (unthreaded_of fun _ hl' => (steady_mark_and_emit hl' f _ _).unthreaded)
  | AppendGraphThread graph_ref start =>
    let args : NewFrameNodeArgs :=
      { frame_policy :=
          { on_child_failed := .FailIfAtLeastHasFailed 1, resume_policy := .Sequential }
        spec_ref := .Graph graph_ref
        data := .GraphThread graph_ref }
    have hnext : (s.appended f args).frames.next = s.frames.next + 1 := append_next_succ _ _ _
    have hthread : Unthreaded (s.frames.next + 1) (s.appended f args)
        (exec (self.append_graph_thread f graph_ref start) s).2 :=
      unthreaded_from_appended hl hn fun s' n' hl' hn' hle =>
        unthreaded_thread_body hl' hn' hle graph_ref start
    have hall : Unthreaded (s.frames.next + 1) (s.appended f args)
        (exec (self.start_policy f (.AppendGraphThread graph_ref start)) s).2 := by
      unfold SessionCheckpointer.start_policy
      rw [exec_bind]
      have hstate := exec_ignore_state Fault.isError (self.append_graph_thread f graph_ref start) s
      rcases hr : exec (ignore Fault.isError (self.append_graph_thread f graph_ref start)) s
        with ⟨r, s'⟩
      rw [hr] at hstate
      rw [← hstate] at hthread
      cases r with
      | error e => exact hthread
      | ok u => exact (unthreaded_mark_as_waiting_children f).run hthread
    rw [hall.threads_under (Nat.lt_succ_of_lt hlt), threads_under_appended hl hn]
    rfl
  | AppendGraphSpan graph_ref join branches =>
    refine hnone ?_
    refine Keeps.andThen (Q := fun _ => True) (Keeps.ignore (Q := fun _ => True) ?_) fun _ =>
      unthreaded_mark_as_waiting_children f
    exact unthreaded_under hn (Nat.le_refl _) fun s' n' hl' hn' hb' =>
      unthreaded_append_graph_span hl' hn' hb' graph_ref branches join
  | AppendGraphNode graph_ref start =>
    refine hnone ?_
    refine Keeps.andThen (Q := fun _ => True) (Keeps.ignore (Q := fun _ => True) ?_) fun _ => ?_
    · exact unthreaded_under hn (Nat.le_refl _) fun s' n' hl' hn' hb' =>
        unthreaded_append_graph_node hl' hn' hb' graph_ref start
    · refine (unthreaded_of_calm self fun _ => calm_set_resume_policy f _).andThen fun _ => ?_
      exact unthreaded_mark_as_waiting_children f

/-- A `FrameCreated` that executes the policy appends its thread. -/
theorem threads_under_launched (hl : s.frames.Linked) (hn : s.frames.find f = some n)
    (hst : n.status = .Pending) :
    (self.step s (.FrameCreated f)).frames.threads_under f =
      s.frames.threads_under f ++ n.frame_policy.on_start_policy.thread.toList := by
  have hsteady : Steady s (s.loaded f) := (calm_loaded s f : Calm self _ _).steady hl
  have hn' : (s.loaded f).frames.find f = some n := by rw [State.loaded, find_load, hn]
  obtain ⟨session_status, hstep⟩ := step_eq self s (.FrameCreated f)
  rw [hstep]
  change (exec (self.on_frame_created f) s).2.frames.threads_under f = _
  rw [exec_on_frame_created_pending hn hst, threads_under_start_policy hsteady.linked hn',
    hsteady.threads_under f]

/-- Else an event makes no thread under a frame that is there. -/
theorem threads_under_step (hx : StartsLive x) (self : SessionCheckpointer)
    (he : x.state.listeners[index]? = some event) (hn : x.state.frames.find f = some n)
    (hno : event = .FrameCreated f → n.status ≠ .Pending) :
    (self.step (x.state.taken index) event).frames.threads_under f =
      x.state.frames.threads_under f := by
  have hsows := hx.sows self he
  refine threads_under_eq hsows.evolves fun y m hm hy hparent => ?_
  obtain ⟨p, hp, hplace⟩ := hsows.placed y m hm hy
  rw [hparent] at hp
  cases hp
  have hplants : Plants (x.state.taken index) event f := by
    refine hplace.resolve_right fun hnew => ?_
    exact absurd (id_lt_next hn) (Nat.not_lt_of_le hnew.1)
  cases event with
  | FrameCreated g =>
    obtain ⟨rfl, k, hk, hst, -⟩ := hplants
    rw [show (x.state.taken index).frames = x.state.frames from rfl, hn] at hk
    cases hk
    exact absurd hst (hno rfl)
  | FrameRunTerminated g =>
    obtain ⟨session_status, hstep⟩ := step_eq self (x.state.taken index) (.FrameRunTerminated g)
    have hended : Unthreaded (x.state.taken index).frames.next (x.state.taken index)
        (exec (self.on_frame_run_terminated g) (x.state.taken index)).2 :=
      unthreaded_on_frame_run_terminated hx.linked (Nat.le_refl _)
    rw [hstep] at hm
    exact hended.new y m f hm hy hparent (id_lt_next hn)
  | _ => exact hplants.elim

end Effect

/-! ## Every run -/

/-- Under a frame that awaits its start there is the thread of its policy, and no other: from the
moment when the policy is executed, and not before. -/
def ThreadsStarted (w : Watched) : Prop :=
  ∀ f n, w.running.state.frames.find f = some n → AwaitsStart f n →
    w.running.state.frames.threads_under f =
      if f ∈ w.started then n.frame_policy.on_start_policy.thread.toList else []

section Noted

variable {self : SessionCheckpointer} {decode : Value → Except String FrameResponse} {w : Watched}
  {index : Nat} {event : SessionCheckpointEvent} {f : FrameId} {n : FrameNode}

/-- Nothing stands under a frame that an event makes and that is still pending. -/
theorem threads_under_new (hw : StartsNoted w) (he : w.running.state.listeners[index]? = some event)
    (hnone : w.running.state.frames.find f = none)
    (hn : (self.step (w.running.state.taken index) event).frames.find f = some n)
    (hst : n.status = .Pending) :
    (self.step (w.running.state.taken index) event).frames.threads_under f = [] := by
  have hx := hw.toStartsLive
  have hsows := hx.sows self he
  refine List.filterMap_eq_nil_iff.mpr fun i _ => ?_
  unfold FrameTree.thread_at
  cases hm : (self.step (w.running.state.taken index) event).frames.find ⟨i⟩ with
  | none => rfl
  | some m =>
    refine if_neg fun hparent => ?_
    have hgone : ∀ {k}, w.running.state.frames.find f ≠ some k := by simp [hnone]
    rcases hsows.cases hm with hnew | ⟨k, hk, hkept⟩
    · obtain ⟨p, hp, hplace⟩ := hsows.placed _ m hm hnew
      rw [hparent] at hp
      cases hp
      rcases hplace with hplants | ⟨-, hbegun⟩
      · cases event with
        | FrameCreated g =>
          obtain ⟨rfl, k, hk, -⟩ := hplants
          exact hgone hk
        | FrameRunTerminated g =>
          obtain ⟨k, response, hk, -, ⟨rfl, -⟩ | hunder⟩ := hplants
          · exact hgone hk
          · obtain ⟨m', hm', -⟩ := hx.parents g k f hk hunder
            exact hgone hm'
        | _ => exact hplants.elim
      · exact hbegun.of_find hn hst
    · obtain ⟨m', hm', -⟩ := hx.parents _ k f hk (hkept.parent.symm.trans hparent)
      exact hgone hm'

/-- What an event leads to, also when the checkpointer panics. -/
theorem threadsStarted_event (hw : StartsNoted w) (hthreads : ThreadsStarted w)
    (he : w.running.state.listeners[index]? = some event) (self : SessionCheckpointer) :
    ThreadsStarted (w.sees (self.handle w.running index event) (w.running.greeted (.event index))
      (w.running.launched (.event index))) := by
  intro f n' hn' hawaits
  change (self.step (w.running.state.taken index) event).frames.find f = some n' at hn'
  change (self.step (w.running.state.taken index) event).frames.threads_under f = if _ then _ else _
  have hlaunched : f ∈ (w.sees (self.handle w.running index event) (w.running.greeted (.event index))
      (w.running.launched (.event index))).started ↔ f ∈ w.started ∨ event = .FrameCreated f ∧
        ∃ n, w.running.state.frames.find f = some n ∧ n.status = .Pending :=
    List.mem_append.trans (or_congr_right (mem_launched he))
  rcases awaits_cases hw he hn' hawaits with ⟨hnone, hst⟩ | ⟨n, hn, hawaits, hpolicy⟩
  · -- a new frame has not begun, so nothing stands under it
    rw [threads_under_new hw he hnone hn' hst, if_neg]
    rw [hlaunched]
    rintro (hstarted | ⟨-, n, hn, -⟩)
    · obtain ⟨k, hk, -⟩ := hw.begun f hstarted
      rw [hnone] at hk
      cases hk
    · rw [hnone] at hn
      cases hn
  · have hbefore := hthreads f n hn hawaits
    rw [hpolicy]
    by_cases hnow : event = .FrameCreated f ∧ n.status = .Pending
    · -- the policy is executed, for the first time
      obtain ⟨rfl, hst⟩ := hnow
      have hfirst : f ∉ w.started := fun hstarted => (hw.begun f hstarted).of_find hn hst
      rw [if_neg hfirst] at hbefore
      rw [if_pos (hlaunched.mpr (.inr ⟨rfl, n, hn, hst⟩)),
        threads_under_launched (s := w.running.state.taken index) hw.linked hn hst]
      exact congrArg (· ++ _) hbefore
    · rw [threads_under_step hw.toStartsLive self he hn fun hevent hst => hnow ⟨hevent, hst⟩, hbefore]
      refine if_congr ?_ rfl rfl
      rw [hlaunched]
      refine ⟨.inl, fun hor => hor.resolve_right ?_⟩
      rintro ⟨hevent, k, hk, hst⟩
      rw [hn] at hk
      cases hk
      exact hnow ⟨hevent, hst⟩

theorem threadsStarted_start (args : NewFrameNodeArgs) (initial_channels : List (ChannelName × Value))
    (rows : SnapshotRows) : ThreadsStarted (.new (self.start args initial_channels rows)) := by
  intro f n _ _
  refine Eq.trans ?_ (if_neg List.not_mem_nil).symm
  refine List.filterMap_eq_nil_iff.mpr fun i _ => ?_
  change ((self.start args initial_channels rows).state.frames.find ⟨i⟩).bind _ = none
  rw [find_start]
  split
  · rfl
  · rfl

end Noted

/-- **Start policies are executed once**: in every state that a new session reaches, whatever the
order of the events and however often a `FrameCreated` comes, a start policy was executed at most
once, and exactly once when a frame that awaits its start was told that it is created. A frame that
starts by a run goes to the worker once until it leaves, and one that starts by a thread has that
one thread. -/
theorem start_policies_are_executed_once (self : SessionCheckpointer)
    (decode : Value → Except String FrameResponse) (args : NewFrameNodeArgs)
    (initial_channels : List (ChannelName × Value)) (rows : SnapshotRows) (moves : List StartMove) :
    StartsOnce (self.watch decode (.new (self.start args initial_channels rows)) moves) ∧
      ThreadsStarted (self.watch decode (.new (self.start args initial_channels rows)) moves) := by
  have hstart := startsNoted_start self args initial_channels rows
  refine ⟨startsOnce_watch hstart moves, ?_⟩
  refine noted_watch hstart (threadsStarted_start args initial_channels rows) ?_ ?_ moves
  · exact fun w index event hw hthreads he => threadsStarted_event hw hthreads he self
  · intro w x' hw hthreads hsame f n hn hawaits
    change x'.state.frames.threads_under f = _
    change x'.state.frames.find f = some n at hn
    rw [hsame.frames] at hn ⊢
    rw [hthreads f n hn hawaits]
    exact if_congr (by simp [Watched.sees]) rfl rfl

/-! ## Policies that are not executed once -/

/-- A root that appends a thread when it is created. -/
def pinArgs : NewFrameNodeArgs :=
  { nodeArgs with frame_policy := { on_start_policy := .AppendGraphThread ⟨"g", 1⟩ "a" } }

/-- A node whose children run one after the other. -/
def inTurnArgs : NewFrameNodeArgs :=
  { nodeArgs with frame_policy := { resume_policy := .Sequential } }

/-- The run of the root asks three experts, and the run of an expert completes. -/
def asksThreeExperts : Value → Except String FrameResponse
  | .Null => .ok
    { frame_id := ⟨0⟩, updates := [], new_logs := []
      result := .ConsultExperts [⟨"t", "e"⟩, ⟨"t", "f"⟩, ⟨"t", "g"⟩] }
  | _ => .ok { frame_id := ⟨1⟩, updates := [], new_logs := [], result := .Completed }

/-- The third expert has no sibling to inherit from: the session fails, and the root does not wait
for the first one, which runs and completes. -/
def expertsRun : List StartMove :=
  [.event 0, .event 0, .report 0 (.Completed .Null), .event 0, .event 0, .event 1, .event 2,
    .report 0 (.Completed (.Bool true)), .event 2, .event 2, .event 4, .event 4].map .move

/-- A root that appends a thread, and the thread that was told that it is created. -/
def watchedPin : Watched :=
  overTwoNodes.watch callsNoTool (.new (overTwoNodes.start pinArgs [] []))
    [.move (.event 0), .move (.event 0)]

def watchedExperts : Watched :=
  overTwoNodes.watch asksThreeExperts
    (.new (overTwoNodes.start inTurnArgs []
      [⟨⟨0⟩, ⟨0⟩, 0, .empty, []⟩, ⟨⟨0⟩, ⟨1⟩, 0, .empty, []⟩])) expertsRun

/-- The thread is waiting when its `FrameCreated` is handled, and its policy is not executed. And
the root of a session that has failed runs twice before it leaves. -/
theorem a_thread_is_not_started :
    (watchedPin.running.state.session_status.has_failed = false ∧
      ⟨1⟩ ∈ watchedPin.handled ∧ ⟨1⟩ ∉ watchedPin.started) ∧
    (watchedExperts.running.state.session_status.has_failed = true ∧
      watchedExperts.left ⟨0⟩ = none ∧ watchedExperts.running.state.runs ⟨0⟩ = 2) := by
  decide +kernel

end marie.session
