-- The frames that the checkpointer makes. Each of them resumes by a run, and is an
-- expert, a tool call, a node or a container; a node never stands under another
-- node. Each call has one law here, about the frames that it adds.
import Marie.Session.Executables
import Marie.Session.WaitingFrames

namespace marie.session

open Program FrameTree

/-! ## Frames as they are made -/

def FrameKind.is_node : FrameKind → Bool
  | .GraphNode _ _ => true
  | _ => false

/-- The frame is one that the checkpointer makes. -/
structure FrameNode.Usual (n : FrameNode) : Prop where
  resumes : n.frame_policy.on_resume_policy = .RunFrame
  starts : n.data.is_node → n.frame_policy.on_start_policy = .RunFrame
  kind : n.spec_ref = .Expert ∨ n.spec_ref = .ToolCall ∨ n.data.is_container ∨ n.data.is_node

theorem FrameNode.Usual.kept {n n' : FrameNode} {A B : Prop} (h : n.Usual) (hk : Kept A B n n') :
    n'.Usual := by
  refine ⟨?_, ?_, ?_⟩
  · rw [hk.frame_policy]
    exact h.resumes
  · rw [hk.frame_policy, hk.data]
    exact h.starts
  · rw [hk.spec_ref, hk.data]
    exact h.kind

/-- The frame is a container that resumes by a run. -/
def FrameNode.Stalls (n : FrameNode) : Prop :=
  n.data.is_container ∧ n.frame_policy.on_resume_policy = .RunFrame

/-- From `s` to `s'`, the frames stay, and none is made. -/
structure Steady (s s' : State) : Prop where
  linked : s'.frames.Linked
  evolves : Evolves s.frames.next everyFrame everyFrame s.frames s'.frames
  next : s'.frames.next = s.frames.next

/-- From `s` to `s'`, the frames stay and the new ones are usual; no new node stands under a
node. -/
structure Adds (s s' : State) : Prop where
  evolves : Evolves s.frames.next everyFrame everyFrame s.frames s'.frames
  linked : s'.frames.Linked
  new : ∀ x n, s'.frames.find x = some n → s.frames.next ≤ x.id → n.Usual ∧
    (n.data.is_node → ∀ p, n.parent = some p → ∃ m, s'.frames.find p = some m ∧ ¬ m.data.is_node)

section Adds

variable {self : SessionCheckpointer} {s s' s'' : State} {f p x : FrameId} {n m : FrameNode}

theorem Steady.refl (hl : s.frames.Linked) : Steady s s := ⟨hl, .refl (Nat.le_refl _), rfl⟩

theorem Steady.trans (h : Steady s s') (h' : Steady s' s'') : Steady s s'' :=
  ⟨h'.linked, h.evolves.trans (h'.evolves.lower h.evolves.bound), h'.next.trans h.next⟩

theorem Steady.not_new (h : Steady s s') (hn : s'.frames.find x = some n) :
    ¬ s.frames.next ≤ x.id := by
  have hlt := id_lt_next hn
  have hnext := h.next
  omega

theorem Adds.found (h : Adds s s') (hn : s.frames.find x = some n) :
    ∃ n', s'.frames.find x = some n' ∧ Kept True True n n' := by
  obtain ⟨n', hn', hk⟩ := h.evolves.node x n hn
  exact ⟨n', hn', hk (id_lt_next hn)⟩

theorem Steady.adds (h : Steady s s') : Adds s s' :=
  ⟨h.evolves, h.linked, fun _ _ hn hx => absurd hx (h.not_new hn)⟩

theorem Adds.refl (hl : s.frames.Linked) : Adds s s := (Steady.refl hl).adds

theorem Adds.trans (h : Adds s s') (h' : Adds s' s'') : Adds s s'' := by
  refine ⟨h.evolves.trans (h'.evolves.lower h.evolves.bound), h'.linked, fun x n hn hx => ?_⟩
  rcases h'.evolves.cases hn with hnew | ⟨m, hm, hk⟩
  · exact h'.new x n hn hnew
  · obtain ⟨husual, hplace⟩ := h.new x m hm hx
    refine ⟨husual.kept hk, fun hnode q hq => ?_⟩
    rw [hk.data] at hnode
    rw [hk.parent] at hq
    obtain ⟨k, hkq, hplain⟩ := hplace hnode q hq
    obtain ⟨k', hk', hkept⟩ := h'.found hkq
    refine ⟨k', hk', ?_⟩
    rw [hkept.data]
    exact hplain

/-- The first frame that is made on the way from `s` to `s'` is a container that resumes by a
run. -/
def FirstStalls (s s' : State) : Prop :=
  ∃ n, s'.frames.find ⟨s.frames.next⟩ = some n ∧ n.Stalls

theorem FirstStalls.adds (h : FirstStalls s s') (h' : Adds s' s'') : FirstStalls s s'' := by
  obtain ⟨n, hn, hkind, hresumes⟩ := h
  obtain ⟨n', hn', hk⟩ := h'.found hn
  refine ⟨n', hn', ?_, ?_⟩
  · rw [hk.data]
    exact hkind
  · rw [hk.frame_policy]
    exact hresumes

/-- A quiet call makes no frame, and leaves the links. -/
theorem Calm.links (h : Calm self s s') :
    SameLinks s.frames s'.frames ∧ s'.frames.next = s.frames.next := by
  refine h.keeps (I := fun a => SameLinks s.frames a.frames ∧ a.frames.next = s.frames.next) ?_
    ⟨.refl _, rfl⟩
  rintro a b hab ⟨hlinks, hnext⟩
  cases hab with
  | @load t ht =>
    refine ⟨⟨fun x => ?_, fun x c hc => ?_⟩, ht.next.trans hnext⟩
    · rw [ht.find]
      exact hlinks.node x
    · obtain ⟨c', hc'⟩ := hlinks.resident x c hc
      exact ⟨c', ht.arena x c' hc'⟩
  | fill f channels superstep =>
    exact ⟨hlinks.edit (f := fun n => { n with
      inherited_channels := channels n, superstep := superstep n }) fun _ => rfl, hnext⟩
  | log f entries =>
    exact ⟨hlinks.edit (f := fun n => { n with logs := entries n.logs }) fun _ => rfl, hnext⟩
  | _ => exact ⟨hlinks, hnext⟩

theorem Calm.steady (h : Calm self s s') (hl : s.frames.Linked) : Steady s s' := by
  have hacts : Acts self (fun _ _ => True) s s' := h.acts
  exact ⟨h.links.1.linked hl, hacts.evolves, h.links.2⟩

theorem Calm.adds (h : Calm self s s') (hl : s.frames.Linked) : Adds s s' := (h.steady hl).adds

theorem steady_marked (hl : s.frames.Linked) (hn : s.frames.find f = some n) (status : FrameStatus)
    (events : List SessionCheckpointEvent) : Steady s ((s.marked f status).emits events) := by
  have hact : Act (plain true) (fun _ _ => True) s
      ((s.marked f status).emits (status.announces f n.parent)) := .mark hn trivial
  refine ⟨SameLinks.linked ?_ hl, hact.acts.evolves, rfl⟩
  exact ((SameLinks.refl _).load f).edit (f := fun n => { n with status }) fun _ => rfl

/-! ## The calls -/

/-- A program that adds from each state. -/
theorem adds_of {α : Type} {m : Ckp α} (h : ∀ s', s'.frames.Linked → Adds s' (exec m s').2) :
    Keeps (Adds s) m (fun _ => True) :=
  fun s' hs => ⟨hs.trans (h s' hs.linked), fun _ _ => trivial⟩

/-- A program that adds from each state that has the frame `p` of this kind. -/
theorem adds_under {α : Type} {m : Ckp α} {n : FrameNode} (hp : s.frames.find p = some n)
    (h : ∀ s' n', s'.frames.Linked → s'.frames.find p = some n' → n'.data = n.data →
      Adds s' (exec m s').2) : Keeps (Adds s) m (fun _ => True) := by
  intro s' hs
  obtain ⟨n', hn', hk⟩ := hs.found hp
  exact ⟨hs.trans (h s' n' hs.linked hn' hk.data), fun _ _ => trivial⟩

theorem adds_of_calm {α : Type} {m : Ckp α} {Q : α → Prop} (self : SessionCheckpointer)
    (h : ∀ s, Keeps (Calm self s) m Q) : Keeps (Adds s) m Q :=
  fun s' hs => ⟨hs.trans (((h s').run (.refl s')).adds hs.linked), (h s' s' (.refl s')).2⟩

/-- The first part of a program adds, and the rest goes on from there. -/
theorem Adds.bind {α β : Type} {m : Ckp α} {k : α → Ckp β} (h : Adds s (exec m s).2)
    (hk : ∀ a s', Adds s s' → exec m s = (.ok a, s') → Adds s' (exec (k a) s').2) :
    Adds s (exec (m >>= k) s).2 := by
  rw [exec_bind]
  rcases hr : exec m s with ⟨r, s'⟩
  rw [hr] at h
  cases r with
  | error e => exact h
  | ok a => exact h.trans (hk a s' h hr)

theorem steady_emit (hl : s.frames.Linked) (event : SessionCheckpointEvent) :
    Steady s (exec (emit event) s).2 :=
  ⟨hl, .refl (Nat.le_refl _), rfl⟩

theorem steady_mark_as_waiting_children (hl : s.frames.Linked) (f : FrameId) :
    Steady s (exec (mark_as_waiting_children f) s).2 := by
  unfold mark_as_waiting_children
  cases hn : s.frames.find f with
  | none =>
    rw [exec_set_status_none hn]
    exact .refl hl
  | some n =>
    rw [exec_set_status hn]
    have hmark := steady_marked hl hn .WaitingChildren []
    simpa [State.emits] using hmark

theorem steady_mark_and_emit (hl : s.frames.Linked) (f : FrameId) (status : FrameStatus)
    (event : SessionCheckpointEvent) :
    Steady s (exec (do
      frames (set_status f status)
      emit event) s).2 := by
  cases hn : s.frames.find f with
  | none =>
    rw [(exec_set_status_emit status event).1 s hn]
    exact .refl hl
  | some n =>
    rw [(exec_set_status_emit status event).2 s n hn]
    exact steady_marked hl hn status _

theorem steady_mark_completed_frame (hl : s.frames.Linked) (f : FrameId) :
    Steady s (exec (mark_completed_frame f) s).2 := by
  cases hn : s.frames.find f with
  | none =>
    unfold mark_completed_frame
    rw [exec_bind_error (exec_set_status_none hn _)]
    exact .refl hl
  | some n =>
    rw [exec_mark_completed hn]
    exact steady_marked hl hn _ _

theorem adds_mark_as_waiting_children (f : FrameId) :
    Keeps (Adds s) (mark_as_waiting_children f) (fun _ => True) :=
  adds_of fun _ hl => (steady_mark_as_waiting_children hl f).adds

theorem adds_mark_and_emit (f : FrameId) (status : FrameStatus) (event : SessionCheckpointEvent) :
    Keeps (Adds s) (do
      frames (set_status f status)
      emit event) (fun _ => True) :=
  adds_of fun _ hl => (steady_mark_and_emit hl f status event).adds

theorem adds_mark_completed_frame (f : FrameId) :
    Keeps (Adds s) (mark_completed_frame f) (fun _ => True) :=
  adds_of fun _ hl => (steady_mark_completed_frame hl f).adds

/-! ### Appends -/

/-- The fields of a new frame are those of its arguments. -/
theorem usual_of_bare {args : NewFrameNodeArgs} {id : FrameId}
    (hbare : n.bare = (FrameNode.new id args).bare) (hargs : (FrameNode.new id args).Usual) :
    n.Usual := by
  have hpolicy : n.frame_policy = args.frame_policy :=
    FrameNode.of_bare (·.frame_policy) (fun _ => rfl) hbare
  have hdata : n.data = args.data := FrameNode.of_bare (·.data) (fun _ => rfl) hbare
  have href : n.spec_ref = args.spec_ref := FrameNode.of_bare (·.spec_ref) (fun _ => rfl) hbare
  refine ⟨?_, ?_, ?_⟩
  · rw [hpolicy]
    exact hargs.resumes
  · rw [hpolicy, hdata]
    exact hargs.starts
  · rw [href, hdata]
    exact hargs.kind

/-- The frame that is appended to `p`. -/
theorem new_appended (hl : s.frames.Linked) (hp : s.frames.find p = some m) (args : NewFrameNodeArgs) :
    ∃ k, (s.appended p args).frames.find ⟨s.frames.next⟩ = some k ∧
      k.bare = (FrameNode.new ⟨s.frames.next⟩ args).bare ∧ k.parent = some p := by
  obtain ⟨c, hc⟩ := hl.cached p m hp
  obtain ⟨k, hk, hbare, hparent, -⟩ := append_new hc args
  exact ⟨k, find_of_arena hk, hbare, hparent⟩

/-- The only frame that an append makes is its own, below `p`. -/
theorem of_new_appended {args : NewFrameNodeArgs} (hl : s.frames.Linked)
    (hp : s.frames.find p = some m) (hn : (s.appended p args).frames.find x = some n)
    (hx : s.frames.next ≤ x.id) :
    x = ⟨s.frames.next⟩ ∧ n.parent = some p ∧ n.bare = (FrameNode.new ⟨s.frames.next⟩ args).bare := by
  have hlt := id_lt_next hn
  have hnext : (s.appended p args).frames.next = s.frames.next + 1 := append_next_succ _ _ _
  obtain rfl : x = ⟨s.frames.next⟩ := by
    obtain ⟨x⟩ := x
    rw [FrameId.mk.injEq]
    simp only at hx hlt
    omega
  obtain ⟨k, hk, hbare, hparent⟩ := new_appended hl hp args
  rw [hk] at hn
  cases hn
  exact ⟨rfl, hparent, hbare⟩

theorem evolves_appended (s : State) (p : FrameId) (args : NewFrameNodeArgs) :
    Evolves s.frames.next everyFrame everyFrame s.frames (s.appended p args).frames :=
  (Evolves.refl (Nat.le_refl _)).append p args

theorem adds_appended {args : NewFrameNodeArgs} (hl : s.frames.Linked)
    (hp : s.frames.find p = some m) (hargs : ∀ id, (FrameNode.new id args).Usual)
    (hnode : args.data.is_node → ¬ m.data.is_node) : Adds s (s.appended p args) := by
  refine ⟨evolves_appended s p args, linked_append hl hp args, fun x n hn hx => ?_⟩
  obtain ⟨rfl, hparent, hbare⟩ := of_new_appended hl hp hn hx
  refine ⟨usual_of_bare hbare (hargs _), fun hk q hq => ?_⟩
  rw [hparent] at hq
  cases hq
  obtain ⟨m', hm', hkept⟩ := (evolves_appended s p args).node p m hp
  refine ⟨m', hm', ?_⟩
  rw [(hkept (id_lt_next hp)).data]
  refine hnode ?_
  have hdata : n.data = args.data := FrameNode.of_bare (·.data) (fun _ => rfl) hbare
  rwa [hdata] at hk

/-- After the frame is there, an append makes no other. -/
theorem steady_append_frame (self : SessionCheckpointer) {args : NewFrameNodeArgs}
    (hl : (s.appended p args).frames.Linked) :
    Steady (s.appended p args) (exec (self.append_frame p args) s).2 ∧
      ∀ id, (exec (self.append_frame p args) s).1 = .ok id → id = ⟨s.frames.next⟩ := by
  have hcalm : ∀ {α : Type} {k : Ckp α} {Q : α → Prop}, (∀ s', Keeps (Calm self s') k Q) →
      Keeps (Steady (s.appended p args)) k Q := fun h s' hs =>
    ⟨hs.trans (((h s').run (.refl s')).steady hs.linked), (h s' s' (.refl s')).2⟩
  have hrest : Keeps (Steady (s.appended p args)) (do
      let policy ← frames (policy_of p)
      let spec ← frames (common_spec_of self.graphs ⟨s.frames.next⟩)
      frames (write ⟨s.frames.next⟩ (·.extend_inherited spec.default_values))
      self.inherit_channels policy p ⟨s.frames.next⟩
      emit (.FrameCreated ⟨s.frames.next⟩)
      pure (⟨s.frames.next⟩ : FrameId)) (fun id => id = ⟨s.frames.next⟩) := by
    refine (hcalm fun _ => calm_read p _).andThen fun policy => ?_
    refine (hcalm fun _ => calm_common_spec_of _ _).andThen fun spec => ?_
    refine Keeps.andThen (Q := fun _ => True) (hcalm fun _ => calm_fill fun _ => by rfl) fun _ => ?_
    refine (hcalm fun _ => calm_inherit_channels _ _ _).andThen fun _ => ?_
    refine Keeps.andThen (Q := fun _ => True) (fun s' hs => ?_) fun _ => keeps_pure rfl
    exact ⟨hs.trans (steady_emit hs.linked _), fun _ _ => trivial⟩
  rw [append_frame_eq]
  exact hrest _ (.refl hl)

/-- An append adds a frame of this kind. -/
theorem adds_append_frame {args : NewFrameNodeArgs} (hl : s.frames.Linked)
    (hp : s.frames.find p = some m) (hargs : ∀ id, (FrameNode.new id args).Usual)
    (hnode : args.data.is_node → ¬ m.data.is_node) :
    Adds s (exec (self.append_frame p args) s).2 ∧
      (∃ k, (exec (self.append_frame p args) s).2.frames.find ⟨s.frames.next⟩ = some k ∧
        k.data = args.data ∧ k.Usual) ∧
      ∀ id, (exec (self.append_frame p args) s).1 = .ok id → id = ⟨s.frames.next⟩ := by
  have hnew := adds_appended hl hp hargs hnode
  obtain ⟨hsteady, hid⟩ := steady_append_frame self hnew.linked
  refine ⟨hnew.trans hsteady.adds, ?_, hid⟩
  obtain ⟨k, hk, hbare, -⟩ := new_appended hl hp args
  obtain ⟨k', hk', hkept⟩ := hsteady.adds.found hk
  refine ⟨k', hk', ?_, (usual_of_bare hbare (hargs _)).kept hkept⟩
  exact hkept.data.trans (FrameNode.of_bare (·.data) (fun _ => rfl) hbare)

/-- A node that is appended to a frame that is no node. -/
theorem adds_append_graph_node (hl : s.frames.Linked) (hp : s.frames.find p = some m)
    (hm : ¬ m.data.is_node) (graph_ref : GraphRef) (node_id : NodeId) :
    Adds s (exec (self.append_graph_node p graph_ref node_id) s).2 := by
  unfold SessionCheckpointer.append_graph_node
  refine Adds.bind (adds_append_frame hl hp (fun _ => ?_) fun _ => hm).1 fun _ _ hs _ => .refl hs.linked
  exact ⟨rfl, fun _ => rfl, .inr (.inr (.inr rfl))⟩

/-- A container that is appended, and what comes under it. -/
theorem adds_container {α : Type} {args : NewFrameNodeArgs} {k : FrameId → Ckp α}
    (hl : s.frames.Linked) (hp : s.frames.find p = some m) (hdata : args.data.is_container)
    (hresume : args.frame_policy.on_resume_policy = .RunFrame)
    (hk : ∀ s' id n, s'.frames.Linked → s'.frames.find id = some n → n.data = args.data →
      Adds s' (exec (k id) s').2) :
    Adds s (exec (self.append_frame p args >>= k) s).2 ∧
      FirstStalls s (exec (self.append_frame p args >>= k) s).2 := by
  have hno : ¬ args.data.is_node := by
    cases hd : args.data <;> simp [hd, FrameKind.is_container, FrameKind.is_node] at hdata ⊢
  have hargs : ∀ id, (FrameNode.new id args).Usual := fun id =>
    ⟨hresume, fun hnode => absurd hnode hno, .inr (.inr (.inl hdata))⟩
  have happend := @adds_append_frame self s p m args hl hp hargs fun h => absurd h hno
  obtain ⟨hadds, ⟨n, hn, hnd, husual⟩, hid⟩ := happend
  have hfirst : FirstStalls s (exec (self.append_frame p args) s).2 :=
    ⟨n, hn, by rw [hnd]; exact hdata, husual.resumes⟩
  rw [exec_bind]
  rcases hr : exec (self.append_frame p args) s with ⟨r, s'⟩
  rw [hr] at hadds hn hid hfirst
  cases r with
  | error e => exact ⟨hadds, hfirst⟩
  | ok id =>
    cases hid id rfl
    have hrest := hk s' _ n hadds.linked hn hnd
    exact ⟨hadds.trans hrest, hfirst.adds hrest⟩

theorem adds_append_graph_thread (hl : s.frames.Linked) (hp : s.frames.find p = some m)
    (graph_ref : GraphRef) (start : NodeId) :
    Adds s (exec (self.append_graph_thread p graph_ref start) s).2 := by
  unfold SessionCheckpointer.append_graph_thread
  refine (adds_container hl hp rfl rfl fun s' id n hl' hn hdata => ?_).1
  refine Keeps.run (Q := fun _ => True) ?_ (.refl hl')
  refine (adds_mark_as_waiting_children id).andThen fun _ => ?_
  refine Keeps.andThen (Q := fun _ => True) (adds_under hn fun s1 n' hl1 hn' hd => ?_) fun _ =>
    keeps_pure trivial
  refine adds_append_graph_node hl1 hn' ?_ graph_ref start
  rw [hd, hdata]
  exact Bool.false_ne_true

theorem adds_append_branch (hp : s.frames.find p = some m) (graph_ref : GraphRef) (branch : Branch) :
    Keeps (Adds s) (self.append_branch p graph_ref branch) (fun _ => True) := by
  unfold SessionCheckpointer.append_branch
  refine Keeps.andThen (Q := fun _ => True) (adds_under hp fun s' n' hl hn' _ => ?_) fun id => ?_
  · exact adds_append_graph_thread hl hn' _ _
  · split
    · exact keeps_pure trivial
    · exact adds_of_calm self fun _ => calm_write_to_inherited_channels _ _

theorem adds_append_graph_span (hl : s.frames.Linked) (hp : s.frames.find p = some m)
    (graph_ref : GraphRef) (branches : List Branch) (join : NodeId) :
    Adds s (exec (self.append_graph_span p graph_ref branches join) s).2 := by
  unfold SessionCheckpointer.append_graph_span
  refine (adds_container hl hp rfl rfl fun s' id n hl' hn _ => ?_).1
  refine Keeps.run (Q := fun _ => True) ?_ (.refl hl')
  refine (adds_mark_as_waiting_children id).andThen fun _ => ?_
  exact keeps_forM branches fun branch _ => adds_append_branch hn graph_ref branch

/-- The call stops before it makes a frame, or the first frame is the one of the graph. -/
theorem adds_append_graph (hl : s.frames.Linked) (hp : s.frames.find p = some m)
    (graph_id : GraphId) :
    (∃ e, exec (self.append_graph p graph_id) s = (.error e, s)) ∨
      (Adds s (exec (self.append_graph p graph_id) s).2 ∧
        FirstStalls s (exec (self.append_graph p graph_id) s).2) := by
  unfold SessionCheckpointer.append_graph
  split
  · exact .inl ⟨_, rfl⟩
  · exact .inl ⟨_, rfl⟩
  · split
    · exact .inl ⟨_, rfl⟩
    · refine .inr (adds_container hl hp rfl rfl fun s' id n hl' _ _ => ?_)
      exact (adds_mark_as_waiting_children id).run (.refl hl')

theorem adds_append_experts_consultations (hp : s.frames.find p = some m)
    (requests : List RequestAskExpert) :
    Keeps (Adds s) (self.append_experts_consultations p requests) (fun _ => True) := by
  refine keeps_forM requests fun request _ => ?_
  unfold SessionCheckpointer.append_expert_consultation
  refine Keeps.andThen (Q := fun _ => True) (adds_under hp fun s' n' hl hn' _ => ?_) fun _ =>
    keeps_unpolled _
  refine (adds_append_frame hl hn' (fun _ => ?_) fun h => ?_).1
  · exact ⟨rfl, (fun h => by cases h), .inl rfl⟩
  · cases h

theorem adds_append_tool_calls (hl : s.frames.Linked) (hp : s.frames.find p = some m)
    (requests : List RequestToolCall) :
    Adds s (exec (self.append_tool_calls p requests) s).2 ∧
      FirstStalls s (exec (self.append_tool_calls p requests) s).2 := by
  unfold SessionCheckpointer.append_tool_calls SessionCheckpointer.append_tool_aggregator
  simp only [bind_assoc, pure_bind]
  refine adds_container hl hp rfl rfl fun s' id n hl' hn _ => ?_
  refine Keeps.run (Q := fun _ => True) ?_ (.refl hl')
  refine (adds_mark_as_waiting_children id).andThen fun _ => ?_
  refine keeps_forM requests fun request _ => ?_
  unfold SessionCheckpointer.append_tool_call
  refine (adds_of_calm self fun _ => calm_next_id).andThen fun call => ?_
  refine Keeps.andThen (Q := fun _ => True) (adds_under hn fun s1 n' hl1 hn' _ => ?_) fun _ =>
    keeps_pure trivial
  refine (adds_append_frame hl1 hn' (fun _ => ?_) fun h => ?_).1
  · exact ⟨rfl, (fun h => by cases h), .inr (.inl rfl)⟩
  · cases h

/-! ### Handlers -/

theorem adds_resume_frame (p : FrameId) :
    Keeps (Adds s) (SessionCheckpointer.resume_frame p) (fun _ => True) := by
  unfold SessionCheckpointer.resume_frame
  refine (adds_of_calm (plain true) fun _ => calm_on_resume_policy p).andThen fun policy => ?_
  split
  · exact adds_mark_and_emit _ _ _
  · exact adds_mark_completed_frame _

theorem adds_on_child_frame_terminated (hl : s.frames.Linked) (p c : FrameId) :
    Adds s (exec (self.on_child_frame_terminated p c) s).2 := by
  have hloaded : ∀ t, Loaded s.frames t → Adds s { s with frames := t } := fun t ht =>
    (QuietAct.load ht : QuietAct self s { s with frames := t }).calm.adds hl
  rcases child_terminated_cases self s p c with
    ⟨e, t, ht, hr⟩ | ⟨t, cp, ht, -, -, ⟨-, err, hr⟩ | ⟨-, -, hr⟩ | ⟨-, -, -, hr⟩ | ⟨-, -, hr⟩⟩
  all_goals rw [hr]
  · exact hloaded t ht
  · exact (adds_mark_and_emit _ _ _).run (hloaded t ht)
  · refine Keeps.run (Q := fun _ => True) ?_ (hloaded t ht)
    unfold SessionCheckpointer.join_sequential
    refine (adds_of_calm self fun _ => calm_read p _).andThen fun last => ?_
    split
    · exact adds_mark_and_emit _ _ _
    · exact (adds_of_calm self fun _ => calm_join_last_child p _).andThen fun _ => adds_resume_frame p
  · refine Keeps.run (Q := fun _ => True) ?_ (hloaded t ht)
    unfold SessionCheckpointer.join_fan_in
    exact (adds_of_calm self fun _ => calm_join_children p).andThen fun _ => adds_resume_frame p
  · exact hloaded t ht

theorem adds_on_frame_run_update (f : FrameId) (job_state : JobState FrameResponse) :
    Keeps (Adds s) (SessionCheckpointer.on_frame_run_update f job_state) (fun _ => True) := by
  have hemit : ∀ event, Keeps (Adds s) (emit event) (fun _ => True) := fun event =>
    adds_of fun _ hl => (steady_emit hl event).adds
  unfold SessionCheckpointer.on_frame_run_update
  split
  · exact (adds_mark_and_emit _ _ _).andThen fun _ => hemit _
  · exact (adds_mark_and_emit _ _ _).andThen fun _ => hemit _
  · exact keeps_pure trivial

/-- A node that is told where its result leads stands under no node. -/
theorem adds_dispatch {c : FrameNodeContainer} {result : FrameResult} (hl : s.frames.Linked)
    (hc : s.frames.arena f = some c)
    (hplace : c.node.data.is_node → ∀ p, c.node.parent = some p →
      ∃ m, s.frames.find p = some m ∧ ¬ m.data.is_node) :
    Keeps (Adds s) (self.dispatch f result) (fun _ => True) := by
  have hf := find_of_arena hc
  have hparent : Keeps (Adds s) (frames (asks (parent_of · f))) (fun o => o = c.node.parent) := by
    intro s' hs
    refine ⟨hs, ?_⟩
    rintro _ ⟨⟩
    obtain ⟨c', hc'⟩ := hs.evolves.resident f c hc
    obtain ⟨n', hn', hk⟩ := hs.found hf
    rw [find_of_arena hc'] at hn'
    cases hn'
    simp [parent_of, hc', hk.parent]
  have hdata : Keeps (Adds s) (frames (data_of f)) (fun data => data = c.node.data) := by
    intro s' hs
    obtain ⟨n', hn', hk⟩ := hs.found hf
    have hread : exec (frames (data_of f)) s' = (.ok n'.data, s'.loaded f) :=
      exec_frames (exec_get_map _ hn')
    rw [hread]
    refine ⟨hs.trans ((calm_loaded s' f : Calm self _ _).adds hs.linked), ?_⟩
    rintro _ ⟨⟩
    exact hk.data
  have hwait := adds_mark_as_waiting_children (s := s) f
  have hdone := adds_mark_completed_frame (s := s) f
  have hreduce : Keeps (Adds s) (frames (set_reduce_policy f .Reduce)) (fun _ => True) :=
    adds_of_calm self fun _ => calm_set_reduce_policy _ _
  unfold SessionCheckpointer.dispatch
  cases result with
  | RequestHitl hitl =>
    refine (adds_of_calm self fun _ => calm_request self hitl).andThen fun id => ?_
    refine (adds_of_calm self fun _ => calm_read f _).andThen fun logs => ?_
    exact (keeps_unpolled _).andThen fun _ => (keeps_unpolled _).andThen fun _ => hwait
  | ConsultExperts requests =>
    refine (adds_append_experts_consultations hf requests).andThen fun _ => ?_
    exact (keeps_unpolled _).andThen fun _ => hreduce.andThen fun _ => hwait
  | CallTools requests =>
    refine Keeps.andThen (Q := fun _ => True) (adds_under hf fun s' n' hl' hn' _ => ?_) fun _ => ?_
    · exact (adds_append_tool_calls hl' hn' requests).1
    · exact (keeps_unpolled _).andThen fun _ => hreduce.andThen fun _ => hwait
  | ExecuteGraph graph_id =>
    refine Keeps.andThen (Q := fun _ => True) (adds_under hf fun s' n' hl' hn' _ => ?_) fun _ => hwait
    rcases adds_append_graph hl' hn' graph_id with ⟨e, hr⟩ | ⟨hadds, -⟩
    · rw [hr]
      exact .refl hl'
    · exact hadds
  | Continue =>
    refine hparent.bind fun o ho => ?_
    subst ho
    split
    · exact keeps_pure trivial
    · rename_i p hp
      refine hdata.bind fun data hd => ?_
      subst hd
      split
      · rename_i graph_ref node_id hnode
        split
        · exact keeps_throw _
        · split
          · exact keeps_pure trivial
          · refine Keeps.andThen (Q := fun _ => True) ?_ fun _ => hdone
            obtain ⟨m, hm, hplain⟩ := hplace (by rw [hnode]; rfl) p hp
            refine adds_under hm fun s' n' hl' hn' hd' => ?_
            exact adds_append_graph_node hl' hn' (by rw [hd']; exact hplain) _ _
      · exact keeps_pure trivial
  | GoTo target =>
    refine hparent.bind fun o ho => ?_
    subst ho
    split
    · exact keeps_pure trivial
    · rename_i p hp
      refine hdata.bind fun data hd => ?_
      subst hd
      split
      · rename_i graph_ref node_id hnode
        refine Keeps.andThen (Q := fun _ => True) ?_ fun _ => hdone
        obtain ⟨m, hm, hplain⟩ := hplace (by rw [hnode]; rfl) p hp
        refine adds_under hm fun s' n' hl' hn' hd' => ?_
        exact adds_append_graph_node hl' hn' (by rw [hd']; exact hplain) _ _
      · exact keeps_pure trivial
  | Fork branches join =>
    refine hparent.bind fun o ho => ?_
    subst ho
    split
    · exact keeps_pure trivial
    · rename_i p hp
      obtain ⟨m, hm⟩ := hl.parent f c.node p hf hp
      refine (adds_of_calm self fun _ => calm_read p _).andThen fun spec_ref => ?_
      split
      · refine Keeps.andThen (Q := fun _ => True) (adds_under hm fun s' n' hl' hn' _ => ?_) fun _ => ?_
        · exact adds_append_graph_span hl' hn' _ _ _
        · refine (keeps_unpolled _).andThen fun _ => (keeps_unpolled _).andThen fun _ => ?_
          exact (adds_mark_as_waiting_children p).andThen fun _ => hdone
      · exact keeps_throw _
  | Completed => exact hdone
  | Failed err => exact adds_mark_and_emit _ _ _

theorem adds_on_frame_run_terminated (hl : s.frames.Linked)
    (hplace : ∀ n p, s.frames.find f = some n → n.data.is_node → n.parent = some p →
      ∃ m, s.frames.find p = some m ∧ ¬ m.data.is_node) :
    Adds s (exec (self.on_frame_run_terminated f) s).2 := by
  have hload : Adds s (s.loaded f) := (calm_loaded s f : Calm self _ _).adds hl
  unfold SessionCheckpointer.on_frame_run_terminated
  cases hn : s.frames.find f with
  | none =>
    rw [status_of, exec_read_none hn]
    exact .refl hl
  | some n =>
    rw [status_of, exec_read hn]
    split
    · rename_i response hst
      obtain ⟨c, hc, rfl⟩ := resident_load hn
      refine hload.trans (Keeps.run (Q := fun _ => True) ?_ (.refl hload.linked))
      refine (adds_of_calm self fun _ => calm_record_run f response).andThen fun _ => ?_
      refine adds_dispatch (s := s.loaded f) hload.linked hc ?_
      intro hnode p hp
      obtain ⟨m, hm, hplain⟩ := hplace c.node p hn hnode hp
      exact ⟨m, (((Loaded.refl s.frames).load f).find p).trans hm, hplain⟩
    · exact hload

/-- A node that is made does not start with another node. -/
theorem adds_on_frame_created (hl : s.frames.Linked)
    (hstart : ∀ n, s.frames.find f = some n → n.data.is_node →
      n.frame_policy.on_start_policy = .RunFrame) :
    Adds s (exec (self.on_frame_created f) s).2 := by
  have hload : Adds s (s.loaded f) := (calm_loaded s f : Calm self _ _).adds hl
  unfold SessionCheckpointer.on_frame_created
  cases hn : s.frames.find f with
  | none =>
    rw [status_of, exec_read_none hn]
    exact .refl hl
  | some n =>
    rw [status_of, exec_read hn]
    cases hstatus : n.status with
    | Pending =>
      have hn1 : (s.loaded f).frames.find f = some n := by rw [State.loaded, find_load, hn]
      have hload2 : Adds s ((s.loaded f).loaded f) :=
        hload.trans ((calm_loaded _ f : Calm self _ _).adds hload.linked)
      have hn2 : ((s.loaded f).loaded f).frames.find f = some n := by
        rw [State.loaded, find_load, hn1]
      simp only
      rw [policy_of, exec_read hn1]
      refine hload2.trans (Keeps.run (Q := fun _ => True) ?_ (.refl hload2.linked))
      have hwait := adds_mark_as_waiting_children (s := (s.loaded f).loaded f) f
      cases hpol : n.frame_policy.on_start_policy with
      | RunFrame => exact adds_mark_and_emit _ _ _
      | AppendGraphThread graph_ref start =>
        refine Keeps.andThen (Q := fun _ => True) (Keeps.ignore (Q := fun _ => True) ?_) fun _ => hwait
        exact adds_under hn2 fun s' n' hl' hn' _ => adds_append_graph_thread hl' hn' _ _
      | AppendGraphSpan graph_ref join branches =>
        refine Keeps.andThen (Q := fun _ => True) (Keeps.ignore (Q := fun _ => True) ?_) fun _ => hwait
        exact adds_under hn2 fun s' n' hl' hn' _ => adds_append_graph_span hl' hn' _ _ _
      | AppendGraphNode graph_ref start =>
        have hplain : ¬ n.data.is_node := by
          intro hnode
          rw [hstart n hn hnode] at hpol
          cases hpol
        refine Keeps.andThen (Q := fun _ => True) (Keeps.ignore (Q := fun _ => True) ?_) fun _ => ?_
        · refine adds_under hn2 fun s' n' hl' hn' hd => ?_
          exact adds_append_graph_node hl' hn' (by rw [hd]; exact hplain) _ _
        · exact (adds_of_calm self fun _ => calm_set_resume_policy f _).andThen fun _ => hwait
    | _ => exact hload

theorem adds_on_hitl_response (hl : s.frames.Linked) (response : HitlResponse) :
    Adds s (exec (SessionCheckpointer.on_hitl_response response.id response.answers) s).2 := by
  refine Keeps.run (Q := fun _ => True) ?_ (.refl hl)
  unfold SessionCheckpointer.on_hitl_response
  refine (adds_of_calm (plain true) fun _ => calm_asks _).andThen fun o => ?_
  split
  · exact keeps_pure trivial
  · rename_i f
    refine (adds_of_calm (plain true) fun _ => calm_read f _).andThen fun o => ?_
    split
    · exact keeps_throw _
    · refine (adds_of_calm (plain true) fun _ => calm_log _).andThen fun _ => ?_
      exact (adds_mark_and_emit _ _ _).andThen fun _ => keeps_throw _

theorem adds_on_frame_ready (f : FrameId) :
    Keeps (Adds s) (self.on_frame_ready f) (fun _ => True) := by
  unfold SessionCheckpointer.on_frame_ready SessionCheckpointer.run_frame
  refine (adds_of_calm self fun _ => calm_latest f).andThen fun x => ?_
  refine (adds_of_calm self fun _ => calm_read f _).andThen fun logs => ?_
  refine (adds_of_calm self fun _ => calm_read f _).andThen fun data => ?_
  refine (keeps_asks (Q := fun _ => True) fun _ _ => trivial).andThen fun calls => ?_
  refine Keeps.andThen (Q := fun _ => True) (adds_of fun s' hl => ?_) fun _ => ?_
  · exact Steady.adds ⟨hl, .refl (Nat.le_refl _), rfl⟩
  · split
    · exact keeps_pure trivial
    · exact keeps_throw _

theorem adds_on_frame_terminated (f : FrameId) :
    Keeps (Adds s) (SessionCheckpointer.on_frame_terminated f) (fun _ => True) := by
  unfold SessionCheckpointer.on_frame_terminated
  refine (adds_of_calm (plain true) fun _ => calm_asks _).andThen fun o => ?_
  split
  · exact adds_of fun _ hl => (steady_emit hl _).adds
  · exact keeps_pure trivial

end Adds

/-! ## The frames of a session -/

/-- The frames that have a parent are usual. A node starts by a run, and stands under no node. -/
structure Laid (t : FrameTree) : Prop where
  linked : t.Linked
  usual : ∀ x n p, t.find x = some n → n.parent = some p → n.Usual
  starts : ∀ x n, t.find x = some n → n.data.is_node → n.frame_policy.on_start_policy = .RunFrame
  placed : ∀ x n p, t.find x = some n → n.data.is_node → n.parent = some p →
    ∃ m, t.find p = some m ∧ ¬ m.data.is_node

section Laid

variable {self : SessionCheckpointer} {s s' : State}

theorem Laid.adds (h : Laid s.frames) (hs : Adds s s') : Laid s'.frames := by
  have hcases : ∀ x n, s'.frames.find x = some n → s.frames.next ≤ x.id ∨
      ∃ m, s.frames.find x = some m ∧ Kept True True m n := fun x n hn => hs.evolves.cases hn
  refine ⟨hs.linked, fun x n p hn hp => ?_, fun x n hn hnode => ?_, fun x n p hn hnode hp => ?_⟩
  · rcases hcases x n hn with hx | ⟨m, hm, hk⟩
    · exact (hs.new x n hn hx).1
    · rw [hk.parent] at hp
      exact (h.usual x m p hm hp).kept hk
  · rcases hcases x n hn with hx | ⟨m, hm, hk⟩
    · exact (hs.new x n hn hx).1.starts hnode
    · rw [hk.data] at hnode
      rw [hk.frame_policy]
      exact h.starts x m hm hnode
  · rcases hcases x n hn with hx | ⟨m, hm, hk⟩
    · exact (hs.new x n hn hx).2 hnode p hp
    · rw [hk.data] at hnode
      rw [hk.parent] at hp
      obtain ⟨k, hkp, hplain⟩ := h.placed x m p hm hnode hp
      obtain ⟨k', hk', hkept⟩ := hs.found hkp
      refine ⟨k', hk', ?_⟩
      rw [hkept.data]
      exact hplain

theorem adds_on_event (self : SessionCheckpointer) (h : Laid s.frames)
    (event : SessionCheckpointEvent) : Adds s (exec (self.on_event event) s).2 := by
  have hl := h.linked
  cases event with
  | SessionCreated => exact .refl hl
  | HitlAnswered response => exact adds_on_hitl_response hl response
  | FrameCreated f => exact adds_on_frame_created hl fun n => h.starts f n
  | FrameRunJobStateUpdate f job_state => exact (adds_on_frame_run_update f job_state).run (.refl hl)
  | FrameReady f => exact (adds_on_frame_ready f).run (.refl hl)
  | FrameRunTerminated f => exact adds_on_frame_run_terminated hl fun n p => h.placed f n p
  | ChildFrameTerminated p c => exact adds_on_child_frame_terminated hl p c
  | FrameTerminated f => exact (adds_on_frame_terminated f).run (.refl hl)

/-- The frames that an event makes are usual. -/
theorem adds_step (self : SessionCheckpointer) (h : Laid s.frames)
    (event : SessionCheckpointEvent) : Adds s (self.step s event) := by
  obtain ⟨session_status, hstep⟩ := step_eq self s event
  have hadds := adds_on_event self h event
  rw [hstep]
  exact ⟨hadds.evolves, hadds.linked, hadds.new⟩

theorem laid_start (args : NewFrameNodeArgs) (initial_channels : List (ChannelName × Value))
    (rows : SnapshotRows)
    (h : args.data.is_node → args.frame_policy.on_start_policy = .RunFrame) :
    Laid (self.start args initial_channels rows).state.frames := by
  have hroot : ∀ x n, (self.start args initial_channels rows).state.frames.find x = some n →
      n.parent = none ∧ n.data = args.data ∧ n.frame_policy = args.frame_policy := by
    intro x n hn
    rw [find_start] at hn
    split at hn
    · cases hn
      exact ⟨rfl, rfl, rfl⟩
    · cases hn
  refine ⟨linked_start self args initial_channels rows, fun x n p hn hp => ?_,
    fun x n hn hnode => ?_, fun x n p hn hnode hp => ?_⟩
  · rw [(hroot x n hn).1] at hp
    cases hp
  · obtain ⟨-, hdata, hpolicy⟩ := hroot x n hn
    rw [hdata] at hnode
    rw [hpolicy]
    exact h hnode
  · rw [(hroot x n hn).1] at hp
    cases hp

end Laid

end marie.session
