-- What the checkpointer does to the outline of its frames. A quiet call leaves
-- it, a mark changes the run of a node, and an append makes it grow; the calls
-- that append the frames of a graph are put together of these.
import Marie.Session.GraphOutline
import Marie.Session.RunTermination

namespace marie.session

open Program FrameTree

/-! ## The outline of the frames -/

def FrameNode.part (n : FrameNode) : Part where
  kind := n.data
  parent := n.parent
  children := n.children
  run := n.data.run n.status

def FrameTree.outline (t : FrameTree) : Outline := fun x => (t.find x).map FrameNode.part

/-- A frame of the graph of the walk. The root starts the thread, and only nodes have runs that
completed. -/
structure Walk.Owns (w : Walk) (x : FrameId) (n : FrameNode) : Prop where
  spec_ref : n.spec_ref = .Graph w.graph_ref
  on_start : n.frame_policy.on_start_policy =
    if x = ⟨0⟩ then .AppendGraphThread w.graph_ref w.entry else .RunFrame
  root : x = ⟨0⟩ → n.frame_policy.resume_policy = .Sequential
  runs : ∀ response, n.status = .RunCompleted response → n.part.run ≠ none

def Walk.OfGraph (w : Walk) (t : FrameTree) : Prop := ∀ x n, t.find x = some n → w.Owns x n

section Outlines

variable {w : Walk} {t t' : FrameTree} {f p x : FrameId} {n : FrameNode} {k : Part}

theorem outline_of_find (h : t.find x = some n) : t.outline x = some n.part := by
  simp [outline, h]

theorem find_of_outline (h : t.outline x = some k) : ∃ n, t.find x = some n ∧ n.part = k :=
  Option.map_eq_some_iff.mp h

theorem outline_fresh (h : t.next ≤ x.id) : t.outline x = none := by
  simp [outline, find_fresh h]

theorem fresh_outline (t : FrameTree) : t.outline.Fresh t.next := fun _ hx => outline_fresh hx

theorem arena_of_find (hstore : ∀ y, t.store y = none) (h : t.find x = some n) :
    ∃ c, t.arena x = some c ∧ c.node = n := by
  cases hc : t.arena x with
  | some c =>
    rw [find_of_arena hc] at h
    exact ⟨c, rfl, Option.some.inj h⟩
  | none =>
    rw [find_of_not_resident hc, hstore] at h
    cases h

theorem outline_congr (h : ∀ y, t'.find y = t.find y) : t'.outline = t.outline :=
  funext fun y => by simp [outline, h]

/-- A write that keeps the place, the kind and the status of the node. -/
theorem outline_edit {φ : FrameNode → FrameNode} (hφ : ∀ m, (φ m).part = m.part) :
    (t.edit f φ).outline = t.outline := by
  funext y
  by_cases hy : y = f
  · subst hy
    cases hc : t.arena y with
    | some c =>
      rw [outline_of_find (find_edit_self hc), outline_of_find (find_of_arena hc), hφ]
    | none => simp [outline, find, edit, hc]
  · simp [outline, find_edit_ne hy]

/-- A write that keeps all that the walk looks at. -/
def KeepsPart (φ : FrameNode → FrameNode) : Prop :=
  ∀ m, (φ m).part = m.part ∧ (φ m).spec_ref = m.spec_ref ∧ (φ m).frame_policy = m.frame_policy ∧
    (φ m).status = m.status

theorem ofGraph_edit {φ : FrameNode → FrameNode} (h : w.OfGraph t) (hφ : KeepsPart φ) :
    w.OfGraph (t.edit f φ) := by
  intro y m hm
  by_cases hy : y = f
  · subst hy
    cases hc : t.arena y with
    | some c =>
      rw [find_edit_self hc] at hm
      cases hm
      obtain ⟨hpart, href, hpolicy, hstatus⟩ := hφ c.node
      have hold := h y c.node (find_of_arena hc)
      refine ⟨href.trans hold.spec_ref, ?_, fun hy => ?_, fun response hr => ?_⟩
      · rw [hpolicy]
        exact hold.on_start
      · rw [hpolicy]
        exact hold.root hy
      · rw [hpart]
        exact hold.runs response (hstatus.symm.trans hr)
    | none =>
      refine h y m ?_
      simpa [find, edit, hc] using hm
  · rw [find_edit_ne hy] at hm
    exact h y m hm

theorem run_mark (kind : FrameKind) (old status : FrameStatus) :
    (kind.run old).map (fun _ => status) = kind.run status := by
  cases kind <;> rfl

theorem eq_of_run {kind : FrameKind} {old status : FrameStatus} (h : kind.run old = some status) :
    status = old := by
  cases kind <;> simp_all [FrameKind.run]

/-- A mark of a frame that is no node leaves the outline. -/
theorem mark_plain {o : Outline} {status : FrameStatus} (h : ∀ k, o f = some k → k.run = none) :
    o.mark f status = o := by
  funext y
  by_cases hy : y = f
  · subst hy
    simp only [Outline.mark, if_true]
    cases hk : o y with
    | none => rfl
    | some k =>
      have hrun := h k hk
      obtain ⟨kind, parent, children, run⟩ := k
      cases hrun
      rfl
  · exact Outline.mark_ne hy

end Outlines

/-! ## Calls that draw -/

/-- From `s` to `s'`, the outline becomes `o`, some frames are made, and some events are sent. -/
structure Draws (w : Walk) (s s' : State) (o : Outline) (made : Nat)
    (sent : List SessionCheckpointEvent) : Prop where
  outline : s'.frames.outline = o
  next : s'.frames.next = s.frames.next + made
  listeners : s'.listeners = s.listeners ++ sent
  store : s'.frames.store = s.frames.store
  ofGraph : w.OfGraph s.frames → w.OfGraph s'.frames

/-- The events of some new frames. -/
def created (next made : Nat) : List SessionCheckpointEvent :=
  (List.range' next made).map fun i => .FrameCreated ⟨i⟩

section Calls

variable {self : SessionCheckpointer} {w : Walk} {s s₁ s' : State} {o o' : Outline}
  {f p x : FrameId} {n : FrameNode} {made made' : Nat} {sent sent' : List SessionCheckpointEvent}

theorem Draws.refl (s : State) : Draws w s s s.frames.outline 0 [] :=
  ⟨rfl, rfl, (List.append_nil _).symm, rfl, id⟩

theorem Draws.trans (h : Draws w s s₁ o made sent) (h' : Draws w s₁ s' o' made' sent') :
    Draws w s s' o' (made + made') (sent ++ sent') where
  outline := h'.outline
  next := by rw [h'.next, h.next, Nat.add_assoc]
  listeners := by rw [h'.listeners, h.listeners, List.append_assoc]
  store := h'.store.trans h.store
  ofGraph hs := h'.ofGraph (h.ofGraph hs)

/-- A call that draws nothing comes first. -/
theorem Draws.after (h' : Draws w s₁ s' o made sent) (h : Draws w s s₁ s.frames.outline 0 []) :
    Draws w s s' o made sent := by
  have htrans := h.trans h'
  rwa [Nat.zero_add, List.nil_append] at htrans

/-- A call that draws nothing comes last. -/
theorem Draws.before (h : Draws w s s₁ o made sent)
    (h' : Draws w s₁ s' s₁.frames.outline 0 []) : Draws w s s' o made sent := by
  have htrans := h.trans h'
  rwa [Nat.add_zero, List.append_nil, h.outline] at htrans

theorem Draws.storeless (h : Draws w s s' o made sent) (hs : ∀ y, s.frames.store y = none) :
    ∀ y, s'.frames.store y = none := by
  rw [h.store]
  exact hs

theorem draws_edit {φ : FrameNode → FrameNode} (f : FrameId) (hφ : KeepsPart φ) :
    Draws w s { s with frames := s.frames.edit f φ } s.frames.outline 0 [] where
  outline := outline_edit fun m => (hφ m).1
  next := rfl
  listeners := (List.append_nil _).symm
  store := rfl
  ofGraph hs := ofGraph_edit hs hφ

theorem QuietAct.draws (h : QuietAct self s s') : Draws w s s' s.frames.outline 0 [] := by
  cases h with
  | @load t ht =>
    refine ⟨outline_congr ht.find, ht.next, (List.append_nil _).symm, ht.store, fun hs y m hm => ?_⟩
    exact hs y m ((ht.find y).symm.trans hm)
  | fill f channels superstep => exact draws_edit f fun _ => ⟨rfl, rfl, rfl, rfl⟩
  | log f entries => exact draws_edit f fun _ => ⟨rfl, rfl, rfl, rfl⟩
  | _ => exact ⟨rfl, rfl, (List.append_nil _).symm, rfl, id⟩

theorem Calm.draws (h : Calm self s s') : Draws w s s' s.frames.outline 0 [] :=
  h.keeps (I := fun a => Draws w s a s.frames.outline 0 []) (fun _ _ hab ha => ha.before hab.draws)
    (.refl s)

/-- A quiet call that ends well. -/
theorem draws_of_calm (self : SessionCheckpointer) {α : Type} {m : Ckp α} {Q : α → Prop}
    {r : Except Fault α} (h : ∀ s, Keeps (Calm self s) m Q) (hrun : exec m s = (r, s')) :
    Draws w s s' s.frames.outline 0 [] := by
  have hcalm := (h s).run (.refl s)
  rw [hrun] at hcalm
  exact hcalm.draws

theorem draws_emits (s : State) (events : List SessionCheckpointEvent) :
    Draws w s (s.emits events) s.frames.outline 0 events :=
  ⟨rfl, rfl, rfl, rfl, id⟩

/-! ### Marks -/

/-- A status that `f` may have. -/
def Fair (s : State) (f : FrameId) (status : FrameStatus) : Prop :=
  ∀ response, status = .RunCompleted response → ∃ k, s.frames.outline f = some k ∧ k.run ≠ none

theorem draws_marked {status : FrameStatus} (hn : s.frames.find f = some n)
    (hfair : Fair s f status) : Draws w s (s.marked f status) (s.frames.outline.mark f status) 0 [] where
  outline := by
    funext y
    change Option.map _ ((s.marked f status).frames.find y) = _
    rw [find_marked hn]
    by_cases hy : y = f
    · subst hy
      simp [Outline.mark, outline_of_find hn, FrameNode.part, run_mark]
    · rw [if_neg hy, Outline.mark_ne hy]
      rfl
  next := rfl
  listeners := (List.append_nil _).symm
  store := rfl
  ofGraph hs := by
    intro y m hm
    rw [find_marked hn] at hm
    split at hm
    · rename_i hy
      subst hy
      cases hm
      have hold := hs _ n hn
      refine ⟨hold.spec_ref, hold.on_start, hold.root, fun response hr => ?_⟩
      obtain ⟨k, hk, hrun⟩ := hfair response hr
      rw [outline_of_find hn] at hk
      cases hk
      rw [FrameNode.part, ← run_mark n.data n.status]
      exact fun hnone => hrun (Option.map_eq_none_iff.mp hnone)
    · exact hs y m hm

/-- A mark with the events that it sends. -/
theorem draws_mark {status : FrameStatus} (hn : s.frames.find f = some n) (hfair : Fair s f status)
    (events : List SessionCheckpointEvent) :
    Draws w s ((s.marked f status).emits events) (s.frames.outline.mark f status) 0 events := by
  have hmark := (draws_marked (w := w) hn hfair).trans (draws_emits (w := w) _ events)
  rwa [Nat.add_zero, List.nil_append, (draws_marked (w := w) hn hfair).outline] at hmark

theorem draws_mark_as_waiting_children {r : Except Fault Unit}
    (hplain : ∀ k, s.frames.outline f = some k → k.run = none)
    (hrun : exec (mark_as_waiting_children f) s = (r, s')) :
    Draws w s s' s.frames.outline 0 [] := by
  unfold mark_as_waiting_children at hrun
  cases hn : s.frames.find f with
  | none =>
    rw [exec_set_status_none hn] at hrun
    cases hrun
    exact .refl s
  | some n =>
    rw [exec_set_status hn] at hrun
    cases hrun
    have hfair : Fair s f .WaitingChildren := fun _ h => by cases h
    have hmark := draws_marked (w := w) hn hfair
    rwa [mark_plain hplain] at hmark

/-! ### New frames -/

theorem draws_appended {args : NewFrameNodeArgs} {c : FrameNodeContainer}
    (hc : s.frames.arena p = some c) (href : args.spec_ref = .Graph w.graph_ref)
    (hstart : args.frame_policy.on_start_policy = .RunFrame) :
    Draws w s (s.appended p args) (s.frames.outline.grow p ⟨s.frames.next⟩ args.data) 1 [] := by
  have hfree : s.frames.arena ⟨s.frames.next⟩ = none := s.frames.arena_fresh _ (Nat.le_refl _)
  obtain ⟨k, hk, hbare, hparent, hchildren⟩ := append_new hc args
  have hold : ∀ y cy, s.frames.arena y = some cy → y ≠ ⟨s.frames.next⟩ := by
    rintro y cy hy rfl
    rw [hfree] at hy
    cases hy
  have hgone : ∀ y, y ≠ ⟨s.frames.next⟩ → s.frames.arena y = none →
      (s.frames.append p args).2.find y = s.frames.find y := by
    intro y hne hy
    rw [find_of_not_resident (append_absent hc args hy hne), find_of_not_resident hy,
      append_store hc]
  constructor
  · funext y
    change (s.frames.append p args).2.outline y = _
    by_cases hy : y = ⟨s.frames.next⟩
    · subst hy
      have hdata : k.data = args.data := FrameNode.of_bare (·.data) (fun _ => rfl) hbare
      have hstatus : k.status = .Pending := FrameNode.of_bare (·.status) (fun _ => rfl) hbare
      rw [outline_of_find (find_of_arena hk), Outline.grow_self, FrameNode.part, hdata, hparent,
        hchildren, hstatus]
    · cases hcy : s.frames.arena y with
      | none =>
        have hyp : y ≠ p := by
          rintro rfl
          rw [hc] at hcy
          cases hcy
        rw [Outline.grow_ne hy hyp, outline, hgone y hy hcy]
        rfl
      | some cy =>
        obtain ⟨c', hc', hb, hpar, hch⟩ := append_node hc args hcy
        have hdata : c'.node.data = cy.node.data := FrameNode.of_bare (·.data) (fun _ => rfl) hb
        have hstatus : c'.node.status = cy.node.status :=
          FrameNode.of_bare (·.status) (fun _ => rfl) hb
        rw [outline_of_find (find_of_arena hc'), FrameNode.part, hdata, hstatus, hpar, hch]
        by_cases hyp : y = p
        · subst hyp
          rw [Outline.grow_host hy (outline_of_find (find_of_arena hcy)), if_pos rfl]
          rfl
        · rw [Outline.grow_ne hy hyp, outline_of_find (find_of_arena hcy), if_neg hyp]
          rfl
  · exact append_next hc args
  · exact (List.append_nil _).symm
  · exact append_store hc args
  · intro hs y m hm
    change (s.frames.append p args).2.find y = some m at hm
    by_cases hy : y = ⟨s.frames.next⟩
    · subst hy
      rw [find_of_arena hk] at hm
      cases hm
      have href' : k.spec_ref = args.spec_ref := FrameNode.of_bare (·.spec_ref) (fun _ => rfl) hbare
      have hpolicy : k.frame_policy = args.frame_policy :=
        FrameNode.of_bare (·.frame_policy) (fun _ => rfl) hbare
      have hne : (⟨s.frames.next⟩ : FrameId) ≠ ⟨0⟩ := by
        have hlt := id_lt_next (find_of_arena hc)
        simp only [ne_eq, FrameId.mk.injEq]
        omega
      have hstatus : k.status = .Pending := FrameNode.of_bare (·.status) (fun _ => rfl) hbare
      refine ⟨href'.trans href, ?_, fun h0 => absurd h0 hne, fun response hr => ?_⟩
      · rw [if_neg hne, hpolicy, hstart]
      · rw [hstatus] at hr
        cases hr
    · cases hcy : s.frames.arena y with
      | none =>
        rw [hgone y hy hcy] at hm
        exact hs y m hm
      | some cy =>
        obtain ⟨c', hc', hb, -⟩ := append_node hc args hcy
        rw [find_of_arena hc'] at hm
        cases hm
        have href' : c'.node.spec_ref = cy.node.spec_ref :=
          FrameNode.of_bare (·.spec_ref) (fun _ => rfl) hb
        have hdata : c'.node.data = cy.node.data := FrameNode.of_bare (·.data) (fun _ => rfl) hb
        have hstatus : c'.node.status = cy.node.status :=
          FrameNode.of_bare (·.status) (fun _ => rfl) hb
        have hpolicy : c'.node.frame_policy = cy.node.frame_policy :=
          FrameNode.of_bare (·.frame_policy) (fun _ => rfl) hb
        have hold := hs y cy.node (find_of_arena hcy)
        refine ⟨href'.trans hold.spec_ref, ?_, fun h0 => ?_, fun response hr => ?_⟩
        · rw [hpolicy, hold.on_start]
        · rw [hpolicy, hold.root h0]
        · rw [hstatus] at hr
          rw [FrameNode.part, hdata, hstatus]
          exact hold.runs response hr

/-- A frame that was appended. -/
theorem draws_append_frame {args : NewFrameNodeArgs} (hstore : ∀ y, s.frames.store y = none)
    (hp : s.frames.find p = some n) (href : args.spec_ref = .Graph w.graph_ref)
    (hstart : args.frame_policy.on_start_policy = .RunFrame)
    (hrun : exec (self.append_frame p args) s = (.ok x, s')) :
    x = ⟨s.frames.next⟩ ∧
      Draws w s s' (s.frames.outline.grow p ⟨s.frames.next⟩ args.data) 1
        (created s.frames.next 1) := by
  obtain ⟨c, hc, -⟩ := arena_of_find hstore hp
  rw [append_frame_eq] at hrun
  obtain ⟨policy, s1, hpolicy, hrun⟩ := exec_bind_eq_ok hrun
  obtain ⟨spec, s2, hspec, hrun⟩ := exec_bind_eq_ok hrun
  obtain ⟨u, s3, hfill, hrun⟩ := exec_bind_eq_ok hrun
  obtain ⟨v, s4, hinherit, hrun⟩ := exec_bind_eq_ok hrun
  have hcalm : Draws w (s.appended p args) s4 (s.appended p args).frames.outline 0 [] := by
    have h1 : Draws w (s.appended p args) s1 _ 0 [] :=
      draws_of_calm self (fun _ => calm_read p _) hpolicy
    have h2 : Draws w s1 s2 _ 0 [] := draws_of_calm self (fun _ => calm_common_spec_of _ _) hspec
    have h3 : Draws w s2 s3 _ 0 [] :=
      draws_of_calm self (fun _ => calm_fill fun _ => by rfl) hfill
    have h4 : Draws w s3 s4 _ 0 [] := draws_of_calm self (fun _ => calm_inherit_channels _ _ _) hinherit
    exact ((h1.before h2).before h3).before h4
  cases hrun
  refine ⟨rfl, ?_⟩
  have hgrown := (draws_appended hc href hstart).before hcalm
  have hsent := hgrown.trans (draws_emits (w := w) s4 (created s.frames.next 1))
  rwa [hgrown.outline] at hsent

theorem created_append (next made made' : Nat) :
    created next made ++ created (next + made) made' = created next (made + made') := by
  rw [created, created, created, ← List.map_append, List.range'_append_1]

theorem draws_append_graph_node {node_id : NodeId} {r : Unit}
    (hstore : ∀ y, s.frames.store y = none) (hp : s.frames.find p = some n)
    (hrun : exec (self.append_graph_node p w.graph_ref node_id) s = (.ok r, s')) :
    Draws w s s' (s.frames.outline.grow p ⟨s.frames.next⟩ (.GraphNode w.graph_ref node_id)) 1
      (created s.frames.next 1) := by
  unfold SessionCheckpointer.append_graph_node at hrun
  obtain ⟨x, s1, happend, hrun⟩ := exec_bind_eq_ok hrun
  cases hrun
  exact (draws_append_frame hstore hp rfl rfl happend).2

theorem draws_append_graph_thread {start : NodeId} (hstore : ∀ y, s.frames.store y = none)
    (hp : s.frames.find p = some n)
    (hrun : exec (self.append_graph_thread p w.graph_ref start) s = (.ok x, s')) :
    Draws w s s' ((s.frames.outline.grow p ⟨s.frames.next⟩ (.GraphThread w.graph_ref)).grow
        ⟨s.frames.next⟩ ⟨s.frames.next + 1⟩ (.GraphNode w.graph_ref start)) 2
      (created s.frames.next 2) := by
  unfold SessionCheckpointer.append_graph_thread at hrun
  obtain ⟨t, s1, happend, hrun⟩ := exec_bind_eq_ok hrun
  obtain ⟨u, s2, hmark, hrun⟩ := exec_bind_eq_ok hrun
  obtain ⟨v, s3, hnode, hrun⟩ := exec_bind_eq_ok hrun
  cases hrun
  obtain ⟨rfl, hthread⟩ := draws_append_frame (w := w) hstore hp rfl rfl happend
  have hself : s1.frames.outline ⟨s.frames.next⟩ = some ⟨.GraphThread w.graph_ref, some p, [], none⟩ := by
    rw [hthread.outline, Outline.grow_self]
    rfl
  have hwait : Draws w s1 s2 s1.frames.outline 0 [] := by
    refine draws_mark_as_waiting_children (fun k hk => ?_) hmark
    rw [hself] at hk
    cases hk
    rfl
  have hmade := hthread.before hwait
  obtain ⟨m, hm, -⟩ := find_of_outline (t := s2.frames) (by rw [hwait.outline, hself])
  have hlast := hmade.trans (draws_append_graph_node (hmade.storeless hstore) hm hnode)
  rwa [hmade.next, hmade.outline, created_append] at hlast

/-- The threads of a fork. -/
theorem draws_branches {branches : List Branch} {r : PUnit} (hstore : ∀ y, s.frames.store y = none)
    (hp : s.frames.find p = some n)
    (hrun : exec (branches.forM (self.append_branch p w.graph_ref)) s = (.ok r, s')) :
    Draws w s s' (Outline.branch w.graph_ref p s.frames.next branches s.frames.outline)
      (2 * branches.length) (created s.frames.next (2 * branches.length)) := by
  induction branches generalizing s n with
  | nil =>
    cases hrun
    exact .refl _
  | cons branch branches ih =>
    obtain ⟨u, s2, hbranch, hrun⟩ := exec_bind_eq_ok hrun
    unfold SessionCheckpointer.append_branch at hbranch
    obtain ⟨t, s1, hthread, hwrite⟩ := exec_bind_eq_ok hbranch
    have hquiet : Draws w s1 s2 s1.frames.outline 0 [] := by
      split at hwrite
      · cases hwrite
        exact .refl _
      · exact draws_of_calm self (fun _ => calm_write_to_inherited_channels _ _) hwrite
    have hmade := (draws_append_graph_thread hstore hp hthread).before hquiet
    have hfound : ∃ m, s2.frames.find p = some m := by
      have hlt := id_lt_next hp
      have hhost : s2.frames.outline p = some { n.part with
          children := n.part.children ++ [⟨s.frames.next⟩] } := by
        rw [hmade.outline, Outline.grow_ne, Outline.grow_host _ (outline_of_find hp)]
        all_goals
          intro heq
          rw [heq] at hlt
          simp only at hlt
          omega
      obtain ⟨m, hm, -⟩ := find_of_outline hhost
      exact ⟨m, hm⟩
    obtain ⟨m, hm⟩ := hfound
    have hrest := hmade.trans (ih (hmade.storeless hstore) hm hrun)
    rw [hmade.next, hmade.outline, created_append] at hrest
    have hlength : 2 + 2 * branches.length = 2 * (branch :: branches).length := by
      simp only [List.length_cons]
      omega
    rwa [hlength] at hrest

theorem draws_append_graph_span {branches : List Branch} {join : NodeId} {r : Unit}
    (hstore : ∀ y, s.frames.store y = none) (hp : s.frames.find p = some n)
    (hrun : exec (self.append_graph_span p w.graph_ref branches join) s = (.ok r, s')) :
    Draws w s s' (Outline.branch w.graph_ref ⟨s.frames.next⟩ (s.frames.next + 1) branches
        (s.frames.outline.grow p ⟨s.frames.next⟩ (.GraphSpan w.graph_ref join)))
      (1 + 2 * branches.length) (created s.frames.next (1 + 2 * branches.length)) := by
  unfold SessionCheckpointer.append_graph_span at hrun
  obtain ⟨span, s1, happend, hrun⟩ := exec_bind_eq_ok hrun
  obtain ⟨u, s2, hmark, hrun⟩ := exec_bind_eq_ok hrun
  obtain ⟨rfl, hspan⟩ := draws_append_frame (w := w) hstore hp rfl rfl happend
  have hself : s1.frames.outline ⟨s.frames.next⟩ =
      some ⟨.GraphSpan w.graph_ref join, some p, [], none⟩ := by
    rw [hspan.outline, Outline.grow_self]
    rfl
  have hwait : Draws w s1 s2 s1.frames.outline 0 [] := by
    refine draws_mark_as_waiting_children (fun k hk => ?_) hmark
    rw [hself] at hk
    cases hk
    rfl
  have hmade := hspan.before hwait
  obtain ⟨m, hm, -⟩ := find_of_outline (t := s2.frames) (by rw [hwait.outline, hself])
  have hlast := hmade.trans (draws_branches (hmade.storeless hstore) hm hrun)
  rwa [hmade.next, hmade.outline, created_append] at hlast

/-! ### The end of a node -/

/-- A frame that completes tells its parent. -/
theorem draws_mark_completed_frame {r : Unit} (hn : s.frames.find f = some n)
    (hparent : n.parent = some p) (hrun : exec (mark_completed_frame f) s = (.ok r, s')) :
    Draws w s s' (s.frames.outline.mark f .Completed) 0
      [.FrameTerminated f, .ChildFrameTerminated p f] := by
  rw [exec_mark_completed hn, hparent] at hrun
  cases hrun
  exact draws_mark hn (fun _ h => by cases h) _

/-- The frames that are made, and the end of the node. -/
theorem Draws.ends {r : Unit} (h : Draws w s s₁ o made (created s.frames.next made))
    (hk : o f = some k) (hparent : k.parent = some p)
    (hrun : exec (mark_completed_frame f) s₁ = (.ok r, s')) :
    Draws w s s' (o.mark f .Completed) made
      (created s.frames.next made ++ [.FrameTerminated f, .ChildFrameTerminated p f]) := by
  rw [← h.outline] at hk
  obtain ⟨n, hn, rfl⟩ := find_of_outline hk
  have hend := h.trans (draws_mark_completed_frame hn hparent hrun)
  rwa [h.outline, Nat.add_zero] at hend

theorem draws_dispatch {result : FrameResult} {node_id : NodeId} {c : FrameNodeContainer}
    {m : FrameNode} (hstore : ∀ y, s.frames.store y = none)
    (hget : self.graphs.get w.graph_ref = .ok w.spec) (hof : w.OfGraph s.frames)
    (hc : s.frames.arena f = some c) (hdata : c.node.data = .GraphNode w.graph_ref node_id)
    (hparent : c.node.parent = some p) (hm : s.frames.find p = some m) (hplain : m.part.run = none)
    (hne : p ≠ f) (hstep : result.IsStep)
    (hedge : result = .Continue → ∃ next, w.spec.edges node_id = some next)
    (hrun : exec (self.dispatch f result) s = (.ok (), s')) :
    Draws w s s' ((w.adds s.frames.outline s.frames.next p node_id result).mark f .Completed)
      (w.made node_id result)
      (created s.frames.next (w.made node_id result) ++
        [.FrameTerminated f, .ChildFrameTerminated p f]) := by
  have hpar : s.frames.parent_of f = some p := by simp [parent_of, hc, hparent]
  have hself := outline_of_find (find_of_arena hc)
  have hlt := id_lt_next (find_of_arena hc)
  have hnew : f ≠ ⟨s.frames.next⟩ := by
    rintro rfl
    exact Nat.lt_irrefl _ hlt
  have hgrown : ∀ kind, (s.frames.outline.grow p ⟨s.frames.next⟩ kind) f = some c.node.part := by
    intro kind
    rw [Outline.grow_ne hnew hne.symm, hself]
  -- One node more, and the end of this one.
  have hnode : ∀ target, exec (do
        self.append_graph_node p w.graph_ref target
        mark_completed_frame f) s = (.ok (), s') →
      Draws w s s' ((s.frames.outline.grow p ⟨s.frames.next⟩
        (.GraphNode w.graph_ref target)).mark f .Completed) 1
        (created s.frames.next 1 ++ [.FrameTerminated f, .ChildFrameTerminated p f]) := by
    intro target hboth
    obtain ⟨u, s1, happend, hend⟩ := exec_bind_eq_ok hboth
    exact (draws_append_graph_node hstore hm happend).ends (hgrown _) hparent hend
  cases result with
  | Continue =>
    obtain ⟨next, hnext⟩ := hedge rfl
    rw [exec_dispatch_continue hc hparent hdata hget hnext] at hrun
    simpa [Walk.adds, Walk.made, hnext] using hnode next hrun
  | GoTo target =>
    rw [exec_dispatch_goto target hc hparent hdata] at hrun
    exact hnode target hrun
  | Fork branches join =>
    have hm' : (s.loaded p).frames.find p = some m := by rw [State.loaded, find_load, hm]
    rw [exec_dispatch_fork branches join hpar hm (hof p m hm).spec_ref] at hrun
    obtain ⟨u, s1, hspan, hrun⟩ := exec_bind_eq_ok hrun
    rw [exec_bind_ok (exec_unpolled _ _), exec_bind_ok (exec_unpolled _ _)] at hrun
    obtain ⟨v, s2, hwait, hend⟩ := exec_bind_eq_ok hrun
    have hcalm : Calm self s (s.loaded p) := calm_loaded s p
    have hload : Draws w s (s.loaded p) s.frames.outline 0 [] := hcalm.draws
    have hmade := (draws_append_graph_span (w := w) (hload.storeless hstore) hm' hspan)
    rw [hload.outline, hload.next, Nat.add_zero] at hmade
    have hfresh := fresh_outline s.frames
    have hextends : s.frames.outline.Extends (w.adds s.frames.outline s.frames.next p node_id
        (.Fork branches join)) := Walk.extends_adds hfresh _
    obtain ⟨kp, hkp, -, -, hrunp⟩ := hextends.old p m.part (outline_of_find hm)
    obtain ⟨kf, hkf, -, hparf, -⟩ := hextends.old f c.node.part hself
    have hquiet : Draws w s1 s2 s1.frames.outline 0 [] := by
      refine draws_mark_as_waiting_children (fun k hk => ?_) hwait
      rw [hmade.outline] at hk
      cases hkp.symm.trans hk
      exact hrunp.trans hplain
    exact ((hmade.after hload).before hquiet).ends hkf (hparf.trans hparent) hend
  | Completed =>
    unfold SessionCheckpointer.dispatch at hrun
    exact draws_mark_completed_frame (find_of_arena hc) hparent hrun
  | _ => exact hstep.elim

end Calls

end marie.session
