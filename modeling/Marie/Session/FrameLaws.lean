-- What the operations of the frame tree change: the runs of its reads and
-- writes, and the tree that `append` leaves.
import Marie.Session.FrameTree

namespace marie.session

open Program

namespace FrameTree

variable {t : FrameTree} {id x : FrameId} {n : FrameNode}

/-! ## Nodes -/

theorem find_of_arena {c : FrameNodeContainer} (h : t.arena id = some c) :
    t.find id = some c.node := by
  simp [find, h]

theorem find_of_not_resident (h : t.arena id = none) : t.find id = t.store id := by
  simp [find, h]

theorem find_fresh (h : t.next ≤ id.id) : t.find id = none := by
  rw [find_of_not_resident (t.arena_fresh id h), t.store_fresh id h]

theorem id_lt_next (h : t.find id = some n) : id.id < t.next := by
  by_contra hlt
  rw [find_fresh (Nat.le_of_not_lt hlt)] at h
  cases h

@[simp] theorem load_next (t : FrameTree) (id : FrameId) : (t.load id).next = t.next := rfl

@[simp] theorem load_store (t : FrameTree) (id : FrameId) : (t.load id).store = t.store := rfl

@[simp] theorem edit_next (t : FrameTree) (id : FrameId) (f : FrameNode → FrameNode) :
    (t.edit id f).next = t.next := rfl

@[simp] theorem edit_store (t : FrameTree) (id : FrameId) (f : FrameNode → FrameNode) :
    (t.edit id f).store = t.store := rfl

@[simp] theorem find_load (t : FrameTree) (id x : FrameId) : (t.load id).find x = t.find x := by
  unfold find load
  by_cases hx : x = id
  · subst hx
    cases ha : t.arena x with
    | some c => simp [ha]
    | none => cases hs : t.store x <;> simp [ha, hs]
  · simp [hx]

/-- A node of the session is in the cache once it is loaded. -/
theorem resident_load (h : t.find id = some n) :
    ∃ c, (t.load id).arena id = some c ∧ c.node = n := by
  unfold find at h
  cases ha : t.arena id with
  | some c =>
    rw [ha] at h
    exact ⟨c, by simp [load, ha], by simpa using h⟩
  | none =>
    rw [ha] at h
    exact ⟨⟨n, false⟩, by simp [load, ha, h], rfl⟩

theorem load_of_resident {c : FrameNodeContainer} (h : t.arena id = some c) : t.load id = t := by
  have harena : (t.load id).arena = t.arena := by
    funext y
    by_cases hy : y = id
    · simp [load, hy, h]
    · simp [load, hy]
  cases t
  simp_all [load]

theorem find_edit_ne {f : FrameNode → FrameNode} (h : x ≠ id) : (t.edit id f).find x = t.find x := by
  simp [find, edit, h]

theorem find_edit_self {f : FrameNode → FrameNode} {c : FrameNodeContainer}
    (h : t.arena id = some c) : (t.edit id f).find id = some (f c.node) := by
  simp [find, edit, h]

/-- The nodes after a write through `get`. -/
theorem find_write {f : FrameNode → FrameNode} (h : t.find id = some n) (x : FrameId) :
    ((t.load id).edit id f).find x = if x = id then some (f n) else t.find x := by
  obtain ⟨c, hc, rfl⟩ := resident_load h
  by_cases hx : x = id
  · subst hx
    rw [find_edit_self hc, if_pos rfl]
  · rw [find_edit_ne hx, find_load, if_neg hx]

/-- No frame is bound to a request when the store is empty. -/
theorem get_frame_id_of_empty (h : ∀ x, t.store x = none) (hitl_id : HitlId) :
    t.get_frame_id_by_hitl_id hitl_id = none := by
  unfold get_frame_id_by_hitl_id
  rw [List.find?_eq_none]
  intro x _
  simp [h]

/-! ## Runs -/

theorem exec_get (h : t.find id = some n) : exec (get id) t = (.ok n, t.load id) := by
  unfold FrameTree.get
  rw [exec_bind_ok (exec_asks _ t)]
  simp only [h]
  rw [exec_bind_ok (exec_modify _ _)]
  rfl

theorem exec_get_none (h : t.find id = none) :
    exec (get id) t = (.error (.panic "frame introuvable ou erreur de stockage"), t) := by
  unfold FrameTree.get
  rw [exec_bind_ok (exec_asks _ t)]
  simp only [h]
  rfl

/-- A read of a field of a node. -/
theorem exec_get_map {β : Type} (f : FrameNode → β) (h : t.find id = some n) :
    exec (do pure (f (← get id))) t = (.ok (f n), t.load id) := by
  rw [exec_bind_ok (exec_get h)]
  rfl

theorem exec_write {f : FrameNode → FrameNode} (h : t.find id = some n) :
    exec (write id f) t = (.ok (), (t.load id).edit id f) := by
  unfold write
  rw [exec_bind_ok (exec_get h)]
  rfl

theorem exec_write_none {f : FrameNode → FrameNode} (h : t.find id = none) :
    exec (write id f) t = (.error (.panic "frame introuvable ou erreur de stockage"), t) := by
  unfold write
  rw [exec_bind_error (exec_get_none h)]

/-! ## Appending a frame -/

theorem ext_tree {t t' : FrameTree} (hs : t'.store = t.store) (ha : t'.arena = t.arena)
    (hn : t'.next = t.next) : t' = t := by
  cases t
  cases t'
  simp_all

/-- An edit that does not change the node, of a container that is dirty already. -/
theorem edit_eq_self {f : FrameNode → FrameNode} (h : t.arena id = some ⟨n, true⟩)
    (hf : f n = n) : t.edit id f = t := by
  refine ext_tree rfl ?_ rfl
  funext y
  by_cases hy : y = id
  · subst hy
    simp [edit, h, hf]
  · simp [edit, hy]

/-- The tree with the new node, before it is linked. -/
def created (t : FrameTree) (args : NewFrameNodeArgs) : FrameTree := (t.create_node args).2

theorem created_arena_self (args : NewFrameNodeArgs) :
    (t.created args).arena ⟨t.next⟩ = some ⟨.new ⟨t.next⟩ args, true⟩ := by
  simp [created, create_node]

theorem created_arena_ne (args : NewFrameNodeArgs) (h : x ≠ ⟨t.next⟩) :
    (t.created args).arena x = t.arena x := by
  simp [created, create_node, h]

/-- A new node has no link to undo. -/
theorem detach_created (args : NewFrameNodeArgs) :
    (t.created args).detach ⟨t.next⟩ = t.created args := by
  have hself := t.created_arena_self args
  have hsib : (t.created args).detach_from_siblings ⟨t.next⟩ = t.created args := by
    unfold detach_from_siblings
    rw [hself]
    exact edit_eq_self hself rfl
  unfold detach
  rw [hsib]
  unfold detach_from_parent
  have hparent : (t.created args).parent_of ⟨t.next⟩ = none := by
    simp [parent_of, hself, FrameNode.new]
  rw [hparent]

/-- The links that `insert_child` makes between the last child of the parent and the new
one. -/
def linkLast (t : FrameTree) (last : Option FrameId) (id : FrameId) : FrameTree :=
  (match last with
    | some q => t.link_siblings q id
    | none => t.edit id (fun n => { n with prev_sibling := none })).edit id
      (fun n => { n with next_sibling := none })

/-- The tree after `append`, when the cache has the parent. -/
theorem append_eq {p : FrameId} {c : FrameNodeContainer} (hp : t.arena p = some c)
    (args : NewFrameNodeArgs) :
    t.append p args =
      (⟨t.next⟩,
        (((t.created args).linkLast c.node.children.getLast? ⟨t.next⟩).edit p
          (fun n => { n with
            children := n.children.insertIdx c.node.children.length ⟨t.next⟩ })).edit ⟨t.next⟩
          (fun n => { n with parent := some p })) := by
  have hne : p ≠ ⟨t.next⟩ := by
    rintro rfl
    rw [t.arena_fresh ⟨t.next⟩ (Nat.le_refl _)] at hp
    cases hp
  have hlast : (if c.node.children.length = 0 then none
      else c.node.children[c.node.children.length - 1]?) = c.node.children.getLast? := by
    rw [List.getLast?_eq_getElem?]
    split
    · rename_i h0
      simp [List.length_eq_zero_iff.mp h0]
    · rfl
  have hp' : (t.created args).arena p = some c := by rw [created_arena_ne args hne, hp]
  have hend : c.node.children[c.node.children.length]? = none := by simp
  change (_, insert_child (t.created args) p ⟨t.next⟩ _) = _
  unfold insert_child
  simp only [hp, detach_created, hp', Nat.min_self, hlast, hend]
  unfold linkLast
  cases c.node.children.getLast? <;> rfl

end FrameTree

/-- A node without its links. -/
def FrameNode.bare (n : FrameNode) : FrameNode :=
  { n with parent := none, next_sibling := none, prev_sibling := none, children := [] }

/-- What does not read the links is the same for nodes that differ in them alone. -/
theorem FrameNode.of_bare {β : Type} {n n' : FrameNode} (φ : FrameNode → β)
    (hφ : ∀ n, φ n.bare = φ n) (h : n'.bare = n.bare) : φ n' = φ n := by
  rw [← hφ n', h, hφ]

namespace FrameTree

variable {t : FrameTree} {id x : FrameId} {n : FrameNode}

/-- What a function of the node gives at `x`, when the cache has it. -/
def view {β : Type} (φ : FrameNode → β) (t : FrameTree) (x : FrameId) : Option β :=
  (t.arena x).map (fun c => φ c.node)

theorem view_edit_of {β : Type} {φ : FrameNode → β} {f : FrameNode → FrameNode}
    (h : ∀ n, φ (f n) = φ n) (t : FrameTree) (id x : FrameId) :
    view φ (t.edit id f) x = view φ t x := by
  unfold view edit
  by_cases hx : x = id
  · subst hx
    cases hc : t.arena x <;> simp [hc, h]
  · simp [hx]

theorem view_linkLast {β : Type} {φ : FrameNode → β}
    (h : ∀ n prev next, φ { n with prev_sibling := prev, next_sibling := next } = φ n)
    (t : FrameTree) (last : Option FrameId) (id x : FrameId) :
    view φ (t.linkLast last id) x = view φ t x := by
  have hp : ∀ n prev, φ { n with prev_sibling := prev } = φ n := fun n prev =>
    h n prev n.next_sibling
  have hn : ∀ n next, φ { n with next_sibling := next } = φ n := fun n next =>
    h n n.prev_sibling next
  unfold linkLast
  rw [view_edit_of (fun n => hn n none)]
  cases last with
  | none => exact view_edit_of (fun n => hp n none) _ _ _
  | some q =>
    unfold link_siblings
    rw [view_edit_of (fun n => hp n (some q)), view_edit_of (fun n => hn n (some id))]

theorem view_created_ne {β : Type} (φ : FrameNode → β) (args : NewFrameNodeArgs)
    (h : x ≠ ⟨t.next⟩) : view φ (t.created args) x = view φ t x := by
  simp [view, created_arena_ne args h]

theorem view_created_self {β : Type} (φ : FrameNode → β) (args : NewFrameNodeArgs) :
    view φ (t.created args) ⟨t.next⟩ = some (φ (.new ⟨t.next⟩ args)) := by
  simp [view, created_arena_self]

section Append

variable {p : FrameId} {c : FrameNodeContainer}

theorem append_next (hp : t.arena p = some c) (args : NewFrameNodeArgs) :
    (t.append p args).2.next = t.next + 1 := by
  rw [append_eq hp]
  unfold linkLast
  cases c.node.children.getLast? <;> rfl

theorem append_store (hp : t.arena p = some c) (args : NewFrameNodeArgs) :
    (t.append p args).2.store = t.store := by
  rw [append_eq hp]
  unfold linkLast
  cases c.node.children.getLast? <;> rfl

/-- Apart from its links, no node changes. -/
theorem view_bare_append (hp : t.arena p = some c) (args : NewFrameNodeArgs) (x : FrameId) :
    view FrameNode.bare (t.append p args).2 x = view FrameNode.bare (t.created args) x := by
  rw [append_eq hp, view_edit_of (f := fun n => { n with parent := some p }) (fun _ => rfl),
    view_edit_of (f := fun n => { n with
      children := n.children.insertIdx c.node.children.length ⟨t.next⟩ }) (fun _ => rfl),
    view_linkLast (fun _ _ _ => rfl)]

/-- Only the new node gets a parent. -/
theorem view_parent_append (hp : t.arena p = some c) (args : NewFrameNodeArgs)
    (hx : x ≠ ⟨t.next⟩) :
    view (·.parent) (t.append p args).2 x = view (·.parent) t x := by
  rw [append_eq hp, view, edit]
  simp only [hx, if_false]
  change view (·.parent) _ x = _
  rw [view_edit_of (f := fun n => { n with
      children := n.children.insertIdx c.node.children.length ⟨t.next⟩ }) (fun _ => rfl),
    view_linkLast (fun _ _ _ => rfl), view_created_ne _ args hx]

/-- Only the parent gets a child, at the end of its children. -/
theorem view_children_append (hp : t.arena p = some c) (args : NewFrameNodeArgs)
    (hx : x ≠ ⟨t.next⟩) :
    view (·.children) (t.append p args).2 x =
      if x = p then some (c.node.children ++ [⟨t.next⟩]) else view (·.children) t x := by
  have hlink : view (·.children) ((t.created args).linkLast c.node.children.getLast? ⟨t.next⟩) x =
      view (·.children) t x := by
    rw [view_linkLast (fun _ _ _ => rfl), view_created_ne _ args hx]
  rw [append_eq hp, view_edit_of (f := fun n => { n with parent := some p }) (fun _ => rfl)]
  by_cases hxp : x = p
  · subst hxp
    have hview : view (·.children) t x = some c.node.children := by simp [view, hp]
    rw [hview] at hlink
    obtain ⟨c', hc', hch⟩ := Option.map_eq_some_iff.mp hlink
    simp only [view, edit, if_true, hc', Option.map_some, hch]
    rw [List.insertIdx_length_self]
  · rw [if_neg hxp, ← hlink]
    simp [view, edit, hxp]

/-- The new node. -/
theorem append_new (hp : t.arena p = some c) (args : NewFrameNodeArgs) :
    ∃ n, (t.append p args).2.arena ⟨t.next⟩ = some ⟨n, true⟩ ∧
      n.bare = (FrameNode.new ⟨t.next⟩ args).bare ∧ n.parent = some p ∧ n.children = [] := by
  have hne : (⟨t.next⟩ : FrameId) ≠ p := by
    rintro rfl
    rw [t.arena_fresh ⟨t.next⟩ (Nat.le_refl _)] at hp
    cases hp
  have hbare := view_bare_append hp args ⟨t.next⟩
  rw [view_created_self] at hbare
  have hchildren : view (·.children) (t.append p args).2 ⟨t.next⟩ = some [] := by
    rw [append_eq hp, view_edit_of (f := fun n => { n with parent := some p }) (fun _ => rfl)]
    have hlink : view (·.children)
        ((t.created args).linkLast c.node.children.getLast? ⟨t.next⟩) ⟨t.next⟩ = some [] := by
      rw [view_linkLast (fun _ _ _ => rfl), view_created_self]
      rfl
    rw [← hlink]
    simp [view, edit, hne]
  have hparent : ∀ c', (t.append p args).2.arena ⟨t.next⟩ = some c' →
      c'.dirty = true ∧ c'.node.parent = some p := by
    intro c' hc'
    rw [append_eq hp] at hc'
    simp only [edit, if_true, Option.map_eq_some_iff] at hc'
    obtain ⟨a, -, rfl⟩ := hc'
    exact ⟨rfl, rfl⟩
  obtain ⟨⟨n, d⟩, hn, hb⟩ := Option.map_eq_some_iff.mp hbare
  obtain ⟨hd, hpar⟩ := hparent _ hn
  simp only at hd
  subst hd
  refine ⟨n, hn, hb, hpar, ?_⟩
  simpa [view, hn] using hchildren

/-- A node of the cache after `append`. -/
theorem append_node (hp : t.arena p = some c) (args : NewFrameNodeArgs) {cx : FrameNodeContainer}
    (hx : t.arena x = some cx) :
    ∃ c', (t.append p args).2.arena x = some c' ∧ c'.node.bare = cx.node.bare ∧
      c'.node.parent = cx.node.parent ∧
      c'.node.children = if x = p then cx.node.children ++ [⟨t.next⟩] else cx.node.children := by
  have hne : x ≠ ⟨t.next⟩ := by
    rintro rfl
    rw [t.arena_fresh _ (Nat.le_refl _)] at hx
    cases hx
  have hbare := view_bare_append hp args x
  have hparent := view_parent_append hp args hne
  have hchildren := view_children_append hp args hne
  rw [view_created_ne _ args hne] at hbare
  simp only [view, hx, Option.map_some, Option.map_eq_some_iff] at hbare
  obtain ⟨c', hc', hb⟩ := hbare
  simp only [view, hc', hx, Option.map_some, Option.some.injEq] at hparent hchildren
  refine ⟨c', hc', hb, hparent, ?_⟩
  by_cases hxp : x = p
  · subst hxp
    rw [hp] at hx
    cases hx
    simpa using hchildren
  · simpa [hxp] using hchildren

theorem append_absent (hp : t.arena p = some c) (args : NewFrameNodeArgs) (hx : t.arena x = none)
    (hne : x ≠ ⟨t.next⟩) : (t.append p args).2.arena x = none := by
  have hbare := view_bare_append hp args x
  rw [view_created_ne _ args hne] at hbare
  simpa [view, hx] using hbare

/-- When the cache does not have the parent, the new node has no link, and nothing else
changes. -/
theorem append_orphan (hp : t.arena p = none) (args : NewFrameNodeArgs) :
    (t.append p args).2.next = t.next + 1 ∧ (t.append p args).2.store = t.store ∧
      ∀ y, y ≠ ⟨t.next⟩ → (t.append p args).2.arena y = t.arena y := by
  change (insert_child (t.created args) p ⟨t.next⟩ _).next = _ ∧
    (insert_child (t.created args) p ⟨t.next⟩ _).store = _ ∧ _
  by_cases hnew : p = ⟨t.next⟩
  · subst hnew
    have hself := t.created_arena_self args
    have heq : (t.append ⟨t.next⟩ args).2 = insert_child (t.created args) ⟨t.next⟩ ⟨t.next⟩ 0 := by
      change insert_child (t.created args) ⟨t.next⟩ ⟨t.next⟩ _ = _
      simp only [hp]
    rw [heq]
    unfold insert_child
    simp only [hp, detach_created, hself, FrameNode.new, List.length_nil, Nat.min_self, if_true,
      List.getElem?_nil]
    refine ⟨rfl, rfl, ?_⟩
    intro y hy
    simp only [edit, hy, if_false]
    exact created_arena_ne args hy
  · have hp' : (t.created args).arena p = none := by rw [created_arena_ne args hnew, hp]
    have heq : (t.append p args).2 = t.created args := by
      change insert_child (t.created args) p ⟨t.next⟩ _ = _
      unfold insert_child
      simp only [detach_created, hp']
    rw [heq]
    unfold insert_child
    simp only [detach_created, hp']
    exact ⟨rfl, rfl, fun y hy => created_arena_ne args hy⟩

end Append

/-! ## Specs -/

/-- The spec that `common_spec_of` reads for a node with this reference, when it is there. -/
def spec_of_ref (graphs : Graphs) : FrameSpecRef → Option CommonSpec
  | .Graph graph_ref => (graphs.get graph_ref).toOption.map (·.common)
  | .Hitl => some .hitl
  | .ToolCall => some .tool
  | .ToolAggregator => some .tool_aggregator
  | .Expert => some .expert
  | .ExpertAggregator => some .expert_aggregator

/-- The spec of a frame of the tree. -/
def spec_at (graphs : Graphs) (t : FrameTree) (id : FrameId) : Option CommonSpec :=
  (t.find id).bind fun n => spec_of_ref graphs n.spec_ref

@[simp] theorem spec_at_load (graphs : Graphs) (t : FrameTree) (id x : FrameId) :
    spec_at graphs (t.load id) x = spec_at graphs t x := by
  simp [spec_at]

theorem exec_common_spec_of {graphs : Graphs} {spec : CommonSpec}
    (h : spec_at graphs t id = some spec) :
    exec (common_spec_of graphs id) t = (.ok spec, t.load id) := by
  obtain ⟨n, hn, hspec⟩ := Option.bind_eq_some_iff.mp h
  unfold common_spec_of
  rw [exec_bind_ok (exec_get hn)]
  cases hr : n.spec_ref with
  | Graph graph_ref =>
    simp only [hr, spec_of_ref, Option.map_eq_some_iff] at hspec
    obtain ⟨g, hg, rfl⟩ := hspec
    cases hget : graphs.get graph_ref with
    | ok g' =>
      simp only [hget, Except.toOption, Option.some.injEq] at hg
      subst hg
      simp only [hget]
      rfl
    | error e => simp [hget, Except.toOption] at hg
  | _ =>
    simp only [hr, spec_of_ref, Option.some.injEq] at hspec
    subst hspec
    rfl

end FrameTree

end marie.session
