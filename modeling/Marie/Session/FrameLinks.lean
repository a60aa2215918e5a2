-- The rest of the operations of the frame tree: the walks over the siblings,
-- the removal of a subtree and the flush of a node. With each operation that
-- changes a link, the links of every node after it.
import Marie.Lib.LinkedForest
import Marie.Session.FrameLaws

namespace marie.session

namespace FrameTree

/-! ## Operations -/

/-- `FrameNodeContainer::flush`: a dirty node is written to the store. A node is in the cache
under its own identifier. -/
def flush (t : FrameTree) (id : FrameId) : FrameTree where
  store x := match t.arena x with
    | some c => if x = id ∧ c.dirty then some c.node else t.store x
    | none => t.store x
  arena x := if x = id then (t.arena x).map (fun c => ⟨c.node, false⟩) else t.arena x
  next := t.next
  store_fresh := by
    intro x hx
    simp [t.arena_fresh x hx, t.store_fresh x hx]
  arena_fresh := by
    intro x hx
    simp [t.arena_fresh x hx]

/-- `delete_frame`, when the store has the row. -/
def delete_frame (t : FrameTree) (id : FrameId) : FrameTree where
  store x := if x = id then none else t.store x
  arena := t.arena
  next := t.next
  store_fresh := by
    intro x hx
    simp [t.store_fresh x hx]
  arena_fresh := t.arena_fresh

/-- `self.arena.remove`. The container that leaves is not dirty after a `delete`, so its `Drop`
writes nothing. -/
def uncache (t : FrameTree) (id : FrameId) : FrameTree where
  store := t.store
  arena x := if x = id then none else t.arena x
  next := t.next
  store_fresh := t.store_fresh
  arena_fresh := by
    intro x hx
    simp [t.arena_fresh x hx]

/-- The `while let` over the siblings: `step` reads the link, and a walk that outruns its fuel
has no result. -/
def walk (step : FrameId → Option FrameId) : Nat → Option FrameId → Option (List FrameId)
  | _, none => some []
  | 0, some _ => none
  | fuel + 1, some curr => (walk step fuel (step curr)).map (curr :: ·)

def iter_next_siblings (t : FrameTree) (fuel : Nat) (id : FrameId) : Option (List FrameId) :=
  walk t.next_sibling_of fuel (t.next_sibling_of id)

def iter_prev_siblings (t : FrameTree) (fuel : Nat) (id : FrameId) : Option (List FrameId) :=
  walk t.prev_sibling_of fuel (t.prev_sibling_of id)

/-- A walk along a list, when each element leads to the one after it. -/
theorem walk_eq {step : FrameId → Option FrameId} {l : List FrameId}
    (h : ∀ a x b, l = a ++ x :: b → step x = b.head?) {fuel : Nat} (hfuel : l.length ≤ fuel) :
    walk step fuel l.head? = some l := by
  induction l generalizing fuel with
  | nil => simp [walk]
  | cons x l ih =>
    cases fuel with
    | zero => simp at hfuel
    | succ fuel =>
      have hnext : step x = l.head? := h [] x l rfl
      have htail : walk step fuel l.head? = some l :=
        ih (fun a y b hl => h (x :: a) y b (by rw [hl]; rfl)) (by simpa using hfuel)
      simp [walk, hnext, htail]

/-- How many nodes the cache has. -/
def residents (t : FrameTree) : Nat :=
  ((List.range t.next).filter fun i => (t.arena ⟨i⟩).isSome).length

/-- The node `x` of the cache. -/
def resident (t : FrameTree) (x : FrameId) : Option FrameNode := (t.arena x).map (·.node)

theorem resident_eq_none {t : FrameTree} {x : FrameId} : t.resident x = none ↔ t.arena x = none := by
  simp [resident]

theorem resident_eq_some {t : FrameTree} {x : FrameId} {n : FrameNode} :
    t.resident x = some n ↔ ∃ c, t.arena x = some c ∧ c.node = n := by
  simp [resident]

theorem resident_of_arena {t : FrameTree} {x : FrameId} {c : FrameNodeContainer}
    (h : t.arena x = some c) : t.resident x = some c.node := by
  simp [resident, h]

theorem resident_edit (t : FrameTree) (id x : FrameId) (f : FrameNode → FrameNode) :
    (t.edit id f).resident x = if x = id then (t.resident x).map f else t.resident x := by
  unfold resident edit
  by_cases hx : x = id
  · simp only [hx, if_true]
    cases t.arena id <;> rfl
  · simp [hx]

section Detach

variable {t : FrameTree} {x y : FrameId} {n : FrameNode}

/-- The node `y` after the siblings of `x` are linked to each other. -/
def besideDetached (x : FrameId) (n : FrameNode) (y : FrameId) (k : FrameNode) : FrameNode :=
  { k with
    prev_sibling := if y = x then none
      else if n.next_sibling = some y then n.prev_sibling else k.prev_sibling
    next_sibling := if y = x then none
      else if n.prev_sibling = some y then n.next_sibling else k.next_sibling }

/-- An edit of the neighbour `o`, when there is one. -/
def editNeighbour (t : FrameTree) (o : Option FrameId) (f : FrameNode → FrameNode) : FrameTree :=
  match o with
  | some p => t.edit p f
  | none => t

theorem resident_editNeighbour (t : FrameTree) (o : Option FrameId) (f : FrameNode → FrameNode)
    (y : FrameId) :
    (t.editNeighbour o f).resident y =
      if o = some y then (t.resident y).map f else t.resident y := by
  cases o with
  | none => simp [editNeighbour]
  | some p => simp only [editNeighbour, resident_edit, Option.some.injEq, eq_comm (a := p)]

theorem detach_from_siblings_eq {c : FrameNodeContainer} (hc : t.arena x = some c) :
    t.detach_from_siblings x =
      ((t.editNeighbour c.node.prev_sibling
        (fun k => { k with next_sibling := c.node.next_sibling })).editNeighbour
          c.node.next_sibling (fun k => { k with prev_sibling := c.node.prev_sibling })).edit x
            (fun k => { k with prev_sibling := none, next_sibling := none }) := by
  unfold detach_from_siblings
  rw [hc]
  rfl

theorem resident_detach_from_siblings (hx : t.resident x = some n) (y : FrameId) :
    (t.detach_from_siblings x).resident y = (t.resident y).map (besideDetached x n y) := by
  obtain ⟨c, hc, rfl⟩ := resident_eq_some.mp hx
  simp only [detach_from_siblings_eq hc, resident_edit, resident_editNeighbour]
  cases hy : t.resident y with
  | none => simp
  | some k =>
    by_cases hyx : y = x
    · subst hyx
      by_cases hn : c.node.next_sibling = some y <;> by_cases hp : c.node.prev_sibling = some y <;>
        simp [besideDetached, hn, hp]
    · by_cases hn : c.node.next_sibling = some y <;> by_cases hp : c.node.prev_sibling = some y <;>
        simp [besideDetached, hyx, hn, hp]

/-- The node `y` after `x`, the node `n`, is detached. -/
def afterDetach (x : FrameId) (n : FrameNode) (y : FrameId) (k : FrameNode) : FrameNode :=
  { besideDetached x n y k with
    parent := if y = x then none else k.parent
    children := if n.parent = some y then k.children.filter (· ≠ x) else k.children }

theorem resident_detach (hx : t.resident x = some n) (y : FrameId) :
    (t.detach x).resident y = (t.resident y).map (afterDetach x n y) := by
  have hself := resident_detach_from_siblings hx x
  rw [hx] at hself
  have hparent : (t.detach_from_siblings x).parent_of x = n.parent := by
    obtain ⟨c, hc, hcn⟩ := resident_eq_some.mp hself
    simp [parent_of, hc, hcn, besideDetached]
  unfold detach detach_from_parent
  rw [hparent]
  cases hp : n.parent with
  | none =>
    simp only [resident_detach_from_siblings hx]
    cases hy : t.resident y with
    | none => rfl
    | some k =>
      by_cases hyx : y = x
      · subst hyx
        rw [hx] at hy
        cases hy
        simp [afterDetach, besideDetached, hp]
      · simp [afterDetach, besideDetached, hyx, hp]
  | some p =>
    simp only [resident_edit, resident_detach_from_siblings hx]
    cases hy : t.resident y with
    | none => simp
    | some k =>
      by_cases hyx : y = x <;> by_cases hyp : y = p <;>
        simp_all [afterDetach, besideDetached, eq_comm (a := p)]

theorem detach_of_not_resident (hx : t.arena x = none) : t.detach x = t := by
  have hsib : t.detach_from_siblings x = t := by
    unfold detach_from_siblings
    rw [hx]
  unfold detach
  rw [hsib]
  unfold detach_from_parent
  simp [parent_of, hx]

theorem arena_detach_isSome (t : FrameTree) (x y : FrameId) :
    ((t.detach x).arena y).isSome = (t.arena y).isSome := by
  cases hx : t.arena x with
  | none => rw [detach_of_not_resident hx]
  | some c =>
    have h := congrArg Option.isSome (resident_detach (resident_of_arena hx) y)
    simpa [resident] using h

theorem editNeighbour_store (t : FrameTree) (o : Option FrameId) (f : FrameNode → FrameNode) :
    (t.editNeighbour o f).store = t.store ∧ (t.editNeighbour o f).next = t.next := by
  cases o <;> exact ⟨rfl, rfl⟩

theorem detach_store (t : FrameTree) (x : FrameId) :
    (t.detach x).store = t.store ∧ (t.detach x).next = t.next := by
  cases hx : t.arena x with
  | none => rw [detach_of_not_resident hx]; exact ⟨rfl, rfl⟩
  | some c =>
    have hsib : (t.detach_from_siblings x).store = t.store ∧
        (t.detach_from_siblings x).next = t.next := by
      rw [detach_from_siblings_eq hx]
      simp only [edit_store, edit_next, editNeighbour_store, and_self]
    unfold detach detach_from_parent
    split
    · exact hsib
    · exact hsib

end Detach

/-! ## Insertion -/

theorem insertIdx_between {α : Type} (pre post : List α) (x : α) :
    (pre ++ post).insertIdx pre.length x = pre ++ x :: post := by
  induction pre with
  | nil => simp
  | cons a pre ih => simp [ih]

section Insert

variable {t : FrameTree} {p : FrameId} {n : FrameNode}

/-- The node `y` after `x` comes between `pre` and `post` under `p`. -/
def besideInserted (p x : FrameId) (pre post : List FrameId) (y : FrameId) (k : FrameNode) :
    FrameNode :=
  { k with
    prev_sibling := if post.head? = some y then some x else k.prev_sibling
    next_sibling := if pre.getLast? = some y then some x else k.next_sibling
    children := if y = p then pre ++ x :: post else k.children }

theorem resident_created (t : FrameTree) (args : NewFrameNodeArgs) (y : FrameId) :
    (t.created args).resident y =
      if y = ⟨t.next⟩ then some (.new ⟨t.next⟩ args) else t.resident y := by
  by_cases hy : y = ⟨t.next⟩
  · subst hy
    rw [resident_of_arena (created_arena_self args), if_pos rfl]
  · simp [resident, created_arena_ne args hy, hy]

/-- Under a parent that the cache does not have, the new node stays alone. -/
theorem insert_orphan (hp : t.arena p = none) (hne : p ≠ ⟨t.next⟩) (args : NewFrameNodeArgs)
    (position : Nat) : t.insert p args position = (⟨t.next⟩, t.created args) := by
  change (_, insert_child (t.created args) p ⟨t.next⟩ position) = _
  unfold insert_child
  rw [detach_created]
  simp only [created_arena_ne args hne, hp]

/-- The links that `insert_child` makes, with the list of the parent cut in two. -/
theorem insert_eq {c : FrameNodeContainer} {pre post : List FrameId} (hp : t.arena p = some c)
    (hsplit : c.node.children = pre ++ post) (args : NewFrameNodeArgs) {position : Nat}
    (hpos : pre.length = min position c.node.children.length) :
    t.insert p args position =
      (⟨t.next⟩,
        ((((((t.created args).editNeighbour pre.getLast?
          (fun k => { k with next_sibling := some ⟨t.next⟩ })).edit ⟨t.next⟩
          (fun k => { k with prev_sibling := pre.getLast? })).edit ⟨t.next⟩
          (fun k => { k with next_sibling := post.head? })).editNeighbour post.head?
          (fun k => { k with prev_sibling := some ⟨t.next⟩ })).edit p
          (fun k => { k with children := k.children.insertIdx pre.length ⟨t.next⟩ })).edit ⟨t.next⟩
          (fun k => { k with parent := some p })) := by
  have hne : p ≠ ⟨t.next⟩ := by
    rintro rfl
    rw [t.arena_fresh ⟨t.next⟩ (Nat.le_refl _)] at hp
    cases hp
  have hlast : (if pre.length = 0 then none else c.node.children[pre.length - 1]?) =
      pre.getLast? := by
    rw [List.getLast?_eq_getElem?, hsplit]
    split
    · rename_i h0
      simp [List.length_eq_zero_iff.mp h0]
    · rw [List.getElem?_append_left (by omega)]
  have hhead : c.node.children[pre.length]? = post.head? := by
    rw [hsplit, List.getElem?_append_right (Nat.le_refl _), Nat.sub_self, List.head?_eq_getElem?]
  change (_, insert_child (t.created args) p ⟨t.next⟩ position) = _
  unfold insert_child
  rw [detach_created]
  simp only [created_arena_ne args hne, hp, ← hpos, hlast, hhead]
  cases pre.getLast? <;> cases post.head? <;> rfl

/-- The nodes after an insertion. -/
theorem resident_insert {c : FrameNodeContainer} {pre post : List FrameId}
    (hp : t.arena p = some c) (hsplit : c.node.children = pre ++ post) (args : NewFrameNodeArgs)
    {position : Nat} (hpos : pre.length = min position c.node.children.length)
    (hnew : ⟨t.next⟩ ∉ c.node.children) (y : FrameId) :
    (t.insert p args position).2.resident y =
      if y = ⟨t.next⟩ then some { FrameNode.new ⟨t.next⟩ args with
        parent := some p, prev_sibling := pre.getLast?, next_sibling := post.head? }
      else (t.resident y).map (besideInserted p ⟨t.next⟩ pre post y) := by
  have hne : ⟨t.next⟩ ≠ p := by
    rintro rfl
    rw [t.arena_fresh ⟨t.next⟩ (Nat.le_refl _)] at hp
    cases hp
  rw [hsplit, List.mem_append, not_or] at hnew
  have hlast : pre.getLast? ≠ some ⟨t.next⟩ := fun e => hnew.1 (List.mem_of_getLast? e)
  have hhead : post.head? ≠ some ⟨t.next⟩ := fun e => hnew.2 (List.mem_of_head? e)
  rw [insert_eq hp hsplit args hpos]
  simp only [resident_edit, resident_editNeighbour, resident_created]
  by_cases hy : y = ⟨t.next⟩
  · subst hy
    simp [hlast, hhead, hne]
  · simp only [hy, if_false]
    cases hk : t.resident y with
    | none => simp
    | some k =>
      by_cases hyp : y = p
      · subst hyp
        rw [resident_of_arena hp] at hk
        cases hk
        by_cases hl : pre.getLast? = some y <;> by_cases hh : post.head? = some y <;>
          simp [besideInserted, hl, hh, hsplit, insertIdx_between]
      · by_cases hl : pre.getLast? = some y <;> by_cases hh : post.head? = some y <;>
          simp [besideInserted, hl, hh, hyp]

theorem insert_store {c : FrameNodeContainer} {pre post : List FrameId}
    (hp : t.arena p = some c) (hsplit : c.node.children = pre ++ post) (args : NewFrameNodeArgs)
    {position : Nat} (hpos : pre.length = min position c.node.children.length) :
    (t.insert p args position).2.store = t.store ∧
      (t.insert p args position).2.next = t.next + 1 := by
  rw [insert_eq hp hsplit args hpos]
  simp only [edit_store, edit_next, editNeighbour_store]
  exact ⟨rfl, rfl⟩

end Insert

/-! ## Removal -/

theorem residents_detach (t : FrameTree) (x : FrameId) : (t.detach x).residents = t.residents := by
  simp only [residents, arena_detach_isSome, detach_store]

theorem residents_uncache_lt {t : FrameTree} {x : FrameId} (h : (t.arena x).isSome) :
    (t.uncache x).residents < t.residents := by
  have hx : x.id < t.next := by
    by_contra hlt
    rw [t.arena_fresh x (Nat.le_of_not_lt hlt)] at h
    cases h
  have hsame : (List.range t.next).filter (fun i => ((t.uncache x).arena ⟨i⟩).isSome) =
      ((List.range t.next).filter (fun i => (t.arena ⟨i⟩).isSome)).filter (fun i => ⟨i⟩ ≠ x) := by
    rw [List.filter_filter]
    congr 1
    funext i
    by_cases hi : (⟨i⟩ : FrameId) = x <;> simp [uncache, hi]
  have hlt := (List.length_filter_lt_length_iff_exists (p := fun i => decide (⟨i⟩ ≠ x))
    (l := (List.range t.next).filter fun i => (t.arena ⟨i⟩).isSome)).mpr
    ⟨x.id, by simp [hx, h], by simp⟩
  rw [← hsame] at hlt
  exact hlt

theorem uncache_of_not_resident {t : FrameTree} {x : FrameId} (h : t.arena x = none) :
    t.uncache x = t := by
  refine ext_tree rfl ?_ rfl
  funext y
  by_cases hy : y = x
  · simp [uncache, hy, h]
  · simp [uncache, hy]

/-- The loop of `remove`. The top of the stack is its head, so the children of a node come in
reverse. -/
def removeLoop (session_id : SessionId) (stack : List FrameId) (t : FrameTree) :
    Except Fault Unit × FrameTree :=
  match stack with
  | [] => (.ok (), t)
  | current :: stack =>
    match _ : (t.detach current).arena current with
    | none => removeLoop session_id stack ((t.detach current).uncache current)
    | some container =>
      match (t.detach current).store current with
      | none => (.error (.error (.StorageError (.FrameNotFound session_id current))), t.detach current)
      | some _ =>
        removeLoop session_id (container.node.children.reverse ++ stack)
          (((t.detach current).delete_frame current).uncache current)
termination_by (t.residents, stack.length)
decreasing_by
  · rename_i hc
    rw [uncache_of_not_resident hc, residents_detach]
    exact Prod.Lex.right _ (by simp)
  · rename_i hc
    apply Prod.Lex.left
    have hlt := residents_uncache_lt (t := (t.detach current).delete_frame current) (x := current)
      (by simp [delete_frame, hc])
    have hsame : ((t.detach current).delete_frame current).residents = t.residents :=
      residents_detach t current
    omega

def remove (session_id : SessionId) (id : FrameId) : Tree Unit :=
  ExceptT.mk fun t => removeLoop session_id [id] t

end FrameTree

end marie.session
