-- The order of the frames. The tree keeps it three times: in the children of
-- a node, in the siblings of each child, and in the parent of each child.
-- Every tree that the operations grow keeps the three the same.
import Marie.Session.FrameLinks

namespace marie.session

open LinkedForest

/-- The links of a node. -/
def FrameNode.links (n : FrameNode) : Links FrameId :=
  ⟨n.parent, n.prev_sibling, n.next_sibling, n.children⟩

namespace FrameTree

/-- The links of the nodes of the cache. -/
def forest (t : FrameTree) : Forest FrameId := fun x => (t.resident x).map FrameNode.links

theorem forest_eq_some {t : FrameTree} {x : FrameId} {k : Links FrameId} :
    t.forest x = some k ↔ ∃ n, t.resident x = some n ∧ n.links = k := by
  simp [forest]

theorem forest_of_resident {t : FrameTree} {x : FrameId} {n : FrameNode}
    (h : t.resident x = some n) : t.forest x = some n.links := by
  simp [forest, h]

theorem forest_next (t : FrameTree) : t.forest ⟨t.next⟩ = none := by
  simp [forest, resident, t.arena_fresh ⟨t.next⟩ (Nat.le_refl _)]

/-! ## Insertion -/

theorem forest_created (t : FrameTree) (args : NewFrameNodeArgs) :
    (t.created args).forest = withRoot t.forest ⟨t.next⟩ := by
  funext y
  simp only [forest, withRoot, resident_created]
  split <;> rfl

theorem formed_created {t : FrameTree} (h : Formed t.forest) (args : NewFrameNodeArgs) :
    Formed (t.created args).forest := by
  rw [forest_created]
  exact withRoot_formed h (forest_next t)

theorem forest_insert {t : FrameTree} {p : FrameId} {c : FrameNodeContainer}
    {pre post : List FrameId} (hp : t.arena p = some c)
    (hsplit : c.node.children = pre ++ post) (args : NewFrameNodeArgs) {position : Nat}
    (hpos : pre.length = min position c.node.children.length)
    (hnew : ⟨t.next⟩ ∉ c.node.children) :
    (t.insert p args position).2.forest = insertAt t.forest p ⟨t.next⟩ pre post := by
  funext y
  simp only [forest, insertAt, resident_insert hp hsplit args hpos hnew]
  by_cases hy : y = ⟨t.next⟩
  · simp only [hy, if_true]
    rfl
  · simp only [hy, if_false]
    cases t.resident y <;> rfl

/-- The new identifier is in no list. -/
theorem next_not_child {t : FrameTree} {p : FrameId} {c : FrameNodeContainer}
    (h : Formed t.forest) (hp : t.arena p = some c) : ⟨t.next⟩ ∉ c.node.children := by
  refine h.alone_not_child ?_ (forest_of_resident (resident_of_arena hp))
  intro k hk
  rw [forest_next] at hk
  cases hk

/-- The list of the parent, cut where the new child comes. -/
theorem cut_at (l : List FrameId) (position : Nat) :
    ∃ pre post, l = pre ++ post ∧ pre.length = min position l.length :=
  ⟨l.take (min position l.length), l.drop (min position l.length),
    (List.take_append_drop _ l).symm, by simp⟩

theorem formed_insert {t : FrameTree} (h : Formed t.forest) (p : FrameId)
    (hne : p ≠ ⟨t.next⟩) (args : NewFrameNodeArgs) (position : Nat) :
    Formed (t.insert p args position).2.forest := by
  cases hp : t.arena p with
  | none =>
    rw [insert_orphan hp hne]
    exact formed_created h args
  | some c =>
    have hfresh : ∀ k, t.forest ⟨t.next⟩ = some k → k = Links.alone := by
      intro k hk
      rw [forest_next] at hk
      cases hk
    have hc := forest_of_resident (resident_of_arena hp)
    obtain ⟨pre, post, hsplit, hpos⟩ := cut_at c.node.children position
    rw [forest_insert hp hsplit args hpos (next_not_child h hp)]
    exact insertAt_formed h hc hsplit hfresh hne

/-! ## Removal -/

/-- The subtree of `id` is being removed: the nodes outside it are those of `t₀`, and a node of
it that is left is on the stack or has its parent left. -/
structure Removing (m : Forest FrameId) (id : FrameId) (t₀ : FrameTree) (stack : List FrameId)
    (t : FrameTree) : Prop where
  next : t.next = t₀.next
  resident_outside : ∀ y, ¬ Below m id y → t.resident y = t₀.resident y
  store_outside : ∀ y, ¬ Below m id y → t.store y = t₀.store y
  children : ∀ y n, Below m id y → t.resident y = some n →
    ∃ k, m y = some k ∧ n.children = k.children ∧ n.parent = k.parent
  siblings : ∀ y n q, Below m id y → t.resident y = some n →
    n.prev_sibling = some q ∨ n.next_sibling = some q → Below m id q
  gone : ∀ y, Below m id y → t.resident y = none → t.store y = none
  covered : ∀ y n, Below m id y → t.resident y = some n →
    y ∈ stack ∨ ∃ p, n.parent = some p ∧ t.resident p ≠ none
  orphan : ∀ x ∈ stack, ∀ n p, t.resident x = some n → n.parent = some p → t.resident p = none
  below : ∀ x ∈ stack, Below m id x

/-- The step of the loop at a node that the cache has. -/
def taken (t : FrameTree) (x : FrameId) : FrameTree := ((t.detach x).delete_frame x).uncache x

theorem resident_taken {t : FrameTree} {x : FrameId} {n : FrameNode} (hx : t.resident x = some n)
    (y : FrameId) :
    (t.taken x).resident y = if y = x then none else (t.resident y).map (afterDetach x n y) := by
  by_cases hy : y = x
  · simp [taken, uncache, resident, hy]
  · rw [if_neg hy, ← resident_detach hx]
    simp [taken, uncache, delete_frame, resident, hy]

theorem store_taken (t : FrameTree) (x y : FrameId) :
    (t.taken x).store y = if y = x then none else t.store y := by
  simp [taken, uncache, delete_frame, detach_store]

theorem next_taken (t : FrameTree) (x : FrameId) : (t.taken x).next = t.next :=
  (detach_store t x).2

/-- Detaching `x` leaves a node that `x` has no link to. -/
theorem afterDetach_eq_self {x y : FrameId} {n k : FrameNode} (hy : y ≠ x)
    (hprev : n.prev_sibling ≠ some y) (hnext : n.next_sibling ≠ some y)
    (hparent : n.parent ≠ some y) : afterDetach x n y k = k := by
  simp [afterDetach, besideDetached, hy, hprev, hnext, hparent]

theorem afterDetach_tree {x y : FrameId} {n k : FrameNode} (hy : y ≠ x)
    (hparent : n.parent ≠ some y) :
    (afterDetach x n y k).children = k.children ∧ (afterDetach x n y k).parent = k.parent := by
  simp [afterDetach, hy, hparent]

/-- The siblings of a node after `x` is detached are its own or those of `x`. -/
theorem afterDetach_siblings {x y q : FrameId} {n k : FrameNode}
    (h : (afterDetach x n y k).prev_sibling = some q ∨ (afterDetach x n y k).next_sibling = some q) :
    (k.prev_sibling = some q ∨ k.next_sibling = some q) ∨
      ((n.prev_sibling = some q ∨ n.next_sibling = some q) ∧
        (n.prev_sibling = some y ∨ n.next_sibling = some y)) := by
  simp only [afterDetach, besideDetached] at h
  split at h
  · simp at h
  · split at h <;> split at h <;> tauto

theorem of_resident_taken {t : FrameTree} {x y : FrameId} {n n' : FrameNode}
    (hx : t.resident x = some n) (hy : (t.taken x).resident y = some n') :
    y ≠ x ∧ ∃ k, t.resident y = some k ∧ n' = afterDetach x n y k := by
  rw [resident_taken hx] at hy
  split at hy
  · cases hy
  · rename_i hyx
    obtain ⟨k, hk, rfl⟩ := Option.map_eq_some_iff.mp hy
    exact ⟨hyx, k, hk, rfl⟩

theorem resident_taken_eq_none {t : FrameTree} {x y : FrameId} {n : FrameNode}
    (hx : t.resident x = some n) :
    (t.taken x).resident y = none ↔ y = x ∨ t.resident y = none := by
  rw [resident_taken hx]
  split <;> simp_all

section Removing

variable {m : Forest FrameId} {id : FrameId} {t₀ t : FrameTree} {stack : List FrameId}
  {n : FrameNode}

/-- The subtree of `id` is in the cache with the links of the forest. -/
def SubtreeCached (m : Forest FrameId) (id : FrameId) (t : FrameTree) : Prop :=
  ∀ y k, Below m id y → m y = some k → ∃ n, t.resident y = some n ∧ n.links = k

theorem Removing.start (h : Formed m) (hid : t.resident id = some n) (hn : m id = some n.links)
    (hsub : SubtreeCached m id t) :
    Removing m id (t.detach id) (n.children.reverse ++ []) (t.taken id) := by
  -- a node of the subtree that is left, with its links in the forest
  have hleft : ∀ y n', Below m id y → (t.taken id).resident y = some n' →
      y ≠ id ∧ ∃ ny, t.resident y = some ny ∧ m y = some ny.links ∧ n' = afterDetach id n y ny ∧
        n.parent ≠ some y := by
    intro y n' hy hn'
    obtain ⟨hne, ny, hny, rfl⟩ := of_resident_taken hid hn'
    obtain ⟨p, -, ky, hky, -⟩ := (Relation.ReflTransGen.cases_tail hy).resolve_left hne
    obtain ⟨ny', hny', rfl⟩ := hsub y ky hy hky
    rw [hny] at hny'
    cases hny'
    exact ⟨hne, ny, hny, hky, rfl, fun e => h.not_parent_of_top hy ⟨n.links, hn, e⟩⟩
  constructor
  case next => rw [next_taken, (detach_store t id).2]
  case resident_outside =>
    intro y hy
    have hyid : y ≠ id := by
      rintro rfl
      exact hy Relation.ReflTransGen.refl
    rw [resident_taken hid, if_neg hyid, resident_detach hid]
  case store_outside =>
    intro y hy
    have hyid : y ≠ id := by
      rintro rfl
      exact hy Relation.ReflTransGen.refl
    rw [store_taken, if_neg hyid, (detach_store t id).1]
  case children =>
    intro y n' hy hn'
    obtain ⟨hne, ny, -, hky, rfl, hparent⟩ := hleft y n' hy hn'
    obtain ⟨hch, hpar⟩ := afterDetach_tree (k := ny) hne hparent
    exact ⟨ny.links, hky, hch, hpar⟩
  case siblings =>
    intro y n' q hy hn' hq
    obtain ⟨hne, ny, -, hky, rfl, -⟩ := hleft y n' hy hn'
    rcases afterDetach_siblings hq with hq | ⟨-, hq⟩
    · exact h.below_sibling hy hne hky hq
    · exact absurd hy (h.sibling_not_below hn hq)
  case gone =>
    intro y hy hgone
    rw [store_taken]
    by_cases hyid : y = id
    · rw [if_pos hyid]
    · obtain ⟨p, -, ky, hky, -⟩ := (Relation.ReflTransGen.cases_tail hy).resolve_left hyid
      obtain ⟨ny, hny, -⟩ := hsub y ky hy hky
      have := ((resident_taken_eq_none hid).mp hgone).resolve_left hyid
      rw [hny] at this
      cases this
  case covered =>
    intro y n' hy hn'
    obtain ⟨hne, ny, -, hky, rfl, hparent⟩ := hleft y n' hy hn'
    rw [(afterDetach_tree hne hparent).2]
    obtain ⟨p, hp, hbelow⟩ := Formed.below_parent hy hne hky
    by_cases hpid : p = id
    · left
      subst hpid
      have hmem : y ∈ n.children := (h.mem_children_iff hn hky).mpr hp
      simp [hmem]
    · right
      obtain ⟨kp, hkp, -⟩ := h.parent y ny.links p hky hp
      obtain ⟨np, hnp, -⟩ := hsub p kp hbelow hkp
      refine ⟨p, hp, ?_⟩
      rw [ne_eq, resident_taken_eq_none hid]
      simp [hpid, hnp]
  case orphan =>
    intro y hy n' p hn' hp
    simp only [List.append_nil, List.mem_reverse] at hy
    obtain ⟨ky, hky, hkp⟩ := h.child id n.links hn y hy
    obtain ⟨hne, ny, -, hky', rfl, hparent⟩ :=
      hleft y n' (Formed.below_child Relation.ReflTransGen.refl ⟨ky, hky, hkp⟩) hn'
    rw [(afterDetach_tree hne hparent).2] at hp
    rw [hky'] at hky
    cases hky
    have hpid : p = id := Option.some.inj (hp.symm.trans hkp)
    exact (resident_taken_eq_none hid).mpr (.inl hpid)
  case below =>
    intro y hy
    simp only [List.append_nil, List.mem_reverse] at hy
    obtain ⟨ky, hky, hkp⟩ := h.child id n.links hn y hy
    exact Formed.below_child Relation.ReflTransGen.refl ⟨ky, hky, hkp⟩

theorem Removing.step {x : FrameId} (hm : Formed m) (h : Removing m id t₀ (x :: stack) t)
    (hx : t.resident x = some n) :
    Removing m id t₀ (n.children.reverse ++ stack) (t.taken x) := by
  have hbelow := h.below x (by simp)
  obtain ⟨k, hk, hchildren, hparent⟩ := h.children x n hbelow hx
  have hchild : ∀ y ∈ n.children, IsParent m x y := by
    intro y hy
    rw [hchildren] at hy
    exact hm.child x k hk y hy
  have hne : ∀ y ny, t.resident y = some ny → n.parent ≠ some y := by
    intro y ny hy hp
    rw [h.orphan x (by simp) n y hx hp] at hy
    cases hy
  constructor
  case next => rw [next_taken, h.next]
  case resident_outside =>
    intro y hy
    have hyx : y ≠ x := by
      rintro rfl
      exact hy hbelow
    rw [resident_taken hx, if_neg hyx, ← h.resident_outside y hy]
    cases hry : t.resident y with
    | none => rfl
    | some ny =>
      have hprev : n.prev_sibling ≠ some y := fun e => hy (h.siblings x n y hbelow hx (.inl e))
      have hnext : n.next_sibling ≠ some y := fun e => hy (h.siblings x n y hbelow hx (.inr e))
      rw [Option.map_some, afterDetach_eq_self hyx hprev hnext (hne y ny hry)]
  case store_outside =>
    intro y hy
    have hyx : y ≠ x := by
      rintro rfl
      exact hy hbelow
    rw [store_taken, if_neg hyx, h.store_outside y hy]
  case children =>
    intro y n' hy hn'
    obtain ⟨hyx, ny, hny, rfl⟩ := of_resident_taken hx hn'
    obtain ⟨hch, hpar⟩ := afterDetach_tree (k := ny) hyx (hne y ny hny)
    rw [hch, hpar]
    exact h.children y ny hy hny
  case siblings =>
    intro y n' q hy hn' hq
    obtain ⟨-, ny, hny, rfl⟩ := of_resident_taken hx hn'
    rcases afterDetach_siblings hq with hq | ⟨hq, -⟩
    · exact h.siblings y ny q hy hny hq
    · exact h.siblings x n q hbelow hx hq
  case gone =>
    intro y hy hgone
    rw [store_taken]
    rcases (resident_taken_eq_none hx).mp hgone with rfl | hgone
    · simp
    · rw [h.gone y hy hgone]
      simp
  case covered =>
    intro y n' hy hn'
    obtain ⟨hyx, ny, hny, rfl⟩ := of_resident_taken hx hn'
    rw [(afterDetach_tree hyx (hne y ny hny)).2]
    rcases h.covered y ny hy hny with hmem | ⟨p, hp, hleft⟩
    · simp only [List.mem_cons, hyx, false_or] at hmem
      simp [hmem]
    · by_cases hpx : p = x
      · left
        obtain ⟨ky, hky, -, hpar⟩ := h.children y ny hy hny
        rw [hp, hpx] at hpar
        have hmem := (hm.mem_children_iff hk hky).mpr hpar.symm
        rw [← hchildren] at hmem
        simp [hmem]
      · right
        refine ⟨p, hp, ?_⟩
        rw [ne_eq, resident_taken_eq_none hx]
        simp [hpx, hleft]
  case orphan =>
    intro y hy n' p hn' hp
    obtain ⟨hyx, ny, hny, rfl⟩ := of_resident_taken hx hn'
    rw [(afterDetach_tree hyx (hne y ny hny)).2] at hp
    rw [resident_taken_eq_none hx]
    rcases List.mem_append.mp hy with hy | hy
    · left
      have hyb := hchild y (List.mem_reverse.mp hy)
      obtain ⟨ky, hky, -, hpar⟩ := h.children y ny (Formed.below_child hbelow hyb) hny
      obtain ⟨ky', hky', hkp⟩ := hyb
      rw [hky] at hky'
      cases hky'
      exact Option.some.inj (hp.symm.trans (hpar.trans hkp))
    · right
      exact h.orphan y (by simp [hy]) ny p hny hp
  case below =>
    intro y hy
    rcases List.mem_append.mp hy with hy | hy
    · exact Formed.below_child hbelow (hchild y (List.mem_reverse.mp hy))
    · exact h.below y (by simp [hy])

/-- When the stack is empty, the subtree is gone. -/
theorem Removing.finish (h : Removing m id t₀ [] t) (hid : t.resident id = none)
    (y : FrameId) (hy : Below m id y) : t.resident y = none := by
  -- from the top of the subtree down: a node whose parent is gone is gone
  induction hy with
  | refl => exact hid
  | @tail p y hp hstep ih =>
    by_contra hleft
    obtain ⟨ny, hny⟩ := Option.ne_none_iff_exists'.mp hleft
    obtain ⟨ky, hky, -, hpar⟩ := h.children y ny (Formed.below_child hp hstep) hny
    rcases h.covered y ny (Formed.below_child hp hstep) hny with hmem | ⟨q, hq, hqleft⟩
    · cases hmem
    · obtain ⟨ky', hky', hkp⟩ := hstep
      rw [hky] at hky'
      cases hky'
      rw [hpar, hkp] at hq
      cases hq
      exact hqleft ih

theorem removeLoop_nil (session_id : SessionId) (t : FrameTree) :
    removeLoop session_id [] t = (.ok (), t) := by
  rw [removeLoop]

theorem removeLoop_skip (session_id : SessionId) {x : FrameId} (hx : t.resident x = none) :
    removeLoop session_id (x :: stack) t = removeLoop session_id stack t := by
  have hx' := resident_eq_none.mp hx
  have hstay : (t.detach x).uncache x = t := by
    rw [detach_of_not_resident hx', uncache_of_not_resident hx']
  rw [removeLoop]
  split
  · rw [hstay]
  · rename_i c hc
    rw [detach_of_not_resident hx', hx'] at hc
    cases hc

theorem removeLoop_cons (session_id : SessionId) {x : FrameId} {c : FrameNodeContainer}
    (hc : (t.detach x).arena x = some c) :
    removeLoop session_id (x :: stack) t =
      if (t.store x).isSome then
        removeLoop session_id (c.node.children.reverse ++ stack) (t.taken x)
      else (.error (.error (.StorageError (.FrameNotFound session_id x))), t.detach x) := by
  rw [removeLoop]
  split
  · rename_i hnone
    rw [hnone] at hc
    cases hc
  · rename_i c' hc'
    rw [hc] at hc'
    cases hc'
    rw [(detach_store t x).1]
    cases t.store x <;> rfl

/-- The node on top of the stack, once it is detached. -/
theorem detached_children {x : FrameId} (hx : t.resident x = some n) (hparent : n.parent ≠ some x) :
    ∃ c, (t.detach x).arena x = some c ∧ c.node.children = n.children := by
  have hself := resident_detach hx x
  rw [hx, Option.map_some] at hself
  obtain ⟨c, hc, hcn⟩ := resident_eq_some.mp hself
  exact ⟨c, hc, by simp [hcn, afterDetach, hparent]⟩

/-- The cases of the loop: an empty stack, a node that is gone, a node with no row, and a node
that is taken. -/
theorem removeLoop_induction {P : List FrameId → FrameTree → Prop} (nil : ∀ t, P [] t)
    (skip : ∀ t x stack, t.resident x = none → P stack t → P (x :: stack) t)
    (stop : ∀ t x stack c, (t.detach x).arena x = some c → t.store x = none → P (x :: stack) t)
    (take : ∀ t x stack c, (t.detach x).arena x = some c → (t.store x).isSome →
      P (c.node.children.reverse ++ stack) (t.taken x) → P (x :: stack) t)
    (stack : List FrameId) (t : FrameTree) : P stack t := by
  induction stack, t using removeLoop.induct with
  | case1 t => exact nil t
  | case2 t x stack hx ih =>
    have hgone : t.arena x = none := by
      have := arena_detach_isSome t x x
      rw [hx] at this
      simpa using this.symm
    rw [detach_of_not_resident hgone, uncache_of_not_resident hgone] at ih
    exact skip t x stack (resident_eq_none.mpr hgone) ih
  | case3 t x stack c hc hs =>
    rw [(detach_store t x).1] at hs
    exact stop t x stack c hc hs
  | case4 t x stack c hc row hs ih =>
    rw [(detach_store t x).1] at hs
    rw [List.unattach_reverse, List.unattach_attach] at ih
    exact take t x stack c hc (by simp [hs]) ih

theorem Removing.skip {x : FrameId} (h : Removing m id t₀ (x :: stack) t)
    (hx : t.resident x = none) : Removing m id t₀ stack t where
  next := h.next
  resident_outside := h.resident_outside
  store_outside := h.store_outside
  children := h.children
  siblings := h.siblings
  gone := h.gone
  covered := by
    intro y n hy hn
    rcases h.covered y n hy hn with hmem | hleft
    · rcases List.mem_cons.mp hmem with rfl | hmem
      · rw [hx] at hn
        cases hn
      · exact .inl hmem
    · exact .inr hleft
  orphan y hy := h.orphan y (List.mem_cons_of_mem x hy)
  below y hy := h.below y (List.mem_cons_of_mem x hy)

/-- The node on top of the stack, before and after it is detached. -/
theorem Removing.detached {x : FrameId} {c : FrameNodeContainer}
    (h : Removing m id t₀ (x :: stack) t) (hc : (t.detach x).arena x = some c) :
    ∃ n, t.resident x = some n ∧ c.node.children = n.children := by
  cases hn : t.resident x with
  | none =>
    rw [detach_of_not_resident (resident_eq_none.mp hn), resident_eq_none.mp hn] at hc
    cases hc
  | some n =>
    have hparent : n.parent ≠ some x := by
      intro hp
      rw [h.orphan x (by simp) n x hn hp] at hn
      cases hn
    obtain ⟨c', hc', hchildren⟩ := detached_children hn hparent
    rw [hc] at hc'
    cases hc'
    exact ⟨n, rfl, hchildren⟩

theorem removeLoop_removing {session_id : SessionId} {t' : FrameTree} (hm : Formed m)
    (h : Removing m id t₀ stack t) (hid : t.resident id = none)
    (hrun : removeLoop session_id stack t = (.ok (), t')) :
    Removing m id t₀ [] t' ∧ t'.resident id = none := by
  induction stack, t using removeLoop_induction with
  | nil t =>
    rw [removeLoop_nil] at hrun
    cases hrun
    exact ⟨h, hid⟩
  | skip t x stack hx ih =>
    rw [removeLoop_skip session_id hx] at hrun
    exact ih (h.skip hx) hid hrun
  | stop t x stack c hc hs =>
    rw [removeLoop_cons session_id hc, hs] at hrun
    cases hrun
  | take t x stack c hc hs ih =>
    obtain ⟨n, hn, hchildren⟩ := h.detached hc
    rw [removeLoop_cons session_id hc, if_pos hs] at hrun
    rw [hchildren] at ih hrun
    exact ih (h.step hm hn) ((resident_taken_eq_none hn).mpr (.inr hid)) hrun

/-- What `remove` leaves, when the cache has the whole subtree. -/
theorem removeLoop_spec (session_id : SessionId) {t' : FrameTree} (hm : Formed m)
    (hid : t.resident id = some n) (hn : m id = some n.links) (hsub : SubtreeCached m id t)
    (hrun : removeLoop session_id [id] t = (.ok (), t')) :
    t'.next = t.next ∧
      (∀ y, Below m id y → t'.resident y = none ∧ t'.store y = none) ∧
      ∀ y, ¬ Below m id y →
        t'.resident y = (t.resident y).map (afterDetach id n y) ∧ t'.store y = t.store y := by
  have hparent : n.parent ≠ some id := fun e =>
    hm.not_parent_of_top Relation.ReflTransGen.refl ⟨n.links, hn, e⟩
  have hstart := Removing.start hm hid hn hsub
  have hgone : (t.taken id).resident id = none := (resident_taken_eq_none hid).mpr (.inl rfl)
  obtain ⟨c, hc, hchildren⟩ := detached_children hid hparent
  rw [removeLoop_cons session_id hc, hchildren] at hrun
  split at hrun
  · obtain ⟨hend, hid'⟩ := removeLoop_removing hm hstart hgone hrun
    refine ⟨hend.next.trans (detach_store t id).2, ?_, ?_⟩
    · intro y hy
      have hnone := hend.finish hid' y hy
      exact ⟨hnone, hend.gone y hy hnone⟩
    · intro y hy
      rw [hend.resident_outside y hy, hend.store_outside y hy, resident_detach hid,
        (detach_store t id).1]
      exact ⟨rfl, rfl⟩
  · cases hrun

end Removing

/-! ## Trees that the operations grow -/

/-- The links agree, and the store has no row of a frame that the cache does not have. -/
structure Ordered (t : FrameTree) : Prop where
  formed : Formed t.forest
  rows : ∀ y, t.resident y = none → t.store y = none

/-- The trees that the operations make from an empty cache. `FrameId::new` gives an identifier
that no one has named yet, so no call names it as a parent. -/
inductive Grown (session_id : SessionId) : FrameTree → Prop
  | new : Grown session_id FrameTree.new
  | set_root {t : FrameTree} (args : NewFrameNodeArgs) :
      Grown session_id t → Grown session_id (t.set_root args).2
  | insert {t : FrameTree} (parent : FrameId) (args : NewFrameNodeArgs) (position : Nat) :
      Grown session_id t → parent ≠ ⟨t.next⟩ → Grown session_id (t.insert parent args position).2
  | append {t : FrameTree} (parent : FrameId) (args : NewFrameNodeArgs) :
      Grown session_id t → parent ≠ ⟨t.next⟩ → Grown session_id (t.append parent args).2
  | flush {t : FrameTree} (id : FrameId) : Grown session_id t → Grown session_id (t.flush id)
  | remove {t t' : FrameTree} (id : FrameId) :
      Grown session_id t → Program.exec (remove session_id id) t = (.ok (), t') →
        Grown session_id t'

section Ordered

variable {t : FrameTree}

theorem Ordered.new : Ordered FrameTree.new where
  formed := formed_empty
  rows _ _ := rfl

theorem resident_flush (t : FrameTree) (id y : FrameId) :
    (t.flush id).resident y = t.resident y := by
  unfold resident flush
  by_cases hy : y = id
  · simp only [hy, if_true]
    cases t.arena id <;> rfl
  · simp [hy]

theorem Ordered.flush (h : Ordered t) (id : FrameId) : Ordered (t.flush id) where
  formed := by
    have hsame : (t.flush id).forest = t.forest := by
      funext y
      simp only [forest, resident_flush]
    rw [hsame]
    exact h.formed
  rows := by
    intro y hy
    rw [resident_flush] at hy
    simp only [FrameTree.flush, resident_eq_none.mp hy]
    exact h.rows y hy

theorem Ordered.created (h : Ordered t) (args : NewFrameNodeArgs) : Ordered (t.created args) where
  formed := formed_created h.formed args
  rows := by
    intro y hy
    rw [resident_created] at hy
    split at hy
    · cases hy
    · exact h.rows y hy

theorem set_root_eq (t : FrameTree) (args : NewFrameNodeArgs) :
    t.set_root args =
      (⟨t.next⟩, (t.created args).edit ⟨t.next⟩ (fun n => { n with is_root := true })) := rfl

theorem Ordered.set_root (h : Ordered t) (args : NewFrameNodeArgs) :
    Ordered (t.set_root args).2 where
  formed := by
    have hsame : (t.set_root args).2.forest = (t.created args).forest := by
      funext y
      simp only [set_root_eq, forest, resident_edit]
      split <;> cases (t.created args).resident y <;> rfl
    rw [hsame]
    exact formed_created h.formed args
  rows := by
    intro y hy
    rw [set_root_eq, resident_edit] at hy
    refine (h.created args).rows y ?_
    split at hy
    · simpa using hy
    · exact hy

theorem Ordered.insert (h : Ordered t) (parent : FrameId) (hne : parent ≠ ⟨t.next⟩)
    (args : NewFrameNodeArgs) (position : Nat) : Ordered (t.insert parent args position).2 where
  formed := formed_insert h.formed parent hne args position
  rows := by
    intro y hy
    cases hp : t.arena parent with
    | none =>
      rw [insert_orphan hp hne] at hy ⊢
      exact (h.created args).rows y hy
    | some c =>
      obtain ⟨pre, post, hsplit, hpos⟩ := cut_at c.node.children position
      rw [(insert_store hp hsplit args hpos).1]
      rw [resident_insert hp hsplit args hpos (next_not_child h.formed hp)] at hy
      split at hy
      · cases hy
      · exact h.rows y (by simpa using hy)

theorem Ordered.append (h : Ordered t) (parent : FrameId) (hne : parent ≠ ⟨t.next⟩)
    (args : NewFrameNodeArgs) : Ordered (t.append parent args).2 :=
  h.insert parent hne args _

theorem Ordered.subtreeCached (t : FrameTree) (id : FrameId) : SubtreeCached t.forest id t := by
  intro y k _ hk
  exact forest_eq_some.mp hk

/-- In an ordered tree the links of the other nodes say whom `detach` has to change. -/
theorem links_afterDetach {id y : FrameId} {n k : FrameNode} (h : Formed t.forest)
    (hid : t.resident id = some n) (hy : t.resident y = some k) (hne : y ≠ id) :
    (afterDetach id n y k).links = besideGone id n.links k.links := by
  have hn := forest_of_resident hid
  have hk := forest_of_resident hy
  have hprev : (if n.next_sibling = some y then n.prev_sibling else k.prev_sibling) =
      if k.prev_sibling = some id then n.prev_sibling else k.prev_sibling :=
    if_congr (h.next_iff hk hn) rfl rfl
  have hnext : (if n.prev_sibling = some y then n.next_sibling else k.next_sibling) =
      if k.next_sibling = some id then n.next_sibling else k.next_sibling :=
    if_congr (h.next_iff hn hk).symm rfl rfl
  have hchildren : (if n.parent = some y then k.children.filter (· ≠ id) else k.children) =
      k.children.filter (· ≠ id) := by
    split
    · rfl
    · rename_i hp
      have hmem : id ∉ k.children := mt (h.mem_children_iff hk hn).mp hp
      exact (filter_ne_of_notMem hmem).symm
  simp only [FrameNode.links, afterDetach, besideDetached, besideGone, if_neg hne, hprev, hnext,
    hchildren]
  rfl

/-- The forest after a removal: the node taken out of its siblings, then its subtree left
out. -/
theorem Ordered.remove {session_id : SessionId} {t' : FrameTree} {id : FrameId} (h : Ordered t)
    (hrun : Program.exec (FrameTree.remove session_id id) t = (.ok (), t')) : Ordered t' := by
  change removeLoop session_id [id] t = _ at hrun
  cases hid : t.resident id with
  | none =>
    rw [removeLoop_skip session_id hid, removeLoop_nil] at hrun
    cases hrun
    exact h
  | some n =>
    have hn := forest_of_resident hid
    obtain ⟨-, hin, hout⟩ :=
      removeLoop_spec session_id h.formed hid hn (Ordered.subtreeCached t id) hrun
    have hforest : t'.forest = without (unlinked t.forest id n.links) (Below t.forest id) := by
      funext y
      by_cases hy : Below t.forest id y
      · simp [forest, without, hy, (hin y hy).1]
      · have hne : y ≠ id := by
          rintro rfl
          exact hy Relation.ReflTransGen.refl
        simp only [forest, without, hy, if_false, unlinked, hne, (hout y hy).1]
        cases hk : t.resident y with
        | none => rfl
        | some k => simp [links_afterDetach h.formed hid hk hne]
    constructor
    case formed =>
      rw [hforest]
      refine without_formed (unlinked_formed h.formed hn) ?_
      intro p c hpc
      have hold := isParent_of_unlinked hpc
      have hne : c ≠ id := by
        rintro rfl
        obtain ⟨k, hk, hkp⟩ := hpc
        simp only [unlinked, if_true, Option.some.injEq] at hk
        subst hk
        cases hkp
      constructor
      · intro hp
        exact Formed.below_child hp hold
      · intro hc
        obtain ⟨k, hk, hkp⟩ := hold
        obtain ⟨p', hp', hbelow⟩ := Formed.below_parent hc hne hk
        rw [hkp] at hp'
        cases hp'
        exact hbelow
    case rows =>
      intro y hy
      by_cases hbelow : Below t.forest id y
      · exact (hin y hbelow).2
      · rw [(hout y hbelow).1, Option.map_eq_none_iff] at hy
        rw [(hout y hbelow).2]
        exact h.rows y hy

theorem Grown.ordered {session_id : SessionId} (h : Grown session_id t) : Ordered t := by
  induction h with
  | new => exact Ordered.new
  | set_root args _ ih => exact ih.set_root args
  | insert parent args position _ hne ih => exact ih.insert parent hne args position
  | append parent args _ hne ih => exact ih.append parent hne args
  | flush id _ ih => exact ih.flush id
  | remove id _ hrun ih => exact ih.remove hrun

/-! ## The order that every tree keeps -/

/-- `insert` puts the new frame at its place among the children of a frame of the cache, and
leaves it alone under any other identifier. -/
structure InsertsAt (t : FrameTree) (parent : FrameId) (args : NewFrameNodeArgs) (position : Nat) :
    Prop where
  known : ∀ n, t.resident parent = some n →
    ((t.insert parent args position).2.resident parent).map (·.children) =
        some (n.children.insertIdx (min position n.children.length) ⟨t.next⟩) ∧
      ((t.insert parent args position).2.resident ⟨t.next⟩).map (fun k => (k.parent, k.children)) =
        some (some parent, []) ∧
      ∀ y, y ≠ parent → y ≠ ⟨t.next⟩ →
        ((t.insert parent args position).2.resident y).map (·.children) =
          (t.resident y).map (·.children)
  unknown : t.resident parent = none →
    (t.insert parent args position).2.resident ⟨t.next⟩ = some (.new ⟨t.next⟩ args) ∧
      ∀ y, y ≠ ⟨t.next⟩ → (t.insert parent args position).2.resident y = t.resident y

/-- `remove` takes away the frames below `id`, and `id` from the list of its parent. -/
structure RemovesSubtree (t : FrameTree) (id : FrameId) (t' : FrameTree) : Prop where
  exactly : ∀ y, t'.resident y = none ↔ t.resident y = none ∨ Below t.forest id y
  others : ∀ y n', t'.resident y = some n' → ∃ n, t.resident y = some n ∧ n'.bare = n.bare ∧
    n'.parent = n.parent ∧ n'.children = n.children.filter (· ≠ id)

/-- The walks from `id` end, with the siblings after it and those before it. -/
def WalksSiblings (t : FrameTree) (id : FrameId) (pre post : List FrameId) : Prop :=
  ∃ enough, ∀ fuel ≥ enough,
    t.iter_next_siblings fuel id = some post ∧ t.iter_prev_siblings fuel id = some pre.reverse

theorem Ordered.insertsAt (h : Ordered t) (parent : FrameId) (hne : parent ≠ ⟨t.next⟩)
    (args : NewFrameNodeArgs) (position : Nat) : InsertsAt t parent args position where
  known := by
    intro n hn
    obtain ⟨c, hc, rfl⟩ := resident_eq_some.mp hn
    obtain ⟨pre, post, hsplit, hpos⟩ := cut_at c.node.children position
    have hins := resident_insert hc hsplit args hpos (next_not_child h.formed hc)
    refine ⟨?_, ?_, ?_⟩
    · rw [hins, if_neg hne, hn, ← hpos, hsplit, insertIdx_between]
      simp [besideInserted]
    · rw [hins, if_pos rfl]
      rfl
    · intro y hyp hy
      rw [hins, if_neg hy, Option.map_map]
      cases t.resident y with
      | none => rfl
      | some k => simp [besideInserted, hyp]
  unknown := by
    intro hnone
    rw [insert_orphan (resident_eq_none.mp hnone) hne]
    refine ⟨by rw [resident_created, if_pos rfl], ?_⟩
    intro y hy
    rw [resident_created, if_neg hy]

theorem Ordered.removesSubtree {session_id : SessionId} {t' : FrameTree} {id : FrameId}
    (h : Ordered t) (hrun : Program.exec (FrameTree.remove session_id id) t = (.ok (), t')) :
    RemovesSubtree t id t' := by
  change removeLoop session_id [id] t = _ at hrun
  cases hid : t.resident id with
  | none =>
    rw [removeLoop_skip session_id hid, removeLoop_nil] at hrun
    cases hrun
    -- the forest has no link to a frame that the cache does not have
    have hnone : t.forest id = none := by simp [forest, hid]
    have hno : ∀ y k, t.forest y = some k → id ∉ k.children := by
      intro y k hk hmem
      obtain ⟨k', hk', -⟩ := h.formed.child y k hk id hmem
      rw [hnone] at hk'
      cases hk'
    constructor
    case exactly =>
      intro y
      constructor
      · exact .inl
      · rintro (hy | hy)
        · exact hy
        · obtain rfl | ⟨c, hc, -⟩ := Relation.ReflTransGen.cases_head hy
          · exact hid
          · obtain ⟨k, hk, hp⟩ := hc
            obtain ⟨n, hn, -⟩ := h.formed.parent c k id hk hp
            rw [hnone] at hn
            cases hn
    case others =>
      intro y n hn
      have hmem : id ∉ n.children := hno y n.links (forest_of_resident hn)
      exact ⟨n, hn, rfl, rfl, (filter_ne_of_notMem hmem).symm⟩
  | some n =>
    have hn := forest_of_resident hid
    obtain ⟨-, hin, hout⟩ :=
      removeLoop_spec session_id h.formed hid hn (Ordered.subtreeCached t id) hrun
    constructor
    case exactly =>
      intro y
      by_cases hy : Below t.forest id y
      · simp [hy, (hin y hy).1]
      · simp [hy, (hout y hy).1]
    case others =>
      intro y n' hn'
      have hy : ¬ Below t.forest id y := by
        intro hy
        rw [(hin y hy).1] at hn'
        cases hn'
      have hne : y ≠ id := by
        rintro rfl
        exact hy Relation.ReflTransGen.refl
      rw [(hout y hy).1, Option.map_eq_some_iff] at hn'
      obtain ⟨k, hk, rfl⟩ := hn'
      have hlinks := links_afterDetach h.formed hid hk hne
      refine ⟨k, hk, rfl, ?_, congrArg Links.children hlinks⟩
      exact congrArg Links.parent hlinks

theorem Ordered.walksSiblings (h : Ordered t) {p id : FrameId} {n : FrameNode}
    {pre post : List FrameId} (hp : t.resident p = some n)
    (hsplit : n.children = pre ++ id :: post) : WalksSiblings t id pre post := by
  -- the siblings of each child, as the links of the cache give them
  have hlink : ∀ a x b, n.children = a ++ x :: b →
      t.prev_sibling_of x = a.getLast? ∧ t.next_sibling_of x = b.head? := by
    intro a x b hx
    have hpn := forest_of_resident hp
    obtain ⟨k, hk, -⟩ := h.formed.child p n.links hpn x (by simp [FrameNode.links, hx])
    obtain ⟨nx, hnx, rfl⟩ := forest_eq_some.mp hk
    obtain ⟨hprev, hnext⟩ := h.formed.sibling p n.links a x b nx.links hpn hx hk
    obtain ⟨c, hc, rfl⟩ := resident_eq_some.mp hnx
    simp only [prev_sibling_of, next_sibling_of, hc, Option.bind_some]
    exact ⟨hprev, hnext⟩
  refine ⟨n.children.length, ?_⟩
  intro fuel hfuel
  have hlen : n.children.length = pre.length + (post.length + 1) := by simp [hsplit]
  constructor
  · unfold iter_next_siblings
    rw [(hlink pre id post hsplit).2]
    refine walk_eq ?_ (by omega)
    intro a x b hx
    exact (hlink (pre ++ id :: a) x b (by simp [hsplit, hx])).2
  · unfold iter_prev_siblings
    rw [(hlink pre id post hsplit).1, ← List.head?_reverse]
    refine walk_eq ?_ (by simp; omega)
    intro a x b hx
    have hpre : pre = b.reverse ++ x :: a.reverse := by
      rw [← List.reverse_reverse pre, hx]
      simp
    rw [(hlink b.reverse x (a.reverse ++ id :: post) (by simp [hsplit, hpre])).1]
    simp

theorem Ordered.walksNoSibling (h : Ordered t) {id : FrameId}
    (hid : ∀ n, t.resident id = some n → n.parent = none) : WalksSiblings t id [] [] := by
  have hlink : t.prev_sibling_of id = none ∧ t.next_sibling_of id = none := by
    cases hn : t.resident id with
    | none => simp [prev_sibling_of, next_sibling_of, resident_eq_none.mp hn]
    | some n =>
      obtain ⟨hprev, hnext⟩ := h.formed.free id n.links (forest_of_resident hn) (hid n hn)
      obtain ⟨c, hc, rfl⟩ := resident_eq_some.mp hn
      simp only [prev_sibling_of, next_sibling_of, hc, Option.bind_some]
      exact ⟨hprev, hnext⟩
  refine ⟨0, fun fuel _ => ?_⟩
  simp [iter_next_siblings, iter_prev_siblings, hlink.1, hlink.2, walk]

end Ordered

/-- Every tree that the operations make keeps one order: the children of a frame, the siblings
of each child and the parent of each child say the same, and no frame is above itself. An
insertion, a removal and a walk over the siblings do to this order what they are for. -/
theorem every_tree_keeps_one_order {session_id : SessionId} {t : FrameTree}
    (h : Grown session_id t) :
    Formed t.forest ∧
      (∀ parent args position, parent ≠ ⟨t.next⟩ → InsertsAt t parent args position) ∧
      (∀ id t', Program.exec (remove session_id id) t = (.ok (), t') → RemovesSubtree t id t') ∧
      (∀ p n pre id post, t.resident p = some n → n.children = pre ++ id :: post →
        WalksSiblings t id pre post) ∧
      ∀ id, (∀ n, t.resident id = some n → n.parent = none) → WalksSiblings t id [] [] := by
  have hord := h.ordered
  refine ⟨hord.formed, ?_, ?_, ?_, ?_⟩
  · intro parent args position hne
    exact hord.insertsAt parent hne args position
  · intro id t' hrun
    exact hord.removesSubtree hrun
  · intro p n pre id post hp hsplit
    exact hord.walksSiblings hp hsplit
  · intro id hid
    exact hord.walksNoSibling hid

/-- The arguments of a frame that does nothing. -/
def idle : NewFrameNodeArgs := { spec_ref := .ToolCall, data := .Void }

/-- A root with two children: the second one comes before the first. -/
def rootWithTwo : FrameTree :=
  (((FrameTree.new.set_root idle).2.insert ⟨0⟩ idle 5).2.insert ⟨0⟩ idle 0).2.flush ⟨1⟩

theorem rootWithTwo_grown : Grown ⟨0⟩ rootWithTwo := by
  refine Grown.flush ⟨1⟩ (Grown.insert ⟨0⟩ idle 0 (Grown.insert ⟨0⟩ idle 5 ?_ ?_) ?_)
  · exact Grown.set_root idle Grown.new
  · decide
  · decide

theorem a_root_with_two_children_keeps_one_order :
    (rootWithTwo.resident ⟨0⟩).map (·.children) = some [⟨2⟩, ⟨1⟩] ∧
      Formed rootWithTwo.forest ∧
      WalksSiblings rootWithTwo ⟨2⟩ [] [⟨1⟩] ∧
      ∃ t', Program.exec (remove ⟨0⟩ ⟨1⟩) rootWithTwo = (.ok (), t') ∧
        RemovesSubtree rootWithTwo ⟨1⟩ t' := by
  obtain ⟨hformed, -, hremove, hwalk, -⟩ := every_tree_keeps_one_order rootWithTwo_grown
  refine ⟨rfl, hformed, hwalk ⟨0⟩ _ [] ⟨2⟩ [⟨1⟩] rfl rfl, rootWithTwo.taken ⟨1⟩, ?_⟩
  have hrun : Program.exec (remove ⟨0⟩ ⟨1⟩) rootWithTwo = (.ok (), rootWithTwo.taken ⟨1⟩) := by
    change removeLoop ⟨0⟩ [⟨1⟩] rootWithTwo = _
    obtain ⟨c, hc, hchildren⟩ := detached_children (t := rootWithTwo) (x := ⟨1⟩) rfl (by decide)
    rw [removeLoop_cons ⟨0⟩ hc, hchildren]
    exact removeLoop_nil ⟨0⟩ _
  exact ⟨hrun, hremove ⟨1⟩ _ hrun⟩

end FrameTree

end marie.session
