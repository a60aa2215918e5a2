-- The cache of the frame tree. A read by `get` loads a frame that is only in
-- the store, but the links are read and written in the cache alone. The module
-- says for which parts of a flushed tree the cache makes no difference.
import Marie.Session.FrameOrder

namespace marie.session

open LinkedForest

namespace FrameTree

/-! ## A tree with a part of it in the cache -/

/-- Every frame is in the cache and in the store, and the links agree. -/
structure Flushed (t : FrameTree) : Prop where
  formed : Formed t.forest
  rows : ∀ y, t.store y = t.resident y

/-- The frames outside `R` are only in the store. -/
def evict (t : FrameTree) (R : FrameId → Bool) : FrameTree where
  store := t.store
  arena x := if R x then t.arena x else none
  next := t.next
  store_fresh := t.store_fresh
  arena_fresh := by
    intro x hx
    simp [t.arena_fresh x hx]

/-- The operations that read or write the links. -/
inductive LinkOp
  | parent_of (id : FrameId)
  | next_sibling_of (id : FrameId)
  | prev_sibling_of (id : FrameId)
  | iter_children_of (parent : FrameId)
  | last_child_of (parent : FrameId)
  | append (parent : FrameId) (args : NewFrameNodeArgs)
  | insert (parent : FrameId) (args : NewFrameNodeArgs) (position : Nat)
  | remove (id : FrameId)

/-- What an operation returns. -/
inductive Answer
  | frame (id : Option FrameId)
  | frames (ids : List FrameId)
  | read (result : Except Fault (Option FrameId))
  | created (id : FrameId)
  | removed (result : Except Fault Unit)

def perform (session_id : SessionId) (t : FrameTree) : LinkOp → Answer × FrameTree
  | .parent_of id => (.frame (t.parent_of id), t)
  | .next_sibling_of id => (.frame (t.next_sibling_of id), t)
  | .prev_sibling_of id => (.frame (t.prev_sibling_of id), t)
  | .iter_children_of parent => (.frames (t.iter_children_of parent), t)
  | .last_child_of parent =>
    let r := Program.exec (last_child_of parent) t
    (.read r.1, r.2)
  | .append parent args =>
    let r := t.append parent args
    (.created r.1, r.2)
  | .insert parent args position =>
    let r := t.insert parent args position
    (.created r.1, r.2)
  | .remove id =>
    let r := Program.exec (remove session_id id) t
    (.removed r.1, r.2)

/-- The operation gives the same answer, and leaves the same frames, with `R` in the cache as
with every frame in it. -/
def Transparent (session_id : SessionId) (t : FrameTree) (R : FrameId → Bool) (op : LinkOp) :
    Prop :=
  (perform session_id (t.evict R) op).1 = (perform session_id t op).1 ∧
    ∀ y, (perform session_id (t.evict R) op).2.find y = (perform session_id t op).2.find y

/-- An identifier that may be missing is in the cache. -/
def Has (R : FrameId → Bool) (o : Option FrameId) : Prop := ∀ q, o = some q → R q

/-- What an operation needs of the cache. -/
def InCache (t : FrameTree) (R : FrameId → Bool) : LinkOp → Prop
  | .parent_of id => R id ∨ t.parent_of id = none
  | .next_sibling_of id => R id ∨ t.next_sibling_of id = none
  | .prev_sibling_of id => R id ∨ t.prev_sibling_of id = none
  | .iter_children_of parent => R parent ∨ t.iter_children_of parent = []
  | .last_child_of _ => True
  | .append parent _ => ∀ n, t.resident parent = some n → R parent ∧ Has R n.children.getLast?
  | .insert parent _ position => ∀ n, t.resident parent = some n → R parent ∧
      Has R (n.children.take (min position n.children.length)).getLast? ∧
      Has R (n.children.drop (min position n.children.length)).head?
  | .remove id => ∀ n, t.resident id = some n → (∀ y, Below t.forest id y → R y) ∧
      Has R n.parent ∧ Has R n.prev_sibling ∧ Has R n.next_sibling

section Evict

variable {t : FrameTree} {R : FrameId → Bool} {x y : FrameId}

theorem evict_next (t : FrameTree) (R : FrameId → Bool) : (t.evict R).next = t.next := rfl

theorem evict_store (t : FrameTree) (R : FrameId → Bool) : (t.evict R).store = t.store := rfl

theorem resident_evict (t : FrameTree) (R : FrameId → Bool) (y : FrameId) :
    (t.evict R).resident y = if R y then t.resident y else none := by
  simp only [resident, evict]
  split <;> rfl

theorem find_eq (t : FrameTree) (y : FrameId) : t.find y = (t.resident y).or (t.store y) := by
  unfold find resident
  cases t.arena y <;> rfl

theorem find_flushed (h : Flushed t) (y : FrameId) : t.find y = t.resident y := by
  rw [find_eq, h.rows]
  cases t.resident y <;> rfl

theorem find_evict (h : Flushed t) (R : FrameId → Bool) (y : FrameId) :
    (t.evict R).find y = t.find y := by
  rw [find_eq, resident_evict, find_flushed h, evict_store, h.rows]
  split <;> cases t.resident y <;> rfl

/-! ## Reads -/

theorem masked_eq_iff {β : Type} (b : Bool) (a d : β) :
    (if b then a else d) = a ↔ b = true ∨ a = d := by
  cases b
  · simp only [Bool.false_eq_true, if_false, false_or]
    exact eq_comm
  · simp

/-- A link of one node, read in the cache. -/
theorem link_evict (t : FrameTree) (R : FrameId → Bool) (x : FrameId)
    (f : FrameNodeContainer → Option FrameId) :
    ((t.evict R).arena x).bind f = if R x then (t.arena x).bind f else none := by
  by_cases hx : R x <;> simp [evict, hx]

theorem iter_children_of_evict (t : FrameTree) (R : FrameId → Bool) (x : FrameId) :
    (t.evict R).iter_children_of x = if R x then t.iter_children_of x else [] := by
  unfold iter_children_of evict
  by_cases hx : R x <;> simp [hx]

/-- `last_child_of` loads the frame. -/
theorem last_child_of_transparent (h : Flushed t) (parent : FrameId) :
    (Program.exec (last_child_of parent) (t.evict R)).1 =
        (Program.exec (last_child_of parent) t).1 ∧
      ∀ y, (Program.exec (last_child_of parent) (t.evict R)).2.find y =
        (Program.exec (last_child_of parent) t).2.find y := by
  have hfind := find_evict h R
  unfold last_child_of
  cases hp : t.find parent with
  | none =>
    rw [Program.exec_bind_error (exec_get_none hp),
      Program.exec_bind_error (exec_get_none ((hfind parent).trans hp))]
    exact ⟨rfl, hfind⟩
  | some n =>
    rw [exec_get_map _ hp, exec_get_map _ ((hfind parent).trans hp)]
    refine ⟨rfl, ?_⟩
    intro y
    rw [find_load, find_load, hfind]

/-! ## Insertions -/

/-- The new frame under a parent that the cache has. -/
theorem find_insert {p : FrameId} {n : FrameNode} (h : Flushed t) (hp : t.resident p = some n)
    {pre post : List FrameId} (hsplit : n.children = pre ++ post) (args : NewFrameNodeArgs)
    {position : Nat} (hpos : pre.length = min position n.children.length) (hR : R p = true)
    (y : FrameId) :
    ((t.evict R).insert p args position).2.find y =
      if y = ⟨t.next⟩ then some { FrameNode.new ⟨t.next⟩ args with
        parent := some p, prev_sibling := pre.getLast?, next_sibling := post.head? }
      else (t.resident y).map fun k => if R y then besideInserted p ⟨t.next⟩ pre post y k else k := by
  obtain ⟨c, hc, rfl⟩ := resident_eq_some.mp hp
  have hc' : (t.evict R).arena p = some c := by simp [evict, hR, hc]
  have hnew : ⟨(t.evict R).next⟩ ∉ c.node.children := next_not_child (t := t) h.formed hc
  rw [find_eq, resident_insert hc' hsplit args hpos hnew, (insert_store hc' hsplit args hpos).1,
    resident_evict, evict_next, evict_store, h.rows]
  by_cases hy : y = ⟨t.next⟩
  · simp only [hy, if_true]
    rfl
  · simp only [hy, if_false]
    by_cases hRy : R y = true
    · simp only [hRy, if_true]
      cases t.resident y <;> rfl
    · simp only [hRy]
      cases t.resident y <;> rfl

/-- Under a parent that the cache lacks, the new frame is alone. -/
theorem find_insert_orphan {p : FrameId} (h : Flushed t) (hp : (t.evict R).resident p = none)
    (hne : p ≠ ⟨t.next⟩) (args : NewFrameNodeArgs) (position : Nat) (y : FrameId) :
    ((t.evict R).insert p args position).2.find y =
      if y = ⟨t.next⟩ then some (.new ⟨t.next⟩ args) else t.resident y := by
  have hstore : ((t.evict R).created args).store y = t.resident y := h.rows y
  rw [insert_orphan (resident_eq_none.mp hp) hne, find_eq, resident_created, resident_evict,
    evict_next, hstore]
  by_cases hy : y = ⟨t.next⟩
  · simp only [hy, if_true]
    rfl
  · simp only [hy, if_false]
    split <;> cases t.resident y <;> rfl

theorem evict_all (t : FrameTree) : t.evict (fun _ => true) = t := by
  refine ext_tree rfl ?_ rfl
  funext y
  simp [evict]

/-- An insertion needs the parent and the two frames beside the new one. -/
theorem insert_transparent_iff {p : FrameId} {n : FrameNode} (h : Flushed t)
    (hp : t.resident p = some n) {pre post : List FrameId} (hsplit : n.children = pre ++ post)
    (args : NewFrameNodeArgs) {position : Nat}
    (hpos : pre.length = min position n.children.length) (hne : p ≠ ⟨t.next⟩) :
    (∀ y, ((t.evict R).insert p args position).2.find y = (t.insert p args position).2.find y) ↔
      R p = true ∧ Has R pre.getLast? ∧ Has R post.head? := by
  have hwarm := find_insert (R := fun _ => true) h hp hsplit args hpos rfl
  rw [evict_all] at hwarm
  -- no frame has the new one beside it before
  have hfresh : ∀ y k, t.resident y = some k →
      k.next_sibling ≠ some ⟨t.next⟩ ∧ k.prev_sibling ≠ some ⟨t.next⟩ := by
    intro y k hk
    have hky := forest_of_resident hk
    constructor
    · intro e
      obtain ⟨-, ky, -, hnone, -⟩ := h.formed.parent_of_next hky e
      rw [forest_next] at hnone
      cases hnone
    · intro e
      obtain ⟨-, ky, -, hnone, -⟩ := h.formed.parent_of_prev hky e
      rw [forest_next] at hnone
      cases hnone
  have hchild : ∀ q ∈ pre ++ post, q ≠ ⟨t.next⟩ ∧ ∃ k, t.resident q = some k := by
    intro q hq
    rw [← hsplit] at hq
    obtain ⟨k, hk, -⟩ := h.formed.child p n.links (forest_of_resident hp) q hq
    obtain ⟨nq, hnq, -⟩ := forest_eq_some.mp hk
    refine ⟨?_, nq, hnq⟩
    rintro rfl
    rw [forest_next] at hk
    cases hk
  constructor
  · intro hsame
    have hRp : R p = true := by
      by_contra hRp
      have hnew := hsame ⟨t.next⟩
      rw [find_insert_orphan h (by simp [resident_evict, hRp]) hne, if_pos rfl, hwarm,
        if_pos rfl, Option.some.injEq] at hnew
      cases congrArg FrameNode.parent hnew
    refine ⟨hRp, ?_, ?_⟩
    · intro q hq
      by_contra hRq
      obtain ⟨hqne, k, hk⟩ := hchild q (List.mem_append_left _ (List.mem_of_getLast? hq))
      have hq' := hsame q
      rw [find_insert h hp hsplit args hpos hRp, if_neg hqne, hwarm, if_neg hqne, hk] at hq'
      simp only [hRq, Option.map_some, Option.some.injEq, if_true] at hq'
      have := congrArg FrameNode.next_sibling hq'
      simp only [besideInserted, hq, if_true] at this
      exact (hfresh q k hk).1 this
    · intro q hq
      by_contra hRq
      obtain ⟨hqne, k, hk⟩ := hchild q (List.mem_append_right _ (List.mem_of_head? hq))
      have hq' := hsame q
      rw [find_insert h hp hsplit args hpos hRp, if_neg hqne, hwarm, if_neg hqne, hk] at hq'
      simp only [hRq, Option.map_some, Option.some.injEq, if_true] at hq'
      have := congrArg FrameNode.prev_sibling hq'
      simp only [besideInserted, hq, if_true] at this
      exact (hfresh q k hk).2 this
  · rintro ⟨hRp, hlast, hhead⟩ y
    rw [find_insert h hp hsplit args hpos hRp, hwarm]
    by_cases hRy : R y = true
    · simp only [hRy, if_true]
    · have hyp : y ≠ p := by
        rintro rfl
        exact hRy hRp
      have hl : pre.getLast? ≠ some y := fun e => hRy (hlast y e)
      have hh : post.head? ≠ some y := fun e => hRy (hhead y e)
      cases t.resident y with
      | none => rfl
      | some k => simp [besideInserted, hRy, hl, hh, hyp]

/-! ## Removals -/

theorem resident_of_detach {c : FrameNodeContainer} (hc : (t.detach x).arena x = some c) :
    ∃ n, t.resident x = some n := by
  have := arena_detach_isSome t x x
  rw [hc] at this
  obtain ⟨c', hc'⟩ := Option.isSome_iff_exists.mp this.symm
  exact ⟨c'.node, resident_of_arena hc'⟩

/-- `remove` does not reach a frame that is only in the store. -/
theorem removeLoop_unreached (session_id : SessionId) (stack : List FrameId)
    (hy : t.resident y = none) :
    (removeLoop session_id stack t).2.resident y = none ∧
      (removeLoop session_id stack t).2.store y = t.store y := by
  induction stack, t using removeLoop_induction with
  | nil t =>
    rw [removeLoop_nil]
    exact ⟨hy, rfl⟩
  | skip t x stack hx ih =>
    rw [removeLoop_skip session_id hx]
    exact ih hy
  | stop t x stack c hc hs =>
    rw [removeLoop_cons session_id hc, if_neg (by simp [hs])]
    refine ⟨?_, by rw [(detach_store t x).1]⟩
    have := arena_detach_isSome t x y
    rw [resident_eq_none.mp hy] at this
    exact resident_eq_none.mpr (by simpa using this)
  | take t x stack c hc hs ih =>
    obtain ⟨n, hn⟩ := resident_of_detach hc
    have hyx : y ≠ x := by
      rintro rfl
      rw [hy] at hn
      cases hn
    obtain ⟨hres, hst⟩ := ih ((resident_taken_eq_none hn).mpr (.inr hy))
    rw [removeLoop_cons session_id hc, if_pos hs]
    exact ⟨hres, hst.trans (by rw [store_taken, if_neg hyx])⟩

/-- `remove` ends well when every frame of the cache has a row. -/
theorem removeLoop_ok {session_id : SessionId} {stack : List FrameId}
    (h : ∀ y, t.store y = none → t.resident y = none) :
    (removeLoop session_id stack t).1 = .ok () := by
  induction stack, t using removeLoop_induction with
  | nil t => rw [removeLoop_nil]
  | skip t x stack hx ih =>
    rw [removeLoop_skip session_id hx]
    exact ih h
  | stop t x stack c hc hs =>
    obtain ⟨n, hn⟩ := resident_of_detach hc
    rw [h x hs] at hn
    cases hn
  | take t x stack c hc hs ih =>
    obtain ⟨n, hn⟩ := resident_of_detach hc
    rw [removeLoop_cons session_id hc, if_pos hs]
    refine ih ?_
    intro y hy
    rw [resident_taken_eq_none hn]
    rw [store_taken] at hy
    split at hy
    · exact .inl ‹_›
    · exact .inr (h y hy)

/-- A removal, with the whole subtree in the cache. -/
theorem find_remove (session_id : SessionId) {id : FrameId} {n : FrameNode} (h : Flushed t)
    (hid : t.resident id = some n) (hR : ∀ y, Below t.forest id y → R y = true) (y : FrameId) :
    (Below t.forest id y → (removeLoop session_id [id] (t.evict R)).2.find y = none) ∧
      (¬ Below t.forest id y → (removeLoop session_id [id] (t.evict R)).2.find y =
        (t.resident y).map fun k => if R y then afterDetach id n y k else k) := by
  have hid' : (t.evict R).resident id = some n := by
    rw [resident_evict, if_pos (hR id Relation.ReflTransGen.refl), hid]
  have hsub : SubtreeCached t.forest id (t.evict R) := by
    intro z k hz hk
    obtain ⟨nz, hnz, hlinks⟩ := forest_eq_some.mp hk
    exact ⟨nz, by rw [resident_evict, if_pos (hR z hz), hnz], hlinks⟩
  have hok : (removeLoop session_id [id] (t.evict R)).1 = .ok () := by
    refine removeLoop_ok ?_
    intro z hz
    rw [evict_store, h.rows] at hz
    rw [resident_evict, hz, ite_self]
  obtain ⟨-, hin, hout⟩ := removeLoop_spec session_id h.formed hid'
    (forest_of_resident hid) hsub (Prod.ext hok rfl)
  constructor
  · intro hy
    rw [find_eq, (hin y hy).1, (hin y hy).2]
    rfl
  · intro hy
    rw [find_eq, (hout y hy).1, (hout y hy).2, resident_evict, evict_store, h.rows]
    by_cases hRy : R y = true
    · simp only [hRy, if_true]
      cases t.resident y <;> rfl
    · simp only [hRy]
      cases t.resident y <;> rfl

/-- A removal needs the subtree, the parent and the two siblings of the frame. -/
theorem remove_transparent_iff {session_id : SessionId} {id : FrameId} {n : FrameNode}
    (h : Flushed t) (hid : t.resident id = some n) :
    (∀ y, (removeLoop session_id [id] (t.evict R)).2.find y =
        (removeLoop session_id [id] t).2.find y) ↔
      (∀ y, Below t.forest id y → R y = true) ∧ Has R n.parent ∧ Has R n.prev_sibling ∧
        Has R n.next_sibling := by
  have hn := forest_of_resident hid
  have hwarm := find_remove (R := fun _ => true) session_id h hid (fun _ _ => rfl)
  rw [evict_all] at hwarm
  -- a frame outside the cache keeps its row
  have hcold : ∀ y k, R y ≠ true → t.resident y = some k →
      (removeLoop session_id [id] (t.evict R)).2.find y = some k := by
    intro y k hy hk
    have hnone : (t.evict R).resident y = none := by simp [resident_evict, hy]
    obtain ⟨hres, hstore⟩ := removeLoop_unreached session_id [id] hnone
    rw [find_eq, hres, hstore, evict_store, h.rows, hk]
    rfl
  constructor
  · intro hsame
    -- so a frame outside the cache and the subtree needs no change
    have hkept : ∀ y k, R y ≠ true → t.resident y = some k → ¬ Below t.forest id y →
        afterDetach id n y k = k := by
      intro y k hy hk hbelow
      have := hsame y
      rw [hcold y k hy hk, (hwarm y).2 hbelow, hk] at this
      simpa using this.symm
    refine ⟨?_, ?_, ?_, ?_⟩
    · intro y hy
      by_contra hRy
      obtain ⟨k, hk⟩ : ∃ k, t.resident y = some k := by
        obtain rfl | ⟨p, -, kl, hkl, -⟩ := Relation.ReflTransGen.cases_tail hy
        · exact ⟨n, hid⟩
        · obtain ⟨k, hk, -⟩ := forest_eq_some.mp hkl
          exact ⟨k, hk⟩
      have := hsame y
      rw [hcold y k hRy hk, (hwarm y).1 hy] at this
      cases this
    · intro p hp
      by_contra hRp
      obtain ⟨kl, hkl, hmem⟩ := h.formed.parent id n.links p hn hp
      obtain ⟨k, hk, rfl⟩ := forest_eq_some.mp hkl
      have hout : ¬ Below t.forest id p := fun hb => h.formed.not_parent_of_top hb ⟨n.links, hn, hp⟩
      have := congrArg FrameNode.children (hkept p k hRp hk hout)
      simp only [afterDetach, hp, if_true] at this
      have hmem' : id ∈ k.children := hmem
      rw [← this] at hmem'
      simp at hmem'
    · intro q hq
      by_contra hRq
      obtain ⟨-, kl, -, hkl, -, hlink⟩ := h.formed.parent_of_prev hn hq
      obtain ⟨k, hk, rfl⟩ := forest_eq_some.mp hkl
      have hout := h.formed.sibling_not_below hn (.inl hq)
      have hqid : q ≠ id := by
        rintro rfl
        exact hout Relation.ReflTransGen.refl
      have := congrArg FrameNode.next_sibling (hkept q k hRq hk hout)
      simp only [afterDetach, besideDetached, hqid, if_false, hq, if_true] at this
      exact h.formed.not_own_sibling hn (.inr (this.trans hlink))
    · intro q hq
      by_contra hRq
      obtain ⟨-, kl, -, hkl, -, hlink⟩ := h.formed.parent_of_next hn hq
      obtain ⟨k, hk, rfl⟩ := forest_eq_some.mp hkl
      have hout := h.formed.sibling_not_below hn (.inr hq)
      have hqid : q ≠ id := by
        rintro rfl
        exact hout Relation.ReflTransGen.refl
      have := congrArg FrameNode.prev_sibling (hkept q k hRq hk hout)
      simp only [afterDetach, besideDetached, hqid, if_false, hq, if_true] at this
      exact h.formed.not_own_sibling hn (.inl (this.trans hlink))
  · rintro ⟨hsub, hparent, hprev, hnext⟩ y
    have hpart := find_remove session_id h hid hsub y
    by_cases hy : Below t.forest id y
    · rw [hpart.1 hy, (hwarm y).1 hy]
    · rw [hpart.2 hy, (hwarm y).2 hy]
      by_cases hRy : R y = true
      · simp only [hRy, if_true]
      · have hyid : y ≠ id := by
          rintro rfl
          exact hy Relation.ReflTransGen.refl
        have hkeep : ∀ k, afterDetach id n y k = k := fun k =>
          afterDetach_eq_self hyid (fun e => hRy (hprev y e)) (fun e => hRy (hnext y e))
            (fun e => hRy (hparent y e))
        simp only [hRy, hkeep]
        rfl

theorem insert_id (t : FrameTree) (p : FrameId) (args : NewFrameNodeArgs) (position : Nat) :
    (t.insert p args position).1 = ⟨t.next⟩ := rfl

/-- With an unknown parent, no frame but the new one is touched. -/
theorem insert_transparent_of_unknown {p : FrameId} (h : Flushed t) (hp : t.resident p = none)
    (hne : p ≠ ⟨t.next⟩) (args : NewFrameNodeArgs) (position position' : Nat) (y : FrameId) :
    ((t.evict R).insert p args position).2.find y = (t.insert p args position').2.find y := by
  have hwarm := find_insert_orphan (R := fun _ => true) h (by simp [resident_evict, hp]) hne args
    position' y
  rw [evict_all] at hwarm
  rw [find_insert_orphan h (by simp [resident_evict, hp]) hne, hwarm]

theorem append_id (t : FrameTree) (p : FrameId) (args : NewFrameNodeArgs) :
    (t.append p args).1 = ⟨t.next⟩ := rfl

/-- `append` reads the end of the list in the cache. -/
theorem find_append_evict {p : FrameId} {n : FrameNode} (h : Flushed t)
    (hp : t.resident p = some n) (hne : p ≠ ⟨t.next⟩) (args : NewFrameNodeArgs) (y : FrameId) :
    ((t.evict R).append p args).2.find y =
      ((t.evict R).insert p args n.children.length).2.find y := by
  obtain ⟨c, hc, rfl⟩ := resident_eq_some.mp hp
  by_cases hR : R p = true
  · simp [append, evict, hR, hc]
  · have hnone : (t.evict R).resident p = none := by simp [resident_evict, hR]
    unfold append
    rw [find_insert_orphan h hnone hne, find_insert_orphan h hnone hne]

theorem exec_remove (session_id : SessionId) (t : FrameTree) (id : FrameId) :
    Program.exec (remove session_id id) t = removeLoop session_id [id] t := rfl

end Evict

/-- The frame that an operation names as a parent is not the one that it is about to create. -/
def LinkOp.Older (t : FrameTree) : LinkOp → Prop
  | .append parent _ | .insert parent _ _ => parent ≠ ⟨t.next⟩
  | _ => True

/-- The cache makes no difference to an operation exactly when it holds the frames whose links
the operation reads or writes. -/
theorem transparent_iff_in_cache (session_id : SessionId) {t : FrameTree} (h : Flushed t)
    (R : FrameId → Bool) (op : LinkOp) (hop : op.Older t) :
    Transparent session_id t R op ↔ InCache t R op := by
  have hfind := find_evict h R
  cases op with
  | parent_of id =>
    simp only [Transparent, perform, InCache, hfind, implies_true, and_true, Answer.frame.injEq]
    unfold parent_of
    rw [link_evict, masked_eq_iff]
  | next_sibling_of id =>
    simp only [Transparent, perform, InCache, hfind, implies_true, and_true, Answer.frame.injEq]
    unfold next_sibling_of
    rw [link_evict, masked_eq_iff]
  | prev_sibling_of id =>
    simp only [Transparent, perform, InCache, hfind, implies_true, and_true, Answer.frame.injEq]
    unfold prev_sibling_of
    rw [link_evict, masked_eq_iff]
  | iter_children_of parent =>
    simp only [Transparent, perform, InCache, hfind, implies_true, and_true, Answer.frames.injEq]
    rw [iter_children_of_evict, masked_eq_iff]
  | last_child_of parent =>
    obtain ⟨hres, heff⟩ := last_child_of_transparent (R := R) h parent
    simp only [Transparent, perform, InCache, hres, heff, implies_true, and_self]
  | append parent args =>
    simp only [Transparent, perform, InCache, append_id, evict_next, true_and]
    cases hp : t.resident parent with
    | none =>
      simp only [reduceCtorEq, false_implies, implies_true, iff_true]
      intro y
      exact insert_transparent_of_unknown h hp hop args _ _ y
    | some n =>
      have hwarm := find_append_evict (R := fun _ => true) h hp hop args
      rw [evict_all] at hwarm
      simp only [find_append_evict h hp hop args, hwarm]
      rw [insert_transparent_iff h hp (List.append_nil n.children).symm args (by simp) hop]
      simp [Has]
  | insert parent args position =>
    simp only [Transparent, perform, InCache, insert_id, evict_next, true_and]
    cases hp : t.resident parent with
    | none => simp [insert_transparent_of_unknown h hp hop args position position]
    | some n =>
      have hsplit := (List.take_append_drop (min position n.children.length) n.children).symm
      rw [insert_transparent_iff h hp hsplit args (by simp) hop]
      simp only [Option.some.injEq, forall_eq']
  | remove id =>
    simp only [Transparent, perform, InCache]
    cases hid : t.resident id with
    | none =>
      have hid' : (t.evict R).resident id = none := by simp [resident_evict, hid]
      simp only [exec_remove, removeLoop_skip session_id hid, removeLoop_skip session_id hid',
        removeLoop_nil, hfind]
      simp
    | some n =>
      have hok : (removeLoop session_id [id] t).1 = .ok () :=
        removeLoop_ok fun y hy => (h.rows y).symm.trans hy
      have hok' : (removeLoop session_id [id] (t.evict R)).1 = .ok () := by
        refine removeLoop_ok ?_
        intro y hy
        rw [evict_store, h.rows] at hy
        rw [resident_evict, hy, ite_self]
      simp only [exec_remove, hok, hok', true_and, remove_transparent_iff h hid,
        Option.some.injEq, forall_eq']

/-- A tree is flushed once each of its frames has been written to its row. -/
theorem Grown.flushed {session_id : SessionId} {t : FrameTree} (h : Grown session_id t)
    (hrows : ∀ i < t.next, t.store ⟨i⟩ = t.resident ⟨i⟩) : Flushed t := by
  refine ⟨h.ordered.formed, fun y => ?_⟩
  cases hy : t.resident y with
  | none => exact h.ordered.rows y hy
  | some n =>
    have hlt : y.id < t.next := by
      by_contra hge
      rw [resident_eq_none.mpr (t.arena_fresh y (Nat.le_of_not_lt hge))] at hy
      cases hy
    rw [← hy]
    exact hrows y.id hlt

/-- A root and its child, both written to the store. -/
def rootWithOne : FrameTree :=
  (((FrameTree.new.set_root idle).2.insert ⟨0⟩ idle 0).2.flush ⟨0⟩).flush ⟨1⟩

theorem rootWithOne_grown : Grown ⟨0⟩ rootWithOne := by
  refine Grown.flush ⟨1⟩ (Grown.flush ⟨0⟩ (Grown.insert ⟨0⟩ idle 0 ?_ ?_))
  · exact Grown.set_root idle Grown.new
  · decide

theorem rootWithOne_flushed : Flushed rootWithOne := by
  refine rootWithOne_grown.flushed fun i hi => ?_
  match i, hi with
  | 0, _ => rfl
  | 1, _ => rfl

/-- With only the root in the cache, its child has no parent. -/
theorem a_child_out_of_the_cache_has_no_parent :
    Flushed rootWithOne ∧ LinkOp.Older rootWithOne (.parent_of ⟨1⟩) ∧
      ¬ Transparent ⟨0⟩ rootWithOne (fun x => x = ⟨0⟩) (.parent_of ⟨1⟩) := by
  refine ⟨rootWithOne_flushed, trivial, ?_⟩
  rintro ⟨hanswer, -⟩
  have hcold : (rootWithOne.evict fun x => x = ⟨0⟩).parent_of ⟨1⟩ = none := by decide
  have hwarm : rootWithOne.parent_of ⟨1⟩ = some ⟨0⟩ := by decide
  simp [perform, hcold, hwarm] at hanswer

/-- A root and its three children, all written to the store. -/
def rootWithThree : FrameTree :=
  ((((rootWithOne.append ⟨0⟩ idle).2.append ⟨0⟩ idle).2.flush ⟨0⟩).flush ⟨1⟩ |>.flush ⟨2⟩).flush ⟨3⟩

theorem rootWithThree_flushed : Flushed rootWithThree := by
  have hgrown : Grown ⟨0⟩ rootWithThree := by
    refine Grown.flush ⟨3⟩ (Grown.flush ⟨2⟩ (Grown.flush ⟨1⟩ (Grown.flush ⟨0⟩ ?_)))
    exact Grown.append ⟨0⟩ idle (Grown.append ⟨0⟩ idle rootWithOne_grown (by decide)) (by decide)
  refine hgrown.flushed fun i hi => ?_
  match i, hi with
  | 0, _ => rfl
  | 1, _ => rfl
  | 2, _ => rfl
  | 3, _ => rfl

/-- With the last of three children out of the cache, the root takes a child between the first two,
and the first can be removed. -/
theorem the_last_child_may_be_out_of_the_cache :
    Transparent ⟨0⟩ rootWithThree (fun x => x.id < 3) (.insert ⟨0⟩ idle 1) ∧
      Transparent ⟨0⟩ rootWithThree (fun x => x.id < 3) (.remove ⟨1⟩) := by
  constructor
  · refine (transparent_iff_in_cache ⟨0⟩ rootWithThree_flushed _ (.insert ⟨0⟩ idle 1) ?_).mpr ?_
    · change (⟨0⟩ : FrameId) ≠ ⟨rootWithThree.next⟩
      decide
    · rintro n ⟨⟩
      refine ⟨rfl, ?_, ?_⟩
      · rintro y ⟨⟩
        rfl
      · rintro y ⟨⟩
        rfl
  · refine (transparent_iff_in_cache ⟨0⟩ rootWithThree_flushed _ (.remove ⟨1⟩) trivial).mpr ?_
    rintro n ⟨⟩
    refine ⟨fun y hy => ?_, ?_, ?_, ?_⟩
    · obtain rfl | ⟨c, ⟨k, hk, hparent⟩, -⟩ := Relation.ReflTransGen.cases_head hy
      · rfl
      · -- it has no child
        obtain ⟨kl, hkl, hmem⟩ := rootWithThree_flushed.formed.parent c k ⟨1⟩ hk hparent
        cases hkl
        cases hmem
    · rintro y ⟨⟩
      rfl
    · rintro y ⟨⟩
    · rintro y ⟨⟩
      rfl

end FrameTree

end marie.session
