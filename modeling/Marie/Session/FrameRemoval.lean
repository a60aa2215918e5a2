-- The removal of a subtree from a store that may refuse to delete a row. The
-- loop detaches a frame before its row is deleted, and its stack is lost with
-- the error. The module says after which refusals the removal can be called
-- again, and for which trees no row is left behind.
import Marie.Session.FrameCache

namespace marie.session

open LinkedForest

namespace FrameTree

/-- The loop of `remove` over a store that answers the deletion of `x` with the error
`refuses x`, when there is one. A call asks for no row twice, so this is any failure at any
point of the traversal. -/
def removeLoopOver (refuses : FrameId → Option Fault) (session_id : SessionId)
    (stack : List FrameId) (t : FrameTree) : Except Fault Unit × FrameTree :=
  match stack with
  | [] => (.ok (), t)
  | current :: stack =>
    match _ : (t.detach current).arena current with
    | none => removeLoopOver refuses session_id stack ((t.detach current).uncache current)
    | some container =>
      match refuses current, (t.detach current).store current with
      | some e, _ => (.error e, t.detach current)
      | none, none =>
        (.error (.error (.StorageError (.FrameNotFound session_id current))), t.detach current)
      | none, some _ =>
        removeLoopOver refuses session_id (container.node.children.reverse ++ stack)
          (((t.detach current).delete_frame current).uncache current)
termination_by (t.residents, stack.length)
decreasing_by
  · rename_i hc
    rw [uncache_of_not_resident hc, residents_detach]
    exact Prod.Lex.right _ (by simp)
  · rename_i hc
    apply Prod.Lex.left
    have hlt := residents_uncache_lt (t := (t.detach current).delete_frame current) (x := current)
      (by simp [delete_frame, hc])
    have hsame : ((t.detach current).delete_frame current).residents = t.residents :=
      residents_detach t current
    omega

def removeOver (refuses : FrameId → Option Fault) (session_id : SessionId) (id : FrameId) :
    Tree Unit :=
  ExceptT.mk fun t => removeLoopOver refuses session_id [id] t

/-- The links of the frames, whether the cache or only the store has them. -/
def known (t : FrameTree) : Forest FrameId := fun x => (t.find x).map FrameNode.links

/-! ## What the removal promises -/

/-- The row of `y` was deleted between `t` and `t'`. -/
def Deleted (t t' : FrameTree) (y : FrameId) : Prop := t.store y ≠ none ∧ t'.store y = none

/-- The links of `n` to the frame `z` are links of `n'`. -/
structure KeepsLinks (z : FrameId) (n n' : FrameNode) : Prop where
  parent : n.parent = some z → n'.parent = some z
  prev_sibling : n.prev_sibling = some z → n'.prev_sibling = some z
  next_sibling : n.next_sibling = some z → n'.next_sibling = some z
  children : z ∈ n.children → z ∈ n'.children

/-- The frames that were not deleted are where they were, with their links to each other. -/
structure Intact (t t' : FrameTree) : Prop where
  store : ∀ y, ¬ Deleted t t' y → t'.store y = t.store y
  arena : ∀ y, ¬ Deleted t t' y → (t'.resident y = none ↔ t.resident y = none)
  links : ∀ y z n, ¬ Deleted t t' y → ¬ Deleted t t' z → t.find y = some n →
    ∃ n', t'.find y = some n' ∧ KeepsLinks z n n'

/-- Once the store works, `remove` takes from `t'` what is left of the subtree that `id` has in
`t`, and no other frame. -/
def RemovesRest (session_id : SessionId) (t t' : FrameTree) (id : FrameId) : Prop :=
  ∃ t'', Program.exec (remove session_id id) t' = (.ok (), t'') ∧
    ∀ y, t''.find y = none ↔ t.find y = none ∨ Below t.known id y

/-- A removal that fails can be called again, and one that succeeds leaves no row. -/
structure FailsSafely (session_id : SessionId) (t : FrameTree) (id : FrameId)
    (refuses : FrameId → Option Fault) : Prop where
  on_error : ∀ e t', Program.exec (removeOver refuses session_id id) t = (.error e, t') →
    Intact t t' ∧ RemovesRest session_id t t' id
  on_success : ∀ t', Program.exec (removeOver refuses session_id id) t = (.ok (), t') →
    ∀ y, Below t.known id y → t'.store y = none

/-! ## The loop -/

section Loop

variable {refuses : FrameId → Option Fault} {session_id : SessionId} {t t' : FrameTree}
  {stack : List FrameId} {x y id : FrameId} {n : FrameNode}

theorem exec_removeOver (refuses : FrameId → Option Fault) (session_id : SessionId) (id : FrameId)
    (t : FrameTree) :
    Program.exec (removeOver refuses session_id id) t =
      removeLoopOver refuses session_id [id] t := rfl

theorem removeLoopOver_nil (t : FrameTree) :
    removeLoopOver refuses session_id [] t = (.ok (), t) := by
  rw [removeLoopOver]

theorem removeLoopOver_skip (hx : t.resident x = none) :
    removeLoopOver refuses session_id (x :: stack) t =
      removeLoopOver refuses session_id stack t := by
  have hx' := resident_eq_none.mp hx
  have hstay : (t.detach x).uncache x = t := by
    rw [detach_of_not_resident hx', uncache_of_not_resident hx']
  rw [removeLoopOver]
  split
  · rw [hstay]
  · rename_i c hc
    rw [detach_of_not_resident hx', hx'] at hc
    cases hc

/-- The error that stops the removal at `x`. -/
def refusal (refuses : FrameId → Option Fault) (session_id : SessionId) (t : FrameTree)
    (x : FrameId) : Option Fault :=
  match refuses x, t.store x with
  | some e, _ => some e
  | none, none => some (.error (.StorageError (.FrameNotFound session_id x)))
  | none, some _ => none

theorem refusal_eq_none :
    refusal refuses session_id t x = none ↔ refuses x = none ∧ t.store x ≠ none := by
  unfold refusal
  cases refuses x <;> cases t.store x <;> simp

theorem removeLoopOver_cons {c : FrameNodeContainer} (hc : (t.detach x).arena x = some c) :
    removeLoopOver refuses session_id (x :: stack) t =
      match refusal refuses session_id t x with
      | some e => (.error e, t.detach x)
      | none => removeLoopOver refuses session_id (c.node.children.reverse ++ stack) (t.taken x) := by
  rw [removeLoopOver]
  split
  · rename_i hnone
    rw [hnone] at hc
    cases hc
  · rename_i c' hc'
    rw [hc] at hc'
    cases hc'
    rw [(detach_store t x).1]
    unfold refusal
    cases refuses x <;> cases t.store x <;> rfl

theorem resident_detach_eq_none : (t.detach x).resident y = none ↔ t.resident y = none := by
  have hsame := arena_detach_isSome t x y
  rw [resident_eq_none, resident_eq_none, ← Option.not_isSome_iff_eq_none, hsame,
    Option.not_isSome_iff_eq_none]

/-- A removal that succeeds is one over a store that works. -/
theorem removeLoop_of_ok (hrun : removeLoopOver refuses session_id stack t = (.ok (), t')) :
    removeLoop session_id stack t = (.ok (), t') := by
  induction stack, t using removeLoop_induction with
  | nil t =>
    rw [removeLoopOver_nil] at hrun
    rw [removeLoop_nil, hrun]
  | skip t x stack hx ih =>
    rw [removeLoopOver_skip hx] at hrun
    rw [removeLoop_skip session_id hx]
    exact ih hrun
  | stop t x stack c hc hs =>
    rw [removeLoopOver_cons hc] at hrun
    cases hr : refusal refuses session_id t x with
    | none => exact absurd hs (refusal_eq_none.mp hr).2
    | some e =>
      rw [hr] at hrun
      cases hrun
  | take t x stack c hc hs ih =>
    rw [removeLoopOver_cons hc] at hrun
    rw [removeLoop_cons session_id hc, if_pos hs]
    cases hr : refusal refuses session_id t x with
    | none =>
      rw [hr] at hrun
      exact ih hrun
    | some e =>
      rw [hr] at hrun
      cases hrun

/-- A frame that a successful removal takes had a row, and the store did not refuse it. -/
theorem refusal_of_gone (hrun : removeLoopOver refuses session_id stack t = (.ok (), t'))
    (hy : t.resident y ≠ none) (hgone : t'.resident y = none) :
    refuses y = none ∧ t.store y ≠ none := by
  induction stack, t using removeLoop_induction with
  | nil t =>
    rw [removeLoopOver_nil] at hrun
    cases hrun
    exact absurd hgone hy
  | skip t x stack hx ih =>
    rw [removeLoopOver_skip hx] at hrun
    exact ih hrun hy
  | stop t x stack c hc hs =>
    rw [removeLoopOver_cons hc] at hrun
    cases hr : refusal refuses session_id t x with
    | none => exact absurd hs (refusal_eq_none.mp hr).2
    | some e =>
      rw [hr] at hrun
      cases hrun
  | take t x stack c hc hs ih =>
    rw [removeLoopOver_cons hc] at hrun
    cases hr : refusal refuses session_id t x with
    | some e =>
      rw [hr] at hrun
      cases hrun
    | none =>
      rw [hr] at hrun
      by_cases hyx : y = x
      · subst hyx
        exact refusal_eq_none.mp hr
      · obtain ⟨n, hn⟩ := resident_of_detach hc
        have hleft : (t.taken x).resident y ≠ none := by
          rw [ne_eq, resident_taken_eq_none hn]
          simp [hyx, hy]
        have hkept := ih hrun hleft
        rw [store_taken, if_neg hyx] at hkept
        exact hkept

/-- The loop stays among the frames `S`: they hold the stack and the children of each of them
that the cache has. -/
structure StaysIn (S : FrameId → Prop) (stack : List FrameId) (t : FrameTree) : Prop where
  stack : ∀ x ∈ stack, S x
  children : ∀ y n, S y → t.resident y = some n → ∀ c ∈ n.children, S c

theorem afterDetach_children_subset {n k : FrameNode} {c : FrameId}
    (hc : c ∈ (afterDetach x n y k).children) : c ∈ k.children := by
  simp only [afterDetach] at hc
  split at hc
  · exact List.mem_of_mem_filter hc
  · exact hc

theorem StaysIn.skip {S : FrameId → Prop} (h : StaysIn S (x :: stack) t) : StaysIn S stack t where
  stack y hy := h.stack y (List.mem_cons_of_mem x hy)
  children := h.children

theorem StaysIn.take {S : FrameId → Prop} {c : FrameNodeContainer} (h : StaysIn S (x :: stack) t)
    (hc : (t.detach x).arena x = some c) :
    StaysIn S (c.node.children.reverse ++ stack) (t.taken x) := by
  obtain ⟨n, hn⟩ := resident_of_detach hc
  constructor
  case stack =>
    intro y hy
    rcases List.mem_append.mp hy with hy | hy
    · have hself := resident_detach hn x
      rw [resident_of_arena hc, hn, Option.map_some, Option.some.injEq] at hself
      rw [hself, List.mem_reverse] at hy
      exact h.children x n (h.stack x (by simp)) hn y (afterDetach_children_subset hy)
    · exact h.stack y (List.mem_cons_of_mem x hy)
  case children =>
    intro y n' hy hn' d hd
    obtain ⟨-, k, hk, rfl⟩ := of_resident_taken hn hn'
    exact h.children y k hy hk d (afterDetach_children_subset hd)

/-- The removal succeeds when the store has every row that the loop can meet, and refuses
none. -/
theorem removeLoopOver_ok {S : FrameId → Prop} (h : StaysIn S stack t)
    (hrows : ∀ y, S y → t.resident y ≠ none → refuses y = none ∧ t.store y ≠ none) :
    (removeLoopOver refuses session_id stack t).1 = .ok () := by
  induction stack, t using removeLoop_induction with
  | nil t => rw [removeLoopOver_nil]
  | skip t x stack hx ih =>
    rw [removeLoopOver_skip hx]
    exact ih h.skip hrows
  | stop t x stack c hc hs =>
    obtain ⟨n, hn⟩ := resident_of_detach hc
    exact absurd hs (hrows x (h.stack x (by simp)) (by simp [hn])).2
  | take t x stack c hc hs ih =>
    obtain ⟨n, hn⟩ := resident_of_detach hc
    have hr : refusal refuses session_id t x = none :=
      refusal_eq_none.mpr (hrows x (h.stack x (by simp)) (by simp [hn]))
    rw [removeLoopOver_cons hc, hr]
    apply ih (h.take hc)
    intro y hy hleft
    rw [ne_eq, resident_taken_eq_none hn, not_or] at hleft
    rw [store_taken, if_neg hleft.1]
    exact hrows y hy hleft.2

/-- A removal that fails leaves a frame of those in the cache. -/
theorem left_of_error {S : FrameId → Prop} {e : Fault} (h : StaysIn S stack t)
    (hrun : removeLoopOver refuses session_id stack t = (.error e, t')) :
    ∃ x, S x ∧ t'.resident x ≠ none := by
  -- the frame where it stops
  have hstop : ∀ (t : FrameTree) x stack c e', StaysIn S (x :: stack) t →
      (t.detach x).arena x = some c → refusal refuses session_id t x = some e' →
      removeLoopOver refuses session_id (x :: stack) t = (.error e, t') →
      ∃ x, S x ∧ t'.resident x ≠ none := by
    intro t x stack c e' h hc hr hrun
    rw [removeLoopOver_cons hc, hr] at hrun
    cases hrun
    exact ⟨x, h.stack x (by simp), by simp [resident, hc]⟩
  induction stack, t using removeLoop_induction with
  | nil t =>
    rw [removeLoopOver_nil] at hrun
    cases hrun
  | skip t x stack hx ih =>
    rw [removeLoopOver_skip hx] at hrun
    exact ih h.skip hrun
  | stop t x stack c hc hs =>
    cases hr : refusal refuses session_id t x with
    | none => exact absurd hs (refusal_eq_none.mp hr).2
    | some e' => exact hstop t x stack c e' h hc hr hrun
  | take t x stack c hc hs ih =>
    cases hr : refusal refuses session_id t x with
    | some e' => exact hstop t x stack c e' h hc hr hrun
    | none =>
      rw [removeLoopOver_cons hc, hr] at hrun
      exact ih (h.take hc) hrun

/-- A frame that the cache does not have does not come back. -/
theorem gone_stays (hy : t.resident y = none) :
    (removeLoopOver refuses session_id stack t).2.resident y = none := by
  induction stack, t using removeLoop_induction with
  | nil t =>
    rw [removeLoopOver_nil]
    exact hy
  | skip t x stack hx ih =>
    rw [removeLoopOver_skip hx]
    exact ih hy
  | stop t x stack c hc hs =>
    rw [removeLoopOver_cons hc]
    cases hr : refusal refuses session_id t x with
    | none => exact absurd hs (refusal_eq_none.mp hr).2
    | some e => exact resident_detach_eq_none.mpr hy
  | take t x stack c hc hs ih =>
    obtain ⟨n, hn⟩ := resident_of_detach hc
    rw [removeLoopOver_cons hc]
    cases hr : refusal refuses session_id t x with
    | none => exact ih ((resident_taken_eq_none hn).mpr (.inr hy))
    | some e => exact resident_detach_eq_none.mpr hy

end Loop

section Subtree

variable {refuses : FrameId → Option Fault} {session_id : SessionId} {t t' : FrameTree}
  {y id : FrameId} {n : FrameNode}

theorem known_eq_some {k : Links FrameId} :
    t.known y = some k ↔ ∃ n, t.find y = some n ∧ n.links = k := by
  simp [known]

theorem find_of_resident (h : t.resident y = some n) : t.find y = some n := by
  simp [find_eq, h]

theorem find_eq_none : t.find y = none ↔ t.resident y = none ∧ t.store y = none := by
  rw [find_eq]
  cases t.resident y <;> simp

theorem known_of_resident (h : t.resident y = some n) : t.known y = some n.links :=
  known_eq_some.mpr ⟨n, find_of_resident h, rfl⟩

/-- A frame below a known one is known. -/
theorem find_of_below (hid : t.find id ≠ none) (hy : Below t.known id y) : t.find y ≠ none := by
  obtain rfl | ⟨p, -, k, hk, -⟩ := Relation.ReflTransGen.cases_tail hy
  · exact hid
  · obtain ⟨n, hn, -⟩ := known_eq_some.mp hk
    simp [hn]

theorem staysIn_below (h : Formed t.known) (id : FrameId) :
    StaysIn (Below t.known id) [id] t where
  stack := by
    intro x hx
    rw [List.mem_singleton.mp hx]
    exact Relation.ReflTransGen.refl
  children := by
    intro y n hy hn c hc
    exact Formed.below_child hy (h.child y n.links (known_of_resident hn) c hc)

/-- The subtree of `id` is in the cache, and every frame of it has been flushed. -/
def CachedAndFlushed (t : FrameTree) (id : FrameId) : Prop :=
  ∀ y, Below t.known id y → t.resident y ≠ none ∧ t.store y ≠ none

theorem CachedAndFlushed.subtreeCached (hall : CachedAndFlushed t id) :
    SubtreeCached t.known id t := by
  intro y k hy hk
  obtain ⟨n, hn⟩ := Option.ne_none_iff_exists'.mp (hall y hy).1
  rw [known_of_resident hn] at hk
  exact ⟨n, hn, Option.some.inj hk⟩

/-- A frame that a successful removal took was in the cache and in the store. -/
theorem taken_of_gone (hrun : removeLoopOver refuses session_id [id] t = (.ok (), t'))
    (hy : t.find y ≠ none) (hgone : t'.find y = none) :
    t.resident y ≠ none ∧ t.store y ≠ none ∧ refuses y = none := by
  have hcached : t.resident y ≠ none := by
    intro hnone
    have hkept := (removeLoop_unreached session_id [id] hnone).2
    rw [removeLoop_of_ok hrun, (find_eq_none.mp hgone).2] at hkept
    exact hy (find_eq_none.mpr ⟨hnone, hkept.symm⟩)
  obtain ⟨hworks, hrow⟩ := refusal_of_gone hrun hcached (find_eq_none.mp hgone).1
  exact ⟨hcached, hrow, hworks⟩

/-- A successful removal that leaves no row takes the subtree out of the cache too. -/
theorem find_of_no_row (h : Formed t.known) (hid : t.find id ≠ none)
    (hrun : removeLoopOver refuses session_id [id] t = (.ok (), t'))
    (hrows : ∀ y, Below t.known id y → t'.store y = none) (hy : Below t.known id y) :
    t'.find y = none := by
  have hsub : SubtreeCached t.known id t := by
    intro z k hz hk
    cases hn : t.resident z with
    | none =>
      have hkept := (removeLoop_unreached session_id [id] hn).2
      rw [removeLoop_of_ok hrun, hrows z hz] at hkept
      exact absurd (find_eq_none.mpr ⟨hn, hkept.symm⟩) (find_of_below hid hz)
    | some n =>
      rw [known_of_resident hn] at hk
      exact ⟨n, rfl, Option.some.inj hk⟩
  obtain ⟨n, hn⟩ := Option.ne_none_iff_exists'.mp hid
  obtain ⟨n, hn, -⟩ := hsub id n.links Relation.ReflTransGen.refl (known_eq_some.mpr ⟨n, hn, rfl⟩)
  obtain ⟨-, hin, -⟩ :=
    removeLoop_spec session_id h hn (known_of_resident hn) hsub (removeLoop_of_ok hrun)
  exact find_eq_none.mpr (hin y hy)

/-- The removal of a subtree in the cache, with a row for each frame and no refusal. -/
theorem CachedAndFlushed.removed (session_id : SessionId) {refuses : FrameId → Option Fault}
    (h : Formed t.known) (hall : CachedAndFlushed t id)
    (hworks : ∀ y, Below t.known id y → refuses y = none) :
    ∃ t', removeLoopOver refuses session_id [id] t = (.ok (), t') ∧
      (∀ y, Below t.known id y → t'.resident y = none ∧ t'.store y = none) ∧
      ∀ y, ¬ Below t.known id y → (t'.find y = none ↔ t.find y = none) := by
  have hok : (removeLoopOver refuses session_id [id] t).1 = .ok () := by
    apply removeLoopOver_ok (staysIn_below h id)
    intro y hy _
    exact ⟨hworks y hy, (hall y hy).2⟩
  cases hrun : removeLoopOver refuses session_id [id] t with
  | mk r t' =>
    rw [hrun] at hok
    subst hok
    obtain ⟨n, hn⟩ := Option.ne_none_iff_exists'.mp (hall id Relation.ReflTransGen.refl).1
    obtain ⟨-, hin, hout⟩ := removeLoop_spec session_id h hn (known_of_resident hn)
      hall.subtreeCached (removeLoop_of_ok hrun)
    refine ⟨t', rfl, hin, ?_⟩
    intro y hy
    rw [find_eq_none, find_eq_none, (hout y hy).1, (hout y hy).2, Option.map_eq_none_iff]

/-! ## The refusal of the first frame -/

theorem detach_of_root (hn : t.resident id = some n) (hparent : n.parent = none)
    (hprev : n.prev_sibling = none) (hnext : n.next_sibling = none) (y : FrameId) :
    (t.detach id).resident y = t.resident y := by
  rw [resident_detach hn]
  cases hy : t.resident y with
  | none => rfl
  | some k =>
    by_cases hyid : y = id
    · subst hyid
      rw [hn] at hy
      cases hy
      cases n
      simp_all [afterDetach, besideDetached]
    · rw [Option.map_some, afterDetach_eq_self hyid (by simp [hprev]) (by simp [hnext])
        (by simp [hparent])]

theorem find_congr (hres : ∀ y, t'.resident y = t.resident y) (hstore : t'.store = t.store) :
    t'.find = t.find := by
  funext y
  rw [find_eq, find_eq, hres, hstore]

theorem Intact.of_same (hres : ∀ y, t'.resident y = t.resident y) (hstore : t'.store = t.store) :
    Intact t t' where
  store y _ := by rw [hstore]
  arena y _ := by rw [hres]
  links := by
    intro y z n _ _ hn
    refine ⟨n, ?_, ⟨id, id, id, id⟩⟩
    rw [find_congr hres hstore, hn]

/-- A frame that was detached has lost the link to its parent. -/
theorem parent_of_intact (hn : t.resident id = some n) (hintact : Intact t (t.detach id)) :
    n.parent = none := by
  have hdeleted : ∀ y, ¬ Deleted t (t.detach id) y := by
    rintro y ⟨hrow, hnone⟩
    rw [(detach_store t id).1] at hnone
    exact hrow hnone
  cases hp : n.parent with
  | none => rfl
  | some p =>
    obtain ⟨n', hn', hkeeps⟩ := hintact.links id p n (hdeleted id) (hdeleted p) (find_of_resident hn)
    have hself := resident_detach hn id
    rw [hn, Option.map_some] at hself
    rw [find_of_resident hself, Option.some.injEq] at hn'
    have hlost := hkeeps.parent hp
    rw [← hn'] at hlost
    simp [afterDetach] at hlost

end Subtree

section FailsSafely

variable {refuses : FrameId → Option Fault} {session_id : SessionId} {t t' : FrameTree}
  {id : FrameId} {n : FrameNode}

theorem detached_container (hn : t.resident id = some n) :
    ∃ c, (t.detach id).arena id = some c := by
  have hself := resident_detach hn id
  rw [hn, Option.map_some] at hself
  obtain ⟨c, hc, -⟩ := resident_eq_some.mp hself
  exact ⟨c, hc⟩

theorem find_detach_eq_none (t : FrameTree) (id y : FrameId) :
    (t.detach id).find y = none ↔ t.find y = none := by
  rw [find_eq_none, find_eq_none, resident_detach_eq_none, (detach_store t id).1]

/-- After a removal of `id` that failed when `id` itself was gone, the rest of the subtree is out
of reach. -/
theorem not_removesRest (h : Formed t.known) {e : Fault}
    (hrun : removeLoopOver refuses session_id [id] t = (.error e, t'))
    (hgone : t'.resident id = none) : ¬ RemovesRest session_id t t' id := by
  rintro ⟨t'', hagain, hrest⟩
  obtain ⟨x, hx, hleft⟩ := left_of_error (staysIn_below h id) hrun
  rw [exec_remove, removeLoop_skip session_id hgone, removeLoop_nil] at hagain
  cases hagain
  exact hleft (find_eq_none.mp ((hrest x).mpr (.inr hx))).1

theorem removeLoopOver_none (session_id : SessionId) (stack : List FrameId) (t : FrameTree) :
    removeLoopOver (fun _ => none) session_id stack t = removeLoop session_id stack t := by
  induction stack, t using removeLoop_induction with
  | nil t => rw [removeLoopOver_nil, removeLoop_nil]
  | skip t x stack hx ih =>
    rw [removeLoopOver_skip hx, removeLoop_skip session_id hx]
    exact ih
  | stop t x stack c hc hs =>
    rw [removeLoopOver_cons hc, removeLoop_cons session_id hc, if_neg (by simp [hs])]
    simp [refusal, hs]
  | take t x stack c hc hs ih =>
    have hr : refusal (fun _ => none) session_id t x = none :=
      refusal_eq_none.mpr ⟨rfl, Option.isSome_iff_ne_none.mp hs⟩
    rw [removeLoopOver_cons hc, removeLoop_cons session_id hc, if_pos hs, hr]
    exact ih

/-- What a removal that fails at `id` itself needs, so that the next one takes the subtree. -/
theorem cachedAndFlushed_of_removesRest (hid : t.find id ≠ none)
    (hrest : RemovesRest session_id t (t.detach id) id) : CachedAndFlushed t id := by
  obtain ⟨t', hagain, hgone⟩ := hrest
  rw [exec_remove, ← removeLoopOver_none] at hagain
  intro y hy
  have hknown : (t.detach id).find y ≠ none :=
    mt (find_detach_eq_none t id y).mp (find_of_below hid hy)
  obtain ⟨hcached, hrow, -⟩ := taken_of_gone hagain hknown ((hgone y).mpr (.inr hy))
  rw [ne_eq, resident_detach_eq_none] at hcached
  rw [(detach_store t id).1] at hrow
  exact ⟨hcached, hrow⟩

/-- The loop at `id`, when it has its row and is not refused. -/
theorem removeLoopOver_takes {c : FrameNodeContainer} {r : Except Fault Unit}
    (hc : (t.detach id).arena id = some c) (hr : refusal refuses session_id t id = none)
    (hrun : removeLoopOver refuses session_id [id] t = (r, t')) : t'.resident id = none := by
  obtain ⟨n, hn⟩ := resident_of_detach hc
  have hgone : (t.taken id).resident id = none := (resident_taken_eq_none hn).mpr (.inl rfl)
  rw [removeLoopOver_cons hc, hr] at hrun
  change removeLoopOver refuses session_id (c.node.children.reverse ++ []) (t.taken id) = _ at hrun
  have hstays : (removeLoopOver refuses session_id (c.node.children.reverse ++ [])
      (t.taken id)).2.resident id = none := gone_stays hgone
  rw [hrun] at hstays
  exact hstays

theorem FailsSafely.needs (h : Formed t.known) (hid : t.find id ≠ none)
    (hsafe : FailsSafely session_id t id refuses) :
    CachedAndFlushed t id ∧ ((∀ y, Below t.known id y → refuses y = none) ∨
      refuses id ≠ none ∧ t.parent_of id = none) := by
  cases hn : t.resident id with
  | none =>
    -- the loop does not see `id`, and its row stays
    have hrun : removeLoopOver refuses session_id [id] t = (.ok (), t) := by
      rw [removeLoopOver_skip hn, removeLoopOver_nil]
    have hrow := hsafe.on_success t hrun id Relation.ReflTransGen.refl
    exact absurd (find_eq_none.mpr ⟨hn, hrow⟩) hid
  | some n =>
  obtain ⟨c, hc⟩ := detached_container hn
  cases hr : refusal refuses session_id t id with
  | some e =>
    have hrun : removeLoopOver refuses session_id [id] t = (.error e, t.detach id) := by
      rw [removeLoopOver_cons hc, hr]
    obtain ⟨hintact, hrest⟩ := hsafe.on_error e _ hrun
    have hall := cachedAndFlushed_of_removesRest hid hrest
    refine ⟨hall, .inr ⟨?_, ?_⟩⟩
    · intro hworks
      rw [refusal_eq_none.mpr ⟨hworks, (hall id Relation.ReflTransGen.refl).2⟩] at hr
      cases hr
    · obtain ⟨c', hc', rfl⟩ := resident_eq_some.mp hn
      simp [parent_of, hc', parent_of_intact hn hintact]
  | none =>
  cases hrun : removeLoopOver refuses session_id [id] t with
  | mk r t' =>
  cases r with
  | error e =>
    have hgone := removeLoopOver_takes hc hr hrun
    exact absurd (hsafe.on_error e t' hrun).2 (not_removesRest h hrun hgone)
  | ok u =>
    have htaken : ∀ y, Below t.known id y →
        t.resident y ≠ none ∧ t.store y ≠ none ∧ refuses y = none := by
      intro y hy
      have hgone := find_of_no_row h hid hrun (hsafe.on_success t' hrun) hy
      exact taken_of_gone hrun (find_of_below hid hy) hgone
    constructor
    · intro y hy
      exact ⟨(htaken y hy).1, (htaken y hy).2.1⟩
    · exact .inl fun y hy => (htaken y hy).2.2

theorem failsSafely_of_unknown (h : Formed t.known) (hid : t.find id = none) :
    FailsSafely session_id t id refuses := by
  have hrun : removeLoopOver refuses session_id [id] t = (.ok (), t) := by
    rw [removeLoopOver_skip (find_eq_none.mp hid).1, removeLoopOver_nil]
  constructor
  case on_error =>
    intro e t' herr
    rw [exec_removeOver, hrun] at herr
    cases herr
  case on_success =>
    intro t' hok y hy
    rw [exec_removeOver, hrun] at hok
    cases hok
    obtain rfl | ⟨c, ⟨k, hk, hp⟩, -⟩ := Relation.ReflTransGen.cases_head hy
    · exact (find_eq_none.mp hid).2
    · obtain ⟨n, hn, -⟩ := h.parent c k id hk hp
      simp [known, hid] at hn

theorem failsSafely_of_works (h : Formed t.known) (hall : CachedAndFlushed t id)
    (hworks : ∀ y, Below t.known id y → refuses y = none) :
    FailsSafely session_id t id refuses := by
  obtain ⟨t₁, hrun, hin, -⟩ := hall.removed session_id h hworks
  constructor
  case on_error =>
    intro e t' herr
    rw [exec_removeOver, hrun] at herr
    cases herr
  case on_success =>
    intro t' hok y hy
    rw [exec_removeOver, hrun] at hok
    cases hok
    exact (hin y hy).2

theorem failsSafely_of_root (h : Formed t.known) (hall : CachedAndFlushed t id)
    (hrefuses : refuses id ≠ none) (hroot : t.parent_of id = none) :
    FailsSafely session_id t id refuses := by
  obtain ⟨n, hn⟩ := Option.ne_none_iff_exists'.mp (hall id Relation.ReflTransGen.refl).1
  obtain ⟨c, hc⟩ := detached_container hn
  obtain ⟨e, he⟩ := Option.ne_none_iff_exists'.mp hrefuses
  have hrun : removeLoopOver refuses session_id [id] t = (.error e, t.detach id) := by
    rw [removeLoopOver_cons hc]
    simp [refusal, he]
  have hparent : n.parent = none := by
    obtain ⟨c', hc', rfl⟩ := resident_eq_some.mp hn
    simpa [parent_of, hc'] using hroot
  obtain ⟨hprev, hnext⟩ := h.free id n.links (known_of_resident hn) hparent
  -- the detached frame has no link to lose
  have hres := detach_of_root hn hparent hprev hnext
  have hstore := (detach_store t id).1
  have hknown : (t.detach id).known = t.known := by
    unfold known
    rw [find_congr hres hstore]
  have hall' : CachedAndFlushed (t.detach id) id := by
    intro y hy
    rw [hknown] at hy
    rw [hres, hstore]
    exact hall y hy
  constructor
  case on_error =>
    intro e' t' herr
    rw [exec_removeOver, hrun] at herr
    cases herr
    refine ⟨.of_same hres hstore, ?_⟩
    have hformed : Formed (t.detach id).known := by rw [hknown]; exact h
    have hagain := hall'.removed session_id hformed (fun _ _ => rfl)
    rw [removeLoopOver_none] at hagain
    obtain ⟨t'', hagain, hin, hout⟩ := hagain
    rw [hknown, find_congr hres hstore] at hout
    refine ⟨t'', hagain, ?_⟩
    intro y
    by_cases hy : Below t.known id y
    · rw [hknown] at hin
      simp [hy, find_eq_none, hin y hy]
    · simp [hy, hout y hy]
  case on_success =>
    intro t' hok
    rw [exec_removeOver, hrun] at hok
    cases hok

/-- `remove` fails safely exactly when the frame is unknown, or its whole subtree is in the cache
and flushed, and the store either refuses no frame of it or refuses its top, which has no parent
to be detached from. -/
theorem remove_fails_safely_iff (session_id : SessionId) (h : Formed t.known) (id : FrameId)
    (refuses : FrameId → Option Fault) :
    FailsSafely session_id t id refuses ↔
      t.find id = none ∨ CachedAndFlushed t id ∧
        ((∀ y, Below t.known id y → refuses y = none) ∨
          refuses id ≠ none ∧ t.parent_of id = none) := by
  constructor
  · intro hsafe
    by_cases hid : t.find id = none
    · exact .inl hid
    · exact .inr (hsafe.needs h hid)
  · rintro (hid | ⟨hall, hworks | ⟨hrefuses, hroot⟩⟩)
    · exact failsSafely_of_unknown h hid
    · exact failsSafely_of_works h hall hworks
    · exact failsSafely_of_root h hall hrefuses hroot

end FailsSafely

/-! ## The trees that the operations make -/

theorem Flushed.known_evict {t : FrameTree} (h : Flushed t) (R : FrameId → Bool) :
    (t.evict R).known = t.forest := by
  funext y
  unfold known forest
  rw [find_evict h, find_flushed h]

theorem Flushed.cachedAndFlushed {t : FrameTree} (h : Flushed t) {id : FrameId}
    (hid : t.resident id ≠ none) : CachedAndFlushed t id := by
  intro y hy
  rw [← find_flushed h] at hid
  have hknown := find_of_below hid hy
  rw [find_flushed h] at hknown
  exact ⟨hknown, by rwa [h.rows]⟩

/-- The store refuses to delete the row of `x`. -/
def refusing (x : FrameId) (y : FrameId) : Option Fault :=
  if y = x then some (.error (.StorageError (.FrameNotFound ⟨0⟩ x))) else none

theorem formed_rootWithOne (R : FrameId → Bool) : Formed (rootWithOne.evict R).known := by
  rw [rootWithOne_flushed.known_evict]
  exact rootWithOne_flushed.formed

theorem a_refused_root_can_be_removed_again :
    FailsSafely ⟨0⟩ (rootWithOne.evict fun _ => true) ⟨0⟩ (refusing ⟨0⟩) ∧
      ¬ FailsSafely ⟨0⟩ (rootWithOne.evict fun x => x = ⟨0⟩) ⟨0⟩ (fun _ => none) := by
  constructor
  · refine (remove_fails_safely_iff ⟨0⟩ (formed_rootWithOne _) ⟨0⟩ _).mpr (.inr ⟨?_, .inr ⟨?_, rfl⟩⟩)
    · rw [evict_all]
      exact rootWithOne_flushed.cachedAndFlushed (by decide)
    · simp [refusing]
  · rw [remove_fails_safely_iff ⟨0⟩ (formed_rootWithOne _)]
    rintro (hnone | ⟨hall, -⟩)
    · cases hnone
    · -- the child is only in the store
      have hchild : Below (rootWithOne.evict fun x => x = ⟨0⟩).known ⟨0⟩ ⟨1⟩ := by
        rw [rootWithOne_flushed.known_evict]
        exact Relation.ReflTransGen.single ⟨_, rfl, rfl⟩
      exact (hall ⟨1⟩ hchild).1 rfl

/-- The root is deleted, then its child is refused: the call can be made again, but it no longer
finds the child. -/
theorem a_refused_child_is_out_of_reach :
    Formed rootWithOne.known ∧ ¬ FailsSafely ⟨0⟩ rootWithOne ⟨0⟩ (refusing ⟨1⟩) := by
  have hformed : Formed rootWithOne.known := by
    rw [← evict_all rootWithOne]
    exact formed_rootWithOne _
  refine ⟨hformed, ?_⟩
  intro hsafe
  -- the root goes
  obtain ⟨c, hc, hchildren⟩ := detached_children (t := rootWithOne) (x := ⟨0⟩) rfl (by decide)
  have htop : refusal (refusing ⟨1⟩) ⟨0⟩ rootWithOne ⟨0⟩ = none := rfl
  have hchild : (rootWithOne.taken ⟨0⟩).resident ⟨1⟩ ≠ none := by
    rw [ne_eq, resident_taken_eq_none (t := rootWithOne) (x := ⟨0⟩) rfl]
    decide
  obtain ⟨n, hn⟩ := Option.ne_none_iff_exists'.mp hchild
  obtain ⟨d, hd⟩ := detached_container hn
  -- its child is refused
  have hrun : removeLoopOver (refusing ⟨1⟩) ⟨0⟩ [⟨0⟩] rootWithOne =
      (.error (.error (.StorageError (.FrameNotFound ⟨0⟩ ⟨1⟩))),
        (rootWithOne.taken ⟨0⟩).detach ⟨1⟩) := by
    rw [removeLoopOver_cons hc, htop, hchildren]
    change removeLoopOver (refusing ⟨1⟩) ⟨0⟩ [⟨1⟩] (rootWithOne.taken ⟨0⟩) = _
    rw [removeLoopOver_cons hd]
    rfl
  obtain ⟨-, hrest⟩ := hsafe.on_error _ _ hrun
  exact not_removesRest hformed hrun (removeLoopOver_takes hc htop hrun) hrest

end FrameTree

end marie.session
