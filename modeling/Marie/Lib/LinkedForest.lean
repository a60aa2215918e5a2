-- Ordered trees kept by links. A node knows its parent, the siblings beside it
-- and the list of its children, so the order of the siblings is there twice.
-- The module says when the links agree, and that they still do after a node is
-- inserted, after one is taken out of its siblings, and after a part that no
-- link enters is left out.
import Mathlib.Data.List.Basic
import Mathlib.Data.List.Nodup
import Mathlib.Logic.Relation

namespace LinkedForest

/-- The links of a node. -/
structure Links (ι : Type) where
  parent : Option ι
  prev : Option ι
  next : Option ι
  children : List ι

/-- The links of the nodes that are there. -/
abbrev Forest (ι : Type) := ι → Option (Links ι)

variable {ι : Type}

/-- A node with no link. -/
def Links.alone : Links ι := ⟨none, none, none, []⟩

/-- `p` is the parent of `c`. -/
def IsParent (m : Forest ι) (p c : ι) : Prop := ∃ k, m c = some k ∧ k.parent = some p

/-- `y` is `x` or below it. -/
def Below (m : Forest ι) : ι → ι → Prop := Relation.ReflTransGen (IsParent m)

/-- The three orders of the links agree, and no node is above itself. -/
structure Formed (m : Forest ι) : Prop where
  nodup : ∀ p n, m p = some n → n.children.Nodup
  child : ∀ p n, m p = some n → ∀ c ∈ n.children, ∃ k, m c = some k ∧ k.parent = some p
  parent : ∀ c k p, m c = some k → k.parent = some p → ∃ n, m p = some n ∧ c ∈ n.children
  sibling : ∀ p n pre c post k, m p = some n → n.children = pre ++ c :: post → m c = some k →
    k.prev = pre.getLast? ∧ k.next = post.head?
  free : ∀ c k, m c = some k → k.parent = none → k.prev = none ∧ k.next = none
  acyclic : ∀ x, ¬ Relation.TransGen (IsParent m) x x

theorem formed_empty : Formed (fun _ : ι => none) := by
  constructor
  case acyclic =>
    intro x h
    obtain ⟨_, _, k, hk, _⟩ := Relation.TransGen.tail'_iff.mp h
    cases hk
  all_goals intro x; intros; contradiction

namespace Formed

variable {m : Forest ι} {p c x y : ι} {n k : Links ι}

/-! ## What the links say of each other -/

theorem not_child_of_self (h : Formed m) (hn : m x = some n) : x ∉ n.children := by
  intro hx
  exact h.acyclic x (Relation.TransGen.single (h.child x n hn x hx))

theorem mem_children_iff (h : Formed m) (hn : m p = some n) (hk : m c = some k) :
    c ∈ n.children ↔ k.parent = some p := by
  constructor
  · intro hc
    obtain ⟨k', hk', hp⟩ := h.child p n hn c hc
    rw [hk] at hk'
    cases hk'
    exact hp
  · intro hp
    obtain ⟨n', hn', hc⟩ := h.parent c k p hk hp
    rw [hn] at hn'
    cases hn'
    exact hc

/-- A child stands somewhere in the list of its parent, and its siblings are read there. -/
theorem split (h : Formed m) (hk : m c = some k) (hp : k.parent = some p) :
    ∃ n pre post, m p = some n ∧ n.children = pre ++ c :: post ∧
      k.prev = pre.getLast? ∧ k.next = post.head? := by
  obtain ⟨n, hn, hc⟩ := h.parent c k p hk hp
  obtain ⟨pre, post, hsplit⟩ := List.append_of_mem hc
  obtain ⟨hprev, hnext⟩ := h.sibling p n pre c post k hn hsplit hk
  exact ⟨n, pre, post, hn, hsplit, hprev, hnext⟩

theorem parent_of_prev (h : Formed m) (hk : m c = some k) (hprev : k.prev = some y) :
    ∃ p ky, k.parent = some p ∧ m y = some ky ∧ ky.parent = some p ∧ ky.next = some c := by
  cases hp : k.parent with
  | none =>
    have := (h.free c k hk hp).1
    rw [hprev] at this
    cases this
  | some p =>
    obtain ⟨n, pre, post, hn, hsplit, hpre, _⟩ := h.split hk hp
    rw [hprev] at hpre
    obtain ⟨pre', hpre'⟩ := List.getLast?_eq_some_iff.mp hpre.symm
    have hsplit' : n.children = pre' ++ y :: (c :: post) := by
      rw [hsplit, hpre']
      simp
    obtain ⟨ky, hky, hyp⟩ := h.child p n hn y (by simp [hsplit'])
    exact ⟨p, ky, rfl, hky, hyp, (h.sibling p n pre' y _ ky hn hsplit' hky).2⟩

theorem parent_of_next (h : Formed m) (hk : m c = some k) (hnext : k.next = some y) :
    ∃ p ky, k.parent = some p ∧ m y = some ky ∧ ky.parent = some p ∧ ky.prev = some c := by
  cases hp : k.parent with
  | none =>
    have := (h.free c k hk hp).2
    rw [hnext] at this
    cases this
  | some p =>
    obtain ⟨n, pre, post, hn, hsplit, _, hpost⟩ := h.split hk hp
    rw [hnext] at hpost
    obtain ⟨post', hpost'⟩ := List.head?_eq_some_iff.mp hpost.symm
    have hsplit' : n.children = (pre ++ [c]) ++ y :: post' := by
      rw [hsplit, hpost']
      simp
    obtain ⟨ky, hky, hyp⟩ := h.child p n hn y (by simp [hsplit'])
    refine ⟨p, ky, rfl, hky, hyp, ?_⟩
    rw [(h.sibling p n _ y post' ky hn hsplit' hky).1]
    simp

theorem not_own_sibling (h : Formed m) (hk : m x = some k) :
    ¬ (k.prev = some x ∨ k.next = some x) := by
  cases hp : k.parent with
  | none =>
    obtain ⟨hprev, hnext⟩ := h.free x k hk hp
    simp [hprev, hnext]
  | some p =>
    obtain ⟨n, pre, post, hn, hsplit, hprev, hnext⟩ := h.split hk hp
    have hnodup : (pre ++ x :: post).Nodup := hsplit ▸ h.nodup p n hn
    obtain ⟨hnot, -⟩ := List.nodup_cons.mp (List.nodup_middle.mp hnodup)
    rw [List.mem_append, not_or] at hnot
    rw [hprev, hnext]
    rintro (e | e)
    · exact hnot.1 (List.mem_of_getLast? e)
    · exact hnot.2 (List.mem_of_head? e)

theorem next_iff (h : Formed m) (hx : m x = some n) (hy : m y = some k) :
    k.next = some x ↔ n.prev = some y := by
  constructor
  · intro hnext
    obtain ⟨_, kx, _, hkx, _, hprev⟩ := h.parent_of_next hy hnext
    rw [hx] at hkx
    cases hkx
    exact hprev
  · intro hprev
    obtain ⟨_, ky, _, hky, _, hnext⟩ := h.parent_of_prev hx hprev
    rw [hy] at hky
    cases hky
    exact hnext

theorem below_parent (hy : Below m x y) (hne : y ≠ x) (hk : m y = some k) :
    ∃ p, k.parent = some p ∧ Below m x p := by
  obtain rfl | ⟨p, hp, k', hk', hparent⟩ := Relation.ReflTransGen.cases_tail hy
  · exact absurd rfl hne
  · rw [hk] at hk'
    cases hk'
    exact ⟨p, hparent, hp⟩

theorem below_child (hy : Below m x y) (h : IsParent m y c) : Below m x c :=
  Relation.ReflTransGen.tail hy h

theorem not_parent_of_top (h : Formed m) (hy : Below m x y) : ¬ IsParent m y x := by
  intro hyx
  exact h.acyclic x (Relation.TransGen.tail' hy hyx)

/-- The siblings of a node below `x` are below `x`. -/
theorem below_sibling (h : Formed m) (hy : Below m x y) (hne : y ≠ x) (hk : m y = some k) {q : ι}
    (hq : k.prev = some q ∨ k.next = some q) : Below m x q := by
  obtain ⟨p, hp, hbelow⟩ := below_parent hy hne hk
  rcases hq with hq | hq
  · obtain ⟨p', kq, hp', hkq, hqp, _⟩ := h.parent_of_prev hk hq
    rw [hp] at hp'
    cases hp'
    exact below_child hbelow ⟨kq, hkq, hqp⟩
  · obtain ⟨p', kq, hp', hkq, hqp, _⟩ := h.parent_of_next hk hq
    rw [hp] at hp'
    cases hp'
    exact below_child hbelow ⟨kq, hkq, hqp⟩

/-- No sibling of `x` is below `x`. -/
theorem sibling_not_below (h : Formed m) (hk : m x = some k)
    (hq : k.prev = some y ∨ k.next = some y) : ¬ Below m x y := by
  intro hy
  obtain ⟨p, ky, hp, hky, hyp, hyx⟩ : ∃ p ky, k.parent = some p ∧ m y = some ky ∧
      ky.parent = some p ∧ (ky.next = some x ∨ ky.prev = some x) := by
    rcases hq with hq | hq
    · obtain ⟨p, ky, hp, hky, hyp, hn⟩ := h.parent_of_prev hk hq
      exact ⟨p, ky, hp, hky, hyp, .inl hn⟩
    · obtain ⟨p, ky, hp, hky, hyp, hn⟩ := h.parent_of_next hk hq
      exact ⟨p, ky, hp, hky, hyp, .inr hn⟩
  have hne : y ≠ x := by
    rintro rfl
    exact h.not_own_sibling hk hq
  obtain ⟨p', hp', hbelow⟩ := below_parent hy hne hky
  rw [hyp] at hp'
  cases hp'
  exact h.not_parent_of_top hbelow ⟨k, hk, hp⟩

/-- A node with no link is a child of no node. -/
theorem alone_not_child (h : Formed m) (hx : ∀ k, m x = some k → k = Links.alone)
    (hy : m y = some n) : x ∉ n.children := by
  intro hmem
  obtain ⟨k, hk, hparent⟩ := h.child y n hy x hmem
  rw [hx k hk] at hparent
  cases hparent

theorem alone_not_parent (h : Formed m) (hx : ∀ k, m x = some k → k = Links.alone)
    (hk : m y = some k) (hp : k.parent = some p) : p ≠ x := by
  rintro rfl
  obtain ⟨n', hn', hmem⟩ := h.parent y k p hk hp
  rw [hx n' hn'] at hmem
  cases hmem

end Formed

/-! ## A new child -/

variable [DecidableEq ι]

/-- The links of the node `y` when `x` comes between `pre` and `post` under `p`. -/
def besideNew (p x : ι) (pre post : List ι) (y : ι) (k : Links ι) : Links ι where
  parent := k.parent
  prev := if post.head? = some y then some x else k.prev
  next := if pre.getLast? = some y then some x else k.next
  children := if y = p then pre ++ x :: post else k.children

/-- The forest with `x` between `pre` and `post` under `p`. -/
def insertAt (m : Forest ι) (p x : ι) (pre post : List ι) : Forest ι := fun y =>
  if y = x then some ⟨some p, pre.getLast?, post.head?, []⟩
  else (m y).map (besideNew p x pre post y)

section InsertAt

variable {m : Forest ι} {p x y : ι} {pre post : List ι} {n : Links ι}

variable (h : Formed m) (hn : m p = some n) (hsplit : n.children = pre ++ post)
    (hx : ∀ k, m x = some k → k = Links.alone) (hne : p ≠ x)

include h hx hne in
theorem insertAt_acyclic (z : ι) : ¬ Relation.TransGen (IsParent (insertAt m p x pre post)) z z := by
  have hold : ∀ a b, b ≠ x → IsParent (insertAt m p x pre post) a b → IsParent m a b := by
    rintro a b hb ⟨k, hk, hka⟩
    simp only [insertAt, if_neg hb, Option.map_eq_some_iff] at hk
    obtain ⟨k', hk', rfl⟩ := hk
    exact ⟨k', hk', hka⟩
  have hleaf : ∀ b, ¬ IsParent (insertAt m p x pre post) x b := by
    intro b hb
    by_cases hbx : b = x
    · subst hbx
      obtain ⟨k, hk, hka⟩ := hb
      simp only [insertAt, if_true, Option.some.injEq] at hk
      subst hk
      simp only [Option.some.injEq] at hka
      exact hne hka
    · obtain ⟨k, hk, hka⟩ := hold x b hbx hb
      exact h.alone_not_parent hx hk hka rfl
  -- a path that does not end in the new leaf does not pass through it
  have hpath : ∀ a b, b ≠ x → Relation.TransGen (IsParent (insertAt m p x pre post)) a b →
      Relation.TransGen (IsParent m) a b := by
    intro a b hb hab
    induction hab with
    | single hstep => exact Relation.TransGen.single (hold _ _ hb hstep)
    | @tail c d hac hstep ih =>
      have hc : c ≠ x := by
        rintro rfl
        exact hleaf _ hstep
      exact Relation.TransGen.tail (ih hc) (hold _ _ hb hstep)
  intro hz
  by_cases hzx : z = x
  · subst hzx
    obtain ⟨b, hb, _⟩ := Relation.TransGen.head'_iff.mp hz
    exact hleaf b hb
  · exact h.acyclic z (hpath z z hzx hz)

/-- The siblings of a child that stands in the new list. -/
theorem besideNew_sibling {c : ι} {pre' post' : List ι} {k : Links ι}
    (hnodup : (pre ++ post).Nodup) (hc : c ≠ x)
    (hold : ∀ a b, pre ++ post = a ++ c :: b → k.prev = a.getLast? ∧ k.next = b.head?)
    (hnew : pre ++ x :: post = pre' ++ c :: post') :
    (besideNew p x pre post c k).prev = pre'.getLast? ∧
      (besideNew p x pre post c k).next = post'.head? := by
  rcases List.append_eq_append_iff.mp hnew with ⟨as, rfl, has⟩ | ⟨bs, rfl, hbs⟩
  · -- `c` is after the new node
    cases as with
    | nil =>
      simp only [List.nil_append, List.cons.injEq] at has
      exact absurd has.1.symm hc
    | cons a as =>
      simp only [List.cons_append, List.cons.injEq] at has
      obtain ⟨rfl, rfl⟩ := has
      obtain ⟨hprev, hnext⟩ := hold (pre ++ as) post' (by simp)
      have hpre : pre.getLast? ≠ some c := by
        intro e
        have := List.mem_of_getLast? e
        grind
      cases as with
      | nil => simp [besideNew, hpre, hnext]
      | cons a as =>
        have hac : a ≠ c := by grind
        simp only [besideNew, hpre, hprev, hnext, List.cons_append, List.head?_cons,
          Option.some.injEq, hac, if_false]
        simp [List.getLast?_append, List.getLast?_cons_cons]
  · -- `c` is before it
    cases bs with
    | nil =>
      simp only [List.nil_append, List.cons.injEq] at hbs
      exact absurd hbs.1 hc
    | cons b bs =>
      simp only [List.cons_append, List.cons.injEq] at hbs
      obtain ⟨rfl, rfl⟩ := hbs
      obtain ⟨hprev, hnext⟩ := hold pre' (bs ++ post) (by simp)
      have hpost : post.head? ≠ some c := by
        intro e
        have := List.mem_of_head? e
        grind
      cases bs with
      | nil => simp [besideNew, hpost, hprev]
      | cons b bs =>
        have hlast : (pre' ++ c :: b :: bs).getLast? ≠ some c := by
          intro e
          rw [List.getLast?_append, List.getLast?_cons_cons] at e
          have := List.mem_of_getLast? (l := b :: bs) (a := c) (by simpa using e)
          grind
        simp only [besideNew, if_neg hpost, if_neg hlast]
        exact ⟨hprev, hnext⟩

include h hn hsplit hx hne in
theorem insertAt_sibling (q : ι) (nq : Links ι) (pre' : List ι) (c : ι) (post' : List ι)
    (k : Links ι) (hq : insertAt m p x pre post q = some nq)
    (hc : nq.children = pre' ++ c :: post') (hk : insertAt m p x pre post c = some k) :
    k.prev = pre'.getLast? ∧ k.next = post'.head? := by
  have hnew : x ∉ pre ++ post := hsplit ▸ h.alone_not_child hx hn
  have hnodup : (pre ++ post).Nodup := hsplit ▸ h.nodup p n hn
  have hqx : q ≠ x := by
    rintro rfl
    simp only [insertAt, if_true, Option.some.injEq] at hq
    subst hq
    simp at hc
  simp only [insertAt, if_neg hqx, Option.map_eq_some_iff] at hq
  obtain ⟨kq, hkq, rfl⟩ := hq
  by_cases hcx : c = x
  · subst hcx
    simp only [insertAt, if_true, Option.some.injEq] at hk
    subst hk
    by_cases hqp : q = p
    · simp only [besideNew, if_pos hqp] at hc
      obtain ⟨rfl, rfl⟩ : pre = pre' ∧ post = post' := by
        rw [List.mem_append, not_or] at hnew
        obtain ⟨hpre, -, hpost⟩ := (List.append_cons_inj_of_notMem hnew.1 hnew.2).mp hc
        exact ⟨hpre, hpost⟩
      exact ⟨rfl, rfl⟩
    · simp only [besideNew, if_neg hqp] at hc
      exact absurd (by simp [hc]) (h.alone_not_child hx hkq)
  · simp only [insertAt, if_neg hcx, Option.map_eq_some_iff] at hk
    obtain ⟨kc, hkc, rfl⟩ := hk
    by_cases hqp : q = p
    · subst hqp
      simp only [besideNew, if_true] at hc
      refine besideNew_sibling hnodup hcx ?_ hc
      intro a b hab
      exact h.sibling q n a c b kc hn (hsplit.trans hab) hkc
    · simp only [besideNew, if_neg hqp] at hc
      have hcq : kc.parent = some q := (h.mem_children_iff hkq hkc).mp (by simp [hc])
      have hmem : c ∉ n.children := by
        rw [h.mem_children_iff hn hkc, hcq]
        simpa using hqp
      rw [hsplit, List.mem_append, not_or] at hmem
      have hlast : pre.getLast? ≠ some c := fun e => hmem.1 (List.mem_of_getLast? e)
      have hhead : post.head? ≠ some c := fun e => hmem.2 (List.mem_of_head? e)
      simpa only [besideNew, if_neg hlast, if_neg hhead] using
        h.sibling q kq pre' c post' kc hkq hc hkc

include h hn hsplit hx hne in
theorem insertAt_formed : Formed (insertAt m p x pre post) := by
  have hnew : x ∉ pre ++ post := hsplit ▸ h.alone_not_child hx hn
  have hnodup : (pre ++ post).Nodup := hsplit ▸ h.nodup p n hn
  -- only the children of `p` change their siblings
  have hbeside : ∀ c k, m c = some k → k.parent ≠ some p → c ∉ pre ∧ c ∉ post := by
    intro c k hk hp
    have hmem := mt (h.mem_children_iff hn hk).mp hp
    rw [hsplit, List.mem_append] at hmem
    exact ⟨fun hc => hmem (.inl hc), fun hc => hmem (.inr hc)⟩
  constructor
  case nodup =>
    intro q nq hq
    by_cases hqx : q = x
    · simp only [insertAt, if_pos hqx, Option.some.injEq] at hq
      subst hq
      exact List.nodup_nil
    · simp only [insertAt, if_neg hqx, Option.map_eq_some_iff] at hq
      obtain ⟨k, hk, rfl⟩ := hq
      by_cases hqp : q = p
      · simp only [besideNew, if_pos hqp]
        exact List.nodup_middle.mpr (List.nodup_cons.mpr ⟨hnew, hnodup⟩)
      · simp only [besideNew, if_neg hqp]
        exact h.nodup q k hk
  case child =>
    intro q nq hq c hc
    by_cases hqx : q = x
    · simp only [insertAt, if_pos hqx, Option.some.injEq] at hq
      subst hq
      cases hc
    · simp only [insertAt, if_neg hqx, Option.map_eq_some_iff] at hq
      obtain ⟨k, hk, rfl⟩ := hq
      by_cases hcx : c = x
      · subst hcx
        by_cases hqp : q = p
        · subst hqp
          exact ⟨_, if_pos rfl, rfl⟩
        · simp only [besideNew, if_neg hqp] at hc
          exact absurd hc (h.alone_not_child hx hk)
      · have hmem : c ∈ k.children := by
          by_cases hqp : q = p
          · subst hqp
            rw [hn] at hk
            cases hk
            simp only [besideNew, if_true] at hc
            rw [hsplit]
            simpa [hcx] using hc
          · simpa only [besideNew, if_neg hqp] using hc
        obtain ⟨kc, hkc, hparent⟩ := h.child q k hk c hmem
        exact ⟨besideNew p x pre post c kc, by simp [insertAt, hcx, hkc], hparent⟩
  case parent =>
    intro c k q hk hq
    by_cases hcx : c = x
    · simp only [insertAt, if_pos hcx, Option.some.injEq] at hk
      subst hk
      simp only [Option.some.injEq] at hq
      subst hq
      exact ⟨besideNew p x pre post p n, by simp [insertAt, hne, hn], by simp [besideNew, hcx]⟩
    · simp only [insertAt, if_neg hcx, Option.map_eq_some_iff] at hk
      obtain ⟨k', hk', rfl⟩ := hk
      obtain ⟨nq, hnq, hmem⟩ := h.parent c k' q hk' hq
      have hqx : q ≠ x := h.alone_not_parent hx hk' hq
      refine ⟨besideNew p x pre post q nq, by simp [insertAt, hqx, hnq], ?_⟩
      by_cases hqp : q = p
      · subst hqp
        rw [hn] at hnq
        cases hnq
        rw [hsplit] at hmem
        simp only [besideNew, if_true, List.mem_append, List.mem_cons] at hmem ⊢
        tauto
      · simpa only [besideNew, if_neg hqp] using hmem
  case sibling => exact insertAt_sibling h hn hsplit hx hne
  case free =>
    intro c k hk hparent
    by_cases hcx : c = x
    · simp only [insertAt, if_pos hcx, Option.some.injEq] at hk
      subst hk
      cases hparent
    · simp only [insertAt, if_neg hcx, Option.map_eq_some_iff] at hk
      obtain ⟨k', hk', rfl⟩ := hk
      have hparent' : k'.parent = none := hparent
      obtain ⟨hpre, hpost⟩ := hbeside c k' hk' (by simp [hparent'])
      have hlast : pre.getLast? ≠ some c := fun e => hpre (List.mem_of_getLast? e)
      have hhead : post.head? ≠ some c := fun e => hpost (List.mem_of_head? e)
      simpa only [besideNew, if_neg hlast, if_neg hhead] using h.free c k' hk' hparent'
  case acyclic => exact insertAt_acyclic h hx hne

end InsertAt

/-! ## A new root -/

/-- The forest with one more root, that has no child. -/
def withRoot (m : Forest ι) (x : ι) : Forest ι :=
  fun y => if y = x then some Links.alone else m y

section WithRoot

variable {m : Forest ι} {x : ι}

theorem withRoot_eq_some {y : ι} {k : Links ι} :
    withRoot m x y = some k ↔ (y = x ∧ k = Links.alone) ∨ (y ≠ x ∧ m y = some k) := by
  by_cases hy : y = x
  · simp [withRoot, hy, eq_comm]
  · simp [withRoot, hy]

theorem withRoot_formed (h : Formed m) (hx : m x = none) : Formed (withRoot m x) := by
  have hold : ∀ y k, m y = some k → withRoot m x y = some k := by
    intro y k hk
    refine withRoot_eq_some.mpr (.inr ⟨?_, hk⟩)
    rintro rfl
    rw [hx] at hk
    cases hk
  constructor
  case nodup =>
    intro p n hn
    rcases withRoot_eq_some.mp hn with ⟨-, rfl⟩ | ⟨-, hn⟩
    · exact List.nodup_nil
    · exact h.nodup p n hn
  case child =>
    intro p n hn c hc
    rcases withRoot_eq_some.mp hn with ⟨-, rfl⟩ | ⟨-, hn⟩
    · cases hc
    · obtain ⟨k, hk, hp⟩ := h.child p n hn c hc
      exact ⟨k, hold c k hk, hp⟩
  case parent =>
    intro c k p hk hp
    rcases withRoot_eq_some.mp hk with ⟨-, rfl⟩ | ⟨-, hk⟩
    · cases hp
    · obtain ⟨n, hn, hc⟩ := h.parent c k p hk hp
      exact ⟨n, hold p n hn, hc⟩
  case sibling =>
    intro p n pre c post k hn hc hk
    rcases withRoot_eq_some.mp hn with ⟨-, rfl⟩ | ⟨-, hn⟩
    · simp [Links.alone] at hc
    · obtain ⟨k', hk', -⟩ := h.child p n hn c (by simp [hc])
      rw [hold c k' hk'] at hk
      cases hk
      exact h.sibling p n pre c post _ hn hc hk'
  case free =>
    intro c k hk hp
    rcases withRoot_eq_some.mp hk with ⟨-, rfl⟩ | ⟨-, hk⟩
    · exact ⟨rfl, rfl⟩
    · exact h.free c k hk hp
  case acyclic =>
    intro z hz
    refine h.acyclic z (Relation.TransGen.mono ?_ z z hz)
    rintro a b ⟨k, hk, hka⟩
    rcases withRoot_eq_some.mp hk with ⟨-, rfl⟩ | ⟨-, hk⟩
    · cases hka
    · exact ⟨k, hk, hka⟩

end WithRoot

/-! ## A node taken out -/

theorem filter_ne_of_notMem {l : List ι} {x : ι} (h : x ∉ l) : l.filter (· ≠ x) = l := by
  refine List.filter_eq_self.mpr ?_
  intro a ha
  have hne : a ≠ x := by
    rintro rfl
    exact h ha
  simp [hne]

/-- The links of the node `y` when the node `x`, whose links are `n`, is taken out. -/
def besideGone (x : ι) (n : Links ι) (k : Links ι) : Links ι where
  parent := k.parent
  prev := if k.prev = some x then n.prev else k.prev
  next := if k.next = some x then n.next else k.next
  children := k.children.filter (· ≠ x)

/-- The forest where `x` is a root of its own. -/
def unlinked (m : Forest ι) (x : ι) (n : Links ι) : Forest ι := fun y =>
  if y = x then some ⟨none, none, none, n.children⟩ else (m y).map (besideGone x n)

section Unlinked

variable {m : Forest ι} {x : ι} {n : Links ι}

theorem isParent_of_unlinked {a b : ι} (h : IsParent (unlinked m x n) a b) : IsParent m a b := by
  obtain ⟨k, hk, hka⟩ := h
  by_cases hb : b = x
  · simp only [unlinked, if_pos hb, Option.some.injEq] at hk
    subst hk
    cases hka
  · simp only [unlinked, if_neg hb, Option.map_eq_some_iff] at hk
    obtain ⟨k', hk', rfl⟩ := hk
    exact ⟨k', hk', hka⟩

/-- The siblings of a child that stands in the list without `x`. -/
theorem besideGone_sibling {c : ι} {as bs pre post : List ι} {k : Links ι}
    (hnodup : (as ++ x :: bs).Nodup) (hprevx : n.prev = as.getLast?) (hnextx : n.next = bs.head?)
    (hold : ∀ a b, as ++ x :: bs = a ++ c :: b → k.prev = a.getLast? ∧ k.next = b.head?)
    (hnew : as ++ bs = pre ++ c :: post) :
    (besideGone x n k).prev = pre.getLast? ∧ (besideGone x n k).next = post.head? := by
  rcases List.append_eq_append_iff.mp hnew with ⟨cs, rfl, hcs⟩ | ⟨cs, rfl, hcs⟩
  · -- `c` is after the gone node
    subst hcs
    obtain ⟨hprev, hnext⟩ := hold (as ++ x :: cs) post (by simp)
    have hpost : post.head? ≠ some x := by
      intro e
      have := List.mem_of_head? e
      grind
    cases cs with
    | nil => simp [besideGone, hprev, hnext, hpost, hprevx]
    | cons d cs =>
      have hlast : (d :: cs).getLast? ≠ some x := by
        intro e
        have := List.mem_of_getLast? e
        grind
      rw [List.getLast?_append_cons, List.getLast?_cons_cons] at hprev
      simp only [besideGone, hprev, hnext, if_neg hlast, if_neg hpost, List.getLast?_append_cons,
        and_self]
  · -- `c` is before it
    cases cs with
    | nil =>
      simp only [List.nil_append] at hcs
      subst hcs
      obtain ⟨hprev, hnext⟩ := hold (pre ++ [x]) post (by simp)
      have hpost : post.head? ≠ some x := by
        intro e
        have := List.mem_of_head? e
        grind
      simp [besideGone, hprev, hnext, hpost, hprevx]
    | cons d cs =>
      simp only [List.cons_append, List.cons.injEq] at hcs
      obtain ⟨rfl, rfl⟩ := hcs
      obtain ⟨hprev, hnext⟩ := hold pre (cs ++ x :: bs) (by simp)
      have hpre : pre.getLast? ≠ some x := by
        intro e
        have := List.mem_of_getLast? e
        grind
      cases cs with
      | nil => simp [besideGone, hprev, hnext, hpre, hnextx]
      | cons d cs =>
        have hdx : d ≠ x := by grind
        simp [besideGone, hprev, hnext, hpre, hdx]

variable (h : Formed m) (hx : m x = some n)

include h hx in
theorem unlinked_sibling (q : ι) (nq : Links ι) (pre : List ι) (c : ι) (post : List ι)
    (k : Links ι) (hq : unlinked m x n q = some nq) (hc : nq.children = pre ++ c :: post)
    (hk : unlinked m x n c = some k) : k.prev = pre.getLast? ∧ k.next = post.head? := by
  by_cases hqx : q = x
  · subst hqx
    simp only [unlinked, if_true, Option.some.injEq] at hq
    subst hq
    have hself := h.not_child_of_self hx
    have hcq : c ≠ q := by
      rintro rfl
      exact hself (by simp_all)
    simp only [unlinked, if_neg hcq, Option.map_eq_some_iff] at hk
    obtain ⟨k', hk', rfl⟩ := hk
    obtain ⟨hprev, hnext⟩ := h.sibling q n pre c post k' hx hc hk'
    have hpre : pre.getLast? ≠ some q := fun e => hself (by simp_all [List.mem_of_getLast? e])
    have hpost : post.head? ≠ some q := fun e => hself (by simp_all [List.mem_of_head? e])
    simp [besideGone, hprev, hnext, hpre, hpost]
  · simp only [unlinked, if_neg hqx, Option.map_eq_some_iff] at hq
    obtain ⟨kq, hkq, rfl⟩ := hq
    have hcx : c ≠ x := by
      have hmem : c ∈ (besideGone x n kq).children := by simp [hc]
      simp only [besideGone, List.mem_filter, decide_eq_true_eq] at hmem
      exact hmem.2
    simp only [unlinked, if_neg hcx, Option.map_eq_some_iff] at hk
    obtain ⟨k', hk', rfl⟩ := hk
    by_cases hmem : x ∈ kq.children
    · obtain ⟨as, bs, hsplit⟩ := List.append_of_mem hmem
      obtain ⟨hprevx, hnextx⟩ := h.sibling q kq as x bs n hkq hsplit hx
      have hnodup : (as ++ x :: bs).Nodup := hsplit ▸ h.nodup q kq hkq
      have hgone : (as ++ x :: bs).filter (· ≠ x) = as ++ bs := by
        have hnot := (List.nodup_cons.mp (List.nodup_middle.mp hnodup)).1
        rw [List.mem_append, not_or] at hnot
        rw [List.filter_append, List.filter_cons_of_neg (by simp), filter_ne_of_notMem hnot.1,
          filter_ne_of_notMem hnot.2]
      simp only [besideGone, hsplit, hgone] at hc
      refine besideGone_sibling hnodup hprevx hnextx ?_ hc
      intro a b hab
      exact h.sibling q kq a c b k' hkq (hsplit.trans hab) hk'
    · simp only [besideGone, filter_ne_of_notMem hmem] at hc
      obtain ⟨hprev, hnext⟩ := h.sibling q kq pre c post k' hkq hc hk'
      have hpre : pre.getLast? ≠ some x := fun e => hmem (by simp_all [List.mem_of_getLast? e])
      have hpost : post.head? ≠ some x := fun e => hmem (by simp_all [List.mem_of_head? e])
      simp [besideGone, hprev, hnext, hpre, hpost]

include h hx in
theorem unlinked_formed : Formed (unlinked m x n) := by
  constructor
  case nodup =>
    intro q nq hq
    by_cases hqx : q = x
    · simp only [unlinked, if_pos hqx, Option.some.injEq] at hq
      subst hq
      exact h.nodup x n hx
    · simp only [unlinked, if_neg hqx, Option.map_eq_some_iff] at hq
      obtain ⟨k, hk, rfl⟩ := hq
      exact (h.nodup q k hk).filter _
  case child =>
    intro q nq hq c hc
    have hold : ∃ k, m q = some k ∧ c ∈ k.children ∧ c ≠ x := by
      by_cases hqx : q = x
      · subst hqx
        simp only [unlinked, if_true, Option.some.injEq] at hq
        subst hq
        refine ⟨n, hx, hc, ?_⟩
        rintro rfl
        exact h.not_child_of_self hx hc
      · simp only [unlinked, if_neg hqx, Option.map_eq_some_iff] at hq
        obtain ⟨k, hk, rfl⟩ := hq
        simp only [besideGone, List.mem_filter, decide_eq_true_eq] at hc
        exact ⟨k, hk, hc⟩
    obtain ⟨k, hk, hmem, hcx⟩ := hold
    obtain ⟨kc, hkc, hparent⟩ := h.child q k hk c hmem
    exact ⟨besideGone x n kc, by simp [unlinked, hcx, hkc], hparent⟩
  case parent =>
    intro c k q hk hq
    have hcx : c ≠ x := by
      rintro rfl
      simp only [unlinked, if_true, Option.some.injEq] at hk
      subst hk
      cases hq
    simp only [unlinked, if_neg hcx, Option.map_eq_some_iff] at hk
    obtain ⟨k', hk', rfl⟩ := hk
    obtain ⟨nq, hnq, hmem⟩ := h.parent c k' q hk' hq
    by_cases hqx : q = x
    · subst hqx
      rw [hx] at hnq
      cases hnq
      exact ⟨⟨none, none, none, n.children⟩, by simp [unlinked], hmem⟩
    · exact ⟨besideGone x n nq, by simp [unlinked, hqx, hnq], by simp [besideGone, hmem, hcx]⟩
  case sibling => exact unlinked_sibling h hx
  case free =>
    intro c k hk hparent
    by_cases hcx : c = x
    · simp only [unlinked, if_pos hcx, Option.some.injEq] at hk
      subst hk
      exact ⟨rfl, rfl⟩
    · simp only [unlinked, if_neg hcx, Option.map_eq_some_iff] at hk
      obtain ⟨k', hk', rfl⟩ := hk
      obtain ⟨hprev, hnext⟩ := h.free c k' hk' hparent
      simp [besideGone, hprev, hnext]
  case acyclic =>
    intro z hz
    exact h.acyclic z (Relation.TransGen.mono (fun _ _ => isParent_of_unlinked) z z hz)

end Unlinked

/-! ## A part left out -/

open Classical in
/-- The forest without the nodes of `S`. -/
noncomputable def without (m : Forest ι) (S : ι → Prop) : Forest ι :=
  fun y => if S y then none else m y

section Without

variable {m : Forest ι} {S : ι → Prop}

omit [DecidableEq ι] in
theorem without_eq_some {y : ι} {k : Links ι} : without m S y = some k ↔ ¬ S y ∧ m y = some k := by
  unfold without
  split
  · simp_all
  · simp_all

omit [DecidableEq ι] in
/-- No link enters or leaves `S`. -/
theorem without_formed (h : Formed m) (hS : ∀ p c, IsParent m p c → (S p ↔ S c)) :
    Formed (without m S) := by
  constructor
  case nodup =>
    intro q n hq
    exact h.nodup q n (without_eq_some.mp hq).2
  case child =>
    intro q n hq c hc
    obtain ⟨hqS, hq⟩ := without_eq_some.mp hq
    obtain ⟨k, hk, hparent⟩ := h.child q n hq c hc
    exact ⟨k, without_eq_some.mpr ⟨mt (hS q c ⟨k, hk, hparent⟩).mpr hqS, hk⟩, hparent⟩
  case parent =>
    intro c k q hk hq
    obtain ⟨hcS, hk⟩ := without_eq_some.mp hk
    obtain ⟨n, hn, hmem⟩ := h.parent c k q hk hq
    exact ⟨n, without_eq_some.mpr ⟨mt (hS q c ⟨k, hk, hq⟩).mp hcS, hn⟩, hmem⟩
  case sibling =>
    intro q n pre c post k hq hc hk
    exact h.sibling q n pre c post k (without_eq_some.mp hq).2 hc (without_eq_some.mp hk).2
  case free =>
    intro c k hk
    exact h.free c k (without_eq_some.mp hk).2
  case acyclic =>
    intro z hz
    refine h.acyclic z (Relation.TransGen.mono ?_ z z hz)
    rintro a b ⟨k, hk, hka⟩
    exact ⟨k, (without_eq_some.mp hk).2, hka⟩

end Without

end LinkedForest
