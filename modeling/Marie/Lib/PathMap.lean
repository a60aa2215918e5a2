-- Maps from paths to entries. A path is there only if the paths above it are, so a
-- new path brings its prefixes along and a removed one takes all that is below it.
-- Each operation decides path by path, and none is felt apart from its own path.
import Mathlib.Data.List.Infix
import Mathlib.Logic.Function.Basic

variable {κ ε : Type}

/-- What is at each path. -/
abbrev PathMap (κ ε : Type) := List κ → Option ε

namespace PathMap

/-- The paths above a path that is there are there. -/
def Closed (m : PathMap κ ε) : Prop := ∀ p q, p <+: q → m q ≠ none → m p ≠ none

/-- The paths with other entries. -/
def map {δ : Type} (f : ε → δ) (m : PathMap κ ε) : PathMap κ δ := fun q => (m q).map f

/-- Neither of the paths is above the other one. -/
def Apart (p q : List κ) : Prop := ¬ p <+: q ∧ ¬ q <+: p

variable {m m' : PathMap κ ε} {p q r : List κ} {entry : ε} {name : κ}

/-! ## Apart -/

theorem Apart.symm (h : Apart p q) : Apart q p := ⟨h.2, h.1⟩

/-- What is below one of them is apart from the other. -/
theorem Apart.append (h : Apart p q) (rest : List κ) : Apart (p ++ rest) q := by
  refine ⟨fun hp => h.1 ((List.prefix_append p rest).trans hp), fun hq => ?_⟩
  rcases List.prefix_or_prefix_of_prefix hq (List.prefix_append p rest) with hqp | hpq
  · exact h.2 hqp
  · exact h.1 hpq

/-- Two paths that part at a name. -/
theorem apart_of_ne {a b : κ} (hne : a ≠ b) (xs ys : List κ) :
    Apart (p ++ a :: xs) (p ++ b :: ys) := by
  constructor
  · intro h
    exact hne (List.cons_prefix_cons.mp ((List.prefix_append_right_inj p).mp h)).1
  · intro h
    exact hne (List.cons_prefix_cons.mp ((List.prefix_append_right_inj p).mp h)).1.symm

/-! ## What a path sees -/

/-- The two maps are one along the path and below it. -/
def SameAt (p : List κ) (m m' : PathMap κ ε) : Prop := ∀ q, ¬ Apart p q → m q = m' q

theorem SameAt.refl (p : List κ) (m : PathMap κ ε) : SameAt p m m := fun _ _ => rfl

theorem SameAt.trans {m'' : PathMap κ ε} (h : SameAt p m m') (h' : SameAt p m' m'') :
    SameAt p m m'' := fun q hq => (h q hq).trans (h' q hq)

theorem SameAt.append (h : SameAt p m m') (rest : List κ) : m (p ++ rest) = m' (p ++ rest) :=
  h _ fun hapart => hapart.1 (List.prefix_append p rest)

/-! ## The operations -/

section Operations

variable [DecidableEq κ]

/-- The path, and those above it, with a new entry where there is none. -/
def fill (m : PathMap κ ε) (p : List κ) (entry : ε) : PathMap κ ε :=
  fun q => if q <+: p then (m q).or (some entry) else m q

def put (m : PathMap κ ε) (p : List κ) (entry : ε) : PathMap κ ε :=
  Function.update m p (some entry)

/-- The path and what is below it are gone. -/
def prune (m : PathMap κ ε) (p : List κ) : PathMap κ ε := fun q => if p <+: q then none else m q

/-! ## What is there -/

/-- What is there stays as it is. -/
theorem fill_of_ne_none (h : m q ≠ none) : m.fill p entry q = m q := by
  obtain ⟨e, he⟩ := Option.ne_none_iff_exists'.mp h
  unfold fill
  split <;> simp [he]

theorem fill_self : m.fill p entry p = some ((m p).getD entry) := by
  unfold fill
  cases m p <;> simp

@[simp] theorem put_self : m.put p entry p = some entry := by
  simp [put]

theorem put_of_ne (h : q ≠ p) : m.put p entry q = m q := by
  simp [put, h]

theorem prune_below (h : p <+: q) : m.prune p q = none := if_pos h

theorem prune_beside (h : ¬ p <+: q) : m.prune p q = m q := if_neg h

/-! ## Closed maps -/

/-- A path that is there need not be filled. -/
theorem fill_eq_self (h : m.Closed) (hp : m p ≠ none) : m.fill p entry = m := by
  funext q
  by_cases hq : q <+: p
  · exact fill_of_ne_none (h q p hq hp)
  · exact if_neg hq

/-- A path that is not there has nothing below it. -/
theorem prune_eq_self (h : m.Closed) (hp : m p = none) : m.prune p = m := by
  funext q
  by_cases hq : p <+: q
  · rw [prune_below hq]
    by_contra hne
    exact h p q hq (Ne.symm hne) hp
  · exact prune_beside hq

/-- One name below a path that is there. -/
theorem fill_concat (h : m.Closed) (hp : m p ≠ none) (hfree : m (p ++ [name]) = none) :
    m.fill (p ++ [name]) entry = m.put (p ++ [name]) entry := by
  funext q
  by_cases heq : q = p ++ [name]
  · rw [heq, put_self, fill_self, hfree, Option.getD_none]
  · rw [put_of_ne heq]
    by_cases hq : q <+: p ++ [name]
    · have hqp : q <+: p := (List.prefix_concat_iff.mp hq).resolve_left heq
      exact fill_of_ne_none (h q p hqp hp)
    · exact if_neg hq

/-- Filling down to a path, step by step. -/
theorem fill_fill (hpq : p <+: q) : (m.fill p entry).fill q entry = m.fill q entry := by
  funext r
  unfold fill
  by_cases hrp : r <+: p
  · simp only [hrp, hrp.trans hpq, if_true]
    cases m r <;> rfl
  · simp only [hrp, if_false]

/-! ## Other entries for the same paths -/

section Map

variable {δ : Type} {f : ε → δ}

theorem map_fill : (m.fill p entry).map f = (m.map f).fill p (f entry) := by
  funext q
  unfold map fill
  split
  · cases h : m q <;> simp [h]
  · rfl

theorem map_put : (m.put p entry).map f = (m.map f).put p (f entry) := by
  funext q
  unfold map
  by_cases h : q = p
  · rw [h, put_self, put_self, Option.map_some]
  · rw [put_of_ne h, put_of_ne h]

end Map

/-! ## What an operation shows -/

/-- The same operation keeps two maps the same. -/
theorem SameAt.fill (h : SameAt p m m') (q : List κ) (entry : ε) :
    SameAt p (m.fill q entry) (m'.fill q entry) := by
  intro r hr
  unfold PathMap.fill
  rw [h r hr]

theorem SameAt.put (h : SameAt p m m') (q : List κ) (entry : ε) :
    SameAt p (m.put q entry) (m'.put q entry) := by
  intro r hr
  by_cases heq : r = q
  · rw [heq, put_self, put_self]
  · rw [put_of_ne heq, put_of_ne heq, h r hr]

theorem SameAt.prune (h : SameAt p m m') (q : List κ) : SameAt p (m.prune q) (m'.prune q) := by
  intro r hr
  unfold PathMap.prune
  rw [h r hr]

/-- Below a path that is there, what is apart is filled unseen. -/
theorem sameAt_fill (h : m.Closed) (hq : m q ≠ none) (hapart : Apart p q) (rest : List κ) :
    SameAt p (m.fill (q ++ rest) entry) m := by
  intro r hr
  by_cases hbelow : r <+: q ++ rest
  · apply fill_of_ne_none
    rcases List.prefix_or_prefix_of_prefix hbelow (List.prefix_append q rest) with hrq | hqr
    · exact h r q hrq hq
    · obtain ⟨below, rfl⟩ := hqr
      exact absurd (hapart.symm.append below).symm hr
  · exact if_neg hbelow

theorem sameAt_put (hapart : Apart p q) (rest : List κ) :
    SameAt p (m.put (q ++ rest) entry) m := by
  intro r hr
  apply put_of_ne
  rintro rfl
  exact hr (hapart.symm.append rest).symm

theorem sameAt_prune (hapart : Apart p q) (rest : List κ) :
    SameAt p (m.prune (q ++ rest)) m := by
  intro r hr
  apply prune_beside
  rintro ⟨below, rfl⟩
  rw [List.append_assoc] at hr
  exact hr (hapart.symm.append _).symm

end Operations

end PathMap
