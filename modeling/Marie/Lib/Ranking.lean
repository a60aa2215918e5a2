-- Rankings: the members of a list by a score, the best first. Where no two members
-- have one score there is one ranking, whatever the order of the list was.
import Mathlib.Data.List.Nodup
import Mathlib.Data.List.Perm.Basic
import Mathlib.Data.List.Sort
import Mathlib.Order.Compare
import Mathlib.Order.Lattice

namespace Ranking

variable {α β : Type} [LinearOrder β] {f : α → β} {xs ys : List α} {x : α} {n : Nat}

/-- No two members have one score. -/
def Apart (f : α → β) (xs : List α) : Prop := (xs.map f).Nodup

/-- The best come first. -/
def Decreasing (f : α → β) (xs : List α) : Prop := xs.Pairwise fun a b => f b < f a

/-- The stable sort of the members with their scores. -/
def ranked (f : α → β) (xs : List α) : List α :=
  (((xs.map fun x => (x, f x)).mergeSort fun a b => decide (b.2 ≤ a.2))).map Prod.fst

/-- The last of the members that no other one exceeds, for an order of them. -/
def max_by (cmp : α → α → Ordering) : List α → Option α
  | [] => none
  | x :: xs => some (xs.foldl (fun x y => match cmp x y with | .gt => x | _ => y) x)

/-! ## The ranking -/

omit [LinearOrder β] in
theorem Apart.perm (h : Apart f xs) (hperm : ys.Perm xs) : Apart f ys :=
  (hperm.map f).nodup_iff.mpr h

omit [LinearOrder β] in
theorem Apart.nodup (h : Apart f xs) : xs.Nodup := List.Nodup.of_map f h

theorem ranked_perm (f : α → β) (xs : List α) : (ranked f xs).Perm xs := by
  unfold ranked
  have hperm := (List.mergeSort_perm (xs.map fun x => (x, f x))
    fun a b => decide (b.2 ≤ a.2)).map Prod.fst
  simpa [Function.comp_def] using hperm

theorem ranked_pairwise (f : α → β) (xs : List α) :
    (ranked f xs).Pairwise fun a b => f b ≤ f a := by
  unfold ranked
  rw [List.pairwise_map]
  have hsorted := List.pairwise_mergeSort' (Order.Preimage Prod.snd (· ≥ ·)) (xs.map fun x => (x, f x))
  have hscore : ∀ p ∈ (xs.map fun x => (x, f x)).mergeSort fun a b => decide (b.2 ≤ a.2),
      p.2 = f p.1 := by
    intro p hp
    obtain ⟨x, -, rfl⟩ := List.mem_map.mp (List.mem_mergeSort.mp hp)
    simp only
  apply hsorted.imp_of_mem
  intro a b ha hb hab
  rw [← hscore a ha, ← hscore b hb]
  exact hab

theorem ranked_decreasing (h : Apart f xs) : Decreasing f (ranked f xs) := by
  have hapart := h.perm (ranked_perm f xs)
  unfold Apart at hapart
  rw [List.nodup_iff_pairwise_ne, List.pairwise_map] at hapart
  apply (ranked_pairwise f xs).imp₂ _ hapart
  intro a b hle hne
  exact lt_of_le_of_ne hle hne.symm

/-- There is one way to rank. -/
theorem Decreasing.eq_of_perm (hx : Decreasing f xs) (hy : Decreasing f ys) (h : xs.Perm ys) :
    xs = ys := by
  apply h.eq_of_pairwise _ hx hy
  intro a b _ _ hab hba
  exact absurd hab (lt_asymm hba)

theorem ranked_congr (h : Apart f xs) (hperm : ys.Perm xs) : ranked f ys = ranked f xs := by
  apply (ranked_decreasing (h.perm hperm)).eq_of_perm (ranked_decreasing h)
  exact (ranked_perm f ys).trans (hperm.trans (ranked_perm f xs).symm)

/-! ## The best -/

theorem foldl_max (f : α → β) (x : α) (xs : List α) :
    let best := xs.foldl (fun x y => match compare (f x) (f y) with | .gt => x | _ => y) x
    best ∈ x :: xs ∧ ∀ y ∈ x :: xs, f y ≤ f best := by
  induction xs generalizing x with
  | nil => simp
  | cons y ys ih =>
    rw [List.foldl_cons]
    by_cases hlt : f y < f x
    · have hcmp : compare (f x) (f y) = .gt := compare_gt_iff_gt.mpr hlt
      simp only [hcmp]
      obtain ⟨hmem, hmax⟩ := ih x
      refine ⟨by grind, ?_⟩
      intro z hz
      have hx := hmax x List.mem_cons_self
      have hzs := hmax z
      grind
    · have hle : f x ≤ f y := le_of_not_gt hlt
      have hstep : (match compare (f x) (f y) with | .gt => x | _ => y) = y := by
        split
        · rename_i hcmp
          exact absurd (compare_gt_iff_gt.mp hcmp) hlt
        · rfl
      simp only [hstep]
      obtain ⟨hmem, hmax⟩ := ih y
      refine ⟨by grind, ?_⟩
      intro z hz
      have hy := hmax y List.mem_cons_self
      have hzs := hmax z
      grind

theorem max_by_spec (h : max_by (fun a b => compare (f a) (f b)) xs = some x) :
    x ∈ xs ∧ ∀ y ∈ xs, f y ≤ f x := by
  cases xs with
  | nil => simp [max_by] at h
  | cons y ys =>
    have hbest := foldl_max f y ys
    unfold max_by at h
    rwa [Option.some.inj h] at hbest

theorem max_by_eq_none {cmp : α → α → Ordering} : max_by cmp xs = none ↔ xs = [] := by
  cases xs <;> simp [max_by]

/-- The best is at the head of the ranking. -/
theorem max_by_eq_head (h : Apart f xs) :
    max_by (fun a b => compare (f a) (f b)) xs = (ranked f xs).head? := by
  have hperm := ranked_perm f xs
  have hdecreasing := ranked_decreasing h
  cases xs with
  | nil =>
    rw [hperm.eq_nil]
    rfl
  | cons x xs =>
    cases hranked : ranked f (x :: xs) with
    | nil =>
      rw [hranked] at hperm
      simp at hperm
    | cons y ys =>
      rw [hranked] at hperm hdecreasing
      obtain ⟨hmem, hmax⟩ := foldl_max f x xs
      unfold max_by
      rw [List.head?_cons, Option.some_inj]
      rcases List.mem_cons.mp (hperm.mem_iff.mpr hmem) with heq | hlater
      · exact heq
      · -- what is ranked after `y` has a lower score, and the best has not
        have hlt := (List.pairwise_cons.mp hdecreasing).1 _ hlater
        have hle := hmax y (hperm.mem_iff.mp List.mem_cons_self)
        exact absurd hlt (not_lt.mpr hle)

/-! ## One member less -/

section Erase

variable [DecidableEq α]

theorem take_erase_of_not_mem (h : x ∉ xs.take n) : (xs.erase x).take n = xs.take n := by
  induction xs generalizing n with
  | nil => simp
  | cons y ys ih =>
    cases n with
    | zero => simp
    | succ n =>
      rw [List.take_succ_cons, List.mem_cons, not_or] at h
      have hne : ¬ y = x := fun heq => h.1 heq.symm
      rw [List.erase_cons_tail (by simpa using hne), List.take_succ_cons, List.take_succ_cons, ih h.2]

/-- The one that comes after the first `n` moves up. -/
theorem take_erase_of_mem (h : x ∈ xs.take n) :
    (xs.erase x).take n = (xs.take n).erase x ++ xs[n]?.toList := by
  induction xs generalizing n with
  | nil => simp at h
  | cons y ys ih =>
    cases n with
    | zero => simp at h
    | succ n =>
      rw [List.take_succ_cons] at h ⊢
      by_cases heq : y = x
      · subst heq
        rw [List.erase_cons_head, List.erase_cons_head, List.take_add_one,
          List.getElem?_cons_succ]
      · have hmem : x ∈ ys.take n := by
          rcases List.mem_cons.mp h with hx | hx
          · exact absurd hx.symm heq
          · exact hx
        rw [List.erase_cons_tail (by simpa using heq), List.erase_cons_tail (by simpa using heq),
          List.take_succ_cons, ih hmem, List.getElem?_cons_succ, List.cons_append]

theorem ranked_erase (h : Apart f xs) (x : α) : ranked f (xs.erase x) = (ranked f xs).erase x := by
  have hapart : Apart f (xs.erase x) := by
    unfold Apart at h ⊢
    exact h.sublist (List.erase_sublist.map f)
  apply (ranked_decreasing hapart).eq_of_perm
  · exact (ranked_decreasing h).sublist List.erase_sublist
  · exact (ranked_perm f _).trans ((ranked_perm f xs).symm.erase x)

end Erase

end Ranking
