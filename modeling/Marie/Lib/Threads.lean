-- Threads in a list: a thread is found by its number, goes on in its place, and a new
-- thread comes last.
import Mathlib.Data.List.Basic

namespace Threads

variable {α : Type} {l : List α} {k j : Nat} {t t' u : α}

theorem set_iff (h : l[k]? = some t) :
    (l.set k t')[j]? = some u ↔ (j = k ∧ u = t') ∨ (j ≠ k ∧ l[j]? = some u) := by
  have hlt : k < l.length := (List.getElem?_eq_some_iff.mp h).1
  rw [List.getElem?_set]
  by_cases hj : k = j
  · subst hj
    simp [hlt, eq_comm]
  · simp [hj, Ne.symm hj]

/-- The thread that went on is found at its number. -/
theorem set_self (h : l[k]? = some t) : (l.set k t')[k]? = some t' :=
  (set_iff h).mpr (.inl ⟨rfl, rfl⟩)

/-- Every other thread is where it was. -/
theorem set_of_ne (h : l[k]? = some t) (hj : j ≠ k) (hu : l[j]? = some u) :
    (l.set k t')[j]? = some u :=
  (set_iff h).mpr (.inr ⟨hj, hu⟩)

theorem concat_iff : (l ++ [t])[j]? = some u ↔ l[j]? = some u ∨ (j = l.length ∧ u = t) := by
  rcases Nat.lt_trichotomy j l.length with hj | hj | hj
  · rw [List.getElem?_append_left hj]
    simp [Nat.ne_of_lt hj]
  · subst hj
    simp [eq_comm]
  · have hlen : (l ++ [t]).length ≤ j := by
      simp only [List.length_append, List.length_singleton]
      omega
    rw [List.getElem?_eq_none hlen, List.getElem?_eq_none (Nat.le_of_lt hj)]
    simp [Nat.ne_of_gt hj]

end Threads
