-- A search by levels: the elements of a level, then their successors, and so on.
-- Where a rank grows along every step and stays under a bound, the search finds
-- exactly what can be reached.
import Mathlib.Data.List.Basic
import Mathlib.Logic.Relation

namespace Levels

open Relation

variable {α : Type} {step : α → List α} {a : α}

/-- The elements of a level and of the levels after it, at most `fuel` of them. -/
def levels (step : α → List α) : Nat → List α → List α
  | 0, _ => []
  | fuel + 1, level => level ++ levels step fuel (level.flatMap step)

/-- `a` is found from an element of the level. -/
def Reached (step : α → List α) (level : List α) (a : α) : Prop :=
  ∃ b ∈ level, ReflTransGen (fun x y => y ∈ step x) b a

/-- What is reached is in the level itself or is reached from the next one. -/
theorem reached_iff {level : List α} :
    Reached step level a ↔ a ∈ level ∨ Reached step (level.flatMap step) a := by
  constructor
  · rintro ⟨b, hb, hreach⟩
    rcases hreach.cases_head with rfl | ⟨c, hstep, hrest⟩
    · exact .inl hb
    · exact .inr ⟨c, List.mem_flatMap.mpr ⟨b, hb, hstep⟩, hrest⟩
  · rintro (hmem | ⟨c, hc, hrest⟩)
    · exact ⟨a, hmem, .refl⟩
    · obtain ⟨b, hb, hstep⟩ := List.mem_flatMap.mp hc
      exact ⟨b, hb, .head hstep hrest⟩

theorem mem_levels {bound : Nat} (rank : α → Nat)
    (hgrow : ∀ x, ∀ y ∈ step x, rank x < rank y ∧ rank y < bound) (fuel : Nat) (level : List α)
    (hlevel : ∀ b ∈ level, rank b < bound ∧ bound ≤ rank b + fuel) :
    a ∈ levels step fuel level ↔ Reached step level a := by
  induction fuel generalizing level with
  | zero =>
    -- no element has a rank between the bound and itself
    constructor
    · intro h
      simp [levels] at h
    · rintro ⟨b, hb, -⟩
      have := hlevel b hb
      omega
  | succ fuel ih =>
    rw [levels, List.mem_append, reached_iff, ih]
    intro c hc
    obtain ⟨b, hb, hstep⟩ := List.mem_flatMap.mp hc
    have hrank := hgrow b c hstep
    have hb' := hlevel b hb
    omega

/-- The search is closed under the steps. -/
theorem Reached.next {level : List α} (h : Reached step level a) {b : α} (hb : b ∈ step a) :
    Reached step level b := by
  obtain ⟨first, hfirst, hreach⟩ := h
  exact ⟨first, hfirst, hreach.tail hb⟩

end Levels
