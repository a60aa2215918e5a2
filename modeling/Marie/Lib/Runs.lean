-- Runs, as the list of the steps that were taken: what holds after every step,
-- and what is asked of every step. An invariant carries the one to the other.
import Mathlib.Data.List.Basic
import Mathlib.Data.List.Induction

namespace Runs

variable {α : Type}

/-- `P` holds of what has been run at every moment of the run. -/
def EveryState (P : List α → Prop) (run : List α) : Prop := ∀ before, before <+: run → P before

/-- `M` holds of every step, and of what had been run before it. -/
def EveryStep (M : List α → α → Prop) (run : List α) : Prop :=
  ∀ before step after, run = before ++ step :: after → M before step

variable {I P : List α → Prop} {H M : List α → α → Prop} {run : List α} {step : α}

theorem everyState_nil : EveryState P [] ↔ P [] := by
  constructor
  · intro h
    exact h [] (List.prefix_refl [])
  · intro h before hbefore
    rwa [List.prefix_nil.mp hbefore]

theorem everyState_concat : EveryState P (run ++ [step]) ↔ EveryState P run ∧ P (run ++ [step]) := by
  constructor
  · intro h
    refine ⟨fun before hbefore => h before (hbefore.trans (List.prefix_append _ _)), ?_⟩
    exact h _ (List.prefix_refl _)
  · rintro ⟨hrun, hlast⟩ before hbefore
    rcases List.prefix_concat_iff.mp hbefore with rfl | hbefore
    · exact hlast
    · exact hrun before hbefore

theorem everyStep_nil : EveryStep M [] := by
  intro before step after h
  simp at h

/-- What is asked of every step is asked of the steps of a part from the start. -/
theorem EveryStep.of_append {later : List α} (h : EveryStep M (run ++ later)) : EveryStep M run := by
  rintro before step after rfl
  exact h before step (after ++ later) (by simp)

theorem everyStep_concat : EveryStep M (run ++ [step]) ↔ EveryStep M run ∧ M run step := by
  constructor
  · intro h
    refine ⟨?_, h run step [] rfl⟩
    rintro before x after rfl
    exact h before x (after ++ [step]) (by simp)
  · rintro ⟨hrun, hlast⟩ before x after heq
    rcases List.eq_nil_or_concat after with rfl | ⟨after, last, rfl⟩
    · obtain ⟨rfl, hx⟩ := List.append_inj' heq rfl
      cases hx
      exact hlast
    · rw [List.concat_eq_append, ← List.cons_append, ← List.append_assoc] at heq
      obtain ⟨rfl, -⟩ := List.append_inj' heq rfl
      exact hrun before x after rfl

/-- Where an invariant decides of each step whether it is as `H` asks and `P` holds after it, `P`
holds at every moment and `H` of every step exactly when every step is as `M` asks. -/
theorem everyState_and_everyStep_iff (hI : I []) (hP : P [])
    (hstep : ∀ before step, before ++ [step] <+: run → I before → P before →
      (P (before ++ [step]) ∧ H before step ↔ M before step) ∧
        (M before step → I (before ++ [step]))) :
    EveryState P run ∧ EveryStep H run ↔ EveryStep M run := by
  suffices hrun : (EveryState P run ∧ EveryStep H run ↔ EveryStep M run) ∧
      (EveryStep M run → I run) from hrun.1
  induction run using List.reverseRecOn with
  | nil =>
    refine ⟨⟨fun _ => everyStep_nil, fun _ => ?_⟩, fun _ => hI⟩
    exact ⟨everyState_nil.mpr hP, everyStep_nil⟩
  | append_singleton run step ih =>
    obtain ⟨hiff, hinv⟩ := ih fun before step hbefore =>
      hstep before step (hbefore.trans (List.prefix_append _ _))
    rw [everyState_concat, everyStep_concat, everyStep_concat]
    have hlast : EveryStep M run →
        (P (run ++ [step]) ∧ H run step ↔ M run step) ∧ (M run step → I (run ++ [step])) := by
      intro h
      have hP' := (hiff.mpr h).1 run (List.prefix_refl _)
      exact hstep run step (List.prefix_refl _) (hinv h) hP'
    refine ⟨⟨?_, ?_⟩, fun h => (hlast h.1).2 h.2⟩
    · rintro ⟨⟨hstates, hP'⟩, hsteps, hH⟩
      have hrun := hiff.mp ⟨hstates, hsteps⟩
      exact ⟨hrun, (hlast hrun).1.mp ⟨hP', hH⟩⟩
    · rintro ⟨hrun, hM⟩
      obtain ⟨hstates, hsteps⟩ := hiff.mpr hrun
      obtain ⟨hP', hH⟩ := (hlast hrun).1.mpr hM
      exact ⟨⟨hstates, hP'⟩, hsteps, hH⟩

/-- Where an invariant decides of each step whether `P` holds after it, `P` holds at every moment
exactly when every step is as `M` asks. -/
theorem everyState_iff_everyStep (hI : I []) (hP : P [])
    (hstep : ∀ before step, before ++ [step] <+: run → I before → P before →
      (P (before ++ [step]) ↔ M before step) ∧ (M before step → I (before ++ [step]))) :
    EveryState P run ↔ EveryStep M run := by
  have hall : EveryStep (fun _ _ => True) run := fun _ _ _ _ => trivial
  rw [← everyState_and_everyStep_iff (H := fun _ _ => True) hI hP (M := M)]
  · exact ⟨fun h => ⟨h, hall⟩, fun h => h.1⟩
  · intro before step hbefore hinv hP'
    obtain ⟨hiff, hnext⟩ := hstep before step hbefore hinv hP'
    exact ⟨by rw [← hiff, and_true], hnext⟩

end Runs
