-- Two stores under the same calls: their answers, one after the other, and when
-- they are the same. A relation between the two states and what has been
-- called so far carries from one call to the next.
import Marie.Lib.Runs
import Mathlib.Data.List.Forall2

namespace Backends

open Runs

variable {σ τ γ α β ε ε' : Type}

/-- Two results are alike: both are errors, or both are the same value. -/
def Alike : Except ε α → Except ε' α → Prop
  | .ok a, .ok b => a = b
  | .error _, .error _ => True
  | _, _ => False

/-- The state after some calls; `call` gives the answer to one, and the state it leaves. -/
def after (call : γ → σ → α × σ) (s : σ) (calls : List γ) : σ :=
  calls.foldl (fun s c => (call c s).2) s

/-- The answers to some calls, in their order. -/
def answers (call : γ → σ → α × σ) : σ → List γ → List α
  | _, [] => []
  | s, c :: calls => (call c s).1 :: answers call (call c s).2 calls

section

variable {call : γ → σ → α × σ} {s : σ} {calls : List γ} {c : γ}

theorem after_concat : after call s (calls ++ [c]) = (call c (after call s calls)).2 := by
  unfold after
  rw [List.foldl_append]
  rfl

theorem answers_concat :
    answers call s (calls ++ [c]) = answers call s calls ++ [(call c (after call s calls)).1] := by
  induction calls generalizing s with
  | nil => rfl
  | cons d calls ih => simp [answers, ih, after]

/-- What the states after any calls keep. -/
theorem after_keeps {I : σ → Prop} (hs : I s) (hstep : ∀ c s, I s → I (call c s).2) :
    I (after call s calls) := by
  induction calls using List.reverseRecOn with
  | nil => exact hs
  | append_singleton calls c ih =>
    rw [after_concat]
    exact hstep _ _ ih

end

section

variable {call : γ → σ → α × σ} {call' : γ → τ → β × τ} {s : σ} {s' : τ} {calls : List γ}
  {Same : α → β → Prop} {M : List γ → γ → Prop}

/-- The two stores answer every call alike. -/
def Agree (Same : α → β → Prop) (call : γ → σ → α × σ) (call' : γ → τ → β × τ) (s : σ) (s' : τ)
    (calls : List γ) : Prop :=
  List.Forall₂ Same (answers call s calls) (answers call' s' calls)

theorem agree_concat {c : γ} :
    Agree Same call call' s s' (calls ++ [c]) ↔
      Agree Same call call' s s' calls ∧
        Same (call c (after call s calls)).1 (call' c (after call' s' calls)).1 := by
  unfold Agree
  rw [answers_concat, answers_concat, ← List.forall₂_reverse_iff, List.reverse_concat,
    List.reverse_concat, List.forall₂_cons, List.forall₂_reverse_iff, and_comm]

/-- Where a relation between the states decides of each call of a kind whether it is answered
alike, the two stores agree on calls of this kind exactly when every one is as `M` asks. -/
theorem agree_iff_of {P : γ → Prop} {R : List γ → σ → τ → Prop} (hs : R [] s s')
    (hstep : ∀ before c t t', P c → R before t t' →
      (Same (call c t).1 (call' c t').1 ↔ M before c) ∧
        (M before c → R (before ++ [c]) (call c t).2 (call' c t').2))
    (hP : ∀ c ∈ calls, P c) :
    Agree Same call call' s s' calls ↔ EveryStep M calls := by
  suffices h : (Agree Same call call' s s' calls ↔ EveryStep M calls) ∧
      (EveryStep M calls → R calls (after call s calls) (after call' s' calls)) from h.1
  induction calls using List.reverseRecOn with
  | nil => exact ⟨⟨fun _ => everyStep_nil, fun _ => .nil⟩, fun _ => hs⟩
  | append_singleton calls c ih =>
    have hc : P c := hP c (by simp)
    obtain ⟨hiff, hrel⟩ := ih fun d hd => hP d (by simp [hd])
    rw [agree_concat, everyStep_concat, after_concat, after_concat]
    refine ⟨?_, fun h => (hstep _ _ _ _ hc (hrel h.1)).2 h.2⟩
    constructor
    · rintro ⟨hcalls, hsame⟩
      have hall := hiff.mp hcalls
      exact ⟨hall, (hstep _ _ _ _ hc (hrel hall)).1.mp hsame⟩
    · rintro ⟨hall, hm⟩
      exact ⟨hiff.mpr hall, (hstep _ _ _ _ hc (hrel hall)).1.mpr hm⟩

/-- Where a relation between the states decides of each call whether it is answered alike, the
two stores agree exactly when every call is as `M` asks. -/
theorem agree_iff {R : List γ → σ → τ → Prop} (hs : R [] s s')
    (hstep : ∀ before c t t', R before t t' →
      (Same (call c t).1 (call' c t').1 ↔ M before c) ∧
        (M before c → R (before ++ [c]) (call c t).2 (call' c t').2)) :
    Agree Same call call' s s' calls ↔ EveryStep M calls :=
  agree_iff_of (P := fun _ => True) hs (fun before c t t' _ => hstep before c t t')
    fun _ _ => trivial

end

end Backends
