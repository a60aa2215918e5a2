-- Closures over data: the argument is decoded, the closure is called on it and
-- builds a future, and what the future returns is encoded. Each of these may fail,
-- and the module says when an execution that unwraps every failure panics.
import Mathlib.Logic.Basic

namespace Closures

/-! ## Panics -/

/-- What a panic carries: a text, or anything else. -/
inductive Payload
  | text (message : String)
  | other
deriving DecidableEq

/-- A computation that may panic. -/
abbrev Unwind (α : Type) := Except Payload α

/-- `Result::unwrap`, with the text of the error. -/
def unwrap {α : Type} : Except String α → Unwind α
  | .ok a => .ok a
  | .error e => .error (.text ("called `Result::unwrap()` on an `Err` value: " ++ e))

/-! ## Closures -/

variable {δ ω ρ Args Ret : Type}

/-- The argument is decoded, or there is an error. The call of the closure in a world may panic
before it gives a future, and the future may panic while it is polled. What it returns is encoded,
or there is an error. -/
abbrev Closure (δ ω ρ : Type) := δ → Except String (ω → Unwind (Unwind (Except String ρ)))

namespace Closure

/-- The closure of a function on typed arguments. -/
def of (from_value : δ → Except String Args) (f : ω → Args → Unwind (Unwind Ret))
    (to_value : Ret → Except String ρ) : Closure δ ω ρ := fun d =>
  (from_value d).map fun args w => (f w args).map fun fut => fut.map to_value

/-- The call with every error unwrapped: the future that it builds, if it builds one. -/
def execute (c : Closure δ ω ρ) (w : ω) (d : δ) : Unwind (Unwind ρ) := do
  let call ← unwrap (c d)
  let fut ← call w
  pure (fut >>= unwrap)

/-- The argument is decoded and the call gives the future. -/
def Builds (c : Closure δ ω ρ) (w : ω) (d : δ) (fut : Unwind (Except String ρ)) : Prop :=
  ∃ call, c d = .ok call ∧ call w = .ok fut

/-- The argument is decoded, the call gives a future, the future returns, and the result is
encoded. -/
def Returns (c : Closure δ ω ρ) (w : ω) (d : δ) (value : ρ) : Prop :=
  c.Builds w d (.ok (.ok value))

variable {c : Closure δ ω ρ} {w : ω} {d : δ}

theorem execute_of_builds {fut : Unwind (Except String ρ)} (h : c.Builds w d fut) :
    c.execute w d = .ok (fut >>= unwrap) := by
  obtain ⟨call, hdecode, hcall⟩ := h
  unfold execute
  rw [hdecode]
  simp [unwrap, hcall, bind, Except.bind, pure, Except.pure]

theorem execute_of_not_builds (h : ∀ fut, ¬ c.Builds w d fut) :
    ∃ payload, c.execute w d = .error payload := by
  unfold execute
  cases hdecode : c d with
  | error e => exact ⟨_, rfl⟩
  | ok call =>
    cases hcall : call w with
    | error payload => exact ⟨payload, by simp [unwrap, hcall, bind, Except.bind]⟩
    | ok fut => exact absurd ⟨call, hdecode, hcall⟩ (h fut)

theorem execute_ok_iff : (∃ task, c.execute w d = .ok task) ↔ ∃ fut, c.Builds w d fut := by
  constructor
  · rintro ⟨task, htask⟩
    by_cases hbuilds : ∃ fut, c.Builds w d fut
    · exact hbuilds
    · obtain ⟨payload, hpanics⟩ := execute_of_not_builds fun fut h => hbuilds ⟨fut, h⟩
      rw [hpanics] at htask
      cases htask
  · rintro ⟨fut, h⟩
    exact ⟨_, execute_of_builds h⟩

theorem unwrap_eq_ok {α : Type} {r : Except String α} {a : α} : unwrap r = .ok a ↔ r = .ok a := by
  cases r <;> simp [unwrap]

/-- An execution gives a value when every step before it does. -/
theorem execute_returns_iff {value : ρ} :
    c.execute w d = .ok (.ok value) ↔ c.Returns w d value := by
  constructor
  · intro h
    obtain ⟨fut, hbuilds⟩ := execute_ok_iff.mp ⟨_, h⟩
    rw [execute_of_builds hbuilds] at h
    cases fut with
    | error payload => cases Except.ok.inj h
    | ok ret =>
      have hret : ret = .ok value := unwrap_eq_ok.mp (Except.ok.inj h)
      rwa [hret] at hbuilds
  · intro h
    rw [execute_of_builds h]
    rfl

/-- What the closure of a function builds, from the parts of it. -/
theorem builds_of_iff {from_value : δ → Except String Args} {f : ω → Args → Unwind (Unwind Ret)}
    {to_value : Ret → Except String ρ} :
    (∃ fut, (of from_value f to_value).Builds w d fut) ↔
      ∃ args fut, from_value d = .ok args ∧ f w args = .ok fut := by
  unfold Builds of
  cases from_value d with
  | error e => simp [Except.map]
  | ok args => cases hf : f w args <;> simp [Except.map, hf]

end Closure

end Closures
