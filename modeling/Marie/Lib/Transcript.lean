-- The calls that a state answers in turn, each with its answer. The module
-- gives the rule of what such a transcript keeps, its join with the calls that
-- come after, and the loop over a list that it is the record of.
import Mathlib.Data.List.Induction
import Marie.Lib.Program

namespace Program

variable {ε σ ι ο : Type} {f : ι → Program ε σ ο} {s s' : σ} {calls later : List (ι × ο)}

/-- From `s` the calls are answered in turn, and the last one leaves the state at the end. -/
inductive Answers (f : ι → Program ε σ ο) (s : σ) : List (ι × ο) → σ → Prop
  | start : Answers f s [] s
  | next {calls : List (ι × ο)} {s1 s2 : σ} {x : ι} {y : ο} : Answers f s calls s1 →
      exec (f x) s1 = (.ok y, s2) → Answers f s (calls ++ [(x, y)]) s2

/-! ## What every call keeps -/

/-- What holds of no calls, and of one call more whenever it held before it, holds of every
transcript. -/
theorem Answers.rule {I : List (ι × ο) → σ → Prop} (h : Answers f s calls s') (h0 : I [] s)
    (hnext : ∀ calls s1 x y s2, I calls s1 → exec (f x) s1 = (.ok y, s2) →
      I (calls ++ [(x, y)]) s2) : I calls s' := by
  induction h with
  | start => exact h0
  | next _ hx ih => exact hnext _ _ _ _ _ ih hx

theorem Answers.append {s1 : σ} (h1 : Answers f s calls s1) (h2 : Answers f s1 later s') :
    Answers f s (calls ++ later) s' := by
  induction h2 with
  | start => simpa using h1
  | next _ hx ih =>
    rw [← List.append_assoc]
    exact ih.next hx

/-- The last call of a transcript, and the transcript before it. -/
theorem Answers.last {x : ι} {y : ο} (h : Answers f s (calls ++ [(x, y)]) s') :
    ∃ s1, Answers f s calls s1 ∧ exec (f x) s1 = (.ok y, s') := by
  generalize hall : calls ++ [(x, y)] = all at h
  cases h with
  | start => simp at hall
  | next hbefore hx =>
    obtain ⟨rfl, hlast⟩ := List.append_inj' hall rfl
    cases hlast
    exact ⟨_, hbefore, hx⟩

/-- A transcript cut in two. -/
theorem Answers.split (h : Answers f s (calls ++ later) s') :
    ∃ s1, Answers f s calls s1 ∧ Answers f s1 later s' := by
  induction later using List.reverseRecOn generalizing s' with
  | nil => exact ⟨s', by simpa using h, .start⟩
  | append_singleton later xy ih =>
    rw [← List.append_assoc] at h
    obtain ⟨s2, hbefore, hx⟩ := h.last
    obtain ⟨s1, hcalls, hlater⟩ := ih hbefore
    exact ⟨s1, hcalls, hlater.next hx⟩

/-! ## The loop over a list -/

variable {xs ys : List ι} {as bs : List ο}

theorem exec_mapM_append (h : exec (xs.mapM f) s = (.ok as, s')) :
    exec ((xs ++ ys).mapM f) s =
      ((exec (ys.mapM f) s').1.map (as ++ ·), (exec (ys.mapM f) s').2) := by
  rw [List.mapM_append, exec_bind_ok h, exec_bind]
  rcases exec (ys.mapM f) s' with ⟨_ | bs, s2⟩ <;> rfl

theorem exec_mapM_append_error {e : ε} (h : exec (xs.mapM f) s = (.error e, s')) :
    exec ((xs ++ ys).mapM f) s = (.error e, s') := by
  rw [List.mapM_append, exec_bind_error h]

/-- A loop that ends well answered every call. -/
theorem answers_of_mapM (h : exec (xs.mapM f) s = (.ok as, s')) :
    as.length = xs.length ∧ Answers f s (xs.zip as) s' := by
  induction xs generalizing s as with
  | nil =>
    cases h
    exact ⟨rfl, .start⟩
  | cons x xs ih =>
    rw [List.mapM_cons] at h
    obtain ⟨a, s1, hx, h⟩ := exec_bind_eq_ok h
    obtain ⟨as', s2, hxs, h⟩ := exec_bind_eq_ok h
    cases h
    obtain ⟨hlen, hrest⟩ := ih hxs
    exact ⟨by simp [hlen], (Answers.start.next hx).append hrest⟩

/-- A transcript is the record of a loop over its calls. -/
theorem answers_iff_mapM : Answers f s calls s' ↔
    exec ((calls.map Prod.fst).mapM f) s = (.ok (calls.map Prod.snd), s') := by
  constructor
  · intro h
    induction h with
    | start => rfl
    | next _ hx ih =>
      rw [List.map_append, exec_mapM_append ih, List.map_singleton, List.mapM_cons,
        exec_bind_ok hx, List.mapM_nil]
      simp [Except.map]
  · intro h
    have hanswers := (answers_of_mapM h).2
    rwa [List.zip_map', List.map_id'] at hanswers

/-- Two states that no call tells apart, and that every call leaves so, are told apart by no
loop. -/
theorem exec_mapM_alike {R : σ → σ → Prop}
    (hcall : ∀ x s t, R s t →
      (exec (f x) s).1 = (exec (f x) t).1 ∧ R (exec (f x) s).2 (exec (f x) t).2)
    (h : R s s') : (exec (xs.mapM f) s).1 = (exec (xs.mapM f) s').1 ∧
      R (exec (xs.mapM f) s).2 (exec (xs.mapM f) s').2 := by
  induction xs generalizing s s' with
  | nil => exact ⟨rfl, h⟩
  | cons x xs ih =>
    obtain ⟨hresult, hleft⟩ := hcall x s s' h
    rw [List.mapM_cons, exec_bind, exec_bind]
    rcases hx : exec (f x) s with ⟨r, s1⟩
    rcases hx' : exec (f x) s' with ⟨r', t1⟩
    rw [hx, hx'] at hresult hleft
    cases hresult
    cases r with
    | error e => exact ⟨rfl, hleft⟩
    | ok a =>
      obtain ⟨hrest, hends⟩ := ih hleft
      simp only [exec_bind]
      rcases hxs : exec (xs.mapM f) s1 with ⟨q, s2⟩
      rcases hxs' : exec (xs.mapM f) t1 with ⟨q', t2⟩
      rw [hxs, hxs'] at hrest hends
      cases hrest
      cases q with
      | error e => exact ⟨rfl, hends⟩
      | ok as => exact ⟨rfl, hends⟩

/-- Loops of loops answer as one loop over all the calls. -/
theorem exec_mapM_flatten {g : List ι → Program ε σ (List ο)} (hg : ∀ xs, g xs = xs.mapM f)
    (xss : List (List ι)) (s : σ) : exec (xss.flatten.mapM f) s =
      ((exec (xss.mapM g) s).1.map List.flatten, (exec (xss.mapM g) s).2) := by
  induction xss generalizing s with
  | nil => rfl
  | cons xs xss ih =>
    rw [List.flatten_cons, List.mapM_cons, hg xs]
    rcases hxs : exec (xs.mapM f) s with ⟨e | as, s1⟩
    · rw [exec_mapM_append_error hxs, exec_bind_error hxs]
      rfl
    · rw [exec_mapM_append hxs, exec_bind_ok hxs, ih s1, exec_bind]
      rcases exec (xss.mapM g) s1 with ⟨e | ass, s2⟩ <;> rfl

end Program
