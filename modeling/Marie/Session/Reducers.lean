-- What a reducer makes of the contributions of several commits. Every reducer
-- may take them one batch after the other. `Max` goes through `f64`, so that
-- what it keeps of integers is the float nearest to the greatest of them.
import Mathlib.Data.List.Perm.Basic
import Marie.Session.ChannelLaws

namespace marie.session

/-! ## The maximum -/

/-- The value that `Max` makes of what the loop found. -/
def maxValue : Option ℚ → Value
  | some n => .Number (.Float n)
  | none => .Null

section Max

variable {current : Option Value} {xs ys : List Value} {best : Option ℚ} {c d : Value} {x : ℚ}

theorem reduce_max :
    Reducer.Max.reduce current xs = maxValue (xs.foldl maxOf (current.bind Value.as_f64)) := by
  unfold Reducer.reduce maxValue
  cases xs.foldl maxOf (current.bind Value.as_f64) <;> rfl

theorem as_f64_maxValue (best : Option ℚ) : (maxValue best).as_f64 = best := by
  cases best <;> rfl

/-- A maximum is read back as what the loop found. -/
theorem as_f64_reduce_max :
    (Reducer.Max.reduce current xs).as_f64 = xs.foldl maxOf (current.bind Value.as_f64) := by
  rw [reduce_max, as_f64_maxValue]

theorem maxOf_le (best : Option ℚ) (c : Value) : maxOf (maxOf best c) c = maxOf best c := by
  unfold maxOf
  cases c.as_f64 with
  | none => rfl
  | some n => cases best <;> simp

theorem maxOf_comm (best : Option ℚ) (c d : Value) :
    maxOf (maxOf best c) d = maxOf (maxOf best d) c := by
  unfold maxOf
  cases c.as_f64 <;> cases d.as_f64 <;> cases best <;> simp [max_comm, max_left_comm]

theorem foldl_maxOf_comm (xs : List Value) (best : Option ℚ) (c : Value) :
    xs.foldl maxOf (maxOf best c) = maxOf (xs.foldl maxOf best) c := by
  induction xs generalizing best with
  | nil => rfl
  | cons x xs ih => rw [List.foldl_cons, List.foldl_cons, maxOf_comm, ih]

/-- The order of the contributions does not matter. -/
theorem foldl_maxOf_perm (h : xs.Perm ys) (best : Option ℚ) :
    xs.foldl maxOf best = ys.foldl maxOf best :=
  h.foldl_eq' (fun c _ d _ best => maxOf_comm best c d) best

/-- The loop finds a number that it had or was given, and none above it. -/
theorem foldl_maxOf_eq_some_iff :
    xs.foldl maxOf best = some x ↔
      (best = some x ∨ ∃ c ∈ xs, c.as_f64 = some x) ∧
        (∀ b, best = some b → b ≤ x) ∧ ∀ c ∈ xs, ∀ n, c.as_f64 = some n → n ≤ x := by
  induction xs generalizing best with
  | nil =>
    simp only [List.foldl_nil, List.not_mem_nil, false_and, exists_false, or_false, false_implies,
      implies_true, and_true]
    constructor
    · rintro rfl
      exact ⟨rfl, fun b hb => (Option.some.inj hb).ge⟩
    · exact And.left
  | cons c xs ih =>
    rw [List.foldl_cons, ih]
    simp only [List.mem_cons, exists_eq_or_imp, forall_eq_or_imp]
    unfold maxOf
    cases hc : c.as_f64 with
    | none => simp
    | some n =>
      cases best with
      | none =>
        simp only [Option.some.injEq, reduceCtorEq, false_or, false_implies, implies_true, true_and,
          forall_eq']
      | some b =>
        simp only [Option.some.injEq, forall_eq']
        constructor
        · rintro ⟨hfrom, hle, hrest⟩
          refine ⟨?_, (le_max_left b n).trans hle, (le_max_right b n).trans hle, hrest⟩
          rcases hfrom with heq | hmem
          · rcases max_choice b n with h | h
            · exact .inl (h.symm.trans heq)
            · exact .inr (.inl (h.symm.trans heq))
          · exact .inr (.inr hmem)
        · rintro ⟨hfrom, hb, hn, hrest⟩
          refine ⟨?_, max_le hb hn, hrest⟩
          rcases hfrom with rfl | rfl | hmem
          · exact .inl (max_eq_left hn)
          · exact .inl (max_eq_right hb)
          · exact .inr hmem

end Max

/-! ## Batches -/

/-- A reducer goes on from what it made of the first batch. -/
theorem reduce_append (r : Reducer) (current : Option Value) (xs ys : List Value) :
    r.reduce current (xs ++ ys) = r.reduce (some (r.reduce current xs)) ys := by
  cases r with
  | LastWriteWins =>
    unfold Reducer.reduce
    rw [List.getLast?_append]
    cases ys.getLast? <;> simp
  | Append =>
    unfold Reducer.reduce
    simp
  | Max => rw [reduce_max, reduce_max, Option.bind_some, as_f64_reduce_max, List.foldl_append]

variable {spec : CommonSpec} {name : ChannelName} {current : Option Value}

theorem reduced_append (xs ys : List Value) :
    spec.reduced name current (xs ++ ys) = spec.reduced name (spec.reduced name current xs) ys := by
  unfold CommonSpec.reduced
  cases xs with
  | nil => simp
  | cons x xs =>
    cases ys with
    | nil => simp
    | cons y ys => simp [← reduce_append]

theorem contributions_append (name : ChannelName) (first second : List ChannelUpdate) :
    contributions name (first ++ second) =
      contributions name first ++ contributions name second := by
  unfold contributions
  rw [List.filter_append, List.map_append]

theorem commit_append (spec : CommonSpec) (channels : Channels) (first second : List ChannelUpdate) :
    commit_channels spec channels (first ++ second) =
      commit_channels spec (commit_channels spec channels first) second := by
  funext name
  simp only [commit_channels_at, contributions_append, reduced_append]

/-- **Batches do not matter**: contributions may be reduced all at once or one batch after the
other, so that two commits leave the channels that one commit of both leaves; and the maximum of
contributions does not depend on their order. -/
theorem reducers_are_batch_independent (r : Reducer) (current : Option Value) (xs ys : List Value)
    (spec : CommonSpec) (channels : Channels) (first second : List ChannelUpdate) :
    r.reduce current (xs ++ ys) = r.reduce (some (r.reduce current xs)) ys ∧
      commit_channels spec channels (first ++ second) =
        commit_channels spec (commit_channels spec channels first) second ∧
      ∀ zs, xs.Perm zs → Reducer.Max.reduce current xs = Reducer.Max.reduce current zs := by
  refine ⟨reduce_append r current xs ys, commit_append spec channels first second, ?_⟩
  intro zs h
  rw [reduce_max, reduce_max, foldl_maxOf_perm h]

/-! ## Integers -/

/-- The maximum is the greatest number that the channel had or was given, as it was given. -/
def MaxIsExact (current : Option Value) (contributions : List Value) : Prop :=
  ∃ n, Reducer.Max.reduce current contributions = .Number n ∧
    .Number n ∈ current.toList ++ contributions ∧
    ∀ m, .Number m ∈ current.toList ++ contributions → m.exact ≤ n.exact

/-- A maximum is a float. -/
theorem reduce_max_eq_number {n : Number} {xs : List Value} :
    Reducer.Max.reduce current xs = .Number n ↔
      ∃ x, n = .Float x ∧ xs.foldl maxOf (current.bind Value.as_f64) = some x := by
  rw [reduce_max]
  cases xs.foldl maxOf (current.bind Value.as_f64) with
  | none => simp [maxValue]
  | some x => simp [maxValue, eq_comm]

/-- **`Max` keeps no integer**: the maximum of integers is one of the numbers it was made of only
when the channel held a float that is none below them. -/
theorem max_is_exact_iff (current : Option Value) (contributions : List Value)
    (h : ∀ c ∈ contributions, c.IsInteger) :
    MaxIsExact current contributions ↔
      ∃ x, current = some (.Number (.Float x)) ∧
        ∀ m, .Number m ∈ contributions → m.exact ≤ x ∧ m.as_f64 ≤ x := by
  constructor
  · rintro ⟨n, hreduce, hmem, hgreatest⟩
    obtain ⟨x, rfl, hfound⟩ := reduce_max_eq_number.mp hreduce
    obtain ⟨-, -, hall⟩ := foldl_maxOf_eq_some_iff.mp hfound
    have hcurrent : current = some (.Number (.Float x)) := by
      rcases List.mem_append.mp hmem with hmem | hmem
      · simpa using hmem
      · exact (h _ hmem).elim
    refine ⟨x, hcurrent, fun m hm => ⟨?_, hall _ hm _ rfl⟩⟩
    exact hgreatest m (List.mem_append_right _ hm)
  · rintro ⟨x, rfl, hall⟩
    refine ⟨.Float x, reduce_max_eq_number.mpr ⟨x, rfl, ?_⟩, by simp, fun m hm => ?_⟩
    · refine foldl_maxOf_eq_some_iff.mpr ⟨.inl rfl, fun b hb => (Option.some.inj hb).ge, ?_⟩
      intro c hc n hn
      cases c with
      | Number m =>
        cases hn
        exact (hall m hc).2
      | _ => cases hn
    · rcases List.mem_append.mp hm with hm | hm
      · have hsame : m = .Float x := by simpa using hm
        rw [hsame]
      · exact (hall m hm).1

/-- The float of the channel stays above what is contributed. -/
theorem a_float_stays : MaxIsExact (some (.Number (.Float 7))) [.Number (.PosInt 5)] := by
  refine (max_is_exact_iff _ _ ?_).mpr ⟨7, rfl, ?_⟩
  · simp [Value.IsInteger]
  · simp only [List.mem_singleton, Value.Number.injEq, forall_eq]
    decide +kernel

/-- One contribution to a channel that holds nothing is rounded. -/
theorem one_contribution_is_rounded :
    Reducer.Max.reduce none [.Number (.PosInt (2 ^ 53 + 1))] = .Number (.Float (2 ^ 53)) ∧
      ¬ MaxIsExact none [.Number (.PosInt (2 ^ 53 + 1))] := by
  have hreduce : Reducer.Max.reduce none [.Number (.PosInt (2 ^ 53 + 1))] =
      .Number (.Float (2 ^ 53)) := by
    refine reduce_max_eq_number.mpr ⟨2 ^ 53, rfl, ?_⟩
    decide +kernel
  refine ⟨hreduce, ?_⟩
  rintro ⟨n, hn, hmem, -⟩
  rw [hreduce] at hn
  cases hn
  simp at hmem

end marie.session
