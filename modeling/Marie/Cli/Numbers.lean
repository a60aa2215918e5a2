-- `str::parse::<f64>`: the float that is the nearest to a decimal number, and the names of
-- what is no number. A JSON value has no place for what is not finite, which no integer is.
import Mathlib.Data.Int.Log
import Mathlib.Data.List.TakeWhile
import Mathlib.Data.Rat.Floor
import Marie.Cli.Args

namespace marie.cli

/-! ## Floats -/

/-- An `f64`, where a finite one is the rational that it stands for. -/
inductive F64
  | Nan
  | Infinite (negative : Bool)
  | Finite (x : ℚ)
deriving DecidableEq

/-- The nearest integer, and the even one of two that are as near. -/
def round_even (x : ℚ) : Int :=
  let below := ⌊x⌋
  if x - below < 1 / 2 then below
  else if 1 / 2 < x - below then below + 1
  else below + below % 2

/-- What is as large as this is nearer to `2 ^ 1024` than to the largest float. -/
def f64_overflow : ℚ := 2 ^ 1024 - 2 ^ 970

/-- The nearest float, with 53 bits from the first one on, and none below `2 ^ (-1074)`. -/
def F64.round (x : ℚ) : F64 :=
  if f64_overflow ≤ |x| then .Infinite (x < 0)
  else
    let ulp : ℚ := 2 ^ max (Int.log 2 |x| - 52) (-1074)
    .Finite (round_even (x / ulp) * ulp)

def take_sign : Text → Bool × Text
  | '-' :: s => (true, s)
  | '+' :: s => (false, s)
  | s => (false, s)

/-- The digits of a number, with its point and its exponent. -/
def f64_number (s : Text) : Option ℚ :=
  let (mantissa, exponent) := s.span fun c => c ≠ 'e' ∧ c ≠ 'E'
  let (whole, fraction) := mantissa.span (· ≠ '.')
  match decimal (whole ++ fraction.tail), exponent with
  | none, _ => none
  | some n, [] => some (n / 10 ^ fraction.tail.length)
  | some n, _ :: exponent =>
    let (negative, digits) := take_sign exponent
    (decimal digits).map fun e =>
      n / 10 ^ fraction.tail.length * (if negative then 1 / 10 ^ e else 10 ^ e)

/-- `str::parse::<f64>`. -/
def f64_from_str (s : Text) : Option F64 :=
  let (negative, s) := take_sign s
  let name := s.map Char.toLower
  if name = "inf".toList ∨ name = "infinity".toList then some (.Infinite negative)
  else if name = "nan".toList then some .Nan
  else (f64_number s).map fun x => .round (if negative then -x else x)

/-- `Value::from`. -/
def value_of_f64 : F64 → Value
  | .Finite x => .Number (.Float x)
  | _ => .Null

def f64_value (s : Text) : Option Value := (f64_from_str s).map value_of_f64

/-- The text is a name of what is no number, or of a number that is too large, with or without a
sign. -/
def NotFinite (s : Text) : Prop :=
  ∃ sign body, sign ∈ [[], ['-'], ['+']] ∧ s = sign ++ body ∧
    (body.map Char.toLower ∈ ["inf".toList, "infinity".toList, "nan".toList] ∨
      ∃ x, f64_number body = some x ∧ f64_overflow ≤ x)

/-! ## What is not finite -/

variable {s digits : Text} {n : Nat}

theorem digits_of_decimal (h : decimal s = some n) : s ≠ [] ∧ ∀ c ∈ s, c.isDigit = true := by
  unfold decimal at h
  split at h
  · cases h
  · rename_i hempty
    refine ⟨by simpa using hempty, ?_⟩
    clear hempty
    generalize (0 : Nat) = acc at h
    induction s generalizing acc with
    | nil => simp
    | cons c s ih =>
      rw [List.foldlM_cons] at h
      split at h
      · rename_i hc
        have hdigit : c.isDigit = true := by
          simp only [Char.isDigit, Bool.and_eq_true, decide_eq_true_eq]
          exact hc
        intro c' hc'
        rcases List.mem_cons.mp hc' with rfl | hc'
        · exact hdigit
        · exact ih _ h c' hc'
      · cases h

theorem decimal_of_digits (hne : s ≠ []) (h : ∀ c ∈ s, c.isDigit = true) :
    decimal s = some (Nat.ofDigitChars 10 s 0) := by
  have hempty : s.isEmpty = false := by simpa using hne
  unfold decimal
  rw [hempty, if_neg (by simp)]
  clear hne hempty
  generalize (0 : Nat) = acc
  induction s generalizing acc with
  | nil => simp
  | cons c s ih =>
    have hc : '0' ≤ c ∧ c ≤ '9' := by
      have hdigit := h c List.mem_cons_self
      simp only [Char.isDigit, Bool.and_eq_true, decide_eq_true_eq] at hdigit
      exact hdigit
    rw [List.foldlM_cons, if_pos hc, Nat.ofDigitChars_cons]
    exact ih (fun c' hc' => h c' (List.mem_cons_of_mem c hc')) _

theorem isDigit_ne {c c' : Char} (hc : c.isDigit = true) (hc' : c'.isDigit = false) : c ≠ c' := by
  rintro rfl
  rw [hc] at hc'
  cases hc'

/-- Digits alone are the number that they are. -/
theorem f64_number_of_decimal (h : decimal s = some n) : f64_number s = some (n : ℚ) := by
  obtain ⟨-, hdigits⟩ := digits_of_decimal h
  have hexponent : ∀ c ∈ s, decide (c ≠ 'e' ∧ c ≠ 'E') = true := by
    intro c hc
    rw [decide_eq_true_eq]
    exact ⟨isDigit_ne (hdigits c hc) (by decide), isDigit_ne (hdigits c hc) (by decide)⟩
  have hpoint : ∀ c ∈ s, decide (c ≠ '.') = true := by
    intro c hc
    rw [decide_eq_true_eq]
    exact isDigit_ne (hdigits c hc) (by decide)
  unfold f64_number
  rw [List.span_eq_takeWhile_dropWhile, List.takeWhile_eq_self_iff.mpr hexponent,
    List.dropWhile_eq_nil_iff.mpr hexponent]
  simp only
  rw [List.span_eq_takeWhile_dropWhile, List.takeWhile_eq_self_iff.mpr hpoint,
    List.dropWhile_eq_nil_iff.mpr hpoint]
  simp [h]

theorem f64_number_nonneg {x : ℚ} (h : f64_number s = some x) : 0 ≤ x := by
  unfold f64_number at h
  simp only at h
  split at h
  · cases h
  · cases h
    positivity
  · obtain ⟨e, -, rfl⟩ := Option.map_eq_some_iff.mp h
    split <;> positivity

theorem head_of_f64_number {x : ℚ} (h : f64_number s = some x) :
    ∃ c cs, s = c :: cs ∧ (c.isDigit = true ∨ c = '.') := by
  have hdecimal : ∃ n, decimal (((s.span fun c => c ≠ 'e' ∧ c ≠ 'E').1.span (· ≠ '.')).1 ++
      ((s.span fun c => c ≠ 'e' ∧ c ≠ 'E').1.span (· ≠ '.')).2.tail) = some n := by
    unfold f64_number at h
    simp only at h
    split at h
    · cases h
    · exact ⟨_, ‹_›⟩
    · exact ⟨_, ‹_›⟩
  obtain ⟨n, hn⟩ := hdecimal
  obtain ⟨hne, hdigits⟩ := digits_of_decimal hn
  simp only [List.span_eq_takeWhile_dropWhile] at hne hdigits
  cases s with
  | nil => simp at hne
  | cons c cs =>
    refine ⟨c, cs, rfl, ?_⟩
    by_cases hexponent : c ≠ 'e' ∧ c ≠ 'E'
    · by_cases hpoint : c = '.'
      · exact .inr hpoint
      · left
        apply hdigits c
        simp [hexponent, hpoint]
    · simp [hexponent] at hne

/-- What a text of this kind begins with, when it has no sign. -/
theorem head_of_not_finite (h : s.map Char.toLower ∈ ["inf".toList, "infinity".toList, "nan".toList] ∨
      ∃ x, f64_number s = some x ∧ f64_overflow ≤ x) :
    ∃ c cs, s = c :: cs ∧ (c.isDigit = true ∨ c = '.' ∨ c.toLower = 'i' ∨ c.toLower = 'n') := by
  rcases h with hname | ⟨x, hx, -⟩
  · cases s with
    | nil => simp at hname
    | cons c cs =>
      refine ⟨c, cs, rfl, .inr (.inr ?_)⟩
      simp at hname
      rcases hname with h | h | h
      · exact .inl h.1
      · exact .inl h.1
      · exact .inr h.1
  · obtain ⟨c, cs, rfl, hc⟩ := head_of_f64_number hx
    exact ⟨c, cs, rfl, hc.imp_right .inl⟩

theorem notFinite_iff : NotFinite s ↔
    (take_sign s).2.map Char.toLower ∈ ["inf".toList, "infinity".toList, "nan".toList] ∨
      ∃ x, f64_number (take_sign s).2 = some x ∧ f64_overflow ≤ x := by
  constructor
  · rintro ⟨sign, body, hsign, rfl, hbody⟩
    have htake : (take_sign (sign ++ body)).2 = body := by
      simp at hsign
      rcases hsign with rfl | rfl | rfl
      · -- without a sign the text does not seem to begin with one
        obtain ⟨c, cs, rfl, hc⟩ := head_of_not_finite hbody
        rw [List.nil_append]
        unfold take_sign
        split
        · rename_i heq
          cases heq
          exact absurd hc (by decide)
        · rename_i heq
          cases heq
          exact absurd hc (by decide)
        · rfl
      · rfl
      · rfl
    rwa [htake]
  · intro h
    unfold take_sign at h
    split at h
    · exact ⟨['-'], _, by simp, rfl, h⟩
    · exact ⟨['+'], _, by simp, rfl, h⟩
    · exact ⟨[], _, by simp, rfl, h⟩

theorem round_eq_infinite {x : ℚ} : value_of_f64 (.round x) = .Null ↔ f64_overflow ≤ |x| := by
  unfold F64.round
  split
  · simp [value_of_f64, *]
  · simp [value_of_f64, *]

theorem f64_value_eq_null_iff : f64_value s = some .Null ↔ NotFinite s := by
  rw [notFinite_iff]
  unfold f64_value f64_from_str
  generalize take_sign s = sign
  obtain ⟨negative, body⟩ := sign
  simp only [List.mem_cons, List.not_mem_nil, or_false]
  split
  · simp [value_of_f64, *]
    tauto
  · rename_i hinf
    split
    · simp [value_of_f64, *]
    · rename_i hnan
      have hnames : ¬ (body.map Char.toLower = "inf".toList ∨
          body.map Char.toLower = "infinity".toList ∨ body.map Char.toLower = "nan".toList) := by
        tauto
      rw [Option.map_map, Option.map_eq_some_iff, or_iff_right hnames]
      apply exists_congr
      intro x
      rw [and_congr_right_iff]
      intro hx
      have hsign : |if negative then -x else x| = x := by
        split
        · rw [abs_neg, abs_of_nonneg (f64_number_nonneg hx)]
        · rw [abs_of_nonneg (f64_number_nonneg hx)]
      rw [Function.comp_apply, round_eq_infinite, hsign]

/-! ## Integers -/

variable {i : Int}

theorem i64_from_str_eq (s : Text) : i64_from_str s =
    ((decimal (take_sign s).2).map fun n : Nat => if (take_sign s).1 then -(n : Int) else n).filter
      fun i => -(2 ^ 63) ≤ i ∧ i < 2 ^ 63 := by
  unfold i64_from_str take_sign
  split <;> simp [Option.map_eq_bind, Option.bind_assoc]

theorem decimal_of_i64 (h : i64_from_str s = some i) :
    ∃ n, decimal (take_sign s).2 = some n ∧ n ≤ 2 ^ 63 := by
  rw [i64_from_str_eq, Option.filter_eq_some_iff, Option.map_eq_some_iff] at h
  obtain ⟨⟨n, hn, rfl⟩, hrange⟩ := h
  refine ⟨n, hn, ?_⟩
  rw [decide_eq_true_eq] at hrange
  split at hrange <;> omega

/-- An integer has its digits, and a sign before them. -/
theorem mem_of_i64 (h : i64_from_str s = some i) {c : Char} (hc : c ∈ s) :
    c = '-' ∨ c = '+' ∨ c.isDigit = true := by
  obtain ⟨n, hn, -⟩ := decimal_of_i64 h
  have hdigits := (digits_of_decimal hn).2
  unfold take_sign at hdigits
  split at hdigits
  · rcases List.mem_cons.mp hc with rfl | hc
    · exact .inl rfl
    · exact .inr (.inr (hdigits c hc))
  · rcases List.mem_cons.mp hc with rfl | hc
    · exact .inr (.inl rfl)
    · exact .inr (.inr (hdigits c hc))
  · exact .inr (.inr (hdigits c hc))

theorem not_mem_of_i64 (h : i64_from_str s = some i) : ',' ∉ s ∧ ']' ∉ s := by
  constructor
  · intro hc
    exact absurd (mem_of_i64 h hc) (by decide)
  · intro hc
    exact absurd (mem_of_i64 h hc) (by decide)

/-- An integer is finite. -/
theorem finite_of_i64 (h : i64_from_str s = some i) : ¬ NotFinite s := by
  obtain ⟨n, hn, hle⟩ := decimal_of_i64 h
  obtain ⟨hne, hdigits⟩ := digits_of_decimal hn
  rw [notFinite_iff, f64_number_of_decimal hn]
  generalize (take_sign s).2 = body at hne hdigits
  rintro (hname | ⟨x, hx, hlarge⟩)
  · cases body with
    | nil => exact hne rfl
    | cons c cs =>
      have hc := hdigits c List.mem_cons_self
      have hlower : c.toLower = c := by
        unfold Char.toLower
        rw [dif_neg]
        simp only [Char.isDigit, Bool.and_eq_true, decide_eq_true_eq] at hc
        rintro ⟨hupper, -⟩
        exact absurd (UInt32.le_trans hupper hc.2) (by decide)
      simp [hlower] at hname
      rcases hname with ⟨rfl, -⟩ | ⟨rfl, -⟩ | ⟨rfl, -⟩ <;> exact absurd hc (by decide)
  · cases hx
    have hsmall : (n : ℚ) ≤ 2 ^ 63 := by exact_mod_cast hle
    have hpow : (2 : ℚ) ^ 1024 = 2 ^ 54 * 2 ^ 970 := by rw [← pow_add]
    have hmore : (2 : ℚ) * 2 ^ 970 ≤ 2 ^ 54 * 2 ^ 970 :=
      mul_le_mul_of_nonneg_right (by norm_num) (by positivity)
    have hless : (2 : ℚ) ^ 63 < 2 ^ 970 := pow_lt_pow_right₀ (by norm_num) (by norm_num)
    unfold f64_overflow at hlarge
    rw [hpow] at hlarge
    generalize (2 : ℚ) ^ 970 = large at hlarge hmore hless
    linarith

end marie.cli
