-- Values as they are typed: texts in quotes, integers in decimal, and lists of these in
-- brackets. The counting of the brackets takes those of a text for brackets of the list.
import Mathlib.Algebra.Order.BigOperators.Group.List
import Mathlib.Tactic.IntervalCases
import Marie.Cli.Values

namespace marie.cli

open Texts

/-! ## Literals -/

/-- A value that can be typed, as the default of a channel is. -/
inductive Literal
  | string (t : Text)
  | int (i : Int64)
  | list (xs : List Literal)

/-- An integer in decimal. -/
def int_text (i : Int) : Text :=
  if i < 0 then '-' :: Nat.toDigits 10 i.natAbs else Nat.toDigits 10 i.natAbs

namespace Literal

def value : Literal → Value
  | .string t => .String (String.ofList t)
  | .int i => value_of_i64 i.toInt
  | .list xs => .Array (xs.map value)

/-- The literal as it is typed. -/
def render : Literal → Text
  | .string t => quoted t
  | .int i => int_text i.toInt
  | .list xs => '[' :: [',', ' '].intercalate (xs.map render) ++ [']']

theorem induction {P : Literal → Prop} (string : ∀ t, P (.string t)) (int : ∀ i, P (.int i))
    (list : ∀ xs, (∀ x ∈ xs, P x) → P (.list xs)) : ∀ x, P x
  | .string t => string t
  | .int i => int i
  | .list xs => list xs fun x _ => induction string int list x

end Literal

/-- In every list of the literal, no value has a comma where the list is cut but between two values,
and the brackets of a value before another are balanced, those of its texts too. -/
inductive Separable : Literal → Prop
  | string (t : Text) : Separable (.string t)
  | int (i : Int64) : Separable (.int i)
  | list {xs : List Literal} : (∀ x ∈ xs, NoSplit x.render) →
    (∀ x ∈ xs.dropLast, level x.render = 0) → (∀ x ∈ xs, Separable x) → Separable (.list xs)

/-! ## Integers as they are typed -/

section Integers

variable {i : Int}

theorem mem_int_text {c : Char} (hc : c ∈ int_text i) : c = '-' ∨ c.isDigit = true := by
  have hdigits : ∀ n, c ∈ Nat.toDigits 10 n → c.isDigit = true :=
    fun n h => Nat.isDigit_of_mem_toDigits (by omega) (by omega) h
  unfold int_text at hc
  split at hc
  · rcases List.mem_cons.mp hc with rfl | hc
    · exact .inl rfl
    · exact .inr (hdigits _ hc)
  · exact .inr (hdigits _ hc)

theorem i64_of_int_text (i : Int64) : i64_from_str (int_text i.toInt) = some i.toInt := by
  have hlow := i.le_toInt
  have hhigh := i.toInt_lt
  generalize i.toInt = i at hlow hhigh
  have hdecimal : ∀ n, decimal (Nat.toDigits 10 n) = some n := by
    intro n
    rw [decimal_of_digits Nat.toDigits_ne_nil
      fun c hc => Nat.isDigit_of_mem_toDigits (by omega) (by omega) hc,
      Nat.ofDigitChars_toDigits (by omega) (by omega)]
  have hsign : take_sign (int_text i) = (decide (i < 0), Nat.toDigits 10 i.natAbs) := by
    unfold int_text
    by_cases hneg : i < 0
    · rw [if_pos hneg]
      simp [take_sign, hneg]
    · rw [if_neg hneg]
      unfold take_sign
      split
      · rename_i heq
        have hc : '-' ∈ Nat.toDigits 10 i.natAbs := by simp [heq]
        exact absurd (Nat.isDigit_of_mem_toDigits (by omega) (by omega) hc) (by decide)
      · rename_i heq
        have hc : '+' ∈ Nat.toDigits 10 i.natAbs := by simp [heq]
        exact absurd (Nat.isDigit_of_mem_toDigits (by omega) (by omega) hc) (by decide)
      · simp [hneg]
  rw [i64_from_str_eq, hsign]
  have hvalue : (if i < 0 then -(i.natAbs : Int) else i.natAbs) = i := by
    split <;> omega
  simp only [hdecimal, Option.map_some, decide_eq_true_eq, hvalue]
  rw [Option.filter_some, if_pos (by simp; omega)]

end Integers

/-! ## Literals as they are typed -/

section Render

variable {x : Literal} {c : Char} {t : Text}

theorem count_escape (hc : c ≠ '\\') (t : Text) : (escape t).count c = t.count c := by
  induction t with
  | nil => rfl
  | cons d t ih =>
    rw [escape_cons, List.count_append, ih, List.count_cons]
    split
    · subst_vars
      simp [List.count_cons, Ne.symm hc]
      omega
    · simp [List.count_cons]
      omega

theorem unescape_escape (t : Text) : unescape (escape t) = t := by
  induction t with
  | nil => rfl
  | cons c t ih =>
    rw [escape_cons]
    split
    · subst_vars
      simp [unescape, ih]
    · have hnext : ∀ cs, escape t ≠ '"' :: cs := by
        intro cs heq
        cases t with
        | nil => cases heq
        | cons d t =>
          rw [escape_cons] at heq
          split at heq
          · simp at heq
          · simp at heq
            exact absurd heq.1 ‹_›
      rw [List.singleton_append, unescape, ih]
      intro cs _ heq
      exact hnext cs heq

theorem not_blank_of_isDigit (h : c.isDigit = true) : is_whitespace c = false := by
  simp only [Char.isDigit, Bool.and_eq_true, decide_eq_true_eq] at h
  have hlow : 48 ≤ c.toNat := h.1
  have hhigh : c.toNat ≤ 57 := h.2
  rw [← Char.ofNat_toNat c]
  generalize c.toNat = n at hlow hhigh
  interval_cases n <;> decide

/-- A literal has no blank at its ends, and no comma before it. -/
structure Solid (t : Text) : Prop where
  head : ∃ c rest, t = c :: rest ∧ c ≠ ','
  trimmed : Trimmed t

theorem solid_between {a b : Char} (ha : is_whitespace a = false) (hcomma : a ≠ ',')
    (hb : is_whitespace b = false) : Solid (a :: t ++ [b]) := by
  refine ⟨⟨a, t ++ [b], rfl, hcomma⟩, ?_, ?_⟩
  · intro c hc
    simp at hc
    exact hc ▸ ha
  · intro c hc
    rw [List.getLast?_concat, Option.some_inj] at hc
    exact hc ▸ hb

theorem solid_int_text (i : Int) : Solid (int_text i) := by
  have hblank : ∀ c ∈ int_text i, is_whitespace c = false ∧ c ≠ ',' := by
    intro c hc
    rcases mem_int_text hc with rfl | hdigit
    · exact ⟨by decide, by decide⟩
    · exact ⟨not_blank_of_isDigit hdigit, isDigit_ne hdigit (by decide)⟩
  have hne : int_text i ≠ [] := by
    unfold int_text
    split
    · simp
    · exact Nat.toDigits_ne_nil
  obtain ⟨c, rest, hcons⟩ := List.exists_cons_of_ne_nil hne
  refine ⟨⟨c, rest, hcons, (hblank c (by rw [hcons]; simp)).2⟩, ?_, ?_⟩
  · intro c hc
    exact (hblank c (List.mem_of_head? hc)).1
  · intro c hc
    exact (hblank c (List.mem_of_getLast? hc)).1

theorem solid_render (x : Literal) : Solid x.render := by
  cases x with
  | string t =>
    rw [Literal.render]
    exact solid_between (by decide) (by decide) (by decide)
  | int i =>
    rw [Literal.render]
    exact solid_int_text i.toInt
  | list xs =>
    rw [Literal.render]
    exact solid_between (by decide) (by decide) (by decide)

theorem trim_render (x : Literal) : trim x.render = x.render := (solid_render x).trimmed.trim_eq

/-! ## Literals that are read back -/

/-- The values of a list as they are typed. -/
def join (xs : List Literal) : Text := [',', ' '].intercalate (xs.map Literal.render)

theorem join_cons_cons (x y : Literal) (xs : List Literal) :
    join (x :: y :: xs) = x.render ++ ',' :: ' ' :: join (y :: xs) := by
  simp [join]

theorem join_singleton (x : Literal) : join [x] = x.render := by simp [join]

theorem kept_parts_cons {part : Text} (h : trim part ≠ []) (parts : List Text) :
    kept_parts (part :: parts) = trim part :: kept_parts parts := by
  simp [kept_parts, h]

theorem trim_blanks_render {blanks : Text} (h : ∀ c ∈ blanks, is_whitespace c = true) (x : Literal) :
    trim (blanks ++ x.render) = x.render := by
  rw [trim_blanks h, trim_render]

theorem render_ne_nil (x : Literal) : x.render ≠ [] := by
  obtain ⟨c, rest, heq, -⟩ := (solid_render x).head
  rw [heq]
  simp

theorem trim_blanks_render_ne_nil {blanks : Text} (h : ∀ c ∈ blanks, is_whitespace c = true)
    (x : Literal) : trim (blanks ++ x.render) ≠ [] := by
  rw [trim_blanks_render h]
  exact render_ne_nil x

/-- The blank after a comma begins the next part. -/
theorem split_commas_space (rest : Text) :
    split_commas 0 [] (' ' :: rest) = split_commas 0 [' '] rest := by
  rw [split_commas]
  simp

theorem space_blank : ∀ c ∈ [' '], is_whitespace c = true :=
  List.forall_mem_singleton.mpr (by decide)

/-- A list that is cut between its values only has these as its parts. -/
theorem kept_parts_join {xs : List Literal} {blanks : Text}
    (hblanks : ∀ c ∈ blanks, is_whitespace c = true) (hsplit : ∀ x ∈ xs, NoSplit x.render)
    (hlevel : ∀ x ∈ xs.dropLast, level x.render = 0) :
    kept_parts (split_commas 0 blanks (join xs)) = xs.map Literal.render := by
  induction xs generalizing blanks with
  | nil =>
    have hblank : trim blanks = [] := by
      have htrim := trim_blanks hblanks []
      rw [List.append_nil] at htrim
      rw [htrim]
      rfl
    simp [join, split_commas, kept_parts, hblank]
  | cons x xs ih =>
    have htrim := trim_blanks_render hblanks x
    have hne := trim_blanks_render_ne_nil hblanks x
    cases xs with
    | nil =>
      have hpart := (hsplit x (by simp)).goes_on blanks []
      rw [List.append_nil, split_commas] at hpart
      rw [join_singleton, hpart, kept_parts_cons hne, htrim]
      simp [kept_parts]
    | cons y xs =>
      have hrest := ih space_blank (fun z hz => hsplit z (List.mem_cons_of_mem x hz))
        fun z hz => hlevel z (by simp [hz])
      rw [join_cons_cons, (hsplit x (by simp)).goes_on, hlevel x (by simp), split_commas_comma,
        split_commas_space, kept_parts_cons hne, htrim, hrest]
      simp

theorem render_list (xs : List Literal) : (Literal.list xs).render = '[' :: join xs ++ [']'] := by
  rw [Literal.render, join]

theorem forall₂_reads {xs : List Literal} :
    List.Forall₂ Reads (xs.map Literal.render) (xs.map Literal.value) ↔
      ∀ x ∈ xs, Reads x.render x.value := by
  rw [List.forall₂_map_left_iff, List.forall₂_map_right_iff, List.forall₂_same]

theorem reads_render_of_separable (h : Separable x) : Reads x.render x.value := by
  induction h with
  | string t =>
    have hquoted : trim (Literal.string t).render = '"' :: escape t ++ ['"'] := by
      rw [trim_render, Literal.render]
      rfl
    have hread := reads_quoted hquoted
    rw [unescape_escape] at hread
    rw [Literal.value]
    exact hread
  | int i =>
    obtain ⟨⟨c, rest, hcons, -⟩, -⟩ := solid_int_text i.toInt
    have hne : c ≠ '"' ∧ c ≠ '[' := by
      rcases mem_int_text (i := i.toInt) (c := c) (by rw [hcons]; simp) with rfl | hdigit
      · exact ⟨by decide, by decide⟩
      · exact ⟨isDigit_ne hdigit (by decide), isDigit_ne hdigit (by decide)⟩
    have hint := i64_of_int_text i
    unfold Reads
    rw [parse_value_eq, trim_render, Literal.render, Literal.value, hint, hcons]
    simp [hne]
  | @list xs hsplit hlevel _ ih =>
    have htrim : trim (Literal.list xs).render = '[' :: join xs ++ [']'] := by
      rw [trim_render, render_list]
    rw [Literal.value]
    apply reads_list htrim
    unfold items split_top_level_commas
    rw [kept_parts_join (by simp) hsplit hlevel]
    exact forall₂_reads.mpr ih

/-! ## Literals that are not read back -/

/-- The commas of some texts, and one for each text. -/
def weight (texts : List Text) : Nat := (texts.map fun t => t.count ',' + 1).sum

theorem weight_items (inner : Text) : weight (items inner) ≤ inner.count ',' + 1 := by
  have hcomma : is_whitespace ',' = false := by decide
  have hparts : weight ((split_top_level_commas inner).map trim) = inner.count ',' + 1 := by
    have hsum := count_split_commas 0 [] inner
    unfold weight split_top_level_commas
    rw [List.map_map]
    simpa [Function.comp_def, count_trim hcomma] using hsum
  rw [← hparts]
  exact (List.filter_sublist.map _).sum_le_sum fun _ _ => Nat.zero_le _

theorem weight_join (x : Literal) (xs : List Literal) :
    (join (x :: xs)).count ',' + 1 = weight ((x :: xs).map Literal.render) := by
  induction xs generalizing x with
  | nil => simp [join_singleton, weight]
  | cons y xs ih =>
    have hrest := ih y
    rw [join_cons_cons, List.count_append, List.count_cons_self, List.count_cons_of_ne (by decide)]
    simp only [weight, List.map_cons, List.sum_cons] at hrest ⊢
    omega

theorem weight_le_of_forall₂ {xs : List Literal}
    (h : ∀ x ∈ xs, ∀ raw, Reads raw x.value → x.render.count ',' ≤ raw.count ',') {texts : List Text}
    (hreads : List.Forall₂ Reads texts (xs.map Literal.value)) :
    weight (xs.map Literal.render) ≤ weight texts := by
  induction xs generalizing texts with
  | nil =>
    cases hreads
    exact Nat.le_refl _
  | cons x xs ih =>
    cases hreads with
    | cons hx hxs =>
      have hhead := h x (by simp) _ hx
      have hrest := ih (fun y hy => h y (List.mem_cons_of_mem x hy)) hxs
      simp only [weight, List.map_cons, List.sum_cons] at hrest ⊢
      omega

theorem render_le_of_reads (x : Literal) :
    ∀ raw, Reads raw x.value → x.render.count ',' ≤ raw.count ',' := by
  have hcomma : is_whitespace ',' = false := by decide
  induction x using Literal.induction with
  | string t =>
    intro raw h
    rw [Literal.value] at h
    have hsame : raw.count ',' = t.count ',' := by
      rw [← count_trim hcomma raw]
      rcases h.string_cases with htext | ⟨inner, htext, rfl⟩
      · rw [htext]
      · simp [htext, count_unescape]
    rw [hsame, Literal.render, quoted]
    simp [count_escape]
  | int i =>
    intro raw _
    have hnone : ',' ∉ int_text i.toInt := fun hc => absurd (mem_int_text hc) (by decide)
    rw [Literal.render, List.count_eq_zero.mpr hnone]
    exact Nat.zero_le _
  | list xs ih =>
    intro raw h
    rw [Literal.value] at h
    obtain ⟨inner, htrim, hitems⟩ := h.array_cases
    have hinner : raw.count ',' = inner.count ',' := by
      rw [← count_trim hcomma raw, htrim]
      simp
    have hlist : (Literal.list xs).render.count ',' = (join xs).count ',' := by
      rw [render_list]
      simp
    rw [hinner, hlist]
    cases xs with
    | nil => simp [join]
    | cons x xs =>
      have hjoin := weight_join x xs
      have hall := weight_le_of_forall₂ ih hitems
      have hkept := weight_items inner
      omega

theorem not_reads_longer_string {raw rest : Text} (hc : c ≠ '"')
    (htrim : trim raw = quoted t ++ c :: rest) : ¬ Reads raw (.String (String.ofList t)) := by
  intro h
  have hquotes : (trim raw).count '"' = t.count '"' + 2 + rest.count '"' := by
    rw [htrim, quoted]
    simp [count_escape, hc]
    omega
  rcases h.string_cases with htext | ⟨inner, htext, rfl⟩
  · rw [htext] at hquotes
    omega
  · -- the quote at the end is another one than that of the literal
    have hlast : '"' ∈ rest := by
      have hend := congrArg List.getLast? (htext.symm.trans htrim)
      rw [List.getLast?_concat, List.getLast?_append_cons] at hend
      have hmem := List.mem_of_getLast? hend.symm
      rcases List.mem_cons.mp hmem with rfl | hmem
      · exact absurd rfl hc
      · exact hmem
    have hmore := List.count_pos_iff.mpr hlast
    rw [htext, count_unescape (by decide)] at hquotes
    simp at hquotes
    omega

/-- The literal is not read from a longer text, if a comma or a bracket comes after it. -/
def EndsAlone (x : Literal) : Prop :=
  ∀ raw c rest, c = ',' ∨ c = ']' → trim raw = x.render ++ c :: rest → ¬ Reads raw x.value

/-- A part that begins as a literal does and goes on after a comma or a bracket is not read as it. -/
theorem EndsAlone.part (h : EndsAlone x) (hc : c = ',' ∨ c = ']') {blanks rest : Text}
    (hblanks : ∀ d ∈ blanks, is_whitespace d = true) :
    trim (blanks ++ x.render ++ c :: rest) ≠ [] ∧
      ¬ Reads (trim (blanks ++ x.render ++ c :: rest)) x.value := by
  have hblank : is_whitespace c = false := by
    rcases hc with rfl | rfl <;> decide
  obtain ⟨rest', htrim⟩ := trim_append_cons (solid_render x).trimmed.1 hblank rest
  rw [List.append_assoc, trim_blanks hblanks]
  constructor
  · rw [htrim]
    simp
  · apply h _ c rest' hc
    rw [trim_trim, htrim]

section Parts

variable {blanks part after : Text} {parts : List Text} {xs : List Literal}

/-- The first part is the one that is read as the first value. -/
theorem reads_first (hne : trim part ≠ [])
    (h : List.Forall₂ Reads (kept_parts (part :: parts)) ((x :: xs).map Literal.value)) :
    Reads (trim part) x.value ∧ List.Forall₂ Reads (kept_parts parts) (xs.map Literal.value) := by
  rw [kept_parts_cons hne, List.map_cons, List.forall₂_cons] at h
  exact h

/-- A value that is cut has fewer commas before the cut than it should. -/
theorem noSplit_of_reads (hblanks : ∀ c ∈ blanks, is_whitespace c = true)
    (h : List.Forall₂ Reads (kept_parts (split_commas 0 blanks (x.render ++ after)))
      ((x :: xs).map Literal.value)) : NoSplit x.render := by
  rcases noSplit_or x.render with hno | ⟨before, rest, heq, hbefore, hlevel⟩
  · exact hno
  · obtain ⟨⟨c, cs, hcons, hcomma⟩, hends, -⟩ := solid_render x
    have hblank : is_whitespace c = false := hends c (by rw [hcons]; rfl)
    have hne : trim (blanks ++ before) ≠ [] := by
      rw [trim_blanks hblanks]
      cases before with
      | nil =>
        rw [hcons] at heq
        simp at heq
        exact absurd heq.1 hcomma
      | cons d before =>
        rw [hcons] at heq
        simp at heq
        obtain ⟨rest', htrim⟩ := trim_cons hblank before
        rw [← heq.1, htrim]
        simp
    rw [heq, List.append_assoc, hbefore.goes_on, hlevel, List.cons_append, split_commas_comma] at h
    have hle := render_le_of_reads x _ (reads_first hne h).1
    rw [trim_blanks hblanks, count_trim (by decide), heq] at hle
    simp at hle

/-- A list whose parts are read as its values is cut between them, and it has nothing after them. -/
theorem split_of_reads (hxs : ∀ x ∈ xs, EndsAlone x) (hblanks : ∀ c ∈ blanks, is_whitespace c = true)
    (hafter : after = [] ∨ ∃ rest, after = ']' :: rest)
    (h : List.Forall₂ Reads (kept_parts (split_commas 0 blanks (join xs ++ after)))
      (xs.map Literal.value)) :
    after = [] ∧ (∀ x ∈ xs, NoSplit x.render) ∧ ∀ x ∈ xs.dropLast, level x.render = 0 := by
  induction xs generalizing blanks with
  | nil =>
    refine ⟨?_, by simp, by simp⟩
    rcases hafter with rfl | ⟨rest, rfl⟩
    · rfl
    · obtain ⟨more, parts, hparts⟩ := @split_commas_longer 0 ']' (.inl rfl) blanks rest
      obtain ⟨rest', htrim⟩ := trim_cons (c := ']') (by decide) more
      have hne : trim (blanks ++ ']' :: more) ≠ [] := by
        rw [trim_blanks hblanks, htrim]
        simp
      rw [join, List.map_nil, List.intercalate_nil, List.nil_append, hparts, kept_parts_cons hne] at h
      cases h
  | cons x xs ih =>
    have hx := hxs x (by simp)
    have hno : NoSplit x.render := by
      cases xs with
      | nil => exact noSplit_of_reads hblanks (by rwa [join_singleton] at h)
      | cons y xs =>
        rw [join_cons_cons, List.append_assoc] at h
        exact noSplit_of_reads hblanks h
    -- what comes after the value does not belong to its part
    have hend : ∀ {c rest}, c = ']' ∨ c = ',' ∧ level x.render ≠ 0 →
        ¬ List.Forall₂ Reads (kept_parts (split_commas 0 blanks (x.render ++ c :: rest)))
          ((x :: xs).map Literal.value) := by
      intro c rest hc hreads
      obtain ⟨more, parts, hparts⟩ := split_commas_longer hc (blanks ++ x.render) rest
      rw [hno.goes_on, hparts] at hreads
      obtain ⟨hne, hnot⟩ := hx.part (hc.symm.imp_left And.left) hblanks
      exact hnot (reads_first hne hreads).1
    cases xs with
    | nil =>
      rw [join_singleton] at h
      rcases hafter with rfl | ⟨rest, rfl⟩
      · exact ⟨rfl, by simpa using hno, by simp⟩
      · exact absurd h (hend (.inl rfl))
    | cons y xs =>
      rw [join_cons_cons, List.append_assoc, List.cons_append] at h
      by_cases hlevel : level x.render = 0
      · have hne := trim_blanks_render_ne_nil hblanks x
        rw [hno.goes_on, hlevel, split_commas_comma, List.cons_append, split_commas_space] at h
        obtain ⟨hnil, hsplit, hlevels⟩ :=
          ih (fun z hz => hxs z (List.mem_cons_of_mem x hz)) space_blank (reads_first hne h).2
        refine ⟨hnil, List.forall_mem_cons.mpr ⟨hno, hsplit⟩, ?_⟩
        rw [List.dropLast_cons_cons]
        exact List.forall_mem_cons.mpr ⟨hlevel, hlevels⟩
      · exact absurd h (hend (.inr ⟨rfl, hlevel⟩))

end Parts

theorem endsAlone (x : Literal) : EndsAlone x := by
  induction x using Literal.induction with
  | string t =>
    intro raw c rest hc htrim
    rw [Literal.render] at htrim
    rw [Literal.value]
    refine not_reads_longer_string ?_ htrim
    rcases hc with rfl | rfl <;> decide
  | int i =>
    intro raw c rest hc htrim h
    rw [Literal.value] at h
    obtain ⟨j, hj⟩ := h.int_cases
    obtain ⟨hcomma, hbracket⟩ := not_mem_of_i64 hj
    rw [htrim] at hcomma hbracket
    rcases hc with rfl | rfl
    · exact hcomma (by simp)
    · exact hbracket (by simp)
  | list xs ih =>
    intro raw c rest hc htrim h
    rw [Literal.value] at h
    obtain ⟨inner, hinner, hitems⟩ := h.array_cases
    have hlong : ∃ more, inner = join xs ++ ']' :: more := by
      rw [htrim, render_list] at hinner
      obtain ⟨more, d, hmore⟩ : ∃ more d, c :: rest = more ++ [d] :=
        ⟨_, _, (List.dropLast_append_getLast (by simp)).symm⟩
      rw [hmore, ← List.append_assoc] at hinner
      have hlist := (List.append_inj' hinner rfl).1
      exact ⟨more, by simpa using hlist.symm⟩
    obtain ⟨more, rfl⟩ := hlong
    have hnil := (split_of_reads ih (by simp) (.inr ⟨more, rfl⟩) hitems).1
    cases hnil

theorem separable_of_reads (x : Literal) (h : Reads x.render x.value) : Separable x := by
  induction x using Literal.induction with
  | string t => exact .string t
  | int i => exact .int i
  | list xs ih =>
    rw [Literal.value] at h
    obtain ⟨inner, htrim, hitems⟩ := h.array_cases
    rw [trim_render, render_list] at htrim
    have hinner : inner = join xs := by simpa using htrim.symm
    subst hinner
    unfold items split_top_level_commas at hitems
    have hparts : List.Forall₂ Reads (kept_parts (split_commas 0 [] (join xs ++ [])))
        (xs.map Literal.value) := by rwa [List.append_nil]
    obtain ⟨-, hsplit, hlevel⟩ :=
      split_of_reads (fun x _ => endsAlone x) (by simp) (.inl rfl) hparts
    rw [kept_parts_join (by simp) hsplit hlevel] at hitems
    exact .list hsplit hlevel fun x hx => ih x hx (forall₂_reads.mp hitems x hx)

end Render

/-- A literal is read back exactly when its lists are cut between their values only. Any text is
read, and as null exactly when it is a number that is not finite. -/
theorem literals_iff (x : Literal) (raw : Text) :
    (Reads x.render x.value ↔ Separable x) ∧ (∃ v, Reads raw v) ∧
      (Reads raw .Null ↔ NotFinite (trim raw)) :=
  ⟨⟨separable_of_reads x, reads_render_of_separable⟩, parse_value_ok f64_value raw, reads_null_iff⟩

/-- A text with a comma is cut in its list, and `nan` is read as null. -/
theorem literals_are_not_read_back :
    ¬ Reads (Literal.list [.string "a,b".toList]).render (Literal.list [.string "a,b".toList]).value ∧
      Reads "nan".toList .Null := by
  constructor
  · intro h
    cases separable_of_reads _ h with
    | list hsplit _ _ =>
      refine hsplit (.string "a,b".toList) (by simp) "\"a".toList "b\"".toList ?_ (by decide)
      rw [Literal.render]
      decide
  · rw [reads_null_iff]
    exact ⟨[], "nan".toList, by decide, by decide, .inl (by decide)⟩

end marie.cli
