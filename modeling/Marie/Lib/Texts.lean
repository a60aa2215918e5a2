-- Texts, as the lists of their characters: how many bytes they take, where they are
-- cut, the blanks around them, and the parts that a separator leaves of them.
import Mathlib.Data.List.Infix

namespace Texts

/-! ## Bytes -/

def byte_len : List Char → Nat
  | [] => 0
  | c :: cs => c.utf8Size + byte_len cs

/-- The text before the byte `n` and the text from it on, but for a byte inside a character or past
the end. -/
def split_at_byte : Nat → List Char → Option (List Char × List Char)
  | 0, cs => some ([], cs)
  | _ + 1, [] => none
  | n + 1, c :: cs =>
    if c.utf8Size ≤ n + 1 then
      (split_at_byte (n + 1 - c.utf8Size) cs).map fun p => (c :: p.1, p.2)
    else none

theorem byte_len_cons (c : Char) (cs : List Char) :
    byte_len (c :: cs) = c.utf8Size + byte_len cs := by
  rw [byte_len]

theorem byte_len_append (as bs : List Char) : byte_len (as ++ bs) = byte_len as + byte_len bs := by
  induction as with
  | nil => simp [byte_len]
  | cons a as ih => rw [List.cons_append, byte_len_cons, byte_len_cons, ih, Nat.add_assoc]

theorem byte_len_cons_pos (c : Char) (cs : List Char) : 0 < byte_len (c :: cs) := by
  have hpos := c.utf8Size_pos
  rw [byte_len_cons]
  omega

theorem split_at_byte_eq_some_iff {n : Nat} {cs as bs : List Char} :
    split_at_byte n cs = some (as, bs) ↔ cs = as ++ bs ∧ byte_len as = n := by
  fun_induction split_at_byte n cs generalizing as bs with
  | case1 cs =>
    constructor
    · rintro ⟨⟩
      simp [byte_len]
    · rintro ⟨rfl, hlen⟩
      cases as with
      | nil => simp
      | cons a as =>
        have hpos := byte_len_cons_pos a as
        omega
  | case2 n =>
    simp only [reduceCtorEq, false_iff, not_and]
    intro heq hlen
    rw [(List.append_eq_nil_iff.mp heq.symm).1] at hlen
    simp [byte_len] at hlen
  | case3 n c cs hle ih =>
    rw [Option.map_eq_some_iff]
    constructor
    · rintro ⟨⟨as', bs'⟩, hsplit, heq⟩
      cases heq
      obtain ⟨rfl, hlen⟩ := ih.mp hsplit
      refine ⟨by simp, ?_⟩
      rw [byte_len_cons, hlen]
      omega
    · rintro ⟨heq, hlen⟩
      cases as with
      | nil => simp [byte_len] at hlen
      | cons a as =>
        rw [List.cons_append, List.cons_eq_cons] at heq
        obtain ⟨rfl, rfl⟩ := heq
        rw [byte_len_cons] at hlen
        refine ⟨(as, bs), ih.mpr ⟨rfl, ?_⟩, by simp only⟩
        omega
  | case4 n c cs hlt =>
    simp only [reduceCtorEq, false_iff, not_and]
    intro heq hlen
    cases as with
    | nil => simp [byte_len] at hlen
    | cons a as =>
      rw [List.cons_append, List.cons_eq_cons] at heq
      rw [byte_len_cons, ← heq.1] at hlen
      omega

/-! ## Blanks -/

/-- `char::is_whitespace`. -/
def is_whitespace (c : Char) : Bool :=
  '\t' ≤ c && c ≤ '\r' || c == ' ' || c == '\u0085' || c == '\u00A0' || c == '\u1680' ||
    '\u2000' ≤ c && c ≤ '\u200A' || c == '\u2028' || c == '\u2029' || c == '\u202F' ||
    c == '\u205F' || c == '\u3000'

def trim (cs : List Char) : List Char :=
  ((cs.dropWhile is_whitespace).reverse.dropWhile is_whitespace).reverse

theorem length_trim_le (cs : List Char) : (trim cs).length ≤ cs.length := by
  unfold trim
  have hfront := (List.dropWhile_sublist is_whitespace (l := cs)).length_le
  have hback := (List.dropWhile_sublist is_whitespace
    (l := (cs.dropWhile is_whitespace).reverse)).length_le
  rw [List.length_reverse] at hback ⊢
  omega

/-- There is a blank at neither end. -/
def Trimmed (cs : List Char) : Prop :=
  (∀ c, cs.head? = some c → is_whitespace c = false) ∧
    ∀ c, cs.getLast? = some c → is_whitespace c = false

theorem dropWhile_of_head {cs : List Char} (h : ∀ c, cs.head? = some c → is_whitespace c = false) :
    cs.dropWhile is_whitespace = cs := by
  cases cs with
  | nil => simp
  | cons c cs => rw [List.dropWhile_cons_of_neg (by simp [h c (by simp)])]

theorem Trimmed.trim_eq {cs : List Char} (h : Trimmed cs) : trim cs = cs := by
  unfold trim
  rw [dropWhile_of_head h.1, dropWhile_of_head (by rw [List.head?_reverse]; exact h.2),
    List.reverse_reverse]

theorem trimmed_trim (cs : List Char) : Trimmed (trim cs) := by
  have hfront : ∀ (cs : List Char) c, (cs.dropWhile is_whitespace).head? = some c →
      is_whitespace c = false := by
    intro cs c hc
    have hnot := List.head?_dropWhile_not is_whitespace cs
    rw [hc] at hnot
    simpa using hnot
  constructor
  · intro c hc
    -- the end that is dropped leaves the front as it is
    obtain ⟨rest, hrest⟩ := List.dropWhile_suffix is_whitespace (l := (cs.dropWhile is_whitespace).reverse)
    apply hfront cs c
    have heq := congrArg List.reverse hrest
    rw [List.reverse_append, List.reverse_reverse] at heq
    rw [← heq, List.head?_append]
    unfold trim at hc
    rw [hc, Option.some_or]
  · intro c hc
    unfold trim at hc
    rw [List.getLast?_reverse] at hc
    exact hfront _ c hc

theorem trim_trim (cs : List Char) : trim (trim cs) = trim cs := (trimmed_trim cs).trim_eq

theorem trim_blanks {blanks : List Char} (h : ∀ c ∈ blanks, is_whitespace c = true) (cs : List Char) :
    trim (blanks ++ cs) = trim cs := by
  unfold trim
  rw [List.dropWhile_append_of_pos h]

/-- What comes before a character that is no blank is left as it is. -/
theorem trim_append_cons {cs : List Char} (h : ∀ c, cs.head? = some c → is_whitespace c = false)
    {d : Char} (hd : is_whitespace d = false) (rest : List Char) :
    ∃ rest', trim (cs ++ d :: rest) = cs ++ d :: rest' := by
  have hhead : ∀ c, (cs ++ d :: rest).head? = some c → is_whitespace c = false := by
    intro c hc
    cases cs with
    | nil => simp at hc; exact hc ▸ hd
    | cons b cs => exact h c (by simpa using hc)
  unfold trim
  rw [dropWhile_of_head hhead, List.reverse_append, List.reverse_cons, List.append_assoc,
    List.dropWhile_append]
  split
  · exact ⟨[], by simp [hd]⟩
  · exact ⟨(rest.reverse.dropWhile is_whitespace).reverse, by simp⟩

theorem count_dropWhile {p : Char → Bool} {c : Char} (h : p c = false) (cs : List Char) :
    (cs.dropWhile p).count c = cs.count c := by
  induction cs with
  | nil => simp
  | cons d cs ih =>
    by_cases hd : p d = true
    · have hne : d ≠ c := by
        rintro rfl
        rw [h] at hd
        cases hd
      rw [List.dropWhile_cons_of_pos hd, ih, List.count_cons_of_ne hne]
    · rw [List.dropWhile_cons_of_neg hd]

theorem count_trim {c : Char} (h : is_whitespace c = false) (cs : List Char) :
    (trim cs).count c = cs.count c := by
  unfold trim
  rw [List.count_reverse, count_dropWhile h, List.count_reverse, count_dropWhile h]

/-- What does not begin with a blank begins as before. -/
theorem trim_cons {c : Char} (h : is_whitespace c = false) (cs : List Char) :
    ∃ rest, trim (c :: cs) = c :: rest := by
  have hnil : ∀ d, ([] : List Char).head? = some d → is_whitespace d = false := by simp
  exact trim_append_cons hnil h cs

theorem trim_concat {c : Char} (h : is_whitespace c = false) (cs : List Char) :
    ∃ rest, trim (cs ++ [c]) = rest ++ [c] := by
  unfold trim
  rw [List.dropWhile_append]
  split
  · exact ⟨[], by simp [h]⟩
  · exact ⟨cs.dropWhile is_whitespace, by simp [h]⟩

/-! ## Parts -/

variable {sep : Char} {xs ys zs : List Char}

theorem splitOn_inj (h : xs.splitOn sep = ys.splitOn sep) : xs = ys := by
  have hjoin := congrArg ([sep].intercalate) h
  rwa [List.intercalate_splitOn, List.intercalate_splitOn] at hjoin

/-- The first parts of a text are those of what comes before a separator. -/
theorem splitOn_prefix_iff :
    xs.splitOn sep <+: ys.splitOn sep ↔ ys = xs ∨ ∃ rest, ys = xs ++ sep :: rest := by
  constructor
  · rintro ⟨parts, hparts⟩
    cases parts with
    | nil =>
      rw [List.append_nil] at hparts
      exact .inl (splitOn_inj hparts).symm
    | cons part parts =>
      have hjoin : ∀ first : List (List Char), first ≠ [] →
          [sep].intercalate (first ++ part :: parts) =
            [sep].intercalate first ++ sep :: [sep].intercalate (part :: parts) := by
        intro first hfirst
        induction first with
        | nil => exact absurd rfl hfirst
        | cons a first ih =>
          cases first with
          | nil => simp
          | cons b first =>
            simp only [List.cons_append, List.intercalate_cons_cons]
            rw [← List.cons_append, ih (by simp)]
            simp
      have hys := congrArg ([sep].intercalate) hparts
      rw [hjoin _ (List.splitOn_ne_nil sep xs), List.intercalate_splitOn,
        List.intercalate_splitOn] at hys
      exact .inr ⟨_, hys.symm⟩
  · rintro (rfl | ⟨rest, rfl⟩)
    · exact List.prefix_refl _
    · rw [List.splitOn_append_cons_self]
      exact List.prefix_append _ _

/-- One part more is what comes after one separator more. -/
theorem splitOn_concat_prefix_iff {part : List Char} :
    xs.splitOn sep ++ [part] <+: ys.splitOn sep ↔
      ∃ rest, ys = xs ++ sep :: rest ∧ (rest.splitOn sep).head? = some part := by
  constructor
  · intro h
    rcases splitOn_prefix_iff.mp ((List.prefix_append _ _).trans h) with rfl | ⟨rest, rfl⟩
    · have hlength := h.length_le
      rw [List.length_append, List.length_singleton] at hlength
      omega
    · rw [List.splitOn_append_cons_self, List.prefix_append_right_inj] at h
      obtain ⟨parts, hparts⟩ := h
      exact ⟨rest, rfl, by rw [← hparts, List.singleton_append, List.head?_cons]⟩
  · rintro ⟨rest, rfl, hhead⟩
    obtain ⟨parts, hparts⟩ := List.head?_eq_some_iff.mp hhead
    rw [List.splitOn_append_cons_self, List.prefix_append_right_inj, hparts]
    exact ⟨parts, by simp⟩

/-- The separator is in no part. -/
theorem not_mem_of_mem_splitOn {part : List Char} (h : part ∈ xs.splitOn sep) : sep ∉ part := by
  induction xs generalizing part with
  | nil =>
    rw [List.splitOn_nil, List.mem_singleton] at h
    simp [h]
  | cons x xs ih =>
    rw [List.splitOn_cons_eq_if_modifyHead] at h
    split at h
    · rcases List.mem_cons.mp h with rfl | h
      · simp
      · exact ih h
    · rename_i hx
      cases hparts : xs.splitOn sep with
      | nil => exact absurd hparts (List.splitOn_ne_nil sep xs)
      | cons first parts =>
        rw [hparts] at h ih
        rcases List.mem_cons.mp h with rfl | h
        · have hne : ¬ sep = x := fun heq => hx (by simp [heq])
          simp [hne, ih List.mem_cons_self]
        · exact ih (List.mem_cons_of_mem _ h)

/-- The parts of some texts that are joined are all their parts. -/
theorem splitOn_join {parts : List (List Char)} (h : parts ≠ []) :
    ([sep].intercalate parts).splitOn sep = parts.flatMap fun part => part.splitOn sep := by
  induction parts with
  | nil => exact absurd rfl h
  | cons part parts ih =>
    cases parts with
    | nil => simp
    | cons part' parts =>
      rw [List.intercalate_cons_cons, List.append_assoc, List.singleton_append,
        List.splitOn_append_cons_self, ih (by simp)]
      simp only [List.flatMap_cons]

/-- Of two that begin a text, the one with fewer bytes begins the other. -/
theorem splitOn_prefix_of_prefix (hx : xs.splitOn sep <+: zs.splitOn sep)
    (hy : ys.splitOn sep <+: zs.splitOn sep) (hle : byte_len xs ≤ byte_len ys) :
    xs.splitOn sep <+: ys.splitOn sep := by
  rcases List.prefix_or_prefix_of_prefix hx hy with h | h
  · exact h
  · rcases splitOn_prefix_iff.mp h with rfl | ⟨rest, rfl⟩
    · exact List.prefix_refl _
    · have hpos := byte_len_cons_pos sep rest
      rw [byte_len_append] at hle
      omega

theorem splitOn_prefix_antisymm (h : xs.splitOn sep <+: ys.splitOn sep)
    (h' : ys.splitOn sep <+: xs.splitOn sep) : xs = ys :=
  splitOn_inj (h.eq_of_length (Nat.le_antisymm h.length_le h'.length_le))

end Texts
