-- The lines that the tokenizer accepts, as a grammar: a line is made of blanks and of
-- pieces, each a text in quotes, a list in brackets or one other character. The depth that
-- the tokenizer counts is that of the grammar.
import Mathlib.Data.List.Infix
import Marie.Cli.Args

namespace marie.cli

open Texts

/-! ## The grammar -/

/-- Between two brackets every bracket is closed, and a quote is a character as any other. -/
inductive Balanced : Text → Prop
  | nil : Balanced []
  | char {c : Char} {rest : Text} : c ≠ '[' → c ≠ ']' → Balanced rest → Balanced (c :: rest)
  | group {inside rest : Text} :
    Balanced inside → Balanced rest → Balanced ('[' :: inside ++ ']' :: rest)

/-- What follows a bracket that is not closed: some of those in it may not be closed either. -/
inductive Unclosed : Text → Prop
  | here {inside : Text} : Balanced inside → Unclosed inside
  | deeper {inside rest : Text} : Balanced inside → Unclosed rest → Unclosed (inside ++ '[' :: rest)

inductive Piece : Text → Prop
  | char {c : Char} : is_whitespace c = false → c ≠ '"' → c ≠ '[' → Piece [c]
  | quoted {inside : Text} : '"' ∉ inside → Piece ('"' :: inside ++ ['"'])
  | bracketed {inside : Text} : Balanced inside → Piece ('[' :: inside ++ [']'])

/-- The line has all its quotes and brackets closed, and `kept` is what it is without the blanks
outside of them. -/
inductive Complete : Text → Text → Prop
  | nil : Complete [] []
  | blank {c : Char} {line kept : Text} :
    is_whitespace c = true → Complete line kept → Complete (c :: line) kept
  | piece {t line kept : Text} : Piece t → Complete line kept → Complete (t ++ line) (t ++ kept)

/-- What begins with a quote or a bracket that is never closed. -/
inductive Open : Text → Prop
  | quote {inside : Text} : '"' ∉ inside → Open ('"' :: inside)
  | bracket {inside : Text} : Unclosed inside → Open ('[' :: inside)

/-- The line ends inside a quote or a bracket that is open. -/
def EndsOpen (line : Text) : Prop :=
  ∃ before after kept, line = before ++ after ∧ Complete before kept ∧ Open after

/-- A token: some pieces in a row. -/
inductive Word : Text → Prop
  | piece {t : Text} : Piece t → Word t
  | concat {w t : Text} : Word w → Piece t → Word (w ++ t)

/-! ## A line is complete or open -/

section Grammar

variable {inside cs line t kept : Text}

theorem Balanced.append (h : Balanced inside) {rest : Text} (hrest : Balanced rest) :
    Balanced (inside ++ rest) := by
  induction h with
  | nil => exact hrest
  | char hopen hclose _ ih => exact .char hopen hclose ih
  | group hinside _ _ ih =>
    have hgroup := Balanced.group hinside ih
    simpa using hgroup

theorem Unclosed.append (h : Balanced inside) (hcs : Unclosed cs) : Unclosed (inside ++ cs) := by
  cases hcs with
  | here hbalanced => exact .here (h.append hbalanced)
  | deeper hbalanced hrest =>
    rw [← List.append_assoc]
    exact .deeper (h.append hbalanced) hrest

/-- A bracket is closed, or nothing in the rest of the text closes it. -/
theorem closed_or_unclosed (cs : Text) :
    (∃ inside rest, cs = inside ++ ']' :: rest ∧ Balanced inside) ∨ Unclosed cs := by
  induction hn : cs.length using Nat.strong_induction_on generalizing cs with
  | _ n ih =>
    subst hn
    rcases cs with _ | ⟨c, cs⟩
    · exact .inr (.here .nil)
    by_cases hclose : c = ']'
    · subst hclose
      exact .inl ⟨[], cs, by simp, .nil⟩
    by_cases hopen : c = '['
    · subst hopen
      rcases ih cs.length (by simp) cs rfl with ⟨inside, rest, rfl, hinside⟩ | hcs
      · have hgroup : Balanced ('[' :: inside ++ [']']) := .group hinside .nil
        have hsplit : '[' :: (inside ++ ']' :: rest) = ('[' :: inside ++ [']']) ++ rest := by simp
        rw [hsplit]
        rcases ih rest.length (by simp; omega) rest rfl with ⟨inside', rest', rfl, hinside'⟩ | hrest
        · exact .inl ⟨_, rest', by rw [← List.append_assoc], hgroup.append hinside'⟩
        · exact .inr (.append hgroup hrest)
      · have hdeeper : Unclosed ([] ++ '[' :: cs) := .deeper .nil hcs
        exact .inr hdeeper
    · have hchar : Balanced [c] := .char hopen hclose .nil
      rcases ih cs.length (by simp) cs rfl with ⟨inside, rest, rfl, hinside⟩ | hcs
      · exact .inl ⟨c :: inside, rest, by simp, hchar.append hinside⟩
      · exact .inr (.append hchar hcs)

theorem EndsOpen.blank {c : Char} (hc : is_whitespace c = true) (h : EndsOpen line) :
    EndsOpen (c :: line) := by
  obtain ⟨before, after, kept, rfl, hbefore, hafter⟩ := h
  exact ⟨c :: before, after, kept, by simp, .blank hc hbefore, hafter⟩

theorem EndsOpen.piece (ht : Piece t) (h : EndsOpen line) : EndsOpen (t ++ line) := by
  obtain ⟨before, after, kept, rfl, hbefore, hafter⟩ := h
  exact ⟨t ++ before, after, t ++ kept, by simp, .piece ht hbefore, hafter⟩

theorem EndsOpen.of_open (h : Open line) : EndsOpen line := ⟨[], line, [], by simp, .nil, h⟩

theorem complete_or_open (line : Text) : (∃ kept, Complete line kept) ∨ EndsOpen line := by
  induction hn : line.length using Nat.strong_induction_on generalizing line with
  | _ n ih =>
    subst hn
    -- the line begins with a piece, and the rest is shorter
    have hpiece : ∀ t rest, line = t ++ rest → Piece t → rest.length < line.length →
        (∃ kept, Complete line kept) ∨ EndsOpen line := by
      rintro t rest rfl ht hlt
      rcases ih rest.length hlt rest rfl with ⟨kept, hkept⟩ | hrest
      · exact .inl ⟨t ++ kept, .piece ht hkept⟩
      · exact .inr (.piece ht hrest)
    rcases line with _ | ⟨c, cs⟩
    · exact .inl ⟨[], .nil⟩
    by_cases hblank : is_whitespace c = true
    · rcases ih cs.length (by simp) cs rfl with ⟨kept, hkept⟩ | hcs
      · exact .inl ⟨kept, .blank hblank hkept⟩
      · exact .inr (.blank hblank hcs)
    by_cases hquote : c = '"'
    · subst hquote
      by_cases hclosed : '"' ∈ cs
      · obtain ⟨inside, rest, rfl, hinside⟩ := List.eq_append_cons_of_mem hclosed
        exact hpiece _ rest (by simp) (.quoted hinside) (by simp; omega)
      · exact .inr (.of_open (.quote hclosed))
    by_cases hbracket : c = '['
    · subst hbracket
      rcases closed_or_unclosed cs with ⟨inside, rest, rfl, hinside⟩ | hcs
      · exact hpiece _ rest (by simp) (.bracketed hinside) (by simp; omega)
      · exact .inr (.of_open (.bracket hcs))
    · exact hpiece [c] cs (by simp) (.char (by simpa using hblank) hquote hbracket) (by simp)

theorem Piece.ne_nil (h : Piece t) : t ≠ [] := by
  cases h <;> simp

theorem Word.ne_nil (h : Word t) : t ≠ [] := by
  cases h with
  | piece ht => exact ht.ne_nil
  | concat _ ht => simp [ht.ne_nil]

end Grammar

/-! ## The scan -/

section Scanning

variable {tokens : List Text} {current inside t line kept : Text} {begun : Bool} {depth : Nat}

theorem scan_normal (c : Char) (cs : Text) :
    scan (c :: cs) ⟨tokens, current, begun, .Normal⟩ =
      if is_whitespace c then scan cs (Scan.flush ⟨tokens, current, begun, .Normal⟩)
      else if c = '"' then scan cs ⟨tokens, current ++ [c], true, .Quoted⟩
      else if c = '[' then scan cs ⟨tokens, current ++ [c], true, .Bracketed 1⟩
      else scan cs ⟨tokens, current ++ [c], true, .Normal⟩ := by
  conv_lhs => unfold scan

theorem scan_quoted_char {c : Char} (hquote : c ≠ '"') {cs : Text}
    (hescape : c = '\\' → cs.head? ≠ some '"') :
    scan (c :: cs) ⟨tokens, current, true, .Quoted⟩ =
      scan cs ⟨tokens, current ++ [c], true, .Quoted⟩ := by
  conv_lhs => unfold scan
  simp only
  split
  · simp at hescape
  · simp [hquote]

theorem scan_quote (cs : Text) :
    scan ('"' :: cs) ⟨tokens, current, true, .Quoted⟩ =
      scan cs ⟨tokens, current ++ ['"'], true, .Normal⟩ := by
  conv_lhs => unfold scan
  simp

theorem scan_bracketed (c : Char) (cs : Text) :
    scan (c :: cs) ⟨tokens, current, begun, .Bracketed depth⟩ =
      scan cs ⟨tokens, current ++ [c], begun,
        if c = '[' then .Bracketed (depth + 1)
        else if c = ']' then if depth ≤ 1 then .Normal else .Bracketed (depth - 1)
        else .Bracketed depth⟩ := by
  conv_lhs => unfold scan
  simp only
  split
  · rfl
  · split <;> rfl

theorem scan_inside_quotes (hquote : '"' ∉ inside) (hback : '\\' ∉ inside) (rest : Text) :
    scan (inside ++ rest) ⟨tokens, current, true, .Quoted⟩ =
      scan rest ⟨tokens, current ++ inside, true, .Quoted⟩ := by
  induction inside generalizing current with
  | nil => simp
  | cons c inside ih =>
    simp only [List.mem_cons, not_or] at hquote hback
    rw [List.cons_append, scan_quoted_char (Ne.symm hquote.1) fun hc => absurd hc.symm hback.1,
      ih hquote.2 hback.2]
    simp

/-- Between brackets the depth comes back to what it was, and it is never less. -/
theorem scan_balanced (h : Balanced inside) (rest : Text) :
    scan (inside ++ rest) ⟨tokens, current, begun, .Bracketed (depth + 1)⟩ =
      scan rest ⟨tokens, current ++ inside, begun, .Bracketed (depth + 1)⟩ := by
  induction h generalizing current depth rest with
  | nil => simp
  | char hopen hclose _ ih =>
    rw [List.cons_append, scan_bracketed, if_neg hopen, if_neg hclose, ih]
    simp
  | @group inside rest' _ _ ih ih' =>
    have hsplit : '[' :: inside ++ ']' :: rest' ++ rest = '[' :: (inside ++ ']' :: (rest' ++ rest)) := by
      simp
    have hback : (if depth + 1 + 1 ≤ 1 then Mode.Normal else .Bracketed (depth + 1 + 1 - 1)) =
        .Bracketed (depth + 1) := if_neg (by omega)
    rw [hsplit, scan_bracketed, if_pos rfl, ih, scan_bracketed, if_neg (by decide), if_pos rfl,
      hback, ih']
    simp

theorem scan_piece (h : Piece t) (hback : '\\' ∉ t) (rest : Text) :
    scan (t ++ rest) ⟨tokens, current, begun, .Normal⟩ =
      scan rest ⟨tokens, current ++ t, true, .Normal⟩ := by
  cases h with
  | char hblank hquote hbracket =>
    rw [List.singleton_append, scan_normal]
    simp [hblank, hquote, hbracket]
  | @quoted inside hinside =>
    have hblank : is_whitespace '"' = false := by decide
    have hclean : '\\' ∉ inside := fun hmem => hback (by simp [hmem])
    rw [List.append_assoc, List.cons_append, scan_normal]
    simp only [hblank, Bool.false_eq_true, if_false, if_true]
    rw [scan_inside_quotes hinside hclean, List.singleton_append, scan_quote]
    simp
  | @bracketed inside hinside =>
    have hblank : is_whitespace '[' = false := by decide
    have hquote : '[' ≠ '"' := by decide
    rw [List.append_assoc, List.cons_append, scan_normal]
    simp only [hblank, hquote, Bool.false_eq_true, if_false, if_true]
    rw [scan_balanced hinside, List.singleton_append, scan_bracketed]
    simp

theorem scan_word (h : Word t) (hback : '\\' ∉ t) (rest : Text) :
    scan (t ++ rest) ⟨tokens, [], false, .Normal⟩ = scan rest ⟨tokens, t, true, .Normal⟩ := by
  induction h generalizing rest with
  | piece ht => rw [scan_piece ht hback, List.nil_append]
  | @concat w t _ ht ih =>
    simp only [List.mem_append, not_or] at hback
    rw [List.append_assoc, ih hback.1, scan_piece ht hback.2]

theorem mode_of_open (h : Open t) (hback : '\\' ∉ t) :
    (scan t ⟨tokens, current, begun, .Normal⟩).mode ≠ .Normal := by
  cases h with
  | @quote inside hinside =>
    have hblank : is_whitespace '"' = false := by decide
    have hclean : '\\' ∉ inside := fun hmem => hback (by simp [hmem])
    have hscan := @scan_inside_quotes tokens (current ++ ['"']) inside hinside hclean []
    rw [List.append_nil] at hscan
    rw [scan_normal]
    simp only [hblank, Bool.false_eq_true, if_false, if_true]
    simp [hscan, scan]
  | @bracket inside hinside =>
    have hblank : is_whitespace '[' = false := by decide
    have hquote : '[' ≠ '"' := by decide
    have hdepth : ∀ current depth,
        (scan inside ⟨tokens, current, true, .Bracketed (depth + 1)⟩).mode ≠ .Normal := by
      clear hback
      induction hinside with
      | @here inside hbalanced =>
        intro current depth
        have hscan := @scan_balanced tokens current inside true depth hbalanced []
        rw [List.append_nil] at hscan
        simp [hscan, scan]
      | deeper hbalanced _ ih =>
        intro current depth
        rw [scan_balanced hbalanced, scan_bracketed, if_pos rfl]
        exact ih _ _
    rw [scan_normal]
    simp only [hblank, hquote, Bool.false_eq_true, if_false, if_true]
    exact hdepth _ 0

end Scanning

/-! ## The depth -/

def Mode.depth : Mode → Nat
  | .Bracketed depth => depth
  | _ => 0

/-- The depth is at most the number of brackets: the `u32` of the source holds it for every line
with fewer than `2 ^ 32` of them. -/
theorem depth_le_count (cs : Text) (s : Scan) :
    (scan cs s).mode.depth ≤ s.mode.depth + cs.count '[' := by
  -- one character more, and a mode that is no deeper than that
  have hstep : ∀ {c : Char} {cs : Text} {d d' n : Nat}, n ≤ d' + cs.count '[' →
      (c = '[' → d' ≤ d + 1) → (c ≠ '[' → d' ≤ d) → n ≤ d + (c :: cs).count '[' := by
    intro c cs d d' n hn hopen hother
    by_cases hc : c = '['
    · have hd := hopen hc
      subst hc
      rw [List.count_cons_self]
      omega
    · have hd := hother hc
      rw [List.count_cons_of_ne hc]
      omega
  fun_induction scan cs s
  case case1 => simp
  case case2 ih =>
    have hflush : ∀ s : Scan, s.flush.mode = s.mode := by
      intro s
      unfold Scan.flush
      split <;> rfl
    rw [hflush] at ih
    exact hstep ih (fun _ => Nat.le_succ _) fun _ => Nat.le_refl _
  -- a quoted text has no depth
  case case3 ih => exact hstep ih (fun _ => Nat.zero_le _) fun _ => Nat.zero_le _
  case case7 ih => exact hstep ih (fun _ => Nat.zero_le _) fun _ => Nat.zero_le _
  case case6 ih =>
    have hquote := hstep (c := '"') ih (fun _ => Nat.le_succ _) fun _ => Nat.le_refl _
    exact hstep hquote (fun _ => Nat.le_succ _) fun _ => Nat.le_refl _
  case case4 ih => exact hstep ih (fun _ => Nat.le_add_left 1 _) fun h => absurd rfl h
  case case9 hmode _ ih =>
    rw [hmode]
    exact hstep ih (fun _ => Nat.le_refl _) fun h => absurd rfl h
  case case10 hmode _ _ ih =>
    rw [hmode]
    refine hstep ih (fun h => absurd h (by decide)) fun _ => ?_
    split
    · exact Nat.zero_le _
    · exact Nat.sub_le _ 1
  all_goals
    rename_i ih
    exact hstep ih (fun _ => Nat.le_succ _) fun _ => Nat.le_refl _

/-! ## Tokens -/

/-- The tokens that are at their end, and the one that is begun. -/
structure Scan.Words (s : Scan) : Prop where
  tokens : ∀ t ∈ s.tokens, Word t
  current : if s.has_current then Word s.current else s.current = []

/-- What has been kept of the line. -/
def Scan.kept (s : Scan) : Text := s.tokens.flatten ++ s.current

theorem Scan.Words.flush {s : Scan} (h : s.Words) :
    s.flush.Words ∧ s.flush.kept = s.kept ∧ s.flush.current = [] ∧ s.flush.mode = s.mode := by
  obtain ⟨htokens, hcurrent⟩ := h
  unfold Scan.flush Scan.kept
  split
  · rename_i hbegun
    rw [if_pos hbegun] at hcurrent
    refine ⟨⟨?_, by simp⟩, by simp, rfl, rfl⟩
    intro t ht
    rcases List.mem_append.mp ht with ht | ht
    · exact htokens t ht
    · exact List.mem_singleton.mp ht ▸ hcurrent
  · rename_i hbegun
    have hempty : s.current = [] := by simpa [hbegun] using hcurrent
    exact ⟨⟨htokens, hcurrent⟩, rfl, hempty, rfl⟩

theorem Scan.Words.piece {s : Scan} (h : s.Words) {t : Text} (ht : Piece t) :
    Scan.Words { s with current := s.current ++ t, has_current := true } := by
  refine ⟨h.tokens, ?_⟩
  have hcurrent := h.current
  simp only [if_true]
  split at hcurrent
  · exact .concat hcurrent ht
  · rw [hcurrent]
    exact .piece ht

theorem scan_complete {line kept : Text} (h : Complete line kept) (hback : '\\' ∉ line) {s : Scan}
    (hmode : s.mode = .Normal) (hs : s.Words) :
    ∃ s', s'.mode = .Normal ∧ s'.Words ∧ s'.kept = s.kept ++ kept ∧
      ∀ rest, scan (line ++ rest) s = scan rest s' := by
  induction h generalizing s with
  | nil => exact ⟨s, hmode, hs, by simp, by simp⟩
  | @blank c line kept hblank _ ih =>
    obtain ⟨hwords, hkept, -, hflush⟩ := hs.flush
    obtain ⟨s', hmode', hs', hkept', hscan⟩ :=
      ih (fun hmem => hback (List.mem_cons_of_mem c hmem)) (hflush.trans hmode) hwords
    refine ⟨s', hmode', hs', by rw [hkept', hkept], ?_⟩
    intro rest
    obtain ⟨tokens, current, begun, mode⟩ := s
    cases hmode
    rw [List.cons_append, scan_normal, if_pos hblank, hscan]
  | @piece t line kept ht _ ih =>
    simp only [List.mem_append, not_or] at hback
    obtain ⟨s', hmode', hs', hkept', hscan⟩ := ih hback.2
      (s := { s with current := s.current ++ t, has_current := true }) hmode (hs.piece ht)
    refine ⟨s', hmode', hs', by rw [hkept']; simp [Scan.kept], ?_⟩
    intro rest
    obtain ⟨tokens, current, begun, mode⟩ := s
    cases hmode
    rw [List.append_assoc, scan_piece ht hback.1, hscan]

theorem scan_words {words : List Text} (h : ∀ w ∈ words, Word w) (hback : ∀ w ∈ words, '\\' ∉ w)
    (tokens : List Text) :
    ∃ s, scan ([' '].intercalate words) ⟨tokens, [], false, .Normal⟩ = s ∧ s.mode = .Normal ∧
      s.flush.tokens = tokens ++ words := by
  induction words generalizing tokens with
  | nil => exact ⟨_, rfl, by simp [scan], by simp [scan, Scan.flush]⟩
  | cons w words ih =>
    have hw := h w List.mem_cons_self
    have hback' := hback w List.mem_cons_self
    cases words with
    | nil =>
      have hscan := @scan_word tokens w hw hback' []
      rw [List.append_nil] at hscan
      rw [List.intercalate_singleton, hscan]
      exact ⟨_, rfl, by simp [scan], by simp [scan, Scan.flush]⟩
    | cons w' words =>
      have hblank : is_whitespace ' ' = true := by decide
      obtain ⟨s, hscan, hmode, htokens⟩ := ih (fun v hv => h v (List.mem_cons_of_mem w hv))
        (fun v hv => hback v (List.mem_cons_of_mem w hv)) (tokens ++ [w])
      refine ⟨s, ?_, hmode, by simp [htokens]⟩
      rw [List.intercalate_cons_cons, List.append_assoc, scan_word hw hback',
        List.singleton_append, scan_normal, if_pos hblank]
      exact hscan

/-! ## Lines -/

section Lines

variable {line kept : Text}

theorem Complete.mem_of_mem (h : Complete line kept) {c : Char} (hc : c ∈ kept) : c ∈ line := by
  induction h with
  | nil => exact hc
  | blank _ _ ih => exact List.mem_cons_of_mem _ (ih hc)
  | piece _ _ ih =>
    rcases List.mem_append.mp hc with hc | hc
    · exact List.mem_append_left _ hc
    · exact List.mem_append_right _ (ih hc)

theorem tokenize_complete (h : Complete line kept) (hback : '\\' ∉ line) :
    ∃ tokens, tokenize line = .ok tokens ∧ (∀ t ∈ tokens, Word t) ∧ tokens.flatten = kept := by
  have hs : Scan.Words ⟨[], [], false, .Normal⟩ := ⟨by simp, by simp⟩
  obtain ⟨s, hmode, hwords, hkept, hscan⟩ := scan_complete h hback rfl hs
  obtain ⟨hflush, hsame, hempty, -⟩ := hwords.flush
  have hread := hscan []
  rw [List.append_nil, scan] at hread
  refine ⟨s.flush.tokens, ?_, hflush.tokens, ?_⟩
  · unfold tokenize
    rw [hread]
    simp [hmode]
  · rw [hkept] at hsame
    simpa [Scan.kept, hempty] using hsame

theorem tokenize_open (h : EndsOpen line) (hback : '\\' ∉ line) : ∃ e, tokenize line = .error e := by
  obtain ⟨before, after, kept, rfl, hbefore, hafter⟩ := h
  simp only [List.mem_append, not_or] at hback
  have hs : Scan.Words ⟨[], [], false, .Normal⟩ := ⟨by simp, by simp⟩
  obtain ⟨⟨tokens, current, begun, mode⟩, hmode, -, -, hscan⟩ :=
    scan_complete hbefore hback.1 rfl hs
  cases hmode
  have hopen := @mode_of_open tokens current after begun hafter hback.2
  unfold tokenize
  rw [hscan]
  generalize scan after _ = s at hopen
  cases hs : s.mode with
  | Normal => exact absurd hs hopen
  | Quoted => exact ⟨.Usage "guillemet non fermé", by simp [hs]⟩
  | Bracketed depth => exact ⟨.Usage "crochet non fermé", by simp [hs]⟩

theorem tokenize_words {words : List Text} (h : ∀ w ∈ words, Word w)
    (hback : ∀ w ∈ words, '\\' ∉ w) : tokenize ([' '].intercalate words) = .ok words := by
  obtain ⟨s, hscan, hmode, htokens⟩ := scan_words h hback []
  unfold tokenize
  rw [hscan]
  simp [hmode, htokens]

/-- A line without a backslash is refused exactly when it ends inside a quote or a bracket. Else its
tokens are not empty, they are what is left of it without the blanks outside of these, and with a
space between any two they are read again. -/
theorem tokens_are_normal (h : '\\' ∉ line) :
    ((∃ e, tokenize line = .error e) ↔ EndsOpen line) ∧
    ∀ tokens, tokenize line = .ok tokens →
      (∀ t ∈ tokens, t ≠ []) ∧ (∀ kept, Complete line kept ↔ tokens.flatten = kept) ∧
        tokenize ([' '].intercalate tokens) = .ok tokens := by
  constructor
  · constructor
    · rintro ⟨e, he⟩
      rcases complete_or_open line with ⟨kept, hkept⟩ | hopen
      · obtain ⟨tokens, htokens, -⟩ := tokenize_complete hkept h
        rw [he] at htokens
        cases htokens
      · exact hopen
    · intro hopen
      exact tokenize_open hopen h
  · intro tokens htokens
    have hall : ∀ kept, Complete line kept → (∀ t ∈ tokens, Word t) ∧ tokens.flatten = kept := by
      intro kept hkept
      obtain ⟨tokens', htokens', hwords, hflatten⟩ := tokenize_complete hkept h
      rw [htokens] at htokens'
      cases htokens'
      exact ⟨hwords, hflatten⟩
    rcases complete_or_open line with ⟨kept, hkept⟩ | hopen
    · obtain ⟨hwords, rfl⟩ := hall kept hkept
      refine ⟨fun t ht => (hwords t ht).ne_nil, ?_, tokenize_words hwords ?_⟩
      · intro kept
        constructor
        · intro hkept'
          exact (hall kept hkept').2
        · rintro rfl
          exact hkept
      · intro t ht hmem
        exact h (hkept.mem_of_mem (List.mem_flatten.mpr ⟨t, ht, hmem⟩))
    · obtain ⟨e, he⟩ := tokenize_open hopen h
      rw [htokens] at he
      cases he

theorem a_list_and_a_text_are_normal :
    ((∃ e, tokenize "a  [b [\"] c]d \"e f\"".toList = .error e) ↔
        EndsOpen "a  [b [\"] c]d \"e f\"".toList) ∧
      ∀ tokens, tokenize "a  [b [\"] c]d \"e f\"".toList = .ok tokens →
        (∀ t ∈ tokens, t ≠ []) ∧
          (∀ kept, Complete "a  [b [\"] c]d \"e f\"".toList kept ↔ tokens.flatten = kept) ∧
          tokenize ([' '].intercalate tokens) = .ok tokens :=
  tokens_are_normal (by decide)

end Lines

end marie.cli
