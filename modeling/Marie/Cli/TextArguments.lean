-- Texts as arguments. A quote inside a quoted text is escaped once, and the escape is
-- taken away twice: by the tokenizer, and by the reading of the argument.
import Mathlib.Data.List.Induction
import Marie.Cli.Tokens

namespace marie.cli

open Maps Texts

/-! ## Lines -/

/-- A text as it is typed, each of its quotes escaped. -/
def escape (t : Text) : Text := t.flatMap fun c => if c = '"' then ['\\', '"'] else [c]

def quoted (t : Text) : Text := '"' :: escape t ++ ['"']

/-- An argument: what stands before the quotes, and the text between them. -/
structure Argument where
  head : Text
  text : Text

/-- The argument as it is typed. -/
def Argument.typed (a : Argument) : Text := a.head ++ quoted a.text

/-- The token that the argument should be. -/
def Argument.token (a : Argument) : Text := a.head ++ '"' :: a.text ++ ['"']

def at_place (t : Text) : Argument := ⟨[], t⟩

def under_key (e : Text × Text) : Argument := ⟨e.1 ++ ['='], e.2⟩

/-- The texts by their place, then those under a key. -/
def arguments (texts : List Text) (named : List (Text × Text)) : List Argument :=
  texts.map at_place ++ named.map under_key

/-- The arguments as they are typed, with a space between any two. -/
def line (arguments : List Argument) : Text := [' '].intercalate (arguments.map Argument.typed)

/-- The line of these texts is read as they are. -/
def GivenBack (texts : List Text) (named : List (Text × Text)) : Prop :=
  ∃ args, (tokenize (line (arguments texts named)) >>= (parse_command_args · texts.length)) =
      .ok args ∧
    (∀ i (h : i < texts.length), args.positional i = .ok texts[i]) ∧
    ∀ key, args.flag_text key = named.lookup key

/-- What begins a token leaves the tokenizer as it is. -/
def Plain (head : Text) : Prop := ∀ c ∈ head, is_whitespace c = false ∧ c ≠ '"' ∧ c ≠ '['

instance (head : Text) : Decidable (Plain head) := List.decidableBAll _ head

def IsKey (key : Text) : Prop := Plain key ∧ '=' ∉ key

instance (key : Text) : Decidable (IsKey key) := inferInstanceAs (Decidable (Plain key ∧ _))

/-- No quote of the text follows a backslash, nor does the one after it. -/
def Expressible (t : Text) : Prop := ¬ ['\\', '"'] <:+: t ∧ t.getLast? ≠ some '\\'

/-! ## The scan of an argument -/

variable {tokens : List Text} {current head t : Text} {begun : Bool}

theorem scan_head (h : Plain head) (rest : Text) :
    ∃ begun', scan (head ++ rest) ⟨tokens, current, begun, .Normal⟩ =
      scan rest ⟨tokens, current ++ head, begun', .Normal⟩ := by
  induction head generalizing current begun with
  | nil => exact ⟨begun, by simp⟩
  | cons c head ih =>
    obtain ⟨hblank, hquote, hbracket⟩ := h c List.mem_cons_self
    obtain ⟨begun', hscan⟩ := @ih (current ++ [c]) true
      fun c' hc' => h c' (List.mem_cons_of_mem c hc')
    refine ⟨begun', ?_⟩
    rw [List.cons_append, scan_normal]
    simp only [hblank, hquote, hbracket, Bool.false_eq_true, if_false]
    rw [hscan, List.append_assoc, List.singleton_append]

theorem escape_cons (c : Char) (t : Text) :
    escape (c :: t) = (if c = '"' then ['\\', '"'] else [c]) ++ escape t := List.flatMap_cons

/-- A text is scanned to its end, unless the quote at its end seems to be escaped. -/
theorem scan_escape (t rest : Text) :
    scan (escape t ++ '"' :: rest) ⟨tokens, current, true, .Quoted⟩ =
      if t.getLast? = some '\\' then
        scan rest ⟨tokens, current ++ t.dropLast ++ ['"'], true, .Quoted⟩
      else scan rest ⟨tokens, current ++ t ++ ['"'], true, .Normal⟩ := by
  induction t generalizing current with
  | nil => simp [escape, scan]
  | cons c t ih =>
    rw [escape_cons]
    by_cases hquote : c = '"'
    · subst hquote
      have hstep : scan ('\\' :: '"' :: (escape t ++ '"' :: rest))
          ⟨tokens, current, true, .Quoted⟩ =
            scan (escape t ++ '"' :: rest) ⟨tokens, current ++ ['"'], true, .Quoted⟩ := by
        rw [scan]
      simp only [if_true, List.cons_append, List.nil_append]
      rw [hstep, ih]
      cases t with
      | nil => simp
      | cons d t => simp
    · rw [if_neg hquote, List.append_assoc, List.singleton_append]
      cases t with
      | nil =>
        by_cases hback : c = '\\'
        · subst hback
          simp [escape, scan]
        · simp [escape, scan, hquote, hback]
      | cons d t =>
        have hnext : (escape (d :: t) ++ '"' :: rest).head? ≠ some '"' := by
          rw [escape_cons]
          split
          · simp
          · simpa using ‹¬ d = '"'›
        rw [scan_quoted_char hquote fun _ => hnext, ih]
        simp

/-- An argument is one token, unless its text ends with a backslash: then the scan goes on in it. -/
theorem scan_argument {a : Argument} (h : Plain a.head) (rest : Text) :
    scan (a.typed ++ rest) ⟨tokens, [], false, .Normal⟩ =
      if a.text.getLast? = some '\\' then
        scan rest ⟨tokens, a.head ++ '"' :: a.text.dropLast ++ ['"'], true, .Quoted⟩
      else scan rest ⟨tokens, a.token, true, .Normal⟩ := by
  obtain ⟨begun, hhead⟩ := @scan_head tokens [] a.head false h (quoted a.text ++ rest)
  have hquote : is_whitespace '"' = false := by decide
  unfold Argument.typed
  rw [List.append_assoc, hhead, quoted, List.append_assoc, List.cons_append, scan_normal]
  simp only [hquote, Bool.false_eq_true, if_false, if_true, List.nil_append, List.singleton_append]
  rw [scan_escape]
  simp [Argument.token]


/-! ## What a scan goes on with -/

/-- A scan keeps the tokens that it has. -/
theorem tokens_prefix (cs : Text) (s : Scan) : s.tokens <+: (scan cs s).flush.tokens := by
  have hflush : ∀ s : Scan, s.tokens <+: s.flush.tokens := by
    intro s
    unfold Scan.flush
    split
    · exact List.prefix_append _ _
    · exact List.prefix_refl _
  fun_induction scan cs s
  case case1 s => exact hflush s
  case case2 s _ _ ih => exact (hflush s).trans ih
  all_goals assumption

/-- The token that is begun goes on, and a quote that is open is closed in it. -/
def Grows (s final : Scan) : Prop :=
  ∃ more rest, final.flush.tokens = s.tokens ++ (s.current ++ more) :: rest ∧
    (s.mode = .Quoted → '"' ∈ more)

theorem Grows.of_pushed {s s' final : Scan} {c : Char} (h : Grows s' final)
    (htokens : s'.tokens = s.tokens) (hcurrent : s'.current = s.current ++ [c])
    (hquote : s.mode = .Quoted → c = '"' ∨ s'.mode = .Quoted) : Grows s final := by
  obtain ⟨more, rest, heq, hmore⟩ := h
  refine ⟨c :: more, rest, by rw [heq, htokens, hcurrent]; simp, ?_⟩
  intro hmode
  rcases hquote hmode with rfl | hmode'
  · exact List.mem_cons_self
  · exact List.mem_cons_of_mem c (hmore hmode')

theorem scan_grows (cs : Text) (s : Scan) (h : s.has_current = true)
    (hend : (scan cs s).mode = .Normal) : Grows s (scan cs s) := by
  fun_induction scan cs s
  case case1 s =>
    refine ⟨[], [], by simp [Scan.flush, h], ?_⟩
    intro hmode
    rw [hend] at hmode
    cases hmode
  case case2 c cs s hmode hblank ih =>
    have htokens : s.flush.tokens = s.tokens ++ [s.current] := by simp [Scan.flush, h]
    obtain ⟨rest, hrest⟩ := tokens_prefix cs s.flush
    refine ⟨[], rest, by rw [← hrest, htokens]; simp, ?_⟩
    intro hmode'
    rw [hmode] at hmode'
    cases hmode'
  -- in a quoted text the character is the closing quote, an escaped one, or the text goes on
  case case6 ih => exact (ih h hend).of_pushed rfl rfl fun _ => .inl rfl
  case case7 ih => exact (ih h hend).of_pushed rfl rfl fun _ => .inl rfl
  case case8 ih => exact (ih h hend).of_pushed rfl rfl .inr
  all_goals
    rename_i ih
    refine (ih (by first | assumption | rfl) hend).of_pushed rfl rfl ?_
    simp_all

/-! ## Lines of arguments -/

theorem line_cons (a : Argument) (after : List Argument) :
    ∃ tail, line (a :: after) = a.typed ++ tail ∧
      (after = [] → tail = []) ∧ (after ≠ [] → tail = ' ' :: line after) := by
  cases after with
  | nil => exact ⟨[], by simp [line], fun _ => by simp, fun h => absurd rfl h⟩
  | cons b after =>
    refine ⟨' ' :: line (b :: after), ?_, by simp, by simp⟩
    unfold line
    rw [List.map_cons, List.map_cons, List.intercalate_cons_cons]
    simp

/-- The arguments before one are tokens, if their ends are not taken for an escape. -/
theorem scan_before {before : List Argument} (hplain : ∀ b ∈ before, Plain b.head)
    (hends : ∀ b ∈ before, b.text.getLast? ≠ some '\\') (a : Argument) (after : List Argument) :
    scan (line (before ++ a :: after)) ⟨tokens, [], false, .Normal⟩ =
      scan (line (a :: after)) ⟨tokens ++ before.map Argument.token, [], false, .Normal⟩ := by
  induction before generalizing tokens with
  | nil => simp
  | cons b before ih =>
    obtain ⟨tail, htyped, -, htail⟩ := line_cons b (before ++ a :: after)
    have hblank : is_whitespace ' ' = true := by decide
    rw [List.cons_append, htyped, scan_argument (hplain b List.mem_cons_self),
      if_neg (hends b List.mem_cons_self), htail (by simp), scan_normal]
    simp only [hblank, if_true, Scan.flush]
    rw [ih (fun b' hb' => hplain b' (List.mem_cons_of_mem b hb'))
      fun b' hb' => hends b' (List.mem_cons_of_mem b hb')]
    simp

theorem tokenize_line {arguments : List Argument} (hplain : ∀ a ∈ arguments, Plain a.head)
    (hends : ∀ a ∈ arguments, a.text.getLast? ≠ some '\\') :
    tokenize (line arguments) = .ok (arguments.map Argument.token) := by
  unfold tokenize
  rcases List.eq_nil_or_concat arguments with rfl | ⟨before, a, rfl⟩
  · simp [line, scan, Scan.flush]
  · rw [List.concat_eq_append] at hplain hends ⊢
    obtain ⟨tail, htyped, htail, -⟩ := line_cons a []
    rw [scan_before (fun b hb => hplain b (List.mem_append_left _ hb))
      (fun b hb => hends b (List.mem_append_left _ hb)), htyped, htail rfl,
      scan_argument (hplain a (by simp)), if_neg (hends a (by simp))]
    simp [scan, Scan.flush]

/-- A text that ends with a backslash goes on in its token, which gets a quote too many. -/
theorem tokenize_of_backslash {before after : List Argument} {a : Argument}
    (hplain : ∀ b ∈ before ++ a :: after, Plain b.head)
    (hends : ∀ b ∈ before, b.text.getLast? ≠ some '\\') (ha : a.text.getLast? = some '\\')
    {read : List Text} (hread : tokenize (line (before ++ a :: after)) = .ok read) :
    ∃ value rest, read = before.map Argument.token ++ (a.head ++ value) :: rest ∧
      a.text.count '"' + 3 ≤ value.count '"' := by
  obtain ⟨tail, htyped, -, -⟩ := line_cons a after
  unfold tokenize at hread
  rw [scan_before (fun b hb => hplain b (List.mem_append_left _ hb)) hends, htyped,
    scan_argument (hplain a (by simp)), if_pos ha] at hread
  have hgrows := scan_grows tail ⟨[] ++ before.map Argument.token,
    a.head ++ '"' :: a.text.dropLast ++ ['"'], true, .Quoted⟩ rfl
  generalize scan tail _ = final at hread hgrows
  simp only at hread
  split at hread
  · cases hread
  · cases hread
  · cases hread
    obtain ⟨more, rest, heq, hmore⟩ := hgrows ‹_›
    refine ⟨'"' :: a.text.dropLast ++ ['"'] ++ more, rest, by rw [heq]; simp, ?_⟩
    have hcount := List.count_pos_iff.mpr (hmore rfl)
    obtain ⟨text, htext⟩ := List.getLast?_eq_some_iff.mp ha
    rw [htext, List.dropLast_concat]
    simp only [List.cons_append, List.count_cons, List.count_append, List.count_nil]
    simp
    omega

/-! ## Quotes that are taken away -/

theorem count_unescape {c : Char} (hc : c ≠ '\\') (cs : Text) :
    (unescape cs).count c = cs.count c := by
  fun_induction unescape cs with
  | case1 cs ih => simp [List.count_cons, ih, Ne.symm hc]
  | case2 c cs _ ih => simp [List.count_cons, ih]
  | case3 => rfl

/-- No more than the two quotes around a text are taken away. -/
theorem count_unquote (raw : Text) : raw.count '"' ≤ (unquote raw).count '"' + 2 := by
  unfold unquote
  rw [← count_trim (by decide) raw]
  simp only
  split
  · rename_i h
    rw [count_unescape (by decide)]
    generalize trim raw = s at h ⊢
    obtain ⟨rest, rfl⟩ := List.head?_eq_some_iff.mp h.2.1
    rcases List.eq_nil_or_concat rest with rfl | ⟨inner, c, rfl⟩
    · simp
    · rw [List.concat_eq_append, List.tail_cons, List.dropLast_concat, List.count_cons,
        List.count_append, List.count_singleton]
      split <;> split <;> omega
  · omega

theorem unquote_token (t : Text) : unquote ('"' :: t ++ ['"']) = unescape t := by
  have hquote : is_whitespace '"' = false := by decide
  have htrim : trim ('"' :: t ++ ['"']) = '"' :: t ++ ['"'] := by
    unfold trim
    rw [List.cons_append, List.dropWhile_cons_of_neg (by simp [hquote]), ← List.cons_append,
      List.reverse_append, List.reverse_singleton, List.singleton_append,
      List.dropWhile_cons_of_neg (by simp [hquote])]
    simp
  have hlen : 2 ≤ byte_len ('"' :: t ++ ['"']) := by
    rw [byte_len_append, byte_len_cons, byte_len_cons]
    have hsize : Char.utf8Size '"' = 1 := by decide
    omega
  unfold unquote
  simp only [htrim]
  rw [if_pos ⟨hlen, by simp, List.getLast?_concat⟩]
  simp

/-- A text is left as it is exactly when no quote in it seems to be escaped. -/
theorem unescape_eq_self_iff (cs : Text) : unescape cs = cs ↔ ¬ ['\\', '"'] <:+: cs := by
  fun_induction unescape cs with
  | case1 cs ih =>
    have hescaped : ['\\', '"'] <:+: '\\' :: '"' :: cs := ⟨[], cs, by simp⟩
    simp [hescaped]
  | case2 c cs hnot ih =>
    rw [List.cons_eq_cons, List.infix_cons_iff, not_or, ih]
    simp only [true_and, iff_and_self]
    rintro - ⟨rest, hrest⟩
    rw [List.cons_append, List.cons_eq_cons] at hrest
    obtain ⟨rfl, rfl⟩ := hrest
    exact hnot rest rfl (by simp)
  | case3 => simp

/-! ## Arguments that are read -/

theorem split_once_append {sep : Char} {before : Text} (h : sep ∉ before) (after : Text) :
    split_once sep (before ++ sep :: after) = some (before, after) := by
  unfold split_once
  have hall : ∀ c ∈ before, decide (c ≠ sep) = true := by
    intro c hc
    rw [decide_eq_true_eq]
    rintro rfl
    exact h hc
  rw [List.span_eq_takeWhile_dropWhile, List.takeWhile_append_of_pos hall,
    List.dropWhile_append_of_pos hall]
  simp

/-- The flags that are read stay, and each token is one of them. -/
theorem find_of_parse_flags {tokens : List Text} {flags flags' : Entries Text Text}
    (h : parse_flags tokens flags = .ok flags') :
    (∀ key value, flags.find key = some value → flags'.find key = some value) ∧
    ∀ token ∈ tokens, ∀ key value, split_once '=' token = some (key, value) →
      flags'.find key = some value := by
  induction tokens generalizing flags with
  | nil =>
    cases h
    exact ⟨fun _ _ hfind => hfind, by simp⟩
  | cons token tokens ih =>
    unfold parse_flags at h
    split at h
    · cases h
    · rename_i key value hsplit
      split at h
      · cases h
      · rename_i hnew
        obtain ⟨hkept, hread⟩ := ih h
        refine ⟨?_, ?_⟩
        · intro key' value' hfind
          apply hkept
          have hne : key ≠ key' := by
            rintro rfl
            simp [hfind] at hnew
          rw [Entries.find_insert, if_neg hne, hfind]
        · intro token' htoken' key' value' hsplit'
          rcases List.mem_cons.mp htoken' with rfl | htoken'
          · rw [hsplit] at hsplit'
            cases hsplit'
            apply hkept
            rw [Entries.find_insert, if_pos rfl]
          · exact hread token' htoken' key' value' hsplit'

theorem key_ne_of_mem {e e' : Text × Text} {named : List (Text × Text)}
    (hnew : e.1 ∉ named.map Prod.fst) (he' : e' ∈ named) : e.1 ≠ e'.1 := by
  intro heq
  apply hnew
  rw [heq]
  exact List.mem_map_of_mem he'

/-- Tokens under new keys are read. -/
theorem parse_flags_named {named : List (Text × Text)} (hkeys : ∀ e ∈ named, IsKey e.1)
    (hnodup : (named.map Prod.fst).Nodup) {flags : Entries Text Text}
    (hnew : ∀ e ∈ named, flags.find e.1 = none) :
    ∃ flags', parse_flags (named.map (Argument.token ∘ under_key)) flags = .ok flags' ∧
      ∀ key, flags'.find key =
        ((named.lookup key).map fun t => '"' :: t ++ ['"']).or (flags.find key) := by
  induction named generalizing flags with
  | nil => exact ⟨flags, by simp [parse_flags], by simp⟩
  | cons e named ih =>
    rw [List.map_cons, List.nodup_cons] at hnodup
    have hsplit : split_once '=' (under_key e).token = some (e.1, '"' :: e.2 ++ ['"']) := by
      rw [← split_once_append (hkeys e List.mem_cons_self).2]
      simp [Argument.token, under_key]
    have hnew' : ∀ e' ∈ named, (flags.insert (e.1, '"' :: e.2 ++ ['"'])).find e'.1 = none := by
      intro e' he'
      rw [Entries.find_insert, if_neg (key_ne_of_mem hnodup.1 he')]
      exact hnew e' (List.mem_cons_of_mem e he')
    obtain ⟨flags', hparse, hfind⟩ :=
      ih (fun e' he' => hkeys e' (List.mem_cons_of_mem e he')) hnodup.2 hnew'
    refine ⟨flags', ?_, ?_⟩
    · rw [List.map_cons, parse_flags, Function.comp_apply, hsplit]
      simp only [hnew e List.mem_cons_self, Option.isSome_none, Bool.false_eq_true, if_false]
      exact hparse
    · intro key
      rw [hfind, Entries.find_insert]
      by_cases hkey : e.1 = key
      · have hnone : named.lookup key = none := by
          rw [List.lookup_eq_none_iff]
          intro e' he'
          rw [bne_iff_ne, ← hkey]
          exact key_ne_of_mem hnodup.1 he'
        subst hkey
        rw [hnone, List.lookup_cons, beq_self_eq_true]
        simp
      · have hne : (key == e.1) = false := by
          rw [beq_eq_false_iff_ne]
          exact Ne.symm hkey
        rw [if_neg hkey, List.lookup_cons, hne]

theorem lookup_of_mem {named : List (Text × Text)} (hnodup : (named.map Prod.fst).Nodup)
    {e : Text × Text} (he : e ∈ named) : named.lookup e.1 = some e.2 := by
  induction named with
  | nil => simp at he
  | cons e' named ih =>
    rw [List.map_cons, List.nodup_cons] at hnodup
    rw [List.lookup_cons]
    rcases List.mem_cons.mp he with rfl | he
    · simp
    · have hne : (e.1 == e'.1) = false := by
        rw [beq_eq_false_iff_ne]
        exact Ne.symm (key_ne_of_mem hnodup.1 he)
      rw [hne]
      exact ih hnodup.2 he

section Lines

variable {texts : List Text} {named : List (Text × Text)}

theorem expressible_iff : (∀ t ∈ texts ++ named.map Prod.snd, Expressible t) ↔
    ∀ a ∈ arguments texts named, Expressible a.text := by
  have htexts : (arguments texts named).map Argument.text = texts ++ named.map Prod.snd := by
    unfold arguments
    rw [List.map_append, List.map_map, List.map_map]
    congr 1
    exact List.map_id texts
  rw [← htexts, List.forall_mem_map]

theorem plain_of_mem (hkeys : ∀ e ∈ named, IsKey e.1) {a : Argument}
    (ha : a ∈ arguments texts named) : Plain a.head := by
  rcases List.mem_append.mp ha with ha | ha
  · obtain ⟨t, -, rfl⟩ := List.mem_map.mp ha
    simp [Plain, at_place]
  · obtain ⟨e, he, rfl⟩ := List.mem_map.mp ha
    have hequals : is_whitespace '=' = false := by decide
    intro c hc
    rcases List.mem_append.mp hc with hc | hc
    · exact (hkeys e he).1 c hc
    · rw [List.mem_singleton.mp hc]
      exact ⟨hequals, by decide, by decide⟩

/-- What a line is read as gives, at each argument, what the token has after its head. -/
theorem unquote_of_read (hkeys : ∀ e ∈ named, IsKey e.1) (hnodup : (named.map Prod.fst).Nodup)
    {read : List Text} {args : CommandArgs}
    (hparse : parse_command_args read texts.length = .ok args)
    (hplace : ∀ i (h : i < texts.length), args.positional i = .ok texts[i])
    (hflags : ∀ key, args.flag_text key = named.lookup key) {i : Nat} {a : Argument}
    (ha : (arguments texts named)[i]? = some a) {value : Text}
    (htoken : read[i]? = some (a.head ++ value)) : unquote value = a.text := by
  unfold parse_command_args at hparse
  split at hparse
  · cases hparse
  obtain ⟨flags, hread, hok⟩ := bind_eq_ok_iff.mp hparse
  cases hok
  unfold arguments at ha
  rw [List.getElem?_append] at ha
  simp only [List.length_map] at ha
  split at ha
  · rename_i hi
    rw [List.getElem?_map, List.getElem?_eq_getElem hi, Option.map_some] at ha
    cases ha
    have hpos := hplace i hi
    unfold CommandArgs.positional at hpos
    simp only [List.getElem?_map, List.getElem?_take_of_lt hi, htoken] at hpos
    simpa [at_place] using hpos
  · rename_i hi
    rw [List.getElem?_map, Option.map_eq_some_iff] at ha
    obtain ⟨e, he, rfl⟩ := ha
    have hmem : (under_key e).head ++ value ∈ read.drop texts.length := by
      apply List.mem_of_getElem? (i := i - texts.length)
      rw [List.getElem?_drop, ← htoken]
      congr
      omega
    have hkey := hkeys e (List.mem_of_getElem? he)
    have hsplit : split_once '=' ((under_key e).head ++ value) = some (e.1, value) := by
      rw [← split_once_append hkey.2]
      simp [under_key]
    have hfind := (find_of_parse_flags hread).2 _ hmem _ _ hsplit
    have hflag := hflags e.1
    rw [lookup_of_mem hnodup (List.mem_of_getElem? he), CommandArgs.flag_text, hfind] at hflag
    simpa [under_key] using hflag


theorem expressible_of_given_back (hkeys : ∀ e ∈ named, IsKey e.1)
    (hnodup : (named.map Prod.fst).Nodup) (h : GivenBack texts named) :
    ∀ a ∈ arguments texts named, Expressible a.text := by
  have hplain : ∀ a ∈ arguments texts named, Plain a.head := fun a ha => plain_of_mem hkeys ha
  obtain ⟨args, hargs, hplace, hflags⟩ := h
  obtain ⟨read, htokens, hparse⟩ := bind_eq_ok_iff.mp hargs
  have hunquote := @unquote_of_read _ _ hkeys hnodup _ _ hparse hplace hflags
  cases hfind : (arguments texts named).find? fun a => decide (a.text.getLast? = some '\\') with
  | none =>
    have hends : ∀ a ∈ arguments texts named, a.text.getLast? ≠ some '\\' := by
      intro a ha
      simpa using List.find?_eq_none.mp hfind a ha
    rw [tokenize_line hplain hends] at htokens
    cases htokens
    intro a ha
    refine ⟨?_, hends a ha⟩
    obtain ⟨i, hi⟩ := List.mem_iff_getElem?.mp ha
    rw [← unescape_eq_self_iff, ← unquote_token]
    apply hunquote hi
    rw [List.getElem?_map, hi, Option.map_some, Argument.token]
    simp
  | some a =>
    -- the first of these texts is read with a quote that it does not have
    obtain ⟨hback, before, after, heq, hbefore⟩ := List.find?_eq_some_iff_append.mp hfind
    rw [heq] at htokens hplain
    obtain ⟨value, rest, hread, hcount⟩ := tokenize_of_backslash hplain
      (fun b hb => by simpa using hbefore b hb) (by simpa using hback) htokens
    have htext := @hunquote before.length a (by rw [heq]; simp) value (by rw [hread]; simp)
    have hquotes := count_unquote value
    rw [htext] at hquotes
    omega

theorem given_back_of_expressible (hkeys : ∀ e ∈ named, IsKey e.1)
    (hnodup : (named.map Prod.fst).Nodup)
    (h : ∀ a ∈ arguments texts named, Expressible a.text) : GivenBack texts named := by
  have hempty : ∀ e ∈ named, (Entries.empty : Entries Text Text).find e.1 = none :=
    fun e _ => Entries.find_empty
  obtain ⟨flags, hflags, hfind⟩ := parse_flags_named hkeys hnodup hempty
  have htext : ∀ t ∈ texts ++ named.map Prod.snd, unquote ('"' :: t ++ ['"']) = t := by
    intro t ht
    rw [unquote_token, unescape_eq_self_iff]
    exact (expressible_iff.mpr h t ht).1
  have hplaces : texts.map ((unquote ∘ Argument.token) ∘ at_place) = texts := by
    conv_rhs => rw [← List.map_id texts]
    apply List.map_congr_left
    intro t ht
    exact htext t (List.mem_append_left _ ht)
  refine ⟨⟨texts, flags⟩, ?_, ?_, ?_⟩
  · rw [tokenize_line (fun a ha => plain_of_mem hkeys ha) fun a ha => (h a ha).2]
    unfold parse_command_args arguments
    simp only [bind, Except.bind]
    rw [if_neg (by simp), List.map_append, List.drop_left' (by simp), List.take_left' (by simp),
      List.map_map, List.map_map, List.map_map]
    rw [hflags, hplaces]
  · intro i hi
    simp [CommandArgs.positional, List.getElem?_eq_getElem hi]
  · intro key
    unfold CommandArgs.flag_text
    simp only [hfind, Entries.find_empty, Option.or_none]
    cases hlookup : named.lookup key with
    | none => simp
    | some t =>
      have hmem : t ∈ named.map Prod.snd := by
        obtain ⟨before, after, rfl, -⟩ := List.lookup_eq_some_iff.mp hlookup
        simp
      rw [Option.map_some, Option.map_some, htext t (List.mem_append_right _ hmem)]

end Lines

/-- A line is read as the texts that it was made of exactly when none has a quote after a backslash,
nor a backslash at its end. -/
theorem text_arguments_iff (texts : List Text) (named : List (Text × Text))
    (hkeys : ∀ e ∈ named, IsKey e.1) (hnodup : (named.map Prod.fst).Nodup) :
    GivenBack texts named ↔ ∀ t ∈ texts ++ named.map Prod.snd, Expressible t := by
  rw [expressible_iff]
  exact ⟨expressible_of_given_back hkeys hnodup, given_back_of_expressible hkeys hnodup⟩

theorem a_prompt_is_given_back :
    GivenBack ["a [list] = b".toList] [("prompt".toList, "say \"hello\" \\o/".toList)] :=
  (text_arguments_iff _ _ (by decide) (by decide)).mpr
    (by unfold Expressible; decide)

/-- A backslash keeps the quote after it open. A quote after a backslash loses the backslash. -/
theorem backslashes_are_not_given_back :
    ¬ GivenBack ["\\".toList] [] ∧ ¬ GivenBack ["\\\"".toList] [] := by
  have hkeys : ∀ e ∈ ([] : List (Text × Text)), IsKey e.1 := by simp
  constructor
  · intro h
    have hback := expressible_iff.mpr (expressible_of_given_back hkeys List.nodup_nil h) _
      (List.mem_singleton_self _)
    exact hback.2 (by decide)
  · intro h
    have hquote := expressible_iff.mpr (expressible_of_given_back hkeys List.nodup_nil h) _
      (List.mem_singleton_self _)
    exact hquote.1 (by decide)

end marie.cli
