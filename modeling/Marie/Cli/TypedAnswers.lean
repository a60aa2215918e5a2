-- Answers as they are typed. A choice is typed by its number, a long text ends with a dot
-- on a line of its own: so all that a form takes can be typed, but for a long text with
-- such a line in it and a text of several lines where one is asked for.
import Marie.Cli.LiveSession
import Marie.Cli.Literals
import Marie.Hitl.Replies

namespace marie.cli

open Program Maps Texts session
open marie.hitl_store (Satisfies Takes validate_answers validate_answers_iff)

variable {β : Type} {t t' : Terminal β} {options : List String} {text : Text}

/-! ## Numbers -/

/-- A number as the options of a question are numbered. -/
def numeral (n : Nat) : Text := Nat.toDigits 10 n

theorem isDigit_of_mem_numeral {n : Nat} {c : Char} (h : c ∈ numeral n) : c.isDigit = true :=
  Nat.isDigit_of_mem_toDigits (by omega) (by omega) h

theorem decimal_numeral (n : Nat) : decimal (numeral n) = some n := by
  unfold numeral
  rw [decimal_of_digits Nat.toDigits_ne_nil fun c hc => isDigit_of_mem_numeral hc,
    Nat.ofDigitChars_toDigits (by omega) (by omega)]

theorem usize_of_numeral {n : Nat} (h : n < 2 ^ 64) : usize_from_str (numeral n) = some n := by
  unfold usize_from_str
  split
  · rename_i digits heq
    have hplus : '+' ∈ numeral n := by simp [heq]
    exact absurd (isDigit_of_mem_numeral hplus) (by decide)
  · rw [decimal_numeral, Option.filter_some, if_pos (by simpa using h)]

theorem not_mem_numeral {c : Char} (h : c.isDigit = false) (n : Nat) : c ∉ numeral n := by
  intro hmem
  rw [isDigit_of_mem_numeral hmem] at h
  cases h

theorem trim_numeral (n : Nat) : trim (numeral n) = numeral n := by
  have hblank : ∀ c ∈ numeral n, is_whitespace c = false :=
    fun c hc => not_blank_of_isDigit (isDigit_of_mem_numeral hc)
  refine Trimmed.trim_eq ⟨fun c hc => hblank c ?_, fun c hc => hblank c ?_⟩
  · exact List.mem_of_mem_head? hc
  · exact List.mem_of_getLast? hc

/-- The number of an option, as it is listed. -/
def number (options : List String) (choice : String) : Text := numeral (options.idxOf choice + 1)

theorem resolve_number {choice : String} (h : choice ∈ options) (hlen : options.length < 2 ^ 64) :
    resolve_option options (number options choice) = choice := by
  have hidx := List.idxOf_lt_length_of_mem h
  unfold resolve_option number
  rw [usize_of_numeral (by omega)]
  dsimp only
  rw [if_pos ⟨by omega, by omega⟩, Nat.add_sub_cancel]
  simp [hidx]

/-! ## What is typed -/

/-- From these lines the program makes `a`, whatever comes while they are awaited. -/
def Makes {α : Type} (m : Program Fault (Terminal β) α) (lines : List Text) (a : α) : Prop :=
  ∀ t typed rest, t.reads = typed ++ rest → typed.map (·.read) = lines.map .Line →
    ∃ t', exec m t = (.ok a, t') ∧ t'.reads = rest

theorem makes_pure {α : Type} (a : α) : Makes (β := β) (pure a) [] a := by
  intro t typed rest hreads htyped
  obtain rfl := List.map_eq_nil_iff.mp htyped
  exact ⟨t, rfl, hreads⟩

theorem Makes.bind {α γ : Type} {m : Program Fault (Terminal β) α}
    {f : α → Program Fault (Terminal β) γ} {lines lines' : List Text} {a : α} {b : γ}
    (hm : Makes m lines a) (hf : Makes (f a) lines' b) : Makes (m >>= f) (lines ++ lines') b := by
  intro t typed rest hreads htyped
  rw [List.map_append] at htyped
  obtain ⟨typed1, typed2, rfl, htyped1, htyped2⟩ := List.map_eq_append_iff.mp htyped
  rw [List.append_assoc] at hreads
  obtain ⟨t1, hrun, hreads1⟩ := hm t typed1 (typed2 ++ rest) hreads htyped1
  obtain ⟨t2, hrun2, hreads2⟩ := hf t1 typed2 rest hreads1 htyped2
  exact ⟨t2, by rw [exec_bind_ok hrun, hrun2], hreads2⟩

theorem makes_print (output : Output) : Makes (β := β) (print output) [] () := by
  intro t typed rest hreads htyped
  obtain rfl := List.map_eq_nil_iff.mp htyped
  exact ⟨_, rfl, hreads⟩

theorem makes_read (line : Text) : Makes (β := β) read_with_live_events [line] line := by
  intro t typed rest hreads htyped
  obtain ⟨line', lines, rfl, hline, hlines⟩ := List.map_eq_cons_iff.mp htyped
  obtain rfl := List.map_eq_nil_iff.mp hlines
  unfold read_with_live_events
  simp only [exec, ExceptT.run_mk, StateT.run, hreads, List.singleton_append, hline]
  exact ⟨_, rfl, rfl⟩

/-- The lines of a long text. -/
theorem makes_read_lines {lines : List Text} (h : ['.'] ∉ lines) (fuel : Nat)
    (hfuel : lines.length < fuel) : Makes (β := β) (read_lines fuel) (lines ++ [['.']]) lines := by
  induction lines generalizing fuel with
  | nil =>
    cases fuel with
    | zero => exact absurd hfuel (Nat.not_lt_zero _)
    | succ fuel => exact (makes_read ['.']).bind (makes_pure [])
  | cons line lines ih =>
    simp only [List.mem_cons, not_or] at h
    cases fuel with
    | zero => exact absurd hfuel (Nat.not_lt_zero _)
    | succ fuel =>
      change Makes _ ([line] ++ (lines ++ [['.']])) _
      refine (makes_read line).bind ?_
      rw [if_neg (Ne.symm h.1), ← List.append_nil (lines ++ [['.']])]
      exact (ih h.2 fuel (Nat.lt_of_succ_lt_succ hfuel)).bind (makes_pure _)

/-- What is typed for an answer. -/
def typed_for : QuestionKind → Answer → List Text
  | .Select options, .Single choice | .Radio options, .Single choice => [number options choice]
  | .Checkboxes options, .Multiple choices => [[','].intercalate (choices.map (number options))]
  | .LongText, .Single text => text.toList.splitOn '\n' ++ [['.']]
  | _, .Single text => [text.toList]
  | _, .Multiple _ => []

/-- The options can be counted. -/
def Counted : QuestionKind → Prop
  | .Select options | .Radio options | .Checkboxes options => options.length < 2 ^ 64
  | _ => True

/-- What can be typed of an answer: no line of a long text is a dot, and another text is one line. -/
def Typable : QuestionKind → Answer → Prop
  | .LongText, .Single text => ['.'] ∉ text.toList.splitOn '\n'
  | .ShortText, .Single text | .FileUpload _, .Single text => '\n' ∉ text.toList
  | _, _ => True

/-- The numbers of some options, with commas between them. -/
theorem items_of_numbers {choices : List String} (h : ∀ c ∈ choices, c ∈ options)
    (hlen : options.length < 2 ^ 64) :
    (((([','].intercalate (choices.map (number options))).splitOn ',').map trim).filter
      (!·.isEmpty)).map (resolve_option options) = choices := by
  by_cases hne : choices = []
  · subst hne
    rfl
  have hcomma : ∀ part ∈ choices.map (number options), ',' ∉ part := by
    intro part hpart
    obtain ⟨c, -, rfl⟩ := List.mem_map.mp hpart
    exact not_mem_numeral (by decide) _
  have htrim : (choices.map (number options)).map trim = choices.map (number options) := by
    rw [List.map_map]
    exact List.map_congr_left fun c _ => trim_numeral _
  have hfilter : (choices.map (number options)).filter (!·.isEmpty) = choices.map (number options) := by
    rw [List.filter_eq_self]
    intro part hpart
    obtain ⟨c, -, rfl⟩ := List.mem_map.mp hpart
    simp [number, numeral, Nat.toDigits_ne_nil]
  rw [List.splitOn_intercalate ',' hcomma (by simpa using hne), htrim, hfilter, List.map_map]
  conv_rhs => rw [← List.map_id choices]
  exact List.map_congr_left fun c hc => resolve_number (h c hc) hlen

theorem makes_ask_question {q : Question} {a : Answer} {to_lowercase : String → String}
    (htakes : Takes to_lowercase q.kind a) (hcounted : Counted q.kind) (htypable : Typable q.kind a) :
    Makes (β := β) (ask_question q) (typed_for q.kind a) a := by
  obtain ⟨key, label, kind⟩ := q
  dsimp only at htakes hcounted htypable ⊢
  refine (makes_print _).bind ?_
  have hone : ∀ (raw : Text) (answer : Answer) (f : Text → Answer), f raw = answer →
      Makes (β := β) (do let raw ← read_with_live_events; pure (f raw)) [raw] answer := by
    rintro raw _ f rfl
    exact (makes_read raw).bind (makes_pure _)
  have hchoice : ∀ {options : List String} {choice : String}, choice ∈ options →
      options.length < 2 ^ 64 →
      Answer.Single (resolve_option options (trim (number options choice))) = .Single choice := by
    intro options choice hmem hlen
    rw [number, trim_numeral, ← number, resolve_number hmem hlen]
  cases htakes with
  | short text =>
    exact hone text.toList _ (fun raw => .Single (String.ofList raw)) (by rw [String.ofList_toList])
  | long text =>
    intro t typed rest hreads htyped
    have hlines : (text.toList.splitOn '\n').length < t.reads.length + 1 := by
      have hlen := congrArg List.length htyped
      simp only [List.length_map, List.length_append] at hlen
      rw [hreads, List.length_append]
      omega
    obtain ⟨t1, hrun, hreads1⟩ :=
      makes_read_lines htypable (t.reads.length + 1) hlines t typed rest hreads htyped
    refine ⟨t1, ?_, hreads1⟩
    dsimp only
    rw [exec_bind_ok (exec_asks _ t), exec_bind_ok hrun, exec_pure, List.intercalate_splitOn,
      String.ofList_toList]
  | select h => exact hone _ _ (fun raw => .Single (resolve_option _ (trim raw))) (hchoice h hcounted)
  | radio h => exact hone _ _ (fun raw => .Single (resolve_option _ (trim raw))) (hchoice h hcounted)
  | @checkboxes options choices h =>
    refine hone ([','].intercalate (choices.map (number options))) _ (fun raw => .Multiple
      ((((raw.splitOn ',').map trim).filter (!·.isEmpty)).map (resolve_option options))) ?_
    rw [items_of_numbers h hcounted]
  | file hname hext =>
    exact hone _ _ (fun raw => .Single (String.ofList raw)) (by rw [String.ofList_toList])

/-! ## Whole forms -/

variable {answers : Entries String Answer} {to_lowercase : String → String}

/-- What is typed for a form: the lines of its answers, one after the other. -/
def typed_form (questions : List Question) (answers : Entries String Answer) : List Text :=
  questions.flatMap fun q => (answers.find q.key).elim [] (typed_for q.kind)

theorem makes_ask_questions (questions : List Question)
    (h : ∀ q ∈ questions, ∃ a, answers.find q.key = some a ∧ Takes to_lowercase q.kind a ∧
      Counted q.kind ∧ Typable q.kind a) (given : Entries String Answer) :
    ∃ given', Makes (β := β) (ask_questions questions given) (typed_form questions answers) given' ∧
      ∀ key, given'.find key = if ∃ q ∈ questions, q.key = key then answers.find key
        else given.find key := by
  induction questions generalizing given with
  | nil => exact ⟨given, makes_pure given, by simp⟩
  | cons q questions ih =>
    obtain ⟨a, ha, htakes, hcounted, htypable⟩ := h q (by simp)
    obtain ⟨given', hmakes, hfind⟩ := ih (fun q hq => h q (by simp [hq])) (given.insert (q.key, a))
    refine ⟨given', ?_, fun key => ?_⟩
    · have hform : typed_form (q :: questions) answers
          = typed_for q.kind a ++ typed_form questions answers := by
        simp [typed_form, ha]
      rw [hform]
      exact (makes_ask_question htakes hcounted htypable).bind hmakes
    · rw [hfind, Entries.find_insert]
      by_cases hkey : q.key = key
      · subst hkey
        by_cases hrest : ∃ q' ∈ questions, q'.key = q.key
        · simp [hrest]
        · simp [hrest, ha]
      · simp [hkey]

/-! ## What was typed -/

/-- What is read is one line each time. -/
def OneLined (t : Terminal β) : Prop := ∀ typed ∈ t.reads, '\n' ∉ typed.read.text

theorem OneLined.of_took {taken : List Taken} {asked : List ID} (h : OneLined t)
    (htook : Took taken asked t t') : OneLined t' := by
  obtain ⟨lines, hlines, -⟩ := htook.lines
  intro typed hmem
  exact h typed (by rw [hlines]; exact List.mem_append_right _ hmem)

theorem OneLined.of_awaits {α : Type} {m : Program Fault (Terminal β) α} {ids : List ID} {a : α}
    (h : OneLined t) (hm : Awaits m ids t) (hrun : exec m t = (.ok a, t')) : OneLined t' := by
  obtain ⟨taken, asked, -, htook, -⟩ := hm
  rw [hrun] at htook
  exact h.of_took htook

theorem one_lined_read (h : OneLined t) (hrun : exec read_with_live_events t = (.ok text, t')) :
    '\n' ∉ text := by
  unfold read_with_live_events at hrun
  cases hreads : t.reads with
  | nil => simp only [exec, ExceptT.run_mk, StateT.run, hreads] at hrun; cases hrun
  | cons typed reads =>
    simp only [exec, ExceptT.run_mk, StateT.run, hreads] at hrun
    cases hrun
    exact h typed (by simp [hreads])

theorem one_lined_read_lines {fuel : Nat} {lines : List Text} (h : OneLined t)
    (hrun : exec (read_lines fuel) t = (.ok lines, t')) :
    ['.'] ∉ lines ∧ ∀ line ∈ lines, '\n' ∉ line := by
  induction fuel generalizing t lines with
  | zero => cases hrun
  | succ fuel ih =>
    obtain ⟨line, t1, hread, hrest⟩ := exec_bind_eq_ok hrun
    have hline := one_lined_read h hread
    by_cases hdot : line = ['.']
    · rw [if_pos hdot] at hrest
      cases hrest
      simp
    · rw [if_neg hdot] at hrest
      obtain ⟨lines', t2, hlines, hpure⟩ := exec_bind_eq_ok hrest
      cases hpure
      obtain ⟨hnot, hall⟩ := ih (h.of_awaits (awaits_read t) hread) hlines
      refine ⟨by simp [Ne.symm hdot, hnot], ?_⟩
      intro line' hmem
      rcases List.mem_cons.mp hmem with rfl | hmem
      · exact hline
      · exact hall line' hmem

theorem typable_of_typed {q : Question} {a : Answer} (h : OneLined t)
    (hrun : exec (ask_question q) t = (.ok a, t')) : Typable q.kind a := by
  obtain ⟨key, label, kind⟩ := q
  obtain ⟨_, t1, hprint, hrest⟩ := exec_bind_eq_ok hrun
  have h1 : OneLined t1 := h.of_awaits (awaits_print rfl rfl) hprint
  dsimp only at hrest ⊢
  cases kind with
  | LongText =>
    rw [exec_bind_ok (exec_asks _ t1)] at hrest
    obtain ⟨lines, t2, hlines, hpure⟩ := exec_bind_eq_ok hrest
    cases hpure
    obtain ⟨hnot, hall⟩ := one_lined_read_lines h1 hlines
    change ['.'] ∉ (String.ofList (['\n'].intercalate lines)).toList.splitOn '\n'
    rw [String.toList_ofList]
    by_cases hne : lines = []
    · subst hne
      simp
    · rwa [List.splitOn_intercalate '\n' hall hne]
  | ShortText | FileUpload _ =>
    obtain ⟨raw, t2, hread, hpure⟩ := exec_bind_eq_ok hrest
    cases hpure
    change '\n' ∉ (String.ofList raw).toList
    rw [String.toList_ofList]
    exact one_lined_read h1 hread
  | Select _ | Radio _ | Checkboxes _ =>
    obtain ⟨raw, t2, hread, hpure⟩ := exec_bind_eq_ok hrest
    cases hpure
    trivial

/-- Each answer of a form stays as it was typed, where the keys are distinct. -/
theorem typed_of_ask_questions {questions : List Question} {given given' : Entries String Answer}
    (h : OneLined t) (hkeys : (questions.map (·.key)).Nodup)
    (hrun : exec (ask_questions questions given) t = (.ok given', t')) :
    (∀ q ∈ questions, ∃ a, given'.find q.key = some a ∧ Typable q.kind a) ∧
      ∀ key, (∀ q ∈ questions, q.key ≠ key) → given'.find key = given.find key := by
  induction questions generalizing t given with
  | nil =>
    cases hrun
    exact ⟨by simp, fun _ _ => rfl⟩
  | cons q questions ih =>
    obtain ⟨a, t1, hask, hrest⟩ := exec_bind_eq_ok hrun
    rw [List.map_cons, List.nodup_cons] at hkeys
    obtain ⟨htyped, hother⟩ := ih (h.of_awaits (awaits_ask_question q t) hask) hkeys.2 hrest
    have hkept : given'.find q.key = some a := by
      rw [hother q.key fun q' hq' heq => hkeys.1 (List.mem_map.mpr ⟨q', hq', heq⟩),
        Entries.find_insert, if_pos rfl]
    refine ⟨fun q' hq' => ?_, fun key hkey => ?_⟩
    · rcases List.mem_cons.mp hq' with rfl | hq'
      · exact ⟨a, hkept, typable_of_typed h hask⟩
      · exact htyped q' hq'
    · rw [hother key fun q' hq' => hkey q' (List.mem_cons_of_mem q hq'), Entries.find_insert,
        if_neg (hkey q (by simp))]

theorem one_lined_typed_for {kind : QuestionKind} {a : Answer} (htakes : Takes to_lowercase kind a)
    (h : Typable kind a) : ∀ line ∈ typed_for kind a, '\n' ∉ line := by
  have hnumber : ∀ (options : List String) choice, '\n' ∉ number options choice :=
    fun options choice => not_mem_numeral (by decide) _
  intro line hline
  cases htakes with
  | short text | file hname hext =>
    obtain rfl := List.mem_singleton.mp hline
    exact h
  | long text =>
    rcases List.mem_append.mp hline with hline | hline
    · exact not_mem_of_mem_splitOn hline
    · obtain rfl := List.mem_singleton.mp hline
      decide
  | select hmem | radio hmem =>
    obtain rfl := List.mem_singleton.mp hline
    exact hnumber _ _
  | @checkboxes options choices hmem =>
    obtain rfl := List.mem_singleton.mp hline
    induction choices with
    | nil => simp
    | cons choice choices ih =>
      cases choices with
      | nil => simpa using hnumber options choice
      | cons choice' choices =>
        simp only [List.map_cons, List.intercalate_cons_cons, List.mem_append, not_or]
        refine ⟨⟨hnumber options choice, by simp⟩, ?_⟩
        simpa using ih (fun c hc => hmem c (by simp [hc])) trivial (by simp [typed_for])

/-- A human can give the form these answers, in lines, and marie takes them. -/
def CanGive (backend : β) (to_lowercase : String → String) (questions : List Question)
    (answers : Entries String Answer) : Prop :=
  ∃ (t t' : Terminal β) (given : Entries String Answer), t.backend = backend ∧ OneLined t ∧
    exec (ask_hitl (.Questions questions)) t = (.ok given, t') ∧
    (∀ q ∈ questions, given.find q.key = answers.find q.key) ∧
    validate_answers to_lowercase questions given = .ok given

/-- Of what a form takes, all can be typed but a long text with a dot on a line of its own and a text
of several lines where one is asked for. -/
theorem a_form_can_be_typed_iff (backend : β) (to_lowercase : String → String)
    (questions : List Question) (answers : Entries String Answer)
    (hkeys : (questions.map (·.key)).Nodup) (hcounted : ∀ q ∈ questions, Counted q.kind)
    (hsatisfied : Satisfies to_lowercase answers (.Questions questions)) :
    CanGive backend to_lowercase questions answers ↔
    ∀ q ∈ questions, ∀ a, answers.find q.key = some a → Typable q.kind a := by
  constructor
  · rintro ⟨t, t', given, -, hlined, hrun, hsame, -⟩ q hq a ha
    obtain ⟨a', ha', htypable⟩ := (typed_of_ask_questions hlined hkeys hrun).1 q hq
    rw [hsame q hq, ha] at ha'
    cases ha'
    exact htypable
  · intro htypable
    have hall : ∀ q ∈ questions, ∃ a, answers.find q.key = some a ∧ Takes to_lowercase q.kind a ∧
        Counted q.kind ∧ Typable q.kind a := by
      intro q hq
      obtain ⟨a, ha, htakes⟩ := hsatisfied q hq
      exact ⟨a, ha, htakes, hcounted q hq, htypable q hq a ha⟩
    obtain ⟨given, hmakes, hfind⟩ := makes_ask_questions questions hall Entries.empty
    let typed : List Typed := (typed_form questions answers).map fun line => ⟨0, .Line line⟩
    obtain ⟨t', hrun, -⟩ := hmakes ⟨typed, [], true, [], backend⟩ typed [] (by simp) (by
      simp [typed, Function.comp_def])
    have hsame : ∀ q ∈ questions, given.find q.key = answers.find q.key := by
      intro q hq
      rw [hfind, if_pos ⟨q, hq, rfl⟩]
    refine ⟨_, t', given, rfl, ?_, hrun, hsame, validate_answers_iff.mpr fun q hq => ?_⟩
    · intro line hline
      obtain ⟨text, htext, rfl⟩ := List.mem_map.mp hline
      obtain ⟨q, hq, hmem⟩ := List.mem_flatMap.mp htext
      obtain ⟨a, ha, htakes, -, htypable⟩ := hall q hq
      rw [ha] at hmem
      exact one_lined_typed_for htakes htypable text hmem
    · obtain ⟨a, ha, htakes⟩ := hsatisfied q hq
      exact ⟨a, by rw [hsame q hq, ha], htakes⟩

/-! ## A form -/

/-- The text of the first option is the number of the second one. -/
def a_form : List Question :=
  [⟨"env", "Environnement", .Select ["2", "1"]⟩, ⟨"why", "Raison", .LongText⟩]

def two_answers (why : String) : Entries String Answer :=
  (Entries.empty.insert ("env", .Single "2")).insert ("why", .Single why)

theorem a_dot_on_its_line_cannot_be_typed :
    CanGive () id a_form (two_answers "a.\nb") ∧ ¬ CanGive () id a_form (two_answers "a\n.\nb") := by
  have hkeys : (a_form.map (·.key)).Nodup := by decide
  have hcounted : ∀ q ∈ a_form, Counted q.kind := by
    simp [a_form, Counted]
  have hsatisfied : ∀ why, Satisfies id (two_answers why) (.Questions a_form) := by
    intro why q hq
    simp only [a_form, List.mem_cons, List.not_mem_nil, or_false] at hq
    rcases hq with rfl | rfl
    · exact ⟨.Single "2", by simp [two_answers], .select (by decide)⟩
    · exact ⟨.Single why, by simp [two_answers], .long why⟩
  constructor
  · refine (a_form_can_be_typed_iff () id a_form _ hkeys hcounted (hsatisfied _)).mpr ?_
    intro q hq a ha
    simp only [a_form, List.mem_cons, List.not_mem_nil, or_false] at hq
    rcases hq with rfl | rfl
    · trivial
    · obtain rfl : Answer.Single "a.\nb" = a := by simpa [two_answers] using ha
      change ['.'] ∉ "a.\nb".toList.splitOn '\n'
      decide
  · rw [a_form_can_be_typed_iff () id a_form _ hkeys hcounted (hsatisfied _)]
    intro h
    have hlong := h ⟨"why", "Raison", .LongText⟩ (by simp [a_form]) (.Single "a\n.\nb")
      (by simp [two_answers])
    revert hlong
    change ¬ ['.'] ∉ "a\n.\nb".toList.splitOn '\n'
    decide

end marie.cli
