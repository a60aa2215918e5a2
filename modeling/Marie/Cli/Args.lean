-- The lines of the command prompt: a line is cut into tokens at its blanks, and the
-- tokens are read as arguments, the first by their place and the others by a key.
import Mathlib.Data.List.Infix
import Marie.Lib.Entries
import Marie.Lib.Texts
import Marie.Session.Channel

namespace marie.cli

open Maps Texts session

abbrev Text := List Char

inductive CliError
  | Usage (msg : String)
deriving DecidableEq

theorem bind_eq_ok_iff {α β : Type} {x : Except CliError α} {f : α → Except CliError β} {b : β} :
    (x >>= f) = .ok b ↔ ∃ a, x = .ok a ∧ f a = .ok b := by
  cases x with
  | error e => simp [bind, Except.bind]
  | ok a => simp [bind, Except.bind]

/-! ## The tokenizer -/

inductive Mode
  | Normal
  | Quoted
  | Bracketed (depth : Nat)
deriving DecidableEq

structure Scan where
  tokens : List Text
  current : Text
  has_current : Bool
  mode : Mode
deriving DecidableEq

/-- The token, if there is one, is at its end. -/
def Scan.flush (s : Scan) : Scan :=
  if s.has_current then
    { s with tokens := s.tokens ++ [s.current], current := [], has_current := false }
  else s

/-- The loop of `tokenize`. -/
def scan : Text → Scan → Scan
  | [], s => s
  | c :: cs, s =>
    let pushed := { s with current := s.current ++ [c] }
    match s.mode with
    | .Normal =>
      if is_whitespace c then scan cs s.flush
      else if c = '"' then scan cs { pushed with has_current := true, mode := .Quoted }
      else if c = '[' then scan cs { pushed with has_current := true, mode := .Bracketed 1 }
      else scan cs { pushed with has_current := true }
    | .Quoted =>
      match c, cs with
      | '\\', '"' :: rest => scan rest { s with current := s.current ++ ['"'] }
      | c, cs => if c = '"' then scan cs { pushed with mode := .Normal } else scan cs pushed
    | .Bracketed depth =>
      if c = '[' then scan cs { pushed with mode := .Bracketed (depth + 1) }
      else if c = ']' then
        scan cs { pushed with mode := if depth ≤ 1 then .Normal else .Bracketed (depth - 1) }
      else scan cs pushed

def tokenize (line : Text) : Except CliError (List Text) :=
  let s := scan line ⟨[], [], false, .Normal⟩
  match s.mode with
  | .Quoted => .error (.Usage "guillemet non fermé")
  | .Bracketed _ => .error (.Usage "crochet non fermé")
  | .Normal => .ok s.flush.tokens

/-! ## Arguments -/

/-- `replace("\\\"", "\"")`. -/
def unescape : Text → Text
  | '\\' :: '"' :: cs => '"' :: unescape cs
  | c :: cs => c :: unescape cs
  | [] => []

def unquote (raw : Text) : Text :=
  let s := trim raw
  if 2 ≤ byte_len s ∧ s.head? = some '"' ∧ s.getLast? = some '"' then unescape s.tail.dropLast
  else s

def split_once (sep : Char) (s : Text) : Option (Text × Text) :=
  match s.span (· ≠ sep) with
  | (_, []) => none
  | (before, _ :: after) => some (before, after)

structure CommandArgs where
  positionals : List Text
  flags : Entries Text Text

/-- The loop of `parse_command_args`. -/
def parse_flags : List Text → Entries Text Text → Except CliError (Entries Text Text)
  | [], flags => .ok flags
  | token :: tokens, flags =>
    match split_once '=' token with
    | none =>
      .error (.Usage ("argument invalide (attendu key=value): " ++ String.ofList token))
    | some (key, value) =>
      if (flags.find key).isSome then
        .error (.Usage ("argument dupliqué: " ++ String.ofList key))
      else parse_flags tokens (flags.insert (key, value))

def parse_command_args (tokens : List Text) (n_positional : Nat) : Except CliError CommandArgs :=
  if tokens.length < n_positional then
    .error (.Usage ("attendu au moins " ++ toString n_positional ++
      " argument(s) positionnel(s), trouvé " ++ toString tokens.length))
  else do
    let flags ← parse_flags (tokens.drop n_positional) Entries.empty
    .ok { positionals := (tokens.take n_positional).map unquote, flags }

/-! ## Values -/

/-- The loop of `split_top_level_commas`, in the part that it has begun. -/
def split_commas : Int → Text → Text → List Text
  | _, part, [] => [part]
  | depth, part, c :: cs =>
    if c = '[' then split_commas (depth + 1) (part ++ [c]) cs
    else if c = ']' then split_commas (depth - 1) (part ++ [c]) cs
    else if c = ',' ∧ depth = 0 then part :: split_commas depth [] cs
    else split_commas depth (part ++ [c]) cs

def split_top_level_commas (s : Text) : List Text := split_commas 0 [] s

def decimal (digits : Text) : Option Nat :=
  if digits.isEmpty then none
  else digits.foldlM
    (fun n c => if '0' ≤ c ∧ c ≤ '9' then some (10 * n + (c.toNat - '0'.toNat)) else none) 0

/-- `str::parse::<i64>`. -/
def i64_from_str (s : Text) : Option Int :=
  let i := match s with
    | '-' :: digits => (decimal digits).map fun n => -(n : Int)
    | '+' :: digits => (decimal digits).map fun n => (n : Int)
    | digits => (decimal digits).map fun n => (n : Int)
  i.filter fun i => -(2 ^ 63) ≤ i ∧ i < 2 ^ 63

def value_of_i64 (i : Int) : Value :=
  if 0 ≤ i then .Number (.PosInt i.toNat) else .Number (.NegInt (-i).toNat)

theorem length_le_of_mem_split_commas {depth : Int} {part cs item : Text}
    (h : item ∈ split_commas depth part cs) : item.length ≤ part.length + cs.length := by
  fun_induction split_commas depth part cs with
  | case1 depth part =>
    rw [List.mem_singleton] at h
    simp [h]
  | case2 depth part cs ih =>
    have hitem := ih h
    simp only [List.length_append, List.length_cons, List.length_nil] at hitem ⊢
    omega
  | case3 depth part cs hc ih =>
    have hitem := ih h
    simp only [List.length_append, List.length_cons, List.length_nil] at hitem ⊢
    omega
  | case4 depth part c cs hc hc' hcomma ih =>
    rcases List.mem_cons.mp h with rfl | h
    · simp
    · have hitem := ih h
      simp only [List.length_cons, List.length_nil] at hitem ⊢
      omega
  | case5 depth part c cs hc hc' hcomma ih =>
    have hitem := ih h
    simp only [List.length_append, List.length_cons, List.length_nil] at hitem ⊢
    omega

section Values

-- `str::parse::<f64>`, with the value that is made of the number.
variable (parse_f64 : Text → Option Value)

def parse_value (raw : Text) : Except CliError Value :=
  let s := trim raw
  if s.isEmpty ∨ s = ['"', '"'] then .ok (.String "")
  else if s.head? = some '"' ∧ s.getLast? = some '"' ∧ 2 ≤ byte_len s then
    .ok (.String (String.ofList (unquote s)))
  else if _hlist : s.head? = some '[' ∧ s.getLast? = some ']' then do
    let items := ((split_top_level_commas s.tail.dropLast).map trim).filter (!·.isEmpty)
    let values ← items.attach.mapM fun item => parse_value item.1
    .ok (.Array values)
  else match i64_from_str s with
    | some i => .ok (value_of_i64 i)
    | none => .ok ((parse_f64 s).getD (.String (String.ofList s)))
termination_by raw.length
decreasing_by
  obtain ⟨part, hpart, hitem⟩ := List.mem_map.mp (List.mem_filter.mp item.2).1
  have hshort := length_trim_le part
  have hinner := length_le_of_mem_split_commas hpart
  have hs := length_trim_le raw
  obtain ⟨rest, hrest⟩ := List.head?_eq_some_iff.mp _hlist.1
  have hlast : s.tail.dropLast.length < s.length := by
    rw [hrest, List.tail_cons, List.length_dropLast, List.length_cons]
    omega
  rw [List.length_nil, Nat.zero_add] at hinner
  rw [hitem] at hshort
  exact Nat.lt_of_le_of_lt (hshort.trans hinner) (Nat.lt_of_lt_of_le hlast hs)

theorem mapM_ok {α β : Type} {f : α → Except CliError β} {xs : List α}
    (h : ∀ x ∈ xs, ∃ b, f x = .ok b) : ∃ bs, xs.mapM f = .ok bs := by
  induction xs with
  | nil => exact ⟨[], by simp [pure, Except.pure]⟩
  | cons x xs ih =>
    obtain ⟨b, hb⟩ := h x List.mem_cons_self
    obtain ⟨bs, hbs⟩ := ih fun x' hx' => h x' (List.mem_cons_of_mem x hx')
    exact ⟨b :: bs, by simp [hb, hbs, pure, Except.pure, bind, Except.bind]⟩

/-- Any text is a value, a text if it is nothing else. -/
theorem parse_value_ok (raw : Text) : ∃ value, parse_value parse_f64 raw = .ok value := by
  fun_induction parse_value parse_f64 raw with
  | case1 => exact ⟨_, rfl⟩
  | case2 => exact ⟨_, rfl⟩
  | case3 raw s _ _ _ items ih =>
    have hitems : ∀ item ∈ items.attach, ∃ value, parse_value parse_f64 item.1 = .ok value :=
      fun item _ => ih item
    obtain ⟨values, hvalues⟩ := mapM_ok hitems
    exact ⟨.Array values, by rw [hvalues]; rfl⟩
  | case4 => exact ⟨_, rfl⟩
  | case5 => exact ⟨_, rfl⟩

end Values

/-! ## Flags -/

namespace CommandArgs

variable (self : CommandArgs)

def positional (i : Nat) : Except CliError Text :=
  match self.positionals[i]? with
  | some s => .ok s
  | none => .error (.Usage ("argument positionnel manquant #" ++ toString i))

def flag_str (key : Text) : Option Text := self.flags.find key

def flag_text (key : Text) : Option Text := (self.flags.find key).map unquote

def flag_bool_opt (key : Text) : Except CliError (Option Bool) :=
  match self.flag_str key with
  | none => .ok none
  | some other =>
    if other = "true".toList then .ok (some true)
    else if other = "false".toList then .ok (some false)
    else .error (.Usage ("valeur booléenne invalide pour " ++ String.ofList key ++ ": " ++
      String.ofList other))

def flag_bool (key : Text) (default : Bool) : Except CliError Bool := do
  let flag ← self.flag_bool_opt key
  .ok (flag.getD default)

def flag_reducer (key : Text) : Except CliError (Option Reducer) :=
  match self.flag_str key with
  | none => .ok none
  | some other =>
    if other = "append".toList then .ok (some .Append)
    else if other = "lww".toList then .ok (some .LastWriteWins)
    else if other = "max".toList then .ok (some .Max)
    else .error (.Usage ("reducer inconnu: " ++ String.ofList other ++
      " (attendu append|lww|max)"))

def flag_value (parse_f64 : Text → Option Value) (key : Text) :
    Except CliError (Option Value) :=
  match self.flag_str key with
  | none => .ok none
  | some s => do
    let value ← parse_value parse_f64 s
    .ok (some value)

theorem flag_value_ok (parse_f64 : Text → Option Value) (key : Text) :
    ∃ value, self.flag_value parse_f64 key = .ok value := by
  unfold flag_value
  cases self.flag_str key with
  | none => exact ⟨none, rfl⟩
  | some s =>
    obtain ⟨value, hvalue⟩ := parse_value_ok parse_f64 s
    exact ⟨some value, by simp [hvalue, bind, Except.bind]⟩

end CommandArgs

end marie.cli
