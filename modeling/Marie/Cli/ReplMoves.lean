-- What a turn of the prompt does to its stack: one state is put on it, taken from it or
-- changed in place, and the states under that one are as they were.
import Marie.Cli.EditedSpecs
import Marie.Cli.Repl

namespace marie.cli

open Program Maps Texts session

variable {β M : Type} {lib : LocalMarie β M} {s s' : Repl β M} {stack : List (ReplState M)}
  {backend : β} {tokens : List Text} {marie : M}

/-! ## Frames -/

/-- The stack is this one, and the commands of its top are completed. -/
structure At (stack : List (ReplState M)) (s : Repl β M) : Prop where
  holds : s.stack = stack
  completer_table : stack.head?.map (·.commands) = some s.completer_table

/-- Marie was not called either. -/
structure Still (stack : List (ReplState M)) (backend : β) (s : Repl β M) : Prop
    extends At stack s where
  backend : s.terminal.backend = backend

/-- What the prompt prints, and goes on after. -/
abbrev IsError (e : Fault) : Prop := e.is_error = true

/-- A command that leaves the stack as it is, whether it fails or not. -/
abbrev Aside (m : Prompt β M Unit) : Prop :=
  ∀ stack, Guards IsError (At stack) (At stack) m fun _ => True

/-- The command failed, and the stack is this one. -/
abbrev Failed (stack : List (ReplState M)) (e : Fault) (s : Repl β M) : Prop :=
  IsError e ∧ At stack s

/-- The command failed, and did no more than print. -/
abbrev Refused (stack : List (ReplState M)) (backend : β) (e : Fault) (s : Repl β M) : Prop :=
  IsError e ∧ Still stack backend s

/-- The prompt after it has printed a line. -/
def Repl.printed (s : Repl β M) (line : String) : Repl β M :=
  { s with terminal := { s.terminal with out := s.terminal.out ++ [.Text line] } }

theorem exec_print_line (line : String) (s : Repl β M) :
    exec (print_line line) s = (.ok (), s.printed line) := rfl

theorem At.printed (h : At stack s) (line : String) : At stack (s.printed line) :=
  ⟨h.holds, h.completer_table⟩

theorem Still.printed (h : Still stack backend s) (line : String) :
    Still stack backend (s.printed line) :=
  ⟨h.toAt.printed line, h.backend⟩

theorem aside_print_line (line : String) : Aside (β := β) (M := M) (print_line line) := by
  intro stack s hs
  exact ⟨hs.printed line, fun _ _ => trivial, by rintro e ⟨⟩⟩

theorem guards_print_line {F : Fault → Prop} (line : String) :
    Guards F (Still stack backend) (Still stack backend) (print_line line) (fun _ => True) := by
  intro s hs
  exact ⟨hs.printed line, fun _ _ => trivial, by rintro e ⟨⟩⟩

/-! ## Arguments -/

section Arguments

variable {α : Type} {I : Repl β M → Prop}

theorem guards_usage (x : Except CliError α) :
    Guards IsError I I (usage (β := β) (M := M) x) (fun a => x = .ok a) := by
  unfold usage
  cases x with
  | ok a => exact guards_pure rfl
  | error e => exact guards_throw rfl

/-- A command that was given wrong ends with an error. -/
theorem fails {error : CliError} {Q : α → Prop} :
    Guards IsError I I (throw (.Usage error) : Prompt β M α) Q :=
  guards_throw rfl

theorem guards_tokens_from {n : Nat} (h : n ≤ tokens.length) :
    Guards IsError I I (tokens_from (β := β) (M := M) n tokens)
      (fun rest => rest = tokens.drop n) := by
  rw [tokens_from, if_pos h]
  exact guards_pure rfl

theorem guards_args_from {n k : Nat} (h : n ≤ tokens.length) :
    Guards IsError I I (args_from (β := β) (M := M) n k tokens)
      (fun args => parse_command_args (tokens.drop n) k = .ok args) := by
  refine (guards_tokens_from h).andThen ?_
  rintro rest rfl
  exact guards_usage _

theorem guards_positional (args : CommandArgs) (i : Nat) :
    Guards IsError I I (positional (β := β) (M := M) args i)
      (fun text => args.positional i = .ok text) :=
  guards_usage _

theorem guards_required (args : CommandArgs) (key : String) :
    Guards IsError I I (required (β := β) (M := M) args key) (fun _ => True) := by
  unfold required
  cases args.flag_text key.toList with
  | some text => exact guards_pure trivial
  | none => exact guards_throw rfl

theorem guards_ask (f : Call β α) :
    Guards IsError (At stack) (At stack) (ask (M := M) f) (fun _ => True) := by
  unfold ask
  have hcall : Guards IsError (At stack) (At stack) (on_terminal (M := M) (call f))
      (fun _ => True) := by
    intro s hs
    exact ⟨⟨hs.holds, hs.completer_table⟩, fun _ _ => trivial, by rintro e ⟨⟩⟩
  refine hcall.andThen ?_
  rintro (err | a) -
  · exact guards_throw rfl
  · exact guards_pure trivial

end Arguments

/-! ## The stack -/

theorem exec_top {state : ReplState M} (h : s.stack = state :: stack) :
    exec (top (β := β)) s = (.ok state, s) := by
  unfold top
  rw [exec_bind_ok (exec_get s), h]
  rfl

theorem exec_sync {state : ReplState M} (h : s.stack = state :: stack) :
    exec (sync_completer_table (β := β)) s
      = (.ok (), { s with completer_table := state.commands }) := by
  unfold sync_completer_table
  rw [exec_bind_ok (exec_top h), exec_modify]

theorem exec_push (state : ReplState M) (s : Repl β M) :
    exec (push state) s = (.ok (), { s with
      stack := state :: s.stack, completer_table := state.commands }) := by
  unfold push
  rw [exec_bind_ok (exec_modify _ s), exec_sync rfl]

theorem exec_pop {popped state : ReplState M} (h : s.stack = popped :: state :: stack) :
    exec (pop (β := β)) s = (.ok (some popped), { s with
      stack := state :: stack, completer_table := state.commands }) := by
  unfold pop
  rw [exec_bind_ok (exec_get s), h]
  rw [exec_bind_ok (exec_modify _ s), exec_bind_ok (exec_sync rfl), exec_pure]

theorem does_unknown {debug : String → String} {Q : Unit → Repl β M → Prop}
    {E : Fault → Repl β M → Prop} {state : ReplState M} (h : s.stack = state :: stack)
    (hE : ∀ e, IsError e → E e s) : Does (unknown debug tokens) s Q E := by
  refine Does.bind ⟨?_, by rw [exec_top h]; rintro e s' ⟨⟩⟩
  rw [exec_top h]
  rintro _ _ ⟨⟩
  exact does_throw (hE _ rfl)

theorem length_of_words {first second : String} (h : words tokens first second) :
    2 ≤ tokens.length := by
  obtain ⟨hlt, -⟩ := List.getElem?_eq_some_iff.mp h.2
  exact hlt

theorem length_of_word {first : String} {n : Nat} (h : tokens[n]? = some first.toList) :
    n + 1 ≤ tokens.length := by
  obtain ⟨hlt, -⟩ := List.getElem?_eq_some_iff.mp h
  exact hlt

/-! ## At the root -/

namespace root

theorem guards_database_mode (mode : Text) :
    Guards IsError (At stack) (At stack) (database_mode lib mode) (fun _ => True) := by
  unfold database_mode
  split_ifs
  · exact guards_pure trivial
  · intro s hs
    rw [exec_bind_ok (exec_get s)]
    cases lib.database_url s.terminal.backend with
    | some url => exact guards_pure trivial s hs
    | none => exact fails s hs
  · exact fails

theorem connect_local_does (hs : At [.Root] s) (h : 2 ≤ tokens.length) :
    Does (connect_local lib tokens) s
      (fun _ s' => ∃ marie, At [.LocalConnected marie, .Root] s') (Failed [.Root]) := by
  refine (guards_args_from h).thenDoes hs (fun args s hs _ => ?_) fun e s hs he => ⟨he, hs⟩
  refine (guards_positional args 0).thenDoes hs (fun mode s hs _ => ?_) fun e s hs he => ⟨he, hs⟩
  refine (guards_database_mode mode).thenDoes hs (fun mode s hs _ => ?_) fun e s hs he => ⟨he, hs⟩
  refine (guards_ask _).thenDoes hs (fun marie s hs _ => ?_) fun e s hs he => ⟨he, hs⟩
  refine (aside_print_line _ _).thenDoes hs (fun _ s hs _ => ?_) fun e s hs he => ⟨he, hs⟩
  refine ⟨?_, by rw [exec_push]; rintro e s' ⟨⟩⟩
  rw [exec_push]
  rintro _ _ ⟨⟩
  exact ⟨marie, by rw [hs.holds], rfl⟩

theorem aside_connect_remote (h : 2 ≤ tokens.length) :
    Aside (β := β) (M := M) (connect_remote tokens) := by
  intro stack
  refine (guards_args_from h).andThen fun args _ => ?_
  exact (guards_positional args 0).andThen fun addr _ => aside_print_line _ stack

theorem dispatch_does (hs : At [.Root] s) :
    Does (dispatch lib tokens) s
      (fun _ s' => At [.Root] s' ∨ ∃ marie, At [.LocalConnected marie, .Root] s')
      (Failed [.Root]) := by
  unfold dispatch
  split_ifs with hconnect hlocal hremote
  · exact (connect_local_does hs (length_of_word hlocal)).mono (fun _ _ h => .inr h) fun _ _ h => h
  · exact (aside_connect_remote (length_of_word hremote) _).does hs (fun _ _ hs _ => .inl hs)
      fun _ _ hs he => ⟨he, hs⟩
  · exact does_throw ⟨rfl, hs⟩
  · exact does_unknown hs.holds fun _ he => ⟨he, hs⟩

end root

/-! ## Connected -/

namespace local_connected

theorem aside_list (f : Call β String) : Aside (M := M) (list f) := fun stack =>
  (guards_ask f).andThen fun rendered _ => aside_print_line rendered stack

theorem aside_delete (f : Text → Call β Unit) (done : String) (h : 2 ≤ tokens.length) :
    Aside (M := M) (delete f done tokens) := by
  intro stack
  refine (guards_args_from h).andThen fun args _ => ?_
  refine (guards_positional args 0).andThen fun id _ => ?_
  exact (guards_ask (f id)).andThen fun _ _ => aside_print_line done stack

theorem aside_create_model (h : 2 ≤ tokens.length) : Aside (create_model lib marie tokens) := by
  intro stack
  refine (guards_args_from h).andThen fun args _ => ?_
  refine (guards_positional args 0).andThen fun id _ => ?_
  refine (guards_positional args 1).andThen fun kind _ => ?_
  by_cases hkind : kind ≠ "openai-compat".toList
  · rw [if_pos hkind]
    exact (fails (Q := fun _ => False)).andThen fun _ h => h.elim
  rw [if_neg hkind]
  refine (guards_required args "base-url").andThen fun base_url _ => ?_
  refine (guards_required args "client-id").andThen fun client_id _ => ?_
  refine (guards_required args "api-key").andThen fun api_key _ => ?_
  refine (guards_required args "model").andThen fun model _ => ?_
  exact (guards_ask _).andThen fun _ _ => aside_print_line _ stack

theorem aside_create_expert (h : 2 ≤ tokens.length) : Aside (create_expert lib marie tokens) := by
  intro stack
  refine (guards_args_from h).andThen fun args _ => ?_
  refine (guards_positional args 0).andThen fun id _ => ?_
  refine (guards_required args "model").andThen fun model _ => ?_
  refine (guards_required args "prompt").andThen fun prompt _ => ?_
  exact (guards_ask _).andThen fun _ _ => aside_print_line _ stack

theorem aside_set_expert (h : 2 ≤ tokens.length) : Aside (set_expert lib marie tokens) := by
  intro stack
  refine (guards_args_from h).andThen fun args _ => ?_
  refine (guards_positional args 0).andThen fun id _ => ?_
  refine (guards_ask _).andThen fun found _ => ?_
  cases found with
  | none => exact (fails (Q := fun _ => False)).andThen fun _ h => h.elim
  | some expert => exact (guards_ask _).andThen fun _ _ => aside_print_line _ stack

theorem guards_initial_channels (args : CommandArgs) :
    Guards IsError (At stack) (At stack) (initial_channels (M := M) lib args) (fun _ => True) := by
  apply guards_foldlM
  intro initial flag _
  exact (guards_usage _).andThen fun value _ => guards_pure trivial

/-- The states of a prompt that is connected. -/
abbrev connected (marie : M) : List (ReplState M) := [.LocalConnected marie, .Root]

/-- A session is put on the stack when marie has made it. -/
theorem session_does {args : NewSessionArgs} (hs : At (connected marie) s) :
    Does (do
        let id ← ask (lib.create_session marie args)
        print_line ("session créée: " ++ id.to_string)
        push (.ExecutingSession marie (.Live id))) s
      (fun _ s' => ∃ kind, At (.ExecutingSession marie kind :: connected marie) s')
      (Failed (connected marie)) := by
  refine (guards_ask _).thenDoes hs (fun id s hs _ => ?_) fun e s hs he => ⟨he, hs⟩
  refine (aside_print_line _ _).thenDoes hs (fun _ s hs _ => ?_) fun e s hs he => ⟨he, hs⟩
  refine ⟨?_, by rw [exec_push]; rintro e s' ⟨⟩⟩
  rw [exec_push]
  rintro _ _ ⟨⟩
  exact ⟨.Live id, by rw [hs.holds], rfl⟩

theorem create_session_does (hs : At (connected marie) s) :
    Does (create_session lib marie tokens) s
      (fun _ s' => ∃ kind, At (.ExecutingSession marie kind :: connected marie) s')
      (Failed (connected marie)) := by
  unfold create_session
  split_ifs with hshell hgraph hexpert
  · refine (guards_args_from (length_of_word hshell)).thenDoes hs (fun args s hs _ => ?_)
      fun e s hs he => ⟨he, hs⟩
    refine (guards_positional args 0).thenDoes hs (fun expert_id s hs _ => ?_)
      fun e s hs he => ⟨he, hs⟩
    exact session_does hs
  · refine (guards_args_from (length_of_word hgraph.2)).thenDoes hs (fun args s hs _ => ?_)
      fun e s hs he => ⟨he, hs⟩
    refine (guards_positional args 0).thenDoes hs (fun graph_id s hs _ => ?_)
      fun e s hs he => ⟨he, hs⟩
    refine (guards_initial_channels args).thenDoes hs (fun initial s hs _ => ?_)
      fun e s hs he => ⟨he, hs⟩
    exact session_does hs
  · refine (guards_args_from (length_of_word hexpert.2)).thenDoes hs (fun args s hs _ => ?_)
      fun e s hs he => ⟨he, hs⟩
    refine (guards_positional args 0).thenDoes hs (fun expert_id s hs _ => ?_)
      fun e s hs he => ⟨he, hs⟩
    refine (guards_positional args 1).thenDoes hs (fun task s hs _ => ?_)
      fun e s hs he => ⟨he, hs⟩
    refine ⟨?_, by rw [exec_push]; rintro e s' ⟨⟩⟩
    rw [exec_push]
    rintro _ _ ⟨⟩
    exact ⟨_, by rw [hs.holds], rfl⟩
  · exact does_throw ⟨rfl, hs⟩

/-- `delete session` of a text that the parser of ids panics at. -/
def DeletesUnreadable (tokens : List Text) : Prop :=
  ∃ args text, parse_command_args (tokens.drop 2) 1 = .ok args ∧ args.positional 0 = .ok text ∧
    ID.parse (String.ofList text) = .error .Panic

theorem session_id_does (hs : At stack s) (text : Text) :
    Does (session_id text) s (fun _ s' => At stack s') fun e s' =>
      Failed stack e s' ∨ e = .Panic ∧ ID.parse (String.ofList text) = .error .Panic := by
  unfold session_id
  cases hparse : ID.parse (String.ofList text) with
  | ok id => exact does_pure hs
  | error err =>
    cases err with
    | Panic => exact does_throw (.inr ⟨rfl, rfl⟩)
    | Err message => exact does_throw (.inl ⟨rfl, hs⟩)
    | InvalidType => exact does_throw (.inl ⟨rfl, hs⟩)

theorem delete_session_does (hs : At (connected marie) s) (h : 2 ≤ tokens.length) :
    Does (delete_session lib marie tokens) s (fun _ s' => At (connected marie) s')
      fun e s' => Failed (connected marie) e s' ∨ e = .Panic ∧ DeletesUnreadable tokens := by
  refine (guards_args_from h).thenDoes hs (fun args s hs hargs => ?_) fun e s hs he => .inl ⟨he, hs⟩
  refine (guards_positional args 0).thenDoes hs (fun text s hs htext => ?_)
    fun e s hs he => .inl ⟨he, hs⟩
  refine ((session_id_does hs text).mono (fun id s hs => ?_) fun e s he => ?_).bind
  · refine (guards_ask _).thenDoes hs (fun _ s hs _ => ?_) fun e s hs he => .inl ⟨he, hs⟩
    exact (aside_print_line _ _).does hs (fun _ s hs _ => hs) fun e s hs he => .inl ⟨he, hs⟩
  · rcases he with he | ⟨he, hparse⟩
    · exact .inl he
    · exact .inr ⟨he, args, text, hargs, htext, hparse⟩

theorem delete_session_panics (h : 2 ≤ tokens.length) (hbad : DeletesUnreadable tokens) :
    exec (delete_session lib marie tokens) s = (.error .Panic, s) := by
  obtain ⟨args, text, hargs, htext, hparse⟩ := hbad
  have harguments : exec (args_from (β := β) (M := M) 2 1 tokens) s = (.ok args, s) := by
    simp [args_from, tokens_from, usage, h, hargs]
  have hpositional : exec (positional (β := β) (M := M) args 0) s = (.ok text, s) := by
    simp [positional, usage, htext]
  have hid : exec (session_id (β := β) (M := M) text) s = (.error .Panic, s) := by
    simp [session_id, hparse]
  unfold delete_session
  rw [exec_bind_ok harguments, exec_bind_ok hpositional, exec_bind_error hid]

/-- What a command of a connection leaves when it ends well. -/
inductive Moved (marie : M) (backend : β) (s : Repl β M) : Prop
  | stays (h : At (connected marie) s)
  | runs (kind : SessionKind) (h : At (.ExecutingSession marie kind :: connected marie) s)
  | edits (spec : GraphSpec) (h : Still (.EditingGraph marie spec :: connected marie) backend s)
  | leaves (h : At [.Root] s)

theorem create_graph_does (hs : At (connected marie) s) (h : 2 ≤ tokens.length) :
    Does (create_graph marie tokens) s (fun _ s' => Moved marie s.terminal.backend s')
      (Failed (connected marie)) := by
  have hstill : Still (connected marie) s.terminal.backend s := ⟨hs, rfl⟩
  refine (guards_args_from h).thenDoes hstill (fun args s' hs' _ => ?_)
    fun e s' hs' he => ⟨he, hs'.toAt⟩
  refine (guards_positional args 0).thenDoes hs' (fun id s' hs' _ => ?_)
    fun e s' hs' he => ⟨he, hs'.toAt⟩
  refine ⟨?_, by rw [exec_push]; rintro e s' ⟨⟩⟩
  rw [exec_push]
  rintro _ _ ⟨⟩
  exact .edits _ ⟨⟨by rw [hs'.holds], rfl⟩, hs'.backend⟩

theorem disconnect_does (hs : At (connected marie) s) :
    Does (do let _ ← pop; pure ()) s (fun _ s' => Moved marie s.terminal.backend s')
      (Failed (connected marie)) := by
  have hpop := exec_pop hs.holds
  refine ⟨?_, by rw [exec_bind_ok hpop]; rintro e s' ⟨⟩⟩
  rw [exec_bind_ok hpop]
  rintro _ _ ⟨⟩
  exact .leaves ⟨rfl, rfl⟩

theorem dispatch_does (hs : At (connected marie) s) :
    Does (dispatch lib tokens) s (fun _ s' => Moved marie s.terminal.backend s')
      fun e s' => Failed (connected marie) e s' ∨
        e = .Panic ∧ words tokens "delete" "session" ∧ DeletesUnreadable tokens := by
  have haside : ∀ m : Prompt β M Unit, Aside m → Does m s
      (fun _ s' => Moved marie s.terminal.backend s') fun e s' =>
        Failed (connected marie) e s' ∨
          e = .Panic ∧ words tokens "delete" "session" ∧ DeletesUnreadable tokens :=
    fun m hm => (hm _).does hs (fun _ s' hs' _ => .stays hs') fun e s' hs' he => .inl ⟨he, hs'⟩
  have htop : Does (top (β := β)) s (fun found s' => found = .LocalConnected marie ∧ s' = s)
      fun e s' => Failed (connected marie) e s' ∨
        e = .Panic ∧ words tokens "delete" "session" ∧ DeletesUnreadable tokens := by
    refine ⟨?_, by rw [exec_top hs.holds]; rintro e s' ⟨⟩⟩
    rw [exec_top hs.holds]
    rintro _ _ ⟨⟩
    exact ⟨rfl, rfl⟩
  refine (htop.mono ?_ fun _ _ h => h).bind
  rintro _ _ ⟨rfl, rfl⟩
  dsimp only
  refine does_ite (fun h => haside _ (aside_list _)) fun _ => ?_
  refine does_ite (fun h => ?_) fun _ => ?_
  · exact (create_session_does hs).mono (fun _ _ ⟨kind, h⟩ => .runs kind h) fun _ _ h => .inl h
  refine does_ite (fun h => ?_) fun _ => ?_
  · refine (delete_session_does hs (length_of_words h)).mono (fun _ _ h => .stays h) ?_
    rintro e s' (he | ⟨he, hbad⟩)
    · exact .inl he
    · exact .inr ⟨he, h, hbad⟩
  refine does_ite (fun h => haside _ (aside_list _)) fun _ => ?_
  refine does_ite (fun h => haside _ (aside_create_model (length_of_words h))) fun _ => ?_
  refine does_ite (fun h => haside _ (aside_delete _ _ (length_of_words h))) fun _ => ?_
  refine does_ite (fun h => haside _ (aside_list _)) fun _ => ?_
  refine does_ite (fun h => haside _ (aside_create_expert (length_of_words h))) fun _ => ?_
  refine does_ite (fun h => haside _ (aside_delete _ _ (length_of_words h))) fun _ => ?_
  refine does_ite (fun h => haside _ (aside_set_expert (length_of_words h))) fun _ => ?_
  refine does_ite (fun h => haside _ (aside_list _)) fun _ => ?_
  refine does_ite (fun h => haside _ (aside_list _)) fun _ => ?_
  refine does_ite (fun h => ?_) fun _ => ?_
  · exact (create_graph_does hs (length_of_words h)).mono (fun _ _ h => h) fun _ _ h => .inl h
  refine does_ite (fun h => ?_) fun _ => ?_
  · exact (disconnect_does hs).mono (fun _ _ h => h) fun _ _ h => .inl h
  exact does_unknown hs.holds fun _ he => .inl ⟨he, hs⟩

end local_connected

/-! ## A graph -/

namespace editing_graph

variable {spec : GraphSpec} {under : ReplState M}

theorem exec_change (f : GraphSpec → GraphSpec) (h : s.stack = .EditingGraph marie spec :: stack) :
    exec (change (β := β) f) s
      = (.ok (), { s with stack := .EditingGraph marie (f spec) :: stack }) := by
  unfold change
  rw [exec_bind_ok (exec_get s), h]
  rfl

/-- What a command of a graph leaves when it ends well. -/
inductive Moved (marie : M) (spec : GraphSpec) (stack : List (ReplState M)) (backend : β)
    (s : Repl β M) : Prop
  | stays (spec' : GraphSpec) (h : Still (.EditingGraph marie spec' :: stack) backend s)
  | edits (node_id : NodeId) (node : NodeSpec)
      (h : Still (.EditingNode node_id node :: .EditingGraph marie spec :: stack) backend s)
  | saves (h : At stack s)

section

variable (hs : Still (.EditingGraph marie spec :: stack) backend s)
include hs

theorem change_does (f : GraphSpec → GraphSpec) {E : Fault → Repl β M → Prop} :
    Does (change f) s (fun _ s' => Moved marie spec stack backend s') E := by
  refine ⟨?_, by rw [exec_change f hs.holds]; rintro e s' ⟨⟩⟩
  rw [exec_change f hs.holds]
  rintro _ _ ⟨⟩
  exact .stays (f spec) ⟨⟨rfl, hs.completer_table⟩, hs.backend⟩

theorem set_entry_does (h : 2 ≤ tokens.length) :
    Does (set_entry tokens) s (fun _ s' => Moved marie spec stack backend s')
      (Refused (.EditingGraph marie spec :: stack) backend) := by
  refine (guards_args_from h).thenDoes hs (fun args s hs _ => ?_)
    fun e s hs he => ⟨he, hs⟩
  refine (guards_positional args 0).thenDoes hs (fun node_id s hs _ => ?_)
    fun e s hs he => ⟨he, hs⟩
  exact change_does hs _

theorem list_nodes_does :
    Does (list_nodes lib) s (fun _ s' => Moved marie spec stack backend s')
      (Refused (.EditingGraph marie spec :: stack) backend) := by
  unfold list_nodes
  refine ⟨?_, by rw [exec_bind_ok (exec_top hs.holds)]; rintro e s' ⟨⟩⟩
  rw [exec_bind_ok (exec_top hs.holds)]
  rintro _ _ ⟨⟩
  exact .stays spec (hs.printed _)

theorem create_node_does (h : 2 ≤ tokens.length) :
    Does (create_node tokens) s (fun _ s' => Moved marie spec stack backend s')
      (Refused (.EditingGraph marie spec :: stack) backend) := by
  refine (guards_tokens_from h).thenDoes hs (fun rest s hs _ => ?_)
    fun e s hs he => ⟨he, hs⟩
  refine (guards_usage _).thenDoes hs (fun created s hs _ => ?_)
    fun e s hs he => ⟨he, hs⟩
  refine ⟨?_, by rw [exec_push]; rintro e s' ⟨⟩⟩
  rw [exec_push]
  rintro _ _ ⟨⟩
  exact .edits _ _ ⟨⟨by rw [hs.holds], rfl⟩, hs.backend⟩

theorem connect_does (h : 1 ≤ tokens.length) :
    Does (connect tokens) s (fun _ s' => Moved marie spec stack backend s')
      (Refused (.EditingGraph marie spec :: stack) backend) := by
  refine (guards_args_from h).thenDoes hs (fun args s hs _ => ?_)
    fun e s hs he => ⟨he, hs⟩
  refine (guards_positional args 0).thenDoes hs (fun a s hs _ => ?_)
    fun e s hs he => ⟨he, hs⟩
  refine (guards_positional args 1).thenDoes hs (fun b s hs _ => ?_)
    fun e s hs he => ⟨he, hs⟩
  exact change_does hs _

theorem disconnect_does (h : 1 ≤ tokens.length) :
    Does (disconnect tokens) s (fun _ s' => Moved marie spec stack backend s')
      (Refused (.EditingGraph marie spec :: stack) backend) := by
  refine (guards_args_from h).thenDoes hs (fun args s hs _ => ?_)
    fun e s hs he => ⟨he, hs⟩
  refine (guards_positional args 0).thenDoes hs (fun a s hs _ => ?_)
    fun e s hs he => ⟨he, hs⟩
  exact change_does hs _

end

/-- The graph is no longer on the stack when marie is called. -/
theorem save_does (hs : At (.EditingGraph marie spec :: under :: stack) s) :
    Does (save lib) s (fun _ s' => At (under :: stack) s') (Failed (under :: stack)) := by
  unfold save
  have hpop := exec_pop hs.holds
  refine Does.bind ⟨?_, by rw [hpop]; rintro e s' ⟨⟩⟩
  rw [hpop]
  rintro _ _ ⟨⟩
  have hs' : At (under :: stack) { s with
      stack := under :: stack, completer_table := under.commands } := ⟨rfl, rfl⟩
  refine (guards_ask _).thenDoes hs' (fun found s hs _ => ?_) fun e s hs he => ⟨he, hs⟩
  cases found
  · refine (guards_ask _).thenDoes hs (fun _ s hs _ => ?_) fun e s hs he => ⟨he, hs⟩
    exact (aside_print_line _ _).does hs (fun _ s hs _ => hs) fun e s hs he => ⟨he, hs⟩
  · refine (guards_ask _).thenDoes hs (fun _ s hs _ => ?_) fun e s hs he => ⟨he, hs⟩
    exact (aside_print_line _ _).does hs (fun _ s hs _ => hs) fun e s hs he => ⟨he, hs⟩

/-- A graph that is saved is off the stack, even where marie fails. -/
theorem dispatch_does
    (hs : Still (.EditingGraph marie spec :: under :: stack) backend s) :
    Does (dispatch lib tokens) s (fun _ s' => Moved marie spec (under :: stack) backend s')
      fun e s' => Refused (.EditingGraph marie spec :: under :: stack) backend e s' ∧
          tokens[0]? ≠ some "save".toList ∨
        Failed (under :: stack) e s' ∧ tokens[0]? = some "save".toList := by
  unfold dispatch
  refine does_ite (fun h => ?_) fun _ => ?_
  · exact (set_entry_does hs (length_of_words h)).mono (fun _ _ h => h) fun _ _ he =>
      .inl ⟨he, by rw [h.1]; decide⟩
  refine does_ite (fun h => ?_) fun _ => ?_
  · exact (list_nodes_does hs).mono (fun _ _ h => h) fun _ _ he => .inl ⟨he, by rw [h.1]; decide⟩
  refine does_ite (fun h => ?_) fun _ => ?_
  · exact (create_node_does hs (length_of_words h)).mono (fun _ _ h => h) fun _ _ he =>
      .inl ⟨he, by rw [h.1]; decide⟩
  refine does_ite (fun h => ?_) fun _ => ?_
  · exact (connect_does hs (length_of_word h)).mono (fun _ _ h => h) fun _ _ he =>
      .inl ⟨he, by rw [h]; decide⟩
  refine does_ite (fun h => ?_) fun _ => ?_
  · exact (disconnect_does hs (length_of_word h)).mono (fun _ _ h => h) fun _ _ he =>
      .inl ⟨he, by rw [h]; decide⟩
  refine does_ite (fun h => ?_) fun hsave => ?_
  · exact (save_does hs.toAt).mono (fun _ _ h => .saves h) fun _ _ he => .inr ⟨he, h⟩
  exact does_unknown hs.holds fun _ he => .inl ⟨⟨he, hs⟩, hsave⟩

end editing_graph

/-! ## A node -/

namespace editing_node

variable {node_id : NodeId} {node : NodeSpec} {spec : GraphSpec}

/-- What a command of a node leaves when it ends well. -/
inductive Moved (node_id : NodeId) (node : NodeSpec) (marie : M) (spec : GraphSpec)
    (stack : List (ReplState M)) (backend : β) (s : Repl β M) : Prop
  | stays (node' : NodeSpec)
      (h : Still (.EditingNode node_id node' :: .EditingGraph marie spec :: stack) backend s)
  | saves (h : Still (.EditingGraph marie { spec with nodes := spec.nodes.insert (node_id, node) }
      :: stack) backend s)

section

variable (hs : Still (.EditingNode node_id node :: .EditingGraph marie spec :: stack) backend s)
include hs

/-- A command that is refused leaves the node. -/
theorem edit_does {command : List Text → Edit Unit} (h : 2 ≤ tokens.length)
    (hrefused : ∀ rest e, ((command rest).run.run node).1 = .error e →
      ((command rest).run.run node).2 = node) :
    Does (edit command tokens) s (fun _ s' => Moved node_id node marie spec stack backend s')
      (Refused (.EditingNode node_id node :: .EditingGraph marie spec :: stack) backend) := by
  refine (guards_tokens_from h).thenDoes hs (fun rest s hs _ => ?_) fun e s hs he => ⟨he, hs⟩
  refine Does.bind ⟨?_, by rintro e s' ⟨⟩⟩
  rintro _ _ ⟨⟩
  rw [hs.holds]
  refine Does.bind (does_modify ?_)
  have hstill : ∀ node', Still (.EditingNode node_id node' :: .EditingGraph marie spec :: stack)
      backend { s with stack := .EditingNode node_id node' :: .EditingGraph marie spec :: stack } :=
    fun node' => ⟨⟨rfl, hs.completer_table⟩, hs.backend⟩
  unfold usage
  cases hresult : ((command rest).run.run node).1 with
  | ok _ => exact does_pure (.stays _ (hstill _))
  | error e =>
    rw [hrefused rest e hresult]
    exact does_throw ⟨rfl, hstill node⟩

/-- The graph under the node is the one that it is put in. -/
theorem save_does :
    Does (save (β := β)) s (fun _ s' => Moved node_id node marie spec stack backend s')
      (Refused (.EditingNode node_id node :: .EditingGraph marie spec :: stack) backend) := by
  unfold save
  have hpop := exec_pop hs.holds
  refine Does.bind ⟨?_, by rw [hpop]; rintro e s' ⟨⟩⟩
  rw [hpop]
  rintro _ s' hs'
  cases hs'
  refine Does.bind ⟨?_, by rw [editing_graph.exec_change _ rfl]; rintro e s' ⟨⟩⟩
  rw [editing_graph.exec_change _ rfl]
  rintro _ _ ⟨⟩
  refine ⟨?_, by rintro e s' ⟨⟩⟩
  rintro _ _ ⟨⟩
  exact .saves ⟨⟨rfl, rfl⟩, hs.backend⟩

end

theorem dispatch_does
    (hs : Still (.EditingNode node_id node :: .EditingGraph marie spec :: stack) backend s) :
    Does (dispatch lib tokens) s (fun _ s' => Moved node_id node marie spec stack backend s')
      (Refused (.EditingNode node_id node :: .EditingGraph marie spec :: stack) backend) := by
  unfold dispatch
  refine does_ite (fun h => ?_) fun _ => ?_
  · exact edit_does hs (length_of_words h) fun rest _ he =>
      @run_of_error lib.parse_f64 (.add_channel rest) node _ he
  refine does_ite (fun h => ?_) fun _ => ?_
  · exact edit_does hs (length_of_words h) fun rest _ he =>
      @run_of_error lib.parse_f64 (.set_channel rest) node _ he
  refine does_ite (fun _ => save_does hs) fun _ => ?_
  exact does_unknown hs.holds fun _ he => ⟨he, hs⟩

end editing_node

end marie.cli
