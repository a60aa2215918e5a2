-- A turn of the prompt: what it leaves of the stack, and what was read when it is the
-- last one.
import Marie.Cli.ReplMoves

namespace marie.cli

open Program Maps Texts session

variable {β M : Type} {lib : LocalMarie β M} {s s' : Repl β M} {stack : List (ReplState M)}
  {backend : β} {tokens : List Text} {marie : M}

/-! ## A session only waits -/

section Waits

/-- The only thing that stops a session is that nothing comes. -/
abbrev Waits {α : Type} (m : Program Fault (Terminal β) α) : Prop :=
  Guards (· = .Waiting) (fun _ => True) (fun _ => True) m fun _ => True

theorem waits_pure {α : Type} (a : α) : Waits (β := β) (pure a) := guards_pure trivial

theorem waits_modify (f : Terminal β → Terminal β) : Waits (modify f) := guards_modify fun _ h => h

theorem waits_asks {α : Type} (f : Terminal β → α) : Waits (Program.asks f) :=
  guards_asks fun _ _ => trivial

theorem waits_print (output : Output) : Waits (β := β) (print output) :=
  waits_modify _

theorem waits_call {α : Type} (f : Call β α) : Waits (call f) := by
  intro t _
  exact ⟨trivial, fun _ _ => trivial, by rintro e ⟨⟩⟩

theorem waits_read : Waits (β := β) read_with_live_events := by
  intro t _
  refine ⟨trivial, fun _ _ => trivial, ?_⟩
  unfold read_with_live_events
  cases h : t.reads with
  | nil => simp only [exec, ExceptT.run_mk, StateT.run, h]; rintro e ⟨⟩; rfl
  | cons typed reads => simp only [exec, ExceptT.run_mk, StateT.run, h]; rintro e ⟨⟩

theorem waits_read_lines (fuel : Nat) : Waits (β := β) (read_lines fuel) := by
  induction fuel with
  | zero => exact guards_throw rfl
  | succ fuel ih =>
    refine waits_read.andThen fun line _ => ?_
    split_ifs
    · exact waits_pure []
    · exact ih.andThen fun lines _ => waits_pure _

theorem waits_ask_question (q : Question) : Waits (β := β) (ask_question q) := by
  refine (waits_print _).andThen fun _ _ => ?_
  cases q.kind with
  | LongText =>
    refine (waits_asks _).andThen fun fuel _ => ?_
    exact (waits_read_lines fuel).andThen fun lines _ => waits_pure _
  | ShortText | FileUpload _ | Checkboxes _ | Select _ | Radio _ =>
    exact waits_read.andThen fun raw _ => waits_pure _

theorem waits_ask_questions (questions : List Question) (answers : Entries String Answer) :
    Waits (β := β) (ask_questions questions answers) := by
  induction questions generalizing answers with
  | nil => exact waits_pure answers
  | cons q questions ih => exact (waits_ask_question q).andThen fun answer _ => ih _

theorem waits_answer_hitl (session_id id : ID) (hitl : Hitl) :
    Waits (answer_hitl lib marie session_id id hitl) := by
  have hask : Waits (β := β) (ask_hitl hitl) := by
    cases hitl with
    | Text => exact waits_read.andThen fun text _ => waits_pure _
    | Questions questions => exact waits_ask_questions questions _
  refine hask.andThen fun answers _ => (waits_print _).andThen fun _ _ => ?_
  refine (waits_call _).andThen fun r _ => ?_
  cases r with
  | ok _ => exact waits_pure ()
  | error err => exact waits_print _

theorem waits_next_event : Waits (β := β) next_event := by
  intro t _
  refine ⟨trivial, fun _ _ => trivial, ?_⟩
  unfold next_event
  cases h : t.events with
  | nil =>
    simp only [exec, ExceptT.run_mk, StateT.run, h]
    cases t.closed
    · rintro e ⟨⟩; rfl
    · rintro e ⟨⟩
  | cons event events => simp only [exec, ExceptT.run_mk, StateT.run, h]; rintro e ⟨⟩

theorem waits_follow (session_id : ID) (fuel : Nat) : Waits (follow lib marie session_id fuel) := by
  induction fuel with
  | zero => exact guards_throw rfl
  | succ fuel ih =>
    refine waits_next_event.andThen fun event _ => ?_
    cases event with
    | none => exact waits_pure ()
    | some event =>
      cases event with
      | LogCreated log | LogUpdated log => exact (waits_print _).andThen fun _ _ => ih
      | HitlRequested id hitl => exact (waits_answer_hitl session_id id hitl).andThen fun _ _ => ih
      | HitlAnswered => exact ih
      | SessionStatusUpdated status =>
        dsimp only
        split_ifs
        · exact waits_print _
        · exact ih

theorem waits_run_session (kind : SessionKind) : Waits (run_session lib marie kind) := by
  cases kind with
  | Consult expert_id task =>
    refine (waits_print _).andThen fun _ _ => (waits_call _).andThen fun r _ => ?_
    cases r with
    | ok text => exact waits_print _
    | error err => exact waits_print _
  | Live session_id =>
    refine (waits_call _).andThen fun r _ => ?_
    cases r with
    | error err => exact waits_print _
    | ok view =>
      refine (guards_forM _ fun log _ => waits_print _).andThen fun _ _ => ?_
      refine (waits_modify _).andThen fun _ _ => ?_
      refine (guards_forM _ fun pending _ => waits_answer_hitl _ _ _).andThen fun _ _ => ?_
      split_ifs
      · exact waits_print _
      · exact (waits_asks _).andThen fun fuel _ => waits_follow session_id fuel

end Waits

/-! ## A turn -/

namespace Repl

open local_connected (connected Moved DeletesUnreadable)

/-- The stacks of the prompt. -/
inductive Standing : List (ReplState M) → Prop
  | root : Standing [.Root]
  | connected (marie : M) : Standing (connected marie)
  | session (marie : M) (kind : SessionKind) :
    Standing (.ExecutingSession marie kind :: connected marie)
  | graph (marie : M) (spec : GraphSpec) : Standing (.EditingGraph marie spec :: connected marie)
  | node (marie : M) (spec : GraphSpec) (node_id : NodeId) (node : NodeSpec) :
    Standing (.EditingNode node_id node :: .EditingGraph marie spec :: connected marie)

/-- A draft: what is edited, and not yet saved. -/
def Draft : ReplState M → Prop
  | .EditingGraph _ _ | .EditingNode _ _ => True
  | _ => False

instance : DecidablePred (Draft (M := M))
  | .EditingGraph _ _ | .EditingNode _ _ => isTrue trivial
  | .Root | .LocalConnected _ | .ExecutingSession _ _ => isFalse id

/-- What a turn leaves of a stack. -/
inductive Turned (backend : β) (s : Repl β M) : List (ReplState M) → Prop
  | prints {stack : List (ReplState M)} (h : Still stack backend s) : Turned backend s stack
  | root (h : At [.Root] s) : Turned backend s [.Root]
  | connects (marie : M) (h : At (connected marie) s) : Turned backend s [.Root]
  | connected {marie : M} (h : Moved marie backend s) : Turned backend s (connected marie)
  | session {marie : M} {kind : SessionKind} (h : At (connected marie) s) :
    Turned backend s (.ExecutingSession marie kind :: connected marie)
  | graph {marie : M} {spec : GraphSpec}
      (h : editing_graph.Moved marie spec (connected marie) backend s) :
    Turned backend s (.EditingGraph marie spec :: connected marie)
  | node {marie : M} {spec : GraphSpec} {node_id : NodeId} {node : NodeSpec}
      (h : editing_node.Moved node_id node marie spec (connected marie) backend s) :
    Turned backend s (.EditingNode node_id node :: .EditingGraph marie spec :: connected marie)
  | drops {state : ReplState M} {stack : List (ReplState M)} (hdraft : Draft state)
      (h : Still stack backend s) :
    Turned backend s (state :: stack)

/-- A line with these tokens is read. -/
def Asks (read : Read) (tokens : List Text) : Prop :=
  ∃ line, read = .Line line ∧ tokenize (trim line) = .ok tokens

/-- The session to delete is named by a text that the parser of ids panics at. -/
def Panics (stack : List (ReplState M)) (read : Read) : Prop :=
  ∃ marie tokens, stack = connected marie ∧ Asks read tokens ∧
    words tokens "delete" "session" ∧ DeletesUnreadable tokens

/-- The input fails, or ends at the root, or the prompt is left from there. -/
def Leaves (stack : List (ReplState M)) (read : Read) : Prop :=
  (∃ err, read = .Failed err) ∨
    stack = [.Root] ∧ (read = .Eof ∨ ∃ tokens, Asks read tokens ∧ tokens.head? = some "exit".toList)

/-- Why what was read ends the prompt. -/
inductive Ends (stack : List (ReplState M)) (read : Read) : Fault → Prop
  | panics (h : Panics stack read) : Ends stack read .Panic
  | leaves (h : Leaves stack read) : Ends stack read .Over

/-- The state at the top is a session. -/
def Runs (stack : List (ReplState M)) : Prop :=
  ∃ marie kind, stack = .ExecutingSession marie kind :: connected marie

/-- Why a turn ends the prompt. -/
inductive Stops (s : Repl β M) (e : Fault) : Prop
  | waits (h : e = .Waiting)
  | ends (typed : Typed) (reads : List Typed) (hreads : s.terminal.reads = typed :: reads)
      (hruns : ¬ Runs s.stack) (h : Ends s.stack typed.read e)

/-- An error of a command is printed. -/
theorem or_print_does {m : Prompt β M Unit} {Q R : Repl β M → Prop} {E : Fault → Repl β M → Prop}
    {G : Fault → Prop} (hm : Does m s (fun _ => Q) E) (hQ : ∀ s, Q s → R s)
    (hE : ∀ e s, E e s → IsError e →
      R (s.printed ("erreur: " ++ e.message)))
    (hG : ∀ e s, E e s → ¬ IsError e → G e) :
    Does (or_print m) s (fun _ => R) fun e _ => G e := by
  have hrun := exec_tryCatch m
    (fun e => if e.is_error then print_line ("erreur: " ++ e.message) else throw e) s
  rcases hr : exec m s with ⟨r, s1⟩
  rw [hr] at hrun
  cases r with
  | ok a =>
    refine ⟨fun b s' h => ?_, fun e s' h => ?_⟩
    · cases hrun.symm.trans h
      exact hQ _ (hm.1 _ _ hr)
    · cases hrun.symm.trans h
  | error e =>
    by_cases he : IsError e
    · simp only [if_pos he, exec_print_line] at hrun
      refine ⟨fun b s' h => ?_, fun e' s' h => ?_⟩
      · cases hrun.symm.trans h
        exact hE e _ (hm.2 _ _ hr) he
      · cases hrun.symm.trans h
    · simp only [if_neg he, exec_throw] at hrun
      refine ⟨fun b s' h => ?_, fun e' s' h => ?_⟩
      · cases hrun.symm.trans h
      · cases hrun.symm.trans h
        exact hG e _ (hm.2 _ _ hr) he

section Lines

variable {state : ReplState M} {R : Repl β M → Prop} {G : Fault → Prop}

theorem prints_help (hs : Still (state :: stack) backend s) :
    Does print_help s (fun _ => Still (state :: stack) backend) fun e _ => G e := by
  unfold print_help
  refine Does.bind ⟨?_, by rw [exec_top hs.holds]; rintro e s' ⟨⟩⟩
  rw [exec_top hs.holds]
  rintro _ _ ⟨⟩
  exact (guards_forM _ fun cmd _ => guards_print_line (F := G) _).does hs (fun _ _ h _ => h)
    fun _ _ _ he => he

/-- A line does what its tokens ask for; the rest only prints. -/
theorem handle_line_does {line : Text} (hs : Still (state :: stack) backend s)
    (hR : ∀ s', Still (state :: stack) backend s' → R s')
    (hdispatch : ∀ tokens, tokenize (trim line) = .ok tokens →
      Does (or_print (dispatch lib tokens)) s (fun _ => R) fun e _ => G e)
    (hexit : ∀ tokens, tokenize (trim line) = .ok tokens → tokens.head? = some "exit".toList →
      state = .Root → G .Over) :
    Does (handle_line lib line) s (fun _ => R) fun e _ => G e := by
  unfold handle_line
  refine does_ite (fun _ => does_pure (hR _ hs)) fun _ => ?_
  cases htokens : tokenize (trim line) with
  | error err =>
    refine ⟨?_, by rintro e s' ⟨⟩⟩
    rintro _ _ ⟨⟩
    exact hR _ (hs.printed _)
  | ok tokens =>
    refine does_ite (fun _ => (prints_help hs).mono (fun _ s' h => hR s' h) fun _ _ h => h)
      fun _ => ?_
    refine Does.bind ⟨?_, by rw [exec_top hs.holds]; rintro e s' ⟨⟩⟩
    rw [exec_top hs.holds]
    rintro _ _ ⟨⟩
    refine does_ite (fun hends => ?_) fun _ => hdispatch tokens htokens
    refine does_throw (hexit tokens htokens hends.1 ?_)
    cases state with
    | Root => rfl
    | LocalConnected _ | ExecutingSession _ _ | EditingGraph _ _ | EditingNode _ _ => cases hends.2

end Lines

/-- The command goes to the state at the top. -/
theorem does_dispatch {Q : Unit → Repl β M → Prop} {E : Fault → Repl β M → Prop}
    {state : ReplState M} (h : s.stack = state :: stack)
    (hm : Does (match state with
      | .Root => root.dispatch lib tokens
      | .LocalConnected _ => local_connected.dispatch lib tokens
      | .EditingGraph _ _ => editing_graph.dispatch lib tokens
      | .EditingNode _ _ => editing_node.dispatch lib tokens
      | .ExecutingSession _ _ => throw .Panic) s Q E) : Does (dispatch lib tokens) s Q E := by
  refine Does.bind ⟨?_, by rw [exec_top h]; rintro e s' ⟨⟩⟩
  rw [exec_top h]
  rintro _ _ ⟨⟩
  exact hm

/-- A command of a stack that stands. -/
theorem command_does (lib : LocalMarie β M) (h : Standing s.stack) (hs : At s.stack s)
    (hnot : ¬ Runs s.stack) :
    Does (or_print (dispatch lib tokens)) s (fun _ s' => Turned s.terminal.backend s' s.stack)
      fun e _ => e = .Panic ∧
      ∃ marie, s.stack = connected marie ∧ words tokens "delete" "session" ∧
        DeletesUnreadable tokens := by
  cases hstack : s.stack with
  | nil => rw [hstack] at h; cases h
  | cons state stack =>
  rw [hstack] at h hs hnot
  cases h with
  | root =>
    refine or_print_does (does_dispatch hstack (root.dispatch_does hs)) ?_ ?_ ?_
    · rintro s' (hs' | ⟨marie, hs'⟩)
      · exact .root hs'
      · exact .connects marie hs'
    · rintro e s' ⟨he, hs'⟩ -
      exact .root (hs'.printed _)
    · rintro e s' ⟨he, -⟩ hnot
      exact absurd he hnot
  | connected marie =>
    refine or_print_does (does_dispatch hstack (local_connected.dispatch_does hs)) ?_ ?_ ?_
    · exact fun s' hs' => .connected hs'
    · rintro e s' (⟨he, hs'⟩ | ⟨rfl, -⟩) herror
      · exact .connected (.stays (hs'.printed _))
      · cases herror
    · rintro e s' (⟨he, hs'⟩ | ⟨he, hwords, hbad⟩) herror
      · exact absurd he herror
      · exact ⟨he, marie, rfl, hwords, hbad⟩
  | session marie kind => exact absurd ⟨marie, kind, rfl⟩ hnot
  | graph marie spec =>
    refine or_print_does (does_dispatch hstack (editing_graph.dispatch_does ⟨hs, rfl⟩)) ?_ ?_ ?_
    · exact fun s' hs' => .graph hs'
    · rintro e s' (⟨⟨he, hs'⟩, -⟩ | ⟨⟨he, hs'⟩, -⟩) -
      · exact .graph (.stays spec (hs'.printed _))
      · exact .graph (.saves (hs'.printed _))
    · rintro e s' (⟨⟨he, -⟩, -⟩ | ⟨⟨he, -⟩, -⟩) herror
      · exact absurd he herror
      · exact absurd he herror
  | node marie spec node_id node =>
    refine or_print_does (does_dispatch hstack (editing_node.dispatch_does ⟨hs, rfl⟩)) ?_ ?_ ?_
    · exact fun s' hs' => .node hs'
    · rintro e s' ⟨he, hs'⟩ -
      exact .node (.stays node (hs'.printed _))
    · rintro e s' ⟨he, -⟩ herror
      exact absurd he herror

theorem standing_head (h : Standing s.stack) : ∃ state stack, s.stack = state :: stack := by
  cases hstack : s.stack with
  | nil => rw [hstack] at h; cases h
  | cons state stack => exact ⟨state, stack, rfl⟩

theorem guards_on_terminal {α : Type} {F : Fault → Prop} {m : Program Fault (Terminal β) α}
    (hm : Guards F (fun _ => True) (fun _ => True) m fun _ => True) :
    Guards F (At stack) (At stack) (on_terminal (M := M) m) fun _ => True := by
  intro s hs
  obtain ⟨-, -, hfault⟩ := hm s.terminal trivial
  exact ⟨⟨hs.holds, hs.completer_table⟩, fun _ _ => trivial, hfault⟩

/-- A session runs, and is taken from the stack. -/
theorem session_does {kind : SessionKind}
    (hs : s.stack = .ExecutingSession marie kind :: connected marie) :
    Does (turn lib) s (fun _ s' => Turned s.terminal.backend s' s.stack) fun e _ => Stops s e := by
  refine Does.bind ⟨?_, by rw [exec_top hs]; rintro e s' ⟨⟩⟩
  rw [exec_top hs]
  rintro _ _ ⟨⟩
  have hpopped : Repl.stack { s with stack := s.stack.tail } = connected marie := by
    change s.stack.tail = _
    rw [hs]
    rfl
  refine Does.bind (does_modify (Does.bind ⟨?_, by rw [exec_sync hpopped]; rintro e s' ⟨⟩⟩))
  rw [exec_sync hpopped]
  rintro _ _ ⟨⟩
  refine (guards_on_terminal (waits_run_session kind)).does (I := At (connected marie)) ⟨hpopped, rfl⟩
    (fun _ s' hs' _ => by rw [hs]; exact .session hs') ?_
  rintro _ _ - rfl
  exact .waits rfl

/-- What was read, where the top of the stack is not a session. -/
theorem turn_of_head (lib : LocalMarie β M) {state : ReplState M} (hs : s.stack = state :: stack)
    (hstate : ∀ marie kind, state ≠ .ExecutingSession marie kind) :
    exec (turn lib) s = exec (do
      let read ← on_terminal read_line
      handle_read lib read) s := by
  unfold turn
  rw [exec_bind_ok (exec_top hs)]
  cases state with
  | ExecutingSession marie kind => exact absurd rfl (hstate marie kind)
  | Root | LocalConnected _ | EditingGraph _ _ | EditingNode _ _ => rfl

/-- The end of the input drops a draft. -/
theorem exec_eof_of_draft {state under : ReplState M} (hs : s.stack = state :: under :: stack)
    (hdraft : Draft state) :
    exec (handle_read lib .Eof) s
      = (.ok (), { s.printed "abandon de l'édition (non sauvegardé)" with
          stack := under :: stack, completer_table := under.commands }) := by
  have hpop := exec_pop (s := s.printed "abandon de l'édition (non sauvegardé)") hs
  have heof : exec (handle_eof (β := β)) s
      = (.ok false, { s.printed "abandon de l'édition (non sauvegardé)" with
          stack := under :: stack, completer_table := under.commands }) := by
    unfold handle_eof
    rw [exec_bind_ok (exec_top hs)]
    cases state with
    | EditingGraph _ _ | EditingNode _ _ =>
      change exec (print_line _ >>= fun _ => pop >>= fun _ => pure false) s = _
      rw [exec_bind_ok (exec_print_line _ s), exec_bind_ok hpop]
      rfl
    | Root | LocalConnected _ | ExecutingSession _ _ => exact hdraft.elim
  unfold handle_read
  rw [exec_bind_ok heof]
  rfl

theorem eof_does (h : Standing s.stack)
    (hnot : ¬ Runs s.stack) :
    Does (handle_read lib .Eof) s (fun _ s' => Turned s.terminal.backend s' s.stack)
      fun e _ => e = .Over ∧ s.stack = [.Root] := by
  cases hstack : s.stack with
  | nil => rw [hstack] at h; cases h
  | cons state stack =>
  rw [hstack] at h hnot
  cases h with
  | root =>
    have heof : exec (handle_eof (β := β)) s = (.ok true, s) := by
      unfold handle_eof
      rw [exec_bind_ok (exec_top hstack)]
      rfl
    unfold handle_read
    refine Does.bind ⟨?_, by rw [heof]; rintro e s' ⟨⟩⟩
    rw [heof]
    rintro _ _ ⟨⟩
    exact does_throw ⟨rfl, rfl⟩
  | connected marie =>
    have heof : exec (handle_eof (β := β)) s = (.ok false, { s with
        stack := [.Root], completer_table := ROOT_COMMANDS }) := by
      unfold handle_eof
      rw [exec_bind_ok (exec_top hstack)]
      change exec (pop >>= fun _ => pure false) s = _
      rw [exec_bind_ok (exec_pop hstack)]
      rfl
    unfold handle_read
    refine Does.bind ⟨?_, by rw [heof]; rintro e s' ⟨⟩⟩
    rw [heof]
    rintro _ _ ⟨⟩
    exact does_pure (.connected (.leaves ⟨rfl, rfl⟩))
  | session marie kind => exact absurd ⟨marie, kind, rfl⟩ hnot
  | graph marie spec =>
    refine ⟨?_, by rw [exec_eof_of_draft hstack trivial]; rintro e s' ⟨⟩⟩
    rw [exec_eof_of_draft hstack trivial]
    rintro _ _ ⟨⟩
    exact .drops trivial ⟨⟨rfl, rfl⟩, rfl⟩
  | node marie spec node_id node =>
    refine ⟨?_, by rw [exec_eof_of_draft hstack trivial]; rintro e s' ⟨⟩⟩
    rw [exec_eof_of_draft hstack trivial]
    rintro _ _ ⟨⟩
    exact .drops trivial ⟨⟨rfl, rfl⟩, rfl⟩

theorem exec_read_nil (h : s.terminal.reads = []) :
    exec (on_terminal read_line) s = (.error .Waiting, s) := by
  have hread : exec read_line s.terminal = (.error .Waiting, s.terminal) := by
    unfold read_line
    simp only [exec, ExceptT.run_mk, StateT.run, h]
  unfold on_terminal
  rw [exec_zoom, hread]

theorem exec_read_cons {typed : Typed} {reads : List Typed} (h : s.terminal.reads = typed :: reads) :
    exec (on_terminal read_line) s
      = (.ok typed.read, { s with terminal := { s.terminal with reads } }) := by
  have hread : exec read_line s.terminal = (.ok typed.read, { s.terminal with reads }) := by
    unfold read_line
    simp only [exec, ExceptT.run_mk, StateT.run, h]
  unfold on_terminal
  rw [exec_zoom, hread]

theorem read_does (lib : LocalMarie β M) (h : Standing s.stack) (hs : At s.stack s)
    (hnot : ¬ Runs s.stack) (read : Read) :
    Does (handle_read lib read) s (fun _ s' => Turned s.terminal.backend s' s.stack)
      fun e _ => Ends s.stack read e := by
  cases read with
  | Interrupted =>
    exact (guards_print_line (F := fun _ => False) _).does ⟨hs, rfl⟩ (fun _ s' h _ => .prints h)
      fun _ _ _ he => he.elim
  | Eof =>
    refine (eof_does h hnot).mono (fun _ _ h => h) ?_
    rintro _ _ ⟨rfl, hroot⟩
    exact .leaves (.inr ⟨hroot, .inl rfl⟩)
  | Failed err =>
    refine ⟨by rintro a s' ⟨⟩, ?_⟩
    rintro e s' ⟨⟩
    exact .leaves (.inl ⟨err, rfl⟩)
  | Line line =>
    obtain ⟨state, stack, hstack⟩ := standing_head h
    have hstill : Still (state :: stack) s.terminal.backend s := ⟨hstack ▸ hs, rfl⟩
    refine handle_line_does hstill ?_ ?_ ?_
    · intro s1 hs1
      rw [hstack]
      exact .prints hs1
    · intro tokens htokens
      refine (command_does lib h hs hnot).mono (fun _ _ h => h) ?_
      rintro _ _ ⟨rfl, marie, hmarie, hwords, hbad⟩
      exact .panics ⟨marie, tokens, hmarie, ⟨line, rfl, htokens⟩, hwords, hbad⟩
    · rintro tokens htokens hexit rfl
      have hroot : s.stack = [.Root] := by
        rw [hstack] at h ⊢
        cases h
        rfl
      exact .leaves (.inr ⟨hroot, .inr ⟨tokens, ⟨line, rfl, htokens⟩, hexit⟩⟩)

theorem not_session_of_not_runs {state : ReplState M} (h : Standing (state :: stack))
    (hnot : ¬ Runs (state :: stack)) (marie : M) (kind : SessionKind) :
    state ≠ .ExecutingSession marie kind := by
  rintro rfl
  cases h
  exact hnot ⟨marie, kind, rfl⟩

theorem exec_turn_of_read (lib : LocalMarie β M) {typed : Typed} {reads : List Typed}
    (h : Standing s.stack) (hnot : ¬ Runs s.stack) (hreads : s.terminal.reads = typed :: reads) :
    exec (turn lib) s = exec (handle_read lib typed.read)
      { s with terminal := { s.terminal with reads } } := by
  obtain ⟨state, stack, hstack⟩ := standing_head h
  rw [hstack] at h hnot
  rw [turn_of_head lib hstack (not_session_of_not_runs h hnot), exec_bind_ok (exec_read_cons hreads)]

/-- A turn of a stack that stands. -/
theorem turn_does (h : Standing s.stack) (hs : At s.stack s) :
    Does (turn lib) s (fun _ s' => Turned s.terminal.backend s' s.stack) fun e _ => Stops s e := by
  by_cases hruns : Runs s.stack
  · obtain ⟨marie, kind, hstack⟩ := hruns
    exact session_does hstack
  cases hreads : s.terminal.reads with
  | nil =>
    obtain ⟨state, stack, hstack⟩ := standing_head h
    rw [hstack] at h hruns
    have hrun := (turn_of_head lib hstack (not_session_of_not_runs h hruns)).trans
      (exec_bind_error (exec_read_nil hreads))
    refine ⟨by rw [hrun]; rintro a s' ⟨⟩, ?_⟩
    rw [hrun]
    rintro e s' ⟨⟩
    exact .waits rfl
  | cons typed reads =>
    have hrun := exec_turn_of_read lib h hruns hreads
    have hread := read_does lib
      (s := { s with terminal := { s.terminal with reads } }) h ⟨hs.holds, hs.completer_table⟩ hruns
      typed.read
    refine ⟨fun a s' h => hread.1 a s' (hrun.symm.trans h), fun e s' h => ?_⟩
    exact .ends typed reads hreads hruns (hread.2 e s' (hrun.symm.trans h))

/-! ## What ends the prompt -/

theorem tokenize_nil : tokenize [] = .ok [] := rfl

theorem exec_handle_line {line : Text} {state : ReplState M} {token : Text}
    (hs : s.stack = state :: stack) (htokens : tokenize (trim line) = .ok (token :: tokens))
    (hhelp : token ≠ "help".toList) :
    exec (handle_line lib line) s = exec (if token = "exit".toList ∧ state.is_root
      then throw .Over else or_print (dispatch lib (token :: tokens))) s := by
  have hempty : (trim line).isEmpty = false := by
    cases hline : trim line with
    | nil =>
      rw [hline, tokenize_nil] at htokens
      cases htokens
    | cons c line => rfl
  unfold handle_line
  simp only [hempty, htokens, List.head?_cons, Option.some.injEq, hhelp, if_false]
  exact exec_bind_ok (exec_top hs)

theorem not_words {first first' second second' : String} (h : words tokens first second)
    (hne : first'.toList ≠ first.toList) : ¬ words tokens first' second' := by
  rintro ⟨h', -⟩
  rw [h.1] at h'
  exact hne (Option.some.inj h').symm

theorem dispatch_panics (hs : s.stack = connected marie) (h : words tokens "delete" "session")
    (hbad : DeletesUnreadable tokens) : exec (dispatch lib tokens) s = (.error .Panic, s) := by
  unfold dispatch
  rw [exec_bind_ok (exec_top hs)]
  change exec (local_connected.dispatch lib tokens) s = _
  unfold local_connected.dispatch
  rw [exec_bind_ok (exec_top hs)]
  dsimp only
  rw [if_neg (not_words h (by decide)), if_neg (not_words h (by decide)), if_pos h]
  exact local_connected.delete_session_panics (length_of_words h) hbad

theorem panics_of_read {typed : Typed} {reads : List Typed} (h : Standing s.stack)
    (hreads : s.terminal.reads = typed :: reads) (hpanics : Panics s.stack typed.read) :
    (exec (turn lib) s).1 = .error .Panic := by
  obtain ⟨marie, tokens, hstack, ⟨line, hline, htokens⟩, hwords, hbad⟩ := hpanics
  have hnot : ¬ Runs s.stack := by
    rintro ⟨marie', kind, hruns⟩
    rw [hstack] at hruns
    cases hruns
  obtain ⟨token, rest, rfl⟩ : ∃ token rest, tokens = token :: rest := by
    cases tokens with
    | nil => cases hwords.1
    | cons token rest => exact ⟨token, rest, rfl⟩
  have htoken : token = "delete".toList := by simpa using hwords.1
  rw [exec_turn_of_read lib h hnot hreads, hline]
  generalize hs1 : ({ s with terminal := { s.terminal with reads } } : Repl β M) = s1
  have hstack1 : s1.stack = connected marie := by rw [← hs1]; exact hstack
  change (exec (handle_line lib line) s1).1 = _
  rw [exec_handle_line hstack1 htokens (by rw [htoken]; decide), if_neg (by rintro ⟨-, ⟨⟩⟩)]
  unfold or_print
  rw [exec_tryCatch, dispatch_panics hstack1 hwords hbad]
  rfl

theorem leaves_of_read {typed : Typed} {reads : List Typed} (h : Standing s.stack)
    (hnot : ¬ Runs s.stack) (hreads : s.terminal.reads = typed :: reads)
    (hleaves : Leaves s.stack typed.read) : (exec (turn lib) s).1 = .error .Over := by
  rw [exec_turn_of_read lib h hnot hreads]
  generalize hs1 : ({ s with terminal := { s.terminal with reads } } : Repl β M) = s1
  rcases hleaves with ⟨err, hread⟩ | ⟨hroot, hread | ⟨tokens, ⟨line, hline, htokens⟩, hexit⟩⟩
  · rw [hread]
    rfl
  · have hstack1 : s1.stack = [.Root] := by rw [← hs1]; exact hroot
    have heof : exec (handle_eof (β := β)) s1 = (.ok true, s1) := by
      unfold handle_eof
      rw [exec_bind_ok (exec_top hstack1)]
      rfl
    rw [hread]
    unfold handle_read
    rw [exec_bind_ok heof]
    rfl
  · have hstack1 : s1.stack = [.Root] := by rw [← hs1]; exact hroot
    obtain ⟨token, rest, rfl⟩ : ∃ token rest, tokens = token :: rest := by
      cases tokens with
      | nil => cases hexit
      | cons token rest => exact ⟨token, rest, rfl⟩
    have htoken : token = "exit".toList := by simpa using hexit
    rw [hline]
    change (exec (handle_line lib line) s1).1 = _
    rw [exec_handle_line hstack1 htokens (by rw [htoken]; decide), if_pos ⟨htoken, rfl⟩]
    rfl

end Repl

end marie.cli
