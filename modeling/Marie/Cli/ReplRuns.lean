-- Runs of the prompt. The stack has one of five shapes after every turn, and what is
-- edited on it is a draft: marie is not called for it before the graph is saved.
import Marie.Cli.ReplTurns

namespace marie.cli

open Program Maps Texts session

variable {β M : Type} {lib : LocalMarie β M} {s s' : Repl β M} {stack : List (ReplState M)}
  {backend : β} {tokens : List Text} {marie : M}

namespace Repl

open local_connected (connected Moved DeletesUnreadable)

/-! ## Runs -/

/-- A stack that stands, and the commands of its top. -/
structure Ready (s : Repl β M) : Prop where
  standing : Standing s.stack
  table : s.stack.head?.map (·.commands) = some s.completer_table

theorem Ready.at (h : Ready s) : At s.stack s := ⟨rfl, h.table⟩

theorem ready_of_at (h : At stack s) (hstack : Standing stack) : Ready s := by
  obtain ⟨rfl, htable⟩ := h
  exact ⟨hstack, htable⟩

theorem Turned.ready (h : Turned backend s stack) (hstack : Standing stack) : Ready s := by
  cases h with
  | prints h => exact ready_of_at h.toAt hstack
  | root h => exact ready_of_at h .root
  | connects marie h => exact ready_of_at h (.connected marie)
  | connected h =>
    cases h with
    | stays h => exact ready_of_at h (.connected _)
    | runs kind h => exact ready_of_at h (.session _ kind)
    | edits spec h => exact ready_of_at h.toAt (.graph _ spec)
    | leaves h => exact ready_of_at h .root
  | session h => exact ready_of_at h (.connected _)
  | graph h =>
    cases h with
    | stays spec' h => exact ready_of_at h.toAt (.graph _ spec')
    | edits node_id node h => exact ready_of_at h.toAt (.node _ _ node_id node)
    | saves h => exact ready_of_at h (.connected _)
  | node h =>
    cases h with
    | stays node' h => exact ready_of_at h.toAt (.node _ _ _ node')
    | saves h => exact ready_of_at h.toAt (.graph _ _)
  | drops hdraft h =>
    cases hstack with
    | root | connected _ | session _ _ => exact hdraft.elim
    | graph marie spec => exact ready_of_at h.toAt (.connected marie)
    | node marie spec node_id node => exact ready_of_at h.toAt (.graph marie spec)

theorem ready_new (reads : List Typed) : Ready (new (M := M) reads backend) := ⟨.root, rfl⟩

theorem turns_succ {n : Nat} (h : turns lib s (n + 1) = (.ok (), s')) :
    ∃ s1, turns lib s n = (.ok (), s1) ∧ exec (turn lib) s1 = (.ok (), s') := by
  unfold turns at h
  rcases hn : turns lib s n with ⟨e | ⟨⟩, s1⟩
  · rw [hn] at h
    cases h
  · rw [hn] at h
    exact ⟨s1, rfl, h⟩

theorem Ready.turns {n : Nat} (hs : Ready s) (h : turns lib s n = (.ok (), s')) : Ready s' := by
  induction n generalizing s' with
  | zero => cases h; exact hs
  | succ n ih =>
    obtain ⟨s1, hbefore, hturn⟩ := turns_succ h
    have hready := ih hbefore
    exact ((turn_does hready.standing hready.at).1 () s' hturn).ready hready.standing

/-- After every turn the stack stands and the commands of its top are completed; the prompt ends
when it is left from the root or the input fails, and breaks down at one kind of command. -/
theorem the_prompt_stands (lib : LocalMarie β M) (reads : List Typed) (backend : β) (n : Nat)
    {s : Repl β M} (h : turns lib (new reads backend) n = (.ok (), s)) :
    Standing s.stack ∧ s.stack.head?.map (·.commands) = some s.completer_table ∧
    ((exec (turn lib) s).1 = .error .Panic ↔
      ∃ typed rest, s.terminal.reads = typed :: rest ∧ Panics s.stack typed.read) ∧
    ((exec (turn lib) s).1 = .error .Over ↔ ¬ Runs s.stack ∧
      ∃ typed rest, s.terminal.reads = typed :: rest ∧ Leaves s.stack typed.read) ∧
    ∀ e, (exec (turn lib) s).1 = .error e → e = .Panic ∨ e = .Over ∨ e = .Waiting := by
  obtain ⟨hstanding, htable⟩ := (ready_new reads).turns h
  have hstops : ∀ e, (exec (turn lib) s).1 = .error e → Stops s e := by
    intro e he
    exact (turn_does hstanding ⟨rfl, htable⟩).2 e _ (Prod.ext he rfl)
  refine ⟨hstanding, htable, ⟨?_, ?_⟩, ⟨?_, ?_⟩, ?_⟩
  · intro he
    rcases hstops _ he with hwaits | ⟨typed, rest, hreads, hnot, hends⟩
    · cases hwaits
    · cases hends with
      | panics hpanics => exact ⟨typed, rest, hreads, hpanics⟩
  · rintro ⟨typed, rest, hreads, hpanics⟩
    exact panics_of_read hstanding hreads hpanics
  · intro he
    rcases hstops _ he with hwaits | ⟨typed, rest, hreads, hnot, hends⟩
    · cases hwaits
    · cases hends with
      | leaves hleaves => exact ⟨hnot, typed, rest, hreads, hleaves⟩
  · rintro ⟨hnot, typed, rest, hreads, hleaves⟩
    exact leaves_of_read hstanding hnot hreads hleaves
  · intro e he
    rcases hstops _ he with hwaits | ⟨typed, rest, hreads, hnot, hends⟩
    · exact .inr (.inr hwaits)
    · cases hends with
      | panics => exact .inl rfl
      | leaves => exact .inr (.inl rfl)

/-! ## Drafts -/

/-- Drafts, and nothing else, are on the stack above `base`. -/
def Above (base : List (ReplState M)) (backend : β) (s : Repl β M) : Prop :=
  ∃ drafts, drafts ≠ [] ∧ (∀ state ∈ drafts, Draft state) ∧ Still (drafts ++ base) backend s

theorem above_one {draft : ReplState M} {base : List (ReplState M)} (hdraft : Draft draft)
    (h : Still (draft :: base) backend s) : Above base backend s :=
  ⟨[draft], by simp, by simpa using hdraft, h⟩

theorem above_two {draft draft' : ReplState M} {base : List (ReplState M)} (hdraft : Draft draft)
    (hdraft' : Draft draft') (h : Still (draft :: draft' :: base) backend s) : Above base backend s :=
  ⟨[draft, draft'], by simp, by simpa using ⟨hdraft, hdraft'⟩, h⟩

/-- A connection is no draft. -/
theorem of_connected {drafts base : List (ReplState M)} (hdrafts : ∀ state ∈ drafts, Draft state)
    (h : drafts ++ base = connected marie) : drafts = [] ∧ base = connected marie := by
  cases drafts with
  | nil => exact ⟨rfl, h⟩
  | cons draft drafts =>
    obtain ⟨rfl, -⟩ := List.cons.inj h
    have hdraft : Draft (.LocalConnected marie) := hdrafts _ (by simp)
    exact hdraft.elim

/-- A turn that begins with drafts on the stack ends with drafts, or back at the base. -/
theorem above_step {base : List (ReplState M)} (h : Above base backend s)
    (hturned : Turned s.terminal.backend s' s.stack) :
    Above base backend s' ∨ s'.stack.length ≤ base.length := by
  obtain ⟨drafts, hne, hdrafts, hstill⟩ := h
  obtain ⟨⟨hstack, htable⟩, rfl⟩ := hstill
  obtain ⟨draft, drafts, rfl⟩ := List.exists_cons_of_ne_nil hne
  have hdraft := hdrafts draft (by simp)
  have hrest : ∀ state ∈ drafts, Draft state := fun state hmem => hdrafts state (by simp [hmem])
  rw [hstack, List.cons_append] at hturned
  generalize hl : draft :: (drafts ++ base) = l at hturned
  cases hturned with
  | prints h =>
    rw [← hl] at h
    exact .inl ⟨draft :: drafts, hne, hdrafts, h⟩
  | root | connects | connected | session =>
    obtain ⟨rfl, -⟩ := List.cons.inj hl
    exact hdraft.elim
  | @graph marie spec h =>
    obtain ⟨-, hunder⟩ := List.cons.inj hl
    obtain ⟨-, rfl⟩ := of_connected hrest hunder
    cases h with
    | stays spec' h => exact .inl (above_one (by trivial) h)
    | edits node_id node h => exact .inl (above_two (by trivial) (by trivial) h)
    | saves h => exact .inr (by rw [h.holds])
  | @node marie spec node_id node h =>
    obtain ⟨-, hunder⟩ := List.cons.inj hl
    cases drafts with
    | nil =>
      cases hunder
      cases h with
      | stays node' h => exact .inl (above_one (by trivial) h)
      | saves h => exact .inr (by rw [h.holds]; rfl)
    | cons graph drafts =>
      obtain ⟨rfl, htail⟩ := List.cons.inj hunder
      have hdrafts' : ∀ state ∈ drafts, Draft state := fun state hmem => hrest state (by simp [hmem])
      obtain ⟨-, rfl⟩ := of_connected hdrafts' htail
      cases h with
      | stays node' h => exact .inl (above_two (by trivial) (by trivial) h)
      | saves h => exact .inl (above_one (by trivial) h)
  | @drops state under _ h =>
    obtain ⟨-, rfl⟩ := List.cons.inj hl
    cases drafts with
    | nil => exact .inr (by rw [h.holds]; rfl)
    | cons draft drafts => exact .inl ⟨draft :: drafts, by simp, hrest, h⟩

/-- The first draft is put on a stack by a turn that does nothing else. -/
theorem above_of_opened (hturned : Turned s.terminal.backend s' s.stack)
    (hlength : s.stack.length < s'.stack.length)
    (hdraft : ∀ state ∈ s'.stack.head?, Draft state) : Above s.stack s.terminal.backend s' := by
  generalize hl : s.stack = l at hturned hlength
  cases hturned with
  | prints h => simp [h.holds] at hlength
  | root h => simp [h.holds] at hlength
  | connects marie h => exact (hdraft (.LocalConnected marie) (by rw [h.holds]; rfl)).elim
  | @connected marie h =>
    cases h with
    | stays h => simp [h.holds] at hlength
    | runs kind h => exact (hdraft (.ExecutingSession marie kind) (by rw [h.holds]; rfl)).elim
    | edits spec h => exact above_one (by trivial) h
    | leaves h => simp [h.holds] at hlength
  | session h => simp [h.holds] at hlength
  | graph h =>
    cases h with
    | stays spec' h => simp [h.holds] at hlength
    | edits node_id node h => exact above_one (by trivial) h
    | saves h => simp [h.holds] at hlength
  | node h =>
    cases h with
    | stays node' h => simp [h.holds] at hlength
    | saves h => simp [h.holds] at hlength
  | drops hdraft h => simp [h.holds] at hlength

/-- The prompt is above a base for this many turns, and the first puts a draft there. -/
structure Edits (lib : LocalMarie β M) (s : Repl β M) (n : Nat) : Prop where
  opens : ∀ s', turns lib s 1 = (.ok (), s') → ∀ state ∈ s'.stack.head?, Draft state
  above : ∀ i s', 0 < i → i ≤ n → turns lib s i = (.ok (), s') → s.stack.length < s'.stack.length

theorem above_turns {n : Nat} (hs : Ready s) (hedits : Edits lib s n) (hn : 0 < n)
    (h : turns lib s n = (.ok (), s')) : Above s.stack s.terminal.backend s' := by
  induction n generalizing s' with
  | zero => exact absurd hn (Nat.lt_irrefl 0)
  | succ n ih =>
    obtain ⟨s1, hbefore, hturn⟩ := turns_succ h
    have hready := hs.turns hbefore
    have hturned := (turn_does hready.standing hready.at).1 () s' hturn
    have hlength := hedits.above (n + 1) s' hn (Nat.le_refl _) h
    cases n with
    | zero =>
      cases hbefore
      exact above_of_opened hturned hlength (hedits.opens s' h)
    | succ n =>
      have habove := ih ⟨hedits.opens, fun i s' hi hle => hedits.above i s' hi (by omega)⟩
        (by omega) hbefore
      rcases above_step habove hturned with hstays | hback
      · exact hstays
      · omega

/-- While something is edited, what was on the stack before stays under it and marie is not called;
when the edition is left, nothing of it remains. -/
theorem what_is_not_saved_leaves_no_trace (lib : LocalMarie β M) (reads : List Typed) (backend : β)
    (k n : Nat) {s s' : Repl β M} (hreached : turns lib (new reads backend) k = (.ok (), s))
    (hedits : Edits lib s n) (hn : 0 < n) (h : turns lib s n = (.ok (), s')) :
    s.stack <:+ s'.stack ∧ s'.terminal.backend = s.terminal.backend ∧
    (s'.stack.length = s.stack.length + 1 →
      ∀ typed rest, s'.terminal.reads = typed :: rest → typed.read = .Eof →
        ∃ s'', exec (turn lib) s' = (.ok (), s'') ∧ s''.stack = s.stack ∧
          s''.completer_table = s.completer_table ∧
          s''.terminal.backend = s.terminal.backend) := by
  have hready := (ready_new reads).turns hreached
  have hready' := hready.turns h
  obtain ⟨drafts, hne, hdrafts, hstill⟩ := above_turns hready hedits hn h
  refine ⟨hstill.holds ▸ List.suffix_append drafts s.stack, hstill.backend, ?_⟩
  intro hlength typed rest hreads heof
  obtain ⟨draft, rfl⟩ : ∃ draft, drafts = [draft] := by
    have hlen : drafts.length = 1 := by
      rw [hstill.holds, List.length_append] at hlength
      omega
    exact List.length_eq_one_iff.mp hlen
  have hdraft := hdrafts draft (by simp)
  obtain ⟨under, stack, hstack⟩ := standing_head hready.standing
  have hstack' : s'.stack = draft :: under :: stack := by rw [hstill.holds, hstack]; rfl
  have hnot : ¬ Runs s'.stack := by
    rintro ⟨marie, kind, hruns⟩
    rw [hstack'] at hruns
    obtain ⟨rfl, -⟩ := List.cons.inj hruns
    exact hdraft.elim
  have htable : some under.commands = some s.completer_table := by
    rw [← hready.table, hstack]
    rfl
  have hrun := exec_turn_of_read lib hready'.standing hnot hreads
  rw [heof] at hrun
  refine ⟨_, hrun.trans (exec_eof_of_draft hstack' hdraft), hstack.symm, ?_, hstill.backend⟩
  exact Option.some.inj htable

/-- A graph is edited. -/
def EditsGraph : ReplState M → Prop
  | .EditingGraph _ _ => True
  | _ => False

instance : DecidablePred (EditsGraph (M := M))
  | .EditingGraph _ _ => isTrue trivial
  | .Root | .LocalConnected _ | .ExecutingSession _ _ | .EditingNode _ _ => isFalse id

/-- The graph that is edited was to be saved. -/
def Saves (stack : List (ReplState M)) (tokens : List Text) : Prop :=
  (∃ state ∈ stack.head?, EditsGraph state) ∧ tokens[0]? = some "save".toList

instance (stack : List (ReplState M)) (tokens : List Text) : Decidable (Saves stack tokens) :=
  inferInstanceAs (Decidable (_ ∧ _))

/-- A command that fails leaves the stack as it was. Only the graph that was to be saved is lost. -/
theorem a_failed_command_keeps_the_drafts (lib : LocalMarie β M) (reads : List Typed) (backend : β)
    (n : Nat) {s s' : Repl β M} (hreached : turns lib (new reads backend) n = (.ok (), s))
    (hruns : ¬ Runs s.stack) (tokens : List Text) {e : Fault} (he : e.is_error = true)
    (hfails : exec (dispatch lib tokens) s = (.error e, s')) :
    (¬ Saves s.stack tokens → s'.stack = s.stack) ∧
    (Saves s.stack tokens → ∃ graph, s.stack = graph :: s'.stack) := by
  have hready := (ready_new reads).turns hreached
  have hs := hready.at
  have hstanding := hready.standing
  cases hstack : s.stack with
  | nil => rw [hstack] at hstanding; cases hstanding
  | cons state stack =>
  rw [hstack] at hs hstanding hruns
  have hother : ¬ EditsGraph state → s'.stack = state :: stack →
      (¬ Saves (state :: stack) tokens → s'.stack = state :: stack) ∧
        (Saves (state :: stack) tokens → ∃ graph, state :: stack = graph :: s'.stack) := by
    rintro hstate hkept
    refine ⟨fun _ => hkept, ?_⟩
    rintro ⟨⟨_, ⟨⟩, hgraph⟩, -⟩
    exact absurd hgraph hstate
  cases hstanding with
  | root =>
    obtain ⟨-, hs'⟩ := (does_dispatch hstack (root.dispatch_does hs)).2 e s' hfails
    exact hother id hs'.holds
  | connected marie =>
    rcases (does_dispatch hstack (local_connected.dispatch_does hs)).2 e s' hfails with
      ⟨-, hs'⟩ | ⟨rfl, -⟩
    · exact hother id hs'.holds
    · cases he
  | session marie kind => exact absurd ⟨marie, kind, rfl⟩ hruns
  | graph marie spec =>
    rcases (does_dispatch hstack (editing_graph.dispatch_does ⟨hs, rfl⟩)).2 e s' hfails with
      ⟨⟨-, hs'⟩, hsave⟩ | ⟨⟨-, hs'⟩, hsave⟩
    · exact ⟨fun _ => hs'.holds, fun h => absurd h.2 hsave⟩
    · refine ⟨fun h => absurd ⟨⟨_, rfl, trivial⟩, hsave⟩ h, fun _ => ?_⟩
      exact ⟨.EditingGraph marie spec, by rw [hs'.holds]⟩
  | node marie spec node_id node =>
    obtain ⟨-, hs'⟩ := (does_dispatch hstack (editing_node.dispatch_does ⟨hs, rfl⟩)).2 e s' hfails
    exact hother id hs'.holds

/-! ## A prompt -/

/-- A graph is begun, and a node of it; both are left. -/
def an_edition : List Typed := [
  ⟨0, .Line "connect local in-memory".toList⟩,
  ⟨0, .Line "create graph g".toList⟩,
  ⟨0, .Line "create node a agent".toList⟩,
  ⟨0, .Eof⟩,
  ⟨0, .Eof⟩]

/-- The prompt while the graph is edited, and then the node. -/
def with_graph : Repl Unit Unit := (turns a_marie (new an_edition ()) 2).2

def with_node : Repl Unit Unit := (turns a_marie with_graph 1).2

theorem turns_of_isOk {n : Nat} (h : (turns lib s n).1.isOk = true) :
    turns lib s n = (.ok (), (turns lib s n).2) := by
  rcases hturns : turns lib s n with ⟨e | ⟨⟩, s1⟩
  · rw [hturns] at h
    cases h
  · rfl

theorem run_of_result {r : Except Fault Unit} {run : Except Fault Unit × Repl β M} (h : run.1 = r) :
    run = (r, run.2) := by
  rw [← h]

/-- The node is left: the graph is edited as before. -/
theorem a_node_is_left :
    ∃ s, exec (turn a_marie) with_node = (.ok (), s) ∧ s.stack = with_graph.stack := by
  have hreached : turns a_marie (new an_edition ()) 2 = (.ok (), with_graph) :=
    turns_of_isOk (by decide +kernel)
  have hturns : turns a_marie with_graph 1 = (.ok (), with_node) :=
    turns_of_isOk (by decide +kernel)
  have hedits : Edits a_marie with_graph 1 := by
    refine ⟨fun s' h => ?_, fun i s' hi hle h => ?_⟩
    · obtain ⟨-, rfl⟩ := Prod.mk.inj (hturns.symm.trans h)
      decide +kernel
    · obtain rfl : i = 1 := by omega
      obtain ⟨-, rfl⟩ := Prod.mk.inj (hturns.symm.trans h)
      decide +kernel
  obtain ⟨-, -, hleft⟩ := what_is_not_saved_leaves_no_trace a_marie an_edition () 2 1 hreached
    hedits Nat.one_pos hturns
  have hreads : with_node.terminal.reads = [⟨0, .Eof⟩, ⟨0, .Eof⟩] := by decide +kernel
  obtain ⟨s, hrun, hstack, -⟩ := hleft (by decide +kernel) ⟨0, .Eof⟩ [⟨0, .Eof⟩] hreads rfl
  exact ⟨s, hrun, hstack⟩

/-- The 16th byte is inside of a character. -/
def a_text_without_halves : String :=
  "delete session aaaaaaaaaaaaaaaéaaaaaaaaaaaaaaa"

/-- The prompt breaks down at such a text. -/
theorem a_session_is_named_wrong :
    ∃ typed rest, (turns a_marie (new [⟨0, .Line "connect local in-memory".toList⟩,
        ⟨0, .Line a_text_without_halves.toList⟩] ()) 1).2.terminal.reads = typed :: rest ∧
      Panics (turns a_marie (new [⟨0, .Line "connect local in-memory".toList⟩,
        ⟨0, .Line a_text_without_halves.toList⟩] ()) 1).2.stack typed.read :=
  (the_prompt_stands a_marie _ () 1 (turns_of_isOk (by decide +kernel))).2.2.1.mp
    (by decide +kernel)

/-- A graph that marie refuses is lost. -/
theorem a_graph_is_lost : ∃ graph, with_graph.stack =
    graph :: (exec (dispatch a_marie ["save".toList]) with_graph).2.stack := by
  have hreached : turns a_marie (new an_edition ()) 2 = (.ok (), with_graph) :=
    turns_of_isOk (by decide +kernel)
  have hfails : (exec (dispatch a_marie ["save".toList]) with_graph).1
      = .error (.Marie "refus") := by decide +kernel
  have hnot : ¬ Runs with_graph.stack := by
    rintro ⟨marie, kind, hruns⟩
    have hhead : ∀ state ∈ with_graph.stack.head?, EditsGraph state := by decide +kernel
    exact hhead (.ExecutingSession marie kind) (by rw [hruns]; rfl)
  have hkept := a_failed_command_keeps_the_drafts a_marie an_edition () 2 hreached hnot
    ["save".toList] rfl (run_of_result hfails)
  exact hkept.2 (by decide +kernel)

end Repl

end marie.cli
