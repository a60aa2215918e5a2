-- The terminal of the prompt, and a session on it: what the session says is printed,
-- and what it asks of a human is read. The events of the session go on while a line
-- is awaited.
import Marie.Cli.NodeEditor
import Marie.IdText
import Marie.Lib.Program
import Marie.Session.Checkpointer
import Marie.Session.LogStore

namespace marie.cli

open Program Maps Texts session

/-! ## What comes in, and what goes out -/

/-- What `read_line` gives. -/
inductive Read
  | Line (text : Text)
  | Interrupted
  | Eof
  | Failed (error : String)
deriving DecidableEq

/-- A line that is read. `before` events of the session arrive while it is awaited, or as many as
there are left. -/
structure Typed where
  before : Nat
  read : Read
deriving DecidableEq

/-- Of a log, what is printed is its content. -/
inductive SessionEvent
  | HitlAnswered
  | HitlRequested (id : ID) (hitl : Hitl)
  | LogCreated (log : SessionLogContent)
  | LogUpdated (log : SessionLogContent)
  | SessionStatusUpdated (status : SessionStatus)

structure SessionView where
  status : SessionStatus
  logs : List SessionLogContent
  pendings : List (ID × Hitl)

inductive Output
  | Text (line : String)
  | Log (log : SessionLogContent)
  | Question (question : Question)
  | AlreadyEnded (status : SessionStatus)
  | Ended (status : SessionStatus)
  /-- A reply that is sent. -/
  | Reply (id : ID) (answers : Entries String Answer)

inductive ShellMode
  | LoopModel (system_prompt : Text) (model_id : String) (allowed_tools : List ToolName)
  | Expert (expert_id : ExpertId)

inductive NewSessionArgs
  | Shell (mode : ShellMode)
  | Graph (graph_id : GraphId) (initial : Channels)

inductive DatabaseMode
  | InMemory
  | Postgres (url : String)

/-- `OpenAICompatible`, the only kind there is. -/
structure CreateModel where
  id : String
  base_url : Text
  client_id : Text
  api_key : Text
  model : Text
  system_prompt : Option Text

structure Expert where
  id : ExpertId
  prompt : Text
  model_id : String
  allowed_tools : List ToolName

structure GraphSpec where
  id : GraphId
  nodes : Entries NodeId NodeSpec
  edges : Entries NodeId NodeId
  entry : NodeId
  common : CommonSpec

/-- A call to marie, which may fail with an error in words. -/
abbrev Call (β α : Type) := β → Except String α × β

/-- What the prompt is run on: `β` is all that is outside of it, and `M` a connection. A list is
given as it is rendered. -/
structure LocalMarie (β M : Type) where
  /-- `str::parse::<f64>`, with the value that is made of the number. -/
  parse_f64 : Text → Option Value
  /-- `fmt::Debug` of a text. -/
  debug : String → String
  database_url : β → Option String
  connect : DatabaseMode → Call β M
  list_sessions : M → Call β String
  create_session : M → NewSessionArgs → Call β ID
  delete_session : M → ID → Call β Unit
  list_models : M → Call β String
  insert_model : M → CreateModel → Call β Unit
  delete_model : M → String → Call β Unit
  list_experts : M → Call β String
  create_expert : M → Expert → Call β Unit
  get_expert : M → ExpertId → Call β (Option Expert)
  replace_expert : M → Expert → Call β Unit
  delete_expert : M → ExpertId → Call β Unit
  consult : M → ExpertId → Text → Call β (Option String)
  list_tools : M → Call β String
  list_graphs : M → Call β String
  latest_graph : M → GraphId → Call β Bool
  insert_graph : M → GraphSpec → Call β Unit
  replace_graph : M → GraphSpec → Call β Unit
  get_session : M → ID → Call β SessionView
  /-- All that the subscription will yield, and whether it ends after. What it yields is not what is
  emitted: a typed stream of the bus yields no event as the bus emits it
  (`events.EventJson.yields_to_value`). -/
  stream_session_events : M → ID → β → (List SessionEvent × Bool) × β
  hitl_reply : M → ID → ID → Entries String Answer → Call β Unit

/-- A marie that refuses all but the connection. -/
def a_marie : LocalMarie Unit Unit where
  parse_f64 _ := none
  debug text := text
  database_url _ := none
  connect _ backend := (.ok (), backend)
  list_sessions _ := refused
  create_session _ _ := refused
  delete_session _ _ := refused
  list_models _ := refused
  insert_model _ _ := refused
  delete_model _ _ := refused
  list_experts _ := refused
  create_expert _ _ := refused
  get_expert _ _ := refused
  replace_expert _ _ := refused
  delete_expert _ _ := refused
  consult _ _ _ := refused
  list_tools _ := refused
  list_graphs _ := refused
  latest_graph _ _ := refused
  insert_graph _ _ := refused
  replace_graph _ _ := refused
  get_session _ _ := refused
  stream_session_events _ _ backend := (([], true), backend)
  hitl_reply _ _ _ _ := refused
where
  refused {α : Type} : Call Unit α := fun backend => (.error "refus", backend)

/-- `reads` is what will be read, `events` what the subscription will still give, and `out` what the
input thread is given to print. -/
structure Terminal (β : Type) where
  reads : List Typed
  events : List SessionEvent
  closed : Bool
  out : List Output
  backend : β

/-- What ends a command, or the prompt. -/
inductive Fault
  | Usage (error : CliError)
  | UnknownCommand (state : String) (command : Text)
  | Marie (error : String)
  | Panic
  /-- A line or an event is awaited that never comes. -/
  | Waiting
  /-- The loop was left. -/
  | Over
deriving DecidableEq

section

variable {β M : Type}

def print (output : Output) : Program Fault (Terminal β) Unit :=
  modify fun t => { t with out := t.out ++ [output] }

def call {α : Type} (f : Call β α) : Program Fault (Terminal β) (Except String α) :=
  ExceptT.mk fun t => let r := f t.backend; (.ok r.1, { t with backend := r.2 })

def read_line : Program Fault (Terminal β) Read := ExceptT.mk fun t =>
  match t.reads with
  | [] => (.error .Waiting, t)
  | typed :: reads => (.ok typed.read, { t with reads })

/-! ## A session -/

/-- What a log is printed as. -/
def SessionEvent.log : SessionEvent → Option Output
  | .LogCreated log | .LogUpdated log => some (.Log log)
  | _ => none

/-- `unwrap_or_default`. -/
def Read.text : Read → Text
  | .Line text => text
  | _ => []

/-- Of the events that arrive while the line is awaited only the logs are printed. -/
def read_with_live_events : Program Fault (Terminal β) Text := ExceptT.mk fun t =>
  match t.reads with
  | [] => (.error .Waiting, { t with events := [], out := t.out ++ t.events.filterMap (·.log) })
  | typed :: reads => (.ok typed.read.text,
      { t with
        reads
        events := t.events.drop typed.before
        out := t.out ++ (t.events.take typed.before).filterMap (·.log) })

/-- `str::parse::<usize>`. -/
def usize_from_str (s : Text) : Option Nat :=
  let n := match s with
    | '+' :: digits => decimal digits
    | digits => decimal digits
  n.filter (· < 2 ^ 64)

def resolve_option (options : List String) (raw : Text) : String :=
  match usize_from_str raw with
  | some idx =>
    if 1 ≤ idx ∧ idx ≤ options.length then options.getD (idx - 1) "" else String.ofList raw
  | none => String.ofList raw

/-- The loop of a long text, for `fuel` lines at most. -/
def read_lines : Nat → Program Fault (Terminal β) (List Text)
  | 0 => throw .Waiting
  | fuel + 1 => do
    let line ← read_with_live_events
    if line = ['.'] then pure []
    else do
      let lines ← read_lines fuel
      pure (line :: lines)

def ask_question (q : Question) : Program Fault (Terminal β) Answer := do
  print (.Question q)
  match q.kind with
  | .LongText => do
    -- each turn of the loop reads a line, so there are no more turns than lines
    let fuel ← Program.asks fun t : Terminal β => t.reads.length + 1
    let lines ← read_lines fuel
    pure (.Single (String.ofList (['\n'].intercalate lines)))
  | .Checkboxes options => do
    let raw ← read_with_live_events
    let items := ((raw.splitOn ',').map trim).filter (!·.isEmpty)
    pure (.Multiple (items.map (resolve_option options)))
  | .Select options | .Radio options => do
    let raw ← read_with_live_events
    pure (.Single (resolve_option options (trim raw)))
  | .ShortText | .FileUpload _ => do
    let raw ← read_with_live_events
    pure (.Single (String.ofList raw))

/-- The loop of the questions of a form. -/
def ask_questions : List Question → Entries String Answer →
    Program Fault (Terminal β) (Entries String Answer)
  | [], answers => pure answers
  | q :: questions, answers => do
    let answer ← ask_question q
    ask_questions questions (answers.insert (q.key, answer))

def ask_hitl : Hitl → Program Fault (Terminal β) (Entries String Answer)
  | .Text => do
    let text ← read_with_live_events
    pure (Entries.empty.insert ("text", .Single (String.ofList text)))
  | .Questions questions => ask_questions questions Entries.empty

def is_terminal : SessionStatus → Bool
  | .Archived | .Failed _ => true
  | _ => false

/-- `events.next()`. -/
def next_event : Program Fault (Terminal β) (Option SessionEvent) := ExceptT.mk fun t =>
  match t.events with
  | [] => (if t.closed then .ok none else .error .Waiting, t)
  | event :: events => (.ok (some event), { t with events })

variable (lib : LocalMarie β M) (marie : M)

/-- The answers are sent; an error is printed. -/
def send_reply (session_id id : ID) (answers : Entries String Answer) :
    Program Fault (Terminal β) Unit := do
  print (.Reply id answers)
  match ← call (lib.hitl_reply marie session_id id answers) with
  | .ok () => pure ()
  | .error err => print (.Text ("erreur lors de la réponse hitl: " ++ err))

/-- A request is put to the human, and their answers are sent. -/
def answer_hitl (session_id id : ID) (hitl : Hitl) : Program Fault (Terminal β) Unit := do
  let answers ← ask_hitl hitl
  send_reply lib marie session_id id answers

/-- The loop of the events, for `fuel` events at most. -/
def follow (session_id : ID) : Nat → Program Fault (Terminal β) Unit
  | 0 => throw .Waiting
  | fuel + 1 => do
    match ← next_event with
    | none => pure ()
    | some (.LogCreated log) | some (.LogUpdated log) => do
      print (.Log log)
      follow session_id fuel
    | some (.HitlRequested id hitl) => do
      answer_hitl lib marie session_id id hitl
      follow session_id fuel
    | some .HitlAnswered => follow session_id fuel
    | some (.SessionStatusUpdated status) =>
      if is_terminal status then print (.Ended status) else follow session_id fuel

def run_live (session_id : ID) : Program Fault (Terminal β) Unit := do
  match ← call (lib.get_session marie session_id) with
  | .error err => print (.Text ("erreur: " ++ err))
  | .ok view => do
    view.logs.forM fun log => print (.Log log)
    modify fun t =>
      let stream := lib.stream_session_events marie session_id t.backend
      { t with events := stream.1.1, closed := stream.1.2, backend := stream.2 }
    view.pendings.forM fun pending => answer_hitl lib marie session_id pending.1 pending.2
    if is_terminal view.status then print (.AlreadyEnded view.status)
    else do
      -- each turn of the loop takes an event
      let fuel ← Program.asks fun t : Terminal β => t.events.length + 1
      follow lib marie session_id fuel

def run_consult (expert_id : ExpertId) (task : Text) : Program Fault (Terminal β) Unit := do
  print (.Text ("consultation de l'expert '" ++ expert_id ++ "'…"))
  match ← call (lib.consult marie expert_id task) with
  | .ok text => print (.Text (text.getD "(aucune réponse)"))
  | .error err => print (.Text ("erreur: " ++ err))

inductive SessionKind
  | Live (session_id : ID)
  | Consult (expert_id : ExpertId) (task : Text)

def run_session : SessionKind → Program Fault (Terminal β) Unit
  | .Consult expert_id task => run_consult lib marie expert_id task
  | .Live session_id => run_live lib marie session_id

end

end marie.cli
