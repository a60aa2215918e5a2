-- The command prompt: a stack of states, and in each state its own commands. A line is
-- given to the state at the top. A session that is put on the stack is run at once.
import Marie.Cli.Terminal

namespace marie.cli

open Program Maps Texts session

/-! ## The states -/

structure CommandSpec where
  name : String
  usage : String
deriving DecidableEq

inductive ReplState (M : Type)
  | Root
  | LocalConnected (marie : M)
  | ExecutingSession (marie : M) (kind : SessionKind)
  | EditingGraph (marie : M) (spec : GraphSpec)
  | EditingNode (node_id : NodeId) (spec : NodeSpec)

def ROOT_COMMANDS : List CommandSpec := [
  ⟨"connect local", "connect local <in-memory|postgres>"⟩,
  ⟨"connect remote", "connect remote <addr>  (pas encore implémenté)"⟩,
  ⟨"help", "help"⟩,
  ⟨"exit", "exit — quitte le REPL"⟩]

def LOCAL_CONNECTED_COMMANDS : List CommandSpec := [
  ⟨"list sessions", "list sessions"⟩,
  ⟨"create session shell", "create session shell <expert-id>"⟩,
  ⟨"create session execute graph",
    "create session execute graph <graph-id> [channel=value ...]"⟩,
  ⟨"create session consult expert", "create session consult expert <expert-id> \"<task>\""⟩,
  ⟨"delete session", "delete session <id>"⟩,
  ⟨"list models", "list models"⟩,
  ⟨"create model", "create model <id> openai-compat base-url=<url> client-id=<id> " ++
      "api-key=<key> model=<model> [system-prompt=\"...\"]"⟩,
  ⟨"delete model", "delete model <id>"⟩,
  ⟨"list experts", "list experts"⟩,
  ⟨"create expert", "create expert <id> model=<model-id> allowed-tools=<a,b,c> prompt=\"...\""⟩,
  ⟨"delete expert", "delete expert <id>"⟩,
  ⟨"set expert", "set expert <id> [prompt=\"...\"]"⟩,
  ⟨"list tools", "list tools"⟩,
  ⟨"list graphs", "list graphs"⟩,
  ⟨"create graph", "create graph <id>"⟩,
  ⟨"disconnect", "disconnect"⟩]

def EXECUTING_SESSION_COMMANDS : List CommandSpec := [
  ⟨"(aucune)",
    "affiche les logs en direct et répond aux requêtes hitl — Ctrl-D pour se détacher"⟩]

def EDITING_GRAPH_COMMANDS : List CommandSpec := [
  ⟨"set entry", "set entry <node-id>"⟩,
  ⟨"list nodes", "list nodes"⟩,
  ⟨"create node", "create node <node-id> <kind>"⟩,
  ⟨"connect", "connect <node-id-a> <node-id-b>"⟩,
  ⟨"disconnect", "disconnect <node-id-a> <node-id-b>"⟩,
  ⟨"save", "save — sauvegarde le graphe et quitte l'édition"⟩]

def EDITING_NODE_COMMANDS : List CommandSpec := [
  ⟨"add channel", "add channel <name> [exported=bool] [inherited=bool] [imported=bool] " ++
      "[reducer=append|lww|max] [default=<value>]"⟩,
  ⟨"set channel", "set channel <name> [exported=bool] [inherited=bool] [imported=bool] " ++
      "[reducer=append|lww|max]"⟩,
  ⟨"save", "save — enregistre le noeud dans le graphe en cours d'édition"⟩]

namespace ReplState

variable {M : Type}

def commands : ReplState M → List CommandSpec
  | .Root => ROOT_COMMANDS
  | .LocalConnected _ => LOCAL_CONNECTED_COMMANDS
  | .ExecutingSession _ _ => EXECUTING_SESSION_COMMANDS
  | .EditingGraph _ _ => EDITING_GRAPH_COMMANDS
  | .EditingNode _ _ => EDITING_NODE_COMMANDS

def label (debug : String → String) : ReplState M → String
  | .Root => "root"
  | .LocalConnected _ => "local"
  | .ExecutingSession _ (.Live id) => "session:" ++ id.to_string
  | .ExecutingSession _ (.Consult expert_id _) => "consult:" ++ expert_id
  | .EditingGraph _ spec => "graph:" ++ spec.id
  | .EditingNode node_id _ => "node:NodeId(" ++ debug node_id ++ ")"

def is_root : ReplState M → Bool
  | .Root => true
  | _ => false

end ReplState

/-- The top of the stack is first. The flag `verbose` is left out, and with it the second line that
an error prints when the flag is set, its `Debug` form. -/
structure Repl (β M : Type) where
  stack : List (ReplState M)
  completer_table : List CommandSpec
  terminal : Terminal β

abbrev Prompt (β M α : Type) := Program Fault (Repl β M) α

section

variable {β M : Type}

/-- On the terminal, with the stack as it is. -/
def on_terminal {α : Type} (m : Program Fault (Terminal β) α) : Prompt β M α :=
  zoom Repl.terminal (fun terminal s => { s with terminal }) m

def print_line (line : String) : Prompt β M Unit := on_terminal (print (.Text line))

/-- A call to marie, with its error as one of the prompt. -/
def ask {α : Type} (f : Call β α) : Prompt β M α := do
  match ← on_terminal (call f) with
  | .ok a => pure a
  | .error err => throw (.Marie err)

/-- `expect`, of a stack that is never empty. -/
def top : Prompt β M (ReplState M) := do
  match (← get).stack with
  | [] => throw .Panic
  | state :: _ => pure state

def sync_completer_table : Prompt β M Unit := do
  let state ← top
  modify fun s => { s with completer_table := state.commands }

def push (state : ReplState M) : Prompt β M Unit := do
  modify fun s => { s with stack := state :: s.stack }
  sync_completer_table

def pop : Prompt β M (Option (ReplState M)) := do
  match (← get).stack with
  | popped :: state :: stack => do
    modify fun s => { s with stack := state :: stack }
    sync_completer_table
    pure (some popped)
  | _ => pure none

/-! ## Arguments -/

def usage {α : Type} (x : Except CliError α) : Prompt β M α :=
  match x with
  | .ok a => pure a
  | .error e => throw (.Usage e)

/-- `&tokens[n..]`. -/
def tokens_from (n : Nat) (tokens : List Text) : Prompt β M (List Text) :=
  if n ≤ tokens.length then pure (tokens.drop n) else throw .Panic

/-- `parse_command_args(&tokens[n..], n_positional)`. -/
def args_from (n n_positional : Nat) (tokens : List Text) : Prompt β M CommandArgs := do
  let rest ← tokens_from n tokens
  usage (parse_command_args rest n_positional)

def positional (args : CommandArgs) (i : Nat) : Prompt β M Text := usage (args.positional i)

/-- `flag_text(..).ok_or_else(..)`. -/
def required (args : CommandArgs) (key : String) : Prompt β M Text :=
  match args.flag_text key.toList with
  | some text => pure text
  | none => throw (.Usage (.Usage (key ++ " manquant")))

def CommandArgs.flag_csv (self : CommandArgs) (key : Text) : List Text :=
  match self.flag_str key with
  | none => []
  | some s => ((s.splitOn ',').map trim).filter (!·.isEmpty)

/-- The two words that a command begins with. -/
def words (tokens : List Text) (first second : String) : Prop :=
  tokens[0]? = some first.toList ∧ tokens[1]? = some second.toList

instance (tokens : List Text) (first second : String) : Decidable (words tokens first second) :=
  inferInstanceAs (Decidable (_ ∧ _))

/-- No command of the state begins with these words. -/
def unknown {α : Type} (debug : String → String) (tokens : List Text) : Prompt β M α := do
  let state ← top
  throw (.UnknownCommand (state.label debug) ([' '].intercalate tokens))

variable (lib : LocalMarie β M)

/-! ## At the root -/

namespace root

/-- The `match` on the mode that `connect local` was given. -/
def database_mode (mode : Text) : Prompt β M DatabaseMode := do
  if mode = "in-memory".toList then pure .InMemory
  else if mode = "postgres".toList then
    match lib.database_url (← get).terminal.backend with
    | some url => pure (.Postgres url)
    | none => throw (.Usage (.Usage ("DATABASE_URL doit être défini dans l'environnement " ++
      "(ou le fichier .env) pour connect local postgres")))
  else throw (.Usage (.Usage ("mode de base de données inconnu: " ++ String.ofList mode ++
    " (attendu in-memory|postgres)")))

def connect_local (tokens : List Text) : Prompt β M Unit := do
  let args ← args_from 2 1 tokens
  let mode ← positional args 0
  let database_mode ← database_mode lib mode
  let marie ← ask (lib.connect database_mode)
  print_line "connecté (local)"
  push (.LocalConnected marie)

def connect_remote (tokens : List Text) : Prompt β M Unit := do
  let args ← args_from 2 1 tokens
  let addr ← positional args 0
  print_line ("connect remote n'est pas encore implémenté (adresse demandée: " ++
    String.ofList addr ++ ")")

def dispatch (tokens : List Text) : Prompt β M Unit :=
  if tokens[0]? = some "connect".toList then
    if tokens[1]? = some "local".toList then connect_local lib tokens
    else if tokens[1]? = some "remote".toList then connect_remote tokens
    else throw (.Usage (.Usage "connect local <in-memory|postgres> | connect remote <addr>"))
  else unknown lib.debug tokens

end root

/-! ## Connected -/

namespace local_connected

variable (marie : M)

/-- A list is asked for and printed. -/
def list (f : Call β String) : Prompt β M Unit := do
  let rendered ← ask f
  print_line rendered

/-- What the first argument names is deleted. -/
def delete (f : Text → Call β Unit) (done : String) (tokens : List Text) : Prompt β M Unit := do
  let args ← args_from 2 1 tokens
  let id ← positional args 0
  ask (f id)
  print_line done

def list_sessions : Prompt β M Unit := list (lib.list_sessions marie)

/-- What the flags of a command put in the channels. -/
def initial_channels (args : CommandArgs) : Prompt β M Channels :=
  args.flags.entries.foldlM (fun initial flag => do
    let value ← usage (parse_value lib.parse_f64 flag.2)
    pure (initial.write (String.ofList flag.1) value)) Channels.empty

def create_session (tokens : List Text) : Prompt β M Unit :=
  if tokens[2]? = some "shell".toList then do
    let args ← args_from 3 1 tokens
    let expert_id ← positional args 0
    let id ← ask (lib.create_session marie (.Shell (.Expert (String.ofList expert_id))))
    print_line ("session créée: " ++ id.to_string)
    push (.ExecutingSession marie (.Live id))
  else if tokens[2]? = some "execute".toList ∧ tokens[3]? = some "graph".toList then do
    let args ← args_from 4 1 tokens
    let graph_id ← positional args 0
    let initial ← initial_channels lib args
    let id ← ask (lib.create_session marie (.Graph (String.ofList graph_id) initial))
    print_line ("session créée: " ++ id.to_string)
    push (.ExecutingSession marie (.Live id))
  else if tokens[2]? = some "consult".toList ∧ tokens[3]? = some "expert".toList then do
    let args ← args_from 4 2 tokens
    let expert_id ← positional args 0
    let task ← positional args 1
    push (.ExecutingSession marie (.Consult (String.ofList expert_id) task))
  else throw (.Usage (.Usage ("create session shell <expert-id> | create session execute graph " ++
    "<graph-id> [channel=value ...] | create session consult expert <expert-id> \"<task>\"")))

/-- The id is parsed before marie is called. -/
def session_id (text : Text) : Prompt β M ID :=
  match ID.parse (String.ofList text) with
  | .ok id => pure id
  | .error .Panic => throw .Panic
  | .error (.Err message) => throw (.Marie message)
  | .error .InvalidType => throw (.Marie "")

def delete_session (tokens : List Text) : Prompt β M Unit := do
  let args ← args_from 2 1 tokens
  let text ← positional args 0
  let id ← session_id text
  ask (lib.delete_session marie id)
  print_line "session supprimée"

def list_models : Prompt β M Unit := list (lib.list_models marie)

def create_model (tokens : List Text) : Prompt β M Unit := do
  let args ← args_from 2 2 tokens
  let id ← positional args 0
  let kind ← positional args 1
  if kind ≠ "openai-compat".toList then
    throw (.Usage (.Usage "seul le type de modèle 'openai-compat' est supporté"))
  let base_url ← required args "base-url"
  let client_id ← required args "client-id"
  let api_key ← required args "api-key"
  let model ← required args "model"
  let system_prompt := args.flag_text "system-prompt".toList
  ask (lib.insert_model marie
    ⟨String.ofList id, base_url, client_id, api_key, model, system_prompt⟩)
  print_line "modèle créé"

def delete_model (tokens : List Text) : Prompt β M Unit :=
  delete (fun id => lib.delete_model marie (String.ofList id)) "modèle supprimé" tokens

def list_experts : Prompt β M Unit := list (lib.list_experts marie)

def create_expert (tokens : List Text) : Prompt β M Unit := do
  let args ← args_from 2 1 tokens
  let id ← positional args 0
  let model ← required args "model"
  let allowed_tools := (args.flag_csv "allowed-tools".toList).map String.ofList
  let prompt ← required args "prompt"
  ask (lib.create_expert marie ⟨String.ofList id, prompt, String.ofList model, allowed_tools⟩)
  print_line "expert créé"

def delete_expert (tokens : List Text) : Prompt β M Unit :=
  delete (fun id => lib.delete_expert marie (String.ofList id)) "expert supprimé" tokens

def set_expert (tokens : List Text) : Prompt β M Unit := do
  let args ← args_from 2 1 tokens
  let id ← positional args 0
  let found ← ask (lib.get_expert marie (String.ofList id))
  let expert ← match found with
    | some expert => pure expert
    | none => throw (.Usage (.Usage ("expert introuvable: " ++ String.ofList id)))
  let expert := match args.flag_text "prompt".toList with
    | some prompt => { expert with prompt }
    | none => expert
  let expert := match args.flag_text "model".toList with
    | some model => { expert with model_id := String.ofList model }
    | none => expert
  let expert := if (args.flag_str "allowed-tools".toList).isSome then
      { expert with allowed_tools := (args.flag_csv "allowed-tools".toList).map String.ofList }
    else expert
  ask (lib.replace_expert marie expert)
  print_line "expert mis à jour"

def list_tools : Prompt β M Unit := list (lib.list_tools marie)

def list_graphs : Prompt β M Unit := list (lib.list_graphs marie)

def create_graph (tokens : List Text) : Prompt β M Unit := do
  let args ← args_from 2 1 tokens
  let id ← positional args 0
  push (.EditingGraph marie ⟨String.ofList id, .empty, .empty, "start", {}⟩)

def dispatch (tokens : List Text) : Prompt β M Unit := do
  match ← top with
  | .LocalConnected marie =>
    if words tokens "list" "sessions" then list_sessions lib marie
    else if words tokens "create" "session" then create_session lib marie tokens
    else if words tokens "delete" "session" then delete_session lib marie tokens
    else if words tokens "list" "models" then list_models lib marie
    else if words tokens "create" "model" then create_model lib marie tokens
    else if words tokens "delete" "model" then delete_model lib marie tokens
    else if words tokens "list" "experts" then list_experts lib marie
    else if words tokens "create" "expert" then create_expert lib marie tokens
    else if words tokens "delete" "expert" then delete_expert lib marie tokens
    else if words tokens "set" "expert" then set_expert lib marie tokens
    else if words tokens "list" "tools" then list_tools lib marie
    else if words tokens "list" "graphs" then list_graphs lib marie
    else if words tokens "create" "graph" then create_graph marie tokens
    else if tokens[0]? = some "disconnect".toList then do
      let _ ← pop
      pure ()
    else unknown lib.debug tokens
  | _ => throw .Panic

end local_connected

/-! ## A graph -/

namespace editing_graph

/-- The graph at the top of the stack, changed in place. -/
def change (f : GraphSpec → GraphSpec) : Prompt β M Unit := do
  match (← get).stack with
  | .EditingGraph marie spec :: stack =>
    modify fun s => { s with stack := .EditingGraph marie (f spec) :: stack }
  | _ => throw .Panic

def set_entry (tokens : List Text) : Prompt β M Unit := do
  let args ← args_from 2 1 tokens
  let node_id ← positional args 0
  change fun spec => { spec with entry := String.ofList node_id }

def format_node (debug : String → String) (node : NodeId × NodeSpec) : String :=
  "NodeId(" ++ debug node.1 ++ ")  kind=NodeKindId(" ++ debug node.2.kind ++ ")  channels=[" ++
    ",".intercalate (node.2.common.channels.map (·.name)) ++ "]"

def format_nodes (debug : String → String) (spec : GraphSpec) : String :=
  if spec.nodes.entries.isEmpty then "(aucun noeud)"
  else "\n".intercalate (spec.nodes.entries.map (format_node debug))

def list_nodes : Prompt β M Unit := do
  match ← top with
  | .EditingGraph _ spec => print_line (format_nodes lib.debug spec)
  | _ => throw .Panic

def create_node (tokens : List Text) : Prompt β M Unit := do
  let rest ← tokens_from 2 tokens
  let (node_id, spec) ← usage (marie.cli.create_node rest)
  push (.EditingNode node_id spec)

def connect (tokens : List Text) : Prompt β M Unit := do
  let args ← args_from 1 2 tokens
  let a ← positional args 0
  let b ← positional args 1
  change fun spec =>
    { spec with edges := spec.edges.insert (String.ofList a, String.ofList b) }

def disconnect (tokens : List Text) : Prompt β M Unit := do
  let args ← args_from 1 2 tokens
  let a ← positional args 0
  change fun spec => { spec with edges := spec.edges.erase (String.ofList a) }

/-- The graph is taken from the stack before marie is called. -/
def save : Prompt β M Unit := do
  match ← pop with
  | some (.EditingGraph marie spec) => do
    let found ← ask (lib.latest_graph marie spec.id)
    if found then ask (lib.replace_graph marie spec)
    else ask (lib.insert_graph marie spec)
    print_line "graphe sauvegardé"
  | _ => throw .Panic

def dispatch (tokens : List Text) : Prompt β M Unit :=
  if words tokens "set" "entry" then set_entry tokens
  else if words tokens "list" "nodes" then list_nodes lib
  else if words tokens "create" "node" then create_node tokens
  else if tokens[0]? = some "connect".toList then connect tokens
  else if tokens[0]? = some "disconnect".toList then disconnect tokens
  else if tokens[0]? = some "save".toList then save lib
  else unknown lib.debug tokens

end editing_graph

/-! ## A node -/

namespace editing_node

/-- A command of the node editor, on the node at the top of the stack. -/
def edit (command : List Text → Edit Unit) (tokens : List Text) : Prompt β M Unit := do
  let rest ← tokens_from 2 tokens
  match (← get).stack with
  | .EditingNode node_id spec :: stack => do
    let edited := (command rest).run.run spec
    modify fun s => { s with stack := .EditingNode node_id edited.2 :: stack }
    usage edited.1
  | _ => throw .Panic

/-- The node is put in the graph that is under it. -/
def save : Prompt β M Unit := do
  match ← pop with
  | some (.EditingNode node_id spec) => do
    editing_graph.change fun graph =>
      { graph with nodes := graph.nodes.insert (node_id, spec) }
    print_line "noeud enregistré"
  | _ => throw .Panic

def dispatch (tokens : List Text) : Prompt β M Unit :=
  if words tokens "add" "channel" then edit (add_channel lib.parse_f64) tokens
  else if words tokens "set" "channel" then edit set_channel tokens
  else if tokens[0]? = some "save".toList then save
  else unknown lib.debug tokens

end editing_node

/-! ## The loop -/

namespace Fault

/-- `fmt::Display` of a `CliError`. -/
def message : Fault → String
  | .Usage (.Usage msg) => msg
  | .UnknownCommand state command => "\"" ++ String.ofList command ++
      "\" n'est pas valide dans l'état '" ++ state ++ "' — essayez 'help'"
  | .Marie error => error
  | _ => ""

def is_error : Fault → Bool
  | .Usage _ | .UnknownCommand _ _ | .Marie _ => true
  | _ => false

end Fault

namespace Repl

def dispatch (tokens : List Text) : Prompt β M Unit := do
  match ← top with
  | .Root => root.dispatch lib tokens
  | .LocalConnected _ => local_connected.dispatch lib tokens
  | .EditingGraph _ _ => editing_graph.dispatch lib tokens
  | .EditingNode _ _ => editing_node.dispatch lib tokens
  | .ExecutingSession _ _ => throw .Panic

/-- The errors of a command are printed, and the loop goes on. -/
def or_print (m : Prompt β M Unit) : Prompt β M Unit :=
  tryCatch m fun e =>
    if e.is_error then print_line ("erreur: " ++ e.message) else throw e

def print_help : Prompt β M Unit := do
  let state ← top
  state.commands.forM fun cmd =>
    print_line (cmd.name ++ String.ofList (List.replicate (45 - cmd.name.length) ' ') ++ " " ++
      cmd.usage)

/-- The prompt ends at the end of the input, if it is at the root. -/
def handle_eof : Prompt β M Bool := do
  match ← top with
  | .Root => pure true
  | .LocalConnected _ => do
    let _ ← pop
    pure false
  | .EditingGraph _ _ | .EditingNode _ _ => do
    print_line "abandon de l'édition (non sauvegardé)"
    let _ ← pop
    pure false
  | .ExecutingSession _ _ => pure false

def handle_line (line : Text) : Prompt β M Unit := do
  let line := trim line
  if line.isEmpty then pure ()
  else match tokenize line with
    | .error err => print_line ("erreur: " ++ (Fault.Usage err).message)
    | .ok tokens =>
      if tokens.head? = some "help".toList then print_help
      else do
        let state ← top
        if tokens.head? = some "exit".toList ∧ state.is_root then throw .Over
        else or_print (dispatch lib tokens)

/-- The `match` on what was read. -/
def handle_read : Read → Prompt β M Unit
  | .Interrupted => print_line "^C"
  | .Eof => do
    let ends ← handle_eof
    if ends then throw .Over else pure ()
  | .Failed err => do
    print_line ("erreur d'entrée: " ++ err)
    throw .Over
  | .Line line => handle_line lib line

/-- The body of the loop of `run`. A session takes its own lines. -/
def turn : Prompt β M Unit := do
  match ← top with
  | .ExecutingSession marie kind => do
    modify fun s => { s with stack := s.stack.tail }
    sync_completer_table
    on_terminal (run_session lib marie kind)
  | _ => do
    let read ← on_terminal read_line
    handle_read lib read

def new (reads : List Typed) (backend : β) : Repl β M where
  stack := [.Root]
  completer_table := ReplState.commands (M := M) .Root
  terminal := ⟨reads, [], true, [], backend⟩

/-- The loop after this many turns, or where it was left. -/
def turns (s : Repl β M) : Nat → Except Fault Unit × Repl β M
  | 0 => (.ok (), s)
  | n + 1 =>
    match turns s n with
    | (.ok _, s') => exec (turn lib) s'
    | left => left

end Repl

end

end marie.cli
