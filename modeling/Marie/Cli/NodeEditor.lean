-- The node editor of the prompt. A node begins without a channel; one command declares a
-- channel, the other sets what it names of a channel that is there.
import Marie.Cli.Args

namespace marie.cli

open session

abbrev NodeId := String

abbrev NodeKindId := String

structure NodeSpec where
  kind : NodeKindId
  common : CommonSpec

/-- The node of the state at the top of the stack is edited in place. What a command has done before
it fails would stay. -/
abbrev Edit := ExceptT CliError (StateM NodeSpec)

/-- The node that is put on the stack. The tokens are those after `create node`. -/
def create_node (tokens : List Text) : Except CliError (NodeId × NodeSpec) := do
  let args ← parse_command_args tokens 2
  let node_id ← args.positional 0
  let kind ← args.positional 1
  .ok (String.ofList node_id, { kind := String.ofList kind, common := {} })

def set_membership (name : ChannelName) (present : Bool) (list : List ChannelName) :
    List ChannelName :=
  let already := decide (name ∈ list)
  if present && !already then list ++ [name]
  else if !present && already then list.filter (· ≠ name)
  else list

section Commands

variable (parse_f64 : Text → Option Value)

/-- The tokens are those after `add channel`. -/
def add_channel (tokens : List Text) : Edit Unit := do
  let args ← parse_command_args tokens 1
  let name ← args.positional 0
  let name : ChannelName := String.ofList name
  let reducer ← args.flag_reducer "reducer".toList
  let reducer := reducer.getD .LastWriteWins
  let exported ← args.flag_bool "exported".toList false
  let inherited ← args.flag_bool "inherited".toList false
  let imported ← args.flag_bool "imported".toList false
  let default ← args.flag_value parse_f64 "default".toList
  modify fun spec => { spec with common.channels := spec.common.channels ++ [⟨name, reducer⟩] }
  if exported then
    modify fun spec =>
      { spec with common.exported_channels := spec.common.exported_channels ++ [name] }
  if inherited then
    modify fun spec =>
      { spec with common.inherited_channels := spec.common.inherited_channels ++ [name] }
  if imported then
    modify fun spec =>
      { spec with common.imported_channels := spec.common.imported_channels ++ [name] }
  if let some value := default then
    modify fun spec =>
      { spec with common.default_values := spec.common.default_values.write name value }

/-- The tokens are those after `set channel`. -/
def set_channel (tokens : List Text) : Edit Unit := do
  let args ← parse_command_args tokens 1
  let name ← args.positional 0
  let name : ChannelName := String.ofList name
  let new_reducer ← args.flag_reducer "reducer".toList
  let exported ← args.flag_bool_opt "exported".toList
  let inherited ← args.flag_bool_opt "inherited".toList
  let imported ← args.flag_bool_opt "imported".toList
  let spec ← get
  match spec.common.channels.findFinIdx? fun c => c.name = name with
  | none => throw (.Usage ("canal introuvable: " ++ name))
  | some idx =>
    let reducer := new_reducer.getD spec.common.channels[idx].reducer
    modify fun spec =>
      { spec with common.channels := spec.common.channels.set idx ⟨name, reducer⟩ }
    if let some flag := exported then
      modify fun spec =>
        { spec with
          common.exported_channels := set_membership name flag spec.common.exported_channels }
    if let some flag := inherited then
      modify fun spec =>
        { spec with
          common.inherited_channels := set_membership name flag spec.common.inherited_channels }
    if let some flag := imported then
      modify fun spec =>
        { spec with
          common.imported_channels := set_membership name flag spec.common.imported_channels }

/-- The commands that edit the node, with the tokens after their two words. -/
inductive Command
  | add_channel (tokens : List Text)
  | set_channel (tokens : List Text)

def dispatch : Command → Edit Unit
  | .add_channel tokens => add_channel parse_f64 tokens
  | .set_channel tokens => set_channel tokens

/-- The answer to a command, and the node after it. -/
def Command.run (c : Command) (spec : NodeSpec) : Except CliError Unit × NodeSpec :=
  (dispatch parse_f64 c).run.run spec

end Commands

end marie.cli
