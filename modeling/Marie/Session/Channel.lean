-- The channels of a frame: what a reducer makes of the contributions of one
-- commit, the tracker that a run reads and writes through, and the channel
-- specs of the frames that the program makes itself.
import Marie.Basic

namespace marie.session

abbrev ChannelName := String

/-! ## Reducers -/

inductive Reducer
  | LastWriteWins
  | Append
  | Max
deriving DecidableEq

/-- One turn of the loop of `Reducer::Max`: a contribution that is no number is skipped. -/
def maxOf (best : Option ℚ) (c : Value) : Option ℚ :=
  match c.as_f64 with
  | some n => some (match best with | none => n | some b => max b n)
  | none => best

def Reducer.reduce (r : Reducer) (current : Option Value) (contributions : List Value) : Value :=
  match r with
  | .LastWriteWins => (contributions.getLast?.or current).getD .Null
  | .Append =>
    let vec := match current with
      | some (.Array vec) => vec
      | _ => []
    .Array (vec ++ contributions)
  | .Max =>
    match contributions.foldl maxOf (current.bind Value.as_f64) with
    | some n => .Number (.Float n)
    | none => .Null

structure ChannelSpec where
  name : ChannelName
  reducer : Reducer
deriving DecidableEq

structure ChannelUpdate where
  name : ChannelName
  value : Value
  contributor : FrameId

/-! ## Channels -/

/-- A `HashMap` from channel names to values. -/
abbrev Channels := ChannelName → Option Value

namespace Channels

/-- The map with nothing in it. -/
def empty : Channels := fun _ => none

def get (ch : Channels) (name : ChannelName) : Option Value := ch name

def write (ch : Channels) (name : ChannelName) (value : Value) : Channels :=
  fun n => if n = name then some value else ch n

/-- `extend` with the pairs of another map: these win. -/
def extend (ch values : Channels) : Channels := fun n => (values n).or (ch n)

end Channels

/-- A map from the pairs of a list: a later pair wins. -/
def channelsOf (pairs : List (ChannelName × Value)) : Channels :=
  pairs.foldl (fun ch p => ch.write p.1 p.2) Channels.empty

/-! ## The tracker of one run -/

structure ChannelsTracker where
  frame_id : FrameId
  channels : Channels
  updates : List ChannelUpdate

namespace ChannelsTracker

def new (frame_id : FrameId) (channels : Channels) : ChannelsTracker :=
  { frame_id, channels, updates := [] }

def into_updates (t : ChannelsTracker) : List ChannelUpdate := t.updates

def write (t : ChannelsTracker) (name : ChannelName) (value : Value) : ChannelsTracker :=
  { t with updates := t.updates ++ [{ name, value, contributor := t.frame_id }] }

/-- The last write of this run on `name`, else the inherited value. `none` is the error
`no channel exists`. -/
def read (t : ChannelsTracker) (name : ChannelName) : Option Value :=
  ((t.updates.reverse.find? (fun u => u.name = name)).map (·.value)).or (t.channels.get name)

end ChannelsTracker

/-! ## Channel specs -/

structure Budget where
  max_step : Option Nat := none
  max_tokens : Option Nat := none
deriving DecidableEq

structure CommonSpec where
  budget : Budget := {}
  channels : List ChannelSpec := []
  inherited_channels : List ChannelName := []
  exported_channels : List ChannelName := []
  default_values : Channels := Channels.empty
  overrides_channels : Channels := Channels.empty
  imported_channels : List ChannelName := []

namespace CommonSpec

/-- The reducer of a channel in a commit: the one declared, `LastWriteWins` when there is
none. -/
def reducer_of (spec : CommonSpec) (name : ChannelName) : Reducer :=
  ((spec.channels.find? (fun c => c.name = name)).map (·.reducer)).getD .LastWriteWins

def tool : CommonSpec where
  channels := [⟨"tool_result", .LastWriteWins⟩]
  exported_channels := ["tool_result"]

def tool_aggregator : CommonSpec where
  channels := [⟨"tool_result", .Append⟩]
  imported_channels := ["tool_result"]
  exported_channels := ["tool_result"]

/-- `Context::default()` is a list of entries with nothing in it. -/
def expert : CommonSpec where
  channels := [⟨"expert_task", .LastWriteWins⟩, ⟨"expert_answer", .LastWriteWins⟩,
    ⟨"expert_context", .LastWriteWins⟩, ⟨"tool_result", .LastWriteWins⟩]
  inherited_channels := ["expert_task", "tool_result"]
  exported_channels := ["expert_answer"]
  imported_channels := ["expert_answer", "tool_result"]
  default_values := channelsOf [("expert_context", .Array []), ("tool_result", .Array [])]

def expert_aggregator : CommonSpec where
  channels := [⟨"expert_task", .LastWriteWins⟩, ⟨"expert_answer", .Append⟩]
  inherited_channels := ["expert_task", "expert_answer"]
  imported_channels := ["expert_answer"]
  exported_channels := ["expert_answer"]

def hitl : CommonSpec where
  channels := [⟨"hitl_answer", .LastWriteWins⟩]
  exported_channels := ["hitl_answer"]

end CommonSpec

/-! ## The channels that a commit makes -/

/-- `per_channel.entry(name).or_default().push(value)`. -/
def push_entry (name : ChannelName) (value : Value) :
    List (ChannelName × List Value) → List (ChannelName × List Value)
  | [] => [(name, [value])]
  | (n, vs) :: rest =>
    if n = name then (n, vs ++ [value]) :: rest else (n, vs) :: push_entry name value rest

/-- The contributions of a commit by channel. The code keeps them in a `HashMap`; here the
channels stand in the order of their first contribution. -/
def per_channel (updates : List ChannelUpdate) : List (ChannelName × List Value) :=
  updates.foldl (fun m u => push_entry u.name u.value m) []

/-- The loop of `commit_snapshot` over the contributions of each channel. -/
def reduce_channels (spec : CommonSpec) (channels : Channels)
    (groups : List (ChannelName × List Value)) : Channels :=
  groups.foldl
    (fun ch g => ch.write g.1 ((spec.reducer_of g.1).reduce (ch.get g.1) g.2)) channels

/-- The channels of the snapshot that a commit of `updates` pushes. -/
def commit_channels (spec : CommonSpec) (channels : Channels) (updates : List ChannelUpdate) :
    Channels :=
  reduce_channels spec channels (per_channel updates)

end marie.session
