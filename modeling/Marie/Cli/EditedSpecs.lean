-- The spec that the commands of the node editor leave. Each channel should be declared
-- once, and be as the last command says that fixed it.
import Marie.Cli.NodeEditor
import Marie.Lib.Runs

namespace marie.cli

open session

/-! ## What commands fix -/

inductive Membership
  | exported
  | inherited
  | imported

/-- The channels of this membership. -/
def Membership.of : Membership → CommonSpec → List ChannelName
  | .exported, spec => spec.exported_channels
  | .inherited, spec => spec.inherited_channels
  | .imported, spec => spec.imported_channels

/-- What a command fixes of a channel. -/
structure Change where
  name : ChannelName
  reducer : Option Reducer
  membership : Membership → Option Bool

def memberships (exported inherited imported : Option Bool) : Membership → Option Bool
  | .exported => exported
  | .inherited => inherited
  | .imported => imported

/-- An addition fixes all of a channel, with a default for what it does not say. -/
def Command.fixes : Command → Except CliError Change
  | .add_channel tokens => do
    let args ← parse_command_args tokens 1
    let name ← args.positional 0
    let reducer ← args.flag_reducer "reducer".toList
    let exported ← args.flag_bool "exported".toList false
    let inherited ← args.flag_bool "inherited".toList false
    let imported ← args.flag_bool "imported".toList false
    .ok ⟨String.ofList name, some (reducer.getD .LastWriteWins),
      memberships (some exported) (some inherited) (some imported)⟩
  | .set_channel tokens => do
    let args ← parse_command_args tokens 1
    let name ← args.positional 0
    let reducer ← args.flag_reducer "reducer".toList
    let exported ← args.flag_bool_opt "exported".toList
    let inherited ← args.flag_bool_opt "inherited".toList
    let imported ← args.flag_bool_opt "imported".toList
    .ok ⟨String.ofList name, reducer, memberships exported inherited imported⟩

/-- What the last of the changes that fixed it says of a channel. -/
def last_fixed {α : Type} (f : Change → Option α) (name : ChannelName) (changes : List Change) :
    Option α :=
  ((changes.filter (·.name = name)).filterMap f).getLast?

/-- The names that are declared, once for each declaration. -/
def declared (spec : CommonSpec) : List ChannelName := spec.channels.map ChannelSpec.name

/-- A spec has each channel once, in each list at most once, and as the changes fixed it. -/
structure WellFormed (spec : CommonSpec) (changes : List Change) : Prop where
  channels : (declared spec).Nodup
  lists : ∀ m : Membership, (m.of spec).Nodup
  listed : ∀ m : Membership, ∀ name ∈ m.of spec, name ∈ declared spec
  reducer : ∀ c ∈ spec.channels, last_fixed Change.reducer c.name changes = some c.reducer
  membership : ∀ m : Membership, ∀ name ∈ declared spec,
    (name ∈ m.of spec ↔ last_fixed (fun change => change.membership m) name changes = some true)

section Runs

variable (parse_f64 : Text → Option Value)

/-- The node that is edited, and what the accepted commands have fixed. -/
structure Editing where
  node : NodeSpec
  changes : List Change

def Editing.step (s : Editing) (c : Command) : Editing :=
  match c.run parse_f64 s.node with
  | (.ok (), node) => ⟨node, s.changes ++ c.fixes.toOption.toList⟩
  | (.error _, node) => ⟨node, s.changes⟩

/-- The commands, from a node on. -/
def editing (created : NodeSpec) (commands : List Command) : Editing :=
  commands.foldl (Editing.step parse_f64) ⟨created, []⟩

/-- The node is well formed after these commands. -/
def WellEdited (created : NodeSpec) (before : List Command) : Prop :=
  WellFormed (editing parse_f64 created before).node.common
    (editing parse_f64 created before).changes

/-- An addition whose arguments are read is not of a channel that is declared. -/
def AddsNew (created : NodeSpec) (before : List Command) (c : Command) : Prop :=
  ∀ tokens change, c = .add_channel tokens → c.fixes = .ok change →
    change.name ∉ declared (editing parse_f64 created before).node.common

end Runs

/-! ## One command -/

variable {parse_f64 : Text → Option Value} {spec spec' : CommonSpec} {changes : List Change}
  {change : Change} {name : ChannelName} {node : NodeSpec}

/-- The channel is declared once more, and listed as it is asked. -/
structure Adds (change : Change) (spec spec' : CommonSpec) : Prop where
  channels : ∃ reducer, change.reducer = some reducer ∧
    spec'.channels = spec.channels ++ [⟨change.name, reducer⟩]
  lists : ∀ m : Membership, ∃ present, change.membership m = some present ∧
    m.of spec' = m.of spec ++ if present then [change.name] else []

/-- The first declaration of the channel is replaced, and it is listed as it is asked. -/
structure Sets (change : Change) (spec spec' : CommonSpec) : Prop where
  channels : ∃ idx : Fin spec.channels.length, spec.channels[idx].name = change.name ∧
    spec'.channels = spec.channels.set idx
      ⟨change.name, change.reducer.getD spec.channels[idx].reducer⟩
  lists : ∀ m : Membership, m.of spec' = (change.membership m).elim (m.of spec)
    fun present => set_membership change.name present (m.of spec)

theorem run_lift {α β : Type} (x : Except CliError α) (f : α → Edit β) (node : NodeSpec) :
    ((liftM x : Edit α) >>= f).run.run node =
      match x with
      | .error e => (.error e, node)
      | .ok a => (f a).run.run node := by
  cases x with
  | error e => rfl
  | ok a => rfl

theorem run_modify {β : Type} (g : NodeSpec → NodeSpec) (f : Unit → Edit β) (node : NodeSpec) :
    ((modify g : Edit Unit) >>= f).run.run node = (f ()).run.run (g node) := rfl

theorem run_last_modify (g : NodeSpec → NodeSpec) (node : NodeSpec) :
    (modify g : Edit Unit).run.run node = (.ok (), g node) := rfl

theorem run_unit (node : NodeSpec) : (pure () : Edit Unit).run.run node = (.ok (), node) := rfl

theorem run_get {β : Type} (f : NodeSpec → Edit β) (node : NodeSpec) :
    ((get : Edit NodeSpec) >>= f).run.run node = (f node).run.run node := rfl

/-- An addition is accepted when its arguments are read. -/
theorem add_channel_cases (parse_f64 : Text → Option Value) (tokens : List Text)
    (node : NodeSpec) :
    (∃ e, Command.run parse_f64 (.add_channel tokens) node = (.error e, node) ∧
      Command.fixes (.add_channel tokens) = .error e) ∨
    ∃ change node', Command.run parse_f64 (.add_channel tokens) node = (.ok (), node') ∧
      Command.fixes (.add_channel tokens) = .ok change ∧ Adds change node.common node'.common := by
  unfold Command.run dispatch add_channel Command.fixes
  simp only [run_lift]
  split
  · rename_i e hargs
    exact .inl ⟨e, rfl, by simp only [hargs, bind, Except.bind]⟩
  rename_i args hargs
  split
  · rename_i e hname
    exact .inl ⟨e, rfl, by simp only [hargs, hname, bind, Except.bind]⟩
  rename_i name hname
  split
  · rename_i e hreducer
    exact .inl ⟨e, rfl, by simp only [hargs, hname, hreducer, bind, Except.bind]⟩
  rename_i reducer hreducer
  split
  · rename_i e hexported
    exact .inl ⟨e, rfl, by simp only [hargs, hname, hreducer, hexported, bind, Except.bind]⟩
  rename_i exported hexported
  split
  · rename_i e hinherited
    exact .inl ⟨e, rfl, by
      simp only [hargs, hname, hreducer, hexported, hinherited, bind, Except.bind]⟩
  rename_i inherited hinherited
  split
  · rename_i e himported
    exact .inl ⟨e, rfl, by
      simp only [hargs, hname, hreducer, hexported, hinherited, himported, bind, Except.bind]⟩
  rename_i imported himported
  split
  · rename_i e hdefault
    obtain ⟨value, hvalue⟩ := args.flag_value_ok parse_f64 "default".toList
    rw [hvalue] at hdefault
    cases hdefault
  rename_i default hdefault
  refine .inr ⟨⟨String.ofList name, some (reducer.getD .LastWriteWins),
    memberships (some exported) (some inherited) (some imported)⟩, ⟨node.kind,
      { node.common with
        channels := node.common.channels ++ [⟨String.ofList name, reducer.getD .LastWriteWins⟩]
        exported_channels :=
          node.common.exported_channels ++ if exported then [String.ofList name] else []
        inherited_channels :=
          node.common.inherited_channels ++ if inherited then [String.ofList name] else []
        imported_channels :=
          node.common.imported_channels ++ if imported then [String.ofList name] else []
        default_values := match default with
          | none => node.common.default_values
          | some value => node.common.default_values.write (String.ofList name) value }⟩,
    ?_, ?_, ?_⟩
  · cases exported <;> cases inherited <;> cases imported <;> cases default <;>
      simp only [run_modify, run_last_modify, run_unit, Bool.false_eq_true, if_true, if_false,
        List.append_nil]
  · simp only [hargs, hname, hreducer, hexported, hinherited, himported, bind, Except.bind]
  · refine ⟨⟨_, rfl, rfl⟩, fun m => ?_⟩
    cases m with
    | exported => exact ⟨exported, rfl, rfl⟩
    | inherited => exact ⟨inherited, rfl, rfl⟩
    | imported => exact ⟨imported, rfl, rfl⟩

theorem set_channel_cases (parse_f64 : Text → Option Value) (tokens : List Text) (node : NodeSpec) :
    (∃ e, Command.run parse_f64 (.set_channel tokens) node = (.error e, node)) ∨
      ∃ change node', Command.run parse_f64 (.set_channel tokens) node = (.ok (), node') ∧
        Command.fixes (.set_channel tokens) = .ok change ∧
          Sets change node.common node'.common := by
  unfold Command.run dispatch set_channel
  simp only [run_lift]
  split
  · exact .inl ⟨_, rfl⟩
  rename_i args hargs
  split
  · exact .inl ⟨_, rfl⟩
  rename_i name hname
  split
  · exact .inl ⟨_, rfl⟩
  rename_i reducer hreducer
  split
  · exact .inl ⟨_, rfl⟩
  rename_i exported hexported
  split
  · exact .inl ⟨_, rfl⟩
  rename_i inherited hinherited
  split
  · exact .inl ⟨_, rfl⟩
  rename_i imported himported
  rw [run_get]
  cases hidx : node.common.channels.findFinIdx? fun c => c.name = String.ofList name with
  | none => exact .inl ⟨_, rfl⟩
  | some idx =>
    refine .inr ⟨⟨String.ofList name, reducer, memberships exported inherited imported⟩,
      ⟨node.kind, { node.common with
        channels := node.common.channels.set idx
          ⟨String.ofList name, reducer.getD node.common.channels[idx].reducer⟩
        exported_channels := exported.elim node.common.exported_channels
          fun present => set_membership (String.ofList name) present node.common.exported_channels
        inherited_channels := inherited.elim node.common.inherited_channels
          fun present => set_membership (String.ofList name) present node.common.inherited_channels
        imported_channels := imported.elim node.common.imported_channels
          fun present => set_membership (String.ofList name) present node.common.imported_channels }⟩,
      ?_, ?_, ?_⟩
    · cases exported <;> cases inherited <;> cases imported <;>
        simp only [run_modify, run_last_modify, run_unit, Option.elim_none, Option.elim_some]
    · unfold Command.fixes
      simp only [hargs, hname, hreducer, hexported, hinherited, himported, bind, Except.bind]
    · refine ⟨⟨idx, ?_, rfl⟩, fun m => ?_⟩
      · simpa using (List.findFinIdx?_eq_some_iff.mp hidx).1
      · cases m with
        | exported => rfl
        | inherited => rfl
        | imported => rfl

/-! ## What is fixed last -/

theorem last_fixed_concat {α : Type} (f : Change → Option α) :
    last_fixed f name (changes ++ [change]) =
      if change.name = name then (f change).or (last_fixed f name changes)
      else last_fixed f name changes := by
  unfold last_fixed
  rw [List.filter_append, List.filterMap_append, List.getLast?_append]
  by_cases h : change.name = name
  · rw [if_pos h]
    cases hf : f change <;> simp [h, hf]
  · simp [h]

theorem mem_set_membership {x : ChannelName} {present : Bool} {list : List ChannelName} :
    x ∈ set_membership name present list ↔ if x = name then present = true else x ∈ list := by
  unfold set_membership
  by_cases hx : x = name
  · subst hx
    cases present <;> by_cases hmem : x ∈ list <;> simp [hmem]
  · cases present <;> by_cases hmem : name ∈ list <;> simp [hmem, hx]

theorem nodup_set_membership {present : Bool} {list : List ChannelName} (h : list.Nodup) :
    (set_membership name present list).Nodup := by
  unfold set_membership
  simp only
  split
  · rename_i hnew
    rw [List.nodup_append]
    refine ⟨h, List.nodup_singleton _, ?_⟩
    simp only [List.mem_singleton]
    rintro x hx _ rfl rfl
    simp [hx] at hnew
  · split
    · exact h.filter _
    · exact h

/-! ## What a command preserves -/

theorem Adds.declared_eq (h : Adds change spec spec') :
    declared spec' = declared spec ++ [change.name] := by
  obtain ⟨reducer, -, hchannels⟩ := h.channels
  unfold declared
  rw [hchannels, List.map_append, List.map_singleton]

/-- A new channel is as the addition says. -/
theorem Adds.well_formed (h : Adds change spec spec') (hspec : WellFormed spec changes)
    (hnew : change.name ∉ declared spec) : WellFormed spec' (changes ++ [change]) := by
  constructor
  · rw [h.declared_eq, List.nodup_append]
    refine ⟨hspec.channels, List.nodup_singleton _, ?_⟩
    simp only [List.mem_singleton]
    rintro name hname _ rfl rfl
    exact hnew hname
  · intro m
    obtain ⟨present, -, hlist⟩ := h.lists m
    rw [hlist, List.nodup_append]
    refine ⟨hspec.lists m, by split <;> simp, ?_⟩
    rintro name hname other hother rfl
    split at hother
    · rw [List.mem_singleton.mp hother] at hname
      exact hnew (hspec.listed m _ hname)
    · simp at hother
  · intro m name hname
    obtain ⟨present, -, hlist⟩ := h.lists m
    rw [h.declared_eq, List.mem_append]
    rw [hlist, List.mem_append] at hname
    rcases hname with hname | hname
    · exact .inl (hspec.listed m name hname)
    · split at hname
      · exact .inr hname
      · simp at hname
  · intro c hc
    obtain ⟨reducer, hreducer, hchannels⟩ := h.channels
    rw [hchannels, List.mem_append, List.mem_singleton] at hc
    rw [last_fixed_concat]
    rcases hc with hc | rfl
    · have hne : change.name ≠ c.name := by
        intro heq
        apply hnew
        rw [heq]
        exact List.mem_map_of_mem hc
      rw [if_neg hne]
      exact hspec.reducer c hc
    · rw [if_pos rfl, hreducer, Option.some_or]
  · intro m name hname
    obtain ⟨present, hpresent, hlist⟩ := h.lists m
    rw [h.declared_eq, List.mem_append, List.mem_singleton] at hname
    rw [hlist, last_fixed_concat, List.mem_append]
    by_cases heq : change.name = name
    · subst heq
      have hnot : change.name ∉ m.of spec := fun hmem => hnew (hspec.listed m _ hmem)
      rw [if_pos rfl, hpresent]
      cases present <;> simp [hnot]
    · rw [if_neg heq, ← hspec.membership m name (hname.resolve_right (Ne.symm heq))]
      cases present <;> simp [Ne.symm heq]

theorem Sets.declared_eq (h : Sets change spec spec') : declared spec' = declared spec := by
  obtain ⟨idx, hname, hchannels⟩ := h.channels
  unfold declared
  rw [hchannels, List.map_set]
  apply List.ext_getElem (by simp)
  intro j hj _
  rw [List.getElem_set]
  split
  · rename_i heq
    subst heq
    simpa using hname.symm
  · rfl

/-- The channel that is set is the only one of its name. -/
theorem Sets.reducer (h : Sets change spec spec') (hspec : WellFormed spec changes) :
    ∀ c ∈ spec'.channels,
      last_fixed Change.reducer c.name (changes ++ [change]) = some c.reducer := by
  obtain ⟨idx, hname, hchannels⟩ := h.channels
  intro c hc
  rw [hchannels] at hc
  obtain ⟨j, hj, rfl⟩ := List.getElem_of_mem hc
  rw [List.length_set] at hj
  rw [last_fixed_concat, List.getElem_set]
  split
  · have hold := hspec.reducer spec.channels[idx] (List.getElem_mem _)
    rw [hname] at hold
    rw [if_pos rfl, hold]
    cases change.reducer <;> simp
  · rename_i hne
    have hother : change.name ≠ spec.channels[j].name := by
      intro heq
      have hsame := List.inj_on_of_nodup_map hspec.channels
        (List.getElem_mem idx.isLt) (List.getElem_mem hj) (hname.trans heq)
      exact hne ((List.Nodup.of_map _ hspec.channels).getElem_inj_iff.mp hsame)
    rw [if_neg hother]
    exact hspec.reducer _ (List.getElem_mem _)

/-- A channel that is there is set as it is asked, and the others stay. -/
theorem Sets.well_formed (h : Sets change spec spec') (hspec : WellFormed spec changes) :
    WellFormed spec' (changes ++ [change]) := by
  have hmem : change.name ∈ declared spec := by
    obtain ⟨idx, hname, -⟩ := h.channels
    rw [← hname]
    exact List.mem_map_of_mem (List.getElem_mem _)
  constructor
  · rw [h.declared_eq]
    exact hspec.channels
  · intro m
    rw [h.lists m]
    cases change.membership m with
    | none => exact hspec.lists m
    | some present => exact nodup_set_membership (hspec.lists m)
  · intro m name hname
    rw [h.declared_eq]
    rw [h.lists m] at hname
    cases hask : change.membership m with
    | none =>
      rw [hask] at hname
      exact hspec.listed m name hname
    | some present =>
      rw [hask, Option.elim_some, mem_set_membership] at hname
      split at hname
      · rename_i heq
        rw [heq]
        exact hmem
      · exact hspec.listed m name hname
  · exact h.reducer hspec
  · intro m name hname
    rw [h.declared_eq] at hname
    rw [h.lists m, last_fixed_concat]
    cases hask : change.membership m with
    | none =>
      rw [Option.elim_none, Option.none_or, ite_self]
      exact hspec.membership m name hname
    | some present =>
      rw [Option.elim_some, mem_set_membership]
      by_cases heq : name = change.name
      · simp [heq]
      · rw [if_neg heq, if_neg (Ne.symm heq)]
        exact hspec.membership m name hname

/-! ## Runs -/

/-- A command that is rejected leaves the node. -/
theorem run_of_error (c : Command) (node : NodeSpec) {e : CliError}
    (h : (c.run parse_f64 node).1 = .error e) : (c.run parse_f64 node).2 = node := by
  cases c with
  | add_channel tokens =>
    rcases add_channel_cases parse_f64 tokens node with
      ⟨e', hrun, -⟩ | ⟨change, node', hrun, -, -⟩
    · rw [hrun]
    · rw [hrun] at h
      cases h
  | set_channel tokens =>
    rcases set_channel_cases parse_f64 tokens node with
      ⟨e', hrun⟩ | ⟨change, node', hrun, -, -⟩
    · rw [hrun]
    · rw [hrun] at h
      cases h

variable {created : NodeSpec} {before : List Command}

theorem editing_concat (c : Command) : editing parse_f64 created (before ++ [c]) =
    (editing parse_f64 created before).step parse_f64 c := by
  unfold editing
  rw [List.foldl_append, List.foldl_cons, List.foldl_nil]

theorem editing_of_error {c : Command} {e : CliError}
    (h : c.run parse_f64 (editing parse_f64 created before).node =
      (.error e, (editing parse_f64 created before).node)) :
    editing parse_f64 created (before ++ [c]) = editing parse_f64 created before := by
  rw [editing_concat, Editing.step, h]

theorem editing_of_ok {c : Command} {node' : NodeSpec}
    (h : c.run parse_f64 (editing parse_f64 created before).node = (.ok (), node'))
    (hfixes : c.fixes = .ok change) : editing parse_f64 created (before ++ [c]) =
      ⟨node', (editing parse_f64 created before).changes ++ [change]⟩ := by
  rw [editing_concat, Editing.step, h, hfixes]
  rfl

/-- After a command the node is still well formed, unless it added a channel that is declared. -/
theorem well_edited_concat_iff (c : Command) (h : WellEdited parse_f64 created before) :
    WellEdited parse_f64 created (before ++ [c]) ↔ AddsNew parse_f64 created before c := by
  unfold WellEdited AddsNew
  cases c with
  | add_channel tokens =>
    rcases add_channel_cases parse_f64 tokens (editing parse_f64 created before).node
      with ⟨e, hrun, hfixes⟩ | ⟨change, node', hrun, hfixes, hadds⟩
    · rw [editing_of_error hrun]
      refine iff_of_true h ?_
      rintro _ _ ⟨⟩ hok
      rw [hfixes] at hok
      cases hok
    · rw [editing_of_ok hrun hfixes]
      constructor
      · rintro hafter _ _ ⟨⟩ hfixes' hmem
        rw [hfixes] at hfixes'
        cases hfixes'
        have hnodup := hafter.channels
        rw [hadds.declared_eq, List.nodup_append] at hnodup
        exact hnodup.2.2 _ hmem _ (List.mem_singleton_self _) rfl
      · intro hnew
        exact hadds.well_formed h (hnew tokens change rfl hfixes)
  | set_channel tokens =>
    refine iff_of_true ?_ (by rintro _ _ ⟨⟩)
    rcases set_channel_cases parse_f64 tokens (editing parse_f64 created before).node
      with ⟨e, hrun⟩ | ⟨change, node', hrun, hfixes, hsets⟩
    · rw [editing_of_error hrun]
      exact h
    · rw [editing_of_ok hrun hfixes]
      exact hsets.well_formed h

/-- A node is created without a channel. -/
theorem well_edited_nil {tokens : List Text} {node_id : NodeId}
    (h : create_node tokens = .ok (node_id, created)) : WellEdited parse_f64 created [] := by
  have hempty : created.common = {} := by
    unfold create_node at h
    simp only [bind_eq_ok_iff] at h
    obtain ⟨args, -, node_id, -, kind, -, hok⟩ := h
    cases hok
    rfl
  have hlist : ∀ m : Membership, m.of created.common = [] := by
    intro m
    rw [hempty]
    cases m <;> rfl
  have hdeclared : declared created.common = [] := by
    rw [hempty]
    rfl
  constructor
  · exact hdeclared ▸ List.nodup_nil
  · exact fun m => hlist m ▸ List.nodup_nil
  · intro m name hname
    rw [editing, List.foldl_nil, hlist m] at hname
    cases hname
  · intro c hc
    rw [editing, List.foldl_nil, hempty] at hc
    cases hc
  · intro m name hname
    rw [editing, List.foldl_nil, hdeclared] at hname
    cases hname

/-- A rejected command changes nothing. From a node that was created on, the node is well formed at
every moment exactly when no addition whose arguments are read is of a channel that is declared. -/
theorem node_editor_iff (parse_f64 : Text → Option Value) (tokens : List Text) (node_id : NodeId)
    (created : NodeSpec) (hcreated : create_node tokens = .ok (node_id, created))
    (commands : List Command) :
    (∀ (c : Command) (node : NodeSpec) (e : CliError),
      (c.run parse_f64 node).1 = .error e → (c.run parse_f64 node).2 = node) ∧
    (Runs.EveryState (WellEdited parse_f64 created) commands ↔
      Runs.EveryStep (AddsNew parse_f64 created) commands) := by
  refine ⟨fun c node e => run_of_error c node, ?_⟩
  apply Runs.everyState_iff_everyStep (I := fun _ => True) trivial (well_edited_nil hcreated)
  intro before c _ _ h
  exact ⟨well_edited_concat_iff c h, fun _ => trivial⟩

/-! ## A channel that is added twice -/

/-- A node of the kind `agent`. -/
def an_agent : NodeSpec := ⟨"agent", {}⟩

/-- `add channel answer` and `set channel answer`, with these flags. -/
def add_answer (flags : List String) : Command :=
  .add_channel ("answer".toList :: flags.map String.toList)

def set_answer (flags : List String) : Command :=
  .set_channel ("answer".toList :: flags.map String.toList)

theorem a_channel_is_set :
    Runs.EveryState (WellEdited (fun _ => none) an_agent)
      [add_answer ["exported=true"], set_answer ["reducer=append", "exported=false"]] := by
  have hadd : AddsNew (fun _ => none) an_agent [] (add_answer ["exported=true"]) :=
    fun _ _ _ _ hmem => List.not_mem_nil hmem
  have hset : AddsNew (fun _ => none) an_agent [add_answer ["exported=true"]]
      (set_answer ["reducer=append", "exported=false"]) := by
    rintro _ _ ⟨⟩
  refine (node_editor_iff _ ["a".toList, "agent".toList] "a" an_agent rfl _).2.mpr ?_
  exact Runs.everyStep_concat.mpr ⟨Runs.everyStep_concat.mpr ⟨Runs.everyStep_nil, hadd⟩, hset⟩

/-- The second addition is accepted: the channel is declared twice, and it is exported though the
addition fixed that it is not. -/
theorem a_channel_is_declared_twice :
    create_node ["a".toList, "agent".toList] = .ok ("a", an_agent) ∧
    ¬ Runs.EveryState (WellEdited (fun _ => none) an_agent)
      [add_answer ["exported=true"], add_answer []] := by
  refine ⟨rfl, fun h => ?_⟩
  have hafter := (h _ (List.prefix_refl _)).channels
  have htwice : declared (editing (fun _ => none) an_agent
      [add_answer ["exported=true"], add_answer []]).node.common = ["answer", "answer"] := rfl
  rw [htwice] at hafter
  simp at hafter

end marie.cli
