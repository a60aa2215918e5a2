-- The merge of two specs: the second one goes over the first. What has a key is
-- replaced where it stands, or follows; the lists of names are united. Specs
-- that name nothing twice are a monoid under it.
import Marie.Lib.Keyed
import Marie.Session.Channel

namespace marie.session

/-! ## The merge -/

/-- `union`. -/
def union (a b : List ChannelName) : List ChannelName :=
  b.foldl (fun a name => if name ∈ a then a else a ++ [name]) a

namespace CommonSpec

/-- A channel of `b` is written over the channel of `a` with its name, or pushed. -/
def merge (a b : CommonSpec) : CommonSpec where
  budget :=
    { max_step := b.budget.max_step.or a.budget.max_step
      max_tokens := b.budget.max_tokens.or a.budget.max_tokens }
  channels := Keyed.merge ChannelSpec.name a.channels b.channels
  inherited_channels := union a.inherited_channels b.inherited_channels
  exported_channels := union a.exported_channels b.exported_channels
  default_values := a.default_values.extend b.default_values
  overrides_channels := a.overrides_channels.extend b.overrides_channels
  imported_channels := union a.imported_channels b.imported_channels

/-- No channel is declared twice, and no list of names has a name twice. -/
structure Distinct (spec : CommonSpec) : Prop where
  channels : Keyed.Distinct ChannelSpec.name spec.channels
  inherited : spec.inherited_channels.Nodup
  exported : spec.exported_channels.Nodup
  imported : spec.imported_channels.Nodup

/-- The declaration of a channel. -/
def channel (spec : CommonSpec) (name : ChannelName) : Option ChannelSpec :=
  Keyed.find ChannelSpec.name name spec.channels

/-- What `spec` has by name is what `b` has, else what `a` has, and its lists have the names of
both. -/
structure RightBiased (a b spec : CommonSpec) : Prop where
  channel : ∀ name, spec.channel name = (b.channel name).or (a.channel name)
  default_value : ∀ name, spec.default_values name = (b.default_values name).or (a.default_values name)
  overridden : ∀ name,
    spec.overrides_channels name = (b.overrides_channels name).or (a.overrides_channels name)
  max_step : spec.budget.max_step = b.budget.max_step.or a.budget.max_step
  max_tokens : spec.budget.max_tokens = b.budget.max_tokens.or a.budget.max_tokens
  inherited : ∀ name, name ∈ spec.inherited_channels ↔
    name ∈ a.inherited_channels ∨ name ∈ b.inherited_channels
  exported : ∀ name, name ∈ spec.exported_channels ↔
    name ∈ a.exported_channels ∨ name ∈ b.exported_channels
  imported : ∀ name, name ∈ spec.imported_channels ↔
    name ∈ a.imported_channels ∨ name ∈ b.imported_channels

end CommonSpec

/-! ## Unions -/

section Union

variable {a b c : List ChannelName}

theorem upsert_self (name : ChannelName) (a : List ChannelName) :
    Keyed.upsert id name a = if name ∈ a then a else a ++ [name] := by
  have hkeys : (Keyed.upsert id name a).map id =
      if id name ∈ a.map id then a.map id else a.map id ++ [id name] := Keyed.keys_upsert
  simpa using hkeys

/-- A union is the merge of names that are their own keys. -/
theorem union_eq (a b : List ChannelName) : union a b = Keyed.merge id a b := by
  unfold union Keyed.merge
  simp only [upsert_self]

theorem distinct_names : Keyed.Distinct id a ↔ a.Nodup := by
  rw [Keyed.Distinct, List.map_id]

theorem union_assoc (ha : a.Nodup) (hb : b.Nodup) (hc : c.Nodup) :
    union (union a b) c = union a (union b c) := by
  simp only [union_eq]
  exact Keyed.merge_assoc (distinct_names.mpr ha) (distinct_names.mpr hb) (distinct_names.mpr hc)

theorem nil_union (ha : a.Nodup) : union [] a = a := by
  rw [union_eq]
  exact Keyed.nil_merge (distinct_names.mpr ha)

theorem union_nil : union a [] = a := rfl

theorem nodup_union (ha : a.Nodup) (hb : b.Nodup) : (union a b).Nodup := by
  rw [union_eq]
  exact distinct_names.mp ((distinct_names.mpr ha).merge (distinct_names.mpr hb))

theorem mem_union (hb : b.Nodup) (name : ChannelName) : name ∈ union a b ↔ name ∈ a ∨ name ∈ b := by
  have hmem : name ∈ (Keyed.merge id a b).map id ↔ name ∈ a.map id ∨ name ∈ b.map id :=
    Keyed.mem_keys_merge (distinct_names.mpr hb)
  rwa [List.map_id, List.map_id, List.map_id, ← union_eq] at hmem

end Union

/-! ## Specs -/

namespace CommonSpec

variable {a b c : CommonSpec}

theorem extend_assoc (x y z : Channels) : (x.extend y).extend z = x.extend (y.extend z) := by
  funext name
  simp only [Channels.extend, Option.or_assoc]

theorem empty_extend (x : Channels) : Channels.empty.extend x = x := by
  funext name
  simp only [Channels.extend, Channels.empty, Option.or_none]

theorem extend_empty (x : Channels) : x.extend Channels.empty = x := rfl

theorem merge_assoc (ha : a.Distinct) (hb : b.Distinct) (hc : c.Distinct) :
    (a.merge b).merge c = a.merge (b.merge c) := by
  unfold merge
  simp only [Keyed.merge_assoc ha.channels hb.channels hc.channels,
    union_assoc ha.inherited hb.inherited hc.inherited,
    union_assoc ha.exported hb.exported hc.exported,
    union_assoc ha.imported hb.imported hc.imported, extend_assoc, Option.or_assoc]

theorem default_merge (ha : a.Distinct) : merge {} a = a := by
  unfold merge
  simp only [Keyed.nil_merge ha.channels, nil_union ha.inherited, nil_union ha.exported,
    nil_union ha.imported, empty_extend, Option.or_none]

theorem merge_default : a.merge {} = a := by
  unfold merge
  simp only [Keyed.merge_nil, union_nil, extend_empty, Option.none_or]

theorem Distinct.merge (ha : a.Distinct) (hb : b.Distinct) : (a.merge b).Distinct where
  channels := ha.channels.merge hb.channels
  inherited := nodup_union ha.inherited hb.inherited
  exported := nodup_union ha.exported hb.exported
  imported := nodup_union ha.imported hb.imported

theorem rightBiased_merge (hb : b.Distinct) : RightBiased a b (a.merge b) where
  channel _ := Keyed.find_merge hb.channels
  default_value _ := rfl
  overridden _ := rfl
  max_step := rfl
  max_tokens := rfl
  inherited := mem_union hb.inherited
  exported := mem_union hb.exported
  imported := mem_union hb.imported

/-- **Specs are a monoid**: the nesting of merges does not matter, the default spec changes
nothing, and the last spec that says something is the one that counts. -/
theorem merge_is_a_monoid (ha : a.Distinct) (hb : b.Distinct) (hc : c.Distinct) :
    (a.merge b).merge c = a.merge (b.merge c) ∧ merge {} a = a ∧ a.merge {} = a ∧
      (a.merge b).Distinct ∧ RightBiased a b (a.merge b) := by
  refine ⟨merge_assoc ha hb hc, default_merge ha, merge_default, ha.merge hb, ?_⟩
  exact rightBiased_merge hb

theorem distinct_default : Distinct {} := by
  constructor <;> exact List.nodup_nil

/-- An aggregator over an expert appends what the expert overwrites. -/
theorem aggregator_over_expert :
    (expert.merge tool_aggregator).channel "tool_result" = some ⟨"tool_result", .Append⟩ := by
  have hexpert : expert.Distinct := by
    constructor <;> decide
  have haggregator : tool_aggregator.Distinct := by
    constructor <;> decide
  obtain ⟨-, -, -, -, hbiased⟩ := merge_is_a_monoid hexpert haggregator distinct_default
  rw [hbiased.channel]
  rfl

end CommonSpec

end marie.session
