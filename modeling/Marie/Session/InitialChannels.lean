-- The channels that a new frame starts with, and its superstep: what
-- `append_frame` takes from the args, from the defaults of the spec and from
-- the last snapshot of another frame.
import Marie.Session.Appends

namespace marie.session

open Program FrameTree

/-! ## What the frame should start with -/

/-- The frame that a new child of `n` takes its channels from: the last child of a frame with the
policy `Sequential`, else `n` itself. -/
def FrameNode.source (n : FrameNode) (p : FrameId) : FrameId :=
  if n.frame_policy.resume_policy = .Sequential then n.children.getLast?.getD p else p

/-- The channels of a new frame over the snapshot `x` of its source: the overrides of the spec,
then the inherited channels, then the defaults. -/
def CommonSpec.initial (spec : CommonSpec) (x : Snapshot) : Channels := fun name =>
  (spec.overrides_channels.get name).or
    (((restrict spec.inherited_channels x.channels).get name).or (spec.default_values.get name))

/-- The frame `f` has the channels and the superstep that the last snapshot of `source` gives. -/
def Initialised (s s' : State) (spec : CommonSpec) (source f : FrameId) : Prop :=
  ∃ x k, s.snapshots.last source = some x ∧ s'.frames.find f = some k ∧
    k.inherited_channels = spec.initial x ∧ k.superstep = x.superstep

/-! ## What it starts with -/

/-- The channels of the frame before it takes anything from a snapshot. -/
def NewFrameNodeArgs.given (args : NewFrameNodeArgs) (spec : CommonSpec) : Channels :=
  args.inherited_channels.extend spec.default_values

/-- The snapshot that `append_frame` reads for a new child of `p`. -/
def State.sourceSnapshot (s : State) (p : FrameId) : Option Snapshot :=
  (s.frames.sourceFor p).bind s.snapshots.last

/-- The channels of the new frame once `append_frame` has returned. -/
def NewFrameNodeArgs.filled (args : NewFrameNodeArgs) (spec : CommonSpec) (x : Option Snapshot) :
    Channels := fun name =>
  (x.bind fun x => (restrict spec.inherited_channels x.channels).get name).or
    ((args.given spec).get name)

section Runs

variable {self : SessionCheckpointer} {s s' : State} {p f : FrameId} {n : FrameNode}
  {args : NewFrameNodeArgs} {spec : CommonSpec}

/-- The new frame after a call of `append_frame` that returns. -/
theorem append_frame_fills (hn : s.frames.find p = some n)
    (hrun : exec (self.append_frame p args) s = (.ok f, s')) :
    f = ⟨s.frames.next⟩ ∧ ∃ spec k, spec_of_ref self.graphs args.spec_ref = some spec ∧
      (∀ q, s.frames.sourceFor p = some q → HasSnapshot s q) ∧ s'.frames.find f = some k ∧
      k.inherited_channels = args.filled spec (s.sourceSnapshot p) ∧
      k.superstep = ((s.sourceSnapshot p).map (·.superstep)).getD args.superstep := by
  have hcan : CanAppend self s p args.spec_ref := by
    by_contra h
    exact not_succeeds_append_frame hn h ⟨f, s', hrun⟩
  obtain ⟨spec, hspec⟩ := hcan.spec
  obtain ⟨s1, hfill, h1, hspec1, k, hk, hchannels, hstep⟩ := exec_append_frame_fill args hn hspec
  have hinherit := @exec_inherit_after_fill self s p n s1 args hn h1
  rw [hfill] at hrun
  cases hq : s.frames.sourceFor p with
  | none =>
    simp only [hq] at hinherit
    rw [exec_bind_ok hinherit, exec_bind_ok (exec_emit _ s1)] at hrun
    obtain ⟨hf, rfl⟩ := Prod.mk.inj hrun
    obtain rfl := Except.ok.inj hf
    refine ⟨rfl, spec, k, hspec, by simp, hk, ?_, ?_⟩
    · rw [hchannels]
      funext name
      simp [NewFrameNodeArgs.filled, State.sourceSnapshot, hq, NewFrameNodeArgs.given, Channels.get]
    · simp [hstep, State.sourceSnapshot, hq]
  | some q =>
    simp only [hq] at hinherit
    obtain ⟨x, hx⟩ := hcan.source q hq
    have hx1 : s1.snapshots.last q = some x := by rw [h1.last]; exact hx
    obtain ⟨s2, htake, -, hnode⟩ := @exec_inherit_from_last self s1 q _ spec x hx1 hspec1
    rw [exec_bind_ok (hinherit.trans htake), exec_bind_ok (exec_emit _ s2)] at hrun
    obtain ⟨hf, rfl⟩ := Prod.mk.inj hrun
    obtain rfl := Except.ok.inj hf
    have hsource : s.sourceSnapshot p = some x := by simp [State.sourceSnapshot, hq, hx]
    refine ⟨rfl, spec, _, hspec, ?_, hnode k hk, ?_, ?_⟩
    · rintro _ ⟨⟩
      exact ⟨x, hx⟩
    · rw [hsource]
      funext name
      simp [NewFrameNodeArgs.filled, NewFrameNodeArgs.given, FrameNode.extend_inherited, hchannels,
        Channels.extend, Channels.get]
    · simp [hsource]

/-! ## When the two are the same -/

/-- When a new frame starts as it should. `append_frame` never applies an override, it takes
nothing for the first child of a frame with the policy `Sequential` or for a child of a frame that
is not in the cache, and it leaves the channels of the args in the new frame. -/
structure StartsRight (s : State) (p : FrameId) (n : FrameNode) (args : NewFrameNodeArgs)
    (spec : CommonSpec) : Prop where
  source : ∃ x, s.snapshots.last (n.source p) = some x ∧
    ((s.frames.arena p).isSome ∧
        (n.frame_policy.resume_policy = .Sequential → n.children ≠ []) ∨
      args.superstep = x.superstep ∧ ∀ name ∈ spec.inherited_channels, ∀ v,
        x.channels.get name = some v → spec.overrides_channels.get name = none →
          (args.given spec).get name = some v)
  overrides : ∀ name v, spec.overrides_channels.get name = some v →
    (args.filled spec (s.sourceSnapshot p)).get name = some v
  args : ∀ name v, args.inherited_channels.get name = some v →
    spec.overrides_channels.get name = none → spec.default_values.get name = none →
      name ∈ spec.inherited_channels ∧ ∃ x, s.snapshots.last (n.source p) = some x ∧
        (x.channels.get name).isSome

/-- `append_frame` reads the right source when the parent is in the cache, and has a child
already if its policy is `Sequential`. -/
theorem sourceFor_eq_iff (hn : s.frames.find p = some n) :
    s.frames.sourceFor p = some (n.source p) ↔ (s.frames.arena p).isSome ∧
      (n.frame_policy.resume_policy = .Sequential → n.children ≠ []) := by
  unfold FrameTree.sourceFor FrameNode.source
  cases hc : s.frames.arena p with
  | none => simp
  | some c =>
    obtain rfl := Option.some.inj ((find_of_arena hc).symm.trans hn)
    by_cases hpol : c.node.frame_policy.resume_policy = .Sequential
    · cases hlast : c.node.children.getLast? with
      | none => simp [hpol, List.getLast?_eq_none_iff.mp hlast]
      | some q =>
        have hne : c.node.children ≠ [] := by
          rintro h
          simp [h] at hlast
        simp [hpol, hlast, hne]
    · simp [hpol]

/-- When it does not read the right source it reads none. -/
theorem sourceSnapshot_none (hn : s.frames.find p = some n)
    (h : ¬ ((s.frames.arena p).isSome ∧
      (n.frame_policy.resume_policy = .Sequential → n.children ≠ []))) :
    s.sourceSnapshot p = none := by
  unfold State.sourceSnapshot FrameTree.sourceFor
  cases hc : s.frames.arena p with
  | none => rfl
  | some c =>
    obtain rfl := Option.some.inj ((find_of_arena hc).symm.trans hn)
    rw [hc] at h
    simp only [Option.isSome_some, true_and, Classical.not_imp, not_not] at h
    simp [h.1, h.2]

/-- One channel, for the snapshot `x` that the frame should take from. -/
theorem filled_eq_initial_iff {x : Snapshot} {taken : Option Snapshot} {name : ChannelName}
    (htaken : taken = some x ∨ taken = none) :
    (args.filled spec taken).get name = (spec.initial x).get name ↔
      (taken = none → ∀ v, name ∈ spec.inherited_channels → x.channels.get name = some v →
        spec.overrides_channels.get name = none → (args.given spec).get name = some v) ∧
      (∀ v, spec.overrides_channels.get name = some v →
        (args.filled spec taken).get name = some v) ∧
      ∀ v, args.inherited_channels.get name = some v → spec.overrides_channels.get name = none →
        spec.default_values.get name = none →
          name ∈ spec.inherited_channels ∧ (x.channels.get name).isSome := by
  unfold NewFrameNodeArgs.filled CommonSpec.initial NewFrameNodeArgs.given
  simp only [Channels.get, restrict, Channels.extend]
  generalize spec.overrides_channels name = fixed
  generalize spec.default_values name = default
  generalize args.inherited_channels name = arg
  generalize hvalue : x.channels name = value
  cases fixed with
  | some v => simp
  | none =>
    by_cases hmem : name ∈ spec.inherited_channels
    · rcases htaken with rfl | rfl
      · cases value <;> cases default <;> cases arg <;> simp [hmem, hvalue]
      · cases value <;> cases default <;> cases arg <;> simp [hmem]
    · rcases htaken with rfl | rfl
      · cases default <;> cases arg <;> simp [hmem]
      · cases default <;> cases arg <;> simp [hmem]

/-- When a frame that `append_frame` appends starts with the channels and the superstep of the
right source. -/
theorem initial_channels_iff (self : SessionCheckpointer) (s s' : State) (p f : FrameId)
    (n : FrameNode) (args : NewFrameNodeArgs) (hn : s.frames.find p = some n)
    (hrun : exec (self.append_frame p args) s = (.ok f, s')) :
    ∃ spec, spec_of_ref self.graphs args.spec_ref = some spec ∧
      (Initialised s s' spec (n.source p) f ↔ StartsRight s p n args spec) := by
  obtain ⟨rfl, spec, k, hspec, hsource, hk, hchannels, hstep⟩ := append_frame_fills hn hrun
  refine ⟨spec, hspec, ?_⟩
  have hright := sourceFor_eq_iff hn
  -- the snapshot that is read is the right one, or none
  have htaken : ∀ x, s.snapshots.last (n.source p) = some x →
      ((s.frames.arena p).isSome ∧
          (n.frame_policy.resume_policy = .Sequential → n.children ≠ [])) ∧
        s.sourceSnapshot p = some x ∨ s.sourceSnapshot p = none := by
    intro x hx
    by_cases h : (s.frames.arena p).isSome ∧
        (n.frame_policy.resume_policy = .Sequential → n.children ≠ [])
    · exact .inl ⟨h, by simp [State.sourceSnapshot, hright.mpr h, hx]⟩
    · exact .inr (sourceSnapshot_none hn h)
  constructor
  · rintro ⟨x, k', hx, hk', hch, hsup⟩
    obtain rfl := Option.some.inj (hk.symm.trans hk')
    rw [hchannels] at hch
    have hall := fun name => (filled_eq_initial_iff (by
      rcases htaken x hx with ⟨-, h⟩ | h
      · exact .inl h
      · exact .inr h)).mp (congrFun hch name)
    refine ⟨⟨x, hx, ?_⟩, fun name => (hall name).2.1, fun name v ha ho hd => ?_⟩
    · rcases htaken x hx with ⟨h, -⟩ | h
      · exact .inl h
      · refine .inr ⟨?_, fun name hname v hv ho => (hall name).1 h v hname hv ho⟩
        rw [← hsup, hstep, h]
        rfl
    · obtain ⟨h1, h2⟩ := (hall name).2.2 v ha ho hd
      exact ⟨h1, x, hx, h2⟩
  · rintro ⟨⟨x, hx, hsrc⟩, hover, hargs⟩
    refine ⟨x, k, hx, hk, ?_, ?_⟩
    · rw [hchannels]
      funext name
      refine (filled_eq_initial_iff ?_).mpr ⟨fun hnone v hname hv ho => ?_, hover name, ?_⟩
      · rcases htaken x hx with ⟨-, h⟩ | h
        · exact .inl h
        · exact .inr h
      · rcases hsrc with h | ⟨-, h⟩
        · rw [State.sourceSnapshot, hright.mpr h, Option.bind_some, hx] at hnone
          cases hnone
        · exact h name hname v hv ho
      · intro v ha ho hd
        obtain ⟨h1, y, hy, h2⟩ := hargs name v ha ho hd
        obtain rfl := Option.some.inj (hx.symm.trans hy)
        exact ⟨h1, h2⟩
    · rw [hstep]
      rcases htaken x hx with ⟨-, h⟩ | h
      · simp [h]
      · rcases hsrc with h' | ⟨h', -⟩
        · rw [State.sourceSnapshot, hright.mpr h', Option.bind_some, hx] at h
          cases h
        · simp [h, h']

end Runs

/-- A frame with this policy, whose last snapshot is at the superstep 1 and has a task. -/
def taskGiven (resume_policy : ResumePolicy) : State :=
  .new ⟨0⟩
    (.ofNodes
      [.new ⟨0⟩ { spec_ref := .Expert, data := .Void, frame_policy := { resume_policy } }])
    [⟨⟨0⟩, ⟨0⟩, 1, Channels.empty.write "expert_task" (.Bool true), []⟩]

def newExpert : NewFrameNodeArgs := { spec_ref := .Expert, data := .Void }

theorem a_child_of_a_fan_in_frame_has_the_task :
    Initialised (taskGiven .FanIn)
      (exec ((plain false).append_frame ⟨0⟩ newExpert) (taskGiven .FanIn)).2 .expert ⟨0⟩ ⟨1⟩ := by
  obtain ⟨spec, hspec, hiff⟩ := initial_channels_iff (plain false) (taskGiven .FanIn)
    (exec ((plain false).append_frame ⟨0⟩ newExpert) (taskGiven .FanIn)).2 ⟨0⟩ ⟨1⟩ _ newExpert rfl rfl
  obtain rfl := Option.some.inj hspec
  apply hiff.mpr
  constructor
  · exact ⟨_, rfl, .inl ⟨rfl, by rintro ⟨⟩⟩⟩
  · rintro name v ⟨⟩
  · rintro name v ⟨⟩

/-- The first child of a frame with the policy `Sequential` gets neither the task nor the
superstep. -/
theorem a_first_child_takes_nothing :
    (∃ s', exec ((plain false).append_frame ⟨0⟩ newExpert) (taskGiven .Sequential) =
      (.ok ⟨1⟩, s') ∧ ¬ Initialised (taskGiven .Sequential) s' .expert ⟨0⟩ ⟨1⟩) ∧
    ((taskGiven .Sequential).frames.find ⟨0⟩).map (·.source ⟨0⟩) = some ⟨0⟩ := by
  refine ⟨⟨_, rfl, ?_⟩, rfl⟩
  rintro ⟨x, k, hx, hk, -, hstep⟩
  obtain rfl := Option.some.inj hx
  obtain rfl := Option.some.inj hk
  cases hstep

end marie.session
