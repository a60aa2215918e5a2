-- What a join makes of the channels of the parent: `drain_pending_accumulators`
-- and then `commit_snapshot`, whatever the order in which the two hash maps
-- between them are walked.
import Marie.Session.Appends
import Marie.Session.ChannelLaws
import Marie.Session.Handlers

namespace marie.session

open Program FrameTree

/-! ## The order of a hash map -/

/-- An order in which the entries of a `HashMap` of contributions are walked. -/
structure Iteration where
  order : List (ChannelName × List Value) → List (ChannelName × List Value)
  perm : ∀ groups, (order groups).Perm groups

namespace Iteration

/-- The channels in the order of their first contribution. -/
def first_come : Iteration := ⟨id, fun _ => .refl _⟩

def reversed : Iteration := ⟨List.reverse, List.reverse_perm⟩

end Iteration

section Order

variable {name n : ChannelName} {vs : List Value} {groups groups' : List (ChannelName × List Value)}

theorem Grouped.perm (h : Grouped groups) (hp : groups'.Perm groups) : Grouped groups' where
  nodup := (hp.map _).nodup_iff.mpr h.nodup
  values g hg := h.values g (hp.mem_iff.mp hg)

theorem Grouped.entriesAt_of_mem (h : Grouped groups) (hmem : (n, vs) ∈ groups) :
    entriesAt n groups = vs := by
  induction groups with
  | nil => cases hmem
  | cons g groups ih =>
    have hnodup := h.nodup
    rw [List.map_cons, List.nodup_cons] at hnodup
    have htail : Grouped groups := ⟨hnodup.2, fun g hg => h.values g (by simp [hg])⟩
    rw [entriesAt_cons]
    rcases List.mem_cons.mp hmem with rfl | hmem
    · simp
    · have hne : g.1 ≠ n := fun he => hnodup.1 (List.mem_map.mpr ⟨_, hmem, he.symm⟩)
      rw [if_neg hne, ih htail hmem]

/-- What a channel holds does not depend on the order of the channels. -/
theorem Grouped.entriesAt_perm (h : Grouped groups) (hp : groups'.Perm groups) :
    entriesAt name groups' = entriesAt name groups := by
  by_cases hname : name ∈ groups.map (·.1)
  · obtain ⟨⟨n, vs⟩, hmem, rfl⟩ := List.mem_map.mp hname
    rw [h.entriesAt_of_mem hmem, (h.perm hp).entriesAt_of_mem (hp.mem_iff.mpr hmem)]
  · have hname' : name ∉ groups'.map (·.1) := by rwa [(hp.map _).mem_iff]
    rw [entriesAt_of_absent hname, entriesAt_of_absent hname']

end Order

/-! ## A join with its hash maps -/

namespace SessionCheckpointer

variable (self : SessionCheckpointer)

/-- `drain_pending_accumulators`, with the order of its `per_channel`. -/
def drain_pending_accumulators_in (iteration : Iteration) (frame_id : FrameId)
    (relevants : List FrameId) : Ckp (List ChannelUpdate) := do
  let parent_spec ← frames (common_spec_of self.graphs frame_id)
  let per_channel ← relevants.foldlM (self.drain_child parent_spec) []
  pure (accumulated frame_id (iteration.order per_channel))

def apply_updates_in (iteration : Iteration) (frame_id : FrameId) (channels : Channels)
    (updates : List ChannelUpdate) : Ckp Channels :=
  if updates.isEmpty then pure channels
  else do
    let spec ← frames (common_spec_of self.graphs frame_id)
    pure (reduce_channels spec channels (iteration.order (per_channel updates)))

/-- `commit_snapshot`, with the order of its `per_channel`. -/
def commit_snapshot_in (iteration : Iteration) (frame_id : FrameId) (expected_superstep : Nat)
    (updates : List ChannelUpdate) (join_sources : List SnapshotRef) : Ckp SnapshotRef := do
  let last ← snapshots (SessionSnapshots.latest frame_id)
  if last.superstep ≠ expected_superstep then
    throw (.error (.StaleSuperstep expected_superstep last.superstep))
  else
    let channels ← self.apply_updates_in iteration frame_id last.channels updates
    if 2 ^ 32 ≤ expected_superstep + 1 then throw (.panic "attempt to add with overflow")
    else
      self.push
        { session_id := self.session_id, frame_id, superstep := expected_superstep + 1, channels,
          join_sources }

/-- A join: the values of `relevants` are drained and committed on `frame_id`. -/
def join_in (drained committed : Iteration) (frame_id : FrameId) (relevants : List FrameId)
    (expected_superstep : Nat) (join_sources : List SnapshotRef) : Ckp SnapshotRef := do
  let updates ← self.drain_pending_accumulators_in drained frame_id relevants
  self.commit_snapshot_in committed frame_id expected_superstep updates join_sources

def join (frame_id : FrameId) (relevants : List FrameId) (expected_superstep : Nat)
    (join_sources : List SnapshotRef) : Ckp SnapshotRef := do
  let updates ← self.drain_pending_accumulators frame_id relevants
  self.commit_snapshot frame_id expected_superstep updates join_sources

/-! ## The order does not matter -/

/-- The contributions by channel that `drain_pending_accumulators` ends with. -/
def gathered (frame_id : FrameId) (relevants : List FrameId) :
    Ckp (List (ChannelName × List Value)) := do
  let parent_spec ← frames (common_spec_of self.graphs frame_id)
  relevants.foldlM (self.drain_child parent_spec) []

variable {self} {f : FrameId} {updates updates' : List ChannelUpdate}

theorem reduce_channels_perm (spec : CommonSpec) (channels : Channels)
    {groups groups' : List (ChannelName × List Value)} (h : Grouped groups)
    (hp : groups'.Perm groups) :
    reduce_channels spec channels groups' = reduce_channels spec channels groups := by
  funext name
  rw [reduce_channels_at spec channels (h.perm hp), reduce_channels_at spec channels h,
    h.entriesAt_perm hp]

theorem commit_snapshot_in_eq (iteration : Iteration) (expected : Nat)
    (join_sources : List SnapshotRef) :
    self.commit_snapshot_in iteration f expected updates join_sources =
      self.commit_snapshot f expected updates join_sources := by
  have happly : ∀ channels, self.apply_updates_in iteration f channels updates =
      self.apply_updates f channels updates := by
    intro channels
    have hgroups : Grouped (per_channel updates) := (per_channel_spec updates .nil).1
    unfold apply_updates_in apply_updates commit_channels
    simp only [reduce_channels_perm _ channels hgroups (iteration.perm _)]
  unfold commit_snapshot_in commit_snapshot
  simp only [happly]

/-- A commit depends on what its updates have for each channel. -/
theorem commit_snapshot_congr (h : ∀ name, contributions name updates = contributions name updates')
    (expected : Nat) (join_sources : List SnapshotRef) :
    self.commit_snapshot f expected updates join_sources =
      self.commit_snapshot f expected updates' join_sources := by
  have hempty : updates.isEmpty = updates'.isEmpty := by
    have hnil : ∀ us : List ChannelUpdate, us.isEmpty ↔ ∀ name, contributions name us = [] := by
      intro us
      constructor
      · intro hus name
        simp [contributions, List.isEmpty_iff.mp hus]
      · intro hus
        cases us with
        | nil => rfl
        | cons u us => simpa [contributions] using hus u.name
    rw [Bool.eq_iff_iff, hnil, hnil]
    simp only [h]
  have happly : ∀ channels, self.apply_updates f channels updates =
      self.apply_updates f channels updates' := by
    intro channels
    have hcommit : ∀ spec, commit_channels spec channels updates =
        commit_channels spec channels updates' := by
      intro spec
      funext name
      rw [commit_channels_at, commit_channels_at, h]
    unfold apply_updates
    simp only [hempty, hcommit]
  unfold commit_snapshot
  simp only [happly]

end SessionCheckpointer

/-! ## What a join reads -/

/-- Between two states nothing but reads of frames and of last snapshots. -/
structure Reads (s s' : State) : Prop where
  frames : Loaded s.frames s'.frames
  store : s'.snapshots.store = s.snapshots.store
  session_id : s'.snapshots.session_id = s.snapshots.session_id

/-- The values by channel that one more child makes of `groups`. -/
def gather (graphs : Graphs) (s : State) (parent_spec : CommonSpec)
    (groups : List (ChannelName × List Value)) (c : FrameId) :
    Option (List (ChannelName × List Value)) := do
  let child_spec ← spec_at graphs s.frames c
  let y ← s.snapshots.last c
  some (export_channels parent_spec child_spec y.channels groups)

/-- The value that a child gives to a channel: the one of its last snapshot, when its spec exports
the channel. -/
def joined_value (graphs : Graphs) (s : State) (name : ChannelName) (c : FrameId) :
    Option Value := do
  let child_spec ← spec_at graphs s.frames c
  let y ← s.snapshots.last c
  if name ∈ child_spec.exported_channels then y.channels.get name else none

/-- The values that the children give to a channel, in the order of the list. -/
def joined_values (graphs : Graphs) (s : State) (children : List FrameId) (name : ChannelName) :
    List Value :=
  children.filterMap (joined_value graphs s name)

/-- The channels of a parent at the snapshot `x` after the join of `children`. -/
def channels_of_join (graphs : Graphs) (s : State) (spec : CommonSpec) (x : Snapshot)
    (children : List FrameId) : Channels := fun name =>
  if name ∈ spec.imported_channels ∧ joined_values graphs s children name ≠ [] then
    some ((spec.reducer_of name).reduce (x.channels.get name)
      (joined_values graphs s children name))
  else x.channels.get name

/-- What the join of `children` into `p` needs: their specs and last snapshots, and room for one
more superstep after the expected one, at which `p` stands. -/
structure CanJoin (ckp : SessionCheckpointer) (s : State) (p : FrameId) (children : List FrameId)
    (expected : Nat) (spec : CommonSpec) (x : Snapshot) : Prop where
  parent : spec_at ckp.graphs s.frames p = some spec
  last : s.snapshots.last p = some x
  superstep : x.superstep = expected
  room : expected + 1 < 2 ^ 32
  children : ∀ c ∈ children,
    (∃ child_spec, spec_at ckp.graphs s.frames c = some child_spec) ∧
      ∃ y, s.snapshots.last c = some y

section Reading

variable {self : SessionCheckpointer} {graphs : Graphs} {s s' : State} {p : FrameId}
  {children : List FrameId} {spec : CommonSpec} {name : ChannelName}
  {groups groups' : List (ChannelName × List Value)}

theorem Reads.refl (s : State) : Reads s s := ⟨.refl _, rfl, rfl⟩

theorem Reads.spec_at (h : Reads s s') (x : FrameId) :
    spec_at graphs s'.frames x = spec_at graphs s.frames x := by
  unfold FrameTree.spec_at
  rw [h.frames.find]

theorem Reads.last (h : Reads s s') (x : FrameId) :
    s'.snapshots.last x = s.snapshots.last x := by
  unfold SessionSnapshots.last
  rw [h.store, h.session_id]

theorem finds_common_spec_of (s : State) (x : FrameId) :
    Finds (Reads s) (frames (common_spec_of self.graphs x)) (spec_at self.graphs s.frames x) := by
  intro s' h
  rw [← h.spec_at x]
  cases hn : s'.frames.find x with
  | none =>
    have hget : exec (common_spec_of self.graphs x) s'.frames =
        (.error (.panic "frame introuvable ou erreur de stockage"), s'.frames) :=
      exec_bind_error (exec_get_none hn)
    rw [exec_frames hget]
    exact ⟨h, by simp [FrameTree.spec_at, hn, Except.toOption]⟩
  | some n =>
    have hload : Reads s { s' with frames := s'.frames.load x } :=
      ⟨h.frames.load x, h.store, h.session_id⟩
    cases hspec : spec_of_ref self.graphs n.spec_ref with
    | none =>
      rw [exec_frames (exec_common_spec_of_none hn hspec)]
      exact ⟨hload, by simp [FrameTree.spec_at, hn, hspec, Except.toOption]⟩
    | some spec =>
      have hat : FrameTree.spec_at self.graphs s'.frames x = some spec := by
        simp [FrameTree.spec_at, hn, hspec]
      rw [exec_frames (exec_common_spec_of hat), hat]
      exact ⟨hload, rfl⟩

theorem finds_latest (s : State) (x : FrameId) :
    Finds (Reads s) (snapshots (SessionSnapshots.latest x)) (s.snapshots.last x) := by
  intro s' h
  rw [← h.last x]
  cases hy : s'.snapshots.last x with
  | none =>
    rw [exec_snapshots (SessionSnapshots.exec_latest_none hy)]
    exact ⟨h, rfl⟩
  | some y =>
    rw [exec_snapshots (SessionSnapshots.exec_latest hy)]
    exact ⟨⟨h.frames, h.store, h.session_id⟩, rfl⟩

theorem finds_gathered (self : SessionCheckpointer) (s : State) (p : FrameId)
    (children : List FrameId) :
    Finds (Reads s) (self.gathered p children)
      (do
        let spec ← spec_at self.graphs s.frames p
        children.foldlM (gather self.graphs s spec) []) := by
  unfold SessionCheckpointer.gathered
  apply (finds_common_spec_of s p).bind
  intro spec _
  apply finds_foldlM
  intro groups c _
  unfold SessionCheckpointer.drain_child gather
  apply (finds_common_spec_of s c).bind
  intro child_spec _
  apply (finds_latest s c).bind
  intro y _
  exact finds_pure _

/-! ## What it gathers -/

/-- A channel that is exported once gives at most one value. -/
theorem exportedTo_of_nodup {parent_spec child_spec : CommonSpec} (channels : Channels)
    (h : child_spec.exported_channels.Nodup) :
    exportedTo parent_spec child_spec channels name =
      if name ∈ parent_spec.imported_channels then
        (if name ∈ child_spec.exported_channels then channels.get name else none).toList
      else [] := by
  unfold exportedTo
  generalize child_spec.exported_channels = exported at h ⊢
  induction exported with
  | nil => simp
  | cons e exported ih =>
    obtain ⟨hnot, htail⟩ := List.nodup_cons.mp h
    by_cases he : e = name
    · subst he
      have hrest : exported.filter (fun x => x = e ∧ x ∈ parent_spec.imported_channels) = [] := by
        rw [List.filter_eq_nil_iff]
        intro x hx hxe
        simp only [decide_eq_true_eq] at hxe
        exact hnot (hxe.1 ▸ hx)
      rw [List.filter_cons, hrest]
      by_cases himp : e ∈ parent_spec.imported_channels <;> simp [himp]
    · have he' : ¬ name = e := fun h => he h.symm
      simpa [he, he'] using ih htail

theorem gather_spec (hexported : ∀ child_spec, spec_at graphs s.frames p = some child_spec →
      child_spec.exported_channels.Nodup) (h : Grouped groups)
    (hg : gather graphs s spec groups p = some groups') :
    Grouped groups' ∧ ∀ name, entriesAt name groups' = entriesAt name groups ++
      if name ∈ spec.imported_channels then (joined_value graphs s name p).toList else [] := by
  simp only [gather, Option.bind_eq_bind, Option.bind_eq_some_iff, Option.some.injEq] at hg
  obtain ⟨child_spec, hspec, y, hy, rfl⟩ := hg
  obtain ⟨h1, h2⟩ := export_channels_spec spec child_spec y.channels h
  refine ⟨h1, fun name => ?_⟩
  rw [h2, exportedTo_of_nodup _ (hexported child_spec hspec)]
  simp [joined_value, hspec, hy]

/-- After all children: a group for each imported channel to which some child gives a value. -/
theorem gathered_spec (hexported : ∀ c ∈ children, ∀ child_spec,
      spec_at graphs s.frames c = some child_spec → child_spec.exported_channels.Nodup)
    (h : Grouped groups) (hg : children.foldlM (gather graphs s spec) groups = some groups') :
    Grouped groups' ∧ ∀ name, entriesAt name groups' = entriesAt name groups ++
      if name ∈ spec.imported_channels then joined_values graphs s children name else [] := by
  induction children generalizing groups with
  | nil =>
    simp only [List.foldlM_nil, Option.pure_def, Option.some.injEq] at hg
    subst hg
    exact ⟨h, by simp [joined_values]⟩
  | cons c children ih =>
    rw [List.foldlM_cons, Option.bind_eq_bind, Option.bind_eq_some_iff] at hg
    obtain ⟨groups1, hc, hrest⟩ := hg
    obtain ⟨h1, h2⟩ := gather_spec (hexported c (by simp)) h hc
    obtain ⟨h3, h4⟩ := ih (fun x hx => hexported x (by simp [hx])) h1 hrest
    refine ⟨h3, fun name => ?_⟩
    rw [h4, h2]
    by_cases himp : name ∈ spec.imported_channels
    · cases hv : joined_value graphs s name c <;> simp [himp, joined_values, hv]
    · simp [himp]

/-- All children can be read. -/
theorem exists_gathered_iff :
    (∃ groups', children.foldlM (gather graphs s spec) groups = some groups') ↔
      ∀ c ∈ children, (∃ child_spec, spec_at graphs s.frames c = some child_spec) ∧
        ∃ y, s.snapshots.last c = some y := by
  induction children generalizing groups with
  | nil => simp
  | cons c children ih =>
    rw [List.foldlM_cons]
    cases hspec : spec_at graphs s.frames c with
    | none => simp [gather, hspec]
    | some child_spec =>
      cases hy : s.snapshots.last c with
      | none => simp [gather, hspec, hy]
      | some y => simp [gather, hspec, hy, ih]

end Reading

/-! ## The result of a join -/

namespace SessionCheckpointer

variable {self : SessionCheckpointer} {s : State} {p : FrameId} {children : List FrameId}
  {updates : List ChannelUpdate} {join_sources : List SnapshotRef} {expected : Nat}
  {spec : CommonSpec} {x : Snapshot}

/-- A commit needs the expected superstep, and room for one more. -/
theorem succeeds_commit_iff (hspec : spec_at self.graphs s.frames p = some spec) :
    Succeeds (self.commit_snapshot p expected updates join_sources) s ↔
      ∃ x, s.snapshots.last p = some x ∧ x.superstep = expected ∧ expected + 1 < 2 ^ 32 := by
  cases hx : s.snapshots.last p with
  | none =>
    have hno : ¬ Succeeds (self.commit_snapshot p expected updates join_sources) s :=
      not_succeeds_bind (not_succeeds_of_eq (exec_snapshots (SessionSnapshots.exec_latest_none hx)))
    simp [hno]
  | some x =>
    have hid : x.frame_id = p := (SessionSnapshots.latest_snapshot_spec hx).1.2.1
    by_cases hstep : x.superstep = expected
    · by_cases hroom : expected + 1 < 2 ^ 32
      · subst hstep
        obtain ⟨t, -, hrun⟩ := self.exec_commit updates join_sources hx hid hspec hroom
        exact iff_of_true (succeeds_of_eq hrun) ⟨x, rfl, rfl, hroom⟩
      · have hno : ¬ Succeeds (self.commit_snapshot p expected updates join_sources) s := by
          obtain ⟨t, -, hup⟩ := self.exec_apply_updates
            (s := { s with snapshots := s.snapshots.insert x.ref ⟨x, false⟩ }) x.channels updates
            hspec
          unfold commit_snapshot Succeeds
          rw [exec_bind_ok (exec_snapshots (SessionSnapshots.exec_latest hx)),
            if_neg (by simpa using hstep), exec_bind_ok hup, if_pos (by omega)]
          rintro ⟨a, s', ⟨⟩⟩
        refine iff_of_false hno ?_
        rintro ⟨y, -, -, hroom'⟩
        exact hroom hroom'
    · have hno : ¬ Succeeds (self.commit_snapshot p expected updates join_sources) s :=
        not_succeeds_of_eq (self.exec_commit_stale hx hstep)
      simp [hno, hstep]

/-- The channels that a commit of the gathered values makes. -/
theorem commit_gathered (iteration : Iteration) {groups : List (ChannelName × List Value)}
    (hexported : ∀ c ∈ children, ∀ child_spec,
      spec_at self.graphs s.frames c = some child_spec → child_spec.exported_channels.Nodup)
    (hg : children.foldlM (gather self.graphs s spec) [] = some groups) :
    commit_channels spec x.channels (accumulated p (iteration.order groups)) =
      channels_of_join self.graphs s spec x children := by
  obtain ⟨h1, h2⟩ := gathered_spec hexported .nil hg
  funext name
  rw [commit_channels_at, contributions_accumulated p (h1.perm (iteration.perm _)),
    h1.entriesAt_perm (iteration.perm _), h2]
  unfold channels_of_join CommonSpec.reduced
  by_cases himp : name ∈ spec.imported_channels
  · by_cases hv : joined_values self.graphs s children name = []
    · simp [himp, hv, entriesAt, Channels.get]
    · simp [himp, hv, entriesAt, Channels.get]
  · simp [himp, entriesAt, Channels.get]

theorem cache_push_into (t : SessionSnapshots) (x : Snapshot) :
    (self.push_into t x).cache x.ref = some ⟨x, !self.flush_on_push⟩ := by
  unfold push_into
  cases self.flush_on_push with
  | false => simp [SessionSnapshots.insert]
  | true => simp [SessionSnapshots.insert, SessionSnapshots.flush]

theorem join_in_eq (drained committed : Iteration) :
    self.join_in drained committed p children expected join_sources = (do
      let groups ← self.gathered p children
      self.commit_snapshot p expected (accumulated p (drained.order groups)) join_sources) := by
  unfold join_in drain_pending_accumulators_in gathered
  simp only [bind_assoc, pure_bind, commit_snapshot_in_eq]

theorem join_eq : self.join p children expected join_sources =
    self.join_in .first_come .first_come p children expected join_sources := by
  rw [join_in_eq]
  unfold join drain_pending_accumulators gathered
  simp only [bind_assoc, pure_bind]
  rfl

/-- Either something that the drain reads is missing, or the commit runs on the gathered values. -/
theorem join_in_cases (self : SessionCheckpointer) (s : State) (p : FrameId)
    (children : List FrameId) (expected : Nat) (join_sources : List SnapshotRef) :
    (∃ e s', (exec (self.gathered p children) s).2 = s' ∧ (∀ drained committed,
        exec (self.join_in drained committed p children expected join_sources) s = (.error e, s')) ∧
      ∀ spec x, ¬ CanJoin self s p children expected spec x) ∨
    ∃ spec groups s', (exec (self.gathered p children) s).2 = s' ∧ Reads s s' ∧
      spec_at self.graphs s.frames p = some spec ∧
      children.foldlM (gather self.graphs s spec) [] = some groups ∧
      ∀ drained committed,
        exec (self.join_in drained committed p children expected join_sources) s =
          exec (self.commit_snapshot p expected (accumulated p (drained.order groups)) join_sources)
            s' := by
  obtain ⟨hreads, hfound⟩ := finds_gathered self s p children s (.refl s)
  cases hrun : exec (self.gathered p children) s with
  | mk r s' =>
  rw [hrun] at hreads hfound
  cases r with
  | error e =>
    refine .inl ⟨e, s', rfl, fun drained committed => ?_, fun spec x h => ?_⟩
    · rw [join_in_eq, exec_bind_error hrun]
    · obtain ⟨groups, hg⟩ : ∃ groups, children.foldlM (gather self.graphs s spec) [] = some groups :=
        exists_gathered_iff.mpr h.children
      rw [h.parent, Option.bind_eq_bind, Option.bind_some, hg] at hfound
      cases hfound
  | ok groups =>
    obtain ⟨spec, hspec, hg⟩ := Option.bind_eq_some_iff.mp hfound.symm
    refine .inr ⟨spec, groups, s', rfl, hreads, hspec, hg, fun drained committed => ?_⟩
    rw [join_in_eq, exec_bind_ok hrun]

/-- The join of `children` into `p`. It is the same for every order in which the two hash maps of
contributions are walked. It succeeds when all that it reads is there and `p` stands at the
expected superstep, and then the new snapshot has, for each channel that is imported and to which
some child gives a value, the reduced values of the children in the order of the list; the other
channels are as before. -/
theorem join_result (self : SessionCheckpointer) (drained committed : Iteration) (s : State)
    (p : FrameId) (children : List FrameId) (expected : Nat) (join_sources : List SnapshotRef)
    (hexported : ∀ c ∈ children, ∀ child_spec,
      spec_at self.graphs s.frames c = some child_spec → child_spec.exported_channels.Nodup) :
    exec (self.join_in drained committed p children expected join_sources) s =
        exec (self.join p children expected join_sources) s ∧
      (Succeeds (self.join_in drained committed p children expected join_sources) s ↔
        ∃ spec x, CanJoin self s p children expected spec x) ∧
      ∀ spec x, CanJoin self s p children expected spec x →
        ∃ s', exec (self.join_in drained committed p children expected join_sources) s =
            (.ok ⟨self.session_id, p, expected + 1⟩, s') ∧
          s'.snapshots.cache ⟨self.session_id, p, expected + 1⟩ =
            some ⟨⟨self.session_id, p, expected + 1,
              channels_of_join self.graphs s spec x children, join_sources⟩,
              !self.flush_on_push⟩ := by
  rw [join_eq]
  rcases self.join_in_cases s p children expected join_sources with
    ⟨e, s', -, hrun, hno⟩ | ⟨spec, groups, s', -, hreads, hspec, hg, hrun⟩
  · refine ⟨by rw [hrun, hrun], ?_, fun spec x h => absurd h (hno spec x)⟩
    refine iff_of_false (not_succeeds_of_eq (hrun drained committed)) ?_
    rintro ⟨spec, x, h⟩
    exact hno spec x h
  · have hspec' : spec_at self.graphs s'.frames p = some spec := by rw [hreads.spec_at, hspec]
    have hgrouped := (gathered_spec hexported .nil hg).1
    refine ⟨?_, ?_, ?_⟩
    · rw [hrun, hrun, commit_snapshot_congr fun name => ?_]
      rw [contributions_accumulated p (hgrouped.perm (drained.perm _)),
        contributions_accumulated p (hgrouped.perm (Iteration.first_come.perm _)),
        hgrouped.entriesAt_perm (drained.perm _),
        hgrouped.entriesAt_perm (Iteration.first_come.perm _)]
    · unfold Succeeds
      rw [hrun]
      refine (succeeds_commit_iff hspec').trans ?_
      rw [hreads.last]
      constructor
      · rintro ⟨x, hx, hstep, hroom⟩
        exact ⟨spec, x, hspec, hx, hstep, hroom, exists_gathered_iff.mp ⟨groups, hg⟩⟩
      · rintro ⟨spec', x, h⟩
        exact ⟨x, h.last, h.superstep, h.room⟩
    · intro spec' x h
      have hsame : spec' = spec := Option.some.inj (h.parent.symm.trans hspec)
      subst hsame
      have hx : s'.snapshots.last p = some x := by rw [hreads.last, h.last]
      have hid : x.frame_id = p := (SessionSnapshots.latest_snapshot_spec hx).1.2.1
      have hstep := h.superstep
      subst hstep
      obtain ⟨t, -, hcommit⟩ := self.exec_commit (accumulated p (drained.order groups))
        join_sources hx hid hspec' h.room
      have hpushed : self.pushed spec' x (accumulated p (drained.order groups)) join_sources =
          ⟨self.session_id, p, x.superstep + 1, channels_of_join self.graphs s spec' x children,
            join_sources⟩ := by
        unfold pushed
        rw [hid, commit_gathered drained hexported hg]
      rw [hpushed] at hcommit
      refine ⟨_, (hrun drained committed).trans hcommit, ?_⟩
      exact cache_push_into _ _

/-- An aggregator of tools over two tools, each with a result. -/
def twoResults : State :=
  .new ⟨0⟩
    (.ofNodes
      [.new ⟨0⟩ { spec_ref := .ToolAggregator, data := .Void },
        .new ⟨1⟩ { spec_ref := .ToolCall, data := .Void },
        .new ⟨2⟩ { spec_ref := .ToolCall, data := .Void }])
    [⟨⟨0⟩, ⟨0⟩, 0, Channels.empty, []⟩,
      ⟨⟨0⟩, ⟨1⟩, 0, Channels.empty.write "tool_result" (.Bool true), []⟩,
      ⟨⟨0⟩, ⟨2⟩, 0, Channels.empty.write "tool_result" .Null, []⟩]

theorem two_results_are_joined :
    ∃ s' container, exec ((plain false).join_in .reversed .reversed ⟨0⟩ [⟨1⟩, ⟨2⟩] 0 []) twoResults =
        (.ok ⟨⟨0⟩, ⟨0⟩, 1⟩, s') ∧
      s'.snapshots.cache ⟨⟨0⟩, ⟨0⟩, 1⟩ = some container ∧
      container.snapshot.channels "tool_result" = some (.Array [.Bool true, .Null]) := by
  obtain ⟨-, -, hjoin⟩ := join_result (plain false) .reversed .reversed twoResults ⟨0⟩
    [⟨1⟩, ⟨2⟩] 0 [] (by
      intro c hc child_spec hspec
      have htool : child_spec = .tool := by
        rcases List.mem_cons.mp hc with rfl | hc
        · exact (Option.some.inj hspec).symm
        · obtain rfl := List.mem_singleton.mp hc
          exact (Option.some.inj hspec).symm
      rw [htool]
      simp [CommonSpec.tool])
  obtain ⟨s', hrun, hcache⟩ := hjoin .tool_aggregator ⟨⟨0⟩, ⟨0⟩, 0, Channels.empty, []⟩
    ⟨rfl, rfl, rfl, by decide, by
      intro c hc
      rcases List.mem_cons.mp hc with rfl | hc
      · exact ⟨⟨_, rfl⟩, _, rfl⟩
      · obtain rfl := List.mem_singleton.mp hc
        exact ⟨⟨_, rfl⟩, _, rfl⟩⟩
  exact ⟨s', _, hrun, hcache, rfl⟩

end SessionCheckpointer

end marie.session
