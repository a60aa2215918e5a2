-- What a run reads of the channels that it writes, and what the commit of its
-- writes makes of them. The tracker looks for the last update of a channel; the
-- commit groups the updates and reduces each group.
import Marie.Session.ChannelReplay

namespace marie.session

open Program FrameTree

/-! ## The writes of a run -/

/-- The tracker of a run of `frame_id`, once it has written these values. -/
def ChannelsTracker.after (frame_id : FrameId) (channels : Channels)
    (writes : List (ChannelName × Value)) : ChannelsTracker :=
  writes.foldl (fun t w => t.write w.1 w.2) (.new frame_id channels)

/-- The values that were written to a channel, in order. -/
def written (name : ChannelName) (writes : List (ChannelName × Value)) : List Value :=
  (writes.filter (·.1 = name)).map (·.2)

/-- The values of an array; what is no array has none. -/
def arrayOf : Option Value → List Value
  | some (.Array vs) => vs
  | _ => []

/-- The channels are those that the tracker reads, but that an `Append` channel keeps its array
before the values that were written. -/
structure Predicts (spec : CommonSpec) (t : ChannelsTracker) (writes : List (ChannelName × Value))
    (channels : Channels) : Prop where
  last_write : ∀ name, spec.reducer_of name = .LastWriteWins → channels.get name = t.read name
  appended : ∀ name, spec.reducer_of name = .Append → written name writes ≠ [] →
    channels.get name = some (.Array (arrayOf (t.channels.get name) ++ written name writes))
  unwritten : ∀ name, written name writes = [] → channels.get name = t.channels.get name

section Writes

variable {frame_id : FrameId} {channels : Channels} {writes : List (ChannelName × Value)}
  {name : ChannelName}

theorem after_eq (frame_id : FrameId) (channels : Channels)
    (writes : List (ChannelName × Value)) :
    ChannelsTracker.after frame_id channels writes =
      ⟨frame_id, channels, writes.map fun w => ⟨w.1, w.2, frame_id⟩⟩ := by
  unfold ChannelsTracker.after
  induction writes using List.reverseRecOn with
  | nil => rfl
  | append_singleton writes w ih =>
    rw [List.foldl_append, ih, List.foldl_cons, List.foldl_nil, List.map_append]
    rfl

theorem contributions_after :
    contributions name (ChannelsTracker.after frame_id channels writes).into_updates =
      written name writes := by
  rw [after_eq]
  unfold ChannelsTracker.into_updates contributions written
  rw [List.filter_map, List.map_map]
  rfl

/-- A read gives the last value that was written, else the inherited one. -/
theorem read_after (frame_id : FrameId) (channels : Channels)
    (writes : List (ChannelName × Value)) (name : ChannelName) :
    (ChannelsTracker.after frame_id channels writes).read name =
      (written name writes).getLast?.or (channels.get name) := by
  have hlast : (written name writes).getLast? =
      ((ChannelsTracker.after frame_id channels writes).updates.reverse.find?
        (·.name = name)).map (·.value) := by
    have hwritten : contributions name
        (ChannelsTracker.after frame_id channels writes).into_updates = written name writes :=
      contributions_after
    rw [← hwritten]
    unfold contributions ChannelsTracker.into_updates
    rw [List.getLast?_map, ← List.head?_reverse, ← List.filter_reverse, List.head?_filter]
  unfold ChannelsTracker.read
  rw [hlast, after_eq]

end Writes

/-! ## The commit -/

section Commit

variable {self : SessionCheckpointer} {s s' : State} {f : FrameId} {spec : CommonSpec}
  {x : Snapshot}

theorem cache_push_into (self : SessionCheckpointer) (t : SessionSnapshots) (x : Snapshot) :
    ∃ dirty, (self.push_into t x).cache x.ref = some ⟨x, dirty⟩ := by
  unfold SessionCheckpointer.push_into
  split
  · simp [SessionSnapshots.flush, SessionSnapshots.insert]
  · simp [SessionSnapshots.insert]

/-- A commit that succeeds leaves the snapshot of the reduced channels in the cache. -/
theorem cache_commit {expected : Nat} {updates : List ChannelUpdate}
    {join_sources : List SnapshotRef} {ref : SnapshotRef} (hx : s.snapshots.last f = some x)
    (hspec : spec_at self.graphs s.frames f = some spec)
    (h : exec (self.commit_snapshot f expected updates join_sources) s = (.ok ref, s')) :
    ∃ k, s'.snapshots.cache ref = some k ∧
      k.snapshot.channels = commit_channels spec x.channels updates := by
  unfold SessionCheckpointer.commit_snapshot at h
  rw [exec_bind_ok (exec_snapshots (SessionSnapshots.exec_latest hx))] at h
  split at h
  · cases h
  · obtain ⟨channels, s1, hreduced, h⟩ := exec_bind_eq_ok h
    obtain ⟨t, -, hup⟩ := self.exec_apply_updates
      (s := { s with snapshots := s.snapshots.insert x.ref ⟨x, false⟩ }) x.channels updates hspec
    rw [hup] at hreduced
    cases hreduced
    split at h
    · cases h
    · rw [SessionCheckpointer.exec_push] at h
      cases h
      obtain ⟨dirty, hcache⟩ := cache_push_into self
        (s.snapshots.insert x.ref ⟨x, false⟩)
        ⟨self.session_id, f, expected + 1, commit_channels spec x.channels updates, join_sources⟩
      exact ⟨_, hcache, rfl⟩

/-- What the commit of the writes of a run makes of the channels. -/
theorem predicts_commit (spec : CommonSpec) (frame_id : FrameId) (channels : Channels)
    (writes : List (ChannelName × Value)) :
    Predicts spec (.after frame_id channels writes) writes
      (commit_channels spec channels (ChannelsTracker.after frame_id channels writes).into_updates) := by
  have hat : ∀ name, (commit_channels spec channels
      (ChannelsTracker.after frame_id channels writes).into_updates).get name =
        spec.reduced name (channels.get name) (written name writes) := by
    intro name
    unfold Channels.get
    rw [commit_channels_at, contributions_after]
  constructor
  · intro name hr
    rw [hat, read_after]
    unfold CommonSpec.reduced
    cases hw : (written name writes).getLast? with
    | none => simp [List.getLast?_eq_none_iff.mp hw]
    | some v =>
      have hne : written name writes ≠ [] := by
        intro hnil
        simp [hnil] at hw
      simp [hne, hr, Reducer.reduce, hw]
  · intro name hr hne
    rw [hat, after_eq]
    have hwrote : ¬ (written name writes).isEmpty = true := by simpa using hne
    unfold CommonSpec.reduced
    rw [if_neg hwrote, hr]
    rfl
  · intro name hnone
    rw [hat, hnone, after_eq]
    rfl

/-- **Reads predict the commit**: a run reads what it wrote last, else what it inherited; and the
commit of its writes leaves what it would read, after the old array where the channel appends. -/
theorem reads_predict_the_commit (frame_id : FrameId) (channels : Channels)
    (writes : List (ChannelName × Value)) :
    (∀ name, (ChannelsTracker.after frame_id channels writes).read name =
      (written name writes).getLast?.or (channels.get name)) ∧
    ∀ (self : SessionCheckpointer) (spec : CommonSpec) (f : FrameId) (x : Snapshot) (s s' : State)
      (expected : Nat) (join_sources : List SnapshotRef) (ref : SnapshotRef),
      s.snapshots.last f = some x → x.channels = channels →
      spec_at self.graphs s.frames f = some spec →
      exec (self.commit_snapshot f expected
        (ChannelsTracker.after frame_id channels writes).into_updates join_sources) s = (.ok ref, s') →
      ∃ k, s'.snapshots.cache ref = some k ∧
        Predicts spec (.after frame_id channels writes) writes k.snapshot.channels := by
  refine ⟨read_after frame_id channels writes, ?_⟩
  rintro self spec f x s s' expected join_sources ref hx rfl hspec h
  obtain ⟨k, hk, hchannels⟩ := cache_commit hx hspec h
  refine ⟨k, hk, ?_⟩
  rw [hchannels]
  exact predicts_commit spec frame_id x.channels writes

/-- Two writes to a channel that appends. -/
theorem two_writes_are_appended :
    ∃ k ref, (exec ((overOut .Append).commit_snapshot ⟨0⟩ 0
        (ChannelsTracker.after ⟨0⟩ .empty [("out", .Null), ("out", .Bool true)]).into_updates [])
      outNode).2.snapshots.cache ref = some k ∧
      k.snapshot.channels.get "out" = some (.Array [.Null, .Bool true]) := by
  obtain ⟨-, hcommit⟩ := reads_predict_the_commit ⟨0⟩ .empty [("out", .Null), ("out", .Bool true)]
  obtain ⟨k, hk, hpredicts⟩ := hcommit (overOut .Append) (outSpec .Append) ⟨0⟩
    ⟨⟨0⟩, ⟨0⟩, 0, .empty, []⟩ outNode _ 0 [] ⟨⟨0⟩, ⟨0⟩, 1⟩ rfl rfl rfl rfl
  refine ⟨k, _, hk, ?_⟩
  exact hpredicts.appended "out" rfl (by simp [written])

end Commit

end marie.session
