-- The channels of a node that suspends. Each run of the node commits all that
-- its body has written so far, and the next run starts from that snapshot. A
-- reducer that absorbs what it has seen makes one commit of them; `Append`
-- does not.
import Marie.Session.Replay
import Marie.Session.Runs
import Marie.Session.Reducers

namespace marie.session

open Program FrameTree

/-! ## The uninterrupted execution -/

/-- The channels that a segment reads before the run has written them. -/
def Segment.freshReads {σ : Type} : Segment σ → ChannelsTracker → List ChannelName
  | .read name next, t =>
    if t.updates.any (·.name = name) then (next (t.read name)).freshReads t
    else name :: (next (t.read name)).freshReads t
  | .write name value next, t => next.freshReads (t.write name value)
  | _, _ => []

/-- What an execution does: its requests, its result, all that it writes, what of this it
writes before its last request, and what it reads before it writes it. -/
structure Execution where
  requests : List RunLogContent
  result : FrameResult
  updates : List ChannelUpdate
  before : List ChannelUpdate
  fresh : List ChannelName

section Execution

variable {σ : Type} (body : NodeBody σ)

/-- The execution that gets each answer at once, when it asks for these and completes. -/
def uninterrupted (state : σ) (t : ChannelsTracker) : List Value → Option Execution
  | [] =>
    match (body.segment state).run t with
    | (.complete result, t') =>
      some ⟨[], result, t'.updates, t.updates, (body.segment state).freshReads t⟩
    | _ => none
  | answer :: answers =>
    match (body.segment state).run t with
    | (.suspend content resume, t') =>
      (uninterrupted (resume answer) t' answers).map fun e =>
        { e with
          requests := content :: e.requests
          fresh := (body.segment state).freshReads t ++ e.fresh }
    | _ => none

/-- The requests of a run that gets these answers. -/
def issued (state : σ) (t : ChannelsTracker) : List Value → List RunLogContent
  | [] =>
    match (body.segment state).run t with
    | (.suspend content _, _) => [content]
    | _ => []
  | answer :: answers =>
    match (body.segment state).run t with
    | (.suspend content resume, t') => content :: issued (resume answer) t' answers
    | _ => []

end Execution

/-! ## The runs of the node -/

namespace SessionCheckpointer

variable (self : SessionCheckpointer) {σ : Type} (body : NodeBody σ) (f : FrameId)

/-- One run: what the worker makes of the last snapshot and of the log, as
`on_frame_run_terminated` records it. It gives the requests of the run and its result. -/
def run_node : Ckp (List RunLogContent × FrameResult) := do
  let snapshot ← snapshots (SessionSnapshots.latest f)
  let logs ← frames (logs_of f)
  self.record_run f (run_graph_node body f snapshot.channels logs)
  pure (issued body body.start (.new f snapshot.channels) (logs.filterMap (·.value)),
    (run_graph_node body f snapshot.channels logs).result)

/-- The join that brings an answer: it commits what the children export to the node, and
resolves the pending entry. -/
def answer_node (answer : Value) (imports : List ChannelUpdate) : Ckp Unit := do
  let generation := (← snapshots (SessionSnapshots.latest f)).superstep
  let _ ← self.commit_snapshot f generation imports []
  frames (answer_pending f answer)

/-- A run and its answer for each of the answers, and the run after them. -/
def replay_node : List (Value × List ChannelUpdate) →
    Ckp (List (List RunLogContent × FrameResult))
  | [] => do
    let run ← self.run_node body f
    pure [run]
  | (answer, imports) :: rest => do
    let run ← self.run_node body f
    self.answer_node f answer imports
    let runs ← replay_node rest
    pure (run :: runs)

end SessionCheckpointer

/-- The runs of a node that asks for `requests` one by one, and then completes: each one issues
the requests of those before it again, and one more. -/
def expectedRuns (asked : List RunLogContent) (result : FrameResult) :
    List RunLogContent → List (List RunLogContent × FrameResult)
  | [] => [(asked, result)]
  | content :: requests =>
    (asked ++ [content], run_log_content_to_frame_result content) ::
      expectedRuns (asked ++ [content]) result requests

/-- The runs of the node do what the uninterrupted execution `e` does: they issue its requests at
its positions, and leave the channels that one commit of its updates on `channels` makes. -/
def ReplayAgrees {σ : Type} (ckp : SessionCheckpointer) (body : NodeBody σ) (f : FrameId)
    (spec : CommonSpec) (channels : Channels) (e : Execution)
    (answers : List (Value × List ChannelUpdate)) (s : State) : Prop :=
  ∃ s', exec (ckp.replay_node body f answers) s = (.ok (expectedRuns [] e.result e.requests), s') ∧
    ∃ y, s'.snapshots.last f = some y ∧ y.channels = commit_channels spec channels e.updates

/-! ## Segments over other channels -/

section Segments

variable {σ : Type}

theorem read_agrees {t : ChannelsTracker} {name : ChannelName} {channels : Channels}
    (h : t.updates.any (·.name = name) ∨ channels name = t.channels name) :
    ({ t with channels } : ChannelsTracker).read name = t.read name := by
  unfold ChannelsTracker.read Channels.get
  cases hfind : t.updates.reverse.find? (fun u => u.name = name) with
  | some u => simp
  | none =>
    rcases h with h | h
    · obtain ⟨u, hu, hname⟩ := List.any_eq_true.mp h
      have hno := List.find?_eq_none.mp hfind u (List.mem_reverse.mpr hu)
      exact absurd hname hno
    · simp [h]

/-- A segment does the same over channels that agree on what it reads fresh. -/
theorem run_agrees (seg : Segment σ) (t : ChannelsTracker) (channels : Channels)
    (h : ∀ name ∈ seg.freshReads t, channels name = t.channels name) :
    seg.run { t with channels } = ((seg.run t).1, { (seg.run t).2 with channels }) := by
  induction seg generalizing t with
  | read name next ih =>
    have hread : ({ t with channels } : ChannelsTracker).read name = t.read name := by
      apply read_agrees
      by_cases hw : t.updates.any (·.name = name)
      · exact .inl hw
      · exact .inr (h name (by simp [Segment.freshReads, hw]))
    have hrest : ∀ x ∈ (next (t.read name)).freshReads t, channels x = t.channels x := by
      intro x hx
      apply h
      unfold Segment.freshReads
      split
      · exact hx
      · exact List.mem_cons_of_mem _ hx
    simp only [Segment.run, hread]
    exact ih _ t hrest
  | write name value next ih =>
    simp only [Segment.run]
    exact ih (t.write name value) h
  | suspend content resume => rfl
  | complete result => rfl
  | raise error => rfl

/-- A segment only adds updates, and keeps the rest of the tracker. -/
theorem run_updates (seg : Segment σ) (t : ChannelsTracker) :
    t.updates <+: (seg.run t).2.updates ∧ (seg.run t).2.channels = t.channels ∧
      (seg.run t).2.frame_id = t.frame_id := by
  induction seg generalizing t with
  | read name next ih => exact ih _ t
  | write name value next ih =>
    obtain ⟨h1, h2, h3⟩ := ih (t.write name value)
    exact ⟨(List.prefix_append _ _).trans h1, h2, h3⟩
  | suspend content resume => exact ⟨List.prefix_refl _, rfl, rfl⟩
  | complete result => exact ⟨List.prefix_refl _, rfl, rfl⟩
  | raise error => exact ⟨List.prefix_refl _, rfl, rfl⟩

end Segments

/-! ## Reducers that absorb -/

/-- What the maximum has seen does not change it again. -/
theorem foldl_maxOf_absorbs (xs ys : List Value) (best : Option ℚ) :
    (xs ++ ys).foldl maxOf (xs.foldl maxOf best) = (xs ++ ys).foldl maxOf best := by
  induction xs generalizing best with
  | nil => rfl
  | cons x xs ih =>
    simp only [List.cons_append, List.foldl_cons]
    rw [← foldl_maxOf_comm, maxOf_le, ih]

/-- A reducer but `Append` absorbs the values that it has reduced before. -/
theorem reduce_absorbs {r : Reducer} (hr : r ≠ .Append) (current : Option Value)
    {xs ys : List Value} (hxs : xs <+: ys) (hys : ys ≠ []) :
    r.reduce (some (r.reduce current xs)) ys = r.reduce current ys := by
  obtain ⟨zs, rfl⟩ := hxs
  cases r with
  | Append => exact absurd rfl hr
  | LastWriteWins =>
    obtain ⟨v, hv⟩ := Option.ne_none_iff_exists'.mp (mt List.getLast?_eq_none_iff.mp hys)
    simp [Reducer.reduce, hv]
  | Max => rw [reduce_max, Option.bind_some, as_f64_reduce_max, foldl_maxOf_absorbs, reduce_max]

/-! ## The channels along the runs -/

/-- How many values an array has. -/
def arraySize : Option Value → Nat
  | some (.Array vs) => vs.length
  | _ => 0

/-- The channels once runs have committed up to `updates`, from the channels `start` on. -/
structure Tracks (spec : CommonSpec) (start : Channels) (updates : List ChannelUpdate)
    (channels : Channels) : Prop where
  kept : ∀ name, contributions name updates = [] → channels name = start name
  absorbed : ∀ name, spec.reducer_of name ≠ .Append →
    channels name = spec.reduced name (start name) (contributions name updates)
  grown : ∀ name, spec.reducer_of name = .Append →
    arraySize (start name) + (contributions name updates).length ≤ arraySize (channels name)

section Tracks

variable {spec : CommonSpec} {start channels : Channels} {updates updates' : List ChannelUpdate}

theorem Tracks.nil : Tracks spec start [] start :=
  ⟨fun _ _ => rfl, fun _ _ => rfl, fun _ _ => Nat.le_refl _⟩

theorem contributions_of_initial (h : updates <+: updates') (name : ChannelName) :
    contributions name updates <+: contributions name updates' := by
  obtain ⟨more, rfl⟩ := h
  rw [contributions_append]
  exact List.prefix_append _ _

theorem reduced_nil (name : ChannelName) (current : Option Value) :
    spec.reduced name current [] = current := rfl

theorem reduced_of_ne {name : ChannelName} {vs : List Value} (h : vs ≠ []) (current : Option Value) :
    spec.reduced name current vs = some ((spec.reducer_of name).reduce current vs) := by
  unfold CommonSpec.reduced
  rw [if_neg (by simpa using h)]

theorem arraySize_append (current : Option Value) (vs : List Value) :
    arraySize (some (Reducer.reduce .Append current vs)) = arraySize current + vs.length := by
  unfold Reducer.reduce
  rcases current with _ | v
  · simp [arraySize]
  · cases v <;> simp [arraySize]

/-- One more run commits all updates so far. -/
theorem Tracks.commit (h : Tracks spec start updates channels) (hle : updates <+: updates') :
    Tracks spec start updates' (commit_channels spec channels updates') := by
  refine ⟨?_, ?_, ?_⟩
  · intro name hnone
    have hold : contributions name updates = [] := by
      have := contributions_of_initial hle name
      rw [hnone] at this
      exact List.prefix_nil.mp this
    rw [commit_channels_at, hnone, reduced_nil, h.kept name hold]
  · intro name hr
    have hpre := contributions_of_initial hle name
    rw [commit_channels_at, h.absorbed name hr]
    by_cases hys : contributions name updates' = []
    · rw [hys] at hpre ⊢
      rw [List.prefix_nil.mp hpre]
      rfl
    · rw [reduced_of_ne hys, reduced_of_ne hys]
      by_cases hxs : contributions name updates = []
      · rw [hxs, reduced_nil]
      · rw [reduced_of_ne hxs, reduce_absorbs hr _ hpre hys]
  · intro name hr
    have hgrown := h.grown name hr
    rw [commit_channels_at]
    by_cases hys : contributions name updates' = []
    · rw [hys, reduced_nil]
      simp only [List.length_nil]
      omega
    · rw [reduced_of_ne hys, hr, arraySize_append]
      omega

end Tracks

/-! ## The state that the answers lead to -/

section Reached

variable {σ : Type} {body : NodeBody σ} {f : FrameId} {start channels : Channels}
  {given : List Value} {asked : List RunLogContent} {logs : List RunLog} {fresh : List ChannelName}
  {state : σ} {t : ChannelsTracker}

/-- The uninterrupted execution has got `given` for what it `asked`; it goes on from `state`, with
the tracker `t`. The log of the frame is `logs`, and `fresh` is what was read before it was
written. -/
inductive Reached (body : NodeBody σ) (f : FrameId) (start : Channels) :
    List Value → List RunLogContent → List RunLog → List ChannelName → σ → ChannelsTracker → Prop
  | initial : Reached body f start [] [] [] [] body.start (.new f start)
  | resume {given : List Value} {asked : List RunLogContent} {logs : List RunLog}
      {fresh : List ChannelName} {state : σ} {t t' : ChannelsTracker} {content : RunLogContent}
      {next : Value → σ} (answer : Value) :
      Reached body f start given asked logs fresh state t →
      (body.segment state).run t = (.suspend content next, t') →
      Reached body f start (given ++ [answer]) (asked ++ [content])
        (logs ++ [⟨given.length, content, some answer⟩])
        (fresh ++ (body.segment state).freshReads t) (next answer) t'

theorem Reached.logs_spec (h : Reached body f start given asked logs fresh state t) :
    logs.length = given.length ∧ (∀ l ∈ logs, l.index < given.length) ∧
      logs.filterMap (·.value) = given := by
  induction h with
  | initial => simp
  | resume answer _ _ ih =>
    obtain ⟨h1, h2, h3⟩ := ih
    refine ⟨by simp [h1], ?_, by simp [h3]⟩
    intro l hl
    rcases List.mem_append.mp hl with hl | hl
    · have := h2 l hl
      simp only [List.length_append, List.length_singleton]
      omega
    · obtain rfl := List.mem_singleton.mp hl
      simp

theorem Reached.tracker (h : Reached body f start given asked logs fresh state t) :
    t.channels = start ∧ t.frame_id = f := by
  induction h with
  | initial => exact ⟨rfl, rfl⟩
  | @resume given asked logs fresh state t t' content next answer hr hrun ih =>
    have hkeep := run_updates (body.segment state) t
    rw [hrun] at hkeep
    exact ⟨hkeep.2.1.trans ih.1, hkeep.2.2.trans ih.2⟩

/-- The next segment does over other channels what it does over those of the start, where they
agree on what it reads fresh. -/
theorem Reached.agrees {out : SegmentEnd σ} {t' : ChannelsTracker}
    (h : Reached body f start given asked logs fresh state t)
    (hrun : (body.segment state).run t = (out, t'))
    (hfresh : ∀ name ∈ (body.segment state).freshReads t, channels name = start name) :
    (body.segment state).run { t with channels } = (out, { t' with channels }) := by
  rw [run_agrees _ _ _ fun name hname => ?_, hrun]
  rw [h.tracker.1]
  exact hfresh name hname

/-- The loop goes through the entries that have an answer, over any channels that agree on what
is read fresh. -/
theorem Reached.loop (h : Reached body f start given asked logs fresh state t)
    (hfresh : ∀ name ∈ fresh, channels name = start name) (entries : List RunLog)
    (hlogs : logs <+: entries) :
    execute_loop body body.start ⟨.new f channels, ⟨entries, entries.length, 0⟩⟩ =
      execute_loop body state ⟨{ t with channels }, ⟨entries, entries.length, given.length⟩⟩ := by
  induction h with
  | initial => rfl
  | @resume given asked logs fresh state t t' content next answer hr hrun ih =>
    have hprefix := (List.prefix_append logs _).trans hlogs
    rw [ih (fun name hname => hfresh name (by simp [hname])) hprefix]
    have hagree := hr.agrees hrun fun name hname => hfresh name (by simp [hname])
    have hentry : entries[given.length]? = some ⟨given.length, content, some answer⟩ := by
      obtain ⟨more, rfl⟩ := hlogs
      rw [List.append_assoc, ← hr.logs_spec.1, List.getElem?_append_right (Nat.le_refl _)]
      simp
    rw [execute_loop_replay hagree hentry rfl]
    simp

theorem Reached.issued (h : Reached body f start given asked logs fresh state t)
    (hfresh : ∀ name ∈ fresh, channels name = start name) (answers : List Value) :
    issued body body.start (.new f channels) (given ++ answers) =
      asked ++ issued body state { t with channels } answers := by
  induction h generalizing answers with
  | initial => rfl
  | @resume given asked logs fresh state t t' content next answer hr hrun ih =>
    have hagree := hr.agrees hrun fun name hname => hfresh name (by simp [hname])
    rw [List.append_assoc, List.singleton_append,
      ih (fun name hname => hfresh name (by simp [hname]))]
    simp [marie.session.issued, hagree]

/-- The answers of the log lead to the point that was reached. -/
theorem Reached.issued_logs (h : Reached body f start given asked logs fresh state t)
    (hfresh : ∀ name ∈ fresh, channels name = start name) :
    marie.session.issued body body.start (.new f channels) (logs.filterMap (·.value)) =
      asked ++ marie.session.issued body state { t with channels } [] := by
  have hissued := h.issued hfresh []
  rwa [List.append_nil, ← h.logs_spec.2.2] at hissued

/-- A run that comes to a request with no answer. -/
theorem Reached.suspends {content : RunLogContent} {next : Value → σ} {t' : ChannelsTracker}
    (h : Reached body f start given asked logs fresh state t) (h32 : given.length < 2 ^ 32)
    (hrun : (body.segment state).run t = (.suspend content next, t'))
    (hfresh : ∀ name ∈ fresh ++ (body.segment state).freshReads t, channels name = start name) :
    run_graph_node body f channels logs =
        ⟨f, t'.updates, [⟨given.length, content, none⟩], run_log_content_to_frame_result content⟩ ∧
      marie.session.issued body body.start (.new f channels) (logs.filterMap (·.value)) =
        asked ++ [content] := by
  have hbefore : ∀ name ∈ fresh, channels name = start name :=
    fun name hname => hfresh name (by simp [hname])
  have hagree := h.agrees hrun fun name hname => hfresh name (by simp [hname])
  constructor
  · have hloop := h.loop hbefore logs (List.prefix_refl _)
    unfold run_graph_node execute RunLogs.new
    rw [hloop, execute_loop_suspend hagree h.logs_spec.1.symm, Nat.mod_eq_of_lt h32]
    simp [ChannelsTracker.into_updates, RunLogs.into_new_logs]
  · rw [h.issued_logs hbefore]
    simp [marie.session.issued, hagree]

/-- A run that completes. -/
theorem Reached.completes {result : FrameResult} {t' : ChannelsTracker}
    (h : Reached body f start given asked logs fresh state t)
    (hrun : (body.segment state).run t = (.complete result, t'))
    (hfresh : ∀ name ∈ fresh ++ (body.segment state).freshReads t, channels name = start name) :
    run_graph_node body f channels logs = ⟨f, t'.updates, [], result⟩ ∧
      marie.session.issued body body.start (.new f channels) (logs.filterMap (·.value)) = asked := by
  have hbefore : ∀ name ∈ fresh, channels name = start name :=
    fun name hname => hfresh name (by simp [hname])
  have hagree := h.agrees hrun fun name hname => hfresh name (by simp [hname])
  constructor
  · have hloop := h.loop hbefore logs (List.prefix_refl _)
    unfold run_graph_node execute RunLogs.new
    rw [hloop, execute_loop_complete hagree]
    simp [ChannelsTracker.into_updates, RunLogs.into_new_logs]
  · rw [h.issued_logs hbefore]
    simp [marie.session.issued, hagree]

end Reached

/-! ## The frame between two runs -/

/-- The node `f` with its log and its spec, and its last snapshot `x`. -/
structure NodeAt (ckp : SessionCheckpointer) (f : FrameId) (spec : CommonSpec)
    (logs : List RunLog) (x : Snapshot) (s : State) : Prop where
  node : ∃ n, s.frames.find f = some n ∧ n.logs = logs ∧
    spec_of_ref ckp.graphs n.spec_ref = some spec
  session_id : s.snapshots.session_id = ckp.session_id
  last : s.snapshots.last f = some x

section NodeAt

variable {self : SessionCheckpointer} {f : FrameId} {spec : CommonSpec} {logs : List RunLog}
  {x : Snapshot} {s : State}

theorem NodeAt.spec_at (h : NodeAt self f spec logs x s) :
    spec_at self.graphs s.frames f = some spec := by
  obtain ⟨n, hn, -, hspec⟩ := h.node
  simp [FrameTree.spec_at, hn, hspec]

theorem NodeAt.latest (h : NodeAt self f spec logs x s) :
    ∃ s', exec (snapshots (SessionSnapshots.latest f)) s = (.ok x, s') ∧
      NodeAt self f spec logs x s' :=
  ⟨_, exec_snapshots (SessionSnapshots.exec_latest h.last), h.node, h.session_id, h.last⟩

/-- A commit that is visible at once. -/
theorem NodeAt.commit (h : NodeAt self f spec logs x s) (hflush : self.flush_on_push = true)
    (hroom : x.superstep + 1 < 2 ^ 32) (updates : List ChannelUpdate)
    (join_sources : List SnapshotRef) :
    ∃ s', exec (self.commit_snapshot f x.superstep updates join_sources) s =
        (.ok (self.pushed spec x updates join_sources).ref, s') ∧
      NodeAt self f spec logs (self.pushed spec x updates join_sources) s' := by
  have hid : x.frame_id = f := (SessionSnapshots.latest_snapshot_spec h.last).1.2.1
  obtain ⟨t, ht, hexec⟩ := self.exec_commit updates join_sources h.last hid h.spec_at hroom
  obtain ⟨hlast, hsid⟩ := self.last_push_into hflush h.session_id h.last spec updates join_sources
  refine ⟨_, hexec, ?_, hsid, hlast⟩
  obtain ⟨n, hn, hrest⟩ := h.node
  rcases ht with rfl | rfl
  · exact ⟨n, hn, hrest⟩
  · exact ⟨n, by rw [find_load]; exact hn, hrest⟩

/-- The record of a run: its updates are committed, and its new entries join the log. -/
theorem NodeAt.record_run (h : NodeAt self f spec logs x s) (hflush : self.flush_on_push = true)
    (hroom : x.superstep + 1 < 2 ^ 32) (response : FrameResponse) :
    ∃ s' y, exec (self.record_run f response) s = (.ok (), s') ∧
      NodeAt self f spec (logs ++ response.new_logs) y s' ∧ y.superstep ≤ x.superstep + 1 ∧
      y.channels = commit_channels spec x.channels response.updates := by
  have hcommit : ∃ s1 y, exec (self.commit_updates f response.updates) s = (.ok (), s1) ∧
      NodeAt self f spec logs y s1 ∧ y.superstep ≤ x.superstep + 1 ∧
      y.channels = commit_channels spec x.channels response.updates := by
    unfold SessionCheckpointer.commit_updates
    cases hup : response.updates with
    | nil => exact ⟨s, x, rfl, h, Nat.le_succ _, rfl⟩
    | cons u updates =>
      obtain ⟨s1, h1, hs1⟩ := h.latest
      obtain ⟨s2, h2, hs2⟩ := hs1.commit hflush hroom (u :: updates) []
      refine ⟨s2, _, ?_, hs2, Nat.le_refl _, rfl⟩
      rw [if_neg (by simp), exec_bind_ok h1, exec_bind_ok h2]
      rfl
  obtain ⟨s1, y, h1, hs1, hstep, hch⟩ := hcommit
  obtain ⟨n, hn, hlogs, hspec⟩ := hs1.node
  obtain ⟨t, h2, hfind⟩ := exec_append_logs hn response.new_logs
  unfold SessionCheckpointer.record_run
  rw [exec_bind_ok h1]
  cases hnew : response.new_logs with
  | nil => exact ⟨s1, y, rfl, by simpa using hs1, hstep, hch⟩
  | cons l new_logs =>
    rw [hnew] at h2 hfind
    refine ⟨_, y, exec_frames h2, ⟨⟨_, hfind, ?_, hspec⟩, hs1.session_id, hs1.last⟩, hstep, hch⟩
    simp [hlogs]

/-- One run of the node. -/
theorem NodeAt.run_node (h : NodeAt self f spec logs x s) (hflush : self.flush_on_push = true)
    (hroom : x.superstep + 1 < 2 ^ 32) {σ : Type} (body : NodeBody σ) :
    ∃ s' y, exec (self.run_node body f) s =
        (.ok (issued body body.start (.new f x.channels) (logs.filterMap (·.value)),
          (run_graph_node body f x.channels logs).result), s') ∧
      NodeAt self f spec (logs ++ (run_graph_node body f x.channels logs).new_logs) y s' ∧
      y.superstep ≤ x.superstep + 1 ∧
      y.channels =
        commit_channels spec x.channels (run_graph_node body f x.channels logs).updates := by
  obtain ⟨s1, h1, hs1⟩ := h.latest
  obtain ⟨n, hn, hlogs, hspec⟩ := hs1.node
  have hread : exec (frames (logs_of f)) s1 =
      (.ok logs, { s1 with frames := s1.frames.load f }) := by
    rw [← hlogs]
    exact exec_frames (exec_get_map _ hn)
  have hs2 : NodeAt self f spec logs x { s1 with frames := s1.frames.load f } :=
    ⟨⟨n, by rw [find_load]; exact hn, hlogs, hspec⟩, hs1.session_id, hs1.last⟩
  obtain ⟨s3, y, h3, hs3, hstep, hch⟩ :=
    hs2.record_run hflush hroom (run_graph_node body f x.channels logs)
  refine ⟨s3, y, ?_, hs3, hstep, hch⟩
  unfold SessionCheckpointer.run_node
  rw [exec_bind_ok h1, exec_bind_ok hread, exec_bind_ok h3]
  rfl

/-- The answer to the entry that waits, with nothing to import. -/
theorem NodeAt.answer_node {index : Nat} {content : RunLogContent}
    (h : NodeAt self f spec (logs ++ [⟨index, content, none⟩]) x s)
    (hflush : self.flush_on_push = true) (hroom : x.superstep + 1 < 2 ^ 32)
    (hne : ∀ l ∈ logs, l.index ≠ index) (answer : Value) :
    ∃ s' y, exec (self.answer_node f answer []) s = (.ok (), s') ∧
      NodeAt self f spec (logs ++ [⟨index, content, some answer⟩]) y s' ∧
      y.superstep ≤ x.superstep + 1 ∧ y.channels = x.channels := by
  obtain ⟨s1, h1, hs1⟩ := h.latest
  obtain ⟨s2, h2, hs2⟩ := hs1.commit hflush hroom [] []
  obtain ⟨n, hn, hlogs, hspec⟩ := hs2.node
  obtain ⟨t, h3, hfind⟩ := exec_answer_pending hn hlogs hne answer
  have hnode : NodeAt self f spec (logs ++ [⟨index, content, some answer⟩])
      (self.pushed spec x [] []) { s2 with frames := t } :=
    ⟨⟨_, hfind, rfl, hspec⟩, hs2.session_id, hs2.last⟩
  refine ⟨_, _, ?_, hnode, Nat.le_refl _, rfl⟩
  unfold SessionCheckpointer.answer_node
  rw [exec_bind_ok h1, exec_bind_ok h2]
  exact exec_frames h3

end NodeAt

/-! ## The law -/

section Law

variable {self : SessionCheckpointer} {σ : Type} {body : NodeBody σ} {f : FrameId}
  {spec : CommonSpec} {start : Channels}

/-- What an execution reads fresh it does not write before its last request. -/
def Execution.ReadsStable (e : Execution) : Prop :=
  ∀ name ∈ e.fresh, ∀ u ∈ e.before, u.name ≠ name

/-- An execution writes no channel with the reducer `Append` before its last request. -/
def Execution.AppendsLast (spec : CommonSpec) (e : Execution) : Prop :=
  ∀ u ∈ e.before, spec.reducer_of u.name ≠ .Append

theorem contributions_eq_nil {name : ChannelName} {updates : List ChannelUpdate}
    (h : ∀ u ∈ updates, u.name ≠ name) : contributions name updates = [] := by
  unfold contributions
  rw [List.filter_eq_nil_iff.mpr fun u hu => by simpa using h u hu]
  rfl

/-- The updates before the last request begin with those so far. -/
theorem uninterrupted_updates {state : σ} {t : ChannelsTracker} {answers : List Value}
    {e : Execution} (h : uninterrupted body state t answers = some e) :
    t.updates <+: e.before ∧ e.before <+: e.updates := by
  induction answers generalizing state t e with
  | nil =>
    unfold uninterrupted at h
    split at h
    · rename_i result t' hrun
      cases h
      have hle := (run_updates (body.segment state) t).1
      rw [hrun] at hle
      exact ⟨List.prefix_refl _, hle⟩
    · cases h
  | cons answer answers ih =>
    unfold uninterrupted at h
    split at h
    · rename_i content next t' hrun
      obtain ⟨e', he', rfl⟩ := Option.map_eq_some_iff.mp h
      have hle := (run_updates (body.segment state) t).1
      rw [hrun] at hle
      exact ⟨hle.trans (ih he').1, (ih he').2⟩
    · cases h

/-- The runs left, from the state that the answers so far lead to: they do what the rest of the
execution does, and track all of its updates. -/
theorem replay_tracks (hflush : self.flush_on_push = true) (answers : List Value)
    {given : List Value} {asked : List RunLogContent} {logs : List RunLog}
    {fresh : List ChannelName} {state : σ} {t : ChannelsTracker} {e : Execution} {x : Snapshot}
    {s : State} (h : Reached body f start given asked logs fresh state t)
    (he : uninterrupted body state t answers = some e)
    (hstable : ∀ name ∈ fresh ++ e.fresh, ∀ u ∈ e.before, u.name ≠ name)
    (hnode : NodeAt self f spec logs x s) (htracks : Tracks spec start t.updates x.channels)
    (h32 : given.length + answers.length < 2 ^ 32)
    (hroom : x.superstep + 2 * answers.length + 1 < 2 ^ 32) :
    ∃ s' y z, exec (self.replay_node body f (answers.map (·, []))) s =
        (.ok (expectedRuns asked e.result e.requests), s') ∧
      s'.snapshots.last f = some z ∧ Tracks spec start e.before y ∧
      z.channels = commit_channels spec y e.updates := by
  induction answers generalizing given asked logs fresh state t e x s with
  | nil =>
    unfold uninterrupted at he
    split at he
    · rename_i result t' hrun
      cases he
      have hagree : ∀ name ∈ fresh ++ (body.segment state).freshReads t,
          x.channels name = start name :=
        fun name hname => htracks.kept name (contributions_eq_nil (hstable name hname))
      obtain ⟨hresponse, hissued⟩ := h.completes hrun hagree
      obtain ⟨s1, y, h1, hs1, -, hch⟩ := hnode.run_node hflush (by omega) body
      refine ⟨s1, x.channels, y, ?_, hs1.last, htracks, by rw [hch, hresponse]⟩
      rw [hresponse, hissued] at h1
      rw [List.map_nil, SessionCheckpointer.replay_node, exec_bind_ok h1]
      rfl
    · cases he
  | cons answer answers ih =>
    unfold uninterrupted at he
    split at he
    · rename_i content next t' hrun
      obtain ⟨e', he', rfl⟩ := Option.map_eq_some_iff.mp he
      simp only [List.length_cons] at h32 hroom
      have hle := (run_updates (body.segment state) t).1
      rw [hrun] at hle
      -- what is read fresh has kept its value
      have hkept : t.updates <+: e'.before := hle.trans (uninterrupted_updates he').1
      have hagree : ∀ name ∈ fresh ++ (body.segment state).freshReads t,
          x.channels name = start name := by
        intro name hname
        refine htracks.kept name (contributions_eq_nil fun u hu => ?_)
        refine hstable name ?_ u (hkept.subset hu)
        rcases List.mem_append.mp hname with hname | hname
        · simp [hname]
        · simp [hname]
      obtain ⟨hresponse, hissued⟩ := h.suspends (by omega) hrun hagree
      -- the run, and its answer
      obtain ⟨s1, y, h1, hs1, hstep1, hch1⟩ := hnode.run_node hflush (by omega) body
      rw [hresponse] at hs1 h1 hch1
      rw [hissued] at h1
      obtain ⟨-, hindex, -⟩ := h.logs_spec
      obtain ⟨s2, z, h2, hs2, hstep2, hch2⟩ := hs1.answer_node hflush (by omega)
        (fun l hl => by have := hindex l hl; omega) answer
      have htracks' : Tracks spec start t'.updates z.channels := by
        rw [hch2, hch1]
        exact htracks.commit hle
      obtain ⟨s3, y3, z3, h3, hlast, htracks3, hch3⟩ := ih (h.resume answer hrun) he'
        (by simpa using hstable) hs2 htracks' (by simp; omega) (by omega)
      refine ⟨s3, y3, z3, ?_, hlast, htracks3, hch3⟩
      rw [List.map_cons, SessionCheckpointer.replay_node, exec_bind_ok h1, exec_bind_ok h2,
        exec_bind_ok h3]
      rfl
    · cases he

/-- A commit of all updates on channels that track those before the last request. -/
theorem committed_once_iff {e : Execution} {channels : Channels} (hle : e.before <+: e.updates)
    (h : Tracks spec start e.before channels) :
    commit_channels spec channels e.updates = commit_channels spec start e.updates ↔
      e.AppendsLast spec := by
  constructor
  · intro heq u hu hr
    -- the array of an `Append` channel has grown already
    have hgrown := h.grown u.name hr
    have hmem : u.value ∈ contributions u.name e.before :=
      List.mem_map.mpr ⟨u, List.mem_filter.mpr ⟨hu, by simp⟩, rfl⟩
    have hpos : 0 < (contributions u.name e.before).length := List.length_pos_of_mem hmem
    have hne : contributions u.name e.updates ≠ [] :=
      List.ne_nil_of_mem ((contributions_of_initial hle u.name).subset hmem)
    have hsize := congrArg arraySize (congrFun heq u.name)
    rw [commit_channels_at, commit_channels_at, reduced_of_ne hne, reduced_of_ne hne, hr,
      arraySize_append, arraySize_append] at hsize
    omega
  · intro hlast
    funext name
    by_cases hr : spec.reducer_of name = .Append
    · have hnone : contributions name e.before = [] :=
        contributions_eq_nil fun u hu heq => hlast u hu (by rw [heq, hr])
      rw [commit_channels_at, commit_channels_at, h.kept name hnone]
    · have hall := (h.commit hle).absorbed name hr
      rw [hall, commit_channels_at]

/-- **Replay and channels**: a node whose fresh reads are stable, and which imports nothing,
leaves the channels of its uninterrupted execution just when that execution writes no `Append`
channel before its last request. -/
theorem replay_agrees_iff (self : SessionCheckpointer) (body : NodeBody σ) (f : FrameId)
    (spec : CommonSpec) (answers : List (Value × List ChannelUpdate)) (x : Snapshot) (s : State)
    (e : Execution) (hflush : self.flush_on_push = true) (hnode : NodeAt self f spec [] x s)
    (he : uninterrupted body body.start (.new f x.channels) (answers.map (·.1)) = some e)
    (himports : ∀ a ∈ answers, a.2 = []) (hstable : e.ReadsStable)
    (hroom : x.superstep + 2 * answers.length + 1 < 2 ^ 32) :
    ReplayAgrees self body f spec x.channels e answers s ↔ e.AppendsLast spec := by
  have hanswers : (answers.map (·.1)).map (·, []) = answers := by
    rw [List.map_map]
    refine (List.map_congr_left fun a ha => ?_).trans (List.map_id _)
    simp [← himports a ha]
  obtain ⟨s', y, z, hrun, hlast, htracks, hch⟩ := replay_tracks hflush (answers.map (·.1))
    (s := s) .initial he (by simpa [Execution.ReadsStable] using hstable) hnode Tracks.nil
    (by simp only [List.length_nil, List.length_map]; omega) (by simpa using hroom)
  rw [hanswers] at hrun
  rw [← committed_once_iff (uninterrupted_updates he).2 htracks, ← hch]
  constructor
  · rintro ⟨s1, hrun1, w, hw, hchannels⟩
    rw [hrun] at hrun1
    cases hrun1
    rw [hlast] at hw
    cases hw
    exact hchannels
  · intro hchannels
    exact ⟨s', hrun, z, hlast, hchannels⟩

end Law

/-! ## A node that writes and asks -/

/-- Writes `out`, asks for a sub-graph, and completes. -/
def writesThenAsks : NodeBody Bool where
  start := false
  segment
    | false => .write "out" (.String "a") (.suspend (.GraphLog "sub") fun _ => true)
    | true => .complete .Completed

/-- Its uninterrupted execution, in the frame `⟨0⟩`. -/
def writesOnce : Execution where
  requests := [.GraphLog "sub"]
  result := .Completed
  updates := [⟨"out", .String "a", ⟨0⟩⟩]
  before := [⟨"out", .String "a", ⟨0⟩⟩]
  fresh := []

/-- The spec of a graph whose channel `out` has this reducer. -/
def outSpec (reducer : Reducer) : CommonSpec := { channels := [⟨"out", reducer⟩] }

def overOut (reducer : Reducer) : SessionCheckpointer :=
  { plain true with
    graphs := .of [{ id := "g", edges := fun _ => none, entry := "a", common := outSpec reducer }] }

def outNode : State :=
  .new ⟨0⟩ (.ofNodes
    [FrameNode.new ⟨0⟩ { spec_ref := .Graph ⟨"g", 1⟩, data := .GraphNode ⟨"g", 1⟩ "a" }])
    [⟨⟨0⟩, ⟨0⟩, 0, .empty, []⟩]

theorem outNode_at (reducer : Reducer) :
    NodeAt (overOut reducer) ⟨0⟩ (outSpec reducer) [] ⟨⟨0⟩, ⟨0⟩, 0, .empty, []⟩ outNode :=
  ⟨⟨_, rfl, rfl, rfl⟩, rfl, rfl⟩

/-- With the reducer `Append`, the run before the answer and the run after it both append the
value. -/
theorem a_write_before_a_request_is_appended_twice :
    ¬ ReplayAgrees (overOut .Append) writesThenAsks ⟨0⟩ (outSpec .Append) .empty writesOnce
      [(.Null, [])] outNode := by
  rintro ⟨s1, hrun, w, hw, hch⟩
  have hflush : (overOut .Append).flush_on_push = true := rfl
  have he : uninterrupted writesThenAsks writesThenAsks.start (.new ⟨0⟩ .empty) [.Null] =
      some writesOnce := rfl
  obtain ⟨s', y, z, hrun', hlast, htracks, hch'⟩ := replay_tracks hflush [.Null] .initial he
    (by simp [writesOnce]) (outNode_at .Append) Tracks.nil (by decide) (by decide)
  rw [List.map_singleton, hrun] at hrun'
  cases hrun'
  rw [hw] at hlast
  cases hlast
  rw [hch'] at hch
  exact (committed_once_iff (List.prefix_refl _) htracks).mp hch ⟨"out", .String "a", ⟨0⟩⟩
    (by simp [writesOnce]) rfl

/-- With the reducer `LastWriteWins`, the replay leaves what one execution does. -/
theorem a_last_write_is_replayed :
    ReplayAgrees (overOut .LastWriteWins) writesThenAsks ⟨0⟩ (outSpec .LastWriteWins) .empty
      writesOnce [(.Null, [])] outNode :=
  (replay_agrees_iff (overOut .LastWriteWins) writesThenAsks ⟨0⟩ (outSpec .LastWriteWins)
    [(.Null, [])] ⟨⟨0⟩, ⟨0⟩, 0, .empty, []⟩ outNode writesOnce rfl (outNode_at _) rfl (by simp)
    (by simp [Execution.ReadsStable, writesOnce]) (by decide)).mpr
    (by simp [Execution.AppendsLast, writesOnce, outSpec, CommonSpec.reducer_of])

end marie.session
