-- How often a fan-in joins. Each notification that is handled once all children
-- have ended joins them again, and a child that completes sends two: the frame
-- joins as often as there are notifications on their way when its last child
-- ends.
import Marie.Session.FanIn

namespace marie.session

open Program FrameTree

/-! ## Runs of a fan-in -/

/-- A run around one frame. `queue` holds the notifications of its children that no one has
processed yet, oldest first; `ended` is how the children have ended, and `resumed` how often
the frame has resumed. -/
structure JoinRun where
  state : State
  queue : List SessionCheckpointEvent
  ended : Outcomes
  resumed : Nat

inductive JoinMove
  | terminate (c : FrameId) (outcome : ChildOutcome)
  | process
  | beside (s : State)

/-- The event tells that a child of the frame has terminated. -/
def FanInFrame.notifies (p : FanInFrame) : SessionCheckpointEvent → Bool
  | .FrameTerminated c => c ∈ p.children
  | .ChildFrameTerminated parent c => parent = p.id ∧ c ∈ p.children
  | _ => false

/-- The event is the first one that `resume_frame` sends for the frame. -/
def FanInFrame.resumes (p : FanInFrame) : SessionCheckpointEvent → Bool
  | .FrameReady f => f = p.id
  | .FrameTerminated f => f = p.id
  | _ => false

/-- The events sent from one state to a later one. -/
def sentBetween (s s' : State) : List SessionCheckpointEvent :=
  s'.listeners.drop s.listeners.length

namespace SessionCheckpointer

variable (self : SessionCheckpointer)

def joinStep (p : FanInFrame) (r : JoinRun) : JoinMove → JoinRun
  | .terminate c outcome =>
    let s := (exec (mark_ended c outcome) r.state).2
    { r with
      state := s
      queue := r.queue ++ (sentBetween r.state s).filter p.notifies
      ended := r.ended.record c outcome }
  | .process =>
    match r.queue with
    | [] => r
    | event :: rest =>
      let s := self.step r.state event
      { r with
        state := s
        queue := rest ++ (sentBetween r.state s).filter p.notifies
        resumed := r.resumed + ((sentBetween r.state s).filter p.resumes).length }
  | .beside s => { r with state := s }

def joinRun (p : FanInFrame) (r : JoinRun) (moves : List JoinMove) : JoinRun :=
  moves.foldl (self.joinStep p) r

end SessionCheckpointer

/-- What else happens in the session leaves the frame, its children and their snapshots
alone. A child that has not ended may still change its snapshots. -/
structure Beside (ckp : SessionCheckpointer) (p : FanInFrame) (ended : Outcomes) (s s' : State) :
    Prop where
  frames : Family ckp.graphs p ended s.frames → Family ckp.graphs p ended s'.frames
  session_id : s'.snapshots.session_id = s.snapshots.session_id
  last : ∀ f, f = p.id ∨ (ended f).isSome → s'.snapshots.last f = s.snapshots.last f

/-- The moves of a run: each child ends once, and one that completes has its snapshot. -/
def ValidMove (ckp : SessionCheckpointer) (p : FanInFrame) (snap : FrameId → Snapshot)
    (r : JoinRun) : JoinMove → Prop
  | .terminate c outcome =>
    c ∈ p.children ∧ r.ended c = none ∧
      (outcome = .completed → r.state.snapshots.last c = some (snap c))
  | .process => True
  | .beside s => Beside ckp p r.ended r.state s

def ValidMoves (ckp : SessionCheckpointer) (p : FanInFrame) (snap : FrameId → Snapshot)
    (r : JoinRun) : List JoinMove → Prop
  | [] => True
  | move :: moves =>
    ValidMove ckp p snap r move ∧ ValidMoves ckp p snap (ckp.joinStep p r move) moves

/-- The frame waits with the last snapshot `x`, its children have not ended, and a pushed
snapshot is visible at once. -/
structure JoinStart (ckp : SessionCheckpointer) (p : FanInFrame) (x : Snapshot) (s : State) :
    Prop where
  frames : Family ckp.graphs p (fun _ => none) s.frames
  dont_fail : p.policy.on_child_failed = .DontFail
  nodup : p.children.Nodup
  session_id : s.snapshots.session_id = ckp.session_id
  last : s.snapshots.last p.id = some x
  room : x.superstep + 2 * p.children.length < 2 ^ 32
  visible : ckp.flush_on_push = true

/-- The run made one join of the children: one commit, to which each child that completed
contributes its exports once, and one resumption. -/
structure JoinedOnce (p : FanInFrame) (snap : FrameId → Snapshot) (x : Snapshot) (r : JoinRun) :
    Prop where
  committed : ∃ y, r.state.snapshots.last p.id = some y ∧ y.superstep = x.superstep + 1 ∧
    ∀ name, y.channels name = p.spec.reduced name (x.channels name)
      ((p.relevant r.ended).flatMap fun c =>
        exportedTo p.spec (p.child_spec c) (snap c).channels name)
  resumed : r.resumed = 1

/-! ## The channels of a join -/

section Channels

variable {self : SessionCheckpointer} {p : FanInFrame} {ended : Outcomes}
  {snap : FrameId → Snapshot}

theorem contributions_updates (name : ChannelName) :
    contributions name (p.updates ended snap) = (p.relevant ended).flatMap fun c =>
      exportedTo p.spec (p.child_spec c) (snap c).channels name := by
  have hfold : ∀ (cs : List FrameId) (groups : List (ChannelName × List Value)), Grouped groups →
      Grouped (cs.foldl (fun m c => export_channels p.spec (p.child_spec c) (snap c).channels m)
        groups) ∧
      entriesAt name (cs.foldl
          (fun m c => export_channels p.spec (p.child_spec c) (snap c).channels m) groups) =
        entriesAt name groups ++
          cs.flatMap fun c => exportedTo p.spec (p.child_spec c) (snap c).channels name := by
    intro cs
    induction cs with
    | nil => exact fun groups h => ⟨h, by simp⟩
    | cons c cs ih =>
      intro groups h
      obtain ⟨h1, h2⟩ := export_channels_spec p.spec (p.child_spec c) (snap c).channels h
      obtain ⟨h3, h4⟩ := ih _ h1
      refine ⟨h3, ?_⟩
      rw [List.foldl_cons, h4, h2, List.flatMap_cons, List.append_assoc]
  obtain ⟨h1, h2⟩ := hfold (p.relevant ended) [] Grouped.nil
  unfold FanInFrame.updates
  rw [contributions_accumulated _ h1, h2]
  rfl

theorem joined_channels (x : Snapshot) (name : ChannelName) :
    (p.joined self ended snap x).channels name = p.spec.reduced name (x.channels name)
      ((p.relevant ended).flatMap fun c =>
        exportedTo p.spec (p.child_spec c) (snap c).channels name) := by
  rw [← contributions_updates]
  exact commit_channels_at _ _ _ _

end Channels

/-! ## One notification -/

section Process

variable {self : SessionCheckpointer} {p : FanInFrame} {ended : Outcomes} {s s' : State}
  {snap : FrameId → Snapshot} {x y : Snapshot} {c : FrameId}

theorem step_ok {event : SessionCheckpointEvent} (h : exec (self.on_event event) s = (.ok (), s')) :
    self.step s event = s' := by
  unfold SessionCheckpointer.step SessionCheckpointer.process_event
  rw [exec_tryCatch, h]

theorem sentBetween_emits (s : State) (events : List SessionCheckpointEvent) :
    sentBetween s (s.emits events) = events := by
  simp [sentBetween, State.emits]

/-- `on_frame_terminated` tells the frame. -/
theorem step_frame_terminated (h : Family self.graphs p ended s.frames) (hc : c ∈ p.children)
    (he : (ended c).isSome) :
    self.step s (.FrameTerminated c) = s.emits [.ChildFrameTerminated p.id c] := by
  obtain ⟨k, hk⟩ := h.resident c hc he
  obtain ⟨n, hn, hparent, -⟩ := h.child c hc
  obtain rfl : k.node = n := by simpa [find, hk] using hn
  have hparent_of : s.frames.parent_of c = some p.id := by simp [parent_of, hk, hparent]
  apply step_ok
  change exec (SessionCheckpointer.on_frame_terminated c) s = _
  unfold SessionCheckpointer.on_frame_terminated
  rw [exec_bind_ok (exec_frames (exec_asks _ _))]
  simp only [hparent_of]
  rfl

theorem reached_dont_fail (hpol : p.policy.on_child_failed = .DontFail) :
    p.reached ended c = none := by
  unfold FanInFrame.reached
  rw [hpol]
  rcases ended c with _ | _ | _ <;> rfl

/-- A notification before all children have ended does nothing. -/
theorem step_child_terminated_early (h : Family self.graphs p ended s.frames)
    (hpol : p.policy.on_child_failed = .DontFail) (hc : c ∈ p.children)
    (hover : p.over ended = false) :
    ∃ t, Family self.graphs p ended t ∧
      self.step s (.ChildFrameTerminated p.id c) = { s with frames := t } := by
  obtain ⟨t, ht, hr⟩ := exec_child_terminated h hc
  rw [reached_dont_fail hpol, hover] at hr
  exact ⟨t, ht.toFamily, step_ok hr⟩

theorem last_flushed (hx : s.snapshots.last p.id = some x)
    (hsid : s.snapshots.session_id = self.session_id) (hflush : self.flush_on_push = true)
    (hstore : s'.snapshots.store = self.rowsAfter s.snapshots.store (p.joined self ended snap x))
    (hsid' : s'.snapshots.session_id = self.session_id) :
    s'.snapshots.last p.id = some (p.joined self ended snap x) ∧
      ∀ f, f ≠ p.id → s'.snapshots.last f = s.snapshots.last f := by
  obtain ⟨⟨-, hid, -⟩, hmax⟩ := SessionSnapshots.latest_snapshot_spec hx
  have hrows : s'.snapshots.store =
      s.snapshots.store.upsert_snapshot (p.joined self ended snap x) := by
    rw [hstore, SessionCheckpointer.rowsAfter, if_pos hflush]
  constructor
  · have hself := SessionSnapshots.latest_upsert_self s.snapshots.store
      (x := p.joined self ended snap x) (by
        intro y hy hys hyf
        have hle := hmax y hy (by rw [hsid]; exact hys) (by rw [← hid]; exact hyf)
        exact Nat.lt_succ_of_le hle)
    unfold SessionSnapshots.last
    rw [hsid', hrows, ← hid]
    exact hself
  · intro f hf
    unfold SessionSnapshots.last
    rw [hsid', hrows, hsid]
    exact SessionSnapshots.latest_upsert_other fun heq => hf (heq.symm.trans hid)

/-- A notification once all children have ended joins them. -/
theorem step_child_terminated_over (h : Family self.graphs p ended s.frames)
    (hpol : p.policy.on_child_failed = .DontFail) (hc : c ∈ p.children)
    (hover : p.over ended = true) (hsid : s.snapshots.session_id = self.session_id)
    (hx : s.snapshots.last p.id = some x) (hflush : self.flush_on_push = true)
    (hsnap : ∀ c ∈ p.relevant ended, s.snapshots.last c = some (snap c))
    (hroom : x.superstep + 1 < 2 ^ 32) :
    ∃ s' sent, self.step s (.ChildFrameTerminated p.id c) = s' ∧
      Family self.graphs p ended s'.frames ∧ s'.snapshots.session_id = self.session_id ∧
      s'.snapshots.last p.id = some (p.joined self ended snap x) ∧
      (∀ f, f ≠ p.id → s'.snapshots.last f = s.snapshots.last f) ∧
      sentBetween s s' = sent ∧ Resumption p.id sent := by
  obtain ⟨t, ht, hr⟩ := exec_child_terminated h hc
  rw [reached_dont_fail hpol, hover] at hr
  have hjoining : Joining self p ended (x.superstep + 1) s.snapshots.store
      (s.snapshots.cache ⟨self.session_id, p.id, x.superstep + 1⟩) s.listeners
      { s with frames := t } := ⟨ht, hsid, rfl, rfl, rfl⟩
  have hlast : s.snapshots.store.latest_snapshot self.session_id p.id = some x := by
    rw [← hsid]
    exact hx
  have hlasts : ∀ c ∈ p.relevant ended,
      s.snapshots.store.latest_snapshot self.session_id c = some (snap c) := by
    rw [← hsid]
    exact hsnap
  obtain ⟨s', sent, h1, hs', hsent, -⟩ := exec_join_fan_in hjoining hlast hlasts hroom
  obtain ⟨hself, hother⟩ := last_flushed hx hsid hflush hs'.store hs'.session_id
  refine ⟨s', sent, step_ok (hr.trans h1), hs'.frames.toFamily, hs'.session_id, hself, hother, ?_,
    hsent⟩
  simp [sentBetween, hs'.listeners]

theorem notifies_resumption {sent : List SessionCheckpointEvent} (h : Resumption p.id sent) :
    sent.filter p.notifies = [] ∧ (sent.filter p.resumes).length = 1 := by
  have hout := p.outside
  rcases h with rfl | ⟨parent, rfl⟩
  · simp [FanInFrame.notifies, FanInFrame.resumes]
  · cases parent <;> simp [FanInFrame.notifies, FanInFrame.resumes, hout]

end Process

/-! ## The invariant of a run -/

/-- The last snapshot of the frame after `k` joins. -/
def FanInFrame.joins (p : FanInFrame) (self : SessionCheckpointer) (ended : Outcomes)
    (snap : FrameId → Snapshot) (x : Snapshot) : Nat → Snapshot
  | 0 => x
  | k + 1 => p.joined self ended snap (p.joins self ended snap x k)

theorem joins_superstep {p : FanInFrame} {self : SessionCheckpointer} {ended : Outcomes}
    {snap : FrameId → Snapshot} {x : Snapshot} (k : Nat) :
    (p.joins self ended snap x k).superstep = x.superstep + k := by
  induction k with
  | zero => rfl
  | succ k ih =>
    change (p.joins self ended snap x k).superstep + 1 = _
    omega

/-- How many children have ended. -/
def FanInFrame.count (p : FanInFrame) (ended : Outcomes) : Nat :=
  p.children.countP fun c => (ended c).isSome

/-- After `k` joins. -/
structure JoinInv (ckp : SessionCheckpointer) (p : FanInFrame) (snap : FrameId → Snapshot)
    (x : Snapshot) (k : Nat) (r : JoinRun) : Prop where
  frames : Family ckp.graphs p r.ended r.state.frames
  session_id : r.state.snapshots.session_id = ckp.session_id
  queue : ∀ event ∈ r.queue, ∃ c ∈ p.children, (r.ended c).isSome ∧
    (event = .FrameTerminated c ∨ event = .ChildFrameTerminated p.id c)
  last : r.state.snapshots.last p.id = some (p.joins ckp r.ended snap x k)
  last_child : ∀ c ∈ p.children, r.ended c = some .completed →
    r.state.snapshots.last c = some (snap c)
  resumed : r.resumed = k
  bound : k + r.queue.length ≤ 2 * p.count r.ended

section Invariant

variable {self : SessionCheckpointer} {p : FanInFrame} {snap : FrameId → Snapshot} {x : Snapshot}
  {k : Nat} {r : JoinRun} {c : FrameId} {s : State}

theorem count_record (hnodup : p.children.Nodup) (hc : c ∈ p.children) {ended : Outcomes}
    (he : ended c = none) (o : ChildOutcome) :
    p.count (ended.record c o) = p.count ended + 1 := by
  have hperm := List.perm_cons_erase hc
  have hrest : (p.children.erase c).countP (fun x => (ended.record c o x).isSome) =
      (p.children.erase c).countP fun x => (ended x).isSome := by
    refine List.countP_congr fun x hx => ?_
    have hne : x ≠ c := ((List.Nodup.mem_erase_iff hnodup).mp hx).1
    simp [Outcomes.record, hne]
  unfold FanInFrame.count
  rw [hperm.countP_eq, hperm.countP_eq, List.countP_cons, List.countP_cons, hrest]
  simp [Outcomes.record, he]

theorem count_le (ended : Outcomes) : p.count ended ≤ p.children.length := List.countP_le_length

theorem over_eq_false (hc : c ∈ p.children) {ended : Outcomes} (he : ended c = none) :
    p.over ended = false := by
  unfold FanInFrame.over
  rw [List.all_eq_false]
  exact ⟨c, hc, by simp [he]⟩

/-- A child ends, and its notifications join the queue. -/
theorem joinStep_terminate (h : JoinInv self p snap x 0 r) (hc : c ∈ p.children)
    (o : ChildOutcome) :
    self.joinStep p r (.terminate c o) =
      { r with
        state := (r.state.marked c o.status).emits (notices p.id c o)
        queue := r.queue ++ notices p.id c o
        ended := r.ended.record c o } := by
  obtain ⟨hmark, -⟩ := exec_mark_ended h.frames hc o
  have hsent : sentBetween r.state ((r.state.marked c o.status).emits (notices p.id c o)) =
      notices p.id c o := by
    simp [sentBetween, State.emits, State.marked]
  have hnotify : (notices p.id c o).filter p.notifies = notices p.id c o := by
    cases o <;> simp [notices, FanInFrame.notifies, hc]
  unfold SessionCheckpointer.joinStep
  simp only [hmark, hsent, hnotify]

theorem JoinInv.terminate (h : JoinInv self p snap x 0 r) (hnodup : p.children.Nodup)
    (hc : c ∈ p.children) (he : r.ended c = none) {o : ChildOutcome}
    (hsnap : o = .completed → r.state.snapshots.last c = some (snap c)) :
    JoinInv self p snap x 0 (self.joinStep p r (.terminate c o)) := by
  rw [joinStep_terminate h hc o]
  have hnotices : (notices p.id c o).length ≤ 2 := by cases o <;> simp [notices]
  refine ⟨(exec_mark_ended h.frames hc o).2, h.session_id, ?_, h.last, ?_, h.resumed, ?_⟩
  · intro event hevent
    rcases List.mem_append.mp hevent with hold | hnew
    · obtain ⟨c', hc', he', hkind⟩ := h.queue event hold
      refine ⟨c', hc', ?_, hkind⟩
      by_cases hcc : c' = c
      · simp [Outcomes.record, hcc]
      · simpa [Outcomes.record, hcc] using he'
    · refine ⟨c, hc, by simp [Outcomes.record], ?_⟩
      cases o with
      | completed => simpa [notices] using hnew
      | failed error => exact .inl (by simpa [notices] using hnew)
  · intro c' hc' hcompleted
    by_cases hcc : c' = c
    · subst hcc
      simp only [Outcomes.record, if_true, Option.some.injEq] at hcompleted
      exact hsnap hcompleted
    · simp only [Outcomes.record, hcc, if_false] at hcompleted
      exact h.last_child c' hc' hcompleted
  · have hbound := h.bound
    have hcount := count_record hnodup hc he o
    simp only [List.length_append]
    omega

theorem JoinInv.beside (h : JoinInv self p snap x k r) (hb : Beside self p r.ended r.state s) :
    JoinInv self p snap x k (self.joinStep p r (.beside s)) where
  frames := hb.frames h.frames
  session_id := hb.session_id.trans h.session_id
  queue := h.queue
  last := (hb.last p.id (.inl rfl)).trans h.last
  last_child := by
    intro c hc he
    have hended : r.ended c = some .completed := he
    exact (hb.last c (.inr (by rw [hended]; rfl))).trans (h.last_child c hc hended)
  resumed := h.resumed
  bound := h.bound

/-- The oldest notification is processed: one join when all children have ended. -/
theorem JoinInv.process (h : JoinInv self p snap x k r) (hstart : JoinStart self p x s)
    (hk : p.over r.ended = false → k = 0) :
    ∃ k', JoinInv self p snap x k' (self.joinStep p r .process) ∧
      (p.over r.ended = false → k' = 0) ∧
      (p.over r.ended = true →
        k' + (self.joinStep p r .process).queue.length = k + r.queue.length) := by
  unfold SessionCheckpointer.joinStep
  cases hq : r.queue with
  | nil =>
    refine ⟨k, ?_, hk, ?_⟩
    · simpa only [hq] using h
    · intro _
      simp only [hq]
  | cons event rest =>
    have hbound := h.bound
    rw [hq, List.length_cons] at hbound
    have hrest : ∀ e ∈ rest, ∃ c ∈ p.children, (r.ended c).isSome ∧
        (e = .FrameTerminated c ∨ e = .ChildFrameTerminated p.id c) :=
      fun e he => h.queue e (by rw [hq]; simp [he])
    obtain ⟨c, hc, he, rfl | rfl⟩ := h.queue event (by rw [hq]; simp)
    · -- the frame is told once more
      have hstep := step_frame_terminated h.frames hc he
      have hne : c ≠ p.id := fun heq => p.outside (heq ▸ hc)
      simp only [hstep, sentBetween_emits, FanInFrame.notifies, FanInFrame.resumes,
        List.filter_cons, hc, and_self, decide_true, if_true, List.filter_nil]
      refine ⟨k, ⟨h.frames, h.session_id, ?_, h.last, h.last_child, ?_, ?_⟩, hk, ?_⟩
      · intro e he'
        rcases List.mem_append.mp he' with he' | he'
        · exact hrest e he'
        · exact ⟨c, hc, he, .inr (List.mem_singleton.mp he')⟩
      · simpa using h.resumed
      · simpa using hbound
      · intro _
        simp
    · cases hover : p.over r.ended with
      | false =>
        obtain ⟨t, ht, hstep⟩ := step_child_terminated_early h.frames hstart.dont_fail hc hover
        have hsent : sentBetween r.state { r.state with frames := t } = [] := by
          simp [sentBetween]
        simp only [hstep, hsent, List.filter_nil, List.append_nil, List.length_nil, Nat.add_zero]
        exact ⟨k, ⟨ht, h.session_id, hrest, h.last, h.last_child, h.resumed, by simp only; omega⟩,
          fun _ => hk hover, fun h => by cases h⟩
      | true =>
        have hroom := hstart.room
        have hcount := count_le (p := p) r.ended
        have hsnap : ∀ c ∈ p.relevant r.ended, r.state.snapshots.last c = some (snap c) := by
          intro c' hc'
          obtain ⟨hmem, hcompleted⟩ := List.mem_filter.mp hc'
          refine h.last_child c' hmem ?_
          rcases hc'' : r.ended c' with _ | _ | _ <;>
            simp [hc'', ChildOutcome.is_completed] at hcompleted ⊢
        obtain ⟨s', sent, hstep, hframes, hsid, hself, hother, hsent, hres⟩ :=
          step_child_terminated_over h.frames hstart.dont_fail hc hover h.session_id h.last
            hstart.visible hsnap (by rw [joins_superstep]; omega)
        obtain ⟨hnone, hone⟩ := notifies_resumption hres
        simp only [hstep, hsent, hnone, hone, List.append_nil]
        refine ⟨k + 1, ⟨hframes, hsid, hrest, hself, ?_, by simp [h.resumed], by simp only; omega⟩,
          fun h => (by cases h), fun _ => by simp only [List.length_cons]; omega⟩
        intro c' hc' he'
        have hne : c' ≠ p.id := fun heq => p.outside (heq ▸ hc')
        exact (hother c' hne).trans (h.last_child c' hc' he')

/-! ## Whole runs -/

theorem joinStep_ended {move : JoinMove} (h : ∀ c o, move ≠ .terminate c o) :
    (self.joinStep p r move).ended = r.ended := by
  cases move with
  | terminate c o => exact absurd rfl (h c o)
  | beside s => rfl
  | process =>
    unfold SessionCheckpointer.joinStep
    cases r.queue <;> rfl

theorem joinRun_ended {moves : List JoinMove} (h : ∀ m ∈ moves, ∀ c o, m ≠ .terminate c o) :
    (self.joinRun p r moves).ended = r.ended := by
  induction moves generalizing r with
  | nil => rfl
  | cons move moves ih =>
    change (self.joinRun p (self.joinStep p r move) moves).ended = _
    rw [ih fun m hm => h m (by simp [hm]), joinStep_ended (h move (by simp))]

/-- One move before all children have ended: no join. -/
theorem JoinInv.early (h : JoinInv self p snap x 0 r) (hstart : JoinStart self p x s)
    (hover : p.over r.ended = false) {move : JoinMove} (hv : ValidMove self p snap r move) :
    JoinInv self p snap x 0 (self.joinStep p r move) := by
  cases move with
  | terminate c o => exact h.terminate hstart.nodup hv.1 hv.2.1 hv.2.2
  | beside s' => exact h.beside hv
  | process =>
    obtain ⟨k', hk', hzero, -⟩ := h.process hstart fun _ => rfl
    rw [hzero hover] at hk'
    exact hk'

/-- Once all children have ended, the joins made and the notifications left have one sum. -/
theorem JoinInv.afterLast (h : JoinInv self p snap x k r) (hstart : JoinStart self p x s)
    (hover : p.over r.ended = true) (moves : List JoinMove)
    (hv : ValidMoves self p snap r moves) :
    (∀ m ∈ moves, ∀ c o, m ≠ .terminate c o) ∧
    ∃ k', JoinInv self p snap x k' (self.joinRun p r moves) ∧
      k' + (self.joinRun p r moves).queue.length = k + r.queue.length := by
  induction moves generalizing r k with
  | nil => exact ⟨by simp, k, h, rfl⟩
  | cons move moves ih =>
    have hmove : (∀ c o, move ≠ .terminate c o) ∧ ∃ k',
        JoinInv self p snap x k' (self.joinStep p r move) ∧
        k' + (self.joinStep p r move).queue.length = k + r.queue.length := by
      cases move with
      | terminate c o =>
        rw [over_eq_false hv.1.1 hv.1.2.1] at hover
        cases hover
      | beside s' => exact ⟨by simp, k, h.beside hv.1, rfl⟩
      | process =>
        obtain ⟨k', hk', -, hsum⟩ := h.process hstart fun hf => by rw [hover] at hf; cases hf
        exact ⟨by simp, k', hk', hsum hover⟩
    obtain ⟨hnot, k', hk', hsum⟩ := hmove
    have hover' : p.over (self.joinStep p r move).ended = true := by
      rw [joinStep_ended hnot, hover]
    obtain ⟨hrest, k'', hk'', hsum'⟩ := ih hk' hover' hv.2
    refine ⟨?_, k'', hk'', hsum'.trans hsum⟩
    intro m hm
    rcases List.mem_cons.mp hm with rfl | hm
    · exact hnot
    · exact hrest m hm

theorem validMoves_append {pre post : List JoinMove} {r : JoinRun} :
    ValidMoves self p snap r (pre ++ post) ↔
      ValidMoves self p snap r pre ∧ ValidMoves self p snap (self.joinRun p r pre) post := by
  induction pre generalizing r with
  | nil => simp [ValidMoves, SessionCheckpointer.joinRun]
  | cons move pre ih =>
    simp only [List.cons_append, ValidMoves, ih, and_assoc]
    rfl

/-- A run up to a point where some child has not ended. -/
theorem JoinInv.beforeLast (h : JoinInv self p snap x 0 r) (hstart : JoinStart self p x s)
    (moves : List JoinMove) (hv : ValidMoves self p snap r moves)
    (hover : p.over (self.joinRun p r moves).ended = false) :
    JoinInv self p snap x 0 (self.joinRun p r moves) := by
  induction moves generalizing r with
  | nil => exact h
  | cons move moves ih =>
    have hnow : p.over r.ended = false := by
      cases hr : p.over r.ended with
      | false => rfl
      | true =>
        rw [joinRun_ended (h.afterLast hstart hr _ hv).1, hr] at hover
        exact hover
    exact ih (h.early hstart hnow hv.1) hv.2 hover

/-- A run in which all children end has a last termination. -/
theorem JoinInv.split (h : JoinInv self p snap x 0 r) (hstart : JoinStart self p x s)
    (moves : List JoinMove) (hv : ValidMoves self p snap r moves) (hnow : p.over r.ended = false)
    (hover : p.over (self.joinRun p r moves).ended = true) :
    ∃ pre c o post, moves = pre ++ .terminate c o :: post ∧
      p.over (self.joinRun p r pre).ended = false ∧
      p.over (self.joinStep p (self.joinRun p r pre) (.terminate c o)).ended = true := by
  induction moves generalizing r with
  | nil =>
    change p.over r.ended = true at hover
    rw [hnow] at hover
    cases hover
  | cons move moves ih =>
    cases hnext : p.over (self.joinStep p r move).ended with
    | false =>
      obtain ⟨pre, c, o, post, rfl, h1, h2⟩ := ih (h.early hstart hnow hv.1) hv.2 hnext hover
      exact ⟨move :: pre, c, o, post, rfl, h1, h2⟩
    | true =>
      cases move with
      | terminate c o => exact ⟨[], c, o, moves, rfl, hnow, hnext⟩
      | beside s' =>
        rw [joinStep_ended (by simp), hnow] at hnext
        cases hnext
      | process =>
        rw [joinStep_ended (by simp), hnow] at hnext
        cases hnext

end Invariant

/-! ## The law -/

/-- The start of a run. -/
def JoinRun.start (s : State) : JoinRun := ⟨s, [], fun _ => none, 0⟩

/-- The last child to end fails, and no notification of another one is on its way then. -/
def LastFailsAlone (ckp : SessionCheckpointer) (p : FanInFrame) (r : JoinRun)
    (moves : List JoinMove) : Prop :=
  ∃ pre c error post, moves = pre ++ .terminate c (.failed error) :: post ∧
    (∀ m ∈ post, ∀ c o, m ≠ .terminate c o) ∧ (ckp.joinRun p r pre).queue = []

theorem JoinStart.inv {self : SessionCheckpointer} {p : FanInFrame} {x : Snapshot} {s : State}
    (h : JoinStart self p x s) (snap : FrameId → Snapshot) :
    JoinInv self p snap x 0 (.start s) where
  frames := h.frames
  session_id := h.session_id
  queue := by simp [JoinRun.start]
  last := h.last
  last_child := by
    intro c _ he
    cases he
  resumed := rfl
  bound := by simp [JoinRun.start]

/-- After all children have ended and all notifications are processed, the joins are as many as
the notifications that were on their way at the last end. -/
theorem joins_of_last {self : SessionCheckpointer} {p : FanInFrame} {snap : FrameId → Snapshot}
    {x : Snapshot} {s : State} {r : JoinRun} {c : FrameId} {o : ChildOutcome}
    {post : List JoinMove} (hstart : JoinStart self p x s) (h : JoinInv self p snap x 0 r)
    (hv : ValidMoves self p snap r (.terminate c o :: post))
    (hover : p.over (self.joinStep p r (.terminate c o)).ended = true)
    (hqueue : (self.joinRun p r (.terminate c o :: post)).queue = []) :
    JoinInv self p snap x (r.queue.length + (notices p.id c o).length)
      (self.joinRun p r (.terminate c o :: post)) ∧ ∀ m ∈ post, ∀ c o, m ≠ .terminate c o := by
  have hlast := h.terminate hstart.nodup hv.1.1 hv.1.2.1 hv.1.2.2
  obtain ⟨hnot, k, hk, hsum⟩ := hlast.afterLast hstart hover post hv.2
  change JoinInv self p snap x k (self.joinRun p r (.terminate c o :: post)) at hk
  change k + (self.joinRun p r (.terminate c o :: post)).queue.length = _ at hsum
  rw [hqueue, joinStep_terminate h hv.1.1 o] at hsum
  simp only [List.length_nil, List.length_append] at hsum
  obtain rfl : k = r.queue.length + (notices p.id c o).length := by omega
  exact ⟨hk, hnot⟩

theorem joinedOnce_iff {self : SessionCheckpointer} {p : FanInFrame} {snap : FrameId → Snapshot}
    {x : Snapshot} {k : Nat} {r : JoinRun} (h : JoinInv self p snap x k r) :
    JoinedOnce p snap x r ↔ k = 1 := by
  constructor
  · intro hone
    rw [← h.resumed, hone.resumed]
  · rintro rfl
    exact ⟨⟨_, h.last, rfl, fun name => joined_channels _ name⟩, h.resumed⟩

/-- **Exactly-once join**: a run in which all children end and all notifications are processed
joins once just when the last child to end fails with no other notification on its way. -/
theorem joins_once_iff (self : SessionCheckpointer) (p : FanInFrame) (snap : FrameId → Snapshot)
    (x : Snapshot) (s : State) (moves : List JoinMove) (hstart : JoinStart self p x s)
    (hv : ValidMoves self p snap (.start s) moves)
    (hover : p.over (self.joinRun p (.start s) moves).ended = true)
    (hqueue : (self.joinRun p (.start s) moves).queue = []) :
    JoinedOnce p snap x (self.joinRun p (.start s) moves) ↔
      LastFailsAlone self p (.start s) moves := by
  have hinv := hstart.inv snap
  constructor
  · intro hone
    cases hnow : p.over (JoinRun.start s).ended with
    | true =>
      -- there is no child, and so no join
      obtain ⟨-, k, hk, hsum⟩ := hinv.afterLast hstart hnow moves hv
      rw [hqueue, (joinedOnce_iff hk).mp hone] at hsum
      cases hsum
    | false =>
      obtain ⟨pre, c, o, post, rfl, hbefore, hafter⟩ := hinv.split hstart moves hv hnow hover
      obtain ⟨hpre, hpost⟩ := validMoves_append.mp hv
      have hrun : self.joinRun p (.start s) (pre ++ .terminate c o :: post) =
          self.joinRun p (self.joinRun p (.start s) pre) (.terminate c o :: post) := by
        simp [SessionCheckpointer.joinRun]
      rw [hrun] at hone hqueue
      obtain ⟨hk, hnot⟩ := joins_of_last hstart (hinv.beforeLast hstart pre hpre hbefore) hpost
        hafter hqueue
      have hcount := (joinedOnce_iff hk).mp hone
      cases o with
      | completed =>
        simp only [notices, List.length_cons, List.length_nil] at hcount
        omega
      | failed error =>
        simp only [notices, List.length_cons, List.length_nil] at hcount
        exact ⟨pre, c, error, post, rfl, hnot, List.length_eq_zero_iff.mp (by omega)⟩
  · rintro ⟨pre, c, error, post, rfl, hnot, hempty⟩
    obtain ⟨hpre, hpost⟩ := validMoves_append.mp hv
    have hrun : self.joinRun p (.start s) (pre ++ .terminate c (.failed error) :: post) =
        self.joinRun p (self.joinRun p (.start s) pre) (.terminate c (.failed error) :: post) := by
      simp [SessionCheckpointer.joinRun]
    rw [hrun] at hover hqueue ⊢
    have hbefore := over_eq_false hpost.1.1 hpost.1.2.1
    have hafter : p.over (self.joinStep p (self.joinRun p (.start s) pre)
        (.terminate c (.failed error))).ended = true := by
      rw [← hover]
      exact congrArg p.over (joinRun_ended hnot).symm
    obtain ⟨hk, -⟩ := joins_of_last hstart (hinv.beforeLast hstart pre hpre hbefore) hpost hafter
      hqueue
    rw [hempty] at hk
    exact (joinedOnce_iff hk).mpr rfl

/-! ## One tool -/

/-- An aggregator of one tool call, which does not mind a failure. -/
def oneCall : FanInFrame where
  id := ⟨0⟩
  children := [⟨1⟩]
  policy := { on_child_failed := .DontFail, resume_policy := .FanIn }
  spec := .tool_aggregator
  child_spec _ := .tool
  fan_in := rfl
  outside := by decide

/-- The snapshots of the two frames: the call has its result. -/
def callSnapshot (f : FrameId) : Snapshot :=
  ⟨⟨0⟩, f, 0, if f = ⟨1⟩ then channelsOf [("tool_result", .String "ok")] else .empty, []⟩

def oneCallWaits : State :=
  .new ⟨0⟩ (.ofNodes
    [{ FrameNode.new ⟨0⟩
        { spec_ref := .ToolAggregator, data := .Void, frame_policy := oneCall.policy } with
        status := .WaitingChildren, children := [⟨1⟩] },
      { FrameNode.new ⟨1⟩ { spec_ref := .ToolCall, data := .ToolCall ⟨0⟩ "a" .Null } with
        status := .Ready, parent := some ⟨0⟩ }])
    [callSnapshot ⟨0⟩, callSnapshot ⟨1⟩]

/-- The call completes: both of its notifications join it. -/
def callCompletes : List JoinMove :=
  [.terminate ⟨1⟩ .completed, .process, .process, .process]

theorem a_completed_call_joins_twice :
    ValidMoves (plain true) oneCall callSnapshot (.start oneCallWaits) callCompletes ∧
    oneCall.over ((plain true).joinRun oneCall (.start oneCallWaits) callCompletes).ended = true ∧
    ((plain true).joinRun oneCall (.start oneCallWaits) callCompletes).queue = [] ∧
    ¬ JoinedOnce oneCall callSnapshot (callSnapshot ⟨0⟩)
      ((plain true).joinRun oneCall (.start oneCallWaits) callCompletes) := by
  refine ⟨⟨⟨by decide, rfl, fun _ => rfl⟩, trivial, trivial, trivial, trivial⟩, rfl, rfl, ?_⟩
  intro h
  have htwice : ((plain true).joinRun oneCall (.start oneCallWaits) callCompletes).resumed = 2 :=
    rfl
  rw [h.resumed] at htwice
  cases htwice

theorem oneCall_start :
    JoinStart (plain true) oneCall (callSnapshot ⟨0⟩) oneCallWaits where
  frames :=
    { frame := ⟨_, rfl, rfl, rfl, rfl⟩
      child := by
        intro c hc
        obtain rfl := List.mem_singleton.mp hc
        exact ⟨_, rfl, rfl, rfl, rfl⟩
      resident := by
        intro c _ h
        cases h }
  dont_fail := rfl
  nodup := by decide
  session_id := rfl
  last := rfl
  room := by decide
  visible := rfl

/-- The call fails: its one notification joins once. -/
theorem a_failed_call_joins_once :
    JoinedOnce oneCall callSnapshot (callSnapshot ⟨0⟩)
      ((plain true).joinRun oneCall (.start oneCallWaits)
        [.terminate ⟨1⟩ (.failed "a"), .process, .process]) :=
  (joins_once_iff (plain true) oneCall callSnapshot (callSnapshot ⟨0⟩) oneCallWaits
    [.terminate ⟨1⟩ (.failed "a"), .process, .process] oneCall_start
    ⟨⟨by decide, rfl, fun h => by cases h⟩, trivial, trivial, trivial⟩ rfl rfl).mpr
    ⟨[], ⟨1⟩, "a", [.process, .process], rfl, by simp, rfl⟩

end marie.session
