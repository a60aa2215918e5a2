-- A frame with the policy `FanIn` and its children: what the handler of a
-- termination does for it, and the one join that it makes of the children
-- that have completed.
import Marie.Session.Handlers
import Marie.Session.ChannelLaws

namespace marie.session

open Program FrameTree

/-! ## The frame and its children -/

/-- How a child ends. -/
inductive ChildOutcome
  | completed
  | failed (error : String)

namespace ChildOutcome

def status : ChildOutcome → FrameStatus
  | .completed => .Completed
  | .failed error => .Failed error

def is_completed : Option ChildOutcome → Bool
  | some .completed => true
  | _ => false

def is_failed : Option ChildOutcome → Bool
  | some (.failed _) => true
  | _ => false

end ChildOutcome

/-- A frame that waits for its children, with the specs that a join reads. -/
structure FanInFrame where
  id : FrameId
  children : List FrameId
  policy : FramePolicy
  spec : CommonSpec
  child_spec : FrameId → CommonSpec
  fan_in : policy.resume_policy = .FanIn
  outside : id ∉ children

/-- The children that have ended, and how. -/
abbrev Outcomes := FrameId → Option ChildOutcome

def Outcomes.record (ended : Outcomes) (c : FrameId) (outcome : ChildOutcome) : Outcomes :=
  fun x => if x = c then some outcome else ended x

/-- The status of a child that has ended so, or has not. -/
def EndedAs (outcome : Option ChildOutcome) (status : FrameStatus) : Prop :=
  match outcome with
  | some outcome => status = outcome.status
  | none => status.has_terminated = false

theorem EndedAs.has_terminated {outcome : Option ChildOutcome} {status : FrameStatus}
    (h : EndedAs outcome status) : status.has_terminated = outcome.isSome := by
  cases outcome with
  | none => exact h
  | some outcome =>
    obtain rfl : status = outcome.status := h
    cases outcome <;> rfl

theorem EndedAs.has_completed {outcome : Option ChildOutcome} {status : FrameStatus}
    (h : EndedAs outcome status) : status.has_completed = ChildOutcome.is_completed outcome := by
  cases outcome with
  | none => cases status <;> first | rfl | cases h
  | some outcome =>
    obtain rfl : status = outcome.status := h
    cases outcome <;> rfl

theorem EndedAs.has_failed {outcome : Option ChildOutcome} {status : FrameStatus}
    (h : EndedAs outcome status) : status.has_failed = ChildOutcome.is_failed outcome := by
  cases outcome with
  | none => cases status <;> first | rfl | cases h
  | some outcome =>
    obtain rfl : status = outcome.status := h
    cases outcome <;> rfl

/-- The tree has the frame with its children, and these have ended as said. -/
structure Family (graphs : Graphs) (p : FanInFrame) (ended : Outcomes) (t : FrameTree) : Prop where
  frame : ∃ n, t.find p.id = some n ∧ n.frame_policy = p.policy ∧ n.children = p.children ∧
    spec_of_ref graphs n.spec_ref = some p.spec
  child : ∀ c ∈ p.children, ∃ n, t.find c = some n ∧ n.parent = some p.id ∧
    spec_of_ref graphs n.spec_ref = some (p.child_spec c) ∧ EndedAs (ended c) n.status
  resident : ∀ c ∈ p.children, (ended c).isSome → ∃ k, t.arena c = some k

/-- As `Family`, with the frame in the cache. -/
structure Present (graphs : Graphs) (p : FanInFrame) (ended : Outcomes) (t : FrameTree) : Prop
    extends Family graphs p ended t where
  resident_frame : ∃ k, t.arena p.id = some k

section Family

variable {graphs : Graphs} {p : FanInFrame} {ended : Outcomes} {t t' : FrameTree} {c x : FrameId}

theorem Family.loaded (h : Family graphs p ended t) (hl : Loaded t t') :
    Family graphs p ended t' where
  frame := by
    obtain ⟨n, hn, hrest⟩ := h.frame
    exact ⟨n, by rw [hl.find, hn], hrest⟩
  child := by
    intro c hc
    obtain ⟨n, hn, hrest⟩ := h.child c hc
    exact ⟨n, by rw [hl.find, hn], hrest⟩
  resident := by
    intro c hc he
    obtain ⟨k, hk⟩ := h.resident c hc he
    exact ⟨k, hl.arena c k hk⟩

theorem Present.loaded (h : Present graphs p ended t) (hl : Loaded t t') :
    Present graphs p ended t' where
  toFamily := h.toFamily.loaded hl
  resident_frame := by
    obtain ⟨k, hk⟩ := h.resident_frame
    exact ⟨k, hl.arena _ k hk⟩

theorem Family.present (h : Family graphs p ended t) : Present graphs p ended (t.load p.id) where
  toFamily := h.loaded ((Loaded.refl t).load p.id)
  resident_frame := by
    obtain ⟨n, hn, -⟩ := h.frame
    obtain ⟨k, hk, -⟩ := resident_load hn
    exact ⟨k, hk⟩

theorem resident_edit {f : FrameNode → FrameNode} {k : FrameNodeContainer}
    (h : t.arena x = some k) : (t.edit x f).arena x = some ⟨f k.node, true⟩ := by
  simp [edit, h]

theorem resident_write {f : FrameNode → FrameNode} {k : FrameNodeContainer}
    (h : t.arena x = some k) (id : FrameId) : ∃ k', ((t.load id).edit id f).arena x = some k' := by
  have hload := ((Loaded.refl t).load id).arena x k h
  by_cases hx : x = id
  · simp [edit, hx ▸ hload, hx]
  · exact ⟨k, by simp [edit, hx, hload]⟩

/-- A write of the status or of the log of the frame. -/
theorem Family.write_frame {f : FrameNode → FrameNode} (h : Family graphs p ended t)
    (hf : ∀ n, (f n).frame_policy = n.frame_policy ∧ (f n).children = n.children ∧
      (f n).spec_ref = n.spec_ref) :
    Present graphs p ended ((t.load p.id).edit p.id f) where
  frame := by
    obtain ⟨n, hn, hpol, hch, hspec⟩ := h.frame
    obtain ⟨hf1, hf2, hf3⟩ := hf n
    exact ⟨f n, by rw [find_write hn, if_pos rfl], by rw [hf1, hpol], by rw [hf2, hch],
      by rw [hf3, hspec]⟩
  child := by
    intro c hc
    obtain ⟨n, hn, -⟩ := h.frame
    obtain ⟨m, hm, hrest⟩ := h.child c hc
    have hne : c ≠ p.id := fun heq => p.outside (heq ▸ hc)
    exact ⟨m, by rw [find_write hn, if_neg hne, hm], hrest⟩
  resident := by
    intro c hc he
    obtain ⟨k, hk⟩ := h.resident c hc he
    exact resident_write hk p.id
  resident_frame := by
    obtain ⟨k, hk⟩ := h.present.resident_frame
    exact ⟨_, resident_edit hk⟩

/-- The mark of a child. -/
theorem Family.mark_child (h : Family graphs p ended t) (hc : c ∈ p.children)
    (outcome : ChildOutcome) :
    Family graphs p (ended.record c outcome)
      ((t.load c).edit c (fun n => { n with status := outcome.status })) where
  frame := by
    obtain ⟨n, hn, hrest⟩ := h.frame
    obtain ⟨m, hm, -⟩ := h.child c hc
    have hne : p.id ≠ c := fun heq => p.outside (heq ▸ hc)
    exact ⟨n, by rw [find_write hm, if_neg hne, hn], hrest⟩
  child := by
    intro x hx
    obtain ⟨m, hm, hpar, hspec, hend⟩ := h.child c hc
    obtain ⟨n, hn, hrest⟩ := h.child x hx
    by_cases hxc : x = c
    · subst hxc
      refine ⟨{ m with status := outcome.status }, ?_, hpar, hspec, ?_⟩
      · rw [find_write hm, if_pos rfl]
      · simp [Outcomes.record, EndedAs]
    · exact ⟨n, by rw [find_write hm, if_neg hxc, hn], by simpa [Outcomes.record, hxc] using hrest⟩
  resident := by
    intro x hx he
    by_cases hxc : x = c
    · subst hxc
      obtain ⟨m, hm, -⟩ := h.child x hx
      obtain ⟨k, hk, -⟩ := resident_load hm
      exact ⟨_, resident_edit hk⟩
    · obtain ⟨k, hk⟩ := h.resident x hx (by simpa [Outcomes.record, hxc] using he)
      exact resident_write hk c

/-! ### Reads -/

theorem ends_get {I : FrameTree → Prop} {Q : FrameNode → Prop}
    (hfind : ∀ t, I t → ∃ n, t.find x = some n ∧ Q n) (hload : ∀ t, I t → I (t.load x)) :
    Ends I (FrameTree.get x) Q := by
  intro t ht
  obtain ⟨n, hn, hq⟩ := hfind t ht
  exact ⟨n, t.load x, exec_get hn, hload t ht, hq⟩

theorem ends_get_child (hc : c ∈ p.children) :
    Ends (Present graphs p ended) (FrameTree.get c)
      (fun n => EndedAs (ended c) n.status) := by
  refine ends_get ?_ fun t h => h.loaded ((Loaded.refl t).load c)
  intro t h
  obtain ⟨n, hn, -, -, hend⟩ := h.child c hc
  exact ⟨n, hn, hend⟩

theorem ends_get_frame :
    Ends (Present graphs p ended) (FrameTree.get p.id) (fun n => n.frame_policy = p.policy) := by
  refine ends_get ?_ fun t h => h.loaded ((Loaded.refl t).load p.id)
  intro t h
  obtain ⟨n, hn, hpol, -⟩ := h.frame
  exact ⟨n, hn, hpol⟩

theorem ends_common_spec_of {spec : CommonSpec}
    (hspec : ∀ t, Present graphs p ended t → spec_at graphs t x = some spec) :
    Ends (Present graphs p ended) (common_spec_of graphs x) (· = spec) := by
  intro t h
  exact ⟨spec, t.load x, exec_common_spec_of (hspec t h), h.loaded ((Loaded.refl t).load x), rfl⟩

theorem spec_at_frame (h : Family graphs p ended t) : spec_at graphs t p.id = some p.spec := by
  obtain ⟨n, hn, -, -, hspec⟩ := h.frame
  simp [spec_at, hn, hspec]

theorem spec_at_child (h : Family graphs p ended t) (hc : c ∈ p.children) :
    spec_at graphs t c = some (p.child_spec c) := by
  obtain ⟨n, hn, -, hspec, -⟩ := h.child c hc
  simp [spec_at, hn, hspec]

theorem ends_children :
    Ends (Present graphs p ended) (asks (iter_children_of · p.id) : Tree (List FrameId))
      (· = p.children) := by
  refine ends_asks fun t h => ?_
  obtain ⟨k, hk⟩ := h.resident_frame
  obtain ⟨n, hn, -, hch, -⟩ := h.frame
  obtain rfl : k.node = n := by simpa [find, hk] using hn
  simp [iter_children_of, hk, hch]

/-- A test on the status of a child. -/
theorem ends_status {test : FrameStatus → Bool} {value : Option ChildOutcome → Bool}
    (htest : ∀ o status, EndedAs o status → test status = value o) (hc : c ∈ p.children) :
    Ends (Present graphs p ended) (do pure (test (← status_of c))) (· = value (ended c)) := by
  refine Ends.bind (Q := fun status => EndedAs (ended c) status) ?_ ?_
  · exact (ends_get_child hc).bind fun n hn => ends_pure hn
  · exact fun status h => ends_pure (htest _ _ h)

/-! ### The handler, up to the join -/

/-- How many children have failed. -/
def FanInFrame.failures (p : FanInFrame) (ended : Outcomes) : Nat :=
  (p.children.filter fun c => ChildOutcome.is_failed (ended c)).length

/-- Every child has ended. -/
def FanInFrame.over (p : FanInFrame) (ended : Outcomes) : Bool :=
  p.children.all fun c => (ended c).isSome

/-- The count of the failure policy, when the end of `c` reaches it. -/
def FanInFrame.reached (p : FanInFrame) (ended : Outcomes) (c : FrameId) : Option Nat :=
  match ended c, p.policy.on_child_failed with
  | some (.failed _), .FailIfAtLeastHasFailed count =>
    if count ≤ p.failures ended then some count else none
  | _, _ => none

theorem ends_count_failed :
    Ends (Present graphs p ended) (count_failed_frame_child p.id) (· = p.failures ended) := by
  unfold count_failed_frame_child
  refine ends_children.bindEq ?_
  refine (ends_filterM p.children fun c hc =>
    ends_status (fun _ _ h => h.has_failed) hc).bindEq ?_
  exact ends_pure rfl

theorem ends_all_terminated :
    Ends (Present graphs p ended) (all_children_have_terminated p.id) (· = p.over ended) := by
  unfold all_children_have_terminated all_have_terminated
  refine ends_children.bindEq ?_
  refine ends_allM p.children fun c hc => ?_
  exact (ends_get_child hc).bind fun n hn => ends_pure hn.has_terminated

end Family

/-- A call on the frames that ends. -/
theorem exec_ends {α : Type} {I : FrameTree → Prop} {m : Tree α} {Q : α → Prop} {s : State}
    (h : Ends I m Q) (hs : I s.frames) :
    ∃ a t, exec (frames m) s = (.ok a, { s with frames := t }) ∧ I t ∧ Q a := by
  obtain ⟨a, t, h1, ht, ha⟩ := h s.frames hs
  exact ⟨a, t, exec_frames h1, ht, ha⟩

section Handler

variable {self : SessionCheckpointer} {p : FanInFrame} {ended : Outcomes} {s : State}
  {c : FrameId} {outcome : ChildOutcome}

theorem exec_failure_reached {status : FrameStatus} (h : Present self.graphs p ended s.frames)
    (hstatus : EndedAs (ended c) status) :
    ∃ t, Present self.graphs p ended t ∧
      exec (SessionCheckpointer.failure_reached p.id status p.policy.on_child_failed) s =
        (.ok (p.reached ended c), { s with frames := t }) := by
  unfold SessionCheckpointer.failure_reached FanInFrame.reached
  cases hpol : p.policy.on_child_failed with
  | DontFail =>
    refine ⟨s.frames, h, ?_⟩
    rcases ended c with _ | _ | _ <;> cases status <;> rfl
  | FailIfAtLeastHasFailed count =>
    cases hend : ended c with
    | none =>
      rw [hend] at hstatus
      refine ⟨s.frames, h, ?_⟩
      cases status <;> first | rfl | cases hstatus
    | some o =>
      rw [hend] at hstatus
      obtain rfl : status = o.status := hstatus
      cases o with
      | completed => exact ⟨s.frames, h, rfl⟩
      | failed error =>
        obtain ⟨_, t, ht, hp, rfl⟩ := exec_ends ends_count_failed h
        exact ⟨t, hp, exec_bind_ok ht⟩

/-- What `on_child_frame_terminated` does for the frame once the child `c` has ended. -/
theorem exec_child_terminated (h : Family self.graphs p ended s.frames) (hc : c ∈ p.children) :
    ∃ t, Present self.graphs p ended t ∧ exec (self.on_child_frame_terminated p.id c) s =
      match p.reached ended c with
      | some count =>
        exec (mark_failed_frame ("au moins " ++ toString count ++ " enfants ont échoué") p.id)
          { s with frames := t }
      | none =>
        if p.over ended then exec (self.join_fan_in p.id) { s with frames := t }
        else (.ok (), { s with frames := t }) := by
  obtain ⟨m, hm, -, -, hend⟩ := h.child c hc
  obtain ⟨n, hn, hpol, -⟩ := h.frame
  have hload : Loaded s.frames (s.loaded c).frames := (Loaded.refl _).load c
  have hn' : (s.loaded c).frames.find p.id = some n := by rw [hload.find, hn]
  have hpresent : Present self.graphs p ended ((s.loaded c).loaded p.id).frames :=
    (h.loaded hload).present
  unfold SessionCheckpointer.on_child_frame_terminated
  rw [status_of, exec_read hm, policy_of, exec_read hn', hpol]
  obtain ⟨t, ht, hr⟩ := exec_failure_reached hpresent hend
  rw [exec_bind_ok hr]
  cases p.reached ended c with
  | some count => exact ⟨t, ht, rfl⟩
  | none =>
    obtain ⟨_, t', hall, ht', rfl⟩ :=
      exec_ends (s := { (s.loaded c).loaded p.id with frames := t }) ends_all_terminated ht
    refine ⟨t', ht', ?_⟩
    simp only [p.fan_in]
    rw [exec_bind_ok hall]
    cases p.over ended <;> rfl

end Handler

/-! ## The end of a child -/

/-- The mark of a child that ends. -/
def mark_ended (c : FrameId) : ChildOutcome → Ckp Unit
  | .completed => mark_completed_frame c
  | .failed error => mark_failed_frame error c

/-- The events that the mark of a child sends: a child that completed tells its parent at
once. -/
def notices (p c : FrameId) : ChildOutcome → List SessionCheckpointEvent
  | .completed => [.FrameTerminated c, .ChildFrameTerminated p c]
  | .failed _ => [.FrameTerminated c]

/-- A child ends: its status is marked, and the snapshots stay. -/
theorem exec_mark_ended {graphs : Graphs} {p : FanInFrame} {ended : Outcomes} {s : State}
    {c : FrameId} (h : Family graphs p ended s.frames) (hc : c ∈ p.children) (o : ChildOutcome) :
    exec (mark_ended c o) s = (.ok (), (s.marked c o.status).emits (notices p.id c o)) ∧
      Family graphs p (ended.record c o) (s.marked c o.status).frames := by
  obtain ⟨n, hn, hparent, -⟩ := h.child c hc
  cases o with
  | completed =>
    refine ⟨?_, h.mark_child hc .completed⟩
    rw [mark_ended, exec_mark_completed hn, hparent]
    rfl
  | failed error => exact ⟨exec_mark_failed hn error, h.mark_child hc (.failed error)⟩

/-! ## The join -/

namespace FanInFrame

variable (p : FanInFrame)

/-- The children that have completed. -/
def relevant (ended : Outcomes) : List FrameId :=
  p.children.filter fun c => ChildOutcome.is_completed (ended c)

/-- The updates that the join makes of the last snapshots of the children. -/
def updates (ended : Outcomes) (snap : FrameId → Snapshot) : List ChannelUpdate :=
  accumulated p.id ((p.relevant ended).foldl
    (fun m c => export_channels p.spec (p.child_spec c) (snap c).channels m) [])

def sources (ended : Outcomes) (snap : FrameId → Snapshot) : List SnapshotRef :=
  (p.relevant ended).map fun c => (snap c).ref

/-- The snapshot that the join commits on the last snapshot `x` of the frame. -/
def joined (self : SessionCheckpointer) (ended : Outcomes) (snap : FrameId → Snapshot)
    (x : Snapshot) : Snapshot :=
  self.pushed p.spec x (p.updates ended snap) (p.sources ended snap)

/-- The status that `resume_frame` gives to the frame. -/
def resumed : FrameStatus :=
  match p.policy.on_resume_policy with
  | .RunFrame => .Ready
  | .MarkComplete => .Completed

end FanInFrame

/-- The rows of the store once `x` is pushed. -/
def SessionCheckpointer.rowsAfter (self : SessionCheckpointer) (rows : SnapshotRows)
    (x : Snapshot) : SnapshotRows :=
  if self.flush_on_push then rows.upsert_snapshot x else rows

/-- The state during a join: the frame and its children, the rows of the store, the container
of the frame at the superstep `g`, and the events sent so far. -/
structure Joining (ckp : SessionCheckpointer) (p : FanInFrame) (ended : Outcomes) (g : Nat)
    (rows : SnapshotRows) (held : Option SnapshotContainer) (events : List SessionCheckpointEvent)
    (s : State) : Prop where
  frames : Present ckp.graphs p ended s.frames
  session_id : s.snapshots.session_id = ckp.session_id
  store : s.snapshots.store = rows
  held : s.snapshots.cache ⟨ckp.session_id, p.id, g⟩ = held
  listeners : s.listeners = events

section Join

variable {self : SessionCheckpointer} {p : FanInFrame} {ended : Outcomes} {g : Nat}
  {rows : SnapshotRows} {held : Option SnapshotContainer} {events : List SessionCheckpointEvent}
  {s : State} {f : FrameId} {x y : Snapshot} {snap : FrameId → Snapshot}

theorem ends_frames {α : Type} {m : Tree α} {Q : α → Prop}
    (h : Ends (Present self.graphs p ended) m Q) :
    Ends (Joining self p ended g rows held events) (frames m) Q := by
  intro s hs
  obtain ⟨a, t, h1, ht, ha⟩ := exec_ends h hs.frames
  exact ⟨a, _, h1, ⟨ht, hs.session_id, hs.store, hs.held, hs.listeners⟩, ha⟩

/-- A read of a last snapshot, which is not the one that the join makes. -/
theorem ends_latest (hy : rows.latest_snapshot self.session_id f = some y)
    (hne : f ≠ p.id ∨ y.superstep ≠ g) :
    Ends (Joining self p ended g rows held events) (snapshots (SessionSnapshots.latest f))
      (· = y) := by
  intro s hs
  have hlast : s.snapshots.last f = some y := by
    rw [SessionSnapshots.last, hs.session_id, hs.store, hy]
  refine ⟨y, _, exec_snapshots (SessionSnapshots.exec_latest hlast), ?_, rfl⟩
  refine ⟨hs.frames, hs.session_id, hs.store, ?_, hs.listeners⟩
  have href : (⟨self.session_id, p.id, g⟩ : SnapshotRef) ≠ y.ref := by
    intro h
    obtain ⟨-, hid, hstep⟩ := SnapshotRef.mk.inj h
    rcases hne with hne | hne
    · exact hne ((SessionSnapshots.latest_snapshot_spec hy).1.2.1 ▸ hid.symm)
    · exact hne hstep.symm
  simp [SessionSnapshots.insert, href, hs.held]

theorem ends_drain (hx : ∀ c ∈ p.relevant ended,
      rows.latest_snapshot self.session_id c = some (snap c)) :
    Ends (Joining self p ended g rows held events)
      (self.drain_pending_accumulators p.id (p.relevant ended)) (· = p.updates ended snap) := by
  unfold SessionCheckpointer.drain_pending_accumulators
  refine (ends_frames (ends_common_spec_of fun t h => spec_at_frame h.toFamily)).bindEq ?_
  refine (ends_foldlM (p.relevant ended) [] fun m c hc => ?_).bindEq (ends_pure rfl)
  have hmem : c ∈ p.children := (List.mem_filter.mp hc).1
  have hne : c ≠ p.id := fun h => p.outside (h ▸ hmem)
  unfold SessionCheckpointer.drain_child
  refine (ends_frames (ends_common_spec_of fun t h => spec_at_child h.toFamily hmem)).bindEq ?_
  exact (ends_latest (hx c hc) (.inl hne)).bindEq (ends_pure rfl)

/-- A pending entry of the frame is resolved, or nothing happens. -/
theorem ends_resolve (cs : List FrameId)
    (hcs : ∀ c ∈ cs, c ∈ p.children ∧ rows.latest_snapshot self.session_id c = some (snap c)) :
    Ends (Joining self p ended g rows held events) (self.resolve_pending_log p.id cs)
      (fun _ => True) := by
  unfold SessionCheckpointer.resolve_pending_log
  refine (ends_frames (ends_get_frame.bind fun n _ => ends_pure (Q := fun _ => True) trivial)).bind
    fun o _ => ?_
  cases o with
  | none => exact ends_pure trivial
  | some pending =>
    induction cs with
    | nil => exact ends_pure trivial
    | cons c cs ih =>
      obtain ⟨hmem, hsnap⟩ := hcs c (by simp)
      have hne : c ≠ p.id := fun h => p.outside (h ▸ hmem)
      unfold SessionCheckpointer.resolve_from
      refine (ends_frames ((ends_get_child hmem).bind fun n _ =>
        ends_pure (Q := fun _ => True) trivial)).bind fun spec_ref _ => ?_
      refine (ends_latest hsnap (.inl hne)).bindEq ?_
      refine Ends.bind (Q := fun _ => True) ?_ fun value _ => ?_
      · unfold SessionCheckpointer.resolved_by
        split
        all_goals try exact ends_pure trivial
        refine (ends_frames (ends_common_spec_of fun t h =>
          spec_at_child h.toFamily hmem)).bindEq ?_
        exact ends_pure trivial
      · cases value with
        | none => exact ih fun c' hc' => hcs c' (by simp [hc'])
        | some value =>
          refine ends_frames ?_
          intro t ht
          obtain ⟨n, hn, -⟩ := ht.frame
          exact ⟨(), _, exec_write hn, ht.toFamily.write_frame fun n => ⟨rfl, rfl, rfl⟩, trivial⟩

/-- The cache and the store after the push of a new snapshot of the frame. -/
theorem Joining.push (h : Joining self p ended (x.superstep + 1) rows held events s)
    (updates : List ChannelUpdate) (sources : List SnapshotRef) (hid : x.frame_id = p.id)
    {t : FrameTree} (ht : Present self.graphs p ended t) (y : Snapshot) :
    Joining self p ended (x.superstep + 1)
      (self.rowsAfter rows (self.pushed p.spec x updates sources))
      (some ⟨self.pushed p.spec x updates sources, !self.flush_on_push⟩) events
      { s with
        frames := t
        snapshots := self.push_into (s.snapshots.insert y.ref ⟨y, false⟩)
          (self.pushed p.spec x updates sources) } := by
  have href : (self.pushed p.spec x updates sources).ref =
      ⟨self.session_id, p.id, x.superstep + 1⟩ := by
    simp [SessionCheckpointer.pushed, Snapshot.ref, hid]
  unfold SessionCheckpointer.push_into SessionCheckpointer.rowsAfter
  cases self.flush_on_push with
  | false =>
    exact ⟨ht, h.session_id, h.store, by simp [SessionSnapshots.insert, href], h.listeners⟩
  | true =>
    refine ⟨ht, ?_, ?_, ?_, h.listeners⟩
    · simp [SessionSnapshots.flush, SessionSnapshots.insert, h.session_id]
    · simp [SessionSnapshots.flush, SessionSnapshots.insert, h.store]
    · simp [SessionSnapshots.flush, SessionSnapshots.insert, href]

theorem latest_rowsAfter_other (hx : x.frame_id ≠ f) (rows : SnapshotRows) (sid : SessionId) :
    (self.rowsAfter rows x).latest_snapshot sid f = rows.latest_snapshot sid f := by
  unfold SessionCheckpointer.rowsAfter
  split
  · exact SessionSnapshots.latest_upsert_other hx
  · rfl

/-- `join_children` commits the join of the children that have completed. -/
theorem exec_join_children (h : Joining self p ended (x.superstep + 1) rows held events s)
    (hx : rows.latest_snapshot self.session_id p.id = some x)
    (hsnap : ∀ c ∈ p.relevant ended, rows.latest_snapshot self.session_id c = some (snap c))
    (hroom : x.superstep + 1 < 2 ^ 32) :
    ∃ s', exec (self.join_children p.id) s = (.ok (), s') ∧
      Joining self p ended (x.superstep + 1) (self.rowsAfter rows (p.joined self ended snap x))
        (some ⟨p.joined self ended snap x, !self.flush_on_push⟩) events s' := by
  have hid : x.frame_id = p.id := (SessionSnapshots.latest_snapshot_spec hx).1.2.1
  have hold : x.superstep ≠ x.superstep + 1 := by omega
  unfold SessionCheckpointer.join_children
  obtain ⟨s1, h1, hs1⟩ := (ends_latest hx (.inr hold)).exec h
  rw [exec_bind_ok h1]
  obtain ⟨s2, h2, hs2⟩ := (ends_frames ends_children).exec hs1
  rw [exec_bind_ok h2]
  have hrelevant : Ends (Joining self p ended (x.superstep + 1) rows held events)
      (p.children.filterM fun c => do pure (← frames (status_of c)).has_completed)
      (· = p.relevant ended) := by
    refine ends_filterM p.children fun c hc => ?_
    refine Ends.bind (Q := fun status => EndedAs (ended c) status) ?_ ?_
    · exact ends_frames ((ends_get_child hc).bind fun n hn => ends_pure hn)
    · exact fun status hst => ends_pure hst.has_completed
  obtain ⟨s3, h3, hs3⟩ := hrelevant.exec hs2
  rw [exec_bind_ok h3]
  have hsources : Ends (Joining self p ended (x.superstep + 1) rows held events)
      ((p.relevant ended).mapM fun c => do pure (← snapshots (SessionSnapshots.latest c)).ref)
      (· = p.sources ended snap) := by
    refine ends_mapM (p.relevant ended) fun c hc => ?_
    have hne : c ≠ p.id := fun h => p.outside (h ▸ (List.mem_filter.mp hc).1)
    exact (ends_latest (hsnap c hc) (.inl hne)).bindEq (ends_pure rfl)
  obtain ⟨s4, h4, hs4⟩ := hsources.exec hs3
  rw [exec_bind_ok h4]
  obtain ⟨s5, h5, hs5⟩ := (ends_drain hsnap).exec hs4
  rw [exec_bind_ok h5]
  -- the commit
  have hlast : s5.snapshots.last p.id = some x := by
    rw [SessionSnapshots.last, hs5.session_id, hs5.store, hx]
  obtain ⟨t, ht, h6⟩ := self.exec_commit (p.updates ended snap) (p.sources ended snap) hlast hid
    (spec_at_frame hs5.frames.toFamily) hroom
  have hpresent : Present self.graphs p ended t := by
    rcases ht with rfl | rfl
    · exact hs5.frames
    · exact hs5.frames.loaded ((Loaded.refl _).load _)
  have hs6 := hs5.push (p.updates ended snap) (p.sources ended snap) hid hpresent x
  rw [exec_bind_ok h6]
  -- the pending entry of the log
  have hrelevant : ∀ c ∈ p.relevant ended, c ∈ p.children ∧
      (self.rowsAfter rows (self.pushed p.spec x (p.updates ended snap)
        (p.sources ended snap))).latest_snapshot self.session_id c = some (snap c) := by
    intro c hc
    have hmem : c ∈ p.children := (List.mem_filter.mp hc).1
    refine ⟨hmem, ?_⟩
    rw [latest_rowsAfter_other (fun heq => p.outside (by
      rw [← hid]
      exact heq ▸ hmem))]
    exact hsnap c hc
  obtain ⟨_, s7, h7, hs7, -⟩ := ends_resolve (p.relevant ended) hrelevant _ hs6
  exact ⟨s7, h7, hs7⟩

/-- The events that `resume_frame` sends for a frame. -/
def Resumption (f : FrameId) (sent : List SessionCheckpointEvent) : Prop :=
  sent = [.FrameReady f] ∨ ∃ parent : Option FrameId,
    sent = .FrameTerminated f :: (parent.map (.ChildFrameTerminated · f)).toList

theorem exec_resume (h : Joining self p ended g rows held events s) :
    ∃ s' sent, exec (SessionCheckpointer.resume_frame p.id) s = (.ok (), s') ∧
      Joining self p ended g rows held (events ++ sent) s' ∧ Resumption p.id sent ∧
      (s'.frames.find p.id).map (·.status) = some p.resumed := by
  have hpolicy : Ends (Present self.graphs p ended) (on_resume_policy p.id)
      (· = p.policy.on_resume_policy) := by
    refine Ends.bind (Q := (· = p.policy)) (ends_get_frame.bind fun n hn => ends_pure hn) ?_
    rintro policy rfl
    exact ends_pure rfl
  obtain ⟨s1, h1, hs1⟩ := (ends_frames hpolicy).exec h
  obtain ⟨n, hn, -⟩ := hs1.frames.frame
  -- the mark writes the status alone
  have hmark : ∀ status sent, Joining self p ended g rows held (events ++ sent)
      ((s1.marked p.id status).emits sent) := by
    intro status sent
    refine ⟨hs1.frames.toFamily.write_frame (f := fun n => { n with status }) fun n =>
      ⟨rfl, rfl, rfl⟩, hs1.session_id, hs1.store, hs1.held, ?_⟩
    simp [State.emits, State.marked, hs1.listeners]
  have hstatus : ∀ status sent,
      (((s1.marked p.id status).emits sent).frames.find p.id).map (·.status) = some status := by
    intro status sent
    change ((s1.marked p.id status).frames.find p.id).map (·.status) = _
    rw [find_marked hn, if_pos rfl]
    rfl
  unfold SessionCheckpointer.resume_frame FanInFrame.resumed
  rw [exec_bind_ok h1]
  cases p.policy.on_resume_policy with
  | RunFrame =>
    exact ⟨_, _, exec_mark_ready hn, hmark _ _, .inl rfl, hstatus _ _⟩
  | MarkComplete =>
    exact ⟨_, _, exec_mark_completed hn, hmark _ _, .inr ⟨n.parent, rfl⟩, hstatus _ _⟩

/-- The branch `FanIn` commits one join and resumes the frame. -/
theorem exec_join_fan_in (h : Joining self p ended (x.superstep + 1) rows held events s)
    (hx : rows.latest_snapshot self.session_id p.id = some x)
    (hsnap : ∀ c ∈ p.relevant ended, rows.latest_snapshot self.session_id c = some (snap c))
    (hroom : x.superstep + 1 < 2 ^ 32) :
    ∃ s' sent, exec (self.join_fan_in p.id) s = (.ok (), s') ∧
      Joining self p ended (x.superstep + 1) (self.rowsAfter rows (p.joined self ended snap x))
        (some ⟨p.joined self ended snap x, !self.flush_on_push⟩) (events ++ sent) s' ∧
      Resumption p.id sent ∧ (s'.frames.find p.id).map (·.status) = some p.resumed := by
  obtain ⟨s1, h1, hs1⟩ := exec_join_children h hx hsnap hroom
  obtain ⟨s2, sent, h2, hs2, hsent, hstatus⟩ := exec_resume hs1
  refine ⟨s2, sent, ?_, hs2, hsent, hstatus⟩
  unfold SessionCheckpointer.join_fan_in
  rw [exec_bind_ok h1, h2]

end Join

end marie.session
