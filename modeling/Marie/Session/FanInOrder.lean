-- The outcome of a fan-in and the order in which its children terminate. The
-- last one decides: its failure policy is asked only when that child failed.
import Marie.Session.FanIn

namespace marie.session

open Program FrameTree

/-! ## Orders of termination -/

namespace SessionCheckpointer

variable (self : SessionCheckpointer)

/-- The child `c` of `p` ends, and its termination is handled. -/
def terminate (p : FrameId) (outcome : FrameId → ChildOutcome) (s : State) (c : FrameId) : State :=
  (exec (self.on_child_frame_terminated p c) (exec (mark_ended c (outcome c)) s).2).2

/-- The children end in this order. -/
def terminateAll (p : FrameId) (outcome : FrameId → ChildOutcome) (order : List FrameId)
    (s : State) : State :=
  order.foldl (self.terminate p outcome) s

end SessionCheckpointer

/-- How many children fail in the end. -/
def FanInFrame.allFailures (p : FanInFrame) (outcome : FrameId → ChildOutcome) : Nat :=
  p.failures fun c => some (outcome c)

/-- The frame waits with its last snapshot `x`, no child has ended, and each child that will
complete has its snapshot. -/
structure FanInStart (ckp : SessionCheckpointer) (p : FanInFrame) (outcome : FrameId → ChildOutcome)
    (snap : FrameId → Snapshot) (x : Snapshot) (s : State) : Prop where
  frames : Family ckp.graphs p (fun _ => none) s.frames
  waiting : (s.frames.find p.id).map (·.status) = some .WaitingChildren
  nodup : p.children.Nodup
  session_id : s.snapshots.session_id = ckp.session_id
  last : s.snapshots.last p.id = some x
  last_child : ∀ c ∈ p.children, outcome c = .completed → s.snapshots.last c = some (snap c)
  room : x.superstep + 1 < 2 ^ 32

/-- From `s` to `s'` the frame came to what its policy says: it failed when at least `count`
children did, else it joined the children that completed, and resumed. -/
structure FanInOutcome (ckp : SessionCheckpointer) (p : FanInFrame)
    (outcome : FrameId → ChildOutcome) (snap : FrameId → Snapshot) (x : Snapshot) (count : Nat)
    (s s' : State) : Prop where
  failed : count ≤ p.allFailures outcome →
    (s'.frames.find p.id).map (·.status) =
      some (.Failed ("au moins " ++ toString count ++ " enfants ont échoué")) ∧
    s'.snapshots = s.snapshots
  joined : p.allFailures outcome < count →
    (s'.frames.find p.id).map (·.status) = some p.resumed ∧
    s'.snapshots.cache ⟨ckp.session_id, p.id, x.superstep + 1⟩ =
      some ⟨p.joined ckp (fun c => some (outcome c)) snap x, !ckp.flush_on_push⟩

/-! ## One termination -/

section Order

variable {self : SessionCheckpointer} {p : FanInFrame} {outcome : FrameId → ChildOutcome}
  {snap : FrameId → Snapshot} {x : Snapshot} {count : Nat} {s s' : State} {ended : Outcomes}
  {c : FrameId} {done : List FrameId}

/-- The outcomes of the children that have ended. -/
def endedBy (outcome : FrameId → ChildOutcome) (done : List FrameId) : Outcomes :=
  fun c => if c ∈ done then some (outcome c) else none

theorem endedBy_nil : endedBy outcome [] = fun _ => none := by
  funext c
  simp [endedBy]

theorem record_endedBy :
    (endedBy outcome done).record c (outcome c) = endedBy outcome (done ++ [c]) := by
  funext x
  unfold Outcomes.record endedBy
  by_cases hx : x = c
  · simp [hx]
  · simp [hx]

/-- The frame fails: its status is marked, and the snapshots stay. -/
theorem exec_frame_fails (h : Family self.graphs p ended s.frames) (err : String) :
    ∃ s', exec (mark_failed_frame err p.id) s = (.ok (), s') ∧
      Family self.graphs p ended s'.frames ∧ s'.snapshots = s.snapshots ∧
      (s'.frames.find p.id).map (·.status) = some (.Failed err) := by
  obtain ⟨n, hn, -⟩ := h.frame
  refine ⟨_, exec_mark_failed hn err, ?_, rfl, ?_⟩
  · exact (h.write_frame (f := fun n => { n with status := .Failed err }) fun n =>
      ⟨rfl, rfl, rfl⟩).toFamily
  · change ((s.marked p.id (.Failed err)).frames.find p.id).map (·.status) = _
    rw [find_marked hn, if_pos rfl]
    rfl

/-- A child ends before the last one: no join yet. -/
theorem terminate_before_last (h : Family self.graphs p (endedBy outcome done) s.frames)
    (hc : c ∈ p.children) (hrest : ∃ c' ∈ p.children, c' ∉ done ++ [c]) :
    Family self.graphs p (endedBy outcome (done ++ [c])) (self.terminate p.id outcome s c).frames ∧
      (self.terminate p.id outcome s c).snapshots = s.snapshots := by
  obtain ⟨hmark, hfamily⟩ := exec_mark_ended h hc (outcome c)
  rw [record_endedBy] at hfamily
  have hover : p.over (endedBy outcome (done ++ [c])) = false := by
    obtain ⟨c', hc', hno⟩ := hrest
    unfold FanInFrame.over
    rw [List.all_eq_false]
    exact ⟨c', hc', by simp only [endedBy, if_neg hno]; simp⟩
  obtain ⟨t, ht, hr⟩ := exec_child_terminated
    (s := (s.marked c (outcome c).status).emits (notices p.id c (outcome c))) hfamily hc
  unfold SessionCheckpointer.terminate
  rw [hmark, hr, hover]
  cases p.reached (endedBy outcome (done ++ [c])) c with
  | some k =>
    obtain ⟨s1, h1, hs1, hsnap, -⟩ := exec_frame_fails
      (s := { (s.marked c (outcome c).status).emits (notices p.id c (outcome c)) with frames := t }) ht.toFamily
      ("au moins " ++ toString k ++ " enfants ont échoué")
    simp only
    rw [h1]
    exact ⟨hs1, hsnap⟩
  | none => exact ⟨ht.toFamily, rfl⟩

theorem terminateAll_before_last {order : List FrameId}
    (h : Family self.graphs p (endedBy outcome done) s.frames) (horder : ∀ c ∈ order, c ∈ p.children)
    (hrest : ∃ c' ∈ p.children, c' ∉ done ++ order) :
    Family self.graphs p (endedBy outcome (done ++ order))
        (self.terminateAll p.id outcome order s).frames ∧
      (self.terminateAll p.id outcome order s).snapshots = s.snapshots := by
  induction order generalizing done s with
  | nil =>
    rw [List.append_nil]
    exact ⟨h, rfl⟩
  | cons c order ih =>
    obtain ⟨c', hc', hno⟩ := hrest
    have hstep : ∃ c' ∈ p.children, c' ∉ done ++ [c] :=
      ⟨c', hc', fun hmem => hno (by simp only [List.mem_append, List.mem_cons] at hmem ⊢; grind)⟩
    obtain ⟨h1, hs1⟩ := terminate_before_last h (horder c (by simp)) hstep
    have hnext := ih h1 (fun x hx => horder x (by simp [hx])) ⟨c', hc', by simpa using hno⟩
    unfold SessionCheckpointer.terminateAll at hnext ⊢
    rw [List.foldl_cons]
    refine ⟨by simpa using hnext.1, hnext.2.trans hs1⟩

/-! ## The last termination -/

theorem endedBy_children (h : ∀ c ∈ p.children, c ∈ done) (hc : c ∈ p.children) :
    endedBy outcome done c = some (outcome c) := by
  simp [endedBy, h c hc]

theorem failures_congr {ended' : Outcomes} (h : ∀ c ∈ p.children, ended c = ended' c) :
    p.failures ended = p.failures ended' := by
  unfold FanInFrame.failures
  rw [List.filter_congr fun c hc => by rw [h c hc]]

theorem relevant_congr {ended' : Outcomes} (h : ∀ c ∈ p.children, ended c = ended' c) :
    p.relevant ended = p.relevant ended' := by
  unfold FanInFrame.relevant
  rw [List.filter_congr fun c hc => by rw [h c hc]]

theorem joined_congr {ended' : Outcomes} (h : ∀ c ∈ p.children, ended c = ended' c) :
    p.joined self ended snap x = p.joined self ended' snap x := by
  unfold FanInFrame.joined FanInFrame.updates FanInFrame.sources
  rw [relevant_congr h]

/-- The last child ends: the frame fails when that child failed and enough have, else it
joins. -/
theorem terminate_last (h : Family self.graphs p (endedBy outcome done) s'.frames)
    (hsame : s'.snapshots = s.snapshots) (hstart : FanInStart self p outcome snap x s)
    (hpol : p.policy.on_child_failed = .FailIfAtLeastHasFailed count) (hc : c ∈ p.children)
    (hall : ∀ c' ∈ p.children, c' ∈ done ++ [c]) :
    (ChildOutcome.is_failed (some (outcome c)) ∧ count ≤ p.allFailures outcome →
      ((self.terminate p.id outcome s' c).frames.find p.id).map (·.status) =
        some (.Failed ("au moins " ++ toString count ++ " enfants ont échoué")) ∧
      (self.terminate p.id outcome s' c).snapshots = s.snapshots) ∧
    (¬ (ChildOutcome.is_failed (some (outcome c)) ∧ count ≤ p.allFailures outcome) →
      ((self.terminate p.id outcome s' c).frames.find p.id).map (·.status) = some p.resumed ∧
      (self.terminate p.id outcome s' c).snapshots.cache
          ⟨self.session_id, p.id, x.superstep + 1⟩ =
        some ⟨p.joined self (fun c => some (outcome c)) snap x, !self.flush_on_push⟩) := by
  have hended : ∀ c' ∈ p.children, endedBy outcome (done ++ [c]) c' = some (outcome c') :=
    fun c' hc' => endedBy_children hall hc'
  have hover : p.over (endedBy outcome (done ++ [c])) = true := by
    unfold FanInFrame.over
    rw [List.all_eq_true]
    intro c' hc'
    simp [hended c' hc']
  have hreached : p.reached (endedBy outcome (done ++ [c])) c =
      if ChildOutcome.is_failed (some (outcome c)) ∧ count ≤ p.allFailures outcome then some count
      else none := by
    unfold FanInFrame.reached FanInFrame.allFailures
    rw [hended c hc, hpol, failures_congr hended]
    cases outcome c <;> simp [ChildOutcome.is_failed]
  obtain ⟨hmark, hfamily⟩ := exec_mark_ended h hc (outcome c)
  rw [record_endedBy] at hfamily
  obtain ⟨t, ht, hr⟩ := exec_child_terminated
    (s := (s'.marked c (outcome c).status).emits (notices p.id c (outcome c))) hfamily hc
  rw [hreached, hover] at hr
  unfold SessionCheckpointer.terminate
  rw [hmark, hr]
  constructor
  · intro hfails
    rw [if_pos hfails]
    obtain ⟨s1, h1, -, hsnap, hstatus⟩ := exec_frame_fails
      (s := { (s'.marked c (outcome c).status).emits (notices p.id c (outcome c)) with frames := t }) ht.toFamily
      ("au moins " ++ toString count ++ " enfants ont échoué")
    simp only
    rw [h1]
    exact ⟨hstatus, hsnap.trans hsame⟩
  · intro hjoins
    rw [if_neg hjoins]
    have hjoining : Joining self p (endedBy outcome (done ++ [c])) (x.superstep + 1)
        s.snapshots.store (s.snapshots.cache ⟨self.session_id, p.id, x.superstep + 1⟩)
        (s'.listeners ++ notices p.id c (outcome c))
        { (s'.marked c (outcome c).status).emits (notices p.id c (outcome c)) with frames := t } := by
      refine ⟨ht, ?_, ?_, ?_, rfl⟩
      · exact (congrArg _ hsame).trans hstart.session_id
      · exact congrArg _ hsame
      · exact congrArg (fun t => SessionSnapshots.cache t _) hsame
    have hlast : s.snapshots.store.latest_snapshot self.session_id p.id = some x := by
      rw [← hstart.session_id]
      exact hstart.last
    have hsnap : ∀ c' ∈ p.relevant (endedBy outcome (done ++ [c])),
        s.snapshots.store.latest_snapshot self.session_id c' = some (snap c') := by
      intro c' hc'
      obtain ⟨hmem, hcompleted⟩ := List.mem_filter.mp hc'
      rw [hended c' hmem] at hcompleted
      rw [← hstart.session_id]
      refine hstart.last_child c' hmem ?_
      cases ho : outcome c' with
      | completed => rfl
      | failed error => simp [ho, ChildOutcome.is_completed] at hcompleted
    obtain ⟨s1, sent', h1, hs1, -, hstatus⟩ := exec_join_fan_in hjoining hlast hsnap hstart.room
    simp only [if_true]
    rw [h1]
    exact ⟨hstatus, by rw [hs1.held, joined_congr hended]⟩

/-- The state before the last termination. -/
theorem terminateAll_concat (hstart : FanInStart self p outcome snap x s)
    (horder : (done ++ [c]).Perm p.children) :
    ∃ s', Family self.graphs p (endedBy outcome done) s'.frames ∧ s'.snapshots = s.snapshots ∧
      self.terminateAll p.id outcome (done ++ [c]) s = self.terminate p.id outcome s' c := by
  have hnodup : (done ++ [c]).Nodup := horder.nodup_iff.mpr hstart.nodup
  have hc : c ∉ done := by
    rw [List.nodup_append] at hnodup
    exact fun hmem => hnodup.2.2 c hmem c (by simp) rfl
  have hnone : Family self.graphs p (endedBy outcome []) s.frames := by
    rw [endedBy_nil]
    exact hstart.frames
  have hbefore := terminateAll_before_last hnone
    (fun c' hc' => horder.mem_iff.mp (List.mem_append_left [c] hc'))
    ⟨c, horder.mem_iff.mp (by simp), by simpa using hc⟩
  refine ⟨_, by simpa using hbefore.1, hbefore.2, ?_⟩
  simp [SessionCheckpointer.terminateAll]

/-! ## The law -/

theorem resumed_ne_failed (p : FanInFrame) (err : String) : p.resumed ≠ .Failed err := by
  unfold FanInFrame.resumed
  cases p.policy.on_resume_policy <;> simp

theorem resumed_ne_waiting (p : FanInFrame) : p.resumed ≠ .WaitingChildren := by
  unfold FanInFrame.resumed
  cases p.policy.on_resume_policy <;> simp

/-- **The outcome of a fan-in**: it is the same for all orders of its terminations, and the one
of its policy, just when there is a child, and either too few children fail or all do. -/
theorem fan_in_outcome_iff (self : SessionCheckpointer) (p : FanInFrame)
    (outcome : FrameId → ChildOutcome) (snap : FrameId → Snapshot) (x : Snapshot) (count : Nat)
    (s : State) (hstart : FanInStart self p outcome snap x s) (hcount : 1 ≤ count)
    (hpol : p.policy.on_child_failed = .FailIfAtLeastHasFailed count) :
    (∀ order : List FrameId, order.Perm p.children →
      FanInOutcome self p outcome snap x count s (self.terminateAll p.id outcome order s)) ↔
    p.children ≠ [] ∧ (p.allFailures outcome < count ∨
      ∀ c ∈ p.children, ChildOutcome.is_failed (some (outcome c))) := by
  constructor
  · intro h
    have hne : p.children ≠ [] := by
      -- with no child nothing happens, and the frame still waits
      intro hnil
      have hzero : p.allFailures outcome < count := by
        simp [FanInFrame.allFailures, FanInFrame.failures, hnil]
        omega
      have hjoined := ((h [] (by rw [hnil])).joined hzero).1
      change (s.frames.find p.id).map (·.status) = _ at hjoined
      rw [hstart.waiting] at hjoined
      exact resumed_ne_waiting p (Option.some.inj hjoined).symm
    refine ⟨hne, ?_⟩
    by_contra hno
    push Not at hno
    obtain ⟨hle, c, hc, hcompleted⟩ := hno
    -- a child that completes comes last: the frame joins
    have hperm : (p.children.erase c ++ [c]).Perm p.children :=
      (List.perm_append_singleton c (p.children.erase c)).trans (List.perm_cons_erase hc).symm
    obtain ⟨s', hfamily, hsame, heq⟩ := terminateAll_concat hstart hperm
    have hlast := terminate_last hfamily hsame hstart hpol hc
      fun c' hc' => hperm.mem_iff.mpr hc'
    have hjoined := (hlast.2 fun hf => hcompleted hf.1).1
    have hfailed := ((h _ hperm).failed hle).1
    rw [heq, hjoined] at hfailed
    exact resumed_ne_failed p _ (Option.some.inj hfailed)
  · rintro ⟨hne, hcase⟩ order hperm
    rcases List.eq_nil_or_concat order with rfl | ⟨done, c, rfl⟩
    · exact absurd hperm.nil_eq.symm hne
    · rw [List.concat_eq_append] at hperm ⊢
      have hc : c ∈ p.children := hperm.mem_iff.mp (by simp)
      obtain ⟨s', hfamily, hsame, heq⟩ := terminateAll_concat hstart hperm
      have hlast := terminate_last hfamily hsame hstart hpol hc
        fun c' hc' => hperm.mem_iff.mpr hc'
      rw [heq]
      constructor
      · intro hle
        refine hlast.1 ⟨?_, hle⟩
        rcases hcase with hlt | hall
        · omega
        · exact hall c hc
      · intro hlt
        refine hlast.2 fun hf => ?_
        have := hf.2
        omega

end Order

/-! ## Two tools -/

/-- An aggregator, as `append_tool_aggregator` makes it, over two tool calls. -/
def twoCalls : FanInFrame where
  id := ⟨0⟩
  children := [⟨1⟩, ⟨2⟩]
  policy := { on_child_failed := .FailIfAtLeastHasFailed 1, resume_policy := .FanIn }
  spec := .tool_aggregator
  child_spec _ := .tool
  fan_in := rfl
  outside := by decide

/-- The last snapshot of a frame: it has no channel, and no commit came after it. -/
def firstSnapshot (f : FrameId) : Snapshot := ⟨⟨0⟩, f, 0, .empty, []⟩

def twoCallsWait : State :=
  .new ⟨0⟩ (.ofNodes
    [{ FrameNode.new ⟨0⟩
        { spec_ref := .ToolAggregator, data := .Void, frame_policy := twoCalls.policy } with
        status := .WaitingChildren, children := [⟨1⟩, ⟨2⟩] },
      { FrameNode.new ⟨1⟩ { spec_ref := .ToolCall, data := .ToolCall ⟨0⟩ "a" .Null } with
        status := .Ready, parent := some ⟨0⟩ },
      { FrameNode.new ⟨2⟩ { spec_ref := .ToolCall, data := .ToolCall ⟨1⟩ "b" .Null } with
        status := .Ready, parent := some ⟨0⟩ }])
    [firstSnapshot ⟨0⟩, firstSnapshot ⟨1⟩, firstSnapshot ⟨2⟩]

/-- The first call fails, and then the second one completes: the aggregator resumes. -/
theorem a_completed_child_hides_a_failed_one :
    ¬ FanInOutcome (plain false) twoCalls
      (fun c => if c = ⟨1⟩ then .failed "a" else .completed) firstSnapshot (firstSnapshot ⟨0⟩) 1
      twoCallsWait ((plain false).terminateAll ⟨0⟩
        (fun c => if c = ⟨1⟩ then .failed "a" else .completed) [⟨1⟩, ⟨2⟩] twoCallsWait) := by
  intro h
  have hfailed := (h.failed (by decide)).1
  have hready : (((plain false).terminateAll ⟨0⟩
      (fun c => if c = ⟨1⟩ then .failed "a" else .completed) [⟨1⟩, ⟨2⟩]
      twoCallsWait).frames.find ⟨0⟩).map (·.status) = some .Ready := rfl
  have heq : some FrameStatus.Ready = some _ := hready.symm.trans hfailed
  cases heq

theorem twoCalls_start (outcome : FrameId → ChildOutcome) :
    FanInStart (plain false) twoCalls outcome firstSnapshot (firstSnapshot ⟨0⟩) twoCallsWait where
  frames :=
    { frame := ⟨_, rfl, rfl, rfl, rfl⟩
      child := by
        intro c hc
        rcases List.mem_cons.mp hc with rfl | hc
        · exact ⟨_, rfl, rfl, rfl, rfl⟩
        · obtain rfl := List.mem_singleton.mp hc
          exact ⟨_, rfl, rfl, rfl, rfl⟩
      resident := by
        intro c _ h
        cases h }
  waiting := rfl
  nodup := by decide
  session_id := rfl
  last := rfl
  last_child := by
    intro c hc _
    rcases List.mem_cons.mp hc with rfl | hc
    · rfl
    · obtain rfl := List.mem_singleton.mp hc
      rfl
  room := by decide

/-- When both calls fail, the aggregator fails, whichever comes first. -/
theorem two_failed_calls_fail_in_any_order :
    FanInOutcome (plain false) twoCalls (fun _ => .failed "a") firstSnapshot (firstSnapshot ⟨0⟩) 1
      twoCallsWait
      ((plain false).terminateAll ⟨0⟩ (fun _ => .failed "a") [⟨1⟩, ⟨2⟩] twoCallsWait) ∧
    FanInOutcome (plain false) twoCalls (fun _ => .failed "a") firstSnapshot (firstSnapshot ⟨0⟩) 1
      twoCallsWait
      ((plain false).terminateAll ⟨0⟩ (fun _ => .failed "a") [⟨2⟩, ⟨1⟩] twoCallsWait) := by
  have hany := (fan_in_outcome_iff (plain false) twoCalls (fun _ => .failed "a") firstSnapshot
    (firstSnapshot ⟨0⟩) 1 twoCallsWait (twoCalls_start _) (Nat.le_refl 1) rfl).mpr
    ⟨by decide, .inr fun _ _ => rfl⟩
  exact ⟨hany _ (.refl _), hany _ (.swap _ _ _)⟩

end marie.session
