-- A frame that waits for its children resumes when they have terminated. The
-- policy `FanIn` waits for all of them; the policy `Sequential` resumes at
-- every notification, and the change of policy that a suspension asks for is
-- never made.
import Marie.Session.Handlers

namespace marie.session

open Program FrameTree

/-! ## What a frame waits for -/

def FrameStatus.is_waiting : FrameStatus → Bool
  | .WaitingChildren => true
  | _ => false

/-- The statuses that `resume_frame` gives. -/
def FrameStatus.has_resumed : FrameStatus → Bool
  | .Ready | .Completed => true
  | _ => false

def FrameResult.asks_children : FrameResult → Bool
  | .ConsultExperts _ | .CallTools _ => true
  | _ => false

/-- For a frame that its last run suspended on experts or tools, the children made for it. -/
abbrev Watch := FrameId → Option (List FrameId)

/-- What the watch says of `f` once `FrameRunTerminated` led from `s` to `s'`. -/
def Watch.record (w : Watch) (s s' : State) (f : FrameId) : Option (List FrameId) :=
  match (s.frames.find f).map FrameNode.status with
  | some (.RunCompleted response) =>
    if response.result.asks_children then
      some ((s'.frames.childrenAt f).drop (s.frames.childrenAt f).length)
    else none
  | _ => w f

/-- The watch after an event that led from `s` to `s'`. -/
def Watch.next (w : Watch) (s s' : State) : SessionCheckpointEvent → Watch
  | .FrameRunTerminated f => fun x => if x = f then w.record s s' f else w x
  | _ => w

/-- The resume policy of a frame of the tree. -/
def FrameTree.resumePolicyAt (t : FrameTree) (p : FrameId) : Option ResumePolicy :=
  (t.find p).map (·.frame_policy.resume_policy)

/-- The children that `p` waits for: those that its suspension made; else all of them for the
policy `FanIn`, and the last one for the policy `Sequential`. -/
def Watch.awaited (w : Watch) (s : State) (p : FrameId) : List FrameId :=
  match w p, s.frames.resumePolicyAt p with
  | some created, _ => created
  | none, some .FanIn => s.frames.childrenAt p
  | none, some .Sequential => (s.frames.childrenAt p).getLast?.toList
  | none, _ => []

/-- All that `p` waits for has terminated. -/
def Watch.Over (w : Watch) (s : State) (p : FrameId) : Prop :=
  ∀ x ∈ w.awaited s p, s.frames.statusIs FrameStatus.has_terminated x

namespace SessionCheckpointer

variable (self : SessionCheckpointer)

/-- When the event makes a waiting frame resume, all that it waits for has terminated. -/
def ResumesInTime (w : Watch) (s : State) : SessionCheckpointEvent → Prop
  | .ChildFrameTerminated p c =>
    s.frames.statusIs FrameStatus.is_waiting p →
      (self.step s (.ChildFrameTerminated p c)).frames.statusIs FrameStatus.has_resumed p →
      w.Over s p
  | _ => True

/-- Each event of a run finds a state with `C`; the watch is kept along. -/
def AlongWatch (C : Watch → State → SessionCheckpointEvent → Prop) (w : Watch) (s : State) :
    List SessionMove → Prop
  | [] => True
  | .event event :: moves =>
    C w s event ∧ (self.panics s event = false →
      AlongWatch C (w.next s (self.step s event) event) (self.step s event) moves)
  | .snapshots snapshots :: moves => AlongWatch C w { s with snapshots } moves

end SessionCheckpointer

/-- A notification to a waiting frame with the policy `Sequential`, which does not make its
failure policy fire, comes when all that the frame waits for has terminated. -/
def NotifiedInTime (w : Watch) (s : State) : SessionCheckpointEvent → Prop
  | .ChildFrameTerminated p c =>
    s.frames.statusIs FrameStatus.is_waiting p →
      s.frames.resumePolicyAt p = some .Sequential → ¬ s.frames.Fires p c → w.Over s p
  | _ => True

/-- What the watch names are children of the frame. -/
def Watch.Valid (w : Watch) (s : State) : Prop :=
  ∀ p created, w p = some created → ∀ x ∈ created, x ∈ s.frames.childrenAt p

/-! ## One event -/

section Step

variable {self : SessionCheckpointer} {s : State} {w : Watch} {p c : FrameId} {n : FrameNode}

theorem step_frames (event : SessionCheckpointEvent) :
    (self.step s event).frames = (exec (self.on_event event) s).2.frames := by
  obtain ⟨session_status, h⟩ := step_eq self s event
  rw [h]

theorem not_resumed_of_waiting {t : FrameTree} (h : t.statusIs FrameStatus.is_waiting p) :
    ¬ t.statusIs FrameStatus.has_resumed p := by
  intro hr
  unfold statusIs at h hr
  cases hn : t.find p with
  | none => simp [hn] at h
  | some n =>
    simp only [hn, Option.map_some, Option.getD_some] at h hr
    cases hst : n.status <;> simp_all [FrameStatus.is_waiting, FrameStatus.has_resumed]

/-- A frame with the policy `FanIn` waits for some of its children at most. -/
theorem over_of_allTerminated (hw : w.Valid s)
    (hpol : s.frames.resumePolicyAt p = some .FanIn) (hall : s.frames.AllTerminated p) :
    w.Over s p := by
  intro x hx
  apply hall x
  unfold Watch.awaited at hx
  cases hwp : w p with
  | some created =>
    simp only [hwp] at hx
    exact hw p created hwp x hx
  | none => simpa [hwp, hpol] using hx

/-- A notification that comes in time resumes in time. -/
theorem resumes_in_time (hw : w.Valid s) (event : SessionCheckpointEvent)
    (h : NotifiedInTime w s event) : self.ResumesInTime w s event := by
  cases event with
  | ChildFrameTerminated p c =>
    intro hwait hres
    rw [step_frames] at hres
    change (exec (self.on_child_frame_terminated p c) s).2.frames.statusIs _ _ at hres
    rcases child_terminated_cases self s p c with
      ⟨e, t, ht, hr⟩ | ⟨t, cp, ht, hfind, hcp, hcase⟩
    · rw [hr, ht.statusIs] at hres
      exact absurd hres (not_resumed_of_waiting hwait)
    · rcases hcase with ⟨-, err, hr⟩ | ⟨hfires, hpol, -⟩ | ⟨-, hpol, hall, -⟩ | ⟨-, -, hr⟩
      · -- the failure policy makes the frame fail
        have hp : ({ s with frames := t } : State).frames.find p = some cp.node :=
          find_of_arena hcp
        rw [hr, exec_mark_failed hp] at hres
        change (({ s with frames := t } : State).marked p _).frames.statusIs _ _ at hres
        unfold statusIs at hres
        rw [find_marked hp] at hres
        simp [FrameStatus.has_resumed] at hres
      · exact h hwait (by simp [resumePolicyAt, hfind, hpol]) hfires
      · exact over_of_allTerminated hw (by simp [resumePolicyAt, hfind, hpol]) hall
      · rw [hr, ht.statusIs] at hres
        exact absurd hres (not_resumed_of_waiting hwait)
  | _ => trivial

/-! ### The other way -/

theorem resumed_marked {status : FrameStatus} (hp : s.frames.find p = some n)
    (h : status.has_resumed) : (s.marked p status).frames.statusIs FrameStatus.has_resumed p := by
  unfold statusIs
  rw [find_marked hp]
  simpa using h

theorem find_of_mark_ready {s' : State} (h : exec (mark_ready_to_run_frame p) s = (.ok (), s')) :
    s'.frames.statusIs FrameStatus.has_resumed p := by
  cases hp : s.frames.find p with
  | none =>
    obtain ⟨_, s1, h1, _⟩ := exec_bind_eq_ok h
    rw [exec_set_status_none hp] at h1
    cases h1
  | some n =>
    rw [exec_mark_ready hp] at h
    cases h
    exact resumed_marked hp rfl

theorem find_of_mark_completed {s' : State}
    (h : exec (mark_completed_frame p) s = (.ok (), s')) :
    s'.frames.statusIs FrameStatus.has_resumed p := by
  cases hp : s.frames.find p with
  | none =>
    obtain ⟨_, s1, h1, _⟩ := exec_bind_eq_ok h
    rw [exec_set_status_none hp] at h1
    cases h1
  | some n =>
    rw [exec_mark_completed hp] at h
    cases h
    exact resumed_marked hp rfl

theorem resumed_of_resume_frame {s' : State}
    (h : exec (SessionCheckpointer.resume_frame p) s = (.ok (), s')) :
    s'.frames.statusIs FrameStatus.has_resumed p := by
  unfold SessionCheckpointer.resume_frame at h
  obtain ⟨policy, s1, -, h⟩ := exec_bind_eq_ok h
  cases policy with
  | RunFrame => exact find_of_mark_ready h
  | MarkComplete => exact find_of_mark_completed h

/-- The branch `Sequential`, once it returns, has resumed the frame. -/
theorem resumed_of_join_sequential {s' : State}
    (h : exec (self.join_sequential p) s = (.ok (), s')) :
    s'.frames.statusIs FrameStatus.has_resumed p := by
  unfold SessionCheckpointer.join_sequential at h
  obtain ⟨o, s1, -, h⟩ := exec_bind_eq_ok h
  cases o with
  | none => exact find_of_mark_ready h
  | some last_child =>
    obtain ⟨-, s2, -, h⟩ := exec_bind_eq_ok h
    exact resumed_of_resume_frame h

/-- A handler that returns and resumes in time was notified in time. -/
theorem notified_in_time (event : SessionCheckpointEvent)
    (hok : ∃ s', exec (self.on_event event) s = (.ok (), s'))
    (h : self.ResumesInTime w s event) : NotifiedInTime w s event := by
  cases event with
  | ChildFrameTerminated p c =>
    intro hwait hpol hfires
    refine h hwait ?_
    rw [step_frames]
    obtain ⟨s', hok⟩ := hok
    change exec (self.on_child_frame_terminated p c) s = _ at hok
    change (exec (self.on_child_frame_terminated p c) s).2.frames.statusIs _ _
    rcases child_terminated_cases self s p c with
      ⟨e, t, ht, hr⟩ | ⟨t, cp, ht, hfind, hcp, hcase⟩
    · rw [hr] at hok
      cases hok
    · simp only [resumePolicyAt, hfind, Option.map_some, Option.some.injEq] at hpol
      rcases hcase with ⟨hf, -⟩ | ⟨-, -, hr⟩ | ⟨-, hp, -⟩ | ⟨-, ⟨hp, -⟩ | hp, -⟩
      · exact absurd hf hfires
      · rw [hok]
        rw [hr] at hok
        exact resumed_of_join_sequential hok
      all_goals rw [hpol] at hp; cases hp
  | _ => trivial

/-! ## The watch -/

/-- The children of a frame only grow. -/
theorem childrenAt_step (event : SessionCheckpointEvent) (p : FrameId) :
    s.frames.childrenAt p <+: (self.step s event).frames.childrenAt p := by
  unfold childrenAt
  cases hp : s.frames.find p with
  | none => simp
  | some n =>
    obtain ⟨n', hn', hkept⟩ := (step_evolves self s event).node p n hp
    simp only [hn', Option.map_some, Option.getD_some]
    exact (hkept (id_lt_next hp)).children

theorem Watch.Valid.next (hw : w.Valid s) (event : SessionCheckpointEvent) :
    (w.next s (self.step s event) event).Valid (self.step s event) := by
  have hkeep : ∀ p created, w p = some created →
      ∀ x ∈ created, x ∈ (self.step s event).frames.childrenAt p :=
    fun p created hp x hx => (childrenAt_step event p).subset (hw p created hp x hx)
  intro p created hp x hx
  cases event with
  | FrameRunTerminated f =>
    by_cases hpf : p = f
    · subst hpf
      simp only [Watch.next, if_true, Watch.record] at hp
      split at hp
      · split at hp
        · cases hp
          exact List.mem_of_mem_drop hx
        · cases hp
      · exact hkeep p created hp x hx
    · simp only [Watch.next, hpf, if_false] at hp
      exact hkeep p created hp x hx
  | _ => exact hkeep p created hp x hx

end Step

/-! ## Runs -/

theorem alongWatch_mono {self : SessionCheckpointer}
    {C D E : Watch → State → SessionCheckpointEvent → Prop}
    (h : ∀ w s event, w.Valid s → C w s event → D w s event → E w s event) (w : Watch) (s : State)
    (moves : List SessionMove) (hw : w.Valid s) (hC : self.AlongWatch C w s moves)
    (hD : self.AlongWatch D w s moves) : self.AlongWatch E w s moves := by
  induction moves generalizing w s with
  | nil => trivial
  | cons move moves ih =>
    cases move with
    | snapshots t => exact ih w _ hw hC hD
    | event event =>
      refine ⟨h w s event hw hC.1 hD.1, fun hp => ?_⟩
      exact ih _ _ (hw.next event) (hC.2 hp) (hD.2 hp)

/-- **No early resume**: in a run where each notification comes in time, every frame resumes in
time; and when the handlers return, only such runs do. -/
theorem frames_resume_in_time (self : SessionCheckpointer) (w : Watch) (s : State)
    (moves : List SessionMove) (hw : w.Valid s) :
    (self.AlongWatch NotifiedInTime w s moves → self.AlongWatch self.ResumesInTime w s moves) ∧
    (self.AlongWatch (fun _ s event => ∃ s', exec (self.on_event event) s = (.ok (), s')) w s moves →
      self.AlongWatch self.ResumesInTime w s moves → self.AlongWatch NotifiedInTime w s moves) := by
  constructor
  · intro h
    exact alongWatch_mono (fun _ _ event hw h _ => resumes_in_time hw event h) w s moves hw h h
  · intro hok h
    exact alongWatch_mono (fun _ _ event _ hok h => notified_in_time event hok h) w s moves hw hok h

/-! ## A thread of two nodes -/

/-- The graph whose node `a` leads to the node `b`. -/
def twoNodes : GraphSpec where
  id := "g"
  edges n := if n = "a" then some "b" else none
  entry := "a"
  common := {}

/-- A checkpointer whose catalog has that graph. -/
def overTwoNodes : SessionCheckpointer := { plain true with graphs := .of [twoNodes] }

/-- A thread of that graph that waits for its first node. -/
def threadAt (status : FrameStatus) : State :=
  .new ⟨0⟩ (.ofNodes
    [{ FrameNode.new ⟨0⟩
        { spec_ref := .Graph ⟨"g", 1⟩, data := .GraphThread ⟨"g", 1⟩
          frame_policy := { on_child_failed := .FailIfAtLeastHasFailed 1 } } with
        status := .WaitingChildren, children := [⟨1⟩] },
      { FrameNode.new ⟨1⟩ { spec_ref := .Graph ⟨"g", 1⟩, data := .GraphNode ⟨"g", 1⟩ "a" } with
        status := status, parent := some ⟨0⟩ }])
    [⟨⟨0⟩, ⟨0⟩, 0, .empty, []⟩, ⟨⟨0⟩, ⟨1⟩, 0, .empty, []⟩]

/-- The node `a` continues: the thread gets the node `b`, and resumes at the termination of
`a`. -/
theorem a_thread_resumes_before_its_last_child :
    ¬ overTwoNodes.AlongWatch overTwoNodes.ResumesInTime (fun _ => none)
      (threadAt (.RunCompleted { frame_id := ⟨1⟩, updates := [], new_logs := [], result := .Continue }))
      [.event (.FrameRunTerminated ⟨1⟩), .event (.ChildFrameTerminated ⟨0⟩ ⟨1⟩)] := by
  rintro ⟨-, h⟩
  have hover := (h rfl).1 rfl rfl ⟨2⟩ (List.mem_singleton.mpr rfl)
  cases hover

/-- The last child of the thread has completed: the thread is ready again, in time. -/
theorem a_thread_resumes_after_its_last_child :
    (overTwoNodes.step (threadAt .Completed) (.ChildFrameTerminated ⟨0⟩ ⟨1⟩)).frames.statusIs
      FrameStatus.has_resumed ⟨0⟩ ∧
    overTwoNodes.AlongWatch overTwoNodes.ResumesInTime (fun _ => none) (threadAt .Completed)
      [.event (.ChildFrameTerminated ⟨0⟩ ⟨1⟩)] := by
  refine ⟨rfl, (frames_resume_in_time overTwoNodes (fun _ => none) (threadAt .Completed) _
    (fun _ _ h => by cases h)).1 ⟨fun _ _ _ x hx => ?_, fun _ => trivial⟩⟩
  obtain rfl : x = ⟨1⟩ := List.mem_singleton.mp hx
  rfl

end marie.session
