-- What each handler may change, read off the state before it: the frames that
-- an event acts on, and the law that no other frame of the session changes
-- its status.
import Marie.Session.Effects

namespace marie.session

open Program FrameTree

/-! ## The state that a handler looks at -/

namespace FrameTree

/-- A test on the status of a frame of the tree. -/
def statusIs (test : FrameStatus → Bool) (t : FrameTree) (x : FrameId) : Bool :=
  ((t.find x).map (fun n => test n.status)).getD false

/-- The children of a frame of the tree. -/
def childrenAt (t : FrameTree) (p : FrameId) : List FrameId :=
  ((t.find p).map (·.children)).getD []

/-- How many children of `p` have failed. -/
def failedChildren (t : FrameTree) (p : FrameId) : Nat :=
  ((t.childrenAt p).filter (t.statusIs FrameStatus.has_failed)).length

/-- The failure policy of `p` fires when the termination of `c` is handled. -/
def Fires (t : FrameTree) (p c : FrameId) : Prop :=
  t.statusIs FrameStatus.has_failed c ∧
    ∃ n count, t.find p = some n ∧ n.frame_policy.on_child_failed = .FailIfAtLeastHasFailed count ∧
      count ≤ t.failedChildren p

/-- Every child of `p` has terminated. -/
def AllTerminated (t : FrameTree) (p : FrameId) : Prop :=
  ∀ x ∈ t.childrenAt p, t.statusIs FrameStatus.has_terminated x

/-- The termination of `c` makes `p` act: its failure policy fires, or its policy makes it
join. -/
def Joins (t : FrameTree) (p c : FrameId) : Prop :=
  t.Fires p c ∨ ∃ n, t.find p = some n ∧
    (n.frame_policy.resume_policy = .Sequential ∨
      (n.frame_policy.resume_policy = .FanIn ∧ t.AllTerminated p))

/-- Between two trees nothing but loads: the nodes are the same, and the cache only grows. -/
structure Loaded (t t' : FrameTree) : Prop where
  find : ∀ x, t'.find x = t.find x
  arena : ∀ x c, t.arena x = some c → t'.arena x = some c
  next : t'.next = t.next
  store : t'.store = t.store

variable {t t' : FrameTree} {id p : FrameId}

theorem Loaded.refl (t : FrameTree) : Loaded t t :=
  ⟨fun _ => rfl, fun _ _ h => h, rfl, rfl⟩

theorem Loaded.load (h : Loaded t t') (id : FrameId) : Loaded t (t'.load id) where
  find x := by rw [find_load, h.find]
  arena x c hc := by
    have hx := h.arena x c hc
    by_cases hid : x = id
    · subst hid
      simp [FrameTree.load, hx]
    · simp [FrameTree.load, hid, hx]
  next := h.next
  store := h.store

theorem Loaded.statusIs (h : Loaded t t') (test : FrameStatus → Bool) (x : FrameId) :
    t'.statusIs test x = t.statusIs test x := by
  simp [FrameTree.statusIs, h.find]

theorem Loaded.trans {t'' : FrameTree} (h : Loaded t t') (h' : Loaded t' t'') : Loaded t t'' where
  find x := (h'.find x).trans (h.find x)
  arena x c hc := h'.arena x c (h.arena x c hc)
  next := h'.next.trans h.next
  store := h'.store.trans h.store

theorem Loaded.childrenAt (h : Loaded t t') (p : FrameId) : t'.childrenAt p = t.childrenAt p := by
  simp [FrameTree.childrenAt, h.find]

theorem Loaded.failedChildren (h : Loaded t t') (p : FrameId) :
    t'.failedChildren p = t.failedChildren p := by
  have hs : t'.statusIs FrameStatus.has_failed = t.statusIs FrameStatus.has_failed :=
    funext (h.statusIs _)
  simp [FrameTree.failedChildren, h.childrenAt, hs]

theorem Loaded.allTerminated (h : Loaded t t') (p : FrameId) :
    t'.AllTerminated p ↔ t.AllTerminated p := by
  simp [FrameTree.AllTerminated, h.childrenAt, h.statusIs]

/-- What a read of a node gives. -/
theorem loaded_get (id : FrameId) :
    Keeps (Loaded t) (FrameTree.get id) (fun n => t.find id = some n) := by
  intro t' h
  cases hn : t'.find id with
  | none => rw [exec_get_none hn]; exact ⟨h, by rintro _ ⟨⟩⟩
  | some n =>
    rw [exec_get hn]
    refine ⟨h.load id, ?_⟩
    rintro _ ⟨⟩
    rw [← h.find, hn]

theorem loaded_read {α : Type} (id : FrameId) (φ : FrameNode → α) :
    Keeps (Loaded t) (do pure (φ (← FrameTree.get id)))
      (fun a => ∃ n, t.find id = some n ∧ a = φ n) :=
  (loaded_get id).bind fun n hn => keeps_pure ⟨n, hn, rfl⟩

/-- The children that a loop over a loaded frame goes through. -/
theorem loaded_children {c : FrameNodeContainer} (hp : t.arena p = some c) :
    Keeps (Loaded t) (asks (iter_children_of · p) : Tree (List FrameId))
      (fun ids => ids = t.childrenAt p) := by
  refine keeps_asks fun t' h => ?_
  simp [iter_children_of, h.arena p c hp, childrenAt, find_of_arena hp]

theorem loaded_filterM {ids : List FrameId} {f : FrameId → Tree Bool}
    {test : FrameStatus → Bool}
    (hf : ∀ x ∈ ids, Keeps (Loaded t) (f x) (fun b => b = t.statusIs test x)) :
    Keeps (Loaded t) (ids.filterM f) (fun xs => xs = ids.filter (t.statusIs test)) := by
  have haux : ∀ (ids acc : List FrameId),
      (∀ x ∈ ids, Keeps (Loaded t) (f x) (fun b => b = t.statusIs test x)) →
      Keeps (Loaded t) (ids.filterAuxM f acc)
        (fun xs => xs = (ids.filter (t.statusIs test)).reverse ++ acc) := by
    intro ids
    induction ids with
    | nil => intro acc _; exact keeps_pure rfl
    | cons x ids ih =>
      intro acc hf
      refine (hf x (by simp)).bind ?_
      rintro _ rfl
      refine (ih _ fun y hy => hf y (by simp [hy])).mono ?_
      rintro xs rfl
      cases hx : t.statusIs test x <;> simp [hx]
  refine (haux ids [] hf).bind ?_
  rintro _ rfl
  exact keeps_pure (by simp)

theorem loaded_statusIs (test : FrameStatus → Bool) (x : FrameId) :
    Keeps (Loaded t) (do pure (test (← status_of x))) (fun b => b = t.statusIs test x) := by
  refine (loaded_read x (·.status)).bind ?_
  rintro _ ⟨n, hn, rfl⟩
  exact keeps_pure (by simp [statusIs, hn])

theorem loaded_count_failed_frame_child {c : FrameNodeContainer} (hp : t.arena p = some c) :
    Keeps (Loaded t) (count_failed_frame_child p) (fun k => k = t.failedChildren p) := by
  unfold count_failed_frame_child
  refine (loaded_children hp).bind ?_
  rintro _ rfl
  refine (loaded_filterM fun x _ => loaded_statusIs _ x).bind ?_
  rintro _ rfl
  exact keeps_pure rfl

theorem loaded_all_children_have_terminated {c : FrameNodeContainer} (hp : t.arena p = some c) :
    Keeps (Loaded t) (all_children_have_terminated p) (fun b => b = true ↔ t.AllTerminated p) := by
  unfold all_children_have_terminated
  refine (loaded_children hp).bind ?_
  rintro _ rfl
  have hall : ∀ ids : List FrameId, Keeps (Loaded t) (all_have_terminated ids)
      (fun b => b = true ↔ ∀ x ∈ ids, t.statusIs FrameStatus.has_terminated x) := by
    intro ids
    induction ids with
    | nil => exact keeps_pure (by simp)
    | cons x ids ih =>
      unfold all_have_terminated
      refine Keeps.bind (loaded_read x (·.has_terminated)) ?_
      rintro _ ⟨n, hn, rfl⟩
      have hx : t.statusIs FrameStatus.has_terminated x = n.has_terminated := by
        simp [statusIs, hn, FrameNode.has_terminated]
      cases hb : n.has_terminated with
      | false => exact keeps_pure (by simp [hx, hb])
      | true => exact ih.mono fun b hb' => by simp [hb', hx, hb]
  exact hall _

end FrameTree

/-! ## Reads of the checkpointer -/

/-- The state once the node of `f` is loaded. -/
def State.loaded (s : State) (f : FrameId) : State := { s with frames := s.frames.load f }

section Reads

variable {s : State} {f : FrameId} {n : FrameNode} {α β : Type}

theorem exec_read (h : s.frames.find f = some n) (φ : FrameNode → α) (k : α → Ckp β) :
    exec (frames (do pure (φ (← FrameTree.get f))) >>= k) s = exec (k (φ n)) (s.loaded f) :=
  exec_bind_ok (exec_frames (exec_get_map φ h))

theorem exec_read_none (h : s.frames.find f = none) (φ : FrameNode → α) (k : α → Ckp β) :
    exec (frames (do pure (φ (← FrameTree.get f))) >>= k) s =
      (.error (.panic "frame introuvable ou erreur de stockage"), s) := by
  have hget : exec (do pure (φ (← FrameTree.get f))) s.frames =
      (.error (.panic "frame introuvable ou erreur de stockage"), s.frames) :=
    exec_bind_error (exec_get_none h)
  exact exec_bind_error (exec_frames hget)

end Reads

/-! ## Inversion of the termination of a child -/

section Inversion

variable {self : SessionCheckpointer} {s : State} {p c : FrameId}

/-- A call that only reads the frames. -/
theorem exec_loaded {α : Type} {m : Tree α} {Q : α → Prop} (h : Keeps (Loaded s.frames) m Q) :
    ∃ r t, exec (frames m) s = (r, { s with frames := t }) ∧ Loaded s.frames t ∧
      ∀ a, r = .ok a → Q a := by
  obtain ⟨h1, h2⟩ := h s.frames (.refl _)
  exact ⟨_, _, exec_frames rfl, h1, h2⟩

/-- The run stops at a read, before anything is written. -/
def StopsAtRead {α : Type} (s : State) (r : Except Fault α × State) : Prop :=
  ∃ e t, Loaded s.frames t ∧ r = (.error e, { s with frames := t })

/-- Whether the failure policy of `p` fires, as the handler finds out. -/
theorem failure_reached_spec {m n : FrameNode} {cp : FrameNodeContainer}
    (hc : s.frames.find c = some m) (hp : s.frames.arena p = some cp) (hn : cp.node = n) :
    ∃ r t, exec (SessionCheckpointer.failure_reached p m.status n.frame_policy.on_child_failed) s =
      (r, { s with frames := t }) ∧ Loaded s.frames t ∧
      ∀ o, r = .ok o → (o.isSome ↔ s.frames.Fires p c) := by
  subst hn
  have hfind : s.frames.find p = some cp.node := find_of_arena hp
  have hfailed : s.frames.statusIs FrameStatus.has_failed c = m.status.has_failed := by
    simp [statusIs, hc]
  unfold SessionCheckpointer.failure_reached
  split
  · rename_i err count hst hpol
    obtain ⟨r, t, hr, ht, hq⟩ := exec_loaded (loaded_count_failed_frame_child hp)
    cases r with
    | error e =>
      refine ⟨.error e, t, exec_bind_error hr, ht, by rintro _ ⟨⟩⟩
    | ok k =>
      refine ⟨_, t, exec_bind_ok hr, ht, ?_⟩
      rintro _ ⟨⟩
      rw [hq k rfl]
      have hiff : s.frames.Fires p c ↔ count ≤ s.frames.failedChildren p := by
        constructor
        · rintro ⟨-, n', count', hn', hpol', hle⟩
          rw [hfind] at hn'
          cases hn'
          rw [hpol] at hpol'
          cases hpol'
          exact hle
        · intro hle
          exact ⟨by rw [hfailed, hst]; rfl, cp.node, count, hfind, hpol, hle⟩
      rw [hiff]
      split <;> simp_all
  · rename_i hno
    refine ⟨.ok none, s.frames, rfl, .refl _, ?_⟩
    rintro _ ⟨⟩
    have hnot : ¬ s.frames.Fires p c := by
      rintro ⟨hst, n', count, hn', hpol, -⟩
      rw [hfind] at hn'
      cases hn'
      rw [hfailed] at hst
      cases hm : m.status with
      | Failed err => exact hno err count hm hpol
      | _ => simp [hm, FrameStatus.has_failed] at hst
    simp [hnot]

/-- What `on_child_frame_terminated` can do. Either it stops at a read, or the failure policy
fires, or the policy of the frame decides. -/
theorem child_terminated_cases (self : SessionCheckpointer) (s : State) (p c : FrameId) :
    StopsAtRead s (exec (self.on_child_frame_terminated p c) s) ∨
    ∃ t cp, Loaded s.frames t ∧ s.frames.find p = some cp.node ∧ t.arena p = some cp ∧
      ((s.frames.Fires p c ∧ ∃ err, exec (self.on_child_frame_terminated p c) s =
          exec (mark_failed_frame err p) { s with frames := t }) ∨
        (¬ s.frames.Fires p c ∧ cp.node.frame_policy.resume_policy = .Sequential ∧
          exec (self.on_child_frame_terminated p c) s =
            exec (self.join_sequential p) { s with frames := t }) ∨
        (¬ s.frames.Fires p c ∧ cp.node.frame_policy.resume_policy = .FanIn ∧
          s.frames.AllTerminated p ∧ exec (self.on_child_frame_terminated p c) s =
            exec (self.join_fan_in p) { s with frames := t }) ∨
        (¬ s.frames.Fires p c ∧
          (cp.node.frame_policy.resume_policy = .FanIn ∧ ¬ s.frames.AllTerminated p ∨
            cp.node.frame_policy.resume_policy = .Hitl) ∧
          exec (self.on_child_frame_terminated p c) s = (.ok (), { s with frames := t }))) := by
  unfold SessionCheckpointer.on_child_frame_terminated
  cases hc : s.frames.find c with
  | none =>
    left
    rw [status_of, exec_read_none hc]
    exact ⟨_, s.frames, .refl _, rfl⟩
  | some m =>
  rw [status_of, exec_read hc]
  cases hp : s.frames.find p with
  | none =>
    left
    have hp' : (s.loaded c).frames.find p = none := by rw [State.loaded, find_load, hp]
    rw [policy_of, exec_read_none hp']
    exact ⟨_, s.frames.load c, (Loaded.refl _).load c, rfl⟩
  | some n =>
  have hp' : (s.loaded c).frames.find p = some n := by rw [State.loaded, find_load, hp]
  rw [policy_of, exec_read hp']
  have hload : Loaded s.frames ((s.loaded c).loaded p).frames := ((Loaded.refl _).load c).load p
  obtain ⟨cp, hcp, rfl⟩ := resident_load hp'
  have hc' : ((s.loaded c).loaded p).frames.find c = some m := by rw [hload.find, hc]
  obtain ⟨r, t, hr, ht, hq⟩ := failure_reached_spec hc' hcp rfl
  have ht' : Loaded s.frames t := hload.trans ht
  have hcp' : t.arena p = some cp := ht.arena p cp hcp
  have hfires : ((s.loaded c).loaded p).frames.Fires p c ↔ s.frames.Fires p c := by
    simp only [Fires, hload.statusIs, hload.find, hload.failedChildren]
  cases r with
  | error e =>
    left
    rw [exec_bind_error hr]
    exact ⟨e, t, ht', rfl⟩
  | ok o =>
  have ho := hq o rfl
  rw [hfires] at ho
  rw [exec_bind_ok hr]
  cases o with
  | some count =>
    refine .inr ⟨t, cp, ht', rfl, hcp', .inl ⟨ho.mp rfl, _, rfl⟩⟩
  | none =>
  have hnot : ¬ s.frames.Fires p c := fun h => by simpa using ho.mpr h
  cases hpol : cp.node.frame_policy.resume_policy with
  | Sequential => exact .inr ⟨t, cp, ht', rfl, hcp', .inr (.inl ⟨hnot, hpol, rfl⟩)⟩
  | Hitl => exact .inr ⟨t, cp, ht', rfl, hcp', .inr (.inr (.inr ⟨hnot, .inr hpol, rfl⟩))⟩
  | FanIn =>
    obtain ⟨r, t1, hr1, ht1, hq1⟩ := exec_loaded
      (s := { (s.loaded c).loaded p with frames := t }) (loaded_all_children_have_terminated hcp')
    have ht1' : Loaded s.frames t1 := ht'.trans ht1
    have hcp1 : t1.arena p = some cp := ht1.arena p cp hcp'
    cases r with
    | error e =>
      left
      rw [exec_bind_error hr1]
      exact ⟨e, t1, ht1', rfl⟩
    | ok b =>
      have hb := hq1 b rfl
      rw [ht'.allTerminated] at hb
      rw [exec_bind_ok hr1]
      cases b with
      | true =>
        exact .inr ⟨t1, cp, ht1', rfl, hcp1, .inr (.inr (.inl ⟨hnot, hpol, hb.mp rfl, rfl⟩))⟩
      | false =>
        have hno : ¬ s.frames.AllTerminated p := fun h => by simpa using hb.mpr h
        exact .inr ⟨t1, cp, ht1', rfl, hcp1,
          .inr (.inr (.inr ⟨hnot, .inl ⟨hpol, hno⟩, rfl⟩))⟩

end Inversion

/-! ## The frames that an event acts on -/

def FrameStatus.is_pending : FrameStatus → Bool
  | .Pending => true
  | _ => false

/-- The frames whose status the handler of an event may write, besides those it creates. -/
def ActsOn (s : State) (event : SessionCheckpointEvent) (x : FrameId) : Prop :=
  match event with
  | .FrameCreated f => x = f ∧ s.frames.statusIs FrameStatus.is_pending f
  | .HitlAnswered response => s.frames.get_frame_id_by_hitl_id response.id = some x
  | .FrameRunJobStateUpdate f job_state => x = f ∧ job_state.has_terminated
  | .FrameRunTerminated f =>
    ∃ n response, s.frames.find f = some n ∧ n.status = .RunCompleted response ∧
      (x = f ∨ (∃ branches join, response.result = .Fork branches join) ∧ n.parent = some x)
  | .ChildFrameTerminated p c => x = p ∧ s.frames.Joins p c
  | _ => False

/-- The frame whose log the handler of an event may write. -/
def LogsOn (s : State) (event : SessionCheckpointEvent) (x : FrameId) : Prop :=
  match event with
  | .HitlAnswered response => s.frames.get_frame_id_by_hitl_id response.id = some x
  | .FrameRunTerminated f => x = f
  | .ChildFrameTerminated p _ => x = p
  | _ => False

section Reads

variable {s : State} {f : FrameId} {n : FrameNode} {α β : Type}

theorem within_loaded {b : Nat} {S L : FrameId → Prop} (hb : b ≤ s.frames.next) (f : FrameId) :
    Within b S L s (s.loaded f) := by
  have h : Evolves b S L s.frames s.frames := .refl hb
  exact ⟨h.load f, rfl, rfl⟩

end Reads

/-! ## The law of each handler -/

section Handlers

variable {self : SessionCheckpointer} {s : State}

theorem within_on_frame_created (f : FrameId) :
    Within s.frames.next (ActsOn s (.FrameCreated f)) (LogsOn s (.FrameCreated f)) s
      (exec (self.on_frame_created f) s).2 := by
  unfold SessionCheckpointer.on_frame_created
  cases hf : s.frames.find f with
  | none => rw [status_of, exec_read_none hf]; exact .refl (Nat.le_refl _)
  | some n =>
    rw [status_of, exec_read hf]
    have hload := within_loaded (S := ActsOn s (.FrameCreated f)) (L := LogsOn s (.FrameCreated f))
      (Nat.le_refl s.frames.next) f
    split
    · rename_i hpending
      have hS : ActsOn s (.FrameCreated f) f := by
        refine ⟨rfl, ?_⟩
        simp [statusIs, hf, hpending, FrameStatus.is_pending]
      refine Keeps.run (Q := fun _ => True) ?_ hload
      refine (within_frames (evolves_read f _)).andThen fun policy => ?_
      split
      · exact within_mark_ready_to_run_frame hS
      · exact (SessionCheckpointer.within_append_graph_thread _ _ _).ignore.andThen fun _ =>
          within_mark_as_waiting_children (.inl hS)
      · exact (SessionCheckpointer.within_append_graph_span _ _ _ _).ignore.andThen fun _ =>
          within_mark_as_waiting_children (.inl hS)
      · exact (SessionCheckpointer.within_append_graph_node _ _ _).ignore.andThen fun _ =>
          (within_frames (evolves_set_resume_policy _ _)).andThen fun _ =>
            within_mark_as_waiting_children (.inl hS)
    · exact hload

theorem within_on_hitl_response (response : HitlResponse) :
    Within s.frames.next (ActsOn s (.HitlAnswered response)) (LogsOn s (.HitlAnswered response)) s
      (exec (SessionCheckpointer.on_hitl_response response.id response.answers) s).2 := by
  unfold SessionCheckpointer.on_hitl_response frame_id_bound_to_hitl_id
  rw [exec_bind_ok (exec_frames (exec_asks _ s.frames))]
  cases hf : s.frames.get_frame_id_by_hitl_id response.id with
  | none => exact .refl (Nat.le_refl _)
  | some f =>
    refine Keeps.run (Q := fun _ => True) ?_ (.refl (Nat.le_refl _))
    refine (within_frames (evolves_read f _)).andThen fun o => ?_
    split
    · exact keeps_throw _
    · refine (within_frames (evolves_resolve_log hf _ _)).andThen fun _ => ?_
      exact (within_mark_ready_to_run_frame hf).andThen fun _ => keeps_throw _

theorem within_on_frame_run_update (f : FrameId) (job_state : JobState FrameResponse) :
    Within s.frames.next (ActsOn s (.FrameRunJobStateUpdate f job_state))
      (LogsOn s (.FrameRunJobStateUpdate f job_state)) s
      (exec (SessionCheckpointer.on_frame_run_update f job_state) s).2 := by
  unfold SessionCheckpointer.on_frame_run_update
  split
  · rename_i response
    have hS : ActsOn s (.FrameRunJobStateUpdate f (.Completed response)) f := ⟨rfl, rfl⟩
    refine Keeps.run (Q := fun _ => True) ?_ (.refl (Nat.le_refl _))
    exact (within_mark_frame_run_completed hS _).andThen fun _ => within_emit _
  · rename_i error
    have hS : ActsOn s (.FrameRunJobStateUpdate f (.Failed error)) f := ⟨rfl, rfl⟩
    refine Keeps.run (Q := fun _ => True) ?_ (.refl (Nat.le_refl _))
    exact (within_mark_frame_run_failed hS _).andThen fun _ => within_emit _
  · exact .refl (Nat.le_refl _)

theorem within_on_frame_terminated (f : FrameId) {b : Nat} {S L : FrameId → Prop} :
    Keeps (Within b S L s) (SessionCheckpointer.on_frame_terminated f) (fun _ => True) := by
  unfold SessionCheckpointer.on_frame_terminated
  refine (within_frames (evolves_asks _)).andThen fun o => ?_
  split
  · exact within_emit _
  · exact keeps_pure trivial

/-- Reads alone keep everything. -/
theorem within_of_loaded {b : Nat} {S L : FrameId → Prop} {t : FrameTree} (hb : b ≤ s.frames.next)
    (h : Loaded s.frames t) : Within b S L s { s with frames := t } := by
  refine ⟨⟨by rw [h.next]; exact hb, h.store, ?_, ?_, ?_⟩, rfl, rfl⟩
  · exact fun x c hc => ⟨c, h.arena x c hc⟩
  · exact fun x n hn => ⟨n, by rw [h.find, hn], fun _ => .refl _ _ _⟩
  · exact fun x n' _ hn' => ⟨n', by rw [← h.find, hn']⟩

theorem within_record_run {b : Nat} {S L : FrameId → Prop} {f : FrameId} (h : L f)
    (response : FrameResponse) :
    Keeps (Within b S L s) (self.record_run f response) (fun _ => True) := by
  unfold SessionCheckpointer.record_run SessionCheckpointer.commit_updates
  refine Keeps.andThen (Q := fun _ => True) ?_ fun _ => ?_
  · split
    · exact keeps_pure trivial
    · refine (within_snapshots _).andThen fun x => ?_
      exact (SessionCheckpointer.within_commit_snapshot _ _ _ _).andThen fun _ => keeps_pure trivial
  · split
    · exact keeps_pure trivial
    · exact within_frames (evolves_append_logs h _)

/-- The parent that the dispatch reads is the one the frame had when it was loaded. -/
theorem within_parent_of {b : Nat} {S L : FrameId → Prop} {f : FrameId} {c : FrameNodeContainer}
    (hc : s.frames.arena f = some c) (hlt : f.id < b) :
    Keeps (Within b S L s) (frames (asks (parent_of · f))) (fun o => o = c.node.parent) := by
  refine within_frames (keeps_asks fun t ht => ?_)
  obtain ⟨c', hc'⟩ := ht.resident f c hc
  obtain ⟨n', hn', hk⟩ := ht.node f c.node (find_of_arena hc)
  obtain rfl : c'.node = n' := by simpa [find, hc'] using hn'
  simp [parent_of, hc', (hk hlt).parent]

theorem within_dispatch {b : Nat} {S L : FrameId → Prop} {f : FrameId} {c : FrameNodeContainer}
    {result : FrameResult} (hc : s.frames.arena f = some c) (hlt : f.id < b) (hf : S f)
    (hfork : (∃ branches join, result = .Fork branches join) → ∀ p, c.node.parent = some p → S p) :
    Keeps (Within b S L s) (self.dispatch f result) (fun _ => True) := by
  unfold SessionCheckpointer.dispatch
  cases result with
  | RequestHitl hitl =>
    refine (within_request self hitl).andThen fun id => ?_
    refine (within_frames (evolves_read f _)).andThen fun logs => ?_
    refine (keeps_unpolled _).andThen fun _ => (keeps_unpolled _).andThen fun _ => ?_
    exact within_mark_as_waiting_children (.inl hf)
  | ConsultExperts requests =>
    refine (SessionCheckpointer.within_append_experts_consultations _ _).andThen fun _ => ?_
    refine (keeps_unpolled _).andThen fun _ => ?_
    refine (within_frames (evolves_set_reduce_policy _ _)).andThen fun _ => ?_
    exact within_mark_as_waiting_children (.inl hf)
  | CallTools requests =>
    refine (SessionCheckpointer.within_append_tool_calls _ _).andThen fun _ => ?_
    refine (keeps_unpolled _).andThen fun _ => ?_
    refine (within_frames (evolves_set_reduce_policy _ _)).andThen fun _ => ?_
    exact within_mark_as_waiting_children (.inl hf)
  | ExecuteGraph graph_id =>
    refine (SessionCheckpointer.within_append_graph _ _).andThen fun _ => ?_
    exact within_mark_as_waiting_children (.inl hf)
  | Continue =>
    refine (within_frames (evolves_asks _)).andThen fun o => ?_
    split
    · exact keeps_pure trivial
    · refine (within_frames (evolves_read f _)).andThen fun data => ?_
      split
      · split
        · exact keeps_throw _
        · split
          · exact keeps_pure trivial
          · refine (SessionCheckpointer.within_append_graph_node _ _ _).andThen fun _ => ?_
            exact within_mark_completed_frame hf
      · exact keeps_pure trivial
  | GoTo node_id =>
    refine (within_frames (evolves_asks _)).andThen fun o => ?_
    split
    · exact keeps_pure trivial
    · refine (within_frames (evolves_read f _)).andThen fun data => ?_
      split
      · refine (SessionCheckpointer.within_append_graph_node _ _ _).andThen fun _ => ?_
        exact within_mark_completed_frame hf
      · exact keeps_pure trivial
  | Fork branches join =>
    refine (within_parent_of hc hlt).bind fun o ho => ?_
    subst ho
    split
    · exact keeps_pure trivial
    · rename_i p hp
      refine (within_frames (evolves_read p _)).andThen fun spec_ref => ?_
      split
      · refine (SessionCheckpointer.within_append_graph_span _ _ _ _).andThen fun _ => ?_
        refine (keeps_unpolled _).andThen fun _ => (keeps_unpolled _).andThen fun _ => ?_
        refine (within_mark_as_waiting_children (.inl (hfork ⟨_, _, rfl⟩ p hp))).andThen fun _ => ?_
        exact within_mark_completed_frame hf
      · exact keeps_throw _
  | Completed => exact within_mark_completed_frame hf
  | Failed err => exact within_mark_failed_frame hf err

theorem within_on_frame_run_terminated (f : FrameId) :
    Within s.frames.next (ActsOn s (.FrameRunTerminated f)) (LogsOn s (.FrameRunTerminated f)) s
      (exec (self.on_frame_run_terminated f) s).2 := by
  unfold SessionCheckpointer.on_frame_run_terminated
  cases hf : s.frames.find f with
  | none => rw [status_of, exec_read_none hf]; exact .refl (Nat.le_refl _)
  | some n =>
    rw [status_of, exec_read hf]
    have hload := within_loaded (S := ActsOn s (.FrameRunTerminated f))
      (L := LogsOn s (.FrameRunTerminated f)) (Nat.le_refl s.frames.next) f
    split
    · rename_i response hst
      obtain ⟨c, hc, rfl⟩ := resident_load hf
      have hS : ActsOn s (.FrameRunTerminated f) f := ⟨c.node, response, hf, hst, .inl rfl⟩
      have hL : LogsOn s (.FrameRunTerminated f) f := rfl
      refine hload.trans (Keeps.run (Q := fun _ => True) ?_ (.refl hload.frames.bound))
      refine (within_record_run hL response).andThen fun _ => ?_
      refine within_dispatch (s := s.loaded f) hc (id_lt_next hf) hS ?_
      intro hfork p hp
      exact ⟨c.node, response, hf, hst, .inr ⟨hfork, hp⟩⟩
    · exact hload

theorem within_join_sequential {b : Nat} {S L : FrameId → Prop} {p : FrameId} (hS : S p)
    (hL : L p) : Keeps (Within b S L s) (self.join_sequential p) (fun _ => True) := by
  unfold SessionCheckpointer.join_sequential
  refine (within_frames (evolves_read p _)).andThen fun o => ?_
  split
  · exact within_mark_ready_to_run_frame hS
  · exact (SessionCheckpointer.within_join_last_child hL _).andThen fun _ =>
      SessionCheckpointer.within_resume_frame hS

theorem within_join_fan_in {b : Nat} {S L : FrameId → Prop} {p : FrameId} (hS : S p)
    (hL : L p) : Keeps (Within b S L s) (self.join_fan_in p) (fun _ => True) :=
  (SessionCheckpointer.within_join_children hL).andThen fun _ =>
    SessionCheckpointer.within_resume_frame hS

theorem within_on_child_frame_terminated (p c : FrameId) :
    Within s.frames.next (ActsOn s (.ChildFrameTerminated p c))
      (LogsOn s (.ChildFrameTerminated p c)) s
      (exec (self.on_child_frame_terminated p c) s).2 := by
  have hle := Nat.le_refl s.frames.next
  rcases child_terminated_cases self s p c with
    ⟨e, t, ht, hr⟩ | ⟨t, cp, ht, hfind, hcp, hcase⟩
  · rw [hr]
    exact within_of_loaded hle ht
  · have hL : LogsOn s (.ChildFrameTerminated p c) p := rfl
    have hload := within_of_loaded (S := ActsOn s (.ChildFrameTerminated p c))
      (L := LogsOn s (.ChildFrameTerminated p c)) hle ht
    rcases hcase with ⟨hfires, err, hr⟩ | ⟨-, hpol, hr⟩ | ⟨-, hpol, hall, hr⟩ | ⟨-, -, hr⟩
    · rw [hr]
      have hS : ActsOn s (.ChildFrameTerminated p c) p := ⟨rfl, .inl hfires⟩
      exact (within_mark_failed_frame hS err).run hload
    · rw [hr]
      have hS : ActsOn s (.ChildFrameTerminated p c) p :=
        ⟨rfl, .inr ⟨cp.node, hfind, .inl hpol⟩⟩
      exact (within_join_sequential hS hL).run hload
    · rw [hr]
      have hS : ActsOn s (.ChildFrameTerminated p c) p :=
        ⟨rfl, .inr ⟨cp.node, hfind, .inr ⟨hpol, hall⟩⟩⟩
      exact (within_join_fan_in hS hL).run hload
    · rw [hr]
      exact hload

/-- From `s` to `s'`, the frames evolve, and at most one run of `f` goes to the worker. -/
structure Dispatches (f : FrameId) (S L : FrameId → Prop) (s s' : State) : Prop where
  frames : Evolves s.frames.next S L s.frames s'.frames
  dispatched : s'.dispatched = s.dispatched ∨
    ∃ args, args.frame_id = f ∧ s'.dispatched = s.dispatched ++ [args]
  session_status : s'.session_status = s.session_status

/-- `on_frame_ready` writes no status and no log. -/
theorem dispatches_on_frame_ready (f : FrameId) (S L : FrameId → Prop) :
    Dispatches f S L s (exec (self.on_frame_ready f) s).2 := by
  have hread : ∀ {α : Type} (φ : FrameNode → α),
      Keeps (Within s.frames.next S L s) (frames (do pure (φ (← FrameTree.get f))))
        (fun _ => True) :=
    fun φ => (within_frames (evolves_read f φ)).mono fun _ _ => trivial
  have hstop : ∀ s', Within s.frames.next S L s s' → Dispatches f S L s s' :=
    fun s' h => ⟨h.frames, .inl h.dispatched, h.session_status⟩
  unfold SessionCheckpointer.on_frame_ready SessionCheckpointer.run_frame
  -- up to the call of the worker there are only reads
  refine (within_snapshots _).before hstop ?_ s (.refl (Nat.le_refl _))
  intro snapshot _
  refine (hread (·.logs)).before hstop ?_
  intro logs _
  refine (hread (·.data)).before hstop ?_
  intro data _ s' hs'
  rw [exec_bind_ok (exec_asks _ s'), exec_bind_ok (exec_modify _ s')]
  have hsent : Dispatches f S L s { s' with dispatched := s'.dispatched ++
      [⟨self.session_id, f, snapshot.channels, logs, data⟩] } :=
    ⟨hs'.frames, .inr ⟨_, rfl, by rw [hs'.dispatched]⟩, hs'.session_status⟩
  cases self.spawn s'.dispatched.length ⟨self.session_id, f, snapshot.channels, logs, data⟩ with
  | none => exact hsent
  | some error => exact hsent

/-! ## The law of a step -/

theorem step_eq (self : SessionCheckpointer) (s : State) (event : SessionCheckpointEvent) :
    ∃ session_status, self.step s event =
      { (exec (self.on_event event) s).2 with session_status } := by
  unfold SessionCheckpointer.step SessionCheckpointer.process_event
  rw [exec_tryCatch]
  rcases exec (self.on_event event) s with ⟨_ | _, s'⟩
  · rename_i fault
    cases fault with
    | error error => exact ⟨_, rfl⟩
    | panic message => exact ⟨_, rfl⟩
  · exact ⟨_, rfl⟩

/-- The handlers, but for `on_frame_ready`, leave the worker alone. -/
theorem within_on_event {event : SessionCheckpointEvent} (h : ∀ f, event ≠ .FrameReady f) :
    Within s.frames.next (ActsOn s event) (LogsOn s event) s (exec (self.on_event event) s).2 := by
  cases event with
  | SessionCreated => exact .refl (Nat.le_refl _)
  | HitlAnswered response => exact within_on_hitl_response response
  | FrameCreated f => exact within_on_frame_created f
  | FrameRunJobStateUpdate f job_state => exact within_on_frame_run_update f job_state
  | FrameReady f => exact absurd rfl (h f)
  | FrameRunTerminated f => exact within_on_frame_run_terminated f
  | ChildFrameTerminated p c => exact within_on_child_frame_terminated p c
  | FrameTerminated f => exact (within_on_frame_terminated f).run (.refl (Nat.le_refl _))

/-- An event changes the status of the frames it acts on, and the log of the frames it logs
on; the rest of the tree only grows. -/
theorem step_evolves (self : SessionCheckpointer) (s : State) (event : SessionCheckpointEvent) :
    Evolves s.frames.next (ActsOn s event) (LogsOn s event) s.frames
      (self.step s event).frames := by
  obtain ⟨session_status, hstep⟩ := step_eq self s event
  rw [hstep]
  by_cases hready : ∃ f, event = .FrameReady f
  · obtain ⟨f, rfl⟩ := hready
    exact (dispatches_on_frame_ready f _ _).frames
  · exact (within_on_event fun f hf => hready ⟨f, hf⟩).frames

/-- A handler leaves the status of the session alone. -/
theorem on_event_session_status (self : SessionCheckpointer) (s : State)
    (event : SessionCheckpointEvent) :
    (exec (self.on_event event) s).2.session_status = s.session_status := by
  by_cases hready : ∃ f, event = .FrameReady f
  · obtain ⟨f, rfl⟩ := hready
    exact (dispatches_on_frame_ready f (fun _ => False) (fun _ => False)).session_status
  · exact (within_on_event fun f hf => hready ⟨f, hf⟩).session_status

/-- Only `FrameReady` gives a run to the worker: one of its frame. -/
theorem step_dispatched (self : SessionCheckpointer) (s : State)
    (event : SessionCheckpointEvent) :
    (self.step s event).dispatched = s.dispatched ∨
      ∃ args, event = .FrameReady args.frame_id ∧
        (self.step s event).dispatched = s.dispatched ++ [args] := by
  obtain ⟨session_status, hstep⟩ := step_eq self s event
  rw [hstep]
  by_cases hready : ∃ f, event = .FrameReady f
  · obtain ⟨f, rfl⟩ := hready
    have hready : Dispatches f (fun _ => False) (fun _ => False) s
        (exec (self.on_frame_ready f) s).2 := dispatches_on_frame_ready f _ _
    rcases hready.dispatched with h | ⟨args, rfl, h⟩
    · exact .inl h
    · exact .inr ⟨args, rfl, h⟩
  · exact .inl (within_on_event fun f hf => hready ⟨f, hf⟩).dispatched

end Handlers

end marie.session
