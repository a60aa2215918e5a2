-- What a run of the checkpointer may change. The frames that existed before
-- keep their place in the tree, their spec and their policy; their status and
-- their log change only where the run says so. Each function of the
-- checkpointer has one law here, and the laws of the handlers follow.
import Marie.Session.Runs

namespace marie.session

open Program FrameTree

/-! ## Nodes and trees -/

/-- What stays of a node. Its status may change when `status` holds, its log when `logs`
does; its children only grow. -/
structure Kept (status logs : Prop) (n n' : FrameNode) : Prop where
  status : ¬ status → n'.status = n.status
  logs : ¬ logs → n'.logs = n.logs
  children : n.children <+: n'.children
  parent : n'.parent = n.parent
  frame_policy : n'.frame_policy = n.frame_policy
  spec_ref : n'.spec_ref = n.spec_ref
  data : n'.data = n.data

theorem Kept.refl (status logs : Prop) (n : FrameNode) : Kept status logs n n :=
  ⟨fun _ => rfl, fun _ => rfl, List.prefix_refl _, rfl, rfl, rfl, rfl⟩

theorem Kept.trans {status logs : Prop} {n n' n'' : FrameNode} (h : Kept status logs n n')
    (h' : Kept status logs n' n'') : Kept status logs n n'' where
  status hs := (h'.status hs).trans (h.status hs)
  logs hl := (h'.logs hl).trans (h.logs hl)
  children := h.children.trans h'.children
  parent := h'.parent.trans h.parent
  frame_policy := h'.frame_policy.trans h.frame_policy
  spec_ref := h'.spec_ref.trans h.spec_ref
  data := h'.data.trans h.data

/-- A node that only changes its links, and whose children only grow. -/
theorem Kept.of_bare {status logs : Prop} {n n' : FrameNode} (hb : n'.bare = n.bare)
    (hc : n.children <+: n'.children) (hp : n'.parent = n.parent) : Kept status logs n n' where
  status _ := FrameNode.of_bare (·.status) (fun _ => rfl) hb
  logs _ := FrameNode.of_bare (·.logs) (fun _ => rfl) hb
  children := hc
  parent := hp
  frame_policy := FrameNode.of_bare (·.frame_policy) (fun _ => rfl) hb
  spec_ref := FrameNode.of_bare (·.spec_ref) (fun _ => rfl) hb
  data := FrameNode.of_bare (·.data) (fun _ => rfl) hb

/-- From the tree `t` to the tree `t'`: the frames below `b` are kept, but for the status of
those of `S` and the log of those of `L`. -/
structure Evolves (b : Nat) (S L : FrameId → Prop) (t t' : FrameTree) : Prop where
  bound : b ≤ t'.next
  store : t'.store = t.store
  resident : ∀ x c, t.arena x = some c → ∃ c', t'.arena x = some c'
  node : ∀ x n, t.find x = some n →
    ∃ n', t'.find x = some n' ∧ (x.id < b → Kept (S x) (L x) n n')
  old : ∀ x n', x.id < b → t'.find x = some n' → ∃ n, t.find x = some n

namespace Evolves

variable {b : Nat} {S L : FrameId → Prop} {t t' : FrameTree}

theorem refl (hb : b ≤ t.next) : Evolves b S L t t where
  bound := hb
  store := rfl
  resident _ c h := ⟨c, h⟩
  node _ n h := ⟨n, h, fun _ => .refl _ _ _⟩
  old _ n' _ h := ⟨n', h⟩

theorem trans {t'' : FrameTree} (h : Evolves b S L t t') (h' : Evolves b S L t' t'') :
    Evolves b S L t t'' where
  bound := h'.bound
  store := h'.store.trans h.store
  resident x c hx := by
    obtain ⟨c', hc'⟩ := h.resident x c hx
    exact h'.resident x c' hc'
  node x n hx := by
    obtain ⟨n', hn', hk⟩ := h.node x n hx
    obtain ⟨n'', hn'', hk'⟩ := h'.node x n' hn'
    exact ⟨n'', hn'', fun hlt => (hk hlt).trans (hk' hlt)⟩
  old x n'' hx hn'' := by
    obtain ⟨n', hn'⟩ := h'.old x n'' hx hn''
    exact h.old x n' hx hn'

/-- What is kept of the frames below `b` is kept of those below a smaller bound. -/
theorem lower {b' : Nat} (h : Evolves b S L t t') (hb : b' ≤ b) : Evolves b' S L t t' where
  bound := Nat.le_trans hb h.bound
  store := h.store
  resident := h.resident
  node x n hx := by
    obtain ⟨n', hn', hk⟩ := h.node x n hx
    exact ⟨n', hn', fun hlt => hk (Nat.lt_of_lt_of_le hlt hb)⟩
  old x n' hx := h.old x n' (Nat.lt_of_lt_of_le hx hb)

/-- A frame of `t'` is new, or it was there. -/
theorem cases {x : FrameId} {n' : FrameNode} (h : Evolves t.next S L t t') (hn' : t'.find x = some n') :
    t.next ≤ x.id ∨ ∃ n, t.find x = some n ∧ Kept (S x) (L x) n n' := by
  by_cases hx : t.next ≤ x.id
  · exact .inl hx
  · obtain ⟨n, hn⟩ := h.old x n' (Nat.lt_of_not_le hx) hn'
    obtain ⟨k, hk, hkept⟩ := h.node x n hn
    rw [hn'] at hk
    cases hk
    exact .inr ⟨n, hn, hkept (Nat.lt_of_not_le hx)⟩

theorem load (h : Evolves b S L t t') (id : FrameId) : Evolves b S L t (t'.load id) where
  bound := h.bound
  store := h.store
  resident x c hx := by
    obtain ⟨c', hc'⟩ := h.resident x c hx
    refine ⟨c', ?_⟩
    by_cases hid : x = id
    · subst hid
      simp [FrameTree.load, hc']
    · simp [FrameTree.load, hid, hc']
  node x n hx := by
    rw [find_load]
    exact h.node x n hx
  old x n' hx hn' := by
    rw [find_load] at hn'
    exact h.old x n' hx hn'

theorem edit (h : Evolves b S L t t') {id : FrameId} {f : FrameNode → FrameNode}
    (hf : ∀ n, id.id < b → Kept (S id) (L id) n (f n)) : Evolves b S L t (t'.edit id f) where
  bound := h.bound
  store := h.store
  resident x c hx := by
    obtain ⟨c', hc'⟩ := h.resident x c hx
    by_cases hid : x = id
    · subst hid
      exact ⟨⟨f c'.node, true⟩, by simp [FrameTree.edit, hc']⟩
    · exact ⟨c', by simp [FrameTree.edit, hid, hc']⟩
  node x n hx := by
    obtain ⟨n', hn', hk⟩ := h.node x n hx
    by_cases hid : x = id
    · subst hid
      cases hc : t'.arena x with
      | none =>
        refine ⟨n', ?_, hk⟩
        rw [← hn']
        simp [find, FrameTree.edit, hc]
      | some c =>
        have hnode : c.node = n' := by simpa [find, hc] using hn'
        refine ⟨f n', by rw [find_edit_self hc, hnode], ?_⟩
        intro hlt
        exact (hk hlt).trans (hf n' hlt)
    · exact ⟨n', by rw [find_edit_ne hid]; exact hn', hk⟩
  old x n' hx hn' := by
    by_cases hid : x = id
    · subst hid
      cases hc : t'.arena x with
      | none => exact h.old x n' hx (by simpa [find, FrameTree.edit, hc] using hn')
      | some c => exact h.old x c.node hx (find_of_arena hc)
    · rw [find_edit_ne hid] at hn'
      exact h.old x n' hx hn'

theorem append (h : Evolves b S L t t') (p : FrameId) (args : NewFrameNodeArgs) :
    Evolves b S L t (t'.append p args).2 := by
  have hb := h.bound
  cases hp : t'.arena p with
  | none =>
    obtain ⟨hnext, hstore, harena⟩ := append_orphan hp args
    have hfind : ∀ x : FrameId, x ≠ ⟨t'.next⟩ → (t'.append p args).2.find x = t'.find x := by
      intro x hx
      simp [find, harena x hx, hstore]
    refine ⟨by omega, hstore.trans h.store, ?_, ?_, ?_⟩
    · intro x c hx
      obtain ⟨c', hc'⟩ := h.resident x c hx
      refine ⟨c', ?_⟩
      rw [harena x ?_, hc']
      rintro rfl
      rw [t'.arena_fresh _ (Nat.le_refl _)] at hc'
      cases hc'
    · intro x n hx
      obtain ⟨n', hn', hk⟩ := h.node x n hx
      refine ⟨n', ?_, hk⟩
      rw [hfind x ?_, hn']
      rintro rfl
      exact absurd (id_lt_next hn') (by simp)
    · intro x n' hx hn'
      have hne : x ≠ ⟨t'.next⟩ := by rintro rfl; simp only at hx; omega
      rw [hfind x hne] at hn'
      exact h.old x n' hx hn'
  | some c =>
    have hnext := append_next hp args
    have hstore := append_store hp args
    refine ⟨by omega, hstore.trans h.store, ?_, ?_, ?_⟩
    · intro x cx hx
      obtain ⟨c', hc'⟩ := h.resident x cx hx
      obtain ⟨c'', hc'', -⟩ := append_node hp args hc'
      exact ⟨c'', hc''⟩
    · intro x n hx
      obtain ⟨n', hn', hk⟩ := h.node x n hx
      cases hc : t'.arena x with
      | none =>
        have hne : x ≠ ⟨t'.next⟩ := by
          rintro rfl
          exact absurd (id_lt_next hn') (by simp)
        refine ⟨n', ?_, hk⟩
        rw [find_of_not_resident (append_absent hp args hc hne), hstore,
          ← find_of_not_resident hc, hn']
      | some cx =>
        obtain ⟨c', hc', hbare, hparent, hchildren⟩ := append_node hp args hc
        obtain rfl : cx.node = n' := by simpa [find, hc] using hn'
        refine ⟨c'.node, find_of_arena hc', ?_⟩
        intro hlt
        refine (hk hlt).trans (.of_bare hbare ?_ hparent)
        rw [hchildren]
        split
        · exact List.prefix_append _ _
        · exact List.prefix_refl _
    · intro x n' hx hn'
      have hne : x ≠ ⟨t'.next⟩ := by rintro rfl; simp only at hx; omega
      cases hc : t'.arena x with
      | none =>
        rw [find_of_not_resident (append_absent hp args hc hne), hstore,
          ← find_of_not_resident hc] at hn'
        exact h.old x n' hx hn'
      | some cx => exact h.old x cx.node hx (find_of_arena hc)

end Evolves

/-! ## Calls on the tree -/

/-! A read keeps what a load keeps, and a write what its change keeps. -/

section Loads

variable {I : FrameTree → Prop} (hload : ∀ t id, I t → I (t.load id))
include hload

theorem keeps_get (id : FrameId) : Keeps I (FrameTree.get id) (fun _ => True) := by
  intro t h
  refine ⟨?_, fun _ _ => trivial⟩
  cases hn : t.find id with
  | none => rw [exec_get_none hn]; exact h
  | some n => rw [exec_get hn]; exact hload t id h

/-- A read of a field of a node. -/
theorem keeps_read {α : Type} (id : FrameId) (φ : FrameNode → α) :
    Keeps I (do pure (φ (← FrameTree.get id))) (fun _ => True) :=
  (keeps_get hload id).andThen fun _ => keeps_pure trivial

theorem keeps_write {id : FrameId} {f : FrameNode → FrameNode}
    (hf : ∀ t, I t → I (t.edit id f)) : Keeps I (write id f) (fun _ => True) := by
  unfold write
  exact (keeps_get hload id).andThen fun _ => keeps_modify hf

theorem keeps_common_spec_of (graphs : Graphs) (id : FrameId) :
    Keeps I (common_spec_of graphs id) (fun _ => True) := by
  unfold common_spec_of
  refine (keeps_get hload id).andThen fun n => ?_
  split
  · split
    · exact keeps_pure trivial
    · exact keeps_throw _
  all_goals exact keeps_pure trivial

theorem keeps_try_get (session_id : SessionId) (id : FrameId) :
    Keeps I (try_get session_id id) (fun _ => True) := by
  unfold try_get
  refine (keeps_asks (Q := fun _ => True) fun _ _ => trivial).andThen fun o => ?_
  split
  · exact (keeps_modify fun t h => hload t id h).andThen fun _ => keeps_pure trivial
  · exact keeps_throw _

/-- The setters of a policy write nothing: the call that does is not awaited. -/
theorem keeps_set_resume_policy (id : FrameId) (resume_policy : ResumePolicy) :
    Keeps I (set_resume_policy id resume_policy) (fun _ => True) :=
  (keeps_read hload id _).andThen fun _ => keeps_unpolled _

theorem keeps_set_reduce_policy (id : FrameId) (reduce_policy : ReducePolicy) :
    Keeps I (set_reduce_policy id reduce_policy) (fun _ => True) :=
  (keeps_read hload id _).andThen fun _ => keeps_unpolled _

end Loads

section Tree

variable {b : Nat} {S L : FrameId → Prop} {t : FrameTree} {id : FrameId}

/-- A read of a field of a node. -/
theorem evolves_read {α : Type} (id : FrameId) (φ : FrameNode → α) :
    Keeps (Evolves b S L t) (do pure (φ (← FrameTree.get id))) (fun _ => True) :=
  keeps_read (fun _ id h => h.load id) id φ

theorem evolves_asks {α : Type} (φ : FrameTree → α) :
    Keeps (Evolves b S L t) (asks φ : Tree α) (fun _ => True) :=
  keeps_asks fun _ _ => trivial

theorem evolves_write {f : FrameNode → FrameNode}
    (hf : ∀ n, id.id < b → Kept (S id) (L id) n (f n)) :
    Keeps (Evolves b S L t) (write id f) (fun _ => True) :=
  keeps_write (fun _ id h => h.load id) fun _ h => h.edit hf

/-- A write of what no law is about: the inherited channels and the superstep. -/
theorem evolves_write_inherited {f : FrameNode → FrameNode}
    (hf : ∀ n, ∃ ch k, f n = { n with inherited_channels := ch, superstep := k }) :
    Keeps (Evolves b S L t) (write id f) (fun _ => True) := by
  refine evolves_write fun n _ => ?_
  obtain ⟨ch, k, hn⟩ := hf n
  rw [hn]
  exact ⟨fun _ => rfl, fun _ => rfl, List.prefix_refl _, rfl, rfl, rfl, rfl⟩

theorem evolves_set_status (h : S id ∨ b ≤ id.id) (status : FrameStatus) :
    Keeps (Evolves b S L t) (set_status id status) (fun _ => True) := by
  refine evolves_write fun n hlt => ?_
  have hS : S id := h.resolve_right (by omega)
  exact ⟨fun hs => absurd hS hs, fun _ => rfl, List.prefix_refl _, rfl, rfl, rfl, rfl⟩

theorem evolves_logs (h : L id) (φ : List RunLog → List RunLog) :
    Keeps (Evolves b S L t) (write id (fun n => { n with logs := φ n.logs })) (fun _ => True) :=
  evolves_write fun _ _ =>
    ⟨fun _ => rfl, fun hl => absurd h hl, List.prefix_refl _, rfl, rfl, rfl, rfl⟩

theorem evolves_append_logs (h : L id) (new_logs : List RunLog) :
    Keeps (Evolves b S L t) (append_logs id new_logs) (fun _ => True) := by
  unfold append_logs
  split
  · exact keeps_pure trivial
  · exact evolves_logs h (· ++ new_logs)

theorem evolves_resolve_log (h : L id) (index : Nat) (value : Value) :
    Keeps (Evolves b S L t) (resolve_log id index value) (fun _ => True) :=
  evolves_logs h (resolve_entry index value)

theorem evolves_common_spec_of (graphs : Graphs) (id : FrameId) :
    Keeps (Evolves b S L t) (common_spec_of graphs id) (fun _ => True) :=
  keeps_common_spec_of (fun _ id h => h.load id) graphs id

theorem evolves_try_get (session_id : SessionId) (id : FrameId) :
    Keeps (Evolves b S L t) (try_get session_id id) (fun _ => True) :=
  keeps_try_get (fun _ id h => h.load id) session_id id

theorem evolves_set_resume_policy (id : FrameId) (resume_policy : ResumePolicy) :
    Keeps (Evolves b S L t) (set_resume_policy id resume_policy) (fun _ => True) :=
  keeps_set_resume_policy (fun _ id h => h.load id) id resume_policy

theorem evolves_set_reduce_policy (id : FrameId) (reduce_policy : ReducePolicy) :
    Keeps (Evolves b S L t) (set_reduce_policy id reduce_policy) (fun _ => True) :=
  keeps_set_reduce_policy (fun _ id h => h.load id) id reduce_policy

end Tree

/-! ## Calls of the checkpointer -/

/-- From the state `s` to the state `s'`: the frames evolve, and nothing goes to the worker. -/
structure Within (b : Nat) (S L : FrameId → Prop) (s s' : State) : Prop where
  frames : Evolves b S L s.frames s'.frames
  dispatched : s'.dispatched = s.dispatched
  session_status : s'.session_status = s.session_status

section Checkpointer

variable {b : Nat} {S L : FrameId → Prop} {s : State} {f p : FrameId}

theorem Within.refl (hb : b ≤ s.frames.next) : Within b S L s s := ⟨.refl hb, rfl, rfl⟩

theorem Within.trans {s' s'' : State} (h : Within b S L s s') (h' : Within b S L s' s'') :
    Within b S L s s'' :=
  ⟨h.frames.trans h'.frames, h'.dispatched.trans h.dispatched,
    h'.session_status.trans h.session_status⟩

theorem within_frames {α : Type} {m : Tree α} {Q : α → Prop}
    (h : Keeps (Evolves b S L s.frames) m Q) : Keeps (Within b S L s) (frames m) Q := by
  intro s' hs
  obtain ⟨h1, h2⟩ := h s'.frames hs.frames
  exact ⟨⟨h1, hs.dispatched, hs.session_status⟩, h2⟩

theorem within_snapshots {α : Type} (m : Snaps α) :
    Keeps (Within b S L s) (snapshots m) (fun _ => True) :=
  fun _ hs => ⟨⟨hs.frames, hs.dispatched, hs.session_status⟩, fun _ _ => trivial⟩

theorem within_emit (event : SessionCheckpointEvent) :
    Keeps (Within b S L s) (emit event) (fun _ => True) :=
  keeps_modify fun _ hs => ⟨hs.frames, hs.dispatched, hs.session_status⟩

theorem within_next_id : Keeps (Within b S L s) next_id (fun _ => True) :=
  (keeps_asks (Q := fun _ => True) fun _ _ => trivial).andThen fun _ =>
    (keeps_modify fun _ hs => ⟨hs.frames, hs.dispatched, hs.session_status⟩).andThen fun _ =>
      keeps_pure trivial

theorem within_request (self : SessionCheckpointer) (hitl : Hitl) :
    Keeps (Within b S L s) (self.request hitl) (fun _ => True) := by
  refine within_next_id.andThen fun id => ?_
  split
  · refine (keeps_modify fun _ hs => ?_).andThen fun _ => keeps_pure trivial
    exact ⟨hs.frames, hs.dispatched, hs.session_status⟩
  · exact keeps_throw _

/-! ### Marks -/

theorem within_set_status (h : S f ∨ b ≤ f.id) (status : FrameStatus) :
    Keeps (Within b S L s) (frames (set_status f status)) (fun _ => True) :=
  within_frames (evolves_set_status h status)

theorem within_mark_as_waiting_children (h : S f ∨ b ≤ f.id) :
    Keeps (Within b S L s) (mark_as_waiting_children f) (fun _ => True) :=
  within_set_status h _

theorem within_mark_frame_run_completed (h : S f) (response : FrameResponse) :
    Keeps (Within b S L s) (mark_frame_run_completed f response) (fun _ => True) :=
  (within_set_status (.inl h) _).andThen fun _ => within_emit _

theorem within_mark_frame_run_failed (h : S f) (error : WorkerError) :
    Keeps (Within b S L s) (mark_frame_run_failed f error) (fun _ => True) :=
  (within_set_status (.inl h) _).andThen fun _ => within_emit _

theorem within_mark_ready_to_run_frame (h : S f) :
    Keeps (Within b S L s) (mark_ready_to_run_frame f) (fun _ => True) :=
  (within_set_status (.inl h) _).andThen fun _ => within_emit _

theorem within_mark_failed_frame (h : S f) (err : String) :
    Keeps (Within b S L s) (mark_failed_frame err f) (fun _ => True) :=
  (within_set_status (.inl h) _).andThen fun _ => within_emit _

theorem within_mark_completed_frame (h : S f) :
    Keeps (Within b S L s) (mark_completed_frame f) (fun _ => True) := by
  unfold mark_completed_frame
  refine (within_set_status (.inl h) _).andThen fun _ => (within_emit _).andThen fun _ => ?_
  refine (within_frames (evolves_asks _)).andThen fun o => ?_
  split
  · exact within_emit _
  · exact keeps_pure trivial

namespace SessionCheckpointer

variable {self : SessionCheckpointer}

/-! ### New frames -/

theorem within_write_to_inherited_channels (f : FrameId) (values : List (ChannelName × Value)) :
    Keeps (Within b S L s) (self.write_to_inherited_channels f values) (fun _ => True) := by
  unfold write_to_inherited_channels
  refine (within_frames (evolves_common_spec_of _ f)).andThen fun spec => ?_
  refine (within_frames (evolves_try_get _ f)).andThen fun _ => ?_
  exact within_frames (evolves_write_inherited fun n => ⟨_, n.superstep, rfl⟩)

theorem within_inherit_from (source f : FrameId) :
    Keeps (Within b S L s) (self.inherit_from source f) (fun _ => True) := by
  unfold inherit_from
  refine (within_snapshots _).andThen fun x => ?_
  refine (within_frames (evolves_common_spec_of _ f)).andThen fun spec => ?_
  exact within_frames (evolves_write_inherited fun n => ⟨_, x.superstep, rfl⟩)

/-- The choice of the source keeps what the copy from each source keeps. -/
theorem keeps_inherit_channels {I : State → Prop} {policy : FramePolicy} {p f : FrameId}
    (h : ∀ source, Keeps I (self.inherit_from source f) (fun _ => True)) :
    Keeps I (self.inherit_channels policy p f) (fun _ => True) := by
  have hasks : ∀ {α : Type} (φ : FrameTree → α), Keeps I (frames (asks φ)) (fun _ => True) :=
    fun _ _ hs => ⟨hs, fun _ _ => trivial⟩
  have hparent : Keeps I (self.inherit_from_parent f) (fun _ => True) := by
    unfold inherit_from_parent
    refine (hasks _).andThen fun o => ?_
    split
    · exact h _
    · exact keeps_pure trivial
  have hsibling : Keeps I (self.inherit_from_prev_sibling f) (fun _ => True) := by
    unfold inherit_from_prev_sibling
    refine (hasks _).andThen fun o => ?_
    split
    · exact h _
    · exact keeps_pure trivial
  unfold inherit_channels
  split
  · refine (hasks _).andThen fun ids => ?_
    split
    · exact hsibling
    · exact hparent
  · exact hparent

theorem within_inherit_channels (policy : FramePolicy) (p f : FrameId) :
    Keeps (Within b S L s) (self.inherit_channels policy p f) (fun _ => True) := by
  exact keeps_inherit_channels fun source => within_inherit_from source f

/-- A new frame is not one of those below `b`. -/
theorem within_append_frame (p : FrameId) (args : NewFrameNodeArgs) :
    Keeps (Within b S L s) (self.append_frame p args) (fun id => b ≤ id.id) := by
  unfold append_frame
  refine (keeps_asks (Q := fun t : FrameTree => b ≤ t.next) fun _ hs => hs.frames.bound).bind
    fun t ht => ?_
  refine (keeps_modify fun _ hs => ⟨hs.frames.append p args, hs.dispatched,
    hs.session_status⟩).andThen fun _ => ?_
  refine (within_frames (evolves_read p _)).andThen fun policy => ?_
  refine (within_frames (evolves_common_spec_of _ _)).andThen fun spec => ?_
  refine (within_frames (evolves_write_inherited fun n => ⟨_, n.superstep, rfl⟩)).andThen
    fun _ => ?_
  refine (within_inherit_channels _ _ _).andThen fun _ => (within_emit _).andThen fun _ => ?_
  exact keeps_pure ht

theorem within_append_graph_node (p : FrameId) (graph_ref : GraphRef) (node_id : NodeId) :
    Keeps (Within b S L s) (self.append_graph_node p graph_ref node_id) (fun _ => True) :=
  (within_append_frame _ _).andThen fun _ => keeps_pure trivial

theorem within_append_graph_thread (p : FrameId) (graph_ref : GraphRef) (start : NodeId) :
    Keeps (Within b S L s) (self.append_graph_thread p graph_ref start) (fun _ => True) := by
  unfold append_graph_thread
  refine (within_append_frame _ _).bind fun id hid => ?_
  refine (within_mark_as_waiting_children (.inr hid)).andThen fun _ => ?_
  exact (within_append_graph_node _ _ _).andThen fun _ => keeps_pure trivial

theorem within_append_graph_span (p : FrameId) (graph_ref : GraphRef) (branches : List Branch)
    (join : NodeId) :
    Keeps (Within b S L s) (self.append_graph_span p graph_ref branches join) (fun _ => True) := by
  unfold append_graph_span
  refine (within_append_frame _ _).bind fun id hid => ?_
  refine (within_mark_as_waiting_children (.inr hid)).andThen fun _ => ?_
  refine keeps_forM branches fun branch _ => ?_
  unfold append_branch
  refine (within_append_graph_thread _ _ _).andThen fun thread => ?_
  split
  · exact keeps_pure trivial
  · exact within_write_to_inherited_channels _ _

theorem within_append_graph (p : FrameId) (graph_id : GraphId) :
    Keeps (Within b S L s) (self.append_graph p graph_id) (fun _ => True) := by
  unfold append_graph
  split
  · exact keeps_throw _
  · exact keeps_throw _
  · split
    · exact keeps_throw _
    · refine (within_append_frame _ _).bind fun id hid => ?_
      exact within_mark_as_waiting_children (.inr hid)

theorem within_append_experts_consultations (p : FrameId) (requests : List RequestAskExpert) :
    Keeps (Within b S L s) (self.append_experts_consultations p requests) (fun _ => True) := by
  refine keeps_forM requests fun request _ => ?_
  exact (within_append_frame _ _).andThen fun _ => keeps_unpolled _

theorem within_append_tool_calls (p : FrameId) (requests : List RequestToolCall) :
    Keeps (Within b S L s) (self.append_tool_calls p requests) (fun _ => True) := by
  unfold append_tool_calls append_tool_aggregator
  refine Keeps.andThen (Q := fun _ => True) ?_ fun agg => ?_
  · refine (within_append_frame _ _).bind fun id hid => ?_
    exact (within_mark_as_waiting_children (.inr hid)).andThen fun _ => keeps_pure trivial
  · refine keeps_forM requests fun request _ => ?_
    exact within_next_id.andThen fun _ =>
      (within_append_frame _ _).andThen fun _ => keeps_pure trivial

/-! ### Joins -/

theorem within_drain_pending_accumulators (f : FrameId) (relevants : List FrameId) :
    Keeps (Within b S L s) (self.drain_pending_accumulators f relevants) (fun _ => True) := by
  unfold drain_pending_accumulators
  refine (within_frames (evolves_common_spec_of _ _)).andThen fun spec => ?_
  refine (keeps_foldlM relevants [] fun m x _ => ?_).andThen fun _ => keeps_pure trivial
  unfold drain_child
  refine (within_frames (evolves_common_spec_of _ _)).andThen fun _ => ?_
  exact (within_snapshots _).andThen fun _ => keeps_pure trivial

theorem within_commit_snapshot (f : FrameId) (expected : Nat) (updates : List ChannelUpdate)
    (join_sources : List SnapshotRef) :
    Keeps (Within b S L s) (self.commit_snapshot f expected updates join_sources)
      (fun _ => True) := by
  unfold commit_snapshot
  refine (within_snapshots _).andThen fun last => ?_
  split
  · exact keeps_throw _
  · refine Keeps.andThen (Q := fun _ => True) ?_ fun channels => ?_
    · unfold apply_updates
      split
      · exact keeps_pure trivial
      · exact (within_frames (evolves_common_spec_of _ _)).andThen fun _ => keeps_pure trivial
    · split
      · exact keeps_throw _
      · unfold push
        refine (within_snapshots _).andThen fun ref => ?_
        refine (keeps_modify fun s' hs => ?_).andThen fun _ => keeps_pure trivial
        split
        · exact ⟨hs.frames, hs.dispatched, hs.session_status⟩
        · exact hs

theorem within_resolve_pending_log (h : L f) (relevants : List FrameId) :
    Keeps (Within b S L s) (self.resolve_pending_log f relevants) (fun _ => True) := by
  unfold resolve_pending_log
  refine (within_frames (evolves_read f _)).andThen fun o => ?_
  split
  · rename_i pending
    induction relevants with
    | nil => exact keeps_pure trivial
    | cons x relevants ih =>
      unfold resolve_from
      refine (within_frames (evolves_read x _)).andThen fun spec_ref => ?_
      refine (within_snapshots _).andThen fun snapshot => ?_
      refine Keeps.andThen (Q := fun _ => True) ?_ fun value => ?_
      · unfold resolved_by
        split
        · exact keeps_pure trivial
        · exact keeps_pure trivial
        · exact keeps_pure trivial
        · exact (within_frames (evolves_common_spec_of _ _)).andThen fun _ => keeps_pure trivial
        · exact keeps_pure trivial
      · split
        · exact within_frames (evolves_resolve_log h _ _)
        · exact ih
  · exact keeps_pure trivial

/-- A join writes the log of `f` alone. -/
theorem within_commit_last_child (h : L f) (last_child : FrameId) :
    Keeps (Within b S L s) (self.commit_last_child f last_child) (fun _ => True) := by
  unfold commit_last_child
  refine (within_snapshots _).andThen fun x => (within_snapshots _).andThen fun y => ?_
  refine (within_drain_pending_accumulators _ _).andThen fun updates => ?_
  refine (within_commit_snapshot _ _ _ _).andThen fun _ => ?_
  exact within_resolve_pending_log h _

theorem within_join_last_child (h : L f) (last_child : FrameId) :
    Keeps (Within b S L s) (self.join_last_child f last_child) (fun _ => True) := by
  unfold join_last_child
  refine (within_frames (evolves_read _ _)).andThen fun status => ?_
  split
  · exact within_commit_last_child h _
  · exact keeps_pure trivial

theorem within_join_children (h : L f) :
    Keeps (Within b S L s) (self.join_children f) (fun _ => True) := by
  unfold join_children
  refine (within_snapshots _).andThen fun x => ?_
  refine (within_frames (evolves_asks _)).andThen fun ids => ?_
  refine (keeps_filterM ids fun y _ => ?_).andThen fun relevants => ?_
  · exact (within_frames (evolves_read y _)).andThen fun _ => keeps_pure trivial
  refine (keeps_mapM relevants fun y _ => ?_).andThen fun sources => ?_
  · exact (within_snapshots _).andThen fun _ => keeps_pure trivial
  refine (within_drain_pending_accumulators _ _).andThen fun updates => ?_
  refine (within_commit_snapshot _ _ _ _).andThen fun _ => ?_
  exact within_resolve_pending_log h _

theorem within_resume_frame (h : S f) :
    Keeps (Within b S L s) (resume_frame f) (fun _ => True) := by
  unfold resume_frame
  have hread : Keeps (Evolves b S L s.frames) (on_resume_policy f) (fun _ => True) :=
    (evolves_read f _).andThen fun _ => keeps_pure trivial
  refine (within_frames hread).andThen fun policy => ?_
  split
  · exact within_mark_ready_to_run_frame h
  · exact within_mark_completed_frame h

end SessionCheckpointer

end Checkpointer

end marie.session
