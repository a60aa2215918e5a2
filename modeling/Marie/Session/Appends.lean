-- When a frame can be appended. A new frame takes its channels from the last
-- snapshot of its parent, or of the child before it. When that snapshot is not
-- there the call stops, and the frame is in the tree all the same.
import Marie.Session.WaitingFrames

namespace marie.session

open Program FrameTree

/-! ## Where a new frame takes its channels from -/

/-- The frame whose last snapshot a new child of `p` takes its channels from. A parent that
is not in the cache gets no child, and the new frame takes nothing. -/
def FrameTree.sourceFor (t : FrameTree) (p : FrameId) : Option FrameId :=
  (t.arena p).bind fun c =>
    if c.node.frame_policy.resume_policy = .Sequential then c.node.children.getLast? else some p

/-- The store has a snapshot of `x`. -/
def HasSnapshot (s : State) (x : FrameId) : Prop := ∃ y, s.snapshots.last x = some y

/-- A frame with this spec can be appended to `p`. -/
structure CanAppend (ckp : SessionCheckpointer) (s : State) (p : FrameId)
    (spec_ref : FrameSpecRef) : Prop where
  parent : ∃ n, s.frames.find p = some n
  spec : ∃ spec, spec_of_ref ckp.graphs spec_ref = some spec
  source : ∀ q, s.frames.sourceFor p = some q → HasSnapshot s q

/-! ## What an append depends on -/

/-- The fields of a node that an append reads. -/
def FrameNode.host (n : FrameNode) :
    FramePolicy × FrameSpecRef × Option FrameId × Option FrameId × List FrameId :=
  (n.frame_policy, n.spec_ref, n.parent, n.prev_sibling, n.children)

/-- Nothing that an append depends on changes, but that more nodes may be in the cache. -/
structure SameHosts (s s' : State) : Prop where
  next : s'.frames.next = s.frames.next
  last : ∀ x, s'.snapshots.last x = s.snapshots.last x
  node : ∀ x, (s'.frames.find x).map FrameNode.host = (s.frames.find x).map FrameNode.host
  resident : ∀ x c, s.frames.arena x = some c → ∃ c', s'.frames.arena x = some c'

section SameHosts

variable {s s' s'' : State} {x : FrameId}

theorem SameHosts.refl (s : State) : SameHosts s s :=
  ⟨rfl, fun _ => rfl, fun _ => rfl, fun _ c h => ⟨c, h⟩⟩

theorem SameHosts.trans (h : SameHosts s s') (h' : SameHosts s' s'') : SameHosts s s'' where
  next := h'.next.trans h.next
  last x := (h'.last x).trans (h.last x)
  node x := (h'.node x).trans (h.node x)
  resident x c hc := by
    obtain ⟨c', hc'⟩ := h.resident x c hc
    exact h'.resident x c' hc'

theorem SameHosts.found (h : SameHosts s s') {n : FrameNode} (hn : s.frames.find x = some n) :
    ∃ n', s'.frames.find x = some n' ∧ n'.host = n.host := by
  have hx := h.node x
  rw [hn, Option.map_some] at hx
  exact Option.map_eq_some_iff.mp hx

/-- A node of the cache stays there, and keeps what an append reads. -/
theorem SameHosts.arena (h : SameHosts s s') {c : FrameNodeContainer}
    (hc : s.frames.arena x = some c) :
    ∃ c', s'.frames.arena x = some c' ∧ c'.node.host = c.node.host := by
  obtain ⟨c', hc'⟩ := h.resident x c hc
  obtain ⟨n', hn', hhost⟩ := h.found (find_of_arena hc)
  rw [find_of_arena hc'] at hn'
  cases hn'
  exact ⟨c', hc', hhost⟩

theorem SameHosts.hasSnapshot (h : SameHosts s s') : HasSnapshot s' x ↔ HasSnapshot s x := by
  unfold HasSnapshot
  rw [h.last]

/-- A change of the frames alone. -/
theorem SameHosts.of_frames {t : FrameTree} (hnext : t.next = s.frames.next)
    (hnode : ∀ x, (t.find x).map FrameNode.host = (s.frames.find x).map FrameNode.host)
    (hresident : ∀ x c, s.frames.arena x = some c → ∃ c', t.arena x = some c') :
    SameHosts s { s with frames := t } :=
  ⟨hnext, fun _ => rfl, hnode, hresident⟩

theorem sameHosts_loaded (s : State) (f : FrameId) : SameHosts s (s.loaded f) :=
  .of_frames rfl (fun x => by rw [find_load]) fun x c hc =>
    ⟨c, ((Loaded.refl s.frames).load f).arena x c hc⟩

/-- A write that leaves what an append reads. -/
theorem sameHosts_write {f : FrameId} {φ : FrameNode → FrameNode}
    (hφ : ∀ n, (φ n).host = n.host) (s : State) :
    SameHosts s { s with frames := (s.frames.load f).edit f φ } := by
  refine .of_frames rfl (fun x => ?_) fun x c hc => ?_
  · cases hn : s.frames.find f with
    | some n =>
      rw [find_write hn]
      split
      · subst x
        simp [hn, hφ]
      · rfl
    | none =>
      rw [← find_load s.frames f x]
      by_cases hx : x = f
      · subst hx
        have hnone : (s.frames.load x).find x = none := by rw [find_load, hn]
        cases hc : (s.frames.load x).arena x with
        | none => simp [find, edit, hc]
        | some c => rw [find_of_arena hc] at hnone; cases hnone
      · rw [find_edit_ne hx]
  · have hload := ((Loaded.refl s.frames).load f).arena x c hc
    by_cases hx : x = f
    · subst hx
      exact ⟨⟨φ c.node, true⟩, by simp [edit, hload]⟩
    · exact ⟨c, by simp [edit, hx, hload]⟩

/-- A snapshot that enters the cache. -/
theorem sameHosts_insert (s : State) (ref : SnapshotRef) (k : SnapshotContainer) :
    SameHosts s { s with snapshots := s.snapshots.insert ref k } :=
  ⟨rfl, fun _ => rfl, fun _ => rfl, fun _ c h => ⟨c, h⟩⟩

theorem sameHosts_emits (s : State) (events : List SessionCheckpointEvent) :
    SameHosts s (s.emits events) :=
  ⟨rfl, fun _ => rfl, fun _ => rfl, fun _ c h => ⟨c, h⟩⟩

theorem sameHosts_marked (s : State) (f : FrameId) (status : FrameStatus) :
    SameHosts s (s.marked f status) :=
  sameHosts_write (φ := fun n => { n with status }) (fun _ => rfl) s

end SameHosts

/-! ## The new node -/

section Append

variable {t : FrameTree} {p : FrameId} {c : FrameNodeContainer}

/-- The new node stands after the last child of its parent. -/
theorem append_prev_sibling (hp : t.arena p = some c) (args : NewFrameNodeArgs) :
    (t.append p args).2.prev_sibling_of ⟨t.next⟩ = c.node.children.getLast? := by
  have hne : (⟨t.next⟩ : FrameId) ≠ p := by
    rintro rfl
    rw [t.arena_fresh _ (Nat.le_refl _)] at hp
    cases hp
  have hself := t.created_arena_self args
  rw [append_eq hp]
  unfold linkLast
  cases hlast : c.node.children.getLast? with
  | none => simp [prev_sibling_of, edit, hne, hself]
  | some q =>
    by_cases hq : (⟨t.next⟩ : FrameId) = q
    · simp [prev_sibling_of, link_siblings, edit, hne, ← hq, hself]
    · simp [prev_sibling_of, link_siblings, edit, hne, hq, hself]

/-- A parent that is not in the cache is not linked to the new node. -/
theorem append_eq_created (hp : t.arena p = none) (hne : p ≠ ⟨t.next⟩)
    (args : NewFrameNodeArgs) : (t.append p args).2 = t.created args := by
  have hp' : (t.created args).arena p = none := by rw [created_arena_ne args hne, hp]
  change insert_child (t.created args) p ⟨t.next⟩ _ = _
  unfold insert_child
  simp only [detach_created, hp']

/-- The links of the new node, as the source of its channels has them. -/
theorem append_links {n : FrameNode} (hp : t.find p = some n) (args : NewFrameNodeArgs) :
    ∃ k, (t.append p args).2.arena ⟨t.next⟩ = some ⟨k, true⟩ ∧
      k.bare = (FrameNode.new ⟨t.next⟩ args).bare ∧ k.children = [] ∧
      ((t.arena p = none ∧ k.parent = none ∧ k.prev_sibling = none) ∨
        ∃ c, t.arena p = some c ∧ k.parent = some p ∧
          k.prev_sibling = c.node.children.getLast?) := by
  cases hc : t.arena p with
  | some c =>
    obtain ⟨k, hk, hbare, hparent, hchildren⟩ := append_new hc args
    have hprev := append_prev_sibling hc args
    simp only [prev_sibling_of, hk, Option.bind_some] at hprev
    exact ⟨k, hk, hbare, hchildren, .inr ⟨c, rfl, hparent, hprev⟩⟩
  | none =>
    have hne : p ≠ ⟨t.next⟩ := by
      rintro rfl
      exact absurd (id_lt_next hp) (by simp)
    rw [append_eq_created hc hne]
    exact ⟨_, t.created_arena_self args, rfl, rfl, .inl ⟨rfl, rfl, rfl⟩⟩

/-- A node that was there is there after `append`, with one more child if it is the parent. -/
theorem append_kept {n : FrameNode} (hp : t.find p = some n) (args : NewFrameNodeArgs) :
    (∀ x m, t.find x = some m → ∃ m', (t.append p args).2.find x = some m' ∧
      m'.frame_policy = m.frame_policy ∧ m'.spec_ref = m.spec_ref ∧ m'.status = m.status ∧
      m'.data = m.data ∧ m'.parent = m.parent) ∧
    (∀ x c, t.arena x = some c → ∃ c', (t.append p args).2.arena x = some c' ∧
      c'.node.frame_policy = c.node.frame_policy ∧
      c'.node.children = if x = p then c.node.children ++ [⟨t.next⟩] else c.node.children) := by
  have hlt := id_lt_next hp
  cases hc : t.arena p with
  | none =>
    obtain ⟨-, hstore, harena⟩ := append_orphan hc args
    refine ⟨fun x m hm => ⟨m, ?_, rfl, rfl, rfl, rfl, rfl⟩, fun x c hx => ⟨c, ?_, rfl, ?_⟩⟩
    · have hne : x ≠ ⟨t.next⟩ := by
        rintro rfl
        exact absurd (id_lt_next hm) (by simp)
      rw [← hm]
      simp [find, harena x hne, hstore]
    · rw [harena x ?_, hx]
      rintro rfl
      rw [t.arena_fresh _ (Nat.le_refl _)] at hx
      cases hx
    · rw [if_neg]
      rintro rfl
      rw [hc] at hx
      cases hx
  | some cp =>
    refine ⟨fun x m hm => ?_, fun x c hx => ?_⟩
    · have hevolves := (Evolves.refl (S := fun _ => False) (L := fun _ => False)
        (Nat.le_refl t.next)).append p args
      obtain ⟨m', hm', hkept⟩ := hevolves.node x m hm
      have hk := hkept (id_lt_next hm)
      exact ⟨m', hm', hk.frame_policy, hk.spec_ref, hk.status id, hk.data, hk.parent⟩
    · obtain ⟨c', hc', hbare, -, hchildren⟩ := append_node hc args hx
      exact ⟨c', hc', FrameNode.of_bare (·.frame_policy) (fun _ => rfl) hbare, hchildren⟩

end Append

/-! ## The run of an append -/

/-- What a call that appended `⟨s.frames.next⟩` to `p` leaves. -/
structure Appended (p : FrameId) (args : NewFrameNodeArgs) (s s' : State) : Prop where
  next : s'.frames.next = s.frames.next + 1
  last : ∀ x, s'.snapshots.last x = s.snapshots.last x
  found : ∀ x n, s.frames.find x = some n →
    ∃ n', s'.frames.find x = some n' ∧ n'.spec_ref = n.spec_ref
  kept : ∀ x c, s.frames.arena x = some c → ∃ c', s'.frames.arena x = some c' ∧
    c'.node.frame_policy = c.node.frame_policy ∧
    c'.node.children = if x = p then c.node.children ++ [⟨s.frames.next⟩] else c.node.children
  new : ∃ c, s'.frames.arena ⟨s.frames.next⟩ = some c ∧ c.node.frame_policy = args.frame_policy ∧
    c.node.spec_ref = args.spec_ref ∧ c.node.children = []

section Runs

variable {self : SessionCheckpointer} {s : State} {p q f : FrameId}

theorem exec_common_spec_of_none {t : FrameTree} {graphs : Graphs} {n : FrameNode}
    (hn : t.find f = some n) (h : spec_of_ref graphs n.spec_ref = none) :
    exec (common_spec_of graphs f) t =
      (.error (.panic "called Result::unwrap() on an Err value"), t.load f) := by
  unfold common_spec_of
  rw [exec_bind_ok (exec_get hn)]
  cases hr : n.spec_ref with
  | Graph graph_ref =>
    simp only [hr, spec_of_ref, Option.map_eq_none_iff] at h
    cases hg : graphs.get graph_ref with
    | ok g => simp [hg, Except.toOption] at h
    | error e =>
      simp only [hg]
      rfl
  | _ => simp [hr, spec_of_ref] at h

/-- What a frame takes from a source whose last snapshot is `x`. -/
theorem exec_inherit_from_last {spec : CommonSpec} {x : Snapshot}
    (hx : s.snapshots.last q = some x) (hspec : spec_at self.graphs s.frames f = some spec) :
    ∃ s', exec (self.inherit_from q f) s = (.ok (), s') ∧ SameHosts s s' ∧
      ∀ n, s.frames.find f = some n → s'.frames.find f =
        some { n.extend_inherited (restrict spec.inherited_channels x.channels) with
          superstep := x.superstep } := by
  obtain ⟨n, hn, -⟩ := Option.bind_eq_some_iff.mp hspec
  have hn' : (s.frames.load f).find f = some n := by rw [find_load, hn]
  let s1 : State := { s with snapshots := s.snapshots.insert x.ref ⟨x, false⟩ }
  have hread : exec (frames (common_spec_of self.graphs f)) s1 = (.ok spec, s1.loaded f) :=
    exec_frames (exec_common_spec_of hspec)
  unfold SessionCheckpointer.inherit_from
  rw [exec_bind_ok (exec_snapshots (SessionSnapshots.exec_latest hx)), exec_bind_ok hread]
  refine ⟨_, exec_frames (exec_write hn'), ?_, ?_⟩
  · refine ((sameHosts_insert s x.ref ⟨x, false⟩).trans (sameHosts_loaded s1 f)).trans
      (sameHosts_write ?_ (s1.loaded f))
    exact fun _ => rfl
  · intro m hm
    obtain rfl := Option.some.inj (hn.symm.trans hm)
    have hwrite := find_write (f := fun n =>
      { n.extend_inherited (restrict spec.inherited_channels x.channels) with
        superstep := x.superstep }) hn' f
    rw [if_pos rfl] at hwrite
    exact hwrite

/-- What a frame takes from a source that has a snapshot. -/
theorem exec_inherit_from {spec : CommonSpec} (hq : HasSnapshot s q)
    (hspec : spec_at self.graphs s.frames f = some spec) :
    ∃ s', exec (self.inherit_from q f) s = (.ok (), s') ∧ SameHosts s s' := by
  obtain ⟨x, hx⟩ := hq
  obtain ⟨s', hrun, hsame, -⟩ := exec_inherit_from_last hx hspec
  exact ⟨s', hrun, hsame⟩

theorem not_succeeds_inherit_from (hq : ¬ HasSnapshot s q) :
    ¬ Succeeds (self.inherit_from q f) s := by
  unfold SessionCheckpointer.inherit_from
  refine not_succeeds_bind (not_succeeds_of_eq (exec_snapshots (SessionSnapshots.exec_latest_none ?_)))
  cases hx : s.snapshots.last q with
  | none => rfl
  | some x => exact absurd ⟨x, hx⟩ hq

/-- The call that takes the channels of a linked frame reads its source. -/
theorem exec_inherit_channels {policy : FramePolicy} {k : FrameNode} {d : Bool}
    (hk : s.frames.arena f = some ⟨k, d⟩) {c : FrameNodeContainer}
    (hp : s.frames.arena p = some c) (hne : c.node.children ≠ []) (hparent : k.parent = some p) :
    exec (self.inherit_channels policy p f) s =
      match (if policy.resume_policy = .Sequential then k.prev_sibling else some p) with
      | some q => exec (self.inherit_from q f) s
      | none => (.ok (), s) := by
  have hpar : s.frames.parent_of f = some p := by simp [parent_of, hk, hparent]
  have hprev : s.frames.prev_sibling_of f = k.prev_sibling := by simp [prev_sibling_of, hk]
  unfold SessionCheckpointer.inherit_channels
  split
  · rename_i hseq
    rw [exec_bind_ok (exec_frames (exec_asks _ s.frames))]
    have hhead : (s.frames.iter_children_of p).head?.isSome := by
      simp only [iter_children_of, hp]
      cases hch : c.node.children with
      | nil => exact absurd hch hne
      | cons x xs => rfl
    rw [if_pos hhead, SessionCheckpointer.inherit_from_prev_sibling,
      exec_bind_ok (exec_frames (exec_asks _ s.frames)), hprev]
    cases k.prev_sibling <;> rfl
  · rw [SessionCheckpointer.inherit_from_parent,
      exec_bind_ok (exec_frames (exec_asks _ s.frames)), hpar]

/-- A frame without links takes nothing. -/
theorem exec_inherit_channels_orphan {policy : FramePolicy} {k : FrameNode} {d : Bool}
    (hk : s.frames.arena f = some ⟨k, d⟩) (hparent : k.parent = none)
    (hprev : k.prev_sibling = none) :
    exec (self.inherit_channels policy p f) s = (.ok (), s) := by
  have hpar : s.frames.parent_of f = none := by simp [parent_of, hk, hparent]
  have hprev' : s.frames.prev_sibling_of f = none := by simp [prev_sibling_of, hk, hprev]
  have hfrom_parent : exec (self.inherit_from_parent f) s = (.ok (), s) := by
    rw [SessionCheckpointer.inherit_from_parent,
      exec_bind_ok (exec_frames (exec_asks _ s.frames)), hpar]
    rfl
  unfold SessionCheckpointer.inherit_channels
  split
  · rw [exec_bind_ok (exec_frames (exec_asks _ s.frames))]
    split
    · rw [SessionCheckpointer.inherit_from_prev_sibling,
        exec_bind_ok (exec_frames (exec_asks _ s.frames)), hprev']
      rfl
    · exact hfrom_parent
  · exact hfrom_parent

/-- The spec of a frame of `s` is the one of its reference. -/
theorem SameHosts.spec_at {s' : State} {n : FrameNode} {spec : CommonSpec} (h : SameHosts s s')
    (hn : s.frames.find f = some n) (hspec : spec_of_ref self.graphs n.spec_ref = some spec) :
    spec_at self.graphs s'.frames f = some spec := by
  obtain ⟨n', hn', hhost⟩ := h.found hn
  have href : n'.spec_ref = n.spec_ref := congrArg (·.2.1) hhost
  rw [FrameTree.spec_at, hn', Option.bind_some, href, hspec]

/-- The frame is in the tree from the first step of `append_frame` on. -/
theorem append_frame_eq (args : NewFrameNodeArgs) :
    exec (self.append_frame p args) s =
      exec (do
        let policy ← frames (policy_of p)
        let spec ← frames (common_spec_of self.graphs ⟨s.frames.next⟩)
        frames (write ⟨s.frames.next⟩ (·.extend_inherited spec.default_values))
        self.inherit_channels policy p ⟨s.frames.next⟩
        emit (.FrameCreated ⟨s.frames.next⟩)
        pure ⟨s.frames.next⟩) (s.appended p args) := by
  unfold SessionCheckpointer.append_frame
  rw [exec_bind_ok (exec_asks State.frames s), exec_bind_ok (exec_modify _ s)]
  rfl

/-- The steps of `append_frame` up to the choice of the source. -/
theorem exec_append_frame_fill {n : FrameNode} {spec : CommonSpec} (args : NewFrameNodeArgs)
    (hp : s.frames.find p = some n) (hspec : spec_of_ref self.graphs args.spec_ref = some spec) :
    ∃ s', exec (self.append_frame p args) s =
        exec (do
          self.inherit_channels n.frame_policy p ⟨s.frames.next⟩
          emit (.FrameCreated ⟨s.frames.next⟩)
          pure ⟨s.frames.next⟩) s' ∧
      SameHosts (s.appended p args) s' ∧
      spec_at self.graphs s'.frames ⟨s.frames.next⟩ = some spec ∧
      ∃ k, s'.frames.find ⟨s.frames.next⟩ = some k ∧
        k.inherited_channels = args.inherited_channels.extend spec.default_values ∧
        k.superstep = args.superstep := by
  obtain ⟨n', hn', hpolicy, -⟩ := (append_kept hp args).1 p n hp
  obtain ⟨k, hk, hbare, -⟩ := append_links hp args
  have hnew : (s.appended p args).frames.find ⟨s.frames.next⟩ = some k := find_of_arena hk
  have href : k.spec_ref = args.spec_ref := FrameNode.of_bare (·.spec_ref) (fun _ => rfl) hbare
  rw [← href] at hspec
  let s1 := (s.appended p args).loaded p
  have h1 : SameHosts (s.appended p args) s1 := sameHosts_loaded _ p
  have hread : exec (frames (common_spec_of self.graphs ⟨s.frames.next⟩)) s1 =
      (.ok spec, s1.loaded ⟨s.frames.next⟩) :=
    exec_frames (exec_common_spec_of (h1.spec_at hnew hspec))
  have h2 := h1.trans (sameHosts_loaded s1 ⟨s.frames.next⟩)
  have hk' : (s1.loaded ⟨s.frames.next⟩).frames.find ⟨s.frames.next⟩ = some k := by
    simp only [s1, State.loaded, find_load]
    exact hnew
  have h3 := h2.trans (sameHosts_write (f := ⟨s.frames.next⟩)
    (φ := (·.extend_inherited spec.default_values)) (fun _ => rfl) (s1.loaded ⟨s.frames.next⟩))
  refine ⟨_, ?_, h3, h3.spec_at hnew hspec, k.extend_inherited spec.default_values, ?_, ?_, ?_⟩
  · have hn1 : (s.appended p args).frames.find p = some n' := hn'
    rw [append_frame_eq, policy_of, exec_read hn1, hpolicy, exec_bind_ok hread,
      exec_bind_ok (exec_frames (exec_write hk'))]
  · have hwrite := find_write (f := (·.extend_inherited spec.default_values)) hk' ⟨s.frames.next⟩
    rw [if_pos rfl] at hwrite
    exact hwrite
  · have hchannels : k.inherited_channels = args.inherited_channels :=
      FrameNode.of_bare (·.inherited_channels) (fun _ => rfl) hbare
    simp [FrameNode.extend_inherited, hchannels]
  · exact FrameNode.of_bare (·.superstep) (fun _ => rfl) hbare

/-- The tree and the snapshots once a frame was appended and filled. -/
theorem Appended.of_fill {n : FrameNode} {s' : State} (args : NewFrameNodeArgs)
    (hp : s.frames.find p = some n) (h : SameHosts (s.appended p args) s') :
    Appended p args s s' := by
  obtain ⟨k, hk, hbare, hchildren, -⟩ := append_links hp args
  obtain ⟨hfound, harena⟩ := append_kept hp args
  refine ⟨?_, h.last, ?_, ?_, ?_⟩
  · rw [h.next]
    change (s.frames.append p args).2.next = _
    cases hc : s.frames.arena p with
    | some c => exact append_next hc args
    | none => exact (append_orphan hc args).1
  · intro x m hm
    obtain ⟨m', hm', -, href, -⟩ := hfound x m hm
    obtain ⟨m'', hm'', hhost⟩ := h.found (s := s.appended p args) hm'
    have href' : m''.spec_ref = m'.spec_ref := congrArg (·.2.1) hhost
    exact ⟨m'', hm'', href'.trans href⟩
  · intro x c hc
    obtain ⟨c', hc', hpolicy, hch⟩ := harena x c hc
    obtain ⟨c'', hc'', hhost⟩ := h.arena (s := s.appended p args) hc'
    have hpolicy' : c''.node.frame_policy = c'.node.frame_policy := congrArg (·.1) hhost
    have hch' : c''.node.children = c'.node.children := congrArg (·.2.2.2.2) hhost
    exact ⟨c'', hc'', hpolicy'.trans hpolicy, hch'.trans hch⟩
  · obtain ⟨c, hc, hhost⟩ := h.arena (s := s.appended p args) hk
    have hpolicy : c.node.frame_policy = k.frame_policy := congrArg (·.1) hhost
    have href : c.node.spec_ref = k.spec_ref := congrArg (·.2.1) hhost
    have hch : c.node.children = k.children := congrArg (·.2.2.2.2) hhost
    exact ⟨c, hc, hpolicy.trans (FrameNode.of_bare (·.frame_policy) (fun _ => rfl) hbare),
      href.trans (FrameNode.of_bare (·.spec_ref) (fun _ => rfl) hbare), hch.trans hchildren⟩

/-- After the fill, the call reads the source that the tree before the append gives. -/
theorem exec_inherit_after_fill {n : FrameNode} {s' : State} (args : NewFrameNodeArgs)
    (hp : s.frames.find p = some n) (h : SameHosts (s.appended p args) s') :
    exec (self.inherit_channels n.frame_policy p ⟨s.frames.next⟩) s' =
      match s.frames.sourceFor p with
      | some q => exec (self.inherit_from q ⟨s.frames.next⟩) s'
      | none => (.ok (), s') := by
  obtain ⟨k, hk, -, -, hlinks⟩ := append_links hp args
  obtain ⟨⟨k', d⟩, hk', hhost⟩ := h.arena (s := s.appended p args) hk
  have hparent : k'.parent = k.parent := congrArg (·.2.2.1) hhost
  have hprev : k'.prev_sibling = k.prev_sibling := congrArg (·.2.2.2.1) hhost
  rcases hlinks with ⟨hnone, hpar, hsib⟩ | ⟨c, hc, hpar, hsib⟩
  · rw [exec_inherit_channels_orphan hk' (hparent.trans hpar) (hprev.trans hsib)]
    simp [sourceFor, hnone]
  · rw [find_of_arena hc] at hp
    cases hp
    obtain ⟨-, harena⟩ := append_kept (find_of_arena hc) args
    obtain ⟨c1, hc1, -, hch⟩ := harena p c hc
    obtain ⟨c2, hc2, hhost2⟩ := h.arena (s := s.appended p args) hc1
    have hch2 : c2.node.children = c1.node.children := congrArg (·.2.2.2.2) hhost2
    have hne : c2.node.children ≠ [] := by simp [hch2, hch]
    rw [exec_inherit_channels hk' hc2 hne (hparent.trans hpar), hprev.trans hsib]
    simp only [sourceFor, hc, Option.bind_some]

/-- A frame that can be appended is appended. -/
theorem exec_append_frame (self : SessionCheckpointer) (args : NewFrameNodeArgs)
    (h : CanAppend self s p args.spec_ref) :
    ∃ s', exec (self.append_frame p args) s = (.ok ⟨s.frames.next⟩, s') ∧ Appended p args s s' := by
  obtain ⟨⟨n, hn⟩, ⟨spec, hspec⟩, hsource⟩ := h
  obtain ⟨s1, hrun, h1, hspec1, -⟩ := exec_append_frame_fill args hn hspec
  have hinherit : ∃ s2, exec (self.inherit_channels n.frame_policy p ⟨s.frames.next⟩) s1 =
      (.ok (), s2) ∧ SameHosts s1 s2 := by
    rw [exec_inherit_after_fill args hn h1]
    cases hq : s.frames.sourceFor p with
    | none => exact ⟨s1, rfl, .refl s1⟩
    | some q =>
      have hrow : HasSnapshot s1 q := h1.hasSnapshot.mpr (hsource q hq)
      exact exec_inherit_from hrow hspec1
  obtain ⟨s2, hrun2, h2⟩ := hinherit
  refine ⟨s2.emits [.FrameCreated ⟨s.frames.next⟩], ?_, ?_⟩
  · rw [hrun, exec_bind_ok hrun2, exec_bind_ok (exec_emit _ s2)]
    rfl
  · exact .of_fill args hn ((h1.trans h2).trans (sameHosts_emits s2 _))

/-- A frame that cannot be appended stops the call. -/
theorem not_succeeds_append_frame {n : FrameNode} {args : NewFrameNodeArgs}
    (hn : s.frames.find p = some n) (h : ¬ CanAppend self s p args.spec_ref) :
    ¬ Succeeds (self.append_frame p args) s := by
  cases hspec : spec_of_ref self.graphs args.spec_ref with
  | some spec =>
    obtain ⟨s1, hrun, h1, -⟩ := exec_append_frame_fill args hn hspec
    have hq : ∃ q, s.frames.sourceFor p = some q ∧ ¬ HasSnapshot s q := by
      by_contra hall
      push Not at hall
      exact h ⟨⟨n, hn⟩, ⟨spec, hspec⟩, hall⟩
    obtain ⟨q, hq, hrow⟩ := hq
    have hstop : ¬ Succeeds (self.inherit_channels n.frame_policy p ⟨s.frames.next⟩) s1 := by
      unfold Succeeds
      rw [exec_inherit_after_fill args hn h1, hq]
      exact not_succeeds_inherit_from fun hrow1 => hrow (h1.hasSnapshot.mp hrow1)
    have hall := not_succeeds_bind (f := fun _ => emit (.FrameCreated ⟨s.frames.next⟩) >>= fun _ =>
      (pure ⟨s.frames.next⟩ : Ckp FrameId)) hstop
    unfold Succeeds
    rw [hrun]
    exact hall
  | none =>
    obtain ⟨n', hn', -⟩ := (append_kept hn args).1 p n hn
    obtain ⟨k, hk, hbare, -⟩ := append_links hn args
    have hnew : ((s.appended p args).loaded p).frames.find ⟨s.frames.next⟩ = some k := by
      rw [State.loaded, find_load]
      exact find_of_arena hk
    have href : k.spec_ref = args.spec_ref := FrameNode.of_bare (·.spec_ref) (fun _ => rfl) hbare
    have hn1 : (s.appended p args).frames.find p = some n' := hn'
    have hnone : spec_of_ref self.graphs k.spec_ref = none := by rw [href, hspec]
    have hread := exec_frames (exec_common_spec_of_none hnew hnone)
    unfold Succeeds
    rw [append_frame_eq, policy_of, exec_read hn1]
    exact not_succeeds_bind (not_succeeds_of_eq hread)

end Runs

/-! ## Several frames -/

/-- From `s` to `s'` frames may have been appended: the others keep their spec and their
policy, and no snapshot is written. -/
structure Grows (s s' : State) : Prop where
  last : ∀ x, s'.snapshots.last x = s.snapshots.last x
  found : ∀ x n, s.frames.find x = some n →
    ∃ n', s'.frames.find x = some n' ∧ n'.spec_ref = n.spec_ref
  kept : ∀ x c, s.frames.arena x = some c → ∃ c', s'.frames.arena x = some c' ∧
    c'.node.frame_policy = c.node.frame_policy

/-- A new child of `h` takes its channels from `h` itself. -/
def Hosts (h : FrameId) (s : State) : Prop :=
  ∃ c, s.frames.arena h = some c ∧ c.node.frame_policy.resume_policy ≠ .Sequential

section Several

variable {self : SessionCheckpointer} {s s' s'' : State} {p f h : FrameId}

theorem Grows.trans (h : Grows s s') (h' : Grows s' s'') : Grows s s'' where
  last x := (h'.last x).trans (h.last x)
  found x n hn := by
    obtain ⟨n', hn', href⟩ := h.found x n hn
    obtain ⟨n'', hn'', href'⟩ := h'.found x n' hn'
    exact ⟨n'', hn'', href'.trans href⟩
  kept x c hc := by
    obtain ⟨c', hc', hp⟩ := h.kept x c hc
    obtain ⟨c'', hc'', hp'⟩ := h'.kept x c' hc'
    exact ⟨c'', hc'', hp'.trans hp⟩

theorem SameHosts.grows (h : SameHosts s s') : Grows s s' where
  last := h.last
  found x n hn := by
    obtain ⟨n', hn', hhost⟩ := h.found hn
    exact ⟨n', hn', congrArg (·.2.1) hhost⟩
  kept x c hc := by
    obtain ⟨c', hc', hhost⟩ := h.arena hc
    exact ⟨c', hc', congrArg (·.1) hhost⟩

theorem Appended.grows {args : NewFrameNodeArgs} (h : Appended p args s s') : Grows s s' where
  last := h.last
  found := h.found
  kept x c hc := by
    obtain ⟨c', hc', hp, -⟩ := h.kept x c hc
    exact ⟨c', hc', hp⟩

theorem Grows.hasSnapshot (h : Grows s s') {x : FrameId} : HasSnapshot s' x ↔ HasSnapshot s x := by
  unfold HasSnapshot
  rw [h.last]

theorem Grows.hosts (hg : Grows s s') (hh : Hosts h s) : Hosts h s' := by
  obtain ⟨c, hc, hp⟩ := hh
  obtain ⟨c', hc', hp'⟩ := hg.kept h c hc
  exact ⟨c', hc', by rw [hp']; exact hp⟩

theorem Hosts.found (hh : Hosts h s) : ∃ n, s.frames.find h = some n := by
  obtain ⟨c, hc, -⟩ := hh
  exact ⟨c.node, find_of_arena hc⟩

theorem Hosts.canAppend (hh : Hosts h s) {spec_ref : FrameSpecRef} {spec : CommonSpec}
    (hspec : spec_of_ref self.graphs spec_ref = some spec) :
    CanAppend self s h spec_ref ↔ HasSnapshot s h := by
  have hfound := hh.found
  obtain ⟨c, hc, hp⟩ := hh
  have hsource : s.frames.sourceFor h = some h := by simp [sourceFor, hc, hp]
  constructor
  · intro hcan
    exact hcan.source h hsource
  · intro hrow
    refine ⟨hfound, ⟨spec, hspec⟩, fun q hq => ?_⟩
    rw [hsource] at hq
    cases hq
    exact hrow

/-- The new frame hosts its children when its policy says so. -/
theorem Appended.hosts {args : NewFrameNodeArgs} (happ : Appended p args s s')
    (hp : args.frame_policy.resume_policy ≠ .Sequential) : Hosts ⟨s.frames.next⟩ s' := by
  obtain ⟨c, hc, hpolicy, -⟩ := happ.new
  exact ⟨c, hc, by rw [hpolicy]; exact hp⟩

/-- A loop that appends to `h` needs a snapshot of `h`, unless it is empty. -/
theorem succeeds_forM_host {α : Type} {m : α → Ckp PUnit} (xs : List α)
    (hok : ∀ x s, Hosts h s → HasSnapshot s h → ∃ s', exec (m x) s = (.ok ⟨⟩, s') ∧ Grows s s')
    (hstop : ∀ x s, Hosts h s → ¬ HasSnapshot s h → ¬ Succeeds (m x) s) (hh : Hosts h s) :
    Succeeds (xs.forM m) s ↔ (xs ≠ [] → HasSnapshot s h) := by
  cases xs with
  | nil => exact ⟨fun _ hne => absurd rfl hne, fun _ => succeeds_of_eq rfl⟩
  | cons x xs =>
    by_cases hrow : HasSnapshot s h
    · refine ⟨fun _ _ => hrow, fun _ => ?_⟩
      have hall : ∀ (xs : List α) s, Hosts h s → HasSnapshot s h → Succeeds (xs.forM m) s := by
        intro xs
        induction xs with
        | nil => exact fun s _ _ => succeeds_of_eq rfl
        | cons x xs ih =>
          intro s hh hrow
          obtain ⟨s1, hrun, hg⟩ := hok x s hh hrow
          rw [succeeds_forM_cons xs hrun]
          exact ih s1 (hg.hosts hh) (hg.hasSnapshot.mpr hrow)
      exact hall (x :: xs) s hh hrow
    · refine ⟨fun hok => ?_, fun hall => absurd (hall (by simp)) hrow⟩
      exact absurd hok (not_succeeds_forM_cons xs (hstop x s hh hrow))

/-! ### Graphs -/

theorem exec_append_graph_node (self : SessionCheckpointer) (graph_ref : GraphRef) (node_id : NodeId)
    (h : CanAppend self s p (.Graph graph_ref)) :
    ∃ s', exec (self.append_graph_node p graph_ref node_id) s = (.ok (), s') ∧
      Appended p { spec_ref := .Graph graph_ref, data := .GraphNode graph_ref node_id } s s' := by
  obtain ⟨s', hrun, happ⟩ := exec_append_frame self
    { spec_ref := .Graph graph_ref, data := .GraphNode graph_ref node_id } h
  refine ⟨s', ?_, happ⟩
  unfold SessionCheckpointer.append_graph_node
  rw [exec_bind_ok hrun]
  rfl

theorem not_succeeds_append_graph_node {n : FrameNode} {graph_ref : GraphRef} {node_id : NodeId}
    (hn : s.frames.find p = some n) (h : ¬ CanAppend self s p (.Graph graph_ref)) :
    ¬ Succeeds (self.append_graph_node p graph_ref node_id) s :=
  not_succeeds_bind (not_succeeds_append_frame hn h)

/-- A thread and its first node: the node has no child before it to take channels from. -/
theorem exec_append_graph_thread (graph_ref : GraphRef) (start : NodeId)
    (h : CanAppend self s p (.Graph graph_ref)) :
    ∃ s', exec (self.append_graph_thread p graph_ref start) s = (.ok ⟨s.frames.next⟩, s') ∧
      Grows s s' ∧ ∃ n, s'.frames.find ⟨s.frames.next⟩ = some n ∧ n.spec_ref = .Graph graph_ref := by
  obtain ⟨s1, hrun, happ⟩ := exec_append_frame self
    { frame_policy :=
        { on_child_failed := .FailIfAtLeastHasFailed 1, resume_policy := .Sequential }
      spec_ref := .Graph graph_ref
      data := .GraphThread graph_ref } h
  obtain ⟨c, hc, hpolicy, href, hch⟩ := happ.new
  have hmark := exec_set_status (find_of_arena hc) .WaitingChildren
  have hsame := sameHosts_marked s1 ⟨s.frames.next⟩ .WaitingChildren
  obtain ⟨c', hc', hhost⟩ := hsame.arena hc
  have hch' : c'.node.children = [] := (congrArg (·.2.2.2.2) hhost).trans hch
  have hpolicy' : c'.node.frame_policy = c.node.frame_policy := congrArg (·.1) hhost
  have hnone : (s1.marked ⟨s.frames.next⟩ .WaitingChildren).frames.sourceFor ⟨s.frames.next⟩ =
      none := by
    simp [sourceFor, hc', hpolicy', hpolicy, hch']
  obtain ⟨s2, hrun2, happ2⟩ := exec_append_graph_node self graph_ref start
    ⟨⟨c'.node, find_of_arena hc'⟩, h.spec, fun q hq => by rw [hnone] at hq; cases hq⟩
  have hgrows : Grows s1 s2 := hsame.grows.trans happ2.grows
  obtain ⟨n, hn, href'⟩ := hgrows.found _ c.node (find_of_arena hc)
  refine ⟨s2, ?_, happ.grows.trans hgrows, n, hn, href'.trans href⟩
  unfold SessionCheckpointer.append_graph_thread mark_as_waiting_children
  rw [exec_bind_ok hrun, exec_bind_ok hmark, exec_bind_ok hrun2]
  rfl

theorem not_succeeds_append_graph_thread {n : FrameNode} {graph_ref : GraphRef} {start : NodeId}
    (hn : s.frames.find p = some n) (h : ¬ CanAppend self s p (.Graph graph_ref)) :
    ¬ Succeeds (self.append_graph_thread p graph_ref start) s :=
  not_succeeds_bind (not_succeeds_append_frame hn h)

theorem exec_write_to_inherited_channels (self : SessionCheckpointer) {n : FrameNode} {spec : CommonSpec}
    (hn : s.frames.find f = some n) (hspec : spec_of_ref self.graphs n.spec_ref = some spec)
    (values : List (ChannelName × Value)) :
    ∃ s', exec (self.write_to_inherited_channels f values) s = (.ok (), s') ∧ SameHosts s s' := by
  have hat : spec_at self.graphs s.frames f = some spec := by simp [FrameTree.spec_at, hn, hspec]
  have hread : exec (frames (common_spec_of self.graphs f)) s = (.ok spec, s.loaded f) :=
    exec_frames (exec_common_spec_of hat)
  have hn1 : (s.loaded f).frames.find f = some n := by rw [State.loaded, find_load, hn]
  have hget : exec (try_get self.session_id f) (s.loaded f).frames =
      (.ok n, (s.loaded f).frames.load f) := by
    unfold try_get
    rw [exec_bind_ok (exec_asks _ (s.loaded f).frames)]
    simp only [hn1]
    rfl
  have hn2 : ((s.loaded f).loaded f).frames.find f = some n := by rw [State.loaded, find_load, hn1]
  unfold SessionCheckpointer.write_to_inherited_channels
  rw [exec_bind_ok hread, exec_bind_ok (exec_frames hget)]
  refine ⟨_, exec_frames (exec_write hn2), ?_⟩
  refine ((sameHosts_loaded s f).trans (sameHosts_loaded _ f)).trans (sameHosts_write ?_ _)
  exact fun _ => rfl

theorem succeeds_append_graph_span {graph_ref : GraphRef} {branches : List Branch} {join : NodeId}
    {n : FrameNode} (hn : s.frames.find p = some n) :
    Succeeds (self.append_graph_span p graph_ref branches join) s ↔
      CanAppend self s p (.Graph graph_ref) ∧
        (branches ≠ [] → HasSnapshot s ⟨s.frames.next⟩) := by
  by_cases hcan : CanAppend self s p (.Graph graph_ref)
  · obtain ⟨spec, hspec⟩ := hcan.spec
    obtain ⟨s1, hrun, happ⟩ := exec_append_frame self
      { frame_policy :=
          { on_child_failed := .FailIfAtLeastHasFailed 1, resume_policy := .FanIn }
        spec_ref := .Graph graph_ref
        data := .GraphSpan graph_ref join } hcan
    have hh : Hosts ⟨s.frames.next⟩ s1 := happ.hosts (by simp)
    obtain ⟨k, hk⟩ := hh.found
    have hmark := exec_set_status hk .WaitingChildren
    have hsame := sameHosts_marked s1 ⟨s.frames.next⟩ .WaitingChildren
    have hrow : HasSnapshot (s1.marked ⟨s.frames.next⟩ .WaitingChildren) ⟨s.frames.next⟩ ↔
        HasSnapshot s ⟨s.frames.next⟩ := hsame.hasSnapshot.trans happ.grows.hasSnapshot
    unfold SessionCheckpointer.append_graph_span mark_as_waiting_children
    rw [succeeds_bind hrun, succeeds_bind hmark, succeeds_forM_host branches
      (h := ⟨s.frames.next⟩) ?_ ?_ (hsame.grows.hosts hh), hrow]
    · exact ⟨fun hrows => ⟨hcan, hrows⟩, fun hboth => hboth.2⟩
    · intro branch s2 hh2 hrow2
      obtain ⟨s3, hrun3, hg3, m, hm, href⟩ := exec_append_graph_thread graph_ref branch.start
        ((hh2.canAppend hspec).mpr hrow2)
      unfold SessionCheckpointer.append_branch
      rw [exec_bind_ok hrun3]
      split
      · exact ⟨s3, rfl, hg3⟩
      · obtain ⟨s4, hrun4, h4⟩ := exec_write_to_inherited_channels self hm
          (by rw [href]; exact hspec) branch.overrides
        exact ⟨s4, hrun4, hg3.trans h4.grows⟩
    · intro branch s2 hh2 hno
      obtain ⟨m, hm⟩ := hh2.found
      refine not_succeeds_bind (not_succeeds_append_graph_thread hm fun hcan2 => hno ?_)
      exact (hh2.canAppend hspec).mp hcan2
  · refine ⟨fun hok => ?_, fun hboth => absurd hboth.1 hcan⟩
    exact absurd hok (not_succeeds_bind (not_succeeds_append_frame hn hcan))

/-- The version of a graph that `append_graph` finds. -/
def SessionCheckpointer.Offers (ckp : SessionCheckpointer) (graph_id : GraphId)
    (graph_ref : GraphRef) : Prop :=
  ckp.graphs.latest graph_id = .ok (some graph_ref) ∧
    ∃ spec, ckp.graphs.get graph_ref = .ok spec

theorem succeeds_append_graph {graph_id : GraphId} {graph_ref : GraphRef} {n : FrameNode}
    (hoffer : self.Offers graph_id graph_ref) (hn : s.frames.find p = some n) :
    Succeeds (self.append_graph p graph_id) s ↔ CanAppend self s p (.Graph graph_ref) := by
  obtain ⟨hlatest, spec, hget⟩ := hoffer
  unfold SessionCheckpointer.append_graph
  simp only [hlatest, hget]
  by_cases hcan : CanAppend self s p (.Graph graph_ref)
  · obtain ⟨s1, hrun, happ⟩ := exec_append_frame self
      { frame_policy :=
          { on_child_failed := .FailIfAtLeastHasFailed 1
            resume_policy := .Sequential
            on_start_policy := .AppendGraphThread graph_ref spec.entry }
        spec_ref := .Graph graph_ref
        data := .Graph graph_ref } hcan
    obtain ⟨c, hc, -⟩ := happ.new
    rw [succeeds_bind hrun]
    exact ⟨fun _ => hcan, fun _ => succeeds_of_eq (exec_set_status (find_of_arena hc) _)⟩
  · refine ⟨fun hok => ?_, fun h => absurd h hcan⟩
    exact absurd hok (not_succeeds_bind (not_succeeds_append_frame hn hcan))

/-! ### Experts and tools -/

theorem succeeds_append_tool_calls {requests : List RequestToolCall} {n : FrameNode}
    (hn : s.frames.find p = some n) :
    Succeeds (self.append_tool_calls p requests) s ↔
      CanAppend self s p .ToolAggregator ∧ (requests ≠ [] → HasSnapshot s ⟨s.frames.next⟩) := by
  by_cases hcan : CanAppend self s p .ToolAggregator
  · obtain ⟨s1, hrun, happ⟩ := exec_append_frame self
      { frame_policy :=
          { on_child_failed := .FailIfAtLeastHasFailed 1, resume_policy := .FanIn }
        spec_ref := .ToolAggregator
        data := .Void } hcan
    have hh : Hosts ⟨s.frames.next⟩ s1 := happ.hosts (by decide)
    obtain ⟨k, hk⟩ := hh.found
    have hmark := exec_set_status hk .WaitingChildren
    have hsame := sameHosts_marked s1 ⟨s.frames.next⟩ .WaitingChildren
    have hagg : exec (self.append_tool_aggregator p) s =
        (.ok ⟨s.frames.next⟩, s1.marked ⟨s.frames.next⟩ .WaitingChildren) := by
      unfold SessionCheckpointer.append_tool_aggregator mark_as_waiting_children
      rw [exec_bind_ok hrun, exec_bind_ok hmark]
      rfl
    have hrow : HasSnapshot (s1.marked ⟨s.frames.next⟩ .WaitingChildren) ⟨s.frames.next⟩ ↔
        HasSnapshot s ⟨s.frames.next⟩ := hsame.hasSnapshot.trans happ.grows.hasSnapshot
    have hcall : spec_of_ref self.graphs .ToolCall = some .tool := rfl
    unfold SessionCheckpointer.append_tool_calls
    rw [succeeds_bind hagg, succeeds_forM_host requests (h := ⟨s.frames.next⟩) ?_ ?_
      (hsame.grows.hosts hh), hrow]
    · exact ⟨fun hrows => ⟨hcan, hrows⟩, fun hboth => hboth.2⟩
    · intro request s2 hh2 hrow2
      let s3 : State := { s2 with next_id := s2.next_id + 1 }
      have hh3 : Hosts ⟨s.frames.next⟩ s3 := hh2
      obtain ⟨s4, hrun4, happ4⟩ := exec_append_frame self
        { spec_ref := .ToolCall, data := .ToolCall ⟨s2.next_id⟩ request.name request.parameters }
        ((hh3.canAppend hcall).mpr hrow2)
      have hid : exec next_id s2 = (.ok s2.next_id, s3) := rfl
      have hg : Grows s2 s4 := ⟨happ4.last, happ4.found, happ4.grows.kept⟩
      refine ⟨s4, ?_, hg⟩
      unfold SessionCheckpointer.append_tool_call
      rw [exec_bind_ok hid, exec_bind_ok hrun4]
      rfl
    · intro request s2 hh2 hno
      let s3 : State := { s2 with next_id := s2.next_id + 1 }
      have hh3 : Hosts ⟨s.frames.next⟩ s3 := hh2
      have hid : exec next_id s2 = (.ok s2.next_id, s3) := rfl
      obtain ⟨m, hm⟩ := hh3.found
      unfold SessionCheckpointer.append_tool_call
      rw [succeeds_bind hid]
      refine not_succeeds_bind (not_succeeds_append_frame hm fun hcan2 => hno ?_)
      exact (hh3.canAppend hcall).mp hcan2
  · refine ⟨fun hok => ?_, fun hboth => absurd hboth.1 hcan⟩
    refine absurd hok (not_succeeds_bind (not_succeeds_bind ?_))
    exact not_succeeds_append_frame hn hcan

/-- The experts of `requests` can be appended to `f`. In a sequential frame each of them takes
its channels from the one before it, so all but the last need a snapshot. -/
def CanConsult (ckp : SessionCheckpointer) (s : State) (f : FrameId) (count : Nat) : Prop :=
  0 < count → CanAppend ckp s f .Expert ∧
    ((∃ c, s.frames.arena f = some c ∧ c.node.frame_policy.resume_policy = .Sequential) →
      ∀ i, i + 1 < count → HasSnapshot s ⟨s.frames.next + i⟩)

/-- The source of the next child of `f`, once a frame was appended to it. -/
theorem Appended.sourceFor {args : NewFrameNodeArgs} {c : FrameNodeContainer}
    (h : Appended f args s s') (hc : s.frames.arena f = some c) :
    s'.frames.sourceFor f =
      if c.node.frame_policy.resume_policy = .Sequential then some ⟨s.frames.next⟩ else some f := by
  obtain ⟨c', hc', hpolicy, hch⟩ := h.kept f c hc
  rw [if_pos rfl] at hch
  simp [FrameTree.sourceFor, hc', hpolicy, hch]

theorem succeeds_append_experts_consultations {requests : List RequestAskExpert}
    {c : FrameNodeContainer} (hc : s.frames.arena f = some c) :
    Succeeds (self.append_experts_consultations f requests) s ↔
      CanConsult self s f requests.length := by
  unfold SessionCheckpointer.append_experts_consultations
  induction requests generalizing s c with
  | nil => exact ⟨fun _ h0 => absurd h0 (by simp), fun _ => succeeds_of_eq rfl⟩
  | cons request requests ih =>
    have hfound := find_of_arena hc
    by_cases hcan : CanAppend self s f .Expert
    · obtain ⟨s1, hrun, happ⟩ := exec_append_frame self
        { spec_ref := .Expert, data := .ExpertConsultation } hcan
      have hone : exec (self.append_expert_consultation f request) s = (.ok (), s1) := by
        unfold SessionCheckpointer.append_expert_consultation
        rw [exec_bind_ok hrun]
        rfl
      obtain ⟨c1, hc1, hpolicy1, -⟩ := happ.kept f c hc
      have hsource := happ.sourceFor hc
      rw [succeeds_forM_cons requests hone, ih hc1]
      unfold CanConsult
      rw [happ.next]
      by_cases hseq : c.node.frame_policy.resume_policy = .Sequential
      · rw [if_pos hseq] at hsource
        constructor
        · intro hrest _
          refine ⟨hcan, fun _ i hi => ?_⟩
          obtain ⟨hcan1, hrows⟩ := hrest (by simp only [List.length_cons] at hi; omega)
          cases i with
          | zero => exact happ.grows.hasSnapshot.mp (hcan1.source _ hsource)
          | succ i =>
            have hrow := hrows ⟨c1, hc1, by rw [hpolicy1, hseq]⟩ i
              (by simp only [List.length_cons] at hi; omega)
            rw [Nat.add_right_comm, Nat.add_assoc] at hrow
            exact happ.grows.hasSnapshot.mp hrow
        · intro hall hpos
          obtain ⟨-, hrows⟩ := hall (by simp)
          have hrows := hrows ⟨c, hc, hseq⟩
          refine ⟨⟨⟨c1.node, find_of_arena hc1⟩, hcan.spec, fun q hq => ?_⟩, fun _ i hi => ?_⟩
          · rw [hsource] at hq
            cases hq
            exact happ.grows.hasSnapshot.mpr (hrows 0 (by simp only [List.length_cons]; omega))
          · have hrow := hrows (i + 1) (by simp only [List.length_cons]; omega)
            rw [Nat.add_right_comm, Nat.add_assoc]
            exact happ.grows.hasSnapshot.mpr hrow
      · rw [if_neg hseq] at hsource
        have hself : s.frames.sourceFor f = some f := by simp [FrameTree.sourceFor, hc, hseq]
        constructor
        · intro _ _
          refine ⟨hcan, ?_⟩
          rintro ⟨c2, hc2, hseq2⟩
          rw [hc] at hc2
          cases hc2
          exact absurd hseq2 hseq
        · intro _ _
          refine ⟨⟨⟨c1.node, find_of_arena hc1⟩, hcan.spec, fun q hq => ?_⟩, ?_⟩
          · rw [hsource] at hq
            cases hq
            exact happ.grows.hasSnapshot.mpr (hcan.source f hself)
          · rintro ⟨c2, hc2, hseq2⟩
            rw [hc1] at hc2
            cases hc2
            exact absurd (hpolicy1 ▸ hseq2) hseq
    · refine ⟨fun hok => ?_, fun hall => absurd (hall (by simp)).1 hcan⟩
      refine absurd hok (not_succeeds_forM_cons requests (not_succeeds_bind ?_))
      exact not_succeeds_append_frame hfound hcan

end Several

end marie.session
