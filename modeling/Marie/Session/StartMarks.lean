-- How the frames that a handler makes stand at its end. A container is marked as
-- waiting by the call that makes it, before its `FrameCreated` is taken; an
-- expert, a tool call or a node stays pending until then. And a frame stands
-- under one that the handler works on, or under a container made before it.
import Marie.Session.Suspensions

namespace marie.session

open Program FrameTree

/-! ## What a handler makes -/

/-- The frame is there, and no longer pending. -/
def Begun (s : State) (f : FrameId) : Prop :=
  ∃ n, s.frames.find f = some n ∧ n.status ≠ .Pending

/-- Where a frame may be appended on the way from `s` to `s'`: under one of `T`, or under a new
one that has begun. -/
def Under (T : FrameId → Prop) (s s' : State) (p : FrameId) : Prop :=
  T p ∨ (s.frames.next ≤ p.id ∧ Begun s' p)

/-- From `s` to `s'`, the status of the frames of `H` may change, and frames are made under those
of `T`. -/
structure Sows (H T : FrameId → Prop) (s s' : State) : Prop where
  old : ∀ x, H x → x.id < s.frames.next
  evolves : Evolves s.frames.next H everyFrame s.frames s'.frames
  linked : s'.frames.Linked
  placed : ∀ x n, s'.frames.find x = some n → s.frames.next ≤ x.id →
    ∃ p, n.parent = some p ∧ Under T s s' p
  pending : ∀ x n, s'.frames.find x = some n → s.frames.next ≤ x.id → n.data.is_executable →
    n.status = .Pending
  created : ∀ x, .FrameCreated x ∈ s'.listeners → .FrameCreated x ∈ s.listeners ∨
    (s.frames.next ≤ x.id ∧
      ∃ n, s'.frames.find x = some n ∧ (n.data.is_executable ∨ n.status ≠ .Pending))
  told : ∀ p c, .ChildFrameTerminated p c ∈ s'.listeners → .ChildFrameTerminated p c ∈ s.listeners ∨
    ∃ n, s'.frames.find c = some n ∧ n.parent = some p

section Sows

variable {self : SessionCheckpointer} {H T : FrameId → Prop} {s s' s'' : State}
  {f p x : FrameId} {n m : FrameNode}

/-- A frame that is there stays, and its status as well unless it is one of `H`. -/
theorem Sows.found (h : Sows H T s s') (hn : s.frames.find x = some n) :
    ∃ n', s'.frames.find x = some n' ∧ Kept (H x) True n n' := by
  obtain ⟨n', hn', hk⟩ := h.evolves.node x n hn
  exact ⟨n', hn', hk (id_lt_next hn)⟩

theorem Sows.next_le (h : Sows H T s s') : s.frames.next ≤ s'.frames.next := h.evolves.bound

theorem Sows.begun (h : Sows H T s s') (hx : ¬ H x) (hb : Begun s x) : Begun s' x := by
  obtain ⟨n, hn, hst⟩ := hb
  obtain ⟨n', hn', hk⟩ := h.found hn
  refine ⟨n', hn', ?_⟩
  rw [hk.status hx]
  exact hst

/-- A frame of `s'` is new, or was there with the same place. -/
theorem Sows.cases (h : Sows H T s s') (hn : s'.frames.find x = some n) :
    s.frames.next ≤ x.id ∨ ∃ m, s.frames.find x = some m ∧ Kept (H x) True m n :=
  h.evolves.cases hn

/-- No frame is made, and none is told of. -/
theorem Sows.of_same (hold : ∀ x, H x → x.id < s.frames.next) (hl : s.frames.Linked)
    (hlinks : SameLinks s.frames s'.frames)
    (hev : Evolves s.frames.next H everyFrame s.frames s'.frames)
    (hnext : s'.frames.next = s.frames.next)
    (hcreated : ∀ x, .FrameCreated x ∈ s'.listeners → .FrameCreated x ∈ s.listeners)
    (htold : ∀ p c, .ChildFrameTerminated p c ∈ s'.listeners →
      .ChildFrameTerminated p c ∈ s.listeners ∨ ∃ n, s'.frames.find c = some n ∧ n.parent = some p) :
    Sows H T s s' := by
  have hnone : ∀ x n, s'.frames.find x = some n → ¬ s.frames.next ≤ x.id := by
    intro x n hn hx
    have hlt := id_lt_next hn
    omega
  refine ⟨hold, hev, hlinks.linked hl, fun x n hn hx => ?_, fun x n hn hx _ => ?_,
    fun x hx => .inl (hcreated x hx), htold⟩
  · exact absurd hx (hnone x n hn)
  · exact absurd hx (hnone x n hn)

theorem Sows.refl (hl : s.frames.Linked) : Sows noFrame T s s :=
  .of_same (fun _ h => h.elim) hl (.refl _) (.refl (Nat.le_refl _)) rfl (fun _ h => h)
    fun _ _ h => .inl h

theorem Sows.mono {T' : FrameId → Prop} (h : Sows H T s s') (hT : ∀ p, T p → Under T' s s' p) :
    Sows H T' s s' := by
  refine { h with placed := fun x n hn hx => ?_ }
  obtain ⟨p, hp, hplace | hnew⟩ := h.placed x n hn hx
  · exact ⟨p, hp, hT p hplace⟩
  · exact ⟨p, hp, .inr hnew⟩

/-- More frames may change. -/
theorem Sows.widen {H' : FrameId → Prop} (h : Sows H' T s s') (hsub : ∀ x, H' x → H x)
    (hold : ∀ x, H x → x.id < s.frames.next) : Sows H T s s' := by
  refine { h with old := hold, evolves := ?_ }
  refine ⟨h.evolves.bound, h.evolves.store, h.evolves.resident, fun x n hn => ?_, h.evolves.old⟩
  obtain ⟨n', hn', hk⟩ := h.evolves.node x n hn
  refine ⟨n', hn', fun hx => { hk hx with status := fun hno => ?_ }⟩
  exact (hk hx).status fun hx' => hno (hsub x hx')

/-- The frames that may change from `s` on are there later. -/
theorem Sows.still_old (h : Sows H T s s') : ∀ x, H x → x.id < s'.frames.next :=
  fun x hx => Nat.lt_of_lt_of_le (h.old x hx) h.next_le

theorem Sows.trans (h : Sows H T s s') (h' : Sows H (Under T s s') s' s'') : Sows H T s s'' := by
  have hle := h.next_le
  have hfresh : ∀ {x : FrameId}, s.frames.next ≤ x.id → ¬ H x := by
    intro x hx hH
    have hlt := h.old x hH
    omega
  have hunder : ∀ p, Under T s s' p → Under T s s'' p := by
    rintro p (hT | ⟨hid, hb⟩)
    · exact .inl hT
    · exact .inr ⟨hid, h'.begun (hfresh hid) hb⟩
  refine ⟨h.old, h.evolves.trans (h'.evolves.lower hle), h'.linked, fun x n hn hx => ?_, fun x n hn hx hkind => ?_,
    fun x hx => ?_, fun p c hpc => ?_⟩
  · rcases h'.cases hn with hnew | ⟨m, hm, hk⟩
    · obtain ⟨p, hp, hplace | ⟨hid, hb⟩⟩ := h'.placed x n hn hnew
      · exact ⟨p, hp, hunder p hplace⟩
      · exact ⟨p, hp, .inr ⟨Nat.le_trans hle hid, hb⟩⟩
    · obtain ⟨p, hp, hplace⟩ := h.placed x m hm hx
      exact ⟨p, hk.parent.trans hp, hunder p hplace⟩
  · rcases h'.cases hn with hnew | ⟨m, hm, hk⟩
    · exact h'.pending x n hn hnew hkind
    · rw [hk.status (hfresh hx)]
      rw [hk.data] at hkind
      exact h.pending x m hm hx hkind
  · rcases h'.created x hx with hx' | ⟨hid, hn⟩
    · rcases h.created x hx' with hx | ⟨hid, n, hn, hcase⟩
      · exact .inl hx
      · obtain ⟨n', hn', hk⟩ := h'.found hn
        refine .inr ⟨hid, n', hn', ?_⟩
        rw [hk.data, hk.status (hfresh hid)]
        exact hcase
    · exact .inr ⟨Nat.le_trans hle hid, hn⟩
  · rcases h'.told p c hpc with hpc' | hn
    · rcases h.told p c hpc' with hpc | ⟨n, hn, hp⟩
      · exact .inl hpc
      · obtain ⟨n', hn', hk⟩ := h'.found hn
        exact .inr ⟨n', hn', hk.parent.trans hp⟩
    · exact .inr hn

/-- A quiet call leaves each status, and sends nothing. -/
theorem Calm.unmarked (h : Calm self s s') :
    Evolves s.frames.next noFrame everyFrame s.frames s'.frames ∧ s'.listeners = s.listeners := by
  refine h.keeps (I := fun a => Evolves s.frames.next noFrame everyFrame s.frames a.frames ∧
    a.listeners = s.listeners) ?_ ⟨.refl (Nat.le_refl _), rfl⟩
  rintro a b hab ⟨hev, hlisteners⟩
  cases hab with
  | load ht => exact ⟨hev.trans (within_of_loaded hev.bound ht).frames, hlisteners⟩
  | fill f channels superstep =>
    refine ⟨hev.edit (f := fun n => { n with
      inherited_channels := channels n, superstep := superstep n }) fun n _ => ?_, hlisteners⟩
    exact ⟨fun _ => rfl, fun _ => rfl, List.prefix_refl _, rfl, rfl, rfl, rfl⟩
  | log f entries =>
    refine ⟨hev.edit (f := fun n => { n with logs := entries n.logs }) fun n _ => ?_, hlisteners⟩
    exact ⟨fun _ => rfl, fun h => absurd trivial h, List.prefix_refl _, rfl, rfl, rfl, rfl⟩
  | _ => exact ⟨hev, hlisteners⟩

theorem Calm.sows (h : Calm self s s') (hl : s.frames.Linked) : Sows noFrame T s s' := by
  obtain ⟨hev, hlisteners⟩ := h.unmarked
  obtain ⟨hlinks, hnext⟩ := h.links
  refine .of_same (fun _ h => h.elim) hl hlinks hev hnext (fun x hx => ?_) fun p c hpc => ?_
  · rwa [hlisteners] at hx
  · left
    rwa [hlisteners] at hpc

/-! ### Marks -/

/-- A mark tells of the end of the frame itself alone. -/
theorem sows_marked (hl : s.frames.Linked) (hn : s.frames.find f = some n) (status : FrameStatus) :
    Sows (· = f) T s ((s.marked f status).emits (status.announces f n.parent)) := by
  have hold : ∀ x, x = f → x.id < s.frames.next := by
    rintro x rfl
    exact id_lt_next hn
  refine .of_same hold hl ?_ ?_ rfl (fun x hx => ?_) fun p c hpc => ?_
  · exact ((SameLinks.refl _).load f).edit (f := fun n => { n with status }) fun _ => rfl
  · refine Evolves.edit (f := fun n => { n with status }) ((Evolves.refl (Nat.le_refl _)).load f)
      fun n _ => ?_
    exact ⟨fun h => absurd rfl h, fun _ => rfl, List.prefix_refl _, rfl, rfl, rfl, rfl⟩
  · rcases List.mem_append.mp hx with hx | hx
    · exact hx
    · cases status <;> simp [FrameStatus.announces] at hx
  · rcases List.mem_append.mp hpc with hpc | hpc
    · exact .inl hpc
    · cases status with
      | Completed =>
        right
        simp only [FrameStatus.announces, List.mem_cons, reduceCtorEq, false_or,
          Option.mem_toList, Option.map_eq_some_iff] at hpc
        obtain ⟨q, hq, hpc⟩ := hpc
        cases hpc
        refine ⟨{ n with status := .Completed }, ?_, hq⟩
        change (s.marked f .Completed).frames.find f = _
        rw [find_marked hn, if_pos rfl]
      | _ => simp [FrameStatus.announces] at hpc

/-! ### Calls -/

/-- A program that sows from each state that has the frame `p`, and under it. -/
theorem sows_under {α : Type} {k : Ckp α} (hn : s.frames.find p = some n) (hp : T p)
    (h : ∀ s' n', s'.frames.Linked → s'.frames.find p = some n' → n'.data = n.data →
      Sows noFrame (· = p) s' (exec k s').2) : Keeps (Sows H T s) k (fun _ => True) := by
  intro s' hs
  obtain ⟨n', hn', hk⟩ := hs.found hn
  have hpart : Sows H (· = p) s' (exec k s').2 :=
    (h s' n' hs.linked hn' hk.data).widen (fun _ hx => hx.elim) hs.still_old
  refine ⟨hs.trans (hpart.mono ?_), fun _ _ => trivial⟩
  rintro q rfl
  exact .inl (.inl hp)

theorem sows_of_calm {α : Type} {k : Ckp α} {Q : α → Prop} (self : SessionCheckpointer)
    (h : ∀ s, Keeps (Calm self s) k Q) : Keeps (Sows H T s) k Q := by
  intro s' hs
  have hcalm : Calm self s' (exec k s').2 := (h s').run (.refl s')
  refine ⟨hs.trans ?_, (h s' s' (.refl s')).2⟩
  exact (hcalm.sows hs.linked).widen (fun _ hx => hx.elim) hs.still_old

/-- A program that marks `f`, or stops where `f` is not found. -/
theorem sows_of_mark {k : Ckp Unit} (status : FrameStatus) (hf : H f)
    (hnone : ∀ s', s'.frames.find f = none → (exec k s').2 = s')
    (hmark : ∀ s' n, s'.frames.find f = some n →
      (exec k s').2 = (s'.marked f status).emits (status.announces f n.parent)) :
    Keeps (Sows H T s) k (fun _ => True) := by
  intro s' hs
  refine ⟨?_, fun _ _ => trivial⟩
  cases hn : s'.frames.find f with
  | none =>
    rw [hnone s' hn]
    exact hs
  | some n =>
    rw [hmark s' n hn]
    refine hs.trans ((sows_marked hs.linked hn status).widen ?_ hs.still_old)
    rintro x rfl
    exact hf

theorem sows_mark_as_waiting_children (hf : H f) :
    Keeps (Sows H T s) (mark_as_waiting_children f) (fun _ => True) := by
  unfold mark_as_waiting_children
  refine sows_of_mark .WaitingChildren hf (fun s' hn => ?_) fun s' n hn => ?_
  · rw [exec_set_status_none hn]
  · rw [exec_set_status hn]
    simp [FrameStatus.announces, State.emits]

theorem sows_mark_and_emit {status : FrameStatus} {event : SessionCheckpointEvent} (hf : H f)
    (hsent : ∀ parent, status.announces f parent = [event]) :
    Keeps (Sows H T s) (do
      frames (set_status f status)
      emit event) (fun _ => True) := by
  refine sows_of_mark status hf (exec_set_status_emit status event).1 fun s' n hn => ?_
  rw [hsent]
  exact (exec_set_status_emit status event).2 s' n hn

theorem sows_mark_completed_frame (hf : H f) :
    Keeps (Sows H T s) (mark_completed_frame f) (fun _ => True) := by
  refine sows_of_mark .Completed hf (fun s' hn => ?_) fun s' n hn => ?_
  · unfold mark_completed_frame
    rw [exec_bind_error (exec_set_status_none hn _)]
  · rw [exec_mark_completed hn]
    rfl

/-! ### Appends -/

theorem sows_appended (hl : s.frames.Linked) (hp : s.frames.find p = some m)
    (args : NewFrameNodeArgs) : Sows noFrame (· = p) s (s.appended p args) := by
  have hnext : (s.appended p args).frames.next = s.frames.next + 1 := append_next_succ _ _ _
  have hnew : ∀ x n, (s.appended p args).frames.find x = some n → s.frames.next ≤ x.id →
      n.status = .Pending ∧ n.parent = some p := by
    intro x n hn hx
    rcases old_append hl hp args hn with ⟨-, hst, hparent, -⟩ | ⟨k, hk⟩
    · exact ⟨hst, hparent⟩
    · have hlt := id_lt_next hk
      omega
  refine ⟨fun _ h => h.elim, ?_, linked_append hl hp args, fun x n hn hx => ?_,
    fun x n hn hx _ => (hnew x n hn hx).1, fun _ h => .inl h, fun _ _ h => .inl h⟩
  · exact (Evolves.refl (Nat.le_refl _)).append p args
  · exact ⟨p, (hnew x n hn hx).2, .inl rfl⟩

/-- An append stops on its way, or tells of the new frame last. -/
theorem append_frame_cases (self : SessionCheckpointer) (args : NewFrameNodeArgs)
    (hl : s.frames.Linked) (hp : s.frames.find p = some m) :
    ∃ s1, Sows noFrame (· = p) s s1 ∧
      (∃ k, s1.frames.find ⟨s.frames.next⟩ = some k ∧ k.data = args.data) ∧
      ((∃ e, exec (self.append_frame p args) s = (.error e, s1)) ∨
        exec (self.append_frame p args) s =
          (.ok ⟨s.frames.next⟩, s1.emits [.FrameCreated ⟨s.frames.next⟩])) := by
  let fill : Ckp Unit := do
    let policy ← frames (policy_of p)
    let spec ← frames (common_spec_of self.graphs ⟨s.frames.next⟩)
    frames (write ⟨s.frames.next⟩ (·.extend_inherited spec.default_values))
    self.inherit_channels policy p ⟨s.frames.next⟩
  have hfill : Keeps (Calm self (s.appended p args)) fill (fun _ => True) := by
    refine (calm_read p _).andThen fun policy => (calm_common_spec_of _ _).andThen fun spec => ?_
    refine Keeps.andThen (Q := fun _ => True) (calm_fill fun _ => by rfl) fun _ => ?_
    exact calm_inherit_channels _ _ _
  have hrun : exec (self.append_frame p args) s = exec (fill >>= fun _ => do
      emit (.FrameCreated ⟨s.frames.next⟩)
      pure (⟨s.frames.next⟩ : FrameId)) (s.appended p args) := by
    rw [append_frame_eq]
    simp only [fill, bind_assoc]
  have hnew := sows_appended hl hp args
  have hcalm : Sows noFrame (Under (· = p) s (s.appended p args)) (s.appended p args)
      (exec fill (s.appended p args)).2 := (hfill.run (.refl _)).sows hnew.linked
  obtain ⟨k, hk, hbare, -⟩ := new_appended hl hp args
  obtain ⟨k', hk', hkept⟩ := hcalm.found hk
  have hdata : k.data = args.data := FrameNode.of_bare (·.data) (fun _ => rfl) hbare
  refine ⟨_, hnew.trans hcalm, ⟨k', hk', hkept.data.trans hdata⟩, ?_⟩
  rw [hrun]
  rcases hr : exec fill (s.appended p args) with ⟨r, s1⟩
  cases r with
  | error e => exact .inl ⟨e, exec_bind_error hr⟩
  | ok _ =>
    right
    rw [exec_bind_ok hr, exec_bind_ok (exec_emit _ s1)]
    rfl

/-- The new frame is told of once it has its place. -/
theorem Sows.tells (h : Sows H T s s') (hn : s'.frames.find x = some n) (hx : s.frames.next ≤ x.id)
    (hcase : n.data.is_executable ∨ n.status ≠ .Pending) : Sows H T s (s'.emits [.FrameCreated x]) := by
  refine ⟨h.old, h.evolves, h.linked, h.placed, h.pending, fun y hy => ?_, fun p c hpc => ?_⟩
  · rcases List.mem_append.mp hy with hy | hy
    · exact h.created y hy
    · cases List.mem_singleton.mp hy
      exact .inr ⟨hx, n, hn, hcase⟩
  · rcases List.mem_append.mp hpc with hpc | hpc
    · exact h.told p c hpc
    · cases List.mem_singleton.mp hpc

/-- A frame that the worker runs is pending when its `FrameCreated` is sent. -/
theorem sows_append_executable {args : NewFrameNodeArgs} (hl : s.frames.Linked)
    (hp : s.frames.find p = some m) (hkind : args.data.is_executable) :
    Sows noFrame (· = p) s (exec (self.append_frame p args) s).2 := by
  obtain ⟨s1, hs, ⟨k, hk, hdata⟩, ⟨e, hr⟩ | hr⟩ := append_frame_cases self args hl hp
  · rw [hr]
    exact hs
  · rw [hr]
    exact hs.tells hk (Nat.le_refl _) (.inl (by rw [hdata]; exact hkind))

/-- A frame that is marked has begun, and so have those that had begun before. -/
theorem Begun.marked (h : Begun s p) (hn : s.frames.find f = some n) {status : FrameStatus}
    (hst : status ≠ .Pending) : Begun (s.marked f status) p := by
  obtain ⟨m, hm, hbegun⟩ := h
  by_cases hp : p = f
  · subst hp
    exact ⟨{ n with status }, by rw [find_marked hn, if_pos rfl], hst⟩
  · exact ⟨m, by rw [find_marked hn, if_neg hp]; exact hm, hbegun⟩

/-- A container is marked as waiting before its `FrameCreated` is taken. -/
theorem Sows.waits (h : Sows H T s s') (hn : s'.frames.find x = some n) (hx : s.frames.next ≤ x.id)
    (hkind : ¬ n.data.is_executable) :
    Sows H T s ((s'.emits [.FrameCreated x]).marked x .WaitingChildren) := by
  have hn' : (s'.emits [.FrameCreated x]).frames.find x = some n := hn
  have hwait : (.WaitingChildren : FrameStatus) ≠ .Pending := by simp
  have hfind := find_marked hn' .WaitingChildren
  -- each frame keeps its place and its kind, and its status unless it is `x`
  have hfound : ∀ y k, ((s'.emits [.FrameCreated x]).marked x .WaitingChildren).frames.find y = some k →
      ∃ k0, s'.frames.find y = some k0 ∧ k.parent = k0.parent ∧ k.data = k0.data ∧
        (y = x ∨ k.status = k0.status) := by
    intro y k hk
    rw [hfind] at hk
    split at hk
    · rename_i hy
      subst hy
      cases hk
      exact ⟨n, hn, rfl, rfl, .inl rfl⟩
    · exact ⟨k, hk, rfl, rfl, .inr rfl⟩
  have hlinks : SameLinks s'.frames ((s'.emits [.FrameCreated x]).marked x .WaitingChildren).frames :=
    ((SameLinks.refl _).load x).edit (f := fun n => { n with status := .WaitingChildren })
      fun _ => rfl
  refine ⟨h.old, ?_, hlinks.linked h.linked, fun y k hk hy => ?_, fun y k hk hy hexec => ?_,
    fun y hy => ?_, fun p c hpc => ?_⟩
  · refine Evolves.edit (f := fun n => { n with status := .WaitingChildren }) (h.evolves.load x)
      fun n hlt => ?_
    omega
  · obtain ⟨k0, hk0, hparent, -⟩ := hfound y k hk
    obtain ⟨p, hp, hplace⟩ := h.placed y k0 hk0 hy
    refine ⟨p, hparent.trans hp, hplace.imp_right fun hb => ⟨hb.1, ?_⟩⟩
    exact Begun.marked (s := s'.emits [.FrameCreated x]) hb.2 hn' hwait
  · obtain ⟨k0, hk0, -, hdata, rfl | hst⟩ := hfound y k hk
    · rw [hn] at hk0
      cases hk0
      rw [hdata] at hexec
      exact absurd hexec hkind
    · rw [hdata] at hexec
      rw [hst]
      exact h.pending y k0 hk0 hy hexec
  · rcases List.mem_append.mp hy with hy | hy
    · rcases h.created y hy with hold | ⟨hid, k, hk, hcase⟩
      · exact .inl hold
      · refine .inr ⟨hid, ?_⟩
        rw [hfind]
        split
        · exact ⟨_, rfl, .inr hwait⟩
        · exact ⟨k, hk, hcase⟩
    · cases List.mem_singleton.mp hy
      exact .inr ⟨hx, _, by rw [hfind, if_pos rfl], .inr hwait⟩
  · rcases List.mem_append.mp hpc with hpc | hpc
    · rcases h.told p c hpc with hold | ⟨k, hk, hp⟩
      · exact .inl hold
      · right
        rw [hfind]
        split
        · rename_i hc
          subst hc
          rw [hn] at hk
          cases hk
          exact ⟨_, rfl, hp⟩
        · exact ⟨k, hk, hp⟩
    · cases List.mem_singleton.mp hpc

/-- A container, with what comes under it. -/
theorem sows_container {α : Type} (self : SessionCheckpointer) (args : NewFrameNodeArgs)
    {k : FrameId → Ckp α} (hl : s.frames.Linked) (hp : s.frames.find p = some m)
    (hkind : ¬ args.data.is_executable)
    (hk : ∀ s' id n, s'.frames.Linked → s'.frames.find id = some n →
      Sows noFrame (· = id) s' (exec (k id) s').2) :
    Sows noFrame (· = p) s (exec (do
      let id ← self.append_frame p args
      mark_as_waiting_children id
      k id) s).2 := by
  obtain ⟨s1, hs, ⟨n, hn, hdata⟩, ⟨e, hr⟩ | hr⟩ := append_frame_cases self args hl hp
  · rw [exec_bind_error hr]
    exact hs
  · have hn1 : (s1.emits [.FrameCreated ⟨s.frames.next⟩]).frames.find ⟨s.frames.next⟩ = some n := hn
    have hwaits := hs.waits hn (Nat.le_refl _) (by rw [hdata]; exact hkind)
    have hmark : exec (mark_as_waiting_children ⟨s.frames.next⟩) _ = _ :=
      exec_set_status hn1 .WaitingChildren
    rw [exec_bind_ok hr, exec_bind_ok hmark]
    have hn2 := find_marked hn1 .WaitingChildren ⟨s.frames.next⟩
    rw [if_pos rfl] at hn2
    refine hwaits.trans ((hk _ _ _ hwaits.linked hn2).mono ?_)
    rintro q rfl
    exact .inl (.inr ⟨Nat.le_refl _, _, hn2, by simp⟩)

theorem sows_append_graph_node (hl : s.frames.Linked) (hp : s.frames.find p = some m)
    (graph_ref : GraphRef) (node_id : NodeId) :
    Sows noFrame (· = p) s (exec (self.append_graph_node p graph_ref node_id) s).2 := by
  let args : NewFrameNodeArgs :=
    { spec_ref := .Graph graph_ref, data := .GraphNode graph_ref node_id }
  have hnode : Sows noFrame (· = p) s (exec (self.append_frame p args) s).2 :=
    sows_append_executable hl hp rfl
  unfold SessionCheckpointer.append_graph_node
  rw [exec_bind]
  rcases hr : exec (self.append_frame p args) s with ⟨r, s'⟩
  rw [hr] at hnode
  cases r with
  | error e => exact hnode
  | ok id => exact hnode

theorem sows_append_graph_thread (hl : s.frames.Linked) (hp : s.frames.find p = some m)
    (graph_ref : GraphRef) (start : NodeId) :
    Sows noFrame (· = p) s (exec (self.append_graph_thread p graph_ref start) s).2 := by
  refine sows_container self _ hl hp Bool.false_ne_true fun s' id n hl' hn => ?_
  refine Keeps.run (Q := fun _ => True) ?_ (.refl hl')
  refine Keeps.andThen (Q := fun _ => True) ?_ fun _ => keeps_pure trivial
  exact sows_under hn rfl fun s1 n1 hl1 hn1 _ => sows_append_graph_node hl1 hn1 graph_ref start

theorem sows_append_branch (hp : s.frames.find p = some m) (graph_ref : GraphRef) (branch : Branch) :
    Keeps (Sows noFrame (· = p) s) (self.append_branch p graph_ref branch) (fun _ => True) := by
  unfold SessionCheckpointer.append_branch
  refine Keeps.andThen (Q := fun _ => True) ?_ fun id => ?_
  · exact sows_under hp rfl fun s' n' hl hn' _ => sows_append_graph_thread hl hn' graph_ref _
  · split
    · exact keeps_pure trivial
    · exact sows_of_calm self fun _ => calm_write_to_inherited_channels _ _

theorem sows_append_graph_span (hl : s.frames.Linked) (hp : s.frames.find p = some m)
    (graph_ref : GraphRef) (branches : List Branch) (join : NodeId) :
    Sows noFrame (· = p) s (exec (self.append_graph_span p graph_ref branches join) s).2 := by
  refine sows_container self _ hl hp Bool.false_ne_true fun s' id n hl' hn => ?_
  refine Keeps.run (Q := fun _ => True) ?_ (.refl hl')
  exact keeps_forM branches fun branch _ => sows_append_branch hn graph_ref branch

theorem sows_append_graph (hl : s.frames.Linked) (hp : s.frames.find p = some m)
    (graph_id : GraphId) :
    Sows noFrame (· = p) s (exec (self.append_graph p graph_id) s).2 := by
  unfold SessionCheckpointer.append_graph
  split
  · exact .refl hl
  · exact .refl hl
  · rename_i graph_ref _
    split
    · exact .refl hl
    · rename_i spec _
      have hmade := sows_container self
        { frame_policy :=
            { on_child_failed := .FailIfAtLeastHasFailed 1
              resume_policy := .Sequential
              on_start_policy := .AppendGraphThread graph_ref spec.entry }
          spec_ref := .Graph graph_ref
          data := .Graph graph_ref }
        (k := fun _ => pure ()) hl hp Bool.false_ne_true fun s' _ _ hl' _ => .refl hl'
      simpa only [bind_pure_unit] using hmade

theorem sows_append_experts_consultations (hp : s.frames.find p = some m) (hT : T p)
    (requests : List RequestAskExpert) :
    Keeps (Sows H T s) (self.append_experts_consultations p requests) (fun _ => True) := by
  refine keeps_forM requests fun request _ => ?_
  unfold SessionCheckpointer.append_expert_consultation
  refine Keeps.andThen (Q := fun _ => True) ?_ fun _ => keeps_unpolled _
  exact sows_under hp hT fun s' n' hl hn' _ => sows_append_executable hl hn' rfl

theorem sows_append_tool_calls (hl : s.frames.Linked) (hp : s.frames.find p = some m)
    (requests : List RequestToolCall) :
    Sows noFrame (· = p) s (exec (self.append_tool_calls p requests) s).2 := by
  unfold SessionCheckpointer.append_tool_calls SessionCheckpointer.append_tool_aggregator
  simp only [bind_assoc, pure_bind]
  refine sows_container self _ hl hp Bool.false_ne_true fun s' id n hl' hn => ?_
  refine Keeps.run (Q := fun _ => True) ?_ (.refl hl')
  refine keeps_forM requests fun request _ => ?_
  unfold SessionCheckpointer.append_tool_call
  refine (sows_of_calm self fun _ => calm_next_id).andThen fun call => ?_
  refine Keeps.andThen (Q := fun _ => True) ?_ fun _ => keeps_pure trivial
  exact sows_under hn rfl fun s1 n1 hl1 hn1 _ => sows_append_executable hl1 hn1 rfl

/-! ### Handlers -/

/-- The frames under which the dispatch of a result of `f`, whose node is `n`, appends. -/
def PlantsAfter (f : FrameId) (n : FrameNode) (result : FrameResult) (p : FrameId) : Prop :=
  (p = f ∧ result.suspends) ∨ n.parent = some p

theorem sows_resume_frame (hp : H p) :
    Keeps (Sows H T s) (SessionCheckpointer.resume_frame p) (fun _ => True) := by
  unfold SessionCheckpointer.resume_frame
  refine (sows_of_calm (plain true) fun _ => calm_on_resume_policy p).andThen fun policy => ?_
  split
  · exact sows_mark_and_emit hp fun _ => rfl
  · exact sows_mark_completed_frame hp

theorem sows_on_frame_run_update (hf : H f) (job_state : JobState FrameResponse) :
    Keeps (Sows H T s) (SessionCheckpointer.on_frame_run_update f job_state) (fun _ => True) := by
  have hemit : Keeps (Sows H T s) (emit (.FrameRunTerminated f)) (fun _ => True) := by
    intro s' hs
    refine ⟨hs.trans ?_, fun _ _ => trivial⟩
    refine .of_same hs.still_old hs.linked (.refl _) (.refl (Nat.le_refl _)) rfl (fun x hx => ?_)
      fun p c hpc => .inl ?_
    · simpa [exec_emit] using hx
    · simpa [exec_emit] using hpc
  unfold SessionCheckpointer.on_frame_run_update
  split
  · exact (sows_mark_and_emit hf fun _ => rfl).andThen fun _ => hemit
  · exact (sows_mark_and_emit hf fun _ => rfl).andThen fun _ => hemit
  · exact keeps_pure trivial

theorem sows_on_child_frame_terminated (hl : s.frames.Linked) (hp : s.frames.find p = some m)
    (c : FrameId) : Sows (· = p) T s (exec (self.on_child_frame_terminated p c) s).2 := by
  have hold : ∀ x, x = p → x.id < s.frames.next := by
    rintro x rfl
    exact id_lt_next hp
  have hloaded : ∀ t, Loaded s.frames t → Sows (· = p) T s { s with frames := t } := by
    intro t ht
    have hcalm : Calm self s { s with frames := t } := (QuietAct.load ht).calm
    exact (hcalm.sows hl).widen (fun _ hx => hx.elim) hold
  rcases child_terminated_cases self s p c with
    ⟨e, t, ht, hr⟩ | ⟨t, cp, ht, -, -, ⟨-, err, hr⟩ | ⟨-, -, hr⟩ | ⟨-, -, -, hr⟩ | ⟨-, -, hr⟩⟩
  all_goals rw [hr]
  · exact hloaded t ht
  · exact (sows_mark_and_emit (H := (· = p)) rfl fun _ => rfl).run (hloaded t ht)
  · refine Keeps.run (Q := fun _ => True) ?_ (hloaded t ht)
    unfold SessionCheckpointer.join_sequential
    refine (sows_of_calm self fun _ => calm_read p _).andThen fun last => ?_
    split
    · exact sows_mark_and_emit rfl fun _ => rfl
    · refine (sows_of_calm self fun _ => calm_join_last_child p _).andThen fun _ => ?_
      exact sows_resume_frame rfl
  · refine Keeps.run (Q := fun _ => True) ?_ (hloaded t ht)
    unfold SessionCheckpointer.join_fan_in
    exact (sows_of_calm self fun _ => calm_join_children p).andThen fun _ => sows_resume_frame rfl
  · exact hloaded t ht

/-- A dispatch appends under the frame when it suspends, and else under its parent. -/
theorem sows_dispatch {c : FrameNodeContainer} {result : FrameResult} (hl : s.frames.Linked)
    (hc : s.frames.arena f = some c) (hf : H f) (hH : ∀ p, c.node.parent = some p → H p)
    (hT : ∀ p, PlantsAfter f c.node result p → T p) :
    Keeps (Sows H T s) (self.dispatch f result) (fun _ => True) := by
  have hn := find_of_arena hc
  have hparent : Keeps (Sows H T s) (frames (asks (parent_of · f))) (fun o => o = c.node.parent) := by
    intro s' hs
    refine ⟨hs, ?_⟩
    rintro _ ⟨⟩
    obtain ⟨c', hc'⟩ := hs.evolves.resident f c hc
    obtain ⟨n', hn', hk⟩ := hs.found hn
    rw [find_of_arena hc'] at hn'
    cases hn'
    simp [parent_of, hc', hk.parent]
  have hnode : ∀ p, c.node.parent = some p → ∀ graph_ref node_id,
      Keeps (Sows H T s) (self.append_graph_node p graph_ref node_id) (fun _ => True) := by
    intro p hp graph_ref node_id
    obtain ⟨m, hm⟩ := hl.parent f c.node p hn hp
    exact sows_under hm (hT p (.inr hp)) fun s' n' hl' hn' _ =>
      sows_append_graph_node hl' hn' graph_ref node_id
  have hspan : ∀ p, c.node.parent = some p → ∀ graph_ref branches join,
      Keeps (Sows H T s) (self.append_graph_span p graph_ref branches join) (fun _ => True) := by
    intro p hp graph_ref branches join
    obtain ⟨m, hm⟩ := hl.parent f c.node p hn hp
    exact sows_under hm (hT p (.inr hp)) fun s' n' hl' hn' _ =>
      sows_append_graph_span hl' hn' graph_ref branches join
  have hwait := sows_mark_as_waiting_children (T := T) (s := s) hf
  have hdone := sows_mark_completed_frame (T := T) (s := s) hf
  have hreduce : Keeps (Sows H T s) (frames (set_reduce_policy f .Reduce)) (fun _ => True) :=
    sows_of_calm self fun _ => calm_set_reduce_policy _ _
  unfold SessionCheckpointer.dispatch
  cases result with
  | RequestHitl hitl =>
    refine (sows_of_calm self fun _ => calm_request self hitl).andThen fun id => ?_
    refine (sows_of_calm self fun _ => calm_read f _).andThen fun logs => ?_
    exact (keeps_unpolled _).andThen fun _ => (keeps_unpolled _).andThen fun _ => hwait
  | ConsultExperts requests =>
    refine (sows_append_experts_consultations hn (hT f (.inl ⟨rfl, rfl⟩)) requests).andThen fun _ => ?_
    exact (keeps_unpolled _).andThen fun _ => hreduce.andThen fun _ => hwait
  | CallTools requests =>
    have happend : Keeps (Sows H T s) (self.append_tool_calls f requests) (fun _ => True) :=
      sows_under hn (hT f (.inl ⟨rfl, rfl⟩)) fun s' n' hl' hn' _ =>
        sows_append_tool_calls hl' hn' requests
    refine happend.andThen fun _ => ?_
    exact (keeps_unpolled _).andThen fun _ => hreduce.andThen fun _ => hwait
  | ExecuteGraph graph_id =>
    have happend : Keeps (Sows H T s) (self.append_graph f graph_id) (fun _ => True) :=
      sows_under hn (hT f (.inl ⟨rfl, rfl⟩)) fun s' n' hl' hn' _ =>
        sows_append_graph hl' hn' graph_id
    exact happend.andThen fun _ => hwait
  | Continue =>
    refine hparent.bind fun o ho => ?_
    subst ho
    split
    · exact keeps_pure trivial
    · rename_i p hp
      refine (sows_of_calm self fun _ => calm_read f _).andThen fun data => ?_
      split
      · split
        · exact keeps_throw _
        · split
          · exact keeps_pure trivial
          · exact (hnode p hp _ _).andThen fun _ => hdone
      · exact keeps_pure trivial
  | GoTo target =>
    refine hparent.bind fun o ho => ?_
    subst ho
    split
    · exact keeps_pure trivial
    · rename_i p hp
      refine (sows_of_calm self fun _ => calm_read f _).andThen fun data => ?_
      split
      · exact (hnode p hp _ _).andThen fun _ => hdone
      · exact keeps_pure trivial
  | Fork branches join =>
    refine hparent.bind fun o ho => ?_
    subst ho
    split
    · exact keeps_pure trivial
    · rename_i p hp
      refine (sows_of_calm self fun _ => calm_read p _).andThen fun spec_ref => ?_
      split
      · refine (hspan p hp _ _ _).andThen fun _ => ?_
        refine (keeps_unpolled _).andThen fun _ => (keeps_unpolled _).andThen fun _ => ?_
        exact (sows_mark_as_waiting_children (hH p hp)).andThen fun _ => hdone
      · exact keeps_throw _
  | Completed => exact hdone
  | Failed err => exact sows_mark_and_emit hf fun _ => rfl

/-- The frames that are there. -/
def Old (s : State) (x : FrameId) : Prop := x.id < s.frames.next

/-- The frames under which an event appends, besides the new ones. -/
def Plants (s : State) : SessionCheckpointEvent → FrameId → Prop
  | .FrameCreated f, p => p = f ∧ ∃ n, s.frames.find f = some n ∧ n.status = .Pending ∧
    n.frame_policy.on_start_policy ≠ .RunFrame
  | .FrameRunTerminated f, p => ∃ n response, s.frames.find f = some n ∧
    n.status = .RunCompleted response ∧ PlantsAfter f n response.result p
  | _, _ => False

theorem sows_loaded (hl : s.frames.Linked) (f : FrameId) : Sows (Old s) T s (s.loaded f) := by
  have hcalm : Calm (plain true) s (s.loaded f) := calm_loaded s f
  exact (hcalm.sows hl).widen (fun _ hx => hx.elim) fun _ hx => hx

theorem sows_on_frame_run_terminated (hl : s.frames.Linked) :
    Sows (Old s) (Plants s (.FrameRunTerminated f)) s
      (exec (self.on_frame_run_terminated f) s).2 := by
  unfold SessionCheckpointer.on_frame_run_terminated
  cases hn : s.frames.find f with
  | none =>
    rw [status_of, exec_read_none hn]
    exact (Sows.refl hl).widen (fun _ hx => hx.elim) fun _ hx => hx
  | some n =>
    rw [status_of, exec_read hn]
    split
    · rename_i response hst
      obtain ⟨c, hc⟩ := hl.cached f n hn
      have hnode := find_of_arena hc
      rw [hn] at hnode
      cases hnode
      refine Keeps.run (Q := fun _ => True) ?_ (sows_loaded hl f)
      refine (sows_of_calm self fun _ => calm_record_run f response).andThen fun _ => ?_
      refine sows_dispatch hl hc (id_lt_next hn) (fun p hp => ?_) fun p hp => ?_
      · obtain ⟨m, hm⟩ := hl.parent f c.node p hn hp
        exact id_lt_next hm
      · exact ⟨c.node, response, hn, hst, hp⟩
    · exact sows_loaded hl f

/-- The start policy appends under the frame, when it is not a run. -/
theorem sows_on_frame_created (hl : s.frames.Linked) :
    Sows (Old s) (Plants s (.FrameCreated f)) s (exec (self.on_frame_created f) s).2 := by
  unfold SessionCheckpointer.on_frame_created
  cases hn : s.frames.find f with
  | none =>
    rw [status_of, exec_read_none hn]
    exact (Sows.refl hl).widen (fun _ hx => hx.elim) fun _ hx => hx
  | some n =>
    have hf : Old s f := id_lt_next hn
    rw [status_of, exec_read hn]
    cases hstatus : n.status with
    | Pending =>
      have hn1 : (s.loaded f).frames.find f = some n := by rw [State.loaded, find_load, hn]
      have hload : Sows (Old s) (Plants s (.FrameCreated f)) s ((s.loaded f).loaded f) := by
        have hcalm : Calm self s ((s.loaded f).loaded f) := (calm_loaded s f).trans (calm_loaded _ f)
        exact (hcalm.sows hl).widen (fun _ hx => hx.elim) fun _ hx => hx
      have hplant : n.frame_policy.on_start_policy ≠ .RunFrame → Plants s (.FrameCreated f) f :=
        fun hpol => ⟨rfl, n, hn, hstatus, hpol⟩
      have hwait := sows_mark_as_waiting_children (T := Plants s (.FrameCreated f)) (s := s) hf
      simp only
      rw [policy_of, exec_read hn1]
      refine Keeps.run (Q := fun _ => True) ?_ hload
      cases hpol : n.frame_policy.on_start_policy with
      | RunFrame => exact sows_mark_and_emit hf fun _ => rfl
      | AppendGraphThread graph_ref start =>
        have happend : Keeps (Sows (Old s) (Plants s (.FrameCreated f)) s)
            (self.append_graph_thread f graph_ref start) (fun _ => True) :=
          sows_under hn (hplant (by simp [hpol])) fun s' n' hl' hn' _ =>
            sows_append_graph_thread hl' hn' graph_ref start
        exact Keeps.andThen (Q := fun _ => True) happend.ignore fun _ => hwait
      | AppendGraphSpan graph_ref join branches =>
        have happend : Keeps (Sows (Old s) (Plants s (.FrameCreated f)) s)
            (self.append_graph_span f graph_ref branches join) (fun _ => True) :=
          sows_under hn (hplant (by simp [hpol])) fun s' n' hl' hn' _ =>
            sows_append_graph_span hl' hn' graph_ref branches join
        exact Keeps.andThen (Q := fun _ => True) happend.ignore fun _ => hwait
      | AppendGraphNode graph_ref start =>
        have happend : Keeps (Sows (Old s) (Plants s (.FrameCreated f)) s)
            (self.append_graph_node f graph_ref start) (fun _ => True) :=
          sows_under hn (hplant (by simp [hpol])) fun s' n' hl' hn' _ =>
            sows_append_graph_node hl' hn' graph_ref start
        refine Keeps.andThen (Q := fun _ => True) happend.ignore fun _ => ?_
        exact (sows_of_calm self fun _ => calm_set_resume_policy f _).andThen fun _ => hwait
    | _ => exact sows_loaded hl f

theorem sows_on_frame_ready (hl : s.frames.Linked) (f : FrameId) :
    Sows (Old s) T s (exec (self.on_frame_ready f) s).2 := by
  refine Keeps.run (Q := fun _ => True) ?_ ((Sows.refl hl).widen (fun _ hx => hx.elim) fun _ hx => hx)
  unfold SessionCheckpointer.on_frame_ready SessionCheckpointer.run_frame
  refine (sows_of_calm self fun _ => calm_latest f).andThen fun x => ?_
  refine (sows_of_calm self fun _ => calm_read f _).andThen fun logs => ?_
  refine (sows_of_calm self fun _ => calm_read f _).andThen fun data => ?_
  refine (keeps_asks (Q := fun _ => True) fun _ _ => trivial).andThen fun calls => ?_
  refine Keeps.andThen (Q := fun _ => True) (keeps_modify fun s' hs => ?_) fun _ => ?_
  · exact ⟨hs.old, hs.evolves, hs.linked, hs.placed, hs.pending, hs.created, hs.told⟩
  · split
    · exact keeps_pure trivial
    · exact keeps_throw _

/-- The parent of the frame is told of its end. -/
theorem sows_on_frame_terminated (hl : s.frames.Linked) (f : FrameId) :
    Sows (Old s) T s (exec (SessionCheckpointer.on_frame_terminated f) s).2 := by
  have hsame : Sows (Old s) T s s := (Sows.refl hl).widen (fun _ hx => hx.elim) fun _ hx => hx
  unfold SessionCheckpointer.on_frame_terminated
  rw [exec_bind_ok (exec_frames (exec_asks _ s.frames))]
  cases hp : s.frames.parent_of f with
  | none => exact hsame
  | some p =>
    refine { hsame with created := fun x hx => ?_, told := fun q c hqc => ?_ }
    · rcases List.mem_append.mp hx with hx | hx
      · exact .inl hx
      · cases List.mem_singleton.mp hx
    · rcases List.mem_append.mp hqc with hqc | hqc
      · exact .inl hqc
      · cases List.mem_singleton.mp hqc
        unfold parent_of at hp
        obtain ⟨k, hk, hparent⟩ := Option.bind_eq_some_iff.mp hp
        exact .inr ⟨k.node, find_of_arena hk, hparent⟩

theorem sows_on_event (self : SessionCheckpointer) (hl : s.frames.Linked)
    (hstore : ∀ x, s.frames.store x = none) {event : SessionCheckpointEvent}
    (hrun : ∀ f job_state, event = .FrameRunJobStateUpdate f job_state → Old s f)
    (hchild : ∀ p c, event = .ChildFrameTerminated p c → ∃ m, s.frames.find p = some m) :
    Sows (Old s) (Plants s event) s (exec (self.on_event event) s).2 := by
  have hsame : Sows (Old s) (Plants s event) s s :=
    (Sows.refl hl).widen (fun _ hx => hx.elim) fun _ hx => hx
  cases event with
  | SessionCreated => exact hsame
  | HitlAnswered response =>
    change Sows _ _ s (exec (SessionCheckpointer.on_hitl_response response.id response.answers) s).2
    unfold SessionCheckpointer.on_hitl_response frame_id_bound_to_hitl_id
    rw [exec_bind_ok (exec_frames (exec_asks _ s.frames)), get_frame_id_of_empty hstore response.id]
    exact hsame
  | FrameCreated f => exact sows_on_frame_created hl
  | FrameRunJobStateUpdate f job_state =>
    exact (sows_on_frame_run_update (H := Old s) (hrun f job_state rfl) job_state).run hsame
  | FrameReady f => exact sows_on_frame_ready hl f
  | FrameRunTerminated f => exact sows_on_frame_run_terminated hl
  | ChildFrameTerminated p c =>
    obtain ⟨m, hm⟩ := hchild p c rfl
    refine (sows_on_child_frame_terminated hl hm c).widen ?_ fun _ hx => hx
    rintro x rfl
    exact id_lt_next hm
  | FrameTerminated f => exact sows_on_frame_terminated hl f

/-- What an event makes, and what it tells of. -/
theorem sows_step (self : SessionCheckpointer) (hl : s.frames.Linked)
    (hstore : ∀ x, s.frames.store x = none) {event : SessionCheckpointEvent}
    (hrun : ∀ f job_state, event = .FrameRunJobStateUpdate f job_state → Old s f)
    (hchild : ∀ p c, event = .ChildFrameTerminated p c → ∃ m, s.frames.find p = some m) :
    Sows (Old s) (Plants s event) s (self.step s event) := by
  obtain ⟨session_status, hstep⟩ := step_eq self s event
  have hs := sows_on_event self hl hstore hrun hchild
  rw [hstep]
  exact ⟨hs.old, hs.evolves, hs.linked, hs.placed, hs.pending, hs.created, hs.told⟩

end Sows

end marie.session
