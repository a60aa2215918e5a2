-- What a frame in `WaitingChildren` waits for. A child that has not terminated
-- will wake it, and so will a notification that is still in the queue. Here
-- `listeners` is that queue: the events that are sent and not yet taken. Each
-- function of the checkpointer has one law: it takes nothing away from what a
-- frame waits for, and makes no frame wait for nothing.
import Marie.Session.EarlyResume

namespace marie.session

open Program FrameTree

/-! ## What wakes a frame -/

def FrameStatus.is_live (status : FrameStatus) : Bool := !status.has_terminated

namespace FrameTree

/-- The cache has every frame, and parents and children know each other. -/
structure Linked (t : FrameTree) : Prop where
  cached : ∀ x n, t.find x = some n → ∃ k, t.arena x = some k
  children : ∀ p n, t.find p = some n → ∀ c ∈ n.children,
    ∃ m, t.find c = some m ∧ m.parent = some p
  parent : ∀ x n p, t.find x = some n → n.parent = some p → ∃ m, t.find p = some m

def Waits (t : FrameTree) (p : FrameId) : Prop := t.statusIs FrameStatus.is_waiting p

def Live (t : FrameTree) (c : FrameId) : Prop := t.statusIs FrameStatus.is_live c

end FrameTree

/-- A child of `p` has not terminated, or the notification of its end is in the queue. -/
def Attended (s : State) (p : FrameId) : Prop :=
  ∃ c ∈ s.frames.childrenAt p, s.frames.Live c ∨ .FrameTerminated c ∈ s.listeners ∨
    .ChildFrameTerminated p c ∈ s.listeners

/-- From `s` to `s'` the frames stay attended, and a frame that begins to wait is attended, but
for those of `O`. -/
structure Tends (O : FrameId → Prop) (s s' : State) : Prop where
  linked : s.frames.Linked → s'.frames.Linked
  found : ∀ x n, s.frames.find x = some n →
    ∃ n', s'.frames.find x = some n' ∧ n'.parent = n.parent
  attended : ∀ p, Attended s p → Attended s' p
  waits : ∀ p, s'.frames.Waits p → s.frames.Waits p ∨ Attended s' p ∨ O p

/-- As `Tends`, and `p` is attended at the end. -/
structure Attends (O : FrameId → Prop) (p : FrameId) (s s' : State) : Prop extends
  Tends O s s' where
  is_attended : Attended s' p

/-- No frame is left out. -/
def noFrame : FrameId → Prop := fun _ => False

section Relations

variable {O : FrameId → Prop} {s s' s'' : State} {p : FrameId}

theorem Tends.refl (s : State) : Tends O s s where
  linked h := h
  found _ n h := ⟨n, h, rfl⟩
  attended _ h := h
  waits _ h := .inl h

theorem Tends.trans (h : Tends O s s') (h' : Tends O s' s'') : Tends O s s'' where
  linked hl := h'.linked (h.linked hl)
  found x n hn := by
    obtain ⟨n', hn', hp'⟩ := h.found x n hn
    obtain ⟨n'', hn'', hp''⟩ := h'.found x n' hn'
    exact ⟨n'', hn'', hp''.trans hp'⟩
  attended p hp := h'.attended p (h.attended p hp)
  waits p hp := by
    rcases h'.waits p hp with hw | hw
    · rcases h.waits p hw with hw | hw | hw
      · exact .inl hw
      · exact .inr (.inl (h'.attended p hw))
      · exact .inr (.inr hw)
    · exact .inr hw

/-- The one frame that was left out is attended after all. -/
theorem Attends.close (h : Attends (· = p) p s s') : Tends O s s' where
  linked := h.linked
  found := h.found
  attended := h.attended
  waits q hq := by
    rcases h.waits q hq with hw | hw | rfl
    · exact .inl hw
    · exact .inr (.inl hw)
    · exact .inr (.inl h.is_attended)

theorem Attends.trans (h : Attends O p s s') (h' : Tends O s' s'') : Attends O p s s'' :=
  ⟨h.toTends.trans h', h'.attended p h.is_attended⟩

theorem Attends.after (h : Tends O s s') (h' : Attends O p s' s'') : Attends O p s s'' :=
  ⟨h.trans h'.toTends, h'.is_attended⟩

end Relations

/-! ## Changes of the state -/

/-- The links of a node that waiting depends on. -/
def FrameNode.kin (n : FrameNode) : Option FrameId × List FrameId := (n.parent, n.children)

/-- Between two trees the parents and the children stay, and the cache only grows. -/
structure SameLinks (t t' : FrameTree) : Prop where
  node : ∀ x, (t'.find x).map FrameNode.kin = (t.find x).map FrameNode.kin
  resident : ∀ x c, t.arena x = some c → ∃ c', t'.arena x = some c'

/-- The status of the nodes stays as well. -/
structure Quiet (t t' : FrameTree) : Prop extends SameLinks t t' where
  status : ∀ test x, t'.statusIs test x = t.statusIs test x

section Trees

variable {t t' : FrameTree}

theorem SameLinks.refl (t : FrameTree) : SameLinks t t := ⟨fun _ => rfl, fun _ c h => ⟨c, h⟩⟩

theorem SameLinks.load (h : SameLinks t t') (id : FrameId) : SameLinks t (t'.load id) where
  node x := by rw [find_load, h.node]
  resident x c hc := by
    obtain ⟨c', hc'⟩ := h.resident x c hc
    exact ⟨c', ((Loaded.refl t').load id).arena x c' hc'⟩

theorem SameLinks.edit (h : SameLinks t t') {id : FrameId} {f : FrameNode → FrameNode}
    (hf : ∀ n, (f n).kin = n.kin) : SameLinks t (t'.edit id f) where
  node x := by
    rw [← h.node x]
    by_cases hx : x = id
    · subst hx
      cases hc : t'.arena x with
      | none => simp [find, FrameTree.edit, hc]
      | some c => simp [find_edit_self hc, find_of_arena hc, hf]
    · rw [find_edit_ne hx]
  resident x c hc := by
    obtain ⟨c', hc'⟩ := h.resident x c hc
    by_cases hx : x = id
    · subst hx
      exact ⟨⟨f c'.node, true⟩, by simp [FrameTree.edit, hc']⟩
    · exact ⟨c', by simp [FrameTree.edit, hx, hc']⟩

theorem SameLinks.old (h : SameLinks t t') {x : FrameId} {n' : FrameNode}
    (hn' : t'.find x = some n') : ∃ n, t.find x = some n ∧ n'.kin = n.kin := by
  have hx := h.node x
  rw [hn', Option.map_some] at hx
  obtain ⟨n, hn, hlinks⟩ := Option.map_eq_some_iff.mp hx.symm
  exact ⟨n, hn, hlinks.symm⟩

theorem SameLinks.found (h : SameLinks t t') {x : FrameId} {n : FrameNode}
    (hn : t.find x = some n) : ∃ n', t'.find x = some n' ∧ n'.kin = n.kin := by
  have hx := h.node x
  rw [hn, Option.map_some] at hx
  exact Option.map_eq_some_iff.mp hx

theorem SameLinks.childrenAt (h : SameLinks t t') (x : FrameId) :
    t'.childrenAt x = t.childrenAt x := by
  have hx := congrArg (Option.map (·.2)) (h.node x)
  simp only [Option.map_map] at hx
  exact congrArg (·.getD []) hx

theorem SameLinks.linked (h : SameLinks t t') (hl : t.Linked) : t'.Linked where
  cached x n' hn' := by
    obtain ⟨n, hn, -⟩ := h.old hn'
    obtain ⟨k, hk⟩ := hl.cached x n hn
    exact h.resident x k hk
  children p n' hn' c hc := by
    obtain ⟨n, hn, hlinks⟩ := h.old hn'
    have hchildren : n'.children = n.children := congrArg (·.2) hlinks
    rw [hchildren] at hc
    obtain ⟨m, hm, hparent⟩ := hl.children p n hn c hc
    obtain ⟨m', hm', hlinks'⟩ := h.found hm
    exact ⟨m', hm', (congrArg (·.1) hlinks').trans hparent⟩
  parent x n' p hn' hp := by
    obtain ⟨n, hn, hlinks⟩ := h.old hn'
    obtain ⟨m, hm⟩ := hl.parent x n p hn ((congrArg (·.1) hlinks).symm.trans hp)
    obtain ⟨m', hm', -⟩ := h.found hm
    exact ⟨m', hm'⟩

theorem Quiet.refl (t : FrameTree) : Quiet t t := ⟨.refl t, fun _ _ => rfl⟩

theorem Quiet.load (h : Quiet t t') (id : FrameId) : Quiet t (t'.load id) where
  toSameLinks := h.toSameLinks.load id
  status test x := by rw [← h.status test x, statusIs, find_load, statusIs]

theorem Quiet.edit (h : Quiet t t') {id : FrameId} {f : FrameNode → FrameNode}
    (hf : ∀ n, (f n).kin = n.kin) (hs : ∀ n, (f n).status = n.status) :
    Quiet t (t'.edit id f) where
  toSameLinks := h.toSameLinks.edit hf
  status test x := by
    rw [← h.status test x, statusIs, statusIs]
    by_cases hx : x = id
    · subst hx
      cases hc : t'.arena x with
      | none => simp [find, FrameTree.edit, hc]
      | some c => simp [find_edit_self hc, find_of_arena hc, hs]
    · rw [find_edit_ne hx]

end Trees

/-! ### A new child -/

section Append

variable {t : FrameTree} {p : FrameId} {n : FrameNode}

/-- An old node keeps all but its children, and only `p` gets one. -/
theorem found_append (hl : t.Linked) (hp : t.find p = some n) (args : NewFrameNodeArgs)
    {x : FrameId} {m : FrameNode} (hm : t.find x = some m) :
    ∃ m', (t.append p args).2.find x = some m' ∧ m'.status = m.status ∧ m'.parent = m.parent ∧
      m'.children = if x = p then m.children ++ [⟨t.next⟩] else m.children := by
  obtain ⟨c, hc⟩ := hl.cached p n hp
  obtain ⟨cx, hcx⟩ := hl.cached x m hm
  rw [find_of_arena hcx] at hm
  cases hm
  obtain ⟨c', hc', hbare, hparent, hchildren⟩ := append_node hc args hcx
  exact ⟨c'.node, find_of_arena hc', FrameNode.of_bare (·.status) (fun _ => rfl) hbare, hparent,
    hchildren⟩

/-- The nodes of the new tree: the new one, and the old ones. -/
theorem old_append (hl : t.Linked) (hp : t.find p = some n) (args : NewFrameNodeArgs)
    {x : FrameId} {m' : FrameNode} (hm' : (t.append p args).2.find x = some m') :
    (x = ⟨t.next⟩ ∧ m'.status = .Pending ∧ m'.parent = some p ∧ m'.children = []) ∨
      ∃ m, t.find x = some m := by
  obtain ⟨c, hc⟩ := hl.cached p n hp
  by_cases hx : x = ⟨t.next⟩
  · subst hx
    obtain ⟨new, hnew, hbare, hparent, hchildren⟩ := append_new hc args
    rw [find_of_arena hnew] at hm'
    cases hm'
    exact .inl ⟨rfl, FrameNode.of_bare (·.status) (fun _ => rfl) hbare, hparent, hchildren⟩
  · right
    cases hcx : t.arena x with
    | some cx => exact ⟨cx.node, find_of_arena hcx⟩
    | none =>
      rw [find_of_not_resident (append_absent hc args hcx hx), append_store hc,
        ← find_of_not_resident hcx] at hm'
      exact ⟨m', hm'⟩

theorem new_append (hl : t.Linked) (hp : t.find p = some n) (args : NewFrameNodeArgs) :
    ∃ m, (t.append p args).2.find ⟨t.next⟩ = some m ∧ m.status = .Pending ∧
      m.parent = some p := by
  obtain ⟨c, hc⟩ := hl.cached p n hp
  obtain ⟨new, hnew, hbare, hparent, -⟩ := append_new hc args
  exact ⟨new, find_of_arena hnew, FrameNode.of_bare (·.status) (fun _ => rfl) hbare, hparent⟩

theorem cached_append (hl : t.Linked) (hp : t.find p = some n) (args : NewFrameNodeArgs)
    {x : FrameId} {m' : FrameNode} (hm' : (t.append p args).2.find x = some m') :
    ∃ k, (t.append p args).2.arena x = some k := by
  obtain ⟨c, hc⟩ := hl.cached p n hp
  rcases old_append hl hp args hm' with ⟨rfl, -⟩ | ⟨m, hm⟩
  · obtain ⟨new, hnew, -⟩ := append_new hc args
    exact ⟨_, hnew⟩
  · obtain ⟨cx, hcx⟩ := hl.cached x m hm
    obtain ⟨c', hc', -⟩ := append_node hc args hcx
    exact ⟨c', hc'⟩

theorem linked_append (hl : t.Linked) (hp : t.find p = some n) (args : NewFrameNodeArgs) :
    (t.append p args).2.Linked where
  cached _ _ hm' := cached_append hl hp args hm'
  children x m' hm' c hc := by
    rcases old_append hl hp args hm' with ⟨-, -, -, hnone⟩ | ⟨m, hm⟩
    · rw [hnone] at hc
      cases hc
    · obtain ⟨m'', hm'', -, -, hchildren⟩ := found_append hl hp args hm
      rw [hm'] at hm''
      cases hm''
      have hkept : c ∈ m.children → ∃ k, (t.append p args).2.find c = some k ∧ k.parent = some x := by
        intro hc
        obtain ⟨k, hk, hpk⟩ := hl.children x m hm c hc
        obtain ⟨k', hk', -, hpk', -⟩ := found_append hl hp args hk
        exact ⟨k', hk', hpk'.trans hpk⟩
      rw [hchildren] at hc
      split at hc
      · subst x
        rcases List.mem_append.mp hc with hc | hc
        · exact hkept hc
        · obtain rfl := List.mem_singleton.mp hc
          obtain ⟨k, hk, -, hpk⟩ := new_append hl hp args
          exact ⟨k, hk, hpk⟩
      · exact hkept hc
  parent x m' q hm' hq := by
    have hold : ∃ k, t.find q = some k := by
      rcases old_append hl hp args hm' with ⟨-, -, hparent, -⟩ | ⟨m, hm⟩
      · rw [hparent] at hq
        cases hq
        exact ⟨n, hp⟩
      · obtain ⟨m'', hm'', -, hparent, -⟩ := found_append hl hp args hm
        rw [hm'] at hm''
        cases hm''
        exact hl.parent x m q hm (hparent.symm.trans hq)
    obtain ⟨k, hk⟩ := hold
    obtain ⟨k', hk', -⟩ := found_append hl hp args hk
    exact ⟨k', hk'⟩

end Append

/-! ### The law of a change -/

section Changes

variable {O : FrameId → Prop} {s s' : State} {p f : FrameId} {n : FrameNode}

theorem Attended.mono (h : Attended s p) (events : List SessionCheckpointEvent)
    (hchildren : s.frames.childrenAt p ⊆ s'.frames.childrenAt p)
    (hlive : ∀ c, s.frames.Live c → s'.frames.Live c ∨ .FrameTerminated c ∈ events)
    (hl : s'.listeners = s.listeners ++ events) : Attended s' p := by
  obtain ⟨c, hc, hwake⟩ := h
  refine ⟨c, hchildren hc, ?_⟩
  rw [hl]
  rcases hwake with hwake | hwake | hwake
  · rcases hlive c hwake with hwake | hwake
    · exact .inl hwake
    · exact .inr (.inl (List.mem_append_right _ hwake))
  · exact .inr (.inl (List.mem_append_left _ hwake))
  · exact .inr (.inr (List.mem_append_left _ hwake))

/-- A change of what waiting does not depend on; some events may be sent. -/
theorem Tends.of_quiet (events : List SessionCheckpointEvent) (h : Quiet s.frames s'.frames)
    (hl : s'.listeners = s.listeners ++ events) : Tends O s s' where
  linked := h.linked
  found x n hn := by
    obtain ⟨n', hn', hlinks⟩ := h.found hn
    exact ⟨n', hn', congrArg (·.1) hlinks⟩
  attended p hp := by
    refine hp.mono events (by rw [h.childrenAt]; exact List.Subset.refl _) (fun c hc => .inl ?_) hl
    rw [Live, h.status]
    exact hc
  waits p hp := by
    rw [Waits, h.status] at hp
    exact .inl hp

/-- The status of `f` is written. A frame that terminates says so, and a frame that waits is
attended or left out. -/
theorem Tends.marked (hf : s.frames.find f = some n) {status : FrameStatus}
    {events : List SessionCheckpointEvent}
    (hend : status.has_terminated → .FrameTerminated f ∈ events)
    (hwait : status.is_waiting → Attended s f ∨ O f) :
    Tends O s ((s.marked f status).emits events) := by
  have hlinks : SameLinks s.frames ((s.marked f status).emits events).frames :=
    ((SameLinks.refl _).load f).edit (f := fun n => { n with status }) fun _ => rfl
  have hstatus : ∀ test x, ((s.marked f status).emits events).frames.statusIs test x =
      if x = f then test status else s.frames.statusIs test x := by
    intro test x
    change statusIs test (s.marked f status).frames x = _
    rw [statusIs, find_marked hf]
    split <;> rfl
  have hattended : ∀ p, Attended s p → Attended ((s.marked f status).emits events) p := by
    intro p hp
    refine hp.mono events (by rw [hlinks.childrenAt]; exact List.Subset.refl _) (fun c hc => ?_) rfl
    rw [Live, hstatus]
    by_cases hcf : c = f
    · subst hcf
      cases hst : status.has_terminated with
      | true => exact .inr (hend hst)
      | false => exact .inl (by simp [FrameStatus.is_live, hst])
    · exact .inl (by rw [if_neg hcf]; exact hc)
  refine ⟨hlinks.linked, ?_, hattended, ?_⟩
  · intro x m hm
    obtain ⟨m', hm', hl⟩ := hlinks.found hm
    exact ⟨m', hm', congrArg (·.1) hl⟩
  · intro p hp
    rw [Waits, hstatus] at hp
    by_cases hpf : p = f
    · subst hpf
      rw [if_pos rfl] at hp
      rcases hwait hp with h | h
      · exact .inr (.inl (hattended p h))
      · exact .inr (.inr h)
    · rw [if_neg hpf] at hp
      exact .inl hp

/-- The state with a new child of `p`. -/
def State.appended (s : State) (p : FrameId) (args : NewFrameNodeArgs) : State :=
  { s with frames := (s.frames.append p args).2 }

/-- A new child attends its parent. -/
theorem Attends.appended (hl : s.frames.Linked) (hp : s.frames.find p = some n)
    (args : NewFrameNodeArgs) : Attends O p s (s.appended p args) where
  linked _ := linked_append hl hp args
  found x m hm := by
    obtain ⟨m', hm', -, hparent, -⟩ := found_append hl hp args hm
    exact ⟨m', hm', hparent⟩
  attended q hq := by
    refine hq.mono [] ?_ (fun c hc => .inl ?_) (by simp [State.appended])
    · unfold childrenAt
      cases hm : s.frames.find q with
      | none => simp
      | some m =>
        obtain ⟨m', hm', -, -, hchildren⟩ := found_append hl hp args hm
        simp only [State.appended, hm', hchildren, Option.map_some, Option.getD_some]
        split
        · exact List.subset_append_left _ _
        · exact List.Subset.refl _
    · unfold Live statusIs at *
      cases hm : s.frames.find c with
      | none => simp [hm] at hc
      | some m =>
        obtain ⟨m', hm', hstatus, -⟩ := found_append hl hp args hm
        simpa [State.appended, hm', hstatus, hm] using hc
  waits q hq := by
    unfold Waits statusIs at *
    cases hm' : (s.frames.append p args).2.find q with
    | none => simp [State.appended, hm'] at hq
    | some m' =>
      simp only [State.appended, hm', Option.map_some, Option.getD_some] at hq
      rcases old_append hl hp args hm' with ⟨-, hpending, -⟩ | ⟨m, hm⟩
      · rw [hpending] at hq
        cases hq
      · obtain ⟨m'', hm'', hstatus, -⟩ := found_append hl hp args hm
        rw [hm'] at hm''
        cases hm''
        rw [hstatus] at hq
        exact .inl (by simpa [hm] using hq)
  is_attended := by
    obtain ⟨m', hm', -, -, hchildren⟩ := found_append hl hp args hp
    obtain ⟨new, hnew, hpending, -⟩ := new_append hl hp args
    refine ⟨⟨s.frames.next⟩, ?_, .inl ?_⟩
    · simp [childrenAt, State.appended, hm', hchildren]
    · simp [Live, statusIs, State.appended, hnew, hpending, FrameStatus.is_live,
        FrameStatus.has_terminated]

end Changes

/-! ## Calls -/

section Calls

variable {self : SessionCheckpointer} {O : FrameId → Prop} {s : State} {f p : FrameId}

theorem Quiet.of_loaded {t t' : FrameTree} (h : Loaded t t') : Quiet t t' where
  node x := by rw [h.find]
  resident x c hc := ⟨c, h.arena x c hc⟩
  status test x := h.statusIs test x

theorem tends_frames {α : Type} {m : Tree α} {Q : α → Prop} (h : ∀ t, Keeps (Quiet t) m Q) :
    Keeps (Tends O s) (frames m) Q := by
  intro s' hs
  obtain ⟨h1, h2⟩ := h s'.frames s'.frames (.refl _)
  exact ⟨hs.trans (.of_quiet [] h1 (by simp [frames])), h2⟩

theorem tends_read {α : Type} (f : FrameId) (φ : FrameNode → α) :
    Keeps (Tends O s) (frames (do pure (φ (← FrameTree.get f)))) (fun _ => True) :=
  tends_frames fun _ => keeps_read (fun _ id h => h.load id) f φ

theorem tends_asks {α : Type} (φ : FrameTree → α) :
    Keeps (Tends O s) (frames (asks φ)) (fun _ => True) :=
  tends_frames fun _ => keeps_asks fun _ _ => trivial

theorem tends_common_spec_of (f : FrameId) :
    Keeps (Tends O s) (frames (common_spec_of self.graphs f)) (fun _ => True) :=
  tends_frames fun _ => keeps_common_spec_of (fun _ id h => h.load id) _ f

theorem tends_write {φ : FrameNode → FrameNode} (hlinks : ∀ n, (φ n).kin = n.kin)
    (hstatus : ∀ n, (φ n).status = n.status) :
    Keeps (Tends O s) (frames (write f φ)) (fun _ => True) :=
  tends_frames fun _ => keeps_write (fun _ id h => h.load id) fun _ h => h.edit hlinks hstatus

/-- A change outside of the frames that sends nothing. -/
theorem tends_modify {g : State → State} (hframes : ∀ s, (g s).frames = s.frames)
    (hl : ∀ s, (g s).listeners = s.listeners) :
    Keeps (Tends O s) (modify g : Ckp Unit) (fun _ => True) := by
  refine keeps_modify fun s' hs => hs.trans (.of_quiet [] ?_ (by simp [hl]))
  rw [hframes]
  exact .refl _

theorem tends_snapshots {α : Type} (m : Snaps α) :
    Keeps (Tends O s) (snapshots m) (fun _ => True) :=
  fun _ hs => ⟨hs.trans (.of_quiet [] (.refl _) (by simp [snapshots])), fun _ _ => trivial⟩

theorem tends_emit (event : SessionCheckpointEvent) :
    Keeps (Tends O s) (emit event) (fun _ => True) :=
  keeps_modify fun _ hs => hs.trans (.of_quiet [event] (.refl _) rfl)

theorem tends_next_id : Keeps (Tends O s) next_id (fun _ => True) := by
  refine (keeps_asks (Q := fun _ => True) fun _ _ => trivial).andThen fun id => ?_
  refine Keeps.andThen (Q := fun _ => True) ?_ fun _ => keeps_pure trivial
  exact tends_modify (fun _ => rfl) fun _ => rfl

theorem tends_request (self : SessionCheckpointer) (hitl : Hitl) :
    Keeps (Tends O s) (self.request hitl) (fun _ => True) := by
  refine tends_next_id.andThen fun id => ?_
  split
  · refine Keeps.andThen (Q := fun _ => True) ?_ fun _ => keeps_pure trivial
    exact tends_modify (fun _ => rfl) fun _ => rfl
  · exact keeps_throw _

/-! ### Marks -/

/-- A mark of a frame, when the frame is there. -/
theorem tends_mark {m : Ckp Unit} (status : FrameStatus)
    (events : FrameNode → List SessionCheckpointEvent)
    (hnone : ∀ s', s'.frames.find f = none → (exec m s').2 = s')
    (hsome : ∀ s' n, s'.frames.find f = some n →
      (exec m s').2 = (s'.marked f status).emits (events n))
    (hend : status.has_terminated → ∀ n, .FrameTerminated f ∈ events n)
    (hwait : status.is_waiting → Attended s f ∨ O f) :
    Keeps (Tends O s) m (fun _ => True) := by
  intro s' hs
  refine ⟨?_, fun _ _ => trivial⟩
  cases hf : s'.frames.find f with
  | none => rw [hnone s' hf]; exact hs
  | some n =>
    rw [hsome s' n hf]
    refine hs.trans (.marked hf (fun h => hend h n) fun h => ?_)
    exact (hwait h).imp (hs.attended f) id

theorem exec_set_status_emit (status : FrameStatus) (event : SessionCheckpointEvent) :
    (∀ s, s.frames.find f = none →
      (exec (frames (set_status f status) >>= fun _ => emit event) s).2 = s) ∧
    ∀ s n, s.frames.find f = some n →
      (exec (frames (set_status f status) >>= fun _ => emit event) s).2 =
        (s.marked f status).emits [event] := by
  refine ⟨fun s hf => ?_, fun s n hf => ?_⟩
  · rw [exec_bind_error (exec_set_status_none hf status)]
  · rw [exec_bind_ok (exec_set_status hf status)]
    rfl

theorem tends_mark_ready_to_run_frame :
    Keeps (Tends O s) (mark_ready_to_run_frame f) (fun _ => True) :=
  tends_mark _ (fun _ => [_]) (exec_set_status_emit _ _).1 (exec_set_status_emit _ _).2
    (by simp [FrameStatus.has_terminated]) (by simp [FrameStatus.is_waiting])

theorem tends_mark_frame_run_completed (response : FrameResponse) :
    Keeps (Tends O s) (mark_frame_run_completed f response) (fun _ => True) :=
  tends_mark _ (fun _ => [_]) (exec_set_status_emit _ _).1 (exec_set_status_emit _ _).2
    (by simp [FrameStatus.has_terminated]) (by simp [FrameStatus.is_waiting])

theorem tends_mark_frame_run_failed (error : WorkerError) :
    Keeps (Tends O s) (mark_frame_run_failed f error) (fun _ => True) :=
  tends_mark _ (fun _ => [_]) (exec_set_status_emit _ _).1 (exec_set_status_emit _ _).2
    (by simp [FrameStatus.has_terminated]) (by simp [FrameStatus.is_waiting])

theorem tends_mark_failed_frame (err : String) :
    Keeps (Tends O s) (mark_failed_frame err f) (fun _ => True) :=
  tends_mark _ (fun _ => [_]) (exec_set_status_emit _ _).1 (exec_set_status_emit _ _).2
    (by simp) (by simp [FrameStatus.is_waiting])

theorem tends_mark_completed_frame :
    Keeps (Tends O s) (mark_completed_frame f) (fun _ => True) := by
  refine tends_mark (f := f) .Completed (fun n => .FrameTerminated f ::
    (n.parent.map (SessionCheckpointEvent.ChildFrameTerminated · f)).toList) ?_ ?_ (by simp)
    (by simp [FrameStatus.is_waiting])
  · intro s' hf
    unfold mark_completed_frame
    rw [exec_bind_error (exec_set_status_none hf _)]
  · intro s' n hf
    rw [exec_mark_completed hf]

/-- A frame may begin to wait when it is attended. -/
theorem tends_mark_as_waiting_children (h : Attended s f ∨ O f) :
    Keeps (Tends O s) (mark_as_waiting_children f) (fun _ => True) := by
  refine tends_mark .WaitingChildren (fun _ => []) ?_ ?_
    (by simp [FrameStatus.has_terminated]) fun _ => h
  · intro s' hf
    exact congrArg Prod.snd (exec_set_status_none hf _)
  · intro s' n hf
    refine (congrArg Prod.snd (exec_set_status hf _)).trans ?_
    simp [State.emits]

/-! ### New frames -/

theorem tends_write_to_inherited_channels (f : FrameId) (values : List (ChannelName × Value)) :
    Keeps (Tends O s) (self.write_to_inherited_channels f values) (fun _ => True) := by
  unfold SessionCheckpointer.write_to_inherited_channels
  refine (tends_common_spec_of f).andThen fun spec => ?_
  refine (tends_frames fun _ => keeps_try_get (fun _ id h => h.load id) _ f).andThen fun _ => ?_
  exact tends_write (fun _ => rfl) fun _ => rfl

theorem tends_inherit_from (source f : FrameId) :
    Keeps (Tends O s) (self.inherit_from source f) (fun _ => True) := by
  unfold SessionCheckpointer.inherit_from
  refine (tends_snapshots _).andThen fun x => ?_
  refine (tends_common_spec_of f).andThen fun spec => ?_
  exact tends_write (fun _ => rfl) fun _ => rfl

theorem tends_inherit_channels (policy : FramePolicy) (p f : FrameId) :
    Keeps (Tends O s) (self.inherit_channels policy p f) (fun _ => True) :=
  self.keeps_inherit_channels fun source => tends_inherit_from source f

/-- The session has the frame `p`. -/
structure Stands (p : FrameId) (s : State) : Prop where
  linked : s.frames.Linked
  found : ∃ n, s.frames.find p = some n

theorem Tends.stands {s' : State} (h : Tends O s s') (hp : Stands p s) : Stands p s' := by
  obtain ⟨n, hn⟩ := hp.found
  obtain ⟨n', hn', -⟩ := h.found p n hn
  exact ⟨h.linked hp.linked, n', hn'⟩

/-- A program that attends `p` from each state that has it. -/
theorem tends_of_attends {α : Type} {m : Ckp α}
    (h : ∀ s', Stands p s' → Attends O p s' (exec m s').2) (hp : Stands p s) :
    Keeps (Tends O s) m (fun _ => True) :=
  fun s' hs => ⟨hs.trans (h s' (hs.stands hp)).toTends, fun _ _ => trivial⟩

theorem Attends.bind {α β : Type} {m : Ckp α} {k : α → Ckp β} {Q : β → Prop}
    (h : Attends O p s (exec m s).2)
    (hk : ∀ a s', Attends O p s s' → Keeps (Tends O s') (k a) Q) :
    Attends O p s (exec (m >>= k) s).2 := by
  rw [exec_bind]
  rcases hr : exec m s with ⟨r, s'⟩
  rw [hr] at h
  cases r with
  | error e => exact h
  | ok a => exact h.trans ((hk a s' h).run (.refl s'))

/-- The rest of `append_frame`, once the tree has the new frame. -/
theorem tends_fill (self : SessionCheckpointer) (p id : FrameId) :
    Keeps (Tends O s) (do
      let policy ← frames (policy_of p)
      let spec ← frames (common_spec_of self.graphs id)
      frames (write id (·.extend_inherited spec.default_values))
      self.inherit_channels policy p id
      emit (.FrameCreated id)
      pure id) (fun x => x = id) := by
  refine (tends_read p _).andThen fun policy => ?_
  refine (tends_common_spec_of _).andThen fun spec => ?_
  refine Keeps.andThen (Q := fun _ => True) (tends_write ?_ ?_) fun _ => ?_
  · exact fun _ => rfl
  · exact fun _ => rfl
  refine (tends_inherit_channels _ _ _).andThen fun _ => (tends_emit _).andThen fun _ => ?_
  exact keeps_pure rfl

/-- The frame is a child of `p` from the first step on, whatever stops the call after it. -/
theorem attends_append_frame (hp : Stands p s) (args : NewFrameNodeArgs) :
    Attends O p s (exec (self.append_frame p args) s).2 ∧
      ∀ id, (exec (self.append_frame p args) s).1 = .ok id →
        Stands id (exec (self.append_frame p args) s).2 := by
  obtain ⟨n, hn⟩ := hp.found
  have hnew : Attends O p s (s.appended p args) := .appended hp.linked hn args
  have hid : (s.frames.append p args).1 = ⟨s.frames.next⟩ := by
    obtain ⟨c, hc⟩ := hp.linked.cached p n hn
    rw [append_eq hc]
  have hstands : Stands (s.frames.append p args).1 (s.appended p args) := by
    obtain ⟨m, hm, -⟩ := new_append hp.linked hn args
    rw [hid]
    exact ⟨hnew.linked hp.linked, m, hm⟩
  unfold SessionCheckpointer.append_frame
  rw [exec_bind_ok (exec_asks State.frames s), exec_bind_ok (exec_modify _ s)]
  obtain ⟨h1, h2⟩ := tends_fill self (O := O) p (s.frames.append p args).1
    (s.appended p args) (.refl _)
  refine ⟨hnew.trans h1, fun id hid => ?_⟩
  obtain rfl := h2 id hid
  exact h1.stands hstands

theorem attends_append_graph_node (hp : Stands p s) (graph_ref : GraphRef) (node_id : NodeId) :
    Attends O p s (exec (self.append_graph_node p graph_ref node_id) s).2 :=
  (attends_append_frame hp _).1.bind fun _ _ _ => keeps_pure (Q := fun _ => True) trivial

/-- A frame that waits before it has its children: it is attended with the first of them. -/
theorem tends_wait_then {α : Type} {m : Ckp α} (hf : Stands f s)
    (hm : ∀ s', Stands f s' → Attends (· = f) f s' (exec m s').2) :
    Tends O s (exec (mark_as_waiting_children f >>= fun _ => m) s).2 := by
  obtain ⟨n, hn⟩ := hf.found
  unfold mark_as_waiting_children
  rw [exec_bind_ok (exec_set_status hn _)]
  have hmark : Tends (· = f) s ((s.marked f .WaitingChildren).emits []) :=
    .marked hn (by simp [FrameStatus.has_terminated]) fun _ => .inr rfl
  simp only [State.emits, List.append_nil] at hmark
  have hrest := hm _ (hmark.stands hf)
  exact (Attends.after hmark hrest).close

theorem attends_forM {α : Type} {m : α → Ckp PUnit} {xs : List α} (hxs : xs ≠ [])
    (hm : ∀ s', Stands p s' → ∀ x, Attends O p s' (exec (m x) s').2) (hp : Stands p s) :
    Attends O p s (exec (xs.forM m) s).2 := by
  cases xs with
  | nil => exact absurd rfl hxs
  | cons x xs =>
    refine (hm s hp x).bind (Q := fun _ => True) fun _ s' hs => ?_
    exact keeps_forM xs fun y _ =>
      tends_of_attends (fun s'' h => hm s'' h y) (hs.toTends.stands hp)

/-- A child of `p` that waits and gets its own children. -/
theorem attends_append_waiting {α : Type} {args : NewFrameNodeArgs} {m : FrameId → Ckp α}
    (hp : Stands p s)
    (hm : ∀ id s', Stands id s' → Attends (· = id) id s' (exec (m id) s').2) :
    Attends O p s (exec (self.append_frame p args >>= fun id => do
      mark_as_waiting_children id
      m id) s).2 := by
  obtain ⟨h1, hid⟩ : Attends O p s (exec (self.append_frame p args) s).2 ∧ _ :=
    attends_append_frame hp args
  rw [exec_bind]
  rcases hr : exec (self.append_frame p args) s with ⟨r, s'⟩
  rw [hr] at h1 hid
  cases r with
  | error e => exact h1
  | ok id => exact h1.trans (tends_wait_then (hid id rfl) (hm id))

theorem attends_append_graph_thread (hp : Stands p s) (graph_ref : GraphRef) (start : NodeId) :
    Attends O p s (exec (self.append_graph_thread p graph_ref start) s).2 := by
  unfold SessionCheckpointer.append_graph_thread
  refine attends_append_waiting hp fun thread_id s' hs => ?_
  exact (attends_append_graph_node hs _ _).bind fun _ _ _ => keeps_pure (Q := fun _ => True) trivial

theorem attends_append_branch (hp : Stands p s) (graph_ref : GraphRef) (branch : Branch) :
    Attends O p s (exec (self.append_branch p graph_ref branch) s).2 := by
  unfold SessionCheckpointer.append_branch
  refine (attends_append_graph_thread hp _ _).bind (Q := fun _ => True) fun frame_id _ _ => ?_
  split
  · exact keeps_pure trivial
  · exact tends_write_to_inherited_channels _ _

theorem attends_append_graph_span (hp : Stands p s) (graph_ref : GraphRef)
    {branches : List Branch} (join : NodeId) (hne : branches ≠ []) :
    Attends O p s (exec (self.append_graph_span p graph_ref branches join) s).2 := by
  unfold SessionCheckpointer.append_graph_span
  refine attends_append_waiting hp fun span_id s' hs => ?_
  exact attends_forM hne (fun _ h branch => attends_append_branch h _ branch) hs

theorem attends_append_experts_consultations (hp : Stands p s) {requests : List RequestAskExpert}
    (hne : requests ≠ []) :
    Attends O p s (exec (self.append_experts_consultations p requests) s).2 := by
  unfold SessionCheckpointer.append_experts_consultations
  refine attends_forM hne (fun _ h request => ?_) hp
  exact (attends_append_frame h _).1.bind fun _ _ _ => keeps_unpolled _

theorem attends_append_tool_calls (hp : Stands p s) {requests : List RequestToolCall}
    (hne : requests ≠ []) :
    Attends O p s (exec (self.append_tool_calls p requests) s).2 := by
  unfold SessionCheckpointer.append_tool_calls SessionCheckpointer.append_tool_aggregator
  simp only [bind_assoc, pure_bind]
  refine attends_append_waiting hp fun agg_id s' hs => ?_
  refine attends_forM hne (fun s1 h request => ?_) hs
  unfold SessionCheckpointer.append_tool_call next_id
  simp only [bind_assoc, pure_bind]
  rw [exec_bind_ok (exec_asks _ s1), exec_bind_ok (exec_modify _ s1)]
  have hid : Tends (· = agg_id) s1 { s1 with next_id := s1.next_id + 1 } :=
    .of_quiet [] (.refl _) (by simp)
  refine Attends.after hid ?_
  exact (attends_append_frame (hid.stands h) _).1.bind fun _ _ _ =>
    keeps_pure (Q := fun _ => True) trivial

/-! ### Joins -/

theorem tends_commit_snapshot (f : FrameId) (expected : Nat) (updates : List ChannelUpdate)
    (join_sources : List SnapshotRef) :
    Keeps (Tends O s) (self.commit_snapshot f expected updates join_sources) (fun _ => True) := by
  unfold SessionCheckpointer.commit_snapshot
  refine (tends_snapshots _).andThen fun last => ?_
  split
  · exact keeps_throw _
  · refine Keeps.andThen (Q := fun _ => True) ?_ fun channels => ?_
    · unfold SessionCheckpointer.apply_updates
      split
      · exact keeps_pure trivial
      · exact (tends_common_spec_of _).andThen fun _ => keeps_pure trivial
    · split
      · exact keeps_throw _
      · unfold SessionCheckpointer.push
        refine (tends_snapshots _).andThen fun ref => ?_
        refine Keeps.andThen (Q := fun _ => True) ?_ fun _ => keeps_pure trivial
        exact tends_modify (fun s => by split <;> rfl) fun s => by split <;> rfl

theorem tends_drain_pending_accumulators (f : FrameId) (relevants : List FrameId) :
    Keeps (Tends O s) (self.drain_pending_accumulators f relevants) (fun _ => True) := by
  unfold SessionCheckpointer.drain_pending_accumulators
  refine (tends_common_spec_of _).andThen fun spec => ?_
  refine (keeps_foldlM relevants [] fun m x _ => ?_).andThen fun _ => keeps_pure trivial
  unfold SessionCheckpointer.drain_child
  refine (tends_common_spec_of _).andThen fun _ => ?_
  exact (tends_snapshots _).andThen fun _ => keeps_pure trivial

theorem tends_resolve_log (f : FrameId) (index : Nat) (value : Value) :
    Keeps (Tends O s) (frames (resolve_log f index value)) (fun _ => True) :=
  tends_write (fun _ => rfl) fun _ => rfl

theorem tends_resolve_pending_log (f : FrameId) (relevants : List FrameId) :
    Keeps (Tends O s) (self.resolve_pending_log f relevants) (fun _ => True) := by
  unfold SessionCheckpointer.resolve_pending_log
  refine (tends_read f _).andThen fun o => ?_
  split
  · rename_i pending
    induction relevants with
    | nil => exact keeps_pure trivial
    | cons x relevants ih =>
      unfold SessionCheckpointer.resolve_from
      refine (tends_read x _).andThen fun spec_ref => ?_
      refine (tends_snapshots _).andThen fun snapshot => ?_
      refine Keeps.andThen (Q := fun _ => True) ?_ fun value => ?_
      · unfold SessionCheckpointer.resolved_by
        split
        · exact keeps_pure trivial
        · exact keeps_pure trivial
        · exact keeps_pure trivial
        · exact (tends_common_spec_of _).andThen fun _ => keeps_pure trivial
        · exact keeps_pure trivial
      · split
        · exact tends_resolve_log _ _ _
        · exact ih
  · exact keeps_pure trivial

theorem tends_resume_frame (f : FrameId) :
    Keeps (Tends O s) (SessionCheckpointer.resume_frame f) (fun _ => True) := by
  unfold SessionCheckpointer.resume_frame
  have hread : ∀ t, Keeps (Quiet t) (on_resume_policy f) (fun _ => True) := fun t =>
    (keeps_read (fun _ id h => h.load id) f _).andThen fun _ => keeps_pure trivial
  refine (tends_frames hread).andThen fun policy => ?_
  split
  · exact tends_mark_ready_to_run_frame
  · exact tends_mark_completed_frame

theorem tends_join_sequential (f : FrameId) :
    Keeps (Tends O s) (self.join_sequential f) (fun _ => True) := by
  unfold SessionCheckpointer.join_sequential
  refine (tends_read f _).andThen fun o => ?_
  split
  · exact tends_mark_ready_to_run_frame
  · refine Keeps.andThen (Q := fun _ => True) ?_ fun _ => tends_resume_frame f
    unfold SessionCheckpointer.join_last_child SessionCheckpointer.commit_last_child
    refine (tends_read _ _).andThen fun status => ?_
    split
    · refine (tends_snapshots _).andThen fun x => (tends_snapshots _).andThen fun y => ?_
      refine (tends_drain_pending_accumulators _ _).andThen fun updates => ?_
      refine (tends_commit_snapshot _ _ _ _).andThen fun _ => ?_
      exact tends_resolve_pending_log _ _
    · exact keeps_pure trivial

theorem tends_join_fan_in (f : FrameId) :
    Keeps (Tends O s) (self.join_fan_in f) (fun _ => True) := by
  unfold SessionCheckpointer.join_fan_in SessionCheckpointer.join_children
  refine Keeps.andThen (Q := fun _ => True) ?_ fun _ => tends_resume_frame f
  refine (tends_snapshots _).andThen fun x => ?_
  refine (tends_asks _).andThen fun ids => ?_
  refine (keeps_filterM ids fun y _ => ?_).andThen fun relevants => ?_
  · exact (tends_read y _).andThen fun _ => keeps_pure trivial
  refine (keeps_mapM relevants fun y _ => ?_).andThen fun sources => ?_
  · exact (tends_snapshots _).andThen fun _ => keeps_pure trivial
  refine (tends_drain_pending_accumulators _ _).andThen fun updates => ?_
  refine (tends_commit_snapshot _ _ _ _).andThen fun _ => ?_
  exact tends_resolve_pending_log _ _

end Calls

/-! ## Handlers -/

/-- The result of a run of `f` gives every frame that will wait something to wait for: the
frames that `dispatch` marks get children, or `f` is attended already. -/
def ProvidesFor (s : State) (f : FrameId) : FrameResult → Prop
  | .RequestHitl _ => Attended s f
  | .ConsultExperts requests => requests = [] → Attended s f
  | .CallTools requests => requests ≠ []
  | .ExecuteGraph _ => False
  | .Fork branches _ => branches ≠ []
  | _ => True

section Handlers

variable {self : SessionCheckpointer} {s : State}

theorem tends_record_run (f : FrameId) (response : FrameResponse) :
    Keeps (Tends noFrame s) (self.record_run f response) (fun _ => True) := by
  unfold SessionCheckpointer.record_run SessionCheckpointer.commit_updates
  refine Keeps.andThen (Q := fun _ => True) ?_ fun _ => ?_
  · split
    · exact keeps_pure trivial
    · refine (tends_snapshots _).andThen fun x => ?_
      exact (tends_commit_snapshot _ _ _ _).andThen fun _ => keeps_pure trivial
  · unfold append_logs
    split
    · exact keeps_pure trivial
    · exact tends_write (fun _ => rfl) fun _ => rfl

/-- The parent of a frame of the session. -/
theorem tends_parent_of {f : FrameId} (hf : Stands f s) :
    Keeps (Tends noFrame s) (frames (asks (parent_of · f)))
      (fun o => ∀ p, o = some p → Stands p s) := by
  intro s' hs
  refine ⟨(tends_asks _).run hs, ?_⟩
  rintro _ ⟨⟩ p hp
  obtain ⟨n, hn⟩ := hf.found
  obtain ⟨n', hn', hparent⟩ := hs.found f n hn
  obtain ⟨k, hk⟩ := (hs.linked hf.linked).cached f n' hn'
  rw [find_of_arena hk] at hn'
  cases hn'
  simp only [parent_of, hk, Option.bind_some, hparent] at hp
  exact ⟨hf.linked, hf.linked.parent f n p hn hp⟩

theorem tends_append_graph_node {p : FrameId} (hp : Stands p s) (graph_ref : GraphRef)
    (node_id : NodeId) :
    Keeps (Tends noFrame s) (self.append_graph_node p graph_ref node_id) (fun _ => True) :=
  tends_of_attends (fun _ h => attends_append_graph_node h _ _) hp

/-- The two ends of the branches of experts and tools. -/
theorem tends_reduce_and_wait {f : FrameId} (h : Attended s f) :
    Keeps (Tends noFrame s) (do
      unpolled (frames (set_resume_policy f .FanIn))
      frames (set_reduce_policy f .Reduce)
      mark_as_waiting_children f) (fun _ => True) := by
  refine (keeps_unpolled _).andThen fun _ => ?_
  refine (tends_frames fun _ => keeps_set_reduce_policy (fun _ id h => h.load id) f _).andThen
    fun _ => ?_
  exact tends_mark_as_waiting_children (.inl h)

theorem tends_dispatch {f : FrameId} {result : FrameResult} (hf : Stands f s)
    (hresult : ProvidesFor s f result) :
    Tends noFrame s (exec (self.dispatch f result) s).2 := by
  unfold SessionCheckpointer.dispatch
  cases result with
  | RequestHitl hitl =>
    refine Keeps.run (Q := fun _ => True) ?_ (.refl s)
    refine (tends_request self hitl).andThen fun id => (tends_read f _).andThen fun logs => ?_
    refine (keeps_unpolled _).andThen fun _ => (keeps_unpolled _).andThen fun _ => ?_
    exact tends_mark_as_waiting_children (.inl hresult)
  | ConsultExperts requests =>
    by_cases hne : requests = []
    · subst hne
      exact (tends_reduce_and_wait (hresult rfl)).run (.refl s)
    · exact ((attends_append_experts_consultations hf hne).bind
        fun _ s' hs => tends_reduce_and_wait hs.is_attended).toTends
  | CallTools requests =>
    exact ((attends_append_tool_calls hf hresult).bind
      fun _ s' hs => tends_reduce_and_wait hs.is_attended).toTends
  | ExecuteGraph graph_id => exact hresult.elim
  | Continue =>
    refine Keeps.run (Q := fun _ => True) ?_ (.refl s)
    refine (tends_parent_of hf).bind fun o ho => ?_
    split
    · exact keeps_pure trivial
    · rename_i p
      refine (tends_read f _).andThen fun data => ?_
      split
      · split
        · exact keeps_throw _
        · split
          · exact keeps_pure trivial
          · refine (tends_append_graph_node (ho p rfl) _ _).andThen fun _ => ?_
            exact tends_mark_completed_frame
      · exact keeps_pure trivial
  | GoTo node_id =>
    refine Keeps.run (Q := fun _ => True) ?_ (.refl s)
    refine (tends_parent_of hf).bind fun o ho => ?_
    split
    · exact keeps_pure trivial
    · rename_i p
      refine (tends_read f _).andThen fun data => ?_
      split
      · refine (tends_append_graph_node (ho p rfl) _ _).andThen fun _ => ?_
        exact tends_mark_completed_frame
      · exact keeps_pure trivial
  | Fork branches join =>
    refine Keeps.run (Q := fun _ => True) ?_ (.refl s)
    refine (tends_parent_of hf).bind fun o ho => ?_
    split
    · exact keeps_pure trivial
    · rename_i p
      refine (tends_read p _).andThen fun spec_ref => ?_
      split
      · refine tends_of_attends (fun s' hs => ?_) (ho p rfl)
        refine (attends_append_graph_span hs _ join hresult).bind (Q := fun _ => True) fun _ s1 h1 => ?_
        refine (keeps_unpolled _).andThen fun _ => (keeps_unpolled _).andThen fun _ => ?_
        refine (tends_mark_as_waiting_children (.inl h1.is_attended)).andThen fun _ => ?_
        exact tends_mark_completed_frame
      · exact keeps_throw _
  | Completed => exact tends_mark_completed_frame.run (.refl s)
  | Failed err => exact (tends_mark_failed_frame err).run (.refl s)

theorem ProvidesFor.mono {f : FrameId} {result : FrameResult} {s' : State}
    (h : ProvidesFor s f result) (hs : Tends noFrame s s') : ProvidesFor s' f result := by
  cases result with
  | RequestHitl hitl => exact hs.attended f h
  | ConsultExperts requests => exact fun hnone => hs.attended f (h hnone)
  | _ => exact h

/-- What an event needs to find, so that no frame waits for nothing after it. -/
def Provides (s : State) : SessionCheckpointEvent → Prop
  | .FrameCreated f => ∀ n graph_ref join, s.frames.find f = some n →
      n.frame_policy.on_start_policy ≠ .AppendGraphSpan graph_ref join []
  | .FrameRunTerminated f => ∀ n response, s.frames.find f = some n →
      n.status = .RunCompleted response → ProvidesFor s f response.result
  | _ => True

/-- An expansion whose errors are ignored, before the frame waits. -/
theorem tends_expand {α : Type} {f : FrameId} {m : Ckp α} {k : Ckp Unit}
    (h : Attends noFrame f s (exec m s).2)
    (hk : ∀ s', Attended s' f → Keeps (Tends noFrame s') k (fun _ => True)) :
    Tends noFrame s (exec (ignore Fault.isError m >>= fun _ => k) s).2 := by
  rw [← exec_ignore_state Fault.isError] at h
  exact (h.bind fun _ s' hs => hk s' hs.is_attended).toTends

theorem tends_on_frame_created (hl : s.frames.Linked) {f : FrameId}
    (h : Provides s (.FrameCreated f)) :
    Tends noFrame s (exec (self.on_frame_created f) s).2 := by
  unfold SessionCheckpointer.on_frame_created
  cases hn : s.frames.find f with
  | none => rw [status_of, exec_read_none hn]; exact .refl s
  | some n =>
    have hload : ∀ s', Tends noFrame s' (s'.loaded f) := fun s' =>
      .of_quiet [] ((Quiet.refl _).load f) (by simp [State.loaded])
    have hf : Stands f ((s.loaded f).loaded f) :=
      ((hload s).trans (hload _)).stands ⟨hl, n, hn⟩
    have hn' : (s.loaded f).frames.find f = some n := by rw [State.loaded, find_load, hn]
    rw [status_of, exec_read hn]
    cases hstatus : n.status with
    | Pending =>
      simp only
      rw [policy_of, exec_read hn']
      refine ((hload s).trans (hload _)).trans ?_
      cases hstart : n.frame_policy.on_start_policy with
      | RunFrame => exact tends_mark_ready_to_run_frame.run (.refl _)
      | AppendGraphThread graph_ref start =>
        exact tends_expand (attends_append_graph_thread hf _ _) fun s' hs =>
          tends_mark_as_waiting_children (.inl hs)
      | AppendGraphSpan graph_ref join branches =>
        have hne : branches ≠ [] := by
          rintro rfl
          exact h n graph_ref join hn hstart
        exact tends_expand (attends_append_graph_span hf _ _ hne) fun s' hs =>
          tends_mark_as_waiting_children (.inl hs)
      | AppendGraphNode graph_ref start =>
        refine tends_expand (attends_append_graph_node hf _ _) fun s' hs => ?_
        refine (tends_frames fun _ =>
          keeps_set_resume_policy (fun _ id h => h.load id) f _).andThen fun _ => ?_
        exact tends_mark_as_waiting_children (.inl hs)
    | _ => exact hload s

theorem tends_on_frame_run_terminated (hl : s.frames.Linked) {f : FrameId}
    (h : Provides s (.FrameRunTerminated f)) :
    Tends noFrame s (exec (self.on_frame_run_terminated f) s).2 := by
  unfold SessionCheckpointer.on_frame_run_terminated
  cases hn : s.frames.find f with
  | none => rw [status_of, exec_read_none hn]; exact .refl s
  | some n =>
    have hload : Tends noFrame s (s.loaded f) :=
      .of_quiet [] ((Quiet.refl _).load f) (by simp [State.loaded])
    rw [status_of, exec_read hn]
    cases hstatus : n.status with
    | RunCompleted response =>
      simp only
      refine Keeps.before (tends_record_run f response) (fun _ hs => hload.trans hs) ?_
        (s.loaded f) (.refl _)
      intro _ _ s' hs
      have hs' := hload.trans hs
      exact hs'.trans (tends_dispatch (hs'.stands ⟨hl, n, hn⟩)
        ((h n response hn hstatus).mono hs'))
    | _ => exact hload

theorem tends_on_hitl_response (response : HitlResponse) :
    Tends noFrame s (exec (SessionCheckpointer.on_hitl_response response.id response.answers) s).2 := by
  unfold SessionCheckpointer.on_hitl_response frame_id_bound_to_hitl_id
  refine Keeps.run (Q := fun _ => True) ?_ (.refl s)
  refine (tends_asks _).andThen fun o => ?_
  split
  · exact keeps_pure trivial
  · rename_i f
    refine (tends_read f _).andThen fun o => ?_
    split
    · exact keeps_throw _
    · refine (tends_resolve_log f _ _).andThen fun _ => ?_
      exact tends_mark_ready_to_run_frame.andThen fun _ => keeps_throw _

theorem tends_on_frame_run_update (f : FrameId) (job_state : JobState FrameResponse) :
    Keeps (Tends noFrame s) (SessionCheckpointer.on_frame_run_update f job_state)
      (fun _ => True) := by
  unfold SessionCheckpointer.on_frame_run_update
  split
  · exact (tends_mark_frame_run_completed _).andThen fun _ => tends_emit _
  · exact (tends_mark_frame_run_failed _).andThen fun _ => tends_emit _
  · exact keeps_pure trivial

theorem tends_on_frame_ready (f : FrameId) :
    Keeps (Tends noFrame s) (self.on_frame_ready f) (fun _ => True) := by
  unfold SessionCheckpointer.on_frame_ready SessionCheckpointer.run_frame
  refine (tends_snapshots _).andThen fun x => (tends_read f _).andThen fun logs => ?_
  refine (tends_read f _).andThen fun data => ?_
  refine (keeps_asks (Q := fun _ => True) fun _ _ => trivial).andThen fun calls => ?_
  refine Keeps.andThen (Q := fun _ => True) ?_ fun _ => ?_
  · exact tends_modify (fun _ => rfl) fun _ => rfl
  · split
    · exact keeps_pure trivial
    · exact keeps_throw _

theorem tends_on_frame_terminated (f : FrameId) :
    Keeps (Tends noFrame s) (SessionCheckpointer.on_frame_terminated f) (fun _ => True) := by
  unfold SessionCheckpointer.on_frame_terminated
  refine (tends_asks _).andThen fun o => ?_
  split
  · exact tends_emit _
  · exact keeps_pure trivial

theorem tends_of_loaded {t : FrameTree} (h : Loaded s.frames t) :
    Tends noFrame s { s with frames := t } :=
  .of_quiet [] (.of_loaded h) (by simp)

theorem tends_on_child_frame_terminated (p c : FrameId) :
    Tends noFrame s (exec (self.on_child_frame_terminated p c) s).2 := by
  rcases child_terminated_cases self s p c with
    ⟨e, t, ht, hr⟩ | ⟨t, cp, ht, hfind, hcp, hcase⟩
  · rw [hr]
    exact tends_of_loaded ht
  · rcases hcase with ⟨hfires, err, hr⟩ | ⟨-, hpol, hr⟩ | ⟨-, hpol, hall, hr⟩ | ⟨-, -, hr⟩
    · rw [hr]
      exact (tends_mark_failed_frame err).run (tends_of_loaded ht)
    · rw [hr]
      exact (tends_join_sequential p).run (tends_of_loaded ht)
    · rw [hr]
      exact (tends_join_fan_in p).run (tends_of_loaded ht)
    · rw [hr]
      exact tends_of_loaded ht

/-- **Attendance**: an event that finds what it needs leaves each frame attended. -/
theorem tends_on_event (self : SessionCheckpointer) (hl : s.frames.Linked)
    {event : SessionCheckpointEvent} (h : Provides s event) :
    Tends noFrame s (exec (self.on_event event) s).2 := by
  cases event with
  | SessionCreated => exact .refl s
  | HitlAnswered response => exact tends_on_hitl_response response
  | FrameCreated f => exact tends_on_frame_created hl h
  | FrameRunJobStateUpdate f job_state => exact (tends_on_frame_run_update f job_state).run (.refl s)
  | FrameReady f => exact (tends_on_frame_ready f).run (.refl s)
  | FrameRunTerminated f => exact tends_on_frame_run_terminated hl h
  | ChildFrameTerminated p c => exact tends_on_child_frame_terminated p c
  | FrameTerminated f => exact (tends_on_frame_terminated f).run (.refl s)

end Handlers

end marie.session
