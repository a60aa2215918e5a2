-- The laws of the turns. A node has one run: from the event that tells of its
-- frame to the event that ends its run, it is told of once. A turn keeps this,
-- and what the queue says of the frames, and the walk.
import Mathlib.Data.List.Nodup
import Marie.Session.GraphWalk

namespace marie.session

open Program FrameTree

/-! ## One run for each node -/

/-- The run of `f` is still to come after this event. -/
def SessionCheckpointEvent.isTurn (f : FrameId) : SessionCheckpointEvent → Bool
  | .FrameCreated g | .FrameReady g | .FrameRunJobStateUpdate g (.Completed _)
  | .FrameRunJobStateUpdate g (.Failed _) => g = f
  | _ => false

/-- The event hands the run of `f` over: to the worker, or to its end. -/
def SessionCheckpointEvent.isRun (f : FrameId) : SessionCheckpointEvent → Bool
  | .FrameReady g | .FrameRunJobStateUpdate g (.Completed _)
  | .FrameRunJobStateUpdate g (.Failed _) => g = f
  | _ => false

/-- The run of the node is over. -/
def FrameStatus.spent : FrameStatus → Nat
  | .RunCompleted _ | .RunFailed _ | .Completed | .Failed _ => 1
  | _ => 0

/-- What the queue says of the frames is true of them. -/
def Known (w : Walk) (o : Outline) (next : Nat) : SessionCheckpointEvent → Prop
  | .FrameCreated f | .FrameReady f => f.id < next
  | .FrameRunJobStateUpdate f state => f.id < next ∧ ∀ response, state = .Completed response →
      (∃ k, o f = some k ∧ k.run ≠ none) ∧ response.result = w.oracle f
  | .ChildFrameTerminated p _ => ∃ k, o p = some k ∧ k.run = none
  | _ => True

section Turns

variable {w : Walk} {o o' : Outline} {next made : Nat} {event : SessionCheckpointEvent}
  {sent : List SessionCheckpointEvent} {f g p : FrameId} {k k' : Part} {status : FrameStatus}

theorem isTurn_created (g : FrameId) (next made : Nat) :
    (created next made).countP (SessionCheckpointEvent.isTurn g) = (List.range' next made).count g.id := by
  unfold created
  rw [List.countP_map, List.count]
  refine List.countP_congr fun i _ => ?_
  obtain ⟨g⟩ := g
  simp [SessionCheckpointEvent.isTurn]

theorem isTurn_created_le (g : FrameId) (next made : Nat) :
    (created next made).countP (SessionCheckpointEvent.isTurn g) ≤ 1 := by
  rw [isTurn_created]
  exact List.nodup_iff_count_le_one.mp List.nodup_range' g.id

theorem isTurn_created_old (hg : g.id < next) (made : Nat) :
    (created next made).countP (SessionCheckpointEvent.isTurn g) = 0 := by
  rw [isTurn_created, List.count_eq_zero]
  intro hmem
  exact absurd (List.mem_range'_1.mp hmem).1 (Nat.not_le.mpr hg)

/-- A mark changes the run of one node. -/
theorem run_of_mark (h : o.mark f status g = some k') {new : FrameStatus} (hrun : k'.run = some new) :
    ∃ k old, o g = some k ∧ k.run = some old ∧ (g = f ∧ new = status ∨ g ≠ f ∧ new = old) := by
  by_cases hg : g = f
  · subst hg
    simp only [Outline.mark, if_true, Option.map_eq_some_iff] at h
    obtain ⟨k, hk, rfl⟩ := h
    obtain ⟨old, hold, rfl⟩ := Option.map_eq_some_iff.mp hrun
    exact ⟨k, old, hk, hold, .inl ⟨rfl, rfl⟩⟩
  · rw [Outline.mark_ne hg] at h
    exact ⟨k', new, h, hrun, .inr ⟨hg, rfl⟩⟩

/-- A node of a larger outline is an old one, or has not run. -/
theorem Outline.Extends.run (h : o.Extends o') (hk : o' g = some k') {new : FrameStatus}
    (hrun : k'.run = some new) :
    (∃ k, o g = some k ∧ k.run = some new) ∨ (o g = none ∧ new = .Pending) := by
  cases hg : o g with
  | none =>
    rcases h.new g k' hg hk with hnone | hpending
    · rw [hnone] at hrun
      cases hrun
    · rw [hpending] at hrun
      cases hrun
      exact .inr ⟨rfl, rfl⟩
  | some k =>
    obtain ⟨m, hm, -, -, hsame⟩ := h.old g k hg
    rw [hk] at hm
    cases hm
    exact .inl ⟨k, rfl, hsame.symm.trans hrun⟩

/-- The frames that are there have smaller identifiers. -/
theorem Outline.Fresh.lt (h : o.Fresh next) (hk : o f = some k) : f.id < next := by
  by_contra hge
  rw [h f (Nat.le_of_not_lt hge)] at hk
  cases hk

/-- The thread of the root, and its first node. -/
theorem extends_starts (hfresh : o.Fresh next) :
    o.Extends ((o.grow ⟨0⟩ ⟨next⟩ (.GraphThread w.graph_ref)).grow ⟨next⟩ ⟨next + 1⟩
      (.GraphNode w.graph_ref w.entry)) :=
  (Outline.extends_grow (hfresh _ (Nat.le_refl _))).trans
    (Outline.extends_grow (hfresh.grow _ _ _ (Nat.le_refl _)))

/-- The run of a node after a turn: a new node has not run, and an old one is where it was, or
where the event brings it. -/
theorem Turn.old_run (h : Turn w o next event o' made sent) (hfresh : o.Fresh next)
    (hk : o' g = some k') {new : FrameStatus} (hrun : k'.run = some new) :
    (o g = none ∧ new = .Pending) ∨ ∃ k old, o g = some k ∧ k.run = some old ∧
      (new = old ∨ (event = .FrameCreated g ∧ old = .Pending ∧ new = .Ready) ∨
        (∃ response, event = .FrameRunJobStateUpdate g (.Completed response) ∧
          new = .RunCompleted response) ∨
        (∃ error, event = .FrameRunJobStateUpdate g (.Failed error) ∧
          new = .RunFailed error.to_string) ∨
        (event = .FrameRunTerminated g ∧ (∃ response, old = .RunCompleted response) ∧
          new = .Completed)) := by
  cases h with
  | rests | resumes | tells => exact .inr ⟨k', new, hk, hrun, .inl rfl⟩
  | readies hf hpending =>
    obtain ⟨k, old, hg, hold, ⟨rfl, rfl⟩ | ⟨-, rfl⟩⟩ := run_of_mark hk hrun
    · rw [hf] at hg
      cases hg
      exact .inr ⟨_, old, hf, hold, .inr (.inl ⟨rfl, hpending old hold, rfl⟩)⟩
    · exact .inr ⟨k, _, hg, hold, .inl rfl⟩
  | completes response hf =>
    obtain ⟨k, old, hg, hold, ⟨rfl, rfl⟩ | ⟨-, rfl⟩⟩ := run_of_mark hk hrun
    · exact .inr ⟨k, old, hg, hold, .inr (.inr (.inl ⟨response, rfl, rfl⟩))⟩
    · exact .inr ⟨k, _, hg, hold, .inl rfl⟩
  | fails error hf =>
    obtain ⟨k, old, hg, hold, ⟨rfl, rfl⟩ | ⟨-, rfl⟩⟩ := run_of_mark hk hrun
    · exact .inr ⟨k, old, hg, hold, .inr (.inr (.inr (.inl ⟨error, rfl, rfl⟩)))⟩
    · exact .inr ⟨k, _, hg, hold, .inl rfl⟩
  | starts =>
    rcases (extends_starts hfresh).run hk hrun with ⟨k, hg, hold⟩ | hnew
    · exact .inr ⟨k, new, hg, hold, .inl rfl⟩
    · exact .inl hnew
  | @walks f p kf kp node_id response hf hkind hfrun =>
    have hextends : o.Extends (w.adds o next p node_id response.result) :=
      Walk.extends_adds hfresh response.result
    obtain ⟨k, old, hg, hold, hcase⟩ := run_of_mark hk hrun
    rcases hcase with ⟨rfl, rfl⟩ | ⟨hne, rfl⟩
    · obtain ⟨m, hm, -, -, hsame⟩ := hextends.old g kf hf
      rw [hg] at hm
      cases hm
      exact .inr ⟨kf, _, hf, hfrun, .inr (.inr (.inr (.inr ⟨rfl, ⟨response, rfl⟩, rfl⟩)))⟩
    · rcases hextends.run hg hold with ⟨m, hm, hmold⟩ | hnew
      · exact .inr ⟨m, new, hm, hmold, .inl rfl⟩
      · exact .inl hnew

/-- An event that is no turn of `g` hands over no run of it. -/
theorem isRun_le_isTurn (g : FrameId) (event : SessionCheckpointEvent) :
    (event.isRun g).toNat ≤ (event.isTurn g).toNat := by
  cases event with
  | FrameRunJobStateUpdate f state =>
    cases state <;> simp [SessionCheckpointEvent.isRun, SessionCheckpointEvent.isTurn]
  | FrameReady f => exact Nat.le_refl _
  | _ => exact Nat.zero_le _

/-- A turn of `g` is told on once at most, and not at all when its run is handed over. -/
theorem Turn.tells_once (h : Turn w o next event o' made sent) (hg : g.id < next) (hk : o g = some k)
    (hrun : k.run ≠ none) :
    sent.countP (·.isTurn g) + (event.isRun g).toNat ≤ (event.isTurn g).toNat := by
  cases h with
  | rests =>
    rw [List.countP_nil, Nat.zero_add]
    exact isRun_le_isTurn g event
  | @readies f _ hf hpending =>
    by_cases hfg : f = g <;> simp [SessionCheckpointEvent.isRun, SessionCheckpointEvent.isTurn, hfg]
  | starts => simp [isTurn_created_old hg, SessionCheckpointEvent.isRun]
  | completes response hf => simp [SessionCheckpointEvent.isRun, SessionCheckpointEvent.isTurn]
  | fails error hf => simp [SessionCheckpointEvent.isRun, SessionCheckpointEvent.isTurn]
  | walks =>
    rw [List.countP_append, isTurn_created_old hg]
    simp [SessionCheckpointEvent.isRun, SessionCheckpointEvent.isTurn]
  | @resumes p c _ hplain hsent =>
    have hnone : sent.countP (·.isTurn g) = 0 := by
      rw [List.countP_eq_zero]
      intro event hmem hturn
      have hup := hsent event hmem
      cases event with
      | FrameReady f =>
        have hf : f = g := of_decide_eq_true hturn
        rw [← hf, show f = p from hup] at hk
        exact hrun (hplain k hk)
      | FrameCreated f => exact hup
      | FrameRunJobStateUpdate f state => exact hup
      | _ => cases hturn
    rw [hnone]
    exact Nat.le_refl 0
  | tells hf hparent => simp [SessionCheckpointEvent.isRun, SessionCheckpointEvent.isTurn]

/-- A new frame is told of once. -/
theorem Turn.tells_new (h : Turn w o next event o' made sent) (hg : o g = none)
    (hnew : o' g ≠ none) : sent.countP (·.isTurn g) ≤ 1 := by
  have hmark : ∀ {f : FrameId} {status : FrameStatus}, (o.mark f status) g = none := by
    intro f status
    by_cases hf : g = f
    · simp [Outline.mark, hf.symm, hg]
    · rw [Outline.mark_ne hf, hg]
  cases h with
  | rests | resumes | tells => exact absurd hg hnew
  | readies | completes | fails => exact absurd hmark hnew
  | starts => exact isTurn_created_le g _ _
  | walks =>
    rw [List.countP_append]
    exact isTurn_created_le g _ _

/-- The run of a node is over by the event that hands it to its end. -/
theorem Turn.spent (h : Turn w o next event o' made sent) (hfresh : o.Fresh next) (hk : o g = some k)
    {old new : FrameStatus} (hold : k.run = some old) (hk' : o' g = some k') (hnew : k'.run = some new) :
    new.spent ≤ old.spent ∨
      ∃ state, event = .FrameRunJobStateUpdate g state ∧ (event.isRun g) ∧ new.spent ≤ 1 := by
  rcases h.old_run hfresh hk' hnew with ⟨hnone, -⟩ | ⟨m, mold, hm, hmold, hcase⟩
  · rw [hk] at hnone
    cases hnone
  rw [hk] at hm
  cases hm
  rw [hold] at hmold
  cases hmold
  rcases hcase with rfl | ⟨-, rfl, rfl⟩ | ⟨response, rfl, rfl⟩ | ⟨error, rfl, rfl⟩ |
    ⟨-, ⟨response, rfl⟩, rfl⟩
  · exact .inl (Nat.le_refl _)
  · exact .inl (Nat.le_refl _)
  · exact .inr ⟨_, rfl, by simp [SessionCheckpointEvent.isRun], Nat.le_refl _⟩
  · exact .inr ⟨_, rfl, by simp [SessionCheckpointEvent.isRun], Nat.le_refl _⟩
  · exact .inl (Nat.le_refl _)

/-- The end of a run leaves no run that has completed. -/
theorem Turn.ends_run (h : Turn w o next (.FrameRunTerminated f) o' made sent)
    (hk : o' f = some k') {response : FrameResponse} : k'.run ≠ some (.RunCompleted response) := by
  intro hrun
  cases h with
  | rests hrest => exact hrest k' response hk hrun
  | walks =>
    obtain ⟨m, old, hm, hold, ⟨-, hst⟩ | ⟨hne, -⟩⟩ := run_of_mark hk hrun
    · cases hst
    · exact hne rfl

theorem Turn.tells_end {response : FrameResponse}
    (h : Turn w o next (.FrameRunJobStateUpdate f (.Completed response)) o' made sent) :
    .FrameRunTerminated f ∈ sent := by
  cases h with
  | rests hrest => exact hrest.elim
  | completes => exact List.mem_cons_self

/-! ### The frames, and what is known of them -/

/-- A frame keeps its parent, and whether it runs. -/
theorem Turn.later (h : Turn w o next event o' made sent) (hfresh : o.Fresh next)
    (hk : o g = some k) :
    ∃ k', o' g = some k' ∧ k'.parent = k.parent ∧ (k'.run = none ↔ k.run = none) := by
  have hmark : ∀ {o : Outline} {f : FrameId} {status : FrameStatus} {k : Part}, o g = some k →
      ∃ k', o.mark f status g = some k' ∧ k'.parent = k.parent ∧ (k'.run = none ↔ k.run = none) := by
    intro o f status k hk
    by_cases hf : g = f
    · subst hf
      exact ⟨{ k with run := k.run.map fun _ => status }, by simp [Outline.mark, hk], rfl,
        Option.map_eq_none_iff⟩
    · exact ⟨k, by rw [Outline.mark_ne hf, hk], rfl, Iff.rfl⟩
  cases h with
  | rests | resumes | tells => exact ⟨k, hk, rfl, Iff.rfl⟩
  | readies | completes | fails => exact hmark hk
  | starts =>
    obtain ⟨k', hk', -, hparent, hrun⟩ := (extends_starts (w := w) hfresh).old g k hk
    exact ⟨k', hk', hparent, by rw [hrun]⟩
  | @walks f p _ _ node_id response =>
    have hextends : o.Extends (w.adds o next p node_id response.result) :=
      Walk.extends_adds hfresh response.result
    obtain ⟨k', hk', -, hparent, hrun⟩ := hextends.old g k hk
    obtain ⟨k'', hk'', hparent', hrun'⟩ := hmark hk'
    exact ⟨k'', hk'', hparent'.trans hparent, by rw [hrun', hrun]⟩

/-- The identifiers of new frames are new. -/
theorem Turn.new_id (h : Turn w o next event o' made sent) (hg : o g = none) (hnew : o' g ≠ none) :
    next ≤ g.id := by
  by_contra hlt
  push Not at hlt
  have hmark : ∀ {o : Outline} {f : FrameId} {status : FrameStatus}, o g = none →
      o.mark f status g = none := by
    intro o f status hg
    unfold Outline.mark
    split <;> simp [hg]
  cases h with
  | rests | resumes | tells => exact hnew hg
  | readies | completes | fails => exact hnew (hmark hg)
  | starts => exact hnew (Outline.grow_none (by simp only; omega) (Outline.grow_none hlt hg))
  | walks => exact hnew (hmark (Walk.adds_none hlt hg))

theorem Known.later (h : Turn w o next event o' made sent) (hfresh : o.Fresh next)
    {e : SessionCheckpointEvent} (hknown : Known w o next e) : Known w o' (next + made) e := by
  cases e with
  | FrameCreated f => exact Nat.lt_of_lt_of_le hknown (Nat.le_add_right _ _)
  | FrameReady f => exact Nat.lt_of_lt_of_le hknown (Nat.le_add_right _ _)
  | FrameRunJobStateUpdate f state =>
    refine ⟨Nat.lt_of_lt_of_le hknown.1 (Nat.le_add_right _ _), fun response hr => ?_⟩
    obtain ⟨⟨k, hk, hrun⟩, hresult⟩ := hknown.2 response hr
    obtain ⟨k', hk', -, hsame⟩ := h.later hfresh hk
    exact ⟨⟨k', hk', fun hnone => hrun (hsame.mp hnone)⟩, hresult⟩
  | ChildFrameTerminated p c =>
    obtain ⟨k, hk, hrun⟩ := hknown
    obtain ⟨k', hk', -, hsame⟩ := h.later hfresh hk
    exact ⟨k', hk', hsame.mpr hrun⟩
  | _ => trivial

/-- What is sent is true of the frames. -/
theorem Turn.known (h : Turn w o next event o' made sent) (hfresh : o.Fresh next)
    (hknown : Known w o next event)
    (hplain : ∀ f k p, o f = some k → k.parent = some p → ∃ m, o p = some m ∧ m.run = none)
    {e : SessionCheckpointEvent} (he : e ∈ sent) : Known w o' (next + made) e := by
  have hcreated : e ∈ created next made → Known w o' (next + made) e := by
    intro hmem
    obtain ⟨i, hi, rfl⟩ := List.mem_map.mp hmem
    exact (List.mem_range'_1.mp hi).2
  have hturn := h
  cases h with
  | rests => cases he
  | readies hf hpending =>
    cases List.mem_singleton.mp he
    exact hfresh.lt hf
  | starts => exact hcreated he
  | completes response hf =>
    cases he with
    | head => trivial
    | tail _ he =>
      cases List.mem_singleton.mp he
      trivial
  | fails error hf =>
    cases he with
    | head => trivial
    | tail _ he =>
      cases List.mem_singleton.mp he
      trivial
  | walks hf hkind hrun hparent hp hthread hmem hright =>
    rcases List.mem_append.mp he with hmade | hend
    · exact hcreated hmade
    · cases hend with
      | head => trivial
      | tail _ hend =>
        cases List.mem_singleton.mp hend
        exact (show Known w o next (.ChildFrameTerminated _ _) from hplain _ _ _ hf hparent).later
          hturn hfresh
  | resumes hno hsent =>
    obtain ⟨k, hk, -⟩ := hknown
    have hup := hsent e he
    cases e with
    | FrameReady f =>
      rw [show f = _ from hup]
      exact hfresh.lt hk
    | FrameTerminated f => trivial
    | ChildFrameTerminated q f =>
      obtain ⟨-, m, hm, hq⟩ := hup
      exact hplain _ m q hm hq
    | _ => exact hup.elim
  | tells hf hparent =>
    cases List.mem_singleton.mp he
    exact hplain _ _ _ hf hparent

/-- The walk goes on by a turn: the root starts its thread once, and no node that has completed
runs again. -/
theorem Turn.walking (h : Turn w o next event o' made sent) (hfresh : o.Fresh next)
    (hw : w.Walking o) (hroot : event = .FrameCreated ⟨0⟩ → ∀ k, o ⟨0⟩ = some k → k.children = [])
    (honce : ∀ f, event.isTurn f → ¬ o.Done f)
    (hresult : ∀ f k response, o f = some k → k.run = some (.RunCompleted response) →
      response.result = w.oracle f) : w.Walking o' := by
  cases h with
  | rests | resumes | tells => exact hw
  | @readies f k hf hpending =>
    refine hw.mark (fun h => by cases h) ?_
    rintro ⟨m, hm, hdone⟩
    rw [hf] at hm
    cases hm
    cases hpending _ hdone
  | starts =>
    obtain ⟨k, hk, -⟩ := hw.root
    exact hw.starts hk (hroot rfl k hk) (hfresh _ (Nat.le_refl _)) (hfresh _ (Nat.le_succ _))
      (by simp)
  | @completes f k response hf =>
    exact hw.mark (fun h => by cases h) (honce f (by simp [SessionCheckpointEvent.isTurn]))
  | @fails f k error hf =>
    exact hw.mark (fun h => by cases h) (honce f (by simp [SessionCheckpointEvent.isTurn]))
  | @walks f p k kp node_id response hf hkind hrun hparent hp hthread hmem hright =>
    have hopen : ¬ o.Done f := by
      rintro ⟨m, hm, hdone⟩
      rw [hf] at hm
      cases hm
      rw [hrun] at hdone
      cases hdone
    rw [hresult f k response hf hrun] at hright ⊢
    exact hw.adds hp hthread hmem hopen hf hkind (by simp [hrun]) hfresh hright

/-! ### The start -/

/-- The event that makes the root start its thread. -/
def SessionCheckpointEvent.isStart : SessionCheckpointEvent → Bool
  | .FrameCreated f => f = ⟨0⟩
  | _ => false

/-- The root is created once. -/
theorem Turn.tells_no_start (h : Turn w o next event o' made sent) (hnext : 0 < next) :
    sent.countP (·.isStart) = 0 := by
  have hcreated : ∀ made, (created next made).countP (·.isStart) = 0 := by
    intro made
    rw [List.countP_eq_zero]
    intro e he hstart
    obtain ⟨i, hi, rfl⟩ := List.mem_map.mp he
    have hle := (List.mem_range'_1.mp hi).1
    have hzero : (⟨i⟩ : FrameId) = ⟨0⟩ := of_decide_eq_true hstart
    simp only [FrameId.mk.injEq] at hzero
    omega
  cases h with
  | rests => rfl
  | starts => exact hcreated 2
  | walks =>
    rw [List.countP_append, hcreated]
    rfl
  | resumes hplain hsent =>
    rw [List.countP_eq_zero]
    intro e he hstart
    have hup := hsent e he
    cases e with
    | FrameCreated f => exact hup
    | _ => cases hstart
  | _ => rfl

/-- Frames are made by the start, and when the thread is there. -/
theorem Turn.makes (h : Turn w o next event o' made sent) (hfresh : o.Fresh next) :
    made = 0 ∨ event = .FrameCreated ⟨0⟩ ∨ 1 < next := by
  cases h with
  | starts => exact .inr (.inl rfl)
  | walks hf hkind hrun hparent hp hthread hmem hright =>
    have hne := Walk.thread_ne_node hp hthread ⟨_, hf, hkind⟩
    have hp' := hfresh.lt hp
    have hf' := hfresh.lt hf
    refine .inr (.inr ?_)
    by_contra hone
    refine hne ?_
    rw [FrameId.mk.injEq]
    omega
  | _ => exact .inl rfl

end Turns

end marie.session
