-- A frame in its container, which some handles share: through them its node is written,
-- flushed, or deleted from the store, and the last one to go leaves a task that writes what
-- was not flushed. A write to the node asks for that once more, after a deletion too.
import Marie.Lib.Runs
import Marie.Session.FrameRows

namespace marie.session.stored

open Maps
open Runs (EveryState EveryStep everyState_iff_everyStep)

/-! ## The container -/

/-- `deleted` is set when the container is made, and then neither written nor read. -/
structure FrameNodeContainer where
  node : FrameNode
  dirty : Bool
  deleted : Bool

def FrameNode.key (node : FrameNode) : SessionId × FrameId := (node.session_id, node.id)

/-- What becomes of a call of the store: it is made, it fails, or it is made and its answer is an
error. -/
inductive Outcome
  | Made
  | Failed (error : String)
  | Lost (error : String)

inductive CallError
  | Store (error : StoreError)
  | Other (error : String)

def Outcome.call {α : Type} (outcome : Outcome)
    (call : InMemorySessionFrameStore → Except StoreError α × InMemorySessionFrameStore)
    (store : InMemorySessionFrameStore) : Except CallError α × InMemorySessionFrameStore :=
  match outcome with
  | .Made => ((call store).1.mapError .Store, (call store).2)
  | .Failed error => (.error (.Other error), store)
  | .Lost error => (.error (.Other error), (call store).2)

namespace FrameNodeContainer

/-- `FrameNodeContainer::new`, with the node that the store has. -/
def loaded (node : FrameNode) : FrameNodeContainer := ⟨node, false, false⟩

def from_new_node (node : FrameNode) : FrameNodeContainer := ⟨node, true, false⟩

def flush (outcome : Outcome) (self : FrameNodeContainer) (store : InMemorySessionFrameStore) :
    Except CallError Unit × FrameNodeContainer × InMemorySessionFrameStore :=
  if !self.dirty then (.ok (), self, store)
  else match outcome.call (·.upsert_frame self.node) store with
    | (.error e, store) => (.error e, self, store)
    | (.ok _, store) => (.ok (), { self with dirty := false }, store)

def delete (outcome : Outcome) (self : FrameNodeContainer) (store : InMemorySessionFrameStore) :
    Except CallError Unit × FrameNodeContainer × InMemorySessionFrameStore :=
  match outcome.call (·.delete_frame self.node.session_id self.node.id) store with
  | (.error e, store) => (.error e, self, store)
  | (.ok _, store) => (.ok (), { self with dirty := false }, store)

/-- A write to the node through `DerefMut`. -/
def deref_mut (f : FrameNode → FrameNode) (self : FrameNodeContainer) : FrameNodeContainer :=
  { self with node := f self.node, dirty := true }

/-- `Drop`: the node that the task which it spawns will write, if there is one. -/
def drop (self : FrameNodeContainer) : List FrameNode := if !self.dirty then [] else [self.node]

end FrameNodeContainer

/-! ## Handles -/

/-- The container with the number of its other handles, until the last one is gone; the tasks that
have not run; and the rows that were deleted with success. -/
structure Shared where
  held : Option (FrameNodeContainer × Nat)
  spawned : List FrameNode
  store : InMemorySessionFrameStore
  removed : List (SessionId × FrameId)

/-- What is done through a handle, under its lock, and a task that runs. -/
inductive Move
  | clone
  | deref_mut (f : FrameNode → FrameNode)
  | flush (outcome : Outcome)
  | delete (outcome : Outcome)
  | release
  | task (outcome : Outcome)

namespace Shared

def step (s : Shared) : Move → Shared
  | .clone => { s with held := s.held.map fun h => (h.1, h.2 + 1) }
  | .deref_mut f => { s with held := s.held.map fun h => (h.1.deref_mut f, h.2) }
  | .flush outcome =>
    match s.held with
    | none => s
    | some (c, others) =>
      let (_, c, store) := c.flush outcome s.store
      { s with held := some (c, others), store }
  | .delete outcome =>
    match s.held with
    | none => s
    | some (c, others) =>
      match c.delete outcome s.store with
      | (.error _, c, store) => { s with held := some (c, others), store }
      | (.ok _, c, store) =>
        { s with held := some (c, others), store, removed := c.node.key :: s.removed }
  | .release =>
    match s.held with
    | none => s
    | some (c, others + 1) => { s with held := some (c, others) }
    | some (c, 0) => { s with held := none, spawned := s.spawned ++ c.drop }
  | .task outcome =>
    match s.spawned with
    | [] => s
    | node :: spawned =>
      { s with spawned, store := (outcome.call (·.upsert_frame node) s.store).2 }

def after (s : Shared) (moves : List Move) : Shared := moves.foldl step s

/-- A container with one handle. -/
def new (c : FrameNodeContainer) (store : InMemorySessionFrameStore) : Shared :=
  ⟨some (c, 0), [], store, []⟩

/-- A row that was deleted does not come back, whatever is flushed and dropped from now on. -/
def Final (s : Shared) : Prop :=
  ∀ key ∈ s.removed, ∀ later : List Move, (∀ f, Move.deref_mut f ∉ later) →
    (s.after later).store.frames.find key = none

/-- The node is not written under the key of a row that was deleted. -/
def KeepsAway (s : Shared) : Move → Prop
  | .deref_mut f => ∀ c others, s.held = some (c, others) → (f c.node).key ∉ s.removed
  | _ => True

/-- No row that was deleted is there, and none is about to be written. -/
structure Clean (s : Shared) : Prop where
  gone : ∀ key ∈ s.removed, s.store.frames.find key = none
  held : ∀ c others, s.held = some (c, others) → c.dirty = true → c.node.key ∉ s.removed
  spawned : ∀ node ∈ s.spawned, node.key ∉ s.removed
  before_drop : s.held ≠ none → s.spawned = []

end Shared

/-! ## What a call does to the rows -/

section Calls

variable {store : InMemorySessionFrameStore} {key : SessionId × FrameId}

/-- A write leaves the other rows. -/
theorem find_call_upsert (outcome : Outcome) {node : FrameNode} (hkey : node.key ≠ key) :
    (outcome.call (·.upsert_frame node) store).2.frames.find key = store.frames.find key := by
  have hmade : (store.upsert_frame node).2.frames.find key = store.frames.find key := by
    unfold InMemorySessionFrameStore.upsert_frame
    rw [Entries.find_insert]
    exact if_neg hkey
  cases outcome with
  | Made => exact hmade
  | Failed _ => rfl
  | Lost _ => exact hmade

/-- A deletion makes no row. -/
theorem find_call_delete (outcome : Outcome) (session_id : SessionId) (frame_id : FrameId)
    (hnone : store.frames.find key = none) :
    (outcome.call (·.delete_frame session_id frame_id) store).2.frames.find key = none := by
  have hmade : (store.delete_frame session_id frame_id).2.frames.find key = none := by
    unfold InMemorySessionFrameStore.delete_frame
    split
    · exact hnone
    · rw [Entries.find_erase, hnone, ite_self]
  cases outcome with
  | Made => exact hmade
  | Failed _ => exact hnone
  | Lost _ => exact hmade

/-- After a deletion that succeeded the row is gone. -/
theorem find_call_delete_of_ok {outcome : Outcome} {session_id : SessionId} {frame_id : FrameId}
    {node : FrameNode} {store' : InMemorySessionFrameStore}
    (h : outcome.call (·.delete_frame session_id frame_id) store = (.ok node, store')) :
    store'.frames.find (session_id, frame_id) = none := by
  cases outcome with
  | Failed _ => cases h
  | Lost _ => cases h
  | Made =>
    unfold Outcome.call InMemorySessionFrameStore.delete_frame at h
    dsimp only at h
    split at h
    · cases h
    · cases h
      rw [Entries.find_erase, if_pos rfl]

end Calls

namespace FrameNodeContainer

variable {c : FrameNodeContainer} {store : InMemorySessionFrameStore}

/-- A flush writes the node if it is dirty, and no other row. -/
theorem flush_spec (outcome : Outcome) (c : FrameNodeContainer)
    (store : InMemorySessionFrameStore) :
    (c.flush outcome store).2.1.node = c.node ∧
    ((c.flush outcome store).2.1.dirty = true → c.dirty = true) ∧
    ∀ key, (c.dirty = true → c.node.key ≠ key) →
      (c.flush outcome store).2.2.frames.find key = store.frames.find key := by
  unfold flush
  cases hdirty : c.dirty with
  | false => simp [hdirty]
  | true =>
    have hrows : ∀ key, c.node.key ≠ key →
        (outcome.call (·.upsert_frame c.node) store).2.frames.find key = store.frames.find key :=
      fun key hkey => find_call_upsert outcome hkey
    generalize outcome.call (·.upsert_frame c.node) store = answer at hrows
    obtain ⟨_ | _, store'⟩ := answer
    · exact ⟨rfl, fun _ => rfl, fun key hkey => hrows key (hkey rfl)⟩
    · exact ⟨rfl, fun _ => rfl, fun key hkey => hrows key (hkey rfl)⟩

theorem flush_made (hdirty : c.dirty = true) :
    (c.flush .Made store).2.2.frames.find c.node.key = some c.node := by
  unfold flush Outcome.call InMemorySessionFrameStore.upsert_frame
  simp [hdirty, Except.mapError, FrameNode.key]

/-- A deletion that fails leaves the container, and one that succeeds the row no more. -/
theorem delete_spec (outcome : Outcome) (c : FrameNodeContainer)
    (store : InMemorySessionFrameStore) :
    (∀ key, store.frames.find key = none → (c.delete outcome store).2.2.frames.find key = none) ∧
    ((c.delete outcome store).2.1 = c ∧ (∃ e, (c.delete outcome store).1 = .error e) ∨
      (c.delete outcome store).2.1 = { c with dirty := false } ∧
        (c.delete outcome store).1 = .ok () ∧
        (c.delete outcome store).2.2.frames.find c.node.key = none) := by
  have hrows : ∀ key, store.frames.find key = none →
      (outcome.call (·.delete_frame c.node.session_id c.node.id) store).2.frames.find key = none :=
    fun key hnone => find_call_delete outcome _ _ hnone
  unfold delete
  cases hcall : outcome.call (·.delete_frame c.node.session_id c.node.id) store with
  | mk result store' =>
    rw [hcall] at hrows
    cases result with
    | error e => exact ⟨hrows, .inl ⟨rfl, e, rfl⟩⟩
    | ok node => exact ⟨hrows, .inr ⟨rfl, rfl, find_call_delete_of_ok hcall⟩⟩

theorem mem_drop {node : FrameNode} (h : node ∈ c.drop) : node = c.node ∧ c.dirty = true := by
  unfold drop at h
  cases hdirty : c.dirty with
  | false => simp [hdirty] at h
  | true => simpa [hdirty] using h

end FrameNodeContainer

/-! ## Runs -/

namespace Shared

variable {s : Shared} {m : Move}

theorem Clean.flush (h : s.Clean) (outcome : Outcome) : (s.step (.flush outcome)).Clean := by
  cases hheld : s.held with
  | none => simpa [step, hheld] using h
  | some held =>
    obtain ⟨c, others⟩ := held
    obtain ⟨hnode, hdirty, hrows⟩ := FrameNodeContainer.flush_spec outcome c s.store
    have hstep : s.step (.flush outcome) =
        { s with
          held := some ((c.flush outcome s.store).2.1, others)
          store := (c.flush outcome s.store).2.2 } := by
      simp [step, hheld]
    have hc := h.held c others hheld
    rw [hstep]
    refine ⟨?_, ?_, h.spawned, fun _ => h.before_drop (by simp [hheld])⟩
    · intro key hkey
      have hne : c.dirty = true → c.node.key ≠ key := by
        rintro hd rfl
        exact hc hd hkey
      rw [hrows key hne]
      exact h.gone key hkey
    · intro c' others' heq hd
      cases heq
      rw [hnode]
      exact hc (hdirty hd)

theorem Clean.delete (h : s.Clean) (outcome : Outcome) : (s.step (.delete outcome)).Clean := by
  cases hheld : s.held with
  | none => simpa [step, hheld] using h
  | some held =>
    obtain ⟨c, others⟩ := held
    have hc := h.held c others hheld
    have hspawned := h.before_drop (by simp [hheld])
    obtain ⟨hrows, hresult⟩ := FrameNodeContainer.delete_spec outcome c s.store
    have hstep : s.step (.delete outcome) =
        match c.delete outcome s.store with
        | (.error _, c, store) => { s with held := some (c, others), store }
        | (.ok _, c, store) =>
          { s with held := some (c, others), store, removed := c.node.key :: s.removed } := by
      simp [step, hheld]
    rw [hstep]
    generalize c.delete outcome s.store = answer at hrows hresult
    obtain ⟨result, c', store⟩ := answer
    rcases hresult with ⟨hcontainer, e, hresult⟩ | ⟨hcontainer, hresult, hgone⟩
    · cases hcontainer
      cases hresult
      refine ⟨fun key hkey => hrows key (h.gone key hkey), ?_, h.spawned, fun _ => hspawned⟩
      intro c' others' heq
      cases heq
      exact hc
    · cases hcontainer
      cases hresult
      refine ⟨?_, ?_, ?_, fun _ => hspawned⟩
      · intro key hkey
        rcases List.mem_cons.mp hkey with rfl | hkey
        · exact hgone
        · exact hrows key (h.gone key hkey)
      · intro c' others' heq hd
        cases heq
        cases hd
      · intro node hnode
        rw [hspawned] at hnode
        cases hnode

theorem Clean.release (h : s.Clean) : (s.step .release).Clean := by
  cases hheld : s.held with
  | none => simpa [step, hheld] using h
  | some held =>
    obtain ⟨c, others⟩ := held
    have hc := h.held c others hheld
    cases others with
    | zero =>
      have hstep : s.step .release = { s with held := none, spawned := s.spawned ++ c.drop } := by
        simp [step, hheld]
      rw [hstep]
      refine ⟨h.gone, by simp, ?_, by simp⟩
      intro node hnode
      rcases List.mem_append.mp hnode with hnode | hnode
      · exact h.spawned node hnode
      · obtain ⟨rfl, hdirty⟩ := FrameNodeContainer.mem_drop hnode
        exact hc hdirty
    | succ others =>
      have hstep : s.step .release = { s with held := some (c, others) } := by
        simp [step, hheld]
      rw [hstep]
      refine ⟨h.gone, ?_, h.spawned, fun _ => h.before_drop (by simp [hheld])⟩
      intro c' others' heq
      cases heq
      exact hc

theorem Clean.task (h : s.Clean) (outcome : Outcome) : (s.step (.task outcome)).Clean := by
  cases hspawned : s.spawned with
  | nil => simpa [step, hspawned] using h
  | cons node spawned =>
    have hstep : s.step (.task outcome) =
        { s with spawned, store := (outcome.call (·.upsert_frame node) s.store).2 } := by
      simp [step, hspawned]
    have hnodes := h.spawned
    rw [hspawned, List.forall_mem_cons] at hnodes
    rw [hstep]
    refine ⟨?_, h.held, hnodes.2, ?_⟩
    · intro key hkey
      have hne : node.key ≠ key := by
        rintro rfl
        exact hnodes.1 hkey
      rw [find_call_upsert outcome hne]
      exact h.gone key hkey
    · intro hheld
      have hempty := h.before_drop hheld
      rw [hspawned] at hempty
      cases hempty

/-- A step that writes no node under the key of a deleted row keeps the deleted rows away. -/
theorem Clean.step (h : s.Clean) (hm : s.KeepsAway m) : (s.step m).Clean := by
  cases m with
  | clone =>
    refine ⟨h.gone, ?_, h.spawned, ?_⟩
    · intro c others heq
      obtain ⟨⟨c', others'⟩, hheld, hc⟩ := Option.map_eq_some_iff.mp heq
      cases hc
      exact h.held c' others' hheld
    · intro hheld
      apply h.before_drop
      simpa [Shared.step] using hheld
  | deref_mut f =>
    refine ⟨h.gone, ?_, h.spawned, ?_⟩
    · intro c others heq _
      obtain ⟨⟨c', others'⟩, hheld, hc⟩ := Option.map_eq_some_iff.mp heq
      cases hc
      exact hm c' others' hheld
    · intro hheld
      apply h.before_drop
      simpa [Shared.step] using hheld
  | flush outcome => exact h.flush outcome
  | delete outcome => exact h.delete outcome
  | release => exact h.release
  | task outcome => exact h.task outcome

/-- No step forgets that a row was deleted. -/
theorem removed_subset_step (s : Shared) (m : Move) : s.removed ⊆ (s.step m).removed := by
  cases m with
  | clone | deref_mut _ => exact List.Subset.refl _
  | flush _ | release | task _ =>
    unfold step
    dsimp only
    split <;> exact List.Subset.refl _
  | delete _ =>
    unfold step
    dsimp only
    split
    · exact List.Subset.refl _
    · split
      · exact List.Subset.refl _
      · exact List.subset_cons_self _ _

theorem keepsAway_of_no_access (hm : ∀ f, m ≠ .deref_mut f) : s.KeepsAway m := by
  cases m with
  | deref_mut f => exact absurd rfl (hm f)
  | _ => trivial

theorem Clean.final (h : s.Clean) : s.Final := by
  intro key hkey later hlater
  induction later generalizing s with
  | nil => exact h.gone key hkey
  | cons m later ih =>
    have hm : ∀ f, m ≠ .deref_mut f := by
      rintro f rfl
      exact hlater f List.mem_cons_self
    apply ih (h.step (keepsAway_of_no_access hm)) (removed_subset_step s m hkey)
    intro f hf
    exact hlater f (List.mem_cons_of_mem _ hf)

/-- A write under the key of a deleted row arms the next flush. -/
theorem keepsAway_of_final (h : (s.step m).Final) : s.KeepsAway m := by
  cases m with
  | deref_mut f =>
    intro c others hheld hremoved
    have hstep : s.step (.deref_mut f) = { s with held := some (c.deref_mut f, others) } := by
      simp only [step, hheld, Option.map_some]
    rw [hstep] at h
    have hgone := h _ hremoved [.flush .Made] (by simp)
    have hback : ((c.deref_mut f).flush .Made s.store).2.2.frames.find (f c.node).key =
        some (f c.node) := FrameNodeContainer.flush_made (c := c.deref_mut f) rfl
    have hflush : (Shared.step { s with held := some (c.deref_mut f, others) }
        (.flush .Made)).store = ((c.deref_mut f).flush .Made s.store).2.2 := rfl
    rw [after, List.foldl_cons, List.foldl_nil, hflush, hback] at hgone
    cases hgone
  | _ => trivial

theorem after_concat (s : Shared) (moves : List Move) (m : Move) :
    s.after (moves ++ [m]) = (s.after moves).step m := by
  unfold after
  rw [List.foldl_append]
  rfl

theorem clean_new (c : FrameNodeContainer) (store : InMemorySessionFrameStore) :
    (new c store).Clean where
  gone := by simp [new]
  held := by simp [new]
  spawned := by simp [new]
  before_drop := by simp [new]

end Shared

/-- At every moment of a run the rows that were deleted stay deleted, exactly when no access left
the node under the key of one of them. -/
theorem deletion_is_final_iff (c : FrameNodeContainer) (store : InMemorySessionFrameStore)
    (moves : List Move) :
    EveryState (fun before => ((Shared.new c store).after before).Final) moves ↔
      EveryStep (fun before m => ((Shared.new c store).after before).KeepsAway m) moves := by
  have hnew := Shared.clean_new c store
  apply everyState_iff_everyStep
    (I := fun before => ((Shared.new c store).after before).Clean) hnew hnew.final
  intro before m _ hclean _
  rw [Shared.after_concat]
  refine ⟨⟨Shared.keepsAway_of_final, ?_⟩, hclean.step⟩
  intro hm
  exact (hclean.step hm).final

/-- A frame that is looked at through `DerefMut` after its deletion is written back, by the task
that its container leaves, or by a flush. -/
theorem a_deleted_frame_is_written_back :
    let key := waiting_frame.key
    let kept := Entries.empty.insert (key, waiting_frame)
    let dropped := (Shared.new (.loaded waiting_frame) ⟨kept⟩).after
      [.delete .Made, .deref_mut id, .release, .task .Made]
    let flushed := (Shared.new (.from_new_node waiting_frame) ⟨Entries.empty⟩).after
      [.flush .Made, .clone, .delete .Made, .release, .deref_mut id, .flush .Made]
    (key ∈ dropped.removed ∧ dropped.store.frames.find key = some waiting_frame) ∧
      (key ∈ flushed.removed ∧ flushed.store.frames.find key = some waiting_frame) := by
  refine ⟨⟨?_, ?_⟩, ?_, ?_⟩
  · exact List.mem_singleton_self _
  · rfl
  · exact List.mem_singleton_self _
  · rfl

end marie.session.stored
