-- The root of a session. The flag `is_root` is a field of each frame. A call of
-- `set_root_frame_id` raises it on one row and lowers it on the others; a flush
-- writes the cached node as it is. The module has both stores, and says which
-- flushes keep one root in each session.
import Mathlib.Logic.Function.Basic
import Marie.Session.FrameLinks

namespace marie.session

/-! ## The two stores -/

/-- The frames of every session: the rows of the store and the cache of the tree. -/
abbrev Sessions := SessionId → FrameTree

namespace FrameTree

/-- A change of every row. -/
def mapRows (t : FrameTree) (g : FrameId → FrameNode → FrameNode) : FrameTree where
  store x := (t.store x).map (g x)
  arena := t.arena
  next := t.next
  store_fresh := by
    intro x hx
    simp [t.store_fresh x hx]
  arena_fresh := t.arena_fresh

/-- A row, written under its key. -/
def putRow (t : FrameTree) (id : FrameId) (node : FrameNode) : FrameTree where
  store x := if x = id then some node else t.store x
  arena := t.arena
  next := max t.next (id.id + 1)
  store_fresh := by
    intro x hx
    have hne : x ≠ id := by
      rintro rfl
      omega
    simp [hne, t.store_fresh x (by omega)]
  arena_fresh := by
    intro x hx
    exact t.arena_fresh x (by omega)

theorem clean_fresh (t : FrameTree) (id x : FrameId) (hx : t.next ≤ x.id) :
    (if x = id then (t.arena x).map (fun c => (⟨c.node, false⟩ : FrameNodeContainer))
      else t.arena x) = none := by
  simp [t.arena_fresh x hx]

/-- The container of `id` is no longer dirty. -/
def clean (t : FrameTree) (id : FrameId) : FrameTree where
  store := t.store
  arena x := if x = id then (t.arena x).map (fun c => ⟨c.node, false⟩) else t.arena x
  next := t.next
  store_fresh := t.store_fresh
  arena_fresh := t.clean_fresh id

end FrameTree

/-- What a store answers when it fails. -/
inductive StoreFailure
  | store (error : StoreError)
  | bail (message : String)
  | RowNotFound
deriving DecidableEq

/-- The row `frame_id` of the session is marked as its root. -/
def IsRoot (ss : Sessions) (session_id : SessionId) (frame_id : FrameId) : Prop :=
  ∃ n, (ss session_id).store frame_id = some n ∧ n.is_root = true

/-- `StoreSessionFrame`, as far as the flag is read or written. A read of the root takes the
first row it meets, in an order that no one promises, so it is a relation. -/
structure FrameStore where
  get_root_frame_id : Sessions → SessionId → Except StoreFailure FrameId → Prop
  set_root_frame_id : Sessions → SessionId → FrameId → Except StoreFailure FrameId × Sessions
  upsert_frame : Sessions → SessionId → FrameId → FrameNode → Sessions
  delete_frame : Sessions → SessionId → FrameId → Except StoreFailure FrameNode × Sessions

/-- A read of any row that is marked as the root, with the answer when there is none. -/
def AnyRoot (none' : StoreFailure) (ss : Sessions) (session_id : SessionId)
    (r : Except StoreFailure FrameId) : Prop :=
  (∃ f, IsRoot ss session_id f ∧ r = .ok f) ∨
    ((∀ f, ¬ IsRoot ss session_id f) ∧ r = .error none')

/-- `InMemorySessionFrameStore`. -/
def inMemory : FrameStore where
  get_root_frame_id ss session_id := AnyRoot (.store (.NoRootFrame session_id)) ss session_id
  set_root_frame_id ss session_id frame_id :=
    match (ss session_id).store frame_id with
    | none => (.error (.store (.FrameNotFound session_id frame_id)), ss)
    | some _ => (.ok frame_id, fun s => (ss s).mapRows fun x n =>
        if s = session_id then { n with is_root := x = frame_id } else n)
  upsert_frame ss session_id frame_id node :=
    Function.update ss session_id ((ss session_id).putRow frame_id node)
  delete_frame ss session_id frame_id :=
    match (ss session_id).store frame_id with
    | none => (.error (.store (.FrameNotFound session_id frame_id)), ss)
    | some n => (.ok n, Function.update ss session_id ((ss session_id).delete_frame frame_id))

/-- `PgStore`: the two `UPDATE`s of `set_root_frame_id` are one transaction, that is dropped
when the second one meets no row. -/
def postgres : FrameStore where
  get_root_frame_id ss session_id := AnyRoot .RowNotFound ss session_id
  set_root_frame_id ss session_id frame_id :=
    let lowered : Sessions := fun s => (ss s).mapRows fun x n =>
      if s = session_id ∧ x ≠ frame_id ∧ n.is_root then { n with is_root := false } else n
    let raised : Sessions := fun s => (lowered s).mapRows fun x n =>
      if s = session_id ∧ x = frame_id then { n with is_root := true } else n
    let rows_affected := if ((lowered session_id).store frame_id).isSome then 1 else 0
    if rows_affected = 0 then
      (.error (.bail ("le frame " ++ display_id frame_id.id ++ " n'existe pas pour la session " ++
        display_id session_id.id)), ss)
    else (.ok frame_id, raised)
  upsert_frame ss session_id frame_id node :=
    match (ss session_id).store frame_id with
    -- `INSERT`
    | none => Function.update ss session_id ((ss session_id).putRow frame_id node)
    -- `ON CONFLICT (session_id, frame_id) DO UPDATE SET node = EXCLUDED.node`
    | some _ => Function.update ss session_id ((ss session_id).putRow frame_id node)
  delete_frame ss session_id frame_id :=
    match (ss session_id).store frame_id with
    | none => (.error .RowNotFound, ss)
    | some n => (.ok n, Function.update ss session_id ((ss session_id).delete_frame frame_id))

inductive Backend
  | InMemory
  | Postgres

def Backend.store : Backend → FrameStore
  | .InMemory => inMemory
  | .Postgres => postgres

/-! ## Runs -/

/-- The sessions, the writes that a dropped container has left behind, and for each session the
frame that was made its root last: by `set_root_frame_id`, or by a write of its node with the
flag raised. A root whose row is deleted is no root any more. -/
structure RootWorld where
  sessions : Sessions
  pending : List (SessionId × FrameId × FrameNode)
  made_root : SessionId → Option FrameId

def RootWorld.new : RootWorld where
  sessions _ := FrameTree.new
  pending := []
  made_root _ := none

inductive RootStep
  /-- `FrameTree::set_root`. -/
  | set_root (session_id : SessionId) (args : NewFrameNodeArgs)
  /-- `try_get` of a frame that is only in the store. -/
  | load (session_id : SessionId) (frame_id : FrameId)
  /-- A write through the lock; no one writes `is_root` there. -/
  | change (session_id : SessionId) (frame_id : FrameId) (f : FrameNode → FrameNode)
  | flush (session_id : SessionId) (frame_id : FrameId)
  /-- The container leaves the cache; when it is dirty, a task will write its node. -/
  | drop (session_id : SessionId) (frame_id : FrameId)
  /-- One of these tasks runs. -/
  | write (i : Nat)
  | set_root_frame_id (session_id : SessionId) (frame_id : FrameId)
  | delete_frame (session_id : SessionId) (frame_id : FrameId)

namespace RootWorld

variable (backend : Backend)

/-- The tree of a session, changed. -/
def onTree (w : RootWorld) (session_id : SessionId) (f : FrameTree → FrameTree) : RootWorld :=
  { w with sessions := Function.update w.sessions session_id (f (w.sessions session_id)) }

/-- A call of `upsert_frame`. -/
def upsert (w : RootWorld) (session_id : SessionId) (frame_id : FrameId) (node : FrameNode) :
    RootWorld :=
  { w with
    sessions := backend.store.upsert_frame w.sessions session_id frame_id node
    made_root := if node.is_root then Function.update w.made_root session_id (some frame_id)
      else w.made_root }

def step (w : RootWorld) : RootStep → RootWorld
  | .set_root session_id args => w.onTree session_id fun t => (t.set_root args).2
  | .load session_id frame_id => w.onTree session_id fun t => t.load frame_id
  | .change session_id frame_id f => w.onTree session_id fun t =>
      t.edit frame_id fun n => { f n with is_root := n.is_root }
  | .flush session_id frame_id =>
    match (w.sessions session_id).arena frame_id with
    | none => w
    | some c =>
      if c.dirty then
        (w.upsert backend session_id frame_id c.node).onTree session_id fun t => t.clean frame_id
      else w
  | .drop session_id frame_id =>
    match (w.sessions session_id).arena frame_id with
    | none => w
    | some c =>
      let w' := w.onTree session_id fun t => t.uncache frame_id
      if c.dirty then { w' with pending := w'.pending ++ [(session_id, frame_id, c.node)] } else w'
  | .write i =>
    match w.pending[i]? with
    | none => w
    | some (session_id, frame_id, node) =>
      { w.upsert backend session_id frame_id node with pending := w.pending.eraseIdx i }
  | .set_root_frame_id session_id frame_id =>
    match backend.store.set_root_frame_id w.sessions session_id frame_id with
    | (.ok _, ss) => { w with
        sessions := ss, made_root := Function.update w.made_root session_id (some frame_id) }
    | (.error _, ss) => { w with sessions := ss }
  | .delete_frame session_id frame_id =>
    { w with
      sessions := (backend.store.delete_frame w.sessions session_id frame_id).2
      made_root := if w.made_root session_id = some frame_id then
          Function.update w.made_root session_id none
        else w.made_root }

def run (w : RootWorld) : List RootStep → RootWorld
  | [] => w
  | x :: steps => run (w.step backend x) steps

/-- At most one row of each session is its root, and a read of the root answers the frame that
was made root last. -/
def OneRoot (w : RootWorld) : Prop :=
  ∀ session_id,
    (∀ f f', IsRoot w.sessions session_id f → IsRoot w.sessions session_id f' → f = f') ∧
      ∀ r, backend.store.get_root_frame_id w.sessions session_id r →
        match w.made_root session_id with
        | some f => r = .ok f
        | none => ∃ e, r = .error e

/-- The property in every state of the run. -/
def Throughout (P : RootWorld → Prop) (w : RootWorld) : List RootStep → Prop
  | [] => P w
  | x :: steps => P w ∧ Throughout P (w.step backend x) steps

/-- A write of a node that keeps the root of its session: a node with the flag raised comes when
no other row has it, and one with the flag lowered is not the root. -/
def KeepsRoot (w : RootWorld) (session_id : SessionId) (frame_id : FrameId) (node : FrameNode) :
    Prop :=
  if node.is_root then ∀ f, IsRoot w.sessions session_id f → f = frame_id
  else ¬ IsRoot w.sessions session_id frame_id

/-- The condition on a step: only the writes of nodes have one. -/
def Meets (w : RootWorld) : RootStep → Prop
  | .flush session_id frame_id => ∀ c, (w.sessions session_id).arena frame_id = some c →
      c.dirty = true → w.KeepsRoot session_id frame_id c.node
  | .write i => ∀ session_id frame_id node, w.pending[i]? = some (session_id, frame_id, node) →
      w.KeepsRoot session_id frame_id node
  | _ => True

def AllMeet (w : RootWorld) : List RootStep → Prop
  | [] => True
  | x :: steps => w.Meets x ∧ AllMeet (w.step backend x) steps

end RootWorld

/-! ## The two stores agree -/

theorem upsert_frame_eq (backend : Backend) : backend.store.upsert_frame = inMemory.upsert_frame := by
  cases backend with
  | InMemory => rfl
  | Postgres =>
    funext ss s f n
    simp only [Backend.store, postgres, inMemory]
    cases (ss s).store f <;> rfl

theorem delete_frame_eq (backend : Backend) (ss : Sessions) (s : SessionId) (f : FrameId) :
    (backend.store.delete_frame ss s f).2 =
      Function.update ss s ((ss s).delete_frame f) := by
  have hgone : (ss s).store f = none → Function.update ss s ((ss s).delete_frame f) = ss := by
    intro hf
    have hsame : (ss s).delete_frame f = ss s := by
      refine FrameTree.ext_tree ?_ rfl rfl
      funext x
      by_cases hx : x = f <;> simp [FrameTree.delete_frame, hx, hf]
    rw [hsame, Function.update_eq_self]
  cases backend with
  | InMemory =>
    simp only [Backend.store, inMemory]
    cases hf : (ss s).store f with
    | none => exact (hgone hf).symm
    | some n => rfl
  | Postgres =>
    simp only [Backend.store, postgres]
    cases hf : (ss s).store f with
    | none => exact (hgone hf).symm
    | some n => rfl

/-- The sessions with the flag on one row of `s` alone. -/
def rooted (ss : Sessions) (s : SessionId) (f : FrameId) : Sessions := fun s' =>
  (ss s').mapRows fun x n => if s' = s then { n with is_root := x = f } else n

/-- Both stores fail when the row is not there, and else raise the flag on it alone. -/
theorem set_root_frame_id_eq (backend : Backend) (ss : Sessions) (s : SessionId) (f : FrameId) :
    ((ss s).store f = none ∧
        ∃ e, backend.store.set_root_frame_id ss s f = (.error e, ss)) ∨
      ((ss s).store f ≠ none ∧
        backend.store.set_root_frame_id ss s f = (.ok f, rooted ss s f)) := by
  cases hf : (ss s).store f with
  | none =>
    left
    refine ⟨rfl, ?_⟩
    cases backend with
    | InMemory =>
      simp only [Backend.store, inMemory, hf]
      exact ⟨_, rfl⟩
    | Postgres =>
      simp only [Backend.store, postgres, FrameTree.mapRows, hf]
      exact ⟨_, rfl⟩
  | some n =>
    right
    refine ⟨by simp, ?_⟩
    cases backend with
    | InMemory =>
      simp only [Backend.store, inMemory, hf]
      rfl
    | Postgres =>
      simp only [Backend.store, postgres]
      rw [if_neg (by simp [FrameTree.mapRows, hf]), Prod.mk.injEq]
      refine ⟨rfl, ?_⟩
      funext s'
      refine FrameTree.ext_tree ?_ rfl rfl
      funext x
      simp only [FrameTree.mapRows, Option.map_map, rooted]
      congr 1
      funext k
      -- the first `UPDATE` lowers the flag of the other rows, the second one raises it here
      by_cases hs : s' = s
      · by_cases hx : x = f
        · simp [hs, hx]
        · cases k with
          | mk _ _ _ _ _ _ _ _ _ _ _ is_root => cases is_root <;> simp [hs, hx]
      · simp [hs]

/-! ## What a step does to the roots -/

section Roots

variable {ss : Sessions} {s s' : SessionId} {f f' : FrameId}

theorem isRoot_update (t : FrameTree) :
    IsRoot (Function.update ss s t) s' f' ↔
      if s' = s then ∃ n, t.store f' = some n ∧ n.is_root = true else IsRoot ss s' f' := by
  by_cases hs : s' = s
  · subst hs
    simp [IsRoot]
  · simp [IsRoot, hs]

theorem isRoot_upsert (backend : Backend) (n : FrameNode) :
    IsRoot (backend.store.upsert_frame ss s f n) s' f' ↔
      if s' = s ∧ f' = f then n.is_root = true else IsRoot ss s' f' := by
  rw [upsert_frame_eq]
  simp only [inMemory, isRoot_update]
  by_cases hs : s' = s
  · subst hs
    by_cases hf : f' = f <;> simp [FrameTree.putRow, hf, IsRoot]
  · simp [hs]

theorem isRoot_rooted (hf : (ss s).store f ≠ none) :
    IsRoot (rooted ss s f) s' f' ↔ if s' = s then f' = f else IsRoot ss s' f' := by
  by_cases hs : s' = s
  · subst hs
    simp only [IsRoot, rooted, FrameTree.mapRows, if_true, Option.map_eq_some_iff]
    constructor
    · rintro ⟨_, ⟨n, -, rfl⟩, hroot⟩
      simpa using hroot
    · rintro rfl
      obtain ⟨n, hn⟩ := Option.ne_none_iff_exists'.mp hf
      exact ⟨_, ⟨n, hn, rfl⟩, by simp⟩
  · simp [IsRoot, rooted, FrameTree.mapRows, hs]

theorem isRoot_delete (backend : Backend) :
    IsRoot (backend.store.delete_frame ss s f).2 s' f' ↔
      ¬ (s' = s ∧ f' = f) ∧ IsRoot ss s' f' := by
  rw [delete_frame_eq, isRoot_update]
  by_cases hs : s' = s
  · subst hs
    by_cases hf : f' = f <;> simp [FrameTree.delete_frame, hf, IsRoot]
  · simp [hs]

end Roots

namespace RootWorld

variable (backend : Backend) {w : RootWorld}

/-- The roots of the store are the frames that were made root last. -/
def Agrees (w : RootWorld) : Prop := ∀ s f, IsRoot w.sessions s f ↔ w.made_root s = some f

theorem oneRoot_iff : OneRoot backend w ↔ w.Agrees := by
  have hread : ∀ s, ∃ e, ∀ r, backend.store.get_root_frame_id w.sessions s r ↔
      AnyRoot e w.sessions s r := by
    intro s
    cases backend with
    | InMemory => exact ⟨_, fun _ => Iff.rfl⟩
    | Postgres => exact ⟨_, fun _ => Iff.rfl⟩
  constructor
  · intro h s f
    obtain ⟨-, hget⟩ := h s
    obtain ⟨e, he⟩ := hread s
    have hall : ∀ f, IsRoot w.sessions s f → w.made_root s = some f := by
      intro f hf
      have := hget (.ok f) ((he _).mpr (.inl ⟨f, hf, rfl⟩))
      cases hm : w.made_root s with
      | none =>
        rw [hm] at this
        obtain ⟨_, h⟩ := this
        cases h
      | some g =>
        rw [hm] at this
        cases this
        rfl
    refine ⟨hall f, ?_⟩
    intro hm
    by_contra hno
    have hnone : ∀ g, ¬ IsRoot w.sessions s g := by
      intro g hg
      have := hall g hg
      rw [hm] at this
      cases this
      exact hno hg
    have := hget (.error e) ((he _).mpr (.inr ⟨hnone, rfl⟩))
    rw [hm] at this
    cases this
  · intro h s
    obtain ⟨e, he⟩ := hread s
    refine ⟨?_, ?_⟩
    · intro f f' hf hf'
      rw [h] at hf hf'
      rw [hf] at hf'
      exact Option.some.inj hf'
    · intro r hr
      rcases (he r).mp hr with ⟨f, hf, rfl⟩ | ⟨hno, rfl⟩
      · rw [(h s f).mp hf]
      · cases hm : w.made_root s with
        | none => exact ⟨e, rfl⟩
        | some f => exact absurd ((h s f).mpr hm) (hno f)

/-- A change of the cache leaves the roots of the store. -/
theorem agrees_onTree (s : SessionId) (g : FrameTree → FrameTree)
    (hg : ∀ t, (g t).store = t.store) :
    (w.onTree s g).Agrees ↔ w.Agrees := by
  have hsame : ∀ s' f, IsRoot (w.onTree s g).sessions s' f ↔ IsRoot w.sessions s' f := by
    intro s' f
    simp only [onTree, isRoot_update, hg]
    by_cases hs : s' = s
    · subst hs
      simp [IsRoot]
    · simp [hs]
  simp only [Agrees, hsame]
  rfl

theorem agrees_upsert (h : w.Agrees) (s : SessionId) (f : FrameId) (n : FrameNode) :
    (w.upsert backend s f n).Agrees ↔ w.KeepsRoot s f n := by
  simp only [Agrees, upsert, isRoot_upsert, KeepsRoot]
  cases hn : n.is_root with
  | true =>
    simp only [if_true]
    constructor
    · intro hafter f' hf'
      by_contra hne
      have := (hafter s f').mp (by simp [hne, hf'])
      simp only [Function.update_self, Option.some.injEq] at this
      exact hne this.symm
    · intro hkeep s' f'
      by_cases hs : s' = s
      · subst hs
        by_cases hf : f' = f
        · simp [hf]
        · simp only [hf, and_false, if_false, Function.update_self, Option.some.injEq]
          constructor
          · intro hroot
            exact absurd (hkeep f' hroot) hf
          · intro e
            exact absurd e.symm hf
      · simp [hs, h s' f']
  | false =>
    simp only [Bool.false_eq_true, if_false]
    constructor
    · intro hafter hroot
      have := (hafter s f).mpr ((h s f).mp hroot)
      simp at this
    · intro hkeep s' f'
      by_cases hsf : s' = s ∧ f' = f
      · obtain ⟨rfl, rfl⟩ := hsf
        simp only [and_self, if_true, false_iff]
        rw [← h]
        exact hkeep
      · simp only [hsf, if_false]
        exact h s' f'

/-- A step keeps one root exactly when it meets its condition. -/
theorem agrees_step (h : w.Agrees) (x : RootStep) : (w.step backend x).Agrees ↔ w.Meets x := by
  cases x with
  | set_root s args =>
    simp only [step, Meets, iff_true]
    exact (agrees_onTree s _ fun _ => by rfl).mpr h
  | load s f =>
    simp only [step, Meets, iff_true]
    exact (agrees_onTree s _ fun _ => by rfl).mpr h
  | change s f g =>
    simp only [step, Meets, iff_true]
    exact (agrees_onTree s _ fun _ => by rfl).mpr h
  | flush s f =>
    simp only [step, Meets]
    cases hc : (w.sessions s).arena f with
    | none => simpa using h
    | some c =>
      cases hd : c.dirty with
      | false => simpa [hd] using h
      | true =>
        simp only [if_true, Option.some.injEq, forall_eq', hd, true_implies]
        rw [agrees_onTree s _ fun _ => by rfl]
        exact agrees_upsert backend h s f c.node
  | drop s f =>
    simp only [step, Meets, iff_true]
    cases hc : (w.sessions s).arena f with
    | none => exact h
    | some c =>
      have hdrop := (agrees_onTree (w := w) s (fun t => t.uncache f) fun _ => rfl).mpr h
      cases hd : c.dirty with
      | false => simpa [hd] using hdrop
      | true =>
        simp only [hd, if_true]
        exact hdrop
  | write i =>
    simp only [step, Meets]
    cases hi : w.pending[i]? with
    | none => simpa using h
    | some entry =>
      obtain ⟨s, f, n⟩ := entry
      simp only [Option.some.injEq, Prod.mk.injEq, and_imp]
      constructor
      · rintro hafter _ _ _ rfl rfl rfl
        exact (agrees_upsert backend h s f n).mp hafter
      · intro hkeep
        exact (agrees_upsert backend h s f n).mpr (hkeep s f n rfl rfl rfl)
  | set_root_frame_id s f =>
    simp only [step, Meets, iff_true]
    rcases set_root_frame_id_eq backend w.sessions s f with ⟨-, e, he⟩ | ⟨hf, hok⟩
    · rw [he]
      exact h
    · rw [hok]
      intro s' f'
      simp only [isRoot_rooted hf]
      by_cases hs : s' = s
      · subst hs
        simp [eq_comm]
      · simp [hs, h s' f']
  | delete_frame s f =>
    simp only [step, Meets, iff_true]
    intro s' f'
    simp only [isRoot_delete, h s' f']
    by_cases hm : w.made_root s = some f
    · simp only [hm, if_true]
      by_cases hs : s' = s
      · subst hs
        simp [hm, eq_comm]
      · simp [hs]
    · simp only [hm, if_false]
      constructor
      · exact And.right
      · intro hmade
        refine ⟨?_, hmade⟩
        rintro ⟨rfl, rfl⟩
        exact hm hmade

theorem throughout_iff (h : w.Agrees) (steps : List RootStep) :
    Throughout backend (OneRoot backend) w steps ↔ AllMeet backend w steps := by
  induction steps generalizing w with
  | nil => simpa [Throughout, AllMeet] using (oneRoot_iff backend).mpr h
  | cons x steps ih =>
    simp only [Throughout, AllMeet]
    have hnow := (oneRoot_iff backend).mpr h
    constructor
    · rintro ⟨-, hrest⟩
      have hnext : (w.step backend x).Agrees := by
        rw [← oneRoot_iff backend]
        cases steps with
        | nil => exact hrest
        | cons y steps => exact hrest.1
      exact ⟨(agrees_step backend h x).mp hnext, (ih hnext).mp hrest⟩
    · rintro ⟨hmeets, hrest⟩
      exact ⟨hnow, (ih ((agrees_step backend h x).mpr hmeets)).mpr hrest⟩

theorem step_eq (w : RootWorld) (x : RootStep) : w.step .Postgres x = w.step .InMemory x := by
  cases x with
  | set_root s args => rfl
  | load s f => rfl
  | change s f g => rfl
  | drop s f => rfl
  | flush s f => simp only [step, upsert, upsert_frame_eq .Postgres, upsert_frame_eq .InMemory]
  | write i => simp only [step, upsert, upsert_frame_eq .Postgres, upsert_frame_eq .InMemory]
  | set_root_frame_id s f =>
    simp only [step]
    rcases set_root_frame_id_eq .Postgres w.sessions s f with ⟨hf, e, he⟩ | ⟨hf, he⟩
    · rcases set_root_frame_id_eq .InMemory w.sessions s f with ⟨-, e', he'⟩ | ⟨hf', -⟩
      · rw [he, he']
      · exact absurd hf hf'
    · rcases set_root_frame_id_eq .InMemory w.sessions s f with ⟨hf', -⟩ | ⟨-, he'⟩
      · exact absurd hf' hf
      · rw [he, he']
  | delete_frame s f => simp only [step, delete_frame_eq]

theorem run_eq (w : RootWorld) (steps : List RootStep) :
    w.run .Postgres steps = w.run .InMemory steps := by
  induction steps generalizing w with
  | nil => rfl
  | cons x steps ih => simp only [run, step_eq, ih]

theorem new_agrees : RootWorld.new.Agrees := by
  intro s f
  constructor
  · rintro ⟨n, hn, -⟩
    cases hn
  · intro h
    cases h

/-- The two stores go through the same states and read the same roots. In either of them, each
session has one root in every state of a run, the one that was made root last, exactly when each
write of a node keeps the root that is there. -/
theorem one_root_iff_every_write_keeps_it (steps : List RootStep) :
    (RootWorld.new.run .Postgres steps = RootWorld.new.run .InMemory steps ∧
      ∀ session_id f,
        postgres.get_root_frame_id (RootWorld.new.run .Postgres steps).sessions session_id (.ok f) ↔
          inMemory.get_root_frame_id (RootWorld.new.run .InMemory steps).sessions session_id
            (.ok f)) ∧
      ∀ backend, Throughout backend (OneRoot backend) RootWorld.new steps ↔
        AllMeet backend RootWorld.new steps := by
  refine ⟨⟨run_eq _ steps, ?_⟩, ?_⟩
  · intro s f
    rw [run_eq]
    simp [postgres, inMemory, AnyRoot]
  · intro backend
    exact throughout_iff backend new_agrees steps

/-- Two roots made in one session, and both written. -/
def twoRoots : List RootStep :=
  [.set_root ⟨0⟩ { spec_ref := .ToolCall, data := .Void },
    .set_root ⟨0⟩ { spec_ref := .ToolCall, data := .Void }, .flush ⟨0⟩ ⟨0⟩, .flush ⟨0⟩ ⟨1⟩]

theorem a_second_root_does_not_lower_the_first :
    IsRoot (RootWorld.new.run .InMemory twoRoots).sessions ⟨0⟩ ⟨0⟩ ∧
      IsRoot (RootWorld.new.run .InMemory twoRoots).sessions ⟨0⟩ ⟨1⟩ ∧
      ¬ OneRoot .InMemory (RootWorld.new.run .InMemory twoRoots) := by
  have h0 : IsRoot (RootWorld.new.run .InMemory twoRoots).sessions ⟨0⟩ ⟨0⟩ := ⟨_, rfl, rfl⟩
  have h1 : IsRoot (RootWorld.new.run .InMemory twoRoots).sessions ⟨0⟩ ⟨1⟩ := ⟨_, rfl, rfl⟩
  refine ⟨h0, h1, ?_⟩
  intro h
  have := (h ⟨0⟩).1 ⟨0⟩ ⟨1⟩ h0 h1
  cases this

end RootWorld

end marie.session
