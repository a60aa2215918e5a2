-- The snapshots of a session: rows of a store, behind a cache of containers.
-- A pushed snapshot is only in the cache; it reaches the store when its
-- container is flushed, or in a detached task once the container is dropped.
import Mathlib.Data.List.MinMax
import Marie.Lib.Program
import Marie.Session.Protocol

namespace marie.session

structure Snapshot where
  session_id : SessionId
  frame_id : FrameId
  superstep : Nat
  channels : Channels
  join_sources : List SnapshotRef

def Snapshot.ref (s : Snapshot) : SnapshotRef := ⟨s.session_id, s.frame_id, s.superstep⟩

structure SnapshotContainer where
  snapshot : Snapshot
  dirty : Bool

/-! ## The store -/

/-- The rows of `InMemorySessionSnapshotStore`, one for each reference. -/
abbrev SnapshotRows := List Snapshot

namespace SnapshotRows

def upsert_snapshot (snapshot : Snapshot) (rows : SnapshotRows) : SnapshotRows :=
  snapshot :: rows.filter (·.ref ≠ snapshot.ref)

def latest_snapshot (session_id : SessionId) (frame_id : FrameId) (rows : SnapshotRows) :
    Option Snapshot :=
  (rows.filter (fun s => s.session_id = session_id ∧ s.frame_id = frame_id)).argmax (·.superstep)

def snapshot_at (ref : SnapshotRef) (rows : SnapshotRows) : Option Snapshot :=
  rows.find? (·.ref = ref)

end SnapshotRows

/-! ## The snapshots of a session -/

/-- `writebacks` are the snapshots that a dropped container still has to write: one detached
task each, in no fixed order. -/
structure SessionSnapshots where
  session_id : SessionId
  store : SnapshotRows
  cache : SnapshotRef → Option SnapshotContainer
  writebacks : List Snapshot

/-- Programs over the snapshots of a session. -/
abbrev Snaps := Program Fault SessionSnapshots

namespace SessionSnapshots

open Program

/-- `Drop` of the container at a reference, when there is one. -/
def dropped : Option SnapshotContainer → List Snapshot
  | some c => if c.dirty then [c.snapshot] else []
  | none => []

/-- `Cache::insert`: the container that was there is dropped. -/
def insert (ref : SnapshotRef) (container : SnapshotContainer) (s : SessionSnapshots) :
    SessionSnapshots :=
  { s with
    cache := fun r => if r = ref then some container else s.cache r
    writebacks := s.writebacks ++ dropped (s.cache ref) }

def push (snapshot : Snapshot) : Snaps SnapshotRef := do
  modify (insert snapshot.ref ⟨snapshot, true⟩)
  pure snapshot.ref

def try_get (frame_id : FrameId) (superstep : Nat) : Snaps Snapshot := do
  let s ← get
  let ref := ⟨s.session_id, frame_id, superstep⟩
  match s.cache ref with
  | some c => pure c.snapshot
  | none =>
    match s.store.snapshot_at ref with
    | some snapshot =>
      modify (insert ref ⟨snapshot, false⟩)
      pure snapshot
    | none => throw (.error (.StorageError (.SnapshotNotFound s.session_id frame_id superstep)))

/-- The last snapshot that the store has; it enters the cache. -/
def latest (frame_id : FrameId) : Snaps Snapshot := do
  let s ← get
  match s.store.latest_snapshot s.session_id frame_id with
  | some snapshot =>
    modify (insert snapshot.ref ⟨snapshot, false⟩)
    pure snapshot
  | none => throw (.error (.StorageError (.SnapshotNotFound s.session_id frame_id 0)))

/-! ### What happens beside the calls -/

/-- `SnapshotContainer::flush` of the container at a reference. -/
def flush (ref : SnapshotRef) (s : SessionSnapshots) : SessionSnapshots :=
  match s.cache ref with
  | some ⟨snapshot, true⟩ =>
    { s with
      store := s.store.upsert_snapshot snapshot
      cache := fun r => if r = ref then some ⟨snapshot, false⟩ else s.cache r }
  | _ => s

/-- The cache evicts the container at a reference. -/
def evict (ref : SnapshotRef) (s : SessionSnapshots) : SessionSnapshots :=
  { s with
    cache := fun r => if r = ref then none else s.cache r
    writebacks := s.writebacks ++ dropped (s.cache ref) }

/-- One detached task of `Drop` runs. -/
def writeback (index : Nat) (s : SessionSnapshots) : SessionSnapshots :=
  match s.writebacks[index]? with
  | some snapshot =>
    { s with
      store := s.store.upsert_snapshot snapshot
      writebacks := s.writebacks.eraseIdx index }
  | none => s

end SessionSnapshots

end marie.session
