-- The snapshots and the journals of every session in their two stores: maps in
-- memory, and the rows of `marie_session_snapshots` and `marie_session_logs`.
import Mathlib.Data.List.MinMax
import Marie.Lib.Documents
import Marie.Lib.Table
import Marie.Session.FrameRows
import Marie.Session.LogStore

namespace marie.session.stored

open Codecs Maps serde

/-! ## The data -/

structure Snapshot where
  session_id : SessionId
  frame_id : FrameId
  superstep : UInt32
  channels : Channels
  join_sources : List SnapshotRef
  created_at : Timestamp
  pin_count : UInt32

abbrev SessionLogId := ID

structure SessionLog where
  id : SessionLogId
  session_id : SessionId
  content : SessionLogContent
  created_at : Timestamp
  last_updated_at : Timestamp

/-- `utc` is how a date is written in JSON. -/
def Snapshot.serde (utc : Serde Timestamp) : Serde Snapshot :=
  record (((Fields.field "session_id" identifier).both ((Fields.field "frame_id" identifier).both
    ((Fields.field "superstep" u32).both ((Fields.field "channels" stored.channels).both
      ((Fields.field "join_sources" (seq SnapshotRef.serde)).both
        ((Fields.field "created_at" utc).both (.field "pin_count" u32))))))).iso
      (fun s => (s.session_id, s.frame_id, s.superstep, s.channels, s.join_sources, s.created_at,
        s.pin_count))
      (fun p => ⟨p.1, p.2.1, p.2.2.1, p.2.2.2.1, p.2.2.2.2.1, p.2.2.2.2.2.1, p.2.2.2.2.2.2⟩))
    (by
      simp only [Fields.names_iso, Fields.names_both, Fields.names_field]
      decide)

def tool_log : Serde (String × Value × Value) :=
  record ((Fields.field "label" string).both ((Fields.field "input" json).both
    (.field "output" json))) (by decide)

def agent_log : Serde (String × Value) :=
  record ((Fields.field "label" string).both (.field "content" json)) (by decide)

def log_content : Serde SessionLogContent where
  encode
    | .Plain text => (string.encode text).map (variant "Plain")
    | .ToolLog label input output =>
      (tool_log.encode (label, input, output)).map (variant "ToolLog")
    | .AgentLog label content => (agent_log.encode (label, content)).map (variant "AgentLog")
  decode v :=
    match read_variant v with
    | some ("Plain", some v) => (string.decode v).map .Plain
    | some ("ToolLog", some v) => (tool_log.decode v).map fun p => .ToolLog p.1 p.2.1 p.2.2
    | some ("AgentLog", some v) => (agent_log.decode v).map fun p => .AgentLog p.1 p.2
    | _ => none
  Fits
    | .Plain text => no_nul text = true
    | .ToolLog label input output => tool_log.Fits (label, input, output)
    | .AgentLog label content => agent_log.Fits (label, content)
  fits_iff := by
    intro c v h
    cases c with
    | Plain text => exact Codec.fits_variant (c := string) (jsonb_variant rfl) h
    | _ => exact Codec.fits_variant (jsonb_variant rfl) h

/-! ## Snapshots -/

structure InMemorySessionSnapshotStore where
  snapshots : Entries (SessionId × FrameId × UInt32) Snapshot

namespace InMemorySessionSnapshotStore

def new : InMemorySessionSnapshotStore := ⟨.empty⟩

/-- `max_by_key` on the superstep. -/
def latest_snapshot (id : SessionId) (frame_id : FrameId) (self : InMemorySessionSnapshotStore) :
    Except StoreError Snapshot :=
  let snapshots := (self.snapshots.entries.map (·.2)).filter fun s =>
    s.session_id = id ∧ s.frame_id = frame_id
  match snapshots.argmax fun s => s.superstep.toNat with
  | none => .error (.SnapshotNotFound id frame_id 0)
  | some snapshot => .ok snapshot

def snapshot_at (id : SessionId) (frame_id : FrameId) (superstep : UInt32)
    (self : InMemorySessionSnapshotStore) : Except StoreError Snapshot :=
  match self.snapshots.find (id, frame_id, superstep) with
  | none => .error (.SnapshotNotFound id frame_id superstep)
  | some snapshot => .ok snapshot

def upsert_snapshot (snapshot : Snapshot) (self : InMemorySessionSnapshotStore) :
    Except StoreError Unit × InMemorySessionSnapshotStore :=
  (.ok (), ⟨self.snapshots.insert
    ((snapshot.session_id, snapshot.frame_id, snapshot.superstep), snapshot)⟩)

end InMemorySessionSnapshotStore

/-- `superstep as i64`, in a `BIGINT` column. -/
def bigint (superstep : UInt32) : Int := superstep.toNat

/-- `marie_session_snapshots` by its primary key. -/
structure PgSnapshotStore where
  sessions : List SessionId
  snapshots : Entries (SessionId × FrameId × Int) Value

namespace PgSnapshotStore

def new (sessions : List SessionId) : PgSnapshotStore := ⟨sessions, .empty⟩

/-- `ORDER BY superstep DESC`. -/
def newest (a b : (SessionId × FrameId × Int) × Value) : Prop := b.1.2.2 ≤ a.1.2.2

instance : DecidableRel newest := fun a b => inferInstanceAs (Decidable (b.1.2.2 ≤ a.1.2.2))

def decode_data (utc : Serde Timestamp) (v : Value) : Except PgError Snapshot :=
  match (Snapshot.serde utc).decode v with
  | none => .error .Decode
  | some snapshot => .ok snapshot

def latest_snapshot (utc : Serde Timestamp) (id : SessionId) (frame_id : FrameId)
    (self : PgSnapshotStore) : Except PgError Snapshot :=
  let rows := self.snapshots.entries.filter fun row => row.1.1 = id ∧ row.1.2.1 = frame_id
  match Table.first newest rows with
  | none => .error .RowNotFound
  | some row => decode_data utc row.2

def snapshot_at (utc : Serde Timestamp) (id : SessionId) (frame_id : FrameId) (superstep : UInt32)
    (self : PgSnapshotStore) : Except PgError Snapshot :=
  match self.snapshots.find (id, frame_id, bigint superstep) with
  | none => .error .RowNotFound
  | some v => decode_data utc v

/-- `INSERT .. ON CONFLICT (session_id, frame_id, superstep) DO UPDATE SET data = EXCLUDED.data`. -/
def upsert_snapshot (utc : Serde Timestamp) (snapshot : Snapshot) (self : PgSnapshotStore) :
    Except PgError Unit × PgSnapshotStore :=
  match (Snapshot.serde utc).encode snapshot with
  | none => (.error .Encode, self)
  | some v =>
    if is_jsonb v = false then (.error .InvalidJson, self)
    else if snapshot.session_id ∉ self.sessions then
      (.error (.ForeignKeyViolation snapshot.session_id), self)
    else
      let key := (snapshot.session_id, snapshot.frame_id, bigint snapshot.superstep)
      (.ok (), { self with snapshots := self.snapshots.insert (key, v) })

end PgSnapshotStore

/-! ## Journals -/

structure SearchLogQuery where
  after : Option Timestamp
  before : Option Timestamp

/-- Both bounds are strict; one that is not given is no bound. -/
def SearchLogQuery.within (query : SearchLogQuery) (created_at : Timestamp) : Bool :=
  query.after.all (· < created_at) && query.before.all (created_at < ·)

structure InMemorySessionLogsStore where
  logs : Entries (SessionId × SessionLogId) SessionLog

namespace InMemorySessionLogsStore

def new : InMemorySessionLogsStore := ⟨.empty⟩

def insert_log (log : SessionLog) (self : InMemorySessionLogsStore) :
    Except StoreError Unit × InMemorySessionLogsStore :=
  match self.logs.find (log.session_id, log.id) with
  | some entry =>
    (.ok (), ⟨self.logs.insert ((log.session_id, log.id),
      { entry with content := log.content, last_updated_at := log.last_updated_at })⟩)
  | none => (.ok (), ⟨self.logs.insert ((log.session_id, log.id), log)⟩)

/-- `sort_by_key` on the date of creation, of the values that a filter lets through. -/
def sorted (p : SessionLog → Bool) (self : InMemorySessionLogsStore) : List SessionLog :=
  ((self.logs.entries.map (·.2)).filter p).insertionSort fun a b => a.created_at ≤ b.created_at

def list_log (session_id : SessionId) (self : InMemorySessionLogsStore) :
    Except StoreError (List SessionLog) :=
  .ok (self.sorted fun log => log.session_id = session_id)

def list_log_after (session_id : SessionId) (query : SearchLogQuery)
    (self : InMemorySessionLogsStore) : Except StoreError (List SessionLog) :=
  .ok (self.sorted fun log => log.session_id = session_id ∧ query.within log.created_at = true)

end InMemorySessionLogsStore

structure LogRow where
  session_id : SessionId
  id : SessionLogId
  content : Value
  created_at : Timestamp
  last_updated_at : Timestamp

/-- The columns of an entry. -/
def SessionLog.columns : Codec (fun row : LogRow => Jsonb row.content) SessionLog where
  encode log := (log_content.encode log.content).map fun v =>
    ⟨log.session_id, log.id, v, log.created_at, log.last_updated_at⟩
  decode row := (log_content.decode row.content).map fun content =>
    ⟨row.id, row.session_id, content, row.created_at, row.last_updated_at⟩
  Fits log := log_content.Fits log.content
  fits_iff := by
    intro log row h
    obtain ⟨v, hv, rfl⟩ := Option.map_eq_some_iff.mp h
    exact log_content.fits_iff hv

/-- `marie_session_logs` by its primary key. -/
structure PgLogStore where
  sessions : List SessionId
  logs : Entries (SessionId × SessionLogId) LogRow

namespace PgLogStore

def new (sessions : List SessionId) : PgLogStore := ⟨sessions, .empty⟩

/-- `INSERT .. ON CONFLICT (session_id, id) DO UPDATE SET content = EXCLUDED.content,
last_updated_at = EXCLUDED.last_updated_at`. -/
def insert_log (log : SessionLog) (self : PgLogStore) : Except PgError Unit × PgLogStore :=
  match SessionLog.columns.encode log with
  | none => (.error .Encode, self)
  | some excluded =>
    if is_jsonb excluded.content = false then (.error .InvalidJson, self)
    else if log.session_id ∉ self.sessions then
      (.error (.ForeignKeyViolation log.session_id), self)
    else
      let key := (log.session_id, log.id)
      match self.logs.find key with
      | some row =>
        let updated := { row with
          content := excluded.content, last_updated_at := excluded.last_updated_at }
        (.ok (), { self with logs := self.logs.insert (key, updated) })
      | none => (.ok (), { self with logs := self.logs.insert (key, excluded) })

/-- The row of an entry, in a session that the caller knows. -/
def decode_log_row (session_id : SessionId) (row : LogRow) : Option SessionLog :=
  (log_content.decode row.content).map fun content =>
    ⟨row.id, session_id, content, row.created_at, row.last_updated_at⟩

/-- `ORDER BY created_at` of the rows of a session that a condition lets through, decoded. -/
def sorted (session_id : SessionId) (q : LogRow → Bool) (self : PgLogStore) :
    Except PgError (List SessionLog) :=
  let rows := self.logs.entries.filter fun row => row.1.1 = session_id ∧ q row.2 = true
  let ordered := rows.insertionSort fun a b => a.2.created_at ≤ b.2.created_at
  match (ordered.map (·.2)).mapM (decode_log_row session_id) with
  | none => .error .Decode
  | some logs => .ok logs

def list_log (session_id : SessionId) (self : PgLogStore) : Except PgError (List SessionLog) :=
  self.sorted session_id fun _ => true

def list_log_after (session_id : SessionId) (query : SearchLogQuery) (self : PgLogStore) :
    Except PgError (List SessionLog) :=
  self.sorted session_id fun row => query.within row.created_at

end PgLogStore

end marie.session.stored
