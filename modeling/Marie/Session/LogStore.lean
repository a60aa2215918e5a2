-- The journal of a session in its store: one entry for each identifier. A
-- write to an entry that is there replaces its content, and leaves the date at
-- which it was created.
import Marie.Basic
import Std.Data.HashMap.Lemmas

namespace marie.session

deriving instance Hashable for SessionId

/-! ## Entries -/

structure SessionLogId where
  id : Nat
deriving DecidableEq, Hashable

/-- `chrono::DateTime<Utc>`, in microseconds. -/
abbrev Timestamp := Int

inductive SessionLogContent
  | Plain (text : String)
  | ToolLog (label : String) (input output : Value)
  | AgentLog (label : String) (content : Value)

structure SessionLog where
  id : SessionLogId
  session_id : SessionId
  content : SessionLogContent
  created_at : Timestamp
  last_updated_at : Timestamp

/-! ## In memory -/

structure InMemorySessionLogsStore where
  logs : Std.HashMap (SessionId × SessionLogId) SessionLog

namespace InMemorySessionLogsStore

def new : InMemorySessionLogsStore := ⟨∅⟩

def insert_log (log : SessionLog) (s : InMemorySessionLogsStore) : InMemorySessionLogsStore :=
  match s.logs[(log.session_id, log.id)]? with
  | some entry =>
    ⟨s.logs.insert (log.session_id, log.id)
      { entry with content := log.content, last_updated_at := log.last_updated_at }⟩
  | none => ⟨s.logs.insert (log.session_id, log.id) log⟩

/-- The content of the store for one session. -/
def stored (s : InMemorySessionLogsStore) (session_id : SessionId) (id : SessionLogId) :
    Option SessionLog :=
  s.logs[(session_id, id)]?

end InMemorySessionLogsStore

end marie.session
