-- The events of a journal against its store. An event carries the record that
-- a call has built, with the time of the call as its date of creation; the
-- store keeps the date of the first write.
import Marie.Session.LogStore
import Mathlib.Data.List.Induction

namespace marie.session

/-! ## The journal -/

/-- The two events of `SessionEvent` that a journal sends. -/
inductive LogEvent
  | LogCreated (log : SessionLog)
  | LogUpdated (log : SessionLog)

/-- The record that an event carries. -/
def LogEvent.record : LogEvent → SessionLog
  | .LogCreated log | .LogUpdated log => log

/-- The store that the journals of all sessions write to, and what they have sent to the bus. -/
structure Journals where
  store : InMemorySessionLogsStore
  bus : List LogEvent

/-- The journal of one session. -/
structure SessionLogs where
  session_id : SessionId

namespace SessionLogs

variable (self : SessionLogs)

/-- The record that both calls build. -/
def built (id : SessionLogId) (now : Timestamp) (content : SessionLogContent) : SessionLog :=
  { id, session_id := self.session_id, content, created_at := now, last_updated_at := now }

/-- `id` is the one that the generator gives, `now` what the clock reads. -/
def log (id : SessionLogId) (now : Timestamp) (content : SessionLogContent) (j : Journals) :
    Journals where
  store := j.store.insert_log (self.built id now content)
  bus := j.bus ++ [.LogCreated (self.built id now content)]

def replace_log (id : SessionLogId) (now : Timestamp) (content : SessionLogContent)
    (j : Journals) : Journals where
  store := j.store.insert_log (self.built id now content)
  bus := j.bus ++ [.LogUpdated (self.built id now content)]

end SessionLogs

/-! ## Runs -/

inductive LogCall
  | log (self : SessionLogs) (id : SessionLogId) (now : Timestamp) (content : SessionLogContent)
  | replace_log (self : SessionLogs) (id : SessionLogId) (now : Timestamp)
      (content : SessionLogContent)

def LogCall.perform (j : Journals) : LogCall → Journals
  | .log self id now content => self.log id now content j
  | .replace_log self id now content => self.replace_log id now content j

def LogCall.record : LogCall → SessionLog
  | .log self id now content | .replace_log self id now content => self.built id now content

def Journals.new : Journals := ⟨.new, []⟩

def Journals.after (calls : List LogCall) : Journals := calls.foldl LogCall.perform .new

/-- The records of one session, inserted one after the other in a map keyed by their id. -/
def folded (session_id : SessionId) (events : List LogEvent) :
    Std.HashMap SessionLogId SessionLog :=
  ((events.map LogEvent.record).filter (·.session_id = session_id)).foldl
    (fun m log => m.insert log.id log) ∅

/-! ## The writes of one entry -/

/-- What the calls have written to one entry, oldest first. -/
def writes (session_id : SessionId) (id : SessionLogId) (calls : List LogCall) : List SessionLog :=
  (calls.map LogCall.record).filter fun log => log.session_id = session_id ∧ log.id = id

section

variable {calls : List LogCall} {call : LogCall} {session_id : SessionId} {id : SessionLogId}

theorem after_concat : Journals.after (calls ++ [call]) = call.perform (Journals.after calls) := by
  unfold Journals.after
  rw [List.foldl_append]
  rfl

theorem perform_store (j : Journals) : (call.perform j).store = j.store.insert_log call.record := by
  cases call <;> rfl

theorem perform_bus (j : Journals) :
    (call.perform j).bus.map LogEvent.record =
      j.bus.map LogEvent.record ++ [call.record] := by
  cases call <;> simp [LogCall.perform, SessionLogs.log, SessionLogs.replace_log, LogCall.record,
    LogEvent.record]

theorem writes_concat :
    writes session_id id (calls ++ [call]) =
      writes session_id id calls ++
        if call.record.session_id = session_id ∧ call.record.id = id then [call.record] else [] := by
  unfold writes
  rw [List.map_append, List.filter_append]
  by_cases h : call.record.session_id = session_id ∧ call.record.id = id
  · simp [h]
  · simp [h]

/-- The events are the records of the calls. -/
theorem records_after :
    (Journals.after calls).bus.map LogEvent.record = calls.map LogCall.record := by
  induction calls using List.reverseRecOn with
  | nil => rfl
  | append_singleton calls call ih =>
    rw [after_concat, perform_bus, ih, List.map_append]
    rfl

/-- The fold of the events has the last write of each entry. -/
theorem folded_after :
    (folded session_id (Journals.after calls).bus)[id]? =
      (writes session_id id calls).getLast? := by
  unfold folded
  rw [records_after]
  induction calls using List.reverseRecOn with
  | nil => simp [writes]
  | append_singleton calls call ih =>
    rw [writes_concat, List.map_append, List.filter_append, List.foldl_append]
    by_cases hs : call.record.session_id = session_id
    · by_cases hid : call.record.id = id
      · simp [hs, hid]
      · simp [hs, hid, Std.HashMap.getElem?_insert, ih]
    · simp [hs, ih]

/-- An entry of the store: its last write, with the date of its first one. -/
def merged (written : List SessionLog) : Option SessionLog :=
  written.getLast?.map fun last =>
    { last with created_at := (written.head?.getD last).created_at }

theorem merged_concat (written : List SessionLog) (log : SessionLog) :
    merged (written ++ [log]) =
      some { log with created_at := (written.head?.getD log).created_at } := by
  unfold merged
  rw [List.getLast?_concat]
  cases written <;> simp

theorem stored_insert (s : InMemorySessionLogsStore) (log : SessionLog) :
    (s.insert_log log).stored session_id id =
      if log.session_id = session_id ∧ log.id = id then
        some (match s.stored session_id id with
          | some entry =>
            { entry with content := log.content, last_updated_at := log.last_updated_at }
          | none => log)
      else s.stored session_id id := by
  unfold InMemorySessionLogsStore.insert_log InMemorySessionLogsStore.stored
  by_cases h : log.session_id = session_id ∧ log.id = id
  · obtain ⟨rfl, rfl⟩ := h
    split <;> simp_all
  · split <;> simp [Std.HashMap.getElem?_insert, h]

theorem of_mem_writes {log : SessionLog} (h : log ∈ writes session_id id calls) :
    log.session_id = session_id ∧ log.id = id ∧ log.last_updated_at = log.created_at := by
  obtain ⟨hlog, hof⟩ := List.mem_filter.mp h
  obtain ⟨call, -, rfl⟩ := List.mem_map.mp hlog
  simp only [decide_eq_true_eq] at hof
  refine ⟨hof.1, hof.2, ?_⟩
  cases call <;> rfl

/-- The entry of the store has the last write, but for the date of the first one. -/
theorem stored_after :
    (Journals.after calls).store.stored session_id id = merged (writes session_id id calls) := by
  induction calls using List.reverseRecOn with
  | nil =>
    simp [Journals.after, Journals.new, InMemorySessionLogsStore.new,
      InMemorySessionLogsStore.stored, writes, merged]
  | append_singleton calls call ih =>
    rw [after_concat, perform_store, stored_insert, ih, writes_concat]
    by_cases h : call.record.session_id = session_id ∧ call.record.id = id
    · rw [if_pos h, if_pos h, merged_concat]
      cases hlast : (writes session_id id calls).getLast? with
      | none =>
        rw [List.getLast?_eq_none_iff] at hlast
        simp [merged, hlast]
      | some last =>
        have hmem := List.mem_of_getLast? hlast
        obtain ⟨hs, hid, -⟩ := of_mem_writes hmem
        cases hfirst : (writes session_id id calls).head? with
        | none =>
          rw [List.head?_eq_none_iff] at hfirst
          simp [hfirst] at hmem
        | some first => simp [merged, hlast, hfirst, h, hs, hid]
    · rw [if_neg h, if_neg h, List.append_nil]

/-- The two have the content and the date of the last write. -/
theorem merged_eq_getLast_iff (written : List SessionLog) :
    merged written = written.getLast? ↔
      ∀ first last, written.head? = some first → written.getLast? = some last →
        first.created_at = last.created_at := by
  unfold merged
  cases hlast : written.getLast? with
  | none => simp
  | some last =>
    cases hfirst : written.head? with
    | none =>
      rw [List.head?_eq_none_iff] at hfirst
      simp [hfirst] at hlast
    | some first =>
      simp only [Option.map_some, Option.getD_some, Option.some.injEq]
      constructor
      · rintro heq _ _ rfl rfl
        rw [← heq]
      · intro h
        rw [h first last rfl rfl]

end

/-! ## The fold of the events is the store -/

/-- The first and the last write of the entry are at one time. -/
def OneDate (session_id : SessionId) (id : SessionLogId) (calls : List LogCall) : Prop :=
  ∀ first last, (writes session_id id calls).head? = some first →
    (writes session_id id calls).getLast? = some last → first.created_at = last.created_at

/-- Only the date of creation of an entry is ever lost. -/
theorem folded_but_for_created_at (calls : List LogCall) (session_id : SessionId)
    (id : SessionLogId) :
    ((Journals.after calls).store.stored session_id id).map
        (fun log => (log.id, log.session_id, log.content, log.last_updated_at)) =
      ((folded session_id (Journals.after calls).bus)[id]?).map
        (fun log => (log.id, log.session_id, log.content, log.last_updated_at)) := by
  rw [folded_after, stored_after, merged, Option.map_map]
  rfl

/-- **The events rebuild the journal** of a session exactly when no entry of it was replaced at
another time than the one of its first write. -/
theorem events_rebuild_the_journal_iff (calls : List LogCall) (session_id : SessionId) :
    (∀ id, (folded session_id (Journals.after calls).bus)[id]? =
      (Journals.after calls).store.stored session_id id) ↔
    ∀ id, OneDate session_id id calls := by
  apply forall_congr'
  intro id
  rw [folded_after, stored_after, eq_comm, merged_eq_getLast_iff]
  rfl

/-- An entry is created, and its content replaced one microsecond later. -/
def replacedOnce : List LogCall :=
  [.log ⟨⟨0⟩⟩ ⟨0⟩ 0 (.Plain "a"), .replace_log ⟨⟨0⟩⟩ ⟨0⟩ 1 (.Plain "ab")]

/-- The event of the replacement says that the entry was created with it. -/
theorem a_replacement_moves_the_creation :
    ¬ ∀ id, (folded ⟨0⟩ (Journals.after replacedOnce).bus)[id]? =
      (Journals.after replacedOnce).store.stored ⟨0⟩ id := by
  intro h
  have hid := h ⟨0⟩
  rw [folded_after, stored_after, eq_comm, merged_eq_getLast_iff] at hid
  have hdate : (0 : Int) = 1 := hid _ _ rfl rfl
  omega

end marie.session
