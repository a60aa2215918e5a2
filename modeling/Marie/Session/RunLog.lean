-- The replay log of a run, and the loop that drives the body of a node over
-- it: a request that the log already answers is fed back to the body, the
-- first one that it does not answer suspends the run.
import Marie.Session.Protocol

namespace marie.session

/-! ## `RunLogs` -/

structure RunLogs where
  entries : List RunLog
  persisted_len : Nat
  cursor : Nat

namespace RunLogs

def new (persisted : List RunLog) : RunLogs :=
  { entries := persisted, persisted_len := persisted.length, cursor := 0 }

/-- Gives the handle of the entry at the cursor, and makes the entry when it is not there.
The index of a new entry is cast to `u32`. -/
def reserve_log (logs : RunLogs) (content : RunLogContent) : Nat × RunLogs :=
  let index := logs.cursor
  let entries :=
    if logs.entries.length ≤ index then
      logs.entries ++ [{ index := index % 2 ^ 32, content, value := none }]
    else logs.entries
  (index, { logs with entries, cursor := index + 1 })

/-- The value of the entry behind a handle. The handle is one that `reserve_log` gave, so it
is in bounds. -/
def check (logs : RunLogs) (log_ref : Nat) : Option Value :=
  (logs.entries[log_ref]?).bind (·.value)

def into_new_logs (logs : RunLogs) : List RunLog := logs.entries.drop logs.persisted_len

end RunLogs

/-! ## The body of a node -/

/-- What a body does from one suspension to the next: reads and writes of channels, then a
request (`suspend`), the result of the node, or an error. A read of a channel that does not
exist gives `none`. -/
inductive Segment (σ : Type)
  | read (name : ChannelName) (next : Option Value → Segment σ)
  | write (name : ChannelName) (value : Value) (next : Segment σ)
  | suspend (content : RunLogContent) (resume : Value → σ)
  | complete (result : FrameResult)
  | raise (error : String)

/-- A deterministic body with states `σ`: where it starts, and what it does from each state.
The answer to a request gives the state to go on from. -/
structure NodeBody (σ : Type) where
  start : σ
  segment : σ → Segment σ

/-- How a segment ends, with the tracker it leaves. -/
inductive SegmentEnd (σ : Type)
  | suspend (content : RunLogContent) (resume : Value → σ)
  | complete (result : FrameResult)
  | raise (error : String)

def Segment.run {σ : Type} : Segment σ → ChannelsTracker → SegmentEnd σ × ChannelsTracker
  | .read name next, t => (next (t.read name)).run t
  | .write name value next, t => next.run (t.write name value)
  | .suspend content resume, t => (.suspend content resume, t)
  | .complete result, t => (.complete result, t)
  | .raise error, t => (.raise error, t)

structure NodeContext where
  channels : ChannelsTracker
  logs : RunLogs

def run_log_content_to_frame_result : RunLogContent → FrameResult
  | .HitlLog request => .RequestHitl request
  | .ConsultExpertsLog requests => .ConsultExperts requests
  | .CallToolsLog requests => .CallTools requests
  | .GraphLog graph_id => .ExecuteGraph graph_id

/-- The loop of `GraphScriptEngine::execute`. Each turn moves the cursor by one, and a turn
past the end of the log makes an entry with no value, so the loop ends there. -/
def execute_loop {σ : Type} (body : NodeBody σ) (state : σ) (ctx : NodeContext) :
    Except String FrameResult × NodeContext :=
  match (body.segment state).run ctx.channels with
  | (.complete result, channels) => (.ok result, { ctx with channels })
  | (.raise error, channels) => (.error error, { ctx with channels })
  | (.suspend content resume, channels) =>
    match _h : (ctx.logs.reserve_log content).2.check (ctx.logs.reserve_log content).1 with
    | none =>
      (.ok (run_log_content_to_frame_result content),
        { channels, logs := (ctx.logs.reserve_log content).2 })
    | some resolved =>
      execute_loop body (resume resolved) { channels, logs := (ctx.logs.reserve_log content).2 }
termination_by ctx.logs.entries.length + 1 - ctx.logs.cursor
decreasing_by
  simp only [RunLogs.reserve_log, RunLogs.check] at _h ⊢
  split at _h
  · rename_i hle
    rw [List.getElem?_append_right hle] at _h
    rcases hk : ctx.logs.cursor - ctx.logs.entries.length with _ | k
    · simp [hk] at _h
    · simp [hk] at _h
  · rename_i hlt
    simp only [hlt, if_false]
    omega

/-! ### The turns of the loop -/

section Turns

variable {σ : Type} {body : NodeBody σ} {state : σ} {ctx : NodeContext}
  {channels : ChannelsTracker}

theorem execute_loop_complete {result : FrameResult}
    (h : (body.segment state).run ctx.channels = (.complete result, channels)) :
    execute_loop body state ctx = (.ok result, { ctx with channels }) := by
  rw [execute_loop, h]

/-- A request past the end of the log suspends the run. -/
theorem execute_loop_suspend {content : RunLogContent} {resume : Value → σ}
    (h : (body.segment state).run ctx.channels = (.suspend content resume, channels))
    (hend : ctx.logs.cursor = ctx.logs.entries.length) :
    execute_loop body state ctx =
      (.ok (run_log_content_to_frame_result content),
        { channels
          logs :=
            { ctx.logs with
              entries := ctx.logs.entries ++ [⟨ctx.logs.cursor % 2 ^ 32, content, none⟩]
              cursor := ctx.logs.cursor + 1 } }) := by
  have hr : ctx.logs.reserve_log content = (ctx.logs.cursor,
      { ctx.logs with
        entries := ctx.logs.entries ++ [⟨ctx.logs.cursor % 2 ^ 32, content, none⟩]
        cursor := ctx.logs.cursor + 1 }) := by
    simp [RunLogs.reserve_log, hend]
  rw [execute_loop, h]
  simp only
  split
  · rw [hr]
  · rename_i hv
    simp [hr, RunLogs.check, hend] at hv

/-- A request that the log answers goes on with the answer. -/
theorem execute_loop_replay {content : RunLogContent} {resume : Value → σ}
    {l : RunLog} {answer : Value}
    (h : (body.segment state).run ctx.channels = (.suspend content resume, channels))
    (hl : ctx.logs.entries[ctx.logs.cursor]? = some l) (hv : l.value = some answer) :
    execute_loop body state ctx =
      execute_loop body (resume answer)
        { channels, logs := { ctx.logs with cursor := ctx.logs.cursor + 1 } } := by
  have hlt := (List.getElem?_eq_some_iff.mp hl).1
  have hr : ctx.logs.reserve_log content =
      (ctx.logs.cursor, { ctx.logs with cursor := ctx.logs.cursor + 1 }) := by
    simp [RunLogs.reserve_log, Nat.not_le.mpr hlt]
  have hc : (ctx.logs.reserve_log content).2.check (ctx.logs.reserve_log content).1 =
      some answer := by
    simp [hr, RunLogs.check, hl, hv]
  rw [execute_loop, h]
  simp only
  split
  · rename_i hn
    rw [hc] at hn
    cases hn
  · rename_i v hs
    rw [hc] at hs
    cases hs
    rw [hr]

end Turns

def execute {σ : Type} (body : NodeBody σ) (ctx : NodeContext) :
    Except String FrameResult × NodeContext :=
  execute_loop body body.start ctx

/-- What the job `run_frame` makes of a node: an error of the body drops its writes and its
new log entries. -/
def run_graph_node {σ : Type} (body : NodeBody σ) (frame_id : FrameId) (channels : Channels)
    (logs : List RunLog) : FrameResponse :=
  match execute body { channels := .new frame_id channels, logs := .new logs } with
  | (.ok result, ctx) =>
    { frame_id, updates := ctx.channels.into_updates, new_logs := ctx.logs.into_new_logs, result }
  | (.error error, _) => { frame_id, updates := [], new_logs := [], result := .Failed error }

/-! ## The log of a frame -/

/-- `FrameTree::pending_log_of` on the log of the frame: the last entry with no value. -/
def pending_log (logs : List RunLog) : Option RunLog :=
  logs.reverse.find? (fun l => l.value.isNone)

/-- `FrameTree::resolve_log` on the log of the frame: the first entry with the index takes
the value. -/
def resolve_entry (index : Nat) (value : Value) : List RunLog → List RunLog
  | [] => []
  | l :: rest =>
    if l.index = index then { l with value := some value } :: rest
    else l :: resolve_entry index value rest

/-- The entry at the end of the log takes the value, when no other one has its index. -/
theorem resolve_entry_concat {logs : List RunLog} {index : Nat} (content : RunLogContent)
    (h : ∀ l ∈ logs, l.index ≠ index) (value : Value) :
    resolve_entry index value (logs ++ [⟨index, content, none⟩]) =
      logs ++ [⟨index, content, some value⟩] := by
  induction logs with
  | nil => simp [resolve_entry]
  | cons l logs ih =>
    simp only [List.cons_append, resolve_entry]
    rw [if_neg (h l (by simp)), ih fun l' hl' => h l' (by simp [hl'])]

theorem pending_log_concat (logs : List RunLog) (index : Nat) (content : RunLogContent) :
    pending_log (logs ++ [⟨index, content, none⟩]) = some ⟨index, content, none⟩ := by
  simp [pending_log]

end marie.session
