-- Replay against direct execution. A body that touches no channel is a
-- generator: from the answers it has, it asks for one more or it ends. Running
-- it again and again over the log of a frame asks for what one uninterrupted
-- execution asks for, and ends with the same result.
import Marie.Session.FrameLaws

namespace marie.session

open Program FrameTree

/-! ## Generators -/

/-- What a generator does next. -/
inductive Move
  | yield (content : RunLogContent)
  | done (result : FrameResult)

/-- A deterministic body: its next move, from the answers received so far. -/
abbrev Generator := List Value → Move

def Generator.body (g : Generator) : NodeBody (List Value) where
  start := []
  segment answers :=
    match g answers with
    | .yield content => .suspend content (fun answer => answers ++ [answer])
    | .done result => .complete result

/-- The uninterrupted execution from the answers `given` on: the requests it makes while
`answers` last, and its result when it ends. -/
def direct (g : Generator) (given : List Value) :
    List Value → List RunLogContent × Option FrameResult
  | [] =>
    match g given with
    | .yield content => ([content], none)
    | .done result => ([], some result)
  | answer :: answers =>
    match g given with
    | .yield content =>
      (content :: (direct g (given ++ [answer]) answers).1, (direct g (given ++ [answer]) answers).2)
    | .done result => ([], some result)

/-! ## The iteration -/

/-- One run of the body over the log of the frame; its new entries join the log. -/
def run_body (g : Generator) (frame_id : FrameId) : Tree FrameResult := do
  let logs ← logs_of frame_id
  let out := execute g.body { channels := .new frame_id Channels.empty, logs := .new logs }
  append_logs frame_id out.2.logs.into_new_logs
  match out.1 with
  | .ok result => pure result
  | .error error => pure (.Failed error)

/-- The answer to the entry that waits for one. -/
def answer_pending (frame_id : FrameId) (answer : Value) : Tree Unit := do
  match ← pending_log_of frame_id with
  | some pending => resolve_log frame_id pending.index answer
  | none => pure ()

/-- One run and its answer for each of the answers. -/
def iterate (g : Generator) (frame_id : FrameId) : List Value → Tree Unit
  | [] => pure ()
  | answer :: answers => do
    let _ ← run_body g frame_id
    answer_pending frame_id answer
    iterate g frame_id answers

/-- The log of a frame. -/
def logs_at (t : FrameTree) (frame_id : FrameId) : List RunLog :=
  ((t.find frame_id).map (·.logs)).getD []

/-- A log in order: the entry `i` has the index `i`, only the last one may wait for an answer,
and it is the one that `pending_log_of` finds. -/
structure InOrder (logs : List RunLog) : Prop where
  index : ∀ i (l : RunLog), logs[i]? = some l → l.index = i
  unresolved_is_last : ∀ i (l : RunLog), logs[i]? = some l → l.value = none → i + 1 = logs.length
  pending : pending_log logs = logs.getLast?.filter (·.value.isNone)

/-! ## A log with an answer for each entry -/

/-- `logs` holds the requests that `g` makes along `given`, each with its answer. -/
structure Logged (g : Generator) (given : List Value) (logs : List RunLog) : Prop where
  length : logs.length = given.length
  entry : ∀ i answer, given[i]? = some answer →
    ∃ content, g (given.take i) = .yield content ∧ logs[i]? = some ⟨i, content, some answer⟩

theorem logged_nil (g : Generator) : Logged g [] [] :=
  ⟨rfl, fun i answer h => by simp at h⟩

theorem Logged.snoc {g : Generator} {given : List Value} {logs : List RunLog}
    {content : RunLogContent} (h : Logged g given logs) (hg : g given = .yield content)
    (answer : Value) :
    Logged g (given ++ [answer]) (logs ++ [⟨given.length, content, some answer⟩]) := by
  refine ⟨by simp [h.length], ?_⟩
  intro i a ha
  rcases Nat.lt_trichotomy i given.length with hlt | heq | hgt
  · rw [List.getElem?_append_left hlt] at ha
    obtain ⟨c, hc, hl⟩ := h.entry i a ha
    refine ⟨c, ?_, ?_⟩
    · rwa [List.take_append_of_le_length hlt.le]
    · rwa [List.getElem?_append_left (h.length ▸ hlt)]
  · subst heq
    simp only [List.getElem?_concat_length, Option.some.injEq] at ha
    subst ha
    refine ⟨content, by simpa using hg, ?_⟩
    rw [← h.length, List.getElem?_concat_length]
  · simp [List.getElem?_eq_none (by simp; omega : (given ++ [answer]).length ≤ i)] at ha

/-- Every entry of the log has its answer. -/
theorem Logged.resolved {g : Generator} {given : List Value} {logs : List RunLog}
    (h : Logged g given logs) {i : Nat} {l : RunLog} (hl : logs[i]? = some l) :
    l.index = i ∧ l.value ≠ none := by
  have hi : i < given.length := by
    rw [← h.length]
    exact (List.getElem?_eq_some_iff.mp hl).1
  obtain ⟨c, -, hc⟩ := h.entry i given[i] (List.getElem?_eq_getElem hi)
  rw [hl] at hc
  cases hc
  exact ⟨rfl, by simp⟩

theorem Logged.in_order {g : Generator} {given : List Value} {logs : List RunLog}
    (h : Logged g given logs) : InOrder logs := by
  have hall : ∀ l ∈ logs, l.value.isNone = false := by
    intro l hl
    obtain ⟨i, hi⟩ := List.mem_iff_getElem?.mp hl
    have := (h.resolved hi).2
    cases hv : l.value
    · exact absurd hv this
    · rfl
  refine ⟨fun i l hl => (h.resolved hl).1, fun i l hl hv => absurd hv (h.resolved hl).2, ?_⟩
  have hnone : pending_log logs = none := by
    unfold pending_log
    rw [List.find?_eq_none]
    intro l hl
    simp [hall l (List.mem_reverse.mp hl)]
  rw [hnone]
  cases hlast : logs.getLast? with
  | none => rfl
  | some l => simp [Option.filter, hall l (List.mem_of_getLast? hlast)]

/-- The log while one more entry waits. -/
theorem Logged.in_order_pending {g : Generator} {given : List Value} {logs : List RunLog}
    (h : Logged g given logs) (content : RunLogContent) :
    InOrder (logs ++ [⟨given.length, content, none⟩]) := by
  have hsplit : ∀ i l, (logs ++ [⟨given.length, content, none⟩])[i]? = some l →
      logs[i]? = some l ∨ (i = logs.length ∧ l = ⟨given.length, content, none⟩) := by
    intro i l hl
    rcases Nat.lt_trichotomy i logs.length with hlt | heq | hgt
    · rw [List.getElem?_append_left hlt] at hl
      exact .inl hl
    · subst heq
      rw [List.getElem?_concat_length] at hl
      exact .inr ⟨rfl, (Option.some.inj hl).symm⟩
    · simp [List.getElem?_eq_none (by simp; omega : (logs ++ [_]).length ≤ i)] at hl
  refine ⟨?_, ?_, by rw [pending_log_concat]; simp [Option.filter]⟩
  · intro i l hl
    rcases hsplit i l hl with hl | ⟨hi, rfl⟩
    · exact (h.resolved hl).1
    · exact hi ▸ h.length.symm
  · intro i l hl hv
    rcases hsplit i l hl with hl | ⟨hi, -⟩
    · exact absurd hv (h.resolved hl).2
    · simp [hi]

/-- No entry has the index of the next one. -/
theorem Logged.index_ne {g : Generator} {given : List Value} {logs : List RunLog}
    (h : Logged g given logs) : ∀ l ∈ logs, l.index ≠ given.length := by
  intro l hl
  obtain ⟨i, hi⟩ := List.mem_iff_getElem?.mp hl
  have hlt := (List.getElem?_eq_some_iff.mp hi).1
  rw [(h.resolved hi).1]
  have := h.length
  omega

/-! ## One run -/

variable {g : Generator} {given : List Value} {logs : List RunLog}

/-- The loop goes through the entries that have an answer, and comes to the next move of the
generator. The induction is on the entries left. -/
theorem execute_loop_logged (h : Logged g given logs) (channels : ChannelsTracker) (left : Nat) :
    ∀ j, j + left = given.length →
    execute_loop g.body (given.take j) ⟨channels, ⟨logs, logs.length, j⟩⟩ =
      execute_loop g.body given ⟨channels, ⟨logs, logs.length, given.length⟩⟩ := by
  induction left with
  | zero =>
    intro j hj
    have : j = given.length := by omega
    subst this
    rw [List.take_length]
  | succ left ih =>
    intro j hj
    have hlt : j < given.length := by omega
    obtain ⟨content, hg, hl⟩ := h.entry j given[j] (List.getElem?_eq_getElem hlt)
    have hseg : (g.body.segment (given.take j)).run channels =
        (.suspend content (fun answer => given.take j ++ [answer]), channels) := by
      simp [Generator.body, hg, Segment.run]
    rw [execute_loop_replay hseg hl rfl, ← ih (j + 1) (by omega)]
    simp

/-- The log that a run of the body leaves, and its result. -/
theorem execute_logged (h : Logged g given logs) (h32 : given.length < 2 ^ 32)
    (channels : ChannelsTracker) :
    execute g.body ⟨channels, .new logs⟩ =
      match g given with
      | .yield content =>
        (.ok (run_log_content_to_frame_result content),
          ⟨channels, ⟨logs ++ [⟨given.length, content, none⟩], logs.length, given.length + 1⟩⟩)
      | .done result => (.ok result, ⟨channels, ⟨logs, logs.length, given.length⟩⟩) := by
  have hstart := execute_loop_logged h channels given.length 0 (by omega)
  rw [List.take_zero] at hstart
  change execute_loop g.body [] ⟨channels, ⟨logs, logs.length, 0⟩⟩ = _
  rw [hstart]
  cases hg : g given with
  | yield content =>
    have hseg : (g.body.segment given).run channels =
        (.suspend content (fun answer => given ++ [answer]), channels) := by
      simp [Generator.body, hg, Segment.run]
    rw [execute_loop_suspend hseg h.length.symm]
    simpa using h32
  | done result =>
    have hseg : (g.body.segment given).run channels = (.complete result, channels) := by
      simp [Generator.body, hg, Segment.run]
    rw [execute_loop_complete hseg]

variable {t : FrameTree} {f : FrameId} {n : FrameNode}

theorem logs_at_of_find (h : t.find f = some n) : logs_at t f = n.logs := by
  simp [logs_at, h]

theorem exec_append_logs (h : t.find f = some n) (new_logs : List RunLog) :
    ∃ t', exec (append_logs f new_logs) t = (.ok (), t') ∧
      t'.find f = some { n with logs := n.logs ++ new_logs } := by
  unfold append_logs
  cases new_logs with
  | nil => exact ⟨t, rfl, by simpa using h⟩
  | cons l new_logs =>
    refine ⟨_, exec_write h, ?_⟩
    rw [find_write h, if_pos rfl]

theorem exec_resolve_log (h : t.find f = some n) (index : Nat) (value : Value) :
    ∃ t', exec (resolve_log f index value) t = (.ok (), t') ∧
      t'.find f = some { n with logs := resolve_entry index value n.logs } := by
  refine ⟨_, exec_write h, ?_⟩
  rw [find_write h, if_pos rfl]

/-- A run that suspends: it asks for the next move of the generator, and its entry waits. -/
theorem run_body_yield {content : RunLogContent} (hf : t.find f = some n)
    (h : Logged g given n.logs) (h32 : given.length < 2 ^ 32) (hg : g given = .yield content) :
    ∃ t', exec (run_body g f) t = (.ok (run_log_content_to_frame_result content), t') ∧
      t'.find f = some { n with logs := n.logs ++ [⟨given.length, content, none⟩] } := by
  have hlogs : exec (logs_of f) t = (.ok n.logs, t.load f) := exec_get_map _ hf
  obtain ⟨t', hexec, hfind⟩ := exec_append_logs (t := t.load f) (by rw [find_load]; exact hf)
    [⟨given.length, content, none⟩]
  refine ⟨t', ?_, hfind⟩
  unfold run_body
  rw [exec_bind_ok hlogs, execute_logged h h32, hg]
  have hnew : (RunLogs.mk (n.logs ++ [⟨given.length, content, none⟩]) n.logs.length
      (given.length + 1)).into_new_logs = [⟨given.length, content, none⟩] := by
    simp [RunLogs.into_new_logs]
  simp only [hnew]
  rw [exec_bind_ok hexec]
  rfl

/-- A run that ends: it has the result of the generator, and makes no entry. -/
theorem run_body_done {result : FrameResult} (hf : t.find f = some n)
    (h : Logged g given n.logs) (h32 : given.length < 2 ^ 32) (hg : g given = .done result) :
    ∃ t', exec (run_body g f) t = (.ok result, t') ∧ t'.find f = some n := by
  have hlogs : exec (logs_of f) t = (.ok n.logs, t.load f) := exec_get_map _ hf
  refine ⟨t.load f, ?_, by rw [find_load]; exact hf⟩
  unfold run_body
  rw [exec_bind_ok hlogs, execute_logged h h32, hg]
  have hnew : (RunLogs.mk n.logs n.logs.length given.length).into_new_logs = [] := by
    simp [RunLogs.into_new_logs]
  simp only [hnew]
  rfl

theorem exec_answer_pending {index : Nat} {content : RunLogContent} {logs : List RunLog}
    (hf : t.find f = some n) (hn : n.logs = logs ++ [⟨index, content, none⟩])
    (hne : ∀ l ∈ logs, l.index ≠ index) (answer : Value) :
    ∃ t', exec (answer_pending f answer) t = (.ok (), t') ∧
      t'.find f = some { n with logs := logs ++ [⟨index, content, some answer⟩] } := by
  have hpending : exec (pending_log_of f) t = (.ok (some ⟨index, content, none⟩), t.load f) := by
    unfold pending_log_of
    rw [exec_get_map _ hf, hn, pending_log_concat]
  have hload : (t.load f).find f = some n := by rw [find_load]; exact hf
  obtain ⟨t', hexec, hfind⟩ := exec_resolve_log hload index answer
  refine ⟨t', ?_, by rw [hfind, hn, resolve_entry_concat content hne]⟩
  unfold answer_pending
  rw [exec_bind_ok hpending]
  exact hexec

/-- The runs and answers before the run number `answers.length + 1`, when each of them
suspends: every entry has its answer. -/
theorem iterate_logged (answers : List Value) (given : List Value) (t : FrameTree) (n : FrameNode)
    (hf : t.find f = some n) (h : Logged g given n.logs)
    (h32 : given.length + answers.length < 2 ^ 32)
    (hyields : answers.length ≤ (direct g given answers).1.length) :
    ∃ t' n', exec (iterate g f answers) t = (.ok (), t') ∧ t'.find f = some n' ∧
      Logged g (given ++ answers) n'.logs := by
  induction answers generalizing given t n with
  | nil => exact ⟨t, n, rfl, hf, by simpa using h⟩
  | cons answer answers ih =>
    simp only [List.length_cons] at h32
    cases hg : g given with
    | done result => simp [direct, hg] at hyields
    | yield content =>
      obtain ⟨t1, hrun, hf1⟩ := run_body_yield hf h (by omega) hg
      obtain ⟨t2, hans, hf2⟩ := exec_answer_pending hf1 rfl h.index_ne answer
      have hnext : answers.length ≤ (direct g (given ++ [answer]) answers).1.length := by
        simpa [direct, hg] using hyields
      obtain ⟨t', n', hiter, hf', hlog⟩ := ih (given ++ [answer]) t2 _ hf2 (h.snoc hg answer)
        (by simp; omega) hnext
      refine ⟨t', n', ?_, hf', by simpa using hlog⟩
      rw [iterate, exec_bind_ok hrun, exec_bind_ok hans, hiter]

/-! ## The direct execution -/

/-- The answers before the request `k` decide it, and those before the end decide the
result. -/
theorem direct_at (g : Generator) (answers given : List Value) (k : Nat)
    (hk : k ≤ answers.length) (hyields : k ≤ (direct g given answers).1.length) :
    k ≤ (direct g given (answers.take k)).1.length ∧
    (∀ content, (direct g given answers).1[k]? = some content →
      g (given ++ answers.take k) = .yield content) ∧
    (∀ result, k = (direct g given answers).1.length → (direct g given answers).2 = some result →
      g (given ++ answers.take k) = .done result) := by
  induction answers generalizing given k with
  | nil =>
    obtain rfl : k = 0 := by simpa using hk
    cases hg : g given <;> simp [direct, hg]
  | cons answer answers ih =>
    cases k with
    | zero => cases hg : g given <;> simp [direct, hg]
    | succ k =>
      cases hg : g given with
      | done result => simp [direct, hg] at hyields
      | yield content =>
        have hnext := ih (given ++ [answer]) k (by simpa using hk)
          (by simpa [direct, hg] using hyields)
        simpa [direct, hg] using hnext

/-! ## Replay is direct execution -/

/-- Run the body over the log, append its new entries, answer the entry that waits, and run
again. At every step the log is in order. The run `k + 1` asks for the request `k` of the
uninterrupted execution; once that execution has ended, the next run ends with its result and
makes no entry. -/
theorem replay_is_direct_execution (g : Generator) (answers : List Value) (t : FrameTree)
    (f : FrameId) (n : FrameNode) (hf : t.find f = some n) (hlogs : n.logs = [])
    (h32 : (direct g [] answers).1.length < 2 ^ 32) (k : Nat) (hk : k ≤ answers.length)
    (hyields : k ≤ (direct g [] answers).1.length) :
    let before := (exec (iterate g f (answers.take k)) t).2
    let run := exec (run_body g f) before
    InOrder (logs_at before f) ∧ InOrder (logs_at run.2 f) ∧
    (logs_at before f).length = k ∧ (∀ l ∈ logs_at before f, l.value ≠ none) ∧
    (∀ content, (direct g [] answers).1[k]? = some content →
      run.1 = .ok (run_log_content_to_frame_result content) ∧
      logs_at run.2 f = logs_at before f ++ [⟨k, content, none⟩] ∧
      (exec (pending_log_of f) run.2).1 = .ok (some ⟨k, content, none⟩)) ∧
    (∀ result, k = (direct g [] answers).1.length → (direct g [] answers).2 = some result →
      run.1 = .ok result ∧ logs_at run.2 f = logs_at before f) := by
  obtain ⟨hlen, hyield, hdone⟩ := direct_at g answers [] k hk hyields
  have htake : (answers.take k).length = k := by simpa using hk
  obtain ⟨t1, n1, hiter, hf1, hlogged⟩ := iterate_logged (g := g) (f := f) (answers.take k) [] t n hf
    (by rw [hlogs]; exact logged_nil g) (by rw [htake]; simp; omega) (by rw [htake]; exact hlen)
  simp only [List.nil_append] at hlogged hyield hdone
  have hbefore : logs_at t1 f = n1.logs := logs_at_of_find hf1
  have h32' : (answers.take k).length < 2 ^ 32 := by omega
  have hresolved : ∀ l ∈ n1.logs, l.value ≠ none := by
    intro l hl
    obtain ⟨i, hi⟩ := List.mem_iff_getElem?.mp hl
    exact (hlogged.resolved hi).2
  simp only [hiter, hbefore]
  -- the next move of the generator decides what the next run does
  cases hg : g (answers.take k) with
  | yield content =>
    obtain ⟨t2, hrun, hf2⟩ := run_body_yield hf1 hlogged h32' hg
    rw [htake] at hf2
    have hafter : logs_at t2 f = n1.logs ++ [⟨k, content, none⟩] := logs_at_of_find hf2
    have horder := hlogged.in_order_pending content
    rw [htake] at horder
    rw [hrun]
    refine ⟨hlogged.in_order, hafter ▸ horder, by rw [hlogged.length, htake], hresolved, ?_, ?_⟩
    · intro c hc
      obtain rfl : content = c := by simpa [hg] using hyield c hc
      refine ⟨rfl, hafter, ?_⟩
      unfold pending_log_of
      rw [exec_get_map _ hf2, pending_log_concat]
    · intro r hend hr
      rw [hdone r hend hr] at hg
      cases hg
  | done result =>
    obtain ⟨t2, hrun, hf2⟩ := run_body_done hf1 hlogged h32' hg
    have hafter : logs_at t2 f = n1.logs := logs_at_of_find hf2
    rw [hrun]
    refine ⟨hlogged.in_order, hafter ▸ hlogged.in_order, by rw [hlogged.length, htake],
      hresolved, ?_, ?_⟩
    · intro c hc
      rw [hyield c hc] at hg
      cases hg
    · intro r hend hr
      rw [hdone r hend hr] at hg
      cases hg
      exact ⟨rfl, hafter⟩

/-- A generator that asks twice for a sub-graph, then completes. -/
def askTwice : Generator := fun answers =>
  if answers.length < 2 then .yield (.GraphLog "sub") else .done .Completed

/-- A tree with one frame. -/
def oneFrame : FrameTree := (FrameTree.new.create_node { spec_ref := .ToolCall, data := .Void }).2

theorem replay_of_two_requests :
    (exec (run_body askTwice ⟨0⟩) (exec (iterate askTwice ⟨0⟩ [.Null, .Null]) oneFrame).2).1 =
      .ok .Completed :=
  have h := replay_is_direct_execution askTwice [.Null, .Null] oneFrame ⟨0⟩ _ rfl rfl (by decide) 2
    (by decide) (by decide)
  (h.2.2.2.2.2 .Completed rfl rfl).1

end marie.session
