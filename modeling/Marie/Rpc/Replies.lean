-- The replies of the RPC server: a task handles each call, and the tasks go on in
-- any order. A call whose arguments are not decoded makes its task panic before the
-- reply, and so does an executor that panics.
import Marie.Lib.Closures
import Marie.Lib.Runs
import Marie.Lib.Threads
import Marie.Rpc.Protocol

open Closures Runs

namespace marie.rpc

/-! ## The server -/

/-- A call of a registered executor: the world that it finds, and the source of the call. -/
abbrev RpcExecutor (World : Type) := Closure Value (World × NodeId) Value

/-- `RpcExecutor::new`: the closure that is kept for an executor. -/
def RpcExecutor.new {World Args R : Type} (from_value : Value → Except String Args)
    (f : World × NodeId → Args → Unwind (Unwind R)) (to_value : R → Except String Value) :
    RpcExecutor World :=
  Closure.of from_value f to_value

/-- Where the task of `handle_call` stands. -/
inductive Phase
  | called
  /-- `execute_call` polls the future of the executor: it gives this when it ends. -/
  | polling (future : Unwind Value)
  /-- `execute_call` returned. -/
  | replying (result : Except RpcError Value)
  | replied
  | panicked

/-- A task of `handle_call`. The code keeps no `asked`: it is the executor that was found for the
call, and the world that the call was made in. -/
structure Handler (World : Type) where
  call : RpcCall
  callee : NodeId
  phase : Phase
  asked : Option (Option (RpcExecutor World) × World)

/-- `sent` is what `send` was given, by the number of the task. -/
structure RpcServer (World : Type) where
  executors : List (String × RpcExecutor World)
  handlers : List (Handler World)
  sent : List (Nat × RpcReply × NodeId)

inductive Move (World : Type)
  | register (name : String) (executor : RpcExecutor World)
  /-- The loop of `run` takes a message from the stream. -/
  | receive (payload : RpcMessage) (source : NodeId)
  /-- A task goes on, in the world that it finds. -/
  | go (k : Nat) (w : World)

namespace RpcServer

variable {World : Type}

def new : RpcServer World := ⟨[], [], []⟩

def executor (name : String) (self : RpcServer World) : Option (RpcExecutor World) :=
  self.executors.lookup name

def register (name : String) (executor : RpcExecutor World) (self : RpcServer World) :
    RpcServer World :=
  { self with executors := (name, executor) :: self.executors }

/-- A turn of the loop of `run`: it spawns a task for a call. -/
def receive (payload : RpcMessage) (source : NodeId) (self : RpcServer World) : RpcServer World :=
  match payload with
  | .Call call => { self with handlers := self.handlers ++ [⟨call, source, .called, none⟩] }
  | _ => self

/-- `execute_call`, up to the future of the executor. -/
def execute_call (call : RpcCall) (callee : NodeId) (w : World) (self : RpcServer World) : Phase :=
  match self.executor call.name with
  | none => .replying (.error (.NoExecutorFound call.name))
  | some executor =>
    match executor.execute (w, callee) call.args with
    | .error _ => .panicked
    | .ok future => .polling future

/-- Where a task goes, with the reply that it sends on its way. -/
def handle_call (w : World) (self : RpcServer World) (t : Handler World) :
    Handler World × Option RpcReply :=
  match t.phase with
  | .called =>
    ({ t with phase := self.execute_call t.call t.callee w,
              asked := some (self.executor t.call.name, w) }, none)
  | .polling (.error _) => ({ t with phase := .panicked }, none)
  | .polling (.ok value) => ({ t with phase := .replying (.ok value) }, none)
  | .replying result => ({ t with phase := .replied }, some ⟨t.call.id, result⟩)
  | .replied => (t, none)
  | .panicked => (t, none)

def go (k : Nat) (w : World) (self : RpcServer World) : RpcServer World :=
  match self.handlers[k]? with
  | none => self
  | some t =>
    { self with
      handlers := self.handlers.set k (self.handle_call w t).1
      sent := self.sent ++ (self.handle_call w t).2.toList.map (k, ·, t.callee) }

def step (self : RpcServer World) : Move World → RpcServer World
  | .register name executor => self.register name executor
  | .receive payload source => self.receive payload source
  | .go k w => self.go k w

def run (moves : List (Move World)) : RpcServer World := moves.foldl step new

/-! ## What is asked of the replies -/

/-- The replies of a task, with the node that each is to. -/
def sent_by (k : Nat) (self : RpcServer World) : List (RpcReply × NodeId) :=
  (self.sent.filter (·.1 = k)).map (·.2)

end RpcServer

/-- The results that answer a call, by what was found for its name: arguments that are not decoded
have any error for an answer, and a value that is returned has its JSON. -/
inductive Answers {World : Type} (call : RpcCall) (callee : NodeId) :
    Option (RpcExecutor World) × World → Except RpcError Value → Prop
  | unknown {w : World} : Answers call callee (none, w) (.error (.NoExecutorFound call.name))
  | undecoded {executor : RpcExecutor World} {w : World} {error : String} {err : RpcError}
      (h : executor call.args = .error error) : Answers call callee (some executor, w) (.error err)
  | value {executor : RpcExecutor World} {w : World} {value : Value}
      (h : executor.Returns (w, callee) call.args value) :
      Answers call callee (some executor, w) (.ok value)

/-- The task is over: it has replied, or it has panicked. -/
def Phase.Ended (p : Phase) : Prop := p = .replied ∨ p = .panicked

namespace Handler

variable {World : Type}

/-- The result answers the call. -/
def Right (t : Handler World) (result : Except RpcError Value) : Prop :=
  ∃ asked, t.asked = some asked ∧ Answers t.call t.callee asked result

/-- These are one reply, to the source of the call, with its id and a right result. -/
def OneReply (t : Handler World) (replies : List (RpcReply × NodeId)) : Prop :=
  ∃ result, t.Right result ∧ replies = [(⟨t.call.id, result⟩, t.callee)]

end Handler

namespace RpcServer

variable {World : Type} {self : RpcServer World} {k : Nat} {w : World} {t : Handler World}

/-- A task that is over has sent one reply, and any other has sent none. -/
def Answered (self : RpcServer World) : Prop :=
  ∀ (k : Nat) (t : Handler World), self.handlers[k]? = some t →
    (t.phase.Ended → t.OneReply (self.sent_by k)) ∧ (¬ t.phase.Ended → self.sent_by k = [])

/-- The executor that is found for a call decodes its arguments and builds its future, and a future
that is polled returns what has a JSON. -/
def Fine (self : RpcServer World) : Move World → Prop
  | .go k w => ∀ t, self.handlers[k]? = some t →
      match t.phase with
      | .called => ∀ executor, self.executor t.call.name = some executor →
          ∃ fut, executor.Builds (w, t.callee) t.call.args fut
      | .polling _ => ∀ executor w', t.asked = some (some executor, w') →
          ∃ value, executor.Returns (w', t.callee) t.call.args value
      | _ => True
  | .register _ _ | .receive _ _ => True

/-! ## The invariant -/

/-- What a task has sent, and where what it is about to send comes from. -/
def Fits (replies : List (RpcReply × NodeId)) (t : Handler World) : Prop :=
  match t.phase with
  | .called => replies = []
  | .polling future => replies = [] ∧ ∃ executor w, t.asked = some (some executor, w) ∧
      executor.execute (w, t.callee) t.call.args = .ok future
  | .replying result => replies = [] ∧ t.Right result
  | .replied => t.OneReply replies
  | .panicked => False

structure Kept (server : RpcServer World) : Prop where
  fits : ∀ (k : Nat) (t : Handler World), server.handlers[k]? = some t →
    Fits (server.sent_by k) t
  known : ∀ s ∈ server.sent, s.1 < server.handlers.length

theorem Kept.answered (h : self.Kept) : self.Answered := by
  intro k t hk
  have hfits := h.fits k t hk
  unfold Fits at hfits
  unfold Phase.Ended
  cases hphase : t.phase with
  | called => simpa [hphase] using hfits
  | polling future =>
    rw [hphase] at hfits
    simpa using hfits.1
  | replying result =>
    rw [hphase] at hfits
    simpa using hfits.1
  | replied => simpa [hphase] using hfits
  | panicked => simp [hphase] at hfits

theorem sent_by_concat {replies : List (RpcReply × NodeId)} {j : Nat} {server : RpcServer World}
    (h : server.sent = self.sent ++ replies.map (k, ·)) :
    server.sent_by j = self.sent_by j ++ if j = k then replies else [] := by
  unfold sent_by
  rw [h, List.filter_append, List.map_append, List.filter_map, List.map_map]
  by_cases hj : j = k
  · subst hj
    simp [Function.comp_def]
  · simp [Function.comp_def, hj, Ne.symm hj]

/-- The replies that a task sends on its way. -/
def sends (w : World) (self : RpcServer World) (t : Handler World) : List (RpcReply × NodeId) :=
  (self.handle_call w t).2.toList.map (·, t.callee)

theorem go_eq (hk : self.handlers[k]? = some t) :
    self.go k w = { self with
      handlers := self.handlers.set k (self.handle_call w t).1
      sent := self.sent ++ (self.sends w t).map (k, ·) } := by
  unfold go sends
  rw [hk]
  simp

/-- The other tasks stay as they are. -/
theorem kept_go (h : self.Kept) (hk : self.handlers[k]? = some t)
    (hfits : Fits (self.sent_by k ++ self.sends w t) (self.handle_call w t).1) :
    (self.go k w).Kept := by
  rw [go_eq hk]
  constructor
  · intro j u hu
    rw [sent_by_concat rfl]
    rcases (Threads.set_iff hk).mp hu with ⟨rfl, rfl⟩ | ⟨hj, hu⟩
    · rwa [if_pos rfl]
    · rw [if_neg hj, List.append_nil]
      exact h.fits j u hu
  · intro s hs
    rw [List.length_set]
    rcases List.mem_append.mp hs with hs | hs
    · exact h.known s hs
    · obtain ⟨reply, -, rfl⟩ := List.mem_map.mp hs
      exact (List.getElem?_eq_some_iff.mp hk).1

theorem kept_received (h : self.Kept) (payload : RpcMessage) (source : NodeId) :
    (self.receive payload source).Kept := by
  cases payload with
  | Ack ack => exact h
  | Reply reply => exact h
  | Call call =>
    constructor
    · intro j u hu
      rcases Threads.concat_iff.mp hu with hu | ⟨rfl, rfl⟩
      · exact h.fits j u hu
      · -- the task is new, so its number is not among the replies
        have hnone : self.sent.filter (·.1 = self.handlers.length) = [] := by
          apply List.filter_eq_nil_iff.mpr
          intro s hs
          have hlt := h.known s hs
          simp only [decide_eq_true_eq]
          omega
        change (self.sent.filter (·.1 = self.handlers.length)).map (·.2) = []
        rw [hnone, List.map_nil]
    · intro s hs
      have hlt := h.known s hs
      change s.1 < (self.handlers ++ [_]).length
      rw [List.length_append]
      omega

theorem kept_new : (new : RpcServer World).Kept := by
  constructor
  · intro k t hk
    cases hk
  · intro s hs
    cases hs

/-! ## Steps -/

/-- A task that panics has sent no reply, and will send none. -/
theorem not_answered_of_panic (hk : self.handlers[k]? = some t) (hnone : self.sent_by k = [])
    (hsends : self.sends w t = []) (hpanics : (self.handle_call w t).1.phase = .panicked) :
    ¬ (self.go k w).Answered := by
  intro h
  rw [go_eq hk] at h
  obtain ⟨result, -, hreplies⟩ := (h k _ (Threads.set_self hk)).1 (.inr hpanics)
  rw [sent_by_concat rfl, if_pos rfl, hnone, hsends] at hreplies
  cases hreplies

/-- The step of a task that takes its call up. -/
theorem called_step (h : self.Kept) (hk : self.handlers[k]? = some t) (hphase : t.phase = .called) :
    ((self.go k w).Answered ↔ self.Fine (.go k w)) ∧ (self.Fine (.go k w) → (self.go k w).Kept) := by
  have hnone : self.sent_by k = [] := by simpa [Fits, hphase] using h.fits k t hk
  have hgo : self.handle_call w t =
      ({ t with phase := self.execute_call t.call t.callee w,
                asked := some (self.executor t.call.name, w) }, none) := by
    simp [handle_call, hphase]
  have hsends : self.sends w t = [] := by simp [sends, hgo]
  have hfine : self.Fine (.go k w) ↔ ∀ executor, self.executor t.call.name = some executor →
      ∃ fut, executor.Builds (w, t.callee) t.call.args fut := by
    simp [Fine, hk, hphase]
  have hkept : self.Fine (.go k w) → (self.go k w).Kept := by
    intro hf
    apply kept_go h hk
    rw [hnone, hsends, hgo]
    cases hexecutor : self.executor t.call.name with
    | none =>
      simp only [Fits, execute_call, hexecutor]
      exact ⟨rfl, _, rfl, .unknown⟩
    | some executor =>
      obtain ⟨future, hfuture⟩ := Closure.execute_ok_iff.mpr (hfine.mp hf executor hexecutor)
      simp only [Fits, execute_call, hexecutor, hfuture]
      exact ⟨rfl, executor, w, rfl, hfuture⟩
  refine ⟨⟨?_, fun hf => (hkept hf).answered⟩, hkept⟩
  intro hanswered
  rw [hfine]
  intro executor hexecutor
  by_contra hno
  obtain ⟨payload, hpanics⟩ := Closure.execute_of_not_builds fun fut hfut => hno ⟨fut, hfut⟩
  apply not_answered_of_panic hk hnone hsends ?_ hanswered
  simp [hgo, execute_call, hexecutor, hpanics]

/-- The step of a task whose future ends. -/
theorem polling_step (h : self.Kept) (hk : self.handlers[k]? = some t) {future : Unwind Value}
    (hphase : t.phase = .polling future) :
    ((self.go k w).Answered ↔ self.Fine (.go k w)) ∧ (self.Fine (.go k w) → (self.go k w).Kept) := by
  have hfits := h.fits k t hk
  simp only [Fits, hphase] at hfits
  obtain ⟨hnone, executor, w₀, hasked, hfuture⟩ := hfits
  have hfine : self.Fine (.go k w) ↔
      ∃ value, executor.Returns (w₀, t.callee) t.call.args value := by
    simp [Fine, hk, hphase, hasked]
  cases future with
  | error payload =>
    have hgo : self.handle_call w t = ({ t with phase := .panicked }, none) := by
      simp [handle_call, hphase]
    have hsends : self.sends w t = [] := by simp [sends, hgo]
    have hnot : ¬ self.Fine (.go k w) := by
      rw [hfine]
      rintro ⟨value, hreturns⟩
      rw [Closure.execute_returns_iff.mpr hreturns] at hfuture
      cases hfuture
    have hno : ¬ (self.go k w).Answered := by
      apply not_answered_of_panic hk hnone hsends
      rw [hgo]
    exact ⟨iff_of_false hno hnot, fun hf => absurd hf hnot⟩
  | ok value =>
    have hreturns := Closure.execute_returns_iff.mp hfuture
    have hgo : self.handle_call w t = ({ t with phase := .replying (.ok value) }, none) := by
      simp [handle_call, hphase]
    have hsends : self.sends w t = [] := by simp [sends, hgo]
    have hkept : (self.go k w).Kept := by
      apply kept_go h hk
      rw [hnone, hsends, hgo]
      exact ⟨rfl, _, hasked, .value hreturns⟩
    exact ⟨iff_of_true hkept.answered (hfine.mpr ⟨value, hreturns⟩), fun _ => hkept⟩

theorem step_iff (h : self.Kept) (move : Move World) :
    ((self.step move).Answered ↔ self.Fine move) ∧ (self.Fine move → (self.step move).Kept) := by
  cases move with
  | register name executor =>
    have hkept : (self.step (.register name executor)).Kept := ⟨h.fits, h.known⟩
    exact ⟨iff_of_true hkept.answered trivial, fun _ => hkept⟩
  | receive payload source =>
    have hkept := kept_received h payload source
    exact ⟨iff_of_true hkept.answered trivial, fun _ => hkept⟩
  | go k w =>
    cases hk : self.handlers[k]? with
    | none =>
      have hgo : self.step (.go k w) = self := by simp [step, go, hk]
      rw [hgo]
      have hfine : self.Fine (.go k w) := by simp [Fine, hk]
      exact ⟨iff_of_true h.answered hfine, fun _ => h⟩
    | some t =>
      change ((self.go k w).Answered ↔ _) ∧ (_ → (self.go k w).Kept)
      have hfits := h.fits k t hk
      cases hphase : t.phase with
      | called => exact called_step h hk hphase
      | polling future => exact polling_step h hk hphase
      | replying result =>
        simp only [Fits, hphase] at hfits
        have hgo : self.handle_call w t =
            ({ t with phase := .replied }, some ⟨t.call.id, result⟩) := by
          simp [handle_call, hphase]
        have hkept : (self.go k w).Kept := by
          apply kept_go h hk
          rw [hfits.1, sends, hgo]
          exact ⟨result, hfits.2, rfl⟩
        have hfine : self.Fine (.go k w) := by simp [Fine, hk, hphase]
        exact ⟨iff_of_true hkept.answered hfine, fun _ => hkept⟩
      | replied =>
        have hgo : self.handle_call w t = (t, none) := by simp [handle_call, hphase]
        have hkept : (self.go k w).Kept := by
          apply kept_go h hk
          rw [sends, hgo]
          simpa using hfits
        have hfine : self.Fine (.go k w) := by simp [Fine, hk, hphase]
        exact ⟨iff_of_true hkept.answered hfine, fun _ => hkept⟩
      | panicked => simp [Fits, hphase] at hfits

/-! ## Runs -/

theorem run_concat {moves : List (Move World)} {move : Move World} :
    run (moves ++ [move]) = (run moves).step move := by
  unfold run
  rw [List.foldl_append, List.foldl_cons, List.foldl_nil]

end RpcServer

open RpcServer

end marie.rpc
