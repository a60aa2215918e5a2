-- The controller of the sessions. It takes the events of all the sessions from
-- one queue and from the bus, finds the checkpointer of each in a cache, and
-- passes the event on. The call that passes it on is a future that no one
-- awaits, and the stream of the bus gives none of the events that are emitted.
import Marie.Events.Envelope
import Marie.Lib.Program
import Marie.Session.Protocol

namespace marie.session

open Program
open events (EventJson)

/-! ## The controller -/

/-- What the bus tells of a session. The controller reads the answers alone. -/
inductive SessionEvent
  | HitlAnswered (session_id : SessionId) (response : HitlResponse)
  | HitlRequested
  | LogCreated
  | LogUpdated
  | SessionStatusUpdated

/-- A checkpointer as the controller knows it: its own queue, and whether `close` was called. -/
structure Mailbox where
  session_id : SessionId
  queue : List SessionCheckpointEvent
  closing : Bool

/-- An event with its session. -/
abbrev Addressed := SessionId × SessionCheckpointEvent

/-- The controller with what is around it: the sessions that the store has (`stored`), the cache
of checkpointers, every checkpointer that was made, and the events that the controller has
received and that `process_event` has handled, in order. -/
structure SessionController where
  queue : List Addressed
  bus : List SessionEvent
  stored : SessionId → Bool
  sessions : SessionId → Option Nat
  checkpointers : List Mailbox
  received : List Addressed
  handled : List Addressed

abbrev Controller := Program Fault SessionController

namespace SessionController

def new : SessionController where
  queue := []
  bus := []
  stored _ := false
  sessions _ := none
  checkpointers := []
  received := []
  handled := []

/-- A new checkpointer for a session of the store. -/
def instantiate_session_ckp (id : SessionId) : Controller (Option Nat) := do
  if (← asks (·.stored id)) then
    let index ← asks (·.checkpointers.length)
    modify fun c => { c with checkpointers := c.checkpointers ++ [⟨id, [], false⟩] }
    pure (some index)
  else pure none

/-- The checkpointer of the cache, or a new one. -/
def get (id : SessionId) : Controller (Option Nat) := do
  match ← asks (·.sessions id) with
  | some index => pure (some index)
  | none =>
    let made ← instantiate_session_ckp id
    if made.isSome then
      modify fun c => { c with sessions := fun s => if s = id then made else c.sessions s }
    pure made

/-- `SessionCheckpointer::send_ckp_event`. -/
def send_ckp_event (index : Nat) (event : SessionCheckpointEvent) : Controller Unit :=
  modify fun c => { c with
    checkpointers := c.checkpointers.modify index fun m => { m with queue := m.queue ++ [event] } }

/-- `handler.send_ckp_event(event)` is not awaited. -/
def process_checkpoint_event (event : Addressed) : Controller Unit := do
  match ← get event.1 with
  | none => pure ()
  | some handler => unpolled (send_ckp_event handler event.2)

def process_session_event (event : SessionEvent) : Controller Unit :=
  match event with
  | .HitlAnswered session_id response =>
    process_checkpoint_event (session_id, .HitlAnswered response)
  | _ => pure ()

/-- `reply_hitl`. -/
def reply_hitl (session_id : SessionId) (response : HitlResponse) : Controller Unit :=
  modify fun c => { c with queue := c.queue ++ [(session_id, .HitlAnswered response)] }

/-! ## Runs -/

end SessionController

/-- What happens around the controller. -/
inductive ControllerMove
  /-- A checkpointer, or the relay of a job, sends an event to the controller. -/
  | emit (event : Addressed)
  /-- `SessionHitls::reply` and others tell the bus. -/
  | publish (event : SessionEvent)
  | reply_hitl (session_id : SessionId) (response : HitlResponse)
  /-- The loop of the controller takes an event of the queue, or of the bus. -/
  | receive
  | hear
  /-- The cache lets a checkpointer go, and its listener closes it. -/
  | evict (session_id : SessionId)
  /-- A session comes into the store, or leaves it. -/
  | store (session_id : SessionId) (present : Bool)
  /-- The task of a checkpointer takes an event of its queue. -/
  | work (index : Nat)

namespace SessionController

/-- The event that an event of the bus stands for. -/
def addressed : SessionEvent → List Addressed
  | .HitlAnswered session_id response => [(session_id, .HitlAnswered response)]
  | _ => []

/-- The loop reads the bus through a stream of `EventBus::stream_events`. -/
def move (json : EventJson SessionEvent) (c : SessionController) :
    ControllerMove → SessionController
  | .emit event => { c with queue := c.queue ++ [event] }
  | .publish event => { c with bus := c.bus ++ [event] }
  | .reply_hitl session_id response => (exec (SessionController.reply_hitl session_id response) c).2
  | .receive =>
    match c.queue with
    | [] => c
    | event :: queue =>
      (exec (process_checkpoint_event event)
        { c with queue, received := c.received ++ [event] }).2
  | .hear =>
    match c.bus with
    | [] => c
    | event :: bus =>
      match json.yields (json.to_value event) with
      | some env =>
        (exec (process_session_event env.payload)
          { c with bus, received := c.received ++ addressed env.payload }).2
      | none => { c with bus }
  | .evict session_id =>
    match c.sessions session_id with
    | none => c
    | some index =>
      { c with
        sessions := fun s => if s = session_id then none else c.sessions s
        checkpointers := c.checkpointers.modify index fun m => { m with closing := true } }
  | .store session_id present =>
    { c with stored := fun s => if s = session_id then present else c.stored s }
  | .work index =>
    match c.checkpointers[index]? with
    | some { session_id, queue := event :: queue, closing } =>
      { c with
        checkpointers := c.checkpointers.set index ⟨session_id, queue, closing⟩
        handled := c.handled ++ [(session_id, event)] }
    | _ => c

def run (json : EventJson SessionEvent) (c : SessionController) :
    List ControllerMove → SessionController
  | [] => c
  | m :: moves => run json (c.move json m) moves

/-- The events of one session, in order. -/
def ofSession (session_id : SessionId) (log : List Addressed) : List SessionCheckpointEvent :=
  (log.filter (·.1 = session_id)).map (·.2)

/-! ## No event arrives -/

/-- No checkpointer has an event, and none was handled. -/
structure Silent (c : SessionController) : Prop where
  queues : ∀ m ∈ c.checkpointers, m.queue = []
  handled : c.handled = []

theorem silent_get (id : SessionId) : Keeps Silent (get id) (fun _ => True) := by
  have hnew : Keeps Silent (instantiate_session_ckp id) (fun _ => True) := by
    refine Keeps.andThen (Q := fun _ => True) (keeps_asks fun _ _ => trivial) fun present => ?_
    cases present with
    | false => exact keeps_pure trivial
    | true =>
      refine Keeps.andThen (Q := fun _ => True) (keeps_asks fun _ _ => trivial) fun index => ?_
      refine Keeps.andThen (Q := fun _ => True) (keeps_modify ?_) fun _ => keeps_pure trivial
      intro c h
      refine ⟨?_, h.handled⟩
      intro m hm
      rcases List.mem_append.mp hm with hm | hm
      · exact h.queues m hm
      · rw [List.mem_singleton.mp hm]
  refine Keeps.andThen (Q := fun _ => True) (keeps_asks fun _ _ => trivial) fun cached => ?_
  cases cached with
  | some index => exact keeps_pure trivial
  | none =>
    refine hnew.andThen fun made => ?_
    cases made with
    | none => exact keeps_pure trivial
    | some index =>
      refine Keeps.andThen (Q := fun _ => True) (keeps_modify ?_) fun _ => keeps_pure trivial
      intro c h
      exact ⟨h.queues, h.handled⟩

/-- The controller finds the checkpointer, and the event goes no further. -/
theorem silent_process_checkpoint_event (event : Addressed) :
    Keeps Silent (process_checkpoint_event event) (fun _ => True) := by
  refine (silent_get event.1).andThen fun handler => ?_
  cases handler with
  | none => exact keeps_pure trivial
  | some index => exact keeps_unpolled _

theorem silent_move {json : EventJson SessionEvent} {c : SessionController} (h : Silent c)
    (m : ControllerMove) : Silent (c.move json m) := by
  cases m with
  | emit event => exact ⟨h.queues, h.handled⟩
  | publish event => exact ⟨h.queues, h.handled⟩
  | reply_hitl session_id response => exact ⟨h.queues, h.handled⟩
  | receive =>
    unfold move
    cases c.queue with
    | nil => exact h
    | cons event queue => exact (silent_process_checkpoint_event event).run ⟨h.queues, h.handled⟩
  | hear =>
    unfold move
    cases c.bus with
    | nil => exact h
    | cons event bus =>
      simp only [json.yields_to_value]
      exact ⟨h.queues, h.handled⟩
  | evict session_id =>
    simp only [move]
    split
    · exact h
    · rename_i index _
      refine ⟨?_, h.handled⟩
      intro m hm
      obtain ⟨i, hi, rfl⟩ := List.mem_iff_getElem.mp hm
      rw [List.getElem_modify]
      have hi' : i < c.checkpointers.length := by simpa using hi
      have hqueue := h.queues (c.checkpointers[i]) (List.getElem_mem hi')
      split
      · exact hqueue
      · exact hqueue
  | store session_id present => exact ⟨h.queues, h.handled⟩
  | work index =>
    simp only [move]
    split
    · rename_i hm
      have hqueue := h.queues _ (List.mem_of_getElem? hm)
      cases hqueue
    · exact h

theorem silent_run {json : EventJson SessionEvent} {c : SessionController} (h : Silent c)
    (moves : List ControllerMove) : Silent (c.run json moves) := by
  induction moves generalizing c with
  | nil => exact h
  | cons m moves ih => exact ih (silent_move h m)

/-! ## What is delivered -/

/-- The answers for a session that humans submitted: by `SessionHitls::reply`, which tells the bus,
and by `reply_hitl`. -/
def answers (session_id : SessionId) (moves : List ControllerMove) : List HitlResponse :=
  moves.filterMap fun
    | .publish (.HitlAnswered id response) | .reply_hitl id response =>
      if id = session_id then some response else none
    | _ => none

/-- The answers among the events of a checkpointer. -/
def answersOf (events : List SessionCheckpointEvent) : List HitlResponse :=
  events.filterMap fun
    | .HitlAnswered response => some response
    | _ => none

/-- The events of a session are handled as the controller received them, and each answer of a human
is handled once. -/
structure Delivered (json : EventJson SessionEvent) (moves : List ControllerMove)
    (session_id : SessionId) : Prop where
  in_order : ofSession session_id (new.run json moves).handled =
    ofSession session_id (new.run json moves).received
  once : (answersOf (ofSession session_id (new.run json moves).handled)).Perm
    (answers session_id moves)

/-- The events of a session are delivered only when the controller received none and no human
answered. -/
theorem delivered_iff_none_received (json : EventJson SessionEvent) (moves : List ControllerMove)
    (session_id : SessionId) :
    Delivered json moves session_id ↔
      ofSession session_id (new.run json moves).received = [] ∧ answers session_id moves = [] := by
  have hsilent : Silent (new.run json moves) := silent_run ⟨by rintro m ⟨⟩, rfl⟩ moves
  have hhandled : ofSession session_id (new.run json moves).handled = [] := by
    rw [hsilent.handled]
    rfl
  constructor
  · rintro ⟨horder, honce⟩
    rw [hhandled] at horder honce
    exact ⟨horder.symm, List.nil_perm.mp honce⟩
  · rintro ⟨hreceived, hanswers⟩
    constructor
    · rw [hhandled, hreceived]
    · rw [hhandled, hanswers]
      exact .refl _

/-- The JSON of an answer without a field that is filled in. -/
def bareJson : EventJson SessionEvent where
  tag _ := "HitlAnswered"
  content
    | .HitlAnswered session_id response => .Object [
        ("session_id", .String (display_id session_id.id)), ("id", .String (display_id response.id.id)),
        ("answers", .Object [])]
    | _ => .Null
  from_value _ := none

/-- A human answers a request of a session of the store through the controller. -/
def anAnswer : List ControllerMove :=
  [.store ⟨0⟩ true, .reply_hitl ⟨0⟩ ⟨⟨0⟩, []⟩, .receive, .work 0]

/-- A human answers a request of a session of the store, and the bus is told. -/
def aToldAnswer : List ControllerMove :=
  [.store ⟨0⟩ true, .publish (.HitlAnswered ⟨0⟩ ⟨⟨0⟩, []⟩), .hear, .work 0]

/-- The first answer is received and not handled, the second is not even received. -/
theorem an_answer_is_not_handled :
    ¬ Delivered bareJson anAnswer ⟨0⟩ ∧ ¬ Delivered bareJson aToldAnswer ⟨0⟩ := by
  have hsilent : Silent new := ⟨by rintro m ⟨⟩, rfl⟩
  constructor
  · rintro ⟨-, honce⟩
    rw [(silent_run hsilent anAnswer).handled] at honce
    cases List.nil_perm.mp honce
  · rintro ⟨-, honce⟩
    rw [(silent_run hsilent aToldAnswer).handled] at honce
    cases List.nil_perm.mp honce

end SessionController

end marie.session
