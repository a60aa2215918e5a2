-- A session on the terminal: every log is printed, whenever it comes. What else comes
-- while a line is awaited is missed: a request is not put to the human, and an end is not
-- noticed.
import Marie.Cli.Terminal

namespace marie.cli

open Program Maps Texts session

variable {β M : Type} {lib : LocalMarie β M} {marie : M} {t t' t'' : Terminal β}

/-! ## What is taken from the stream -/

def SessionEvent.request : SessionEvent → Option ID
  | .HitlRequested id _ => some id
  | _ => none

def SessionEvent.ends : SessionEvent → Bool
  | .SessionStatusUpdated status => is_terminal status
  | _ => false

def Output.is_log : Output → Bool
  | .Log _ => true
  | _ => false

def Output.reply : Output → Option ID
  | .Reply id _ => some id
  | _ => none

/-- An event that is taken from the stream: by the loop, or while a line is awaited. -/
inductive Taken
  | heard (event : SessionEvent)
  | missed (event : SessionEvent)

namespace Taken

def event : Taken → SessionEvent
  | heard event | missed event => event

def is_missed : Taken → Bool
  | heard _ => false
  | missed _ => true

/-- The request of an event that is heard. -/
def request : Taken → Option ID
  | heard event => event.request
  | missed _ => none

def ends : Taken → Bool
  | heard event => event.ends
  | missed _ => false

end Taken

/-- Nothing more is read, and nothing more comes. -/
def Starved (t : Terminal β) : Prop := t.reads = [] ∧ t.events = []

/-- What was taken from the stream between two moments, and the requests that were answered. -/
structure Took (taken : List Taken) (asked : List ID) (t t' : Terminal β) : Prop where
  events : t.events = taken.map (·.event) ++ t'.events
  logs : t'.out.filter (·.is_log) = t.out.filter (·.is_log) ++ taken.filterMap (·.event.log)
  replies : t'.out.filterMap (·.reply) = t.out.filterMap (·.reply) ++ asked
  closed : t'.closed = t.closed
  lines : ∃ lines, t.reads = lines ++ t'.reads ∧
    ((taken.filter (·.is_missed)).length ≤ (lines.map (·.before)).sum ∨ Starved t')

theorem Took.refl (t : Terminal β) : Took [] [] t t :=
  ⟨rfl, by simp, by simp, rfl, [], rfl, .inl (Nat.le_refl _)⟩

theorem Took.trans {taken taken' : List Taken} {asked asked' : List ID} (h : Took taken asked t t')
    (h' : Took taken' asked' t' t'') : Took (taken ++ taken') (asked ++ asked') t t'' := by
  obtain ⟨lines, hlines, hmissed⟩ := h.lines
  obtain ⟨lines', hlines', hmissed'⟩ := h'.lines
  refine ⟨?_, ?_, ?_, h'.closed.trans h.closed, lines ++ lines', ?_, ?_⟩
  · rw [h.events, h'.events, List.map_append, List.append_assoc]
  · rw [h'.logs, h.logs, List.filterMap_append, List.append_assoc]
  · rw [h'.replies, h.replies, List.append_assoc]
  · rw [hlines, hlines', List.append_assoc]
  · rcases hmissed with hle | ⟨hreads, hevents⟩
    · rcases hmissed' with hle' | hstarved
      · left
        simp only [List.filter_append, List.length_append, List.map_append, List.sum_append]
        omega
      · exact .inr hstarved
    · right
      rw [hreads] at hlines'
      have hevents' := h'.events
      rw [hevents] at hevents'
      exact ⟨(List.append_eq_nil_iff.mp hlines'.symm).2, (List.append_eq_nil_iff.mp hevents'.symm).2⟩

theorem took_print (output : Output) (t : Terminal β) (hlog : output.is_log = false)
    (hreply : output.reply = none) :
    Took [] [] t (exec (print output) t).2 :=
  ⟨rfl, by simp [print, hlog], by simp [print, hreply], rfl, [], rfl, .inl (Nat.le_refl _)⟩

/-! ## While a line is awaited -/

/-- From `t` the program takes what comes while it awaits its lines, and answers these requests; it
stops only when nothing more is read. -/
def Awaits {α : Type} (m : Program Fault (Terminal β) α) (ids : List ID) (t : Terminal β) : Prop :=
  ∃ taken asked, (∀ x ∈ taken, x.is_missed = true) ∧ Took taken asked t (exec m t).2 ∧
    asked <+: ids ∧ (∀ a, (exec m t).1 = .ok a → asked = ids) ∧
    ∀ e, (exec m t).1 = .error e → Starved (exec m t).2

theorem awaits_pure {α : Type} (a : α) : Awaits (pure a) [] t :=
  ⟨[], [], by simp, .refl t, List.prefix_refl _, fun _ _ => rfl, by rintro e ⟨⟩⟩

theorem Awaits.bind {α γ : Type} {m : Program Fault (Terminal β) α}
    {f : α → Program Fault (Terminal β) γ} {ids ids' : List ID} (hm : Awaits m ids t)
    (hf : ∀ a t', exec m t = (.ok a, t') → Awaits (f a) ids' t') :
    Awaits (m >>= f) (ids ++ ids') t := by
  obtain ⟨taken, asked, hmissed, htook, hasked, hok, hstop⟩ := hm
  unfold Awaits
  rcases hr : exec m t with ⟨e | a, t'⟩
  · rw [hr] at htook hstop
    rw [exec_bind_error hr]
    refine ⟨taken, asked, hmissed, htook, hasked.trans (List.prefix_append _ _), ?_,
      fun _ _ => hstop e rfl⟩
    rintro a ⟨⟩
  · rw [hr] at htook hok
    rw [exec_bind_ok hr]
    obtain ⟨taken', asked', hmissed', htook', hasked', hok', hstop'⟩ := hf a t' hr
    obtain rfl := hok a rfl
    refine ⟨taken ++ taken', asked ++ asked', ?_, htook.trans htook',
      (List.prefix_append_right_inj asked).mpr hasked', fun b hb => by rw [hok' b hb], hstop'⟩
    intro x hx
    rcases List.mem_append.mp hx with hx | hx
    · exact hmissed x hx
    · exact hmissed' x hx

theorem awaits_print {output : Output} (hlog : output.is_log = false)
    (hreply : output.reply = none) : Awaits (print output) [] t :=
  ⟨[], [], by simp, took_print output t hlog hreply, List.prefix_refl _, fun _ _ => rfl,
    by rintro e ⟨⟩⟩

theorem awaits_call {α : Type} (f : Call β α) : Awaits (call f) [] t :=
  ⟨[], [], by simp, ⟨rfl, by simp [call, exec, ExceptT.run_mk, StateT.run], by
    simp [call, exec, ExceptT.run_mk, StateT.run], rfl, [], rfl, .inl (Nat.le_refl _)⟩,
    List.prefix_refl _, fun _ _ => rfl, by rintro e ⟨⟩⟩

theorem logs_are_logs (events : List SessionEvent) :
    (events.filterMap (·.log)).filter (·.is_log) = events.filterMap (·.log) := by
  rw [List.filter_eq_self]
  intro output hmem
  obtain ⟨event, -, hlog⟩ := List.mem_filterMap.mp hmem
  cases event <;> simp [SessionEvent.log] at hlog <;> subst hlog <;> rfl

theorem logs_are_no_replies (events : List SessionEvent) :
    (events.filterMap (·.log)).filterMap (·.reply) = [] := by
  rw [List.filterMap_eq_nil_iff]
  intro output hmem
  obtain ⟨event, -, hlog⟩ := List.mem_filterMap.mp hmem
  cases event <;> simp [SessionEvent.log] at hlog <;> subst hlog <;> rfl

theorem all_missed (events : List SessionEvent) :
    ∀ x ∈ events.map Taken.missed, x.is_missed = true := by
  simp only [List.mem_map]
  rintro x ⟨event, -, rfl⟩
  rfl

/-- Of what comes while a line is awaited the logs are printed. -/
theorem took_missed (events rest : List SessionEvent) (t t' : Terminal β) (lines : List Typed)
    (hevents : t.events = events ++ rest) (ht' : t'.events = rest)
    (hout : t'.out = t.out ++ events.filterMap (·.log)) (hclosed : t'.closed = t.closed)
    (hlines : t.reads = lines ++ t'.reads)
    (hmissed : events.length ≤ (lines.map (·.before)).sum ∨ Starved t') :
    Took (events.map .missed) [] t t' := by
  have hall : (events.map Taken.missed).filter (·.is_missed) = events.map Taken.missed :=
    List.filter_eq_self.mpr (all_missed events)
  refine ⟨?_, ?_, ?_, hclosed, lines, hlines, ?_⟩
  · rw [hevents, ht', List.map_map]
    simp [Function.comp_def, Taken.event]
  · rw [hout, List.filter_append, logs_are_logs, List.filterMap_map]
    rfl
  · rw [hout, List.filterMap_append, logs_are_no_replies]
  · rwa [hall, List.length_map]

theorem awaits_read (t : Terminal β) : Awaits read_with_live_events [] t := by
  unfold Awaits read_with_live_events
  cases hreads : t.reads with
  | nil =>
    refine ⟨t.events.map .missed, [], all_missed _, ?_, List.prefix_refl _, fun _ _ => rfl, ?_⟩
    · simp only [exec, ExceptT.run_mk, StateT.run, hreads]
      exact took_missed t.events [] _ _ [] (by simp) rfl rfl rfl (by simp [hreads])
        (.inr ⟨rfl, rfl⟩)
    · simp only [exec, ExceptT.run_mk, StateT.run, hreads]
      exact fun _ _ => ⟨rfl, rfl⟩
  | cons typed reads =>
    refine ⟨(t.events.take typed.before).map .missed, [], all_missed _, ?_, List.prefix_refl _,
      fun _ _ => rfl, ?_⟩
    · simp only [exec, ExceptT.run_mk, StateT.run, hreads]
      exact took_missed _ (t.events.drop typed.before) _ _ [typed] (by simp) rfl rfl rfl hreads
        (.inl (by simp))
    · simp only [exec, ExceptT.run_mk, StateT.run, hreads]
      rintro e ⟨⟩

theorem reads_of_read {line : Text} (h : exec read_with_live_events t = (.ok line, t')) :
    t'.reads.length < t.reads.length := by
  unfold read_with_live_events at h
  cases hreads : t.reads with
  | nil => simp only [exec, ExceptT.run_mk, StateT.run, hreads] at h; cases h
  | cons typed reads =>
    simp only [exec, ExceptT.run_mk, StateT.run, hreads] at h
    cases h
    simp

/-- The loop of a long text reads a line in each of its turns. -/
theorem awaits_read_lines (fuel : Nat) (h : t.reads.length < fuel) : Awaits (read_lines fuel) [] t := by
  induction fuel generalizing t with
  | zero => exact absurd h (Nat.not_lt_zero _)
  | succ fuel ih =>
    refine (awaits_read t).bind fun line t' hread => ?_
    have hless := reads_of_read hread
    split_ifs
    · exact awaits_pure []
    · exact (ih (by omega)).bind fun lines _ _ => awaits_pure _

theorem awaits_ask_question (q : Question) (t : Terminal β) : Awaits (ask_question q) [] t := by
  refine (awaits_print rfl rfl).bind fun _ t1 _ => ?_
  cases q.kind with
  | LongText =>
    have hlines := awaits_read_lines (t1.reads.length + 1) (Nat.lt_succ_self _)
    exact hlines.bind fun lines _ _ => awaits_pure _
  | ShortText | FileUpload _ | Checkboxes _ | Select _ | Radio _ =>
    exact (awaits_read t1).bind fun raw _ _ => awaits_pure _

theorem awaits_ask_questions (questions : List Question) (answers : Entries String Answer)
    (t : Terminal β) : Awaits (ask_questions questions answers) [] t := by
  induction questions generalizing answers t with
  | nil => exact awaits_pure answers
  | cons q questions ih => exact (awaits_ask_question q t).bind fun answer t' _ => ih _ t'

theorem awaits_ask_hitl (hitl : Hitl) (t : Terminal β) : Awaits (ask_hitl hitl) [] t := by
  cases hitl with
  | Text => exact (awaits_read t).bind fun text _ _ => awaits_pure _
  | Questions questions => exact awaits_ask_questions questions _ t

/-! ## Requests -/

theorem exec_call {α : Type} (f : Call β α) (t : Terminal β) :
    exec (call f) t = (.ok (f t.backend).1, { t with backend := (f t.backend).2 }) := rfl

theorem exec_print (output : Output) (t : Terminal β) :
    exec (print output) t = (.ok (), { t with out := t.out ++ [output] }) := rfl

/-- An answer is sent once; that marie refuses it is printed. -/
theorem awaits_send_reply (session_id id : ID) (answers : Entries String Answer) (t : Terminal β) :
    Awaits (send_reply lib marie session_id id answers) [id] t := by
  have hreply : Awaits (print (.Reply id answers)) [id] t :=
    ⟨[], [id], by simp, ⟨rfl, by simp [print, Output.is_log], by simp [print, Output.reply], rfl, [],
      rfl, .inl (Nat.le_refl _)⟩, List.prefix_refl _, fun _ _ => rfl, by rintro e ⟨⟩⟩
  change Awaits _ ([id] ++ []) t
  refine hreply.bind fun _ t1 _ => (awaits_call _).bind fun r t2 _ => ?_
  cases r with
  | ok _ => exact awaits_pure ()
  | error err => exact awaits_print rfl rfl

theorem awaits_answer_hitl (lib : LocalMarie β M) (marie : M) (session_id id : ID) (hitl : Hitl)
    (t : Terminal β) :
    Awaits (answer_hitl lib marie session_id id hitl) [id] t :=
  (awaits_ask_hitl hitl t).bind fun answers t1 _ => awaits_send_reply session_id id answers t1

/-- The requests that are pending are answered one after the other. -/
theorem awaits_pendings (lib : LocalMarie β M) (marie : M) (session_id : ID)
    (pendings : List (ID × Hitl)) (t : Terminal β) :
    Awaits (pendings.forM fun pending => answer_hitl lib marie session_id pending.1 pending.2)
      (pendings.map (·.1)) t := by
  induction pendings generalizing t with
  | nil => exact awaits_pure _
  | cons pending pendings ih =>
    exact (awaits_answer_hitl lib marie session_id pending.1 pending.2 t).bind fun _ t1 _ => ih t1

/-! ## The events -/

/-- The last of these is the end of the session, and no other one is. -/
def EndHeard (taken : List Taken) : Prop :=
  ∃ before last, taken = before ++ [last] ∧ last.ends = true ∧ ∀ x ∈ before, x.ends = false

/-- From `t` the program goes through the stream, and answers what it hears. It ends at the end of the
session or of the stream. -/
structure Follows (m : Program Fault (Terminal β) Unit) (t : Terminal β) (taken : List Taken)
    (asked : List ID) : Prop where
  took : Took taken asked t (exec m t).2
  answers : asked <+: taken.filterMap (·.request)
  ends : ∀ a, (exec m t).1 = .ok a → asked = taken.filterMap (·.request) ∧
    (EndHeard taken ∨ (∀ x ∈ taken, x.ends = false) ∧ (exec m t).2.events = [] ∧ t.closed = true)
  stops : ∀ e, (exec m t).1 = .error e → (exec m t).2.events = []

theorem request_of_missed {taken : List Taken} (h : ∀ x ∈ taken, x.is_missed = true) :
    taken.filterMap (·.request) = [] := by
  rw [List.filterMap_eq_nil_iff]
  intro x hx
  cases x with
  | heard event => cases h _ hx
  | missed event => rfl

theorem ends_of_missed {x : Taken} (h : x.is_missed = true) : x.ends = false := by
  cases x with
  | heard event => cases h
  | missed event => rfl

theorem end_after {taken taken' : List Taken} {P : Prop} (hends : ∀ x ∈ taken, x.ends = false)
    (h : EndHeard taken' ∨ (∀ x ∈ taken', x.ends = false) ∧ P) :
    EndHeard (taken ++ taken') ∨ (∀ x ∈ taken ++ taken', x.ends = false) ∧ P := by
  have hboth : ∀ taken', (∀ x ∈ taken', x.ends = false) → ∀ x ∈ taken ++ taken', x.ends = false := by
    intro taken' hends' x hx
    rcases List.mem_append.mp hx with hx | hx
    · exact hends x hx
    · exact hends' x hx
  rcases h with ⟨before, last, rfl, hlast, hbefore⟩ | ⟨hnone, hP⟩
  · exact .inl ⟨taken ++ before, last, (List.append_assoc ..).symm, hlast, hboth before hbefore⟩
  · exact .inr ⟨hboth taken' hnone, hP⟩

/-- What comes before the rest of the stream. -/
theorem Follows.after {m : Program Fault (Terminal β) Unit} {t1 : Terminal β}
    {taken taken' : List Taken} {asked asked' : List ID} (h : Follows m t1 taken' asked') (htook : Took taken asked t t1)
    (hasked : asked = taken.filterMap (·.request)) (hends : ∀ x ∈ taken, x.ends = false)
    {m' : Program Fault (Terminal β) Unit} (hm : exec m' t = exec m t1) :
    Follows m' t (taken ++ taken') (asked ++ asked') := by
  refine ⟨?_, ?_, fun a ha => ?_, fun e he => ?_⟩
  · rw [hm]
    exact htook.trans h.took
  · rw [List.filterMap_append, hasked]
    exact (List.prefix_append_right_inj _).mpr h.answers
  · rw [hm] at ha ⊢
    obtain ⟨hall, hend⟩ := h.ends a ha
    refine ⟨by rw [List.filterMap_append, hasked, hall], ?_⟩
    rw [htook.closed] at hend
    exact end_after hends hend
  · rw [hm] at he ⊢
    exact h.stops e he

/-- An event that the loop takes. -/
theorem took_heard {event : SessionEvent} {t1 : Terminal β} (h : t.events = event :: t1.events)
    (hout : t1.out = t.out ++ event.log.toList) (hclosed : t1.closed = t.closed)
    (hreads : t1.reads = t.reads) : Took [.heard event] [] t t1 := by
  refine ⟨h, ?_, ?_, hclosed, [], hreads.symm, .inl (Nat.zero_le _)⟩
  · rw [hout, List.filter_append]
    cases event <;> rfl
  · rw [hout, List.filterMap_append]
    cases event <;> rfl

theorem exec_next_event_nil (h : t.events = []) :
    exec next_event t = (if t.closed then .ok none else .error .Waiting, t) := by
  unfold next_event
  simp only [exec, ExceptT.run_mk, StateT.run, h]

theorem exec_next_event_cons {event : SessionEvent} {events : List SessionEvent}
    (h : t.events = event :: events) :
    exec next_event t = (.ok (some event), { t with events }) := by
  unfold next_event
  simp only [exec, ExceptT.run_mk, StateT.run, h]

/-- The stream ends, or the loop waits. -/
theorem follows_nil (session_id : ID) (fuel : Nat) (h : t.events = []) :
    Follows (follow lib marie session_id (fuel + 1)) t [] [] := by
  have hnext := exec_next_event_nil h
  cases hclosed : t.closed with
  | true =>
    rw [hclosed, if_pos rfl] at hnext
    have hrun : exec (follow lib marie session_id (fuel + 1)) t = (.ok (), t) := by
      unfold follow
      rw [exec_bind_ok hnext]
      rfl
    refine ⟨hrun ▸ .refl t, List.prefix_refl _, fun _ _ => ⟨rfl, .inr ⟨by simp, ?_, hclosed⟩⟩, ?_⟩
    · rw [hrun]
      exact h
    · rw [hrun]
      rintro e ⟨⟩
  | false =>
    rw [hclosed, if_neg (by decide)] at hnext
    have hrun : exec (follow lib marie session_id (fuel + 1)) t = (.error .Waiting, t) := by
      unfold follow
      rw [exec_bind_error hnext]
    refine ⟨hrun ▸ .refl t, List.prefix_refl _, ?_, ?_⟩
    · rw [hrun]
      rintro a ⟨⟩
    · rw [hrun]
      exact fun _ _ => h

/-- A request that is heard is answered, and the loop goes on. -/
theorem follows_requested {session_id id : ID} {hitl : Hitl} {fuel : Nat} {t1 : Terminal β}
    (htook : Took [.heard (.HitlRequested id hitl)] [] t t1)
    (hrun : exec (follow lib marie session_id (fuel + 1)) t
      = exec (do answer_hitl lib marie session_id id hitl; follow lib marie session_id fuel) t1)
    (ih : ∀ t2 : Terminal β, t2.events.length ≤ t1.events.length →
      ∃ taken asked, Follows (follow lib marie session_id fuel) t2 taken asked) :
    ∃ taken asked, Follows (follow lib marie session_id (fuel + 1)) t taken asked := by
  obtain ⟨taken, asked, hmissed, htook', hasked, hok, hstop⟩ :=
    awaits_answer_hitl lib marie session_id id hitl t1
  have hrequests : ([Taken.heard (.HitlRequested id hitl)] ++ taken).filterMap (·.request) = [id] := by
    rw [List.filterMap_append, request_of_missed hmissed]
    rfl
  have hends : ∀ x ∈ [Taken.heard (.HitlRequested id hitl)] ++ taken, x.ends = false := by
    intro x hx
    rcases List.mem_append.mp hx with hx | hx
    · obtain rfl := List.mem_singleton.mp hx
      rfl
    · exact ends_of_missed (hmissed x hx)
  rcases hr : exec (answer_hitl lib marie session_id id hitl) t1 with ⟨e | a, t2⟩
  · rw [hr] at htook' hstop
    rw [exec_bind_error hr] at hrun
    refine ⟨[.heard (.HitlRequested id hitl)] ++ taken, asked, ?_, hrequests ▸ hasked, ?_, ?_⟩
    · rw [hrun]
      exact htook.trans htook'
    · rw [hrun]
      rintro a ⟨⟩
    · rw [hrun]
      exact fun _ _ => (hstop e rfl).2
  · rw [hr] at htook' hok
    rw [exec_bind_ok hr] at hrun
    obtain rfl := hok a rfl
    have hless : t2.events.length ≤ t1.events.length := by
      rw [htook'.events, List.length_append]
      exact Nat.le_add_left _ _
    obtain ⟨taken', asked', hfollows⟩ := ih t2 hless
    exact ⟨_, _, hfollows.after (htook.trans htook') hrequests.symm hends hrun⟩

/-- The loop takes an event in each of its turns. -/
theorem follows_follow (lib : LocalMarie β M) (marie : M) (session_id : ID) (fuel : Nat)
    (t : Terminal β) (h : t.events.length < fuel) :
    ∃ taken asked, Follows (follow lib marie session_id fuel) t taken asked := by
  induction fuel generalizing t with
  | zero => exact absurd h (Nat.not_lt_zero _)
  | succ fuel ih =>
    cases hevents : t.events with
    | nil => exact ⟨[], [], follows_nil session_id fuel hevents⟩
    | cons event events =>
      have hlength : events.length < fuel := by
        rw [hevents, List.length_cons] at h
        omega
      have hnext := exec_next_event_cons hevents
      have hgo : ∀ t1 : Terminal β, t1.events = events → t1.out = t.out ++ event.log.toList →
          t1.closed = t.closed → t1.reads = t.reads → event.request = none → event.ends = false →
          exec (follow lib marie session_id (fuel + 1)) t
            = exec (follow lib marie session_id fuel) t1 →
          ∃ taken asked, Follows (follow lib marie session_id (fuel + 1)) t taken asked := by
        intro t1 ht1 hout hclosed hreads hrequest hends hrun
        obtain ⟨taken, asked, hfollows⟩ := ih t1 (by rw [ht1]; exact hlength)
        have htook : Took [.heard event] [] t t1 :=
          took_heard (by rw [hevents, ht1]) hout hclosed hreads
        refine ⟨_, _, hfollows.after htook ?_ ?_ hrun⟩
        · simp [Taken.request, hrequest]
        · simp [Taken.ends, hends]
      cases event with
      | LogCreated log | LogUpdated log =>
        refine hgo { t with events, out := t.out ++ [.Log log] } rfl rfl rfl rfl rfl rfl ?_
        conv_lhs => unfold follow
        rw [exec_bind_ok hnext]
        rfl
      | HitlAnswered =>
        refine hgo { t with events } rfl (List.append_nil _).symm rfl rfl rfl rfl ?_
        conv_lhs => unfold follow
        rw [exec_bind_ok hnext]
      | HitlRequested id hitl =>
        have htook : Took [.heard (.HitlRequested id hitl)] [] t { t with events } :=
          took_heard hevents (List.append_nil _).symm rfl rfl
        refine follows_requested htook ?_ fun t2 hle => ih t2 (Nat.lt_of_le_of_lt hle hlength)
        conv_lhs => unfold follow
        rw [exec_bind_ok hnext]
      | SessionStatusUpdated status =>
        cases hends : is_terminal status with
        | false =>
          refine hgo { t with events } rfl (List.append_nil _).symm rfl rfl rfl hends ?_
          conv_lhs => unfold follow
          rw [exec_bind_ok hnext]
          simp only [hends]
          rfl
        | true =>
          have hrun : exec (follow lib marie session_id (fuel + 1)) t
              = (.ok (), { t with events, out := t.out ++ [.Ended status] }) := by
            unfold follow
            rw [exec_bind_ok hnext]
            simp only [hends]
            rfl
          have htook : Took [.heard (.SessionStatusUpdated status)] [] t { t with events } :=
            took_heard hevents (List.append_nil _).symm rfl rfl
          have hprinted := htook.trans (took_print (.Ended status) { t with events } rfl rfl)
          refine ⟨[.heard (.SessionStatusUpdated status)], [], ?_, List.prefix_refl _,
            fun _ _ => ⟨rfl, .inl ⟨[], _, rfl, hends, by simp⟩⟩, ?_⟩
          · rw [hrun]
            exact hprinted
          · rw [hrun]
            rintro e ⟨⟩

/-! ## A whole session -/

/-- What a session on the terminal did, from its view and the stream of its events. -/
structure Watched (view : SessionView) (stream : List SessionEvent × Bool) (t : Terminal β)
    (run : Except Fault Unit × Terminal β) (taken : List Taken) (asked : List ID) : Prop where
  events : stream.1 = taken.map (·.event) ++ run.2.events
  /-- Every log is printed, of the view and of the stream. -/
  logs : run.2.out.filter (·.is_log) =
    t.out.filter (·.is_log) ++ view.logs.map .Log ++ taken.filterMap (·.event.log)
  replies : run.2.out.filterMap (·.reply) = t.out.filterMap (·.reply) ++ asked
  answers : asked <+: view.pendings.map (·.1) ++ taken.filterMap (·.request)
  /-- No more is missed than comes while the lines are awaited. -/
  lines : ∃ lines, t.reads = lines ++ run.2.reads ∧
    ((taken.filter (·.is_missed)).length ≤ (lines.map (·.before)).sum ∨ Starved run.2)
  /-- The session ends when it had ended before, when its end is heard, or with the stream. -/
  ends : ∀ a, run.1 = .ok a → asked = view.pendings.map (·.1) ++ taken.filterMap (·.request) ∧
    (is_terminal view.status = true ∧ (∀ x ∈ taken, x.is_missed = true) ∨ EndHeard taken ∨
      (∀ x ∈ taken, x.ends = false) ∧ run.2.events = [] ∧ stream.2 = true)
  stops : ∀ e, run.1 = .error e → run.2.events = []

theorem exec_print_logs (logs : List SessionLogContent) (t : Terminal β) :
    exec (logs.forM fun log => print (.Log log)) t
      = (.ok (), { t with out := t.out ++ logs.map .Log }) := by
  induction logs generalizing t with
  | nil => simp only [List.map_nil, List.append_nil]; rfl
  | cons log logs ih =>
    change exec (print _ >>= fun _ => logs.forM _) t = _
    rw [exec_bind_ok (exec_print _ t), ih]
    simp

theorem logs_of_view (logs : List SessionLogContent) :
    (logs.map Output.Log).filter (·.is_log) = logs.map .Log := by
  rw [List.filter_eq_self]
  intro output hmem
  obtain ⟨log, -, rfl⟩ := List.mem_map.mp hmem
  rfl

theorem replies_of_view (logs : List SessionLogContent) :
    (logs.map Output.Log).filterMap (·.reply) = [] := by
  rw [List.filterMap_eq_nil_iff]
  intro output hmem
  obtain ⟨log, -, rfl⟩ := List.mem_map.mp hmem
  rfl

/-- Every log is printed and every request that is heard is answered, in their order. What comes while
a line is awaited is not heard, so a session that ends then is not seen to end. -/
theorem a_session_is_watched (lib : LocalMarie β M) (marie : M) (session_id : ID) (t : Terminal β)
    {view : SessionView} {backend : β}
    (hview : lib.get_session marie session_id t.backend = (.ok view, backend)) :
    ∃ taken asked, Watched view (lib.stream_session_events marie session_id backend).1 t
      (exec (run_live lib marie session_id) t) taken asked := by
  generalize hstream : lib.stream_session_events marie session_id backend = stream
  let t1 : Terminal β :=
    ⟨t.reads, stream.1.1, stream.1.2, t.out ++ view.logs.map .Log, stream.2⟩
  have hrun : exec (run_live lib marie session_id) t = exec (do
      view.pendings.forM fun pending => answer_hitl lib marie session_id pending.1 pending.2
      if is_terminal view.status then print (.AlreadyEnded view.status)
      else do
        let fuel ← Program.asks fun t : Terminal β => t.events.length + 1
        follow lib marie session_id fuel) t1 := by
    unfold run_live
    rw [exec_bind_ok (exec_call _ t), hview]
    dsimp only
    rw [exec_bind_ok (exec_print_logs _ _), exec_bind_ok (exec_modify _ _)]
    dsimp only
    rw [hstream]
  rw [hrun]
  have hwatched : ∀ taken asked run, Took taken asked t1 run.2 →
      asked <+: view.pendings.map (·.1) ++ taken.filterMap (·.request) →
      (∀ a, run.1 = .ok a → asked = view.pendings.map (·.1) ++ taken.filterMap (·.request) ∧
        (is_terminal view.status = true ∧ (∀ x ∈ taken, x.is_missed = true) ∨ EndHeard taken ∨
          (∀ x ∈ taken, x.ends = false) ∧ run.2.events = [] ∧ stream.1.2 = true)) →
      (∀ e, run.1 = .error e → run.2.events = []) →
      ∃ taken asked, Watched view stream.1 t run taken asked := by
    intro taken asked run htook hasked hends hstops
    refine ⟨taken, asked, htook.events, ?_, ?_, hasked, htook.lines, hends, hstops⟩
    · rw [htook.logs, List.filter_append, logs_of_view]
    · rw [htook.replies, List.filterMap_append, replies_of_view, List.append_nil]
  obtain ⟨taken, asked, hmissed, htook, hasked, hok, hstop⟩ :=
    awaits_pendings lib marie session_id view.pendings t1
  have hnone := request_of_missed hmissed
  rcases hr : exec (view.pendings.forM fun pending =>
      answer_hitl lib marie session_id pending.1 pending.2) t1 with ⟨e | a, t2⟩
  · rw [hr] at htook hstop
    rw [exec_bind_error hr]
    refine hwatched taken asked _ htook ?_ (by rintro a ⟨⟩) fun _ _ => (hstop e rfl).2
    rwa [hnone, List.append_nil]
  · rw [hr] at htook hok
    rw [exec_bind_ok hr]
    obtain rfl := hok a rfl
    cases hended : is_terminal view.status with
    | true =>
      rw [if_pos rfl]
      have hprinted := htook.trans (took_print (.AlreadyEnded view.status) t2 rfl rfl)
      simp only [List.append_nil] at hprinted
      refine hwatched taken _ _ hprinted (by rw [hnone, List.append_nil]) (fun _ _ => ?_)
        (by rintro e ⟨⟩)
      exact ⟨by rw [hnone, List.append_nil], .inl ⟨hended, hmissed⟩⟩
    | false =>
      rw [if_neg (by decide)]
      obtain ⟨taken', asked', hfollows⟩ := follows_follow lib marie session_id
        (t2.events.length + 1) t2 (Nat.lt_succ_self _)
      have hfuel : exec (do
          let fuel ← Program.asks fun t : Terminal β => t.events.length + 1
          follow lib marie session_id fuel) t2
            = exec (follow lib marie session_id (t2.events.length + 1)) t2 :=
        exec_bind_ok (exec_asks _ t2)
      rw [hfuel]
      have hrequests : (taken ++ taken').filterMap (·.request) = taken'.filterMap (·.request) := by
        rw [List.filterMap_append, hnone, List.nil_append]
      refine hwatched (taken ++ taken') _ _ (htook.trans hfollows.took) ?_ (fun a ha => ?_)
        hfollows.stops
      · rw [hrequests]
        exact (List.prefix_append_right_inj _).mpr hfollows.answers
      · obtain ⟨hall, hend⟩ := hfollows.ends a ha
        rw [htook.closed] at hend
        have hends : ∀ x ∈ taken, x.ends = false := fun x hx => ends_of_missed (hmissed x hx)
        exact ⟨by rw [hrequests, hall], .inr (end_after hends hend)⟩

/-! ## A request that is missed -/

def a_view : SessionView := ⟨.Ongoing, [], [(⟨0, 1⟩, .Text)]⟩

/-- While the first request is answered, the subscription yields a second one. -/
def a_stream : List SessionEvent × Bool :=
  ([.HitlRequested ⟨0, 2⟩ .Text, .SessionStatusUpdated .Archived], false)

def a_live_marie : LocalMarie Unit Unit :=
  { a_marie with
    get_session := fun _ _ backend => (.ok a_view, backend)
    stream_session_events := fun _ _ backend => (a_stream, backend) }

def a_human : Terminal Unit := ⟨[⟨1, .Line "oui".toList⟩], [], false, [], ()⟩

/-- The second request is not answered. -/
theorem a_request_is_missed :
    (exec (run_live a_live_marie () ⟨0, 0⟩) a_human).2.out.filterMap (·.reply) = [⟨0, 1⟩] ∧
    ∃ taken asked, Watched a_view a_stream a_human (exec (run_live a_live_marie () ⟨0, 0⟩) a_human)
      taken asked :=
  ⟨by decide +kernel, a_session_is_watched a_live_marie () ⟨0, 0⟩ a_human rfl⟩

end marie.cli
