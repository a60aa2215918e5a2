-- The two stores of the requests to a human: the map in memory, and the rows of
-- `marie_session_hitls`. The map lists the requests without an answer. A row has
-- an answer in its JSON at any time, `null` or not, so the table lists none.
import Marie.Jsonb
import Marie.Lib.Backends
import Marie.Lib.Documents
import Marie.Session.RequestSerde

open Backends Runs

namespace marie.hitl_store

open Codecs Maps serde session

abbrev SessionId := ID
abbrev HitlId := ID

structure HitlFrame where
  session_id : SessionId
  id : HitlId
  hitl : Hitl
  answer : Option (Entries String Answer)

structure PendingHitl where
  session_id : SessionId
  id : HitlId
  hitl : Hitl

def HitlFrame.key (f : HitlFrame) : SessionId × HitlId := (f.session_id, f.id)

def HitlFrame.pending (f : HitlFrame) : PendingHitl := ⟨f.session_id, f.id, f.hitl⟩

/-! ## The JSON of a request -/

def answers_by_question : Serde (Entries String Answer) := map string_key Answer.serde

def HitlFrame.fields : Fields Jsonb HitlFrame :=
  ((Fields.field "session_id" identifier).both ((Fields.field "id" identifier).both
    ((Fields.field "hitl" Hitl.serde).both (optional_field "answer" answers_by_question)))).iso
      (fun f => (f.session_id, f.id, f.hitl, f.answer))
      (fun p => ⟨p.1, p.2.1, p.2.2.1, p.2.2.2⟩)

def HitlFrame.serde : Serde HitlFrame := record HitlFrame.fields (by decide)

theorem lossless_hitl_frame (f : HitlFrame) : HitlFrame.serde.Lossless f := by
  have hanswer : (optional_field "answer" answers_by_question).Lossless f.answer := by
    apply lossless_optional_field
    · simp [answers_by_question]
    · intro answers
      exact map_ne_null
  rw [HitlFrame.serde, lossless_record, HitlFrame.fields,
    Fields.lossless_iso (fun _ => rfl) (fun _ => rfl), Fields.lossless_both (by decide),
    Fields.lossless_both (by decide), Fields.lossless_both (by decide)]
  simp [hanswer]

/-- The answer is a field of every request, with or without an answer. -/
theorem arrow_answer {f : HitlFrame} {v : Value} (h : HitlFrame.serde.encode f = some v) :
    (arrow "answer" v).isSome = true := by
  apply arrow_record _ h
  decide

/-- The texts of a request that is kept fit, so those of its answer decide. -/
theorem fits_answered {f : HitlFrame} {answers : Entries String Answer}
    (h : HitlFrame.serde.Fits f) :
    HitlFrame.serde.Fits { f with answer := some answers } ↔ answers_by_question.Fits answers := by
  obtain ⟨hsession, hid, hhitl, -⟩ := h
  constructor
  · intro hfits
    exact hfits.2.2.2
  · intro hfits
    exact ⟨hsession, hid, hhitl, hfits⟩

/-! ## In memory -/

inductive StoreError
  | HitlNotFound (session_id : SessionId) (hitl_id : HitlId)

structure InMemoryHitlStore where
  hitls : Entries (SessionId × HitlId) HitlFrame

namespace InMemoryHitlStore

def new : InMemoryHitlStore := ⟨.empty⟩

def get_hitl_frame (id : SessionId) (hitl_id : HitlId) (self : InMemoryHitlStore) :
    Except StoreError HitlFrame :=
  match self.hitls.find (id, hitl_id) with
  | some hitl => .ok hitl
  | none => .error (.HitlNotFound id hitl_id)

def list_unanswered_hitls_frames (id : SessionId) (self : InMemoryHitlStore) :
    Except StoreError (List HitlFrame) :=
  .ok ((self.hitls.entries.filter fun e =>
    e.2.session_id = id ∧ e.2.answer.isNone = true).map (·.2))

def upsert_hitl_frame (hitl : HitlFrame) (self : InMemoryHitlStore) :
    Except StoreError Unit × InMemoryHitlStore :=
  (.ok (), ⟨self.hitls.insert ((hitl.session_id, hitl.id), hitl)⟩)

def write_hitl_response (id : SessionId) (hitl_id : HitlId) (answers : Entries String Answer)
    (self : InMemoryHitlStore) : Except StoreError Unit × InMemoryHitlStore :=
  match self.get_hitl_frame id hitl_id with
  | .error e => (.error e, self)
  | .ok hitl => self.upsert_hitl_frame { hitl with answer := some answers }

def list_pending_hitls (id : SessionId) (self : InMemoryHitlStore) :
    Except StoreError (List PendingHitl) :=
  (self.list_unanswered_hitls_frames id).map fun hitls => hitls.map HitlFrame.pending

end InMemoryHitlStore

/-! ## On the database -/

/-- `marie_session_hitls` by its primary key, under the sessions of `marie_sessions`. -/
structure PgHitlStore where
  sessions : List SessionId
  hitls : Entries (SessionId × HitlId) Value

namespace PgHitlStore

def new (sessions : List SessionId) : PgHitlStore := ⟨sessions, .empty⟩

def get_hitl_frame (id : SessionId) (hitl_id : HitlId) (self : PgHitlStore) :
    Except PgError HitlFrame :=
  match self.hitls.find (id, hitl_id) with
  | none => .error .RowNotFound
  | some v =>
    match HitlFrame.serde.decode v with
    | none => .error .Decode
    | some hitl => .ok hitl

/-- `WHERE session_id = $1 AND frame -> 'answer' IS NULL`: the `NULL` of a field that is not
there, which is not the `null` of one that is. -/
def list_unanswered_hitls_frames (id : SessionId) (self : PgHitlStore) :
    Except PgError (List HitlFrame) :=
  let rows := self.hitls.entries.filter fun row =>
    row.1.1 = id ∧ (arrow "answer" row.2).isNone = true
  match (rows.map (·.2)).mapM HitlFrame.serde.decode with
  | none => .error .Decode
  | some hitls => .ok hitls

/-- `INSERT .. ON CONFLICT (session_id, id) DO UPDATE SET frame = EXCLUDED.frame`. -/
def upsert_hitl_frame (hitl : HitlFrame) (self : PgHitlStore) : Except PgError Unit × PgHitlStore :=
  match HitlFrame.serde.encode hitl with
  | none => (.error .Encode, self)
  | some v =>
    if is_jsonb v = false then (.error .InvalidJson, self)
    else if hitl.session_id ∉ self.sessions then
      (.error (.ForeignKeyViolation hitl.session_id), self)
    else (.ok (), { self with hitls := self.hitls.insert ((hitl.session_id, hitl.id), v) })

def write_hitl_response (id : SessionId) (hitl_id : HitlId) (answers : Entries String Answer)
    (self : PgHitlStore) : Except PgError Unit × PgHitlStore :=
  match self.get_hitl_frame id hitl_id with
  | .error e => (.error e, self)
  | .ok hitl => self.upsert_hitl_frame { hitl with answer := some answers }

def list_pending_hitls (id : SessionId) (self : PgHitlStore) : Except PgError (List PendingHitl) :=
  (self.list_unanswered_hitls_frames id).map fun hitls => hitls.map HitlFrame.pending

end PgHitlStore

/-! ## Calls -/

inductive Call
  | get_hitl_frame (id : SessionId) (hitl_id : HitlId)
  | list_unanswered_hitls_frames (id : SessionId)
  | upsert_hitl_frame (hitl : HitlFrame)
  | write_hitl_response (id : SessionId) (hitl_id : HitlId) (answers : Entries String Answer)
  | list_pending_hitls (id : SessionId)

inductive Reply
  | frame (hitl : HitlFrame)
  | frames (hitls : List HitlFrame)
  | pending (hitls : List PendingHitl)
  | done

/-- The lists of two replies have the same requests, in some order. -/
def Reply.UpToOrder : Reply → Reply → Prop
  | .frame hitl, .frame hitl' => hitl = hitl'
  | .frames hitls, .frames hitls' => hitls.Perm hitls'
  | .pending hitls, .pending hitls' => hitls.Perm hitls'
  | .done, .done => True
  | _, _ => False

/-- Both calls fail, or both end with the same result. -/
def Same : Except StoreError Reply → Except PgError Reply → Prop
  | .ok r, .ok r' => r.UpToOrder r'
  | .error _, .error _ => True
  | _, _ => False

def InMemoryHitlStore.call (c : Call) (self : InMemoryHitlStore) :
    Except StoreError Reply × InMemoryHitlStore :=
  match c with
  | .get_hitl_frame id hitl_id => ((self.get_hitl_frame id hitl_id).map .frame, self)
  | .list_unanswered_hitls_frames id => ((self.list_unanswered_hitls_frames id).map .frames, self)
  | .upsert_hitl_frame hitl =>
    ((self.upsert_hitl_frame hitl).1.map fun _ => .done, (self.upsert_hitl_frame hitl).2)
  | .write_hitl_response id hitl_id answers =>
    ((self.write_hitl_response id hitl_id answers).1.map fun _ => .done,
      (self.write_hitl_response id hitl_id answers).2)
  | .list_pending_hitls id => ((self.list_pending_hitls id).map .pending, self)

def PgHitlStore.call (c : Call) (self : PgHitlStore) : Except PgError Reply × PgHitlStore :=
  match c with
  | .get_hitl_frame id hitl_id => ((self.get_hitl_frame id hitl_id).map .frame, self)
  | .list_unanswered_hitls_frames id => ((self.list_unanswered_hitls_frames id).map .frames, self)
  | .upsert_hitl_frame hitl =>
    ((self.upsert_hitl_frame hitl).1.map fun _ => .done, (self.upsert_hitl_frame hitl).2)
  | .write_hitl_response id hitl_id answers =>
    ((self.write_hitl_response id hitl_id answers).1.map fun _ => .done,
      (self.write_hitl_response id hitl_id answers).2)
  | .list_pending_hitls id => ((self.list_pending_hitls id).map .pending, self)

/-! ## What the calls leave -/

/-- The request under `key` after one more call. -/
def next_recorded (key : SessionId × HitlId) (recorded : Option HitlFrame) :
    Call → Option HitlFrame
  | .upsert_hitl_frame hitl => if hitl.key = key then some hitl else recorded
  | .write_hitl_response id hitl_id answers =>
    if (id, hitl_id) = key then recorded.map ({ · with answer := some answers }) else recorded
  | _ => recorded

/-- The request that some calls leave under `key`: what was upserted last, with the answer that
was written to it last. -/
def recorded (key : SessionId × HitlId) (calls : List Call) : Option HitlFrame :=
  calls.foldl (next_recorded key) none

section

variable {calls before : List Call} {c : Call} {key : SessionId × HitlId} {f : HitlFrame}
  {mem : InMemoryHitlStore} {pg : PgHitlStore} {sessions : List SessionId}

theorem recorded_concat : recorded key (calls ++ [c]) = next_recorded key (recorded key calls) c := by
  unfold recorded
  rw [List.foldl_append]
  rfl

theorem key_of_recorded (h : recorded key calls = some f) : f.key = key := by
  induction calls using List.reverseRecOn generalizing f with
  | nil => cases h
  | append_singleton calls c ih =>
    rw [recorded_concat] at h
    unfold next_recorded at h
    split at h
    · rename_i hitl
      split at h
      · rename_i hkey
        cases h
        exact hkey
      · exact ih h
    · split at h
      · obtain ⟨f', hf', rfl⟩ := Option.map_eq_some_iff.mp h
        have hkey : f'.key = key := ih hf'
        exact hkey
      · exact ih h
    · exact ih h

/-- The requests under their keys are those that the calls have left. -/
def InMemoryHitlStore.Records (mem : InMemoryHitlStore) (calls : List Call) : Prop :=
  ∀ key, mem.hitls.find key = recorded key calls

theorem records_call (h : mem.Records before) : (mem.call c).2.Records (before ++ [c]) := by
  intro key
  rw [recorded_concat, ← h key]
  cases c with
  | upsert_hitl_frame hitl =>
    simp only [InMemoryHitlStore.call, InMemoryHitlStore.upsert_hitl_frame, Entries.find_insert]
    rfl
  | write_hitl_response id hitl_id answers =>
    simp only [InMemoryHitlStore.call, InMemoryHitlStore.write_hitl_response,
      InMemoryHitlStore.get_hitl_frame]
    cases hfind : mem.hitls.find (id, hitl_id) with
    | none =>
      unfold next_recorded
      by_cases hkey : (id, hitl_id) = key
      · subst hkey
        simp [hfind]
      · simp [hkey]
    | some f =>
      -- the request is under its own key
      have hown := key_of_recorded ((h _).symm.trans hfind)
      simp only [InMemoryHitlStore.upsert_hitl_frame, Entries.find_insert]
      have hkey' : (f.session_id, f.id) = (id, hitl_id) := hown
      unfold next_recorded
      rw [hkey']
      by_cases hkey : (id, hitl_id) = key
      · subst hkey
        simp [hfind]
      · simp [hkey]
  | _ => rfl

theorem records_after : (after InMemoryHitlStore.call .new calls).Records calls := by
  induction calls using List.reverseRecOn with
  | nil => exact fun _ => rfl
  | append_singleton calls c ih =>
    rw [Backends.after_concat]
    exact records_call ih

/-- In memory the pending requests of a session are those that were left without an answer. -/
theorem mem_pending_iff {id : SessionId} (h : mem.Records calls) :
    ∃ pending, mem.list_pending_hitls id = .ok pending ∧
      ∀ p, p ∈ pending ↔ ∃ f, recorded (id, p.id) calls = some f ∧ f.answer = none ∧
        f.pending = p := by
  refine ⟨_, rfl, ?_⟩
  intro p
  dsimp only
  rw [List.map_map, List.mem_map]
  constructor
  · rintro ⟨⟨key, f⟩, hmem, rfl⟩
    obtain ⟨hmem, hp⟩ := List.mem_filter.mp hmem
    simp only [decide_eq_true_eq] at hp
    have hfind := Entries.find_eq_some.mpr hmem
    rw [h key] at hfind
    have hkey := key_of_recorded hfind
    have hid : (id, f.id) = key := by
      rw [← hkey, ← hp.1]
      rfl
    exact ⟨f, hid ▸ hfind, by simpa using hp.2, rfl⟩
  · rintro ⟨f, hrec, hanswer, rfl⟩
    have hkey := key_of_recorded hrec
    rw [← h] at hrec
    refine ⟨_, List.mem_filter.mpr ⟨Entries.find_eq_some.mp hrec, ?_⟩, rfl⟩
    have hsession : f.session_id = id := congrArg Prod.fst hkey
    simp [hsession, hanswer]

/-! ## The table lists nothing -/

/-- Every row has an answer in its JSON. -/
def PgHitlStore.Answered (pg : PgHitlStore) : Prop :=
  ∀ row ∈ pg.hitls.entries, (arrow "answer" row.2).isSome = true

theorem answered_upsert {hitl : HitlFrame} (h : pg.Answered) :
    (pg.upsert_hitl_frame hitl).2.Answered := by
  unfold PgHitlStore.upsert_hitl_frame
  cases henc : HitlFrame.serde.encode hitl with
  | none => exact h
  | some v =>
    dsimp only
    split
    · exact h
    · split
      · exact h
      · rintro ⟨key, v'⟩ hrow
        have hfind := Entries.find_eq_some.mpr hrow
        rw [Entries.find_insert] at hfind
        split at hfind
        · cases hfind
          exact arrow_answer henc
        · exact h _ (Entries.find_eq_some.mp hfind)

theorem answered_call (h : pg.Answered) : (pg.call c).2.Answered := by
  cases c with
  | upsert_hitl_frame hitl => exact answered_upsert h
  | write_hitl_response id hitl_id answers =>
    simp only [PgHitlStore.call, PgHitlStore.write_hitl_response]
    split
    · exact h
    · exact answered_upsert h
  | _ => exact h

theorem answered_after : (after PgHitlStore.call (.new sessions) calls).Answered := by
  apply after_keeps
  · intro row hrow
    cases hrow
  · intro c pg h
    exact answered_call h

theorem list_unanswered_eq_nil {id : SessionId} (h : pg.Answered) :
    pg.list_unanswered_hitls_frames id = .ok [] := by
  have hnone : pg.hitls.entries.filter (fun row =>
      row.1.1 = id ∧ (arrow "answer" row.2).isNone = true) = [] := by
    rw [List.filter_eq_nil_iff]
    intro row hrow
    have := h row hrow
    simp [Option.isSome_iff_ne_none.mp this]
  unfold PgHitlStore.list_unanswered_hitls_frames
  rw [hnone]
  rfl

/-! ## The two stores together -/

/-- No request of the session waits for its answer. -/
def NoneWaits (id : SessionId) (before : List Call) : Prop :=
  ∀ hitl_id f, recorded (id, hitl_id) before = some f → f.answer ≠ none

/-- The rows are those of the map, and each request is of a session that is there. -/
structure Twins (sessions : List SessionId) (before : List Call) (mem : InMemoryHitlStore)
    (pg : PgHitlStore) : Prop where
  records : mem.Records before
  same_sessions : pg.sessions = sessions
  present : ∀ key f, mem.hitls.find key = some f → f.session_id ∈ sessions
  rows : Documents HitlFrame.serde mem.hitls pg.hitls
  answered : pg.Answered

theorem twins_new : Twins sessions [] .new (.new sessions) where
  records := fun _ => rfl
  same_sessions := rfl
  present := by
    intro key f h
    cases h
  rows := documents_empty
  answered := by
    intro row hrow
    cases hrow

namespace Twins

/-- What the table makes of an upsert. -/
theorem upsert_pg (h : Twins sessions before mem pg) (hitl : HitlFrame) :
    (hitl.session_id ∈ sessions ∧ HitlFrame.serde.Fits hitl ∧
      ∃ v, HitlFrame.serde.Writes hitl v ∧ pg.upsert_hitl_frame hitl =
        (.ok (), { pg with hitls := pg.hitls.insert ((hitl.session_id, hitl.id), v) })) ∨
      (¬ (hitl.session_id ∈ sessions ∧ HitlFrame.serde.Fits hitl) ∧
        ∃ e, pg.upsert_hitl_frame hitl = (.error e, pg)) := by
  obtain ⟨v, henc, hdec⟩ := lossless_hitl_frame hitl
  have hfits : Jsonb v ↔ HitlFrame.serde.Fits hitl := HitlFrame.serde.fits_iff henc
  unfold PgHitlStore.upsert_hitl_frame
  rw [henc]
  dsimp only
  by_cases hjsonb : is_jsonb v = false
  · rw [if_pos hjsonb]
    refine .inr ⟨?_, _, rfl⟩
    rintro ⟨-, hf⟩
    have htrue : is_jsonb v = true := hfits.mpr hf
    rw [hjsonb] at htrue
    cases htrue
  · have htaken : Jsonb v := by simpa [Jsonb] using hjsonb
    rw [if_neg hjsonb, h.same_sessions]
    by_cases hsession : hitl.session_id ∈ sessions
    · rw [if_neg (not_not.mpr hsession)]
      exact .inl ⟨hsession, hfits.mp htaken, v, ⟨henc, htaken, hdec⟩, rfl⟩
    · rw [if_pos hsession]
      exact .inr ⟨fun hboth => hsession hboth.1, _, rfl⟩

/-- After an upsert that both stores take, they hold the same. -/
theorem after_upsert {hitl : HitlFrame} {v : Value} (h : Twins sessions before mem pg)
    (hrecords : (mem.upsert_hitl_frame hitl).2.Records (before ++ [c]))
    (hsession : hitl.session_id ∈ sessions) (hw : HitlFrame.serde.Writes hitl v) :
    Twins sessions (before ++ [c]) (mem.upsert_hitl_frame hitl).2
      { pg with hitls := pg.hitls.insert ((hitl.session_id, hitl.id), v) } where
  records := hrecords
  same_sessions := h.same_sessions
  present := by
    intro key f hfind
    simp only [InMemoryHitlStore.upsert_hitl_frame, Entries.find_insert] at hfind
    split at hfind
    · cases hfind
      exact hsession
    · exact h.present key f hfind
  rows := h.rows.insert hw
  answered := by
    rintro ⟨key, v'⟩ hrow
    have hfind := Entries.find_eq_some.mpr hrow
    rw [Entries.find_insert] at hfind
    split at hfind
    · cases hfind
      exact arrow_answer hw.encode
    · exact h.answered _ (Entries.find_eq_some.mp hfind)

/-- A read of one request is the same in both stores. -/
theorem get_hitl_frame (h : Twins sessions before mem pg) (id : SessionId) (hitl_id : HitlId) :
    (∃ f, recorded (id, hitl_id) before = some f ∧ mem.get_hitl_frame id hitl_id = .ok f ∧
      pg.get_hitl_frame id hitl_id = .ok f) ∨
      (recorded (id, hitl_id) before = none ∧
        mem.get_hitl_frame id hitl_id = .error (.HitlNotFound id hitl_id) ∧
          pg.get_hitl_frame id hitl_id = .error .RowNotFound) := by
  unfold InMemoryHitlStore.get_hitl_frame PgHitlStore.get_hitl_frame
  rw [← h.records]
  cases hfind : mem.hitls.find (id, hitl_id) with
  | none =>
    rw [h.rows.find_eq_none.mp hfind]
    exact .inr ⟨rfl, rfl, rfl⟩
  | some f =>
    obtain ⟨v, hrow, hw⟩ := h.rows.of_value hfind
    rw [hrow]
    refine .inl ⟨f, rfl, rfl, ?_⟩
    simp only [hw.decode]

theorem unanswered_eq_nil_iff {id : SessionId} (h : mem.Records before) :
    mem.hitls.entries.filter (fun e => e.2.session_id = id ∧ e.2.answer.isNone = true) = [] ↔
      NoneWaits id before := by
  rw [List.filter_eq_nil_iff]
  constructor
  · intro hall hitl_id f hrec hnone
    have hkey := key_of_recorded hrec
    have hsession : f.session_id = id := congrArg Prod.fst hkey
    rw [← h] at hrec
    have := hall _ (Entries.find_eq_some.mp hrec)
    simp [hsession, hnone] at this
  · rintro hall ⟨key, f⟩ hmem
    rw [decide_eq_true_eq]
    rintro ⟨hsession, hnone⟩
    have hfind := Entries.find_eq_some.mpr hmem
    rw [h key] at hfind
    have hkey := key_of_recorded hfind
    have hid : (id, f.id) = key := by
      rw [← hkey, ← hsession]
      rfl
    exact hall f.id f (hid ▸ hfind) (by simpa using hnone)

end Twins

/-- A call that is answered alike: a list is asked for when nothing waits, a request is written in
a session that is there, and its texts have no NUL. -/
def Answerable (sessions : List SessionId) (before : List Call) : Call → Prop
  | .get_hitl_frame _ _ => True
  | .list_unanswered_hitls_frames id | .list_pending_hitls id => NoneWaits id before
  | .upsert_hitl_frame hitl => hitl.session_id ∈ sessions ∧ HitlFrame.serde.Fits hitl
  | .write_hitl_response id hitl_id answers =>
    recorded (id, hitl_id) before ≠ none → answers_by_question.Fits answers

theorem Twins.call (h : Twins sessions before mem pg) :
    (Same (mem.call c).1 (pg.call c).1 ↔ Answerable sessions before c) ∧
      (Answerable sessions before c →
        Twins sessions (before ++ [c]) (mem.call c).2 (pg.call c).2) := by
  have hrecords : (mem.call c).2.Records (before ++ [c]) := records_call h.records
  have hstill (hmem : (mem.call c).2 = mem) (hpg : (pg.call c).2 = pg) :
      Twins sessions (before ++ [c]) (mem.call c).2 (pg.call c).2 := by
    rw [hmem] at hrecords
    rw [hmem, hpg]
    exact ⟨hrecords, h.same_sessions, h.present, h.rows, h.answered⟩
  cases c with
  | get_hitl_frame id hitl_id =>
    refine ⟨?_, fun _ => hstill rfl rfl⟩
    apply iff_of_true _ trivial
    simp only [InMemoryHitlStore.call, PgHitlStore.call]
    rcases h.get_hitl_frame id hitl_id with ⟨f, -, hmem, hpg⟩ | ⟨-, hmem, hpg⟩
    · rw [hmem, hpg]
      exact rfl
    · rw [hmem, hpg]
      exact trivial
  | list_unanswered_hitls_frames id =>
    refine ⟨?_, fun _ => hstill rfl rfl⟩
    simp only [InMemoryHitlStore.call, PgHitlStore.call, list_unanswered_eq_nil h.answered]
    rw [Answerable, ← Twins.unanswered_eq_nil_iff h.records]
    change List.Perm _ [] ↔ _
    rw [List.perm_nil, List.map_eq_nil_iff]
  | list_pending_hitls id =>
    refine ⟨?_, fun _ => hstill rfl rfl⟩
    simp only [InMemoryHitlStore.call, PgHitlStore.call, PgHitlStore.list_pending_hitls,
      list_unanswered_eq_nil h.answered]
    rw [Answerable, ← Twins.unanswered_eq_nil_iff h.records]
    change List.Perm _ [] ↔ _
    rw [List.perm_nil, List.map_eq_nil_iff, List.map_eq_nil_iff]
  | upsert_hitl_frame hitl =>
    simp only [InMemoryHitlStore.call, PgHitlStore.call] at hrecords ⊢
    rcases h.upsert_pg hitl with ⟨hsession, hfits, v, hw, hpg⟩ | ⟨hnot, e, hpg⟩
    · rw [hpg]
      exact ⟨iff_of_true trivial ⟨hsession, hfits⟩, fun _ => h.after_upsert hrecords hsession hw⟩
    · rw [hpg]
      refine ⟨iff_of_false ?_ hnot, fun hall => absurd hall hnot⟩
      intro hsame
      exact hsame
  | write_hitl_response id hitl_id answers =>
    rcases h.get_hitl_frame id hitl_id with ⟨f, hrec, hmem, hpg⟩ | ⟨hrec, hmem, hpg⟩
    · have hfind := (h.records _).trans hrec
      have hsession : f.session_id ∈ sessions := h.present _ _ hfind
      obtain ⟨v, -, hkept⟩ := h.rows.of_value hfind
      have hf : HitlFrame.serde.Fits f := (HitlFrame.serde.fits_iff hkept.encode).mp hkept.taken
      simp only [InMemoryHitlStore.call, PgHitlStore.call, InMemoryHitlStore.write_hitl_response,
        PgHitlStore.write_hitl_response, hmem, hpg] at hrecords ⊢
      have hiff : Answerable sessions before (.write_hitl_response id hitl_id answers) ↔
          HitlFrame.serde.Fits { f with answer := some answers } := by
        rw [fits_answered hf]
        simp [Answerable, hrec]
      rw [hiff]
      rcases h.upsert_pg { f with answer := some answers } with
        ⟨-, hfits, v, hw, hrow⟩ | ⟨hnot, e, hrow⟩
      · rw [hrow]
        exact ⟨iff_of_true trivial hfits, fun _ => h.after_upsert hrecords hsession hw⟩
      · have hnofit : ¬ HitlFrame.serde.Fits { f with answer := some answers } :=
          fun hfits => hnot ⟨hsession, hfits⟩
        rw [hrow]
        refine ⟨iff_of_false ?_ hnofit, fun hall => absurd hall hnofit⟩
        intro hsame
        exact hsame
    · refine ⟨?_, fun _ => hstill ?_ ?_⟩
      · apply iff_of_true
        · simp only [InMemoryHitlStore.call, PgHitlStore.call,
            InMemoryHitlStore.write_hitl_response, PgHitlStore.write_hitl_response, hmem, hpg]
          exact trivial
        · exact fun hsome => absurd hrec hsome
      · simp only [InMemoryHitlStore.call, InMemoryHitlStore.write_hitl_response, hmem]
      · simp only [PgHitlStore.call, PgHitlStore.write_hitl_response, hpg]

/-- **The two stores agree** exactly when no list is asked for while a request of its session
waits, and what is written has its session and no NUL. The map lists the requests without an
answer, whatever was called before; the table lists none. -/
theorem hitl_stores_agree_iff (sessions : List SessionId) :
    (∀ calls, Agree Same InMemoryHitlStore.call PgHitlStore.call .new (.new sessions) calls ↔
      EveryStep (Answerable sessions) calls) ∧
      (∀ calls id, ∃ pending,
        (after InMemoryHitlStore.call .new calls).list_pending_hitls id = .ok pending ∧
          ∀ p, p ∈ pending ↔ ∃ f, recorded (id, p.id) calls = some f ∧ f.answer = none ∧
            f.pending = p) ∧
        ∀ calls id,
          (after PgHitlStore.call (.new sessions) calls).list_pending_hitls id = .ok [] := by
  refine ⟨?_, fun calls id => mem_pending_iff records_after, ?_⟩
  · intro calls
    exact agree_iff twins_new fun _ _ _ _ h => h.call
  · intro calls id
    unfold PgHitlStore.list_pending_hitls
    rw [list_unanswered_eq_nil answered_after]
    rfl

/-- A request is asked, and the requests that wait are listed. -/
def asked : List Call :=
  [.upsert_hitl_frame ⟨⟨0, 1⟩, ⟨0, 2⟩, .Text, none⟩, .list_pending_hitls ⟨0, 1⟩]

theorem an_asked_request_is_not_listed :
    ¬ Agree Same InMemoryHitlStore.call PgHitlStore.call .new (.new [⟨0, 1⟩]) asked := by
  intro h
  cases h with
  | cons _ hrest =>
    cases hrest with
    | cons hlist _ =>
      have hperm : List.Perm [(⟨⟨0, 1⟩, ⟨0, 2⟩, .Text⟩ : PendingHitl)] [] := hlist
      exact absurd hperm.eq_nil (by simp)

end

end marie.hitl_store
