-- The replies to the requests to a human: what a form takes for an answer, and
-- what a reply leaves. The answers are written before they are checked, so a
-- reply that is refused may have answered its request.
import Mathlib.Data.List.TakeWhile
import Marie.Hitl.Stores
import Marie.Lib.Program

open Program

namespace marie.hitl_store

open Maps session

/-! ## Errors and events -/

inductive HitlError
  | StorageError (e : StoreError)
  | ValidationError (message : String)

structure HitlRequest where
  session_id : SessionId
  id : HitlId
  hitl : Hitl

structure HitlResponse where
  session_id : SessionId
  id : HitlId
  answers : Entries String Answer

inductive SessionEvent
  | HitlRequested (request : HitlRequest)
  | HitlAnswered (response : HitlResponse)

/-! ## The form -/

/-- `char::is_whitespace`: the property `White_Space` of Unicode. -/
def is_whitespace (c : Char) : Bool :=
  (9 ≤ c.toNat && c.toNat ≤ 13) || (0x2000 ≤ c.toNat && c.toNat ≤ 0x200a) ||
    c.toNat ∈ [0x20, 0x85, 0xa0, 0x1680, 0x2028, 0x2029, 0x202f, 0x205f, 0x3000]

/-- `str::trim`. -/
def trim (s : String) : String :=
  String.ofList (((s.toList.dropWhile is_whitespace).reverse.dropWhile is_whitespace).reverse)

/-- `str::ends_with`. -/
def ends_with (s suffix : String) : Bool := suffix.toList.isSuffixOf s.toList

section

variable (to_lowercase : String → String)

/-- The extensions of `accept` let the file through. -/
def accepted (accept : List String) (filename : String) : Bool :=
  accept.isEmpty || accept.any fun ext => ends_with (to_lowercase filename) (to_lowercase ext)

/-- The body of the loop of `validate_answers`. -/
def validate_answer (answers : Entries String Answer) (question : Question) :
    Except HitlError Unit :=
  match answers.find question.key with
  | none => .error (.ValidationError ("réponse manquante pour '" ++ question.key ++ "'"))
  | some answer =>
    match question.kind, answer with
    | .ShortText, .Single _ | .LongText, .Single _ => .ok ()
    | .Select options, .Single choice | .Radio options, .Single choice =>
      if choice ∈ options then .ok ()
      else .error (.ValidationError
        ("'" ++ choice ++ "' n'est pas une option valide pour '" ++ question.key ++ "'"))
    | .Checkboxes options, .Multiple choices =>
      match choices.find? (· ∉ options) with
      | some invalid => .error (.ValidationError
          ("'" ++ invalid ++ "' n'est pas une option valide pour '" ++ question.key ++ "'"))
      | none => .ok ()
    | .FileUpload accept, .Single filename =>
      if (trim filename).isEmpty then
        .error (.ValidationError ("nom de fichier manquant pour '" ++ question.key ++ "'"))
      else if accepted to_lowercase accept filename then .ok ()
      else .error (.ValidationError
        ("'" ++ filename ++ "' n'a pas une extension acceptée pour '" ++ question.key ++ "'"))
    | _, _ => .error (.ValidationError
        ("type de réponse inattendu pour '" ++ question.key ++ "'"))

def validate_answers (questions : List Question) (answers : Entries String Answer) :
    Except HitlError (Entries String Answer) := do
  questions.forM (validate_answer to_lowercase answers)
  .ok answers

/-! ## What a form takes -/

/-- The answers that a kind of question takes. -/
inductive Takes : QuestionKind → Answer → Prop
  | short (text : String) : Takes .ShortText (.Single text)
  | long (text : String) : Takes .LongText (.Single text)
  | select {options : List String} {choice : String} (h : choice ∈ options) :
      Takes (.Select options) (.Single choice)
  | radio {options : List String} {choice : String} (h : choice ∈ options) :
      Takes (.Radio options) (.Single choice)
  | checkboxes {options choices : List String} (h : ∀ choice ∈ choices, choice ∈ options) :
      Takes (.Checkboxes options) (.Multiple choices)
  | file {accept : List String} {filename : String}
      (hname : ∃ c ∈ filename.toList, is_whitespace c = false)
      (hext : accept = [] ∨ ∃ ext ∈ accept,
        (to_lowercase ext).toList <:+ (to_lowercase filename).toList) :
      Takes (.FileUpload accept) (.Single filename)

/-- The answers satisfy the request: every question of a form has an answer that it takes. -/
def Satisfies (answers : Entries String Answer) : Hitl → Prop
  | .Questions questions => ∀ question ∈ questions, ∃ answer,
      answers.find question.key = some answer ∧ Takes to_lowercase question.kind answer
  | .Text => True

variable {to_lowercase} {answers : Entries String Answer} {question : Question}

theorem trim_isEmpty {s : String} :
    (trim s).isEmpty = true ↔ ∀ c ∈ s.toList, is_whitespace c = true := by
  unfold trim
  rw [String.isEmpty_iff, String.ofList_eq_empty_iff, List.reverse_eq_nil_iff,
    List.dropWhile_eq_nil_iff]
  constructor
  · intro h c hc
    have hall : ∀ c ∈ s.toList.dropWhile is_whitespace, is_whitespace c = true := by
      intro c hc
      exact h c (List.mem_reverse.mpr hc)
    -- the characters that are left are white space too, so none is left
    rw [← List.takeWhile_append_dropWhile (p := is_whitespace) (l := s.toList)] at hc
    rcases List.mem_append.mp hc with hc | hc
    · exact List.mem_takeWhile_imp hc
    · exact hall c hc
  · intro h c hc
    exact h c ((List.dropWhile_suffix _).subset (List.mem_reverse.mp hc))

theorem ends_with_iff {s suffix : String} :
    ends_with s suffix = true ↔ suffix.toList <:+ s.toList := by
  unfold ends_with
  rw [List.isSuffixOf_iff_suffix]

theorem takes_choice_iff {options : List String} {choice : String} :
    (Takes to_lowercase (.Select options) (.Single choice) ↔ choice ∈ options) ∧
      (Takes to_lowercase (.Radio options) (.Single choice) ↔ choice ∈ options) :=
  ⟨⟨fun | .select h => h, .select⟩, fun | .radio h => h, .radio⟩

theorem takes_checkboxes_iff {options choices : List String} :
    Takes to_lowercase (.Checkboxes options) (.Multiple choices) ↔
      choices.find? (· ∉ options) = none := by
  rw [List.find?_eq_none]
  constructor
  · rintro (_ | _ | _ | _ | h) choice hchoice
    simpa using h choice hchoice
  · intro h
    apply Takes.checkboxes
    intro choice hchoice
    simpa using h choice hchoice

theorem takes_file_iff {accept : List String} {filename : String} :
    Takes to_lowercase (.FileUpload accept) (.Single filename) ↔
      (trim filename).isEmpty = false ∧ accepted to_lowercase accept filename = true := by
  have hname : (∃ c ∈ filename.toList, is_whitespace c = false) ↔
      (trim filename).isEmpty = false := by
    rw [← Bool.not_eq_true, trim_isEmpty]
    simp
  have hext : (accept = [] ∨ ∃ ext ∈ accept,
      (to_lowercase ext).toList <:+ (to_lowercase filename).toList) ↔
      accepted to_lowercase accept filename = true := by
    simp [accepted, ends_with_iff]
  rw [← hname, ← hext]
  exact ⟨fun | .file h1 h2 => ⟨h1, h2⟩, fun h => .file h.1 h.2⟩

theorem validate_answer_iff : validate_answer to_lowercase answers question = .ok () ↔
    ∃ answer, answers.find question.key = some answer ∧
      Takes to_lowercase question.kind answer := by
  unfold validate_answer
  cases answers.find question.key with
  | none => simp
  | some answer =>
    simp only [Option.some.injEq, exists_eq_left']
    cases question.kind with
    | ShortText =>
      cases answer with
      | Single text => exact iff_of_true rfl (.short text)
      | Multiple texts => exact iff_of_false nofun nofun
    | LongText =>
      cases answer with
      | Single text => exact iff_of_true rfl (.long text)
      | Multiple texts => exact iff_of_false nofun nofun
    | Select options =>
      cases answer with
      | Single choice => simp [takes_choice_iff]
      | Multiple texts => exact iff_of_false nofun nofun
    | Radio options =>
      cases answer with
      | Single choice => simp [takes_choice_iff]
      | Multiple texts => exact iff_of_false nofun nofun
    | Checkboxes options =>
      cases answer with
      | Single text => exact iff_of_false nofun nofun
      | Multiple choices =>
        rw [takes_checkboxes_iff]
        dsimp only
        cases choices.find? fun choice => decide (choice ∉ options) <;> simp
    | FileUpload accept =>
      cases answer with
      | Single filename =>
        rw [takes_file_iff]
        dsimp only
        cases (trim filename).isEmpty <;> cases accepted to_lowercase accept filename <;> simp
      | Multiple texts => exact iff_of_false nofun nofun

theorem forM_ok_iff {f : Question → Except HitlError Unit} {questions : List Question} :
    questions.forM f = .ok () ↔ ∀ question ∈ questions, f question = .ok () := by
  induction questions with
  | nil => simp [List.forM_nil, pure, Except.pure]
  | cons question questions ih =>
    change (f question >>= fun _ => questions.forM f) = .ok () ↔ _
    rw [List.forall_mem_cons, ← ih]
    cases f question with
    | error e => simp [bind, Except.bind]
    | ok _ => simp [bind, Except.bind]

/-- The answers are let through as they are, when every question takes its own; else there is an
error. -/
theorem validate_answers_iff {questions : List Question} :
    validate_answers to_lowercase questions answers = .ok answers ↔
      Satisfies to_lowercase answers (.Questions questions) := by
  unfold validate_answers Satisfies
  simp only [← validate_answer_iff, ← forM_ok_iff]
  cases questions.forM (validate_answer to_lowercase answers) with
  | error e => simp [bind, Except.bind]
  | ok _ => simp [bind, Except.bind]

theorem validate_answers_of_not {questions : List Question}
    (h : ¬ Satisfies to_lowercase answers (.Questions questions)) :
    ∃ e, validate_answers to_lowercase questions answers = .error e := by
  rw [← validate_answers_iff] at h
  unfold validate_answers at h ⊢
  cases hall : questions.forM (validate_answer to_lowercase answers) with
  | error e => exact ⟨e, rfl⟩
  | ok _ =>
    rw [hall] at h
    exact absurd rfl h

end

/-! ## The service -/

/-- The store, and the events that were emitted, oldest first. -/
structure Service where
  store : InMemoryHitlStore
  emitted : List SessionEvent

def InMemoryHitlStore.get_hitl (id : SessionId) (hitl_id : HitlId) (self : InMemoryHitlStore) :
    Except StoreError Hitl :=
  (self.get_hitl_frame id hitl_id).map (·.hitl)

/-- A call of the store, with its error as the one of the service. -/
def on_store {α : Type} (f : InMemoryHitlStore → Except StoreError α × InMemoryHitlStore) :
    Program HitlError Service α :=
  zoom (·.store) (fun store s => { s with store := store })
    (ExceptT.mk fun store => ((f store).1.mapError .StorageError, (f store).2))

@[simp] theorem exec_on_store {α : Type}
    (f : InMemoryHitlStore → Except StoreError α × InMemoryHitlStore) (s : Service) :
    exec (on_store f) s =
      ((f s.store).1.mapError .StorageError, { s with store := (f s.store).2 }) := rfl

def emit (event : SessionEvent) : Program HitlError Service Unit :=
  modify fun s => { s with emitted := s.emitted ++ [event] }

/-- `SessionHitls::request`; `id` is the identifier that was drawn. -/
def request (session_id : SessionId) (id : HitlId) (hitl : Hitl) :
    Program HitlError Service HitlId := do
  on_store (·.upsert_hitl_frame ⟨session_id, id, hitl, none⟩)
  emit (.HitlRequested ⟨session_id, id, hitl⟩)
  pure id

/-- `SessionHitls::reply`. -/
def reply (to_lowercase : String → String) (session_id : SessionId) (id : HitlId)
    (answers : Entries String Answer) : Program HitlError Service HitlId := do
  on_store (·.write_hitl_response session_id id answers)
  let hitl ← on_store fun store => (store.get_hitl session_id id, store)
  let answers ← match hitl with
    | .Questions questions => ExceptT.mk (pure (validate_answers to_lowercase questions answers))
    | .Text => pure answers
  emit (.HitlAnswered ⟨session_id, id, answers⟩)
  pure id

/-! ## What a reply leaves -/

/-- The two maps have the same answers, in some order. -/
def SameAnswers (answers answers' : Entries String Answer) : Prop :=
  ∀ key, answers.find key = answers'.find key

structure HitlFrame.Same (f g : HitlFrame) : Prop where
  session_id : f.session_id = g.session_id
  id : f.id = g.id
  hitl : f.hitl = g.hitl
  answer : Option.Rel SameAnswers f.answer g.answer

/-- The two stores have the same requests under the same keys. -/
def InMemoryHitlStore.Same (mem mem' : InMemoryHitlStore) : Prop :=
  ∀ key, Option.Rel HitlFrame.Same (mem.hitls.find key) (mem'.hitls.find key)

/-- The request is among the pending ones of its session. -/
def InMemoryHitlStore.Lists (mem : InMemoryHitlStore) (session_id : SessionId) (id : HitlId) :
    Prop :=
  ∃ pending, mem.list_pending_hitls session_id = .ok pending ∧ ∃ p ∈ pending, p.id = id

/-- A reply that fails leaves the store, the pending requests and the events as they were; one
that ends has its answers in the store, they satisfy the request, and it emits them once. -/
def LeavesNoTrace (to_lowercase : String → String) (session_id : SessionId) (id : HitlId)
    (answers : Entries String Answer) (s : Service) : Prop :=
  match exec (reply to_lowercase session_id id answers) s with
  | (.error _, s') => s.store.Same s'.store ∧
      (s'.store.Lists session_id id ↔ s.store.Lists session_id id) ∧ s'.emitted = s.emitted
  | (.ok _, s') => (∃ f, s'.store.hitls.find (session_id, id) = some f ∧
      f.answer = some answers ∧ Satisfies to_lowercase answers f.hitl) ∧
      s'.emitted = s.emitted ++ [.HitlAnswered ⟨session_id, id, answers⟩]

/-- No request has the id, or the answers satisfy the request, or they are the ones it has. -/
def CanReply (to_lowercase : String → String) (session_id : SessionId) (id : HitlId)
    (answers : Entries String Answer) (mem : InMemoryHitlStore) : Prop :=
  ∀ f, mem.hitls.find (session_id, id) = some f →
    Satisfies to_lowercase answers f.hitl ∨ Option.Rel SameAnswers f.answer (some answers)

variable {to_lowercase : String → String} {session_id : SessionId} {id : HitlId}
  {answers : Entries String Answer} {s : Service} {calls : List Call} {f : HitlFrame}

/-- The store after the answers are written to the request. -/
def InMemoryHitlStore.answered (mem : InMemoryHitlStore) (f : HitlFrame)
    (answers : Entries String Answer) : InMemoryHitlStore :=
  ⟨mem.hitls.insert (f.key, { f with answer := some answers })⟩

theorem write_of_unknown {mem : InMemoryHitlStore}
    (h : mem.hitls.find (session_id, id) = none) :
    mem.write_hitl_response session_id id answers = (.error (.HitlNotFound session_id id), mem) := by
  simp [InMemoryHitlStore.write_hitl_response, InMemoryHitlStore.get_hitl_frame, h]

theorem write_of_known {mem : InMemoryHitlStore} (h : mem.hitls.find (session_id, id) = some f) :
    mem.write_hitl_response session_id id answers = (.ok (), mem.answered f answers) := by
  simp [InMemoryHitlStore.write_hitl_response, InMemoryHitlStore.get_hitl_frame, h,
    InMemoryHitlStore.upsert_hitl_frame, InMemoryHitlStore.answered, HitlFrame.key]

theorem get_of_answered {mem : InMemoryHitlStore} (hkey : f.key = (session_id, id)) :
    (mem.answered f answers).get_hitl session_id id = .ok f.hitl := by
  simp [InMemoryHitlStore.get_hitl, InMemoryHitlStore.get_hitl_frame,
    InMemoryHitlStore.answered, hkey, Except.map]

theorem reply_of_unknown (h : s.store.hitls.find (session_id, id) = none) :
    exec (reply to_lowercase session_id id answers) s =
      (.error (.StorageError (.HitlNotFound session_id id)), s) := by
  have hwrite : exec (on_store (·.write_hitl_response session_id id answers)) s =
      (.error (.StorageError (.HitlNotFound session_id id)), s) := by
    rw [exec_on_store, write_of_unknown h]
    rfl
  exact exec_bind_error hwrite

/-- The answers of a reply to a request that is there are written, whatever they are. -/
theorem reply_of_known (hkey : f.key = (session_id, id))
    (h : s.store.hitls.find (session_id, id) = some f) :
    exec (reply to_lowercase session_id id answers) s =
      exec (do
        let answers ← match f.hitl with
          | .Questions questions =>
            ExceptT.mk (pure (validate_answers to_lowercase questions answers))
          | .Text => pure answers
        emit (.HitlAnswered ⟨session_id, id, answers⟩)
        pure id) { s with store := s.store.answered f answers } := by
  have hwrite : exec (on_store (·.write_hitl_response session_id id answers)) s =
      (.ok (), { s with store := s.store.answered f answers }) := by
    rw [exec_on_store, write_of_known h]
    rfl
  have hget : exec (on_store fun store => (store.get_hitl session_id id, store))
      { s with store := s.store.answered f answers } =
      (.ok f.hitl, { s with store := s.store.answered f answers }) := by
    rw [exec_on_store, get_of_answered hkey]
    rfl
  rw [reply, exec_bind_ok hwrite, exec_bind_ok hget]

theorem reply_of_satisfied (hkey : f.key = (session_id, id))
    (h : s.store.hitls.find (session_id, id) = some f)
    (hsat : Satisfies to_lowercase answers f.hitl) :
    exec (reply to_lowercase session_id id answers) s = (.ok id,
      ⟨s.store.answered f answers,
        s.emitted ++ [.HitlAnswered ⟨session_id, id, answers⟩]⟩) := by
  rw [reply_of_known hkey h]
  cases hhitl : f.hitl with
  | Text => rfl
  | Questions questions =>
    rw [hhitl] at hsat
    dsimp only
    rw [validate_answers_iff.mpr hsat]
    rfl

/-- A reply that is refused has written its answers. -/
theorem reply_of_refused (hkey : f.key = (session_id, id))
    (h : s.store.hitls.find (session_id, id) = some f)
    (hsat : ¬ Satisfies to_lowercase answers f.hitl) :
    ∃ e, exec (reply to_lowercase session_id id answers) s =
      (.error e, { s with store := s.store.answered f answers }) := by
  rw [reply_of_known hkey h]
  cases hhitl : f.hitl with
  | Text =>
    rw [hhitl] at hsat
    exact absurd trivial hsat
  | Questions questions =>
    rw [hhitl] at hsat
    obtain ⟨e, he⟩ := validate_answers_of_not hsat
    dsimp only
    rw [he]
    exact ⟨e, rfl⟩

/-! ## The stores that calls leave -/

theorem option_rel_refl {α : Type} {R : α → α → Prop} (hrefl : ∀ a, R a a) (o : Option α) :
    Option.Rel R o o := by
  cases o with
  | none => exact .none
  | some a => exact .some (hrefl a)

theorem HitlFrame.same_refl (f : HitlFrame) : f.Same f :=
  ⟨rfl, rfl, rfl, option_rel_refl (fun _ _ => rfl) _⟩

/-- Answers that are written leave the store as it was when the request had the same ones. -/
theorem same_answered_iff {mem : InMemoryHitlStore} (h : mem.hitls.find f.key = some f) :
    mem.Same (mem.answered f answers) ↔ Option.Rel SameAnswers f.answer (some answers) := by
  have hfind : ∀ key, (mem.answered f answers).hitls.find key =
      if f.key = key then some { f with answer := some answers } else mem.hitls.find key := by
    intro key
    simp [InMemoryHitlStore.answered]
  constructor
  · intro hsame
    have hown := hsame f.key
    rw [hfind, if_pos rfl, h] at hown
    cases hown with
    | some hframe => exact hframe.answer
  · intro hrel key
    rw [hfind]
    split
    · next hkey =>
      rw [← hkey, h]
      exact .some ⟨rfl, rfl, rfl, hrel⟩
    · exact option_rel_refl HitlFrame.same_refl _

/-- A request is pending when it is there without an answer. -/
theorem lists_iff {mem : InMemoryHitlStore} (h : mem.Records calls) :
    mem.Lists session_id id ↔ ∃ f, mem.hitls.find (session_id, id) = some f ∧ f.answer = none := by
  obtain ⟨pending, hlist, hmem⟩ : ∃ pending, mem.list_pending_hitls session_id = .ok pending ∧
      ∀ p, p ∈ pending ↔ ∃ f, recorded (session_id, p.id) calls = some f ∧ f.answer = none ∧
        f.pending = p := mem_pending_iff h
  unfold InMemoryHitlStore.Lists
  rw [h]
  constructor
  · rintro ⟨pending', hlist', p, hp, rfl⟩
    rw [hlist] at hlist'
    cases hlist'
    obtain ⟨f, hf, hanswer, -⟩ := (hmem p).mp hp
    exact ⟨f, hf, hanswer⟩
  · rintro ⟨f, hf, hanswer⟩
    have hid : f.id = id := congrArg Prod.snd (key_of_recorded hf)
    refine ⟨pending, hlist, f.pending, ?_, hid⟩
    refine (hmem f.pending).mpr ⟨f, ?_, hanswer, rfl⟩
    change recorded (session_id, f.id) calls = some f
    rw [hid, hf]

/-- A reply leaves the store as a call of it does. -/
theorem reply_store (h : s.store.Records calls) :
    (exec (reply to_lowercase session_id id answers) s).2.store =
      (s.store.call (.write_hitl_response session_id id answers)).2 := by
  cases hfind : s.store.hitls.find (session_id, id) with
  | none =>
    rw [reply_of_unknown hfind]
    exact (congrArg Prod.snd (write_of_unknown hfind)).symm
  | some f =>
    have hkey : f.key = (session_id, id) := key_of_recorded ((h _).symm.trans hfind)
    have hwrite : (s.store.call (.write_hitl_response session_id id answers)).2 =
        s.store.answered f answers := congrArg Prod.snd (write_of_known hfind)
    rw [hwrite]
    by_cases hsat : Satisfies to_lowercase answers f.hitl
    · rw [reply_of_satisfied hkey hfind hsat]
    · obtain ⟨e, hreply⟩ := reply_of_refused hkey hfind hsat
      rw [hreply]

/-- A reply leaves no trace when it fails, and its answers when it ends, exactly when its answers
satisfy the request, or are the ones that the request has, or there is no request. -/
theorem replies_leave_no_trace_iff (to_lowercase : String → String) (calls : List Call)
    (emitted : List SessionEvent) (session_id : SessionId) (id : HitlId)
    (answers : Entries String Answer) :
    let store := Backends.after InMemoryHitlStore.call .new calls
    LeavesNoTrace to_lowercase session_id id answers ⟨store, emitted⟩ ↔
      CanReply to_lowercase session_id id answers store := by
  intro store
  have hrecords : store.Records calls := records_after
  unfold LeavesNoTrace CanReply
  cases hfind : store.hitls.find (session_id, id) with
  | none =>
    have hreply : exec (reply to_lowercase session_id id answers) ⟨store, emitted⟩ = _ :=
      reply_of_unknown hfind
    rw [hreply]
    have hsame : store.Same store := fun key => option_rel_refl HitlFrame.same_refl _
    exact iff_of_true ⟨hsame, Iff.rfl, rfl⟩ nofun
  | some f =>
    have hkey : f.key = (session_id, id) := key_of_recorded ((hrecords _).symm.trans hfind)
    have hown : store.hitls.find f.key = some f := by rw [hkey, hfind]
    simp only [Option.some.injEq, forall_eq']
    by_cases hsat : Satisfies to_lowercase answers f.hitl
    · have hreply : exec (reply to_lowercase session_id id answers) ⟨store, emitted⟩ = _ :=
        reply_of_satisfied hkey hfind hsat
      rw [hreply]
      refine iff_of_true ⟨⟨{ f with answer := some answers }, ?_, rfl, hsat⟩, rfl⟩ (.inl hsat)
      simp [InMemoryHitlStore.answered, hkey]
    · obtain ⟨e, hreply⟩ := reply_of_refused (s := ⟨store, emitted⟩) hkey hfind hsat
      rw [hreply]
      dsimp only
      rw [same_answered_iff hown]
      simp only [hsat, false_or]
      constructor
      · intro h
        exact h.1
      · intro hrel
        refine ⟨hrel, ?_, trivial⟩
        -- the request had an answer before, so it was not pending then either
        have hafter : (store.answered f answers).Records
            (calls ++ [.write_hitl_response session_id id answers]) := by
          have hcall := records_call (c := .write_hitl_response session_id id answers) hrecords
          have hstore : (exec (reply to_lowercase session_id id answers)
              ⟨store, emitted⟩).2.store = _ := reply_store hrecords
          rwa [← hstore, hreply] at hcall
        rw [lists_iff hafter, lists_iff hrecords]
        apply iff_of_false
        · rintro ⟨g, hg, hanswer⟩
          simp only [InMemoryHitlStore.answered, hkey, Entries.find_insert, if_true,
            Option.some.injEq] at hg
          rw [← hg] at hanswer
          cases hanswer
        · rintro ⟨g, hg, hanswer⟩
          rw [hfind] at hg
          cases hg
          rw [hanswer] at hrel
          cases hrel

/-- A form of one question with two options. -/
def oneQuestion : Hitl :=
  .Questions [⟨"env", "Environnement ?", .Select ["prod", "staging"]⟩]

def askedOnce : HitlFrame := ⟨⟨0, 1⟩, ⟨0, 2⟩, oneQuestion, none⟩

def wrongAnswers : Entries String Answer := .ofList [("env", .Single "dev")]

/-- A reply with a choice that is no option fails, and the request is no more pending. -/
theorem a_refused_reply_answers_the_request :
    let store := Backends.after InMemoryHitlStore.call .new [.upsert_hitl_frame askedOnce]
    store.Lists ⟨0, 1⟩ ⟨0, 2⟩ ∧
      ∃ e s', exec (reply (fun s => s) ⟨0, 1⟩ ⟨0, 2⟩ wrongAnswers) ⟨store, []⟩ = (.error e, s') ∧
        ¬ store.Same s'.store ∧ ¬ s'.store.Lists ⟨0, 1⟩ ⟨0, 2⟩ := by
  intro store
  have hfind : store.hitls.find askedOnce.key = some askedOnce := by rfl
  have hanswer : wrongAnswers.find "env" = some (.Single "dev") := by rfl
  have hrefused : ¬ Satisfies (fun s => s) wrongAnswers oneQuestion := by
    intro h
    obtain ⟨answer, hanswer', htakes⟩ := h _ (List.mem_singleton.mpr rfl)
    rw [hanswer] at hanswer'
    cases hanswer'
    cases htakes with
    | select hmem => simp at hmem
  obtain ⟨e, hreply⟩ := reply_of_refused (s := ⟨store, []⟩) (f := askedOnce) rfl hfind hrefused
  refine ⟨⟨_, rfl, _, List.mem_singleton.mpr rfl, rfl⟩, e, _, hreply, ?_, ?_⟩
  · intro hsame
    have hrel := (same_answered_iff (f := askedOnce) hfind).mp hsame
    cases hrel
  · rintro ⟨pending, hlist, p, hp, hid⟩
    have hnone : (store.answered askedOnce wrongAnswers).list_pending_hitls ⟨0, 1⟩ = .ok [] := by
      rfl
    rw [hnone] at hlist
    cases hlist
    cases hp

end marie.hitl_store
