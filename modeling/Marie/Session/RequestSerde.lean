-- The requests of a run as JSON: the questions to a human and their answers,
-- the calls of tools and of experts, and what the replay log keeps of them.
import Marie.Serde
import Marie.Session.Protocol

namespace marie.session

open Codecs serde

/-! ## Questions -/

/-- The content of a variant with one list of texts. -/
def texts (name : String) (hname : no_nul name = true) : Serde (List String) :=
  record (.field name (seq string)) (by simpa using hname)

theorem lossless_texts {name : String} (hname : no_nul name = true) (xs : List String) :
    (texts name hname).Lossless xs := by
  simp [texts]

/-- `#[serde(tag = "kind", rename_all = "snake_case")]`. -/
def QuestionKind.serde : Serde QuestionKind where
  encode
    | .ShortText => some (.Object [("kind", .String "short_text")])
    | .LongText => some (.Object [("kind", .String "long_text")])
    | .Select options => ((texts "options" rfl).encode options).bind (with_tag "kind" "select")
    | .Radio options => ((texts "options" rfl).encode options).bind (with_tag "kind" "radio")
    | .Checkboxes options =>
      ((texts "options" rfl).encode options).bind (with_tag "kind" "checkboxes")
    | .FileUpload accept =>
      ((texts "accept" rfl).encode accept).bind (with_tag "kind" "file_upload")
  decode v :=
    match read_tag "kind" v with
    | some ("short_text", _) => some .ShortText
    | some ("long_text", _) => some .LongText
    | some ("select", v) => ((texts "options" rfl).decode v).map .Select
    | some ("radio", v) => ((texts "options" rfl).decode v).map .Radio
    | some ("checkboxes", v) => ((texts "options" rfl).decode v).map .Checkboxes
    | some ("file_upload", v) => ((texts "accept" rfl).decode v).map .FileUpload
    | _ => none
  Fits
    | .ShortText | .LongText => True
    | .Select options | .Radio options | .Checkboxes options => ∀ s ∈ options, no_nul s = true
    | .FileUpload accept => ∀ s ∈ accept, no_nul s = true
  fits_iff := by
    intro k v h
    cases k with
    | ShortText => exact fits_unit h rfl
    | LongText => exact fits_unit h rfl
    | Select options => exact fits_internal rfl rfl h
    | Radio options => exact fits_internal rfl rfl h
    | Checkboxes options => exact fits_internal rfl rfl h
    | FileUpload accept => exact fits_internal rfl rfl h

theorem lossless_kind {f : List String → QuestionKind} (tag field : String)
    (hfield : no_nul field = true) (hf : Function.Injective f) (hne : field ≠ "kind")
    (henc : ∀ xs, QuestionKind.serde.encode (f xs) =
      ((texts field hfield).encode xs).bind (with_tag "kind" tag))
    (hdec : ∀ v v', read_tag "kind" v' = some (tag, v) →
      QuestionKind.serde.decode v' = ((texts field hfield).decode v).map f) (xs : List String) :
    QuestionKind.serde.Lossless (f xs) := by
  have htag : "kind" ∉ (Fields.field (T := Jsonb) field (seq string)).names := by
    simpa using hne.symm
  exact (lossless_internal "kind" tag hf (fun v h => untagged_record htag h) (henc xs) hdec).mpr
    (lossless_texts hfield xs)

@[simp] theorem lossless_question_kind (k : QuestionKind) : QuestionKind.serde.Lossless k := by
  cases k with
  | ShortText => exact ⟨_, rfl, rfl⟩
  | LongText => exact ⟨_, rfl, rfl⟩
  | Select options =>
    refine lossless_kind "select" "options" rfl ?_ (by decide) (fun _ => rfl) ?_ options
    · rintro _ _ ⟨⟩
      rfl
    · intro v v' h
      simp only [QuestionKind.serde, h]
  | Radio options =>
    refine lossless_kind "radio" "options" rfl ?_ (by decide) (fun _ => rfl) ?_ options
    · rintro _ _ ⟨⟩
      rfl
    · intro v v' h
      simp only [QuestionKind.serde, h]
  | Checkboxes options =>
    refine lossless_kind "checkboxes" "options" rfl ?_ (by decide) (fun _ => rfl) ?_ options
    · rintro _ _ ⟨⟩
      rfl
    · intro v v' h
      simp only [QuestionKind.serde, h]
  | FileUpload accept =>
    refine lossless_kind "file_upload" "accept" rfl ?_ (by decide) (fun _ => rfl) ?_ accept
    · rintro _ _ ⟨⟩
      rfl
    · intro v v' h
      simp only [QuestionKind.serde, h]

/-- What a kind of question is written as: an object without the two other fields of the
question. -/
theorem question_kind_object {k : QuestionKind} {v : Value}
    (h : QuestionKind.serde.encode k = some v) :
    ∃ fields, v = .Object fields ∧ ∀ p ∈ fields, p.1 ≠ "key" ∧ p.1 ≠ "label" := by
  have htexts : ∀ field (hfield : no_nul field = true) tag xs, field ≠ "key" → field ≠ "label" →
      ((texts field hfield).encode xs).bind (with_tag "kind" tag) = some v →
      ∃ fields, v = .Object fields ∧ ∀ p ∈ fields, p.1 ≠ "key" ∧ p.1 ≠ "label" := by
    intro field hfield tag xs hkey hlabel h
    obtain ⟨w, hw, h⟩ := Option.bind_eq_some_iff.mp h
    obtain ⟨fields, hfields, rfl⟩ := Option.map_eq_some_iff.mp hw
    obtain ⟨d, -, rfl⟩ := Option.map_eq_some_iff.mp hfields
    obtain rfl := Option.some.inj h
    exact ⟨_, rfl, by simp [hkey, hlabel]⟩
  cases k with
  | ShortText =>
    obtain rfl := Option.some.inj h
    exact ⟨_, rfl, by simp⟩
  | LongText =>
    obtain rfl := Option.some.inj h
    exact ⟨_, rfl, by simp⟩
  | Select options => exact htexts _ _ _ options (by decide) (by decide) h
  | Radio options => exact htexts _ _ _ options (by decide) (by decide) h
  | Checkboxes options => exact htexts _ _ _ options (by decide) (by decide) h
  | FileUpload accept => exact htexts _ _ _ accept (by decide) (by decide) h

/-- `#[serde(flatten)]` of the kind: its fields stand beside those of the question. -/
def Question.serde : Serde Question where
  encode q := do
    match ← QuestionKind.serde.encode q.kind with
    | .Object fields => some (.Object (("key", .String q.key) :: ("label", .String q.label) :: fields))
    | _ => none
  decode
    | .Object fields => do
      let key ← (entry "key" fields).bind string.decode
      let label ← (entry "label" fields).bind string.decode
      let kind ← QuestionKind.serde.decode
        (.Object (fields.filter fun p => p.1 ≠ "key" ∧ p.1 ≠ "label"))
      some ⟨key, label, kind⟩
    | _ => none
  Fits q := no_nul q.key = true ∧ no_nul q.label = true ∧ QuestionKind.serde.Fits q.kind
  fits_iff := by
    intro q v h
    obtain ⟨w, hw, h⟩ := Option.bind_eq_some_iff.mp h
    obtain ⟨fields, rfl, -⟩ := question_kind_object hw
    obtain rfl := Option.some.inj h
    have hkey : no_nul "key" = true := rfl
    have hlabel : no_nul "label" = true := rfl
    have hstring : ∀ s, Jsonb (.String s) ↔ no_nul s = true := fun _ => Iff.rfl
    rw [← QuestionKind.serde.fits_iff hw, jsonb_object, jsonb_object, List.forall_mem_cons,
      List.forall_mem_cons]
    simp only [hkey, hlabel, hstring, true_and]

@[simp] theorem lossless_question (q : Question) : Question.serde.Lossless q := by
  obtain ⟨v, hv, hback⟩ := lossless_question_kind q.kind
  obtain ⟨fields, rfl, hfields⟩ := question_kind_object hv
  refine ⟨.Object (("key", .String q.key) :: ("label", .String q.label) :: fields), ?_, ?_⟩
  · simp [Question.serde, hv]
  · have hlabel : entry "label" (("key", Value.String q.key) :: ("label", .String q.label) :: fields) =
        some (.String q.label) := by
      simp [entry]
    have hkind : (("key", Value.String q.key) :: ("label", .String q.label) :: fields).filter
        (fun p => p.1 ≠ "key" ∧ p.1 ≠ "label") = fields := by
      rw [List.filter_cons_of_neg (by simp), List.filter_cons_of_neg (by simp),
        List.filter_eq_self]
      intro p hp
      simpa using hfields p hp
    simp only [Question.serde, entry_cons, hlabel, hkind, hback]
    rfl

def Hitl.serde : Serde Hitl where
  encode
    | .Questions questions => ((seq Question.serde).encode questions).map (variant "Questions")
    | .Text => some (.String "Text")
  decode v :=
    match read_variant v with
    | some ("Questions", some v) => ((seq Question.serde).decode v).map .Questions
    | some ("Text", none) => some .Text
    | _ => none
  Fits
    | .Questions questions => ∀ q ∈ questions, Question.serde.Fits q
    | .Text => True
  fits_iff := by
    intro h v henc
    cases h with
    | Questions questions => exact Codec.fits_variant (jsonb_variant rfl) henc
    | Text => exact fits_unit henc rfl

@[simp] theorem lossless_hitl (h : Hitl) : Hitl.serde.Lossless h := by
  cases h with
  | Questions questions =>
    refine (lossless_external "Questions" ?_ rfl (fun _ => rfl)).mpr (by simp)
    rintro _ _ ⟨⟩
    rfl
  | Text => exact ⟨_, rfl, rfl⟩

/-- `#[serde(untagged)]`: the first variant that reads the value. -/
def Answer.serde : Serde Answer where
  encode
    | .Single text => string.encode text
    | .Multiple texts => (seq string).encode texts
  decode v := ((string.decode v).map .Single).or (((seq string).decode v).map .Multiple)
  Fits
    | .Single text => no_nul text = true
    | .Multiple texts => ∀ s ∈ texts, no_nul s = true
  fits_iff := by
    intro a v h
    cases a with
    | Single text => exact string.fits_iff h
    | Multiple texts => exact (seq string).fits_iff h

@[simp] theorem lossless_answer (a : Answer) : Answer.serde.Lossless a := by
  cases a with
  | Single text => exact ⟨_, rfl, rfl⟩
  | Multiple texts =>
    have hall : (seq string).Lossless texts := by simp
    obtain ⟨v, henc, hdec⟩ := hall
    refine ⟨v, henc, ?_⟩
    obtain ⟨vs, -, rfl⟩ := Option.map_eq_some_iff.mp henc
    simp only [Answer.serde, hdec]
    rfl

/-! ## Calls -/

def RequestAskExpert.serde : Serde RequestAskExpert :=
  record (((Fields.field "task" string).both (.field "expert_id" string)).iso
    (fun r => (r.task, r.expert_id)) (fun p => ⟨p.1, p.2⟩)) (by decide)

@[simp] theorem lossless_request_ask_expert (r : RequestAskExpert) :
    RequestAskExpert.serde.Lossless r := by
  rw [RequestAskExpert.serde, lossless_record,
    Fields.lossless_iso (fun _ => rfl) (fun _ => rfl), Fields.lossless_both (by decide)]
  simp

def RequestToolCall.serde : Serde RequestToolCall :=
  record (((Fields.field "name" string).both (.field "parameters" json)).iso
    (fun r => (r.name, r.parameters)) (fun p => ⟨p.1, p.2⟩)) (by decide)

@[simp] theorem lossless_request_tool_call (r : RequestToolCall) :
    RequestToolCall.serde.Lossless r := by
  rw [RequestToolCall.serde, lossless_record,
    Fields.lossless_iso (fun _ => rfl) (fun _ => rfl), Fields.lossless_both (by decide)]
  simp

/-! ## The replay log -/

def expert_requests : Serde (List RequestAskExpert) :=
  record (.field "requests" (seq RequestAskExpert.serde)) (by decide)

def tool_requests : Serde (List RequestToolCall) :=
  record (.field "requests" (seq RequestToolCall.serde)) (by decide)

def graph_request : Serde GraphId := record (.field "graph_id" string) (by decide)

def hitl_request : Serde Hitl := record (.field "request" Hitl.serde) (by decide)

def RunLogContent.serde : Serde RunLogContent where
  encode
    | .ConsultExpertsLog requests =>
      (expert_requests.encode requests).map (variant "ConsultExpertsLog")
    | .CallToolsLog requests => (tool_requests.encode requests).map (variant "CallToolsLog")
    | .GraphLog graph_id => (graph_request.encode graph_id).map (variant "GraphLog")
    | .HitlLog request => (hitl_request.encode request).map (variant "HitlLog")
  decode v :=
    match read_variant v with
    | some ("ConsultExpertsLog", some v) => (expert_requests.decode v).map .ConsultExpertsLog
    | some ("CallToolsLog", some v) => (tool_requests.decode v).map .CallToolsLog
    | some ("GraphLog", some v) => (graph_request.decode v).map .GraphLog
    | some ("HitlLog", some v) => (hitl_request.decode v).map .HitlLog
    | _ => none
  Fits
    | .ConsultExpertsLog requests => expert_requests.Fits requests
    | .CallToolsLog requests => tool_requests.Fits requests
    | .GraphLog graph_id => graph_request.Fits graph_id
    | .HitlLog request => hitl_request.Fits request
  fits_iff := by
    intro l v h
    cases l <;> exact Codec.fits_variant (jsonb_variant rfl) h

@[simp] theorem lossless_run_log_content (l : RunLogContent) : RunLogContent.serde.Lossless l := by
  cases l with
  | ConsultExpertsLog requests =>
    refine (lossless_external "ConsultExpertsLog" ?_ rfl (fun _ => rfl)).mpr
      (by simp [expert_requests])
    rintro _ _ ⟨⟩
    rfl
  | CallToolsLog requests =>
    refine (lossless_external "CallToolsLog" ?_ rfl (fun _ => rfl)).mpr (by simp [tool_requests])
    rintro _ _ ⟨⟩
    rfl
  | GraphLog graph_id =>
    refine (lossless_external "GraphLog" ?_ rfl (fun _ => rfl)).mpr (by simp [graph_request])
    rintro _ _ ⟨⟩
    rfl
  | HitlLog request =>
    refine (lossless_external "HitlLog" ?_ rfl (fun _ => rfl)).mpr (by simp [hitl_request])
    rintro _ _ ⟨⟩
    rfl

end marie.session
