-- A frame notices a float: one that is read back from its JSON as it was, was read from that very
-- JSON. Each type of a frame has its lemma, from those of its parts.
import Marie.JsonText
import Marie.Session.StoredFrames

namespace marie.session.stored

open Codecs Maps serde

variable {float : ℚ → Number}

/-! ## The requests of a run -/

theorem notices_texts {name : String} (hname : no_nul name = true) (xs : List String) :
    (texts name hname).Notices (map_floats float) xs := by
  refine notices_record ?_
  simp [Fields.field]

theorem notices_kind {f : List String → QuestionKind} (tag field : String)
    (hfield : no_nul field = true) (hf : Function.Injective f) (hne : field ≠ "kind")
    (henc : ∀ xs, QuestionKind.serde.encode (f xs) =
      ((texts field hfield).encode xs).bind (with_tag "kind" tag))
    (hdec : ∀ v v', read_tag "kind" v' = some (tag, v) →
      QuestionKind.serde.decode v' = ((texts field hfield).decode v).map f) (xs : List String) :
    QuestionKind.serde.Notices (map_floats float) (f xs) := by
  have htag : "kind" ∉ (Fields.field (T := Jsonb) field (seq string)).names := by
    simpa using hne.symm
  exact notices_internal "kind" tag hf (fun v h => untagged_record htag h) (henc xs) hdec
    (notices_texts hfield xs)

@[simp] theorem notices_question_kind (k : QuestionKind) :
    QuestionKind.serde.Notices (map_floats float) k := by
  cases k with
  | ShortText => exact notices_fixed rfl rfl
  | LongText => exact notices_fixed rfl rfl
  | Select options =>
    refine notices_kind "select" "options" rfl ?_ (by decide) (fun _ => rfl) ?_ options
    · rintro _ _ ⟨⟩
      rfl
    · intro v v' h
      simp only [QuestionKind.serde, h]
  | Radio options =>
    refine notices_kind "radio" "options" rfl ?_ (by decide) (fun _ => rfl) ?_ options
    · rintro _ _ ⟨⟩
      rfl
    · intro v v' h
      simp only [QuestionKind.serde, h]
  | Checkboxes options =>
    refine notices_kind "checkboxes" "options" rfl ?_ (by decide) (fun _ => rfl) ?_ options
    · rintro _ _ ⟨⟩
      rfl
    · intro v v' h
      simp only [QuestionKind.serde, h]
  | FileUpload accept =>
    refine notices_kind "file_upload" "accept" rfl ?_ (by decide) (fun _ => rfl) ?_ accept
    · rintro _ _ ⟨⟩
      rfl
    · intro v v' h
      simp only [QuestionKind.serde, h]

/-- The fields of the kind stand beside those of the question. -/
@[simp] theorem notices_question (q : Question) : Question.serde.Notices (map_floats float) q := by
  intro d henc hdec
  obtain ⟨w, hw, h⟩ := Option.bind_eq_some_iff.mp henc
  obtain ⟨fields, rfl, hnames⟩ := question_kind_object hw
  obtain rfl := Option.some.inj h
  rw [map_floats_object] at hdec ⊢
  rw [List.map_cons, List.map_cons] at hdec ⊢
  have hkind : QuestionKind.serde.decode (map_floats float (.Object fields)) = some q.kind := by
    have hrest : (fields.map (Prod.map id (map_floats float))).filter
        (fun p => p.1 ≠ "key" ∧ p.1 ≠ "label") = fields.map (Prod.map id (map_floats float)) := by
      rw [List.filter_eq_self]
      intro p hp
      obtain ⟨p, hmem, rfl⟩ := List.mem_map.mp hp
      simpa using hnames p hmem
    -- the key and the label are read as they are
    obtain ⟨kind, hkind, hdec⟩ := Option.bind_eq_some_iff.mp hdec
    obtain rfl : kind = q.kind := congrArg Question.kind (Option.some.inj hdec)
    rw [List.filter_cons_of_neg (by simp), List.filter_cons_of_neg (by simp), hrest] at hkind
    rw [map_floats_object, hkind]
  have hfields := notices_question_kind q.kind _ hw hkind
  rw [map_floats_object] at hfields
  rw [Value.Object.inj hfields]
  rfl

@[simp] theorem notices_hitl (h : Hitl) : Hitl.serde.Notices (map_floats float) h := by
  cases h with
  | Questions questions =>
    refine notices_external "Questions" ?_ rfl (fun _ => rfl) (notices_seq (by simp))
    rintro _ _ ⟨⟩
    rfl
  | Text => exact notices_fixed rfl rfl

@[simp] theorem notices_request_ask_expert (r : RequestAskExpert) :
    RequestAskExpert.serde.Notices (map_floats float) r := by
  refine notices_record (Fields.notices_iso (fun _ => rfl) (Fields.notices_both (by decide) ?_ ?_))
  all_goals simp [Fields.field]

@[simp] theorem notices_request_tool_call (r : RequestToolCall) :
    RequestToolCall.serde.Notices (map_floats float) r := by
  refine notices_record (Fields.notices_iso (fun _ => rfl) (Fields.notices_both (by decide) ?_ ?_))
  all_goals simp [Fields.field]

@[simp] theorem notices_run_log_content (l : RunLogContent) :
    RunLogContent.serde.Notices (map_floats float) l := by
  cases l with
  | ConsultExpertsLog requests =>
    refine notices_external "ConsultExpertsLog" ?_ rfl (fun _ => rfl)
      (notices_record (Fields.notices_field (by simp)))
    rintro _ _ ⟨⟩
    rfl
  | CallToolsLog requests =>
    refine notices_external "CallToolsLog" ?_ rfl (fun _ => rfl)
      (notices_record (Fields.notices_field (by simp)))
    rintro _ _ ⟨⟩
    rfl
  | GraphLog graph_id => exact notices_fixed rfl rfl
  | HitlLog request =>
    refine notices_external "HitlLog" ?_ rfl (fun _ => rfl)
      (notices_record (Fields.notices_field (by simp)))
    rintro _ _ ⟨⟩
    rfl

/-! ## The answer of a run -/

@[simp] theorem notices_catalog_item_ref (r : CatalogItemRef) :
    CatalogItemRef.serde.Notices (map_floats float) r := by
  refine notices_record (Fields.notices_iso (fun _ => rfl) (Fields.notices_both (by decide) ?_
    (Fields.notices_both (by decide) ?_ ?_)))
  all_goals simp [Fields.field]

@[simp] theorem notices_snapshot_ref (r : SnapshotRef) :
    SnapshotRef.serde.Notices (map_floats float) r := by
  refine notices_record (Fields.notices_iso (fun _ => rfl) (Fields.notices_both (by decide) ?_
    (Fields.notices_both (by decide) ?_ ?_)))
  all_goals simp [Fields.field]

@[simp] theorem notices_channel_update (u : ChannelUpdate) :
    ChannelUpdate.serde.Notices (map_floats float) u := by
  refine notices_record (Fields.notices_iso (fun _ => rfl) (Fields.notices_both (by decide) ?_
    (Fields.notices_both (by decide) ?_ ?_)))
  all_goals simp [Fields.field]

@[simp] theorem notices_channels (m : Channels) : channels.Notices (map_floats float) m :=
  notices_map fun _ _ => notices_json _

@[simp] theorem notices_branch (b : Branch) : Branch.serde.Notices (map_floats float) b := by
  refine notices_record (Fields.notices_iso (fun _ => rfl) (Fields.notices_both (by decide) ?_ ?_))
  all_goals simp [Fields.field]

theorem notices_fork (branches : List Branch) (join : NodeId) :
    fork.Notices (map_floats float) (branches, join) := by
  refine notices_record (Fields.notices_both (by decide) ?_ ?_)
  all_goals simp [Fields.field]

@[simp] theorem notices_frame_result (r : FrameResult) :
    FrameResult.serde.Notices (map_floats float) r := by
  cases r with
  | RequestHitl hitl =>
    refine notices_external "RequestHitl" ?_ rfl (fun _ => rfl) (notices_hitl hitl)
    rintro _ _ ⟨⟩
    rfl
  | ConsultExperts requests =>
    refine notices_external "ConsultExperts" ?_ rfl (fun _ => rfl) (notices_seq (by simp))
    rintro _ _ ⟨⟩
    rfl
  | CallTools requests =>
    refine notices_external "CallTools" ?_ rfl (fun _ => rfl) (notices_seq (by simp))
    rintro _ _ ⟨⟩
    rfl
  | Fork branches join =>
    refine notices_external (f := fun p : List Branch × NodeId => FrameResult.Fork p.1 p.2)
      (a := (branches, join)) "Fork" ?_ rfl (fun _ => rfl) (notices_fork branches join)
    rintro ⟨⟩ ⟨⟩ ⟨⟩
    rfl
  | _ => exact notices_fixed rfl rfl

@[simp] theorem notices_run_log (l : RunLog) : RunLog.serde.Notices (map_floats float) l := by
  refine notices_record (Fields.notices_iso (fun _ => rfl) (Fields.notices_both (by decide) ?_
    (Fields.notices_both (by decide) ?_ (notices_field (notices_option ?_)))))
  all_goals simp [Fields.field]

@[simp] theorem notices_frame_response (r : FrameResponse) :
    FrameResponse.serde.Notices (map_floats float) r := by
  refine notices_record (Fields.notices_iso (fun _ => rfl) (Fields.notices_both (by decide) ?_
    (Fields.notices_both (by decide) ?_ (Fields.notices_both (by decide) ?_ ?_))))
  all_goals simp [Fields.field]

/-! ## The state of a job -/

@[simp] theorem notices_job_instance (j : JobInstance) :
    JobInstance.serde.Notices (map_floats float) j := by
  refine notices_record (Fields.notices_iso (fun _ => rfl) (Fields.notices_both (by decide) ?_
    (Fields.notices_both (by decide) ?_ ?_)))
  all_goals simp [Fields.field]

theorem notices_error_chain (chain : List String) :
    error_chain.Notices (map_floats float) chain :=
  notices_record (Fields.notices_field (notices_seq fun s _ => notices_string s))

@[simp] theorem notices_worker_error (e : WorkerError) :
    WorkerError.serde.Notices (map_floats float) e := by
  cases e with
  | ExecutionError chain =>
    refine notices_external "ExecutionError" ?_ rfl (fun _ => rfl) (notices_error_chain chain)
    rintro _ _ ⟨⟩
    rfl
  | _ => exact notices_fixed rfl rfl

theorem notices_worker_bytes (worker : Worker) :
    worker_bytes.Notices (map_floats float) worker := notices_seq fun b _ => notices_u8 b

theorem notices_on_worker (worker : Worker) : on_worker.Notices (map_floats float) worker :=
  notices_record (Fields.notices_field (notices_worker_bytes worker))

theorem notices_pending_scheduling (instance_ : JobInstance) (worker : Worker) :
    pending_scheduling.Notices (map_floats float) (instance_, worker) := by
  refine notices_record (Fields.notices_both (by decide) ?_ ?_)
  · exact Fields.notices_field (notices_job_instance instance_)
  · exact Fields.notices_field (notices_worker_bytes worker)

theorem notices_job_error (e : WorkerError) : job_error.Notices (map_floats float) e :=
  notices_record (Fields.notices_field (notices_worker_error e))

theorem notices_worker_variant {f : Worker → JobState} (name : String)
    (hf : Function.Injective f)
    (henc : ∀ w, JobState.serde.encode (f w) = (on_worker.encode w).map (variant name))
    (hdec : ∀ v, JobState.serde.decode (variant name v) = (on_worker.decode v).map f)
    (worker : Worker) : JobState.serde.Notices (map_floats float) (f worker) :=
  notices_external name hf (henc worker) hdec (notices_on_worker worker)

@[simp] theorem notices_job_state (s : JobState) : JobState.serde.Notices (map_floats float) s := by
  cases s with
  | Unknown => exact notices_fixed rfl rfl
  | PendingScheduling instance_ worker =>
    refine notices_external (f := fun p : JobInstance × Worker => JobState.PendingScheduling p.1 p.2)
      (a := (instance_, worker)) "PendingScheduling" ?_ rfl (fun _ => rfl)
        (notices_pending_scheduling instance_ worker)
    rintro ⟨⟩ ⟨⟩ ⟨⟩
    rfl
  | PendingAck worker =>
    refine notices_worker_variant "PendingAck" ?_ (fun _ => rfl) (fun _ => rfl) worker
    rintro _ _ ⟨⟩
    rfl
  | Probing worker =>
    refine notices_worker_variant "Probing" ?_ (fun _ => rfl) (fun _ => rfl) worker
    rintro _ _ ⟨⟩
    rfl
  | Scheduled worker =>
    refine notices_worker_variant "Scheduled" ?_ (fun _ => rfl) (fun _ => rfl) worker
    rintro _ _ ⟨⟩
    rfl
  | Running worker =>
    refine notices_worker_variant "Running" ?_ (fun _ => rfl) (fun _ => rfl) worker
    rintro _ _ ⟨⟩
    rfl
  | Completed result =>
    refine notices_external "Completed" ?_ rfl (fun _ => rfl) (notices_json result)
    rintro _ _ ⟨⟩
    rfl
  | Failed error =>
    refine notices_external "Failed" ?_ rfl (fun _ => rfl) (notices_job_error error)
    rintro _ _ ⟨⟩
    rfl

@[simp] theorem notices_frame_status (s : FrameStatus) :
    FrameStatus.serde.Notices (map_floats float) s := by
  cases s with
  | RunCompleted response =>
    refine notices_external "RunCompleted" ?_ rfl (fun _ => rfl) (notices_frame_response response)
    rintro _ _ ⟨⟩
    rfl
  | Running state =>
    refine notices_external "Running" ?_ rfl (fun _ => rfl) (notices_job_state state)
    rintro _ _ ⟨⟩
    rfl
  | _ => exact notices_fixed rfl rfl

/-! ## The policy -/

theorem notices_reduce_policy (p : ReducePolicy) :
    ReducePolicy.serde.Notices (map_floats float) p := by
  cases p <;> exact notices_fixed rfl rfl

theorem notices_on_resume_policy (p : OnResumePolicy) :
    OnResumePolicy.serde.Notices (map_floats float) p := by
  cases p <;> exact notices_fixed rfl rfl

theorem notices_resume_policy (p : ResumePolicy) :
    ResumePolicy.serde.Notices (map_floats float) p := by
  cases p <;> exact notices_fixed rfl rfl

theorem notices_child_failure_policy (p : ChildFailurePolicy) :
    ChildFailurePolicy.serde.Notices (map_floats float) p := by
  cases p <;> exact notices_fixed rfl rfl

theorem notices_graph_start (graph_ref : GraphRef) (start : NodeId) :
    graph_start.Notices (map_floats float) (graph_ref, start) := by
  refine notices_record (Fields.notices_both (by decide) ?_ ?_)
  all_goals simp [Fields.field]

theorem notices_span_start (graph_ref : GraphRef) (join : NodeId) (branches : List Branch) :
    span_start.Notices (map_floats float) (graph_ref, join, branches) := by
  refine notices_record (Fields.notices_both (by decide) ?_
    (Fields.notices_both (by decide) ?_ ?_))
  all_goals simp [Fields.field]

theorem notices_on_start_policy (p : OnStartPolicy) :
    OnStartPolicy.serde.Notices (map_floats float) p := by
  cases p with
  | RunFrame => exact notices_fixed rfl rfl
  | AppendGraphThread graph_ref start =>
    refine notices_external (f := fun p : GraphRef × NodeId => OnStartPolicy.AppendGraphThread p.1 p.2)
      (a := (graph_ref, start)) "AppendGraphThread" ?_ rfl (fun _ => rfl)
        (notices_graph_start graph_ref start)
    rintro ⟨⟩ ⟨⟩ ⟨⟩
    rfl
  | AppendGraphSpan graph_ref join branches =>
    refine notices_external
      (f := fun p : GraphRef × NodeId × List Branch =>
        OnStartPolicy.AppendGraphSpan p.1 p.2.1 p.2.2)
      (a := (graph_ref, join, branches)) "AppendGraphSpan" ?_ rfl (fun _ => rfl)
        (notices_span_start graph_ref join branches)
    rintro ⟨_, _, _⟩ ⟨_, _, _⟩ ⟨⟩
    rfl
  | AppendGraphNode graph_ref start =>
    refine notices_external (f := fun p : GraphRef × NodeId => OnStartPolicy.AppendGraphNode p.1 p.2)
      (a := (graph_ref, start)) "AppendGraphNode" ?_ rfl (fun _ => rfl)
        (notices_graph_start graph_ref start)
    rintro ⟨⟩ ⟨⟩ ⟨⟩
    rfl

theorem notices_frame_policy (p : FramePolicy) :
    FramePolicy.serde.Notices (map_floats float) p := by
  refine notices_record (Fields.notices_iso (fun _ => rfl) (Fields.notices_both (by decide) ?_
    (Fields.notices_both (by decide) ?_ (Fields.notices_both (by decide) ?_
      (Fields.notices_both (by decide) ?_ ?_)))))
  · exact notices_field (notices_child_failure_policy _)
  · exact notices_field (notices_resume_policy _)
  · exact notices_field (notices_reduce_policy _)
  · exact notices_field (notices_on_resume_policy _)
  · exact notices_field (notices_on_start_policy _)

/-! ## What a frame is -/

theorem notices_frame_spec_ref (r : FrameSpecRef) :
    FrameSpecRef.serde.Notices (map_floats float) r := by
  cases r with
  | Graph graph_ref =>
    refine notices_external "Graph" ?_ rfl (fun _ => rfl) (notices_catalog_item_ref graph_ref)
    rintro _ _ ⟨⟩
    rfl
  | _ => exact notices_fixed rfl rfl

theorem notices_loop_model (system_prompt model_id : String) (allowed_tools : List String) :
    loop_model.Notices (map_floats float) (system_prompt, model_id, allowed_tools) := by
  refine notices_record (Fields.notices_both (by decide) ?_
    (Fields.notices_both (by decide) ?_ ?_))
  all_goals simp [Fields.field]

theorem notices_shell_mode (m : ShellMode) : ShellMode.serde.Notices (map_floats float) m := by
  cases m with
  | LoopModel system_prompt model_id allowed_tools =>
    refine notices_external
      (f := fun p : String × String × List String => ShellMode.LoopModel p.1 p.2.1 p.2.2)
      (a := (system_prompt, model_id, allowed_tools)) "LoopModel" ?_ rfl (fun _ => rfl)
        (notices_loop_model system_prompt model_id allowed_tools)
    rintro ⟨_, _, _⟩ ⟨_, _, _⟩ ⟨⟩
    rfl
  | Expert expert_id => exact notices_fixed rfl rfl

theorem notices_tool_call (id : ToolCallId) (name : ToolName) (parameters : Value) :
    tool_call.Notices (map_floats float) (id, name, parameters) := by
  refine notices_record (Fields.notices_both (by decide) ?_
    (Fields.notices_both (by decide) ?_ ?_))
  all_goals simp [Fields.field]

theorem notices_of_graph (graph_ref : GraphRef) : of_graph.Notices (map_floats float) graph_ref :=
  notices_record (Fields.notices_field (notices_catalog_item_ref graph_ref))

theorem notices_at_node (graph_ref : GraphRef) (node_id : NodeId) :
    at_node.Notices (map_floats float) (graph_ref, node_id) := by
  refine notices_record (Fields.notices_both (by decide) ?_ ?_)
  all_goals simp [Fields.field]

theorem notices_to_join (graph_ref : GraphRef) (join : NodeId) :
    to_join.Notices (map_floats float) (graph_ref, join) := by
  refine notices_record (Fields.notices_both (by decide) ?_ ?_)
  all_goals simp [Fields.field]

theorem notices_frame_kind (k : FrameKind) : FrameKind.serde.Notices (map_floats float) k := by
  cases k with
  | Hitl hitl_id => rintro v ⟨⟩
  | Void => exact notices_fixed rfl rfl
  | ExpertConsultation => exact notices_fixed rfl rfl
  | Shell mode =>
    refine notices_internal "kind" "Shell" ?_ (fun _ h => untagged_shell_mode h) rfl ?_
      (notices_shell_mode mode)
    · rintro _ _ ⟨⟩
      rfl
    · intro v v' h
      simp only [FrameKind.serde, h]
  | ToolCall id name parameters =>
    refine notices_internal (c := tool_call)
      (f := fun p : ToolCallId × ToolName × Value => FrameKind.ToolCall p.1 p.2.1 p.2.2)
      (a := (id, name, parameters)) "kind" "ToolCall" ?_
      (fun _ h => untagged_record (by decide) h) rfl ?_ (notices_tool_call id name parameters)
    · rintro ⟨_, _, _⟩ ⟨_, _, _⟩ ⟨⟩
      rfl
    · intro v v' h
      simp only [FrameKind.serde, h]
  | Graph graph_ref =>
    refine notices_internal (c := of_graph) "kind" "Graph" ?_
      (fun _ h => untagged_record (by decide) h) rfl ?_ (notices_of_graph graph_ref)
    · rintro _ _ ⟨⟩
      rfl
    · intro v v' h
      simp only [FrameKind.serde, h]
  | GraphNode graph_ref node_id =>
    refine notices_internal (c := at_node)
      (f := fun p : GraphRef × NodeId => FrameKind.GraphNode p.1 p.2) (a := (graph_ref, node_id))
      "kind" "GraphNode" ?_ (fun _ h => untagged_record (by decide) h) rfl ?_
        (notices_at_node graph_ref node_id)
    · rintro ⟨⟩ ⟨⟩ ⟨⟩
      rfl
    · intro v v' h
      simp only [FrameKind.serde, h]
  | GraphThread graph_ref =>
    refine notices_internal (c := of_graph) "kind" "GraphThread" ?_
      (fun _ h => untagged_record (by decide) h) rfl ?_ (notices_of_graph graph_ref)
    · rintro _ _ ⟨⟩
      rfl
    · intro v v' h
      simp only [FrameKind.serde, h]
  | GraphSpan graph_ref join =>
    refine notices_internal (c := to_join)
      (f := fun p : GraphRef × NodeId => FrameKind.GraphSpan p.1 p.2) (a := (graph_ref, join))
      "kind" "GraphSpan" ?_ (fun _ h => untagged_record (by decide) h) rfl ?_
        (notices_to_join graph_ref join)
    · rintro ⟨⟩ ⟨⟩ ⟨⟩
      rfl
    · intro v v' h
      simp only [FrameKind.serde, h]

/-! ## A frame -/

theorem notices_optional_field {α : Type} {name : String} {c : Serde α} {o : Option α}
    (hc : ∀ a, c.Notices (map_floats float) a) :
    (optional_field name c).Notices (map_floats float) o :=
  notices_field (notices_option fun a _ => hc a)

theorem notices_frame_node (n : FrameNode) : FrameNode.serde.Notices (map_floats float) n := by
  refine notices_record (Fields.notices_iso (fun _ => rfl) (Fields.notices_both (by decide) ?_ ?_))
  · -- the fields before `is_root`
    refine Fields.notices_both (by decide) (by simp [Fields.field])
      (Fields.notices_both (by decide) (by simp [Fields.field])
        (Fields.notices_both (by decide) (by simp [Fields.field])
          (Fields.notices_both (by decide) (notices_field (notices_frame_policy _))
            (Fields.notices_both (by decide) (by simp [Fields.field])
              (Fields.notices_both (by decide) (by simp [Fields.field])
                (Fields.notices_both (by decide) (notices_optional_field notices_snapshot_ref)
                  (Fields.notices_both (by decide) (by simp [Fields.field])
                    (Fields.notices_both (by decide) (notices_field (notices_frame_spec_ref _))
                      (Fields.notices_both (by decide) (notices_field (notices_frame_kind _))
                        (Fields.notices_both (by decide) (by simp) (by simp)))))))))))
  · refine Fields.notices_both (by decide) (by simp)
      (Fields.notices_both (by decide) (notices_optional_field notices_identifier)
        (Fields.notices_both (by decide) (notices_optional_field notices_identifier)
          (Fields.notices_both (by decide) (notices_optional_field notices_identifier)
            (by simp [Fields.field]))))

end marie.session.stored
