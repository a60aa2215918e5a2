-- A request to a human and its answer. The binding of the request is a future
-- that is not awaited, the frame of an answer is looked up by the rows of the
-- store, and the handler of the answer ends in `todo!()`: no request makes the
-- round trip.
import Marie.Session.Handlers

namespace marie.session

open Program FrameTree

/-! ## The round trip -/

/-- A log where the entry at one position took a value. -/
def answered (index : Nat) (value : Value) (logs : List RunLog) : List RunLog :=
  logs.modify index fun l => { l with value := some value }

/-- The run of `f` asked for `hitl`, and its entry is the one at `index`. After
`on_frame_run_terminated` the request `hitl_id` is bound to both; after the `later` moves the
answer reaches that entry and nothing else, and the frame is ready. -/
structure HitlRoundTrip (ckp : SessionCheckpointer) (s : State) (f : FrameId) (hitl : Hitl)
    (index : Nat) (hitl_id : HitlId) (later : List SessionMove) (answers : Answers) : Prop where
  recorded : ∃ s1, exec (ckp.on_frame_run_terminated f) s = (.ok (), s1) ∧
    (hitl_id, hitl) ∈ s1.hitls ∧
    -- the request is bound to the frame and to its entry
    s1.frames.get_frame_id_by_hitl_id hitl_id = some f ∧
    (∃ n, s1.frames.find f = some n ∧ n.log_index_of_hitl hitl_id = some index) ∧
    -- the answer comes later
    ∃ s2, exec (SessionCheckpointer.on_hitl_response hitl_id answers) (ckp.run s1 later) =
        (.ok (), s2) ∧
      (∃ n n', (ckp.run s1 later).frames.find f = some n ∧ s2.frames.find f = some n' ∧
        n'.status = .Ready ∧ n'.logs = answered index (answers_to_value answers) n.logs) ∧
      ∀ x, x ≠ f → (s2.frames.find x).map (·.logs) =
        ((ckp.run s1 later).frames.find x).map (·.logs)

/-! ## The lookup -/

/-- The row of a frame that is bound to a request stays while the checkpointer runs. -/
theorem lookup_persists {t t' : FrameTree} {hitl_id : HitlId} {f : FrameId}
    (hstore : t'.store = t.store) (hnext : t.next ≤ t'.next)
    (h : t.get_frame_id_by_hitl_id hitl_id = some f) :
    t'.get_frame_id_by_hitl_id hitl_id ≠ none := by
  intro hnone
  have hmem := List.mem_of_find?_eq_some h
  have hrow := List.find?_some h
  obtain ⟨k, hk, rfl⟩ := List.mem_map.mp hmem
  have hk' : k < t'.next := Nat.lt_of_lt_of_le (List.mem_range.mp hk) hnext
  have hall := List.find?_eq_none.mp hnone ⟨k⟩ (List.mem_map.mpr ⟨k, List.mem_range.mpr hk', rfl⟩)
  rw [hstore] at hall
  exact hall hrow

/-- The store and the bound of the identifiers along a run. -/
theorem run_store (self : SessionCheckpointer) (s : State) (moves : List SessionMove) :
    (self.run s moves).frames.store = s.frames.store ∧
      s.frames.next ≤ (self.run s moves).frames.next := by
  have halong : ∀ (moves : List SessionMove) (s : State),
      self.Along (fun _ _ => True) s moves := by
    intro moves
    induction moves with
    | nil => exact fun _ => trivial
    | cons move moves ih =>
      intro s
      cases move with
      | event event => exact ⟨trivial, fun _ => ih _⟩
      | snapshots t => exact ih _
  refine self.run_keeps
    (I := fun s' => s'.frames.store = s.frames.store ∧ s.frames.next ≤ s'.frames.next)
    ?_ (fun _ _ h => h) s moves ⟨rfl, Nat.le_refl _⟩ (halong moves s)
  intro s' event hs' _
  have hstep := step_evolves self s' event
  exact ⟨hstep.store.trans hs'.1, Nat.le_trans hs'.2 hstep.bound⟩

/-! ## The answer -/

/-- The handler of an answer returns only when no frame is bound to the request. -/
theorem on_hitl_response_ok {s s' : State} {hitl_id : HitlId} {answers : Answers}
    (h : exec (SessionCheckpointer.on_hitl_response hitl_id answers) s = (.ok (), s')) :
    s.frames.get_frame_id_by_hitl_id hitl_id = none := by
  unfold SessionCheckpointer.on_hitl_response frame_id_bound_to_hitl_id at h
  rw [exec_bind_ok (exec_frames (exec_asks _ s.frames))] at h
  cases hf : s.frames.get_frame_id_by_hitl_id hitl_id with
  | none => rfl
  | some f =>
    simp only [hf] at h
    obtain ⟨o, s1, -, h⟩ := exec_bind_eq_ok h
    cases o with
    | none => cases h
    | some index =>
      obtain ⟨-, s2, -, h⟩ := exec_bind_eq_ok h
      obtain ⟨-, s3, -, h⟩ := exec_bind_eq_ok h
      cases h

/-- **No request makes the round trip**: where it is bound to its frame, the handler of the
answer panics. -/
theorem no_hitl_request_makes_the_round_trip (self : SessionCheckpointer) (s : State)
    (f : FrameId) (hitl : Hitl) (index : Nat) (hitl_id : HitlId) (later : List SessionMove)
    (answers : Answers) : ¬ HitlRoundTrip self s f hitl index hitl_id later answers := by
  rintro ⟨s1, -, -, hbound, -, s2, hok, -, -⟩
  obtain ⟨hstore, hnext⟩ := run_store self s1 later
  exact lookup_persists hstore hnext hbound (on_hitl_response_ok hok)

/-! ## A request that gets lost -/

/-- A node whose run has asked for a text. -/
def askingNode : State :=
  .new ⟨0⟩ (.ofNodes
    [{ FrameNode.new ⟨0⟩ { spec_ref := .Graph ⟨"g", 1⟩, data := .GraphNode ⟨"g", 1⟩ "a" } with
        status := .RunCompleted
          { frame_id := ⟨0⟩, updates := [], new_logs := [⟨0, .HitlLog .Text, none⟩]
            result := .RequestHitl .Text } }]) []

/-- The first request of a node is bound to no frame. -/
theorem the_request_of_a_node_is_not_bound :
    ¬ HitlRoundTrip (plain false) askingNode ⟨0⟩ .Text 0 ⟨0⟩ [] [("text", .Single "yes")] := by
  rintro ⟨s1, hrun, -, hbound, -⟩
  have hlookup : (exec ((plain false).on_frame_run_terminated ⟨0⟩)
      askingNode).2.frames.get_frame_id_by_hitl_id ⟨0⟩ = none := rfl
  rw [hrun, hbound] at hlookup
  cases hlookup

end marie.session
