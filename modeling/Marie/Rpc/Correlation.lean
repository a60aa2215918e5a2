-- A reply reaches the call that carries its id, and no other. The table only
-- ever holds the sender of a call under the id of that call, so a reply takes out
-- the sender of its own call or none at all.
import Marie.Rpc.Client

open Std (HashMap)

namespace marie.rpc

open post (PostError)

variable {R : Type}

/-! ## What was received -/

/-- What `send` returned to call `k`. -/
def sent_of (k : Nat) (events : List (Event R)) : Option (Except PostError Unit) :=
  events.findSome? fun
    | .sent j result => if j = k then some result else none
    | _ => none

/-- The first reply that carries the id. -/
def first_reply (id : RpcId) (events : List (Event R)) : Option (Except RpcError Value) :=
  events.findSome? fun
    | .message (.Reply reply) => if reply.id = id then some reply.result else none
    | _ => none

/-- The ids that the calls drew. -/
def ids (events : List (Event R)) : List RpcId :=
  events.filterMap fun
    | .call id _ _ => some id
    | _ => none

/-- How a call stands, by what `send` returned to it and the first reply to it. -/
inductive Stands (decode : Value → Except String R) : Option (Except PostError Unit) →
    Option (Except RpcError Value) → Progress → List (Except RpcError R) → Prop where
  | sending {reply} : Stands decode none reply .Sending []
  | failed {reply err} :
      Stands decode (some (.error err)) reply .Done [.error (.PostError err)]
  | waiting {reply} : Stands decode (some (.ok ())) reply .Waiting []
  | done {result} : Stands decode (some (.ok ())) (some result) .Done
      [RpcClient.decoded decode result]

/-- A call that no reply has reached stands the same once one has. -/
theorem Stands.replied {decode : Value → Except String R} {sent reply reply' progress results}
    (h : Stands decode sent reply progress results) (hreply : reply = none) :
    Stands decode sent reply' progress results := by
  cases h with
  | sending => exact .sending
  | failed => exact .failed
  | waiting => exact .waiting
  | done => simp at hreply

theorem Stands.not_panicked {decode : Value → Except String R} {sent reply progress results}
    (h : Stands decode sent reply progress results) : progress ≠ .Panicked := by
  cases h <;> simp

theorem Stands.once {decode : Value → Except String R} {sent reply progress results}
    (h : Stands decode sent reply progress results) : results.length ≤ 1 := by
  cases h <;> simp

theorem Stands.of_error {decode : Value → Except String R} {sent reply progress results err}
    (h : Stands decode sent reply progress results) (hsent : sent = some (.error err)) :
    results = [.error (.PostError err)] := by
  cases h with
  | failed => simp_all
  | sending => simp at hsent
  | waiting => simp at hsent
  | done => simp at hsent

theorem Stands.of_ok {decode : Value → Except String R} {sent reply progress results}
    (h : Stands decode sent reply progress results) (hsent : sent = some (.ok ())) :
    (progress = .Waiting ∧ results = []) ∨ (progress = .Done ∧
      ∃ result, reply = some result ∧ results = [RpcClient.decoded decode result]) := by
  cases h with
  | waiting => simp
  | done => simp
  | sending => simp at hsent
  | failed => simp at hsent

/-! ## The futures -/

namespace RpcClient

variable {s : RpcClient R} {j k : Nat} {id : RpcId}

theorem run_concat (events : List (Event R)) (event : Event R) :
    run (events ++ [event]) = (run events).step event := by
  simp [run]

/-- The id that call `k` drew. -/
def id_of (k : Nat) (s : RpcClient R) : Option RpcId := (s.calls[k]?).map fun c => c.call.id

theorem calls_go_on (progress : Progress) (ret : Option (Except RpcError R)) :
    (s.go_on j progress ret).calls[k]? =
      if j = k then (s.calls[k]?).map fun c => { c with progress } else s.calls[k]? := by
  unfold go_on
  rw [List.getElem?_modify]
  by_cases hjk : j = k
  · simp [hjk]
  · simp [hjk]

theorem results_go_on (progress : Progress) (ret : Option (Except RpcError R)) :
    (s.go_on j progress ret).results k =
      if j = k then s.results k ++ ret.toList else s.results k := by
  unfold go_on results
  by_cases hjk : j = k
  · cases ret <;> simp [hjk]
  · cases ret <;> simp [hjk]

/-- A sender that is put in the table leaves every call that has no sender under the same id. -/
theorem calls_track {tracker : RpcTracker} (h : s.tracked[id]? ≠ some ⟨k⟩) :
    (s.track id tracker).calls[k]? = s.calls[k]? := by
  unfold track
  cases hold : s.tracked[id]? with
  | none => rfl
  | some old =>
    have hne : old.tx ≠ k := by
      rintro rfl
      exact h hold
    simp [hne]

theorem calls_call {args : RpcCallArgs} {decode : Value → Except String R}
    (h : s.tracked[id]? ≠ some ⟨k⟩) :
    (s.call id args decode).calls[k]? = (s.calls ++
      [⟨⟨id, args.name, args.args⟩, args.destination, decode, .Empty, .Sending⟩])[k]? :=
  calls_track (s := { s with calls := s.calls ++ _ }) h

/-- A reply leaves every call whose sender it does not take. -/
theorem calls_handle_reply {reply : RpcReply} (h : s.tracked[reply.id]? ≠ some ⟨k⟩) :
    (s.handle_reply reply).calls[k]? = s.calls[k]? := by
  unfold handle_reply
  cases hold : s.tracked[reply.id]? with
  | none => rfl
  | some old =>
    have hne : old.tx ≠ k := by
      rintro rfl
      exact h hold
    simp [hne]

/-- Where `s'` is not `s`, the future of call `k` went on, and nothing else. -/
def GoesOn (k : Nat) (s s' : RpcClient R) : Prop :=
  s' = s ∨ k < s.calls.length ∧ ∃ progress ret, s' = s.go_on k progress ret

theorem goesOn_sent (result : Except PostError Unit) : GoesOn k s (s.sent k result) := by
  unfold sent
  split
  · rename_i c hc
    have hk := (List.getElem?_eq_some_iff.mp hc).1
    split
    · exact .inr ⟨hk, _, _, rfl⟩
    · exact .inr ⟨hk, _, _, rfl⟩
    · exact .inl rfl
  · exact .inl rfl

theorem goesOn_poll : GoesOn k s (s.poll k) := by
  unfold poll
  split
  · rename_i c hc
    have hk := (List.getElem?_eq_some_iff.mp hc).1
    split
    · exact .inr ⟨hk, _, _, rfl⟩
    · exact .inr ⟨hk, _, _, rfl⟩
    · exact .inl rfl
  · exact .inl rfl

theorem GoesOn.other {s' : RpcClient R} (h : GoesOn j s s') (hjk : j ≠ k) :
    s'.calls[k]? = s.calls[k]? ∧ s'.results k = s.results k := by
  rcases h with rfl | ⟨-, progress, ret, rfl⟩
  · exact ⟨rfl, rfl⟩
  · simp [calls_go_on, results_go_on, hjk]

theorem GoesOn.tracked {s' : RpcClient R} (h : GoesOn k s s') : s'.tracked = s.tracked := by
  rcases h with rfl | ⟨-, progress, ret, rfl⟩
  · rfl
  · rfl

end RpcClient

/-! ## The table -/

/-- Every sender of the table is that of a call under its own id. -/
def RpcClient.Owned (s : RpcClient R) : Prop :=
  ∀ (id : RpcId) (tracker : RpcTracker), s.tracked[id]? = some tracker →
    s.id_of tracker.tx = some id

namespace RpcClient

variable {s : RpcClient R} {k : Nat} {id : RpcId}

theorem tracked_go_on (progress : Progress) (ret : Option (Except RpcError R)) :
    (s.go_on k progress ret).tracked = s.tracked := rfl

theorem tracked_handle_reply (reply : RpcReply) :
    (s.handle_reply reply).tracked[id]? = if reply.id = id then none else s.tracked[id]? := by
  unfold handle_reply
  cases hold : s.tracked[reply.id]? with
  | none =>
    by_cases hid : reply.id = id
    · simp [← hid, hold]
    · simp [hid]
  | some old => simp [Std.HashMap.getElem?_erase]

/-- A step gives the table no sender but that of the call that begins. -/
theorem tracked_step {event : Event R} {tracker : RpcTracker}
    (h : (s.step event).tracked[id]? = some tracker) :
    s.tracked[id]? = some tracker ∨
      ∃ args decode, event = .call id args decode ∧ tracker = ⟨s.calls.length⟩ := by
  cases event with
  | call id' args decode =>
    simp only [step, call, track, HashMap.getElem?_insert] at h
    by_cases hid : id' = id
    · subst hid
      simp at h
      exact .inr ⟨args, decode, rfl, h.symm⟩
    · simp [hid] at h
      exact .inl h
  | sent k result =>
    rw [step, (goesOn_sent result).tracked] at h
    exact .inl h
  | poll k =>
    rw [step, goesOn_poll.tracked] at h
    exact .inl h
  | message msg =>
    cases msg with
    | Call call => exact .inl h
    | Ack ack => exact .inl h
    | Reply reply =>
      rw [step, tracked_handle_reply] at h
      by_cases hid : reply.id = id
      · simp [hid] at h
      · simp [hid] at h
        exact .inl h

theorem id_of_modify (i : Nat) (f : CallFuture R → CallFuture R) (hf : ∀ c, (f c).call = c.call) :
    ((s.calls.modify i f)[k]?).map (fun c => c.call.id) = s.id_of k := by
  unfold id_of
  rw [List.getElem?_modify]
  cases s.calls[k]? with
  | none => rfl
  | some c =>
    by_cases hik : i = k
    · simp [hik, hf]
    · simp [hik]

theorem id_of_go_on (j : Nat) (progress : Progress) (ret : Option (Except RpcError R)) :
    (s.go_on j progress ret).id_of k = s.id_of k := id_of_modify j _ fun _ => rfl

theorem GoesOn.id_of {j : Nat} {s' : RpcClient R} (h : GoesOn j s s') : s'.id_of k = s.id_of k := by
  rcases h with rfl | ⟨-, progress, ret, rfl⟩
  · rfl
  · exact id_of_go_on j progress ret

theorem id_of_track (tracker : RpcTracker) : (s.track id tracker).id_of k = s.id_of k := by
  unfold track
  cases s.tracked[id]? with
  | none => rfl
  | some old => exact id_of_modify old.tx _ fun _ => rfl

theorem id_of_call (args : RpcCallArgs) (decode : Value → Except String R) :
    (s.call id args decode).id_of k = if k = s.calls.length then some id else s.id_of k := by
  unfold call
  rw [id_of_track]
  unfold id_of
  by_cases hk : k = s.calls.length
  · simp [hk]
  · by_cases hlt : k < s.calls.length
    · simp [hk, List.getElem?_append_left hlt]
    · have hle : s.calls.length + 1 ≤ k := by omega
      rw [List.getElem?_eq_none (by simpa using hle), List.getElem?_eq_none (by omega)]
      simp [hk]

/-- A call keeps its id. -/
theorem id_of_step (event : Event R) (h : s.id_of k = some id) :
    (s.step event).id_of k = some id := by
  rw [← h]
  cases event with
  | call id' args decode =>
    have hk : k ≠ s.calls.length := by
      rintro rfl
      simp [id_of] at h
    simp [step, id_of_call, hk]
  | sent j result => exact (goesOn_sent result).id_of
  | poll j => exact goesOn_poll.id_of
  | message msg =>
    cases msg with
    | Call call => rfl
    | Ack ack => rfl
    | Reply reply =>
      rw [step, handle_reply]
      cases s.tracked[reply.id]? with
      | none => rfl
      | some tracker => exact id_of_modify tracker.tx _ fun _ => rfl

theorem owned_step (h : s.Owned) (event : Event R) : (s.step event).Owned := by
  intro id tracker htracked
  rcases tracked_step htracked with hold | ⟨args, decode, rfl, rfl⟩
  · exact id_of_step event (h id tracker hold)
  · simp [step, id_of_call]

theorem owned_run (events : List (Event R)) : (run events).Owned := by
  induction events using List.reverseRecOn with
  | nil =>
    intro id tracker htracked
    simp [run, new] at htracked
  | append_singleton events event ih =>
    rw [run_concat]
    exact owned_step ih event

theorem length_go_on (j : Nat) (progress : Progress) (ret : Option (Except RpcError R)) :
    (s.go_on j progress ret).calls.length = s.calls.length := by
  simp [go_on]

theorem GoesOn.length {j : Nat} {s' : RpcClient R} (h : GoesOn j s s') :
    s'.calls.length = s.calls.length := by
  rcases h with rfl | ⟨-, progress, ret, rfl⟩
  · rfl
  · exact length_go_on j progress ret

/-- Only calls that began return. -/
theorem returned_step (h : ∀ x ∈ s.returned, x.1 < s.calls.length) (event : Event R) :
    ∀ x ∈ (s.step event).returned, x.1 < (s.step event).calls.length := by
  have hgo : ∀ (j : Nat) (s' : RpcClient R), GoesOn j s s' →
      ∀ x ∈ s'.returned, x.1 < s'.calls.length := by
    rintro j s' (rfl | ⟨hj, progress, ret, rfl⟩) x hx
    · exact h x hx
    · rw [length_go_on]
      simp only [go_on, List.mem_append, List.mem_map] at hx
      rcases hx with hx | ⟨r, -, rfl⟩
      · exact h x hx
      · exact hj
  cases event with
  | call id args decode =>
    intro x hx
    have hlt := h x hx
    simp only [step, call, track]
    split <;> simp <;> omega
  | sent j result => exact hgo j _ (goesOn_sent result)
  | poll j => exact hgo j _ goesOn_poll
  | message msg =>
    cases msg with
    | Call call => exact h
    | Ack ack => exact h
    | Reply reply =>
      rw [step, handle_reply]
      split
      · exact h
      · simpa using h

theorem returned_run (events : List (Event R)) :
    ∀ x ∈ (run events).returned, x.1 < (run events).calls.length := by
  induction events using List.reverseRecOn with
  | nil => simp [run, new]
  | append_singleton events event ih =>
    rw [run_concat]
    exact returned_step ih event

/-! ## One call -/

/-- What the channel of a call holds, by the first reply to it. -/
def received : Option (Except RpcError Value) → Oneshot (Except RpcError Value)
  | none => .Empty
  | some result => .Sent result

/-- A call after the events since it began. -/
structure Follows (k : Nat) (id : RpcId) (decode : Value → Except String R)
    (after : List (Event R)) (s : RpcClient R) (c : CallFuture R) : Prop where
  calls : s.calls[k]? = some c
  id_eq : c.call.id = id
  decode_eq : c.decode = decode
  rx : c.rx = received (first_reply id after)
  stands : Stands decode (sent_of k after) (first_reply id after) c.progress (s.results k)
  tracked : s.tracked[id]? = if (first_reply id after).isSome then none else some ⟨k⟩

variable {decode : Value → Except String R} {after : List (Event R)} {c : CallFuture R}

theorem first_reply_concat (event : Event R) :
    first_reply id (after ++ [event]) = (first_reply id after).or (first_reply id [event]) := by
  simp [first_reply, List.findSome?_append]

/-- An event that brings nothing new to the call leaves it as it is. -/
theorem Follows.frame (h : Follows k id decode after s c) {event : Event R} {s' : RpcClient R}
    (hs : sent_of k (after ++ [event]) = sent_of k after)
    (hr : first_reply id (after ++ [event]) = first_reply id after)
    (hcalls : s'.calls[k]? = s.calls[k]?) (hresults : s'.results k = s.results k)
    (htracked : s'.tracked[id]? = s.tracked[id]?) :
    Follows k id decode (after ++ [event]) s' c := by
  constructor
  · rw [hcalls, h.calls]
  · exact h.id_eq
  · exact h.decode_eq
  · rw [hr, h.rx]
  · rw [hs, hr, hresults]
    exact h.stands
  · rw [hr, htracked, h.tracked]

/-- The future of the call goes on. -/
theorem Follows.go_on (h : Follows k id decode after s c) {event : Event R} {progress : Progress}
    {ret : Option (Except RpcError R)} (hreply : first_reply id [event] = none)
    (hstands : Stands decode (sent_of k (after ++ [event])) (first_reply id after) progress
      (s.results k ++ ret.toList)) :
    Follows k id decode (after ++ [event]) (s.go_on k progress ret) { c with progress } := by
  have hr : first_reply id (after ++ [event]) = first_reply id after := by
    simp [first_reply_concat, hreply]
  constructor
  · simp [calls_go_on, h.calls]
  · exact h.id_eq
  · exact h.decode_eq
  · rw [hr, h.rx]
  · rw [hr]
    simpa [results_go_on] using hstands
  · rw [hr, tracked_go_on, h.tracked]

/-- A call that begins. -/
theorem follows_call (args : RpcCallArgs) (howned : s.Owned)
    (hlt : ∀ x ∈ s.returned, x.1 < s.calls.length) :
    ∃ c, Follows s.calls.length id decode [] (s.call id args decode) c := by
  have hresults : s.results s.calls.length = [] := by
    simp only [results, List.map_eq_nil_iff, List.filter_eq_nil_iff]
    intro x hx
    have := hlt x hx
    simp
    omega
  have hnot : s.tracked[id]? ≠ some ⟨s.calls.length⟩ := by
    intro htracked
    have := howned id _ htracked
    simp [id_of] at this
  refine ⟨⟨⟨id, args.name, args.args⟩, args.destination, decode, .Empty, .Sending⟩, ?_⟩
  constructor
  · rw [calls_call hnot]
    simp
  · rfl
  · rfl
  · rfl
  · change Stands decode none none .Sending (s.results s.calls.length)
    rw [hresults]
    exact .sending
  · simp [call, track, first_reply]

/-- What `send` returns to the call: only the first counts. -/
theorem Follows.sent (h : Follows k id decode after s c) (result : Except PostError Unit) :
    ∃ c', Follows k id decode (after ++ [.sent k result]) (s.sent k result) c' := by
  have hs : sent_of k (after ++ [.sent k result]) = (sent_of k after).or (some result) := by
    simp [sent_of]
  have hstands := h.stands
  generalize hsent : sent_of k after = a at hstands
  generalize hreply : first_reply id after = b at hstands
  generalize hprogress : c.progress = p at hstands
  generalize hresults : s.results k = rs at hstands
  have hleave : a ≠ none → p ≠ .Sending →
      ∃ c', Follows k id decode (after ++ [.sent k result]) (s.sent k result) c' := by
    intro ha hp
    have hstep : s.sent k result = s := by
      unfold RpcClient.sent
      simp only [h.calls]
      split
      · exact absurd (hprogress.symm.trans ‹_›) hp
      · exact absurd (hprogress.symm.trans ‹_›) hp
      · rfl
    have hs' : sent_of k (after ++ [.sent k result]) = sent_of k after := by
      rw [hs, hsent]
      cases a <;> simp at ha ⊢
    have hr : first_reply id (after ++ [.sent k result]) = first_reply id after := by
      simp [first_reply]
    exact ⟨c, h.frame hs' hr (by rw [hstep]) (by rw [hstep]) (by rw [hstep])⟩
  cases hstands with
  | failed => exact hleave (by simp) (by simp)
  | waiting => exact hleave (by simp) (by simp)
  | done => exact hleave (by simp) (by simp)
  | sending =>
    cases result with
    | ok u =>
      have hstep : s.sent k (.ok u) = s.go_on k .Waiting none := by
        simp [RpcClient.sent, h.calls, hprogress]
      rw [hstep]
      refine ⟨_, h.go_on (by simp [first_reply]) ?_⟩
      rw [hs, hsent, hresults]
      exact .waiting
    | error err =>
      have hstep : s.sent k (.error err) = s.go_on k .Done (some (.error (.PostError err))) := by
        simp [RpcClient.sent, h.calls, hprogress]
      rw [hstep]
      refine ⟨_, h.go_on (by simp [first_reply]) ?_⟩
      rw [hs, hsent, hresults]
      exact .failed

/-- A poll of the call: it ends if its reply is there, and its channel is never closed. -/
theorem Follows.poll (h : Follows k id decode after s c) :
    ∃ c', Follows k id decode (after ++ [.poll k]) (s.poll k) c' := by
  have hs : sent_of k (after ++ [.poll k]) = sent_of k after := by simp [sent_of]
  have hr : first_reply id [(.poll k : Event R)] = none := by simp [first_reply]
  have hstay : s.poll k = s → ∃ c', Follows k id decode (after ++ [.poll k]) (s.poll k) c' := by
    intro hstep
    have hr' : first_reply id (after ++ [.poll k]) = first_reply id after := by simp [first_reply]
    exact ⟨c, h.frame hs hr' (by rw [hstep]) (by rw [hstep]) (by rw [hstep])⟩
  have hstands := h.stands
  have hrx := h.rx
  generalize hsent : sent_of k after = a at hstands
  generalize hreply : first_reply id after = b at hstands hrx
  generalize hprogress : c.progress = p at hstands
  generalize hresults : s.results k = rs at hstands
  cases hstands with
  | sending => exact hstay (by simp [RpcClient.poll, h.calls, hprogress])
  | failed => exact hstay (by simp [RpcClient.poll, h.calls, hprogress])
  | done => exact hstay (by simp [RpcClient.poll, h.calls, hprogress])
  | waiting =>
    cases b with
    | none => exact hstay (by simp [RpcClient.poll, h.calls, hprogress, hrx, received])
    | some result =>
      have hstep : s.poll k = s.go_on k .Done (some (decoded decode result)) := by
        simp [RpcClient.poll, h.calls, hprogress, hrx, received, h.decode_eq]
      rw [hstep]
      refine ⟨_, h.go_on hr ?_⟩
      rw [hs, hsent, hreply, hresults]
      exact .done

/-- A reply that the loop takes: the first to the call goes to its channel. -/
theorem Follows.handle_reply (h : Follows k id decode after s c) (howned : s.Owned)
    (reply : RpcReply) :
    ∃ c', Follows k id decode (after ++ [.message (.Reply reply)]) (s.handle_reply reply) c' := by
  have hresults : (s.handle_reply reply).results k = s.results k := by
    unfold RpcClient.handle_reply
    split <;> rfl
  have hs : sent_of k (after ++ [.message (.Reply reply)]) = sent_of k after := by simp [sent_of]
  by_cases hid : reply.id = id
  · subst hid
    have htracked := h.tracked
    cases hreply : first_reply reply.id after with
    | some result =>
      rw [hreply] at htracked
      have hstep : s.handle_reply reply = s := by simp [RpcClient.handle_reply, htracked]
      have hr : first_reply reply.id (after ++ [.message (.Reply reply)]) =
          first_reply reply.id after := by simp [first_reply_concat, hreply]
      exact ⟨c, h.frame hs hr (by rw [hstep]) (by rw [hstep]) (by rw [hstep])⟩
    | none =>
      rw [hreply] at htracked
      have hr : first_reply reply.id (after ++ [.message (.Reply reply)]) = some reply.result := by
        rw [first_reply_concat, hreply]
        simp [first_reply]
      have hrx : c.rx = .Empty := by rw [h.rx, hreply, received]
      refine ⟨{ c with rx := .Sent reply.result }, ?_⟩
      constructor
      · simp [RpcClient.handle_reply, htracked, h.calls, hrx, Oneshot.send]
      · exact h.id_eq
      · exact h.decode_eq
      · rw [hr, received]
      · rw [hr, hs, hresults]
        exact h.stands.replied hreply
      · simp [hr, tracked_handle_reply]
  · have hne : s.tracked[reply.id]? ≠ some ⟨k⟩ := by
      intro htracked
      have := howned reply.id _ htracked
      simp [id_of, h.calls, h.id_eq] at this
      exact hid this.symm
    refine ⟨c, h.frame hs ?_ (calls_handle_reply hne) hresults ?_⟩
    · simp [first_reply, hid]
    · simp [tracked_handle_reply, hid]

/-- A call that begins after the call, under another id. -/
theorem Follows.call (h : Follows k id decode after s c) (howned : s.Owned) {id' : RpcId}
    (args : RpcCallArgs) (decode' : Value → Except String R) (hid : id' ≠ id) :
    Follows k id decode (after ++ [.call id' args decode']) (s.call id' args decode') c := by
  have hne : s.tracked[id']? ≠ some ⟨k⟩ := by
    intro htracked
    have := howned id' _ htracked
    simp [id_of, h.calls, h.id_eq] at this
    exact hid this.symm
  have hk : k < s.calls.length := (List.getElem?_eq_some_iff.mp h.calls).1
  apply h.frame
  · simp [sent_of]
  · simp [first_reply]
  · rw [calls_call hne, List.getElem?_append_left hk]
  · rfl
  · simp [RpcClient.call, track, HashMap.getElem?_insert, hid]

theorem Follows.step (h : Follows k id decode after s c) (howned : s.Owned) {event : Event R}
    (hids : id ∉ ids [event]) :
    ∃ c', Follows k id decode (after ++ [event]) (s.step event) c' := by
  cases event with
  | call id' args decode' =>
    have hid : id' ≠ id := by
      rintro rfl
      simp [ids] at hids
    exact ⟨c, h.call howned args decode' hid⟩
  | sent j result =>
    by_cases hjk : j = k
    · subst hjk
      exact h.sent result
    · have hgoes : GoesOn j s (s.sent j result) := goesOn_sent result
      have hleft := hgoes.other hjk
      refine ⟨c, h.frame ?_ ?_ hleft.1 hleft.2 ?_⟩
      · simp [sent_of, hjk]
      · simp [first_reply]
      · rw [RpcClient.step, hgoes.tracked]
  | poll j =>
    by_cases hjk : j = k
    · subst hjk
      exact h.poll
    · have hgoes : GoesOn j s (s.poll j) := goesOn_poll
      have hleft := hgoes.other hjk
      refine ⟨c, h.frame ?_ ?_ hleft.1 hleft.2 ?_⟩
      · simp [sent_of]
      · simp [first_reply]
      · rw [RpcClient.step, hgoes.tracked]
  | message msg =>
    cases msg with
    | Reply reply => exact h.handle_reply howned reply
    | Ack ack => exact ⟨c, h.frame (by simp [sent_of]) (by simp [first_reply]) rfl rfl rfl⟩
    | Call call => exact ⟨c, h.frame (by simp [sent_of]) (by simp [first_reply]) rfl rfl rfl⟩

/-- A call whose id no later call draws, after any events. -/
theorem follows_run (before : List (Event R)) (args : RpcCallArgs)
    (hids : id ∉ ids after) :
    ∃ c, Follows (run before).calls.length id decode after
      (run (before ++ .call id args decode :: after)) c := by
  induction after using List.reverseRecOn with
  | nil =>
    rw [run_concat]
    exact follows_call args (owned_run before) (returned_run before)
  | append_singleton after event ih =>
    have happ : ids (after ++ [event]) = ids after ++ ids [event] := by simp [ids]
    rw [happ, List.mem_append, not_or] at hids
    obtain ⟨c, hc⟩ := ih hids.1
    rw [← List.cons_append, ← List.append_assoc, run_concat]
    exact hc.step (owned_run _) hids.2

/-! ## All calls -/

theorem length_track (tracker : RpcTracker) :
    (s.track id tracker).calls.length = s.calls.length := by
  unfold track
  cases s.tracked[id]? with
  | none => rfl
  | some old => simp

theorem length_step (event : Event R) :
    (s.step event).calls.length = s.calls.length + (ids [event]).length := by
  cases event with
  | call id args decode => simp [step, RpcClient.call, length_track, ids]
  | sent j result => exact (goesOn_sent result).length
  | poll j => exact goesOn_poll.length
  | message msg =>
    cases msg with
    | Call call => rfl
    | Ack ack => rfl
    | Reply reply =>
      rw [step, RpcClient.handle_reply]
      split <;> simp [ids]

/-- Every call began at some event of the run. -/
theorem call_began (events : List (Event R)) {k : Nat} (hk : k < (run events).calls.length) :
    ∃ before id args decode after, events = before ++ .call id args decode :: after ∧
      (run before).calls.length = k := by
  induction events using List.reverseRecOn with
  | nil => simp [run, new] at hk
  | append_singleton events event ih =>
    by_cases hlt : k < (run events).calls.length
    · obtain ⟨before, id, args, decode, after, rfl, hlength⟩ := ih hlt
      exact ⟨before, id, args, decode, after ++ [event], by simp, hlength⟩
    · rw [run_concat, length_step] at hk
      cases event with
      | call id args decode =>
        refine ⟨events, id, args, decode, [], rfl, ?_⟩
        simp [ids] at hk
        omega
      | sent j result => simp [ids] at hk; omega
      | poll j => simp [ids] at hk; omega
      | message msg => simp [ids] at hk; omega

/-- Where the ids differ, no later event draws the id of a call. -/
theorem id_not_drawn_again {events before : List (Event R)} {args : RpcCallArgs}
    (hids : (ids events).Nodup) (heq : events = before ++ .call id args decode :: after) :
    id ∉ ids after := by
  have happ : ids events = ids before ++ id :: ids after := by simp [heq, ids]
  rw [happ] at hids
  exact (List.nodup_cons.mp (List.nodup_append.mp hids).2.1).1

/-- A sender is in the table only while no reply with its id has come. -/
theorem tracked_waits {events : List (Event R)} (hids : (ids events).Nodup) {tracker : RpcTracker}
    (htracked : (run events).tracked[id]? = some tracker) :
    ∃ before args decode after, events = before ++ .call id args decode :: after ∧
      first_reply id after = none := by
  have hid := owned_run events id tracker htracked
  have hk : tracker.tx < (run events).calls.length := by
    by_contra hk
    simp [id_of, List.getElem?_eq_none (Nat.le_of_not_lt hk)] at hid
  obtain ⟨before, id', args, decode, after, heq, hlength⟩ := call_began events hk
  obtain ⟨c, hc⟩ := follows_run before args (id_not_drawn_again hids heq)
  rw [← heq, hlength] at hc
  obtain rfl : id' = id := by simpa [id_of, hc.calls, hc.id_eq] using hid
  refine ⟨before, args, decode, after, heq, ?_⟩
  by_contra hreply
  have hgone := hc.tracked
  rw [htracked, if_pos (Option.isSome_iff_ne_none.mpr hreply)] at hgone
  simp at hgone

end RpcClient

/-! ## The correlation -/

/-- What call `k` sees of the events since it began. -/
structure Correlated (k : Nat) (id : RpcId) (decode : Value → Except String R)
    (after : List (Event R)) (s : RpcClient R) : Prop where
  once : (s.results k).length ≤ 1
  failed : ∀ err, sent_of k after = some (.error err) →
    s.results k = [.error (.PostError err)]
  completes : sent_of k after = some (.ok ()) → s.results k = [] ∨
    ∃ result, first_reply id after = some result ∧ s.results k = [RpcClient.decoded decode result]
  /-- Without a reply it waits, and its sender is in the table under its own id. -/
  waits : sent_of k after = some (.ok ()) → first_reply id after = none →
    s.results k = [] ∧ (s.calls[k]?).map (fun c => (c.progress, c.rx)) = some (.Waiting, .Empty) ∧
      s.tracked[id]? = some ⟨k⟩
  /-- With a reply it completes once it is polled. -/
  wakes : ∀ result, sent_of k after = some (.ok ()) → first_reply id after = some result →
    (s.step (.poll k)).results k = [RpcClient.decoded decode result]

theorem RpcClient.Follows.correlated {k : Nat} {id : RpcId} {decode : Value → Except String R}
    {after : List (Event R)} {s : RpcClient R} {c : CallFuture R}
    (h : Follows k id decode after s c) : Correlated k id decode after s := by
  have hstands := h.stands
  constructor
  · exact hstands.once
  · intro err hsent
    exact hstands.of_error hsent
  · intro hsent
    rcases hstands.of_ok hsent with hwaiting | hdone
    · exact .inl hwaiting.2
    · exact .inr hdone.2
  · intro hsent hreply
    rcases hstands.of_ok hsent with ⟨hprogress, hresults⟩ | ⟨-, result, hresult, -⟩
    · refine ⟨hresults, ?_, ?_⟩
      · simp [h.calls, hprogress, h.rx, hreply, received]
      · simp [h.tracked, hreply]
    · simp [hreply] at hresult
  · intro result hsent hreply
    rcases hstands.of_ok hsent with ⟨hprogress, hresults⟩ | ⟨hprogress, result', hresult, hresults⟩
    · have hstep : s.step (.poll k) = s.go_on k .Done (some (decoded decode result)) := by
        simp [RpcClient.step, RpcClient.poll, h.calls, hprogress, h.rx, hreply, received,
          h.decode_eq]
      simp [hstep, results_go_on, hresults]
    · have hstep : s.step (.poll k) = s := by
        simp [RpcClient.step, RpcClient.poll, h.calls, hprogress]
      rw [hreply] at hresult
      cases hresult
      rw [hstep, hresults]

/-- Each call gets the first reply to its own id, once, and nothing else reaches it. -/
theorem replies_reach_their_call (events : List (Event R)) (hids : (ids events).Nodup) :
    (∀ before id args decode after, events = before ++ .call id args decode :: after →
      Correlated (RpcClient.run before).calls.length id decode after (RpcClient.run events)) ∧
    (∀ c ∈ (RpcClient.run events).calls, c.progress ≠ .Panicked) ∧
    (∀ ack, RpcClient.run (events ++ [.message (.Ack ack)]) = RpcClient.run events) ∧
    ∀ reply : RpcReply, (∀ before args decode after,
        events = before ++ .call reply.id args decode :: after →
          (first_reply reply.id after).isSome) →
      RpcClient.run (events ++ [.message (.Reply reply)]) = RpcClient.run events := by
  refine ⟨?_, ?_, ?_, ?_⟩
  · intro before id args decode after heq
    obtain ⟨c, hc⟩ := RpcClient.follows_run before args (RpcClient.id_not_drawn_again hids heq)
    rw [heq]
    exact hc.correlated
  · intro c hc
    obtain ⟨k, hk, rfl⟩ := List.getElem_of_mem hc
    obtain ⟨before, id, args, decode, after, heq, hlength⟩ := RpcClient.call_began events hk
    obtain ⟨c, hfollows⟩ :=
      RpcClient.follows_run before args (RpcClient.id_not_drawn_again hids heq)
    rw [← heq, hlength] at hfollows
    have hcalls := hfollows.calls
    rw [List.getElem?_eq_getElem hk] at hcalls
    cases hcalls
    exact hfollows.stands.not_panicked
  · intro ack
    rw [RpcClient.run_concat]
    rfl
  · intro reply hreplied
    rw [RpcClient.run_concat]
    have htracked : (RpcClient.run events).tracked[reply.id]? = none := by
      by_contra hne
      obtain ⟨tracker, htracked⟩ := Option.ne_none_iff_exists'.mp hne
      obtain ⟨before, args, decode, after, heq, hreply⟩ := RpcClient.tracked_waits hids htracked
      have := hreplied before args decode after heq
      simp [hreply] at this
    simp [RpcClient.step, RpcClient.handle_reply, htracked]

/-- Two calls: the reply to the first comes before its `send` has returned, and twice. -/
def two_calls : List (Event Value) :=
  let args : RpcCallArgs := ⟨"echo", .Null, ⟨[]⟩⟩
  [.call ⟨1⟩ args .ok, .message (.Reply ⟨⟨1⟩, .ok (.Bool true)⟩), .call ⟨2⟩ args .ok,
    .sent 0 (.ok ()), .message (.Reply ⟨⟨1⟩, .error .TimeOut⟩), .poll 0, .sent 1 (.ok ())]

theorem two_calls_get_their_replies :
    (∀ before id args decode after, two_calls = before ++ .call id args decode :: after →
      Correlated (RpcClient.run before).calls.length id decode after (RpcClient.run two_calls)) ∧
    (∀ c ∈ (RpcClient.run two_calls).calls, c.progress ≠ .Panicked) ∧
    (∀ ack, RpcClient.run (two_calls ++ [.message (.Ack ack)]) = RpcClient.run two_calls) ∧
    ∀ reply : RpcReply, (∀ before args decode after,
        two_calls = before ++ .call reply.id args decode :: after →
          (first_reply reply.id after).isSome) →
      RpcClient.run (two_calls ++ [.message (.Reply reply)]) = RpcClient.run two_calls :=
  replies_reach_their_call two_calls (by decide)

end marie.rpc
