-- What the annuary knows, against what happened: the table reflects the
-- connections as long as no answer comes too late and no peer connects twice.
import Marie.Annuary.Connections

open Runs

namespace marie.annuary

open rpc (RpcError)

section

variable {capabilities : Capabilities} {local_node_id id : NodeId} {events : List Event}
  {event : Event} {s : State} {k : Nat}

/-! ## The events -/

theorem last_event_other (e : AnnuaryEvent) (h : e.node_id ≠ id) :
    last_event id (events ++ [.event e]) = last_event id events := by
  simp [last_event, h]

theorem last_event_own (e : AnnuaryEvent) (h : e.node_id = id) :
    last_event id (events ++ [.event e]) = some e := by
  simp [last_event, h]

theorem last_event_answered {answer : Except RpcError Capabilities} :
    last_event id (events ++ [.answered k answer]) = last_event id events := by
  simp [last_event]

/-! ## The table -/

theorem mem_keys : id ∈ s.keys ↔ ∃ tracker, (id, tracker) ∈ s.known.peers := by
  simp [State.keys]

theorem mem_peers_or_insert {annuary : Annuary} {tracker : PeerTracker} {x : NodeId × PeerTracker} :
    x ∈ (annuary.or_insert id tracker).peers ↔
      x ∈ annuary.peers ∨ (id ∉ annuary.peers.map Prod.fst ∧ x = (id, tracker)) := by
  unfold Annuary.or_insert
  split
  · rename_i hmem
    simp [hmem]
  · rename_i hmem
    simp [hmem]

theorem mem_keys_or_insert {annuary : Annuary} {tracker : PeerTracker} (node_id : NodeId) :
    node_id ∈ (annuary.or_insert id tracker).peers.map Prod.fst ↔
      node_id ∈ annuary.peers.map Prod.fst ∨ node_id = id := by
  unfold Annuary.or_insert
  split
  · rename_i hmem
    constructor
    · exact Or.inl
    · rintro (h | rfl)
      · exact h
      · exact hmem
  · simp

theorem nodup_or_insert {annuary : Annuary} {tracker : PeerTracker}
    (h : (annuary.peers.map Prod.fst).Nodup) :
    ((annuary.or_insert id tracker).peers.map Prod.fst).Nodup := by
  unfold Annuary.or_insert
  split
  · exact h
  · rename_i hmem
    rw [List.map_append, List.nodup_append]
    refine ⟨h, by simp, ?_⟩
    intro a ha b hb
    rw [List.mem_map] at hb
    obtain ⟨x, hx, rfl⟩ := hb
    rw [List.mem_singleton.mp hx]
    rintro rfl
    exact hmem ha

/-- No node is returned twice, in whatever order the table is walked, exactly if the table does not
hold the node itself. -/
theorem nodes_with_nodup_iff {annuary : Annuary} (h : (annuary.peers.map Prod.fst).Nodup) :
    (∀ walk, walk.Perm annuary.peers → ∀ capabilities,
      ({ annuary with peers := walk }.nodes_with capabilities).Nodup) ↔
      annuary.local_node_id ∉ annuary.peers.map Prod.fst := by
  constructor
  · intro hall hmem
    have hnodup := hall annuary.peers (List.Perm.refl _) ⟨0⟩
    have hnone : ∀ c : Capabilities, c.includes ⟨0⟩ = true := by
      intro c
      simp [Capabilities.includes]
    simp only [Annuary.nodes_with, hnone, List.filter_true, if_true] at hnodup
    have hdisjoint := (List.nodup_append.mp hnodup).2.2
    exact hdisjoint _ hmem _ (List.mem_singleton_self _) rfl
  · intro hmem walk hwalk capabilities
    have hkeys : (walk.map Prod.fst).Nodup := (hwalk.map Prod.fst).nodup_iff.mpr h
    have hfound : ((walk.filter fun x => x.2.capabilities.includes capabilities).map
        Prod.fst).Nodup := hkeys.sublist (List.filter_sublist.map Prod.fst)
    simp only [Annuary.nodes_with]
    split
    · rw [List.nodup_append]
      refine ⟨hfound, by simp, ?_⟩
      intro a ha b hb
      rw [List.mem_singleton.mp hb]
      rintro rfl
      apply hmem
      obtain ⟨x, hx, hlocal⟩ := List.mem_map.mp ha
      rw [← hlocal]
      exact List.mem_map_of_mem (hwalk.mem_iff.mp (List.mem_of_mem_filter hx))
    · exact hfound

/-! ## What holds of every run -/

/-- A node is in the table once, and one that is connected is there once its query was answered. -/
structure Known (s : State) (events : List Event) : Prop where
  nodup : s.keys.Nodup
  found : ∀ id k capabilities, last_event id events = some (.NodeConnected id) →
    s.last_connection id = some k → s.answer k = some (.ok capabilities) → id ∈ s.keys

theorem Known.step (h : Known s events) (event : Event) :
    Known (s.step event) (events ++ [event]) := by
  cases event with
  | event e =>
    cases e with
    | NodeConnected node_id =>
      refine ⟨h.nodup, ?_⟩
      intro id k capabilities hlast hconnection hanswer
      rw [State.answer_connected] at hanswer
      rw [State.last_connection_connected] at hconnection
      by_cases hid : node_id = id
      · -- Its new query has no answer yet.
        rw [if_pos hid] at hconnection
        cases hconnection
        simp [State.answer] at hanswer
      · rw [if_neg hid] at hconnection
        rw [last_event_other (.NodeConnected node_id) hid] at hlast
        exact h.found id k capabilities hlast hconnection hanswer
    | NodeDisconnected node_id =>
      constructor
      · exact h.nodup.sublist (List.filter_sublist.map Prod.fst)
      · intro id k capabilities hlast hconnection hanswer
        by_cases hid : node_id = id
        · rw [last_event_own (.NodeDisconnected node_id) hid] at hlast
          cases hlast
        · rw [last_event_other (.NodeDisconnected node_id) hid] at hlast
          obtain ⟨tracker, hmem⟩ :=
            mem_keys.mp (h.found id k capabilities hlast hconnection hanswer)
          apply mem_keys.mpr
          exact ⟨tracker, List.mem_filter.mpr ⟨hmem, by simpa using Ne.symm hid⟩⟩
  | answered k answer =>
    by_cases hk : ∃ id, s.queries[k]? = some ⟨id, none⟩
    · obtain ⟨id, hk⟩ := hk
      obtain ⟨hanswers, hknown⟩ := State.answered_pending answer hk
      constructor
      · rw [State.step, State.keys, hknown]
        cases answer with
        | ok capabilities => exact nodup_or_insert h.nodup
        | error error => exact h.nodup
      · intro id' k' capabilities' hlast hconnection hanswer
        rw [last_event_answered] at hlast
        rw [State.step] at hconnection hanswer
        rw [State.last_connection_answered] at hconnection
        rw [hanswers] at hanswer
        rw [State.step, State.keys, hknown]
        by_cases hk' : k' = k
        · subst hk'
          obtain ⟨query, hquery, rfl⟩ := State.node_of_last_connection hconnection
          rw [hk] at hquery
          cases hquery
          rw [if_pos rfl] at hanswer
          cases hanswer
          exact (mem_keys_or_insert _).mpr (.inr rfl)
        · rw [if_neg hk'] at hanswer
          have hold := h.found id' k' capabilities' hlast hconnection hanswer
          cases answer with
          | ok capabilities => exact (mem_keys_or_insert _).mpr (.inl hold)
          | error error => exact hold
    · rw [State.step, State.answered_done answer (by simpa using hk)]
      refine ⟨h.nodup, ?_⟩
      intro id k' capabilities hlast hconnection hanswer
      rw [last_event_answered] at hlast
      exact h.found id k' capabilities hlast hconnection hanswer

theorem known_run (capabilities : Capabilities) (local_node_id : NodeId) (events : List Event) :
    Known (State.run capabilities local_node_id events) events := by
  induction events using List.reverseRecOn with
  | nil =>
    constructor
    · simp [State.keys, State.run, State.new]
    · intro id k capabilities hlast
      simp [last_event] at hlast
  | append_singleton events event ih =>
    rw [run_concat]
    exact ih.step event

theorem local_step (event : Event) :
    (s.step event).known.local_node_id = s.known.local_node_id := by
  cases event with
  | event e => cases e <;> rfl
  | answered k answer =>
    by_cases hk : ∃ id, s.queries[k]? = some ⟨id, none⟩
    · obtain ⟨id, hk⟩ := hk
      rw [State.step, (State.answered_pending answer hk).2]
      cases answer with
      | ok capabilities =>
        dsimp only
        unfold Annuary.or_insert
        split <;> rfl
      | error error => rfl
    · rw [State.step, State.answered_done answer (by simpa using hk)]

theorem local_run : (State.run capabilities local_node_id events).known.local_node_id =
    local_node_id := by
  induction events using List.reverseRecOn with
  | nil => rfl
  | append_singleton events event ih => rw [run_concat, local_step, ih]

/-! ## The reflection -/

/-- A peer of the table is connected, and its capabilities are the answer to the query of its most
recent connection. -/
def Current (s : State) (events : List Event) (x : NodeId × PeerTracker) : Prop :=
  last_event x.1 events = some (.NodeConnected x.1) ∧
    ∃ k, s.last_connection x.1 = some k ∧ s.answer k = some (.ok x.2.capabilities)

theorem Current.step (h : Current s events (id, ⟨capabilities⟩)) (e : AnnuaryEvent)
    (hid : e.node_id ≠ id) :
    Current (s.step (.event e)) (events ++ [.event e]) (id, ⟨capabilities⟩) := by
  obtain ⟨hlast, k, hconnection, hanswer⟩ := h
  refine ⟨?_, k, ?_, ?_⟩
  · rw [last_event_other e hid]
    exact hlast
  · cases e with
    | NodeConnected node_id =>
      rw [State.last_connection_connected]
      exact (if_neg hid).trans hconnection
    | NodeDisconnected node_id => exact hconnection
  · cases e with
    | NodeConnected node_id =>
      rw [State.answer_connected]
      exact hanswer
    | NodeDisconnected node_id => exact hanswer

/-- An answer leaves the peers that are current so. -/
theorem Current.answered (h : Current s events (id, ⟨capabilities⟩))
    (answer : Except RpcError Capabilities) :
    Current (s.step (.answered k answer)) (events ++ [.answered k answer])
      (id, ⟨capabilities⟩) := by
  obtain ⟨hlast, k', hconnection, hanswer⟩ := h
  refine ⟨?_, k', ?_, ?_⟩
  · rw [last_event_answered]
    exact hlast
  · rw [State.step, State.last_connection_answered]
    exact hconnection
  · rw [State.step]
    by_cases hk : ∃ id, s.queries[k]? = some ⟨id, none⟩
    · obtain ⟨id', hk⟩ := hk
      rw [(State.answered_pending answer hk).1]
      have hne : k' ≠ k := by
        rintro rfl
        simp [State.answer, hk] at hanswer
      rw [if_neg hne]
      exact hanswer
    · rw [State.answered_done answer (by simpa using hk)]
      exact hanswer

/-- A peer that connects again is not current: its new query has no answer yet. -/
theorem current_connected_iff (hcurrent : ∀ x ∈ s.known.peers, Current s events x) :
    (∀ x ∈ s.known.peers, Current (s.step (.event (.NodeConnected id)))
      (events ++ [.event (.NodeConnected id)]) x) ↔ id ∉ s.keys := by
  constructor
  · intro h hmem
    obtain ⟨tracker, hx⟩ := mem_keys.mp hmem
    obtain ⟨-, k, hconnection, hanswer⟩ := h _ hx
    rw [State.last_connection_connected, if_pos rfl] at hconnection
    rw [State.answer_connected] at hanswer
    cases hconnection
    simp [State.answer] at hanswer
  · rintro hmem ⟨node_id, tracker⟩ hx
    apply (hcurrent _ hx).step (.NodeConnected id)
    rintro rfl
    exact hmem (mem_keys.mpr ⟨tracker, hx⟩)

/-- A peer that disconnects leaves the others current. -/
theorem current_disconnected (hcurrent : ∀ x ∈ s.known.peers, Current s events x) :
    ∀ x ∈ (s.known.on_node_disconnected id).peers,
      Current (s.step (.event (.NodeDisconnected id)))
        (events ++ [.event (.NodeDisconnected id)]) x := by
  rintro ⟨node_id, tracker⟩ hx
  obtain ⟨hx, hne⟩ := List.mem_filter.mp hx
  have hne' : node_id ≠ id := by simpa using hne
  exact (hcurrent _ hx).step (.NodeDisconnected id) hne'.symm

/-- A peer that enters the table is current exactly if the query that lets it in is that of its most
recent event. -/
theorem current_inserted_iff (hknown : Known s events)
    (hk : s.queries[k]? = some ⟨id, none⟩) (hmem : id ∉ s.keys) :
    Current (s.step (.answered k (.ok capabilities))) (events ++ [.answered k (.ok capabilities)])
      (id, ⟨capabilities⟩) ↔
      last_event id events = some (.NodeConnected id) ∧ s.last_connection id = some k := by
  unfold Current
  rw [last_event_answered, State.step, State.last_connection_answered]
  have hanswers := (State.answered_pending (.ok capabilities) hk).1
  constructor
  · rintro ⟨hlast, k', hconnection, hanswer⟩
    refine ⟨hlast, ?_⟩
    rw [hanswers] at hanswer
    by_cases hk' : k' = k
    · rw [hconnection, hk']
    · -- Its query was answered before, so it was let in before and has not left.
      rw [if_neg hk'] at hanswer
      exact absurd (hknown.found id k' capabilities hlast hconnection hanswer) hmem
  · rintro ⟨hlast, hconnection⟩
    refine ⟨hlast, k, hconnection, ?_⟩
    rw [hanswers, if_pos rfl]

/-- The annuary reflects the connections, and returns no node twice. -/
structure Reflects {Score : Type} [LinearOrder Score] (score : UInt64 → Score)
    (capabilities : Capabilities) (local_node_id : NodeId) (events : List Event) : Prop where
  current : ∀ x ∈ (State.run capabilities local_node_id events).known.peers,
    Current (State.run capabilities local_node_id events) events x
  nodes_with : ∀ walk, walk.Perm (State.run capabilities local_node_id events).known.peers →
    ∀ wanted, ({ (State.run capabilities local_node_id events).known with
      peers := walk }.nodes_with wanted).Nodup
  pick_top_n : ∀ walk, walk.Perm (State.run capabilities local_node_id events).known.peers →
    ∀ key wanted n, ({ (State.run capabilities local_node_id events).known with
      peers := walk }.pick_top_n score key wanted n).Nodup

/-- No peer of the table connects again, and a positive answer that finds its peer absent is that of
the peer's most recent event, a connection, and not of the node itself. -/
def Timely (capabilities : Capabilities) (local_node_id : NodeId) (before : List Event) :
    Event → Prop
  | .event (.NodeConnected node_id) =>
    node_id ∉ (State.run capabilities local_node_id before).keys
  | .answered k (.ok _) => ∀ node_id,
    (State.run capabilities local_node_id before).queries[k]? = some ⟨node_id, none⟩ →
    node_id ∉ (State.run capabilities local_node_id before).keys →
    last_event node_id before = some (.NodeConnected node_id) ∧
    (State.run capabilities local_node_id before).last_connection node_id = some k ∧
    node_id ≠ local_node_id
  | _ => True

theorem reflects_iff {Score : Type} [LinearOrder Score] {score : UInt64 → Score} :
    Reflects score capabilities local_node_id events ↔
      (∀ x ∈ (State.run capabilities local_node_id events).known.peers,
        Current (State.run capabilities local_node_id events) events x) ∧
      local_node_id ∉ (State.run capabilities local_node_id events).keys := by
  have hnodup := (known_run capabilities local_node_id events).nodup
  constructor
  · intro h
    have hlocal := (nodes_with_nodup_iff hnodup).mp h.nodes_with
    rw [local_run] at hlocal
    exact ⟨h.current, hlocal⟩
  · rintro ⟨hcurrent, hlocal⟩
    have hlocal' : (State.run capabilities local_node_id events).known.local_node_id ∉
        (State.run capabilities local_node_id events).keys := by
      rw [local_run]
      exact hlocal
    have hnodes := (nodes_with_nodup_iff hnodup).mpr hlocal'
    refine ⟨hcurrent, hnodes, ?_⟩
    intro walk hwalk key wanted n
    exact hrw.pick_top_n_nodup_iff.mpr (hnodes walk hwalk wanted) n

/-- The answer to a query that waits for one: the peer that it adds must be current, and not the
node itself. -/
theorem reflects_found {found : Capabilities}
    (hcurrent : ∀ x ∈ (State.run capabilities local_node_id events).known.peers,
      Current (State.run capabilities local_node_id events) events x)
    (hlocal : local_node_id ∉ (State.run capabilities local_node_id events).keys)
    (hk : (State.run capabilities local_node_id events).queries[k]? = some ⟨id, none⟩) :
    ((∀ x ∈
        ((State.run capabilities local_node_id events).step (.answered k (.ok found))).known.peers,
      Current ((State.run capabilities local_node_id events).step (.answered k (.ok found)))
        (events ++ [.answered k (.ok found)]) x) ∧
      local_node_id ∉
        ((State.run capabilities local_node_id events).step (.answered k (.ok found))).keys) ↔
      Timely capabilities local_node_id events (.answered k (.ok found)) := by
  have hknown := known_run capabilities local_node_id events
  rw [State.step, State.keys, (State.answered_pending (.ok found) hk).2]
  constructor
  · rintro ⟨hafter, hlocal'⟩ node_id hnode hmem
    rw [hk] at hnode
    cases hnode
    have hnew := hafter _ (mem_peers_or_insert.mpr (.inr ⟨hmem, rfl⟩))
    obtain ⟨hlast, hconnection⟩ := (current_inserted_iff hknown hk hmem).mp hnew
    refine ⟨hlast, hconnection, ?_⟩
    rintro rfl
    exact hlocal' ((mem_keys_or_insert _).mpr (.inr rfl))
  · intro htimely
    constructor
    · intro x hx
      rcases mem_peers_or_insert.mp hx with hold | ⟨hmem, rfl⟩
      · exact (hcurrent x hold).answered _
      · obtain ⟨hlast, hconnection, -⟩ := htimely id hk hmem
        exact (current_inserted_iff hknown hk hmem).mpr ⟨hlast, hconnection⟩
    · intro hmem
      rcases (mem_keys_or_insert _).mp hmem with hold | rfl
      · exact hlocal hold
      · exact (htimely _ hk hlocal).2.2 rfl

/-- One step of a run that has reflected the connections so far. -/
theorem reflects_step {Score : Type} [LinearOrder Score] {score : UInt64 → Score}
    (h : Reflects score capabilities local_node_id events) :
    Reflects score capabilities local_node_id (events ++ [event]) ↔
      Timely capabilities local_node_id events event := by
  obtain ⟨hcurrent, hlocal⟩ := reflects_iff.mp h
  rw [reflects_iff, run_concat]
  cases event with
  | event e =>
    cases e with
    | NodeConnected node_id =>
      constructor
      · rintro ⟨hafter, -⟩
        exact (current_connected_iff hcurrent).mp hafter
      · intro hmem
        exact ⟨(current_connected_iff hcurrent).mpr hmem, hlocal⟩
    | NodeDisconnected node_id =>
      refine iff_of_true ⟨current_disconnected hcurrent, ?_⟩ trivial
      intro hmem
      obtain ⟨tracker, hx⟩ := mem_keys.mp hmem
      exact hlocal (mem_keys.mpr ⟨tracker, List.mem_of_mem_filter hx⟩)
  | answered k answer =>
    by_cases hk : ∃ id, (State.run capabilities local_node_id events).queries[k]? = some ⟨id, none⟩
    · obtain ⟨id, hk⟩ := hk
      have hpeers := (State.answered_pending answer hk).2
      cases answer with
      | error error =>
        rw [State.step, State.keys, hpeers]
        exact iff_of_true ⟨fun x hx => (hcurrent x hx).answered _, hlocal⟩ trivial
      | ok found => exact reflects_found hcurrent hlocal hk
    · have hdone := State.answered_done answer (by simpa using hk)
      have htimely : Timely capabilities local_node_id events (.answered k answer) := by
        cases answer with
        | error error => trivial
        | ok found =>
          intro node_id hnode
          exact absurd ⟨node_id, hnode⟩ hk
      refine iff_of_true ⟨?_, ?_⟩ htimely
      · intro x hx
        rw [State.step, hdone] at hx
        exact (hcurrent x hx).answered answer
      · rw [State.step, hdone]
        exact hlocal

/-- The annuary reflects the connections at every moment exactly when every step is timely. -/
theorem annuary_reflects_iff {Score : Type} [LinearOrder Score] (score : UInt64 → Score)
    (capabilities : Capabilities) (local_node_id : NodeId) (events : List Event) :
    EveryState (Reflects score capabilities local_node_id) events ↔
      EveryStep (Timely capabilities local_node_id) events := by
  apply everyState_iff_everyStep (I := fun _ => True) trivial
  · apply reflects_iff.mpr
    constructor
    · intro x hx
      simp [State.run, State.new] at hx
    · simp [State.keys, State.run, State.new]
  · intro before step _ _ hbefore
    exact ⟨reflects_step hbefore, fun _ => trivial⟩

end

/-! ## A late answer -/

/-- A peer leaves before its query is answered. -/
def departed (peer : NodeId) : List Event :=
  [.event (.NodeConnected peer), .event (.NodeDisconnected peer), .answered 0 (.ok ⟨1⟩)]

/-- The answer brings the peer back into the table. -/
theorem a_departed_peer_returns :
    ¬ EveryState (Reflects UInt64.toNat ⟨0⟩ ⟨[1]⟩) (departed ⟨[2]⟩) := by
  intro h
  have hcurrent := (h _ (List.prefix_refl _)).current
  have hpeers : (State.run ⟨0⟩ ⟨[1]⟩ (departed ⟨[2]⟩)).known.peers = [(⟨[2]⟩, ⟨⟨1⟩⟩)] := rfl
  rw [hpeers] at hcurrent
  have hlast := (hcurrent _ (List.mem_singleton_self _)).1
  revert hlast
  decide

end marie.annuary
