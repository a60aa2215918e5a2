-- What the streams of the bus give. A stream gives nothing but what was emitted to its topic since
-- it was made, and what the network brought of it: in order, and no envelope twice. It may miss
-- some, when it reads too slowly.
import Marie.Events.Bus

open Broadcast

namespace marie.events

open post (Bytes)

variable {ε V PeerId : Type} {from_slice : ε → Bytes → Option (EventEnvelope V)}
  {bus : EventBus ε V PeerId} {s : EventSubscription ε V} {i : Nat} {event : ε} {topic : String}
  {events : List (Event ε PeerId)}

namespace EventSubscription

/-- What the local half of the stream is due for a step. -/
def due_emitted (from_slice : ε → Bytes → Option (EventEnvelope V))
    (self : EventSubscription ε V) : Event ε PeerId → Option (EventEnvelope V)
  | .emit_envelope env => self.takes from_slice env
  | _ => none

/-- What the half on the network is due for a step. -/
def due_brought (from_slice : ε → Bytes → Option (EventEnvelope V))
    (self : EventSubscription ε V) : Event ε PeerId → Option (EventEnvelope V)
  | .network_event event => self.takes_event from_slice event
  | _ => none

end EventSubscription

/-- The subscription `i` is that of `event` to `topic`, and what the halves of its stream gave, and
what waits for them, is in order of what they were due for the steps. -/
def InOrder (from_slice : ε → Bytes → Option (EventEnvelope V)) (i : Nat) (event : ε)
    (topic : String) (events : List (Event ε PeerId)) (bus : EventBus ε V PeerId) : Prop :=
  ∃ s, bus.subscriptions[i]? = some s ∧ s.event = event ∧ s.topic = topic ∧
    Reads (s.takes from_slice) (bus.channels s.channel)
      (events.filterMap (s.due_emitted from_slice)) s.local_stream ∧
    Reads (s.takes_event from_slice) bus.network
      (events.filterMap (s.due_brought from_slice)) s.network_stream

/-- What a stream is due only grows. -/
theorem reads_mono {α β : Type} {capacity : Nat} {pick : α → Option β} {channel : Channel α capacity}
    {due : List β} {reader : Reader β} (h : Reads pick channel due reader) (more : List β) :
    Reads pick channel (due ++ more) reader :=
  ⟨h.next, h.got.trans (List.sublist_append_left _ _)⟩

/-- A subscription is changed in what its stream gave alone, and the halves keep what they gave in
order. -/
theorem InOrder.modify (h : InOrder from_slice i event topic events bus) (k : Nat)
    {f : EventSubscription ε V → EventSubscription ε V}
    (hsame : ∀ s, (f s).event = s.event ∧ (f s).topic = s.topic ∧ (f s).channel = s.channel)
    (hlocal : ∀ s due, Reads (s.takes from_slice) (bus.channels s.channel) due s.local_stream →
      Reads (s.takes from_slice) (bus.channels s.channel) due (f s).local_stream)
    (hnetwork : ∀ s due, Reads (s.takes_event from_slice) bus.network due s.network_stream →
      Reads (s.takes_event from_slice) bus.network due (f s).network_stream) :
    InOrder from_slice i event topic events
      { bus with subscriptions := bus.subscriptions.modify k f } := by
  obtain ⟨s, hs, rfl, rfl, hemitted, hbrought⟩ := h
  by_cases hk : k = i
  · subst hk
    obtain ⟨hevent, htopic, hchannel⟩ := hsame s
    have htakes : (f s).takes from_slice = s.takes from_slice := by
      funext env
      simp only [EventSubscription.takes, hevent, htopic]
    have htakes_event : ((f s).takes_event from_slice : NetworkEvent PeerId → _) =
        s.takes_event from_slice := by
      funext e
      cases e <;> simp only [EventSubscription.takes_event, htakes, htopic]
    have hdue : ((f s).due_emitted from_slice : Event ε PeerId → _) = s.due_emitted from_slice := by
      funext e
      cases e <;> simp only [EventSubscription.due_emitted, htakes]
    have hdue_brought : ((f s).due_brought from_slice : Event ε PeerId → _) =
        s.due_brought from_slice := by
      funext e
      cases e <;> simp only [EventSubscription.due_brought, htakes_event]
    refine ⟨f s, by simp [hs], hevent, htopic, ?_, ?_⟩
    · rw [htakes, hdue, hchannel]
      exact hlocal s _ hemitted
    · rw [htakes_event, hdue_brought]
      exact hnetwork s _ hbrought
  · exact ⟨s, by simp [hk, hs], rfl, rfl, hemitted, hbrought⟩

theorem InOrder.step (h : InOrder from_slice i event topic events bus) (e : Event ε PeerId) :
    InOrder from_slice i event topic (events ++ [e]) (bus.step from_slice e) := by
  -- a step that sends nothing to the subscription
  have hmore : InOrder from_slice i event topic (events ++ [e]) bus := by
    obtain ⟨s, hs, hevent, htopic, hemitted, hbrought⟩ := h
    refine ⟨s, hs, hevent, htopic, ?_, ?_⟩
    · rw [List.filterMap_append]
      exact reads_mono hemitted _
    · rw [List.filterMap_append]
      exact reads_mono hbrought _
  cases e with
  | stream_events other_event other_topic =>
    obtain ⟨s, hs, hreads⟩ := hmore
    refine ⟨s, ?_, hreads⟩
    have hi := (List.getElem?_eq_some_iff.mp hs).1
    simp only [EventBus.step, EventBus.stream_events, EventBus.inc_sub]
    rw [List.getElem?_append_left hi, hs]
  | drop k =>
    exact hmore.modify k (fun _ => ⟨rfl, rfl, rfl⟩) (fun _ _ h => h) fun _ _ h => h
  | emit_envelope env =>
    simp only [EventBus.step, EventBus.emit_envelope]
    split
    · rename_i channel _
      obtain ⟨s, hs, hevent, htopic, hemitted, -⟩ := h
      obtain ⟨s', hs', -, -, hmore, hbrought⟩ := hmore
      obtain rfl := Option.some.inj (hs.symm.trans hs')
      refine ⟨s, hs, hevent, htopic, ?_, hbrought⟩
      by_cases hchannel : s.channel = channel
      · simp only [hchannel, if_true]
        rw [hchannel] at hemitted
        rw [List.filterMap_append]
        have hsent := hemitted.send env
        cases htakes : s.takes from_slice env <;>
          simpa [EventSubscription.due_emitted, htakes] using hsent
      · simpa only [if_neg hchannel] using hmore
    · exact hmore
  | network_event e =>
    simp only [EventBus.step, EventBus.network_event]
    split
    · obtain ⟨s, hs, hevent, htopic, -, hbrought⟩ := h
      obtain ⟨s', hs', -, -, hemitted, -⟩ := hmore
      obtain rfl := Option.some.inj (hs.symm.trans hs')
      refine ⟨s, hs, hevent, htopic, hemitted, ?_⟩
      rw [List.filterMap_append]
      have hsent := hbrought.send e
      cases htakes : s.takes_event from_slice e <;>
        simpa [EventSubscription.due_brought, htakes] using hsent
    · exact hmore
  | poll_local k =>
    refine hmore.modify k (fun s => ?_) (fun s _ hreads => ?_) fun s _ hreads => ?_
    · split <;> exact ⟨rfl, rfl, rfl⟩
    · split
      · exact hreads.poll
      · exact hreads
    · split <;> exact hreads
  | poll_network k =>
    refine hmore.modify k (fun s => ?_) (fun s _ hreads => ?_) fun s _ hreads => ?_
    · split <;> exact ⟨rfl, rfl, rfl⟩
    · split <;> exact hreads
    · split
      · exact hreads.poll
      · exact hreads

/-- A subscription that was just made was due nothing yet. -/
theorem inOrder_stream_events (event : ε) (topic : String) :
    InOrder from_slice bus.subscriptions.length event topic []
      (bus.stream_events event topic) := by
  unfold InOrder EventBus.stream_events EventBus.inc_sub
  rw [List.getElem?_concat_length]
  exact ⟨_, rfl, rfl, rfl, reads_subscribe, reads_subscribe⟩

theorem InOrder.run (h : InOrder from_slice i event topic events bus)
    (later : List (Event ε PeerId)) :
    InOrder from_slice i event topic (events ++ later) (bus.runFrom from_slice later) := by
  induction later generalizing bus events with
  | nil =>
    rw [List.append_nil]
    exact h
  | cons e later ih =>
    have hnext := ih (h.step e)
    rwa [List.append_assoc, List.singleton_append] at hnext

/-- **A stream keeps the order.** Whatever happens before a subscription and after, the local half of
its stream gives some of the envelopes that were emitted to its topic after it was made and that are
read as events of its type, in the order they were emitted in and none twice, and the half on the
network so of what the network had to bring. -/
theorem streams_keep_the_order (from_slice : ε → Bytes → Option (EventEnvelope V)) (network : Bool)
    (before : List (Event ε PeerId)) (event : ε) (topic : String)
    (after : List (Event ε PeerId)) :
    ∃ s, (EventBus.run from_slice network (before ++ .stream_events event topic :: after)
        ).subscriptions[(EventBus.run from_slice network before).subscriptions.length]? = some s ∧
      s.event = event ∧ s.topic = topic ∧
      s.local_stream.got.Sublist (after.filterMap (s.due_emitted from_slice)) ∧
      s.network_stream.got.Sublist (after.filterMap (s.due_brought from_slice)) := by
  have hmade : InOrder from_slice (EventBus.run from_slice network before).subscriptions.length event
      topic [] ((EventBus.run from_slice network before).stream_events event topic) :=
    inOrder_stream_events event topic
  obtain ⟨s, hs, hevent, htopic, hemitted, hbrought⟩ := hmade.run after
  refine ⟨s, ?_, hevent, htopic, (List.sublist_append_left _ _).trans hemitted.got,
    (List.sublist_append_left _ _).trans hbrought.got⟩
  rw [← hs]
  simp only [EventBus.run, EventBus.runFrom, List.foldl_append, List.foldl_cons, EventBus.step]

end marie.events
