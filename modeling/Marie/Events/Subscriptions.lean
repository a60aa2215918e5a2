-- The subscriptions are counted until one is dropped: nothing takes a dropped
-- subscription off the counter, so its topic stays subscribed.
import Marie.Events.Bus
import Marie.Lib.Runs

open Std (HashMap)
open Runs

namespace marie.events

open post (Bytes)

variable {ε V PeerId : Type} {from_slice : ε → Bytes → Option (EventEnvelope V)}
  {bus bus' : EventBus ε V PeerId} {router : EventRouter} {event : ε} {topic : String}
  {env : EventEnvelope Bytes}

/-! ## The router -/

theorem channel_topic (topic : String) (router : EventRouter) :
    (router.channel topic).2.topics[topic]? = some (router.channel topic).1 := by
  unfold EventRouter.channel
  split
  · rename_i channel h
    exact h
  · simp

theorem channel_other {other : String} (h : topic ≠ other) :
    (router.channel topic).2.topics[other]? = router.topics[other]? := by
  unfold EventRouter.channel
  split
  · rfl
  · simp [HashMap.getElem?_insert, h]

/-- A topic keeps its channel. -/
theorem channel_keeps {other : String} {channel : Nat} (h : router.topics[other]? = some channel) :
    (router.channel topic).2.topics[other]? = some channel := by
  unfold EventRouter.channel
  split
  · exact h
  · rename_i hnone
    have hne : topic ≠ other := by
      rintro rfl
      simp [hnone] at h
    simp [HashMap.getElem?_insert, hne, h]

theorem channel_gossip : (router.channel topic).2.gossip = router.gossip := by
  unfold EventRouter.channel
  split <;> rfl

theorem subscribed_subscribe : (router.subscribe topic).Subscribed topic := by
  constructor
  · have h := channel_topic topic router
    simp [EventRouter.subscribe, h]
  · intro gossip hgossip
    simp only [EventRouter.subscribe, channel_gossip, Option.map_eq_some_iff] at hgossip
    obtain ⟨old, -, rfl⟩ := hgossip
    exact List.mem_insert_self

theorem subscribed_subscribe_other {other : String} (h : topic ≠ other) :
    (router.subscribe topic).Subscribed other ↔ router.Subscribed other := by
  unfold EventRouter.Subscribed EventRouter.subscribe
  simp only [channel_other h, channel_gossip]
  cases hgossip : router.gossip with
  | none => simp
  | some gossip => simp [List.mem_insert_iff, Ne.symm h]

theorem subscribed_channel (h : router.Subscribed topic) (other : String) :
    (router.channel other).2.Subscribed topic := by
  obtain ⟨hsome, hgossip⟩ := h
  obtain ⟨channel, hchannel⟩ := Option.isSome_iff_exists.mp hsome
  constructor
  · rw [channel_keeps hchannel]
    rfl
  · rw [channel_gossip]
    exact hgossip

theorem subscribed_channel_other {other : String} (h : topic ≠ other) :
    (router.channel topic).2.Subscribed other ↔ router.Subscribed other := by
  unfold EventRouter.Subscribed
  rw [channel_other h, channel_gossip]

/-! ## The counter -/

theorem counter_stream_events (event : ε) (topic other : String) :
    (bus.stream_events event topic).counter.getD other 0 =
      if topic = other then (bus.counter.getD topic 0 + 1) % 2 ^ 32
      else bus.counter.getD other 0 := by
  simp only [EventBus.stream_events, EventBus.inc_sub, HashMap.getD_insert, beq_iff_eq]

theorem live_stream_events (event : ε) (topic other : String) :
    (bus.stream_events event topic).live other =
      bus.live other + if topic = other then 1 else 0 := by
  simp [EventBus.stream_events, EventBus.inc_sub, EventBus.live, List.countP_append,
    List.countP_singleton]

/-! ## The channels that a stream reads -/

/-- Every subscription reads the channel of its topic. -/
def Linked (bus : EventBus ε V PeerId) : Prop :=
  ∀ s ∈ bus.subscriptions, bus.router.topics[s.topic]? = some s.channel

def AllAlive (bus : EventBus ε V PeerId) : Prop := ∀ s ∈ bus.subscriptions, s.alive = true

/-- What the bus emits to the topic of the subscription, and what its network brings of it, is sent
on the channels that its stream reads. -/
def Reached (bus : EventBus ε V PeerId) (s : EventSubscription ε V) : Prop :=
  (∀ env, env.topic = s.topic →
    (bus.emit_envelope env).channels s.channel = (bus.channels s.channel).send env) ∧
  (bus.router.gossip.isSome → ∀ id data source,
    (bus.network_event (.EventReceived id s.topic data source)).network =
      bus.network.send (.EventReceived id s.topic data source))

theorem reached {s : EventSubscription ε V} (hlinked : Linked bus)
    (hsubscribed : bus.router.Subscribed s.topic) (hs : s ∈ bus.subscriptions) : Reached bus s := by
  constructor
  · intro env htopic
    simp [EventBus.emit_envelope, htopic, hlinked s hs]
  · intro hsome id data source
    obtain ⟨gossip, hgossip⟩ := Option.isSome_iff_exists.mp hsome
    have hbrings : bus.Brings (.EventReceived id s.topic data source) := by
      have htopic := hsubscribed.2 gossip hgossip
      simpa only [EventBus.Brings, hgossip] using htopic
    simp [EventBus.network_event, hbrings]

/-! ## Other subscriptions -/

/-- Two states of the bus that differ in the subscription `i` alone. -/
structure SameBut (i : Nat) (bus bus' : EventBus ε V PeerId) : Prop where
  rest : bus' = { bus with subscriptions := bus'.subscriptions }
  length : bus'.subscriptions.length = bus.subscriptions.length
  others : ∀ j ≠ i, bus'.subscriptions[j]? = bus.subscriptions[j]?

theorem sameBut_modify (i : Nat) (f : EventSubscription ε V → EventSubscription ε V) :
    SameBut i bus { bus with subscriptions := bus.subscriptions.modify i f } := by
  refine ⟨rfl, List.length_modify .., ?_⟩
  intro j hj
  simp [Ne.symm hj]

/-- The same change at one place of both keeps the others alike. -/
theorem SameBut.modify {i : Nat} (h : SameBut i bus bus') (k : Nat)
    (f : EventSubscription ε V → EventSubscription ε V) :
    SameBut i { bus with subscriptions := bus.subscriptions.modify k f }
      { bus' with subscriptions := bus'.subscriptions.modify k f } := by
  refine ⟨by rw [h.rest], by simp [h.length], ?_⟩
  intro j hj
  simp only [List.getElem?_modify, h.others j hj]

theorem SameBut.step {i : Nat} (h : SameBut i bus bus') (e : Event ε PeerId) :
    SameBut i (bus.step from_slice e) (bus'.step from_slice e) := by
  obtain ⟨hrest, hlength, hothers⟩ := h
  generalize bus'.subscriptions = subscriptions at hrest hlength hothers
  subst hrest
  cases e with
  | stream_events event topic =>
    refine ⟨rfl, by simp [EventBus.step, EventBus.stream_events, EventBus.inc_sub, hlength], ?_⟩
    intro j hj
    simp [EventBus.step, EventBus.stream_events, EventBus.inc_sub, List.getElem?_append, hlength,
      hothers j hj]
  | drop k => exact SameBut.modify ⟨rfl, hlength, hothers⟩ k _
  | emit_envelope env =>
    simp only [EventBus.step, EventBus.emit_envelope]
    split
    · exact ⟨rfl, hlength, hothers⟩
    · exact ⟨rfl, hlength, hothers⟩
  | network_event event =>
    by_cases hbrings : bus.Brings event
    · change SameBut i (if bus.Brings event then _ else _) (if bus.Brings event then _ else _)
      rw [if_pos hbrings, if_pos hbrings]
      exact ⟨rfl, hlength, hothers⟩
    · change SameBut i (if bus.Brings event then _ else _) (if bus.Brings event then _ else _)
      rw [if_neg hbrings, if_neg hbrings]
      exact ⟨rfl, hlength, hothers⟩
  | poll_local k => exact SameBut.modify ⟨rfl, hlength, hothers⟩ k _
  | poll_network k => exact SameBut.modify ⟨rfl, hlength, hothers⟩ k _

theorem SameBut.run {i : Nat} (h : SameBut i bus bus') (later : List (Event ε PeerId)) :
    SameBut i (bus.runFrom from_slice later) (bus'.runFrom from_slice later) := by
  induction later generalizing bus bus' with
  | nil => exact h
  | cons e later ih => exact ih (h.step e)

/-- Whatever comes after, the other subscriptions get what they would have got without the drop. -/
theorem received_drop {i j : Nat} (h : j ≠ i) (later : List (Event ε PeerId)) :
    ((bus.drop i).runFrom from_slice later).received j =
      (bus.runFrom from_slice later).received j := by
  have hsame : SameBut i bus (bus.drop i) := sameBut_modify i _
  unfold EventBus.received
  rw [(hsame.run later).others j h]

/-! ## The count -/

/-- The router is subscribed to the topics that have a live subscription, each counter is the number
of live subscriptions, what is sent to its topic reaches every live subscription, and no drop changes
what another subscription gets. -/
structure Counted (from_slice : ε → Bytes → Option (EventEnvelope V)) (bus : EventBus ε V PeerId) :
    Prop where
  subscribed : ∀ topic, bus.router.Subscribed topic ↔ 0 < bus.live topic
  counted : ∀ topic, bus.counter.getD topic 0 = bus.live topic
  reached : ∀ s ∈ bus.subscriptions, s.alive = true → Reached bus s
  undisturbed : ∀ i j, j ≠ i → ∀ later : List (Event ε PeerId),
    ((bus.drop i).runFrom from_slice later).received j = (bus.runFrom from_slice later).received j

theorem live_pos {s : EventSubscription ε V} (h : s ∈ bus.subscriptions) (halive : s.alive = true) :
    0 < bus.live s.topic := by
  apply List.countP_pos_iff.mpr
  exact ⟨s, h, by simp [halive]⟩

theorem counted_of (hlinked : Linked bus)
    (hsubscribed : ∀ topic, bus.router.Subscribed topic ↔ 0 < bus.live topic)
    (hcounted : ∀ topic, bus.counter.getD topic 0 = bus.live topic) : Counted from_slice bus := by
  refine ⟨hsubscribed, hcounted, ?_, fun i j h => received_drop h⟩
  intro s hs halive
  exact reached hlinked ((hsubscribed s.topic).mpr (live_pos hs halive)) hs

/-- Two states of the bus that differ in what their channels hold and what the streams gave only. -/
structure Alike (bus bus' : EventBus ε V PeerId) : Prop where
  router : bus'.router = bus.router
  counter : bus'.counter = bus.counter
  live : ∀ topic, bus'.live topic = bus.live topic
  linked : Linked bus → Linked bus'
  alive : AllAlive bus → AllAlive bus'

theorem Alike.counted (h : Alike bus bus') (hlinked : Linked bus)
    (hcounted : Counted from_slice bus) : Counted from_slice bus' := by
  apply counted_of (h.linked hlinked)
  · intro topic
    rw [h.router, h.live, hcounted.subscribed]
  · intro topic
    rw [h.counter, h.live, hcounted.counted]

theorem alike_emit_envelope (env : EventEnvelope Bytes) : Alike bus (bus.emit_envelope env) := by
  unfold EventBus.emit_envelope
  split <;> exact ⟨rfl, rfl, fun _ => rfl, id, id⟩

theorem alike_network_event (e : NetworkEvent PeerId) : Alike bus (bus.network_event e) := by
  unfold EventBus.network_event
  split
  · refine ⟨rfl, rfl, ?_, fun h s hs => h s hs, fun h s hs => h s hs⟩
    intro topic
    simp only [EventBus.live]
  · exact ⟨rfl, rfl, fun _ => rfl, id, id⟩

/-- A poll changes what a stream gave. -/
theorem alike_modify {i : Nat} {f : EventSubscription ε V → EventSubscription ε V}
    (hf : ∀ s, (f s).topic = s.topic ∧ (f s).channel = s.channel ∧ (f s).alive = s.alive) :
    Alike bus { bus with subscriptions := bus.subscriptions.modify i f } := by
  have hmem : ∀ s ∈ bus.subscriptions.modify i f, ∃ old ∈ bus.subscriptions,
      s.topic = old.topic ∧ s.channel = old.channel ∧ s.alive = old.alive := by
    intro s hs
    obtain ⟨j, hj⟩ := List.mem_iff_getElem?.mp hs
    rw [List.getElem?_modify] at hj
    obtain ⟨old, hold, heq⟩ := Option.map_eq_some_iff.mp hj
    refine ⟨old, List.mem_of_getElem? hold, ?_⟩
    split at heq
    · exact heq ▸ hf old
    · exact heq ▸ ⟨rfl, rfl, rfl⟩
  refine ⟨rfl, rfl, ?_, ?_, ?_⟩
  · intro topic
    unfold EventBus.live
    rcases lt_or_ge i bus.subscriptions.length with hlt | hge
    · obtain ⟨before, s, after, heq, -, hmodify⟩ := List.exists_of_modify f hlt
      rw [hmodify, heq]
      simp [List.countP_append, List.countP_cons, hf s]
    · rw [List.modify_eq_self hge]
  · intro hlinked s hs
    obtain ⟨old, hold, htopic, hchannel, -⟩ := hmem s hs
    rw [htopic, hchannel]
    exact hlinked old hold
  · intro halive s hs
    obtain ⟨old, hold, -, -, hlive⟩ := hmem s hs
    rw [hlive]
    exact halive old hold

theorem alike_poll_local (i : Nat) : Alike bus (bus.poll_local from_slice i) := by
  apply alike_modify
  intro s
  split <;> exact ⟨rfl, rfl, rfl⟩

theorem alike_poll_network (i : Nat) : Alike bus (bus.poll_network from_slice i) := by
  apply alike_modify
  intro s
  split <;> exact ⟨rfl, rfl, rfl⟩

/-! ## A new subscription -/

theorem linked_stream_events (h : Linked bus) (event : ε) (topic : String) :
    Linked (bus.stream_events event topic) := by
  have hrouter : ∀ (t : String) (channel : Nat),
      (bus.router.channel topic).2.topics[t]? = some channel →
      (bus.stream_events event topic).router.topics[t]? = some channel := by
    intro t channel ht
    unfold EventBus.stream_events EventBus.inc_sub
    simp only
    split
    · exact channel_keeps ht
    · exact ht
  intro s hs
  apply hrouter
  rcases List.mem_append.mp hs with hold | hnew
  · exact channel_keeps (h s hold)
  · rw [List.mem_singleton.mp hnew]
    exact channel_topic topic bus.router

theorem alive_stream_events (h : AllAlive bus) (event : ε) (topic : String) :
    AllAlive (bus.stream_events event topic) := by
  intro s hs
  rcases List.mem_append.mp hs with hold | hnew
  · exact h s hold
  · rw [List.mem_singleton.mp hnew]

theorem subscribed_stream_events (h : Counted from_slice bus) (hfew : bus.live topic + 1 < 2 ^ 32)
    (event : ε) (other : String) :
    (bus.stream_events event topic).router.Subscribed other ↔
      0 < (bus.stream_events event topic).live other := by
  have hcounter : (bus.counter.getD topic 0 + 1) % 2 ^ 32 = bus.live topic + 1 := by
    rw [h.counted, Nat.mod_eq_of_lt hfew]
  rw [live_stream_events]
  by_cases hother : topic = other
  · subst hother
    refine iff_of_true ?_ (by simp)
    simp only [EventBus.stream_events, EventBus.inc_sub, hcounter]
    split
    · exact subscribed_subscribe
    · rename_i hne
      have hpos : 0 < bus.live topic := by omega
      exact subscribed_channel ((h.subscribed topic).mpr hpos) topic
  · rw [if_neg hother, Nat.add_zero, ← h.subscribed]
    simp only [EventBus.stream_events, EventBus.inc_sub]
    split
    · rw [subscribed_subscribe_other hother, subscribed_channel_other hother]
    · rw [subscribed_channel_other hother]

theorem counted_stream_events_iff (hlinked : Linked bus) (h : Counted from_slice bus) (event : ε)
    (topic : String) :
    Counted from_slice (bus.stream_events event topic) ↔ bus.live topic + 1 < 2 ^ 32 := by
  constructor
  · intro hafter
    have hcount := hafter.counted topic
    rw [counter_stream_events, live_stream_events, if_pos rfl, if_pos rfl, h.counted] at hcount
    rw [← hcount]
    exact Nat.mod_lt _ (by omega)
  · intro hfew
    apply counted_of (linked_stream_events hlinked event topic)
    · exact subscribed_stream_events h hfew event
    · intro other
      rw [counter_stream_events, live_stream_events, ← h.counted other]
      by_cases hother : topic = other
      · subst hother
        rw [h.counted, Nat.mod_eq_of_lt (by simpa using hfew)]
        simp
      · simp [hother]

/-! ## A dropped subscription -/

theorem live_drop {i : Nat} {s : EventSubscription ε V} (hi : bus.subscriptions[i]? = some s)
    (halive : s.alive = true) : (bus.drop i).live s.topic < bus.live s.topic := by
  obtain ⟨hlt, hget⟩ := List.getElem?_eq_some_iff.mp hi
  obtain ⟨before, old, after, heq, hlength, hmodify⟩ :=
    List.exists_of_modify (fun s : EventSubscription ε V => { s with alive := false }) hlt
  obtain rfl : old = s := by
    subst hlength
    rw [← hget]
    simp [heq]
  unfold EventBus.live EventBus.drop
  rw [hmodify, heq]
  simp [halive]

/-- The counter of a topic is wrong as soon as a live subscription to it is dropped. -/
theorem not_counted_drop {i : Nat} {s : EventSubscription ε V} (h : Counted from_slice bus)
    (hi : bus.subscriptions[i]? = some s) (halive : s.alive = true) :
    ¬ Counted from_slice (bus.drop i) := by
  intro hafter
  have hcount := hafter.counted s.topic
  have hlt := live_drop hi halive
  rw [← hcount, ← h.counted] at hlt
  exact lt_irrefl _ hlt

theorem drop_none {i : Nat} (h : bus.subscriptions[i]? = none) : bus.drop i = bus := by
  unfold EventBus.drop
  rw [List.modify_eq_self (List.getElem?_eq_none_iff.mp h)]

/-! ## The runs -/

/-- No live subscription is dropped, and a topic has fewer than `2 ^ 32` of them. -/
def Kept (from_slice : ε → Bytes → Option (EventEnvelope V)) (network : Bool)
    (before : List (Event ε PeerId)) : Event ε PeerId → Prop
  | .stream_events _ topic => (EventBus.run from_slice network before).live topic + 1 < 2 ^ 32
  | .drop i => ∀ s, (EventBus.run from_slice network before).subscriptions[i]? = some s →
    s.alive = false
  | .emit_envelope _ | .network_event _ | .poll_local _ | .poll_network _ => True

/-- The subscriptions are counted at every moment exactly when no step drops a live one, or is the
`2 ^ 32`-th to its topic. -/
theorem subscriptions_counted_iff (from_slice : ε → Bytes → Option (EventEnvelope V))
    (network : Bool) (events : List (Event ε PeerId)) :
    EveryState (fun events => Counted from_slice (EventBus.run from_slice network events)) events ↔
      EveryStep (Kept from_slice network) events := by
  apply everyState_iff_everyStep
    (I := fun events => Linked (EventBus.run from_slice network events) ∧
      AllAlive (EventBus.run from_slice network events))
  · constructor <;> intro s hs <;> simp [EventBus.run, EventBus.runFrom, EventBus.new] at hs
  · apply counted_of
    · intro s hs
      simp [EventBus.run, EventBus.runFrom, EventBus.new] at hs
    · intro topic
      simp [EventBus.run, EventBus.runFrom, EventBus.new, EventBus.live, EventRouter.Subscribed]
    · intro topic
      simp [EventBus.run, EventBus.runFrom, EventBus.new, EventBus.live]
  · rintro before step - ⟨hlinked, halive⟩ hcounted
    have hrun : EventBus.run from_slice network (before ++ [step]) =
        (EventBus.run from_slice network before).step from_slice step := by
      simp [EventBus.run, EventBus.runFrom]
    -- a step that changes neither the router nor the subscriptions but for what they got
    have hquiet : ∀ after, Alike (EventBus.run from_slice network before) after →
        Counted from_slice after ∧ Linked after ∧ AllAlive after :=
      fun after h => ⟨h.counted hlinked hcounted, h.linked hlinked, h.alive halive⟩
    rw [hrun]
    cases step with
    | stream_events event topic =>
      refine ⟨counted_stream_events_iff hlinked hcounted event topic, ?_⟩
      intro _
      exact ⟨linked_stream_events hlinked event topic, alive_stream_events halive event topic⟩
    | drop i =>
      cases hi : (EventBus.run from_slice network before).subscriptions[i]? with
      | none =>
        have hkept : Kept from_slice network before (.drop i) := by
          intro s hs
          simp [hi] at hs
        rw [EventBus.step, drop_none hi]
        exact ⟨iff_of_true hcounted hkept, fun _ => ⟨hlinked, halive⟩⟩
      | some s =>
        have hs := halive s (List.mem_of_getElem? hi)
        have hnot : ¬ Kept from_slice network before (.drop i) := by
          intro hkept
          have := hkept s hi
          simp [hs] at this
        exact ⟨iff_of_false (not_counted_drop hcounted hi hs) hnot, fun h => absurd h hnot⟩
    | emit_envelope env =>
      obtain ⟨hafter, hinv⟩ := hquiet _ (alike_emit_envelope env)
      exact ⟨iff_of_true hafter trivial, fun _ => hinv⟩
    | network_event e =>
      obtain ⟨hafter, hinv⟩ := hquiet _ (alike_network_event e)
      exact ⟨iff_of_true hafter trivial, fun _ => hinv⟩
    | poll_local i =>
      obtain ⟨hafter, hinv⟩ := hquiet _ (alike_poll_local i)
      exact ⟨iff_of_true hafter trivial, fun _ => hinv⟩
    | poll_network i =>
      obtain ⟨hafter, hinv⟩ := hquiet _ (alike_poll_network i)
      exact ⟨iff_of_true hafter trivial, fun _ => hinv⟩

/-- A topic that is subscribed to once, and whose subscription is dropped. -/
def subscribed_once : List (Event String String) :=
  [.stream_events "SessionEvent" "/marie/session/1", .drop 0]

/-- What reads no payload: the streams give none of the events of the program. -/
def unread (_ : String) (_ : Bytes) : Option (EventEnvelope Value) := none

/-- The counter of the topic is still 1. -/
theorem a_dropped_subscription_counts :
    ¬ EveryState (fun events => Counted unread (EventBus.run unread false events))
      subscribed_once := by
  intro h
  have hcount := (h _ (List.prefix_refl _)).counted "/marie/session/1"
  have hone : (EventBus.run unread false subscribed_once).counter.getD "/marie/session/1" 0 = 1 := by
    simp [EventBus.run, EventBus.runFrom, subscribed_once, EventBus.step, EventBus.drop,
      counter_stream_events, EventBus.new]
  have hnone : (EventBus.run unread false subscribed_once).live "/marie/session/1" = 0 := by
    simp [EventBus.run, EventBus.runFrom, subscribed_once, EventBus.step, EventBus.drop,
      EventBus.stream_events, EventBus.inc_sub, EventBus.new, EventBus.live]
  rw [hone, hnone] at hcount
  cases hcount

end marie.events
