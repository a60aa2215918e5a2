-- The envelopes of the events. The bus puts the JSON of an event in an envelope. Its streams give
-- envelopes, and read one where the event is: they give none of the events that it emits.
import Marie.Serde

namespace marie.events

open Codecs
open serde (variant)

structure EventEnvelope (T : Type) where
  id : String
  topic : String
  payload : T
deriving DecidableEq

variable {E : Type}

/-- What `serde` derives for an envelope. -/
def EventEnvelope.from_value (from_value : Value → Option E) : Value → Option (EventEnvelope E)
  | .Object fields => do
    let id ← (entry "id" fields).bind serde.string.decode
    let topic ← (entry "topic" fields).bind serde.string.decode
    let payload ← (entry "payload" fields).bind from_value
    some ⟨id, topic, payload⟩
  | .Array [.String id, .String topic, payload] => (from_value payload).map (⟨id, topic, ·⟩)
  | _ => none

/-- The JSON of the events of a type. `serde` tags an event by its variant, and `content` is what
it writes of the fields. -/
structure EventJson (E : Type) where
  tag : E → String
  content : E → Value
  from_value : Value → Option E

namespace EventJson

variable (json : EventJson E)

/-- The payload that `EventBus::emit` puts in an envelope. -/
def to_value (event : E) : Value := variant (json.tag event) (json.content event)

/-- What a stream of `EventBus::stream_events` gives for a payload. Its items are envelopes of
events, so an envelope is what it deserializes. -/
def yields (payload : Value) : Option (EventEnvelope E) :=
  EventEnvelope.from_value json.from_value payload

/-- A stream gives no event that the bus emits. -/
theorem yields_to_value (event : E) : json.yields (json.to_value event) = none := by
  unfold yields to_value variant EventEnvelope.from_value
  by_cases hid : json.tag event = "id"
  · simp [entry, hid]
  · simp [entry, hid]

end EventJson

end marie.events
