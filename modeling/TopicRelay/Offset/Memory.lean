/-
  Offsets in memory, for a relay that has nothing to resume.
-/
import TopicRelay.Offset.Basic

namespace TopicRelay

/-- Offsets by topic and then by subscriber. -/
abbrev MemoryOffsets := SortedMap (SortedMap SubscriberOffset)

namespace MemoryOffsets

/-- The record of a topic and subscriber. -/
def record? (offsets : MemoryOffsets) (topic : TopicName) (subscriber : SubscriberName) :
    Option SubscriberOffset :=
  (offsets.get? topic).bind (·.get? subscriber)

/-- The last committed id. -/
def get (offsets : MemoryOffsets) (topic : TopicName) (subscriber : SubscriberName) :
    Option MessageId :=
  (offsets.record? topic subscriber).map (·.lastId)

/-- Commits an id at the time `now`. -/
def put (offsets : MemoryOffsets) (now : UInt64) (topic : TopicName) (subscriber : SubscriberName)
    (id : MessageId) : MemoryOffsets :=
  SortedMap.insert offsets topic
    (((offsets.get? topic).getD SortedMap.empty).insert subscriber ⟨topic, subscriber, id, now⟩)

end MemoryOffsets
end TopicRelay
