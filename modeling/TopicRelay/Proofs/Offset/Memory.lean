/-
  Offsets in memory are a map from topics and subscribers.
-/
import TopicRelay.Offset.Faulty
import TopicRelay.Proofs.SortedMap

namespace TopicRelay.MemoryOffsets

/-- What was committed is there. -/
theorem get_put_self (offsets : MemoryOffsets) (now : UInt64) (topic : TopicName)
    (subscriber : SubscriberName) (id : MessageId) :
    (offsets.put now topic subscriber id).get topic subscriber = some id := by
  rw [get, record?, put, SortedMap.get?_insert_self, Option.bind_some, SortedMap.get?_insert_self]
  rfl

/-- A commit changes no other offset. -/
theorem get_put_ne (offsets : MemoryOffsets) (now : UInt64) {topic t : TopicName}
    {subscriber s : SubscriberName} (h : t ≠ topic ∨ s ≠ subscriber) (id : MessageId) :
    (offsets.put now topic subscriber id).get t s = offsets.get t s := by
  rw [get, get, record?, record?, put]
  by_cases ht : t = topic
  · subst ht
    have hs : s ≠ subscriber := h.resolve_left fun hc => hc rfl
    rw [SortedMap.get?_insert_self, Option.bind_some, SortedMap.get?_insert_ne _ hs]
    cases SortedMap.get? offsets t with
    | none => rfl
    | some m => rfl
  · rw [SortedMap.get?_insert_ne offsets ht]

end TopicRelay.MemoryOffsets
