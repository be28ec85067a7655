/-
  Committed offsets: how far a subscriber has got with a topic.

  There is one record for each topic and subscriber.  It holds the id of the last message that the
  subscriber is done with, and each commit replaces it.
-/
import TopicRelay.Calendar
import TopicRelay.Wire.TopicKey

namespace TopicRelay

/-- A committed offset; `committed` is the time of the commit in milliseconds. -/
structure SubscriberOffset where
  topic : TopicName
  subscriber : SubscriberName
  lastId : MessageId
  committed : UInt64
deriving DecidableEq, Repr

/-- The time of a commit as text.  The stored number is taken with a sign. -/
def SubscriberOffset.committedAt (o : SubscriberOffset) : String :=
  Calendar.momentText (Calendar.shown o.committed.toInt64.toInt)

/-- Why an offset was not read or written. -/
inductive OffsetError where
  /-- The store failed. -/
  | failure (reason : String)
  /-- What is stored for a topic and subscriber is not an offset. -/
  | unreadable (topic : TopicName) (subscriber : SubscriberName) (reason : String)
  /-- What is stored for a topic and subscriber is the offset of another two. -/
  | foreign (topic : TopicName) (subscriber : SubscriberName)
      (ownTopic : TopicName) (ownSubscriber : SubscriberName)
deriving DecidableEq, Repr

namespace OffsetError

/-- What is said of a stored offset that cannot be used. -/
def unusable (topic : TopicName) (subscriber : SubscriberName) (reason : String) : String :=
  "Stored offset for " ++ topic ++ "/" ++ subscriber ++ " is unreadable: " ++ reason

/-- The wording of an error. -/
def message : OffsetError → String
  | .failure reason => "Offset store failure: " ++ reason
  | .unreadable topic subscriber reason => unusable topic subscriber reason
  | .foreign topic subscriber ownTopic ownSubscriber =>
    unusable topic subscriber ("file contains the offset for " ++ ownTopic ++ "/" ++ ownSubscriber)

end OffsetError

example : (SubscriberOffset.mk "t" "s" "1" 1717718400123).committedAt
    = "2024-06-07 00:00:00.123 UTC" := by decide +kernel

end TopicRelay
