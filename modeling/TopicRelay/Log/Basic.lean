/-
  What a message log is to the rest of the library.

  A log keeps the messages of named topics in order.  Two things are ever done with one: reading
  the messages after a given one, and appending a message.  A reader is a function that carries a
  state along, because a log may change, or fail, between one read and the next.
-/
import TopicRelay.Wire.TopicMessages

namespace TopicRelay

/-- Why a log did not do what it was asked for. -/
inductive LogError where
  /-- The log has no topic of this name. -/
  | topicNotFound (topic : TopicName)
  /-- The log itself failed. -/
  | failure (reason : String)
deriving DecidableEq, Repr

namespace LogError

/-- The wording of an error. -/
def message : LogError → String
  | .topicNotFound topic => "No topic found with name " ++ topic
  | .failure reason => "Message store failure: " ++ reason

end LogError

/-- A question to a log: at most `limit` messages of `topic`, strictly after the id `after`, or from
    the start when there is none. -/
structure LogQuery where
  topic : TopicName
  after : Option MessageId
  limit : Nat
deriving DecidableEq, Repr

/-- Reading from a log whose state is of type `σ`. -/
abbrev LogReader (σ : Type) := LogQuery → σ → Except LogError (List Message) × σ

end TopicRelay
