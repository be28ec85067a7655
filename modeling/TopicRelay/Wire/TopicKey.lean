/-
  The names that the two sides of a relay use.

  The monitor asks for topics by logical keys from its configuration; the endpoint resolves each key
  to the physical name its message log uses.  A key that arrives over the network is checked before
  anything is looked up by it: it is short, and made of characters that need no quoting anywhere.
-/
import TopicRelay.SortedMap
import TopicRelay.Text.Utf8

namespace TopicRelay

/-- A logical topic name, resolved by the endpoint. -/
abbrev TopicKey := String

/-- A physical topic name inside a message log. -/
abbrev TopicName := String

/-- A message id: opaque, and ordered as text by the log that issued it. -/
abbrev MessageId := String

/-- The owner of a committed offset. -/
abbrev SubscriberName := String

/-- The keys of a resolution request. -/
abbrev TopicKeys := KeySet

/-- The names that keys were resolved to; a key that is not configured is absent. -/
abbrev TopicMapping := SortedMap TopicName

namespace Wire.TopicKey

/-- The longest key, in bytes. -/
def maxLength : Nat := 255

/-- A byte that a key may start with: an ASCII letter or digit. -/
def isStart (b : UInt8) : Bool := Ascii.isLetter b || Ascii.isDigit b

/-- A byte that may follow it: the same, or one of `.`, `_` and `-`. -/
def isPart (b : UInt8) : Bool := isStart b || b == Ascii.dot || b == 0x5F || b == Ascii.minus

/-- Whether a text may be used as a topic key. -/
def isValid (key : String) : Bool :=
  let bs := Text.Utf8.encode key
  bs.length ≤ maxLength && bs.head?.any isStart && bs.all isPart

example : isValid "logs.app_1" = true ∧ isValid "-leading-dash" = false ∧ isValid "" = false := by
  decide +kernel

end Wire.TopicKey
end TopicRelay
