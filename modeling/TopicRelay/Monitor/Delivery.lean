/-
  The answer to a fetch, from the pieces of its body.

  Elements are handed on piece by piece: those of a piece that fails are lost, those of the pieces
  before it are not.
-/
import TopicRelay.Monitor.Surroundings
import TopicRelay.Wire.Decoder

namespace TopicRelay.Monitor.Delivery

open Wire (DecodeError Decoder TopicMessages)

/-- An answer that fails from the start. -/
def failed (e : RelayError) : Delivery := ⟨[], .error (.failure e)⟩

/-- The error that stands for a body that is not an answer. -/
def malformed (e : DecodeError) : RelayError := .malformed e.message

/-- The answer whose body comes in pieces and then ends in a certain way; that is looked at only if
    the pieces were sound so far. -/
def ofPieces (pieces : List Bytes) (atEnd : Decoder → Except RelayError Unit) : Delivery :=
  let (elements, result) := (Decoder.new Decoder.defaultLimit).pushAll pieces
  ⟨elements, (result.mapError malformed >>= atEnd).mapError .failure⟩

/-- The end of a body that has come as a whole: its array has to be closed. -/
def atWholeEnd (d : Decoder) : Except RelayError Unit := d.finish.mapError malformed

/-- The answer with a whole body. -/
def ofBody (pieces : List Bytes) : Delivery := ofPieces pieces atWholeEnd

/-- The answer as someone sees it who refuses its `n`-th element, counted from one. -/
def refusedAt (n : Nat) (e : RelayError) (d : Delivery) : Delivery :=
  if 0 < n ∧ n ≤ d.elements.length then ⟨d.elements.take n, .error (.failure e)⟩ else d

end TopicRelay.Monitor.Delivery
