/-
  Writing an answer in chunks.

  What is written gathers in a buffer, and the buffer goes to the receiver as one chunk as soon as
  it has reached the chunk size.  So no more than about a chunk and one element is held, however
  long the answer is; and a chunk ends only where a write ended, so no element is cut in two.

  A receiver may go away.  Then the chunk that was due is lost, and every later chunk too.
-/
import TopicRelay.Text.Ascii

namespace TopicRelay.Endpoint

/-! ## The buffer -/

/-- Bytes that wait to be sent, write by write, the last one first. -/
structure Buffer where
  writes : List Bytes
  size : Nat
  size_eq : size = writes.flatten.length

namespace Buffer

/-- The buffer with nothing in it. -/
def empty : Buffer := ⟨[], 0, rfl⟩

/-- The buffer after one more write. -/
def push (b : Buffer) (bytes : Bytes) : Buffer :=
  ⟨bytes :: b.writes, bytes.length + b.size, by simp [b.size_eq]⟩

/-- The bytes in the order in which they were written. -/
def bytes (b : Buffer) : Bytes := b.writes.reverse.flatten

/-- The first `size` bytes of the buffer, and nothing behind them. -/
def truncate (b : Buffer) (size : Nat) : Buffer :=
  ⟨[b.bytes.take size], (b.bytes.take size).length, by simp⟩

theorem length_bytes (b : Buffer) : b.bytes.length = b.size := by
  simp [bytes, List.length_flatten, b.size_eq]

theorem bytes_push (b : Buffer) (bs : Bytes) : (b.push bs).bytes = b.bytes ++ bs := by
  simp [bytes, push]

theorem bytes_truncate (b : Buffer) (size : Nat) : (b.truncate size).bytes = b.bytes.take size := by
  simp [bytes, truncate]

end Buffer

/-! ## The receiver -/

/-- The other end of an answer. -/
structure Receiver where
  /-- How many chunks it takes before it goes away; without a number it stays. -/
  patience : Option Nat
  /-- Whether it keeps word of an answer that was abandoned. -/
  heedsAbort : Bool
  /-- The chunks it has taken, the last one first. -/
  taken : List Bytes
  /-- Why the answer was abandoned, if it was. -/
  aborted : Option String
deriving DecidableEq, Repr

namespace Receiver

/-- A receiver that has taken nothing yet. -/
def new (patience : Option Nat) (heedsAbort : Bool) : Receiver := ⟨patience, heedsAbort, [], none⟩

/-- The chunks in the order in which they were taken. -/
def chunks (r : Receiver) : List Bytes := r.taken.reverse

/-- Everything that was taken. -/
def body (r : Receiver) : Bytes := r.chunks.flatten

/-- Whether it has gone away. -/
def isGone (r : Receiver) : Bool := r.patience.any (· ≤ r.taken.length)

end Receiver

/-! ## The writer -/

/-- What came out when an element was turned into JSON, and why it broke off if it did. -/
structure Serialization where
  output : Bytes
  failure : Option String
deriving DecidableEq, Repr

namespace Serialization

/-- The whole text of an element. -/
def ok (text : Bytes) : Serialization := ⟨text, none⟩

/-- An element that broke off before anything came out. -/
def error (reason : String) : Serialization := ⟨[], some reason⟩

end Serialization

/-- Why writing failed. -/
inductive ChunkError where
  /-- The receiver has gone away. -/
  | closed
  /-- An element could not be written as JSON. -/
  | unserializable (reason : String)
deriving DecidableEq, Repr

namespace ChunkError

/-- The wording of an error. -/
def message : ChunkError → String
  | .closed => "The response receiver has gone away"
  | .unserializable reason => "Unable to serialize response element: " ++ reason

end ChunkError

/-- A writer in the middle of an answer. -/
structure ChunkWriter where
  chunkSize : Nat
  buffer : Buffer
  receiver : Receiver
  /-- How many chunks were handed over, whether or not they were taken. -/
  chunkCount : Nat
  /-- How many bytes those chunks had. -/
  byteCount : Nat

namespace ChunkWriter

/-- A writer that has written nothing. -/
def new (chunkSize : Nat) (receiver : Receiver) : ChunkWriter :=
  ⟨chunkSize, .empty, receiver, 0, 0⟩

/-- Hands over what is in the buffer, if there is anything. -/
def flush (w : ChunkWriter) : Except ChunkError Unit × ChunkWriter :=
  if w.buffer.size = 0 then (.ok (), w)
  else
    let chunk := w.buffer.bytes
    let sent := { w with
      buffer := .empty
      chunkCount := w.chunkCount + 1
      byteCount := w.byteCount + chunk.length }
    if w.receiver.isGone then (.error .closed, sent)
    else (.ok (), { sent with receiver := { w.receiver with taken := chunk :: w.receiver.taken } })

/-- Writes bytes, and hands the buffer over if it has reached the chunk size. -/
def write (w : ChunkWriter) (bytes : Bytes) : Except ChunkError Unit × ChunkWriter :=
  let w := { w with buffer := w.buffer.push bytes }
  if w.chunkSize ≤ w.buffer.size then w.flush else (.ok (), w)

/-- Writes an element straight into the buffer, after an optional separator.  Of one that broke off,
    the buffer is cut back to what it held before. -/
def writeElement (w : ChunkWriter) (separator : Option UInt8) (json : Serialization) :
    Except ChunkError Unit × ChunkWriter :=
  let text := separator.toList ++ json.output
  match json.failure with
  | some reason =>
    (.error (.unserializable reason),
      { w with buffer := (w.buffer.push text).truncate w.buffer.size })
  | none => w.write text

/-- The whole text of an element is written like any other bytes. -/
theorem writeElement_ok (w : ChunkWriter) (separator : Option UInt8) (text : Bytes) :
    w.writeElement separator (.ok text) = w.write (separator.toList ++ text) := rfl

/-- Gives the answer up: the receiver is told why, so that it does not take what it has for all. -/
def abort (w : ChunkWriter) (reason : String) : ChunkWriter :=
  let told := { w.receiver with aborted := some reason }
  { w with buffer := .empty, receiver := if w.receiver.heedsAbort then told else w.receiver }

end ChunkWriter
end TopicRelay.Endpoint
