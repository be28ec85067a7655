/-
  What the endpoint answers: a list of elements, each with messages of one topic or an error.

  A topic may be spread over several elements; their messages are in the order of the log.  A
  topic that could not be read is an element with an error in it, so that the other topics of the
  same answer are not lost.
-/
import TopicRelay.Json.Printer
import TopicRelay.Json.Record
import TopicRelay.Wire.TopicKey

namespace TopicRelay

/-- A message as a log keeps it and the wire carries it. -/
structure Message where
  id : MessageId
  payload : Bytes
deriving DecidableEq, Repr

namespace Wire

open Json

/-! ## Error codes -/

/-- The number that identifies an error to a program. -/
abbrev ErrorCode := UInt16

namespace ErrorCode

abbrev generalFailure : ErrorCode := 0
abbrev malformedRequest : ErrorCode := 1
abbrev topicNotFound : ErrorCode := 2
abbrev storeFailure : ErrorCode := 3
abbrev notFound : ErrorCode := 4
abbrev payloadTooLarge : ErrorCode := 5
abbrev methodNotAllowed : ErrorCode := 6

end ErrorCode

/-- Why a topic could not be read. -/
structure TopicError where
  code : ErrorCode
  message : String
deriving DecidableEq, Repr

/-- One element of an answer. -/
structure TopicMessages where
  topic : TopicKey
  messages : List Message
  error : Option TopicError
deriving DecidableEq, Repr

/-! ## Display -/

/-- A message for display: its id and size. -/
def displayMessage (m : Message) : String :=
  "id:" ++ m.id ++ " bytes:" ++ Text.Numeral.text m.payload.length

/-- An error code and text for display. -/
def displayError (code : ErrorCode) (message : String) : String :=
  "error " ++ Text.Numeral.text code.toNat ++ ": " ++ message

namespace TopicMessages

/-! ## Making elements -/

/-- Messages of a topic. -/
def ofMessages (topic : TopicKey) (messages : List Message) : TopicMessages := ⟨topic, messages, none⟩

/-- The element of a topic with nothing to deliver. -/
def empty (topic : TopicKey) : TopicMessages := ofMessages topic []

/-- The element of a topic that is not configured, or that the log does not have. -/
def notFound (topic : TopicKey) : TopicMessages :=
  ⟨topic, [], some ⟨ErrorCode.topicNotFound, "No topic found for " ++ topic⟩⟩

/-- The element of a topic that the log failed to read. -/
def storeFailure (topic : TopicKey) (message : String) : TopicMessages :=
  ⟨topic, [], some ⟨ErrorCode.storeFailure, message⟩⟩

/-! ## Looking at elements -/

/-- Whether the element says that its topic was not found. -/
def isNotFound (e : TopicMessages) : Bool := e.error.any (·.code == ErrorCode.topicNotFound)

/-- The id of the last message. -/
def lastMessageId? (e : TopicMessages) : Option MessageId := e.messages.getLast?.map (·.id)

/-- An element for display. -/
def display (e : TopicMessages) : String :=
  "topic:" ++ e.topic ++ " " ++
    match e.error, e.messages.head?, e.messages.getLast? with
    | some error, _, _ => displayError error.code error.message
    | none, some first, some last =>
      Text.Numeral.text e.messages.length ++ " messages " ++ first.id ++ ".." ++ last.id
    | none, _, _ => "no messages"

end TopicMessages

/-! ## JSON -/

/-- A message as JSON, its payload as Base64 text. -/
def printMessage (m : Message) : Bytes :=
  Printer.object [("id", Printer.text m.id),
    ("payload", Printer.quoted (Base64.encode m.payload))]

/-- The fields of a message. -/
def messageLayout : Layout Message where
  name := "MonitorMessage"
  blank := ⟨"", []⟩
  fields := [
    .required "id" Reader.text fun id m => { m with id := id },
    .required "payload" Reader.payload fun bs m => { m with payload := bs }]

namespace TopicError

/-- An error as JSON. -/
def print (e : TopicError) : Bytes :=
  Printer.object [("code", Printer.natural e.code.toNat), ("message", Printer.text e.message)]

/-- The fields of an error. -/
def layout : Layout TopicError where
  name := "TopicError"
  blank := ⟨0, ""⟩
  fields := [
    .required "code" Reader.word16 fun n e => { e with code := n },
    .required "message" Reader.text fun s e => { e with message := s }]

end TopicError

namespace TopicMessages

/-- An element as JSON; without an error there is no field for one. -/
def print (e : TopicMessages) : Bytes :=
  Printer.object ([("topic", Printer.text e.topic),
    ("messages", Printer.array (e.messages.map printMessage))] ++
      (e.error.map fun error => ("error", error.print)).toList)

/-- The fields of an element. -/
def layout : Layout TopicMessages where
  name := "TopicMessages"
  blank := ⟨"", [], none⟩
  fields := [
    .required "topic" Reader.text fun s e => { e with topic := s },
    .required "messages" (Reader.list messageLayout.reader) fun ms e => { e with messages := ms },
    .optional "error" (Reader.nullable TopicError.layout.reader) fun x e => { e with error := x }]

/-- Reads an element. -/
def reader : Reader TopicMessages := layout.reader

end TopicMessages
end Wire
end TopicRelay
