/-
  What the monitor asks for: per topic key, a number of messages after a given one.

  One request covers every topic of a poll cycle.  The endpoint checks it as a whole before it
  touches its log, and reports the first problem of the first key, in key order, that has one.
-/
import TopicRelay.Json.Printer
import TopicRelay.Json.Record
import TopicRelay.Wire.TopicKey

namespace TopicRelay.Wire

open Json

/-- A request for one topic: at most `limit` messages, strictly after `lastMessageId`, or from the
    start of the topic when there is none. -/
structure ConsumeRequest where
  lastMessageId : Option MessageId
  limit : UInt32
deriving DecidableEq, Repr

/-- The requests of one fetch, by topic key. -/
abbrev ConsumeRequests := SortedMap ConsumeRequest

namespace ConsumeRequest

/-- A request for display. -/
def display (r : ConsumeRequest) : String :=
  match r.lastMessageId with
  | some id => "after:" ++ id ++ " limit:" ++ Text.Numeral.text r.limit.toNat
  | none => "from start limit:" ++ Text.Numeral.text r.limit.toNat

/-- A request as JSON. -/
def print (r : ConsumeRequest) : Bytes :=
  Printer.object [("lastMessageId", Printer.optionalText r.lastMessageId),
    ("limit", Printer.natural r.limit.toNat)]

/-- The fields of a request. -/
def layout : Layout ConsumeRequest where
  name := "ConsumeRequest"
  blank := ⟨none, 0⟩
  fields := [
    .optional "lastMessageId" (Reader.nullable Reader.text) fun id r => { r with lastMessageId := id },
    .required "limit" Reader.word32 fun n r => { r with limit := n }]

end ConsumeRequest

namespace ConsumeRequests

/-- Requests as JSON. -/
def print (rs : ConsumeRequests) : Bytes :=
  Printer.object (rs.entries.map fun e => (e.1, e.2.print))

/-- Reads requests. -/
def reader : Reader ConsumeRequests := Reader.sortedMap ConsumeRequest.layout.reader

/-! ## Checking -/

/-- The largest limit per topic that an endpoint accepts unless it is configured otherwise. -/
def maxLimit : UInt32 := 10000

/-- Why a request is refused. -/
inductive Problem where
  | invalidKey (key : TopicKey)
  | zeroLimit (key : TopicKey)
  | limitTooLarge (key : TopicKey) (maximum : UInt32)
  | emptyId (key : TopicKey)
deriving DecidableEq, Repr

/-- A topic key between single quotes. -/
def quotedKey (key : TopicKey) : String := "'" ++ key ++ "'"

/-- The wording of a problem. -/
def Problem.message : Problem → String
  | .invalidKey key => quotedKey key ++ " is not a valid topic key"
  | .zeroLimit key => "The limit for " ++ quotedKey key ++ " must be greater than zero"
  | .limitTooLarge key maximum =>
    "The limit for " ++ quotedKey key ++ " exceeds the maximum of " ++ Text.Numeral.text maximum.toNat
  | .emptyId key => "The last message id for " ++ quotedKey key ++ " is empty"

/-- The first problem of one entry. -/
def entryProblem? (maximum : UInt32) (key : TopicKey) (r : ConsumeRequest) : Option Problem :=
  if !TopicKey.isValid key then some (.invalidKey key)
  else if r.limit = 0 then some (.zeroLimit key)
  else if maximum < r.limit then some (.limitTooLarge key maximum)
  else if r.lastMessageId = some "" then some (.emptyId key)
  else none

/-- The first problem of some requests, in key order. -/
def problem? (maximum : UInt32) (rs : ConsumeRequests) : Option Problem :=
  rs.entries.findSome? fun e => entryProblem? maximum e.1 e.2

end ConsumeRequests
end TopicRelay.Wire
