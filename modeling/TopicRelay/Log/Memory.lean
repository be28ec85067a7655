/-
  A message log in memory.

  The id of a message is the number of the publication, counted over all topics, as twenty digits
  with leading zeros; so the order of ids as text is the order of publication.  A topic has to be
  created before something is published to it, unless the log creates topics by itself.  Reading
  never creates one.
-/
import TopicRelay.Log.Basic

namespace TopicRelay

/-- A log in memory: its topics with their messages in order, and the number of the next message. -/
structure MemoryLog where
  autoCreate : Bool
  next : UInt64
  topics : SortedMap (List Message)
deriving DecidableEq

namespace MemoryLog

/-- A log without topics. -/
def new (autoCreate : Bool) : MemoryLog := ⟨autoCreate, 1, SortedMap.empty⟩

/-- The id with a number. -/
def formatId (n : UInt64) : MessageId := String.ofList (Text.Numeral.padded 20 n.toNat)

/-- The log with a topic; one that is there already keeps its messages. -/
def create (log : MemoryLog) (topic : TopicName) : MemoryLog :=
  if log.topics.contains topic then log else { log with topics := log.topics.insert topic [] }

/-- The names of the topics, in order. -/
def topicNames (log : MemoryLog) : List TopicName := log.topics.keys

/-- How many messages a topic has. -/
def count? (log : MemoryLog) (topic : TopicName) : Option Nat := (log.topics.get? topic).map List.length

/-- The messages of a topic; there are none in a topic that does not exist. -/
def messages (log : MemoryLog) (topic : TopicName) : List Message := (log.topics.get? topic).getD []

/-- The payloads of a topic, in order. -/
def payloads (log : MemoryLog) (topic : TopicName) : List Bytes := (log.messages topic).map (·.payload)

/-- The messages after an id. -/
def following (after : Option MessageId) (messages : List Message) : List Message :=
  match after with
  | none => messages
  | some id => messages.dropWhile fun m => m.id ≤ id

/-- The answer to a question.  The log stays as it is. -/
def fetch (log : MemoryLog) (q : LogQuery) : Except LogError (List Message) :=
  match log.topics.get? q.topic with
  | none => .error (.topicNotFound q.topic)
  | some messages => .ok ((following q.after messages).take q.limit)

/-- Appends a message to a topic: its id and the log after it.  A publication that is refused uses
    no number up. -/
def publish (log : MemoryLog) (topic : TopicName) (payload : Bytes) :
    Except LogError (MessageId × MemoryLog) :=
  let log := if log.autoCreate then log.create topic else log
  match log.topics.get? topic with
  | none => .error (.topicNotFound topic)
  | some messages =>
    let id := formatId log.next
    .ok (id, { log with
      next := log.next + 1
      topics := log.topics.insert topic (messages ++ [⟨id, payload⟩]) })

/-- Publishes each of some payloads in turn, up to the first failure: the id of the last message,
    or the failure, and the log after that. -/
def publishAll (topic : TopicName) (last : Option MessageId) :
    List Bytes → MemoryLog → Except LogError (Option MessageId) × MemoryLog
  | [], log => (.ok last, log)
  | payload :: rest, log => match log.publish topic payload with
    | .error e => (.error e, log)
    | .ok (id, log) => publishAll topic (some id) rest log

example : formatId 42 = "00000000000000000042" := by decide +kernel

end MemoryLog
end TopicRelay
