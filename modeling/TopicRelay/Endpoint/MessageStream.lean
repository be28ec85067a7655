/-
  Answering a fetch.

  The answer is an array with one or more elements for each requested key, in key order.  A topic is
  read in batches, one element for each, so that neither a large limit nor many topics make the
  answer be held in memory.  A topic that cannot be read, or stops being readable, ends with an
  element that says so; the other topics are not touched by that.  Only the receiver can end an
  answer early.
-/
import TopicRelay.Endpoint.ChunkWriter
import TopicRelay.Endpoint.Metrics
import TopicRelay.Endpoint.Resolver
import TopicRelay.Log.Basic
import TopicRelay.Wire.ConsumeRequest

namespace TopicRelay.Endpoint

open Wire (ConsumeRequests TopicMessages)

/-- An answer that is being written, with the log it is read from. -/
structure Answer (σ : Type) where
  writer : ChunkWriter
  /-- How many elements have been written. -/
  elements : Nat
  log : σ
  metrics : Metrics

namespace Answer

variable {σ : Type}

/-- Writes bytes between elements. -/
def frame (a : Answer σ) (bytes : Bytes) : Except ChunkError Unit × Answer σ :=
  let (result, writer) := a.writer.write bytes
  (result, { a with writer := writer })

/-- Writes an element, after a comma unless it is the first. -/
def element (a : Answer σ) (e : TopicMessages) : Except ChunkError Unit × Answer σ :=
  let separator := if a.elements = 0 then none else some Ascii.comma
  match a.writer.writeElement separator (.ok e.print) with
  | (.error error, writer) => (.error error, { a with writer := writer })
  | (.ok (), writer) => (.ok (), { a with writer := writer, elements := a.elements + 1 })

/-- Writes the last element of a topic of which `written` messages were written. -/
def lastElement (a : Answer σ) (written : Nat) (e : TopicMessages) :
    Except ChunkError Nat × Answer σ :=
  match a.element e with
  | (.error error, a) => (.error error, a)
  | (.ok (), a) => (.ok written, a)

/-- Adds one to a counter. -/
def increment (a : Answer σ) (counter : String) : Answer σ :=
  { a with metrics := a.metrics.increment counter }

/-- Ends a topic with an element that says why it could not be read. -/
def failTopic (a : Answer σ) (key : TopicKey) (written : Nat) :
    LogError → Except ChunkError Nat × Answer σ
  | .topicNotFound _ => (a.increment Metrics.relayTopicNotFound).lastElement written (.notFound key)
  | e => (a.increment Metrics.relayStoreError).lastElement written (.storeFailure key e.message)

/-- Ends a topic that has no more messages to give; if it gave none, an element says that. -/
def endTopic (a : Answer σ) (key : TopicKey) (written : Nat) : Except ChunkError Nat × Answer σ :=
  if written = 0 then a.lastElement 0 (.empty key) else (.ok written, a)

/-- Writes up to `remaining` messages of a topic after the id `after`, in batches of at most
    `batchLimit`, where `written` messages of it are written already.  The topic ends when a batch
    is not full. -/
def batches (read : LogReader σ) (batchLimit : Nat) (key : TopicKey) (topic : TopicName)
    (after : Option MessageId) (remaining written : Nat) (a : Answer σ) :
    Except ChunkError Nat × Answer σ :=
  if remaining = 0 then a.endTopic key written
  else
    let batch := min remaining batchLimit
    match read ⟨topic, after, batch⟩ a.log with
    | (.error e, log) => failTopic { a with log := log } key written e
    | (.ok messages, log) =>
      let a := { a with log := log }
      if messages.length = 0 then a.endTopic key written
      else match a.element (.ofMessages key messages) with
        | (.error e, a) => (.error e, a)
        | (.ok (), a) =>
          let written := written + messages.length
          if messages.length < batch then (.ok written, a)
          -- what comes next is what follows the last id seen
          else batches read batchLimit key topic ((messages.getLast?.map (·.id)).or after)
            (remaining - messages.length) written a
termination_by remaining

/-- Writes the elements of a key. -/
def topic (read : LogReader σ) (resolver : Resolver) (maxPerRead : Nat) (key : TopicKey)
    (r : Wire.ConsumeRequest) (a : Answer σ) : Except ChunkError Nat × Answer σ :=
  match resolver.resolve? key with
  | none => a.failTopic key 0 (.topicNotFound key)
  | some name => batches read (max maxPerRead 1) key name r.lastMessageId r.limit.toNat 0 a

/-- Writes the elements of several keys, of which `written` messages are written already. -/
def topics (read : LogReader σ) (resolver : Resolver) (maxPerRead : Nat) (written : Nat) :
    List (TopicKey × Wire.ConsumeRequest) → Answer σ → Except ChunkError Nat × Answer σ
  | [], a => (.ok written, a)
  | (key, r) :: rest, a => match topic read resolver maxPerRead key r a with
    | (.error e, a) => (.error e, a)
    | (.ok n, a) => topics read resolver maxPerRead (written + n) rest a

/-- Ends the array and hands over what is left. -/
def close (a : Answer σ) : Except ChunkError Unit × Answer σ :=
  match a.frame [Ascii.closeBracket] with
  | (.error e, a) => (.error e, a)
  | (.ok (), a) =>
    let (result, writer) := a.writer.flush
    (result, { a with writer := writer })

/-- Writes the whole answer to some requests: the number of messages in it, unless the receiver
    went away.  The messages are counted when all of it is handed over. -/
def stream (read : LogReader σ) (resolver : Resolver) (maxPerRead : Nat) (requests : ConsumeRequests)
    (a : Answer σ) : Except ChunkError Nat × Answer σ :=
  match a.frame [Ascii.openBracket] with
  | (.error e, a) => (.error e, a)
  | (.ok (), a) => match topics read resolver maxPerRead 0 requests.entries a with
    | (.error e, a) => (.error e, a)
    | (.ok n, a) => match a.close with
      | (.error e, a) => (.error e, a)
      | (.ok (), a) =>
        (.ok n, { a with metrics := a.metrics.count Metrics.relayMessages (Float.ofNat n) })

end Answer
end TopicRelay.Endpoint
