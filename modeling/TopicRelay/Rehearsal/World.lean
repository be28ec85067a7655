/-
  A world for a monitor, made up for the purpose.

  The remote is an endpoint with a log in memory; some of its answers are laid down in advance, as
  late, failing, or made up from given elements or bytes.  The log and the offsets of this side can
  fail on schedule.  At given moments something is changed: a message appears on the remote, a key
  gets a topic, or a stop is requested.  Everything the monitor does is written down, in reverse.
-/
import TopicRelay.Endpoint.MessageStream
import TopicRelay.Log.Faulty
import TopicRelay.Monitor.Delivery
import TopicRelay.Offset.Faulty
import TopicRelay.Rehearsal.Clock

namespace TopicRelay.Rehearsal

open Monitor (Delivery Halt Phase RelayError)
open Wire (ConsumeRequests TopicMessages)

/-! ## The script -/

/-- How the remote answers a call.  Where nothing is laid down, it answers like an endpoint. -/
structure Cue where
  /-- How long it takes before it answers, if it takes any time. -/
  delay : Option Nat
  /-- Whether it never answers. -/
  hangs : Bool
  error : Option RelayError
  /-- The answer to a question for topics. -/
  mapping : Option TopicMapping
  /-- The answer to a fetch; if there is an error, the answer ends with it. -/
  elements : Option (List TopicMessages)
  /-- The answer to a fetch, in pieces of its body. -/
  pieces : Option (List Bytes)

/-- A call that is answered at once, like an endpoint would. -/
def Cue.plain : Cue := ⟨none, false, none, none, none, none⟩

/-- Something that happens in the world. -/
inductive Change where
  /-- The log of the remote changes. -/
  | log (c : FaultyLog.Change)
  /-- A key stands for a topic from now on. -/
  | map (key : TopicKey) (topic : TopicName)
  /-- A key stands for no topic any more. -/
  | unmap (key : TopicKey)
  /-- The stopper is used. -/
  | stop
  /-- The stopper is given away. -/
  | release

/-- A kind of moment at which something can happen. -/
inductive Occasion where
  | resolve | fetch | shutdown
  /-- An element is about to be handled. -/
  | arrival
deriving DecidableEq, Repr

/-- What happens the `nth` time, counted from one, that there is such an occasion. -/
structure Hook where
  occasion : Occasion
  nth : Nat
  changes : List Change

/-! ## The record -/

/-- A call that the remote gets. -/
inductive Call where
  | resolve (keys : TopicKeys)
  | fetch (requests : ConsumeRequests)
  | shutdown

/-- The occasion that a call is. -/
def Call.occasion : Call → Occasion
  | .resolve _ => .resolve
  | .fetch _ => .fetch
  | .shutdown => .shutdown

/-- A call with the phase of the monitor and the time at that moment. -/
structure CallRecord where
  call : Call
  phase : Phase
  time : Nat

/-- A commit that succeeded. -/
structure CommitRecord where
  topic : TopicName
  subscriber : SubscriberName
  id : MessageId
deriving DecidableEq, Repr

/-! ## The world -/

/-- A world with all its parts. -/
structure World where
  clock : Clock
  /-- What keys stand for on the remote. -/
  topics : TopicMapping
  remote : FaultyLog
  maxPerRead : Nat
  chunkSize : Nat
  /-- The answers laid down, for each kind of call from the next one on. -/
  resolveCues : List Cue
  fetchCues : List Cue
  shutdownCues : List Cue
  /-- The log that is published to. -/
  ownLog : FaultyLog
  offsets : FaultyOffsets
  hooks : List Hook
  /-- The number of calls at which the stopper is used. -/
  callLimit : Nat
  /-- How many elements were handed over. -/
  arrivals : Nat
  phase : Phase
  /-- The calls so far, the last one first. -/
  calls : List CallRecord
  /-- What was published so far, the last one first. -/
  published : List (TopicName × Bytes)
  /-- What was committed so far, the last one first. -/
  committed : List CommitRecord

namespace World

/-- Lets something happen: what comes of it for the log of the remote, if that is what changes. -/
def change (w : World) : Change → Except LogError (Option MessageId) × World
  | .log c =>
    let (result, remote) := w.remote.change c
    (result, { w with remote := remote })
  | .map key topic => (.ok none, { w with topics := w.topics.insert key topic })
  | .unmap key => (.ok none, { w with topics := w.topics.erase key })
  | .stop => (.ok none, { w with clock := w.clock.useStopper })
  | .release => (.ok none, { w with clock := { w.clock with hasStopper := false } })

/-- Lets several things happen. -/
def changeAll (w : World) (changes : List Change) : World :=
  changes.foldl (fun w c => (w.change c).2) w

/-- Lets happen what is laid down for a moment. -/
def reach (w : World) (occasion : Occasion) (nth : Nat) : World :=
  w.changeAll ((w.hooks.filter fun h => h.occasion = occasion ∧ h.nth = nth).flatMap (·.changes))

/-- How many calls of a kind there were. -/
def countCalls (w : World) (occasion : Occasion) : Nat :=
  w.calls.countP fun r => r.call.occasion = occasion

/-- Writes a call down, and lets happen what is laid down for it. -/
def begin (w : World) (call : Call) : World :=
  let w := { w with calls := ⟨call, w.phase, w.clock.now⟩ :: w.calls }
  let w := w.reach call.occasion (w.countCalls call.occasion)
  if w.callLimit ≤ w.calls.length then { w with clock := w.clock.useStopper } else w

/-- Waits until the remote answers; false if a stop came first. -/
def await (w : World) (cue : Cue) : Bool × World :=
  if cue.hangs then (false, { w with clock := w.clock.waitForever })
  else match cue.delay with
    | none => (true, w)
    | some delay =>
      let (came, clock) := w.clock.wait delay
      (came, { w with clock := clock })

/-! ## What the remote answers -/

/-- The answer to a question for topics. -/
def resolve (keys : TopicKeys) (w : World) : Except Halt TopicMapping × World :=
  let w := w.begin (.resolve keys)
  let cue := w.resolveCues.head?.getD .plain
  let (came, w) := { w with resolveCues := w.resolveCues.tail }.await cue
  if !came then (.error .abandoned, w)
  else match cue.error with
    | some e => (.error (.failure e), w)
    | none => (.ok (cue.mapping.getD (Endpoint.Resolver.resolveAll ⟨w.topics⟩ keys)), w)

/-- What an endpoint with the log of the remote answers to a fetch, chunk by chunk. -/
def stream (requests : ConsumeRequests) (w : World) : List Bytes × World :=
  let writer := Endpoint.ChunkWriter.new w.chunkSize (.new none true)
  let answer := (Endpoint.Answer.stream FaultyLog.fetch ⟨w.topics⟩ w.maxPerRead requests
    ⟨writer, 0, w.remote, .empty⟩).2
  (answer.writer.receiver.chunks, { w with remote := answer.log })

/-- The answer to a fetch. -/
def fetch (requests : ConsumeRequests) (w : World) : Delivery × World :=
  let w := w.begin (.fetch requests)
  let cue := w.fetchCues.head?.getD .plain
  let (came, w) := { w with fetchCues := w.fetchCues.tail }.await cue
  if !came then (⟨[], .error .abandoned⟩, w)
  else match cue.elements, cue.error, cue.pieces with
    | some elements, none, _ => (⟨elements, .ok ()⟩, w)
    | some elements, some e, _ => (⟨elements, .error (.failure e)⟩, w)
    | none, some e, _ => (.failed e, w)
    | none, none, some pieces => (.ofBody pieces, w)
    | none, none, none =>
      let (chunks, w) := w.stream requests
      (.ofBody chunks, w)

/-- Notes that an element is about to be handled. -/
def arrive (w : World) : World :=
  let w := { w with arrivals := w.arrivals + 1 }
  w.reach .arrival w.arrivals

/-- Lets the remote shut down, for which at most a time is allowed. -/
def shutdown (timeout : Nat) (w : World) : World :=
  let w := w.begin .shutdown
  let cue := w.shutdownCues.head?.getD .plain
  let delay := if cue.hangs then timeout else min (cue.delay.getD 0) timeout
  { w with shutdownCues := w.shutdownCues.tail, clock := w.clock.pass delay }

/-! ## What this side does -/

/-- Publishes to the log of this side. -/
def publish (topic : TopicName) (payload : Bytes) (w : World) : Except LogError MessageId × World :=
  match w.ownLog.publish topic payload with
  | (.error e, log) => (.error e, { w with ownLog := log })
  | (.ok id, log) =>
    (.ok id, { w with ownLog := log, published := (topic, payload) :: w.published })

/-- Loads an offset. -/
def offset (topic : TopicName) (subscriber : SubscriberName) (w : World) :
    Except OffsetError (Option MessageId) × World :=
  let (result, offsets) := w.offsets.get topic subscriber
  (result, { w with offsets := offsets })

/-- Commits an offset, at a time that no answer shows. -/
def commit (topic : TopicName) (subscriber : SubscriberName) (id : MessageId) (w : World) :
    Except OffsetError Unit × World :=
  match w.offsets.put 0 topic subscriber id with
  | (.error e, offsets) => (.error e, { w with offsets := offsets })
  | (.ok (), offsets) =>
    (.ok (), { w with offsets := offsets, committed := ⟨topic, subscriber, id⟩ :: w.committed })

/-- Waits; false if a stop came first. -/
def wait (delay : Nat) (w : World) : Bool × World :=
  let (came, clock) := w.clock.wait delay
  (came, { w with clock := clock })

/-- The world as a monitor sees it.  Nothing is left to chance: no wait has a random part. -/
def surroundings : Monitor.Surroundings World where
  isStopRequested w := w.clock.isStopRequested
  isDeserted w := w.clock.isDeserted
  enter phase w := { w with phase := phase }
  resolve := resolve
  fetch := fetch
  arrive := arrive
  shutdown := shutdown
  publish := publish
  offset := offset
  commit := commit
  draw _ w := (0, w)
  wait := wait

end World
end TopicRelay.Rehearsal
