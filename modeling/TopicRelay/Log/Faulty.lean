/-
  A log that fails on schedule.

  To see what a relay does when its log fails, a log in memory is wrapped with a schedule of
  faults: topics that cannot be read, and calls that fail by their number.  The wrapper also keeps
  the questions it was asked.  Changes made to the log directly, as another process would make
  them, are neither counted nor made to fail.
-/
import TopicRelay.Log.Memory

namespace TopicRelay

/-- A log in memory with the faults that its callers meet. -/
structure FaultyLog where
  log : MemoryLog
  /-- The topics that cannot be read, with the reason. -/
  brokenTopics : SortedMap String
  /-- The numbers, from one, of the reads that fail. -/
  brokenReads : List Nat
  /-- The numbers, from one, of the publications that fail. -/
  brokenPublications : List Nat
  /-- The questions asked so far, the last one first. -/
  asked : List LogQuery
  /-- How many publications were tried so far. -/
  published : Nat

namespace FaultyLog

/-- A log without faults. -/
def sound (log : MemoryLog) : FaultyLog := ⟨log, SortedMap.empty, [], [], [], 0⟩

/-- The failure of the call with a number. -/
def scheduled (call : String) (n : Nat) : LogError :=
  .failure (call ++ " " ++ Text.Numeral.text n ++ " failed")

/-- Asks the log; a failure by number comes before one by topic. -/
def fetch : LogReader FaultyLog := fun q l =>
  let n := l.asked.length + 1
  let result :=
    if l.brokenReads.contains n then .error (scheduled "fetch" n)
    else match l.brokenTopics.get? q.topic with
      | some reason => .error (.failure reason)
      | none => l.log.fetch q
  (result, { l with asked := q :: l.asked })

/-- Publishes to the log. -/
def publish (l : FaultyLog) (topic : TopicName) (payload : Bytes) :
    Except LogError MessageId × FaultyLog :=
  let n := l.published + 1
  let counted := { l with published := n }
  if l.brokenPublications.contains n then (.error (scheduled "publish" n), counted)
  else match l.log.publish topic payload with
    | .error e => (.error e, counted)
    | .ok (id, log) => (.ok id, { counted with log := log })

/-- A change made to a log from outside. -/
inductive Change where
  | create (topic : TopicName)
  /-- Publishes payloads one after the other, up to the first failure. -/
  | publish (topic : TopicName) (payloads : List Bytes)
  | break (topic : TopicName) (reason : String)
  | repair (topic : TopicName)

/-- Makes a change.  Publishing gives the id of the last message, all else gives none. -/
def change (l : FaultyLog) : Change → Except LogError (Option MessageId) × FaultyLog
  | .create topic => (.ok none, { l with log := l.log.create topic })
  | .publish topic payloads =>
    let (result, log) := MemoryLog.publishAll topic none payloads l.log
    (result, { l with log := log })
  | .break topic reason => (.ok none, { l with brokenTopics := l.brokenTopics.insert topic reason })
  | .repair topic => (.ok none, { l with brokenTopics := l.brokenTopics.erase topic })

end FaultyLog
end TopicRelay
