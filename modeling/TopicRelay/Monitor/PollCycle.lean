/-
  One round of relaying.

  A cycle fetches once for all resolved keys.  Each element of the answer is handled when it comes:
  its messages are published on this side, and only then its last id is committed.  So a failure at
  any point can make messages be relayed twice, but never makes one be left out.

  * An element that reports an error is noted, and the others are handled all the same.
  * An element of a topic that was not asked for, a failure on this side, and a stop end the cycle;
    what was published and committed before stays so.
  * Only when the whole answer has come, missing topics are counted and the policy for them applies.
-/
import TopicRelay.Monitor.Tracking

namespace TopicRelay.Monitor

open Wire (ConsumeRequest ConsumeRequests TopicMessages)

/-! ## Handling an element -/

/-- What a cycle has seen of its answer so far. -/
structure Intake where
  resolved : SortedMap TopicProgress
  /-- The number of messages relayed, for each key that had an element without an error. -/
  received : SortedMap Nat
  /-- The keys whose topics the remote does not have. -/
  notFound : KeySet
  /-- The keys whose topics the remote failed to read. -/
  unreadable : KeySet

namespace Intake

variable {σ : Type}

/-- Nothing of the answer has been seen. -/
def start (resolved : SortedMap TopicProgress) : Intake :=
  ⟨resolved, SortedMap.empty, SortedMap.empty, SortedMap.empty⟩

/-- Notes the error that an element reports. -/
def note (i : Intake) (e : TopicMessages) : Intake :=
  if e.isNotFound then { i with notFound := i.notFound.add e.topic }
  else { i with unreadable := i.unreadable.add e.topic }

/-- Counts messages of a key. -/
def count (i : Intake) (key : TopicKey) (n : Nat) : Intake :=
  { i with received := i.received.insert key ((i.received.get? key).getD 0 + n) }

/-- Sets how far a key has got. -/
def advance (i : Intake) (key : TopicKey) (p : TopicProgress) (id : MessageId) : Intake :=
  { i with resolved := i.resolved.insert key { p with lastMessageId := some id } }

/-- Publishes messages one after the other, up to the first failure. -/
def publishAll (env : Surroundings σ) (topic : TopicName) :
    List Message → σ → Except RelayError Unit × σ
  | [], w => (.ok (), w)
  | m :: rest, w => match env.publish topic m.payload w with
    | (.error e, w) => (.error (.store e.message), w)
    | (.ok _, w) => publishAll env topic rest w

/-- Commits the last id of an element, unless it is committed already. -/
def commitLast (env : Surroundings σ) (subscriber : SubscriberName) (p : TopicProgress)
    (e : TopicMessages) (i : Intake) (w : σ) : Except RelayError Unit × Intake × σ :=
  match e.lastMessageId? with
  | none => (.ok (), i, w)
  | some id =>
    -- what counts is the id that this key has got to, whatever is stored for its topic
    if p.lastMessageId = some id then (.ok (), i, w)
    else match env.commit p.remoteTopic subscriber id w with
      | (.error e, w) => (.error (.store e.message), i, w)
      | (.ok (), w) => (.ok (), i.advance e.topic p id, w)

/-- Handles the messages of an element. -/
def relay (env : Surroundings σ) (subscriber : SubscriberName) (p : TopicProgress)
    (e : TopicMessages) (i : Intake) (w : σ) : Except RelayError Unit × Intake × σ :=
  match publishAll env p.localTopic e.messages w with
  | (.error x, w) => (.error x, i, w)
  | (.ok (), w) => match commitLast env subscriber p e i w with
    | (.error x, i, w) => (.error x, i, w)
    | (.ok (), i, w) => (.ok (), i.count e.topic e.messages.length, w)

/-- The error for an element of a topic that was not asked for. -/
def unrequested (topic : TopicKey) : RelayError :=
  .malformed ("Response contains topic " ++ topic ++ " which was not requested")

/-- Handles an element, unless a stop was requested. -/
def accept (env : Surroundings σ) (subscriber : SubscriberName) (e : TopicMessages) (i : Intake)
    (w : σ) : Except RelayError Unit × Intake × σ :=
  if env.isStopRequested w then (.error .stopped, i, w)
  else match i.resolved.get? e.topic with
    | none => (.error (unrequested e.topic), i, w)
    | some p => if e.error.isSome then (.ok (), i.note e, w) else relay env subscriber p e i w

/-- Handles the elements of an answer as they come, up to the first one that cannot be. -/
def acceptAll (env : Surroundings σ) (subscriber : SubscriberName) :
    List TopicMessages → Intake → σ → Except RelayError Unit × Intake × σ
  | [], i, w => (.ok (), i, w)
  | e :: rest, i, w => match accept env subscriber e i (env.arrive w) with
    | (.error x, i, w) => (.error x, i, w)
    | (.ok (), i, w) => acceptAll env subscriber rest i w

/-- Handles an answer; an element that cannot be handled ends it early. -/
def receive (env : Surroundings σ) (subscriber : SubscriberName) (d : Delivery) (i : Intake)
    (w : σ) : Except Halt Unit × Intake × σ :=
  match acceptAll env subscriber d.elements i w with
  | (.error x, i, w) => (.error (.failure x), i, w)
  | (.ok (), i, w) => (d.ending, i, w)

end Intake

/-! ## The cycle -/

/-- What a cycle came to. -/
structure CycleSummary where
  messageCount : Nat
  /-- Whether some topic gave as many messages as it was asked for, so that more may be waiting. -/
  drain : Bool
  /-- The keys whose topics the remote does not have. -/
  topicsNotFound : List TopicKey
deriving DecidableEq, Repr

namespace CycleSummary

/-- A cycle with nothing to do. -/
def idle : CycleSummary := ⟨0, false, []⟩

/-- The summary of an answer that has come as a whole, where each key was asked for `limit` messages
    at most. -/
def ofIntake (limit : Nat) (i : Intake) : CycleSummary where
  messageCount := i.received.values.foldr (· + ·) 0
  drain := i.received.values.any (limit ≤ ·)
  topicsNotFound := i.notFound.keys

end CycleSummary

namespace Tracking

variable {σ : Type}

/-- What a cycle asks for. -/
def requests (t : Tracking) : ConsumeRequests :=
  t.resolved.map fun _ p => ⟨p.lastMessageId, t.settings.batchLimit⟩

/-- Counts the keys that were missing; a key that was not missing starts anew. -/
def countMissing (missing : KeySet) (resolved : SortedMap TopicProgress) :
    SortedMap TopicProgress :=
  resolved.map fun key p =>
    { p with notFoundCount := if missing.contains key then p.notFoundCount + 1 else 0 }

/-- Whether a key has been missing for as long as the settings allow. -/
def isOverdue (t : Tracking) (key : TopicKey) : Bool :=
  (t.resolved.get? key).any fun p => t.settings.notFoundThreshold ≤ p.notFoundCount

/-- Gives a key up. -/
def drop (t : Tracking) (key : TopicKey) : Tracking :=
  { t with resolved := t.resolved.erase key, dropped := t.dropped.add key }

/-- Applies the policy to missing keys, one by one. -/
def applyPolicy : List TopicKey → Tracking → Except RelayError Unit × Tracking
  | [], t => (.ok (), t)
  | key :: rest, t =>
    if t.isOverdue key then
      match t.settings.notFoundPolicy with
      | .retry => applyPolicy rest t
      | .dropTopic => applyPolicy rest (t.drop key)
      | .fail => (.error (.topicNotFound key), t)
    else applyPolicy rest t

/-- The error for topics that the remote failed to read. -/
def unreadable (keys : List TopicKey) : RelayError :=
  .transient ("Remote store failed to read " ++ String.intercalate ", " keys)

/-- What follows from an answer that has come as a whole. -/
def conclude (t : Tracking) (i : Intake) : Except RelayError CycleSummary × Tracking :=
  let t := { t with resolved := countMissing i.notFound i.resolved }
  match applyPolicy i.notFound.keys t with
  | (.error e, t) => (.error e, t)
  | (.ok (), t) =>
    if i.unreadable.isEmpty then (.ok (.ofIntake t.settings.batchLimit.toNat i), t)
    else (.error (unreadable i.unreadable.keys), t)

/-- Fetches once for every resolved key, and relays what comes back. -/
def pollCycle (env : Surroundings σ) (t : Tracking) (w : σ) :
    Except Halt CycleSummary × Tracking × σ :=
  if t.resolved.isEmpty then (.ok .idle, t, w)
  else
    let (delivery, w) := env.fetch t.requests w
    match Intake.receive env t.settings.subscriber delivery (.start t.resolved) w with
    | (.error h, i, w) => (.error h, { t with resolved := i.resolved }, w)
    | (.ok (), i, w) =>
      let (result, t) := t.conclude i
      (result.mapError .failure, t, w)

end Tracking
end TopicRelay.Monitor
