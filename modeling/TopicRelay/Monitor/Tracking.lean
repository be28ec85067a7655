/-
  Which topics a monitor relays, and how far it has got with each.

  Every configured key is in one of three places.  It is unresolved until the remote names a topic
  for it; then it is resolved, and has a progress; and it is dropped for good when the remote keeps
  not having its topic and the settings say so.

  Keys are resolved one by one, in key order.  When the offset of one cannot be loaded, the keys
  before it stay resolved and those from it on stay as they were.
-/
import TopicRelay.Monitor.Backoff
import TopicRelay.Monitor.Settings
import TopicRelay.Monitor.Surroundings

namespace TopicRelay.Monitor

/-- How far the monitor has got with a topic. -/
structure TopicProgress where
  remoteTopic : TopicName
  localTopic : TopicName
  /-- The last id that was committed. -/
  lastMessageId : Option MessageId
  /-- How many times in a row the remote did not have the topic.  It wraps around. -/
  notFoundCount : UInt32
deriving DecidableEq, Repr

/-- A monitor between two things it does. -/
structure Tracking where
  settings : RelaySettings
  /-- The progress of the keys that are resolved. -/
  resolved : SortedMap TopicProgress
  unresolved : TopicKeys
  dropped : TopicKeys
  backoff : Backoff

namespace Tracking

variable {σ : Type}

/-- A monitor that has not done anything yet. -/
def new (settings : RelaySettings) : Tracking where
  settings := settings
  resolved := SortedMap.empty
  unresolved := settings.keys
  dropped := SortedMap.empty
  backoff := .new settings.initialBackoff settings.maxBackoff settings.maxConsecutiveFailures

/-- Takes a key as resolved to a topic of the remote, which is done up to an id. -/
def adopt (t : Tracking) (key : TopicKey) (remoteTopic : TopicName) (last : Option MessageId) :
    Tracking :=
  { t with
    unresolved := t.unresolved.erase key
    resolved := t.resolved.insert key ⟨remoteTopic, t.settings.localTopic key, last, 0⟩ }

/-- Whether a name that the remote gives for a key is of any use. -/
def isWanted (t : Tracking) (key : TopicKey) (remoteTopic : TopicName) : Bool :=
  !Text.isBlankText remoteTopic && t.unresolved.contains key

/-- Goes through the entries of a mapping, and loads the offset of each key that it resolves.
    `count` keys are resolved already. -/
def adoptAll (env : Surroundings σ) (count : Nat) :
    List (TopicKey × TopicName) → Tracking → σ → Except RelayError Nat × Tracking × σ
  | [], t, w => (.ok count, t, w)
  | (key, remoteTopic) :: rest, t, w =>
    if t.isWanted key remoteTopic then
      match env.offset remoteTopic t.settings.subscriber w with
      | (.error e, w) => (.error (.store e.message), t, w)
      | (.ok last, w) => adoptAll env (count + 1) rest (t.adopt key remoteTopic last) w
    else adoptAll env count rest t w

/-- Asks the remote for the keys that are unresolved, if there are any: how many it resolved. -/
def resolveTopics (env : Surroundings σ) (t : Tracking) (w : σ) : Except Halt Nat × Tracking × σ :=
  if t.unresolved.isEmpty then (.ok 0, t, w)
  else match env.resolve t.unresolved w with
    | (.error h, w) => (.error h, t, w)
    | (.ok mapping, w) =>
      let (result, t, w) := adoptAll env 0 mapping.entries t w
      (result.mapError .failure, t, w)

end Tracking
end TopicRelay.Monitor
