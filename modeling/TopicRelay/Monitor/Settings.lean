/-
  What a monitor can be told.

  Every setting has a default, and each group of settings may be left out or given in part.
-/
import TopicRelay.Json.Choice
import TopicRelay.Json.Record
import TopicRelay.Text.Blank
import TopicRelay.Wire.ConsumeRequest

namespace TopicRelay.Monitor

open Json

/-- What is done about a topic that the remote keeps not having. -/
inductive NotFoundPolicy where
  /-- It is asked for again and again. -/
  | retry
  /-- It is given up, and the others go on. -/
  | dropTopic
  /-- The monitor fails. -/
  | fail
deriving DecidableEq, Repr

/-- Where the remote is, and how long it may take.  Times are in milliseconds. -/
structure RemoteSettings where
  baseUrl : String
  requestTimeout : UInt64
  shutdownTimeout : UInt64
deriving DecidableEq, Repr

/-- What is relayed, and how.  Times are in milliseconds. -/
structure RelaySettings where
  subscriber : SubscriberName
  topics : List TopicKey
  /-- The most messages that are asked for at once, for each topic. -/
  batchLimit : UInt32
  pollInterval : UInt64
  initialBackoff : UInt64
  maxBackoff : UInt64
  /-- How many failures in a row are put up with. -/
  maxConsecutiveFailures : UInt32
  notFoundPolicy : NotFoundPolicy
  /-- How many times in a row a topic has to be missing before the policy applies. -/
  notFoundThreshold : UInt32
  /-- The topics of this side by key; a key that has none, or a blank one, is its own topic. -/
  localTopics : TopicMapping
deriving DecidableEq

/-- Where offsets are kept. -/
structure OffsetSettings where
  scheme : String
  path : String
deriving DecidableEq, Repr

/-- All settings of a monitor. -/
structure Settings where
  remote : RemoteSettings
  relay : RelaySettings
  offsets : OffsetSettings
deriving DecidableEq

/-! ## Defaults -/

/-- A remote on this machine, with half a minute for a request and five seconds for a shutdown. -/
def RemoteSettings.default : RemoteSettings := ⟨"http://127.0.0.1:8090", 30000, 5000⟩

/-- No topics; a hundred messages at a time, asked for each second. -/
def RelaySettings.default : RelaySettings where
  subscriber := "runtime-monitor"
  topics := []
  batchLimit := 100
  pollInterval := 1000
  initialBackoff := 500
  maxBackoff := 30000
  maxConsecutiveFailures := 10
  notFoundPolicy := .retry
  notFoundThreshold := 5
  localTopics := SortedMap.empty

/-- Offsets are kept in files. -/
def OffsetSettings.default : OffsetSettings := ⟨"file-system", "data/offsets"⟩
/-- All defaults. -/
def Settings.default : Settings := ⟨.default, .default, .default⟩

/-! ## Reading -/

/-- The names of the policies. -/
def NotFoundPolicy.choices : List (String × NotFoundPolicy) :=
  [("retry", .retry), ("drop-topic", .dropTopic), ("fail", .fail)]

/-- The fields of `RemoteSettings`. -/
def RemoteSettings.layout : Layout RemoteSettings where
  name := "RemoteSettings"
  blank := .default
  fields := [
    .optional "base_url" Reader.text fun s r => { r with baseUrl := s },
    .optional "request_timeout_ms" Reader.word64 fun n r => { r with requestTimeout := n },
    .optional "shutdown_timeout_ms" Reader.word64 fun n r => { r with shutdownTimeout := n }]

/-- The fields of `RelaySettings`. -/
def RelaySettings.layout : Layout RelaySettings where
  name := "RelaySettings"
  blank := .default
  fields := [
    .optional "subscriber" Reader.text fun s r => { r with subscriber := s },
    .optional "topics" (Reader.list Reader.text) fun ts r => { r with topics := ts },
    .optional "batch_limit" Reader.word32 fun n r => { r with batchLimit := n },
    .optional "poll_interval_ms" Reader.word64 fun n r => { r with pollInterval := n },
    .optional "initial_backoff_ms" Reader.word64 fun n r => { r with initialBackoff := n },
    .optional "max_backoff_ms" Reader.word64 fun n r => { r with maxBackoff := n },
    .optional "max_consecutive_failures" Reader.word32 fun n r =>
      { r with maxConsecutiveFailures := n },
    .optional "topic_not_found_policy" (Reader.choice NotFoundPolicy.choices) fun p r =>
      { r with notFoundPolicy := p },
    .optional "topic_not_found_threshold" Reader.word32 fun n r => { r with notFoundThreshold := n },
    .optional "local_topics" (Reader.sortedMap Reader.text) fun m r => { r with localTopics := m }]

/-- The fields of `OffsetSettings`. -/
def OffsetSettings.layout : Layout OffsetSettings where
  name := "OffsetSettings"
  blank := .default
  fields := [
    .optional "scheme" Reader.text fun s r => { r with scheme := s },
    .optional "path" Reader.text fun s r => { r with path := s }]

/-- The groups of settings. -/
def Settings.layout : Layout Settings where
  name := "Settings"
  blank := .default
  fields := [
    .optional "remote" RemoteSettings.layout.reader fun x r => { r with remote := x },
    .optional "relay" RelaySettings.layout.reader fun x r => { r with relay := x },
    .optional "offsets" OffsetSettings.layout.reader fun x r => { r with offsets := x }]

/-! ## Using settings -/

namespace RelaySettings

/-- The first setting that an endpoint would refuse. -/
def problem? (s : RelaySettings) : Option String :=
  if s.batchLimit = 0 ∨ Wire.ConsumeRequests.maxLimit < s.batchLimit then
    some ("relay.batch_limit is " ++ Text.Numeral.text s.batchLimit.toNat
      ++ " but must be between 1 and " ++ Text.Numeral.text Wire.ConsumeRequests.maxLimit.toNat)
  else if Text.isBlankText s.subscriber then some "relay.subscriber must not be empty"
  else none

/-- The topic of this side for a key. -/
def localTopic (s : RelaySettings) (key : TopicKey) : TopicName :=
  match s.localTopics.get? key with
  | some name => if Text.isBlankText name then key else name
  | none => key

/-- The keys to relay: those that are not blank. -/
def keys (s : RelaySettings) : TopicKeys :=
  KeySet.ofKeys (s.topics.filter fun key => !Text.isBlankText key)

end RelaySettings
end TopicRelay.Monitor
