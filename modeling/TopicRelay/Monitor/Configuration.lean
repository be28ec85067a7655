/-
  The settings of a monitor from its files and variables.

  Settings that no endpoint would accept are refused here already.
-/
import TopicRelay.Config.Sources
import TopicRelay.Monitor.Settings

namespace TopicRelay.Monitor

open Config (Value)

/-- Where the remote is, and how long it may take. -/
def RemoteSettings.fields : List (Config.Field RemoteSettings) := [
  .text "base_url" fun s r => { r with baseUrl := s },
  .natural "request_timeout_ms" fun n r => { r with requestTimeout := UInt64.ofNat n },
  .natural "shutdown_timeout_ms" fun n r => { r with shutdownTimeout := UInt64.ofNat n }]

/-- What is relayed, and how. -/
def RelaySettings.fields : List (Config.Field RelaySettings) := [
  .text "subscriber" fun s r => { r with subscriber := s },
  .converted Value.toTexts? "topics" fun ts r => { r with topics := ts },
  .natural "batch_limit" fun n r => { r with batchLimit := UInt32.ofNat n },
  .natural "poll_interval_ms" fun n r => { r with pollInterval := UInt64.ofNat n },
  .natural "initial_backoff_ms" fun n r => { r with initialBackoff := UInt64.ofNat n },
  .natural "max_backoff_ms" fun n r => { r with maxBackoff := UInt64.ofNat n },
  .natural "max_consecutive_failures" fun n r => { r with maxConsecutiveFailures := UInt32.ofNat n },
  .converted (Value.toChoice? NotFoundPolicy.choices) "topic_not_found_policy" fun p r =>
    { r with notFoundPolicy := p },
  .natural "topic_not_found_threshold" fun n r => { r with notFoundThreshold := UInt32.ofNat n },
  .converted Value.toTextMap? "local_topics" fun m r => { r with localTopics := m }]

/-- Where offsets are kept. -/
def OffsetSettings.fields : List (Config.Field OffsetSettings) := [
  .text "scheme" fun s r => { r with scheme := s },
  .text "path" fun s r => { r with path := s }]

/-- All settings of a monitor. -/
def Settings.fields : List (Config.Field Settings) := [
  .group "remote" .default RemoteSettings.fields fun x r => { r with remote := x },
  .group "relay" .default RelaySettings.fields fun x r => { r with relay := x },
  .group "offsets" .default OffsetSettings.fields fun x r => { r with offsets := x }]

/-- Why there are no settings. -/
inductive LoadError where
  /-- The sources are malformed, or a value is of no use for its setting. -/
  | unreadable
  /-- A setting is one that no endpoint would accept. -/
  | unusable (reason : String)
deriving DecidableEq, Repr

/-- The path of the setting whose text is a list with commas. -/
def topicsPath : String := "relay.topics"

/-- The settings in some sources. -/
def Settings.load (sources : Config.Sources) : Except LoadError Settings :=
  let value := Config.Environment.recognized (· == topicsPath)
  match (sources.settings value).bind (Config.Field.record .default Settings.fields) with
  | none => .error .unreadable
  | some s => match s.relay.problem? with
    | some reason => .error (.unusable reason)
    | none => .ok s

end TopicRelay.Monitor
