/-
  The settings of an endpoint from its files and variables.
-/
import TopicRelay.Config.Sources
import TopicRelay.Endpoint.Settings

namespace TopicRelay.Endpoint

open Config (Value)

/-- Where the endpoint listens. -/
def ServerSettings.fields : List (Config.Field ServerSettings) := [
  .text "ip_address" fun s r => { r with ipAddress := s },
  .natural "port" fun n r => { r with port := UInt16.ofNat n },
  .natural "max_request_bytes" fun n r => { r with maxRequestBytes := UInt64.ofNat n }]

/-- How topics are read and answers written. -/
def RelaySettings.fields : List (Config.Field RelaySettings) := [
  .natural "chunk_size" fun n r => { r with chunkSize := n },
  .natural "max_messages_per_read" fun n r => { r with maxMessagesPerRead := n },
  .natural "max_limit" fun n r => { r with maxLimit := UInt32.ofNat n },
  .natural "channel_capacity" fun n r => { r with channelCapacity := n }]

/-- Whether, and where to, counters are sent. -/
def MetricsSettings.fields : List (Config.Field MetricsSettings) := [
  .boolean "enabled" fun b r => { r with enabled := b },
  .text "statsd_address" fun s r => { r with statsdAddress := s },
  .text "prefix" fun s r => { r with metricPrefix := s }]

/-- All settings of an endpoint. -/
def Settings.fields : List (Config.Field Settings) := [
  .group "server" .default ServerSettings.fields fun x r => { r with server := x },
  .group "relay" .default RelaySettings.fields fun x r => { r with relay := x },
  .group "metrics" .default MetricsSettings.fields fun x r => { r with metrics := x },
  .converted Value.toTextMap? "topics" fun x r => { r with topics := x }]

/-- The settings in some sources, unless there is something wrong with them. -/
def Settings.load? (sources : Config.Sources) : Option Settings :=
  (sources.settings Config.Environment.asWritten).bind (Config.Field.record .default Settings.fields)

end TopicRelay.Endpoint
