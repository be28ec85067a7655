/-
  What an endpoint can be told.

  Every setting has a default, and each group of settings may be left out or given in part.
-/
import TopicRelay.Json.Record
import TopicRelay.Wire.ConsumeRequest

namespace TopicRelay.Endpoint

open Json

/-- Where the endpoint listens, and the largest request body it reads. -/
structure ServerSettings where
  ipAddress : String
  port : UInt16
  maxRequestBytes : UInt64
deriving DecidableEq, Repr

/-- How topics are read and answers written. -/
structure RelaySettings where
  /-- The number of bytes that makes a chunk be sent. -/
  chunkSize : Nat
  /-- The most messages that are read at once. -/
  maxMessagesPerRead : Nat
  /-- The largest limit that a request may have for a topic. -/
  maxLimit : UInt32
  /-- How many chunks may wait to be sent. -/
  channelCapacity : Nat
deriving DecidableEq, Repr

/-- Whether, and where to, counters are sent. -/
structure MetricsSettings where
  enabled : Bool
  statsdAddress : String
  metricPrefix : String
deriving DecidableEq, Repr

/-- All settings of an endpoint. -/
structure Settings where
  server : ServerSettings
  relay : RelaySettings
  metrics : MetricsSettings
  topics : TopicMapping
deriving DecidableEq

/-! ## Defaults -/

/-- Listening on this machine only, for requests of up to 64 KiB. -/
def ServerSettings.default : ServerSettings := ⟨"127.0.0.1", 8090, 65536⟩
/-- Chunks of 8 KiB, of which four may wait, and batches of a hundred messages. -/
def RelaySettings.default : RelaySettings := ⟨8192, 100, Wire.ConsumeRequests.maxLimit, 4⟩
/-- Counters are not sent; the address is that of a collector on this machine. -/
def MetricsSettings.default : MetricsSettings := ⟨false, "127.0.0.1:8125", "runtime.relay.endpoint"⟩
/-- All defaults, and no topics. -/
def Settings.default : Settings := ⟨.default, .default, .default, SortedMap.empty⟩

/-! ## Reading -/

/-- The fields of `ServerSettings`. -/
def ServerSettings.layout : Layout ServerSettings where
  name := "ServerSettings"
  blank := .default
  fields := [
    .optional "ip_address" Reader.text fun s r => { r with ipAddress := s },
    .optional "port" Reader.word16 fun n r => { r with port := n },
    .optional "max_request_bytes" Reader.word64 fun n r => { r with maxRequestBytes := n }]

/-- The fields of `RelaySettings`. -/
def RelaySettings.layout : Layout RelaySettings where
  name := "RelaySettings"
  blank := .default
  fields := [
    .optional "chunk_size" Reader.size fun n r => { r with chunkSize := n },
    .optional "max_messages_per_read" Reader.size fun n r => { r with maxMessagesPerRead := n },
    .optional "max_limit" Reader.word32 fun n r => { r with maxLimit := n },
    .optional "channel_capacity" Reader.size fun n r => { r with channelCapacity := n }]

/-- The fields of `MetricsSettings`. -/
def MetricsSettings.layout : Layout MetricsSettings where
  name := "MetricsSettings"
  blank := .default
  fields := [
    .optional "enabled" Reader.boolean fun b r => { r with enabled := b },
    .optional "statsd_address" Reader.text fun s r => { r with statsdAddress := s },
    .optional "prefix" Reader.text fun s r => { r with metricPrefix := s }]

/-- The groups of settings. -/
def Settings.layout : Layout Settings where
  name := "Settings"
  blank := .default
  fields := [
    .optional "server" ServerSettings.layout.reader fun x r => { r with server := x },
    .optional "relay" RelaySettings.layout.reader fun x r => { r with relay := x },
    .optional "metrics" MetricsSettings.layout.reader fun x r => { r with metrics := x },
    .optional "topics" (Reader.sortedMap Reader.text) fun x r => { r with topics := x }]

end TopicRelay.Endpoint
