/-
  Counters, by name.

  A counter starts at zero and is added to until the counters are sent off, which empties all of
  them.  They are kept whether or not there is anywhere to send them.
-/
import TopicRelay.SortedMap

namespace TopicRelay.Endpoint

/-- The counters that have been added to. -/
structure Metrics where
  counts : SortedMap Float

namespace Metrics

/-! ## The counters of the endpoint -/

def httpTopics : String := "http.request.topics.count"
def httpMetadata : String := "http.request.metadata.count"
def httpShutdown : String := "http.request.shutdown.count"
def httpPing : String := "http.request.ping.count"
def httpRejected : String := "http.request.rejected.count"
def relayMessages : String := "relay.message.count"
def relayTopicNotFound : String := "relay.topic_not_found.count"
def relayStoreError : String := "relay.store_error.count"

/-! ## Counting -/

/-- No counter has been added to. -/
def empty : Metrics := ⟨SortedMap.empty⟩

/-- What a counter has come to. -/
def pending (m : Metrics) (name : String) : Float := (m.counts.get? name).getD 0

/-- Adds to a counter. -/
def count (m : Metrics) (name : String) (n : Float) : Metrics :=
  ⟨m.counts.insert name (m.pending name + n)⟩

/-- Adds one to a counter. -/
def increment (m : Metrics) (name : String) : Metrics := m.count name 1

/-- The counters after they were sent off; without anywhere to send them they stay. -/
def flushed (connected : Bool) (m : Metrics) : Metrics := if connected then empty else m

end Metrics
end TopicRelay.Endpoint
