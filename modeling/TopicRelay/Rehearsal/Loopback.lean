/-
  A monitor's client and an endpoint, back to back.

  What the client sends goes straight to the endpoint, and the response straight back, with its body
  cut into pieces in whatever way the network between them may cut it.
-/
import TopicRelay.Endpoint.Api
import TopicRelay.Monitor.Client

namespace TopicRelay.Rehearsal.Loopback

open Endpoint (Api)
open Monitor

variable {σ : Type}

/-- Sends a request to an endpoint. -/
def exchange (read : LogReader σ) (cut : Bytes → List Bytes) (r : Http.Request) (api : Api σ) :
    Exchange × Api σ :=
  let (response, api) := api.handle read r
  (.replied ⟨UInt16.ofNat response.status, cut response.body, true⟩, api)

/-- Asks an endpoint for the topics of some keys. -/
def resolve (read : LogReader σ) (cut : Bytes → List Bytes) (keys : TopicKeys) (api : Api σ) :
    Except RelayError TopicMapping × Api σ :=
  let (x, api) := exchange read cut (Client.topicsRequest "" keys) api
  (Client.topics x, api)

/-- Asks an endpoint for messages. -/
def fetch (read : LogReader σ) (cut : Bytes → List Bytes) (requests : Wire.ConsumeRequests)
    (api : Api σ) : Delivery × Api σ :=
  let (x, api) := exchange read cut (Client.fetchRequest "" requests) api
  (Client.delivery x, api)

/-- Asks an endpoint to shut down. -/
def shutdown (read : LogReader σ) (cut : Bytes → List Bytes) (api : Api σ) :
    Except RelayError Wire.ShutdownResult × Api σ :=
  let (x, api) := exchange read cut (Client.shutdownRequest "") api
  (Client.shutdown x, api)

end TopicRelay.Rehearsal.Loopback
