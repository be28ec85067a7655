/-
  The endpoint as a whole: from requests to responses.

  A request is checked step by step, and the first check it fails decides the refusal: the path, the
  method, the announced length, the media type, the body, and last what the body asks for.  Only
  then is the log touched.
-/
import TopicRelay.Endpoint.MessageStream
import TopicRelay.Endpoint.Refusal
import TopicRelay.Endpoint.Settings
import TopicRelay.Endpoint.ShutdownTrigger
import TopicRelay.Http.MediaType

namespace TopicRelay.Endpoint

open Http (Request Response)

/-- A running endpoint, with a log whose state is of type `σ`. -/
structure Api (σ : Type) where
  settings : Settings
  log : σ
  metrics : Metrics
  trigger : ShutdownTrigger

namespace Api

variable {σ : Type}

/-- An endpoint before its first request. -/
def new (settings : Settings) (log : σ) : Api σ := ⟨settings, log, .empty, .new⟩

/-- The resolver with the configured topics. -/
def resolver (api : Api σ) : Resolver := ⟨api.settings.topics⟩

/-- Adds one to a counter. -/
def increment (api : Api σ) (counter : String) : Api σ :=
  { api with metrics := api.metrics.increment counter }

/-! ## Routes -/

/-- What can be asked for. -/
inductive Route where
  | ping | topics | metadata | shutdown
deriving DecidableEq, Repr

/-- The path of a route. -/
def Route.path : Route → String
  | .ping => Wire.Path.ping
  | .topics => Wire.Path.topics
  | .metadata => Wire.Path.metadata
  | .shutdown => Wire.Path.shutdown

/-- The method of a route. -/
def Route.method : Route → String
  | .ping => "GET"
  | _ => "POST"

/-- The route of a path; one slash may follow it. -/
def route? (path : String) : Option Route :=
  [Route.ping, .topics, .metadata, .shutdown].find? fun r => path == r.path || path == r.path ++ "/"

/-! ## Reading bodies -/

/-- The value that the body of a request holds. -/
def readBody {α : Type} (api : Api σ) (item : Json.Reader α) (r : Request) : Except Refusal α :=
  match r.contentLength? with
  | none => .error .lengthRequired
  | some n =>
    if api.settings.server.maxRequestBytes.toNat < n then .error .bodyTooLarge
    -- a request that names no media type is taken to be JSON
    else if !(r.headerValues "content-type").head?.all Http.MediaType.isJson then .error .notJson
    else match item.document r.body with
      | .error e => .error (.unreadable e)
      | .ok a => .ok a

/-! ## Answering -/

/-- A response with a JSON body. -/
def json (body : Bytes) : Response := ⟨200, "application/json", body⟩

/-- Refuses what a request asks for. -/
def reject (api : Api σ) (reason : String) : Response × Api σ :=
  ((Refusal.malformed reason).response, api.increment Metrics.httpRejected)

/-- The topics of some keys, all of which have to be valid. -/
def answerTopics (api : Api σ) (keys : TopicKeys) : Response × Api σ :=
  let api := api.increment Metrics.httpTopics
  match keys.keys.find? fun key => !Wire.TopicKey.isValid key with
  | some key => api.reject (Wire.ConsumeRequests.Problem.invalidKey key).message
  | none => (json (Wire.printMapping (api.resolver.resolveAll keys)), api)

/-- The messages of some topics. -/
def answerMetadata (read : LogReader σ) (api : Api σ) (requests : Wire.ConsumeRequests) :
    Response × Api σ :=
  let api := api.increment Metrics.httpMetadata
  match Wire.ConsumeRequests.problem? api.settings.relay.maxLimit requests with
  | some problem => api.reject problem.message
  | none =>
    let writer := ChunkWriter.new api.settings.relay.chunkSize (.new none true)
    let answer := (Answer.stream read api.resolver api.settings.relay.maxMessagesPerRead requests
      ⟨writer, 0, api.log, api.metrics⟩).2
    (⟨200, "application/json; charset=utf-8", answer.writer.receiver.body⟩,
      { api with log := answer.log, metrics := answer.metrics })

/-- Triggers the shutdown. -/
def answerShutdown (api : Api σ) : Response × Api σ :=
  let api := api.increment Metrics.httpShutdown
  let (first, trigger) := api.trigger.trigger
  (json (Wire.ShutdownResult.mk true first).print, { api with trigger := trigger })

/-- Says that the endpoint is there. -/
def answerPing (api : Api σ) : Response × Api σ :=
  (⟨200, "text/html; charset=utf-8", Ascii.bytes "pong"⟩, api.increment Metrics.httpPing)

/-- Answers a request whose body is read by `item`. -/
def withBody {α : Type} (api : Api σ) (item : Json.Reader α) (r : Request)
    (answer : α → Response × Api σ) : Response × Api σ :=
  match api.readBody item r with
  | .error refusal => (refusal.response, api)
  | .ok a => answer a

/-- Answers a request. -/
def handle (read : LogReader σ) (api : Api σ) (r : Request) : Response × Api σ :=
  match route? r.path with
  | none => (Refusal.noSuchResource.response, api)
  | some route =>
    if r.method != route.method then (Refusal.methodNotAllowed.response, api)
    else match route with
      | .ping => api.answerPing
      | .topics => api.withBody Wire.keysReader r api.answerTopics
      | .metadata => api.withBody Wire.ConsumeRequests.reader r (answerMetadata read api)
      | .shutdown => api.answerShutdown

end Api
end TopicRelay.Endpoint
