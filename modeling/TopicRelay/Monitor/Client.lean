/-
  Calling a remote over HTTP.

  Each call is one request, and each says in its own words when no reply came in time.  A reply that
  is not a success becomes the error that it stands for.  The body of any other reply is read as a
  whole, and may not be too long; only the answer to a fetch has no bound, because it is decoded
  while it comes.
-/
import TopicRelay.Http.Message
import TopicRelay.Http.Status
import TopicRelay.Monitor.Delivery
import TopicRelay.Monitor.FailedReply

namespace TopicRelay.Monitor

open Wire (ConsumeRequests ShutdownResult)

/-- A reply as it comes: its status and the pieces of its body. -/
structure Reply where
  status : UInt16
  pieces : List Bytes
  /-- Whether the body came to its end. -/
  isWhole : Bool
deriving DecidableEq, Repr

/-- What came of a request. -/
inductive Exchange where
  /-- The remote could not be reached, or went away without a word. -/
  | unreachable (reason : String)
  /-- Nothing came in time. -/
  | silent
  | replied (r : Reply)
deriving DecidableEq, Repr

namespace Client

/-! ## Requests -/

/-- The request for a path with a body; the path of the base url goes before it. -/
def request (basePath path : String) (body : Bytes) : Http.Request where
  method := "POST"
  target := basePath ++ path
  headers := [("content-type", Ascii.bytes "application/json"),
    ("content-length", Text.Numeral.bytes body.length)]
  body := body

/-- Asks for the topics of some keys. -/
def topicsRequest (basePath : String) (keys : TopicKeys) : Http.Request :=
  request basePath Wire.Path.topics (Wire.printKeys keys)

/-- Asks for messages. -/
def fetchRequest (basePath : String) (requests : ConsumeRequests) : Http.Request :=
  request basePath Wire.Path.metadata requests.print

/-- Asks for the shutdown. -/
def shutdownRequest (basePath : String) : Http.Request := request basePath Wire.Path.shutdown []

/-! ## Replies -/

/-- The longest body that is read as a whole, in bytes. -/
def maxReplyLength : Nat := 1024 * 1024

/-- The error for a body that ended too early. -/
def brokenOff : RelayError := .transient "the reply broke off"

/-- The body of a reply. -/
def readBody (r : Reply) : Except RelayError Bytes :=
  if maxReplyLength < r.pieces.flatten.length then .error (.transient "the reply is too long")
  else if r.isWhole then .ok r.pieces.flatten
  else .error brokenOff

/-- The body of a reply, where one that cannot be read counts as empty. -/
def bodyOrEmpty (r : Reply) : Bytes :=
  match readBody r with
  | .ok body => body
  | .error _ => []

/-- The reply to a request, if there was one and it was a success; `late` says that none came in
    time. -/
def received (late : String) : Exchange → Except RelayError Reply
  | .unreachable reason => .error (.transient reason)
  | .silent => .error (.transient late)
  | .replied r =>
    if Http.Status.isSuccess r.status.toNat then .ok r
    else .error (FailedReply.classify r.status (bodyOrEmpty r))

/-- The value in the body of a reply. -/
def value {α : Type} (item : Json.Reader α) (r : Reply) : Except RelayError α := do
  let body ← readBody r
  (item.document body).mapError fun e => .malformed e.message

/-- The topics of some keys. -/
def topics (x : Exchange) : Except RelayError TopicMapping :=
  received "Timed out resolving topics" x >>= value Wire.mappingReader

/-- Whether the remote shuts down. -/
def shutdown (x : Exchange) : Except RelayError ShutdownResult :=
  received "Timed out requesting shutdown" x >>= value ShutdownResult.layout.reader

/-- The answer to a fetch. -/
def delivery (x : Exchange) : Delivery :=
  match received "Timed out fetching messages" x with
  | .error e => .failed e
  | .ok r => .ofPieces r.pieces fun d => if r.isWhole then Delivery.atWholeEnd d else .error brokenOff

end Client
end TopicRelay.Monitor
