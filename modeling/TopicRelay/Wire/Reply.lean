/-
  The small requests and replies: topic resolution, shutdown, and refusals.
-/
import TopicRelay.Wire.TopicMessages

namespace TopicRelay.Wire

open Json

/-! ## Paths, relative to the base url of an endpoint -/

namespace Path

/-- Topic resolution. -/
def topics : String := "/v1/runtime/monitor/topics"

/-- Fetching messages. -/
def metadata : String := "/v1/runtime/metadata"

/-- Shutting the remote program down. -/
def shutdown : String := "/v1/runtime/shutdown"

/-- Asking whether the endpoint is there. -/
def ping : String := "/v1/runtime/ping"

end Path

/-! ## Topic resolution -/

/-- Keys as JSON. -/
def printKeys (keys : TopicKeys) : Bytes := Printer.array (keys.keys.map Printer.text)

/-- Reads keys. -/
def keysReader : Reader TopicKeys := Reader.keySet

/-- A mapping as JSON. -/
def printMapping (m : TopicMapping) : Bytes :=
  Printer.object (m.entries.map fun e => (e.1, Printer.text e.2))

/-- Reads a mapping. -/
def mappingReader : Reader TopicMapping := Reader.sortedMap Reader.text

/-! ## Shutdown -/

/-- The reply to a shutdown request; `first` is false when an earlier one already had its effect. -/
structure ShutdownResult where
  accepted : Bool
  first : Bool
deriving DecidableEq, Repr

namespace ShutdownResult

/-- A shutdown reply as JSON. -/
def print (r : ShutdownResult) : Bytes :=
  Printer.object [("accepted", Printer.boolean r.accepted), ("first", Printer.boolean r.first)]

/-- The fields of a shutdown reply. -/
def layout : Layout ShutdownResult where
  name := "ShutdownResult"
  blank := ⟨false, false⟩
  fields := [
    .required "accepted" Reader.boolean fun b r => { r with accepted := b },
    .required "first" Reader.boolean fun b r => { r with first := b }]

end ShutdownResult

/-! ## Refusals -/

/-- The body of a reply that refuses a request. -/
structure ErrorResponse where
  code : ErrorCode
  message : String
deriving DecidableEq, Repr

namespace ErrorResponse

/-- A refusal for display. -/
def display (r : ErrorResponse) : String := displayError r.code r.message

/-- A refusal as JSON. -/
def print (r : ErrorResponse) : Bytes :=
  Printer.object [("code", Printer.natural r.code.toNat), ("message", Printer.text r.message)]

/-- The fields of a refusal. -/
def layout : Layout ErrorResponse where
  name := "ErrorResponse"
  blank := ⟨0, ""⟩
  fields := [
    .required "code" Reader.word16 fun n r => { r with code := n },
    .required "message" Reader.text fun s r => { r with message := s }]

end ErrorResponse
end TopicRelay.Wire
