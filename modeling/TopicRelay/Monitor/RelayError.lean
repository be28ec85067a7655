/-
  What can go wrong while a monitor relays.

  Some of it passes by itself: the remote is away for a while, or a store is busy.  The monitor tries
  again after such an error, and gives up at once after any other.
-/
import TopicRelay.Text.Numeral
import TopicRelay.Wire.TopicKey

namespace TopicRelay.Monitor

/-- Why relaying failed. -/
inductive RelayError where
  /-- The remote could not be reached, did not answer in time, or failed. -/
  | transient (reason : String)
  /-- The remote refused the request, and would refuse it again. -/
  | rejected (status : UInt16) (reason : String)
  /-- The answer of the remote makes no sense. -/
  | malformed (reason : String)
  /-- A message could not be published, or an offset not read or committed, on this side. -/
  | store (reason : String)
  /-- The remote has not had a topic for too long. -/
  | topicNotFound (topic : TopicKey)
  /-- There were too many failures in a row; `last` is the wording of the last one. -/
  | tooManyFailures (count : UInt32) (last : String)
  /-- The monitor was given settings that no endpoint would accept. -/
  | invalidSettings (reason : String)
  /-- A stop was requested. -/
  | stopped
  /-- The monitor was used in a way that makes no sense. -/
  | internal (reason : String)
deriving DecidableEq, Repr

namespace RelayError

/-- Whether trying again can help. -/
def isRetryable : RelayError → Bool
  | .transient _ | .store _ => true
  | _ => false

/-- The wording of an error. -/
def message : RelayError → String
  | .transient reason => "Transient failure: " ++ reason
  | .rejected status reason =>
    "Request rejected with status " ++ Text.Numeral.text status.toNat ++ ": " ++ reason
  | .malformed reason => "Malformed response: " ++ reason
  | .store reason => "Local store failure: " ++ reason
  | .topicNotFound topic => "Topic " ++ topic ++ " is not available on the remote"
  | .tooManyFailures count last =>
    "Gave up after " ++ Text.Numeral.text count.toNat ++ " consecutive failures, last was: " ++ last
  | .invalidSettings reason => "Invalid settings: " ++ reason
  | .stopped => "Stopped"
  | .internal reason => "Internal error: " ++ reason

end RelayError
end TopicRelay.Monitor
