/-
  What a reply means that is not a success.

  The remote says why it refused a request in the body of its reply.  A body that does not read as
  such a refusal is quoted instead, up to a length, whatever is in it.
-/
import TopicRelay.Http.Status
import TopicRelay.Monitor.RelayError
import TopicRelay.Wire.Reply

namespace TopicRelay.Monitor.FailedReply

/-- How many characters of an unreadable body are quoted. -/
def quotedLength : Nat := 200

/-- The reason that a body gives. -/
def reason (body : Bytes) : String :=
  match Json.Reader.document Wire.ErrorResponse.layout.reader body with
  | .ok refusal => refusal.message
  | .error _ => String.ofList ((Text.Utf8.decodeLossyFrom [] body).take quotedLength)

/-- Whether the request is to blame, so that sending it again would not help.  A request that came
    too slowly or too often may well succeed later. -/
def isFinal (status : UInt16) : Bool :=
  Http.Status.isClientError status.toNat && status.toNat != Http.Status.requestTimeout
    && status.toNat != Http.Status.tooManyRequests

/-- The error that a reply stands for. -/
def classify (status : UInt16) (body : Bytes) : RelayError :=
  if isFinal status then .rejected status (reason body)
  else .transient ("Status " ++ Http.Status.text status.toNat ++ ": " ++ reason body)

end TopicRelay.Monitor.FailedReply
