/-
  How the endpoint refuses a request.

  Every refusal has a body that says why, so that the other side can tell a request that must not be
  sent again from a failure that may pass.
-/
import TopicRelay.Http.Message
import TopicRelay.Wire.Reply

namespace TopicRelay.Endpoint

open Wire (ErrorCode ErrorResponse)

/-- Why a request is refused. -/
inductive Refusal where
  | noSuchResource
  | methodNotAllowed
  /-- The length of the body is not announced. -/
  | lengthRequired
  | bodyTooLarge
  /-- The body says that it is something else than JSON. -/
  | notJson
  /-- The body could not be read. -/
  | unreadable (reason : Json.ReadError)
  /-- The body could be read, but asks for what cannot be done. -/
  | malformed (reason : String)
  /-- The endpoint failed, for a reason of its own. -/
  | internal
deriving DecidableEq, Repr

namespace Refusal

/-- The status that goes with a refusal. -/
def status : Refusal → Nat
  | .noSuchResource => 404
  | .methodNotAllowed => 405
  | .lengthRequired => 411
  | .bodyTooLarge => 413
  | .notJson => 415
  | .unreadable _ => 400
  | .malformed _ => 400
  | .internal => 500

/-- The code in the body of a refusal. -/
def code : Refusal → ErrorCode
  | .noSuchResource => ErrorCode.notFound
  | .methodNotAllowed => ErrorCode.methodNotAllowed
  | .bodyTooLarge => ErrorCode.payloadTooLarge
  | .internal => ErrorCode.generalFailure
  | _ => ErrorCode.malformedRequest

/-- The text in the body of a refusal. -/
def message : Refusal → String
  | .noSuchResource => "No such resource"
  | .methodNotAllowed => "Method not allowed"
  | .lengthRequired => "A content-length header is required"
  | .bodyTooLarge => "Request body is too large"
  | .notJson => "Request body must be JSON"
  | .unreadable reason => "Request body deserialize error: " ++ reason.message
  | .malformed reason => reason
  | .internal => "Internal error"

/-- What the other side gets. -/
def body (r : Refusal) : ErrorResponse := ⟨r.code, r.message⟩

/-- The response of a refusal. -/
def response (r : Refusal) : Http.Response := ⟨r.status, "application/json", r.body.print⟩

end Refusal
end TopicRelay.Endpoint
