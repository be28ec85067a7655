/-
  What a client hears of a refusal.

      Refusal.response         a status, and a body that has a code and a message in it
      FailedReply.classify     an error, from a status and a body that may be anything

  specification   what is not answered is refused (`handle_refuses`), and the client hears of a refusal
                  just its message: as an error that is final where the status is between 400 and 499,
                  and as one that may pass where it is 500 (`Brings.heard`)
  the crux        a body that cannot be read is quoted in part, but the body of a refusal is read back
                  as it was written, whatever is in its message (`document_refusal`)
-/
import TopicRelay.Proofs.Endpoint.Exchange

namespace TopicRelay.Endpoint

open Http (Request)
open Monitor
open Wire (ConsumeRequests ErrorCode ErrorResponse)

/-! ## What an endpoint says -/

/-- A refusal says why in a body of its own. -/
theorem document_refusal (refusal : Refusal) :
    ErrorResponse.layout.reader.document refusal.response.body = .ok refusal.body :=
  Wire.document_of_reads (Wire.reads_refusal refusal.body)

/-- A refusal blames the request, and does so for good, or it is a failure of the endpoint. -/
theorem Refusal.status_cases (refusal : Refusal) :
    (400 ≤ refusal.status ∧ refusal.status < 500
      ∧ FailedReply.isFinal (UInt16.ofNat refusal.status) = true)
    ∨ (refusal.status = 500 ∧ FailedReply.isFinal (UInt16.ofNat refusal.status) = false) := by
  cases refusal <;> rw [Refusal.status] <;> decide

/-- Which refusals call a request malformed. -/
theorem Refusal.status_of_malformed {refusal : Refusal}
    (h : refusal.code = ErrorCode.malformedRequest) :
    refusal.status = 400 ∨ refusal.status = 411 ∨ refusal.status = 415 := by
  cases refusal with
  | lengthRequired => exact Or.inr (Or.inl rfl)
  | notJson => exact Or.inr (Or.inr rfl)
  | unreadable reason => exact Or.inl rfl
  | malformed reason => exact Or.inl rfl
  | noSuchResource => exact absurd h (by decide)
  | methodNotAllowed => exact absurd h (by decide)
  | bodyTooLarge => exact absurd h (by decide)
  | internal => exact absurd h (by decide)

namespace Api

variable {σ : Type}

theorem withBody_refuses {α : Type} (api : Api σ) (item : Json.Reader α) (r : Request)
    {answer : α → Http.Response × Api σ}
    (h : ∀ a, (answer a).1.status = 200 ∨ ∃ refusal : Refusal, (answer a).1 = refusal.response) :
    (api.withBody item r answer).1.status = 200
      ∨ ∃ refusal : Refusal, (api.withBody item r answer).1 = refusal.response := by
  rw [withBody]
  split
  · next refusal _ => exact Or.inr ⟨refusal, rfl⟩
  · next a _ => exact h a

/-- **What is not answered is refused.** -/
theorem handle_refuses (read : LogReader σ) (api : Api σ) (r : Request) :
    (api.handle read r).1.status = 200
      ∨ ∃ refusal : Refusal, (api.handle read r).1 = refusal.response := by
  rw [handle]
  split
  · exact Or.inr ⟨.noSuchResource, rfl⟩
  · split
    · exact Or.inr ⟨.methodNotAllowed, rfl⟩
    · split
      · exact Or.inl rfl
      · refine api.withBody_refuses _ r fun keys => ?_
        rw [answerTopics]
        split
        · next key _ => exact Or.inr ⟨.malformed _, rfl⟩
        · exact Or.inl rfl
      · refine api.withBody_refuses _ r fun requests => ?_
        rw [answerMetadata]
        split
        · next problem _ => exact Or.inr ⟨.malformed _, rfl⟩
        · exact Or.inl rfl
      · exact Or.inl rfl

end Api

/-! ## What a client makes of it -/

/-- The error that a client is to make of a refusal. -/
def Refusal.heard (refusal : Refusal) : RelayError :=
  if refusal.status = 500 then .transient ("Status 500 Internal Server Error: " ++ refusal.message)
  else .rejected (UInt16.ofNat refusal.status) refusal.message

theorem Refusal.heard_of_blame {refusal : Refusal} (h : refusal.status < 500) :
    refusal.heard = .rejected (UInt16.ofNat refusal.status) refusal.message :=
  if_neg (Nat.ne_of_lt h)

theorem Refusal.heard_of_failure {refusal : Refusal} (h : refusal.status = 500) :
    refusal.heard = .transient ("Status 500 Internal Server Error: " ++ refusal.message) := if_pos h

/-- **The message comes through**, whatever is in it. -/
theorem classify_refusal (refusal : Refusal) :
    FailedReply.classify (UInt16.ofNat refusal.status) refusal.response.body = refusal.heard := by
  have hreason : FailedReply.reason refusal.response.body = refusal.message := by
    rw [FailedReply.reason, document_refusal]
    rfl
  rw [FailedReply.classify, hreason]
  rcases refusal.status_cases with ⟨-, hblames, hfinal⟩ | ⟨hfails, hfinal⟩
  · rw [if_pos hfinal, Refusal.heard_of_blame hblames]
  · have hname : Http.Status.text (UInt16.ofNat 500).toNat = "500 Internal Server Error" := by
      decide +kernel
    rw [if_neg (Bool.eq_false_iff.mp hfinal), Refusal.heard_of_failure hfails, hfails, hname]
    rfl

/-- What comes is a reply with this refusal, cut into pieces in some way, and not too long to be read. -/
def Brings (x : Exchange) (refusal : Refusal) : Prop :=
  refusal.response.body.length ≤ Client.maxReplyLength
    ∧ ∃ pieces, pieces.flatten = refusal.response.body
      ∧ x = .replied ⟨UInt16.ofNat refusal.response.status, pieces, true⟩

/-- Whatever a client asked for, it is told this error. -/
structure Heard (x : Exchange) (e : RelayError) : Prop where
  topics : Client.topics x = .error e
  messages : Client.delivery x = .failed e
  shutdown : Client.shutdown x = .error e

namespace Brings

variable {x : Exchange} {refusal : Refusal}

theorem received (h : Brings x refusal) (late : String) :
    Client.received late x = .error refusal.heard := by
  obtain ⟨hlength, pieces, hpieces, rfl⟩ := h
  have hfails : Http.Status.isSuccess (UInt16.ofNat refusal.response.status).toNat = false := by
    cases refusal <;> rfl
  have hbody : Client.bodyOrEmpty ⟨UInt16.ofNat refusal.response.status, pieces, true⟩
      = refusal.response.body := by
    rw [Client.bodyOrEmpty, Client.readBody, hpieces, if_neg (Nat.not_lt.mpr hlength)]
    rfl
  rw [Client.received, hfails, if_neg Bool.false_ne_true, hbody]
  exact congrArg Except.error (classify_refusal refusal)

/-- **What a client hears of a refusal**, in each of its calls. -/
theorem heard (h : Brings x refusal) : Heard x refusal.heard where
  topics := by rw [Client.topics, h.received]; rfl
  messages := by rw [Client.delivery, h.received]
  shutdown := by rw [Client.shutdown, h.received]; rfl

end Brings

end TopicRelay.Endpoint
