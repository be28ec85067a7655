/-
  Which requests for messages are admitted.

      body                      bytes, which may be anything
      requests                  what is read from it, if it can be read
      200 or 400                whether the log is asked

  specification   a body is admitted if and only if requests can be read from it and every entry of them
                  is proper.  Otherwise the response says why in a body of its own, and the log has not
                  been asked for anything (`admitted_iff_proper`)
  the crux        the check comes before the first question to the log, so a refusal is the same for all
                  logs, also for one that keeps what it was asked (`answerMetadata_of_problem`)
-/
import Mathlib.Control.Monad.Basic
import TopicRelay.Log.Faulty
import TopicRelay.Proofs.Endpoint.Refused
import TopicRelay.Proofs.Wire.Problems

namespace TopicRelay.Endpoint.Api

open Wire (ConsumeRequests ErrorResponse)
open Wire.ConsumeRequests (ProperEntry Problem problem?_eq_none_iff_proper isReported_of_problem?)

variable {σ : Type} {api : Api σ} {r : Http.Request}

/-- A request that is posted to the metadata route as JSON, and is not longer than it may be. -/
structure PostedAsJson (api : Api σ) (r : Http.Request) : Prop where
  route : route? r.path = some .metadata
  method : r.method = "POST"
  length : ∃ n, r.contentLength? = some n ∧ n ≤ api.settings.server.maxRequestBytes.toNat
  type : (r.headerValues "content-type").head?.all Http.MediaType.isJson = true

namespace PostedAsJson

/-- Only the body itself can be amiss. -/
theorem readBody (h : api.PostedAsJson r) {α : Type} (item : Json.Reader α) :
    api.readBody item r = (item.document r.body).mapError .unreadable := by
  obtain ⟨n, hannounced, hfits⟩ := h.length
  rw [Api.readBody, hannounced, h.type]
  simp only [if_neg (Nat.not_lt.mpr hfits), Bool.not_true, Bool.false_eq_true, if_false]
  cases item.document r.body <;> rfl

theorem handle (h : api.PostedAsJson r) (read : LogReader σ) :
    api.handle read r = api.withBody ConsumeRequests.reader r (answerMetadata read api) := by
  have hmethod : (r.method != Route.metadata.method) = false := by
    rw [h.method]
    decide
  rw [Api.handle, h.route]
  simp only [hmethod, Bool.false_eq_true, if_false]

/-- A body that cannot be read is refused. -/
theorem handle_of_unreadable (h : api.PostedAsJson r) {e : Json.ReadError}
    (hbody : ConsumeRequests.reader.document r.body = .error e) (read : LogReader σ) :
    api.handle read r = ((Refusal.unreadable e).response, api) := by
  rw [h.handle, withBody, h.readBody, hbody]
  rfl

theorem handle_of_readable (h : api.PostedAsJson r) {requests : ConsumeRequests}
    (hbody : ConsumeRequests.reader.document r.body = .ok requests) (read : LogReader σ) :
    api.handle read r = answerMetadata read api requests := by
  rw [h.handle, withBody, h.readBody, hbody]
  rfl

end PostedAsJson

/-- A client posts so, unless the body is too long. -/
theorem postedAsJson_request {body : Bytes}
    (h : body.length ≤ api.settings.server.maxRequestBytes.toNat) :
    api.PostedAsJson (Monitor.Client.request "" Wire.Path.metadata body) := by
  have hword : ¬ 0xFFFFFFFFFFFFFFFF < body.length := by
    have := api.settings.server.maxRequestBytes.toNat_lt
    omega
  refine ⟨?_, rfl, ⟨body.length, ?_, h⟩, isJson_request _ body⟩
  · -- the path does not depend on the body
    show route? (Http.Request.path ⟨"POST", "" ++ Wire.Path.metadata, [], []⟩) = _
    decide +kernel
  · rw [contentLength?_request, if_neg hword]

/-- **A problem is reported before the log is asked.** -/
theorem answerMetadata_of_problem {requests : ConsumeRequests} {problem : Problem}
    (h : ConsumeRequests.problem? api.settings.relay.maxLimit requests = some problem)
    (read : LogReader σ) :
    answerMetadata read api requests
      = (api.increment Metrics.httpMetadata).reject problem.message := by
  simp only [answerMetadata, increment, h]

/-- Without a problem there is an answer. -/
theorem status_answerMetadata {requests : ConsumeRequests}
    (h : ConsumeRequests.problem? api.settings.relay.maxLimit requests = none) (read : LogReader σ) :
    (answerMetadata read api requests).1.status = 200 := by
  simp only [answerMetadata, increment, h]

/-- **Exactly the proper requests are admitted**, and a log is asked for no other.  For every body that is
    posted to the metadata route as JSON within the limit, whatever the log is:

    * the status is 200 if and only if requests can be read from the body, and each of their entries is
      proper;
    * otherwise it is 400, with the code 1 and a message in the body; what is kept about the log is as it
      was, and the response would be the same with every other reader of the log;
    * and if requests can be read from the body, the message is that of the first problem of the smallest
      key that has one. -/
theorem admitted_iff_proper (api : Api σ) (r : Http.Request) (h : api.PostedAsJson r)
    (read : LogReader σ) :
    let answer := api.handle read r
    (answer.1.status = 200 ↔ ∃ requests, ConsumeRequests.reader.document r.body = .ok requests
        ∧ ∀ e ∈ requests.entries, ProperEntry api.settings.relay.maxLimit e.1 e.2)
    ∧ (answer.1.status ≠ 200 → answer.1.status = 400
        ∧ answer.2.log = api.log ∧ (∀ read', api.handle read' r = answer)
        ∧ ∃ message, ErrorResponse.layout.reader.document answer.1.body = .ok ⟨1, message⟩
          ∧ ∀ requests, ConsumeRequests.reader.document r.body = .ok requests →
              ∃ problem : Problem, problem.IsReported api.settings.relay.maxLimit requests
                ∧ message = problem.message) := by
  intro answer
  cases hbody : ConsumeRequests.reader.document r.body with
  | error e =>
    have hanswer : answer = ((Refusal.unreadable e).response, api) := h.handle_of_unreadable hbody read
    rw [hanswer]
    refine ⟨iff_of_false (by decide : (400 : Nat) ≠ 200) ?_, fun _ => ⟨rfl, rfl, ?_, ?_⟩⟩
    · rintro ⟨requests, hread, -⟩
      cases hread
    · exact h.handle_of_unreadable hbody
    · refine ⟨_, document_refusal (.unreadable e), fun requests hread => ?_⟩
      cases hread
  | ok requests =>
    cases hproblem : ConsumeRequests.problem? api.settings.relay.maxLimit requests with
    | none =>
      have hstatus : answer.1.status = 200 := by
        rw [show answer = _ from h.handle_of_readable hbody read]
        exact status_answerMetadata hproblem read
      have hproper := problem?_eq_none_iff_proper.mp hproblem
      exact ⟨iff_of_true hstatus ⟨requests, rfl, hproper⟩, fun hnot => absurd hstatus hnot⟩
    | some problem =>
      have hrefused (read' : LogReader σ) : api.handle read' r
          = (api.increment Metrics.httpMetadata).reject problem.message := by
        rw [h.handle_of_readable hbody, answerMetadata_of_problem hproblem]
      rw [show answer = _ from hrefused read]
      refine ⟨iff_of_false (by decide : (400 : Nat) ≠ 200) ?_, fun _ => ⟨rfl, rfl, hrefused, ?_⟩⟩
      · rintro ⟨requests', hread, hproper⟩
        cases hread
        rw [problem?_eq_none_iff_proper.mpr hproper] at hproblem
        cases hproblem
      · refine ⟨_, document_refusal (.malformed problem.message), fun requests' hread => ?_⟩
        cases hread
        exact ⟨problem, isReported_of_problem? hproblem, rfl⟩

/-! ## Three keys with problems -/

namespace Troubled

/-- The body asks for `b`, which comes last in order, for a key with a blank in it, and for `a`, which has
    two problems. -/
def sent : Bytes :=
  Ascii.bytes ("\x7b\"b\":\x7b\"limit\":0\x7d, \"a b\":\x7b\"limit\":5\x7d,"
    ++ " \"a\":\x7b\"limit\":11,\"lastMessageId\":\"\"\x7d\x7d")

/-- What is read from it. -/
def requests : ConsumeRequests :=
  SortedMap.ofList [("a", ⟨some "", 11⟩), ("a b", ⟨none, 5⟩), ("b", ⟨none, 0⟩)]

/-- An endpoint with a limit of ten messages, and a log that keeps what it is asked. -/
def endpoint : Api FaultyLog :=
  .new { Settings.default with relay := ⟨8192, 100, 10, 4⟩ } (.sound (.new true))

/-- The problem of the smallest key that comes first is that its limit is too large. -/
theorem admitted_iff_proper_troubled :
    let request := Monitor.Client.request "" Wire.Path.metadata sent
    let answer := endpoint.handle FaultyLog.fetch request
    endpoint.PostedAsJson request ∧ answer.1.status = 400 ∧ answer.2.log.asked = []
    ∧ ConsumeRequests.reader.document sent = .ok requests
    ∧ ∃ problem : Problem, problem.IsReported 10 requests
        ∧ problem.message = "The limit for 'a' exceeds the maximum of 10"
        ∧ ErrorResponse.layout.reader.document answer.1.body = .ok ⟨1, problem.message⟩ := by
  intro request answer
  have hposted : endpoint.PostedAsJson request := postedAsJson_request (by decide +kernel)
  have hread : ConsumeRequests.reader.document sent = .ok requests := by decide +kernel
  obtain ⟨hadmitted, hrefused⟩ := admitted_iff_proper endpoint request hposted FaultyLog.fetch
  have hnot : answer.1.status ≠ 200 := by
    intro hsuccess
    obtain ⟨found, hfound, hproper⟩ := hadmitted.mp hsuccess
    cases hread.symm.trans hfound
    exact absurd (hproper ("b", ⟨none, 0⟩) (by decide +kernel)).limit.1 (by decide)
  obtain ⟨hstatus, hlog, -, message, hdocument, hreported⟩ := hrefused hnot
  obtain ⟨problem, hproblem, rfl⟩ := hreported requests hread
  have hmessage : ErrorResponse.layout.reader.document answer.1.body
      = .ok ⟨1, "The limit for 'a' exceeds the maximum of 10"⟩ := by decide +kernel
  refine ⟨hposted, hstatus, congrArg FaultyLog.asked hlog, hread, problem, hproblem, ?_, hdocument⟩
  have hsame := Except.ok.inj (hdocument.symm.trans hmessage)
  exact congrArg ErrorResponse.message hsame

end Troubled

end TopicRelay.Endpoint.Api
