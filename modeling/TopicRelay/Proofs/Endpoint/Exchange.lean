/-
  A resolution and a fetch, from the client to the endpoint and back.

  What the client sends passes every check of the endpoint if there is no problem with it and it fits
  into a request body.  The endpoint then answers with the topics, or with the text of its elements,
  and the client gets just these out of it, however the network cuts the text into pieces.
-/
import TopicRelay.Proofs.Endpoint.Stream
import TopicRelay.Rehearsal.Loopback

namespace TopicRelay.Endpoint

open Monitor
open Wire (ConsumeRequest ConsumeRequests Decoder TopicMessages answerText)

/-! ## Requests without a problem -/

theorem entryProblem?_eq_none_iff {maximum : UInt32} {key : TopicKey} {r : ConsumeRequest} :
    ConsumeRequests.entryProblem? maximum key r = none ↔
      Wire.TopicKey.isValid key = true ∧ r.limit ≠ 0 ∧ r.limit ≤ maximum
        ∧ r.lastMessageId ≠ some "" := by
  rw [ConsumeRequests.entryProblem?]
  by_cases hkey : Wire.TopicKey.isValid key = true
  · by_cases hzero : r.limit = 0
    · simp [hkey, hzero]
    · by_cases hmax : maximum < r.limit
      · have hnot : ¬ r.limit ≤ maximum := UInt32.not_le.mpr hmax
        simp [hkey, hzero, hmax, hnot]
      · by_cases hid : r.lastMessageId = some ""
        · simp [hkey, hzero, hmax, hid]
        · simp only [hkey, Bool.not_true, Bool.false_eq_true, if_false, hzero, hmax, hid, ne_eq,
            not_false_eq_true, and_true, true_and, true_iff]
          exact UInt32.not_lt.mp hmax
  · simp [hkey]

theorem problem?_eq_none_iff {maximum : UInt32} {rs : ConsumeRequests} :
    ConsumeRequests.problem? maximum rs = none ↔
      ∀ e ∈ rs.entries, ConsumeRequests.entryProblem? maximum e.1 e.2 = none := by
  rw [ConsumeRequests.problem?, List.findSome?_eq_none_iff]

/-! ## The request -/

/-- The announced length is the length of the body, if that is a number of 64 bits. -/
theorem contentLength?_request (path : String) (body : Bytes) :
    (Client.request "" path body).contentLength?
      = if 0xFFFFFFFFFFFFFFFF < body.length then none else some body.length := by
  have hvalues : (Client.request "" path body).headerValues "content-length"
      = [Text.Numeral.bytes body.length] := by
    have htype : (Http.foldName "content-type" == Ascii.bytes "content-length") = false := by
      decide +kernel
    have hlength : (Http.foldName "content-length" == Ascii.bytes "content-length") = true := by
      decide +kernel
    simp only [Http.Request.headerValues, Client.request, List.filter_cons, htype, hlength,
      List.filter_nil, Bool.false_eq_true, if_false, if_true, List.map_cons, List.map_nil]
  rw [Http.Request.contentLength?, hvalues, List.map_cons, List.map_nil, Text.Numeral.parse?_bytes]
  by_cases hword : 0xFFFFFFFFFFFFFFFF < body.length
  · rw [if_pos hword]
  · rw [if_neg hword]
    rfl

/-- The announced type is that of JSON. -/
theorem isJson_request (path : String) (body : Bytes) :
    ((Client.request "" path body).headerValues "content-type").head?.all Http.MediaType.isJson
      = true := by
  have htype : (Http.foldName "content-type" == Ascii.bytes "content-type") = true := by
    decide +kernel
  have hvalue : Http.MediaType.isJson (Ascii.bytes "application/json") = true := by
    decide +kernel
  simp only [Http.Request.headerValues, Client.request, List.filter_cons, htype, if_true,
    List.map_cons, List.head?_cons, Option.all_some, hvalue]

namespace Api

/-- **What the client sends is read**, unless it is too long. -/
theorem readBody_request {σ : Type} {api : Api σ} {α : Type} {item : Json.Reader α} (path : String)
    {body : Bytes} {a : α} (hdocument : item.document body = .ok a)
    (hlength : body.length ≤ api.settings.server.maxRequestBytes.toNat) :
    api.readBody item (Client.request "" path body) = .ok a := by
  have hword : body.length ≤ 0xFFFFFFFFFFFFFFFF := by
    have := api.settings.server.maxRequestBytes.toNat_lt
    omega
  rw [readBody, contentLength?_request, if_neg (Nat.not_lt.mpr hword), isJson_request path body,
    show (Client.request "" path body).body = body from rfl, hdocument]
  simp only [if_neg (Nat.not_lt.mpr hlength), Bool.not_true, Bool.false_eq_true, if_false]

/-- If it is too long, it is refused for that, or for a length that is no number of 64 bits. -/
theorem readBody_of_long {σ : Type} {api : Api σ} {α : Type} (item : Json.Reader α) (path : String)
    {body : Bytes} (hlong : api.settings.server.maxRequestBytes.toNat < body.length) :
    api.readBody item (Client.request "" path body)
      = .error (if 0xFFFFFFFFFFFFFFFF < body.length then .lengthRequired else .bodyTooLarge) := by
  rw [readBody, contentLength?_request]
  by_cases hword : 0xFFFFFFFFFFFFFFFF < body.length
  · rw [if_pos hword, if_pos hword]
  · rw [if_neg hword, if_neg hword]
    exact if_pos hlong

/-- A question for topics is read before it is answered. -/
theorem handle_topicsRequest {σ : Type} {api : Api σ} (read : LogReader σ) (keys : TopicKeys) :
    api.handle read (Client.topicsRequest "" keys)
      = api.withBody Wire.keysReader (Client.topicsRequest "" keys) api.answerTopics := by
  have hroute : route? (Client.topicsRequest "" keys).path = some .topics := by
    -- the path does not depend on the body, so its route is computed without it
    show route? (Http.Request.path ⟨"POST", "" ++ Wire.Path.topics, [], []⟩) = _
    decide +kernel
  rw [handle, hroute]
  rfl

/-- And so is a fetch. -/
theorem handle_fetchRequest {σ : Type} {api : Api σ} (read : LogReader σ) (requests : ConsumeRequests) :
    api.handle read (Client.fetchRequest "" requests)
      = api.withBody ConsumeRequests.reader (Client.fetchRequest "" requests)
        (answerMetadata read api) := by
  have hroute : route? (Client.fetchRequest "" requests).path = some .metadata := by
    show route? (Http.Request.path ⟨"POST", "" ++ Wire.Path.metadata, [], []⟩) = _
    decide +kernel
  rw [handle, hroute]
  rfl

/-- **A resolution that is not refused.**  The endpoint answers with the topics of the keys. -/
theorem handle_topics {σ : Type} {api : Api σ} (read : LogReader σ) {keys : TopicKeys}
    (hvalid : ∀ key ∈ keys.keys, Wire.TopicKey.isValid key = true)
    (hlength : (Wire.printKeys keys).length ≤ api.settings.server.maxRequestBytes.toNat) :
    ∃ api', api.handle read (Client.topicsRequest "" keys)
        = (json (Wire.printMapping (api.resolver.resolveAll keys)), api')
      ∧ api'.settings = api.settings ∧ api'.log = api.log := by
  refine ⟨api.increment Metrics.httpTopics, ?_, rfl, rfl⟩
  have hbody := readBody_request Wire.Path.topics (Wire.document_keys keys) hlength
  have hnone : keys.keys.find? (fun key => !Wire.TopicKey.isValid key) = none := by
    refine List.find?_eq_none.mpr fun key hkey => ?_
    rw [hvalid key hkey]
    decide
  rw [handle_topicsRequest, withBody,
    show api.readBody Wire.keysReader (Client.topicsRequest "" keys) = .ok keys from hbody]
  show api.answerTopics keys = _
  rw [answerTopics, hnone]
  rfl

/-- **A fetch that is not refused.**  The endpoint answers with its elements, and changes nothing but
    its counters. -/
theorem handle_fetch {api : Api MemoryLog} {requests : ConsumeRequests}
    (hasc : ∀ topic, Log.Ascending (api.log.messages topic))
    (hproblem : ConsumeRequests.problem? api.settings.relay.maxLimit requests = none)
    (hlength : requests.print.length ≤ api.settings.server.maxRequestBytes.toNat) :
    ∃ api', api.handle memoryReader (Client.fetchRequest "" requests)
        = (⟨200, "application/json; charset=utf-8", answerText
            (answerOf api.resolver api.log api.settings.relay.maxMessagesPerRead requests)⟩, api')
      ∧ api'.settings = api.settings ∧ api'.log = api.log := by
  have hlimits : ∀ e ∈ requests.entries, e.2.limit ≠ 0 := fun e he =>
    (entryProblem?_eq_none_iff.mp (problem?_eq_none_iff.mp hproblem e he)).2.1
  have hbody : api.readBody ConsumeRequests.reader (Client.fetchRequest "" requests)
      = .ok requests := readBody_request Wire.Path.metadata (Wire.document_requests requests) hlength
  -- the counter of the call goes up first; the answer is written with what it counts
  obtain ⟨n, a, hstream, hbytes, hlog⟩ := Answer.stream_spec api.resolver
    api.settings.relay.maxMessagesPerRead api.settings.relay.chunkSize
    (api.increment Metrics.httpMetadata).metrics hasc hlimits
  refine ⟨{ api.increment Metrics.httpMetadata with log := a.log, metrics := a.metrics }, ?_, rfl,
    hlog⟩
  rw [handle_fetchRequest]
  simp only [withBody, hbody, answerMetadata, increment, hproblem]
  rw [increment] at hstream
  simp only [resolver] at hstream hbytes ⊢
  rw [hstream]
  simp only [hbytes]

end Api

/-! ## And back -/

/-- What the endpoint answers with 200 gets to the client. -/
theorem received_ok (late : String) (pieces : List Bytes) :
    Client.received late (.replied ⟨UInt16.ofNat 200, pieces, true⟩)
      = .ok ⟨UInt16.ofNat 200, pieces, true⟩ := by
  have hsuccess : Http.Status.isSuccess (UInt16.ofNat 200).toNat = true := by decide
  simp only [Client.received, hsuccess, if_true]

/-- And what it refuses does not. -/
theorem received_refusal (late : String) (refusal : Refusal) (pieces : List Bytes) (isWhole : Bool) :
    ∃ e, Client.received late (.replied ⟨UInt16.ofNat refusal.response.status, pieces, isWhole⟩)
      = .error e := by
  have hfails : Http.Status.isSuccess (UInt16.ofNat refusal.response.status).toNat = false := by
    cases refusal <;> rfl
  simp only [Client.received, hfails, Bool.false_eq_true, if_false, Except.error.injEq, exists_eq']

/-- The reply to a question that fits. -/
theorem resolve_loopback_of_request {σ : Type} {api : Api σ} (read : LogReader σ) {keys : TopicKeys}
    (cut : Bytes → List Bytes) (hvalid : ∀ key ∈ keys.keys, Wire.TopicKey.isValid key = true)
    (hlength : (Wire.printKeys keys).length ≤ api.settings.server.maxRequestBytes.toNat) :
    ∃ api', Rehearsal.Loopback.resolve read cut keys api
        = (Client.value Wire.mappingReader
            ⟨UInt16.ofNat 200, cut (Wire.printMapping (api.resolver.resolveAll keys)), true⟩, api')
      ∧ api'.settings = api.settings ∧ api'.log = api.log := by
  obtain ⟨api', hhandle, hsettings, hlog⟩ := api.handle_topics read hvalid hlength
  refine ⟨api', ?_, hsettings, hlog⟩
  rw [Rehearsal.Loopback.resolve, Rehearsal.Loopback.exchange, hhandle]
  show (Client.topics (.replied ⟨UInt16.ofNat 200, _, true⟩), api') = _
  rw [Client.topics, received_ok]
  rfl

/-- **A resolution over a network that cuts.** -/
theorem resolve_loopback {σ : Type} {api : Api σ} (read : LogReader σ) {keys : TopicKeys}
    {cut : Bytes → List Bytes} (hvalid : ∀ key ∈ keys.keys, Wire.TopicKey.isValid key = true)
    (hlength : (Wire.printKeys keys).length ≤ api.settings.server.maxRequestBytes.toNat)
    (hreply : (Wire.printMapping (api.resolver.resolveAll keys)).length ≤ Client.maxReplyLength)
    (hcut : ∀ body, (cut body).flatten = body) :
    ∃ api', Rehearsal.Loopback.resolve read cut keys api
        = (.ok (api.resolver.resolveAll keys), api')
      ∧ api'.settings = api.settings ∧ api'.log = api.log := by
  obtain ⟨api', hresolve, hsettings, hlog⟩ := resolve_loopback_of_request read cut hvalid hlength
  refine ⟨api', ?_, hsettings, hlog⟩
  have hread : Client.readBody ⟨UInt16.ofNat 200,
      cut (Wire.printMapping (api.resolver.resolveAll keys)), true⟩
        = .ok (Wire.printMapping (api.resolver.resolveAll keys)) := by
    rw [Client.readBody, hcut, if_neg (Nat.not_lt.mpr hreply)]
    rfl
  rw [hresolve, Client.value, hread]
  show ((Wire.mappingReader.document _).mapError _, api') = _
  rw [Wire.document_mapping]
  rfl

/-- **A resolution that succeeds** is one that fits. -/
theorem fits_of_resolve_loopback {σ : Type} {api api' : Api σ} {read : LogReader σ} {keys : TopicKeys}
    {cut : Bytes → List Bytes} {mapping : TopicMapping}
    (hvalid : ∀ key ∈ keys.keys, Wire.TopicKey.isValid key = true)
    (hcut : ∀ body, (cut body).flatten = body)
    (h : Rehearsal.Loopback.resolve read cut keys api = (.ok mapping, api')) :
    (Wire.printKeys keys).length ≤ api.settings.server.maxRequestBytes.toNat
      ∧ (Wire.printMapping (api.resolver.resolveAll keys)).length ≤ Client.maxReplyLength := by
  have hlength : (Wire.printKeys keys).length ≤ api.settings.server.maxRequestBytes.toNat := by
    refine Nat.le_of_not_lt fun hlong => ?_
    obtain ⟨refusal, hbody⟩ : ∃ refusal, api.readBody Wire.keysReader (Client.topicsRequest "" keys)
        = .error refusal := ⟨_, Api.readBody_of_long Wire.keysReader Wire.Path.topics hlong⟩
    obtain ⟨e, he⟩ :=
      received_refusal "Timed out resolving topics" refusal (cut refusal.response.body) true
    rw [Rehearsal.Loopback.resolve, Rehearsal.Loopback.exchange, Api.handle_topicsRequest, Api.withBody,
      hbody] at h
    have hresult := congrArg Prod.fst h
    simp only [Client.topics, he] at hresult
    cases hresult
  refine ⟨hlength, Nat.le_of_not_lt fun hlong => ?_⟩
  obtain ⟨api'', hresolve, -, -⟩ := resolve_loopback_of_request read cut hvalid hlength
  have hresult := congrArg Prod.fst (hresolve.symm.trans h)
  simp only [Client.value, Client.readBody, hcut, if_pos hlong] at hresult
  cases hresult

/-- **A fetch over a network that cuts.** -/
theorem fetch_loopback {api : Api MemoryLog} {requests : ConsumeRequests} {cut : Bytes → List Bytes}
    (hasc : ∀ topic, Log.Ascending (api.log.messages topic))
    (hproblem : ConsumeRequests.problem? api.settings.relay.maxLimit requests = none)
    (hlength : requests.print.length ≤ api.settings.server.maxRequestBytes.toNat)
    (hfits : ∀ e ∈ answerOf api.resolver api.log api.settings.relay.maxMessagesPerRead requests,
      e.print.length ≤ Decoder.defaultLimit)
    (hcut : ∀ body, (cut body).flatten = body) :
    ∃ api', Rehearsal.Loopback.fetch memoryReader cut requests api
        = (⟨answerOf api.resolver api.log api.settings.relay.maxMessagesPerRead requests, .ok ()⟩, api')
      ∧ api'.settings = api.settings ∧ api'.log = api.log := by
  obtain ⟨api', hhandle, hsettings, hlog⟩ := api.handle_fetch hasc hproblem hlength
  obtain ⟨d, hall, hfinish, -⟩ := Decoder.pushAll_answerText hfits (hcut (answerText
    (answerOf api.resolver api.log api.settings.relay.maxMessagesPerRead requests)))
  refine ⟨api', ?_, hsettings, hlog⟩
  rw [Rehearsal.Loopback.fetch, Rehearsal.Loopback.exchange, hhandle]
  simp only [Client.delivery, received_ok, if_true, Delivery.ofPieces, hall, Delivery.atWholeEnd]
  rw [show (Except.mapError Delivery.malformed (Except.ok d) : Except RelayError Decoder)
    = .ok d from rfl]
  show (Delivery.mk _ (Except.mapError _ (Except.mapError Delivery.malformed d.finish)), api') = _
  rw [hfinish]
  rfl

end TopicRelay.Endpoint
