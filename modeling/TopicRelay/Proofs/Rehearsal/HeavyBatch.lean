/-
  What the endpoint writes, the client can read, unless a batch is too heavy.

  The endpoint counts the messages of a batch, and the client the bytes of an element.  Nothing counts
  the bytes of payloads, so whether the two agree is up to what is in the log:

    light    no batch is longer, as an element, than the client allows (`Light`); then the client reads
             the answer however it is cut, and no cycle finds it malformed
    heavy    some batch is longer by more than a byte; then there are networks over which no cycle gets
             anything out of the answer, whatever the monitor has around it (`fetch_heavy`)

  `readByClient_iff` puts the line where it is.
-/
import TopicRelay.Proofs.Endpoint.Exchange
import TopicRelay.Proofs.Log.Memory
import TopicRelay.Proofs.Monitor.Intake
import TopicRelay.Proofs.Wire.Oversize
import TopicRelay.Proofs.Wire.Weights

namespace TopicRelay

/-! ## Batches -/

namespace Endpoint

open Wire (ConsumeRequest ConsumeRequests TopicMessages batchWeight)

variable {resolver : Resolver} {log : MemoryLog} {maxPerRead : Nat} {key : TopicKey}
  {r : ConsumeRequest} {topic : TopicName} {batch : List Message} {e : TopicMessages}

/-- The batches in which a topic is read. -/
def batchesOf (log : MemoryLog) (maxPerRead : Nat) (topic : TopicName) (r : ConsumeRequest) :
    List (List Message) :=
  inBatches (max maxPerRead 1)
    ((MemoryLog.following r.lastMessageId (log.messages topic)).take r.limit.toNat)

/-- Every batch holds something. -/
theorem ne_nil_of_mem_inBatches {n : Nat} (hn : 0 < n) {ms : List Message} (h : batch ∈ inBatches n ms) :
    batch ≠ [] := by
  by_cases hms : ms = []
  · rw [hms, inBatches_nil hn] at h
    cases h
  · rw [inBatches_cons hn hms] at h
    rcases List.mem_cons.mp h with rfl | h
    · intro hc
      rcases List.take_eq_nil_iff.mp hc with hzero | hnil
      · omega
      · exact hms hnil
    · have hlt : (ms.drop n).length < ms.length := by
        have := List.length_pos_iff.mpr hms
        rw [List.length_drop]
        omega
      exact ne_nil_of_mem_inBatches hn h
termination_by ms.length

/-- **The elements of a key**: one that has only the key to tell, or one for a batch. -/
theorem elementsOf_cases (h : e ∈ elementsOf resolver log maxPerRead key r) :
    e = .notFound key ∨ e = .empty key
      ∨ ∃ topic, resolver.resolve? key = some topic
        ∧ ∃ batch ∈ batchesOf log maxPerRead topic r, e = .ofMessages key batch := by
  rw [elementsOf] at h
  split at h
  · exact Or.inl (List.mem_singleton.mp h)
  · next topic htopic =>
    split at h
    · exact Or.inl (List.mem_singleton.mp h)
    · next ms hfetch =>
      rw [elementsWith] at h
      split at h
      · exact Or.inr (Or.inl (List.mem_singleton.mp h))
      · obtain ⟨batch, hbatch, rfl⟩ := List.mem_map.mp h
        refine Or.inr (Or.inr ⟨topic, htopic, batch, ?_, rfl⟩)
        rw [MemoryLog.fetch] at hfetch
        split at hfetch
        · cases hfetch
        · next all hall =>
          cases hfetch
          rw [batchesOf, MemoryLog.messages, hall]
          exact hbatch

/-- Each batch is an element. -/
theorem ofMessages_mem_elementsOf (htopic : resolver.resolve? key = some topic)
    (h : batch ∈ batchesOf log maxPerRead topic r) :
    .ofMessages key batch ∈ elementsOf resolver log maxPerRead key r := by
  have hpos : 0 < max maxPerRead 1 := Nat.lt_of_lt_of_le Nat.one_pos (Nat.le_max_right _ _)
  rw [batchesOf] at h
  generalize hms : (MemoryLog.following r.lastMessageId (log.messages topic)).take r.limit.toNat = ms at h
  have hne : ms ≠ [] := by
    rintro rfl
    rw [inBatches_nil hpos] at h
    cases h
  have hexists : log.topics.contains topic = true := by
    cases hget : log.topics.get? topic with
    | some all => exact SortedMap.contains_iff.mpr ⟨all, hget⟩
    | none =>
      refine absurd ?_ hne
      rw [← hms, MemoryLog.messages, hget]
      cases r.lastMessageId <;> exact List.take_nil
  rw [elementsOf_of_contains maxPerRead r htopic hexists, hms, elementsWith, if_neg]
  · exact List.mem_map_of_mem h
  · rw [List.isEmpty_iff]
    exact hne

end Endpoint

/-! ## What comes out of a heavy answer -/

namespace Wire.Decoder

/-- The objects of what is still to come are the elements that are. -/
theorem Expects.objects {done todo : List TopicMessages} {stage : Stage} {left : Bytes}
    (h : Expects done stage todo left) :
    objects stage left = todo.map fun e => ⟨e.print, .ok e⟩ := by
  induction left generalizing done stage todo with
  | nil =>
    rw [h.nil_iff.2]
    rfl
  | cons b left ih =>
    rw [Decoder.objects]
    rcases h.step with ⟨stage', heffect, h'⟩ | ⟨p, e, todo', rfl, heffect, hbytes, h'⟩
    · simp only [heffect]
      exact ih h'
    · simp only [heffect, hbytes, document_element e, List.map_cons, ih h']

/-- **A cut through a heavy element.**  Nothing comes out, and the answer is too large. -/
theorem exists_pushAll_tooLarge {es : List TopicMessages} {e : TopicMessages} (he : e ∈ es) {limit : Nat}
    (hheavy : limit + 1 < e.print.length) :
    ∃ n, (Decoder.new limit).pushAll [(answerText es).take n, (answerText es).drop n]
      = ([], .error (.elementTooLarge limit)) := by
  have hobject : (⟨e.print, .ok e⟩ : Object) ∈ objects .beforeArray (answerText es) := by
    rw [(Expects.array es).objects]
    exact List.mem_map_of_mem he
  obtain ⟨good, b, rest, es', last, p, htext, htakes, heffect, ho⟩ := exists_of_mem_objects hobject
  have hlength := length_of_element heffect (htakes.counted trivial)
  have hprint : e.print = p.bytes := congrArg Object.text ho
  have hlarge := htakes.push_of_lt (d := Decoder.new limit) rfl
    (show limit < last.size by rw [hprint] at hheavy; omega)
  refine ⟨good.length, ?_⟩
  rw [htext, List.take_left]
  rcases hpush : (Decoder.new limit).push good with ⟨result, d⟩
  rw [hpush] at hlarge
  obtain rfl : result = .error (.elementTooLarge limit) := hlarge
  rw [Decoder.pushAll, hpush]

end Wire.Decoder

/-! ## Cycles -/

namespace Monitor

open Wire (TopicMessages)

variable {σ : Type} {env : Surroundings σ} {subscriber : SubscriberName} {i i' : Intake} {w w' : σ}
  {x : RelayError} {t : Tracking}

namespace Intake

theorem publishAll_ne_malformed {topic : TopicName} {ms : List Message}
    (h : publishAll env topic ms w = (.error x, w')) (reason : String) : x ≠ .malformed reason := by
  induction ms generalizing w with
  | nil =>
    rw [publishAll] at h
    cases h
  | cons m ms ih =>
    rw [publishAll] at h
    split at h
    · cases h
      rintro ⟨⟩
    · exact ih h

/-- An element of a key that was asked for makes sense. -/
theorem accept_ne_malformed {e : TopicMessages} {p : TopicProgress} (hp : i.resolved.get? e.topic = some p)
    (h : accept env subscriber e i w = (.error x, i', w')) (reason : String) : x ≠ .malformed reason := by
  rw [accept] at h
  split at h
  · cases h
    rintro ⟨⟩
  · rw [hp] at h
    simp only at h
    split at h
    · cases h
    · rcases relay_cases h with ⟨x', hms, hx, -⟩ | ⟨i₁, w₁, -, hlast, -, -⟩
      · cases hx
        exact publishAll_ne_malformed hms reason
      · rcases commitLast_cases hlast with ⟨-, hx, -, -⟩ | ⟨id, -, -, ⟨y, -, hx, -⟩ | ⟨-, hx, -⟩⟩
        · cases hx
        · cases hx
          rintro ⟨⟩
        · cases hx

theorem acceptAll_ne_malformed {es : List TopicMessages}
    (hes : ∀ e ∈ es, i.resolved.contains e.topic = true)
    (h : acceptAll env subscriber es i w = (.error x, i', w')) (reason : String) :
    x ≠ .malformed reason := by
  induction es generalizing i w with
  | nil =>
    rw [acceptAll] at h
    cases h
  | cons e es ih =>
    obtain ⟨p, hp⟩ := SortedMap.contains_iff.mp (hes e List.mem_cons_self)
    rw [acceptAll] at h
    split at h
    · next haccept =>
      cases h
      exact accept_ne_malformed hp haccept reason
    · next i₁ w₁ haccept =>
      refine ih (fun e' he' => ?_) h
      -- the same keys are resolved as before
      have hsame := congrFun (accept_topics haccept) e'.topic
      obtain ⟨q, hq⟩ := SortedMap.contains_iff.mp (hes e' (List.mem_cons_of_mem _ he'))
      rw [topics, topics, hq, Option.map_some, Option.map_eq_some_iff] at hsame
      obtain ⟨q', hq', -⟩ := hsame
      exact SortedMap.contains_iff.mpr ⟨q', hq'⟩

end Intake

namespace Tracking

theorem applyPolicy_ne_malformed {missing : List TopicKey} {t' : Tracking}
    (h : applyPolicy missing t = (.error x, t')) (reason : String) : x ≠ .malformed reason := by
  induction missing generalizing t with
  | nil =>
    rw [applyPolicy] at h
    cases h
  | cons key missing ih =>
    rw [applyPolicy] at h
    split at h
    · split at h
      · exact ih h
      · exact ih h
      · cases h
        rintro ⟨⟩
    · exact ih h

/-- A whole answer has conclusions that may fail, but then the answer is not to blame. -/
theorem conclude_ne_malformed (t : Tracking) (i : Intake) (reason : String) :
    (t.conclude i).1 ≠ .error (.malformed reason) := by
  rw [conclude]
  split
  · next x t₁ hpolicy =>
    intro hc
    exact applyPolicy_ne_malformed hpolicy reason (Except.error.inj hc)
  · split
    · rintro ⟨⟩
    · rintro ⟨⟩

/-- **A cycle with a whole answer to what was asked** does not find it malformed. -/
theorem pollCycle_ne_malformed {es : List TopicMessages}
    (hes : ∀ e ∈ es, t.requests.contains e.topic = true)
    (hfetch : (env.fetch t.requests w).1 = ⟨es, .ok ()⟩) (reason : String) :
    (t.pollCycle env w).1 ≠ .error (.failure (.malformed reason)) := by
  rw [pollCycle]
  split
  · rintro ⟨⟩
  · rcases hfetched : env.fetch t.requests w with ⟨d, w₁⟩
    obtain rfl : d = ⟨es, .ok ()⟩ := by rw [← hfetch, hfetched]
    have hknown : ∀ e ∈ es, (Intake.start t.resolved).resolved.contains e.topic = true :=
      fun e he => SortedMap.contains_iff.mpr (contains_requests.mp (hes e he))
    simp only [Intake.receive]
    rcases hall : Intake.acceptAll env t.settings.subscriber es (.start t.resolved) w₁ with
      ⟨x | _, i, w₂⟩
    · simp only
      intro hc
      exact Intake.acceptAll_ne_malformed hknown hall reason (by cases hc; rfl)
    · simp only
      intro hc
      cases hresult : (t.conclude i).1 with
      | error x =>
        rw [hresult] at hc
        refine conclude_ne_malformed t i reason ?_
        rw [hresult]
        cases hc
        rfl
      | ok s =>
        rw [hresult] at hc
        cases hc

end Tracking
end Monitor

/-! ## What the client can read -/

namespace Rehearsal

open Endpoint (Api answerOf batchesOf memoryReader)
open Monitor (Delivery Surroundings Tracking)
open Wire (ConsumeRequests DecodeError Decoder TopicMessages answerText batchWeight)

/-- The body with which an endpoint answers a fetch. -/
def answered (api : Api MemoryLog) (requests : ConsumeRequests) : Bytes :=
  (api.handle memoryReader (Monitor.Client.fetchRequest "" requests)).1.body

/-- **What a client is promised.**  No element of the answer is longer than the client allows.  So
    however the answer is cut, it is not found too large, and no cycle finds it malformed, whatever
    else the monitor has around it. -/
structure ReadByClient (api : Api MemoryLog) (requests : ConsumeRequests) : Prop where
  bounded : ∃ es, answered api requests = answerText es
    ∧ ∀ e ∈ es, e.print.length ≤ Decoder.defaultLimit
  neverTooLarge : ∀ pieces : List Bytes, pieces.flatten = answered api requests →
    ((Decoder.new Decoder.defaultLimit).pushAll pieces).2
      ≠ .error (.elementTooLarge Decoder.defaultLimit)
  neverMalformed : ∀ {σ : Type} (env : Surroundings σ) (t : Tracking) (w : σ)
    (cut : Bytes → List Bytes), (∀ body, (cut body).flatten = body) → t.requests = requests →
    (env.fetch requests w).1 = (Loopback.fetch memoryReader cut requests api).1 →
      ∀ reason, (t.pollCycle env w).1 ≠ .error (.failure (.malformed reason))

/-- No batch that is asked for is longer than this, as an element. -/
def Light (limit : Nat) (api : Api MemoryLog) (requests : ConsumeRequests) : Prop :=
  ∀ e ∈ requests.entries, ∀ topic, api.resolver.resolve? e.1 = some topic →
    ∀ batch ∈ batchesOf api.log api.settings.relay.maxMessagesPerRead topic e.2,
      batchWeight e.1 batch ≤ limit

section Answers

variable {api : Api MemoryLog} {requests : ConsumeRequests}

/-- The elements of an answer. -/
def elements (api : Api MemoryLog) (requests : ConsumeRequests) : List TopicMessages :=
  answerOf api.resolver api.log api.settings.relay.maxMessagesPerRead requests

/-- The elements of an answer name the keys that were asked for. -/
theorem contains_of_mem_elements {e : TopicMessages} (h : e ∈ elements api requests) :
    requests.contains e.topic = true := by
  obtain ⟨⟨key, r⟩, hr, he⟩ := List.mem_flatMap.mp h
  rw [(Endpoint.of_mem_elementsOf he).1]
  exact SortedMap.contains_iff.mpr ⟨r, SortedMap.get?_eq_some_iff.mpr hr⟩

/-- What is not light has an element that is just as long. -/
theorem exists_of_not_light {limit : Nat} (h : ¬ Light limit api requests) :
    ∃ e ∈ elements api requests, limit < e.print.length := by
  simp only [Light, not_forall, Nat.not_le] at h
  obtain ⟨⟨key, r⟩, hr, topic, htopic, batch, hbatch, hheavy⟩ := h
  have hne : batch ≠ [] :=
    Endpoint.ne_nil_of_mem_inBatches (Nat.lt_of_lt_of_le Nat.one_pos (Nat.le_max_right _ _)) hbatch
  refine ⟨.ofMessages key batch,
    List.mem_flatMap.mpr ⟨(key, r), hr, Endpoint.ofMessages_mem_elementsOf htopic hbatch⟩, ?_⟩
  rw [TopicMessages.length_print_ofMessages key hne]
  exact hheavy

/-- What is light has no element that is too long: one without messages is short. -/
theorem Light.elements (h : Light Decoder.defaultLimit api requests)
    (hproblem : ConsumeRequests.problem? api.settings.relay.maxLimit requests = none) :
    ∀ e ∈ elements api requests, e.print.length ≤ Decoder.defaultLimit := by
  intro e he
  obtain ⟨⟨key, r⟩, hr, hkey⟩ := List.mem_flatMap.mp he
  have hvalid := (Endpoint.entryProblem?_eq_none_iff.mp (Endpoint.problem?_eq_none_iff.mp hproblem _ hr)).1
  rcases Endpoint.elementsOf_cases hkey with rfl | rfl | ⟨topic, htopic, batch, hbatch, rfl⟩
  · exact TopicMessages.length_print_notFound_le hvalid
  · exact TopicMessages.length_print_empty_le hvalid
  · have hne : batch ≠ [] :=
      Endpoint.ne_nil_of_mem_inBatches (Nat.lt_of_lt_of_le Nat.one_pos (Nat.le_max_right _ _)) hbatch
    rw [TopicMessages.length_print_ofMessages key hne]
    exact h (key, r) hr topic htopic batch hbatch

variable (hasc : ∀ topic, Log.Ascending (api.log.messages topic))
  (hproblem : ConsumeRequests.problem? api.settings.relay.maxLimit requests = none)
  (hlength : requests.print.length ≤ api.settings.server.maxRequestBytes.toNat)

include hasc hproblem hlength

theorem answered_eq : answered api requests = answerText (elements api requests) := by
  obtain ⟨api', hhandle, -, -⟩ := api.handle_fetch hasc hproblem hlength
  rw [answered, hhandle]
  rfl

/-- **A light answer** is read. -/
theorem Light.readByClient (h : Light Decoder.defaultLimit api requests) : ReadByClient api requests where
  bounded := ⟨_, answered_eq hasc hproblem hlength, h.elements hproblem⟩
  neverTooLarge := by
    intro pieces hcut hlarge
    rw [answered_eq hasc hproblem hlength] at hcut
    obtain ⟨d, hall, -, -⟩ := Decoder.pushAll_answerText (h.elements hproblem) hcut
    rw [hall] at hlarge
    cases hlarge
  neverMalformed := by
    rintro σ env t w cut hcut rfl hfetch reason
    obtain ⟨api', hloopback, -, -⟩ :=
      Endpoint.fetch_loopback hasc hproblem hlength (h.elements hproblem) hcut
    rw [hloopback] at hfetch
    exact Tracking.pollCycle_ne_malformed (fun e he => contains_of_mem_elements he) hfetch reason

/-- An answer that is read is light. -/
theorem ReadByClient.light (h : ReadByClient api requests) : Light Decoder.defaultLimit api requests := by
  obtain ⟨es, htext, hbounded⟩ := h.bounded
  obtain rfl : elements api requests = es :=
    Decoder.answerText_injective ((answered_eq hasc hproblem hlength).symm.trans htext)
  by_contra hheavy
  obtain ⟨e, he, hlong⟩ := exists_of_not_light hheavy
  have := hbounded e he
  omega

/-- **A heavy answer** gets lost on some networks: as the client sees it, it fails from the start. -/
theorem fetch_heavy (h : ¬ Light (Decoder.defaultLimit + 1) api requests) :
    ∃ cut : Bytes → List Bytes, (∀ body, (cut body).flatten = body)
      ∧ (Loopback.fetch memoryReader cut requests api).1
        = ⟨[], .error (.failure (.malformed (DecodeError.elementTooLarge Decoder.defaultLimit).message))⟩ := by
  obtain ⟨e, he, hheavy⟩ := exists_of_not_light h
  obtain ⟨n, hlost⟩ := Decoder.exists_pushAll_tooLarge he hheavy
  obtain ⟨api', hhandle, -, -⟩ := api.handle_fetch hasc hproblem hlength
  refine ⟨fun body => [body.take n, body.drop n], fun body => ?_, ?_⟩
  · simp
  · rw [Loopback.fetch, Loopback.exchange, hhandle]
    simp only [Monitor.Client.delivery, Endpoint.received_ok, if_true, Delivery.ofPieces]
    rw [show answerOf api.resolver api.log api.settings.relay.maxMessagesPerRead requests
      = elements api requests from rfl, hlost]
    rfl

/-- **What the client can read.**  It can read an answer if no batch is longer than its limit.  If one
    is longer by more than a byte, then over some network no cycle, whatever it has around it, gets
    anything but a failure for good out of the answer. -/
theorem readByClient_iff :
    (ReadByClient api requests ↔ Light Decoder.defaultLimit api requests)
    ∧ (¬ Light (Decoder.defaultLimit + 1) api requests →
      ∃ cut : Bytes → List Bytes, (∀ body, (cut body).flatten = body)
        ∧ ∀ {σ : Type} (env : Surroundings σ) (t : Tracking) (w : σ), t.requests = requests →
          (env.fetch requests w).1 = (Loopback.fetch memoryReader cut requests api).1 →
            t.pollCycle env w
              = (.error (.failure (.malformed (DecodeError.elementTooLarge Decoder.defaultLimit).message)),
                t, (env.fetch requests w).2)) := by
  refine ⟨⟨fun h => h.light hasc hproblem hlength, fun h => h.readByClient hasc hproblem hlength⟩,
    fun hheavy => ?_⟩
  obtain ⟨cut, hcut, hlost⟩ := fetch_heavy hasc hproblem hlength hheavy
  refine ⟨cut, hcut, ?_⟩
  rintro σ env t w rfl hfetch
  rw [hlost] at hfetch
  -- something was asked for, or nothing would be heavy
  have hne : t.resolved.isEmpty = false := by
    obtain ⟨e, he, -⟩ := exists_of_not_light hheavy
    obtain ⟨p, hp⟩ := Tracking.contains_requests.mp (contains_of_mem_elements he)
    exact SortedMap.isEmpty_of_get? _ hp
  exact Tracking.pollCycle_of_failed hne hfetch

end Answers

/-! ## One message -/

/-- A log with one message in the topic `t`. -/
def oneMessage (payload : Bytes) : MemoryLog :=
  (MemoryLog.publishAll "t" none [payload] ((MemoryLog.new false).create "t")).2

/-- An endpoint with this log and with its default settings, for which the key `k` stands for `t`. -/
def holding (payload : Bytes) : Api MemoryLog :=
  .new { Endpoint.Settings.default with topics := SortedMap.empty.insert "k" "t" } (oneMessage payload)

/-- One message of `k`, from the start. -/
def oneRequest : ConsumeRequests := SortedMap.empty.insert "k" ⟨none, 1⟩

theorem messages_oneMessage (payload : Bytes) :
    (oneMessage payload).messages "t" = [⟨MemoryLog.formatId 1, payload⟩] := by
  have haccepts : ((MemoryLog.new false).create "t").Accepts "t" := Or.inr (by decide +kernel)
  obtain ⟨log, hpublish⟩ := MemoryLog.publish_of_accepts haccepts payload
  have hmessages := (MemoryLog.publish_ok hpublish).2.1
  rw [MemoryLog.messages_create, MemoryLog.next_create] at hmessages
  rw [oneMessage, MemoryLog.publishAll, hpublish]
  exact hmessages

theorem ascending_oneMessage (payload : Bytes) (topic : TopicName) :
    Log.Ascending ((holding payload).log.messages topic) := by
  have hfilled : (oneMessage payload).Filled := by
    refine ((MemoryLog.Filled.new false).create "t").publishAll "t" none ?_
    rw [MemoryLog.next_create]
    exact (by decide : 1 + 1 < UInt64.size)
  exact hfilled.ordered.ascending topic

theorem batchesOf_oneMessage (payload : Bytes) :
    batchesOf (oneMessage payload) 100 "t" ⟨none, 1⟩ = [[⟨MemoryLog.formatId 1, payload⟩]] := by
  rw [batchesOf, messages_oneMessage]
  exact Endpoint.inBatches_of_le (by decide) (List.cons_ne_nil _ _)
    (by decide : 1 ≤ 100)

/-- What the one message may weigh. -/
theorem light_holding_iff (limit : Nat) (payload : Bytes) :
    Light limit (holding payload) oneRequest ↔ 69 + 4 * ((payload.length + 2) / 3) ≤ limit := by
  have hentries : oneRequest.entries = [("k", ⟨none, 1⟩)] := by decide +kernel
  have htopic : Endpoint.Resolver.resolve? ⟨SortedMap.empty.insert "k" "t"⟩ "k" = some "t" := by
    decide +kernel
  have hweight : batchWeight "k" [⟨MemoryLog.formatId 1, payload⟩]
      = 69 + 4 * ((payload.length + 2) / 3) := by
    have hkey : (Json.Printer.text "k").length = 3 := by decide +kernel
    have hid : (Json.Printer.text (MemoryLog.formatId 1)).length = 22 := by decide +kernel
    rw [batchWeight, List.map_singleton, List.sum_singleton, Wire.messageWeight, hkey, hid]
    show 23 + 3 + (21 + 22 + 4 * ((payload.length + 2) / 3)) = _
    omega
  rw [← hweight]
  constructor
  · intro h
    refine h ("k", ⟨none, 1⟩) (by rw [hentries]; exact List.mem_singleton_self _) "t" htopic _ ?_
    show _ ∈ batchesOf (oneMessage payload) 100 "t" ⟨none, 1⟩
    rw [batchesOf_oneMessage]
    exact List.mem_singleton_self _
  · rintro h e he topic ht batch hbatch
    rw [hentries, List.mem_singleton] at he
    subst he
    obtain rfl : "t" = topic := Option.some.inj (htopic.symm.trans ht)
    replace hbatch : batch ∈ batchesOf (oneMessage payload) 100 "t" ⟨none, 1⟩ := hbatch
    rw [batchesOf_oneMessage, List.mem_singleton] at hbatch
    rw [hbatch]
    exact h

/-- The request is in order, whatever the log holds. -/
theorem oneRequest_in_order (payload : Bytes) :
    ConsumeRequests.problem? (holding payload).settings.relay.maxLimit oneRequest = none
      ∧ oneRequest.print.length ≤ (holding payload).settings.server.maxRequestBytes.toNat := by
  constructor
  · show ConsumeRequests.problem? ConsumeRequests.maxLimit oneRequest = none
    decide +kernel
  · show oneRequest.print.length ≤ (65536 : UInt64).toNat
    decide +kernel

/-- **A message that is too heavy.**  Twelve mebibytes become sixteen as text, and some bytes more. -/
theorem not_readByClient_heavy :
    ¬ ReadByClient (holding (List.replicate (12 * 1024 * 1024) 0)) oneRequest := by
  intro h
  obtain ⟨hproblem, hlength⟩ := oneRequest_in_order (List.replicate (12 * 1024 * 1024) 0)
  have hlight := h.light (ascending_oneMessage _) hproblem hlength
  rw [light_holding_iff, List.length_replicate, Decoder.defaultLimit] at hlight
  omega

/-- A message of three bytes is read, and with one of twelve mebibytes there is a network on which it
    is not. -/
theorem readByClient_three_bytes :
    ReadByClient (holding [1, 2, 3]) oneRequest
    ∧ ∃ cut : Bytes → List Bytes, (∀ body, (cut body).flatten = body)
      ∧ ∀ {σ : Type} (env : Surroundings σ) (t : Tracking) (w : σ), t.requests = oneRequest →
        (env.fetch oneRequest w).1 = (Loopback.fetch memoryReader cut oneRequest
            (holding (List.replicate (12 * 1024 * 1024) 0))).1 →
          t.pollCycle env w
            = (.error (.failure (.malformed (DecodeError.elementTooLarge Decoder.defaultLimit).message)),
              t, (env.fetch oneRequest w).2) := by
  constructor
  · obtain ⟨hproblem, hlength⟩ := oneRequest_in_order [1, 2, 3]
    refine (readByClient_iff (ascending_oneMessage _) hproblem hlength).1.mpr ?_
    rw [light_holding_iff]
    decide
  · obtain ⟨hproblem, hlength⟩ := oneRequest_in_order (List.replicate (12 * 1024 * 1024) 0)
    refine (readByClient_iff (ascending_oneMessage _) hproblem hlength).2 ?_
    rw [light_holding_iff, List.length_replicate, Decoder.defaultLimit]
    omega

end Rehearsal
end TopicRelay
