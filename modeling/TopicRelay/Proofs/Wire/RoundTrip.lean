/-
  What the two sides write to each other is read back as it was meant.

  Every value that goes over the wire is put together from texts, numbers and payloads, so each of
  these round trips is a list of fields: `Gathers.cons` once for each entry that was written, in the
  order of the writer.  A field that is left out when there is nothing in it (`error`) makes two cases,
  and one that a client may leave out (`lastMessageId`) is read with and without it.

  A printer and a reader that go together in this way `RoundTrips`: no value is lost, so no two values
  of a kind have one text.
-/
import TopicRelay.Proofs.Json.Composite
import TopicRelay.Wire.ConsumeRequest
import TopicRelay.Wire.Reply

namespace TopicRelay.Wire

open Json

/-! ## Whole texts -/

/-- A text with nothing but the value in it is read as the value. -/
theorem document_of_reads {α : Type} {item : Reader α} {bytes : Bytes} {a : α}
    (h : Reads item bytes a) : item.document bytes = .ok a := by
  have hrun := h.run [] EndsValue.nil
  rw [List.append_nil] at hrun
  simp only [Reader.document, hrun]
  rfl

/-- A printer and a reader that go together: what was printed is read back, so a text that was printed
    stands for one value only. -/
structure RoundTrips {α : Type} (print : α → Bytes) (item : Reader α) : Prop where
  readBack : ∀ a, item.document (print a) = .ok a
  distinct : ∀ a b, a ≠ b → print a ≠ print b

theorem RoundTrips.of_document {α : Type} {print : α → Bytes} {item : Reader α}
    (h : ∀ a, item.document (print a) = .ok a) : RoundTrips print item := by
  refine ⟨h, fun a b hne heq => hne ?_⟩
  have hread : (Except.ok a : Except ReadError α) = .ok b := by rw [← h a, heq, h b]
  exact Except.ok.inj hread

/-! ## Elements -/

theorem reads_message (m : Message) : Reads messageLayout.reader (printMessage m) m := by
  have hid : messageLayout.entry.Takes ⟨⟨"", []⟩, []⟩ "id" (Printer.text m.id)
      ⟨⟨m.id, []⟩, ["id"]⟩ :=
    Layout.takes rfl rfl ((Reads.text m.id).map _) rfl
  have hpayload : messageLayout.entry.Takes ⟨⟨m.id, []⟩, ["id"]⟩ "payload"
      (Printer.quoted (Base64.encode m.payload)) ⟨m, ["payload", "id"]⟩ :=
    Layout.takes rfl rfl ((Reads.payload m.payload).map _) rfl
  exact Layout.reads (Gathers.cons hid (Gathers.cons hpayload (Gathers.nil _))) (by decide)

theorem reads_error (e : TopicError) : Reads TopicError.layout.reader e.print e := by
  have hcode : TopicError.layout.entry.Takes ⟨⟨0, ""⟩, []⟩ "code" (Printer.natural e.code.toNat)
      ⟨⟨e.code, ""⟩, ["code"]⟩ :=
    Layout.takes rfl rfl ((Reads.word16 e.code).map _) rfl
  have hmessage : TopicError.layout.entry.Takes ⟨⟨e.code, ""⟩, ["code"]⟩ "message"
      (Printer.text e.message) ⟨e, ["message", "code"]⟩ :=
    Layout.takes rfl rfl ((Reads.text e.message).map _) rfl
  exact Layout.reads (Gathers.cons hcode (Gathers.cons hmessage (Gathers.nil _))) (by decide)

/-- **An element is read back as it was written.** -/
theorem reads_element (e : TopicMessages) : Reads TopicMessages.reader e.print e := by
  obtain ⟨topic, messages, error⟩ := e
  have htopic : TopicMessages.layout.entry.Takes ⟨⟨"", [], none⟩, []⟩ "topic" (Printer.text topic)
      ⟨⟨topic, [], none⟩, ["topic"]⟩ :=
    Layout.takes rfl rfl ((Reads.text topic).map _) rfl
  have hmessages : TopicMessages.layout.entry.Takes ⟨⟨topic, [], none⟩, ["topic"]⟩ "messages"
      (Printer.array (messages.map printMessage)) ⟨⟨topic, messages, none⟩, ["messages", "topic"]⟩ :=
    Layout.takes rfl rfl ((Reads.list fun m _ => reads_message m).map _) rfl
  cases error with
  | none =>
    exact Layout.reads (Gathers.cons htopic (Gathers.cons hmessages (Gathers.nil _))) (by decide)
  | some error =>
    have herror : TopicMessages.layout.entry.Takes ⟨⟨topic, messages, none⟩, ["messages", "topic"]⟩
        "error" error.print ⟨⟨topic, messages, some error⟩, ["error", "messages", "topic"]⟩ :=
      Layout.takes rfl rfl (((reads_error error).nullable fun h => by cases h).map _) rfl
    exact Layout.reads
      (Gathers.cons htopic (Gathers.cons hmessages (Gathers.cons herror (Gathers.nil _)))) (by decide)

theorem document_element (e : TopicMessages) :
    Reader.document TopicMessages.reader e.print = .ok e :=
  document_of_reads (reads_element e)

/-! ## Requests -/

theorem reads_optionalText (s : Option String) :
    Reads (Reader.nullable Reader.text) (Printer.optionalText s) s := by
  cases s with
  | none => exact Reads.null Reader.text
  | some s => exact (Reads.text s).nullable fun h => by cases h

theorem reads_request (r : ConsumeRequest) : Reads ConsumeRequest.layout.reader r.print r := by
  have hid : ConsumeRequest.layout.entry.Takes ⟨⟨none, 0⟩, []⟩ "lastMessageId"
      (Printer.optionalText r.lastMessageId) ⟨⟨r.lastMessageId, 0⟩, ["lastMessageId"]⟩ :=
    Layout.takes rfl rfl ((reads_optionalText r.lastMessageId).map _) rfl
  have hlimit : ConsumeRequest.layout.entry.Takes ⟨⟨r.lastMessageId, 0⟩, ["lastMessageId"]⟩ "limit"
      (Printer.natural r.limit.toNat) ⟨r, ["limit", "lastMessageId"]⟩ :=
    Layout.takes rfl rfl ((Reads.word32 r.limit).map _) rfl
  exact Layout.reads (Gathers.cons hid (Gathers.cons hlimit (Gathers.nil _))) (by decide)

/-- A request that leaves its id out asks for a topic from the start, as one does that has null there. -/
theorem reads_request_from_start (limit : UInt32) :
    Reads ConsumeRequest.layout.reader (Printer.object [("limit", Printer.natural limit.toNat)])
      ⟨none, limit⟩ := by
  have hlimit : ConsumeRequest.layout.entry.Takes ⟨⟨none, 0⟩, []⟩ "limit"
      (Printer.natural limit.toNat) ⟨⟨none, limit⟩, ["limit"]⟩ :=
    Layout.takes rfl rfl ((Reads.word32 limit).map _) rfl
  exact Layout.reads (Gathers.cons hlimit (Gathers.nil _)) (by decide)

/-- **The requests of a fetch are read back as they were written.** -/
theorem document_requests (rs : ConsumeRequests) :
    Reader.document ConsumeRequests.reader rs.print = .ok rs :=
  document_of_reads (Reads.sortedMap fun e _ => reads_request e.2)

/-! ## Topic resolution -/

/-- **Keys are read back as they were written.** -/
theorem document_keys (keys : TopicKeys) :
    Reader.document keysReader (printKeys keys) = .ok keys := by
  have hreads : Reads keysReader (printKeys keys) (KeySet.ofKeys keys.keys) :=
    (Reads.list fun k _ => Reads.text k).map _
  rw [KeySet.ofKeys_keys] at hreads
  exact document_of_reads hreads

/-- **So is a mapping.** -/
theorem document_mapping (m : TopicMapping) :
    Reader.document mappingReader (printMapping m) = .ok m :=
  document_of_reads (Reads.sortedMap fun e _ => Reads.text e.2)

/-! ## Shutdown and refusals -/

theorem reads_shutdown (r : ShutdownResult) : Reads ShutdownResult.layout.reader r.print r := by
  have haccepted : ShutdownResult.layout.entry.Takes ⟨⟨false, false⟩, []⟩ "accepted"
      (Printer.boolean r.accepted) ⟨⟨r.accepted, false⟩, ["accepted"]⟩ :=
    Layout.takes rfl rfl ((Reads.boolean r.accepted).map _) rfl
  have hfirst : ShutdownResult.layout.entry.Takes ⟨⟨r.accepted, false⟩, ["accepted"]⟩ "first"
      (Printer.boolean r.first) ⟨r, ["first", "accepted"]⟩ :=
    Layout.takes rfl rfl ((Reads.boolean r.first).map _) rfl
  exact Layout.reads (Gathers.cons haccepted (Gathers.cons hfirst (Gathers.nil _))) (by decide)

theorem reads_refusal (r : ErrorResponse) : Reads ErrorResponse.layout.reader r.print r := by
  have hcode : ErrorResponse.layout.entry.Takes ⟨⟨0, ""⟩, []⟩ "code" (Printer.natural r.code.toNat)
      ⟨⟨r.code, ""⟩, ["code"]⟩ :=
    Layout.takes rfl rfl ((Reads.word16 r.code).map _) rfl
  have hmessage : ErrorResponse.layout.entry.Takes ⟨⟨r.code, ""⟩, ["code"]⟩ "message"
      (Printer.text r.message) ⟨r, ["message", "code"]⟩ :=
    Layout.takes rfl rfl ((Reads.text r.message).map _) rfl
  exact Layout.reads (Gathers.cons hcode (Gathers.cons hmessage (Gathers.nil _))) (by decide)

/-! ## All that goes with a fetch -/

/-- **Requests and small replies are read back as they were written**, whatever texts and numbers are in
    them, and no two of a kind are written alike. -/
theorem requests_and_replies_read_back :
    RoundTrips ConsumeRequests.print ConsumeRequests.reader
    ∧ RoundTrips printKeys keysReader
    ∧ RoundTrips printMapping mappingReader
    ∧ RoundTrips ShutdownResult.print ShutdownResult.layout.reader
    ∧ RoundTrips ErrorResponse.print ErrorResponse.layout.reader :=
  ⟨.of_document document_requests, .of_document document_keys, .of_document document_mapping,
    .of_document fun r => document_of_reads (reads_shutdown r),
    .of_document fun r => document_of_reads (reads_refusal r)⟩

end TopicRelay.Wire
