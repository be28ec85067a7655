/-
  The endpoint writes the answer it should give.

  What a writer has taken in is partly with the receiver and partly in the buffer; `written` is both,
  and while the receiver stays, every write adds to it just what is written.  So an answer that is
  being written is known by the elements it holds so far (`Holds`), and

      topic by topic    the elements of each are added (`batches_spec`, `topics_spec`)
      at the end        the receiver has the text of the answer (`stream_spec`)

  The loop over batches asks the log for what follows the last id it has seen.  That this goes on
  where the last batch ended needs the ids of the topic to ascend.
-/
import TopicRelay.Endpoint.MessageStream
import TopicRelay.Proofs.Endpoint.Elements
import TopicRelay.Proofs.Log.Order
import TopicRelay.Proofs.Wire.Cuts

namespace TopicRelay.Endpoint

open Json
open Wire (ConsumeRequest ConsumeRequests TopicMessages answerText)

/-! ## The writer -/

namespace ChunkWriter

/-- All that was written: what the receiver has, and what is in the buffer. -/
def written (w : ChunkWriter) : Bytes := w.receiver.body ++ w.buffer.bytes

/-- Handing over loses nothing and leaves nothing behind. -/
theorem flush_spec {w : ChunkWriter} (h : w.receiver.patience = none) :
    ∃ w', w.flush = (.ok (), w') ∧ w'.receiver.patience = none ∧ w'.receiver.body = w.written
      ∧ w'.written = w.written := by
  rw [flush]
  split
  · next hsize =>
    have hnil : w.buffer.bytes = [] := List.length_eq_zero_iff.mp (by rw [w.buffer.length_bytes, hsize])
    refine ⟨w, rfl, h, ?_, rfl⟩
    rw [written, hnil, List.append_nil]
  · have hgone : w.receiver.isGone = false := by
      rw [Receiver.isGone, h]; rfl
    simp only [hgone, Bool.false_eq_true, if_false]
    have hbody : (w.buffer.bytes :: w.receiver.taken).reverse.flatten = w.written := by
      rw [List.reverse_cons, List.flatten_append, List.flatten_singleton]; rfl
    refine ⟨_, rfl, h, hbody, ?_⟩
    show (w.buffer.bytes :: w.receiver.taken).reverse.flatten ++ Buffer.empty.bytes = _
    rw [hbody]
    exact List.append_nil _

/-- A write adds what is written. -/
theorem write_spec {w : ChunkWriter} (h : w.receiver.patience = none) (bytes : Bytes) :
    ∃ w', w.write bytes = (.ok (), w') ∧ w'.receiver.patience = none
      ∧ w'.written = w.written ++ bytes := by
  have hpush : ({ w with buffer := w.buffer.push bytes } : ChunkWriter).written = w.written ++ bytes := by
    rw [written, written, Buffer.bytes_push, List.append_assoc]
  rw [write]
  simp only
  split
  · obtain ⟨w', hflush, hstays, -, hwritten⟩ :=
      flush_spec (w := { w with buffer := w.buffer.push bytes }) h
    exact ⟨w', hflush, hstays, hwritten.trans hpush⟩
  · exact ⟨_, rfl, h, hpush⟩

end ChunkWriter

/-! ## An answer that is being written -/

/-- Reading from a log in memory. -/
def memoryReader : LogReader MemoryLog := fun q log => (log.fetch q, log)

namespace Answer

/-- An answer that holds some elements so far, read from a log. -/
structure Holds {σ : Type} (a : Answer σ) (log : σ) (es : List TopicMessages) : Prop where
  stays : a.writer.receiver.patience = none
  written : a.writer.written
    = Ascii.openBracket :: Printer.commaSeparated (es.map TopicMessages.print)
  counted : a.elements = es.length
  log : a.log = log

section Writing

variable {σ : Type} {a : Answer σ} {log : σ} {es : List TopicMessages}

theorem commaSeparated_concat (items : List Bytes) (item : Bytes) :
    Printer.commaSeparated (items ++ [item])
      = Printer.commaSeparated items ++ ((if items.length = 0 then none else some Ascii.comma).toList
          ++ item) := by
  cases items with
  | nil => rfl
  | cons x items =>
    rw [List.cons_append, Printer.commaSeparated_cons, Printer.commaSeparated_cons, List.flatMap_append]
    simp

theorem Holds.element (h : Holds a log es) (e : TopicMessages) :
    ∃ a', a.element e = (.ok (), a') ∧ Holds a' log (es ++ [e]) := by
  obtain ⟨w', hwrite, hstays, hwritten⟩ := ChunkWriter.write_spec h.stays
    ((if a.elements = 0 then none else some Ascii.comma).toList ++ e.print)
  have helement : a.writer.writeElement (if a.elements = 0 then none else some Ascii.comma)
      (.ok e.print) = (.ok (), w') := hwrite
  refine ⟨{ a with writer := w', elements := a.elements + 1 }, ?_, hstays, ?_, ?_, h.log⟩
  · rw [Answer.element]
    simp only [helement]
  · rw [hwritten, h.written, h.counted, List.map_append, List.map_cons, List.map_nil,
      commaSeparated_concat, List.length_map, List.cons_append]
  · rw [List.length_append, List.length_singleton, ← h.counted]

theorem Holds.lastElement (h : Holds a log es) (written : Nat) (e : TopicMessages) :
    ∃ a', a.lastElement written e = (.ok written, a') ∧ Holds a' log (es ++ [e]) := by
  obtain ⟨a', helement, hholds⟩ := h.element e
  refine ⟨a', ?_, hholds⟩
  rw [Answer.lastElement]
  simp only [helement]

/-- A topic that the log does not have. -/
theorem Holds.notFound (h : Holds a log es) (key : TopicKey) (name : TopicName) :
    ∃ a', a.failTopic key 0 (.topicNotFound name) = (.ok 0, a')
      ∧ Holds a' log (es ++ [.notFound key]) :=
  (show Holds (a.increment Metrics.relayTopicNotFound) log es from
    ⟨h.stays, h.written, h.counted, h.log⟩).lastElement 0 (.notFound key)

/-! ## Topics -/

/-- The elements that are still to be written for a key of which `written` messages are written. -/
def furtherElements (batchLimit : Nat) (key : TopicKey) (written : Nat) (ms : List Message) :
    List TopicMessages :=
  if ms = [] ∧ written = 0 then [.empty key] else (inBatches batchLimit ms).map (.ofMessages key)

/-- A full batch comes first.  It is full because of the batch limit, or because no more is asked for. -/
theorem furtherElements_append {batchLimit remaining : Nat} (hlimit : 0 < batchLimit) (key : TopicKey)
    (written : Nat) {first : List Message} (hne : first ≠ [])
    (hfull : first.length = min remaining batchLimit) (rest : List Message) :
    furtherElements batchLimit key written (first ++ rest.take (remaining - first.length))
      = .ofMessages key first :: furtherElements batchLimit key (written + first.length)
          (rest.take (remaining - first.length)) := by
  have hlength := List.length_pos_iff.mpr hne
  have hall : first ++ rest.take (remaining - first.length) ≠ [] :=
    List.append_ne_nil_of_left_ne_nil hne _
  have hpositive : ¬ written + first.length = 0 := by omega
  rw [furtherElements, if_neg fun hc => hall hc.1, furtherElements, if_neg fun hc => hpositive hc.2]
  by_cases hle : batchLimit ≤ remaining
  · have hn : first.length = batchLimit := by omega
    rw [inBatches_cons hlimit hall, List.map_cons]
    rw [List.take_append_of_le_length (by omega), List.take_of_length_le (by omega),
      List.drop_append_of_le_length (by omega), List.drop_of_length_le (by omega), List.nil_append]
  · have hdone : remaining - first.length = 0 := by omega
    rw [hdone, List.take_zero, List.append_nil, inBatches_nil hlimit,
      inBatches_of_le hlimit hne (by omega)]
    rfl

/-- What comes next after a batch is what follows its last id. -/
theorem exists_last {first : List Message} (hne : first ≠ []) (after : Option MessageId) :
    ∃ front m, first = front ++ [m] ∧ (first.getLast?.map (·.id)).or after = some m.id := by
  rcases first.eq_nil_or_concat with hnil | ⟨front, m, hfirst⟩
  · exact absurd hnil hne
  · rw [List.concat_eq_append] at hfirst
    refine ⟨front, m, hfirst, ?_⟩
    rw [hfirst, List.getLast?_concat]
    rfl

theorem Holds.endTopic (h : Holds a log es) {batchLimit : Nat} (hlimit : 0 < batchLimit)
    (key : TopicKey) (written : Nat) :
    ∃ n a', a.endTopic key written = (.ok n, a')
      ∧ Holds a' log (es ++ furtherElements batchLimit key written []) := by
  rw [Answer.endTopic, furtherElements]
  split
  · next hzero =>
    obtain ⟨a', hlast, hholds⟩ := h.lastElement 0 (.empty key)
    rw [if_pos ⟨rfl, hzero⟩]
    exact ⟨0, a', hlast, hholds⟩
  · next hzero =>
    rw [if_neg fun hc => hzero hc.2, inBatches_nil hlimit, List.map_nil, List.append_nil]
    exact ⟨written, a, rfl, h⟩

end Writing

variable {a : Answer MemoryLog} {log : MemoryLog} {es : List TopicMessages}

/-- **A topic, batch by batch.**  The batches that are read are those of what is to be given. -/
theorem batches_spec {batchLimit : Nat} (hlimit : 0 < batchLimit) (key : TopicKey) {topic : TopicName}
    {all : List Message} (hall : log.topics.get? topic = some all) (hasc : Log.Ascending all)
    (after : Option MessageId) (remaining written : Nat) {a : Answer MemoryLog}
    {es : List TopicMessages} (h : Holds a log es) :
    ∃ n a', batches memoryReader batchLimit key topic after remaining written a = (.ok n, a')
      ∧ Holds a' log (es ++ furtherElements batchLimit key written
          ((MemoryLog.following after all).take remaining)) := by
  rw [batches]
  split
  · next hzero =>
    rw [hzero, List.take_zero]
    exact h.endTopic hlimit key written
  · next hzero =>
    have hbatch : 0 < min remaining batchLimit := by omega
    have hread : memoryReader ⟨topic, after, min remaining batchLimit⟩ a.log
        = (.ok ((MemoryLog.following after all).take (min remaining batchLimit)), a.log) := by
      simp only [memoryReader, MemoryLog.fetch, h.log, hall]
    simp only [hread]
    generalize hfirst : (MemoryLog.following after all).take (min remaining batchLimit) = first
    have hlength : first.length = min (min remaining batchLimit) (MemoryLog.following after all).length := by
      rw [← hfirst, List.length_take]
    split
    · next hnone =>
      have hnil : MemoryLog.following after all = [] := List.length_eq_zero_iff.mp (by omega)
      rw [hnil, List.take_nil]
      exact h.endTopic hlimit key written
    · next hsome =>
      have hne : first ≠ [] := fun hc => hsome (by rw [hc]; rfl)
      obtain ⟨a₁, helement, hholds⟩ := h.element (.ofMessages key first)
      simp only [helement]
      split
      · next hshort =>
        -- a batch that is not full holds all there is
        have hwhole : MemoryLog.following after all = first := by
          rw [← hfirst]
          exact (List.take_of_length_le (by omega)).symm
        have htake : (MemoryLog.following after all).take remaining = first := by
          rw [hwhole]
          exact List.take_of_length_le (by omega)
        refine ⟨_, a₁, rfl, ?_⟩
        rw [htake, furtherElements, if_neg fun hc => hne hc.1, inBatches_of_le hlimit hne (by omega)]
        exact hholds
      · next hfull =>
        obtain ⟨batch, m, hconcat, hafter⟩ := exists_last hne after
        have hfullLength : first.length = min remaining batchLimit := by omega
        have hsplit : MemoryLog.following after all
            = (batch ++ [m]) ++ (MemoryLog.following after all).drop (min remaining batchLimit) := by
          rw [← hconcat, ← hfirst, List.take_append_drop]
        rw [hafter]
        obtain ⟨n, a₂, hrest, hholds'⟩ := batches_spec hlimit key hall hasc (some m.id)
          (remaining - first.length) (written + first.length) hholds
        refine ⟨n, a₂, hrest, ?_⟩
        -- what follows the last id of this batch is what this batch left
        have hfollow := Log.following_last hasc hsplit
        have htake : (MemoryLog.following after all).take remaining
            = first ++ (MemoryLog.following (some m.id) all).take (remaining - first.length) := by
          conv => lhs; rw [hsplit, ← hconcat, ← hfollow]
          rw [List.take_append, List.take_of_length_le (by omega)]
        rw [htake, furtherElements_append hlimit key written hne hfullLength,
          ← List.singleton_append, ← List.append_assoc]
        exact hholds'
termination_by remaining

/-- **A key.** -/
theorem topic_spec (resolver : Resolver) (maxPerRead : Nat) (key : TopicKey) {r : ConsumeRequest}
    (hasc : ∀ topic, Log.Ascending (log.messages topic)) (hr : r.limit ≠ 0) (h : Holds a log es) :
    ∃ n a', Answer.topic memoryReader resolver maxPerRead key r a = (.ok n, a')
      ∧ Holds a' log (es ++ elementsOf resolver log maxPerRead key r) := by
  have hpos : 0 < max maxPerRead 1 := Nat.lt_of_lt_of_le Nat.one_pos (Nat.le_max_right _ _)
  have hlimit : r.limit.toNat ≠ 0 := fun hc => hr (UInt32.toNat_inj.mp hc)
  rw [Answer.topic, elementsOf]
  cases hname : resolver.resolve? key with
  | none =>
    obtain ⟨a', hfail, hholds⟩ := h.notFound key key
    exact ⟨0, a', hfail, hholds⟩
  | some name =>
    simp only [MemoryLog.fetch]
    cases hall : log.topics.get? name with
    | none =>
      have hread : memoryReader ⟨name, r.lastMessageId, min r.limit.toNat (max maxPerRead 1)⟩ a.log
          = (.error (.topicNotFound name), a.log) := by
        simp only [memoryReader, MemoryLog.fetch, h.log, hall]
      obtain ⟨a', hfail, hholds⟩ :=
        (show Holds { a with log := a.log } log es from h).notFound key name
      refine ⟨0, a', ?_, hholds⟩
      -- only the first read can find no topic, and a limit above zero sees to it that there is one
      rw [batches, if_neg hlimit]
      simp only [hread]
      exact hfail
    | some all =>
      have hthis : Log.Ascending all := by
        have := hasc name
        rw [MemoryLog.messages, hall] at this
        exact this
      obtain ⟨n, a', hbatches, hholds⟩ :=
        batches_spec hpos key hall hthis r.lastMessageId r.limit.toNat 0 h
      refine ⟨n, a', hbatches, ?_⟩
      have hsame : furtherElements (max maxPerRead 1) key 0
          ((MemoryLog.following r.lastMessageId all).take r.limit.toNat)
          = elementsWith maxPerRead key ((MemoryLog.following r.lastMessageId all).take r.limit.toNat) := by
        rw [furtherElements, elementsWith]
        simp only [and_true, List.isEmpty_iff]
      show Holds a' log (es ++ elementsWith maxPerRead key _)
      rw [← hsame]
      exact hholds

/-- **Several keys.** -/
theorem topics_spec (resolver : Resolver) (maxPerRead : Nat)
    (hasc : ∀ topic, Log.Ascending (log.messages topic)) (written : Nat)
    {l : List (TopicKey × ConsumeRequest)} (hl : ∀ e ∈ l, e.2.limit ≠ 0) (h : Holds a log es) :
    ∃ n a', topics memoryReader resolver maxPerRead written l a = (.ok n, a')
      ∧ Holds a' log (es ++ l.flatMap fun e => elementsOf resolver log maxPerRead e.1 e.2) := by
  induction l generalizing a es written with
  | nil =>
    refine ⟨written, a, rfl, ?_⟩
    rw [List.flatMap_nil, List.append_nil]
    exact h
  | cons e l ih =>
    obtain ⟨key, r⟩ := e
    obtain ⟨n, a₁, htopic, hholds⟩ :=
      topic_spec resolver maxPerRead key hasc (hl _ List.mem_cons_self) h
    obtain ⟨n', a₂, hrest, hholds'⟩ :=
      ih (written + n) (fun e he => hl e (List.mem_cons_of_mem _ he)) hholds
    refine ⟨n', a₂, ?_, ?_⟩
    · rw [topics, htopic]
      exact hrest
    · rw [List.flatMap_cons, ← List.append_assoc]
      exact hholds'

/-- **The whole answer.**  A receiver that stays gets the text of the elements that the requests ask
    for, and the log is as it was. -/
theorem stream_spec (resolver : Resolver) (maxPerRead chunkSize : Nat) {requests : ConsumeRequests}
    (metrics : Metrics) (hasc : ∀ topic, Log.Ascending (log.messages topic))
    (hlimits : ∀ e ∈ requests.entries, e.2.limit ≠ 0) :
    ∃ n a', stream memoryReader resolver maxPerRead requests
        ⟨.new chunkSize (.new none true), 0, log, metrics⟩ = (.ok n, a')
      ∧ a'.writer.receiver.body = answerText (answerOf resolver log maxPerRead requests)
      ∧ a'.log = log := by
  obtain ⟨w, hopen, hstays, hwritten⟩ :=
    ChunkWriter.write_spec (w := .new chunkSize (.new none true)) rfl [Ascii.openBracket]
  have hbegin : Holds ⟨w, 0, log, metrics⟩ log [] := ⟨hstays, hwritten, rfl, rfl⟩
  obtain ⟨n, a₁, htopics, hholds⟩ :=
    topics_spec resolver maxPerRead hasc 0 hlimits hbegin
  obtain ⟨w₂, hclose, hstays₂, hwritten₂⟩ :=
    ChunkWriter.write_spec hholds.stays [Ascii.closeBracket]
  obtain ⟨w₃, hflush, -, hbody, -⟩ := ChunkWriter.flush_spec hstays₂
  refine ⟨n, { a₁ with
    writer := w₃, metrics := a₁.metrics.count Metrics.relayMessages (Float.ofNat n) }, ?_, ?_,
    hholds.log⟩
  · rw [stream]
    simp only [frame, hopen, htopics, close, hclose, hflush]
  · rw [hbody, hwritten₂, hholds.written]
    rfl

end Answer
end TopicRelay.Endpoint
