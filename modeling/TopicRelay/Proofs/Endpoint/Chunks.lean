/-
  Which chunks a receiver gets.

  What is done with a writer is a list of steps: bytes, elements, and orders to hand over what there
  is.  The steps alone say what the chunks are.  Cut the steps where

      full       the step is a write, and what was written since the last cut reaches the chunk size
      ordered    the step is an order, and something was written since the last cut

  and nowhere else: each part is a chunk (`IsChunk`), and what comes after the last cut waits in the
  buffer (`Waits`).  A chunk size of 0 is one of 1, since a chunk is never empty.

  An element that breaks off is no write: what came out of it is cut off the buffer again.

  The crux is `Chunked.perform`: a step either waits with the others or ends their part.
-/
import TopicRelay.Endpoint.ChunkWriter

namespace TopicRelay.Endpoint

/-- What can be done with a writer. -/
inductive WriteStep where
  | bytes (text : Bytes)
  | element (separator : Option UInt8) (json : Serialization)
  | flush

namespace WriteStep

/-- Does one step. -/
def perform (w : ChunkWriter) : WriteStep → Except ChunkError Unit × ChunkWriter
  | .bytes text => w.write text
  | .element separator json => w.writeElement separator json
  | .flush => w.flush

/-- Does the steps one after the other, whatever comes of each: their results, and the writer. -/
def performAll (w : ChunkWriter) : List WriteStep → List (Except ChunkError Unit) × ChunkWriter
  | [] => ([], w)
  | step :: steps =>
    let (result, w) := step.perform w
    let (results, w) := performAll w steps
    (result :: results, w)

/-! ## What the steps say -/

/-- What a step comes to as long as the receiver stays: only an element that breaks off fails. -/
def verdict : WriteStep → Except ChunkError Unit
  | .element _ ⟨_, some reason⟩ => .error (.unserializable reason)
  | _ => .ok ()

/-- What a step writes, if it is a write and does not fail. -/
def text? : WriteStep → Option Bytes
  | .bytes text => some text
  | .element separator ⟨output, none⟩ => some (separator.toList ++ output)
  | _ => none

/-- All that some steps write. -/
def texts (steps : List WriteStep) : Bytes := (steps.filterMap text?).flatten

theorem texts_append (steps steps' : List WriteStep) :
    texts (steps ++ steps') = texts steps ++ texts steps' := by
  rw [texts, List.filterMap_append, List.flatten_append, texts, texts]

theorem texts_flatten (parts : List (List WriteStep)) :
    texts parts.flatten = (parts.map texts).flatten := by
  induction parts with
  | nil => rfl
  | cons part parts ih =>
    rw [List.flatten_cons, texts_append, ih, List.map_cons, List.flatten_cons]

theorem texts_concat_of_text {step : WriteStep} {text : Bytes} (h : step.text? = some text)
    (steps : List WriteStep) : texts (steps ++ [step]) = texts steps ++ text := by
  rw [texts_append]
  congr 1
  rw [texts, List.filterMap_cons_some h, List.filterMap_nil, List.flatten_singleton]

theorem texts_concat_of_none {step : WriteStep} (h : step.text? = none) (steps : List WriteStep) :
    texts (steps ++ [step]) = texts steps := by
  rw [texts_append, texts.eq_def [step], List.filterMap_cons_none h]
  exact List.append_nil _

/-- Steps none of which ends a chunk of `c` bytes: what they write is less than that, and nothing of
    it comes before an order to hand it over. -/
structure Waits (c : Nat) (steps : List WriteStep) : Prop where
  short : (texts steps).length < c
  unordered : ∀ front rest, steps = front ++ .flush :: rest → texts front = []

/-- Steps of which the last one ends a chunk of `c` bytes. -/
inductive IsChunk (c : Nat) : List WriteStep → Prop
  /-- A write reaches the chunk size. -/
  | full {front : List WriteStep} {step : WriteStep} {text : Bytes} (waits : Waits c front)
      (writes : step.text? = some text) (reaches : c ≤ (texts front ++ text).length) :
      IsChunk c (front ++ [step])
  /-- What was written is ordered out. -/
  | ordered {front : List WriteStep} (waits : Waits c front) (some : texts front ≠ []) :
      IsChunk c (front ++ [.flush])

theorem waits_nil {c : Nat} (h : 0 < c) : Waits c [] :=
  ⟨h, fun front rest hnil => by cases front <;> cases hnil⟩

/-- A step that is no order waits with the others if the chunk size is not reached. -/
theorem Waits.concat {c : Nat} {steps : List WriteStep} (h : Waits c steps) {step : WriteStep}
    (hstep : step ≠ .flush) (hshort : (texts (steps ++ [step])).length < c) :
    Waits c (steps ++ [step]) := by
  refine ⟨hshort, fun front rest heq => ?_⟩
  rcases List.eq_nil_or_concat rest with rfl | ⟨rest, last, rfl⟩
  · exact absurd (List.append_inj' heq rfl).2 (by simpa using hstep)
  · rw [List.concat_eq_append, ← List.cons_append, ← List.append_assoc] at heq
    exact h.unordered front rest (List.append_inj' heq rfl).1

/-- An order for nothing waits with the others. -/
theorem Waits.concat_flush {c : Nat} {steps : List WriteStep} (h : Waits c steps)
    (hnone : texts steps = []) : Waits c (steps ++ [.flush]) := by
  refine ⟨by rw [texts_concat_of_none rfl]; exact h.short, fun front rest heq => ?_⟩
  rcases List.eq_nil_or_concat rest with rfl | ⟨rest, last, rfl⟩
  · rw [← (List.append_inj' heq rfl).1, hnone]
  · rw [List.concat_eq_append, ← List.cons_append, ← List.append_assoc] at heq
    exact h.unordered front rest (List.append_inj' heq rfl).1

theorem IsChunk.texts_ne_nil {c : Nat} (hc : 0 < c) {part : List WriteStep} (h : IsChunk c part) :
    texts part ≠ [] := by
  cases h with
  | full waits writes reaches =>
    rw [texts_concat_of_text writes]
    exact List.ne_nil_of_length_pos (Nat.lt_of_lt_of_le hc reaches)
  | ordered waits some => rwa [texts_concat_of_none rfl]

end WriteStep

open WriteStep (IsChunk Waits texts texts_concat_of_text texts_concat_of_none texts_flatten)

/-! ## The writer -/

namespace ChunkWriter

/-- The chunk size that counts: a chunk holds at least one byte. -/
def leastChunk (w : ChunkWriter) : Nat := max w.chunkSize 1

theorem leastChunk_pos (w : ChunkWriter) : 0 < w.leastChunk := Nat.le_max_right _ _

/-- A write hands over exactly if the least chunk is reached. -/
theorem write_eq (w : ChunkWriter) (text : Bytes) :
    w.write text =
      if w.leastChunk ≤ (w.buffer.bytes ++ text).length
        then ({ w with buffer := w.buffer.push text } : ChunkWriter).flush
        else (.ok (), { w with buffer := w.buffer.push text }) := by
  rw [ChunkWriter.write, ← Buffer.bytes_push, Buffer.length_bytes]
  simp only
  by_cases hzero : (w.buffer.push text).size = 0
  · -- with nothing in the buffer, handing over does nothing
    rw [ChunkWriter.flush, if_pos hzero, ite_self, ite_self]
  · congr 1
    rw [leastChunk, Nat.max_le]
    exact propext ⟨fun h => ⟨h, Nat.one_le_iff_ne_zero.mpr hzero⟩, And.left⟩

/-- While the receiver stays, what is in the buffer becomes a chunk, and the counters count it. -/
theorem flush_eq {w : ChunkWriter} (hstays : w.receiver.patience = none) (hsome : w.buffer.bytes ≠ []) :
    w.flush = (.ok (),
      { w with
        buffer := .empty
        receiver := { w.receiver with taken := w.buffer.bytes :: w.receiver.taken }
        chunkCount := w.chunkCount + 1
        byteCount := w.byteCount + w.buffer.bytes.length }) := by
  have hsize : w.buffer.size ≠ 0 := by
    rw [← w.buffer.length_bytes]
    exact fun h => hsome (List.length_eq_zero_iff.mp h)
  have hthere : w.receiver.isGone = false := by rw [Receiver.isGone, hstays]; rfl
  rw [ChunkWriter.flush, if_neg hsize, hthere]
  rfl

theorem flush_eq_of_nil {w : ChunkWriter} (hnone : w.buffer.bytes = []) : w.flush = (.ok (), w) := by
  rw [ChunkWriter.flush, if_pos]
  rw [← w.buffer.length_bytes, hnone, List.length_nil]

/-- **Broken off.**  The element leaves nothing behind, and no trace of its separator. -/
theorem writeElement_broken (w : ChunkWriter) (separator : Option UInt8) (output : Bytes)
    (reason : String) :
    ∃ buffer, w.writeElement separator ⟨output, some reason⟩
          = (.error (.unserializable reason), { w with buffer := buffer })
      ∧ buffer.bytes = w.buffer.bytes := by
  refine ⟨_, rfl, ?_⟩
  rw [Buffer.bytes_truncate, Buffer.bytes_push, ← Buffer.length_bytes, List.take_left]

/-! ## Parts -/

/-- A writer whose receiver has one chunk for each of these parts, and whose counters say so. -/
structure Sent (w : ChunkWriter) (parts : List (List WriteStep)) : Prop where
  stays : w.receiver.patience = none
  areChunks : ∀ part ∈ parts, IsChunk w.leastChunk part
  chunks : w.receiver.chunks = parts.map texts
  chunkCount : w.chunkCount = w.receiver.chunks.length
  byteCount : w.byteCount = w.receiver.body.length

/-- The other steps wait in the buffer. -/
structure Chunked (w : ChunkWriter) (parts : List (List WriteStep)) (rest : List WriteStep) : Prop
    extends Sent w parts where
  buffer : w.buffer.bytes = texts rest
  waits : Waits w.leastChunk rest

variable {w : ChunkWriter} {parts : List (List WriteStep)} {rest : List WriteStep}

/-- Handing over ends a part. -/
theorem Sent.flush (h : w.Sent parts) {part : List WriteStep} (hpart : IsChunk w.leastChunk part)
    (hbuffer : w.buffer.bytes = texts part) :
    ∃ w', w.flush = (.ok (), w') ∧ w'.chunkSize = w.chunkSize ∧ w'.Chunked (parts ++ [part]) [] := by
  have hsome : w.buffer.bytes ≠ [] := hbuffer ▸ hpart.texts_ne_nil w.leastChunk_pos
  refine ⟨_, flush_eq h.stays hsome, rfl, ⟨h.stays, ?_, ?_, ?_, ?_⟩, rfl,
    WriteStep.waits_nil w.leastChunk_pos⟩
  · rintro p hp
    rcases List.mem_append.mp hp with hp | hp
    · exact h.areChunks p hp
    · exact List.mem_singleton.mp hp ▸ hpart
  · rw [List.map_append, ← h.chunks, List.map_singleton, ← hbuffer]
    exact List.reverse_cons
  · simp only [h.chunkCount, Receiver.chunks, List.length_reverse, List.length_cons]
  · simp only [h.byteCount, Receiver.body, Receiver.chunks, List.reverse_cons, List.flatten_append,
      List.flatten_singleton, List.length_append]

/-- A write. -/
theorem Chunked.write (h : w.Chunked parts rest) {step : WriteStep} {text : Bytes}
    (hstep : step.text? = some text) :
    ∃ w' parts' rest', w.write text = (.ok (), w') ∧ w'.chunkSize = w.chunkSize
      ∧ parts'.flatten ++ rest' = parts.flatten ++ rest ++ [step] ∧ w'.Chunked parts' rest' := by
  have hsent : ({ w with buffer := w.buffer.push text } : ChunkWriter).Sent parts :=
    ⟨h.stays, h.areChunks, h.chunks, h.chunkCount, h.byteCount⟩
  have hbuffer : (w.buffer.push text).bytes = texts (rest ++ [step]) := by
    rw [Buffer.bytes_push, h.buffer, texts_concat_of_text hstep]
  rw [write_eq, h.buffer]
  by_cases hfull : w.leastChunk ≤ (texts rest ++ text).length
  · obtain ⟨w', hflush, hsize, hw'⟩ := hsent.flush (.full h.waits hstep hfull) hbuffer
    refine ⟨w', _, _, by rw [if_pos hfull, hflush], hsize, ?_, hw'⟩
    rw [List.flatten_append, List.flatten_singleton, List.append_nil, List.append_assoc]
  · refine ⟨_, parts, rest ++ [step], if_neg hfull, rfl, (List.append_assoc _ _ _).symm, hsent,
      hbuffer, ?_⟩
    refine h.waits.concat (fun hc => ?_) ?_
    · rw [hc] at hstep
      cases hstep
    · rw [texts_concat_of_text hstep]
      exact Nat.not_le.mp hfull

/-- **One step.** -/
theorem Chunked.perform (h : w.Chunked parts rest) (step : WriteStep) :
    ∃ w' parts' rest', step.perform w = (step.verdict, w') ∧ w'.chunkSize = w.chunkSize
      ∧ parts'.flatten ++ rest' = parts.flatten ++ rest ++ [step] ∧ w'.Chunked parts' rest' := by
  cases step with
  | bytes text => exact h.write rfl
  | element separator json =>
    obtain ⟨output, _ | reason⟩ := json
    · have hsome : (WriteStep.element separator ⟨output, none⟩).text? = some _ := rfl
      exact h.write hsome
    · obtain ⟨buffer, hbroken, hbytes⟩ := w.writeElement_broken separator output reason
      have hnone : (WriteStep.element separator ⟨output, some reason⟩).text? = none := rfl
      refine ⟨_, parts, rest ++ [_], hbroken, rfl, (List.append_assoc _ _ _).symm,
        ⟨h.stays, h.areChunks, h.chunks, h.chunkCount, h.byteCount⟩, ?_, ?_⟩
      · rw [texts_concat_of_none hnone, ← h.buffer]
        exact hbytes
      · refine h.waits.concat (fun hc => by cases hc) ?_
        rw [texts_concat_of_none hnone]
        exact h.waits.short
  | flush =>
    by_cases hnone : texts rest = []
    · exact ⟨w, parts, rest ++ [.flush], flush_eq_of_nil (h.buffer.trans hnone), rfl,
        (List.append_assoc _ _ _).symm, h.toSent, by rw [texts_concat_of_none rfl, h.buffer],
        h.waits.concat_flush hnone⟩
    · obtain ⟨w', hflush, hsize, hw'⟩ := h.toSent.flush (.ordered h.waits hnone)
        (by rw [texts_concat_of_none rfl, h.buffer])
      refine ⟨w', _, _, hflush, hsize, ?_, hw'⟩
      rw [List.flatten_append, List.flatten_singleton, List.append_nil, List.append_assoc]

/-- All steps, by induction on them; the parts so far are carried along. -/
theorem Chunked.performAll (h : w.Chunked parts rest) (steps : List WriteStep) :
    ∃ w' parts' rest', WriteStep.performAll w steps = (steps.map WriteStep.verdict, w')
      ∧ w'.chunkSize = w.chunkSize
      ∧ parts'.flatten ++ rest' = parts.flatten ++ rest ++ steps ∧ w'.Chunked parts' rest' := by
  induction steps generalizing w parts rest with
  | nil => exact ⟨w, parts, rest, rfl, rfl, (List.append_nil _).symm, h⟩
  | cons step steps ih =>
    obtain ⟨w₁, parts₁, rest₁, hstep, hsize₁, hparts₁, hw₁⟩ := h.perform step
    obtain ⟨w', parts', rest', hsteps, hsize, hparts, hw'⟩ := ih hw₁
    refine ⟨w', parts', rest', ?_, hsize.trans hsize₁, ?_, hw'⟩
    · rw [WriteStep.performAll]
      simp only [hstep, hsteps, List.map_cons]
    · rw [hparts, hparts₁, List.append_assoc _ [step]]
      rfl

theorem chunked_new (chunkSize : Nat) (heedsAbort : Bool) :
    (ChunkWriter.new chunkSize (.new none heedsAbort)).Chunked [] [] :=
  ⟨⟨rfl, fun _ h => (List.not_mem_nil h).elim, rfl, rfl, rfl⟩, rfl,
    WriteStep.waits_nil (leastChunk_pos _)⟩

/-- **Chunks.**  A receiver that stays gets a chunk for each part that the steps are cut into, and
    the buffer has what was written after the last cut.  So nothing is lost or sent twice, whatever
    the chunk size; the buffer holds less than a chunk; and an element that breaks off now would
    change nothing. -/
theorem performAll_new (chunkSize : Nat) (heedsAbort : Bool) (steps : List WriteStep) :
    ∃ (w : ChunkWriter) (parts : List (List WriteStep)) (rest : List WriteStep),
      WriteStep.performAll (ChunkWriter.new chunkSize (.new none heedsAbort)) steps
        = (steps.map WriteStep.verdict, w)
      ∧ steps = parts.flatten ++ rest
      ∧ (∀ part ∈ parts, IsChunk (max chunkSize 1) part ∧ texts part ≠ [])
      ∧ Waits (max chunkSize 1) rest
      ∧ w.receiver.chunks = parts.map texts ∧ w.buffer.bytes = texts rest
      ∧ w.receiver.body ++ w.buffer.bytes = texts steps
      ∧ w.flush.2.receiver.body = texts steps
      ∧ w.buffer.size < max chunkSize 1
      ∧ w.chunkCount = w.receiver.chunks.length
      ∧ w.byteCount = w.receiver.chunks.flatten.length
      ∧ ∀ separator output reason, ∃ buffer,
          w.writeElement separator ⟨output, some reason⟩
              = (.error (.unserializable reason), { w with buffer := buffer })
            ∧ buffer.bytes = w.buffer.bytes := by
  obtain ⟨w, parts, rest, hperform, hsize, hparts, h⟩ :=
    (chunked_new chunkSize heedsAbort).performAll steps
  have hleast : w.leastChunk = max chunkSize 1 := congrArg (max · 1) hsize
  have hall : w.receiver.body ++ w.buffer.bytes = texts steps := by
    rw [Receiver.body, h.chunks, ← texts_flatten, h.buffer, ← WriteStep.texts_append, hparts]
    rfl
  refine ⟨w, parts, rest, hperform, hparts.symm, fun part hpart => ?_, hleast ▸ h.waits, h.chunks,
    h.buffer, hall, ?_, ?_, h.chunkCount, ?_, w.writeElement_broken⟩
  · exact hleast ▸ ⟨h.areChunks part hpart, (h.areChunks part hpart).texts_ne_nil w.leastChunk_pos⟩
  · by_cases hnone : w.buffer.bytes = []
    · rw [flush_eq_of_nil hnone, ← hall, hnone, List.append_nil]
    · rw [flush_eq h.stays hnone, ← hall, Receiver.body, Receiver.chunks, List.reverse_cons,
        List.flatten_append, List.flatten_singleton]
      rfl
  · rw [← w.buffer.length_bytes, h.buffer, ← hleast]
    exact h.waits.short
  · rw [h.byteCount, Receiver.body]

end ChunkWriter
end TopicRelay.Endpoint
