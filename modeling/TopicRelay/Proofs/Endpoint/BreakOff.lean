/-
  An answer that broke off is never taken for a whole one.

  writer     what was written is a list of writes, the first of them with the receiver and the others
             in the buffer (`Wrote`); when the receiver is gone, some last writes are lost (`Lost`)
  answer     each element is one write, so whatever the receiver has ends with an element
             (`bodyOf_of_prefix`), and the closing bracket comes with the last write
  reading    which elements are written is known from what is read (`Writes`): it does not depend on
             the size of the chunks, nor on whether the receiver goes away
  decoder    of any part of the text, cut in any way, it gives back the elements that end in it, and
             it still waits (`pushAll_front`)

  The log may be anything that is read through a reader, also one whose reads fail or give other
  messages each time.
-/
import TopicRelay.Proofs.Endpoint.LiveLog
import TopicRelay.Proofs.Endpoint.Reading

namespace TopicRelay.Endpoint

open Json
open Wire (ConsumeRequest ConsumeRequests Decoder TopicMessages answerText)

/-! ## Writes that reach the receiver, and writes that do not -/

namespace ChunkWriter

/-- These writes were made: the first of them are with the receiver, the others in the buffer. -/
def Wrote (w : ChunkWriter) (writes : List Bytes) : Prop :=
  ∃ sent held, writes = sent ++ held ∧ w.receiver.body = sent.flatten ∧ w.buffer.bytes = held.flatten

/-- The receiver has the first of these writes, and will never have the others. -/
def Lost (w : ChunkWriter) (writes : List Bytes) : Prop :=
  ∃ sent held, writes = sent ++ held ∧ held ≠ [] ∧ w.receiver.body = sent.flatten

/-- Writes that would have come later are lost as well. -/
theorem Lost.append {w : ChunkWriter} {writes : List Bytes} (h : w.Lost writes) (more : List Bytes) :
    w.Lost (writes ++ more) := by
  obtain ⟨sent, held, rfl, hne, hbody⟩ := h
  exact ⟨sent, held ++ more, List.append_assoc _ _ _, List.append_ne_nil_of_left_ne_nil hne _, hbody⟩

theorem wrote_new (chunkSize : Nat) (patience : Option Nat) (heedsAbort : Bool) :
    (ChunkWriter.new chunkSize (.new patience heedsAbort)).Wrote [] :=
  ⟨[], [], rfl, rfl, rfl⟩

variable {w : ChunkWriter} {writes : List Bytes}

/-- **Handing over.**  The receiver then has all that was written, or it is gone and lacks some of it. -/
theorem Wrote.flush (h : w.Wrote writes) :
    (∃ w', w.flush = (.ok (), w') ∧ w'.receiver.patience = w.receiver.patience ∧ w'.Wrote writes
        ∧ w'.receiver.body = writes.flatten)
      ∨ ∃ w', w.flush = (.error .closed, w') ∧ w.receiver.patience ≠ none ∧ w'.Lost writes := by
  obtain ⟨sent, held, rfl, hbody, hbuffer⟩ := h
  rw [ChunkWriter.flush]
  split
  · next hsize =>
    -- an empty buffer is not a chunk, and may still stand for some empty writes
    have hnil : held.flatten = [] := by
      rw [← hbuffer]
      exact List.length_eq_zero_iff.mp (by rw [w.buffer.length_bytes, hsize])
    refine Or.inl ⟨w, rfl, rfl, ⟨sent, held, rfl, hbody, hbuffer⟩, ?_⟩
    rw [List.flatten_append, hnil, List.append_nil, hbody]
  · next hsize =>
    split
    · next hgone =>
      refine Or.inr ⟨_, rfl, ?_, sent, held, rfl, ?_, hbody⟩
      · rintro hc
        rw [Receiver.isGone, hc] at hgone
        cases hgone
      · rintro rfl
        exact hsize (by rw [← w.buffer.length_bytes, hbuffer, List.flatten_nil, List.length_nil])
    · have hall : (w.buffer.bytes :: w.receiver.taken).reverse.flatten = (sent ++ held).flatten := by
        rw [List.reverse_cons, List.flatten_append, List.flatten_singleton, List.flatten_append,
          hbuffer]
        exact congrArg (· ++ held.flatten) hbody
      exact Or.inl ⟨_, rfl, rfl, ⟨sent ++ held, [], (List.append_nil _).symm, hall, rfl⟩, hall⟩

/-- **A write.** -/
theorem Wrote.write (h : w.Wrote writes) (bytes : Bytes) :
    (∃ w', w.write bytes = (.ok (), w') ∧ w'.receiver.patience = w.receiver.patience
        ∧ w'.Wrote (writes ++ [bytes]))
      ∨ ∃ w', w.write bytes = (.error .closed, w') ∧ w.receiver.patience ≠ none
          ∧ w'.Lost (writes ++ [bytes]) := by
  have hpush : ({ w with buffer := w.buffer.push bytes } : ChunkWriter).Wrote (writes ++ [bytes]) := by
    obtain ⟨sent, held, rfl, hbody, hbuffer⟩ := h
    refine ⟨sent, held ++ [bytes], List.append_assoc _ _ _, hbody, ?_⟩
    rw [Buffer.bytes_push, hbuffer, List.flatten_append, List.flatten_singleton]
  rw [ChunkWriter.write]
  simp only
  split
  · rcases hpush.flush with ⟨w', hflush, hpatience, hwrote, -⟩ | hgone
    · exact Or.inl ⟨w', hflush, hpatience, hwrote⟩
    · exact Or.inr hgone
  · exact Or.inl ⟨_, rfl, rfl, hpush⟩

end ChunkWriter

namespace Answer

/-! ## The writes of an answer -/

/-- What is written for each element, a comma with all but the first. -/
def pieces : List TopicMessages → List Bytes
  | [] => []
  | e :: es => e.print :: es.map fun e => Ascii.comma :: e.print

/-- The writes of an answer up to and with some elements. -/
def writesOf (es : List TopicMessages) : List Bytes := [Ascii.openBracket] :: pieces es

/-- The bytes of an answer up to and with some elements. -/
def bodyOf (es : List TopicMessages) : Bytes :=
  Ascii.openBracket :: Printer.commaSeparated (es.map TopicMessages.print)

theorem answerText_eq (es : List TopicMessages) : answerText es = bodyOf es ++ [Ascii.closeBracket] := rfl

theorem flatten_writesOf (es : List TopicMessages) : (writesOf es).flatten = bodyOf es := by
  cases es with
  | nil => rfl
  | cons e es =>
    rw [writesOf, pieces, bodyOf, List.map_cons, Printer.commaSeparated_cons, List.flatMap_map]
    rfl

/-- One more element is one more write. -/
theorem writesOf_concat (es : List TopicMessages) (e : TopicMessages) :
    writesOf (es ++ [e])
      = writesOf es ++ [(if es.length = 0 then none else some Ascii.comma).toList ++ e.print] := by
  cases es with
  | nil => rfl
  | cons x es =>
    rw [List.cons_append, writesOf, pieces, List.map_append, writesOf, pieces]
    rfl

theorem take_writesOf (es : List TopicMessages) (n : Nat) :
    (writesOf es).take (n + 1) = writesOf (es.take n) := by
  rw [writesOf, List.take_succ_cons, writesOf]
  congr 1
  cases es with
  | nil => rw [List.take_nil]; exact List.take_nil
  | cons e es =>
    cases n with
    | zero => rfl
    | succ n => rw [pieces, List.take_succ_cons, List.take_succ_cons, pieces, List.map_take]

/-- **Element boundaries.**  The first writes of an answer are nothing at all, or the answer up to and
    with one of its elements. -/
theorem bodyOf_of_prefix {es : List TopicMessages} {sent : List Bytes} (h : sent <+: writesOf es) :
    sent.flatten = [] ∨ ∃ done, done <+: es ∧ sent.flatten = bodyOf done := by
  rw [List.prefix_iff_eq_take] at h
  rw [h]
  cases sent.length with
  | zero => exact Or.inl rfl
  | succ n =>
    refine Or.inr ⟨es.take n, List.take_prefix n es, ?_⟩
    rw [take_writesOf, flatten_writesOf]

/-! ## What broke off -/

/-- A part of the answer to some elements: it lacks at least the closing bracket, and it ends where an
    element does. -/
structure BrokenOff (es : List TopicMessages) (body : Bytes) : Prop where
  isPrefix : body <+: answerText es
  proper : body ≠ answerText es
  unclosed : body <+: bodyOf es
  boundary : body = [] ∨ ∃ done, done <+: es ∧ body = bodyOf done

theorem brokenOff_of_lost {w : ChunkWriter} {es : List TopicMessages}
    (h : w.Lost (writesOf es ++ [[Ascii.closeBracket]])) : BrokenOff es w.receiver.body := by
  obtain ⟨sent, held, hwrites, hne, hbody⟩ := h
  -- something is held back, so the last write is
  have hsent : sent <+: writesOf es := by
    obtain ⟨held, last, rfl⟩ := (List.eq_nil_or_concat held).resolve_left hne
    rw [List.concat_eq_append, ← List.append_assoc] at hwrites
    exact ⟨held, (List.append_inj' hwrites rfl).1.symm⟩
  have hunclosed : sent.flatten <+: bodyOf es := by
    obtain ⟨others, hothers⟩ := hsent
    rw [← flatten_writesOf, ← hothers, List.flatten_append]
    exact List.prefix_append _ _
  rw [hbody]
  refine ⟨hunclosed.trans (List.prefix_append _ _), fun hc => ?_, hunclosed, bodyOf_of_prefix hsent⟩
  have := hunclosed.length_le
  rw [hc, answerText_eq, List.length_append, List.length_singleton] at this
  omega

/-! ## What is written depends on the log alone -/

/-- The elements that an answer holds. -/
structure Held {σ : Type} (a : Answer σ) (es : List TopicMessages) : Prop where
  wrote : a.writer.Wrote (writesOf es)
  counted : a.elements = es.length

/-- With the log as it is, this writes some elements and leaves another log; and if the receiver goes
    away meanwhile, it lacks a last part of them. -/
def Writes {σ ρ : Type} (f : Answer σ → Except ChunkError ρ × Answer σ) (log : σ)
    (new : List TopicMessages) (result : ρ) (log' : σ) : Prop :=
  ∀ a es, a.log = log → Held a es →
    (∃ a', f a = (.ok result, a') ∧ a'.log = log'
        ∧ a'.writer.receiver.patience = a.writer.receiver.patience ∧ Held a' (es ++ new))
      ∨ ∃ error a', f a = (.error error, a') ∧ a.writer.receiver.patience ≠ none
          ∧ a'.writer.Lost (writesOf (es ++ new))

/-- Two parts of an answer, the second of them told what the first gave. -/
def andThen {σ ρ ρ' : Type} (f : Answer σ → Except ChunkError ρ × Answer σ)
    (g : ρ → Answer σ → Except ChunkError ρ' × Answer σ) (a : Answer σ) :
    Except ChunkError ρ' × Answer σ :=
  match f a with
  | (.error e, a) => (.error e, a)
  | (.ok r, a) => g r a

section Parts

variable {σ : Type} {log log' log'' : σ} {new new' : List TopicMessages}

theorem writesOf_append_prefix (es new : List TopicMessages) :
    ∃ more, writesOf (es ++ new) = writesOf es ++ more := by
  refine ⟨(writesOf (es ++ new)).drop (es.length + 1), ?_⟩
  conv => lhs; rw [← List.take_append_drop (es.length + 1) (writesOf (es ++ new))]
  rw [take_writesOf, List.take_left]

theorem Writes.nothing {ρ : Type} (log : σ) (r : ρ) : Writes (fun a => (.ok r, a)) log [] r log :=
  fun a es hlog hheld => Or.inl ⟨a, rfl, hlog, rfl, by rwa [List.append_nil]⟩

/-- **One part after the other.** -/
theorem Writes.andThen {ρ ρ' : Type} {f : Answer σ → Except ChunkError ρ × Answer σ}
    {g : ρ → Answer σ → Except ChunkError ρ' × Answer σ} {r : ρ} {r' : ρ'}
    (hf : Writes f log new r log') (hg : Writes (g r) log' new' r' log'') :
    Writes (Answer.andThen f g) log (new ++ new') r' log'' := by
  rintro a es hlog hheld
  rw [← List.append_assoc, Answer.andThen]
  rcases hf a es hlog hheld with ⟨a₁, hok, hlog₁, hpatience, hheld₁⟩ | ⟨e, a₁, herror, hgone, hlost⟩
  · simp only [hok]
    rw [← hpatience]
    exact hg a₁ (es ++ new) hlog₁ hheld₁
  · obtain ⟨more, hmore⟩ := writesOf_append_prefix (es ++ new) new'
    refine Or.inr ⟨e, a₁, ?_, hgone, ?_⟩
    · simp only [herror]
    · rw [hmore]
      exact hlost.append more

/-- Only what it does with the log at hand counts. -/
theorem Writes.congr {ρ : Type} {f g : Answer σ → Except ChunkError ρ × Answer σ} {r : ρ}
    (hg : Writes g log new r log') (h : ∀ a, a.log = log → f a = g a) : Writes f log new r log' := by
  rintro a es hlog hheld
  rw [h a hlog]
  exact hg a es hlog hheld

/-- A read that leaves another log comes first. -/
theorem Writes.afterRead {ρ : Type} {f : Answer σ → Except ChunkError ρ × Answer σ} {r : ρ}
    (hf : Writes f log' new r log'') :
    Writes (fun a => f { a with log := log' }) log new r log'' :=
  fun _ es _ hheld => hf _ es rfl ⟨hheld.wrote, hheld.counted⟩

/-- Counting writes nothing. -/
theorem Writes.increment {ρ : Type} {f : Answer σ → Except ChunkError ρ × Answer σ} {r : ρ}
    (hf : Writes f log new r log') (counter : String) :
    Writes (fun a => f (a.increment counter)) log new r log' :=
  fun a es hlog hheld => hf (a.increment counter) es hlog ⟨hheld.wrote, hheld.counted⟩

/-! ## Elements -/

theorem writes_element (log : σ) (e : TopicMessages) :
    Writes (fun a => a.element e) log [e] () log := by
  rintro a es hlog hheld
  have hpiece := hheld.wrote.write ((if a.elements = 0 then none else some Ascii.comma).toList ++ e.print)
  rw [hheld.counted, ← writesOf_concat, ← hheld.counted] at hpiece
  simp only [Answer.element, ChunkWriter.writeElement_ok]
  rcases hpiece with ⟨w', hwrite, hpatience, hwrote⟩ | ⟨w', hwrite, hgone, hlost⟩
  · simp only [hwrite]
    refine Or.inl ⟨_, rfl, hlog, hpatience, hwrote, ?_⟩
    rw [List.length_append, List.length_singleton, ← hheld.counted]
  · simp only [hwrite]
    exact Or.inr ⟨.closed, _, rfl, hgone, hlost⟩

/-- An element, and then something else. -/
theorem Writes.afterElement {ρ : Type} {f : Answer σ → Except ChunkError ρ × Answer σ} {r : ρ}
    (hf : Writes f log new r log') (e : TopicMessages) :
    Writes (fun a => match a.element e with
      | (.error error, a) => (.error error, a)
      | (.ok (), a) => f a) log (e :: new) r log' := by
  refine ((writes_element log e).andThen (g := fun _ => f) hf).congr fun a _ => ?_
  rw [Answer.andThen]
  rcases a.element e with ⟨_ | _, _⟩ <;> rfl

theorem writes_lastElement (log : σ) (written : Nat) (e : TopicMessages) :
    Writes (fun a => a.lastElement written e) log [e] written log :=
  (Writes.nothing log written).afterElement e

theorem writes_failTopic (log : σ) (key : TopicKey) (written : Nat) (error : LogError) :
    Writes (fun a => a.failTopic key written error) log [Reading.failureElement key error] written
      log := by
  cases error with
  | topicNotFound name => exact (writes_lastElement log written _).increment _
  | _ => exact (writes_lastElement log written _).increment _

theorem writes_endTopic (log : σ) (key : TopicKey) (written : Nat) (asked : List LogQuery) :
    Writes (fun a => a.endTopic key written) log
      ((⟨asked, [], none⟩ : Reading).elements key written) written log := by
  rw [Reading.elements_of_empty]
  split
  · next hzero =>
    subst hzero
    exact writes_lastElement log 0 (.empty key)
  · next hne =>
    refine (Writes.nothing log written).congr fun a _ => ?_
    rw [Answer.endTopic, if_neg hne]

/-! ## Topics -/

/-- A topic, batch by batch. -/
theorem writes_batches (read : LogReader σ) (batchLimit : Nat) (key : TopicKey) (topic : TopicName)
    (after : Option MessageId) (remaining written : Nat) (log : σ) :
    Writes (batches read batchLimit key topic after remaining written) log
      ((readBatches read batchLimit topic after remaining log).1.elements key written)
      (written + (readBatches read batchLimit topic after remaining log).1.count)
      (readBatches read batchLimit topic after remaining log).2 := by
  fun_induction readBatches read batchLimit topic after remaining log generalizing written with
  | case1 after log =>
    refine (writes_endTopic log key written []).congr fun a _ => ?_
    rw [batches, if_pos rfl]
  | case2 after remaining log hne q e log' hread =>
    refine (writes_failTopic log' key written e).afterRead.congr fun a hlog => ?_
    rw [batches, if_neg hne, hlog]
    simp only [hread, q]
  | case3 after remaining log hne q messages log' hread hempty =>
    refine (writes_endTopic log' key written [q]).afterRead.congr fun a hlog => ?_
    rw [batches, if_neg hne, hlog]
    simp only [hread, q, if_pos hempty]
  | case4 after remaining log hne q messages log' hread hsome hshort =>
    rw [Reading.elements_andThen key written q hsome, Reading.count_andThen, Reading.nothing,
      Reading.elements_of_empty, if_neg (by omega)]
    have hlast := (Writes.nothing log' (written + messages.length)).afterElement
      (.ofMessages key messages)
    refine hlast.afterRead.congr fun a hlog => ?_
    rw [batches, if_neg hne, hlog]
    simp only [hread, q, if_neg hsome]
    rcases Answer.element { a with log := log' } (.ofMessages key messages) with ⟨e | _, a'⟩
    · rfl
    · exact if_pos hshort
  | case5 after remaining log hne q messages log' hread hsome hfull rest log'' hrest ih =>
    have hmore := ih (written + messages.length)
    rw [hrest] at hmore
    rw [Reading.elements_andThen key written q hsome, Reading.count_andThen, ← Nat.add_assoc]
    refine (hmore.afterElement (.ofMessages key messages)).afterRead.congr fun a hlog => ?_
    rw [batches, if_neg hne, hlog]
    simp only [hread, q, if_neg hsome]
    rcases Answer.element { a with log := log' } (.ofMessages key messages) with ⟨e | _, a'⟩
    · rfl
    · exact if_neg hfull

/-- The elements of a key. -/
theorem writes_topic (read : LogReader σ) (resolver : Resolver) (maxPerRead : Nat) (key : TopicKey)
    (r : ConsumeRequest) (log : σ) :
    Writes (topic read resolver maxPerRead key r) log
      ((readTopic read resolver maxPerRead key r log).1.elements key 0)
      (readTopic read resolver maxPerRead key r log).1.count
      (readTopic read resolver maxPerRead key r log).2 := by
  rw [readTopic]
  cases hname : resolver.resolve? key with
  | none =>
    refine (writes_failTopic log key 0 (.topicNotFound key)).congr fun a _ => ?_
    rw [topic, hname]
  | some name =>
    have hbatches := writes_batches read (max maxPerRead 1) key name r.lastMessageId r.limit.toNat 0 log
    rw [Nat.zero_add] at hbatches
    refine hbatches.congr fun a _ => ?_
    rw [topic, hname]

/-- The elements of several keys. -/
theorem writes_topics (read : LogReader σ) (resolver : Resolver) (maxPerRead written : Nat)
    (l : List (TopicKey × ConsumeRequest)) (log : σ) :
    Writes (topics read resolver maxPerRead written l) log
      (elementsOfAll (readTopics read resolver maxPerRead l log).1)
      (written + countOfAll (readTopics read resolver maxPerRead l log).1)
      (readTopics read resolver maxPerRead l log).2 := by
  induction l generalizing log written with
  | nil => exact Writes.nothing log written
  | cons e l ih =>
    obtain ⟨key, r⟩ := e
    rw [readTopics]
    simp only
    rw [elementsOfAll_cons, countOfAll_cons, ← Nat.add_assoc]
    have hboth := (writes_topic read resolver maxPerRead key r log).andThen
      (g := fun n => topics read resolver maxPerRead (written + n) l)
      (ih (written + (readTopic read resolver maxPerRead key r log).1.count)
        (readTopic read resolver maxPerRead key r log).2)
    refine hboth.congr fun a _ => ?_
    rw [topics, Answer.andThen]
    rcases topic read resolver maxPerRead key r a with ⟨_ | _, _⟩ <;> rfl

end Parts

/-! ## The whole answer -/

variable {σ : Type}

/-- An answer to a receiver that takes as many chunks as it has patience for. -/
def unwritten (chunkSize : Nat) (patience : Option Nat) (heedsAbort : Bool) (log : σ)
    (metrics : Metrics) : Answer σ :=
  ⟨.new chunkSize (.new patience heedsAbort), 0, log, metrics⟩

/-- The opening bracket. -/
theorem open_unwritten (chunkSize : Nat) (patience : Option Nat) (heedsAbort : Bool) (log : σ)
    (metrics : Metrics) :
    (∃ a, (unwritten chunkSize patience heedsAbort log metrics).frame [Ascii.openBracket] = (.ok (), a)
        ∧ a.log = log ∧ a.writer.receiver.patience = patience ∧ Held a [])
      ∨ ∃ error a, (unwritten chunkSize patience heedsAbort log metrics).frame [Ascii.openBracket]
            = (.error error, a)
          ∧ patience ≠ none ∧ a.writer.Lost (writesOf []) := by
  simp only [frame, unwritten]
  rcases (ChunkWriter.wrote_new chunkSize patience heedsAbort).write [Ascii.openBracket] with
    ⟨w, hopen, hpatience, hwrote⟩ | ⟨w, hopen, hgone, hlost⟩
  · simp only [hopen]
    exact Or.inl ⟨_, rfl, rfl, hpatience, hwrote, rfl⟩
  · simp only [hopen]
    exact Or.inr ⟨.closed, _, rfl, hgone, hlost⟩

/-- The closing bracket, and what the buffer still holds. -/
theorem Held.close {a : Answer σ} {es : List TopicMessages} (h : Held a es) :
    (∃ a', a.close = (.ok (), a') ∧ a'.log = a.log ∧ a'.writer.receiver.body = answerText es)
      ∨ ∃ error a', a.close = (.error error, a') ∧ a.writer.receiver.patience ≠ none
          ∧ a'.writer.Lost (writesOf es ++ [[Ascii.closeBracket]]) := by
  simp only [Answer.close, frame]
  rcases h.wrote.write [Ascii.closeBracket] with
    ⟨w, hclose, hpatience, hwrote⟩ | ⟨w, hclose, hgone, hlost⟩
  · simp only [hclose]
    rcases hwrote.flush with ⟨w', hflush, -, -, hbody⟩ | ⟨w', hflush, hgone, hlost⟩
    · simp only [hflush]
      refine Or.inl ⟨_, rfl, rfl, ?_⟩
      rw [answerText_eq, ← flatten_writesOf, ← List.flatten_concat]
      exact hbody
    · simp only [hflush]
      exact Or.inr ⟨.closed, _, rfl, hpatience ▸ hgone, hlost⟩
  · simp only [hclose]
    exact Or.inr ⟨.closed, _, rfl, hgone, hlost⟩

/-- A receiver gets the text of what is read, or it goes away. -/
theorem stream_reads (read : LogReader σ) (resolver : Resolver) (maxPerRead : Nat)
    (requests : ConsumeRequests) (log : σ) {readings : List (TopicKey × Reading)} {log' : σ}
    (hread : readTopics read resolver maxPerRead requests.entries log = (readings, log'))
    (chunkSize : Nat) (patience : Option Nat) (heedsAbort : Bool) (metrics : Metrics) :
    (∃ a, stream read resolver maxPerRead requests
          (unwritten chunkSize patience heedsAbort log metrics) = (.ok (countOfAll readings), a)
        ∧ a.log = log' ∧ a.writer.receiver.body = answerText (elementsOfAll readings))
      ∨ ∃ error a, stream read resolver maxPerRead requests
            (unwritten chunkSize patience heedsAbort log metrics) = (.error error, a)
          ∧ patience ≠ none
          ∧ a.writer.Lost (writesOf (elementsOfAll readings) ++ [[Ascii.closeBracket]]) := by
  have htopics := writes_topics read resolver maxPerRead 0 requests.entries log
  rw [hread, Nat.zero_add] at htopics
  rw [stream]
  rcases open_unwritten chunkSize patience heedsAbort log metrics with
    ⟨a, hopen, hlog, hpatience, hheld⟩ | ⟨error, a, hopen, hgone, hlost⟩
  · simp only [hopen]
    rcases htopics a [] hlog hheld with
      ⟨a₁, hok, hlog₁, hpatience₁, hheld₁⟩ | ⟨error, a₁, herror, hgone, hlost⟩
    · simp only [hok]
      rcases hheld₁.close with ⟨a₂, hclose, hlog₂, hbody⟩ | ⟨error, a₂, hclose, hgone, hlost⟩
      · simp only [hclose]
        exact Or.inl ⟨_, rfl, hlog₂.trans hlog₁, hbody⟩
      · simp only [hclose]
        exact Or.inr ⟨error, a₂, rfl, hpatience ▸ hpatience₁ ▸ hgone, hlost⟩
    · simp only [herror]
      exact Or.inr ⟨error, a₁, rfl, hpatience ▸ hgone, hlost.append _⟩
  · simp only [hopen]
    obtain ⟨more, hmore⟩ := writesOf_append_prefix [] (elementsOfAll readings)
    refine Or.inr ⟨error, a, rfl, hgone, ?_⟩
    rw [List.nil_append] at hmore
    rw [hmore]
    exact (hlost.append more).append _

/-- A receiver gets the text of some elements that the log alone decides about, or it goes away. -/
theorem stream_wrote (read : LogReader σ) (resolver : Resolver) (maxPerRead : Nat)
    (requests : ConsumeRequests) (log : σ) :
    ∃ es n, ∀ chunkSize patience heedsAbort metrics,
      (∃ a, stream read resolver maxPerRead requests
            (unwritten chunkSize patience heedsAbort log metrics) = (.ok n, a)
          ∧ a.writer.receiver.body = answerText es)
        ∨ ∃ error a, stream read resolver maxPerRead requests
              (unwritten chunkSize patience heedsAbort log metrics) = (.error error, a)
            ∧ patience ≠ none ∧ a.writer.Lost (writesOf es ++ [[Ascii.closeBracket]]) := by
  rcases hread : readTopics read resolver maxPerRead requests.entries log with ⟨readings, log'⟩
  refine ⟨elementsOfAll readings, countOfAll readings,
    fun chunkSize patience heedsAbort metrics => ?_⟩
  rcases stream_reads read resolver maxPerRead requests log hread chunkSize patience heedsAbort metrics
    with ⟨a, hok, -, hbody⟩ | hgone
  · exact Or.inl ⟨a, hok, hbody⟩
  · exact Or.inr hgone

/-- **A part is never taken for the whole.**  To one log, all receivers that stay get the same text.
    One that goes away gets a part of that text which ends with an element and lacks the closing
    bracket.  And of any part of the text, wherever it was cut off and however it is cut into pieces,
    a decoder that has room for the elements gives back those that are whole, without a failure, and
    says that the answer is incomplete. -/
theorem stream_broken_off (read : LogReader σ) (resolver : Resolver) (maxPerRead : Nat)
    (requests : ConsumeRequests) (log : σ) :
    ∃ es n,
      (∀ chunkSize heedsAbort metrics, ∃ a, stream read resolver maxPerRead requests
            (unwritten chunkSize none heedsAbort log metrics) = (.ok n, a)
          ∧ a.writer.receiver.body = answerText es)
      ∧ (∀ chunkSize patience heedsAbort metrics error a, stream read resolver maxPerRead requests
            (unwritten chunkSize patience heedsAbort log metrics) = (.error error, a)
          → BrokenOff es a.writer.receiver.body)
      ∧ ∀ limit, (∀ e ∈ es, e.print.length ≤ limit) →
          ∀ front rest, answerText es = front ++ rest → rest ≠ [] →
            ∀ pieces : List Bytes, pieces.flatten = front →
              ∃ d, (Decoder.new limit).pushAll pieces
                  = (Decoder.endingBetween es 0 front.length, .ok d)
                ∧ d.finish = .error .incomplete := by
  obtain ⟨es, n, hwrote⟩ := stream_wrote read resolver maxPerRead requests log
  refine ⟨es, n, fun chunkSize heedsAbort metrics => ?_,
    fun chunkSize patience heedsAbort metrics error a herror => ?_,
    fun limit hsize front rest htext hne pieces hcut => Decoder.pushAll_front hsize htext hne hcut⟩
  · rcases hwrote chunkSize none heedsAbort metrics with hok | ⟨_, _, _, hgone, _⟩
    · exact hok
    · exact absurd rfl hgone
  · rcases hwrote chunkSize patience heedsAbort metrics with ⟨a', hok, -⟩ | ⟨error', a', hlost', -, hlost⟩
    · rw [herror] at hok
      cases (Prod.mk.inj hok).1
    · rw [herror] at hlost'
      obtain rfl := (Prod.mk.inj hlost').2
      exact brokenOff_of_lost hlost

end Answer

namespace Planned

open Answer

/-- Two messages at a time, at most four, of a topic, and before that of one that is not there. -/
def requests : ConsumeRequests :=
  (SortedMap.empty.insert "k" ⟨none, 4⟩).insert "j" ⟨none, 4⟩

/-- The answer to these, in chunks of at least 64 bytes, and to a receiver with patience. -/
def written (patience : Option Nat) : Except ChunkError Nat × Answer Planned :=
  stream read ⟨(SortedMap.empty.insert "k" "t").insert "j" "u"⟩ 2 requests
    (unwritten 64 patience true begin .empty)

/-- What a receiver that stays is given. -/
def whole : List TopicMessages :=
  [.notFound "j", .ofMessages "k" [⟨MemoryLog.formatId 1, [1]⟩, ⟨MemoryLog.formatId 2, [2]⟩],
    .ofMessages "k" [⟨MemoryLog.formatId 3, [3]⟩, ⟨MemoryLog.formatId 4, [4]⟩]]

/-- Three chunks are taken and the last one, with nothing but the bracket, is not; or two are, and the
    second of them is cut off within a string. -/
theorem written_broken_off :
    (∃ error a, written (some 3) = (.error error, a) ∧ BrokenOff whole a.writer.receiver.body)
    ∧ (∀ e ∈ whole, e.print.length ≤ 150)
    ∧ ∃ rest, rest ≠ [] ∧ answerText whole
        = (written (some 2)).2.writer.receiver.body.take 100 ++ rest
    ∧ ∃ d, (Decoder.new 150).pushAll
          (((written (some 2)).2.writer.receiver.body.take 100).map ([·])) = (whole.take 1, .ok d)
        ∧ d.finish = .error .incomplete := by
  obtain ⟨es, n, hstays, hgone, hparts⟩ :=
    stream_broken_off read ⟨(SortedMap.empty.insert "k" "t").insert "j" "u"⟩ 2 requests begin
  obtain ⟨a, hall, hbody⟩ := hstays 64 true .empty
  have ha : (written none).2 = a := congrArg Prod.snd hall
  have htext : (written none).2.writer.receiver.body = answerText whole := by decide +kernel
  obtain rfl : es = whole := Decoder.answerText_injective (by rw [← hbody, ← ha, htext])
  have hfails : (written (some 3)).1.toOption = none := by decide +kernel
  have hsize : ∀ e ∈ whole, e.print.length ≤ 150 := by decide +kernel
  have hpart : (answerText whole).take 100 = (written (some 2)).2.writer.receiver.body.take 100 := by
    decide +kernel
  have hsplit := (List.take_append_drop 100 (answerText whole)).symm
  have hne : (answerText whole).drop 100 ≠ [] := by decide +kernel
  rw [hpart] at hsplit
  have hlength : ((written (some 2)).2.writer.receiver.body.take 100).length = 100 := by decide +kernel
  have hfirst : Decoder.endingBetween whole 0 100 = whole.take 1 := by decide +kernel
  obtain ⟨d, hpush, hfinish⟩ := hparts 150 hsize _ _ hsplit hne
    (((written (some 2)).2.writer.receiver.body.take 100).map ([·])) (List.flatMap_singleton' _)
  rw [hlength, hfirst] at hpush
  refine ⟨?_, hsize, _, hne, hsplit, d, hpush, hfinish⟩
  rcases hwritten : written (some 3) with ⟨error | n, a⟩
  · exact ⟨error, a, rfl, hgone 64 (some 3) true .empty error a hwritten⟩
  · rw [hwritten] at hfails
    cases hfails

end Planned
end TopicRelay.Endpoint
