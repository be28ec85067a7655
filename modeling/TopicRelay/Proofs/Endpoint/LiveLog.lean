/-
  A topic that is streamed while messages arrive.

  An endpoint reads a topic batch by batch, and between two reads others may publish.  `Live` is a log
  in memory under such readers: each question is answered from the log as it is, and afterwards the
  log may have grown.

      log at the first read   .. seen ..|.. due ..|
      log at the end          .. seen ..|.. due ..|.. came late ..|
      what is streamed                  |---- all due, perhaps some more, never above the limit

  So nothing is left out, given twice or out of order, and what came late is given up to some point or
  not at all (`topic_of_live`).  The crux is that the last id of a batch divides every later log at the
  same place (`Log.following_last`): new messages only ever come behind it.
-/
import TopicRelay.Proofs.Endpoint.Stream
import TopicRelay.Proofs.Log.Memory

namespace TopicRelay.Endpoint

open Wire (ConsumeRequest TopicMessages)

/-- A reader of a log in memory to which others publish between one read and the next. -/
structure Live {σ : Type} (read : LogReader σ) (logOf : σ → MemoryLog) : Prop where
  answer : ∀ q s, (read q s).1 = (logOf s).fetch q
  grows : ∀ q s, (logOf s).Grows (logOf (read q s).2)

/-- What a read gives is in front of what is due in every later log, and behind it is what follows its
    last id. -/
theorem Live.read_of_contains {σ : Type} {read : LogReader σ} {logOf : σ → MemoryLog}
    (h : Live read logOf) {s : σ} {topic : TopicName} (hfilled : (logOf s).Filled)
    (hexists : (logOf s).topics.contains topic = true) (after : Option MessageId) (batch : Nat) :
    ∃ first s', read ⟨topic, after, batch⟩ s = (.ok first, s') ∧ (logOf s).Grows (logOf s')
      ∧ first.length = min batch (MemoryLog.following after ((logOf s).messages topic)).length
      ∧ ∀ {front m log}, first = front ++ [m] → (logOf s').Grows log →
        MemoryLog.following after (log.messages topic)
          = first ++ MemoryLog.following (some m.id) (log.messages topic) := by
  obtain ⟨all, hall⟩ := SortedMap.contains_iff.mp hexists
  have hmessages : (logOf s).messages topic = all := by
    rw [MemoryLog.messages, hall]
    rfl
  rw [hmessages]
  have hgrows := h.grows ⟨topic, after, batch⟩ s
  refine ⟨(MemoryLog.following after all).take batch, _, Prod.ext ?_ rfl, hgrows, List.length_take, ?_⟩
  · rw [h.answer, MemoryLog.fetch, hall]
  · intro front m log hfirst hlog
    have hgrown := hgrows.trans hlog
    obtain ⟨late, hlate⟩ := Log.following_grows (hgrown.messages topic) after
    rw [hmessages] at hlate
    have hsplit : MemoryLog.following after (log.messages topic)
        = (front ++ [m]) ++ ((MemoryLog.following after all).drop batch ++ late) := by
      rw [← hlate, ← hfirst, ← List.append_assoc, List.take_append_drop]
    rw [Log.following_last ((hgrown.filled hfilled).ordered.ascending topic) hsplit, hsplit, hfirst]

/-- Elements of a key, none with an error, that hold the first `n` of some messages. -/
structure Gives (key : TopicKey) (ms : List Message) (n : Nat) (es : List TopicMessages) : Prop where
  own : ∀ e ∈ es, e.topic = key ∧ e.error = none
  messages : es.flatMap (·.messages) = ms.take n
  enough : n ≤ ms.length

namespace Gives

variable {key : TopicKey}

theorem nothing {ms : List Message} : Gives key ms 0 [] := by
  refine ⟨?_, rfl, Nat.zero_le _⟩
  intro e he
  cases he

/-- A first batch, and then what others give of the messages behind it. -/
theorem cons {first rest : List Message} {n : Nat} {es : List TopicMessages}
    (h : Gives key rest n es) :
    Gives key (first ++ rest) (first.length + n) (.ofMessages key first :: es) := by
  refine ⟨?_, ?_, ?_⟩
  · intro e he
    rcases List.mem_cons.mp he with rfl | he
    · exact ⟨rfl, rfl⟩
    · exact h.own e he
  · have hfirst : first.length ≤ first.length + n := Nat.le_add_right _ _
    rw [List.flatMap_cons, h.messages, List.take_append, List.take_of_length_le hfirst,
      Nat.add_sub_cancel_left]
    rfl
  · have henough := h.enough
    rw [List.length_append]
    omega

end Gives

namespace Answer

variable {σ : Type} {read : LogReader σ} {logOf : σ → MemoryLog} {key : TopicKey} {topic : TopicName}
  {a : Answer σ} {before : List TopicMessages}

/-- A topic that has no more to give ends with an element without messages, or with none. -/
theorem Holds.ends (h : Holds a a.log before) (key : TopicKey) (written : Nat) (ms : List Message) :
    ∃ es a', a.endTopic key written = (.ok written, a') ∧ Holds a' a.log (before ++ es)
      ∧ Gives key ms 0 es := by
  rw [Answer.endTopic]
  split
  · next hzero =>
    obtain ⟨a', hlast, hholds⟩ := h.lastElement 0 (.empty key)
    refine ⟨[.empty key], a', ?_, hholds, ?_, rfl, Nat.zero_le _⟩
    · rw [hlast, hzero]
    · intro e he
      rw [List.mem_singleton.mp he]
      exact ⟨rfl, rfl⟩
  · refine ⟨[], a, rfl, ?_, .nothing⟩
    rw [List.append_nil]
    exact h

/-- **A topic, batch by batch, while it grows.** -/
theorem batches_of_live (hlive : Live read logOf) {batchLimit : Nat} (hbatch : 0 < batchLimit)
    (key : TopicKey) (after : Option MessageId) (remaining written : Nat) {a : Answer σ} {before : List TopicMessages}
    (h : Holds a a.log before) (hfilled : (logOf a.log).Filled)
    (hexists : (logOf a.log).topics.contains topic = true) :
    ∃ es n a', batches read batchLimit key topic after remaining written a = (.ok (written + n), a')
      ∧ Holds a' a'.log (before ++ es) ∧ (logOf a.log).Grows (logOf a'.log)
      ∧ Gives key (MemoryLog.following after ((logOf a'.log).messages topic)) n es
      ∧ min remaining (MemoryLog.following after ((logOf a.log).messages topic)).length ≤ n
      ∧ n ≤ remaining := by
  rw [batches]
  split
  · next hzero =>
    obtain ⟨es, a', hend, hholds, hgives⟩ := h.ends key written
      (MemoryLog.following after ((logOf a.log).messages topic))
    have hsame : a'.log = a.log := hholds.log
    rw [← hsame] at hholds hgives
    exact ⟨es, 0, a', hend, hholds, hsame ▸ .refl, hgives, by omega, Nat.zero_le _⟩
  · next hpositive =>
    obtain ⟨first, s, hread, hgrows, hlength, hlater⟩ :=
      hlive.read_of_contains hfilled hexists after (min remaining batchLimit)
    have hnow : Holds { a with log := s } s before := ⟨h.stays, h.written, h.counted, rfl⟩
    simp only [hread]
    split
    · next hnone =>
      obtain ⟨es, a', hend, hholds, hgives⟩ := hnow.ends key written
        (MemoryLog.following after ((logOf s).messages topic))
      have hsame : a'.log = s := hholds.log
      rw [← hsame] at hholds hgives hgrows
      exact ⟨es, 0, a', hend, hholds, hgrows, hgives, by omega, Nat.zero_le _⟩
    · next hsome =>
      have hne : first ≠ [] := fun hc => hsome (by rw [hc]; rfl)
      obtain ⟨a₁, helement, hholds⟩ := hnow.element (.ofMessages key first)
      obtain rfl : a₁.log = s := hholds.log
      obtain ⟨front, m, hfront, hnext⟩ := exists_last hne after
      simp only [helement]
      split
      -- a batch that is not full holds all that was due
      · next hshort =>
        refine ⟨[.ofMessages key first], first.length, a₁, rfl, hholds, hgrows, ?_, by omega, by omega⟩
        rw [hlater hfront .refl]
        exact Gives.cons .nothing
      · next hfull =>
        rw [hnext]
        obtain ⟨es, n, a₂, hrest, hholds₂, hgrows₂, hgives, hleast, hmost⟩ :=
          batches_of_live hlive hbatch key (some m.id) (remaining - first.length)
            (written + first.length) hholds (hgrows.filled hfilled) (hgrows.contains hexists)
        have hdue := (Log.following_grows (hgrows.messages topic) after).length_le
        rw [hlater hfront .refl, List.length_append] at hdue
        refine ⟨.ofMessages key first :: es, first.length + n, a₂, ?_, ?_, hgrows.trans hgrows₂, ?_,
          by omega, by omega⟩
        · rw [hrest, Nat.add_assoc]
        · rw [List.append_cons]
          exact hholds₂
        · rw [hlater hfront hgrows₂]
          exact hgives.cons
termination_by remaining

/-- **No gap, no duplicate and no change of order while messages arrive.**  For a key whose topic exists,
    what is streamed is the first `n` of the messages that the topic in the end has after the requested
    id, where `n` is at most the limit and at least what was due at the first read or the limit.  If
    nothing was published to the topic meanwhile, it is what one fetch gives. -/
theorem topic_of_live (hlive : Live read logOf) {resolver : Resolver}
    (hkey : resolver.resolve? key = some topic) (maxPerRead : Nat) {r : ConsumeRequest}
    (h : Holds a a.log before) (hfilled : (logOf a.log).Filled)
    (hexists : (logOf a.log).topics.contains topic = true) :
    ∃ es n a', Answer.topic read resolver maxPerRead key r a = (.ok n, a')
      ∧ Holds a' a'.log (before ++ es) ∧ (logOf a.log).Grows (logOf a'.log)
      ∧ Gives key (((logOf a'.log).messages topic).filter (Log.isAfter r.lastMessageId)) n es
      ∧ min r.limit.toNat
          (((logOf a.log).messages topic).filter (Log.isAfter r.lastMessageId)).length ≤ n
      ∧ n ≤ r.limit.toNat
      ∧ ((logOf a'.log).messages topic = (logOf a.log).messages topic →
        (logOf a.log).fetch ⟨topic, r.lastMessageId, r.limit.toNat⟩
          = .ok (es.flatMap (·.messages))) := by
  have hbatch : 0 < max maxPerRead 1 := Nat.lt_of_lt_of_le Nat.one_pos (Nat.le_max_right _ _)
  obtain ⟨es, n, a', hbatches, hholds, hgrows, hgives, hleast, hmost⟩ :=
    batches_of_live hlive hbatch key r.lastMessageId r.limit.toNat 0 h hfilled hexists
  have hbegin := hfilled.ordered.ascending topic
  have hend := (hgrows.filled hfilled).ordered.ascending topic
  rw [Log.following_eq_filter hbegin] at hleast
  refine ⟨es, n, a', ?_, hholds, hgrows, ?_, hleast, hmost, ?_⟩
  · rw [Answer.topic, hkey]
    simp only [hbatches, Nat.zero_add]
  · rw [← Log.following_eq_filter hend]
    exact hgives
  · intro hquiet
    obtain ⟨all, hall⟩ := SortedMap.contains_iff.mp hexists
    have hmessages : (logOf a.log).messages topic = all := by
      rw [MemoryLog.messages, hall]
      rfl
    have henough := hgives.enough
    rw [hquiet, hmessages] at henough
    rw [← Log.following_eq_filter hbegin, hmessages] at hleast
    -- both take all that is due, or up to the limit
    have hcount : min r.limit.toNat (MemoryLog.following r.lastMessageId all).length
        = min n (MemoryLog.following r.lastMessageId all).length := by omega
    rw [MemoryLog.fetch, hall, hgives.messages, hquiet, hmessages]
    exact congrArg Except.ok (List.take_eq_take_iff.mpr hcount)

end Answer

/-! ### A log to which others publish by a plan -/

/-- A log in memory, and what others publish to it after each read. -/
structure Planned where
  log : MemoryLog
  plan : List (List (TopicName × Bytes))

namespace Planned

/-- Publishes a payload, if that can be done and a number is left for it. -/
def arrive (log : MemoryLog) (m : TopicName × Bytes) : MemoryLog :=
  if log.next.toNat + 1 < UInt64.size then
    match log.publish m.1 m.2 with
    | .error _ => log
    | .ok (_, log) => log
  else log

/-- Answers a question; then others publish what is planned. -/
def read : LogReader Planned := fun q s =>
  (s.log.fetch q, ⟨(s.plan.headD []).foldl arrive s.log, s.plan.tail⟩)

theorem grows_arrive (log : MemoryLog) (m : TopicName × Bytes) : log.Grows (arrive log m) := by
  rw [arrive]
  split
  · next hroom =>
    split
    · exact .refl
    · next hpublish => exact .publish .refl hroom hpublish
  · exact .refl

theorem grows_foldl_arrive (log : MemoryLog) (ms : List (TopicName × Bytes)) :
    log.Grows (ms.foldl arrive log) := by
  induction ms generalizing log with
  | nil => exact .refl
  | cons m ms ih => exact (grows_arrive log m).trans (ih (arrive log m))

/-- **Whatever is planned, the log is live.** -/
theorem live : Live read Planned.log where
  answer _ _ := rfl
  grows _ s := grows_foldl_arrive s.log _

/-- Two messages arrive after the first read, one after the second. -/
def begin : Planned := ⟨MemoryLog.threeMessages "t", [[("t", [4]), ("t", [5])], [("t", [6])]]⟩

/-- An answer of which only the opening bracket is written. -/
def answer : Answer Planned :=
  (Answer.frame ⟨.new 16 (.new none true), 0, begin, .empty⟩ [Ascii.openBracket]).2

/-- Two messages at a time, at most four, after the first one. -/
def streamed : Except ChunkError Nat × Answer Planned :=
  Answer.topic read ⟨SortedMap.empty.insert "k" "t"⟩ 2 "k" ⟨some (MemoryLog.formatId 1), 4⟩ answer

/-- Two messages were due, and two more came in time; the last one came too late. -/
theorem topic_while_planned :
    (begin.log.Filled ∧ begin.log.topics.contains "t" = true)
    ∧ streamed.2.log.log.payloads "t" = [[1], [2], [3], [4], [5], [6]]
    ∧ ∃ es : List TopicMessages, Answer.Holds streamed.2 streamed.2.log es
      ∧ (es.flatMap (·.messages)).map (·.payload) = [[2], [3], [4], [5]] := by
  have hfilled : begin.log.Filled := MemoryLog.filled_threeMessages "t"
  have hexists : begin.log.topics.contains "t" = true := by decide +kernel
  have hopened : Answer.Holds answer answer.log [] := ⟨rfl, by decide +kernel, rfl, rfl⟩
  have hcount : streamed.1.toOption = some 4 := by decide +kernel
  obtain ⟨es, n, a', htopic, hholds, -, hgives, -⟩ := Answer.topic_of_live live
    (show Resolver.resolve? ⟨SortedMap.empty.insert "k" "t"⟩ "k" = some "t" by decide +kernel) 2
    (r := ⟨some (MemoryLog.formatId 1), 4⟩) hopened hfilled hexists
  have hstreamed : streamed = (.ok n, a') := htopic
  rw [hstreamed] at hcount
  obtain rfl : n = 4 := Option.some.inj hcount
  obtain rfl : streamed.2 = a' := congrArg Prod.snd hstreamed
  refine ⟨⟨hfilled, hexists⟩, by decide +kernel, es, hholds, ?_⟩
  rw [hgives.messages]
  decide +kernel

end Planned
end TopicRelay.Endpoint
