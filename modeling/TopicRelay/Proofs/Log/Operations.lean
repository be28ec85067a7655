/-
  A log in memory, one operation after the other.

      create     a topic, unless it is there
      publish    a message at the end of a topic
      fetch      the first messages after an id

  specification   whatever was done to a new log, each topic has its messages in the order of their
                  publication with ids that ascend as bytes, no id was given to two messages, and each
                  operation did just what it is for (`IsOrderedLog`)
  the crux        a log and the record of its publications are kept side by side (`Recorded`): the topics
                  are the parts of the record, the ids of the record ascend over all topics, and the
                  next id is above them.  A step either adds one message to both or changes neither
  the numbers     fewer than 2⁶⁴ - 1 operations use up fewer numbers than there are, so the number behind
                  the last one is still one of 64 bits, and larger
-/
import Mathlib.Algebra.Group.Nat.Defs
import Mathlib.Control.Monad.Basic
import Mathlib.Data.List.Basic
import Mathlib.Data.List.Induction
import TopicRelay.Proofs.Log.Memory
import TopicRelay.Proofs.Log.Search

namespace TopicRelay.MemoryLog

open Log (isBehind cutOut?)
open Text (Utf8.encode)

/-! ## Operations -/

/-- What can be done to a log. -/
inductive Operation where
  | create (topic : TopicName)
  | publish (topic : TopicName) (payload : Bytes)
  | fetch (q : LogQuery)
deriving DecidableEq, Repr

/-- What an operation says. -/
inductive Answer where
  | created
  | published (id : MessageId)
  | messages (ms : List Message)
  | refused (e : LogError)
deriving DecidableEq, Repr

/-- Does something to a log: the answer, and the log after it. -/
def perform (log : MemoryLog) : Operation → Answer × MemoryLog
  | .create topic => (.created, log.create topic)
  | .publish topic payload => match log.publish topic payload with
    | .ok (id, log') => (.published id, log')
    | .error e => (.refused e, log)
  | .fetch q => match log.fetch q with
    | .ok ms => (.messages ms, log)
    | .error e => (.refused e, log)

/-- The log after several operations. -/
def performAll (log : MemoryLog) (ops : List Operation) : MemoryLog :=
  ops.foldl (fun log op => (log.perform op).2) log

/-- What several operations make of a new log. -/
def reached (autoCreate : Bool) (ops : List Operation) : MemoryLog := (new autoCreate).performAll ops

/-- What an operation published, with its topic. -/
def Operation.published : Operation → Answer → List (TopicName × Message)
  | .publish topic payload, .published id => [(topic, ⟨id, payload⟩)]
  | _, _ => []

/-- What some operations published, in their order. -/
def publications (log : MemoryLog) : List Operation → List (TopicName × Message)
  | [] => []
  | op :: ops => op.published (log.perform op).1 ++ publications (log.perform op).2 ops

theorem reached_concat (autoCreate : Bool) (ops : List Operation) (op : Operation) :
    reached autoCreate (ops ++ [op]) = ((reached autoCreate ops).perform op).2 := by
  rw [reached, performAll, List.foldl_append]
  rfl

theorem publications_concat (log : MemoryLog) (ops : List Operation) (op : Operation) :
    publications log (ops ++ [op])
      = publications log ops ++ op.published ((log.performAll ops).perform op).1 := by
  induction ops generalizing log with
  | nil => exact List.append_nil _
  | cons first ops ih =>
    rw [List.cons_append, publications, publications, ih, List.append_assoc]
    rfl

/-- An operation publishes one message at most. -/
theorem length_publications_le (log : MemoryLog) (ops : List Operation) :
    (publications log ops).length ≤ ops.length := by
  induction ops generalizing log with
  | nil => exact Nat.le_refl _
  | cons op ops ih =>
    have hone : (op.published (log.perform op).1).length ≤ 1 := by
      unfold Operation.published
      split
      · exact Nat.le_refl _
      · exact Nat.zero_le _
    have hrest := ih (log.perform op).2
    rw [publications, List.length_append, List.length_cons]
    omega

/-! ## Effects -/

/-- Two logs that have the same topics, with the same messages, but for one topic. -/
structure AgreesElsewhere (log : MemoryLog) (topic : TopicName) (log' : MemoryLog) : Prop where
  autoCreate : log'.autoCreate = log.autoCreate
  others : ∀ t, t ≠ topic → log'.topics.get? t = log.topics.get? t

/-- What an operation does and says, as it should be. -/
inductive Effect (log : MemoryLog) : Operation → Answer → MemoryLog → Prop where
  /-- A topic that is there already stays as it is, and so does all else. -/
  | existed {topic : TopicName} (hthere : log.topics.contains topic = true) :
      Effect log (.create topic) .created log
  /-- A new topic is empty. -/
  | created {topic : TopicName} {log' : MemoryLog} (hnew : log.topics.contains topic = false)
      (hself : log'.topics.get? topic = some []) (hothers : log.AgreesElsewhere topic log')
      (hnext : log'.next = log.next) : Effect log (.create topic) .created log'
  /-- A publication puts one message at the end of its topic, with the next number as its id. -/
  | appended {topic : TopicName} {payload : Bytes} {log' : MemoryLog} (haccepts : log.Accepts topic)
      (hself : log'.topics.get? topic = some (log.messages topic ++ [⟨formatId log.next, payload⟩]))
      (hothers : log.AgreesElsewhere topic log') (hnext : log'.next.toNat = log.next.toNat + 1) :
      Effect log (.publish topic payload) (.published (formatId log.next)) log'
  /-- Without its topic it is refused, and the log stays as it is, the next number included. -/
  | refused {topic : TopicName} {payload : Bytes} (hmissing : ¬ log.Accepts topic) :
      Effect log (.publish topic payload) (.refused (.topicNotFound topic)) log
  /-- A question is answered by the first messages after its id; the log stays as it is. -/
  | fetched {q : LogQuery} {ms : List Message} (hthere : log.topics.get? q.topic = some ms) :
      Effect log (.fetch q) (.messages ((ms.filter (isBehind q.after)).take q.limit)) log
  /-- A question about a topic that is not there is refused. -/
  | unknown {q : LogQuery} (hmissing : log.topics.get? q.topic = none) :
      Effect log (.fetch q) (.refused (.topicNotFound q.topic)) log

theorem effect_create (log : MemoryLog) (topic : TopicName) :
    Effect log (.create topic) .created (log.create topic) := by
  cases hthere : log.topics.contains topic with
  | true =>
    rw [create, if_pos hthere]
    exact .existed hthere
  | false =>
    have hcreate : log.create topic = { log with topics := log.topics.insert topic [] } := by
      rw [create, if_neg (by rw [hthere]; exact Bool.false_ne_true)]
    rw [hcreate]
    exact .created hthere (SortedMap.get?_insert_self log.topics topic [])
      ⟨rfl, fun t ht => SortedMap.get?_insert_ne log.topics ht []⟩ rfl

theorem publish_of_not_accepts {log : MemoryLog} {topic : TopicName} (h : ¬ log.Accepts topic)
    (payload : Bytes) : log.publish topic payload = .error (.topicNotFound topic) := by
  have hauto : ¬ log.autoCreate = true := fun ha => h (Or.inl ha)
  have hget : log.topics.get? topic = none := by
    cases hget : log.topics.get? topic with
    | none => rfl
    | some ms => exact absurd (Or.inr (SortedMap.contains_iff.mpr ⟨ms, hget⟩)) h
  rw [publish]
  simp only [if_neg hauto, hget]

theorem effect_publish {log : MemoryLog} (hroom : log.next.toNat + 1 < 2 ^ 64)
    (topic : TopicName) (payload : Bytes) :
    Effect log (.publish topic payload) (log.perform (.publish topic payload)).1
      (log.perform (.publish topic payload)).2 := by
  by_cases haccepts : log.Accepts topic
  · obtain ⟨log', hpublish⟩ := publish_of_accepts haccepts payload
    obtain ⟨-, hmessages, -, -, hnext⟩ := publish_ok hpublish
    obtain ⟨-, hauto, hself, hothers⟩ := publish_topics hpublish
    obtain ⟨ms, hms, -⟩ := Option.map_eq_some_iff.mp hself
    have hend : ms = log.messages topic ++ [⟨formatId log.next, payload⟩] := by
      rw [← hmessages, messages, hms]
      rfl
    have hnumber : log'.next.toNat = log.next.toNat + 1 := by
      rw [hnext, UInt64.toNat_add]
      exact Nat.mod_eq_of_lt hroom
    simp only [perform, hpublish]
    exact .appended haccepts (hend ▸ hms) ⟨hauto, hothers⟩ hnumber
  · simp only [perform, publish_of_not_accepts haccepts payload]
    exact .refused haccepts

theorem perform_fetch {log : MemoryLog} {q : LogQuery} {ms : List Message}
    (hget : log.topics.get? q.topic = some ms) (hms : Log.Ascending ms) :
    log.perform (.fetch q) = (.messages ((ms.filter (isBehind q.after)).take q.limit), log) := by
  have hfilter : Log.isAfter q.after = isBehind q.after :=
    funext fun m => (Log.isBehind_eq_isAfter q.after m).symm
  simp only [perform, fetch, hget, Log.following_eq_filter hms, hfilter]

theorem effect_fetch {log : MemoryLog} (hascending : ∀ topic, Log.Ascending (log.messages topic))
    (q : LogQuery) :
    Effect log (.fetch q) (log.perform (.fetch q)).1 (log.perform (.fetch q)).2 := by
  cases hget : log.topics.get? q.topic with
  | none =>
    simp only [perform, fetch, hget]
    exact .unknown hget
  | some ms =>
    have hms : log.messages q.topic = ms := by rw [messages, hget, Option.getD_some]
    rw [perform_fetch hget (hms ▸ hascending q.topic)]
    exact .fetched hget

/-- **Each operation has its effect** on a log whose ids ascend, as long as there are numbers. -/
theorem effect_perform {log : MemoryLog} (hascending : ∀ topic, Log.Ascending (log.messages topic))
    (hroom : log.next.toNat + 1 < 2 ^ 64) (op : Operation) :
    Effect log op (log.perform op).1 (log.perform op).2 := by
  cases op with
  | create topic => exact effect_create log topic
  | publish topic payload => exact effect_publish hroom topic payload
  | fetch q => exact effect_fetch hascending q

/-- An operation uses up one number at most. -/
theorem Effect.next_le {log log' : MemoryLog} {op : Operation} {answer : Answer}
    (h : Effect log op answer log') : log'.next.toNat ≤ log.next.toNat + 1 := by
  cases h with
  | created _ _ _ hnext =>
    rw [hnext]
    exact Nat.le_succ _
  | appended _ _ _ hnext => exact Nat.le_of_eq hnext
  | existed | refused | fetched | unknown => exact Nat.le_succ _

/-! ## The record of a log -/

/-- The messages of one topic in a record. -/
def ofTopic (topic : TopicName) (ps : List (TopicName × Message)) : List Message :=
  (ps.filter (·.1 = topic)).map (·.2)

/-- A log with the record of all that was published to it. -/
structure Recorded (log : MemoryLog) (ps : List (TopicName × Message)) : Prop where
  inOrder : ∀ topic, log.messages topic = ofTopic topic ps
  ascending : ps.Pairwise fun p p' => p.2.id < p'.2.id
  below : ∀ p ∈ ps, p.2.id < formatId log.next

namespace Recorded

variable {log log' : MemoryLog} {ps : List (TopicName × Message)}

theorem new (autoCreate : Bool) : Recorded (.new autoCreate) [] :=
  ⟨fun _ => rfl, List.Pairwise.nil, fun _ hp => absurd hp List.not_mem_nil⟩

/-- The ids of a topic ascend because those of the record do. -/
theorem ascending_messages (h : Recorded log ps) (topic : TopicName) :
    Log.Ascending (log.messages topic) := by
  rw [h.inOrder, ofTopic, Log.Ascending, List.pairwise_map]
  exact h.ascending.filter _

/-- A topic has no more messages than were published. -/
theorem length_messages_le (h : Recorded log ps) (topic : TopicName) :
    (log.messages topic).length ≤ ps.length := by
  rw [h.inOrder, ofTopic, List.length_map]
  exact List.length_filter_le _ ps

/-- A log with the same messages and the same next number has the same record. -/
theorem congr (h : Recorded log ps) (hmessages : ∀ topic, log'.messages topic = log.messages topic)
    (hnext : log'.next = log.next) : Recorded log' ps :=
  ⟨fun topic => (hmessages topic).trans (h.inOrder topic), h.ascending, hnext ▸ h.below⟩

/-- A message with the next number as its id goes to the end of the record. -/
theorem append (h : Recorded log ps) {topic : TopicName} {payload : Bytes}
    (hself : log'.topics.get? topic = some (log.messages topic ++ [⟨formatId log.next, payload⟩]))
    (hothers : log.AgreesElsewhere topic log') (hnext : log'.next.toNat = log.next.toNat + 1) :
    Recorded log' (ps ++ [(topic, ⟨formatId log.next, payload⟩)]) := by
  have hlt : formatId log.next < formatId log'.next := by
    refine formatId_lt_formatId (UInt64.lt_iff_toNat_lt.mpr ?_)
    omega
  refine ⟨fun t => ?_, List.pairwise_append.mpr ⟨h.ascending, List.pairwise_singleton _ _, ?_⟩, ?_⟩
  · rw [ofTopic, List.filter_append, List.map_append]
    by_cases ht : t = topic
    · subst ht
      rw [messages, hself, Option.getD_some, h.inOrder, ofTopic, List.filter_singleton]
      simp
    · rw [messages, hothers.others t ht, ← messages, h.inOrder, ofTopic, List.filter_singleton]
      simp [Ne.symm ht]
  · intro p hp p' hp'
    rw [List.mem_singleton.mp hp']
    exact h.below p hp
  · intro p hp
    rcases List.mem_append.mp hp with hp | hp
    · exact String.lt_trans (h.below p hp) hlt
    · rw [List.mem_singleton.mp hp]
      exact hlt

/-- **A step.**  What an operation publishes is added to the record, and nothing else. -/
theorem step {op : Operation} {answer : Answer} (h : Recorded log ps)
    (heffect : Effect log op answer log') : Recorded log' (ps ++ op.published answer) := by
  cases heffect with
  | existed | refused | fetched | unknown =>
    show Recorded log (ps ++ [])
    rw [List.append_nil]
    exact h
  | @created topic _ hnew hself hothers hnext =>
    show Recorded log' (ps ++ [])
    rw [List.append_nil]
    refine h.congr (fun t => ?_) hnext
    by_cases ht : t = topic
    · rw [SortedMap.contains, Option.isSome_eq_false_iff, Option.isNone_iff_eq_none] at hnew
      rw [ht, messages, messages, hself, hnew]
      rfl
    · rw [messages, hothers.others t ht, messages]
  | appended _ hself hothers hnext => exact h.append hself hothers hnext

end Recorded

/-- **A run.**  A log that was reached has the record of its publications, and used up no more numbers
    than there were operations. -/
theorem recorded_reached (autoCreate : Bool) {ops : List Operation}
    (hfew : ops.length < 2 ^ 64 - 1) :
    Recorded (reached autoCreate ops) (publications (.new autoCreate) ops)
    ∧ (reached autoCreate ops).next.toNat ≤ ops.length + 1 := by
  induction ops using List.reverseRecOn with
  | nil => exact ⟨.new autoCreate, Nat.le_refl _⟩
  | append_singleton ops op ih =>
    rw [List.length_append, List.length_singleton] at hfew ⊢
    obtain ⟨hrecorded, hnext⟩ := ih (by omega)
    have heffect := effect_perform hrecorded.ascending_messages (by omega) op
    have hnext' := heffect.next_le
    rw [reached_concat, publications_concat]
    exact ⟨hrecorded.step heffect, by omega⟩

/-! ## Ordered logs -/

/-- What operations on a new log make of it is an ordered log for each topic. -/
structure IsOrderedLog (autoCreate : Bool) (ops : List Operation) : Prop where
  /-- The ids of each topic ascend, compared by their bytes. -/
  ascending : ∀ topic, ((reached autoCreate ops).messages topic).Pairwise fun m n =>
    Utf8.encode m.id < Utf8.encode n.id
  /-- Each topic has what was published to it, in that order. -/
  inOrder : ∀ topic, (reached autoCreate ops).messages topic
    = ofTopic topic (publications (.new autoCreate) ops)
  /-- No two messages were given one id, in whatever topics they are. -/
  once : ((publications (.new autoCreate) ops).map (·.2.id)).Nodup
  /-- Each of the operations had its effect on the log that it met. -/
  steps : ∀ done op rest, ops = done ++ op :: rest →
    Effect (reached autoCreate done) op ((reached autoCreate done).perform op).1
      (reached autoCreate (done ++ [op]))
  /-- Whatever else may be asked, the first messages after the id are the answer, and they are what is
      cut out of the topic by places. -/
  fetches : ∀ q ms, (reached autoCreate ops).topics.get? q.topic = some ms →
    (reached autoCreate ops).perform (.fetch q)
        = (.messages ((ms.filter (isBehind q.after)).take q.limit), reached autoCreate ops)
    ∧ cutOut? q.after q.limit ms = some ((ms.filter (isBehind q.after)).take q.limit)

/-- **A log in memory is an ordered log per topic**, whatever is done to it, as long as its numbers do
    not run out. -/
theorem isOrderedLog_of_operations (autoCreate : Bool) {ops : List Operation}
    (hfew : ops.length < 2 ^ 64 - 1) : IsOrderedLog autoCreate ops := by
  obtain ⟨hrecorded, -⟩ := recorded_reached autoCreate hfew
  refine ⟨fun topic => ?_, hrecorded.inOrder, ?_, ?_, ?_⟩
  · exact (hrecorded.ascending_messages topic).imp Text.Utf8.encode_lt_encode
  · rw [List.Nodup, List.pairwise_map]
    refine hrecorded.ascending.imp fun hlt heq => ?_
    rw [heq] at hlt
    exact String.lt_irrefl _ hlt
  · rintro done op rest rfl
    rw [List.length_append, List.length_cons] at hfew
    have hfewer : done.length < 2 ^ 64 - 1 := by omega
    obtain ⟨hbefore, hnext⟩ := recorded_reached autoCreate hfewer
    rw [reached_concat]
    exact effect_perform hbefore.ascending_messages (by omega) op
  · intro q ms hget
    have hms : (reached autoCreate ops).messages q.topic = ms := by
      rw [messages, hget, Option.getD_some]
    have hascending := hrecorded.ascending_messages q.topic
    have hlength := hrecorded.length_messages_le q.topic
    rw [hms] at hascending hlength
    have hpublished := length_publications_le (.new autoCreate) ops
    have hsize : ms.length < 2 ^ 64 := by omega
    exact ⟨perform_fetch hget hascending, Log.cutOut?_eq hascending hsize q.after q.limit⟩

/-- Six operations on two topics, one of them refused for want of its topic. -/
def sixOperations : List Operation :=
  [.create "a", .publish "a" [1], .publish "b" [2], .create "b", .publish "b" [3], .publish "a" [4]]

/-- The refused publication used up no number, and an id that no message has is a place as well. -/
theorem isOrderedLog_sixOperations :
    sixOperations.length < 2 ^ 64 - 1 ∧ IsOrderedLog false sixOperations
    ∧ (reached false sixOperations).messages "a"
        = [⟨"00000000000000000001", [1]⟩, ⟨"00000000000000000003", [4]⟩]
    ∧ (reached false sixOperations).fetch ⟨"a", some "000000000000000000010", 2 ^ 64 - 1⟩
        = .ok [⟨"00000000000000000003", [4]⟩] := by
  have hfew : sixOperations.length < 2 ^ 64 - 1 := by decide
  exact ⟨hfew, isOrderedLog_of_operations false hfew, by decide +kernel, by decide +kernel⟩

end TopicRelay.MemoryLog
