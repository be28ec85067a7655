/-
  What comes of reading topics, without the writing.

  reading       a topic is asked for one batch after another (`readBatches`), and what comes of that is
                the batches, and a failure if there was one
  elements      an element for each batch, and then one that names the failure, or one without
                messages if there is nothing else (`Reading.elements`)
  sizes         the batches are full, all but the last (`Sized`)
  steady logs   if an answer depends on the question alone, the batches are the answers, in order, to
                all questions but perhaps the last (`Faithful`)

  The crux of the sizes is that a batch after which one goes on is neither short nor all that is left
  of the limit, so it has as many messages as a batch can have.
-/
import TopicRelay.Endpoint.MessageStream

namespace TopicRelay.Endpoint

open Wire (ConsumeRequest TopicMessages)

/-- What came of reading a topic. -/
structure Reading where
  /-- The questions, in the order in which they were asked. -/
  asked : List LogQuery
  /-- The answers with messages. -/
  batches : List (List Message)
  /-- Why it was not read to its end, if it was not. -/
  failure : Option LogError

namespace Reading

/-- Nothing was asked, and nothing had to be. -/
def nothing : Reading := ⟨[], [], none⟩

/-- A batch, and what came after it. -/
def andThen (q : LogQuery) (messages : List Message) (rest : Reading) : Reading :=
  ⟨q :: rest.asked, messages :: rest.batches, rest.failure⟩

/-- The number of messages. -/
def count (r : Reading) : Nat := r.batches.flatten.length

theorem count_andThen (q : LogQuery) (messages : List Message) (rest : Reading) :
    (rest.andThen q messages).count = messages.length + rest.count := by
  rw [andThen, count, List.flatten_cons, List.length_append, count]

/-! ## Elements -/

/-- The element that says why a topic could not be read. -/
def failureElement (key : TopicKey) : LogError → TopicMessages
  | .topicNotFound _ => .notFound key
  | e => .storeFailure key e.message

/-- What comes behind the batches of a key of which `written` messages were there before. -/
def ending (key : TopicKey) (written : Nat) (r : Reading) : List TopicMessages :=
  match r.failure with
  | some e => [failureElement key e]
  | none => if written = 0 ∧ r.batches = [] then [.empty key] else []

/-- The elements of a key of which `written` messages were there before. -/
def elements (key : TopicKey) (written : Nat) (r : Reading) : List TopicMessages :=
  r.batches.map (.ofMessages key) ++ r.ending key written

theorem elements_andThen (key : TopicKey) (written : Nat) (q : LogQuery) {messages : List Message}
    (hne : messages.length ≠ 0) (rest : Reading) :
    (rest.andThen q messages).elements key written
      = .ofMessages key messages :: rest.elements key (written + messages.length) := by
  rw [elements, andThen, List.map_cons, List.cons_append, elements]
  congr 2
  rw [ending, ending]
  cases rest.failure with
  | some e => rfl
  | none =>
    simp only
    rw [if_neg fun h => List.cons_ne_nil _ _ h.2, if_neg fun h => by omega]

/-- Without messages and without a failure, an element says so unless there were messages before. -/
theorem elements_of_empty (key : TopicKey) (written : Nat) (asked : List LogQuery) :
    (⟨asked, [], none⟩ : Reading).elements key written = if written = 0 then [.empty key] else [] := by
  rw [elements, ending, List.map_nil, List.nil_append]
  simp only [and_true]

theorem topic_failureElement (key : TopicKey) (e : LogError) : (failureElement key e).topic = key := by
  cases e <;> rfl

/-- Each element names its key. -/
theorem topic_of_mem_elements {key : TopicKey} {written : Nat} {r : Reading} {e : TopicMessages}
    (h : e ∈ r.elements key written) : e.topic = key := by
  rcases List.mem_append.mp h with h | h
  · obtain ⟨batch, -, rfl⟩ := List.mem_map.mp h
    rfl
  · rw [ending] at h
    split at h
    · rw [List.mem_singleton.mp h, topic_failureElement]
    · split at h
      · rw [List.mem_singleton.mp h]
        rfl
      · cases h

/-- A key has at least one element. -/
theorem elements_ne_nil (key : TopicKey) (r : Reading) : r.elements key 0 ≠ [] := by
  obtain ⟨asked, _ | ⟨batch, batches⟩, _ | e⟩ := r <;> exact List.cons_ne_nil _ _

/-- The elements hold what the batches do. -/
theorem flatMap_elements (key : TopicKey) (written : Nat) (r : Reading) :
    (r.elements key written).flatMap (·.messages) = r.batches.flatten := by
  have hending : (r.ending key written).flatMap (·.messages) = [] := by
    rw [ending]
    split
    · next e _ => cases e <;> rfl
    · split <;> rfl
  rw [elements, List.flatMap_append, hending, List.append_nil, List.flatMap_map]
  exact List.flatMap_id

theorem length_flatMap_elements (key : TopicKey) (written : Nat) (r : Reading) :
    ((r.elements key written).flatMap (·.messages)).length = r.count := by
  rw [flatMap_elements, count]

end Reading

/-! ## Reading -/

section Reading

variable {σ : Type}

/-- What is left of a log after some questions. -/
def afterAll (read : LogReader σ) (asked : List LogQuery) (log : σ) : σ :=
  asked.foldl (fun s q => (read q s).2) log

theorem afterAll_cons (read : LogReader σ) (q : LogQuery) (asked : List LogQuery) (log : σ) :
    afterAll read (q :: asked) log = afterAll read asked (read q log).2 := rfl

/-- Reads up to `remaining` messages of a topic after the id `after`: what comes of it, and the log
    that is left. -/
def readBatches (read : LogReader σ) (batchLimit : Nat) (topic : TopicName) (after : Option MessageId)
    (remaining : Nat) (log : σ) : Reading × σ :=
  if remaining = 0 then (.nothing, log)
  else
    let q : LogQuery := ⟨topic, after, min remaining batchLimit⟩
    match read q log with
    | (.error e, log) => (⟨[q], [], some e⟩, log)
    | (.ok messages, log) =>
      if messages.length = 0 then (⟨[q], [], none⟩, log)
      else if messages.length < min remaining batchLimit then (Reading.nothing.andThen q messages, log)
      else
        let (rest, log) := readBatches read batchLimit topic
          ((messages.getLast?.map (·.id)).or after) (remaining - messages.length) log
        (rest.andThen q messages, log)
termination_by remaining

section Steps

variable {read : LogReader σ} {batchLimit : Nat} {topic : TopicName} {after : Option MessageId}
  {remaining : Nat} {log log' : σ} {messages : List Message}

theorem readBatches_zero (read : LogReader σ) (batchLimit : Nat) (topic : TopicName)
    (after : Option MessageId) (log : σ) :
    readBatches read batchLimit topic after 0 log = (.nothing, log) := by
  rw [readBatches, if_pos rfl]

theorem readBatches_of_error (h : remaining ≠ 0) {e : LogError}
    (hread : read ⟨topic, after, min remaining batchLimit⟩ log = (.error e, log')) :
    readBatches read batchLimit topic after remaining log
      = (⟨[⟨topic, after, min remaining batchLimit⟩], [], some e⟩, log') := by
  rw [readBatches, if_neg h]
  simp only [hread]

theorem readBatches_of_empty (h : remaining ≠ 0)
    (hread : read ⟨topic, after, min remaining batchLimit⟩ log = (.ok messages, log'))
    (hempty : messages.length = 0) :
    readBatches read batchLimit topic after remaining log
      = (⟨[⟨topic, after, min remaining batchLimit⟩], [], none⟩, log') := by
  rw [readBatches, if_neg h]
  simp only [hread, if_pos hempty]

theorem readBatches_of_short (h : remaining ≠ 0)
    (hread : read ⟨topic, after, min remaining batchLimit⟩ log = (.ok messages, log'))
    (hsome : messages.length ≠ 0) (hshort : messages.length < min remaining batchLimit) :
    readBatches read batchLimit topic after remaining log
      = (Reading.nothing.andThen ⟨topic, after, min remaining batchLimit⟩ messages, log') := by
  rw [readBatches, if_neg h]
  simp only [hread, if_neg hsome, if_pos hshort]

theorem readBatches_of_full (h : remaining ≠ 0)
    (hread : read ⟨topic, after, min remaining batchLimit⟩ log = (.ok messages, log'))
    (hsome : messages.length ≠ 0) (hfull : ¬messages.length < min remaining batchLimit) :
    readBatches read batchLimit topic after remaining log
      = let (rest, log'') := readBatches read batchLimit topic
          ((messages.getLast?.map (·.id)).or after) (remaining - messages.length) log'
        (rest.andThen ⟨topic, after, min remaining batchLimit⟩ messages, log'') := by
  rw [readBatches, if_neg h]
  simp only [hread, if_neg hsome, if_neg hfull]

end Steps

/-- The log that is left is the one after all questions. -/
theorem readBatches_log (read : LogReader σ) (batchLimit : Nat) (topic : TopicName)
    (after : Option MessageId) (remaining : Nat) (log : σ) :
    (readBatches read batchLimit topic after remaining log).2
      = afterAll read (readBatches read batchLimit topic after remaining log).1.asked log := by
  fun_induction readBatches read batchLimit topic after remaining log with
  | case1 => rfl
  | case2 after remaining log hne q e log' hread =>
    simp only [afterAll_cons, hread]
    rfl
  | case3 after remaining log hne q messages log' hread hempty =>
    simp only [afterAll_cons, hread]
    rfl
  | case4 after remaining log hne q messages log' hread hsome hshort =>
    simp only [Reading.andThen, afterAll_cons, hread]
    rfl
  | case5 after remaining log hne q messages log' hread hsome hfull rest log'' hrest ih =>
    rw [hrest] at ih
    simp only [Reading.andThen, afterAll_cons, hread]
    exact ih

/-- Every question is about the topic. -/
theorem topic_of_mem_asked {read : LogReader σ} {batchLimit : Nat} {topic : TopicName}
    {after : Option MessageId} {remaining : Nat} {log : σ} {q : LogQuery}
    (h : q ∈ (readBatches read batchLimit topic after remaining log).1.asked) : q.topic = topic := by
  fun_induction readBatches read batchLimit topic after remaining log with
  | case1 => cases h
  | case2 => rw [List.mem_singleton.mp h]
  | case3 => rw [List.mem_singleton.mp h]
  | case4 => rw [List.mem_singleton.mp h]
  | case5 after remaining log hne q messages log' hread hsome hfull rest log'' hrest ih =>
    rw [hrest] at ih
    rcases List.mem_cons.mp h with rfl | h
    · rfl
    · exact ih h

/-! ## Sizes -/

/-- Batches of at most `batchLimit` messages, all but the last with just so many, and at most
    `remaining` messages in all. -/
structure Sized (batchLimit remaining : Nat) (r : Reading) : Prop where
  nonempty : ∀ batch ∈ r.batches, batch ≠ []
  atMost : ∀ batch ∈ r.batches, batch.length ≤ batchLimit
  full : ∀ batch ∈ r.batches.dropLast, batch.length = batchLimit
  within : r.count ≤ remaining

theorem Sized.of_nil {batchLimit remaining : Nat} {r : Reading} (h : r.batches = []) :
    Sized batchLimit remaining r := by
  refine ⟨?_, ?_, ?_, ?_⟩
  · rw [h]
    exact fun _ hb => (List.not_mem_nil hb).elim
  · rw [h]
    exact fun _ hb => (List.not_mem_nil hb).elim
  · rw [h]
    exact fun _ hb => (List.not_mem_nil hb).elim
  · rw [Reading.count, h]
    exact Nat.zero_le _

/-- A batch in front.  If another one comes behind it, it is a full one. -/
theorem Sized.andThen {batchLimit remaining : Nat} {messages : List Message} {rest : Reading}
    (hsome : messages.length ≠ 0) (hmost : messages.length ≤ min remaining batchLimit)
    (hrest : Sized batchLimit (remaining - messages.length) rest)
    (hfull : rest.batches ≠ [] → min remaining batchLimit ≤ messages.length) (q : LogQuery) :
    Sized batchLimit remaining (rest.andThen q messages) := by
  have hcount := hrest.within
  refine ⟨?_, ?_, ?_, by rw [Reading.count_andThen]; omega⟩
  · rintro batch hb
    rcases List.mem_cons.mp hb with rfl | hb
    · exact fun hnil => hsome (by rw [hnil]; rfl)
    · exact hrest.nonempty batch hb
  · rintro batch hb
    rcases List.mem_cons.mp hb with rfl | hb
    · omega
    · exact hrest.atMost batch hb
  · rintro batch hb
    by_cases hnil : rest.batches = []
    · rw [Reading.andThen, hnil] at hb
      cases hb
    · -- something comes behind it, so it is not all that was left of the limit
      have hpos : 0 < rest.count := by
        obtain ⟨first, others, hbatches⟩ := List.exists_cons_of_ne_nil hnil
        have hfirst := List.length_pos_iff.mpr
          (hrest.nonempty first (hbatches ▸ List.mem_cons_self))
        rw [Reading.count, hbatches, List.flatten_cons, List.length_append]
        omega
      have hleast := hfull hnil
      rw [Reading.andThen, List.dropLast_cons_of_ne_nil hnil] at hb
      rcases List.mem_cons.mp hb with rfl | hb
      · omega
      · exact hrest.full batch hb

/-- **Sizes.**  If no answer is longer than was asked for, the batches are full, all but the last. -/
theorem sized_readBatches {read : LogReader σ}
    (hlimit : ∀ q s messages s', read q s = (.ok messages, s') → messages.length ≤ q.limit)
    (batchLimit : Nat) (topic : TopicName) (after : Option MessageId) (remaining : Nat) (log : σ) :
    Sized batchLimit remaining (readBatches read batchLimit topic after remaining log).1 := by
  fun_induction readBatches read batchLimit topic after remaining log with
  | case1 => exact .of_nil rfl
  | case2 => exact .of_nil rfl
  | case3 => exact .of_nil rfl
  | case4 after remaining log hne q messages log' hread hsome hshort =>
    exact .andThen hsome (hlimit _ _ _ _ hread) (.of_nil rfl) (fun h => absurd rfl h) q
  | case5 after remaining log hne q messages log' hread hsome hfull rest log'' hrest ih =>
    rw [hrest] at ih
    exact .andThen hsome (hlimit _ _ _ _ hread) ih (fun _ => Nat.not_lt.mp hfull) q

/-- Reads the topic of a key.  A key that is not configured is like a topic that is not there, and
    nothing is asked for it. -/
def readTopic (read : LogReader σ) (resolver : Resolver) (maxPerRead : Nat) (key : TopicKey)
    (r : ConsumeRequest) (log : σ) : Reading × σ :=
  match resolver.resolve? key with
  | none => (⟨[], [], some (.topicNotFound key)⟩, log)
  | some topic => readBatches read (max maxPerRead 1) topic r.lastMessageId r.limit.toNat log

/-- Reads the topics of several keys. -/
def readTopics (read : LogReader σ) (resolver : Resolver) (maxPerRead : Nat) :
    List (TopicKey × ConsumeRequest) → σ → List (TopicKey × Reading) × σ
  | [], log => ([], log)
  | (key, r) :: rest, log =>
    let (reading, log) := readTopic read resolver maxPerRead key r log
    let (readings, log) := readTopics read resolver maxPerRead rest log
    ((key, reading) :: readings, log)

end Reading

/-- The elements of several keys. -/
def elementsOfAll (readings : List (TopicKey × Reading)) : List TopicMessages :=
  readings.flatMap fun x => x.2.elements x.1 0

/-- The number of messages of several keys. -/
def countOfAll (readings : List (TopicKey × Reading)) : Nat :=
  readings.foldr (fun x n => x.2.count + n) 0

theorem elementsOfAll_cons (key : TopicKey) (r : Reading) (readings : List (TopicKey × Reading)) :
    elementsOfAll ((key, r) :: readings) = r.elements key 0 ++ elementsOfAll readings :=
  List.flatMap_cons

theorem countOfAll_cons (key : TopicKey) (r : Reading) (readings : List (TopicKey × Reading)) :
    countOfAll ((key, r) :: readings) = r.count + countOfAll readings := rfl

/-! ## Logs whose answers depend on the question alone -/

/-- A reader that always gives these answers, whatever becomes of its log. -/
def Steady {σ : Type} (read : LogReader σ) (answer : LogQuery → Except LogError (List Message)) : Prop :=
  ∀ q s, (read q s).1 = answer q

/-- A log that has nothing but its answers. -/
def asking (answer : LogQuery → Except LogError (List Message)) : LogReader Unit :=
  fun q s => (answer q, s)

section Steady

variable {σ : Type} {read : LogReader σ} {answer : LogQuery → Except LogError (List Message)}

theorem Steady.answer_eq (h : Steady read answer) {q : LogQuery} {log log' : σ}
    {result : Except LogError (List Message)} (hread : read q log = (result, log')) :
    asking answer q () = (result, ()) := by
  rw [asking, ← h q log, hread]

/-- Such a log does not show in what is read. -/
theorem readBatches_of_steady (h : Steady read answer) (batchLimit : Nat) (topic : TopicName)
    (after : Option MessageId) (remaining : Nat) (log : σ) :
    (readBatches read batchLimit topic after remaining log).1
      = (readBatches (asking answer) batchLimit topic after remaining ()).1 := by
  fun_induction readBatches read batchLimit topic after remaining log with
  | case1 after log => rw [readBatches_zero]
  | case2 after remaining log hne q e log' hread =>
    rw [readBatches_of_error hne (h.answer_eq hread)]
  | case3 after remaining log hne q messages log' hread hempty =>
    rw [readBatches_of_empty hne (h.answer_eq hread) hempty]
  | case4 after remaining log hne q messages log' hread hsome hshort =>
    rw [readBatches_of_short hne (h.answer_eq hread) hsome hshort]
  | case5 after remaining log hne q messages log' hread hsome hfull rest log'' hrest ih =>
    rw [readBatches_of_full hne (h.answer_eq hread) hsome hfull]
    rw [hrest] at ih
    simp only [← ih]
    rfl

/-- The questions were answered with the batches, one after the other, and then perhaps with nothing
    more to read or with the failure. -/
def Faithful (answer : LogQuery → Except LogError (List Message)) (r : Reading) : Prop :=
  ∃ last, r.asked.map answer = r.batches.map .ok ++ last
    ∧ ((r.failure = none ∧ (last = [] ∨ last = [.ok []]))
      ∨ ∃ e, r.failure = some e ∧ last = [.error e])

theorem Faithful.andThen {q : LogQuery} {messages : List Message} {rest : Reading}
    (hq : answer q = .ok messages) (h : Faithful answer rest) :
    Faithful answer (rest.andThen q messages) := by
  obtain ⟨last, hanswers, hlast⟩ := h
  refine ⟨last, ?_, hlast⟩
  rw [Reading.andThen, List.map_cons, List.map_cons, hanswers, hq]
  rfl

theorem faithful_readBatches (h : Steady read answer) (batchLimit : Nat) (topic : TopicName)
    (after : Option MessageId) (remaining : Nat) (log : σ) :
    Faithful answer (readBatches read batchLimit topic after remaining log).1 := by
  have hanswer : ∀ {q log result log'}, read q log = (result, log') → answer q = result := by
    rintro q log result log' hread
    rw [← h q log, hread]
  have hnothing : Faithful answer .nothing := ⟨[], rfl, Or.inl ⟨rfl, Or.inl rfl⟩⟩
  fun_induction readBatches read batchLimit topic after remaining log with
  | case1 => exact hnothing
  | case2 after remaining log hne q e log' hread =>
    exact ⟨[.error e], congrArg (fun x => [x]) (hanswer hread), Or.inr ⟨e, rfl, rfl⟩⟩
  | case3 after remaining log hne q messages log' hread hempty =>
    obtain rfl := List.length_eq_zero_iff.mp hempty
    exact ⟨[.ok []], congrArg (fun x => [x]) (hanswer hread), Or.inl ⟨rfl, Or.inr rfl⟩⟩
  | case4 after remaining log hne q messages log' hread hsome hshort =>
    exact .andThen (hanswer hread) hnothing
  | case5 after remaining log hne q messages log' hread hsome hfull rest log'' hrest ih =>
    rw [hrest] at ih
    exact .andThen (hanswer hread) ih

/-- What is read for a key does not depend on other keys. -/
theorem readTopic_of_steady (h : Steady read answer) (resolver : Resolver) (maxPerRead : Nat)
    (key : TopicKey) (r : ConsumeRequest) (log : σ) :
    (readTopic read resolver maxPerRead key r log).1
      = (readTopic (asking answer) resolver maxPerRead key r ()).1 := by
  rw [readTopic, readTopic]
  cases resolver.resolve? key with
  | none => rfl
  | some topic => exact readBatches_of_steady h _ _ _ _ _

end Steady

end TopicRelay.Endpoint
