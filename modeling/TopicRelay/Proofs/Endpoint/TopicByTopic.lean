/-
  An answer is what its topics give, one after the other.

  A log is taken whose answers depend on the question alone and are never longer than was asked for;
  it may fail for any question.  Then each key has a share of the answer, and

      what it is        batches, and an ending that says how the reading of the topic went (`IsShare`)
      what it knows     the key and its own request, and nothing of the others
      where it stands   between the shares of the keys before and after it, in key order

  So a topic that fails takes nothing from the others, and a key gets in a large request what it gets
  alone.  `stream_topic_by_topic` says so of the bytes; the crux, that a share does not depend on what
  was asked before it, is `readTopic_of_steady`.
-/
import TopicRelay.Proofs.Endpoint.BreakOff

namespace TopicRelay.Endpoint

open Wire (ConsumeRequest ConsumeRequests Decoder TopicMessages answerText)
open Reading (failureElement)

/-! ## Shares -/

/-- How the elements of a key end, from the questions that were asked for it and the batches that came
    back. -/
inductive Ends (answer : LogQuery → Except LogError (List Message)) (resolver : Resolver)
    (key : TopicKey) : List LogQuery → List (List Message) → List TopicMessages → Prop
  /-- There is no topic to ask for. -/
  | notConfigured (h : resolver.resolve? key = none) : Ends answer resolver key [] [] [.notFound key]
  /-- The last question failed, and the ones before it gave the batches. -/
  | failed {topic : TopicName} (h : resolver.resolve? key = some topic) {asked : List LogQuery}
      {batches : List (List Message)} {q : LogQuery} {e : LogError}
      (about : ∀ q' ∈ asked ++ [q], q'.topic = topic) (given : asked.map answer = batches.map .ok)
      (fails : answer q = .error e) :
      Ends answer resolver key (asked ++ [q]) batches [failureElement key e]
  /-- No question failed; after the batches, one may have been answered with nothing.  If there are no
      batches, an element says so. -/
  | read {topic : TopicName} (h : resolver.resolve? key = some topic) {asked : List LogQuery}
      {batches : List (List Message)} {last : List (Except LogError (List Message))}
      (about : ∀ q ∈ asked, q.topic = topic) (given : asked.map answer = batches.map .ok ++ last)
      (nothing : last = [] ∨ last = [.ok []]) :
      Ends answer resolver key asked batches (if batches = [] then [.empty key] else [])

/-- The elements of a key: one for each batch, and the ending.  All batches but the last are full. -/
def IsShare (answer : LogQuery → Except LogError (List Message)) (resolver : Resolver)
    (maxPerRead : Nat) (key : TopicKey) (r : ConsumeRequest) (asked : List LogQuery)
    (es : List TopicMessages) : Prop :=
  ∃ batches ending, es = batches.map (.ofMessages key) ++ ending
    ∧ (∀ batch ∈ batches, batch ≠ [] ∧ batch.length ≤ max maxPerRead 1)
    ∧ (∀ batch ∈ batches.dropLast, batch.length = max maxPerRead 1)
    ∧ batches.flatten.length ≤ r.limit.toNat
    ∧ Ends answer resolver key asked batches ending

section Shares

variable {answer : LogQuery → Except LogError (List Message)} {resolver : Resolver} {maxPerRead : Nat}
  {key : TopicKey}

theorem isSome_error_failureElement (key : TopicKey) (e : LogError) :
    (failureElement key e).error.isSome = true := by
  cases e <;> rfl

/-- An ending has an error exactly if the key is not configured or a question failed. -/
theorem Ends.failed_iff {asked : List LogQuery} {batches : List (List Message)}
    {ending : List TopicMessages} (h : Ends answer resolver key asked batches ending) :
    (∃ e ∈ ending, e.error.isSome = true)
      ↔ resolver.resolve? key = none ∨ ∃ q ∈ asked, ∃ error, answer q = .error error := by
  cases h with
  | notConfigured hnone => exact ⟨fun _ => Or.inl hnone, fun _ => ⟨_, List.mem_singleton_self _, rfl⟩⟩
  | failed hsome about given fails =>
    exact ⟨fun _ => Or.inr ⟨_, List.mem_append_right _ (List.mem_singleton_self _), _, fails⟩,
      fun _ => ⟨_, List.mem_singleton_self _, isSome_error_failureElement key _⟩⟩
  | @read topic hsome asked batches last about given nothing =>
    constructor
    · rintro ⟨e, he, herror⟩
      split at he
      · rw [List.mem_singleton.mp he] at herror
        cases herror
      · cases he
    · rintro (hnone | ⟨q, hq, error, herror⟩)
      · rw [hsome] at hnone
        cases hnone
      · have hmem : answer q ∈ batches.map .ok ++ last := given ▸ List.mem_map_of_mem hq
        rw [herror] at hmem
        rcases List.mem_append.mp hmem with hmem | hmem
        · obtain ⟨batch, -, hbatch⟩ := List.mem_map.mp hmem
          cases hbatch
        · rcases nothing with rfl | rfl
          · cases hmem
          · cases List.mem_singleton.mp hmem

/-- A share has an error exactly if the key is not configured or a question failed. -/
theorem IsShare.failed_iff {r : ConsumeRequest} {asked : List LogQuery} {es : List TopicMessages}
    (h : IsShare answer resolver maxPerRead key r asked es) :
    (∃ e ∈ es, e.error.isSome = true)
      ↔ resolver.resolve? key = none ∨ ∃ q ∈ asked, ∃ error, answer q = .error error := by
  obtain ⟨batches, ending, rfl, -, -, -, hends⟩ := h
  rw [← hends.failed_iff]
  refine ⟨?_, fun ⟨e, he, herror⟩ => ⟨e, List.mem_append_right _ he, herror⟩⟩
  rintro ⟨e, he, herror⟩
  rcases List.mem_append.mp he with he | he
  · obtain ⟨batch, -, rfl⟩ := List.mem_map.mp he
    cases herror
  · exact ⟨e, he, herror⟩

/-- What is read from a steady log is a share. -/
theorem isShare_readTopic
    (hlimit : ∀ q messages, answer q = .ok messages → messages.length ≤ q.limit) (resolver : Resolver)
    (maxPerRead : Nat) (key : TopicKey) (r : ConsumeRequest) :
    IsShare answer resolver maxPerRead key r
      (readTopic (asking answer) resolver maxPerRead key r ()).1.asked
      ((readTopic (asking answer) resolver maxPerRead key r ()).1.elements key 0) := by
  have hsteady : Steady (asking answer) answer := fun _ _ => rfl
  have hfits : ∀ q s messages s', asking answer q s = (.ok messages, s') → messages.length ≤ q.limit :=
    fun q _ messages _ h => hlimit q messages (congrArg Prod.fst h)
  rw [readTopic]
  cases hname : resolver.resolve? key with
  | none =>
    refine ⟨[], [.notFound key], rfl, ?_, ?_, Nat.zero_le _, .notConfigured hname⟩
    · exact fun _ h => (List.not_mem_nil h).elim
    · exact fun _ h => (List.not_mem_nil h).elim
  | some topic =>
    have hsized := sized_readBatches hfits (max maxPerRead 1) topic r.lastMessageId r.limit.toNat ()
    have habout : ∀ q ∈ (readBatches (asking answer) (max maxPerRead 1) topic r.lastMessageId
        r.limit.toNat ()).1.asked, q.topic = topic := fun q hq => topic_of_mem_asked hq
    obtain ⟨last, hgiven, hlast⟩ :=
      faithful_readBatches hsteady (max maxPerRead 1) topic r.lastMessageId r.limit.toNat ()
    revert hsized habout hgiven hlast
    generalize (readBatches (asking answer) (max maxPerRead 1) topic r.lastMessageId r.limit.toNat ()).1
      = reading
    rintro hsized habout hgiven hlast
    refine ⟨reading.batches, reading.ending key 0, rfl,
      fun batch hb => ⟨hsized.nonempty batch hb, hsized.atMost batch hb⟩, hsized.full, ?_, ?_⟩
    · exact hsized.within
    · rw [Reading.ending]
      rcases hlast with ⟨hnone, hnothing⟩ | ⟨e, hfailure, rfl⟩
      · simp only [hnone, true_and]
        exact .read hname habout hgiven hnothing
      · -- the last question is the one that failed
        simp only [hfailure]
        obtain ⟨asked, others, hasked, hbatches, hothers⟩ := List.map_eq_append_iff.mp hgiven
        obtain ⟨q, rfl, hq⟩ := List.map_eq_singleton_iff.mp hothers
        rw [hasked] at habout ⊢
        exact .failed hname habout hbatches hq

end Shares

/-! ## The whole answer -/

section Whole

variable {σ : Type} {read : LogReader σ} {answer : LogQuery → Except LogError (List Message)}

theorem readTopic_log (read : LogReader σ) (resolver : Resolver) (maxPerRead : Nat) (key : TopicKey)
    (r : ConsumeRequest) (log : σ) :
    (readTopic read resolver maxPerRead key r log).2
      = afterAll read (readTopic read resolver maxPerRead key r log).1.asked log := by
  rw [readTopic]
  cases resolver.resolve? key with
  | none => rfl
  | some topic => exact readBatches_log _ _ _ _ _ _

/-- Several keys are read like each of them alone, one after the other. -/
theorem readTopics_of_steady (h : Steady read answer) (resolver : Resolver) (maxPerRead : Nat)
    (l : List (TopicKey × ConsumeRequest)) (log : σ) :
    readTopics read resolver maxPerRead l log
      = (l.map fun e => (e.1, (readTopic (asking answer) resolver maxPerRead e.1 e.2 ()).1),
        afterAll read
          (l.flatMap fun e => (readTopic (asking answer) resolver maxPerRead e.1 e.2 ()).1.asked)
          log) := by
  induction l generalizing log with
  | nil => rfl
  | cons e l ih =>
    obtain ⟨key, r⟩ := e
    rw [readTopics]
    simp only
    rw [ih, readTopic_log, readTopic_of_steady h, List.map_cons, List.flatMap_cons, afterAll, afterAll,
      afterAll, List.foldl_append]

theorem countOfAll_eq (readings : List (TopicKey × Reading)) :
    countOfAll readings = ((elementsOfAll readings).flatMap (·.messages)).length := by
  induction readings with
  | nil => rfl
  | cons x readings ih =>
    rw [countOfAll_cons, elementsOfAll_cons, List.flatMap_append, List.length_append, ← ih,
      Reading.length_flatMap_elements]

end Whole

namespace Answer

/-- **Topic by topic.**  Each key has a share of the answer that depends on its own request alone.  The
    shares are never empty, name their key in every element, and end with an error exactly if the key
    is not configured or one of its questions failed.  What is written for some requests is the shares
    of their keys in key order, for one alone it is its share; the messages are counted; and the log
    was asked just the questions of the shares. -/
theorem stream_topic_by_topic {answer : LogQuery → Except LogError (List Message)}
    (hlimit : ∀ q messages, answer q = .ok messages → messages.length ≤ q.limit) (resolver : Resolver)
    (maxPerRead : Nat) :
    ∃ (asked : TopicKey → ConsumeRequest → List LogQuery)
      (share : TopicKey → ConsumeRequest → List TopicMessages),
      (∀ key r, IsShare answer resolver maxPerRead key r (asked key r) (share key r)
        ∧ share key r ≠ [] ∧ (∀ e ∈ share key r, e.topic = key)
        ∧ ((∃ e ∈ share key r, e.error.isSome = true)
          ↔ resolver.resolve? key = none ∨ ∃ q ∈ asked key r, ∃ error, answer q = .error error))
      ∧ ∀ {σ : Type} (read : LogReader σ), Steady read answer →
          ∀ chunkSize heedsAbort log metrics,
            (∀ requests : ConsumeRequests, ∃ n a,
              stream read resolver maxPerRead requests
                  (unwritten chunkSize none heedsAbort log metrics) = (.ok n, a)
              ∧ a.writer.receiver.body
                  = answerText (requests.entries.flatMap fun e => share e.1 e.2)
              ∧ n = ((requests.entries.flatMap fun e => share e.1 e.2).flatMap (·.messages)).length
              ∧ a.log = afterAll read (requests.entries.flatMap fun e => asked e.1 e.2) log)
            ∧ ∀ key r, (stream read resolver maxPerRead (SortedMap.empty.insert key r)
                (unwritten chunkSize none heedsAbort log metrics)).2.writer.receiver.body
              = answerText (share key r) := by
  refine ⟨fun key r => (readTopic (asking answer) resolver maxPerRead key r ()).1.asked,
    fun key r => (readTopic (asking answer) resolver maxPerRead key r ()).1.elements key 0,
    fun key r => ?_, fun read hsteady chunkSize heedsAbort log metrics => ?_⟩
  · have hshare := isShare_readTopic hlimit resolver maxPerRead key r
    exact ⟨hshare, Reading.elements_ne_nil key _, fun e he => Reading.topic_of_mem_elements he,
      hshare.failed_iff⟩
  · have hstream : ∀ requests : ConsumeRequests, ∃ n a,
        stream read resolver maxPerRead requests (unwritten chunkSize none heedsAbort log metrics)
            = (.ok n, a)
          ∧ a.writer.receiver.body = answerText (requests.entries.flatMap fun e =>
              (readTopic (asking answer) resolver maxPerRead e.1 e.2 ()).1.elements e.1 0)
          ∧ n = ((requests.entries.flatMap fun e =>
              (readTopic (asking answer) resolver maxPerRead e.1 e.2 ()).1.elements e.1 0).flatMap
                (·.messages)).length
          ∧ a.log = afterAll read (requests.entries.flatMap fun e =>
              (readTopic (asking answer) resolver maxPerRead e.1 e.2 ()).1.asked) log := by
      rintro requests
      have helements : elementsOfAll (requests.entries.map fun e =>
            (e.1, (readTopic (asking answer) resolver maxPerRead e.1 e.2 ()).1))
          = requests.entries.flatMap fun e =>
            (readTopic (asking answer) resolver maxPerRead e.1 e.2 ()).1.elements e.1 0 := by
        rw [elementsOfAll, List.flatMap_map]
      rcases stream_reads read resolver maxPerRead requests log
          (readTopics_of_steady hsteady resolver maxPerRead requests.entries log) chunkSize none
          heedsAbort metrics with ⟨a, hok, hlog, hbody⟩ | ⟨_, _, _, hgone, _⟩
      · rw [helements] at hbody
        rw [countOfAll_eq, helements] at hok
        exact ⟨_, a, hok, hbody, rfl, hlog⟩
      · exact absurd rfl hgone
    refine ⟨hstream, fun key r => ?_⟩
    obtain ⟨n, a, hok, hbody, -, -⟩ := hstream (SortedMap.empty.insert key r)
    rw [hok, hbody]
    exact congrArg answerText (List.append_nil _)

end Answer

/-! ### A log that fails now and then -/

namespace Patchy

def first : Message := ⟨MemoryLog.formatId 1, [1]⟩
def second : Message := ⟨MemoryLog.formatId 2, [2]⟩
def third : Message := ⟨MemoryLog.formatId 3, [3]⟩

/-- The topic "v" is empty, and "u" can only be read at its start. -/
def answer (q : LogQuery) : Except LogError (List Message) :=
  let messages := if q.topic = "v" then [] else [first, second, third]
  if q.topic = "u" ∧ q.after ≠ none then .error (.failure "no disk")
  else .ok ((MemoryLog.following q.after messages).take q.limit)

def resolver : Resolver :=
  ⟨((SortedMap.empty.insert "k" "t").insert "l" "u").insert "m" "v"⟩

/-- All four keys; "j" is not configured. -/
def requests : ConsumeRequests :=
  (((SortedMap.empty.insert "j" ⟨none, 4⟩).insert "k" ⟨none, 4⟩).insert "l" ⟨none, 4⟩).insert "m"
    ⟨none, 4⟩

/-- The answer to some requests, two messages at a time. -/
def body (requests : ConsumeRequests) : Bytes :=
  (Answer.stream (asking answer) resolver 2 requests
    (Answer.unwritten 64 none true () .empty)).2.writer.receiver.body

/-- Of the four keys, one is not there, one is given whole, one breaks off and one has nothing. -/
theorem stream_patchy :
    (∀ q messages, answer q = .ok messages → messages.length ≤ q.limit)
    ∧ ∃ share : TopicKey → List TopicMessages,
      share "j" ++ (share "k" ++ (share "l" ++ share "m"))
          = [.notFound "j", .ofMessages "k" [first, second], .ofMessages "k" [third],
            .ofMessages "l" [first, second], .storeFailure "l" "Message store failure: no disk",
            .empty "m"]
      ∧ body requests = answerText (share "j" ++ (share "k" ++ (share "l" ++ share "m")))
      ∧ body (SortedMap.empty.insert "k" ⟨none, 4⟩) = answerText (share "k")
      ∧ ∀ e ∈ share "l", e.topic = "l" := by
  have hlimit : ∀ q messages, answer q = .ok messages → messages.length ≤ q.limit := by
    rintro q messages h
    rw [answer] at h
    split at h
    · cases h
    · rw [← Except.ok.inj h]
      exact List.length_take_le _ _
  obtain ⟨asked, share, hshares, hstream⟩ := Answer.stream_topic_by_topic hlimit resolver 2
  obtain ⟨hall, halone⟩ := hstream (asking answer) (fun _ _ => rfl) 64 true () .empty
  obtain ⟨n, a, hok, hbody, -⟩ := hall requests
  have hentries : (requests.entries.flatMap fun e => share e.1 e.2)
      = share "j" ⟨none, 4⟩ ++ (share "k" ⟨none, 4⟩ ++ (share "l" ⟨none, 4⟩ ++ share "m" ⟨none, 4⟩)) := by
    have : requests.entries = [("j", ⟨none, 4⟩), ("k", ⟨none, 4⟩), ("l", ⟨none, 4⟩), ("m", ⟨none, 4⟩)] := by
      decide +kernel
    rw [this]
    simp only [List.flatMap_cons, List.flatMap_nil, List.append_nil]
  have hrequests : body requests = a.writer.receiver.body := by rw [body, hok]
  rw [hentries, ← hrequests] at hbody
  refine ⟨hlimit, fun key => share key ⟨none, 4⟩, Decoder.answerText_injective ?_, hbody, halone _ _,
    (hshares "l" ⟨none, 4⟩).2.2.1⟩
  rw [← hbody]
  decide +kernel

end Patchy
end TopicRelay.Endpoint
