/-
  Reading a topic stays within its budget.

  The limit of a request is spent batch by batch, and each question asks for what is left of it or for
  a batch, whichever is less:

      limit 5, batches of 2        asked for  2   2   1
                                   left       5   3   1   0

  specification   what was asked and answered is written down (`recorded`), and the questions keep to
                  the budget whatever the answers were (`StaysInBudget`)
  step            another question comes only after a full answer, and then there is a whole batch less
                  to give (`Rounds`)
  run             so there are no more questions than batches in the limit (`Rounds.length_le`)
  bridge          writing the questions down changes nothing else (`batches_recorded`)

  Nothing is asked of the log but that it gives no more than it is asked for.  It may fail, and give
  less than it has, or other messages each time.
-/
import TopicRelay.Proofs.Endpoint.BreakOff

namespace TopicRelay.Endpoint

open Wire (ConsumeRequest TopicMessages)

/-! ## What was asked and answered -/

/-- A question to a log, and the answer. -/
structure Fetch where
  query : LogQuery
  answer : Except LogError (List Message)

namespace Fetch

/-- The number of messages that came; none if the question failed. -/
def count (f : Fetch) : Nat :=
  match f.answer with
  | .ok messages => messages.length
  | .error _ => 0

theorem count_ok (q : LogQuery) (messages : List Message) :
    count ⟨q, .ok messages⟩ = messages.length := rfl

end Fetch

/-- The number of messages that came of several questions. -/
def received : List Fetch → Nat
  | [] => 0
  | f :: rest => f.count + received rest

theorem received_cons (f : Fetch) (rest : List Fetch) :
    received (f :: rest) = f.count + received rest := rfl

theorem received_single (f : Fetch) : received [f] = f.count := Nat.add_zero _

section Recording

variable {σ : Type}

/-- The same reader, which writes down what it was asked and what it answered. -/
def recorded (read : LogReader σ) : LogReader (List Fetch × σ) := fun q s =>
  let (answer, log) := read q s.2
  (answer, (s.1 ++ [⟨q, answer⟩], log))

namespace Answer

/-- The same answer, with nothing written down yet. -/
def recording (a : Answer σ) : Answer (List Fetch × σ) :=
  ⟨a.writer, a.elements, ([], a.log), a.metrics⟩

/-- The same answer without what was written down. -/
def plain (a : Answer (List Fetch × σ)) : Answer σ := ⟨a.writer, a.elements, a.log.2, a.metrics⟩

/-- The questions that were written down. -/
def fetches (a : Answer (List Fetch × σ)) : List Fetch := a.log.1

end Answer

/-- A question that is answered is written down, and the answer is the one there would be without. -/
theorem recorded_eq {read : LogReader σ} {q : LogQuery} {s s' : List Fetch × σ}
    {answer : Except LogError (List Message)} (h : recorded read q s = (answer, s')) :
    s'.1 = s.1 ++ [⟨q, answer⟩] ∧ read q s.2 = (answer, s'.2) := by
  cases h
  exact ⟨rfl, rfl⟩

end Recording

/-! ## Rounds -/

/-- Questions and answers with so many messages left to ask for.  Another question comes only after an
    answer that gave all it was asked for, and that much less is left then. -/
inductive Rounds (batchLimit : Nat) : Nat → List Fetch → Prop where
  | nil (left : Nat) : Rounds batchLimit left []
  | cons {left : Nat} {f : Fetch} {rest : List Fetch} (some_left : 0 < left)
      (asks : f.query.limit = min left batchLimit) (gives : f.count ≤ f.query.limit)
      (full : rest ≠ [] → f.count = f.query.limit) (behind : Rounds batchLimit (left - f.count) rest) :
      Rounds batchLimit left (f :: rest)

namespace Rounds

variable {batchLimit left : Nat} {fetches : List Fetch}

/-- A question that is the last. -/
theorem single {f : Fetch} (some_left : left ≠ 0) (asks : f.query.limit = min left batchLimit)
    (gives : f.count ≤ f.query.limit) : Rounds batchLimit left [f] :=
  .cons (Nat.pos_of_ne_zero some_left) asks gives (fun h => absurd rfl h) (.nil _)

/-- **There are no more questions than batches.** -/
theorem length_le (h : Rounds batchLimit left fetches) (hbatch : 0 < batchLimit) :
    fetches.length ≤ (left + batchLimit - 1) / batchLimit := by
  induction h with
  | nil left => exact Nat.zero_le _
  | @cons left f rest some_left asks gives full behind ih =>
    rw [show left + batchLimit - 1 = (left - 1) + batchLimit by omega, Nat.add_div_right _ hbatch,
      List.length_cons]
    cases behind with
    | nil => exact Nat.succ_le_succ (Nat.zero_le _)
    | cons some_left' =>
      -- more was left than was asked for, so this was a whole batch
      have hwhole : f.count = batchLimit := by
        have := full (List.cons_ne_nil _ _)
        omega
      rw [hwhole, show left - batchLimit + batchLimit - 1 = left - 1 by omega] at ih
      exact Nat.succ_le_succ ih

theorem limit_bounds (h : Rounds batchLimit left fetches) (hbatch : 0 < batchLimit) :
    ∀ f ∈ fetches, 1 ≤ f.query.limit ∧ f.query.limit ≤ batchLimit := by
  induction h with
  | nil left =>
    intro f hf
    cases hf
  | cons some_left asks _ _ _ ih =>
    intro f hf
    rcases List.mem_cons.mp hf with rfl | hf
    · rw [asks]
      omega
    · exact ih f hf

/-- What is left at a question is what was left before, less what came since; and that is at least what
    the answer gives. -/
theorem at_question {before behind : List Fetch} {f : Fetch}
    (h : Rounds batchLimit left (before ++ f :: behind)) :
    received before + f.count ≤ left
      ∧ f.query.limit = min (left - received before) batchLimit := by
  induction before generalizing left with
  | nil =>
    cases h with
    | cons some_left asks gives full rest =>
      rw [received]
      omega
  | cons g before ih =>
    cases h with
    | cons some_left asks gives full rest =>
      obtain ⟨hgives, hasks⟩ := ih rest
      rw [received_cons, hasks]
      omega

theorem received_le (h : Rounds batchLimit left fetches) : received fetches ≤ left := by
  induction h with
  | nil left => exact Nat.zero_le _
  | @cons left f rest some_left asks gives full behind ih =>
    rw [received_cons]
    omega

end Rounds

namespace Answer

variable {σ : Type}

/-! ## Writing questions down changes nothing else -/

section Plain

variable (a : Answer (List Fetch × σ))

theorem plain_log : a.plain.log = a.log.2 := rfl

theorem plain_element (e : TopicMessages) :
    a.plain.element e = ((a.element e).1, (a.element e).2.plain)
      ∧ (a.element e).2.fetches = a.fetches := by
  have hsame : a.plain.writer.writeElement (if a.plain.elements = 0 then none else some Ascii.comma)
      (.ok e.print)
    = a.writer.writeElement (if a.elements = 0 then none else some Ascii.comma) (.ok e.print) := rfl
  rw [element, element, hsame]
  rcases a.writer.writeElement (if a.elements = 0 then none else some Ascii.comma) (.ok e.print)
    with ⟨_ | _, w⟩ <;> exact ⟨rfl, rfl⟩

theorem plain_element_eq {a a' : Answer (List Fetch × σ)} {e : TopicMessages}
    {result : Except ChunkError Unit} (h : a.element e = (result, a')) :
    a.plain.element e = (result, a'.plain) ∧ a'.fetches = a.fetches := by
  have hplain := a.plain_element e
  rwa [h] at hplain

theorem plain_lastElement (written : Nat) (e : TopicMessages) :
    a.plain.lastElement written e = ((a.lastElement written e).1, (a.lastElement written e).2.plain)
      ∧ (a.lastElement written e).2.fetches = a.fetches
      ∧ ∀ n, (a.lastElement written e).1 = .ok n → n = written := by
  obtain ⟨hplain, hfetches⟩ := a.plain_element e
  rw [lastElement, hplain, lastElement]
  rcases h : a.element e with ⟨_ | _, a'⟩
  · rw [h] at hfetches
    exact ⟨rfl, hfetches, fun n hn => by cases hn⟩
  · rw [h] at hfetches
    exact ⟨rfl, hfetches, fun n hn => (Except.ok.inj hn).symm⟩

theorem plain_failTopic (key : TopicKey) (written : Nat) (error : LogError) :
    a.plain.failTopic key written error
        = ((a.failTopic key written error).1, (a.failTopic key written error).2.plain)
      ∧ (a.failTopic key written error).2.fetches = a.fetches
      ∧ ∀ n, (a.failTopic key written error).1 = .ok n → n = written := by
  cases error with
  | topicNotFound name => exact plain_lastElement (a.increment Metrics.relayTopicNotFound) written _
  | failure reason => exact plain_lastElement (a.increment Metrics.relayStoreError) written _

theorem plain_endTopic (key : TopicKey) (written : Nat) :
    a.plain.endTopic key written = ((a.endTopic key written).1, (a.endTopic key written).2.plain)
      ∧ (a.endTopic key written).2.fetches = a.fetches
      ∧ ∀ n, (a.endTopic key written).1 = .ok n → n = written := by
  rw [endTopic, endTopic]
  split
  · next hnone =>
    subst hnone
    exact a.plain_lastElement 0 (.empty key)
  · exact ⟨rfl, rfl, fun n hn => (Except.ok.inj hn).symm⟩

end Plain

variable {read : LogReader σ}

/-- **A topic, question by question.**  What was written down is a list of rounds, and the messages are
    counted as they came; all else is as it would be without. -/
theorem batches_recorded
    (hlimit : ∀ q s messages s', read q s = (.ok messages, s') → messages.length ≤ q.limit)
    (batchLimit : Nat) (key : TopicKey) (topic : TopicName) (after : Option MessageId)
    (remaining written : Nat) (a : Answer (List Fetch × σ)) :
    batches read batchLimit key topic after remaining written a.plain
        = ((batches (recorded read) batchLimit key topic after remaining written a).1,
          (batches (recorded read) batchLimit key topic after remaining written a).2.plain)
      ∧ ∃ new, (batches (recorded read) batchLimit key topic after remaining written a).2.fetches
          = a.fetches ++ new
        ∧ Rounds batchLimit remaining new
        ∧ ∀ n, (batches (recorded read) batchLimit key topic after remaining written a).1 = .ok n →
          n = written + received new := by
  fun_induction batches (recorded read) batchLimit key topic after remaining written a with
  | case1 after written a =>
    obtain ⟨hplain, hfetches, hcount⟩ := a.plain_endTopic key written
    rw [batches, if_pos rfl]
    refine ⟨hplain, [], by rw [hfetches, List.append_nil], .nil _, fun n hn => ?_⟩
    exact hcount n hn
  | case2 after remaining written a hne batch e log hread =>
    obtain ⟨hasked, hplainRead⟩ := recorded_eq (s := a.log) hread
    obtain ⟨hplain, hfetches, hcount⟩ := Answer.plain_failTopic { a with log := log } key written e
    rw [batches, if_neg hne]
    simp only [plain_log, hplainRead, batch]
    exact ⟨hplain, [⟨⟨topic, after, batch⟩, .error e⟩], hfetches.trans hasked,
      .single hne rfl (Nat.zero_le _), hcount⟩
  | case3 after remaining written a hne batch messages log hread a' hempty =>
    obtain ⟨hasked, hplainRead⟩ := recorded_eq hread
    obtain ⟨hplain, hfetches, hcount⟩ := a'.plain_endTopic key written
    rw [batches, if_neg hne]
    simp only [plain_log, hplainRead, batch, if_pos hempty]
    refine ⟨hplain, [⟨⟨topic, after, batch⟩, .ok messages⟩], hfetches.trans hasked,
      .single hne rfl (hlimit _ _ _ _ hplainRead), fun n hn => ?_⟩
    rw [hcount n hn, received_single, Fetch.count_ok, hempty, Nat.add_zero]
  | case4 after remaining written a hne batch messages log hread a' hsome e a'' helement =>
    obtain ⟨hasked, hplainRead⟩ := recorded_eq hread
    obtain ⟨hplain, hfetches⟩ := plain_element_eq helement
    rw [batches, if_neg hne]
    simp only [plain_log, hplainRead, batch, if_neg hsome]
    rw [show Answer.element { a.plain with log := log.2 } _ = _ from hplain]
    exact ⟨rfl, [⟨⟨topic, after, batch⟩, .ok messages⟩], hfetches.trans hasked,
      .single hne rfl (hlimit _ _ _ _ hplainRead), fun n hn => by cases hn⟩
  | case5 after remaining written a hne batch messages log hread a' hsome a'' helement written' hshort =>
    obtain ⟨hasked, hplainRead⟩ := recorded_eq hread
    obtain ⟨hplain, hfetches⟩ := plain_element_eq helement
    rw [batches, if_neg hne]
    simp only [plain_log, hplainRead, batch, if_neg hsome]
    rw [show Answer.element { a.plain with log := log.2 } _ = _ from hplain]
    refine ⟨if_pos hshort, [⟨⟨topic, after, batch⟩, .ok messages⟩], hfetches.trans hasked,
      .single hne rfl (hlimit _ _ _ _ hplainRead), fun n hn => ?_⟩
    rw [received_single, Fetch.count_ok]
    exact (Except.ok.inj hn).symm
  | case6 after remaining written a hne batch messages log hread a' hsome a'' helement written' hfull ih =>
    obtain ⟨hasked, hplainRead⟩ := recorded_eq hread
    obtain ⟨hplain, hfetches⟩ := plain_element_eq helement
    obtain ⟨hrest, new, hnew, hrounds, hcount⟩ := ih
    have hgives : messages.length ≤ batch := hlimit _ _ _ _ hplainRead
    rw [batches, if_neg hne]
    simp only [plain_log, hplainRead, batch, if_neg hsome]
    rw [show Answer.element { a.plain with log := log.2 } _ = _ from hplain]
    refine ⟨(if_neg hfull).trans hrest, ⟨⟨topic, after, batch⟩, .ok messages⟩ :: new, ?_,
      .cons (Nat.pos_of_ne_zero hne) rfl hgives (fun _ => ?_) hrounds, fun n hn => ?_⟩
    · rw [hnew, hfetches.trans hasked, List.append_assoc]
      rfl
    · exact Nat.le_antisymm hgives (Nat.not_lt.mp hfull)
    · rw [hcount n hn, received_cons, Fetch.count_ok, ← Nat.add_assoc]

/-! ## The budget -/

/-- What was written down while a topic was read, with at most `limit` messages to give in batches of
    at most `batchLimit`. -/
structure StaysInBudget (batchLimit limit : Nat)
    (run : Except ChunkError Nat × Answer (List Fetch × σ)) : Prop where
  /-- There are no more questions than batches. -/
  few : run.2.fetches.length ≤ (limit + batchLimit - 1) / batchLimit
  /-- Each question is for something, and for no more than a batch. -/
  asks : ∀ f ∈ run.2.fetches, 1 ≤ f.query.limit ∧ f.query.limit ≤ batchLimit
  /-- No answer gives more than was left, and it was asked for all that was left or for a batch. -/
  spends : ∀ before f behind, run.2.fetches = before ++ f :: behind →
    received before + f.count ≤ limit ∧ f.query.limit = min (limit - received before) batchLimit
  /-- The messages that came are within the limit. -/
  within : received run.2.fetches ≤ limit
  /-- If the receiver stayed, they are the ones that were counted. -/
  counts : ∀ n, run.1 = .ok n → n = received run.2.fetches

theorem StaysInBudget.of_rounds {batchLimit limit : Nat}
    {run : Except ChunkError Nat × Answer (List Fetch × σ)}
    (h : Rounds batchLimit limit run.2.fetches) (hbatch : 0 < batchLimit)
    (hcount : ∀ n, run.1 = .ok n → n = received run.2.fetches) :
    StaysInBudget batchLimit limit run where
  few := h.length_le hbatch
  asks := h.limit_bounds hbatch
  spends _ _ _ hfetches := (hfetches ▸ h).at_question
  within := h.received_le
  counts := hcount

/-- Writing messages, whatever log there is. -/
abbrev MessageWriter := ∀ σ : Type, LogReader σ → Answer σ → Except ChunkError Nat × Answer σ

/-- Writing messages of a log in batches of at most `batchLimit`, and no more than `limit`. -/
structure Budgeted (write : MessageWriter) (read : LogReader σ) (batchLimit limit : Nat) : Prop where
  /-- Writing the questions down changes nothing else. -/
  unseen : ∀ a : Answer σ, write σ read a
    = ((write _ (recorded read) a.recording).1, (write _ (recorded read) a.recording).2.plain)
  stays : ∀ a : Answer σ, StaysInBudget batchLimit limit (write _ (recorded read) a.recording)
  /-- The elements that are written hold the messages that are counted. -/
  writes : ∀ log, ∃ new n log', Writes (write σ read) log new n log'
    ∧ (new.flatMap (·.messages)).length = n ∧ n ≤ limit

section Budgeted

variable (key : TopicKey)

theorem budgeted_batches
    (hlimit : ∀ q s messages s', read q s = (.ok messages, s') → messages.length ≤ q.limit)
    {batchLimit : Nat} (hbatch : 0 < batchLimit) (topic : TopicName) (after : Option MessageId)
    (limit : Nat) :
    Budgeted (fun _ read => batches read batchLimit key topic after limit 0) read batchLimit limit where
  unseen a := (batches_recorded hlimit batchLimit key topic after limit 0 a.recording).1
  stays a := by
    obtain ⟨-, new, hnew, hrounds, hcount⟩ :=
      batches_recorded hlimit batchLimit key topic after limit 0 a.recording
    replace hnew : Answer.fetches _ = new := hnew
    simp only [Nat.zero_add, ← hnew] at hrounds hcount
    exact .of_rounds hrounds hbatch hcount
  writes log := by
    refine ⟨_, _, _, writes_batches read batchLimit key topic after limit 0 log, ?_, ?_⟩
    · rw [Reading.length_flatMap_elements, Nat.zero_add]
    · rw [Nat.zero_add]
      exact (sized_readBatches hlimit batchLimit topic after limit log).within

/-- A key that is not configured costs nothing. -/
theorem budgeted_failTopic (read : LogReader σ) {batchLimit : Nat} (hbatch : 0 < batchLimit)
    (limit : Nat) (error : LogError) :
    Budgeted (fun _ _ a => a.failTopic key 0 error) read batchLimit limit where
  unseen a := (a.recording.plain_failTopic key 0 error).1
  stays a := by
    obtain ⟨-, hfetches, hcount⟩ := a.recording.plain_failTopic key 0 error
    replace hfetches : Answer.fetches _ = [] := hfetches
    refine .of_rounds ?_ hbatch ?_
    · rw [hfetches]
      exact .nil limit
    · rw [hfetches]
      exact hcount
  writes log :=
    ⟨_, _, _, writes_failTopic log key 0 error, by cases error <;> rfl, Nat.zero_le limit⟩

end Budgeted

/-- **A topic stays within its budget.**  Whatever a log answers, as long as it is no more than it was
    asked for, and whatever it is to answer the next time: there are no more questions than batches in
    the limit, each for one message at least and for a batch at most; never is more spent than is left;
    and the messages that are written are the ones that came, and within the limit. -/
theorem topic_stays_in_budget {σ : Type} {read : LogReader σ}
    (hlimit : ∀ q s messages s', read q s = (.ok messages, s') → messages.length ≤ q.limit)
    (maxPerRead : Nat) (key : TopicKey) :
    (∀ name after limit,
        Budgeted (fun _ read => batches read (max maxPerRead 1) key name after limit 0) read
          (max maxPerRead 1) limit)
      ∧ ∀ resolver r,
        Budgeted (fun _ read => topic read resolver maxPerRead key r) read (max maxPerRead 1)
          r.limit.toNat := by
  have hbatch : 0 < max maxPerRead 1 := by omega
  refine ⟨budgeted_batches key hlimit hbatch, fun resolver r => ?_⟩
  cases hname : resolver.resolve? key with
  | some name =>
    have htopic : (fun σ (read : LogReader σ) => topic read resolver maxPerRead key r)
        = fun σ read => batches read (max maxPerRead 1) key name r.lastMessageId r.limit.toNat 0 := by
      funext σ read a
      rw [topic, hname]
    rw [htopic]
    exact budgeted_batches key hlimit hbatch name r.lastMessageId r.limit.toNat
  | none =>
    have htopic : (fun σ (read : LogReader σ) => topic read resolver maxPerRead key r)
        = fun σ _ a => a.failTopic key 0 (.topicNotFound key) := by
      funext σ read a
      rw [topic, hname]
    rw [htopic]
    exact budgeted_failTopic key read hbatch r.limit.toNat _

end Answer

/-! ### A log that answers as it likes -/

namespace Moody

/-- Gives the next of its answers, cut down to what it is asked for. -/
def read : LogReader (List (Except LogError (List Message)))
  | _, [] => (.ok [], [])
  | q, .ok messages :: rest => (.ok (messages.take q.limit), rest)
  | _, .error e :: rest => (.error e, rest)

/-- Three times the same messages, and then a failure. -/
def answers : List (Except LogError (List Message)) :=
  let messages := [⟨MemoryLog.formatId 1, [1]⟩, ⟨MemoryLog.formatId 2, [2]⟩, ⟨MemoryLog.formatId 3, [3]⟩]
  [.ok messages, .ok messages, .error (.failure "no disk")]

/-- What is written of the topic of "k", at most two messages at a time, and what was asked for it. -/
def run : Except ChunkError Nat × Answer (List Fetch × List (Except LogError (List Message))) :=
  Answer.topic (recorded read) ⟨SortedMap.empty.insert "k" "t"⟩ 2 "k" ⟨none, 5⟩
    (Answer.recording (Answer.unwritten 64 none true answers .empty))

/-- Of five messages, two are asked for, two again, and one, which is not to be had. -/
theorem topic_moody :
    (∀ q s messages s', read q s = (.ok messages, s') → messages.length ≤ q.limit)
      ∧ Answer.StaysInBudget 2 5 run
      ∧ run.2.fetches.map (fun f => (f.query.limit, f.count)) = [(2, 2), (2, 2), (1, 0)]
      ∧ run.1.toOption = some 4 := by
  have hlimit : ∀ q s messages s', read q s = (.ok messages, s') → messages.length ≤ q.limit := by
    rintro q (_ | ⟨messages | e, rest⟩) given s' h <;> cases h
    · exact Nat.zero_le _
    · exact List.length_take_le _ _
  obtain ⟨-, htopic⟩ := Answer.topic_stays_in_budget hlimit 2 "k"
  refine ⟨hlimit, (htopic ⟨SortedMap.empty.insert "k" "t"⟩ ⟨none, 5⟩).stays _, ?_, ?_⟩
  · decide +kernel
  · decide +kernel

end Moody
end TopicRelay.Endpoint
