/-
  What an endpoint answers, without saying how.

  specification   for each requested key, in key order: what its topic has after the requested id, up
                  to the limit, in batches; or one element that says why there is nothing

  The endpoint itself reads batch by batch and goes on from the last id it has seen; that this comes
  to the same is shown where it is about writing (`Answer.stream_spec`).
-/
import TopicRelay.Endpoint.Resolver
import TopicRelay.Proofs.SortedMap
import TopicRelay.Proofs.Wire.Answers

namespace TopicRelay.Endpoint

open Wire (Answers ConsumeRequest ConsumeRequests TopicMessages messagesOf messagesOf_append
  messagesOf_eq_flatMap messagesOf_eq_nil)

/-! ## Batches -/

/-- Messages in batches of `n`, the last one with what is left. -/
def inBatches (n : Nat) (ms : List Message) : List (List Message) :=
  (List.range ((ms.length + n - 1) / n)).map fun i => (ms.drop (i * n)).take n

theorem inBatches_nil {n : Nat} (hn : 0 < n) : inBatches n [] = [] := by
  have h : (([] : List Message).length + n - 1) / n = 0 := by
    rw [List.length_nil]
    exact Nat.div_eq_of_lt (by omega)
  rw [inBatches, h]
  rfl

/-- The first batch, and those of what comes after it. -/
theorem inBatches_cons {n : Nat} (hn : 0 < n) {ms : List Message} (h : ms ≠ []) :
    inBatches n ms = ms.take n :: inBatches n (ms.drop n) := by
  have hlen := List.length_pos_iff.mpr h
  have hcount : (ms.length + n - 1) / n = ((ms.drop n).length + n - 1) / n + 1 := by
    rw [List.length_drop, ← Nat.add_div_right _ hn]
    -- fewer than `n` messages make one batch, and leave nothing for another
    by_cases hle : n ≤ ms.length
    · congr 1
      omega
    · rw [Nat.div_eq_of_lt_le (k := 1) (by omega) (by omega),
        Nat.div_eq_of_lt_le (k := 1) (by omega) (by omega)]
  rw [inBatches, hcount, List.range_succ_eq_map, List.map_cons, Nat.zero_mul, List.drop_zero,
    List.map_map, inBatches]
  congr 1
  refine List.map_congr_left fun i _ => ?_
  show (ms.drop ((i + 1) * n)).take n = ((ms.drop n).drop (i * n)).take n
  rw [List.drop_drop, Nat.add_mul, Nat.one_mul, Nat.add_comm]

/-- What fits into one batch is one. -/
theorem inBatches_of_le {n : Nat} (hn : 0 < n) {ms : List Message} (h : ms ≠ []) (hle : ms.length ≤ n) :
    inBatches n ms = [ms] := by
  rw [inBatches_cons hn h, List.take_of_length_le hle, List.drop_of_length_le hle, inBatches_nil hn]

/-- Batches lose nothing. -/
theorem flatten_inBatches {n : Nat} (hn : 0 < n) (ms : List Message) :
    (inBatches n ms).flatten = ms := by
  by_cases h : ms = []
  · rw [h, inBatches_nil hn, List.flatten_nil]
  · have hlt : (ms.drop n).length < ms.length := by
      have := List.length_pos_iff.mpr h
      rw [List.length_drop]
      omega
    rw [inBatches_cons hn h, List.flatten_cons, flatten_inBatches hn (ms.drop n),
      List.take_append_drop]
termination_by ms.length

/-! ## Elements -/

/-- The elements of a key that has some messages to give. -/
def elementsWith (maxPerRead : Nat) (key : TopicKey) (ms : List Message) : List TopicMessages :=
  if ms.isEmpty then [.empty key] else (inBatches (max maxPerRead 1) ms).map (.ofMessages key)

/-- The elements of a key. -/
def elementsOf (resolver : Resolver) (log : MemoryLog) (maxPerRead : Nat) (key : TopicKey)
    (r : ConsumeRequest) : List TopicMessages :=
  match resolver.resolve? key with
  | none => [.notFound key]
  | some topic => match log.fetch ⟨topic, r.lastMessageId, r.limit.toNat⟩ with
    | .error _ => [.notFound key]
    | .ok ms => elementsWith maxPerRead key ms

/-- The elements of an answer. -/
def answerOf (resolver : Resolver) (log : MemoryLog) (maxPerRead : Nat) (requests : ConsumeRequests) :
    List TopicMessages :=
  requests.entries.flatMap fun e => elementsOf resolver log maxPerRead e.1 e.2

theorem flatMap_elementsWith (maxPerRead : Nat) (key : TopicKey) (ms : List Message) :
    (elementsWith maxPerRead key ms).flatMap (·.messages) = ms := by
  have hpos : 0 < max maxPerRead 1 := Nat.lt_of_lt_of_le Nat.one_pos (Nat.le_max_right _ _)
  rw [elementsWith]
  split
  · next hnil =>
    rw [List.isEmpty_iff.mp hnil]; rfl
  · rw [List.flatMap_map]
    show (inBatches (max maxPerRead 1) ms).flatMap id = ms
    rw [List.flatMap_id, flatten_inBatches hpos]

/-- Each element names its key; it has an error or comes with what the batches say. -/
theorem of_mem_elementsWith {maxPerRead : Nat} {key : TopicKey} {ms : List Message}
    {e : TopicMessages} (h : e ∈ elementsWith maxPerRead key ms) :
    e.topic = key ∧ e.error = none := by
  rw [elementsWith] at h
  split at h
  · rw [List.mem_singleton.mp h]
    exact ⟨rfl, rfl⟩
  · obtain ⟨batch, -, rfl⟩ := List.mem_map.mp h
    exact ⟨rfl, rfl⟩

theorem of_mem_elementsOf {resolver : Resolver} {log : MemoryLog} {maxPerRead : Nat}
    {key : TopicKey} {r : ConsumeRequest} {e : TopicMessages}
    (h : e ∈ elementsOf resolver log maxPerRead key r) :
    e.topic = key ∧ (e.error.isSome = true → e.messages = []) := by
  rw [elementsOf] at h
  split at h
  · rw [List.mem_singleton.mp h]
    exact ⟨rfl, fun _ => rfl⟩
  · split at h
    · rw [List.mem_singleton.mp h]
      exact ⟨rfl, fun _ => rfl⟩
    · obtain ⟨htopic, herror⟩ := of_mem_elementsWith h
      refine ⟨htopic, fun hsome => ?_⟩
      rw [herror] at hsome
      cases hsome

/-- What the elements of a key hold is what its topic has. -/
theorem flatMap_elementsOf {resolver : Resolver} {log : MemoryLog} {maxPerRead : Nat}
    {key : TopicKey} {r : ConsumeRequest} {topic : TopicName}
    (htopic : resolver.resolve? key = some topic) :
    (elementsOf resolver log maxPerRead key r).flatMap (·.messages)
      = (MemoryLog.following r.lastMessageId (log.messages topic)).take r.limit.toNat := by
  rw [elementsOf, htopic]
  simp only [MemoryLog.fetch, MemoryLog.messages]
  cases hget : log.topics.get? topic with
  | none =>
    have hnone : MemoryLog.following r.lastMessageId [] = [] := by
      cases r.lastMessageId <;> rfl
    simp only [Option.getD_none, hnone, List.take_nil]
    rfl
  | some ms =>
    simp only [Option.getD_some]
    exact flatMap_elementsWith maxPerRead key _

/-- The first element of a key that has messages begins with the first of them. -/
theorem elementsWith_cons (maxPerRead : Nat) (key : TopicKey) (m : Message) (ms : List Message) :
    ∃ more rest, elementsWith maxPerRead key (m :: ms) = .ofMessages key (m :: more) :: rest := by
  have hpos : 0 < max maxPerRead 1 := Nat.lt_of_lt_of_le Nat.one_pos (Nat.le_max_right _ _)
  obtain ⟨k, hk⟩ := Nat.exists_eq_succ_of_ne_zero (Nat.pos_iff_ne_zero.mp hpos)
  have hne : m :: ms ≠ [] := List.cons_ne_nil _ _
  refine ⟨ms.take k, (inBatches (max maxPerRead 1) ((m :: ms).drop (max maxPerRead 1))).map
    (.ofMessages key), ?_⟩
  rw [elementsWith, List.isEmpty_cons, if_neg Bool.false_ne_true, inBatches_cons hpos hne,
    List.map_cons]
  congr 2
  rw [hk, List.take_succ_cons]

/-- What fits into one element is one. -/
theorem elementsWith_of_le {maxPerRead : Nat} (key : TopicKey) {ms : List Message}
    (h : ms.length ≤ maxPerRead) : elementsWith maxPerRead key ms = [.ofMessages key ms] := by
  have hpos : 0 < max maxPerRead 1 := Nat.lt_of_lt_of_le Nat.one_pos (Nat.le_max_right _ _)
  rw [elementsWith]
  split
  · next hnil =>
    rw [List.isEmpty_iff.mp hnil]
    rfl
  · next hne =>
    rw [List.isEmpty_iff] at hne
    rw [inBatches_of_le hpos hne (Nat.le_trans h (Nat.le_max_left _ _))]
    rfl

theorem elementsWith_ne_nil (maxPerRead : Nat) (key : TopicKey) (ms : List Message) :
    elementsWith maxPerRead key ms ≠ [] := by
  cases ms with
  | nil => exact List.cons_ne_nil _ _
  | cons m ms =>
    obtain ⟨more, rest, h⟩ := elementsWith_cons maxPerRead key m ms
    rw [h]
    exact List.cons_ne_nil _ _

/-- The elements of a key whose topic exists. -/
theorem elementsOf_of_contains {resolver : Resolver} {log : MemoryLog} (maxPerRead : Nat)
    {key : TopicKey} (r : ConsumeRequest) {topic : TopicName}
    (htopic : resolver.resolve? key = some topic) (hexists : log.topics.contains topic = true) :
    elementsOf resolver log maxPerRead key r = elementsWith maxPerRead key
      ((MemoryLog.following r.lastMessageId (log.messages topic)).take r.limit.toNat) := by
  obtain ⟨ms, hms⟩ := SortedMap.contains_iff.mp hexists
  rw [elementsOf, htopic, MemoryLog.messages]
  simp only [MemoryLog.fetch, hms, Option.getD_some]

/-- The messages of a key are those of its own entry. -/
theorem messagesOf_flatMap {f : TopicKey × ConsumeRequest → List TopicMessages}
    (hf : ∀ e, ∀ x ∈ f e, x.topic = e.1) {l : List (TopicKey × ConsumeRequest)}
    (hl : (l.map Prod.fst).Pairwise (· < ·)) {key : TopicKey} {r : ConsumeRequest}
    (hmem : (key, r) ∈ l) : messagesOf key (l.flatMap f) = (f (key, r)).flatMap (·.messages) := by
  induction l with
  | nil => cases hmem
  | cons e l ih =>
    rw [List.map_cons, List.pairwise_cons] at hl
    obtain ⟨hhead, htail⟩ := hl
    rw [List.flatMap_cons, messagesOf_append]
    -- keys ascend, so an entry shares its key with no other
    rcases List.mem_cons.mp hmem with rfl | hmem
    · have hrest : messagesOf key (l.flatMap f) = [] := by
        refine messagesOf_eq_nil fun x hx => ?_
        obtain ⟨d, hd, hxd⟩ := List.mem_flatMap.mp hx
        rw [hf d x hxd]
        rintro hc
        have hlt := hhead d.1 (List.mem_map_of_mem hd)
        rw [hc] at hlt
        exact String.lt_irrefl _ hlt
      rw [hrest, List.append_nil, messagesOf_eq_flatMap (hf (key, r))]
    · have hne : e.1 ≠ key := by
        rintro hc
        have hlt := hhead key (List.mem_map.mpr ⟨(key, r), hmem, rfl⟩)
        rw [hc] at hlt
        exact String.lt_irrefl _ hlt
      have hother : messagesOf key (f e) = [] :=
        messagesOf_eq_nil fun x hx => by rw [hf e x hx]; exact hne
      rw [hother, List.nil_append, ih htail hmem]

/-- **What an endpoint answers for a key.**  The next messages of its topic, up to the limit. -/
theorem messagesOf_answerOf (resolver : Resolver) (log : MemoryLog) (maxPerRead : Nat)
    {requests : ConsumeRequests} {key : TopicKey} {r : ConsumeRequest} {topic : TopicName}
    (hr : requests.get? key = some r) (htopic : resolver.resolve? key = some topic) :
    messagesOf key (answerOf resolver log maxPerRead requests)
      = (MemoryLog.following r.lastMessageId (log.messages topic)).take r.limit.toNat := by
  rw [answerOf, messagesOf_flatMap (fun e x hx => (of_mem_elementsOf hx).1) requests.ascending
    (SortedMap.get?_eq_some_iff.mp hr)]
  exact flatMap_elementsOf htopic

/-- What an endpoint answers is an answer. -/
theorem answers_answerOf (resolver : Resolver) (log : MemoryLog) (maxPerRead : Nat)
    (requests : ConsumeRequests) :
    Answers requests resolver.resolve? log.messages (answerOf resolver log maxPerRead requests) := by
  refine ⟨fun e he => ?_, fun hr htopic => ?_⟩
  · obtain ⟨d, -, hd⟩ := List.mem_flatMap.mp he
    exact (of_mem_elementsOf hd).2
  · rw [messagesOf_answerOf resolver log maxPerRead hr htopic]
    exact List.take_prefix _ _

end TopicRelay.Endpoint
