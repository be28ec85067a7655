/-
  A log in memory is an ordered log for each topic.

  A publication adds one message at the end of its topic and leaves the other topics alone
  (`publish_ok`).  Its id is the number of the publication with leading zeros, and such numerals are
  ordered as their numbers are (`formatId_lt_formatId`); so as long as there are numbers left, the ids
  of each topic ascend, however the log was filled (`Filled.ordered`).

  Others may publish while a log is being read.  Whatever they do, it `Grows`: the topics stay, and
  their messages stay at their fronts.
-/
import TopicRelay.Proofs.Log.Order
import TopicRelay.Proofs.SortedMap

namespace TopicRelay

/-! ## Numerals in order -/

namespace Text.Numeral

theorem digitChar_lt_digitChar : ∀ m < 10, ∀ n < 10, m < n → digitChar m < digitChar n := by decide

/-- The first difference decides, if there is one before the shorter text ends. -/
theorem append_lt_append {a b : List Char} (hlength : a.length = b.length) (h : a < b)
    (c d : List Char) : a ++ c < b ++ d := by
  induction a generalizing b with
  | nil =>
    rw [List.length_nil] at hlength
    rw [List.length_eq_zero_iff.mp hlength.symm] at h
    exact absurd h (List.not_lt_nil [])
  | cons x a ih =>
    cases b with
    | nil => exact absurd h (List.not_lt_nil _)
    | cons y b =>
      rw [List.cons_append, List.cons_append, List.cons_lt_cons_iff]
      rw [List.cons_lt_cons_iff] at h
      rcases h with hlt | ⟨heq, hlt⟩
      · exact Or.inl hlt
      · exact Or.inr ⟨heq, ih (Nat.succ.inj hlength) hlt⟩

/-- Padded numerals of one width are ordered as their numbers are. -/
theorem padded_lt_padded {width m n : Nat} (hmn : m < n)
    (hn : n < Nat.pow 10 width) :
    padded width m < padded width n := by
  induction width generalizing m n with
  | zero =>
    have hone : n < 1 := hn
    omega
  | succ width ih =>
    rw [padded, padded]
    have hlength : (padded width (m / 10)).length = (padded width (n / 10)).length := by
      rw [length_padded, length_padded]
    have htenth : n / 10 < Nat.pow 10 width := by
      refine Nat.div_lt_of_lt_mul ?_
      rw [Nat.mul_comm]
      exact hn
    rcases Nat.lt_or_ge (m / 10) (n / 10) with hlt | hge
    · exact append_lt_append hlength (ih hlt htenth) _ _
    · have heq : m / 10 = n / 10 := Nat.le_antisymm (Nat.div_le_div_right (Nat.le_of_lt hmn)) hge
      rw [heq]
      refine List.append_left_lt ?_
      rw [List.cons_lt_cons_iff]
      exact Or.inl (digitChar_lt_digitChar _ (by omega) _ (by omega) (by omega))

end Text.Numeral

namespace MemoryLog

/-- Ids of larger numbers are larger as texts. -/
theorem formatId_lt_formatId {m n : UInt64} (h : m < n) : formatId m < formatId n := by
  have hn : n.toNat < Nat.pow 10 20 := Nat.lt_of_lt_of_le n.toNat_lt (by decide)
  have hlt := Text.Numeral.padded_lt_padded (show m.toNat < n.toNat from h) hn
  rw [formatId, formatId, String.lt_iff, String.toList_ofList, String.toList_ofList]
  exact hlt

theorem formatId_ne_empty (n : UInt64) : formatId n ≠ "" := by
  intro h
  have hlength := congrArg (fun s => s.toList.length) h
  simp only [formatId, String.toList_ofList, Text.Numeral.length_padded] at hlength
  exact absurd hlength (by decide)

/-! ## Changes -/

/-- Whether something can be published to a topic. -/
def Accepts (log : MemoryLog) (topic : TopicName) : Prop :=
  log.autoCreate = true ∨ log.topics.contains topic = true

/-- A topic with messages is there. -/
theorem contains_of_messages_ne_nil {log : MemoryLog} {topic : TopicName}
    (h : log.messages topic ≠ []) : log.topics.contains topic = true := by
  rw [messages] at h
  cases hget : log.topics.get? topic with
  | none =>
    rw [hget] at h
    exact absurd rfl h
  | some ms => exact SortedMap.contains_iff.mpr ⟨ms, hget⟩

theorem messages_create (log : MemoryLog) (topic t : TopicName) :
    (log.create topic).messages t = log.messages t := by
  rw [create]
  split
  · rfl
  · next hnew =>
    rw [messages, messages]
    by_cases ht : t = topic
    · subst ht
      rw [SortedMap.get?_insert_self]
      rw [SortedMap.contains, Bool.not_eq_true, Option.isSome_eq_false_iff, Option.isNone_iff_eq_none]
        at hnew
      rw [hnew]; rfl
    · rw [SortedMap.get?_insert_ne log.topics ht]

theorem contains_create_self (log : MemoryLog) (topic : TopicName) :
    (log.create topic).topics.contains topic = true := by
  rw [create]
  split
  · next h => exact h
  · rw [SortedMap.contains, SortedMap.get?_insert_self]; rfl

theorem contains_create (log : MemoryLog) (topic : TopicName) {t : TopicName}
    (h : log.topics.contains t = true) : (log.create topic).topics.contains t = true := by
  rw [create]
  split
  · exact h
  · exact SortedMap.contains_insert log.topics topic [] h

theorem next_create (log : MemoryLog) (topic : TopicName) : (log.create topic).next = log.next := by
  rw [create]
  split <;> rfl

theorem autoCreate_create (log : MemoryLog) (topic : TopicName) :
    (log.create topic).autoCreate = log.autoCreate := by
  rw [create]
  split <;> rfl

/-- **A publication.**  One message more at the end of its topic, and nothing else. -/
theorem publish_ok {log log' : MemoryLog} {topic : TopicName} {payload : Bytes} {id : MessageId}
    (h : log.publish topic payload = .ok (id, log')) :
    id = formatId log.next
    ∧ log'.messages topic = log.messages topic ++ [⟨formatId log.next, payload⟩]
    ∧ (∀ t, t ≠ topic → log'.messages t = log.messages t)
    ∧ (∀ t, log.Accepts t → log'.Accepts t)
    ∧ log'.next = log.next + 1 := by
  rw [publish] at h
  generalize hready : (if log.autoCreate = true then log.create topic else log) = ready at h
  have hsame : (∀ t, ready.messages t = log.messages t) ∧ (∀ t, log.Accepts t → ready.Accepts t)
      ∧ ready.next = log.next := by
    rw [← hready]
    split
    · exact ⟨messages_create log topic,
        fun t ht => ht.imp (fun ha => (autoCreate_create log topic).trans ha) (contains_create log topic),
        next_create log topic⟩
    · exact ⟨fun _ => rfl, fun _ ht => ht, rfl⟩
  obtain ⟨hmessages, haccepts, hnext⟩ := hsame
  simp only at h
  split at h
  · cases h
  · next ms hms =>
    rw [Except.ok.injEq, Prod.mk.injEq] at h
    obtain ⟨rfl, rfl⟩ := h
    refine ⟨by rw [hnext], ?_, fun t ht => ?_, fun t ht => ?_, by rw [← hnext]⟩
    · rw [← hmessages topic, messages, SortedMap.get?_insert_self, messages, hms, hnext]
      rfl
    · rw [← hmessages t, messages, SortedMap.get?_insert_ne ready.topics ht]
      rfl
    · exact (haccepts t ht).imp id (SortedMap.contains_insert ready.topics topic _)

theorem contains_publish {log log' : MemoryLog} {topic : TopicName} {payload : Bytes} {id : MessageId}
    (h : log.publish topic payload = .ok (id, log')) {t : TopicName}
    (ht : log.topics.contains t = true) : log'.topics.contains t = true := by
  rw [publish] at h
  generalize hready : (if log.autoCreate = true then log.create topic else log) = ready at h
  have hsame : ready.topics.contains t = true := by
    rw [← hready]
    split
    · exact contains_create log topic ht
    · exact ht
  simp only at h
  split at h
  · cases h
  · rw [Except.ok.injEq, Prod.mk.injEq] at h
    obtain ⟨-, rfl⟩ := h
    exact SortedMap.contains_insert ready.topics topic _ hsame

/-- What a publication leaves of the topics, one by one. -/
theorem publish_topics {log log' : MemoryLog} {topic : TopicName} {payload : Bytes} {id : MessageId}
    (h : log.publish topic payload = .ok (id, log')) :
    log.Accepts topic ∧ log'.autoCreate = log.autoCreate
      ∧ (log'.topics.get? topic).map (List.map (·.payload)) = some (log.payloads topic ++ [payload])
      ∧ ∀ t, t ≠ topic → log'.topics.get? t = log.topics.get? t := by
  rw [publish] at h
  generalize hready : (if log.autoCreate = true then log.create topic else log) = ready at h
  have hsame : (∀ ms, ready.topics.get? topic = some ms → log.Accepts topic)
      ∧ ready.autoCreate = log.autoCreate ∧ (∀ t, ready.messages t = log.messages t)
      ∧ ∀ t, t ≠ topic → ready.topics.get? t = log.topics.get? t := by
    rw [← hready]
    split
    · next hauto =>
      refine ⟨fun _ _ => Or.inl hauto, autoCreate_create log topic, messages_create log topic,
        fun t ht => ?_⟩
      rw [create]
      split
      · rfl
      · exact SortedMap.get?_insert_ne log.topics ht _
    · exact ⟨fun ms hms => Or.inr (SortedMap.contains_iff.mpr ⟨ms, hms⟩), rfl, fun _ => rfl,
        fun _ _ => rfl⟩
  obtain ⟨haccepts, hauto, hmessages, hothers⟩ := hsame
  simp only at h
  split at h
  · cases h
  · next ms hms =>
    rw [Except.ok.injEq, Prod.mk.injEq] at h
    obtain ⟨rfl, rfl⟩ := h
    refine ⟨haccepts ms hms, hauto, ?_, fun t ht => ?_⟩
    · have hself : ready.messages topic = ms := by rw [messages, hms]; rfl
      rw [SortedMap.get?_insert_self, payloads, ← hmessages, hself, Option.map_some, List.map_append]
      rfl
    · rw [SortedMap.get?_insert_ne ready.topics ht, hothers t ht]

/-- A publication that can be made is made. -/
theorem publish_of_accepts {log : MemoryLog} {topic : TopicName} (h : log.Accepts topic)
    (payload : Bytes) : ∃ log', log.publish topic payload = .ok (formatId log.next, log') := by
  have hcontains : ∃ ms, (if log.autoCreate = true then log.create topic else log).topics.get? topic
      = some ms := by
    rw [← SortedMap.contains_iff]
    split
    · exact contains_create_self log topic
    · next hnot => exact h.resolve_left hnot
  obtain ⟨ms, hms⟩ := hcontains
  have hid : (if log.autoCreate = true then log.create topic else log).next = log.next := by
    split
    · exact next_create log topic
    · rfl
  rw [publish]
  simp only [hms, hid]
  exact ⟨_, rfl⟩

/-- Several publications to a topic that takes them. -/
theorem publishAll_of_accepts {log : MemoryLog} {topic : TopicName} (h : log.Accepts topic)
    (last : Option MessageId) (payloads : List Bytes) :
    (publishAll topic last payloads log).2.payloads topic = log.payloads topic ++ payloads
    ∧ ∀ t, t ≠ topic → (publishAll topic last payloads log).2.messages t = log.messages t := by
  induction payloads generalizing log last with
  | nil => exact ⟨(List.append_nil _).symm, fun _ _ => rfl⟩
  | cons payload payloads ih =>
    obtain ⟨log', hpublish⟩ := publish_of_accepts h payload
    obtain ⟨-, hself, hother, haccepts, -⟩ := publish_ok hpublish
    obtain ⟨hrest, hrests⟩ := ih (haccepts topic h) (some (formatId log.next))
    rw [publishAll, hpublish]
    constructor
    · show (publishAll topic _ payloads log').2.payloads topic = _
      rw [hrest, MemoryLog.payloads, MemoryLog.payloads, hself, List.map_append, List.append_assoc]
      rfl
    · intro t ht
      exact (hrests t ht).trans (hother t ht)

/-! ## Logs that were filled -/

/-- A log that was filled by creating topics and publishing, with numbers left over. -/
inductive Filled : MemoryLog → Prop where
  | new (autoCreate : Bool) : Filled (.new autoCreate)
  | create {log : MemoryLog} (h : Filled log) (topic : TopicName) : Filled (log.create topic)
  | publish {log log' : MemoryLog} {topic : TopicName} {payload : Bytes} {id : MessageId}
      (h : Filled log) (hroom : log.next.toNat + 1 < UInt64.size)
      (hpublish : log.publish topic payload = .ok (id, log')) : Filled log'

/-- Publishing several payloads fills a log further, if there are numbers for them. -/
theorem Filled.publishAll {log : MemoryLog} (h : Filled log) (topic : TopicName)
    (last : Option MessageId) {payloads : List Bytes}
    (hroom : log.next.toNat + payloads.length < UInt64.size) :
    Filled (MemoryLog.publishAll topic last payloads log).2 := by
  induction payloads generalizing log last with
  | nil => exact h
  | cons payload payloads ih =>
    rw [List.length_cons] at hroom
    rw [MemoryLog.publishAll]
    split
    · exact h
    · next id log' hpublish =>
      have hnext : log'.next.toNat = log.next.toNat + 1 := by
        rw [(publish_ok hpublish).2.2.2.2, UInt64.toNat_add]
        exact Nat.mod_eq_of_lt (by show log.next.toNat + 1 < UInt64.size; omega)
      exact ih (h.publish (by omega) hpublish) (some id) (by omega)

/-- After a publication a message is the new one, or was there before. -/
theorem mem_of_publish {log log' : MemoryLog} {topic t : TopicName} {payload : Bytes} {id : MessageId}
    (h : log.publish topic payload = .ok (id, log')) {m : Message} (hm : m ∈ log'.messages t) :
    m.id = formatId log.next ∨ m ∈ log.messages t := by
  obtain ⟨-, hself, hother, -, -⟩ := publish_ok h
  by_cases ht : t = topic
  · subst ht
    rw [hself] at hm
    rcases List.mem_append.mp hm with hm | hm
    · exact Or.inr hm
    · rw [List.mem_singleton.mp hm]
      exact Or.inl rfl
  · rw [hother t ht] at hm
    exact Or.inr hm

/-- Every id is the numeral of a publication. -/
theorem Filled.formatted {log : MemoryLog} (h : Filled log) {topic : TopicName} {m : Message}
    (hm : m ∈ log.messages topic) : ∃ n, m.id = formatId n := by
  induction h with
  | new autoCreate => cases hm
  | create _ t ih =>
    rw [messages_create] at hm
    exact ih hm
  | publish _ hroom hpublish ih =>
    rcases mem_of_publish hpublish hm with hid | hm
    · exact ⟨_, hid⟩
    · exact ih hm

/-- A log whose ids ascend in each topic, none of them empty, and all below the next one. -/
structure Ordered (log : MemoryLog) : Prop where
  ascending : ∀ topic, Log.Ascending (log.messages topic)
  below : ∀ topic, ∀ m ∈ log.messages topic, m.id < formatId log.next
  nonempty : ∀ topic, ∀ m ∈ log.messages topic, m.id ≠ ""

/-- **However a log was filled, its ids ascend.** -/
theorem Filled.ordered {log : MemoryLog} (h : Filled log) : log.Ordered := by
  induction h with
  | new autoCreate =>
    refine ⟨fun topic => List.Pairwise.nil, fun topic m hm => ?_, fun topic m hm => ?_⟩ <;> cases hm
  | create _ topic ih =>
    refine ⟨fun t => ?_, fun t m hm => ?_, fun t m hm => ?_⟩
    · rw [messages_create]
      exact ih.ascending t
    · rw [messages_create] at hm
      rw [next_create]
      exact ih.below t m hm
    · rw [messages_create] at hm
      exact ih.nonempty t m hm
  | @publish log log' topic payload id _ hroom hpublish ih =>
    obtain ⟨-, hself, hother, -, hnext⟩ := publish_ok hpublish
    have hlt : formatId log.next < formatId log'.next := by
      refine formatId_lt_formatId ?_
      rw [hnext, UInt64.lt_iff_toNat_lt, UInt64.toNat_add]
      show log.next.toNat < (log.next.toNat + 1) % UInt64.size
      rw [Nat.mod_eq_of_lt hroom]
      exact Nat.lt_succ_self _
    refine ⟨fun t => ?_, fun t m hm => ?_, fun t m hm => ?_⟩
    · by_cases ht : t = topic
      · subst ht
        rw [hself]
        refine List.pairwise_append.mpr ⟨ih.ascending t, List.pairwise_singleton _ _, ?_⟩
        intro m hm n hn
        rw [List.mem_singleton.mp hn]
        exact ih.below t m hm
      · rw [hother t ht]
        exact ih.ascending t
    · rcases mem_of_publish hpublish hm with hid | hm
      · rw [hid]
        exact hlt
      · exact String.lt_trans (ih.below t m hm) hlt
    · rcases mem_of_publish hpublish hm with hid | hm
      · rw [hid]
        exact formatId_ne_empty log.next
      · exact ih.nonempty t m hm

/-! ## Logs that grow -/

/-- A log that became another one by creating topics and publishing, with numbers left over. -/
inductive Grows (log : MemoryLog) : MemoryLog → Prop where
  | refl : Grows log log
  | create {log' : MemoryLog} (h : Grows log log') (topic : TopicName) : Grows log (log'.create topic)
  | publish {log' log'' : MemoryLog} {topic : TopicName} {payload : Bytes} {id : MessageId}
      (h : Grows log log') (hroom : log'.next.toNat + 1 < UInt64.size)
      (hpublish : log'.publish topic payload = .ok (id, log'')) : Grows log log''

namespace Grows

variable {log log' log'' : MemoryLog}

theorem trans (h : Grows log log') (h' : Grows log' log'') : Grows log log'' := by
  induction h' with
  | refl => exact h
  | create _ topic ih => exact ih.create topic
  | publish _ hroom hpublish ih => exact ih.publish hroom hpublish

theorem filled (h : Grows log log') (hfilled : log.Filled) : log'.Filled := by
  induction h with
  | refl => exact hfilled
  | create _ topic ih => exact ih.create topic
  | publish _ hroom hpublish ih => exact ih.publish hroom hpublish

/-- A topic gets more messages at its end, and loses none. -/
theorem messages (h : Grows log log') (topic : TopicName) :
    log.messages topic <+: log'.messages topic := by
  induction h with
  | refl => exact List.prefix_refl _
  | create _ t ih =>
    rw [messages_create]
    exact ih
  | @publish log' log'' t payload id _ _ hpublish ih =>
    obtain ⟨-, hself, hother, -, -⟩ := publish_ok hpublish
    by_cases ht : topic = t
    · rw [ht] at ih ⊢
      rw [hself]
      exact ih.trans (List.prefix_append _ _)
    · rw [hother topic ht]
      exact ih

theorem contains (h : Grows log log') {topic : TopicName} (ht : log.topics.contains topic = true) :
    log'.topics.contains topic = true := by
  induction h with
  | refl => exact ht
  | create _ t ih => exact contains_create _ t ih
  | publish _ _ hpublish ih => exact contains_publish hpublish ih

end Grows

/-- A log with three messages of one byte in a topic. -/
def threeMessages (topic : TopicName) : MemoryLog :=
  (MemoryLog.publishAll topic none [[1], [2], [3]] ((MemoryLog.new false).create topic)).2

theorem filled_threeMessages (topic : TopicName) : (threeMessages topic).Filled := by
  refine ((Filled.new false).create topic).publishAll topic none ?_
  rw [next_create]
  decide

end MemoryLog
end TopicRelay
