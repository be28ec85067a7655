/-
  Which offsets are read back.

  A record is three texts and a number.  The head of a text has room for 32 bits of its length, so that of
  a longer text only a beginning is read, and what is left of it is taken for the fields that follow:

      "t"             A1 74                the text
      2³² letters     A0 61 61 61 ..       an empty text, and then the number 97

  specification   a record is read back just if each of its texts is shorter than 2³² bytes
                  (`decode?_encode_iff`)
  the crux        no field is read again, so that what has been read of a text is all that there is of it;
                  and a beginning of a text is not that text (`fits_of_readFields`)
-/
import TopicRelay.Proofs.Offset.Record

namespace TopicRelay.Offset

open MessagePack (Head)

/-! ## Fields that have been read -/

/-- The text of a field, if it has been read. -/
def Draft.text? (d : Draft) : FieldName → Option String
  | .topic => d.topic
  | .subscriber => d.subscriber
  | .lastId => d.lastId
  | .committed => none

theorem Draft.text?_set_self {d d' : Draft} {name : FieldName} {bs : Bytes} (hname : name ≠ .committed)
    (h : d.set (.text bs) name = some d') : d'.text? name = Text.Utf8.decode? bs := by
  cases name with
  | committed => exact absurd rfl hname
  | _ =>
    obtain ⟨s, hs, rfl⟩ := Option.map_eq_some_iff.mp h
    exact hs.symm

/-- A value that is read into one field leaves the others. -/
theorem Draft.text?_set_ne {d d' : Draft} {name other : FieldName} {head : Head}
    (hother : other ≠ name) (h : d.set head name = some d') : d'.text? other = d.text? other := by
  cases name with
  | _ =>
    obtain ⟨value, -, rfl⟩ := Option.map_eq_some_iff.mp h
    cases other <;> grind [Draft.text?]

/-- What has been read of a field stays. -/
theorem Draft.text?_readFields {d d' : Draft} {names : List FieldName} {other : FieldName}
    {bs rest : Bytes} (hother : other ∉ names) (h : readFields d names bs = some (d', rest)) :
    d'.text? other = d.text? other := by
  induction names generalizing d bs with
  | nil =>
    cases h
    rfl
  | cons name names ih =>
    obtain ⟨⟨next, left⟩, hfield, hrest⟩ := Option.bind_eq_some_iff.mp h
    obtain ⟨⟨head, behind⟩, -, hvalue⟩ := Option.bind_eq_some_iff.mp hfield
    obtain ⟨_, hset, heq⟩ := Option.bind_eq_some_iff.mp hvalue
    cases heq
    rw [List.mem_cons, not_or] at hother
    rw [ih hother.2 hrest, Draft.text?_set_ne hother.1 hset]

theorem Draft.text?_of_record? {d : Draft} {o : SubscriberOffset} (h : d.record? = some o) :
    d.text? .topic = some o.topic ∧ d.text? .subscriber = some o.subscriber
      ∧ d.text? .lastId = some o.lastId := by
  obtain ⟨topic, htopic, h⟩ := Option.bind_eq_some_iff.mp h
  obtain ⟨subscriber, hsubscriber, h⟩ := Option.bind_eq_some_iff.mp h
  obtain ⟨lastId, hlastId, h⟩ := Option.bind_eq_some_iff.mp h
  obtain ⟨committed, -, heq⟩ := Option.bind_eq_some_iff.mp h
  cases heq
  exact ⟨htopic, hsubscriber, hlastId⟩

/-! ## Records -/

/-- **A text that is read back fits**, and then the reader stands behind it. -/
theorem fits_of_readFields {d d' : Draft} {name : FieldName} {names : List FieldName} {s : String}
    {behind rest : Bytes} (hname : name ≠ .committed) (honce : name ∉ names)
    (h : readFields d (name :: names) (MessagePack.text (Text.Utf8.encode s) ++ behind)
      = some (d', rest)) (hsame : d'.text? name = some s) :
    Fits s ∧ ∃ next, readFields next names behind = some (d', rest) := by
  obtain ⟨⟨next, left⟩, hfield, hrest⟩ := Option.bind_eq_some_iff.mp h
  rw [readField, MessagePack.head?_text_eq, Option.bind_eq_bind, Option.bind_some] at hfield
  obtain ⟨_, hset, heq⟩ := Option.bind_eq_some_iff.mp hfield
  cases heq
  rw [Draft.text?_readFields honce hrest, Draft.text?_set_self hname hset] at hsame
  have hwhole := Text.Utf8.eq_encode_of_beginning (List.take_prefix _ _) hsame
  have hlength := congrArg List.length hwhole
  rw [List.length_take_of_le (Nat.mod_le _ _)] at hlength
  refine ⟨?_, next, ?_⟩
  · rw [Fits, Text.Utf8.length, ← hlength]
    exact Nat.mod_lt _ (by decide)
  · replace hrest : readFields next names (_ ++ behind) = some (d', rest) := hrest
    rwa [hlength, List.drop_length, List.nil_append] at hrest

/-- A record from which the names and the id are read has texts that fit. -/
theorem writable_of_decode? {o o' : SubscriberOffset} (h : decode? (encode o) = some o')
    (htopic : o'.topic = o.topic) (hsubscriber : o'.subscriber = o.subscriber)
    (hid : o'.lastId = o.lastId) : Writable o := by
  rw [encode_eq, decode?_array] at h
  obtain ⟨⟨d, rest⟩, hread, hrecord⟩ := Option.bind_eq_some_iff.mp h
  obtain ⟨hreadTopic, hreadSubscriber, hreadId⟩ := Draft.text?_of_record? hrecord
  rw [htopic] at hreadTopic
  rw [hsubscriber] at hreadSubscriber
  rw [hid] at hreadId
  obtain ⟨hfitsTopic, _, hread⟩ := fits_of_readFields (by decide) (by decide) hread hreadTopic
  obtain ⟨hfitsSubscriber, _, hread⟩ :=
    fits_of_readFields (by decide) (by decide) hread hreadSubscriber
  obtain ⟨hfitsId, -⟩ := fits_of_readFields (by decide) (by decide) hread hreadId
  exact ⟨hfitsTopic, hfitsSubscriber, hfitsId⟩

/-- **A record is read back just if it can be written.** -/
theorem decode?_encode_iff {o : SubscriberOffset} : decode? (encode o) = some o ↔ Writable o := by
  constructor
  · intro h
    exact writable_of_decode? h rfl rfl rfl
  · intro h
    have hread := decode?_encode h []
    rwa [List.append_nil] at hread

/-! ### A topic of many letters -/

namespace Overlong

/-- A text of so many letters. -/
def letters (n : Nat) : String := String.ofList (List.replicate n 'a')

theorem encode_letters (n : Nat) : Text.Utf8.encode (letters n) = List.replicate n 0x61 := by
  rw [Text.Utf8.encode, letters, String.toList_ofList]
  induction n with
  | zero => rfl
  | succ n ih =>
    rw [List.replicate_succ, List.flatMap_cons, ih]
    rfl

/-- An offset whose topic has so many letters. -/
def offset (n : Nat) : SubscriberOffset := ⟨letters n, "s", "1", 5⟩

/-- From 2³² letters on, what is read as the subscriber is a letter, which is no text. -/
theorem decode?_encode_offset {n : Nat} (h : 2 ^ 32 ≤ n) : decode? (encode (offset n)) = none := by
  have hletter : ∀ d bs, readFields d [.subscriber, .lastId, .committed] (0x61 :: bs) = none :=
    fun _ _ => rfl
  have hroom : n % 2 ^ 32 < n := Nat.lt_of_lt_of_le (Nat.mod_lt n (by decide)) h
  obtain ⟨left, hleft⟩ := Nat.exists_eq_succ_of_ne_zero (Nat.sub_ne_zero_of_lt hroom)
  rw [encode_eq, decode?_array, fieldBytes, fieldNames, readFields, readField,
    MessagePack.head?_text_eq]
  simp only [offset, encode_letters, List.length_replicate, List.drop_replicate, hleft,
    List.replicate_succ, List.cons_append, Option.bind_eq_bind, Option.bind_some]
  -- whatever has been read of the topic
  cases Draft.set .blank _ .topic with
  | none => rfl
  | some d => simp only [Option.bind_some, Option.pure_def, hletter, Option.bind_none]

end Overlong
end TopicRelay.Offset
