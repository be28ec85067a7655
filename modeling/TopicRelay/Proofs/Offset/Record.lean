/-
  A stored offset is read back as it was written.

  The writer takes the shortest form of everything, and the first byte of each form says how the value
  goes on.  Of a text of 2³² bytes or more only a beginning is read (`head?_text_eq`); all else is.  So there is one lemma for a number of a fixed width, one for a text and one for a number,
  each with a case for each width, and a record is three texts and a number behind the head of an array.

  What follows does not matter: nothing of a value is looked for behind its last byte.
-/
import Mathlib.Algebra.Group.Nat.Defs
import TopicRelay.Offset.Record
import TopicRelay.Proofs.Text.Utf8

namespace TopicRelay

/-! ## Numbers of a fixed width -/

namespace BigEndian

theorem decode_append (bs : Bytes) (b : UInt8) : decode (bs ++ [b]) = decode bs * 256 + b.toNat :=
  List.foldl_append

theorem decode_encode {count n : Nat} (h : n < 256 ^ count) : decode (encode count n) = n := by
  induction count generalizing n with
  | zero => exact (Nat.lt_one_iff.mp h).symm
  | succ count ih =>
    have hhigh : n / 256 < 256 ^ count := Nat.div_lt_of_lt_mul (by rwa [Nat.mul_comm, ← Nat.pow_succ])
    rw [encode, decode_append, ih hhigh, Text.Utf8.toNat_byte (Nat.mod_lt n (by decide)),
      Nat.div_add_mod']

theorem split?_append {count : Nat} {bs : Bytes} (h : bs.length = count) (rest : Bytes) :
    split? count (bs ++ rest) = some (bs, rest) := by
  subst h
  rw [split?, List.take_left, List.drop_left, if_pos rfl]

/-- **Reading inverts writing**, if there are enough bytes for the number. -/
theorem decode?_encode {count n : Nat} (h : n < 256 ^ count) (rest : Bytes) :
    decode? count (encode count n ++ rest) = some (n, rest) := by
  rw [decode?, split?_append (length_encode count n), Option.map_some, decode_encode h]

end BigEndian

/-! ## Values -/

namespace MessagePack

/-- A text whose length is written in a word of its own. -/
theorem headFrom_counted {b : UInt8} {width : Nat} (hform : form b = some (.counted width 0 .text))
    {bs : Bytes} (h : bs.length < 256 ^ width) (rest : Bytes) :
    headFrom b (BigEndian.encode width bs.length ++ (bs ++ rest)) = some (.text bs, rest) := by
  simp only [headFrom, hform, Option.bind_some, Form.read, BigEndian.decode?_encode h,
    BigEndian.split?_append (Nat.add_zero _).symm, Option.map_some]

/-- A number that is written in a word of its own. -/
theorem headFrom_word {b : UInt8} {width : Nat} (hform : form b = some (.word width .unsigned))
    {n : Nat} (h : n < 256 ^ width) (rest : Bytes) :
    headFrom b (BigEndian.encode width n ++ rest) = some (.unsigned n, rest) := by
  simp only [headFrom, hform, Option.bind_some, Form.read, BigEndian.decode?_encode h,
    Option.map_some]

/-- A text behind the head of its length. -/
theorem head?_textHead {n : Nat} (h : n < 2 ^ 32) {bs : Bytes} (hlength : bs.length = n) (rest : Bytes) :
    head? (textHead n ++ (bs ++ rest)) = some (.text bs, rest) := by
  subst hlength
  rw [textHead]
  split
  · next hshort =>
    -- a short length is a part of the first byte
    have hbyte := Text.Utf8.toNat_byte (show 0xA0 + bs.length < 256 by omega)
    have hform : form (UInt8.ofNat (0xA0 + bs.length)) = some (.sized bs.length .text) := by
      simp only [form, hbyte]
      rw [if_neg (by omega), if_neg (by omega), if_neg (by omega), if_pos (by omega),
        Nat.add_sub_cancel_left]
    show headFrom (UInt8.ofNat (0xA0 + bs.length)) (bs ++ rest) = _
    rw [headFrom, hform, Option.bind_some, Form.read, BigEndian.split?_append rfl, Option.map_some]
  · split
    · next h8 => exact headFrom_counted (b := 0xD9) rfl h8 rest
    · split
      · next h16 => exact headFrom_counted (b := 0xDA) rfl h16 rest
      · exact headFrom_counted (b := 0xDB) rfl h rest

/-- **Of a text is read what its head has room for**, and the others of its bytes are left. -/
theorem head?_text_eq (bs rest : Bytes) : head? (text bs ++ rest)
      = some (.text (bs.take (bs.length % 2 ^ 32)), bs.drop (bs.length % 2 ^ 32) ++ rest) := by
  have hroom : bs.length % 2 ^ 32 < 2 ^ 32 := Nat.mod_lt _ (by decide)
  have htaken : (bs.take (bs.length % 2 ^ 32)).length = bs.length % 2 ^ 32 :=
    List.length_take_of_le (Nat.mod_le _ _)
  have hread := head?_textHead hroom htaken (bs.drop (bs.length % 2 ^ 32) ++ rest)
  rwa [← List.append_assoc (List.take _ bs), List.take_append_drop, ← List.append_assoc] at hread

/-- **A text is read back**, if its length fits into the widest word. -/
theorem head?_text {bs : Bytes} (h : bs.length < 2 ^ 32) (rest : Bytes) :
    head? (text bs ++ rest) = some (.text bs, rest) := by
  rw [head?_text_eq, Nat.mod_eq_of_lt h, List.take_length, List.drop_length, List.nil_append]

/-- **A number is read back**, if it has at most 64 bits. -/
theorem head?_natural {n : Nat} (h : n < 2 ^ 64) (rest : Bytes) :
    head? (natural n ++ rest) = some (.unsigned n, rest) := by
  rw [natural]
  split
  · next hsmall =>
    have hbyte := Text.Utf8.toNat_byte (show n < 256 by omega)
    have hform : form (UInt8.ofNat n) = some (.complete (.unsigned n)) := by
      simp only [form, hbyte]
      rw [if_pos hsmall]
    show headFrom (UInt8.ofNat n) rest = _
    rw [headFrom, hform, Option.bind_some, Form.read]
  · split
    · next h8 => exact headFrom_word (b := 0xCC) rfl h8 rest
    · split
      · next h16 => exact headFrom_word (b := 0xCD) rfl h16 rest
      · split
        · next h32 => exact headFrom_word (b := 0xCE) rfl h32 rest
        · exact headFrom_word (b := 0xCF) rfl h rest

end MessagePack

/-! ## Records -/

namespace Offset

/-- A text that can be written in a record: its length fits into the widest word. -/
def Fits (s : String) : Prop := Text.Utf8.length s < 2 ^ 32

/-- An offset that can be written: its texts can be. -/
structure Writable (o : SubscriberOffset) : Prop where
  topic : Fits o.topic
  subscriber : Fits o.subscriber
  lastId : Fits o.lastId

theorem readField_text {d d' : Draft} {name : FieldName} {s : String} (hs : Fits s)
    (hset : d.set (.text (Text.Utf8.encode s)) name = some d') (rest : Bytes) :
    readField d name (MessagePack.text (Text.Utf8.encode s) ++ rest) = some (d', rest) := by
  rw [readField, MessagePack.head?_text hs]
  simp only [Option.bind_eq_bind, Option.bind_some, hset, Option.pure_def]

theorem readField_committed (d : Draft) (n : UInt64) (rest : Bytes) :
    readField d .committed (MessagePack.natural n.toNat ++ rest)
      = some ({ d with committed := some n }, rest) := by
  rw [readField, MessagePack.head?_natural n.toNat_lt]
  simp only [Option.bind_eq_bind, Option.bind_some, Draft.set, numberOf?, UInt64.ofNat_toNat,
    Option.map_some, Option.pure_def]

/-- The bytes behind the head of a record. -/
def fieldBytes (o : SubscriberOffset) : Bytes :=
  MessagePack.text (Text.Utf8.encode o.topic) ++ (MessagePack.text (Text.Utf8.encode o.subscriber)
    ++ (MessagePack.text (Text.Utf8.encode o.lastId) ++ MessagePack.natural o.committed.toNat))

theorem encode_eq (o : SubscriberOffset) : encode o = 0x94 :: fieldBytes o := by
  rw [encode, List.append_assoc, List.append_assoc, List.append_assoc]
  rfl

/-- Behind the head of an array the fields are read one after the other. -/
theorem decode?_array (bs : Bytes) :
    decode? (0x94 :: bs) = (readFields .blank fieldNames bs).bind fun read => read.1.record? := by
  have hhead : MessagePack.head? (0x94 :: bs) = some (.array 4, bs) := rfl
  have hcount : 4 = fieldNames.length := rfl
  rw [decode?, hhead]
  simp only [Option.bind_eq_bind, Option.bind_some, if_pos hcount]

/-- **The fields are read back** one after the other, and what follows them is left. -/
theorem readFields_fieldBytes {o : SubscriberOffset} (h : Writable o) (rest : Bytes) :
    readFields .blank fieldNames (fieldBytes o ++ rest)
      = some (⟨some o.topic, some o.subscriber, some o.lastId, some o.committed⟩, rest) := by
  have htext : ∀ s : String, textOf? (.text (Text.Utf8.encode s)) = some s := Text.Utf8.decode?_encode
  have h₁ : Draft.set .blank (.text (Text.Utf8.encode o.topic)) .topic
      = some ⟨some o.topic, none, none, none⟩ := by rw [Draft.set, htext]; rfl
  have h₂ : Draft.set ⟨some o.topic, none, none, none⟩ (.text (Text.Utf8.encode o.subscriber))
      .subscriber = some ⟨some o.topic, some o.subscriber, none, none⟩ := by rw [Draft.set, htext]; rfl
  have h₃ : Draft.set ⟨some o.topic, some o.subscriber, none, none⟩
      (.text (Text.Utf8.encode o.lastId)) .lastId
      = some ⟨some o.topic, some o.subscriber, some o.lastId, none⟩ := by rw [Draft.set, htext]; rfl
  simp only [fieldBytes, fieldNames, readFields, List.append_assoc, Option.bind_eq_bind,
    Option.bind_some, readField_text h.topic h₁, readField_text h.subscriber h₂,
    readField_text h.lastId h₃, readField_committed]

/-- **A record is read back**, whatever follows it. -/
theorem decode?_encode {o : SubscriberOffset} (h : Writable o) (rest : Bytes) :
    decode? (encode o ++ rest) = some o := by
  rw [encode_eq, List.cons_append, decode?_array, readFields_fieldBytes h rest]
  rfl

end Offset
end TopicRelay
