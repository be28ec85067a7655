/-
  The stored form of an offset.

  A record is a MessagePack array of its four fields.  The reader also takes a map from the names
  of the fields, or from their places, which may have other entries as well, and lets anything
  follow the record.
-/
import TopicRelay.MessagePack
import TopicRelay.Offset.Basic
import TopicRelay.Text.Utf8

namespace TopicRelay.Offset

open MessagePack (Head)

/-! ## Writing -/

/-- The bytes of a record. -/
def encode (o : SubscriberOffset) : Bytes :=
  MessagePack.smallArray 4 ++ MessagePack.text (Text.Utf8.encode o.topic)
    ++ MessagePack.text (Text.Utf8.encode o.subscriber)
    ++ MessagePack.text (Text.Utf8.encode o.lastId) ++ MessagePack.natural o.committed.toNat

/-! ## Reading -/

/-- The fields of a record. -/
inductive FieldName where
  | topic | subscriber | lastId | committed
deriving DecidableEq, Repr

/-- The name of a field in a record that is written as a map. -/
def FieldName.text : FieldName → String
  | .topic => "topic"
  | .subscriber => "subscriber"
  | .lastId => "last_id"
  | .committed => "committed"

/-- The fields in the order in which an array has them. -/
def fieldNames : List FieldName := [.topic, .subscriber, .lastId, .committed]

/-- A record of which some fields have been read. -/
structure Draft where
  topic : Option TopicName
  subscriber : Option SubscriberName
  lastId : Option MessageId
  committed : Option UInt64

/-- The draft with nothing in it. -/
def Draft.blank : Draft := ⟨none, none, none, none⟩

/-- The record of a draft that has all fields. -/
def Draft.record? (d : Draft) : Option SubscriberOffset := do
  pure ⟨← d.topic, ← d.subscriber, ← d.lastId, ← d.committed⟩

/-- Whether a field has been read. -/
def Draft.has (d : Draft) : FieldName → Bool
  | .topic => d.topic.isSome
  | .subscriber => d.subscriber.isSome
  | .lastId => d.lastId.isSome
  | .committed => d.committed.isSome

/-- The text of a value, which may be written as a text or as binary data. -/
def textOf? : Head → Option String
  | .text bs => Text.Utf8.decode? bs
  | .binary bs => Text.Utf8.decode? bs
  | _ => none

/-- The number of a value, which may be written with or without a sign. -/
def numberOf? : Head → Option UInt64
  | .unsigned n => some (UInt64.ofNat n)
  | .signed n => if 0 ≤ n then some (UInt64.ofNat n.toNat) else none
  | _ => none

/-- The draft with a field set from its value. -/
def Draft.set (d : Draft) (h : Head) : FieldName → Option Draft
  | .topic => (textOf? h).map fun s => { d with topic := some s }
  | .subscriber => (textOf? h).map fun s => { d with subscriber := some s }
  | .lastId => (textOf? h).map fun s => { d with lastId := some s }
  | .committed => (numberOf? h).map fun n => { d with committed := some n }

/-- Reads the value of a field. -/
def readField (d : Draft) (name : FieldName) (bs : Bytes) : Option (Draft × Bytes) := do
  let (head, rest) ← MessagePack.head? bs
  let d ← d.set head name
  pure (d, rest)

/-- Reads the fields of an array one after the other. -/
def readFields (d : Draft) : List FieldName → Bytes → Option (Draft × Bytes)
  | [], bs => some (d, bs)
  | name :: names, bs => do
    let (d, rest) ← readField d name bs
    readFields d names rest

/-- The field that a key of a map stands for: `none` for a key that is no key at all, `some none`
    for one that stands for no field. -/
def keyOf? : Head → Option (Option FieldName)
  | .text bs => some (named bs)
  | .binary bs => some (named bs)
  | .unsigned n => some fieldNames[n]?
  | _ => none
where
  /-- The field with a name. -/
  named (bs : Bytes) : Option FieldName := fieldNames.find? fun f => Ascii.bytes f.text == bs

/-- Reads the entries of a map. -/
def readEntries (d : Draft) : Nat → Bytes → Option (Draft × Bytes)
  | 0, bs => some (d, bs)
  | n + 1, bs => do
    let (head, rest) ← MessagePack.head? bs
    match ← keyOf? head with
    | none => readEntries d n (← MessagePack.pass rest)
    | some name =>
      if d.has name then none
      else
        let (d, rest) ← readField d name rest
        readEntries d n rest

/-- Reads a record. -/
def decode? (bs : Bytes) : Option SubscriberOffset := do
  let (head, rest) ← MessagePack.head? bs
  match head with
  | .array n =>
    if n = fieldNames.length then (← readFields .blank fieldNames rest).1.record? else none
  | .map n => (← readEntries .blank n rest).1.record?
  | _ => none

example : decode? (encode ⟨"t", "s", "7", 5⟩ ++ [1, 2]) = some ⟨"t", "s", "7", 5⟩ := by
  decide +kernel

end TopicRelay.Offset
