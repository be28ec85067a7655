/-
  Offsets in the files of a directory.

  Each topic and subscriber has a file.  A new offset is written to a temporary file beside it,
  which then takes the file's name: until that moment the old offset is there, and from then on
  the new one.

  The name of a file is made of the two names in hexadecimal digits, so that any text may be a
  name.  Where that gets too long for a file system, a digest takes its place.  Because two names
  may have the same digest, the record in a file says whose it is, and is only taken for theirs.
-/
import TopicRelay.Offset.Directory
import TopicRelay.Offset.Record
import TopicRelay.Sha256

namespace TopicRelay

namespace Offset

/-! ## File names -/

/-- The longest stem that is made of the names themselves. -/
def maxPlainStem : Nat := 200

/-- The stem that is made of the names themselves. -/
def plainStem (topic : TopicName) (subscriber : SubscriberName) : Bytes :=
  Hex.encode (Text.Utf8.encode topic) ++ Ascii.minus :: Hex.encode (Text.Utf8.encode subscriber)

/-- What the digest is taken of. -/
def digestInput (topic : TopicName) (subscriber : SubscriberName) : Bytes :=
  Text.Utf8.encode topic ++ 0 :: Text.Utf8.encode subscriber

/-- The name of a topic's and subscriber's file, without its ending. -/
def stem (topic : TopicName) (subscriber : SubscriberName) : String :=
  let plain := plainStem topic subscriber
  if plain.length ≤ maxPlainStem then Ascii.text plain
  else "sha256-" ++ Hex.text (Sha256.digest (digestInput topic subscriber))

/-- The name of a topic's and subscriber's file. -/
def fileName (topic : TopicName) (subscriber : SubscriberName) : String :=
  stem topic subscriber ++ ".offset"

/-- The name of the file that a new offset is written to first. -/
def temporaryName (topic : TopicName) (subscriber : SubscriberName) : String :=
  stem topic subscriber ++ ".offset.tmp"

end Offset

/-! ## The store -/

/-- A store in the directory that has the path `path`, and what there is. -/
structure FileOffsets where
  path : String
  place : Place

namespace FileOffsets

/-- A failure of the system while something was done to a path. -/
def failure (what path : String) (e : SystemError) : OffsetError :=
  .failure ("Unable to " ++ what ++ " " ++ path ++ ": " ++ e.message)

/-- The path of a file. -/
def pathOf (store : FileOffsets) (name : String) : String := store.path ++ "/" ++ name

/-- A store at a path, with a new directory unless there is one. -/
def «open» (path : String) (place : Place) : Except OffsetError FileOffsets :=
  match place.create with
  | .ok place => .ok ⟨path, place⟩
  | .error e => .error (failure "create" path e)

/-- The record in the file of a topic and subscriber. -/
def load (store : FileOffsets) (topic : TopicName) (subscriber : SubscriberName) :
    Except OffsetError (Option SubscriberOffset) :=
  let name := Offset.fileName topic subscriber
  match store.place.read name with
  | .error .notFound => .ok none
  | .error e => .error (failure "read" (store.pathOf name) e)
  | .ok contents => match Offset.decode? contents with
    | none => .error (.unreadable topic subscriber "not an offset record")
    | some o =>
      if o.topic = topic ∧ o.subscriber = subscriber then .ok (some o)
      else .error (.foreign topic subscriber o.topic o.subscriber)

/-- The last committed id. -/
def get (store : FileOffsets) (topic : TopicName) (subscriber : SubscriberName) :
    Except OffsetError (Option MessageId) :=
  (store.load topic subscriber).map fun o => o.map (·.lastId)

/-- Commits an id at the time `now`: how that ended, and the store after it. -/
def put (store : FileOffsets) (now : UInt64) (topic : TopicName) (subscriber : SubscriberName)
    (id : MessageId) : Except OffsetError Unit × FileOffsets :=
  let temporary := Offset.temporaryName topic subscriber
  let name := Offset.fileName topic subscriber
  match store.place.write temporary (Offset.encode ⟨topic, subscriber, id, now⟩) with
  | .error e => (.error (failure "write" (store.pathOf temporary) e), store)
  | .ok written => match written.rename temporary name with
    | .error e => (.error (failure "replace" (store.pathOf name) e), { store with place := written })
    | .ok replaced => (.ok (), { store with place := replaced })

end FileOffsets
end TopicRelay
