/-
  The choice of where offsets are kept, which is made by name.
-/
import TopicRelay.Offset.Files
import TopicRelay.Offset.Memory
import TopicRelay.Text.Blank

namespace TopicRelay

/-- Where offsets are kept. -/
inductive OffsetScheme where
  | inMemory
  | fileSystem
deriving DecidableEq, Repr

namespace OffsetScheme

/-- The scheme with a name.  Blanks around the name and the case of its letters do not matter. -/
def ofName? (name : String) : Option OffsetScheme :=
  let known := Text.lowerAscii (Text.trim name)
  if known = "in-memory" ∨ known = "memory" then some .inMemory
  else if known = "file-system" ∨ known = "file" then some .fileSystem
  else none

/-- What is said of a name that no scheme has. -/
def unknownMessage (name : String) : String :=
  "Unknown persistence scheme '" ++ name ++ "', expected 'in-memory' or 'file-system'"

example : ofName? " File-System " = some .fileSystem ∧ ofName? "database" = none := by
  decide +kernel

end OffsetScheme

/-- Offsets kept in one of the ways there are. -/
inductive OffsetStore where
  | memory (offsets : MemoryOffsets)
  | files (store : FileOffsets)

namespace OffsetStore

/-- The store of a scheme; the path matters only to a scheme that uses the file system. -/
def ofScheme (path : String) (place : Place) : OffsetScheme → Except OffsetError OffsetStore
  | .inMemory => .ok (.memory SortedMap.empty)
  | .fileSystem => (FileOffsets.open path place).map .files

/-- The last committed id. -/
def get (topic : TopicName) (subscriber : SubscriberName) :
    OffsetStore → Except OffsetError (Option MessageId)
  | .memory offsets => .ok (offsets.get topic subscriber)
  | .files store => store.get topic subscriber

/-- Commits an id at the time `now`. -/
def put (now : UInt64) (topic : TopicName) (subscriber : SubscriberName) (id : MessageId) :
    OffsetStore → Except OffsetError Unit × OffsetStore
  | .memory offsets => (.ok (), .memory (offsets.put now topic subscriber id))
  | .files store =>
    let (result, store) := store.put now topic subscriber id
    (result, .files store)

end OffsetStore
end TopicRelay
