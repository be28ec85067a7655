/-
  A directory as far as an offset store can see it.

  At the place of a store there is nothing, a plain file, or a directory.  A directory has files
  with their contents; it may also have directories in it, which are in the way if they have the
  name of a file.
-/
import TopicRelay.SortedMap
import TopicRelay.Text.Ascii

namespace TopicRelay

/-- What a name in a directory stands for. -/
inductive Entry where
  | file (contents : Bytes)
  | folder
deriving DecidableEq, Repr

/-- What there is at a path. -/
inductive Place where
  | missing
  | file
  | directory (entries : SortedMap Entry)
deriving DecidableEq

/-- Why the system did not do what it was asked for. -/
inductive SystemError where
  | notFound
  | exists
  | notADirectory
  | isADirectory
deriving DecidableEq, Repr

/-- The system's wording of an error. -/
def SystemError.message : SystemError → String
  | .notFound => "No such file or directory (os error 2)"
  | .exists => "File exists (os error 17)"
  | .notADirectory => "Not a directory (os error 20)"
  | .isADirectory => "Is a directory (os error 21)"

namespace Place

/-- The names in a directory, in order. -/
def names : Place → List String
  | .directory entries => entries.keys
  | _ => []

/-- The entries of a directory. -/
def entries : Place → Except SystemError (SortedMap Entry)
  | .directory entries => .ok entries
  | .file => .error .notADirectory
  | .missing => .error .notFound

/-- Makes a directory unless there is one. -/
def create : Place → Except SystemError Place
  | .missing => .ok (.directory SortedMap.empty)
  | .file => .error .exists
  | .directory entries => .ok (.directory entries)

/-- The contents of a file. -/
def read (place : Place) (name : String) : Except SystemError Bytes := do
  match (← place.entries).get? name with
  | none => .error .notFound
  | some .folder => .error .isADirectory
  | some (.file contents) => .ok contents

/-- Writes a file, new or in place of one. -/
def write (place : Place) (name : String) (contents : Bytes) : Except SystemError Place := do
  let entries ← place.entries
  match entries.get? name with
  | some .folder => .error .isADirectory
  | _ => .ok (.directory (entries.insert name (.file contents)))

/-- Gives a file another name, in place of any file that has it. -/
def rename (place : Place) (name newName : String) : Except SystemError Place := do
  let entries ← place.entries
  match entries.get? name, entries.get? newName with
  | none, _ => .error .notFound
  | some (.file _), some .folder => .error .isADirectory
  | some .folder, some (.file _) => .error .notADirectory
  | some entry, _ => .ok (.directory ((entries.erase name).insert newName entry))

/-- Puts an empty directory at a name, in place of anything. -/
def obstruct (place : Place) (name : String) : Except SystemError Place := do
  .ok (.directory ((← place.entries).insert name .folder))

end Place
end TopicRelay
