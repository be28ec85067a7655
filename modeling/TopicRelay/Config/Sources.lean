/-
  Where the settings of a program come from.

  There is a file for all environments, a file for the one that the program runs in, and the
  variables of the program; each may be missing, and each overrules those before it.
-/
import TopicRelay.Config.Environment
import TopicRelay.Config.Fields
import TopicRelay.Config.Toml.Document

namespace TopicRelay.Config

/-- The files at hand by name, the environment, and the variables with their texts. -/
structure Sources where
  files : List (String × String)
  environment : String
  assignments : List (String × String)

namespace Sources

/-- The ending of the names of settings files. -/
def ending : String := ".toml"

/-- The text of a file, where its name may be given without its ending.  A file of the very name is
    the one that is meant, but is of no use without the ending. -/
def file? (s : Sources) (name : String) : Option String :=
  match s.files.lookup name with
  | some text => if name.endsWith ending then some text else none
  | none => s.files.lookup (name ++ ending)

/-- The settings in a file; a file that is missing has none. -/
def fileSettings (s : Sources) (name : String) : Option Table :=
  match s.file? name with
  | none => some []
  | some text => Toml.read? text

/-- All settings together, unless a file is malformed. -/
def settings (s : Sources) (value : String → String → Value) : Option Value := do
  let general ← s.fileSettings "Settings"
  let special ← s.fileSettings ("Settings." ++ s.environment)
  some (.table (Value.merged [general, special, Environment.settings value s.assignments]))

end Sources
end TopicRelay.Config
