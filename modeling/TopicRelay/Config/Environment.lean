/-
  Settings from the environment of the program.

  A variable is a setting if its name begins with a certain word and two underscores.  What follows
  is the path of the setting, with two underscores where a path has a point.  Capital letters count
  as small ones, as far as the basic Latin alphabet goes.
-/
import TopicRelay.Config.Number
import TopicRelay.Config.Value
import TopicRelay.Text.Blank

namespace TopicRelay.Config.Environment

/-- What begins the name of a variable that is a setting, in small letters. -/
def opening : List Char := "relay__".toList

/-- A name with points for pairs of underscores. -/
def withPoints : List Char → List Char
  | '_' :: '_' :: rest => '.' :: withPoints rest
  | c :: rest => c :: withPoints rest
  | [] => []

/-- The path of the setting that a variable is. -/
def path? (variableName : String) : Option String :=
  let name := (Text.lowerAscii variableName).toList
  if opening.isPrefixOf name then some (String.ofList (withPoints (name.drop opening.length)))
  else none

/-- The settings in some variables, where `value` makes a value of a path and a text. -/
def settings (value : String → String → Value) (assignments : List (String × String)) : Table :=
  assignments.filterMap fun (name, text) => (path? name).map fun path => (path, value path text)

/-! ## Making values of texts -/

/-- A text is taken as it is. -/
def asWritten (_ : String) (text : String) : Value := .text text

/-- A floating point number without its sign: digits with at most one point before, among or after
    them, and perhaps an exponent; or a word for what no number reaches, or for no number. -/
def magnitude? (s : List Char) : Option Float :=
  let word := Text.lowerAscii (String.ofList s)
  if word = "inf" ∨ word = "infinity" then some Number.infinity
  else if word = "nan" then some Number.undefined
  else if !(if s.head? = some '.' then s.drop 1 else s).head?.any Char.isDigit then none
  else Number.float? Number.anyDigits Number.anyDigits Number.someDigits s

/-- A floating point number. -/
def float? (s : List Char) : Option Float :=
  let (isNegative, s) := Number.signed s
  (magnitude? s).map (Number.withSign isNegative)

/-- A text is taken for a truth value or a number if it reads as one; otherwise it is a list of the
    texts between commas, if that is what its path needs, or a text. -/
def recognized (isList : String → Bool) (path : String) (text : String) : Value :=
  let word := Text.lowerAscii text
  if word = "true" then .boolean true
  else if word = "false" then .boolean false
  else match Number.integer? Number.someDigits text.toList with
    | some n => .integer n
    | none => match float? text.toList with
      | some x => .number x
      | none =>
        if isList path then .list ((text.toList.splitOn ',').map fun s => .text (String.ofList s))
        else .text text

example : path? "RELAY__Server__PORT" = some "server.port" ∧ path? "RELAY_X" = none := by
  decide +kernel

end TopicRelay.Config.Environment
