/-
  Why a JSON text was not read.

  A text that is not JSON at all, or ends too early, is told apart from JSON of the wrong shape.
  For the second kind the error says what was found and what was expected, so that whoever sent
  the text can mend it.  Of several problems the first one from the left is reported.
-/
import TopicRelay.Text.Numeral

namespace TopicRelay.Json

/-- The kinds of JSON value, with whole numbers told apart from all others. -/
inductive Kind where
  | null | boolean | integer | floatingPoint | string | sequence | map
deriving DecidableEq, Repr

/-- The name of a kind in an error. -/
def Kind.text : Kind → String
  | .null => "null"
  | .boolean => "boolean"
  | .integer => "integer"
  | .floatingPoint => "floating point"
  | .string => "string"
  | .sequence => "sequence"
  | .map => "map"

/-- What is wrong with a JSON text. -/
inductive ReadError where
  /-- The text is not JSON, or something follows the value. -/
  | malformed
  /-- The text ends inside the value. -/
  | unexpectedEnd
  /-- A payload is not Base64 text. -/
  | invalidBase64
  /-- A record was closed without a field that has to be there. -/
  | missingField (name : String)
  /-- A record has a field twice. -/
  | duplicateField (name : String)
  /-- A value of another kind than the expected one. -/
  | wrongKind (found : Kind) (expected : String)
  /-- A whole number that the expected type does not hold. -/
  | integerOutOfRange (expected : String)
  /-- A record written as a row has too few entries: the place of the first one that is needed. -/
  | rowTooShort (index : Nat) (record : String) (fields : Nat)
  /-- A name that is none of the choices. -/
  | unknownChoice (name : String) (choices : List String)
deriving DecidableEq, Repr

namespace ReadError

/-- A name between backward quotes. -/
def quoted (name : String) : String := "`" ++ name ++ "`"

/-- The wording of an error. -/
def message : ReadError → String
  | .malformed => "syntax error"
  | .unexpectedEnd => "unexpected end"
  | .invalidBase64 => "invalid base64"
  | .missingField name => "missing field " ++ quoted name
  | .duplicateField name => "duplicate field " ++ quoted name
  | .wrongKind found expected => "invalid type: " ++ found.text ++ ", expected " ++ expected
  | .integerOutOfRange expected => "invalid value: integer, expected " ++ expected
  | .rowTooShort index record fields =>
    "invalid length " ++ Text.Numeral.text index ++ ", expected struct " ++ record ++ " with "
      ++ Text.Numeral.text fields ++ (if fields = 1 then " element" else " elements")
  | .unknownChoice name choices =>
    "unknown variant " ++ quoted name ++ ", expected one of "
      ++ String.intercalate ", " (choices.map quoted)

end ReadError

example : (ReadError.wrongKind .null "a map").message = "invalid type: null, expected a map" := rfl

end TopicRelay.Json
