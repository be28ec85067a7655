/-
  Writing JSON, in its compact form.

  There are no blanks between lexemes.  In a string only the quote, the backslash and the bytes
  below 0x20 are escaped, with a letter where there is one and with four lower-case digits
  otherwise; everything else, DEL and all that is not ASCII included, is written as it is.
-/
import TopicRelay.Text.Numeral
import TopicRelay.Text.Utf8

namespace TopicRelay.Json.Printer

/-- The letter that stands for a byte after a backslash, if it has one. -/
def letter? (b : UInt8) : Option UInt8 :=
  if b = Ascii.quote then some Ascii.quote
  else if b = Ascii.backslash then some Ascii.backslash
  else if b = 0x08 then some 0x62
  else if b = Ascii.tab then some 0x74
  else if b = Ascii.lineFeed then some 0x6E
  else if b = Ascii.formFeed then some 0x66
  else if b = Ascii.carriageReturn then some 0x72
  else none

/-- One byte of a string as it is written. -/
def escape (b : UInt8) : Bytes :=
  match letter? b with
  | some l => [Ascii.backslash, l]
  | none => if b < 0x20 then [Ascii.backslash, 0x75, Ascii.zero, Ascii.zero] ++ Hex.ofByte b else [b]

/-- A string from the bytes of its contents. -/
def quoted (contents : Bytes) : Bytes :=
  Ascii.quote :: (contents.flatMap escape ++ [Ascii.quote])

/-- A text as a string. -/
def text (s : String) : Bytes := quoted (Text.Utf8.encode s)

/-- A text, or null. -/
def optionalText : Option String → Bytes
  | some s => text s
  | none => Ascii.bytes "null"

/-- A natural number. -/
def natural (n : Nat) : Bytes := Text.Numeral.bytes n

/-- A truth value. -/
def boolean (b : Bool) : Bytes := Ascii.bytes (if b then "true" else "false")

/-- Written values with commas between them. -/
def commaSeparated : List Bytes → Bytes
  | [] => []
  | [item] => item
  | item :: rest => item ++ Ascii.comma :: commaSeparated rest

/-- An array of written items. -/
def array (items : List Bytes) : Bytes :=
  Ascii.openBracket :: (commaSeparated items ++ [Ascii.closeBracket])

/-- An entry of an object. -/
def entry (key : String) (value : Bytes) : Bytes := text key ++ Ascii.colon :: value

/-- An object of keys and written values, in the given order. -/
def object (entries : List (String × Bytes)) : Bytes :=
  Ascii.openBrace :: (commaSeparated (entries.map fun e => entry e.1 e.2) ++ [Ascii.closeBrace])

example : text "a\"\n\x1f/" = Ascii.bytes "\"a\\\"\\n\\u001f/\"" := by decide +kernel
example : array [natural 10, boolean true] = Ascii.bytes "[10,true]" := by decide +kernel

end TopicRelay.Json.Printer
