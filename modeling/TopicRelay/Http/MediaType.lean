/-
  Media types: what a body says it is.

  A media type is written `type/subtype`, and parameters may follow.  The part of a subtype after
  its last plus sign is a suffix, which names a notation and not the type.  Parameters do not
  change what the type is, but a text whose parameters are malformed is no media type.
-/
import TopicRelay.Text.Ascii

namespace TopicRelay.Http

/-- A media type: its type and its subtype without a suffix. -/
structure MediaType where
  type : Bytes
  subtype : Bytes
deriving DecidableEq, Repr

namespace MediaType

/-- A byte that names are made of. -/
def isToken (b : UInt8) : Bool :=
  Ascii.isLetter b || Ascii.isDigit b || (Ascii.bytes "!#$%&'*+-.^_`|~").contains b

/-- A byte that may stand between quotes. -/
def isQuotable (b : UInt8) : Bool := 0x20 ≤ b && b != 0x7F

/-! ## Parameters -/

/-- Where the scan of a list of parameters stands. -/
inductive ParameterStage where
  | beforeName
  | inName
  | beforeValue
  | inValue
  | afterOpeningQuote
  | inQuotes
  | afterQuotes
deriving DecidableEq, Repr

open ParameterStage in
/-- The stage after one more byte, unless the byte may not stand there.  The first byte between
    quotes is taken as it is, even if it is a quote. -/
def ParameterStage.next (b : UInt8) : ParameterStage → Option ParameterStage
  | beforeName => if b = Ascii.space then some beforeName else if isToken b then some inName else none
  | inName => if isToken b then some inName else if b = Ascii.equals then some beforeValue else none
  | beforeValue =>
    if b = Ascii.quote then some afterOpeningQuote else if isToken b then some inValue else none
  | inValue => if isToken b then some inValue else if b = semicolon then some beforeName else none
  | afterOpeningQuote => if isQuotable b then some inQuotes else none
  | inQuotes =>
    if b = Ascii.quote then some afterQuotes else if isQuotable b then some inQuotes else none
  | afterQuotes =>
    if b = semicolon then some beforeName else if b = Ascii.space then some afterQuotes else none
where
  /-- The byte between parameters. -/
  semicolon : UInt8 := 0x3B

open ParameterStage in
/-- Whether a list of parameters may end there. -/
def ParameterStage.mayEnd : ParameterStage → Bool
  | beforeName | beforeValue | inValue | afterQuotes => true
  | inName | afterOpeningQuote | inQuotes => false

/-- Whether some bytes are a list of parameters, from a stage on. -/
def areParameters (stage : ParameterStage) : Bytes → Bool
  | [] => stage.mayEnd
  | b :: rest => match stage.next b with
    | some stage => areParameters stage rest
    | none => false

/-! ## Types -/

/-- A subtype without its suffix; a plus sign at its start begins none. -/
def withoutSuffix (subtype : Bytes) : Bytes :=
  match subtype.reverse.dropWhile (· != Ascii.plus) with
  | [] => subtype
  | [_] => subtype
  | _ :: base => base.reverse

/-- The media type of a text. -/
def parse? (s : Bytes) : Option MediaType :=
  let type := s.takeWhile isToken
  match type, s.dropWhile isToken with
  | [], _ => none
  | _, [] => none
  | type, b :: rest =>
    let subtype := rest.takeWhile isToken
    let parameters := rest.dropWhile isToken
    let found : MediaType := ⟨type.map Ascii.lower, (withoutSuffix subtype).map Ascii.lower⟩
    if b != Ascii.slash then none
    else match subtype, parameters with
      | _, [] => some found
      | [], _ => none
      | _, c :: rest =>
        if c == ParameterStage.next.semicolon && areParameters .beforeName rest then some found
        else none

/-- Whether a header value says that a body is JSON. -/
def isJson (value : Bytes) : Bool :=
  value.all (· < 0x80) && parse? value == some ⟨Ascii.bytes "application", Ascii.bytes "json"⟩

example : isJson (Ascii.bytes "application/JSON; charset=\"utf-8\" ; x=") = true := by decide +kernel
example : isJson (Ascii.bytes "application/json+zip") = true
    ∧ isJson (Ascii.bytes "application/vnd.api+json") = false
    ∧ isJson (Ascii.bytes "application/json ;x=1") = false
    ∧ isJson (Ascii.bytes "application/json;x") = false := by decide +kernel

end MediaType
end TopicRelay.Http
