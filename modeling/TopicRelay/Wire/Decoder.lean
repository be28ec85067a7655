/-
  Decoding an answer while it arrives.

  An answer is a JSON array of elements, each written as an object.  The decoder takes the bytes in
  whatever pieces they come and gives each element back with the piece that holds its last byte.
  It looks at every byte once and keeps only the bytes of the element that is not complete yet,
  and of those no more than a limit.

  * Between elements stand blanks, commas and the two brackets; `Stage` says which are due.
  * Inside an element only strings and the depth of brackets are followed (`Partial`).  What the
    element says is read when its last bracket has come.

  A piece that fails gives no elements.  The decoder has then looked at the bytes up to the one it
  refused; the others wait for the next piece.
-/
import TopicRelay.Wire.TopicMessages

namespace TopicRelay.Wire

open Json

/-! ## Errors -/

/-- Why an answer is not one. -/
inductive DecodeError where
  /-- A byte that may not stand where it does, counted from the start of the answer. -/
  | unexpectedByte (offset : Nat) (byte : UInt8)
  /-- An element whose brackets match, but that is not well-formed or of the wrong shape. -/
  | badElement (reason : ReadError)
  /-- An element that is not complete with as many bytes as an element may have. -/
  | elementTooLarge (limit : Nat)
  /-- The answer ended before its array did. -/
  | incomplete
deriving DecidableEq, Repr

namespace DecodeError

/-- The digits of a number in base sixteen, without leading zeros. -/
def hexDigits (n : Nat) : Bytes :=
  if n < 16 then [Ascii.hexDigit n] else [Ascii.hexDigit (n / 16), Ascii.hexDigit (n % 16)]

/-- A byte for display: printable ASCII as it is, with a backslash before quotes and backslashes,
    three control characters by letter, and everything else by its number. -/
def showByte (b : UInt8) : String :=
  if b = Ascii.tab then "\\t"
  else if b = Ascii.carriageReturn then "\\r"
  else if b = Ascii.lineFeed then "\\n"
  else if b = Ascii.quote ∨ b = 0x27 ∨ b = Ascii.backslash then "\\" ++ Ascii.text [b]
  else if 0x20 ≤ b ∧ b ≤ 0x7E then Ascii.text [b]
  else "\\u\x7b" ++ Ascii.text (hexDigits b.toNat) ++ "\x7d"

/-- The wording of an error. -/
def message : DecodeError → String
  | .unexpectedByte offset byte =>
    "Unexpected '" ++ showByte byte ++ "' at offset " ++ Text.Numeral.text offset
  | .badElement reason => "Invalid topic messages element: " ++ reason.message
  | .elementTooLarge limit =>
    "Topic messages element exceeds " ++ Text.Numeral.text limit ++ " bytes"
  | .incomplete => "Response ended before the array was closed"

end DecodeError

/-! ## An element that is not complete -/

/-- Where the scan of an element stands: outside of strings, in one, or after a backslash in one. -/
inductive ScanMode where
  | outside | inString | escaped
deriving DecidableEq, Repr

/-- An element that has begun: its bytes so far, in reverse, with their number, and the number of
    brackets that are open outside of strings. -/
structure Partial where
  reversed : Bytes
  size : Nat
  depth : Nat
  mode : ScanMode
deriving DecidableEq, Repr

namespace Partial

/-- An element of which only the opening brace is there. -/
def start : Partial := ⟨[Ascii.openBrace], 1, 1, .outside⟩

/-- The bytes of an element so far. -/
def bytes (p : Partial) : Bytes := p.reversed.reverse

/-- The depth and mode after one more byte.  Every kind of bracket counts alike: whether they match
    is seen when the element is read. -/
def scan (b : UInt8) (depth : Nat) : ScanMode → Nat × ScanMode
  | .escaped => (depth, .inString)
  | .inString =>
    if b = Ascii.backslash then (depth, .escaped)
    else if b = Ascii.quote then (depth, .outside)
    else (depth, .inString)
  | .outside =>
    if b = Ascii.quote then (depth, .inString)
    else if b = Ascii.openBrace ∨ b = Ascii.openBracket then (depth + 1, .outside)
    else if b = Ascii.closeBrace ∨ b = Ascii.closeBracket then (depth - 1, .outside)
    else (depth, .outside)

/-- The element with one more byte. -/
def push (p : Partial) (b : UInt8) : Partial :=
  let next := scan b p.depth p.mode
  ⟨b :: p.reversed, p.size + 1, next.1, next.2⟩

/-- Whether the last bracket has come. -/
def isComplete (p : Partial) : Bool := p.depth == 0

end Partial

/-! ## The decoder -/

/-- What may come next. -/
inductive Stage where
  | beforeArray
  | beforeFirst
  | beforeElement
  | inElement (p : Partial)
  | afterElement
  | closed
deriving DecidableEq, Repr

/-- The number of bytes that are kept because their element is not complete. -/
def Stage.size : Stage → Nat
  | .inElement p => p.size
  | _ => 0

/-- A decoder between two pieces. -/
structure Decoder where
  /-- The number of bytes that an element may have while it is not complete. -/
  limit : Nat
  stage : Stage
  /-- How many bytes have been looked at since the start of the answer. -/
  position : Nat
  /-- Bytes that were not looked at because a piece failed before them. -/
  pending : Bytes
  /-- How many bytes are held although they are done with: those of pieces that failed. -/
  spent : Nat
deriving DecidableEq, Repr

namespace Decoder

/-- The limit unless another is asked for: 16 MiB. -/
def defaultLimit : Nat := 16 * 1024 * 1024

/-- A decoder at the start of an answer. -/
def new (limit : Nat) : Decoder := ⟨limit, .beforeArray, 0, [], 0⟩

/-- How many bytes are held. -/
def buffered (d : Decoder) : Nat := d.spent + d.stage.size + d.pending.length

/-- A blank that may stand between elements: the JSON blanks and the form feed. -/
def isSeparator (b : UInt8) : Bool := Lexeme.isSpace b || b == Ascii.formFeed

/-- What one byte does. -/
inductive Effect where
  /-- The stage changes, or stays. -/
  | to (stage : Stage)
  /-- An element is complete. -/
  | element (p : Partial)
  /-- The byte may not stand here. -/
  | refused
deriving DecidableEq, Repr

/-- The effect of a byte between elements. -/
def between (stage : Stage) (b : UInt8) : Effect :=
  if isSeparator b then .to stage
  else match stage with
    | .beforeArray => if b = Ascii.openBracket then .to .beforeFirst else .refused
    | .beforeFirst =>
      if b = Ascii.openBrace then .to (.inElement .start)
      else if b = Ascii.closeBracket then .to .closed
      else .refused
    | .beforeElement => if b = Ascii.openBrace then .to (.inElement .start) else .refused
    | .afterElement =>
      if b = Ascii.comma then .to .beforeElement
      else if b = Ascii.closeBracket then .to .closed
      else .refused
    | _ => .refused

/-- The effect of a byte. -/
def effect (stage : Stage) (b : UInt8) : Effect :=
  match stage with
  | .inElement p => if (p.push b).isComplete then .element (p.push b) else .to (.inElement (p.push b))
  | stage => between stage b

/-- How far a piece was looked at, and what it gave. -/
structure Scan where
  /-- The elements that were completed, in reverse, or why the piece failed. -/
  result : Except DecodeError (List TopicMessages)
  stage : Stage
  position : Nat
  /-- The bytes that were not looked at. -/
  rest : Bytes
  /-- Whether a byte was looked at that belongs to no incomplete element. -/
  released : Bool

/-- Looks at bytes one by one, until they end or one fails. -/
def scan (stage : Stage) (position : Nat) (released : Bool) (seen : List TopicMessages) :
    Bytes → Scan
  | [] => ⟨.ok seen, stage, position, [], released⟩
  | b :: rest =>
    match effect stage b with
    | .refused => ⟨.error (.unexpectedByte position b), stage, position + 1, rest, released⟩
    | .element p =>
      match Reader.document TopicMessages.reader p.bytes with
      -- the element stays, so the next byte is pushed onto it
      | .error e => ⟨.error (.badElement e), .inElement p, position + 1, rest, released⟩
      | .ok element => scan .afterElement (position + 1) true (element :: seen) rest
    | .to (.inElement p) => scan (.inElement p) (position + 1) released seen rest
    | .to stage => scan stage (position + 1) true seen rest

/-- Takes in one piece: the elements it completed, or why it failed, and the decoder after it. -/
def push (d : Decoder) (piece : Bytes) : Except DecodeError (List TopicMessages) × Decoder :=
  let s := scan d.stage d.position false [] (d.pending ++ piece)
  let held := d.buffered + piece.length
  let failed : Decoder :=
    ⟨d.limit, s.stage, s.position, s.rest, held - s.stage.size - s.rest.length⟩
  match s.result with
  | .error e => (.error e, failed)
  | .ok elements =>
    -- elements that the piece completed are lost when the next one grows too large
    if d.limit < s.stage.size then (.error (.elementTooLarge d.limit), failed)
    else (.ok elements.reverse,
      ⟨d.limit, s.stage, s.position, [], if s.released then 0 else d.spent⟩)

/-- Takes in pieces one after the other, up to the first that fails: the elements that came before,
    and the decoder after the last piece. -/
def pushAll : Decoder → List Bytes → List TopicMessages × Except DecodeError Decoder
  | d, [] => ([], .ok d)
  | d, piece :: rest => match d.push piece with
    | (.error e, _) => ([], .error e)
    | (.ok elements, d) =>
      let (more, result) := pushAll d rest
      (elements ++ more, result)

/-- What the end of the answer means: it is whole only if its array was closed. -/
def finish (d : Decoder) : Except DecodeError Unit :=
  match d.stage with
  | .closed => .ok ()
  | _ => .error .incomplete

end Decoder
end TopicRelay.Wire
