/-
  The words of a settings file: blanks, comments, names, texts, numbers and dates.

  Every reader takes the front of a text and gives what it read and the rest; nothing means that the
  text does not begin with such a word, or that the word is malformed.  Which of the two does not
  matter, because no place in a file allows a word of another kind in its stead.
-/
import TopicRelay.Config.Number
import TopicRelay.Config.Value

namespace TopicRelay.Config.Toml

/-- A reader of the front of a text. -/
abbrev Front (α : Type) := List Char → Option (α × List Char)

/-! ## Blanks and line ends -/

/-- A blank within a line. -/
def isBlank (c : Char) : Bool := c == ' ' || c == '\t'

/-- A character that may stand in a comment or a text: any but the control characters. -/
def isPrintable (c : Char) : Bool := c == '\t' || (0x20 ≤ c.toNat && c.toNat != 0x7F)

/-- The text without the blanks at its front. -/
def skipBlanks (s : List Char) : List Char := s.dropWhile isBlank

/-- The text after a line end. -/
def afterNewline? : List Char → Option (List Char)
  | '\n' :: rest => some rest
  | '\r' :: '\n' :: rest => some rest
  | _ => none

/-- The text without a comment at its front. -/
def skipComment : List Char → List Char
  | '#' :: rest => rest.dropWhile isPrintable
  | s => s

/-- The text after the rest of a line with nothing more on it; the last line needs no end. -/
def afterLine? (s : List Char) : Option (List Char) :=
  match skipComment (skipBlanks s) with
  | [] => some []
  | s => afterNewline? s

/-- The text without blanks, line ends and comments at its front, at most `fuel` lines of them. -/
def skipSpace : Nat → List Char → List Char
  | 0, s => s
  | fuel + 1, s =>
    let s := skipComment (skipBlanks s)
    match afterNewline? s with
    | some rest => skipSpace fuel rest
    | none => s

/-! ## Texts -/

/-- The number with some hexadecimal digits. -/
def hexNumber? (ds : List Char) : Option Nat :=
  ds.foldlM (fun n d => (Ascii.hexValue? (UInt8.ofNat d.toNat)).bind fun v =>
    if d.toNat < 0x80 then some (16 * n + v) else none) 0

/-- The character with a number that is written in `width` digits. -/
def numbered? (width : Nat) : Front Char := fun s =>
  if s.length < width then none
  else match hexNumber? (s.take width) with
    | some n => if n.isValidChar then some (Char.ofNat n, s.drop width) else none
    | none => none

/-- The character that is meant by what follows a backslash. -/
def escape? : Front Char
  | 'b' :: rest => some ('\x08', rest)
  | 't' :: rest => some ('\t', rest)
  | 'n' :: rest => some ('\n', rest)
  | 'f' :: rest => some ('\x0C', rest)
  | 'r' :: rest => some ('\r', rest)
  | '"' :: rest => some ('"', rest)
  | '\\' :: rest => some ('\\', rest)
  | 'u' :: rest => numbered? 4 rest
  | 'U' :: rest => numbered? 8 rest
  | _ => none

/-- The rest of a text in double quotes; `seen` is what was read of it, in reverse. -/
def quoted (fuel : Nat) (seen : List Char) : Front String := fun s =>
  match fuel, s with
  | fuel + 1, c :: rest =>
    if c = '"' then some (String.ofList seen.reverse, rest)
    else if c = '\\' then (escape? rest).bind fun (d, rest) => quoted fuel (d :: seen) rest
    else if isPrintable c then quoted fuel (c :: seen) rest
    else none
  | _, _ => none

/-- The rest of a text in single quotes, in which nothing is escaped. -/
def literal (s : List Char) : Option (String × List Char) :=
  let (content, rest) := (s.takeWhile fun c => c != '\'' && isPrintable c,
    s.dropWhile fun c => c != '\'' && isPrintable c)
  match rest with
  | '\'' :: rest => some (String.ofList content, rest)
  | _ => none

/-- What a long text ends with: three quotes, before which up to two may belong to it. -/
def longEnd? (q : Char) (s : List Char) : Option (List Char × List Char) :=
  let n := (s.takeWhile (· == q)).length
  if 3 ≤ n ∧ n ≤ 5 then some (List.replicate (n - 3) q, s.drop n) else none

/-- The text after a backslash at the end of a line: blanks and line ends are skipped. -/
def afterFold? (s : List Char) : Option (List Char) :=
  (afterNewline? (skipBlanks s)).map fun rest =>
    rest.dropWhile fun c => isBlank c || c == '\n' || c == '\r'

/-- The rest of a text of several lines; escapes count only if it is in double quotes. -/
def long (q : Char) (fuel : Nat) (seen : List Char) : Front String := fun s =>
  match fuel, s with
  | fuel + 1, c :: rest =>
    if c = q then
      match longEnd? q s with
      | some (more, rest) => some (String.ofList (seen.reverse ++ more), rest)
      -- one or two quotes are part of the text, and more than five are malformed
      | none => if (s.takeWhile (· == q)).length < 3 then long q fuel (c :: seen) rest else none
    else if c = '\\' ∧ q = '"' then
      match afterFold? rest with
      | some rest => long q fuel seen rest
      | none => (escape? rest).bind fun (d, rest) => long q fuel (d :: seen) rest
    else match afterNewline? s with
      | some rest => long q fuel ('\n' :: seen) rest
      | none => if isPrintable c then long q fuel (c :: seen) rest else none
  | _, _ => none

/-- A long text without the line end that it may begin with. -/
def longBody (q : Char) (s : List Char) : Option (String × List Char) :=
  let body := (afterNewline? s).getD s
  long q (body.length + 1) [] body

/-- A text of any kind. -/
def text? : Front String
  | '"' :: '"' :: '"' :: rest => longBody '"' rest
  | '\'' :: '\'' :: '\'' :: rest => longBody '\'' rest
  | '"' :: rest => quoted (rest.length + 1) [] rest
  | '\'' :: rest => literal rest
  | _ => none

/-! ## Names -/

/-- A character of a name that needs no quotes. -/
def isBare (c : Char) : Bool := c.isAlphanum || c == '_' || c == '-'

/-- A name. -/
def name? : Front String
  | '"' :: rest => quoted (rest.length + 1) [] rest
  | '\'' :: rest => literal rest
  | s =>
    let name := s.takeWhile isBare
    if name.isEmpty then none else some (String.ofList name, s.dropWhile isBare)

/-- Names with points between them, at most `fuel` of them. -/
def names? : Nat → Front (List String)
  | 0, _ => none
  | fuel + 1, s => (name? s).bind fun (name, rest) =>
    match skipBlanks rest with
    | '.' :: rest => (names? fuel (skipBlanks rest)).map fun (names, rest) => (name :: names, rest)
    | _ => some ([name], rest)

/-! ## Numbers -/

/-- Digits that may have single underscores between them. -/
def grouped? (isDigit : Char → Bool) : Number.Digits := fun s =>
  let groups := s.splitOn '_'
  if groups.all fun g => !g.isEmpty && g.all isDigit then some groups.flatten else none

/-- Digits without a leading zero. -/
def plainDigits? : Number.Digits := fun s =>
  if 1 < s.length ∧ s.head? = some '0' then none else grouped? Char.isDigit s

/-- A character that is a digit in base sixteen. -/
def isHexDigit (c : Char) : Bool := c.isDigit || ('a' ≤ c && c ≤ 'f') || ('A' ≤ c && c ≤ 'F')

/-- Digits that may be grouped. -/
def digits? : Number.Digits := grouped? Char.isDigit

/-- A whole number in the base that some digits belong to. -/
def inBase? (base : Nat) (isDigit : Char → Bool) (ds : List Char) : Option Int :=
  (grouped? isDigit ds).bind fun ds => Number.bounded false (Number.value base ds)

/-- A whole number; the other bases have no sign. -/
def integer? : List Char → Option Int
  | '0' :: 'x' :: ds => inBase? 16 isHexDigit ds
  | '0' :: 'o' :: ds => inBase? 8 (fun c => '0' ≤ c && c ≤ '7') ds
  | '0' :: 'b' :: ds => inBase? 2 (fun c => c == '0' || c == '1') ds
  | s => Number.integer? plainDigits? s

/-- A number that is no whole number; one that is too large for a floating point number is none. -/
def float? (s : List Char) : Option Float :=
  let (isNegative, ds) := Number.signed s
  if ds = "inf".toList then some (Number.withSign isNegative Number.infinity)
  else if ds = "nan".toList then some (Number.withSign isNegative Number.undefined)
  else if !ds.any fun c => c == '.' || Number.isExponentMark c then none
  else (Number.float? plainDigits? digits? digits? ds).bind fun x =>
    let x := Number.withSign isNegative x
    if x == Number.infinity then none else some x

/-! ## Dates and times -/

/-- A number of exactly `width` digits from `low` to `high`. -/
def field? (width low high : Nat) : Front Nat := fun s =>
  let ds := s.take width
  let n := Number.value 10 ds
  if ds.length = width ∧ ds.all Char.isDigit ∧ low ≤ n ∧ n ≤ high then some (n, s.drop width)
  else none

/-- The text after a character that has to be there. -/
def after? (c : Char) : List Char → Option (List Char)
  | d :: rest => if c = d then some rest else none
  | [] => none

/-- The number of days in a month. -/
def daysIn (year month : Nat) : Nat :=
  if month = 2 then (if year % 4 = 0 ∧ (year % 100 ≠ 0 ∨ year % 400 = 0) then 29 else 28)
  else if month ∈ [4, 6, 9, 11] then 30 else 31

/-- A date: year, month and day. -/
def date? : Front (List Char) := fun s => do
  let (year, r) ← field? 4 0 9999 s
  let (month, r) ← field? 2 1 12 (← after? '-' r)
  let (_, r) ← field? 2 1 (daysIn year month) (← after? '-' r)
  some (s.take 10, r)

/-- The fraction of a second: nine digits count, and zeros at the end are left out. -/
def secondFraction? : Front (List Char)
  | '.' :: s =>
    let ds := s.takeWhile Char.isDigit
    if ds.isEmpty then none
    else
      let shown := ((ds.take 9).reverse.dropWhile (· == '0')).reverse
      some (if shown.isEmpty then [] else '.' :: shown, s.dropWhile Char.isDigit)
  | s => some ([], s)

/-- A time of day. -/
def time? : Front (List Char) := fun s => do
  let (_, r) ← field? 2 0 23 s
  let (_, r) ← field? 2 0 59 (← after? ':' r)
  let (_, r) ← field? 2 0 60 (← after? ':' r)
  let (fraction, r) ← secondFraction? r
  some (s.take 8 ++ fraction, r)

/-- How far a time is from that of the zero meridian, if this is said. -/
def zone? : Front (List Char)
  | 'Z' :: rest | 'z' :: rest => some (['Z'], rest)
  | sign :: s =>
    if sign = '+' ∨ sign = '-' then do
      let (hours, r) ← field? 2 0 23 s
      let (minutes, r) ← field? 2 0 59 (← after? ':' r)
      some ((if hours = 0 ∧ minutes = 0 then '+' else sign) :: s.take 5, r)
    else some ([], sign :: s)
  | [] => some ([], [])

/-- A date, a time of day, or both; as text, with a capital letter between the two. -/
def moment? (s : List Char) : Option String :=
  match date? s with
  | some (date, []) => some (String.ofList date)
  | some (date, mark :: rest) =>
    if mark = 'T' ∨ mark = 't' ∨ mark = ' ' then
      match time? rest with
      | some (time, rest) => match zone? rest with
        | some (zone, []) => some (String.ofList (date ++ 'T' :: time ++ zone))
        | _ => none
      | none => none
    else none
  | none => match time? s with
    | some (time, []) => some (String.ofList time)
    | _ => none

/-! ## Words without quotes -/

/-- A character of a number, a truth value or a moment. -/
def isWordChar (c : Char) : Bool :=
  c.isAlphanum || c == '_' || c == '-' || c == '+' || c == '.' || c == ':'

/-- A word as it stands; a blank between a date and a time belongs to it. -/
def word (s : List Char) : List Char × List Char :=
  let (first, rest) := (s.takeWhile isWordChar, s.dropWhile isWordChar)
  match date? first, rest with
  | some (_, []), ' ' :: d :: rest =>
    if d.isDigit then
      (first ++ ' ' :: (d :: rest).takeWhile isWordChar, (d :: rest).dropWhile isWordChar)
    else (first, ' ' :: d :: rest)
  | _, _ => (first, rest)

/-- The value that a word stands for. -/
def ofWord? (w : List Char) : Option Value :=
  if w = "true".toList then some (.boolean true)
  else if w = "false".toList then some (.boolean false)
  else match moment? w with
    | some s => some (.text s)
    | none => match integer? w with
      | some n => some (.integer n)
      | none => (float? w).map .number

example : integer? "1_000".toList = some 1000 ∧ integer? "012".toList = none
    ∧ integer? "-0x1".toList = none := by decide +kernel
example : moment? "1979-05-27 07:32:00.500Z".toList = some "1979-05-27T07:32:00.5Z" := by
  decide +kernel

end TopicRelay.Config.Toml
