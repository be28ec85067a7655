/-
  Numbers as they are written in settings.

  Files and variables write numbers alike, and differ in which runs of digits they admit: a file may
  group digits and wants some on either side of a point, a variable does neither.  So each reader
  takes the readers for the digits it is made of.
-/
import TopicRelay.Decimal.Shortest

namespace TopicRelay.Config.Number

/-- A reader of a whole run of digits: the digits that count, if the run is admitted. -/
abbrev Digits := List Char → Option (List Char)

/-- A run of decimal digits that is not empty. -/
def someDigits : Digits := fun s => if !s.isEmpty && s.all Char.isDigit then some s else none

/-- A run of decimal digits that may be empty. -/
def anyDigits : Digits := fun s => if s.all Char.isDigit then some s else none

/-- The number with some digits in a base. -/
def value (base : Nat) (ds : List Char) : Nat :=
  ds.foldl (fun n d => base * n + (Ascii.hexValue? (UInt8.ofNat d.toNat)).getD 0) 0

/-- A sign and what follows it; true stands for a minus. -/
def signed : List Char → Bool × List Char
  | '-' :: rest => (true, rest)
  | '+' :: rest => (false, rest)
  | s => (false, s)

/-- A whole number of 64 bits with its sign. -/
def bounded (isNegative : Bool) (n : Nat) : Option Int :=
  if isNegative then (if n ≤ 0x8000000000000000 then some (-(n : Int)) else none)
  else if n < 0x8000000000000000 then some n else none

/-- A whole number of 64 bits. -/
def integer? (digits : Digits) (s : List Char) : Option Int :=
  let (isNegative, ds) := signed s
  (digits ds).bind fun ds => bounded isNegative (value 10 ds)

/-- Whether a character begins an exponent. -/
def isExponentMark (c : Char) : Bool := c == 'e' || c == 'E'

/-- An exponent, from the letter before it on; without one it is zero. -/
def exponent? (digits : Digits) : List Char → Option Int
  | [] => some 0
  | _ :: s =>
    let (isNegative, ds) := signed s
    (digits ds).map fun ds =>
      if isNegative then -(value 10 ds : Int) else (value 10 ds : Int)

/-- The digits before and after the point of a number, if there is at most one. -/
def sides? (s : List Char) : Option (List Char × Option (List Char)) :=
  match s.splitOn '.' with
  | [a] => some (a, none)
  | [a, b] => some (a, some b)
  | _ => none

/-- The floating point number with some digits on either side of the point, and an exponent. -/
def float? (whole fraction exponent : Digits) (s : List Char) : Option Float := do
  let e ← exponent? exponent (s.dropWhile fun c => !isExponentMark c)
  let (a, b) ← sides? (s.takeWhile fun c => !isExponentMark c)
  let a ← whole a
  let b ← (b.map fraction).getD (some [])
  some (Decimal.nearest (value 10 (a ++ b)) (e - b.length))

/-- A floating point number with its sign. -/
def withSign (isNegative : Bool) (x : Float) : Float := if isNegative then -x else x

/-- More than any number. -/
def infinity : Float := 1 / 0

/-- No number at all. -/
def undefined : Float := 0 / 0

example : integer? someDigits "-9223372036854775808".toList = some (-9223372036854775808)
    ∧ integer? someDigits "9223372036854775808".toList = none := by decide +kernel

end TopicRelay.Config.Number
