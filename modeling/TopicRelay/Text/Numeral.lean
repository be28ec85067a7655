/-
  Decimal numerals of natural numbers.

  `digits n` is the numeral without leading zeros, `padded w n` the last `w` digits with leading
  zeros.  Padded numerals of one width are ordered as text the way their numbers are, which is
  what makes them usable as message ids.
-/
import TopicRelay.Text.Ascii

namespace TopicRelay.Text.Numeral

/-- The character of a digit. -/
def digitChar (d : Nat) : Char := Char.ofNat (0x30 + d)

/-- The last `width` digits of a number, the highest first. -/
def padded : (width n : Nat) → List Char
  | 0, _ => []
  | width + 1, n => padded width (n / 10) ++ [digitChar (n % 10)]

theorem length_padded (width n : Nat) : (padded width n).length = width := by
  induction width generalizing n with
  | zero => rfl
  | succ w ih => simp [padded, ih]

/-- The digits of a number, without leading zeros. -/
def digits (n : Nat) : List Char :=
  if n < 10 then [digitChar n] else digits (n / 10) ++ [digitChar (n % 10)]
termination_by n
decreasing_by omega

/-- The numeral of a number as text. -/
def text (n : Nat) : String := String.ofList (digits n)

/-- The numeral of a number as bytes. -/
def bytes (n : Nat) : Bytes := (digits n).map fun c => UInt8.ofNat c.toNat

/-- The number that some digits stand for, read from the highest one on. -/
def value (ds : Bytes) : Nat := ds.foldl (fun n d => n * 10 + Ascii.digitValue d) 0

/-- The number of a non-empty text of digits that may be written with a leading plus sign, if it is
    at most `bound`. -/
def parse? (bound : Nat) (s : Bytes) : Option Nat :=
  let ds := match s with
    | [] => []
    | b :: rest => if b = Ascii.plus then rest else s
  if ds.isEmpty || !ds.all Ascii.isDigit || bound < value ds then none else some (value ds)

example : digits 0 = ['0'] ∧ digits 907 = ['9', '0', '7'] := by decide +kernel
example : padded 3 7 = ['0', '0', '7'] := by decide
example : parse? 100 (Ascii.bytes "+12") = some 12 ∧ parse? 11 (Ascii.bytes "12") = none
    ∧ parse? 11 (Ascii.bytes "+") = none := by decide

end TopicRelay.Text.Numeral
