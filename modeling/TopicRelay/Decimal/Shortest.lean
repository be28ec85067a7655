/-
  Floating point numbers as decimals, with as few digits as tell them apart.

  A number of 64 bits stands for all reals that are nearest to it: an interval from halfway to the
  number below to halfway to the number above, to which its ends belong exactly if the mantissa is
  even.  The decimal of the fewest digits within the interval is taken; of two with equally many
  digits the nearer one, and the larger of two that are equally near.  It is searched for grid by
  grid: with `n` digits only the two neighbours of the number on the grid can be in question.
-/
import TopicRelay.Text.Numeral

namespace TopicRelay.Decimal

/-- A positive number, `mantissa * 2 ^ exponent`. -/
structure Binary where
  mantissa : Nat
  exponent : Int
  /-- Whether the number below is nearer than the number above. -/
  isNarrowBelow : Bool

/-- A decimal, `digits * 10 ^ exponent`. -/
structure Expansion where
  digits : Nat
  exponent : Int
deriving DecidableEq, Repr

/-- The finite number with some bits; the sign is left out. -/
def Binary.ofBits (bits : UInt64) : Binary :=
  let exponent := ((bits >>> 52) &&& 0x7FF).toNat
  let fraction := (bits &&& 0xFFFFFFFFFFFFF).toNat
  if exponent = 0 then ⟨fraction, -1074, false⟩
  else ⟨1 <<< 52 + fraction, (exponent : Int) - 1075, fraction = 0 && 1 < exponent⟩

/-- How `a * 10 ^ i` compares with `b * 2 ^ j`. -/
def compareScaled (a : Nat) (i : Int) (b : Nat) (j : Int) : Ordering :=
  compare ((a * Nat.pow 10 i.toNat) <<< (-j).toNat) ((b * Nat.pow 10 (-i).toNat) <<< j.toNat)

/-- Whether a decimal is among the reals that a number stands for. -/
def Binary.standsFor (x : Binary) (d : Expansion) : Bool :=
  let low := 4 * x.mantissa - (if x.isNarrowBelow then 1 else 2)
  let atLow := compareScaled d.digits d.exponent low (x.exponent - 2)
  let atHigh := compareScaled d.digits d.exponent (4 * x.mantissa + 2) (x.exponent - 2)
  if x.mantissa % 2 = 0 then atLow != .lt && atHigh != .gt else atLow == .gt && atHigh == .lt

/-- The least `k` with the number below `10 ^ k`. -/
def Binary.scale (x : Binary) : Int :=
  -- no number is below 10 ^ -324, and all are below 10 ^ 309
  let candidates := (List.range 640).map fun (i : Nat) => (i : Int) - 324
  (candidates.find? fun k => compareScaled 1 k x.mantissa x.exponent == .gt).getD 309

/-- The nearest decimal of a grid that the number stands for, if there is one. -/
def Binary.onGrid? (x : Binary) (grid : Int) : Option Expansion :=
  let below := (x.mantissa * Nat.pow 10 (-grid).toNat) <<< x.exponent.toNat
    / Nat.pow 10 grid.toNat <<< (-x.exponent).toNat
  let (low, high) := (Expansion.mk below grid, Expansion.mk (below + 1) grid)
  match x.standsFor low, x.standsFor high with
  | true, false => some low
  | false, true => some high
  | false, false => none
  | true, true =>
    -- the middle between the two decides, with twice the grid as a scale
    if compareScaled (2 * below + 1) grid (2 * x.mantissa) x.exponent == .gt then some low
    else some high

/-- The decimal of the fewest digits that a number stands for; seventeen always suffice. -/
def Binary.shortest (x : Binary) : Expansion :=
  let k := x.scale
  ((List.range 17).findSome? fun (n : Nat) => x.onGrid? (k - (n + 1))).getD ⟨0, 0⟩

/-- The digits of a decimal, with a point where it belongs and no exponent. -/
def Expansion.text (d : Expansion) : List Char :=
  let digits := Text.Numeral.digits d.digits
  if 0 ≤ d.exponent then digits ++ List.replicate d.exponent.toNat '0'
  else
    let places := (-d.exponent).toNat
    let padded := List.replicate (places + 1 - digits.length) '0' ++ digits
    padded.take (padded.length - places) ++ '.' :: padded.drop (padded.length - places)

/-- A decimal without zeros at its end. -/
def Expansion.trimmed : Nat → Expansion → Expansion
  | 0, d => d
  | fuel + 1, d =>
    if d.digits % 10 = 0 ∧ d.digits ≠ 0 then trimmed fuel ⟨d.digits / 10, d.exponent + 1⟩ else d

/-- A floating point number as text: never with an exponent, and with a point only if it has a
    fraction. -/
def text (x : Float) : String :=
  let sign := if x.toBits >>> 63 = 0 then [] else ['-']
  if x.isNaN then "NaN"
  else if x.isInf then String.ofList (sign ++ ['i', 'n', 'f'])
  else if x == 0 then String.ofList (sign ++ ['0'])
  else String.ofList (sign ++ ((Binary.ofBits x.toBits).shortest.trimmed 17).text)

/-- The floating point number nearest to `digits * 10 ^ exponent`.  An exponent that is out of all
    proportion is cut to one that is only just so. -/
def nearest (digits : Nat) (exponent : Int) : Float :=
  let size := (Text.Numeral.digits digits).length
  let lowest : Int := -400 - size
  let exponent := max (min exponent 400) lowest
  if 0 ≤ exponent then Float.ofScientific digits false exponent.toNat
  else Float.ofScientific digits true (-exponent).toNat

example : text 0.1 = "0.1" ∧ text 1e21 = "1000000000000000000000" ∧ text (-2.5) = "-2.5" := by
  decide +kernel

end TopicRelay.Decimal
