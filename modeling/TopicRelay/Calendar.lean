/-
  Moments in time, written as dates of the Gregorian calendar.

  A moment is a number of milliseconds before or after the start of 1970.  The calendar repeats
  every 400 years, which are 146097 days.  Counting years from March puts the leap day at the end
  of its year, so that the day within the year decides the month without looking at the year.
-/
import TopicRelay.Text.Numeral

namespace TopicRelay.Calendar

/-- A day of the calendar; year 0 is the one before year 1. -/
structure Date where
  year : Int
  month : Nat
  day : Nat
deriving DecidableEq, Repr

/-- The day that is `days` days after the first of January 1970. -/
def date (days : Int) : Date :=
  -- days since the first of March of year 0, split into whole cycles and the rest
  let shifted := days + 719468
  let cycle := shifted.fdiv 146097
  let day := (shifted.fmod 146097).toNat
  let year := (day - day / 1460 + day / 36524 - day / 146096) / 365
  let dayOfYear := day - (365 * year + year / 4 - year / 100)
  let monthFromMarch := (5 * dayOfYear + 2) / 153
  let month := if monthFromMarch < 10 then monthFromMarch + 3 else monthFromMarch - 9
  { year := cycle * 400 + year + (if month ≤ 2 then 1 else 0)
    month := month
    day := dayOfYear - (153 * monthFromMarch + 2) / 5 + 1 }

/-- A number with at least `width` digits. -/
def atLeast (width n : Nat) : String :=
  let digits := Text.Numeral.digits n
  String.ofList (List.replicate (width - digits.length) '0' ++ digits)

/-- A year: four digits from 0 to 9999, and otherwise a sign and at least four digits. -/
def yearText (year : Int) : String :=
  if 0 ≤ year ∧ year ≤ 9999 then atLeast 4 year.toNat
  else (if year < 0 then "-" else "+") ++ atLeast 4 year.natAbs

/-- A day as text. -/
def Date.text (d : Date) : String :=
  yearText d.year ++ "-" ++ atLeast 2 d.month ++ "-" ++ atLeast 2 d.day

/-- A moment as text, to the second, or to the millisecond if it is not on a full second. -/
def momentText (milliseconds : Int) : String :=
  let seconds := milliseconds.fdiv 1000
  let fraction := (milliseconds.fmod 1000).toNat
  let ofDay := (seconds.fmod 86400).toNat
  (date (seconds.fdiv 86400)).text ++ " " ++ atLeast 2 (ofDay / 3600) ++ ":"
    ++ atLeast 2 (ofDay / 60 % 60) ++ ":" ++ atLeast 2 (ofDay % 60)
    ++ (if fraction = 0 then "" else "." ++ atLeast 3 fraction) ++ " UTC"

/-- The first millisecond that is written as a date: the start of year -262143. -/
def first : Int := -8334601228800000

/-- The last one: the end of year 262142. -/
def last : Int := 8210266876799999

/-- The moment that is shown for a stored time: the time itself, or the start of 1970 if it is too
    far away. -/
def shown (milliseconds : Int) : Int :=
  if first ≤ milliseconds ∧ milliseconds ≤ last then milliseconds else 0

example : date 0 = ⟨1970, 1, 1⟩ ∧ date 11016 = ⟨2000, 2, 29⟩ ∧ date (-719529) = ⟨-1, 12, 31⟩ := by
  decide
example : date (last / 86400000) = ⟨262142, 12, 31⟩ ∧ date (last / 86400000 + 1) = ⟨262143, 1, 1⟩ := by
  decide
example : date (first / 86400000) = ⟨-262143, 1, 1⟩ ∧ first % 86400000 = 0 := by decide
example : momentText 951868799999 = "2000-02-29 23:59:59.999 UTC" := by decide +kernel

end TopicRelay.Calendar
