/-!
# Dates of the proleptic Gregorian calendar

A date is counted in days from 1 January 1970. The count of a date adds the days of the years, months and days
before it; `Date.ofDayNumber` takes the same count apart into cycles of 400, 100 and 4 years.
-/

namespace Keyset

/-- A day of the calendar; `IsValid` says which triples are days. -/
structure Date where
  year : Int
  month : Nat
  day : Nat
  deriving DecidableEq

namespace Date

/-- Every fourth year is a leap year, of the hundredth years every fourth. -/
def isLeapYear (year : Int) : Bool :=
  year % 4 = 0 && (year % 100 ≠ 0 || year % 400 = 0)

/-- The length of a month, given whether the year is a leap year; zero when there is no such month. -/
def monthLength (leap : Bool) : Nat → Nat
  | 1 | 3 | 5 | 7 | 8 | 10 | 12 => 31
  | 4 | 6 | 9 | 11 => 30
  | 2 => if leap then 29 else 28
  | _ => 0

/-- The days of the year before a month begins. -/
def daysBeforeMonth (leap : Bool) : Nat → Nat
  | 0 => 0
  | month + 1 => daysBeforeMonth leap month + monthLength leap month

/-- The days from 1 January of year 1 to 1 January of a year. -/
def daysBeforeYear (year : Int) : Int :=
  365 * (year - 1) + (year - 1) / 4 - (year - 1) / 100 + (year - 1) / 400

/-- The days from 1 January of year 1 to 1 January 1970. -/
def epoch : Int :=
  719162

/-- A date is valid if its month has the day. -/
def IsValid (d : Date) : Prop :=
  1 ≤ d.day ∧ d.day ≤ monthLength (isLeapYear d.year) d.month

/-- Validity is decided by comparison. -/
instance (d : Date) : Decidable d.IsValid :=
  inferInstanceAs (Decidable (_ ∧ _))

/-- The count of a date in days from 1 January 1970. -/
def dayNumber (d : Date) : Int :=
  daysBeforeYear d.year + daysBeforeMonth (isLeapYear d.year) d.month + (d.day - 1 : Nat) - epoch

/-- The month and the day that the `n`th day of a year is, counted from zero, looking from `month` on. -/
def monthAndDay (leap : Bool) : (months : Nat) → (month n : Nat) → Nat × Nat
  | 0, month, n => (month, n + 1)
  | months + 1, month, n =>
    if n < monthLength leap month then (month, n + 1)
    else monthAndDay leap months (month + 1) (n - monthLength leap month)

/-- The date with a given count. -/
def ofDayNumber (n : Int) : Date :=
  let days := n + epoch
  let inQuadricentury := (days % 146097).toNat
  let century := min 3 (inQuadricentury / 36524)
  let inCentury := inQuadricentury - 36524 * century
  let inQuadrennium := inCentury % 1461
  let yearOfFour := min 3 (inQuadrennium / 365)
  let year : Int := 400 * (days / 146097) + 100 * century + 4 * (inCentury / 1461 : Nat) + yearOfFour + 1
  let (month, day) := monthAndDay (isLeapYear year) 11 1 (inQuadrennium - 365 * yearOfFour)
  ⟨year, month, day⟩

end Date

end Keyset
