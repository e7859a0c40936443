/-!
# The calendar

`Date` is a day of the proleptic Gregorian calendar. `Date.dayNumber` counts the days
from the first of January 1970 and `Date.ofDayNumber` finds the day of a count. Both
count years from the first of March, so that a leap day ends its year, and both use that
400 years have 146097 days.
-/

namespace CertKeeper

/-- A day of the calendar. The year before the year 1 is the year 0. -/
structure Date where
  year : Int
  month : Nat
  day : Nat
  deriving DecidableEq, Repr

namespace Date

/-- The year has a leap day. -/
def isLeapYear (year : Int) : Bool :=
  year % 4 = 0 && (year % 100 ≠ 0 || year % 400 = 0)

/-- The number of days of a month, counted from January as 1. -/
def daysInMonth (year : Int) (month : Nat) : Nat :=
  match month with
  | 2 => if isLeapYear year then 29 else 28
  | 4 | 6 | 9 | 11 => 30
  | _ => 31

/-- The day with these fields, if the calendar has it. -/
def ofFields? (year : Int) (month day : Nat) : Option Date :=
  if 1 ≤ month ∧ month ≤ 12 ∧ 1 ≤ day ∧ day ≤ daysInMonth year month then
    some ⟨year, month, day⟩
  else
    none

/-- The number of days from the first of January 1970 to the day. -/
def dayNumber (d : Date) : Int :=
  let year := if d.month ≤ 2 then d.year - 1 else d.year
  let month : Nat := if d.month ≤ 2 then d.month + 9 else d.month - 3
  let dayOfYear : Nat := (153 * month + 2) / 5 + (d.day - 1)
  365 * year + year / 4 - year / 100 + year / 400 + dayOfYear - 719468

/-- The day that is `n` days after the first of January 1970. -/
def ofDayNumber (n : Int) : Date :=
  let shifted := n + 719468
  let era := shifted / 146097
  let dayOfEra := (shifted % 146097).toNat
  let yearOfEra := (dayOfEra - dayOfEra / 1460 + dayOfEra / 36524 - dayOfEra / 146096) / 365
  let dayOfYear := dayOfEra - (365 * yearOfEra + yearOfEra / 4 - yearOfEra / 100)
  let shiftedMonth := (5 * dayOfYear + 2) / 153
  let day := dayOfYear - (153 * shiftedMonth + 2) / 5 + 1
  let month := if shiftedMonth < 10 then shiftedMonth + 3 else shiftedMonth - 9
  let year := era * 400 + yearOfEra
  ⟨if month ≤ 2 then year + 1 else year, month, day⟩

/-- The first year that dates are computed in. -/
def firstYear : Int := -262143

/-- The last year that dates are computed in. -/
def lastYear : Int := 262142

end Date

end CertKeeper
