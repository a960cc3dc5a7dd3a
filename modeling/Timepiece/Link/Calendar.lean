/-!
# Local time in seconds

The watch has no time zone: it is told the local time as the seconds that would
have passed since the start of 1970 if local time were universal time.  Dates are
those of the Gregorian calendar, also before it was introduced.

## Main definitions

* `Calendar.daysBefore` — the days from the start of 1970 to a date.
* `Calendar.seconds` — the seconds to a date and time.

## Main results

* `Calendar.daysBeforeYear_add_400` — four hundred years have 146097 days.
-/

namespace Timepiece.Calendar

/-- A date and a time of day. -/
structure Reading where
  year : Int
  month : Nat
  day : Nat
  hour : Nat
  minute : Nat
  second : Nat
  deriving DecidableEq, Repr

/-- Whether a year has a leap day. -/
def isLeap (year : Int) : Bool := year % 4 == 0 && (year % 100 != 0 || year % 400 == 0)

/-- The days from the start of the year 1 to the start of a year. -/
def daysBeforeYear (year : Int) : Int :=
  let y := year - 1
  y * 365 + y / 4 - y / 100 + y / 400

/-- The days of the months, January first. -/
def monthLengths (year : Int) : List Nat :=
  [31, if isLeap year then 29 else 28, 31, 30, 31, 30, 31, 31, 30, 31, 30, 31]

/-- The days from the start of a year to the start of a month. -/
def daysBeforeMonth (year : Int) (month : Nat) : Nat :=
  ((monthLengths year).take (month - 1)).foldl (· + ·) 0

/-- The days from the start of 1970 to a date. -/
def daysBefore (year : Int) (month day : Nat) : Int :=
  daysBeforeYear year - daysBeforeYear 1970 + daysBeforeMonth year month + day - 1

/-- The seconds from the start of 1970 to a date and time. -/
def seconds (r : Reading) : Int :=
  daysBefore r.year r.month r.day * 86400 + r.hour * 3600 + r.minute * 60 + r.second

/-- Four hundred years have 146097 days. -/
theorem daysBeforeYear_add_400 (year : Int) :
    daysBeforeYear (year + 400) = daysBeforeYear year + 146097 := by
  simp only [daysBeforeYear]
  omega

end Timepiece.Calendar
