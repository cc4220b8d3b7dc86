/-! # Dates

Days of the proleptic Gregorian calendar, which has a year 0, and their distance from the first day
of 1970. -/

namespace ArchivePlan.Calendar

/-- Whether a year has a 29th of February. -/
def isLeap (year : Int) : Bool :=
  year % 4 == 0 && (year % 100 != 0 || year % 400 == 0)

/-- The lengths of the months of a year. -/
def monthLengths (leap : Bool) : List Nat :=
  [31, if leap then 29 else 28, 31, 30, 31, 30, 31, 31, 30, 31, 30, 31]

/-- A year, a month from 1 on and a day from 1 on. -/
structure Date where
  year : Int
  month : Nat
  day : Nat
  deriving DecidableEq, Repr

/-- Whether the calendar has the date. -/
def Date.isValid (date : Date) : Bool :=
  1 ≤ date.month && 1 ≤ date.day &&
    match (monthLengths (isLeap date.year))[date.month - 1]? with
    | some length => date.day ≤ length
    | none => false

/-- The days from the first day of year 1 to the first day of a year. -/
def daysBeforeYear (year : Int) : Int :=
  365 * (year - 1) + (year - 1) / 4 - (year - 1) / 100 + (year - 1) / 400

/-- The days from the first day of year 1 to the first day of 1970. -/
def epochOffset : Int := 719162

/-- The days from the first day of 1970 to a date. -/
def Date.toDays (date : Date) : Int :=
  daysBeforeYear date.year
    + ((monthLengths (isLeap date.year)).take (date.month - 1)).foldl Nat.add 0
    + (date.day - 1) - epochOffset

/-- The length of a day in seconds. -/
def daySeconds : Int := 86400

end ArchivePlan.Calendar
