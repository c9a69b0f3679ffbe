/-
Days, times of day, and the two together, as configuration files hold them.

A moment may say how far its clock is ahead of universal time. The type
holds whole microseconds, and a day is one of the proleptic Gregorian
calendar; `Day.isValid` says which triples of numbers are days.
-/

namespace LicenseExpr

/-- A day by its numbers. -/
structure Day where
  year : Nat
  month : Nat
  day : Nat
deriving DecidableEq

/-- A time by its numbers. -/
structure TimeOfDay where
  hour : Nat
  minute : Nat
  second : Nat := 0
  microsecond : Nat := 0
deriving DecidableEq

/-- How far a clock is ahead of universal time, and how that was written. -/
structure Offset where
  seconds : Int
  name : String
deriving DecidableEq

/-- A day, a time of day, or both. -/
inductive Moment where
  | day (day : Day)
  | time (time : TimeOfDay)
  | dayTime (day : Day) (time : TimeOfDay) (offset : Option Offset)
deriving DecidableEq

namespace Day

/-- Every fourth year, but of the full centuries only every fourth. -/
def isLeapYear (year : Nat) : Bool :=
  year % 4 == 0 && (year % 100 != 0 || year % 400 == 0)

/-- How many days a month has. -/
def daysInMonth (year month : Nat) : Nat :=
  if month == 2 then if isLeapYear year then 29 else 28
  else if month == 4 || month == 6 || month == 9 || month == 11 then 30
  else 31

/-- A day of the years 1 to 9999. -/
def isValid (d : Day) : Bool :=
  1 ≤ d.year && d.year ≤ 9999 && 1 ≤ d.month && d.month ≤ 12
    && 1 ≤ d.day && d.day ≤ daysInMonth d.year d.month

end Day

/-- A time without leap seconds. -/
def TimeOfDay.isValid (t : TimeOfDay) : Bool :=
  t.hour < 24 && t.minute < 60 && t.second < 60 && t.microsecond < 1000000

end LicenseExpr
