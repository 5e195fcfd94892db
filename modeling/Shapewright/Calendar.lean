/-!
# Dates

Days of the proleptic Gregorian calendar, within the years that a date of 32 bits can hold.

A date carries the proof that its day exists and that its year can be held, so nothing that takes a
date has to ask. Dates are made by `date?` only, which decides both. The years are signed, and there
is a year zero: the rule for leap years is followed back before the calendar was introduced, as
usual for dates in texts that programs exchange.
-/

namespace Shapewright
namespace Calendar

/-- Every fourth year, except for those of full centuries that are not divisible by 400. -/
def isLeapYear (year : Int) : Bool :=
  year % 4 == 0 && (year % 100 != 0 || year % 400 == 0)

/-- The number of days of a month, where months are counted from 1. A number that is no month has no
    days, so no date has it. -/
def daysInMonth (year : Int) (month : Nat) : Nat :=
  match month with
  | 2 => if isLeapYear year then 29 else 28
  | 4 | 6 | 9 | 11 => 30
  | 1 | 3 | 5 | 7 | 8 | 10 | 12 => 31
  | _ => 0

/-- The first year that can be held. -/
def firstYear : Int := -262143

/-- The last year that can be held. -/
def lastYear : Int := 262142

/-- A day that exists and can be held. -/
structure Date where
  year : Int
  month : Nat
  day : Nat
  inRange : firstYear ≤ year ∧ year ≤ lastYear
  exists_day : 1 ≤ day ∧ day ≤ daysInMonth year month

/-- The day with the given numbers, if there is one. The evidence is kept in the date, so a day that
    does not exist cannot be made. -/
def date? (year : Int) (month day : Nat) : Option Date :=
  if inRange : firstYear ≤ year ∧ year ≤ lastYear then
    if exists_day : 1 ≤ day ∧ day ≤ daysInMonth year month then
      some { year, month, day, inRange, exists_day }
    else none
  else none

end Calendar
end Shapewright
