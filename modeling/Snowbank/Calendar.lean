/-!
# Calendar

Days of the Gregorian calendar, extended to all years, as a count of days
from the first of January 1970.
-/

namespace Snowbank.Calendar

/-- Every fourth year is a leap year, of the hundreds only every fourth. -/
def isLeap (year : Int) : Bool :=
  year % 4 == 0 && (year % 100 != 0 || year % 400 == 0)

/-- The number of days in a month. -/
def daysInMonth (year : Int) (month : Nat) : Nat :=
  match month with
  | 2 => if isLeap year then 29 else 28
  | 4 | 6 | 9 | 11 => 30
  | _ => 31

def reaches (year : Int) : Bool :=
  -262143 ≤ year && year ≤ 262142

/-- The date exists. -/
def isDate (year : Int) (month day : Nat) : Bool :=
  reaches year && 1 ≤ month && month ≤ 12 && 1 ≤ day && day ≤ daysInMonth year month

/-- Days before the first of January of a year, counted from year zero. -/
def daysBeforeYear (year : Int) : Int :=
  let y := year - 1
  365 * year + y / 4 - y / 100 + y / 400

/-- Days before the first of a month within its year. -/
def daysBeforeMonth (year : Int) (month : Nat) : Nat :=
  ((List.range month).drop 1).foldl (fun n m => n + daysInMonth year m) 0

/-- Days from the first of January 1970 to a date. -/
def dayNumber (year : Int) (month day : Nat) : Int :=
  daysBeforeYear year - daysBeforeYear 1970 + daysBeforeMonth year month + (day : Int) - 1

end Snowbank.Calendar
