/-!
# Calendar dates

Dates of the Gregorian calendar from year 1 to 9999, counted by day numbers
from 1 January of year 1. A date may also be named by year, week and weekday:
week 1 is the week, Monday first, that holds the year's first Thursday.
-/

namespace PropertyRisk.Time

def isLeap (year : Nat) : Bool :=
  year % 4 == 0 && (year % 100 != 0 || year % 400 == 0)

def daysInMonth (year month : Nat) : Nat :=
  match month with
  | 2 => if isLeap year then 29 else 28
  | 4 | 6 | 9 | 11 => 30
  | _ => 31

def daysInYear (year : Nat) : Nat := if isLeap year then 366 else 365

structure Date where
  year : Nat
  month : Nat
  day : Nat
  valid : 1 ≤ year ∧ year ≤ 9999 ∧ 1 ≤ month ∧ month ≤ 12 ∧ 1 ≤ day ∧ day ≤ daysInMonth year month
deriving DecidableEq, Repr

/-- The date with these numbers, if there is one. -/
def Date.of? (year month day : Nat) : Option Date :=
  if valid : 1 ≤ year ∧ year ≤ 9999 ∧ 1 ≤ month ∧ month ≤ 12 ∧ 1 ≤ day ∧
      day ≤ daysInMonth year month then
    some ⟨year, month, day, valid⟩
  else none

/-- The days of all years before one. -/
def daysBeforeYear (year : Nat) : Nat :=
  let y := year - 1
  y * 365 + y / 4 - y / 100 + y / 400

/-- The days of a year before one of its months. -/
def daysBeforeMonth (year : Nat) : (month : Nat) → Nat
  | 0 => 0
  | 1 => 0
  | month + 1 => daysBeforeMonth year month + daysInMonth year month

/-- The number of a date; 1 January of year 1 is day 1, a Monday. -/
def Date.dayNumber (d : Date) : Nat :=
  daysBeforeYear d.year + daysBeforeMonth d.year d.month + d.day

/-- The date of a year's `n`-th day, searched from `month` on. -/
def dateInYear (year : Nat) : (left month n : Nat) → Option Date
  | 0, _, _ => none
  | left + 1, month, n =>
    let length := daysInMonth year month
    if n ≤ length then Date.of? year month n else dateInYear year left (month + 1) (n - length)

/-- The date of a day number. -/
def Date.ofDayNumber? (n : Nat) : Option Date :=
  let near := n * 400 / 146097
  ([near, near + 1, near + 2].find? fun year =>
      daysBeforeYear year < n && n ≤ daysBeforeYear (year + 1)).bind fun year =>
    dateInYear year 12 1 (n - daysBeforeYear year)

/-- The day of the year of the Monday of week 1, from -2 to 4. -/
def firstMonday (year : Nat) : Int :=
  let weekday : Nat := (daysBeforeYear year) % 7
  if weekday ≤ 3 then 1 - weekday else 8 - weekday

/-- Whether a year has a week 53: it begins on a Thursday, or on a Wednesday
and is a leap year. -/
def hasLongWeek (year : Nat) : Bool :=
  let weekday := (daysBeforeYear year) % 7
  weekday == 3 || (weekday == 2 && isLeap year)

/-- The date of a weekday, 1 for Monday to 7 for Sunday, of a week. It may lie
in the year before or after. -/
def Date.ofWeek? (year week weekday : Nat) : Option Date :=
  if year < 1 || 9999 < year || weekday < 1 || 7 < weekday || week < 1 || 53 < week ||
      (week == 53 && !hasLongWeek year) then none
  else
    let n := firstMonday year + 7 * ((week : Int) - 1) + ((weekday : Int) - 1)
    if n < 1 then dateInYear (year - 1) 12 1 (n + daysInYear (year - 1)).toNat
    else if (daysInYear year : Int) < n then dateInYear (year + 1) 12 1 (n - daysInYear year).toNat
    else dateInYear year 12 1 n.toNat

end PropertyRisk.Time
