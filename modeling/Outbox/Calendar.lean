/-!
# The proleptic Gregorian calendar

Days are numbered from 1970-01-01, day 0, in both directions. `Date.dayNumber` counts the days
up to a date and `Date.ofDayNumber` finds the date of a day.

The year of a day is a guess from the mean length of a year, 146097 days in 400 years, moved by
at most one so that the day lies between the first day of the year and that of the next one.
-/

namespace Outbox.Calendar

/-- A year of 366 days. -/
def isLeap (year : Int) : Bool := year % 4 == 0 && (year % 100 != 0 || year % 400 == 0)

/-- Days from 0000-01-01 to the first day of a year. -/
def daysBeforeYear (year : Int) : Int :=
  365 * year + (year + 3) / 4 - (year + 99) / 100 + (year + 399) / 400

/-- Days from 0000-01-01 to 1970-01-01. -/
def epochDay : Int := 719528

/-- The lengths of the months. -/
def monthLengths (year : Int) : List Nat :=
  [31, if isLeap year then 29 else 28, 31, 30, 31, 30, 31, 31, 30, 31, 30, 31]

/-- A calendar date. The first month and the first day have number 1. -/
structure Date where
  year : Int
  month : Nat
  day : Nat
  deriving DecidableEq, Repr

/-- The length of a month, 0 for a month that no year has. -/
def daysInMonth (year : Int) (month : Nat) : Nat :=
  if month = 0 then 0 else (monthLengths year).getD (month - 1) 0

namespace Date

/-- The month and the day exist. -/
def Valid (d : Date) : Prop :=
  1 ≤ d.month ∧ d.month ≤ 12 ∧ 1 ≤ d.day ∧ d.day ≤ daysInMonth d.year d.month

instance (d : Date) : Decidable d.Valid := by unfold Valid; infer_instance

/-- The date, if the month and the day exist. -/
def mk? (year : Int) (month day : Nat) : Option Date :=
  let d : Date := ⟨year, month, day⟩
  if d.Valid then some d else none

/-- The number of a date's day. -/
def dayNumber (d : Date) : Int :=
  let monthDays : Nat := ((monthLengths d.year).take (d.month - 1)).foldl (· + ·) 0
  daysBeforeYear d.year - epochDay + monthDays + (d.day - 1)

end Date

/-- The year in which the day that many days after 0000-01-01 lies. -/
def yearOf (days : Int) : Int :=
  let guess := 400 * days / 146097
  if days < daysBeforeYear guess then guess - 1
  else if daysBeforeYear (guess + 1) ≤ days then guess + 1
  else guess

/-- Takes whole months off a count of days: the months taken and the days left. -/
def splitMonths : List Nat → Nat → Nat × Nat
  | [], days => (0, days)
  | length :: rest, days =>
    if days < length then (0, days)
    else
      let (months, left) := splitMonths rest (days - length)
      (months + 1, left)

/-- The date of a day. -/
def Date.ofDayNumber (number : Int) : Date :=
  let days := number + epochDay
  let year := yearOf days
  let (months, left) := splitMonths (monthLengths year) (days - daysBeforeYear year).toNat
  ⟨year, months + 1, left + 1⟩

end Outbox.Calendar
