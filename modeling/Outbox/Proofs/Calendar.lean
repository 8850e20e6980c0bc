import Mathlib.Algebra.Ring.Nat
import Outbox.Calendar

/-!
# Every day has its date

`Date.ofDayNumber` finds a date that exists (`Date.valid_ofDayNumber`) and whose day is the given
one (`Date.dayNumber_ofDayNumber`), for days in the past and in the future alike.

The years follow each other without a gap (`daysBeforeYear_succ`), and the guess of `yearOf` is
moved to the year in which the day lies (`yearOf_spec`), so a day lies in a year or a later one if
it is not before its first day (`le_yearOf_iff`). Within the year, `splitMonths` stops at the month
in which the day lies (`splitMonths_spec`).
-/

namespace Outbox.Calendar

/-! ## Years -/

/-- The next year begins when this one is over. -/
theorem daysBeforeYear_succ (year : Int) :
    daysBeforeYear (year + 1) = daysBeforeYear year + (monthLengths year).sum := by
  have hleap : isLeap year = true ↔ year % 4 = 0 ∧ (year % 100 ≠ 0 ∨ year % 400 = 0) := by
    simp [isLeap]
  have hsum : ((monthLengths year).sum : Int) = if isLeap year then 366 else 365 := by
    unfold monthLengths
    cases isLeap year <;> rfl
  rw [hsum]
  unfold daysBeforeYear
  by_cases h : isLeap year = true
  · rw [if_pos h]
    rw [hleap] at h
    omega
  · rw [if_neg h]
    rw [hleap] at h
    omega

theorem daysBeforeYear_mono {year year' : Int} (h : year ≤ year') :
    daysBeforeYear year ≤ daysBeforeYear year' := by
  unfold daysBeforeYear
  omega

/-- **A day lies in its year**: not before the first day of it, and before that of the next one. -/
theorem yearOf_spec (days : Int) :
    daysBeforeYear (yearOf days) ≤ days ∧ days < daysBeforeYear (yearOf days + 1) := by
  -- The mean length of a year leads to a neighbour at most: the calendar is less than two days
  -- ahead of it or behind it.
  have hnear : ∀ year, 146097 * year - 400 ≤ 400 * daysBeforeYear year ∧
      400 * daysBeforeYear year ≤ 146097 * year + 800 := by
    intro year
    unfold daysBeforeYear
    omega
  unfold yearOf
  simp only
  generalize hguess : 400 * days / 146097 = guess
  split
  · have hbefore := hnear (guess - 1)
    rw [Int.sub_add_cancel]
    omega
  · split
    · have hafter := hnear (guess + 1 + 1)
      omega
    · omega

/-- A day lies in a year or a later one if it is not before the first day of the year. -/
theorem le_yearOf_iff {year days : Int} : year ≤ yearOf days ↔ daysBeforeYear year ≤ days := by
  have hspec := yearOf_spec days
  constructor
  · intro h
    exact Int.le_trans (daysBeforeYear_mono h) hspec.1
  · intro h
    refine Int.not_lt.mp fun hlater => ?_
    have hmono : daysBeforeYear (yearOf days + 1) ≤ daysBeforeYear year :=
      daysBeforeYear_mono hlater
    omega

/-! ## Months -/

/-- Whole months are taken off up to the month in which the day lies. -/
theorem splitMonths_spec {lengths : List Nat} {days : Nat} (h : days < lengths.sum) :
    (splitMonths lengths days).1 < lengths.length ∧
      (splitMonths lengths days).2 < lengths.getD (splitMonths lengths days).1 0 ∧
      (lengths.take (splitMonths lengths days).1).sum + (splitMonths lengths days).2 = days := by
  induction lengths generalizing days with
  | nil => exact absurd h (Nat.not_lt_zero days)
  | cons length rest ih =>
    rw [List.sum_cons] at h
    unfold splitMonths
    by_cases hfits : days < length
    · rw [if_pos hfits]
      exact ⟨Nat.zero_lt_succ _, hfits, Nat.zero_add days⟩
    · rw [if_neg hfits]
      have hless : days - length < rest.sum := by omega
      obtain ⟨hmonth, hday, hsum⟩ := ih hless
      simp only [List.length_cons, List.getD_cons_succ, List.take_succ_cons, List.sum_cons]
      exact ⟨Nat.succ_lt_succ hmonth, hday, by omega⟩

theorem length_monthLengths (year : Int) : (monthLengths year).length = 12 := rfl

theorem daysInMonth_succ (year : Int) (month : Nat) :
    daysInMonth year (month + 1) = (monthLengths year).getD month 0 := rfl

theorem exists_daysInMonth (year : Int) {month : Nat} (hfirst : 1 ≤ month) (hlast : month ≤ 12) :
    ∃ h : month - 1 < (monthLengths year).length,
      daysInMonth year month = (monthLengths year)[month - 1] := by
  have hlt : month - 1 < (monthLengths year).length := by
    rw [length_monthLengths]
    omega
  refine ⟨hlt, ?_⟩
  unfold daysInMonth
  rw [if_neg (by omega), List.getD_eq_getElem?_getD, List.getElem?_eq_getElem hlt, Option.getD_some]

namespace Date

/-! ## Days and dates -/

theorem dayNumber_eq (d : Date) :
    d.dayNumber =
      daysBeforeYear d.year - epochDay + ((monthLengths d.year).take (d.month - 1)).sum +
        (d.day - 1) := by
  unfold dayNumber
  rw [List.sum_eq_foldl]

theorem year_ofDayNumber (number : Int) :
    (ofDayNumber number).year = yearOf (number + epochDay) := rfl

/-- The day within its year, split into months and days. -/
theorem ofDayNumber_spec (number : Int) :
    1 ≤ (ofDayNumber number).month ∧ (ofDayNumber number).month ≤ 12 ∧
      1 ≤ (ofDayNumber number).day ∧
      (ofDayNumber number).day ≤
        daysInMonth (ofDayNumber number).year (ofDayNumber number).month ∧
      (ofDayNumber number).dayNumber = number := by
  obtain ⟨hfirst, hlast⟩ := yearOf_spec (number + epochDay)
  have hnext := daysBeforeYear_succ (yearOf (number + epochDay))
  have hfits : (number + epochDay - daysBeforeYear (yearOf (number + epochDay))).toNat <
      (monthLengths (yearOf (number + epochDay))).sum := by omega
  obtain ⟨hmonth, hday, hsum⟩ := splitMonths_spec hfits
  rw [dayNumber_eq, year_ofDayNumber]
  unfold ofDayNumber
  simp only
  generalize splitMonths (monthLengths (yearOf (number + epochDay)))
    (number + epochDay - daysBeforeYear (yearOf (number + epochDay))).toNat = split at *
  rw [length_monthLengths] at hmonth
  rw [daysInMonth_succ, Nat.add_sub_cancel]
  refine ⟨by omega, by omega, by omega, by omega, ?_⟩
  omega

/-- **The date of a day exists.** -/
theorem valid_ofDayNumber (number : Int) : (ofDayNumber number).Valid := by
  obtain ⟨hmonth, hmonth', hday, hday', -⟩ := ofDayNumber_spec number
  exact ⟨hmonth, hmonth', hday, hday'⟩

/-- **The date of a day is the date of that day** and of no other. -/
theorem dayNumber_ofDayNumber (number : Int) : (ofDayNumber number).dayNumber = number :=
  (ofDayNumber_spec number).2.2.2.2

theorem mk?_of_valid {d : Date} (h : d.Valid) : mk? d.year d.month d.day = some d := if_pos h

/-- No month has more than 31 days. -/
theorem Valid.bounds {d : Date} (h : d.Valid) : d.month < 10 ^ 2 ∧ d.day < 10 ^ 2 := by
  obtain ⟨hmonth, hmonth', -, hday⟩ := h
  have hlengths : ∀ length ∈ monthLengths d.year, length ≤ 31 := by
    unfold monthLengths
    cases isLeap d.year <;> decide
  obtain ⟨hlt, hdays⟩ := exists_daysInMonth d.year hmonth hmonth'
  have hlength := hlengths _ (List.getElem_mem hlt)
  omega

/-- **A date lies in its year.** -/
theorem Valid.inYear {d : Date} (h : d.Valid) :
    daysBeforeYear d.year ≤ d.dayNumber + epochDay ∧
      d.dayNumber + epochDay < daysBeforeYear (d.year + 1) := by
  obtain ⟨hmonth, hmonth', hday, hday'⟩ := h
  obtain ⟨hlt, hdays⟩ := exists_daysInMonth d.year hmonth hmonth'
  -- Its month and the months before it are among those of the year.
  have hsum := congrArg List.sum (List.take_append_drop (d.month - 1 + 1) (monthLengths d.year))
  rw [← List.take_append_getElem hlt, List.sum_append, List.sum_append, List.sum_singleton] at hsum
  rw [dayNumber_eq, daysBeforeYear_succ]
  omega

end Date
end Outbox.Calendar
