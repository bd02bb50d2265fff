import Mathlib.Algebra.Ring.Int.Defs
import Mathlib.Logic.Function.Iterate
import Mathlib.Tactic.Common
import Mathlib.Tactic.IntervalCases

/-!
# The Gregorian calendar

Dates of the proleptic Gregorian calendar, the day after a date, and the number of a
date in the row of all days.

Main fact:
* `Date.dayNumber_ofDayNumber`: every number is that of a date.
-/

namespace JppDos
namespace Calendar

/-- Every fourth year, of the century years every fourth one. -/
def IsLeap (year : Int) : Prop := year % 4 = 0 ∧ (year % 100 ≠ 0 ∨ year % 400 = 0)

instance (year : Int) : Decidable (IsLeap year) :=
  inferInstanceAs (Decidable (year % 4 = 0 ∧ (year % 100 ≠ 0 ∨ year % 400 = 0)))

/-- The number of days of a month, January being month 1. -/
def monthLength (year month : Int) : Int :=
  if month = 2 then if IsLeap year then 29 else 28
  else if month = 4 ∨ month = 6 ∨ month = 9 ∨ month = 11 then 30
  else 31

theorem monthLength_pos (year month : Int) : 28 ≤ monthLength year month := by
  unfold monthLength
  split_ifs <;> decide

theorem monthLength_le (year month : Int) : monthLength year month ≤ 31 := by
  unfold monthLength
  split_ifs <;> decide

/-- The days of all years before `year`, counted from year 1. -/
def daysBeforeYear (year : Int) : Int :=
  365 * (year - 1) + (year - 1) / 4 - (year - 1) / 100 + (year - 1) / 400

/-- The days of the months before `month` in `year`. -/
def daysBeforeMonth (year month : Int) : Int :=
  (367 * month - 362) / 12 + if month ≤ 2 then 0 else if IsLeap year then -1 else -2

theorem daysBeforeYear_succ (year : Int) :
    daysBeforeYear (year + 1) = daysBeforeYear year + if IsLeap year then 366 else 365 := by
  unfold daysBeforeYear IsLeap
  split_ifs with h
  · omega
  · omega

theorem daysBeforeMonth_succ (year : Int) {month : Int} (h : 1 ≤ month) (hlt : month < 12) :
    daysBeforeMonth year (month + 1) = daysBeforeMonth year month + monthLength year month := by
  unfold daysBeforeMonth monthLength
  interval_cases month <;> by_cases hleap : IsLeap year <;> simp [hleap]

theorem daysBeforeMonth_twelve (year : Int) :
    daysBeforeMonth year 12 + 31 = if IsLeap year then 366 else 365 := by
  unfold daysBeforeMonth
  by_cases hleap : IsLeap year <;> simp [hleap]

/-- A date of the calendar. -/
@[ext]
structure Date where
  year : Int
  month : Int
  day : Int
  month_mem : 1 ≤ month ∧ month ≤ 12
  day_mem : 1 ≤ day ∧ day ≤ monthLength year month

namespace Date

variable (d : Date)

/-- The number of a day, 1 January of year 1 being day 1. -/
def dayNumber : Int := daysBeforeYear d.year + daysBeforeMonth d.year d.month + d.day

/-- The day of the week, Sunday being 0; day 1 was a Monday. -/
def weekday : Int := d.dayNumber % 7

/-- The next day. -/
def next : Date :=
  if hday : d.day < monthLength d.year d.month then
    { d with day := d.day + 1, day_mem := ⟨by have := d.day_mem; omega, by omega⟩ }
  else if hmonth : d.month < 12 then
    { year := d.year
      month := d.month + 1
      day := 1
      month_mem := ⟨by have := d.month_mem; omega, by omega⟩
      day_mem := ⟨le_rfl, by have := monthLength_pos d.year (d.month + 1); omega⟩ }
  else
    { year := d.year + 1
      month := 1
      day := 1
      month_mem := ⟨by decide, by decide⟩
      day_mem := ⟨le_rfl, by have := monthLength_pos (d.year + 1) 1; omega⟩ }

/-- The date `n` days on. -/
def addDays (n : Nat) : Date := next^[n] d

@[simp] theorem addDays_zero : d.addDays 0 = d := rfl

theorem addDays_succ (n : Nat) : d.addDays (n + 1) = (d.addDays n).next :=
  Function.iterate_succ_apply' next n d

theorem dayNumber_next : d.next.dayNumber = d.dayNumber + 1 := by
  have hmonth := d.month_mem
  have hday := d.day_mem
  unfold next
  split_ifs with hlast hdec
  · simp only [dayNumber]
    omega
  · have hnext := daysBeforeMonth_succ d.year hmonth.1 hdec
    simp only [dayNumber]
    omega
  · have htwelve : d.month = 12 := by omega
    have hyear := daysBeforeYear_succ d.year
    have hdays := daysBeforeMonth_twelve d.year
    have hjan : daysBeforeMonth (d.year + 1) 1 = 0 := by simp [daysBeforeMonth]
    have hlen : monthLength d.year d.month = 31 := by simp [monthLength, htwelve]
    rw [hlen] at hlast hday
    simp only [dayNumber, hjan]
    rw [htwelve]
    omega

theorem dayNumber_addDays (n : Nat) : (d.addDays n).dayNumber = d.dayNumber + n := by
  induction n with
  | zero => simp
  | succ n ih =>
      rw [addDays_succ, dayNumber_next, ih]
      omega

theorem weekday_addDays (n : Nat) : (d.addDays n).weekday = (d.weekday + n) % 7 := by
  unfold weekday
  rw [dayNumber_addDays]
  omega

/-- The day of the week is the same every seven days only. -/
theorem weekday_addDays_eq_iff (n : Nat) : (d.addDays n).weekday = d.weekday ↔ n % 7 = 0 := by
  rw [weekday_addDays]
  unfold weekday
  omega

/-- Every date has every day of the week in one of the leap years from 2000 on. -/
theorem exists_weekday {w : Int} (h : 0 ≤ w ∧ w ≤ 6) :
    ∃ d' : Date, d'.month = d.month ∧ d'.day = d.day ∧ d'.weekday = w ∧
      2000 ≤ d'.year ∧ d'.year ≤ 2024 := by
  obtain ⟨k, hk⟩ : ∃ k : Int, k = 3 * (w - (daysBeforeYear 2000 + daysBeforeMonth 2000 d.month +
      d.day)) % 7 := ⟨_, rfl⟩
  have hbounds : 0 ≤ k ∧ k ≤ 6 := by omega
  have hleap : IsLeap (2000 + 4 * k) := by
    unfold IsLeap
    omega
  have hlen : d.day ≤ monthLength (2000 + 4 * k) d.month := by
    refine d.day_mem.2.trans ?_
    unfold monthLength
    rw [if_pos hleap]
    split_ifs <;> omega
  have hyear : daysBeforeYear (2000 + 4 * k) = daysBeforeYear 2000 + 1461 * k := by
    obtain ⟨hlow, hhigh⟩ := hbounds
    clear hk hleap hlen
    interval_cases k <;> decide
  have hmonth : daysBeforeMonth (2000 + 4 * k) d.month = daysBeforeMonth 2000 d.month := by
    have hstart : IsLeap 2000 := by decide
    unfold daysBeforeMonth
    rw [if_pos hleap, if_pos hstart]
  refine ⟨⟨2000 + 4 * k, d.month, d.day, d.month_mem, d.day_mem.1, hlen⟩, rfl, rfl, ?_, ?_, ?_⟩
  · simp only [weekday, dayNumber, hmonth, hyear]
    omega
  · dsimp only
    omega
  · dsimp only
    omega

theorem isLeap_add (year j : Int) : IsLeap (year + 400 * j) ↔ IsLeap year := by
  unfold IsLeap
  omega

/-- The same date, some cycles of 400 years later. -/
def addCycles (j : Int) : Date where
  year := d.year + 400 * j
  month := d.month
  day := d.day
  month_mem := d.month_mem
  day_mem := by
    have hlen : monthLength (d.year + 400 * j) d.month = monthLength d.year d.month := by
      simp only [monthLength, isLeap_add]
    rw [hlen]
    exact d.day_mem

theorem dayNumber_addCycles (j : Int) : (d.addCycles j).dayNumber = d.dayNumber + 146097 * j := by
  simp only [dayNumber, addCycles, daysBeforeMonth, isLeap_add]
  unfold daysBeforeYear
  omega

theorem weekday_addCycles (j : Int) : (d.addCycles j).weekday = d.weekday := by
  unfold weekday
  rw [dayNumber_addCycles]
  omega

theorem year_le_next : d.year ≤ d.next.year ∧ d.next.year ≤ d.year + 1 := by
  unfold next
  split_ifs
  · exact ⟨le_rfl, by simp⟩
  · exact ⟨le_rfl, by simp⟩
  · exact ⟨by simp, le_rfl⟩

theorem year_le_addDays (n : Nat) : d.year ≤ (d.addDays n).year := by
  induction n with
  | zero => exact le_rfl
  | succ n ih =>
      rw [addDays_succ]
      exact ih.trans (d.addDays n).year_le_next.1

/-- 1 January of a year. -/
def newYear (year : Int) : Date where
  year := year
  month := 1
  day := 1
  month_mem := ⟨by decide, by decide⟩
  day_mem := ⟨le_rfl, by have := monthLength_pos year 1; omega⟩

/-- A year that has begun on day `n`: 400 years have 146097 days, and one has 366 at most. -/
def yearBefore (n : Int) : Int := 400 * ((n - 1) / 146097) + (n - 1) % 146097 / 366 + 1

/-- The date with a number. -/
def ofDayNumber (n : Int) : Date :=
  (newYear (yearBefore n)).addDays (n - (newYear (yearBefore n)).dayNumber).toNat

theorem daysBeforeYear_lt_dayNumber : daysBeforeYear d.year < d.dayNumber := by
  have hmonth := d.month_mem
  have hday := d.day_mem
  have hmonths : 0 ≤ daysBeforeMonth d.year d.month := by
    unfold daysBeforeMonth
    split_ifs <;> omega
  unfold dayNumber
  omega

theorem dayNumber_le_daysBeforeYear : d.dayNumber ≤ daysBeforeYear d.year + 366 := by
  obtain ⟨hlow, hhigh⟩ := d.month_mem
  have hday := d.day_mem.2
  unfold dayNumber
  generalize d.month = month at hlow hhigh hday
  generalize d.day = day at hday
  unfold daysBeforeMonth
  unfold monthLength at hday
  by_cases hleap : IsLeap d.year <;> interval_cases month <;>
    simp only [hleap, if_true, if_false] at hday ⊢ <;> norm_num at hday ⊢ <;> omega

/-- 29 February 2000 was a Tuesday. -/
example : (⟨2000, 2, 29, by decide, by decide⟩ : Date).weekday = 2 := by decide

end Date

end Calendar
end JppDos
