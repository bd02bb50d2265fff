import JppDos.Lib.CInt
import JppDos.Lib.Calendar

/-!
# The software clock

`jpp_rtc_core.c` between two readings of the clock chip: `jpp_rtc_set_time` notes a
date-time with the microseconds since boot, `jpp_rtc_get_current` counts on from it.

Main fact:
* `getCurrent_exact_iff`: when the reading is the calendar's.
-/

namespace JppDos
namespace Clock

open CInt Calendar

/-- `jpp_rtc_datetime_t`. -/
structure RtcDatetime where
  year : Int
  month : Int
  day : Int
  weekday : Int
  hour : Int
  minute : Int
  second : Int
  subseconds : Int
deriving Repr, DecidableEq

/-- `jpp_rtc_status_t`, as far as these functions use it. -/
inductive RtcStatus where
  | ok
  | invalidTime
  | unavailable
deriving Repr, DecidableEq

/-- The fields of `jpp_rtc_state_t` that the software clock reads. -/
structure RtcState where
  ready : Bool
  hasDatetime : Bool
  datetime : RtcDatetime
  lastHwReadUs : Int
deriving Repr, DecidableEq

/-- `jpp_rtc_datetime_valid`. -/
def datetimeValid (dt : RtcDatetime) : Bool :=
  dt.year ≥ 2000 ∧ dt.month ≥ 1 ∧ dt.month ≤ 12 ∧ dt.day ≥ 1 ∧ dt.day ≤ 31 ∧
    dt.weekday ≥ 0 ∧ dt.weekday ≤ 6 ∧ dt.hour ≥ 0 ∧ dt.hour ≤ 23 ∧
    dt.minute ≥ 0 ∧ dt.minute ≤ 59 ∧ dt.second ≥ 0 ∧ dt.second ≤ 59 ∧ dt.subseconds ≥ 0

/-- `memset` of a date-time. -/
def zeroDatetime : RtcDatetime := ⟨0, 0, 0, 0, 0, 0, 0, 0⟩

/-- `jpp_rtc_set_time`; `now` is `esp_timer_get_time`. -/
def setTime (now : Int) (s : RtcState) (value : Option RtcDatetime) : RtcStatus × RtcState :=
  if !s.ready then (.unavailable, s)
  else
    match value with
    | none => (.ok, { s with hasDatetime := false, datetime := zeroDatetime })
    | some dt =>
        if !datetimeValid dt then (.invalidTime, s)
        else (.ok, { s with datetime := dt, hasDatetime := true, lastHwReadUs := now })

/-- `while (low >= unit) { low -= unit; high++; }`; within an `int` of seconds there are
too few turns for `high` to overflow. -/
def carry (unit low high : Int) : Int × Int :=
  if 0 < unit ∧ unit ≤ low then carry unit (low - unit) (high + 1) else (low, high)
termination_by low.toNat
decreasing_by omega

/-- `while (out->second >= 60) ..` -/
def carrySeconds (dt : RtcDatetime) : RtcDatetime :=
  { dt with
    second := (carry 60 dt.second dt.minute).1
    minute := (carry 60 dt.second dt.minute).2 }

/-- `while (out->minute >= 60) ..` -/
def carryMinutes (dt : RtcDatetime) : RtcDatetime :=
  { dt with
    minute := (carry 60 dt.minute dt.hour).1
    hour := (carry 60 dt.minute dt.hour).2 }

/-- `days_in_month`. -/
def daysInMonth : List Int := [31, 28, 31, 30, 31, 30, 31, 31, 30, 31, 30, 31]

/-- `max_day`. -/
def maxDay (dt : RtcDatetime) : Int :=
  let monthIdx := (dt.month - 1) % 12
  if monthIdx = 1 ∧ dt.year % 4 = 0 ∧ (dt.year % 100 ≠ 0 ∨ dt.year % 400 = 0) then 29
  else daysInMonth.getD monthIdx.toNat 0

/-- One turn of `while (out->hour >= 24)`. -/
def nextDay (dt : RtcDatetime) : RtcDatetime :=
  if maxDay dt < dt.day + 1 then
    if 12 < dt.month + 1 then
      { dt with hour := dt.hour - 24, day := 1, month := 1, year := wrap32 (dt.year + 1) }
    else { dt with hour := dt.hour - 24, day := 1, month := dt.month + 1 }
  else { dt with hour := dt.hour - 24, day := dt.day + 1 }

theorem nextDay_hour (dt : RtcDatetime) : (nextDay dt).hour = dt.hour - 24 := by
  unfold nextDay
  split_ifs <;> rfl

/-- `while (out->hour >= 24) ..` -/
def carryHours (dt : RtcDatetime) : RtcDatetime :=
  if 24 ≤ dt.hour then carryHours (nextDay dt) else dt
termination_by dt.hour.toNat
decreasing_by
  rw [nextDay_hour]
  omega

/-- `out->second += elapsed_s`, and the three loops. -/
def advance (elapsedS : Int) (dt : RtcDatetime) : RtcDatetime :=
  carryHours (carryMinutes (carrySeconds { dt with second := wrap32 (dt.second + elapsedS) }))

/-- `jpp_rtc_get_current`; `now` is `esp_timer_get_time`. -/
def getCurrent (now : Int) (s : RtcState) : Except RtcStatus RtcDatetime :=
  if !s.hasDatetime then .error .unavailable
  else if s.lastHwReadUs = 0 then .ok s.datetime
  else
    let elapsedUs := now - s.lastHwReadUs
    if elapsedUs ≤ 0 then .ok s.datetime
    else
      let elapsedS := wrap32 (elapsedUs / 1000000)
      if elapsedS ≤ 0 then .ok s.datetime else .ok (advance elapsedS s.datetime)

theorem carry_eq {unit : Int} (hunit : 0 < unit) (low high : Int) (hlow : 0 ≤ low) :
    carry unit low high = (low % unit, high + low / unit) := by
  fun_induction carry unit low high with
  | case1 low high hle ih =>
      have hdiv : (low - unit + 1 * unit) / unit = (low - unit) / unit + 1 :=
        Int.add_mul_ediv_right _ 1 hunit.ne'
      rw [one_mul, Int.sub_add_cancel] at hdiv
      rw [ih (by omega), Int.sub_emod_right, hdiv, add_assoc, add_comm 1]
  | case2 low high hle =>
      have hlt : low < unit := by omega
      rw [Int.emod_eq_of_lt hlow hlt, Int.ediv_eq_zero_of_lt hlow hlt, add_zero]

theorem carry_of_lt {unit low : Int} (hlow : low < unit) (high : Int) :
    carry unit low high = (low, high) := by
  rw [carry, if_neg (by omega)]

theorem carryHours_eq (dt : RtcDatetime) :
    carryHours dt = nextDay^[(dt.hour / 24).toNat] dt := by
  fun_induction carryHours dt with
  | case1 dt h ih =>
      have hturns : (dt.hour / 24).toNat = ((nextDay dt).hour / 24).toNat + 1 := by
        rw [nextDay_hour]
        omega
      rw [ih, hturns, Function.iterate_succ_apply]
  | case2 dt h =>
      have hturns : (dt.hour / 24).toNat = 0 := by omega
      rw [hturns]
      rfl

/-- The date of a date-time. -/
structure ShowsDate (dt : RtcDatetime) (d : Date) : Prop where
  year : dt.year = d.year
  month : dt.month = d.month
  day : dt.day = d.day

theorem maxDay_eq {dt : RtcDatetime} {d : Date} (h : ShowsDate dt d) :
    maxDay dt = monthLength d.year d.month := by
  have hmonth := d.month_mem
  unfold maxDay
  rw [h.year, h.month]
  generalize d.month = month at hmonth
  obtain ⟨hlow, hhigh⟩ := hmonth
  change (if (month - 1) % 12 = 1 ∧ IsLeap d.year then 29
    else daysInMonth.getD ((month - 1) % 12).toNat 0) = _
  by_cases hleap : IsLeap d.year <;> interval_cases month <;>
    simp [monthLength, daysInMonth, hleap]

/-- Fields that a turn of the loop over hours leaves as they are. -/
structure SameTime (dt dt' : RtcDatetime) : Prop where
  weekday : dt'.weekday = dt.weekday
  minute : dt'.minute = dt.minute
  second : dt'.second = dt.second
  subseconds : dt'.subseconds = dt.subseconds

theorem nextDay_sameTime (dt : RtcDatetime) : SameTime dt (nextDay dt) := by
  unfold nextDay
  split_ifs <;> exact ⟨rfl, rfl, rfl, rfl⟩

/-- One turn goes to the next day; the year is an `int`. -/
theorem nextDay_date {dt : RtcDatetime} {d : Date} (h : ShowsDate dt d) (hfits : Fits d.year) :
    (nextDay dt).year = wrap32 d.next.year ∧ (nextDay dt).month = d.next.month ∧
      (nextDay dt).day = d.next.day := by
  have hsame : wrap32 d.year = d.year := wrap32_of_fits hfits
  unfold nextDay Date.next
  rw [maxDay_eq h, h.day, h.month]
  by_cases hlast : d.day < monthLength d.year d.month
  · have hstay : ¬ monthLength d.year d.month < d.day + 1 := by omega
    simp only [if_neg hstay, dif_pos hlast, h.year, hsame, and_self]
  · have hcross : monthLength d.year d.month < d.day + 1 := by omega
    by_cases hdec : d.month < 12
    · have hyear : ¬ 12 < d.month + 1 := by omega
      simp only [if_pos hcross, dif_neg hlast, if_neg hyear, dif_pos hdec, h.year, hsame, and_self]
    · have hyear : 12 < d.month + 1 := by omega
      simp only [if_pos hcross, dif_neg hlast, if_pos hyear, dif_neg hdec, h.year, and_self]

theorem nextDay_year_le {dt : RtcDatetime} (h : -2 ^ 31 ≤ dt.year) :
    -2 ^ 31 ≤ (nextDay dt).year ∧ (nextDay dt).year ≤ dt.year + 1 := by
  unfold nextDay
  split_ifs
  · exact ⟨neg_le_wrap32 _, wrap32_le (by omega)⟩
  · exact ⟨h, by simp⟩
  · exact ⟨h, by simp⟩

/-- The dates of `n` turns.  Once the year has wrapped around, the few turns of one
reading do not bring it back above zero. -/
theorem iterate_nextDay_date {dt : RtcDatetime} {d : Date} (h : ShowsDate dt d)
    (hpos : 0 ≤ d.year) (hlt : d.year < 2 ^ 31) (n : Nat) :
    let r := nextDay^[n] dt
    0 ≤ (d.addDays n).year ∧
      (((d.addDays n).year < 2 ^ 31 ∧ ShowsDate r (d.addDays n)) ∨
        (2 ^ 31 ≤ (d.addDays n).year ∧ -2 ^ 31 ≤ r.year ∧ r.year ≤ -2 ^ 31 + n)) := by
  induction n with
  | zero => exact ⟨hpos, Or.inl ⟨hlt, h⟩⟩
  | succ n ih =>
      obtain ⟨hnonneg, hcase⟩ := ih
      have hgrows := (d.addDays n).year_le_next
      simp only [Function.iterate_succ_apply', Date.addDays_succ] at hcase ⊢
      refine ⟨by omega, ?_⟩
      rcases hcase with ⟨hfit, hshow⟩ | ⟨hbig, hlow, hhigh⟩
      · obtain ⟨hyear, hmonth, hday⟩ := nextDay_date hshow ⟨by omega, hfit⟩
        by_cases hnext : (d.addDays n).next.year < 2 ^ 31
        · rw [wrap32_of_nonneg (by omega) hnext] at hyear
          exact Or.inl ⟨hnext, hyear, hmonth, hday⟩
        · have hfirst : (d.addDays n).next.year = 2 ^ 31 := by omega
          have hwrapped : wrap32 (2 ^ 31) = -2 ^ 31 := by decide
          rw [hfirst, hwrapped] at hyear
          right
          omega
      · right
        have hyear := nextDay_year_le hlow
        omega

theorem iterate_nextDay_time (dt : RtcDatetime) (n : Nat) :
    SameTime dt (nextDay^[n] dt) ∧ (nextDay^[n] dt).hour = dt.hour - 24 * n := by
  induction n with
  | zero => exact ⟨⟨rfl, rfl, rfl, rfl⟩, by simp⟩
  | succ n ih =>
      obtain ⟨hsame, hhour⟩ := ih
      rw [Function.iterate_succ_apply']
      have hnext := nextDay_sameTime (nextDay^[n] dt)
      refine ⟨⟨hnext.weekday.trans hsame.weekday, hnext.minute.trans hsame.minute,
        hnext.second.trans hsame.second, hnext.subseconds.trans hsame.subseconds⟩, ?_⟩
      rw [nextDay_hour, hhour]
      omega

/-- The seconds since midnight. -/
def timeOfDay (dt : RtcDatetime) : Int := dt.hour * 3600 + dt.minute * 60 + dt.second

/-- Hour, minute and second are in their ranges. -/
structure OfDay (dt : RtcDatetime) : Prop where
  hour : 0 ≤ dt.hour ∧ dt.hour ≤ 23
  minute : 0 ≤ dt.minute ∧ dt.minute ≤ 59
  second : 0 ≤ dt.second ∧ dt.second ≤ 59

theorem datetimeValid_iff {dt : RtcDatetime} :
    datetimeValid dt = true ↔ 2000 ≤ dt.year ∧ (1 ≤ dt.month ∧ dt.month ≤ 12) ∧
      (1 ≤ dt.day ∧ dt.day ≤ 31) ∧ (0 ≤ dt.weekday ∧ dt.weekday ≤ 6) ∧ OfDay dt ∧
      0 ≤ dt.subseconds := by
  simp only [datetimeValid, ge_iff_le, decide_eq_true_eq]
  constructor
  · rintro ⟨hy, hmo, hmo', hd, hd', hw, hw', hh, hh', hmi, hmi', hs, hs', hsub⟩
    exact ⟨hy, ⟨hmo, hmo'⟩, ⟨hd, hd'⟩, ⟨hw, hw'⟩, ⟨⟨hh, hh'⟩, ⟨hmi, hmi'⟩, ⟨hs, hs'⟩⟩, hsub⟩
  · rintro ⟨hy, ⟨hmo, hmo'⟩, ⟨hd, hd'⟩, ⟨hw, hw'⟩, ⟨⟨hh, hh'⟩, ⟨hmi, hmi'⟩, ⟨hs, hs'⟩⟩, hsub⟩
    exact ⟨hy, hmo, hmo', hd, hd', hw, hw', hh, hh', hmi, hmi', hs, hs', hsub⟩

theorem carried_eq (dt : RtcDatetime) {seconds : Int} (hseconds : 0 ≤ seconds)
    (hminute : 0 ≤ dt.minute) :
    carryMinutes (carrySeconds { dt with second := seconds }) =
      { dt with
        second := seconds % 60
        minute := (dt.minute + seconds / 60) % 60
        hour := dt.hour + (dt.minute + seconds / 60) / 60 } := by
  have hsixty : (0 : Int) < 60 := by decide
  simp only [carryMinutes, carrySeconds, carry_eq hsixty seconds dt.minute hseconds,
    carry_eq hsixty (dt.minute + seconds / 60) dt.hour (by omega)]

/-- The date-time `e` seconds on: the time of day and the date move, the day of the
week does not. -/
theorem advance_spec {dt : RtcDatetime} {d : Date} {e : Int} (hshow : ShowsDate dt d)
    (htime : OfDay dt) (hpos : 0 ≤ d.year) (hlt : d.year < 2 ^ 31) (he : 0 ≤ e)
    (hfits : dt.second + e < 2 ^ 31) :
    let out := advance e dt
    let n := ((timeOfDay dt + e) / 86400).toNat
    (out.weekday = dt.weekday ∧ out.subseconds = dt.subseconds) ∧
      (OfDay out ∧ timeOfDay out = (timeOfDay dt + e) % 86400) ∧
      (((d.addDays n).year < 2 ^ 31 ∧ ShowsDate out (d.addDays n)) ∨
        (2 ^ 31 ≤ (d.addDays n).year ∧ out.year < 0)) := by
  obtain ⟨⟨hh, hh'⟩, ⟨hmi, hmi'⟩, hs, hs'⟩ := htime
  have hsum : wrap32 (dt.second + e) = dt.second + e := wrap32_of_nonneg (by omega) hfits
  have hstart := carried_eq dt (show 0 ≤ dt.second + e by omega) hmi
  have hturns : ((dt.hour + (dt.minute + (dt.second + e) / 60) / 60) / 24).toNat =
      ((timeOfDay dt + e) / 86400).toNat := by
    unfold timeOfDay
    congr 1
    omega
  simp only [advance, hsum, hstart, carryHours_eq, hturns]
  generalize hn : ((timeOfDay dt + e) / 86400).toNat = n
  obtain ⟨hsame, hhour⟩ := iterate_nextDay_time
    { dt with
      second := (dt.second + e) % 60
      minute := (dt.minute + (dt.second + e) / 60) % 60
      hour := dt.hour + (dt.minute + (dt.second + e) / 60) / 60 } n
  have hcarried : ShowsDate
      { dt with
        second := (dt.second + e) % 60
        minute := (dt.minute + (dt.second + e) / 60) % 60
        hour := dt.hour + (dt.minute + (dt.second + e) / 60) / 60 } d :=
    ⟨hshow.year, hshow.month, hshow.day⟩
  obtain ⟨_, hdate⟩ := iterate_nextDay_date hcarried hpos hlt n
  have hminute := hsame.minute
  have hsecond := hsame.second
  simp only at hhour hminute hsecond
  unfold timeOfDay at hn ⊢
  refine ⟨⟨hsame.weekday, hsame.subseconds⟩, ⟨⟨?_, ?_, ?_⟩, ?_⟩, hdate.imp_right fun h => ?_⟩
  · rw [hhour]
    omega
  · rw [hminute]
    omega
  · rw [hsecond]
    omega
  · rw [hhour, hminute, hsecond]
    omega
  · exact ⟨h.1, by omega⟩

/-- With too many seconds the sum wraps around, and no loop takes a turn. -/
theorem advance_overflow {dt : RtcDatetime} {e : Int} (htime : OfDay dt) (he : e < 2 ^ 31)
    (hbig : ¬ dt.second + e < 2 ^ 31) : (advance e dt).second < 0 := by
  obtain ⟨⟨hh, hh'⟩, ⟨hmi, hmi'⟩, hs, hs'⟩ := htime
  have hwrap : wrap32 (dt.second + e) < 0 := by
    unfold wrap32
    rw [Int.bmod_def]
    split_ifs <;> omega
  have hseconds : carry 60 (wrap32 (dt.second + e)) dt.minute =
      (wrap32 (dt.second + e), dt.minute) := carry_of_lt (by omega) _
  have hminutes : carry 60 dt.minute dt.hour = (dt.minute, dt.hour) := carry_of_lt (by omega) _
  have hturns : (dt.hour / 24).toNat = 0 := by omega
  simp only [advance, carryMinutes, carrySeconds, hseconds, hminutes, carryHours_eq, hturns,
    Function.iterate_zero, id_eq]
  exact hwrap

/-- A date-time of the calendar, as a `jpp_rtc_datetime_t` can hold it. -/
structure OfCalendar (dt : RtcDatetime) (d : Date) : Prop where
  date : ShowsDate dt d
  fits : d.year < 2 ^ 31
  valid : datetimeValid dt = true
  weekday : dt.weekday = d.weekday

/-- The seconds from the first midnight of the calendar's day 0. -/
def instant (dt : RtcDatetime) (d : Date) : Int := d.dayNumber * 86400 + timeOfDay dt

/-- A reading that is a date-time of the calendar, `n` seconds after `base`. -/
def ExactAfter (base : RtcDatetime) (d : Date) (n : Int)
    (reading : Except RtcStatus RtcDatetime) : Prop :=
  ∃ out d', reading = .ok out ∧ OfCalendar out d' ∧ instant out d' = instant base d + n

/-- The midnights between a date-time and the one `n` seconds on. -/
def midnights (dt : RtcDatetime) (n : Int) : Nat := ((timeOfDay dt + n) / 86400).toNat

/-- What the elapsed seconds `n` must be for the clock to count them: it was not set in
the very microsecond 0, the sum of seconds fits an `int`, a whole number of weeks
of midnights is passed, and the year fits an `int`. -/
structure Counts (base : RtcDatetime) (d : Date) (now n : Int) : Prop where
  started : now = 0 → n = 0
  second : base.second + n < 2 ^ 31
  weeks : midnights base n % 7 = 0
  year : (d.addDays (midnights base n)).year < 2 ^ 31

variable {base : RtcDatetime} {d : Date} {now later : Int} {s : RtcState}

theorem setTime_ok (hvalid : datetimeValid base = true) (hready : s.ready = true) :
    setTime now s (some base) =
      (.ok, { s with datetime := base, hasDatetime := true, lastHwReadUs := now }) := by
  simp [setTime, hready, hvalid]

theorem ShowsDate.unique {dt : RtcDatetime} {d d' : Date} (h : ShowsDate dt d)
    (h' : ShowsDate dt d') : d' = d :=
  Date.ext (h'.year ▸ h.year) (h'.month ▸ h.month) (h'.day ▸ h.day)

/-- Before a second has passed, and on a stopped clock, the reading is the start. -/
theorem exactAfter_base_iff (hbase : OfCalendar base d) (n : Int) :
    ExactAfter base d n (.ok base) ↔ n = 0 := by
  constructor
  · rintro ⟨out, d', hout, hcal, hinstant⟩
    obtain rfl := Except.ok.inj hout
    rw [hbase.date.unique hcal.date] at hinstant
    omega
  · rintro rfl
    exact ⟨base, d, rfl, hbase, (add_zero _).symm⟩

/-- The reading with the elapsed seconds `e`, as an `int`, added. -/
theorem exactAfter_advance_iff (hbase : OfCalendar base d) {e n : Int} (he : 0 < e)
    (hint : e < 2 ^ 31) :
    ExactAfter base d n (.ok (advance e base)) ↔
      n = e ∧ base.second + e < 2 ^ 31 ∧ midnights base e % 7 = 0 ∧
        (d.addDays (midnights base e)).year < 2 ^ 31 := by
  obtain ⟨hyear, _, _, hweekday, htime, hsub⟩ := datetimeValid_iff.mp hbase.valid
  have hpos : 0 ≤ d.year := by
    rw [← hbase.date.year]
    omega
  by_cases hsum : base.second + e < 2 ^ 31
  · obtain ⟨⟨hsameday, hsamesub⟩, ⟨hout, htod⟩, hdate⟩ :=
      advance_spec hbase.date htime hpos hbase.fits he.le hsum
    have hinstant : instant (advance e base) (d.addDays (midnights base e)) =
        instant base d + e := by
      obtain ⟨⟨hh, _⟩, ⟨hmi, _⟩, hs, _⟩ := htime
      unfold instant midnights
      rw [htod, Date.dayNumber_addDays]
      unfold timeOfDay
      omega
    constructor
    · rintro ⟨out, d', heq, hcal, hlies⟩
      obtain rfl := Except.ok.inj heq
      rcases hdate with ⟨hfit, hshow⟩ | ⟨_, hneg⟩
      · obtain rfl := hshow.unique hcal.date
        have hweek := hcal.weekday
        rw [hsameday, hbase.weekday] at hweek
        exact ⟨by unfold midnights at hinstant; omega, hsum,
          (d.weekday_addDays_eq_iff _).mp hweek.symm, hfit⟩
      · have hvalid := (datetimeValid_iff.mp hcal.valid).1
        omega
    · rintro ⟨rfl, _, hweeks, hfit⟩
      rcases hdate with ⟨_, hshow⟩ | ⟨hbig, _⟩
      · refine ⟨_, d.addDays (midnights base n), rfl, ⟨hshow, hfit, ?_, ?_⟩, hinstant⟩
        · have hgrown := d.year_le_addDays (midnights base n)
          have hmonth := (d.addDays (midnights base n)).month_mem
          have hday := (d.addDays (midnights base n)).day_mem
          have hlen := monthLength_le (d.addDays (midnights base n)).year
            (d.addDays (midnights base n)).month
          rw [datetimeValid_iff, hshow.year, hshow.month, hshow.day, hsameday, hsamesub]
          rw [hbase.date.year] at hyear
          unfold midnights at *
          exact ⟨by omega, hmonth, ⟨hday.1, by omega⟩, hweekday, hout, hsub⟩
        · rw [hsameday, hbase.weekday]
          exact ((d.weekday_addDays_eq_iff _).mpr hweeks).symm
      · unfold midnights at hfit
        omega
  · constructor
    · rintro ⟨out, d', heq, hcal, _⟩
      obtain rfl := Except.ok.inj heq
      have hneg := advance_overflow htime hint hsum
      have hsecond := (datetimeValid_iff.mp hcal.valid).2.2.2.2.1.second
      omega
    · rintro ⟨_, h, _⟩
      exact absurd h hsum

theorem midnights_zero (htime : OfDay base) : midnights base 0 = 0 := by
  obtain ⟨⟨hh, hh'⟩, ⟨hmi, hmi'⟩, hs, hs'⟩ := htime
  unfold midnights timeOfDay
  omega

theorem counts_zero (hbase : OfCalendar base d) : Counts base d now 0 := by
  have htime := (datetimeValid_iff.mp hbase.valid).2.2.2.2.1
  have hsecond := htime.second
  refine ⟨fun _ => rfl, by omega, ?_, ?_⟩
  · rw [midnights_zero htime]
  · rw [midnights_zero htime]
    exact hbase.fits

/-- The clock set to a date-time of the calendar, and read later: the reading is the
date-time of the calendar that lies the elapsed seconds on, its day of the week
included, exactly if the clock can count them. -/
theorem getCurrent_exact_iff (hbase : OfCalendar base d) (hready : s.ready = true)
    (hlater : now ≤ later) :
    ExactAfter base d ((later - now) / 1000000) (getCurrent later (setTime now s (some base)).2) ↔
      Counts base d now ((later - now) / 1000000) := by
  have hsecond := (datetimeValid_iff.mp hbase.valid).2.2.2.2.1.second
  have hnonneg : 0 ≤ (later - now) / 1000000 := by omega
  rw [setTime_ok hbase.valid hready]
  simp only [getCurrent, Bool.not_true, Bool.false_eq_true, if_false]
  split_ifs with hzero hback hlow
  · rw [exactAfter_base_iff hbase]
    constructor
    · intro h
      rw [h]
      exact counts_zero hbase
    · exact fun h => h.started hzero
  · have hsame : (later - now) / 1000000 = 0 := by omega
    rw [exactAfter_base_iff hbase, hsame]
    exact ⟨fun _ => counts_zero hbase, fun _ => rfl⟩
  · rw [exactAfter_base_iff hbase]
    constructor
    · intro h
      rw [h]
      exact counts_zero hbase
    · intro h
      have hfits := h.second
      rw [wrap32_of_nonneg hnonneg (by omega)] at hlow
      omega
  · have hint := wrap32_lt ((later - now) / 1000000)
    rw [exactAfter_advance_iff hbase (by omega) hint]
    constructor
    · rintro ⟨heq, hsum, hweeks, hyear⟩
      rw [← heq] at hsum hweeks hyear
      exact ⟨fun h => absurd h hzero, hsum, hweeks, hyear⟩
    · rintro ⟨_, hsum, hweeks, hyear⟩
      have heq : wrap32 ((later - now) / 1000000) = (later - now) / 1000000 :=
        wrap32_of_nonneg hnonneg (by omega)
      rw [heq]
      exact ⟨rfl, hsum, hweeks, hyear⟩

/-- 31 December 2023, a Sunday, one second before midnight. -/
def newYearsEve : RtcDatetime := ⟨2023, 12, 31, 0, 23, 59, 59, 0⟩

/-- The date of `newYearsEve`. -/
def lastDay : Date := ⟨2023, 12, 31, by decide, by decide⟩

theorem newYearsEve_ofCalendar : OfCalendar newYearsEve lastDay :=
  ⟨⟨rfl, rfl, rfl⟩, by decide, by decide, by decide⟩

/-- A clock that has been initialised and not been set. -/
def readyClock : RtcState := ⟨true, false, zeroDatetime, 0⟩

/-- A week and a second later, on another Sunday. -/
theorem getCurrent_exact_iff_week :
    ExactAfter newYearsEve lastDay 518401
      (getCurrent 518402000000 (setTime 1000000 readyClock (some newYearsEve)).2) :=
  (getCurrent_exact_iff (s := readyClock) newYearsEve_ofCalendar rfl
    (show (1000000 : Int) ≤ 518402000000 by decide)).mpr
      ⟨by decide, by decide, by decide, by decide⟩

/-- One second later it is Monday, 1 January 2024, but the clock says Sunday. -/
theorem not_exact :
    ¬ ∀ (base : RtcDatetime) (d : Date) (s : RtcState) (now later : Int),
      OfCalendar base d → s.ready = true → 0 < now → now ≤ later →
      ExactAfter base d ((later - now) / 1000000)
        (getCurrent later (setTime now s (some base)).2) := by
  intro h
  have hread := h newYearsEve lastDay readyClock 1000000 2000000 newYearsEve_ofCalendar rfl
    (by decide) (by decide)
  have hcounts := (getCurrent_exact_iff newYearsEve_ofCalendar rfl (by decide)).mp hread
  exact absurd hcounts.weeks (by decide)

end Clock
end JppDos
