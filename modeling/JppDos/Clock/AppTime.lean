import JppDos.Clock.Registers
import JppDos.Lib.Machine
import JppDos.Lib.Numerals

/-!
# The time that apps read

`rtc_reader_cb` prints the stored date-time, all other readers count on from it with
`jpp_rtc_get_current`.

Main fact:
* `app_reads_clock_iff`: when an app reads the clock of the system, in every run of updates.
-/

namespace JppDos
namespace Clock

open CInt Numerals Machine

/-- What a clock without seconds shows. -/
@[ext]
structure ClockFields where
  year : Int
  month : Int
  day : Int
  hour : Int
  minute : Int
  deriving DecidableEq

def RtcDatetime.fields (dt : RtcDatetime) : ClockFields :=
  ⟨dt.year, dt.month, dt.day, dt.hour, dt.minute⟩

/-- `%04d-%02d-%02d %02d:%02d`. -/
def clockText (f : ClockFields) : List UInt8 :=
  showInt 4 f.year ++ 45 :: (showInt 2 f.month ++ 45 :: (showInt 2 f.day ++ 32 ::
    (showInt 2 f.hour ++ 58 :: showInt 2 f.minute)))

/-- `rtc_reader_cb`, with a buffer of 32 bytes. -/
def rtcReaderCb (s : RtcState) : Except String (List UInt8) :=
  if !s.hasDatetime then .error "RTC_UNAVAILABLE"
  else .ok ((clockText s.datetime.fields).take 31)

/-- A date-time whose year is an `int`. -/
abbrev IntDatetime := {dt : RtcDatetime // dt.year < 2 ^ 31}

/-- The clock after `jpp_rtc_state_init`: the configured date-time, whether the clock is enabled
and available, and whether a chip is attached. -/
def stateInit (configured : Option IntDatetime) (enabled clockAvailable attached : Bool)
    (regs : Regs) : RtcChip :=
  let ready := enabled && clockAvailable
  let state : RtcState :=
    { ready, hasDatetime := false, datetime := zeroDatetime, lastHwReadUs := 0 }
  match configured with
  | some dt =>
      if datetimeValid dt then
        ⟨{ state with hasDatetime := true, datetime := dt }, ready && attached, regs⟩
      else ⟨state, ready && attached, regs⟩
  | none => ⟨state, ready && attached, regs⟩

/-- An update of the clock. -/
inductive ClockUpdate
  /-- `jpp_rtc_set_time`. -/
  | setTime (now : Int) (value : Option IntDatetime)
  /-- `handle_set_time` and `ntp_apply`: the clock is set at `now`, the chip, if there is one,
  written by `later`. -/
  | apply (now later : Int) (sent : Bool) (value : IntDatetime)
  /-- `jpp_rtc_hw_read`, when the chip has come to `regs`. -/
  | hwRead (now : Int) (regs : Regs) (received cleared : Bool)

/-- An update; it prints nothing. -/
def clockStep (c : RtcChip) : ClockUpdate → RtcChip × List Unit
  | .setTime now value => ({ c with state := (setTime now c.state (value.map (·.val))).2 }, [])
  | .apply now later sent value =>
      if !datetimeValid value then (c, [])
      else
        let c := { c with state := (setTime now c.state (some value)).2 }
        if c.hwAttached then ((hwWrite later sent c value).2, []) else (c, [])
  | .hwRead now regs received cleared => ((hwRead now received cleared { c with regs }).2, [])

/-- The app's text shows what `jpp_rtc_get_current` reports, or both report no clock. -/
def SameClock (now : Int) (s : RtcState) : Prop :=
  match rtcReaderCb s, getCurrent now s with
  | .ok text, .ok dt => text = clockText dt.fields
  | .error _, .error _ => True
  | _, _ => False

/-- The seconds that `jpp_rtc_get_current` adds. -/
def elapsedS (now : Int) (s : RtcState) : Int :=
  if s.lastHwReadUs = 0 ∨ now - s.lastHwReadUs ≤ 0 then 0
  else wrap32 ((now - s.lastHwReadUs) / 1000000)

/-- The seconds do not carry. -/
def WithinMinute (now : Int) (s : RtcState) : Prop :=
  s.hasDatetime = true → 0 < elapsedS now s → wrap32 (s.datetime.second + elapsedS now s) < 60

theorem showInt_of_nonneg {width : Nat} {x : Int} (h : 0 ≤ x) :
    showInt width x = showPadded width x.natAbs := by
  rw [showInt, if_neg (Int.not_lt.mpr h)]

/-- The fields behind the year have two digits. -/
structure TwoDigits (f : ClockFields) : Prop where
  month : 0 ≤ f.month ∧ f.month < 100
  day : 0 ≤ f.day ∧ f.day < 100
  hour : 0 ≤ f.hour ∧ f.hour < 100
  minute : 0 ≤ f.minute ∧ f.minute < 100

theorem length_clockTail {f : ClockFields} (h : TwoDigits f) :
    (45 :: (showInt 2 f.month ++ 45 :: (showInt 2 f.day ++ 32 ::
      (showInt 2 f.hour ++ 58 :: showInt 2 f.minute))) : List UInt8).length = 12 := by
  have htwo : ∀ x : Int, 0 ≤ x ∧ x < 100 → (showInt 2 x).length = 2 := fun x hx => by
    rw [showInt_of_nonneg hx.1]
    exact length_showPadded (by decide) (by omega)
  simp only [List.length_cons, List.length_append, htwo _ h.month, htwo _ h.day, htwo _ h.hour,
    htwo _ h.minute]

theorem clockText_injective {f f' : ClockFields} (hf : TwoDigits f) (hf' : TwoDigits f')
    (h : clockText f = clockText f') : f = f' := by
  obtain ⟨hyear, htail⟩ := List.append_inj' h (by rw [length_clockTail hf, length_clockTail hf'])
  have htail := (List.cons.inj htail).2
  rw [showInt_of_nonneg hf.month.1, showInt_of_nonneg hf.day.1, showInt_of_nonneg hf.hour.1,
    showInt_of_nonneg hf.minute.1, showInt_of_nonneg hf'.month.1, showInt_of_nonneg hf'.day.1,
    showInt_of_nonneg hf'.hour.1, showInt_of_nonneg hf'.minute.1] at htail
  obtain ⟨hmonth, hmonth'⟩ := And.intro hf.month hf'.month
  obtain ⟨hday, hday'⟩ := And.intro hf.day hf'.day
  obtain ⟨hhour, hhour'⟩ := And.intro hf.hour hf'.hour
  obtain ⟨hminute, hminute'⟩ := And.intro hf.minute hf'.minute
  obtain ⟨hmonths, htail⟩ := showPadded_cons_inj (by omega) (by omega) htail
  obtain ⟨hdays, htail⟩ := showPadded_cons_inj (by omega) (by omega) htail
  obtain ⟨hhours, htail⟩ := showPadded_cons_inj (by omega) (by omega) htail
  have hminutes := showPadded_injective htail
  exact ClockFields.ext (showInt_injective hyear) (by omega) (by omega) (by omega) (by omega)

/-- The buffer holds the text of a year that is an `int`. -/
theorem length_clockText {f : ClockFields} (h : TwoDigits f) (hyear : 0 ≤ f.year)
    (hfits : f.year < 2 ^ 31) : (clockText f).length ≤ 31 := by
  have hdigits := length_showPadded_le 4 (n := f.year.natAbs) (k := 9) (by omega)
  rw [clockText, List.length_append, length_clockTail h, showInt_of_nonneg hyear]
  omega

/-- The date is within the ranges of `jpp_rtc_datetime_valid`. -/
structure InForm (dt : RtcDatetime) : Prop where
  month : 1 ≤ dt.month ∧ dt.month ≤ 12
  day : 1 ≤ dt.day ∧ dt.day ≤ 31

/-- Dates in the order of the calendar. -/
def dateKey (dt : RtcDatetime) : Int := (dt.year * 12 + dt.month) * 32 + dt.day

theorem maxDay_le (dt : RtcDatetime) : maxDay dt ≤ 31 := by
  have hlow := Int.emod_nonneg (dt.month - 1) (show (12 : Int) ≠ 0 by decide)
  have hhigh := Int.emod_lt_of_pos (dt.month - 1) (show (0 : Int) < 12 by decide)
  unfold maxDay
  generalize (dt.month - 1) % 12 = month at hlow hhigh
  dsimp only
  split_ifs
  · decide
  · interval_cases month <;> decide

theorem nextDay_inForm {dt : RtcDatetime} (h : InForm dt) : InForm (nextDay dt) := by
  have hmax := maxDay_le dt
  obtain ⟨⟨hmonth, hmonth'⟩, hday, hday'⟩ := h
  unfold nextDay
  split_ifs with hlast hdec <;> constructor <;> dsimp only <;> omega

/-- A turn moves the date, unless the year wraps around. -/
theorem nextDay_key {dt : RtcDatetime} (h : InForm dt) (hlow : 0 ≤ dt.year)
    (hhigh : dt.year < 2 ^ 31) :
    dateKey dt < dateKey (nextDay dt) ∧ 0 ≤ (nextDay dt).year ∧ (nextDay dt).year < 2 ^ 31 ∨
      (nextDay dt).year = -2 ^ 31 := by
  obtain ⟨⟨hmonth, hmonth'⟩, hday, hday'⟩ := h
  unfold nextDay dateKey
  split_ifs with hlast hdec
  · dsimp only
    by_cases hyear : dt.year + 1 < 2 ^ 31
    · rw [wrap32_of_nonneg (by omega) hyear]
      omega
    · have hend : dt.year + 1 = 2 ^ 31 := by omega
      rw [hend]
      exact Or.inr (by decide)
  · exact Or.inl ⟨by dsimp only; omega, hlow, hhigh⟩
  · exact Or.inl ⟨by dsimp only; omega, hlow, hhigh⟩

theorem iterate_nextDay_inForm {dt : RtcDatetime} (h : InForm dt) (n : Nat) :
    InForm (nextDay^[n] dt) := by
  induction n with
  | zero => exact h
  | succ n ih =>
      rw [Function.iterate_succ_apply']
      exact nextDay_inForm ih

/-- Turns move the date on, or the year below all years that can be set. -/
theorem iterate_nextDay_key {dt : RtcDatetime} (h : InForm dt) (hlow : 0 ≤ dt.year)
    (hhigh : dt.year < 2 ^ 31) (n : Nat) :
    dateKey dt + n ≤ dateKey (nextDay^[n] dt) ∧ 0 ≤ (nextDay^[n] dt).year ∧
        (nextDay^[n] dt).year < 2 ^ 31 ∨
      -2 ^ 31 ≤ (nextDay^[n] dt).year ∧ (nextDay^[n] dt).year ≤ -2 ^ 31 + n := by
  induction n with
  | zero => exact Or.inl ⟨by simp, hlow, hhigh⟩
  | succ n ih =>
      rw [Function.iterate_succ_apply']
      rcases ih with ⟨hkey, hpos, hfits⟩ | ⟨hneg, hle⟩
      · rcases nextDay_key (iterate_nextDay_inForm h n) hpos hfits with ⟨hnext, hyear⟩ | hwrapped
        · exact Or.inl ⟨by omega, hyear⟩
        · exact Or.inr (by omega)
      · have hnext := nextDay_year_le hneg
        exact Or.inr (by omega)

/-- The date-time in front of the loop over hours has the date of the start. -/
theorem advance_eq {dt : RtcDatetime} {e : Int} (htime : OfDay dt)
    (hsum : 0 ≤ wrap32 (dt.second + e)) :
    let seconds := wrap32 (dt.second + e)
    let c : RtcDatetime := { dt with
      second := seconds % 60
      minute := (dt.minute + seconds / 60) % 60
      hour := dt.hour + (dt.minute + seconds / 60) / 60 }
    advance e dt = nextDay^[(c.hour / 24).toNat] c := by
  simp only [advance, carried_eq dt hsum htime.minute.1, carryHours_eq]

theorem advance_of_lt {dt : RtcDatetime} {e : Int} (htime : OfDay dt)
    (hlt : wrap32 (dt.second + e) < 60) :
    advance e dt = { dt with second := wrap32 (dt.second + e) } := by
  have hminute : dt.minute < 60 := Int.lt_add_one_of_le htime.minute.2
  have hturns : (dt.hour / 24).toNat = 0 := by
    have hhour := htime.hour
    omega
  simp only [advance, carryMinutes, carrySeconds, carry_of_lt hlt, carry_of_lt hminute,
    carryHours_eq, hturns, Function.iterate_zero, id_eq]

theorem advance_carry {dt : RtcDatetime} {e : Int} (hform : InForm dt) (htime : OfDay dt)
    (hlow : 0 ≤ dt.year) (hhigh : dt.year < 2 ^ 31) (hge : 60 ≤ wrap32 (dt.second + e)) :
    (advance e dt).fields ≠ dt.fields ∧ TwoDigits (advance e dt).fields := by
  have hlt := wrap32_lt (dt.second + e)
  rw [advance_eq htime (by omega)]
  generalize wrap32 (dt.second + e) = seconds at hge hlt
  obtain ⟨⟨hh, hh'⟩, ⟨hmi, hmi'⟩, -⟩ := htime
  dsimp only
  generalize hn : ((dt.hour + (dt.minute + seconds / 60) / 60) / 24).toNat = n
  obtain ⟨hsame, hhour⟩ := iterate_nextDay_time { dt with
    second := seconds % 60
    minute := (dt.minute + seconds / 60) % 60
    hour := dt.hour + (dt.minute + seconds / 60) / 60 } n
  have hcarried : InForm { dt with
      second := seconds % 60
      minute := (dt.minute + seconds / 60) % 60
      hour := dt.hour + (dt.minute + seconds / 60) / 60 } := ⟨hform.month, hform.day⟩
  have hdate := iterate_nextDay_inForm hcarried n
  have hkey := iterate_nextDay_key hcarried hlow hhigh n
  have hminute := hsame.minute
  generalize nextDay^[n] _ = out at hhour hminute hdate hkey
  dsimp only at hhour hminute
  unfold dateKey at hkey
  dsimp only at hkey
  obtain ⟨⟨hmonth, hmonth'⟩, hday, hday'⟩ := hdate
  refine ⟨fun hfields => ?_, ⟨?_, ?_, ?_, ?_⟩⟩
  · simp only [RtcDatetime.fields, ClockFields.mk.injEq] at hfields
    omega
  all_goals
    simp only [RtcDatetime.fields]
    omega

/-- The date-time that is stored is valid, and its year is an `int`. -/
def Stored (c : RtcChip) : Prop :=
  c.state.hasDatetime = true →
    datetimeValid c.state.datetime = true ∧ c.state.datetime.year < 2 ^ 31

theorem stateInit_stored (configured : Option IntDatetime)
    (enabled clockAvailable attached : Bool) (regs : Regs) :
    Stored (stateInit configured enabled clockAvailable attached regs) := by
  unfold stateInit
  cases configured with
  | none => exact nofun
  | some dt =>
      by_cases hvalid : datetimeValid dt.val = true
      · simp only [hvalid, if_true]
        exact fun _ => ⟨hvalid, dt.prop⟩
      · simp only [if_neg hvalid]
        exact nofun

theorem setTime_stored {c : RtcChip} (h : Stored c) (now : Int) (value : Option IntDatetime) :
    Stored { c with state := (setTime now c.state (value.map (·.val))).2 } := by
  unfold setTime
  by_cases hready : c.state.ready = true
  swap
  · simpa [hready] using h
  · cases value with
    | none =>
        simp only [hready, Option.map_none]
        exact nofun
    | some dt =>
        by_cases hvalid : datetimeValid dt.val = true
        · simp only [hready, Option.map_some, hvalid]
          exact fun _ => ⟨hvalid, dt.prop⟩
        · simpa [hready, hvalid] using h

theorem hwWrite_stored {c : RtcChip} (h : Stored c) (now : Int) (sent : Bool)
    (dt : IntDatetime) : Stored (hwWrite now sent c dt).2 := by
  unfold hwWrite
  split_ifs with hready hvalid
  · exact h
  · exact h
  · exact h
  · simp only [Bool.not_eq_true', Bool.not_eq_false] at hvalid
    exact fun _ => ⟨hvalid, dt.prop⟩

theorem hwRead_stored {c : RtcChip} (h : Stored c) (now : Int) (received cleared : Bool) :
    Stored (hwRead now received cleared c).2 := by
  have hyear : (datetimeOf c.regs).year < 2 ^ 31 := by
    have hlt := (bcdToBin c.regs.year).toNat_lt
    simp only [datetimeOf]
    omega
  unfold hwRead
  dsimp only
  split_ifs with _ _ hvalid
  · exact h
  · exact h
  · exact h
  · exact h
  all_goals
    rw [Bool.not_eq_true', Bool.not_eq_false] at hvalid
    exact fun _ => ⟨hvalid, hyear⟩

theorem clockStep_stored {c : RtcChip} (h : Stored c) (update : ClockUpdate) :
    Stored (clockStep c update).1 := by
  cases update with
  | setTime now value => exact setTime_stored h now value
  | apply now later sent value =>
      simp only [clockStep]
      split_ifs with hvalid hattached
      · exact h
      · exact hwWrite_stored (setTime_stored h now (some value)) later sent value
      · exact setTime_stored h now (some value)
  | hwRead now regs received cleared => exact hwRead_stored (c := { c with regs }) h _ _ _

theorem run_stored {c : RtcChip} (h : Stored c) (updates : List ClockUpdate) :
    Stored (run clockStep c updates) :=
  Along.invariant (I := Stored) (fun _ update hc _ => clockStep_stored hc update)
    (along_true c updates) h

theorem getCurrent_eq (now : Int) {s : RtcState} (h : s.hasDatetime = true) :
    getCurrent now s =
      .ok (if 0 < elapsedS now s then advance (elapsedS now s) s.datetime else s.datetime) := by
  unfold getCurrent elapsedS
  rw [h]
  by_cases hzero : s.lastHwReadUs = 0
  · simp [hzero]
  · by_cases helapsed : now - s.lastHwReadUs ≤ 0
    · simp [hzero, helapsed]
    · simp only [hzero, helapsed, or_self, if_false, Bool.not_true, Bool.false_eq_true]
      by_cases hpos : wrap32 ((now - s.lastHwReadUs) / 1000000) ≤ 0
      · rw [if_pos hpos, if_neg (Int.not_lt.mpr hpos)]
      · rw [if_neg hpos, if_pos (Int.not_le.mp hpos)]

/-- The text is the clock's as long as the seconds do not carry. -/
theorem sameClock_iff {c : RtcChip} (h : Stored c) (now : Int) :
    SameClock now c.state ↔ WithinMinute now c.state := by
  unfold SameClock WithinMinute
  by_cases hset : c.state.hasDatetime = true
  swap
  · rw [Bool.not_eq_true] at hset
    simp [rtcReaderCb, getCurrent, hset]
  obtain ⟨hvalid, hfits⟩ := h hset
  obtain ⟨hyear, hmonth, hday, -, htime, -⟩ := datetimeValid_iff.mp hvalid
  have hform : InForm c.state.datetime := ⟨hmonth, hday⟩
  have hdigits : TwoDigits c.state.datetime.fields := by
    obtain ⟨hhour, hminute, -⟩ := htime
    constructor <;> simp only [RtcDatetime.fields] <;> omega
  have hwhole : (clockText c.state.datetime.fields).take 31 =
      clockText c.state.datetime.fields :=
    List.take_of_length_le (length_clockText hdigits (show 0 ≤ c.state.datetime.year by omega)
      hfits)
  have hreader : rtcReaderCb c.state = .ok (clockText c.state.datetime.fields) := by
    rw [rtcReaderCb, hset, hwhole]
    rfl
  rw [hreader, getCurrent_eq now hset]
  simp only [hset, forall_const]
  by_cases hpos : 0 < elapsedS now c.state
  swap
  · simp [hpos]
  · simp only [hpos, if_true, forall_const]
    constructor
    · intro htext
      by_contra hcarry
      obtain ⟨hmoved, hdigits'⟩ := advance_carry hform htime (by omega) hfits
        (Int.not_lt.mp hcarry)
      exact hmoved (clockText_injective hdigits hdigits' htext).symm
    · intro hlt
      rw [advance_of_lt htime hlt]
      rfl

/-- An app reads the clock of the system until the seconds since the last update carry. -/
theorem app_reads_clock_iff (configured : Option IntDatetime)
    (enabled clockAvailable attached : Bool) (regs : Regs) (updates : List ClockUpdate)
    (now : Int) :
    SameClock now (run clockStep (stateInit configured enabled clockAvailable attached regs)
        updates).state ↔
      WithinMinute now (run clockStep (stateInit configured enabled clockAvailable attached regs)
        updates).state :=
  sameClock_iff (run_stored (stateInit_stored _ _ _ _ _) updates) now

/-- Without a chip, a minute after the clock was set. -/
theorem not_app_reads_clock :
    ¬ ∀ (configured : Option IntDatetime) (enabled clockAvailable attached : Bool) (regs : Regs)
      (updates : List ClockUpdate) (now : Int),
      SameClock now (run clockStep (stateInit configured enabled clockAvailable attached regs)
        updates).state := by
  intro hall
  have hsame := hall none true true false ⟨0, 0, 0, 0, 0, 0, 0⟩
    [.apply 1000000 1000000 true ⟨⟨2024, 1, 1, 1, 12, 0, 0, 0⟩, by decide⟩] 61000000
  have hwithin := (sameClock_iff (run_stored (stateInit_stored _ _ _ _ _) _) _).mp hsame
  exact absurd (hwithin (by decide) (by decide)) (by decide)

end Clock
end JppDos
