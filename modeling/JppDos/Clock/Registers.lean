import JppDos.Clock.Rtc

/-!
# The registers of the clock chip

`jpp_rtc_hw_write` and `jpp_rtc_hw_read`: a date-time goes to the chip in seven bytes, two decimal
digits in each but the day of the week, and comes back from them.

Main fact:
* `registers_roundTrip_iff`: the date-times that come back.
-/

namespace JppDos
namespace Clock

/-- `bcd_to_bin`. -/
def bcdToBin (bcd : UInt8) : UInt8 := (bcd >>> 4) * 10 + (bcd &&& 0x0F)

/-- `bin_to_bcd`. -/
def binToBcd (bin : UInt8) : UInt8 := ((bin / 10) <<< 4) ||| (bin % 10)

/-- The registers 0x00 to 0x06. -/
structure Regs where
  second : UInt8
  minute : UInt8
  hour : UInt8
  weekday : UInt8
  day : UInt8
  month : UInt8
  year : UInt8
  deriving DecidableEq

/-- The clock with its chip. -/
structure RtcChip where
  state : RtcState
  hwAttached : Bool
  regs : Regs
  deriving DecidableEq

/-- `jpp_rtc_status_t` of the functions that use the chip. -/
inductive HwStatus
  | ok
  | invalidTime
  | unavailable
  | hwError
  deriving DecidableEq

/-- The bytes of `jpp_rtc_hw_write`. -/
def regsOf (dt : RtcDatetime) : Regs where
  second := binToBcd (UInt8.ofInt dt.second) &&& 0x7F
  minute := binToBcd (UInt8.ofInt dt.minute)
  hour := binToBcd (UInt8.ofInt dt.hour) &&& 0x3F
  weekday := UInt8.ofInt dt.weekday
  day := binToBcd (UInt8.ofInt dt.day)
  month := binToBcd (UInt8.ofInt dt.month)
  year := binToBcd (UInt8.ofInt (dt.year - 2000))

/-- `jpp_rtc_hw_write`; `now` is `esp_timer_get_time`, and `sent` says whether the transfer
succeeds. -/
def hwWrite (now : Int) (sent : Bool) (c : RtcChip) (dt : RtcDatetime) : HwStatus × RtcChip :=
  if !c.state.ready || !c.hwAttached then (.unavailable, c)
  else if !datetimeValid dt then (.invalidTime, c)
  else if !sent then (.hwError, c)
  else (.ok, { c with
    regs := regsOf dt
    state := { c.state with datetime := dt, hasDatetime := true, lastHwReadUs := now } })

/-- The date-time in the registers, once the clock runs. -/
def datetimeOf (regs : Regs) : RtcDatetime where
  second := (bcdToBin (regs.second &&& 0x7F)).toNat
  minute := (bcdToBin regs.minute).toNat
  hour := (bcdToBin (regs.hour &&& 0x3F)).toNat
  weekday := regs.weekday.toNat
  day := (bcdToBin regs.day).toNat
  month := (bcdToBin regs.month).toNat
  year := 2000 + (bcdToBin regs.year).toNat
  subseconds := 0

/-- `jpp_rtc_hw_read`; `received` says whether the transfer succeeds, and `cleared` whether
the halted clock could be started. -/
def hwRead (now : Int) (received cleared : Bool) (c : RtcChip) : HwStatus × RtcChip :=
  if !c.state.ready || !c.hwAttached then (.unavailable, c)
  else if !received then (.hwError, c)
  else
    let halted := c.regs.second &&& 0x80 ≠ 0
    let chip :=
      if halted ∧ cleared then { c with regs := { c.regs with second := c.regs.second &&& 0x7F } }
      else c
    let dt := datetimeOf c.regs
    if !datetimeValid dt then (.invalidTime, chip)
    else (.ok, { chip with
      state := { c.state with datetime := dt, hasDatetime := true, lastHwReadUs := now } })

/-- The fields that the registers hold are the same. -/
structure SameFields (dt dt' : RtcDatetime) : Prop where
  year : dt'.year = dt.year
  month : dt'.month = dt.month
  day : dt'.day = dt.day
  weekday : dt'.weekday = dt.weekday
  hour : dt'.hour = dt.hour
  minute : dt'.minute = dt.minute
  second : dt'.second = dt.second

/-- Two digits come back, the first of which may go up to 15. -/
theorem bcdToBin_binToBcd {n : Nat} (h : n < 160) :
    bcdToBin (binToBcd (UInt8.ofNat n)) = UInt8.ofNat n := by
  have hall : ∀ n < 160, bcdToBin (binToBcd (UInt8.ofNat n)) = UInt8.ofNat n := by decide +kernel
  exact hall n h

theorem bcdToBin_lt (b : UInt8) : (bcdToBin (binToBcd b)).toNat < 160 := by
  have hall : ∀ n < 256, (bcdToBin (binToBcd (UInt8.ofNat n))).toNat < 160 := by decide +kernel
  have hb := hall b.toNat b.toNat_lt
  rwa [UInt8.ofNat_toNat] at hb

theorem binToBcd_second {n : Nat} (h : n < 60) :
    binToBcd (UInt8.ofNat n) &&& 0x7F = binToBcd (UInt8.ofNat n) := by
  have hall : ∀ n < 60, binToBcd (UInt8.ofNat n) &&& 0x7F = binToBcd (UInt8.ofNat n) := by decide
  exact hall n h

theorem binToBcd_hour {n : Nat} (h : n < 24) :
    binToBcd (UInt8.ofNat n) &&& 0x3F = binToBcd (UInt8.ofNat n) := by
  have hall : ∀ n < 24, binToBcd (UInt8.ofNat n) &&& 0x3F = binToBcd (UInt8.ofNat n) := by decide
  exact hall n h

theorem ofInt_eq_ofNat {x : Int} (h : 0 ≤ x) (hlt : x < 256) :
    UInt8.ofInt x = UInt8.ofNat x.toNat := by
  rw [UInt8.ofInt, show x % 2 ^ 8 = x by omega]

theorem toNat_ofInt {x : Int} (h : 0 ≤ x) (hlt : x < 256) : ((UInt8.ofInt x).toNat : Int) = x := by
  have hnat : x.toNat < 256 := by omega
  rw [ofInt_eq_ofNat h hlt, UInt8.toNat_ofNat_of_lt' hnat]
  omega

theorem field_back {x : Int} (h : 0 ≤ x) (hlt : x < 160) :
    ((bcdToBin (binToBcd (UInt8.ofInt x))).toNat : Int) = x := by
  have hback := bcdToBin_binToBcd (show x.toNat < 160 by omega)
  rw [← ofInt_eq_ofNat h (by omega)] at hback
  rw [hback, toNat_ofInt h (by omega)]

theorem year_back_iff {x : Int} (h : 2000 ≤ x) :
    2000 + ((bcdToBin (binToBcd (UInt8.ofInt (x - 2000)))).toNat : Int) = x ↔ x ≤ 2159 := by
  constructor
  · intro hback
    have hlt := bcdToBin_lt (UInt8.ofInt (x - 2000))
    omega
  · intro hle
    rw [field_back (by omega) (by omega)]
    omega

theorem datetimeOf_regsOf {dt : RtcDatetime} (hvalid : datetimeValid dt = true) :
    datetimeOf (regsOf dt) =
      { dt with
        year := 2000 + (bcdToBin (binToBcd (UInt8.ofInt (dt.year - 2000)))).toNat
        subseconds := 0 } := by
  obtain ⟨-, hmonth, hday, hweekday, ⟨hhour, hminute, hsecond⟩, -⟩ := datetimeValid_iff.mp hvalid
  have hmaskSecond :
      binToBcd (UInt8.ofInt dt.second) &&& 0x7F = binToBcd (UInt8.ofInt dt.second) := by
    rw [ofInt_eq_ofNat hsecond.1 (by omega), binToBcd_second (by omega)]
  have hmaskHour : binToBcd (UInt8.ofInt dt.hour) &&& 0x3F = binToBcd (UInt8.ofInt dt.hour) := by
    rw [ofInt_eq_ofNat hhour.1 (by omega), binToBcd_hour (by omega)]
  simp only [datetimeOf, regsOf, hmaskSecond, hmaskHour]
  rw [field_back hsecond.1 (by omega), field_back hminute.1 (by omega),
    field_back hhour.1 (by omega), field_back (show 0 ≤ dt.day by omega) (by omega),
    field_back (show 0 ≤ dt.month by omega) (by omega), toNat_ofInt hweekday.1 (by omega)]

/-- The time is read back: the reading succeeds, and its fields are those that were written. -/
def ReadsBack (now : Int) (cleared : Bool) (c : RtcChip) (dt : RtcDatetime) : Prop :=
  (hwRead now true cleared c).1 = .ok ∧ SameFields dt (hwRead now true cleared c).2.state.datetime

variable {now : Int} {sent : Bool} {c : RtcChip} {dt : RtcDatetime}

theorem hwWrite_ok (h : (hwWrite now sent c dt).1 = .ok) :
    c.state.ready = true ∧ c.hwAttached = true ∧ datetimeValid dt = true ∧
      (hwWrite now sent c dt).2 = { c with
        regs := regsOf dt
        state := { c.state with datetime := dt, hasDatetime := true, lastHwReadUs := now } } := by
  unfold hwWrite at h ⊢
  split_ifs at h ⊢ with hoff hinvalid hfailed
  simp only [Bool.or_eq_true, Bool.not_eq_true', not_or, Bool.not_eq_false] at hoff hinvalid
  exact ⟨hoff.1, hoff.2, hinvalid, rfl⟩

/-- The registers hold a valid time, and the clock is not halted. -/
theorem hwRead_regsOf (now : Int) (cleared : Bool) (hready : c.state.ready = true)
    (hattached : c.hwAttached = true) (hvalid : datetimeValid dt = true)
    (hregs : c.regs = regsOf dt) :
    (hwRead now true cleared c).1 = .ok ∧
      (hwRead now true cleared c).2.state.datetime = datetimeOf (regsOf dt) := by
  have hback : datetimeValid (datetimeOf (regsOf dt)) = true := by
    obtain ⟨hyear, hmonth, hday, hweekday, htime, -⟩ := datetimeValid_iff.mp hvalid
    rw [datetimeOf_regsOf hvalid]
    refine datetimeValid_iff.mpr ⟨?_, hmonth, hday, hweekday, ⟨htime.1, htime.2, htime.3⟩,
      Int.le_refl 0⟩
    exact Int.le_add_of_nonneg_right (Int.natCast_nonneg _)
  unfold hwRead
  rw [hregs, hready, hattached]
  simp only [hback, Bool.not_true, Bool.or_self, Bool.false_eq_true, if_false, and_self]

/-- The date-times that come back from the registers. -/
theorem registers_roundTrip_iff (hwrite : (hwWrite now sent c dt).1 = .ok) (later : Int)
    (cleared : Bool) :
    ReadsBack later cleared (hwWrite now sent c dt).2 dt ↔ dt.year ≤ 2159 := by
  obtain ⟨hready, hattached, hvalid, heq⟩ := hwWrite_ok hwrite
  have hyear := (datetimeValid_iff.mp hvalid).1
  have hready' : (hwWrite now sent c dt).2.state.ready = true := by rw [heq]; exact hready
  have hattached' : (hwWrite now sent c dt).2.hwAttached = true := by rw [heq]; exact hattached
  have hregs : (hwWrite now sent c dt).2.regs = regsOf dt := by rw [heq]
  obtain ⟨hok, hread⟩ := hwRead_regsOf later cleared hready' hattached' hvalid hregs
  rw [ReadsBack, hread, datetimeOf_regsOf hvalid, ← year_back_iff hyear]
  exact ⟨fun h => h.2.year, fun h => ⟨hok, h, rfl, rfl, rfl, rfl, rfl, rfl⟩⟩

/-- The chip after start-up, with its registers cleared. -/
def freshChip : RtcChip where
  state := { ready := true, hasDatetime := false, datetime := zeroDatetime, lastHwReadUs := 0 }
  hwAttached := true
  regs := ⟨0, 0, 0, 0, 0, 0, 0⟩

theorem registers_roundTrip_leapDay :
    (hwWrite 1 true freshChip ⟨2024, 2, 29, 4, 23, 59, 58, 0⟩).1 = .ok ∧
      ReadsBack 2 true (hwWrite 1 true freshChip ⟨2024, 2, 29, 4, 23, 59, 58, 0⟩).2
        ⟨2024, 2, 29, 4, 23, 59, 58, 0⟩ :=
  ⟨by decide, (registers_roundTrip_iff (by decide) 2 true).mpr (by decide)⟩

/-- The year 2160 is read as 2000. -/
theorem not_registers_roundTrip :
    ¬ ∀ (now : Int) (sent : Bool) (c : RtcChip) (dt : RtcDatetime),
      (hwWrite now sent c dt).1 = .ok → ∀ (later : Int) (cleared : Bool),
        ReadsBack later cleared (hwWrite now sent c dt).2 dt := by
  intro hall
  have hback := hall 1 true freshChip ⟨2160, 1, 1, 2, 0, 0, 0, 0⟩ (by decide) 2 true
  exact absurd hback.2.year (by decide)

end Clock
end JppDos
