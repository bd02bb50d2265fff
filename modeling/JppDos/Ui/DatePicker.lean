import JppDos.Lib.CInt
import JppDos.Lib.Calendar
import JppDos.Lib.Numerals
import JppDos.Ui.Keyboard

/-!
# The picker for dates and times

`jpp_sdk_datetime_picker`: three numbers that the keys step, that a typed text replaces, or the text
of the clock; and the text that it returns.
-/

namespace JppDos
namespace Ui

open CInt CText Calendar Machine Numerals

/-- The types of `jpp_sdk_input_type_t` that have a picker. -/
inductive PickType where
  | date
  | time
  deriving DecidableEq

/-- `int v[SDK_DT_FIELDS]`. -/
structure DtFields where
  v0 : Int
  v1 : Int
  v2 : Int
  deriving DecidableEq

/-- `v[f]`. -/
def DtFields.get (v : DtFields) : Nat → Int
  | 0 => v.v0
  | 1 => v.v1
  | _ => v.v2

/-- `v[f] = x`. -/
def DtFields.set (v : DtFields) (f : Nat) (x : Int) : DtFields :=
  match f with
  | 0 => { v with v0 := x }
  | 1 => { v with v1 := x }
  | _ => { v with v2 := x }

/-- `sdk_dt_days_in_month`. -/
def sdkDtDaysInMonth (year month : Int) : Int :=
  if month < 1 ∨ month > 12 then 31
  else if month = 2 then
    if (year % 4 = 0 ∧ year % 100 ≠ 0) ∨ year % 400 = 0 then 29 else 28
  else [31, 28, 31, 30, 31, 30, 31, 31, 30, 31, 30, 31].getD (month - 1).toNat 0

/-- `if (x < lo) x = lo; if (x > hi) x = hi;` -/
def clampTo (lo hi x : Int) : Int :=
  let x := if x < lo then lo else x
  if x > hi then hi else x

/-- `sdk_dt_clamp`. -/
def sdkDtClamp (type : PickType) (v : DtFields) : DtFields :=
  match type with
  | .date =>
      let year := clampTo 1970 2099 v.v0
      let month := clampTo 1 12 v.v1
      ⟨year, month, clampTo 1 (sdkDtDaysInMonth year month) v.v2⟩
  | .time => ⟨clampTo 0 23 v.v0, clampTo 0 59 v.v1, clampTo 0 59 v.v2⟩

/-- The range of a field. -/
def dtRange (type : PickType) (v : DtFields) (f : Nat) : Int × Int :=
  match type, f with
  | .date, 0 => (1970, 2099)
  | .date, 1 => (1, 12)
  | .date, _ => (1, sdkDtDaysInMonth v.v0 v.v1)
  | .time, 0 => (0, 23)
  | .time, _ => (0, 59)

/-- The field a step on, before the fields are clamped. -/
def dtStepped (type : PickType) (v : DtFields) (f : Nat) (delta : Int) : DtFields :=
  let (lo, hi) := dtRange type v f
  let range := hi - lo + 1
  v.set f (lo + ((v.get f - lo + delta).tmod range + range).tmod range)

/-- `sdk_dt_step_field`. -/
def sdkDtStepField (type : PickType) (v : DtFields) (f : Nat) (delta : Int) : DtFields :=
  sdkDtClamp type (dtStepped type v f delta)

/-- `"%04d-%02d-%02d"` or `"%02d:%02d:%02d"`. -/
def dtText (type : PickType) (v : DtFields) : List UInt8 :=
  match type with
  | .date => showInt 4 v.v0 ++ 45 :: (showInt 2 v.v1 ++ 45 :: showInt 2 v.v2)
  | .time => showInt 2 v.v0 ++ 58 :: (showInt 2 v.v1 ++ 58 :: showInt 2 v.v2)

/-- `sdk_dt_format`. -/
def sdkDtFormat (type : PickType) (v : DtFields) (outLen : Nat) : List UInt8 :=
  (dtText type v).take (outLen - 1)

/-- `sdk_dt_parse_nums` with room for `max` more numbers, and the value of the one that is being
read. -/
def sdkDtParseNums (max : Nat) : Option Int → List UInt8 → List Int
  | none, [] => []
  | some v, [] => [v]
  | none, c :: s =>
      if max = 0 then []
      else if 48 ≤ c.toNat ∧ c.toNat ≤ 57 then
        sdkDtParseNums max (some (wrap32 (0 * 10 + (c.toNat - 48)))) s
      else sdkDtParseNums max none s
  | some v, c :: s =>
      if 48 ≤ c.toNat ∧ c.toNat ≤ 57 then
        sdkDtParseNums max (some (wrap32 (v * 10 + (c.toNat - 48)))) s
      else v :: sdkDtParseNums (max - 1) none s

/-- Behind the fields: `SDK_DT_BTN_123`, `SDK_DT_BTN_NOW`, `SDK_DT_BTN_CANCEL` and
`SDK_DT_BTN_OK`. -/
def dtFocusCount : Nat := 7

/-- The picker on the screen, or gone. -/
structure Picker where
  v : DtFields
  focus : Nat
  shown : Bool
  deriving DecidableEq

/-- What the picker returns: a text, with the fields on the screen, or nothing. -/
inductive PickOut where
  | ok (text : List UInt8) (v : DtFields)
  | back
  deriving DecidableEq

/-- A key, with what the keyboard would return on OK and the clock if it is readable. -/
structure PickInput where
  key : SdkKey
  typed : Option CStr
  rtcText : Option CStr
  deriving DecidableEq

/-- The fields before the first key. -/
def pickerStart (type : PickType) : Picker where
  v := sdkDtClamp type (match type with | .date => ⟨2026, 1, 1⟩ | .time => ⟨0, 0, 0⟩)
  focus := 0
  shown := true

/-- The fields from a text that was typed: what it has no number for stays. -/
def dtTyped (type : PickType) (v : DtFields) (typed : CStr) : DtFields :=
  let parsed := sdkDtParseNums 3 none typed.val
  sdkDtClamp type ⟨parsed.getD 0 v.v0, parsed.getD 1 v.v1, parsed.getD 2 v.v2⟩

/-- The fields from the text of the clock, which has no seconds. -/
def dtNow (type : PickType) (v : DtFields) (text : CStr) : DtFields :=
  let nums := sdkDtParseNums 5 none text.val
  sdkDtClamp type <|
    match type with
    | .date => if 3 ≤ nums.length then ⟨nums.getD 0 0, nums.getD 1 0, nums.getD 2 0⟩ else v
    | .time => if 5 ≤ nums.length then ⟨nums.getD 3 0, nums.getD 4 0, 0⟩ else v

/-- OK on the field or the button with the focus. -/
def pickerOk (type : PickType) (bufLen : Nat) (input : PickInput) (p : Picker) :
    Picker × List PickOut :=
  if p.focus < 3 ∨ p.focus = 6 then
    ({ p with shown := false }, [.ok (sdkDtFormat type p.v bufLen) p.v])
  else if p.focus = 5 then ({ p with shown := false }, [.back])
  else if p.focus = 3 then
    match input.typed with
    | some typed => ({ p with v := dtTyped type p.v typed }, [])
    | none => (p, [])
  else if p.focus = 4 then
    match input.rtcText with
    | some text => ({ p with v := dtNow type p.v text }, [])
    | none => (p, [])
  else (p, [])

/-- A turn of the loop of `jpp_sdk_datetime_picker`. -/
def pickerStep (type : PickType) (bufLen : Nat) (p : Picker) (input : PickInput) :
    Picker × List PickOut :=
  if !p.shown then (p, [])
  else
    match input.key with
    | .left => ({ p with focus := if p.focus = 0 then dtFocusCount - 1 else p.focus - 1 }, [])
    | .right => ({ p with focus := (p.focus + 1) % dtFocusCount }, [])
    | .up => (if p.focus < 3 then { p with v := sdkDtStepField type p.v p.focus 1 } else p, [])
    | .down => (if p.focus < 3 then { p with v := sdkDtStepField type p.v p.focus (-1) } else p, [])
    | .ok => pickerOk type bufLen input p
    | .okLong => ({ p with shown := false }, [.back])
    | .none => (p, [])

/-- A date of the calendar from 1970 to 2099, or a time of the day. -/
def ValidFields (type : PickType) (v : DtFields) : Prop :=
  match type with
  | .date => ∃ d : Date, v = ⟨d.year, d.month, d.day⟩ ∧ 1970 ≤ d.year ∧ d.year ≤ 2099
  | .time => (0 ≤ v.v0 ∧ v.v0 ≤ 23) ∧ (0 ≤ v.v1 ∧ v.v1 ≤ 59) ∧ 0 ≤ v.v2 ∧ v.v2 ≤ 59

/-- A step up that clamps nothing is taken back by a step down. -/
def Restores (type : PickType) (v : DtFields) (f : Nat) : Prop :=
  sdkDtClamp type (dtStepped type v f 1) = dtStepped type v f 1 →
    sdkDtStepField type (sdkDtStepField type v f 1) f (-1) = v

/-- The fields are valid and can be stepped to and fro. -/
structure GoodFields (type : PickType) (v : DtFields) : Prop where
  valid : ValidFields type v
  restores : ∀ f < 3, Restores type v f

/-- A text that is returned has the fields on the screen. -/
def ReadsBack (out : PickOut) : Prop :=
  ∀ text v, out = .ok text v → sdkDtParseNums 3 none text = [v.v0, v.v1, v.v2]

/-- The fields are good wherever a run is cut off, and its texts have them. -/
def PickerRight (type : PickType) (bufLen : Nat) : Prop :=
  ∀ inputs : List PickInput,
    GoodFields type (run (pickerStep type bufLen) (pickerStart type) inputs).v ∧
      ∀ out ∈ outputs (pickerStep type bufLen) (pickerStart type) inputs, ReadsBack out

/-- The size of the text with its terminator. -/
def dtSize : PickType → Nat
  | .date => 11
  | .time => 9

theorem clampTo_mem {lo hi : Int} (h : lo ≤ hi) (x : Int) :
    lo ≤ clampTo lo hi x ∧ clampTo lo hi x ≤ hi := by
  simp only [clampTo]
  split_ifs <;> omega

theorem clampTo_of_mem {lo hi x : Int} (h : lo ≤ x ∧ x ≤ hi) : clampTo lo hi x = x := by
  simp only [clampTo]
  split_ifs <;> omega

theorem sdkDtDaysInMonth_eq {year month : Int} (h : 1 ≤ month ∧ month ≤ 12) :
    sdkDtDaysInMonth year month = monthLength year month := by
  obtain ⟨hlow, hhigh⟩ := h
  have hleap : ((year % 4 = 0 ∧ year % 100 ≠ 0) ∨ year % 400 = 0) ↔ IsLeap year := by
    unfold IsLeap
    omega
  unfold sdkDtDaysInMonth monthLength
  simp only [hleap]
  interval_cases month <;> rfl

/-- Whatever is written into the fields, they are valid when they are clamped. -/
theorem sdkDtClamp_valid (type : PickType) (v : DtFields) :
    ValidFields type (sdkDtClamp type v) := by
  cases type with
  | date =>
      have hyear := clampTo_mem (by decide : (1970 : Int) ≤ 2099) v.v0
      have hmonth := clampTo_mem (by decide : (1 : Int) ≤ 12) v.v1
      have hlen := monthLength_pos (clampTo 1970 2099 v.v0) (clampTo 1 12 v.v1)
      have hday := clampTo_mem
        (show 1 ≤ monthLength (clampTo 1970 2099 v.v0) (clampTo 1 12 v.v1) by omega) v.v2
      refine ⟨⟨_, _, _, hmonth, hday⟩, ?_, hyear⟩
      simp only [sdkDtClamp, sdkDtDaysInMonth_eq hmonth]
  | time =>
      exact ⟨clampTo_mem (by decide) _, clampTo_mem (by decide) _, clampTo_mem (by decide) _⟩

theorem ValidFields.get_mem {type : PickType} {v : DtFields} (h : ValidFields type v) {f : Nat}
    (hf : f < 3) : (dtRange type v f).1 ≤ v.get f ∧ v.get f ≤ (dtRange type v f).2 := by
  cases type with
  | date =>
      obtain ⟨d, rfl, hyear⟩ := h
      have hday := d.day_mem
      rw [← sdkDtDaysInMonth_eq d.month_mem] at hday
      interval_cases f
      · exact hyear
      · exact d.month_mem
      · exact hday
  | time =>
      obtain ⟨hhour, hminute, hsecond⟩ := h
      interval_cases f
      · exact hhour
      · exact hminute
      · exact hsecond

theorem sdkDtClamp_of_valid {type : PickType} {v : DtFields} (h : ValidFields type v) :
    sdkDtClamp type v = v := by
  cases type with
  | date =>
      obtain ⟨d, rfl, hyear⟩ := h
      simp only [sdkDtClamp, clampTo_of_mem hyear, clampTo_of_mem d.month_mem,
        sdkDtDaysInMonth_eq d.month_mem, clampTo_of_mem d.day_mem]
  | time =>
      obtain ⟨hhour, hminute, hsecond⟩ := h
      simp only [sdkDtClamp, clampTo_of_mem hhour, clampTo_of_mem hminute, clampTo_of_mem hsecond]

theorem tmod_wrap {z range : Int} (h : 0 ≤ z ∧ z < range) :
    (z.tmod range + range).tmod range = z := by
  rw [Int.tmod_eq_of_lt h.1 h.2, Int.tmod_eq_emod_of_nonneg (by omega), Int.add_emod_right,
    Int.emod_eq_of_lt h.1 h.2]

theorem tmod_step_up {y range : Int} (h : 0 ≤ y ∧ y < range) :
    ((y + 1).tmod range + range).tmod range = if y + 1 = range then 0 else y + 1 := by
  split_ifs with hlast
  · rw [hlast, Int.tmod_self, zero_add, Int.tmod_self]
  · exact tmod_wrap (by omega)

theorem tmod_step_down {y range : Int} (h : 0 ≤ y ∧ y < range) :
    ((y - 1).tmod range + range).tmod range = if y = 0 then range - 1 else y - 1 := by
  split_ifs with hfirst
  · subst hfirst
    by_cases hone : range = 1
    · subst hone
      decide
    · have hneg : (0 - 1 : Int).tmod range = -1 := by
        rw [zero_sub, Int.neg_tmod, Int.tmod_eq_of_lt (by decide) (by omega)]
      rw [hneg, Int.tmod_eq_of_lt (by omega) (by omega)]
      omega
  · exact tmod_wrap (by omega)

theorem DtFields.get_set (v : DtFields) (f : Nat) (x : Int) : (v.set f x).get f = x := by
  match f with
  | 0 => rfl
  | 1 => rfl
  | _ + 2 => rfl

theorem DtFields.set_set (v : DtFields) (f : Nat) (x y : Int) :
    (v.set f x).set f y = v.set f y := by
  match f with
  | 0 => rfl
  | 1 => rfl
  | _ + 2 => rfl

theorem DtFields.set_get (v : DtFields) (f : Nat) : v.set f (v.get f) = v := by
  match f with
  | 0 => rfl
  | 1 => rfl
  | _ + 2 => rfl

theorem dtRange_set (type : PickType) (v : DtFields) (f : Nat) (x : Int) :
    dtRange type (v.set f x) f = dtRange type v f := by
  cases type with
  | date =>
      match f with
      | 0 => rfl
      | 1 => rfl
      | _ + 2 => rfl
  | time =>
      match f with
      | 0 => rfl
      | _ + 1 => rfl

/-- A step down takes a step up back, as long as nothing is clamped. -/
theorem dtStepped_down_up {type : PickType} {v : DtFields} {f : Nat}
    (h : (dtRange type v f).1 ≤ v.get f ∧ v.get f ≤ (dtRange type v f).2) :
    dtStepped type (dtStepped type v f 1) f (-1) = v := by
  simp only [dtStepped, dtRange_set, DtFields.get_set, DtFields.set_set]
  generalize (dtRange type v f).1 = lo at h ⊢
  generalize (dtRange type v f).2 = hi at h ⊢
  have hback : v.get f = lo + (((lo + ((v.get f - lo + 1).tmod (hi - lo + 1) + (hi - lo + 1)).tmod
      (hi - lo + 1)) - lo + -1).tmod (hi - lo + 1) + (hi - lo + 1)).tmod (hi - lo + 1) := by
    rw [tmod_step_up (by omega)]
    split_ifs with hlast
    · rw [add_zero, sub_self, ← sub_eq_add_neg, tmod_step_down (by omega), if_pos rfl]
      omega
    · rw [add_sub_cancel_left, ← sub_eq_add_neg, tmod_step_down (by omega), if_neg (by omega)]
      omega
  rw [← hback]
  exact v.set_get f

/-- A step that clamps nothing is taken back by the other one. -/
theorem sdkDtStepField_down_up {type : PickType} {v : DtFields} (h : ValidFields type v) {f : Nat}
    (hf : f < 3) : Restores type v f := by
  intro hclamp
  rw [sdkDtStepField, sdkDtStepField, hclamp, dtStepped_down_up (h.get_mem hf)]
  exact sdkDtClamp_of_valid h

theorem ValidFields.good {type : PickType} {v : DtFields} (h : ValidFields type v) :
    GoodFields type v :=
  ⟨h, fun _ hf => sdkDtStepField_down_up h hf⟩

theorem readDigit_eq_some {acc n : Nat} {c : UInt8} (h : readDigit 10 acc c = some n) :
    (48 ≤ c.toNat ∧ c.toNat ≤ 57) ∧ n = 10 * acc + (c.toNat - 48) := by
  unfold readDigit digitVal at h
  by_cases hdigit : 48 ≤ c.toNat ∧ c.toNat ≤ 57
  · rw [if_pos hdigit] at h
    simp only at h
    rw [if_pos (by omega)] at h
    exact ⟨hdigit, (Option.some.inj h).symm⟩
  · rw [if_neg hdigit] at h
    by_cases hletter : 97 ≤ c.toNat ∧ c.toNat ≤ 102
    · rw [if_pos hletter] at h
      simp only at h
      rw [if_neg (by omega)] at h
      exact absurd h (by simp)
    · rw [if_neg hletter] at h
      exact absurd h (by simp)

/-- The digits of a number that fits an `int`. -/
theorem sdkDtParseNums_digits {ds : List UInt8} {acc n : Nat} (max : Nat)
    (h : ds.foldlM (readDigit 10) acc = some n) (hfits : n < 2 ^ 31) (rest : List UInt8) :
    sdkDtParseNums max (some acc) (ds ++ rest) = sdkDtParseNums max (some n) rest := by
  induction ds generalizing acc with
  | nil =>
      obtain rfl := Option.some.inj h
      rfl
  | cons c ds ih =>
      rw [List.foldlM_cons] at h
      obtain ⟨next, hnext, hrest⟩ := Option.bind_eq_some_iff.mp h
      obtain ⟨hdigit, rfl⟩ := readDigit_eq_some hnext
      have hle := le_of_foldlM_readDigit (by decide) hrest
      have hvalue : wrap32 ((acc : Int) * 10 + (c.toNat - 48)) =
          (10 * acc + (c.toNat - 48) : Nat) := by
        rw [wrap32_of_nonneg (by omega) (by omega)]
        omega
      rw [List.cons_append, sdkDtParseNums, if_pos hdigit, hvalue]
      exact ih hrest

theorem sdkDtParseNums_showInt {width max : Nat} {x : Int} (hx : 0 ≤ x ∧ x < 2 ^ 31)
    (rest : List UInt8) :
    sdkDtParseNums (max + 1) none (showInt width x ++ rest) =
      sdkDtParseNums (max + 1) (some x) rest := by
  have hneg : ¬ x < 0 := by omega
  have hread := foldlM_showPadded width x.natAbs
  rw [showInt, if_neg hneg]
  cases hdigits : showPadded width x.natAbs with
  | nil =>
      have hne := showBase_ne_nil 10 x.natAbs
      rw [showPadded, List.append_eq_nil_iff] at hdigits
      exact absurd hdigits.2 hne
  | cons c ds =>
      rw [hdigits] at hread
      have hc : 48 ≤ c.toNat ∧ c.toNat ≤ 57 :=
        digit_of_mem_showPadded (hdigits ▸ List.mem_cons_self)
      have hstart : sdkDtParseNums (max + 1) none (c :: ds ++ rest) =
          sdkDtParseNums (max + 1) (some ((0 : Nat) : Int)) (c :: ds ++ rest) := by
        rw [List.cons_append, sdkDtParseNums, if_neg (Nat.succ_ne_zero max), if_pos hc,
          sdkDtParseNums, if_pos hc]
        rfl
      have hvalue : ((x.natAbs : Nat) : Int) = x := by omega
      rw [hstart, sdkDtParseNums_digits (max + 1) hread (by omega), hvalue]

theorem sdkDtParseNums_sep {max : Nat} {x : Int} {c : UInt8} (hc : ¬ (48 ≤ c.toNat ∧ c.toNat ≤ 57))
    (rest : List UInt8) :
    sdkDtParseNums (max + 1) (some x) (c :: rest) = x :: sdkDtParseNums max none rest := by
  rw [sdkDtParseNums, if_neg hc]
  rfl

theorem sdkDtParseNums_three {w₀ w₁ w₂ : Nat} {c : UInt8} (hc : ¬ (48 ≤ c.toNat ∧ c.toNat ≤ 57))
    {v : DtFields} (h₀ : 0 ≤ v.v0 ∧ v.v0 < 2 ^ 31) (h₁ : 0 ≤ v.v1 ∧ v.v1 < 2 ^ 31)
    (h₂ : 0 ≤ v.v2 ∧ v.v2 < 2 ^ 31) :
    sdkDtParseNums 3 none
        (showInt w₀ v.v0 ++ c :: (showInt w₁ v.v1 ++ c :: showInt w₂ v.v2)) =
      [v.v0, v.v1, v.v2] := by
  have hlast : sdkDtParseNums (0 + 1) none (showInt w₂ v.v2 ++ []) =
      sdkDtParseNums (0 + 1) (some v.v2) [] := sdkDtParseNums_showInt h₂ []
  rw [List.append_nil] at hlast
  rw [sdkDtParseNums_showInt h₀, sdkDtParseNums_sep hc, sdkDtParseNums_showInt h₁,
    sdkDtParseNums_sep hc, hlast]
  rfl

theorem sdkDtParseNums_format {type : PickType} {v : DtFields} (h : ValidFields type v) :
    sdkDtParseNums 3 none (dtText type v) = [v.v0, v.v1, v.v2] := by
  cases type with
  | date =>
      obtain ⟨d, rfl, hyear⟩ := h
      have hmonth := d.month_mem
      have hday := d.day_mem
      have hlen := monthLength_le d.year d.month
      refine sdkDtParseNums_three (by decide) ?_ ?_ ?_ <;> simp only <;> omega
  | time =>
      obtain ⟨hhour, hminute, hsecond⟩ := h
      exact sdkDtParseNums_three (by decide) (by omega) (by omega) (by omega)

theorem pickerOk_valid {type : PickType} {bufLen : Nat} {input : PickInput} {p : Picker}
    (h : ValidFields type p.v) : ValidFields type (pickerOk type bufLen input p).1.v := by
  unfold pickerOk
  split_ifs
  · exact h
  · exact h
  · cases input.typed with
    | none => exact h
    | some typed => exact sdkDtClamp_valid type _
  · cases input.rtcText with
    | none => exact h
    | some text => exact sdkDtClamp_valid type _
  · exact h

theorem pickerStep_valid {type : PickType} {bufLen : Nat} {p : Picker} (input : PickInput)
    (h : ValidFields type p.v) : ValidFields type (pickerStep type bufLen p input).1.v := by
  unfold pickerStep
  by_cases hgone : (!p.shown) = true
  · rw [if_pos hgone]
    exact h
  · rw [if_neg hgone]
    cases input.key with
    | none => exact h
    | left => exact h
    | right => exact h
    | okLong => exact h
    | ok => exact pickerOk_valid h
    | up =>
        dsimp only
        split_ifs
        · exact sdkDtClamp_valid type _
        · exact h
    | down =>
        dsimp only
        split_ifs
        · exact sdkDtClamp_valid type _
        · exact h

theorem pickerStep_out {type : PickType} {bufLen : Nat} {p : Picker} {input : PickInput}
    {text : List UInt8} {v : DtFields} (h : .ok text v ∈ (pickerStep type bufLen p input).2) :
    v = p.v ∧ text = sdkDtFormat type p.v bufLen := by
  unfold pickerStep at h
  by_cases hgone : (!p.shown) = true
  · rw [if_pos hgone] at h
    exact absurd h List.not_mem_nil
  · rw [if_neg hgone] at h
    cases hkey : input.key with
    | ok =>
        rw [hkey] at h
        dsimp only at h
        unfold pickerOk at h
        split_ifs at h
        · obtain ⟨htext, hv⟩ := PickOut.ok.inj (List.mem_singleton.mp h)
          exact ⟨hv, htext⟩
        · exact absurd (List.mem_singleton.mp h) (by simp)
        · cases htyped : input.typed <;> rw [htyped] at h <;> exact absurd h List.not_mem_nil
        · cases hrtc : input.rtcText <;> rw [hrtc] at h <;> exact absurd h List.not_mem_nil
        · exact absurd h List.not_mem_nil
    | okLong =>
        rw [hkey] at h
        exact absurd (List.mem_singleton.mp h) (by simp)
    | _ =>
        rw [hkey] at h
        exact absurd h List.not_mem_nil

theorem length_dtText {type : PickType} {v : DtFields} (h : ValidFields type v) :
    (dtText type v).length + 1 = dtSize type := by
  have hint : ∀ {width : Nat} {x : Int}, 0 < width → 0 ≤ x → x < 10 ^ width →
      (showInt width x).length = width := by
    intro width x hwidth hx hlt
    obtain ⟨n, rfl⟩ := Int.eq_ofNat_of_zero_le hx
    rw [showInt, if_neg (by omega)]
    exact length_showPadded hwidth (by exact_mod_cast hlt)
  cases type with
  | date =>
      obtain ⟨d, rfl, hyear⟩ := h
      have hmonth := d.month_mem
      have hday := d.day_mem
      have hlen := monthLength_le d.year d.month
      simp only [dtText, List.length_append, List.length_cons]
      rw [hint (by decide) (by omega) (by omega), hint (by decide) (by omega) (by omega),
        hint (by decide) (by omega) (by omega)]
      rfl
  | time =>
      obtain ⟨hhour, hminute, hsecond⟩ := h
      simp only [dtText, List.length_append, List.length_cons]
      rw [hint (by decide) (by omega) (by omega), hint (by decide) (by omega) (by omega),
        hint (by decide) (by omega) (by omega)]
      rfl

theorem valid_run (type : PickType) (bufLen : Nat) {p : Picker} (h : ValidFields type p.v)
    (inputs : List PickInput) : ValidFields type (run (pickerStep type bufLen) p inputs).v :=
  (along_true p inputs).invariant (I := fun p => ValidFields type p.v)
    (fun _ input hp _ => pickerStep_valid input hp) h

/-- What any turns return is read back, where the buffer has room. -/
theorem readsBack_outputs {type : PickType} {bufLen : Nat} (hroom : dtSize type ≤ bufLen)
    {p : Picker} (h : ValidFields type p.v) (inputs : List PickInput) :
    ∀ out ∈ outputs (pickerStep type bufLen) p inputs, ReadsBack out := by
  induction inputs generalizing p with
  | nil => exact fun out hout => absurd hout List.not_mem_nil
  | cons input inputs ih =>
      intro out hout
      rcases List.mem_append.mp hout with hfirst | hrest
      · intro text v heq
        subst heq
        obtain ⟨rfl, rfl⟩ := pickerStep_out hfirst
        have hlen := length_dtText h
        rw [sdkDtFormat, List.take_of_length_le (by omega)]
        exact sdkDtParseNums_format h
      · exact ih (pickerStep_valid input h) out hrest

/-- The keys that show what a short buffer does: to the seconds, a step down, and OK. -/
def lastSecond : List PickInput :=
  [⟨.right, none, none⟩, ⟨.right, none, none⟩, ⟨.down, none, none⟩, ⟨.ok, none, none⟩]

/-- OK at once. -/
def okAtOnce : List PickInput := [⟨.ok, none, none⟩]

/-- A buffer that is too short cuts the text of some run. -/
theorem not_right_of_short {type : PickType} {bufLen : Nat} (h : bufLen < dtSize type) :
    ¬ PickerRight type bufLen := by
  intro hright
  cases type with
  | date =>
      have hread := (hright okAtOnce).2
        (.ok (sdkDtFormat .date ⟨2026, 1, 1⟩ bufLen) ⟨2026, 1, 1⟩) List.mem_cons_self _ _ rfl
      have hlt : bufLen < 11 := h
      revert hread
      interval_cases bufLen <;> decide
  | time =>
      have hread := (hright lastSecond).2
        (.ok (sdkDtFormat .time ⟨0, 0, 59⟩ bufLen) ⟨0, 0, 59⟩) List.mem_cons_self _ _ rfl
      have hlt : bufLen < 9 := h
      revert hread
      interval_cases bufLen <;> decide

/-- In every run the fields are valid and can be stepped to and fro, and the text on OK has them,
if and only if the caller's buffer has room for the text. -/
theorem datePicker_iff (type : PickType) (bufLen : Nat) :
    PickerRight type bufLen ↔ dtSize type ≤ bufLen := by
  constructor
  · intro h
    by_contra hshort
    exact not_right_of_short (Nat.lt_of_not_le hshort) h
  · intro hroom inputs
    have hstart : ValidFields type (pickerStart type).v := sdkDtClamp_valid type _
    exact ⟨(valid_run type bufLen hstart inputs).good, readsBack_outputs hroom hstart inputs⟩

/-- `jpp_sdk_input` takes a buffer of ten bytes, which cuts the day. -/
theorem not_datePicker : ¬ ∀ (type : PickType) (bufLen : Nat), 0 < bufLen →
    PickerRight type bufLen := by
  intro h
  have hshort : 10 < dtSize .date := by decide
  exact not_right_of_short hshort (h .date 10 (by decide))

end Ui
end JppDos
