import JppDos.Ui.FileBrowser
import Mathlib.Data.Nat.Dist

/-!
# List views

The two index functions that every list screen uses: the offset of the window over a list
and the offset of a marquee.  A `size_t` of the device has 32 bits, and the sums wrap.
-/

namespace JppDos
namespace Ui

/-- `jpp_ui_scroll_clamp`. -/
def uiScrollClamp (cursor total visible scroll : UInt32) : UInt32 :=
  let scroll :=
    if cursor < scroll then cursor
    else if scroll + visible ≤ cursor then cursor - visible + 1
    else scroll
  if total ≤ visible then 0
  else if total < scroll + visible then total - visible
  else scroll

/-- `jpp_ui_marquee_offset`. -/
def uiMarqueeOffset (tick textLen window pauseTicks : UInt32) : UInt32 :=
  if textLen ≤ window then 0
  else
    let maxOff := textLen - window
    let cycle := 2 * pauseTicks + maxOff
    let phase := tick % cycle
    if phase < pauseTicks then 0
    else if phase < pauseTicks + maxOff then phase - pauseTicks
    else maxOff

/-- The cursor is inside the window, and a list longer than the window leaves no row of it
blank. -/
def Shows (cursor total visible offset : Nat) : Prop :=
  offset ≤ cursor ∧ cursor < offset + visible ∧ (visible < total → offset + visible ≤ total)

/-- No other offset with the property is closer to the previous one. -/
def Closest (p : Nat → Prop) (previous offset : Nat) : Prop :=
  p offset ∧ ∀ other, p other → Nat.dist previous offset ≤ Nat.dist previous other

/-- For a list longer than the window there is one such offset: the previous one, moved into the
range of those that show the cursor. -/
theorem closest_shows_iff {c t v s o : Nat} (hc : c < t) (hv : 1 ≤ v) (hlong : v < t) :
    Closest (Shows c t v) s o ↔ o = min (max s (c + 1 - v)) (min c (t - v)) := by
  have hshows : ∀ o, Shows c t v o ↔ c + 1 - v ≤ o ∧ o ≤ min c (t - v) := by
    intro o
    unfold Shows
    omega
  simp only [Closest, hshows, Nat.dist]
  constructor
  · rintro ⟨hrange, hclosest⟩
    have := hclosest (min (max s (c + 1 - v)) (min c (t - v))) (by omega)
    omega
  · rintro rfl
    refine ⟨by omega, fun other hother => ?_⟩
    omega

section Window

variable {cursor total visible scroll : UInt32}

/-- The offset as a number, with the wrap of its one sum. -/
theorem toNat_uiScrollClamp_long (hlong : visible < total) :
    (uiScrollClamp cursor total visible scroll).toNat =
      (let scroll' :=
        if cursor.toNat < scroll.toNat then cursor.toNat
        else if (scroll.toNat + visible.toNat) % 2 ^ 32 ≤ cursor.toNat then
          (cursor.toNat + (2 ^ 32 - visible.toNat) + 1) % 2 ^ 32
        else scroll.toNat
      if total.toNat < (scroll' + visible.toNat) % 2 ^ 32 then total.toNat - visible.toNat
      else scroll') := by
  have hle : ¬ total ≤ visible := UInt32.not_le.mpr hlong
  have hsub : (total - visible).toNat = total.toNat - visible.toNat :=
    UInt32.toNat_sub_of_le _ _ (UInt32.le_of_lt hlong)
  have hback : (cursor - visible + 1).toNat =
      (cursor.toNat + (2 ^ 32 - visible.toNat) + 1) % 2 ^ 32 := by
    rw [UInt32.toNat_add, UInt32.toNat_sub, Nat.add_comm (2 ^ 32 - _)]
    exact Nat.mod_add_mod _ _ _
  simp only [uiScrollClamp, if_neg hle]
  simp only [UInt32.lt_iff_toNat_lt, UInt32.le_iff_toNat_le, UInt32.toNat_add, apply_ite UInt32.toNat,
    hsub, hback]

theorem uiScrollClamp_short (hshort : total ≤ visible) :
    uiScrollClamp cursor total visible scroll = 0 := by
  simp only [uiScrollClamp, if_pos hshort]

/-- For a list longer than the window, the offset is the closest one that shows the cursor,
unless the lower end of the window wraps. -/
theorem closest_uiScrollClamp_iff (hcursor : cursor < total) (hvisible : 1 ≤ visible)
    (hlong : visible < total) :
    Closest (Shows cursor.toNat total.toNat visible.toNat) scroll.toNat
        (uiScrollClamp cursor total visible scroll).toNat ↔
      min cursor.toNat scroll.toNat + visible.toNat < 2 ^ 32 ∨
        scroll ≤ cursor ∧ cursor.toNat + 1 = total.toNat := by
  have hback := @toNat_uiScrollClamp_long cursor total visible scroll hlong
  rw [UInt32.lt_iff_toNat_lt] at hcursor hlong
  rw [UInt32.le_iff_toNat_le] at hvisible ⊢
  have htotal := total.toNat_lt
  have hscroll := scroll.toNat_lt
  have hone : (1 : UInt32).toNat = 1 := rfl
  rw [hone] at hvisible
  rw [hback, closest_shows_iff hcursor hvisible hlong]
  dsimp only
  split_ifs <;> omega

end Window

section Marquee

variable {textLen window pauseTicks : UInt32}

/-- The number of ticks after which a marquee starts again. -/
def marqueePeriod (textLen window pauseTicks : UInt32) : Nat :=
  2 * pauseTicks.toNat + (textLen.toNat - window.toNat)

/-- The course of a marquee within each period. -/
structure MarqueeCourse (textLen window pauseTicks : UInt32) : Prop where
  starts : ∀ tick : UInt32, tick.toNat % marqueePeriod textLen window pauseTicks = 0 →
    uiMarqueeOffset tick textLen window pauseTicks = 0
  rises : ∀ tick : UInt32, tick.toNat + 1 < 2 ^ 32 →
    tick.toNat % marqueePeriod textLen window pauseTicks + 1 <
      marqueePeriod textLen window pauseTicks →
    uiMarqueeOffset tick textLen window pauseTicks ≤
        uiMarqueeOffset (tick + 1) textLen window pauseTicks ∧
      (uiMarqueeOffset (tick + 1) textLen window pauseTicks).toNat ≤
        (uiMarqueeOffset tick textLen window pauseTicks).toNat + 1
  reaches : ∀ tick : UInt32, tick.toNat % marqueePeriod textLen window pauseTicks + 1 =
      marqueePeriod textLen window pauseTicks →
    uiMarqueeOffset tick textLen window pauseTicks = textLen - window

theorem uiMarqueeOffset_short (hshort : textLen ≤ window) (tick : UInt32) :
    uiMarqueeOffset tick textLen window pauseTicks = 0 := by
  rw [uiMarqueeOffset, if_pos hshort]

theorem uiMarqueeOffset_le (hlong : window < textLen) (tick : UInt32) :
    (uiMarqueeOffset tick textLen window pauseTicks).toNat ≤ textLen.toNat - window.toNat := by
  have hmax : (textLen - window).toNat = textLen.toNat - window.toNat :=
    UInt32.toNat_sub_of_le _ _ (UInt32.le_of_lt hlong)
  rw [uiMarqueeOffset, if_neg (UInt32.not_le.mpr hlong)]
  dsimp only
  split_ifs with hstart hmove
  · exact Nat.zero_le _
  · rw [UInt32.lt_iff_toNat_lt] at hstart hmove
    rw [UInt32.toNat_sub_of_le _ _ (UInt32.not_lt.mp (by rwa [UInt32.lt_iff_toNat_lt])), ← hmax]
    rw [UInt32.toNat_add] at hmove
    have hle := Nat.mod_le (pauseTicks.toNat + (textLen - window).toNat) (2 ^ 32)
    omega
  · exact Nat.le_of_eq hmax

/-- Without a wrap the offset is the phase behind the first pause, up to the maximum. -/
theorem toNat_uiMarqueeOffset (hlong : window < textLen)
    (hperiod : marqueePeriod textLen window pauseTicks < 2 ^ 32) (tick : UInt32) :
    (uiMarqueeOffset tick textLen window pauseTicks).toNat =
      min (tick.toNat % marqueePeriod textLen window pauseTicks - pauseTicks.toNat)
        (textLen.toNat - window.toNat) := by
  have hmax : (textLen - window).toNat = textLen.toNat - window.toNat :=
    UInt32.toNat_sub_of_le _ _ (UInt32.le_of_lt hlong)
  have htwo : (2 : UInt32).toNat = 2 := rfl
  have hcycle : (2 * pauseTicks + (textLen - window)).toNat =
      marqueePeriod textLen window pauseTicks := by
    rw [UInt32.toNat_add, UInt32.toNat_mul, hmax, htwo, Nat.mod_add_mod]
    exact Nat.mod_eq_of_lt hperiod
  have hphase : (tick % (2 * pauseTicks + (textLen - window))).toNat =
      tick.toNat % marqueePeriod textLen window pauseTicks := by
    rw [UInt32.toNat_mod, hcycle]
  have hmove : (pauseTicks + (textLen - window)).toNat =
      pauseTicks.toNat + (textLen.toNat - window.toNat) := by
    rw [UInt32.toNat_add, hmax]
    refine Nat.mod_eq_of_lt (Nat.lt_of_le_of_lt ?_ hperiod)
    exact Nat.add_le_add_right (Nat.le_mul_of_pos_left _ (by decide)) _
  rw [uiMarqueeOffset, if_neg (UInt32.not_le.mpr hlong)]
  dsimp only
  simp only [UInt32.lt_iff_toNat_lt, hphase, hmove]
  split_ifs with hstart hbefore
  · rw [Nat.sub_eq_zero_of_le (Nat.le_of_lt hstart), Nat.zero_min]
    rfl
  · rw [UInt32.toNat_sub_of_le _ _ (UInt32.le_iff_toNat_le.mpr (by omega)), hphase]
    omega
  · omega

/-- The course of a marquee whose period does not wrap. -/
theorem marqueeCourse (hlong : window < textLen) (hpause : 1 ≤ pauseTicks)
    (hperiod : marqueePeriod textLen window pauseTicks < 2 ^ 32) :
    MarqueeCourse textLen window pauseTicks := by
  have hoffset := toNat_uiMarqueeOffset hlong hperiod
  have hmax : (textLen - window).toNat = textLen.toNat - window.toNat :=
    UInt32.toNat_sub_of_le _ _ (UInt32.le_of_lt hlong)
  have hone : 1 ≤ pauseTicks.toNat := UInt32.le_iff_toNat_le.mp hpause
  refine ⟨fun tick hstart => ?_, fun tick htick hphase => ?_, fun tick hend => ?_⟩
  · refine UInt32.toNat_inj.mp ((hoffset tick).trans ?_)
    rw [hstart, Nat.zero_sub, Nat.zero_min]
    rfl
  · have hnext : (tick + 1).toNat = tick.toNat + 1 := by
      rw [UInt32.toNat_add]
      exact Nat.mod_eq_of_lt htick
    have hmod : (tick.toNat + 1) % marqueePeriod textLen window pauseTicks =
        tick.toNat % marqueePeriod textLen window pauseTicks + 1 := by
      rw [← Nat.mod_add_mod]
      exact Nat.mod_eq_of_lt hphase
    rw [UInt32.le_iff_toNat_le, hoffset, hoffset, hnext, hmod]
    omega
  · refine UInt32.toNat_inj.mp ((hoffset tick).trans ?_)
    rw [hmax]
    unfold marqueePeriod at hend ⊢
    omega

end Marquee

/-- The offset of a window, and the offset of a marquee. -/
theorem listView_spec (cursor total visible scroll textLen window pauseTicks : UInt32)
    (hcursor : cursor < total) (hvisible : 1 ≤ visible) (hpause : 1 ≤ pauseTicks) :
    ((total ≤ visible → uiScrollClamp cursor total visible scroll = 0 ∧
          Shows cursor.toNat total.toNat visible.toNat 0) ∧
        (visible < total →
          (Closest (Shows cursor.toNat total.toNat visible.toNat) scroll.toNat
              (uiScrollClamp cursor total visible scroll).toNat ↔
            min cursor.toNat scroll.toNat + visible.toNat < 2 ^ 32 ∨
              scroll ≤ cursor ∧ cursor.toNat + 1 = total.toNat))) ∧
      (textLen ≤ window → ∀ tick, uiMarqueeOffset tick textLen window pauseTicks = 0) ∧
      (window < textLen →
        (∀ tick, (uiMarqueeOffset tick textLen window pauseTicks).toNat ≤
            textLen.toNat - window.toNat) ∧
          (marqueePeriod textLen window pauseTicks < 2 ^ 32 →
            MarqueeCourse textLen window pauseTicks)) := by
  refine ⟨⟨fun hshort => ⟨uiScrollClamp_short hshort, ?_⟩,
    closest_uiScrollClamp_iff hcursor hvisible⟩, uiMarqueeOffset_short,
    fun hlong => ⟨uiMarqueeOffset_le hlong, marqueeCourse hlong hpause⟩⟩
  rw [UInt32.lt_iff_toNat_lt] at hcursor
  rw [UInt32.le_iff_toNat_le] at hshort
  unfold Shows
  omega

/-- Ten rows in a window of six, and a name of 30 characters in a window of 20. -/
theorem listView_spec_tenRows :
    Closest (Shows 7 10 6) 0 2 ∧ MarqueeCourse 30 20 3 := by
  have h := listView_spec 7 10 6 0 30 20 3 (by decide) (by decide) (by decide)
  exact ⟨(h.1.2 (by decide)).mpr (Or.inl (by decide)), (h.2.2 (by decide)).2 (by decide)⟩

/-- Three calls at which the offset is not as asked for: a list that fits and was shown from its
second row, a window whose lower end wraps, and a marquee whose period wraps. -/
theorem not_listView :
    ¬ Closest (Shows 1 2 6) 1 (uiScrollClamp 1 2 6 1).toNat ∧
      ¬ Shows 2 4294967295 4294967294 (uiScrollClamp 2 4294967295 4294967294 2).toNat ∧
      ∀ tick, uiMarqueeOffset tick 6 1 2147483648 ≠ 5 := by
  refine ⟨fun h => ?_, fun h => ?_, fun tick h => ?_⟩
  · exact absurd (h.2 1 (by unfold Shows; decide)) (by decide)
  · exact absurd h.1 (by decide)
  · have hphase : (tick % 5).toNat < 5 := by
      rw [UInt32.toNat_mod]
      exact Nat.mod_lt _ (by decide)
    rw [uiMarqueeOffset, if_neg (by decide)] at h
    have hstart : tick % (2 * 2147483648 + (6 - 1)) < 2147483648 :=
      UInt32.lt_iff_toNat_lt.mpr (Nat.lt_trans hphase (by decide))
    rw [if_pos hstart] at h
    exact absurd h (by decide)

end Ui
end JppDos
