import JppDos.Keypad.Clicks

/-!
# The keypad some polls later

The clock of the detector is the number of polls times the interval.  A run that
begins after `k` polls is the run from the start with every time moved by `k`
intervals: the times a state has noted move along, and -1, which stands for none,
stays.

Main fact:
* `shift_invariant_iff`: the runs of a detector that has been idle for any time.
-/

namespace JppDos
namespace Keypad

open CInt CText Machine

/-- A noted time, `δ` milliseconds later. -/
def shiftTime (δ t : Int) : Int := if t < 0 then t else t + δ

/-- The state `k` polls, which are `δ` milliseconds, later. -/
def shift (δ : Int) (k : Nat) (s : KeypadState) : KeypadState :=
  { s with
    sampleIndex := s.sampleIndex + k
    pressStartedMs := shiftTime δ s.pressStartedMs
    lastRepeatMs := shiftTime δ s.lastRepeatMs
    pendingReleaseMs := shiftTime δ s.pendingReleaseMs }

section Fields

variable (δ : Int) (k : Nat) (s : KeypadState)

@[simp] theorem shift_enabled : (shift δ k s).enabled = s.enabled := rfl
@[simp] theorem shift_calibrationUv : (shift δ k s).calibrationUv = s.calibrationUv := rfl
@[simp] theorem shift_stableKey : (shift δ k s).stableKey = s.stableKey := rfl
@[simp] theorem shift_candidateKey : (shift δ k s).candidateKey = s.candidateKey := rfl
@[simp] theorem shift_candidateCount : (shift δ k s).candidateCount = s.candidateCount := rfl
@[simp] theorem shift_okLongEmitted : (shift δ k s).okLongEmitted = s.okLongEmitted := rfl
@[simp] theorem shift_shortPending : (shift δ k s).shortPending = s.shortPending := rfl

@[simp] theorem shift_pressStartedMs :
    (shift δ k s).pressStartedMs = shiftTime δ s.pressStartedMs := rfl

@[simp] theorem shift_lastRepeatMs :
    (shift δ k s).lastRepeatMs = shiftTime δ s.lastRepeatMs := rfl

@[simp] theorem shift_pendingReleaseMs :
    (shift δ k s).pendingReleaseMs = shiftTime δ s.pendingReleaseMs := rfl

end Fields

/-- What a part of a poll returns, later. -/
def shiftOutcome (δ : Int) (k : Nat) (r : Outcome) : Outcome := (r.1, shift δ k r.2.1, r.2.2)

/-- The times a state has noted, none of them after `now`; what is compared is noted. -/
structure Known (now : Int) (s : KeypadState) : Prop where
  press : s.pressStartedMs ≤ now
  repeated : s.lastRepeatMs ≤ now
  release : s.pendingReleaseMs ≤ now
  held : s.stableKey ≠ none → 0 ≤ s.lastRepeatMs
  pending : s.shortPending = true → 0 ≤ s.pendingReleaseMs

theorem Known.noteRepeat {now t : Int} {s : KeypadState} (h : Known now s) (hpos : 0 ≤ t)
    (hle : t ≤ now) : Known now { s with lastRepeatMs := t } :=
  { press := h.press, repeated := hle, release := h.release, held := fun _ => hpos,
    pending := h.pending }

theorem Known.noteRelease {now : Int} {s : KeypadState} (h : Known now s) (hnow : 0 ≤ now) :
    Known now { s with shortPending := true, pendingReleaseMs := now } :=
  { press := h.press, repeated := h.repeated, release := Int.le_refl now, held := h.held,
    pending := fun _ => hnow }

theorem Known.clearPending {now : Int} {s : KeypadState} (h : Known now s) :
    Known now { s with shortPending := false } :=
  { press := h.press, repeated := h.repeated, release := h.release, held := h.held,
    pending := fun hno => absurd hno Bool.false_ne_true }

section Parts

variable {config : Option KeypadConfig} {capacity k : Nat} {now δ : Int} {s : KeypadState}
  {events : List Event} {key : Key}

theorem shiftTime_of_nonneg {t : Int} (h : 0 ≤ t) : shiftTime δ t = t + δ :=
  if_neg (Int.not_lt.mpr h)

theorem shiftTime_neg_iff (hδ : 0 ≤ δ) {t : Int} : shiftTime δ t < 0 ↔ t < 0 := by
  unfold shiftTime
  split_ifs <;> omega

theorem elapsed_shiftTime {t : Int} (h : 0 ≤ t) :
    elapsed (now + δ) (shiftTime δ t) = elapsed now t := by
  unfold elapsed
  rw [shiftTime_of_nonneg h, Int.add_sub_add_right]

/-- What no part of a poll changes before its end. -/
def frame (s : KeypadState) : Nat × Option Key := (s.sampleIndex, s.stableKey)

/-- A part of a poll commutes with the move and keeps the times known. -/
def Commutes (δ : Int) (k : Nat) (now : Int) (p : Nat × Option Key) (later earlier : Outcome) :
    Prop :=
  later = shiftOutcome δ k earlier ∧ Known now earlier.2.1 ∧ frame earlier.2.1 = p

theorem Commutes.same (h : Known now s) (ok : Bool) :
    Commutes δ k now (frame s) (ok, shift δ k s, events) (ok, s, events) := ⟨rfl, h, rfl⟩

/-- One more event, or none where the buffer is full; the state follows. -/
theorem Commutes.emit {e : Event} {t : KeypadState} {p : Nat × Option Key} (hs : Known now s)
    (hp : frame s = p) (ht : Known now t) (hp' : frame t = p) :
    Commutes δ k now p
      (match emit capacity e events with
        | none => (false, shift δ k s, events)
        | some events => (true, shift δ k t, events))
      (match emit capacity e events with
        | none => (false, s, events)
        | some events => (true, t, events)) := by
  cases Keypad.emit capacity e events with
  | none => exact ⟨rfl, hs, hp⟩
  | some events => exact ⟨rfl, ht, hp'⟩

theorem checkPendingShort_shift (h : Known now s) :
    Commutes δ k now (frame s)
      (checkPendingShort config capacity (now + δ) (shift δ k s) events)
      (checkPendingShort config capacity now s events) := by
  unfold checkPendingShort
  cases hpending : s.shortPending with
  | false =>
      simp only [shift_shortPending, hpending, Bool.not_false, if_true]
      exact .same h true
  | true =>
      have hsame : elapsed (now + δ) (shiftTime δ s.pendingReleaseMs) =
          elapsed now s.pendingReleaseMs := elapsed_shiftTime (h.pending hpending)
      simp only [shift_shortPending, shift_pendingReleaseMs, hpending, hsame, Bool.not_true,
        Bool.false_eq_true, if_false]
      split_ifs
      · exact .same h true
      · exact .emit h rfl h.clearPending rfl

/-- The noted press and its wait for repeats are over by now, so that they fit. -/
theorem repeatAt_shift {t delay : Int} (hδ : 0 ≤ δ) (ht : 0 ≤ t) (hle : t ≤ now)
    (hdelay : 0 < delay) (hfits : now + δ < 2 ^ 31) (hlong : ¬ elapsed now t < delay) :
    wrap32 (shiftTime δ t + delay) = shiftTime δ (wrap32 (t + delay)) ∧
      0 ≤ wrap32 (t + delay) ∧ wrap32 (t + delay) ≤ now := by
  unfold elapsed at hlong
  rw [wrap32_of_nonneg (by omega) (by omega)] at hlong
  have hsum : wrap32 (t + delay) = t + delay := wrap32_of_nonneg (by omega) (by omega)
  rw [hsum, shiftTime_of_nonneg ht, shiftTime_of_nonneg (by omega),
    wrap32_of_nonneg (by omega) (by omega)]
  omega

theorem repeatNow_shift (hnow : 0 ≤ now) (h : Known now s) {e : Event} :
    Commutes δ k now (frame s)
      (match emit capacity e events with
        | none => (false, shift δ k s, events)
        | some events => (true, { shift δ k s with lastRepeatMs := now + δ }, events))
      (match emit capacity e events with
        | none => (false, s, events)
        | some events => (true, { s with lastRepeatMs := now }, events)) := by
  rw [← shiftTime_of_nonneg hnow]
  exact .emit h rfl (h.noteRepeat hnow (Int.le_refl now)) rfl

/-- A repeat where the last one, or what stands for it, is an interval ago. -/
theorem repeatDue_shift (hnow : 0 ≤ now) (h : Known now s) (hlast : 0 ≤ s.lastRepeatMs)
    (interval : Int) {e : Event} :
    Commutes δ k now (frame s)
      (if elapsed (now + δ) (shiftTime δ s.lastRepeatMs) < interval then
        (true, shift δ k s, events)
       else
        match emit capacity e events with
        | none => (false, shift δ k s, events)
        | some events => (true, { shift δ k s with lastRepeatMs := now + δ }, events))
      (if elapsed now s.lastRepeatMs < interval then (true, s, events)
       else
        match emit capacity e events with
        | none => (false, s, events)
        | some events => (true, { s with lastRepeatMs := now }, events)) := by
  rw [elapsed_shiftTime hlast]
  split_ifs
  · exact .same h true
  · exact repeatNow_shift hnow h

theorem emitRepeatIfNeeded_shift (hδ : 0 ≤ δ) (hnow : 0 ≤ now) (hfits : now + δ < 2 ^ 31)
    (h : Known now s) :
    Commutes δ k now (frame s)
      (emitRepeatIfNeeded config capacity key (now + δ) (shift δ k s) events)
      (emitRepeatIfNeeded config capacity key now s events) := by
  unfold emitRepeatIfNeeded
  simp only [shift_pressStartedMs, shift_lastRepeatMs, shiftTime_neg_iff hδ]
  by_cases hoff : (!(config.map KeypadConfig.repeatEnabled).getD true) = true
  · rw [if_pos hoff, if_pos hoff]
    exact .same h true
  rw [if_neg hoff, if_neg hoff]
  by_cases hnone : (!((bandByKey config key).map Band.repeatable).getD false) = true ∨
      s.pressStartedMs < 0
  · rw [if_pos hnone, if_pos hnone]
    exact .same h true
  have hpress : 0 ≤ s.pressStartedMs := Int.not_lt.mp fun hneg => hnone (Or.inr hneg)
  rw [if_neg hnone, if_neg hnone, elapsed_shiftTime hpress]
  by_cases hwait : elapsed now s.pressStartedMs < configRepeatDelayMs config
  · rw [if_pos hwait, if_pos hwait]
    exact .same h true
  rw [if_neg hwait, if_neg hwait]
  by_cases hlast : s.lastRepeatMs < 0
  · obtain ⟨hsame, hpos, hle⟩ := repeatAt_shift hδ hpress h.press
      (one_le_configPositive config KeypadConfig.repeatDelayMs (by decide)) hfits hwait
    simp only [if_pos hlast]
    rw [configRepeatDelayMs, hsame]
    exact repeatDue_shift hnow (h.noteRepeat hpos hle) hpos _
  · simp only [if_neg hlast]
    exact repeatDue_shift hnow h (Int.not_lt.mp hlast) _

theorem finalizeClick_shift (hnow : 0 ≤ now) (h : Known now s) (duration : Int) :
    Commutes δ k now (frame s)
      (finalizeClick config capacity key (now + δ) duration (shift δ k s) events)
      (finalizeClick config capacity key now duration s events) := by
  unfold finalizeClick
  rw [← shiftTime_of_nonneg (δ := δ) hnow]
  cases hpending : s.shortPending with
  | false =>
      simp only [shift_shortPending, hpending, Bool.false_eq_true, false_and, if_false]
      split_ifs
      · exact .emit h rfl h rfl
      · exact .same (h.noteRelease hnow) true
  | true =>
      have hsame : elapsed (now + δ) (shiftTime δ s.pendingReleaseMs) =
          elapsed now s.pendingReleaseMs := elapsed_shiftTime (h.pending hpending)
      rw [← shiftTime_of_nonneg hnow] at hsame
      simp only [shift_shortPending, shift_pendingReleaseMs, hpending, hsame, true_and]
      split_ifs
      · exact .emit h rfl h rfl
      · exact .emit h rfl h.clearPending rfl
      · exact .same (h.noteRelease hnow) true

theorem finalizeRelease_shift (hδ : 0 ≤ δ) (hnow : 0 ≤ now) (h : Known now s) :
    Commutes δ k now (frame s)
      (finalizeRelease config capacity key (now + δ) (shift δ k s) events)
      (finalizeRelease config capacity key now s events) := by
  unfold finalizeRelease
  simp only [shift_pressStartedMs, shift_okLongEmitted, shiftTime_neg_iff hδ]
  by_cases hlost : s.pressStartedMs < 0
  · rw [if_pos hlost, if_pos hlost]
    exact .same h true
  rw [if_neg hlost, if_neg hlost]
  simp only [elapsed_shiftTime (Int.not_lt.mp hlost)]
  split_ifs
  · exact .same h true
  · exact .emit h rfl h rfl
  · exact finalizeClick_shift hnow h _
  · exact .emit h rfl h rfl

theorem holdOk_shift (hnow : 0 ≤ now) (h : Known now s) (hpress : 0 ≤ s.pressStartedMs)
    (hlast : 0 ≤ s.lastRepeatMs) :
    Commutes δ k now (frame s) (holdOk config capacity key (now + δ) (shift δ k s) events)
      (holdOk config capacity key now s events) := by
  unfold holdOk
  simp only [shift_pressStartedMs, shift_okLongEmitted, shift_lastRepeatMs,
    elapsed_shiftTime hpress, elapsed_shiftTime hlast]
  split_ifs
  · exact .emit (t := { s with okLongEmitted := true }) h rfl
      { press := h.press, repeated := h.repeated, release := h.release, held := h.held,
        pending := h.pending } rfl
  · exact repeatNow_shift hnow h
  · exact .same h true

theorem advance_shift (hindex : s.sampleIndex + k + 1 < 2 ^ 32) :
    advance (shift δ k s) = shift δ k (advance s) := by
  have hlater : (s.sampleIndex + k + 1) % 2 ^ 32 = (s.sampleIndex + 1) % 2 ^ 32 + k := by
    rw [Nat.mod_eq_of_lt hindex, Nat.mod_eq_of_lt (by omega)]
    omega
  simp only [advance, shift]
  rw [hlater]

theorem Known.advance (h : Known now s) : Known now (advance s) :=
  { press := h.press, repeated := h.repeated, release := h.release, held := h.held,
    pending := h.pending }

theorem resetHoldState_shift : resetHoldState (shift δ k s) = shift δ k (resetHoldState s) := by
  have hnone : shiftTime δ (-1) = -1 := if_pos (by decide)
  simp only [resetHoldState, shift, hnone]

theorem Known.resetHoldState (h : Known now s) (hnow : 0 ≤ now) (hup : s.stableKey = none) :
    Known now (resetHoldState s) :=
  have hbefore : -1 ≤ now := by omega
  { press := hbefore, repeated := hbefore, release := h.release, held := fun hno => absurd hup hno,
    pending := h.pending }

theorem startedMs_shift (hδ : 0 ≤ δ) (hnow : 0 ≤ now) :
    startedMs (now + δ) (shift δ k s) = shiftTime δ (startedMs now s) := by
  unfold startedMs
  rw [shift_pressStartedMs]
  simp only [shiftTime_neg_iff hδ]
  split_ifs
  · exact (shiftTime_of_nonneg hnow).symm
  · rfl

theorem startedMs_mem (hnow : 0 ≤ now) (h : Known now s) :
    0 ≤ startedMs now s ∧ startedMs now s ≤ now := by
  have hpress := h.press
  unfold startedMs
  split_ifs <;> omega

/-- A poll, or what is left of it, commutes with the move; its end counts the poll. -/
def Moves (δ : Int) (k : Nat) (now : Int) (later earlier : Outcome) : Prop :=
  later = shiftOutcome δ k earlier ∧ Known now earlier.2.1

theorem Moves.advance (h : Known now s) (hindex : s.sampleIndex + k + 1 < 2 ^ 32) :
    Moves δ k now (true, Keypad.advance (shift δ k s), events)
      (true, Keypad.advance s, events) :=
  ⟨by rw [advance_shift hindex]; rfl, h.advance⟩

theorem Commutes.onSuccess {p : Nat × Option Key} {later earlier : Outcome}
    {f : KeypadState → KeypadState} (h : Commutes δ k now p later earlier)
    (hf : ∀ s, frame s = p → f (shift δ k s) = shift δ k (f s))
    (hk : ∀ s, frame s = p → Known now s → Known now (f s)) :
    Moves δ k now (onSuccess later f) (onSuccess earlier f) := by
  obtain ⟨ok, s, events⟩ := earlier
  obtain ⟨rfl, hknown, hp⟩ := h
  cases ok with
  | false => exact ⟨rfl, hknown⟩
  | true =>
      refine ⟨?_, hk s hp hknown⟩
      simp only [Keypad.onSuccess, shiftOutcome, hf s hp]

theorem Commutes.advance {p : Nat × Option Key} {later earlier : Outcome}
    (h : Commutes δ k now p later earlier) (hindex : p.1 + k + 1 < 2 ^ 32) :
    Moves δ k now (Keypad.onSuccess later Keypad.advance)
      (Keypad.onSuccess earlier Keypad.advance) := by
  refine h.onSuccess (fun s hp => advance_shift ?_) fun s hp hknown => hknown.advance
  rw [← hp] at hindex
  exact hindex

theorem release_shift {n : Nat} (hp : frame s = (n, none)) (hindex : n + k + 1 < 2 ^ 32) :
    advance (resetHoldState (shift δ k s)) = shift δ k (advance (resetHoldState s)) := by
  have hn : s.sampleIndex = n := congrArg Prod.fst hp
  rw [resetHoldState_shift]
  refine advance_shift ?_
  show s.sampleIndex + k + 1 < 2 ^ 32
  omega

theorem Known.release' (h : Known now s) (hnow : 0 ≤ now) {n : Nat} (hp : frame s = (n, none)) :
    Known now (Keypad.advance (Keypad.resetHoldState s)) :=
  (h.resetHoldState hnow (congrArg Prod.snd hp)).advance

theorem pollAbsent_shift (hδ : 0 ≤ δ) (hnow : 0 ≤ now) (h : Known now s)
    (hindex : s.sampleIndex + k + 1 < 2 ^ 32) :
    Moves δ k now (pollAbsent config capacity (now + δ) (shift δ k s) events)
      (pollAbsent config capacity now s events) := by
  unfold pollAbsent
  rw [shift_stableKey]
  cases s.stableKey with
  | none => exact .advance h hindex
  | some key =>
      have hup : Known now
          { s with stableKey := none, candidateKey := none, candidateCount := 0 } :=
        { press := h.press, repeated := h.repeated, release := h.release,
          held := fun hno => absurd rfl hno, pending := h.pending }
      exact (finalizeRelease_shift hδ hnow hup).onSuccess (fun t hp => release_shift hp hindex)
        fun t hp hknown => hknown.release' hnow hp

theorem pollStable_shift (hδ : 0 ≤ δ) (hnow : 0 ≤ now) (hfits : now + δ < 2 ^ 31)
    (h : Known now s) (hindex : s.sampleIndex + k + 1 < 2 ^ 32) :
    Moves δ k now (pollStable config capacity (now + δ) (shift δ k s) events)
      (pollStable config capacity now s events) := by
  unfold pollStable
  rw [shift_stableKey]
  cases hstable : s.stableKey with
  | none => exact .advance h hindex
  | some key =>
      obtain ⟨hpos, hle⟩ := startedMs_mem hnow h
      have hlast : 0 ≤ s.lastRepeatMs := h.held (by simp [hstable])
      have hstarted : Known now { s with
          stableKey := some key, pressStartedMs := startedMs now s } :=
        { press := hle, repeated := h.repeated, release := h.release, held := fun _ => hlast,
          pending := h.pending }
      simp only [startedMs_shift hδ hnow]
      refine Commutes.advance (p := (s.sampleIndex, some key)) ?_ hindex
      let t := { s with stableKey := some key, pressStartedMs := startedMs now s }
      split_ifs
      · exact holdOk_shift (s := t) hnow hstarted hpos hlast
      · exact emitRepeatIfNeeded_shift (s := t) hδ hnow hfits hstarted

theorem pollDebounced_shift (hδ : 0 ≤ δ) (hnow : 0 ≤ now) (h : Known now s)
    (hindex : s.sampleIndex + k + 1 < 2 ^ 32) (key : Option Key) :
    Moves δ k now (pollDebounced config capacity (now + δ) key (shift δ k s) events)
      (pollDebounced config capacity now key s events) := by
  unfold pollDebounced
  cases key with
  | none =>
      have hup : Known now { s with stableKey := none, candidateCount := 0 } :=
        { press := h.press, repeated := h.repeated, release := h.release,
          held := fun hno => absurd rfl hno, pending := h.pending }
      rw [shift_stableKey]
      refine Commutes.onSuccess (p := (s.sampleIndex, none)) ?_
        (fun t hp => release_shift (s := { t with candidateKey := none }) hp hindex)
        fun t hp hknown => ?_
      · cases s.stableKey with
        | none => exact .same hup true
        | some prev => exact finalizeRelease_shift hδ hnow hup
      · refine Known.release' (s := { t with candidateKey := none }) ?_ hnow hp
        exact { press := hknown.press, repeated := hknown.repeated, release := hknown.release,
                held := hknown.held, pending := hknown.pending }
  | some key =>
      have hdown : Known now { s with
          stableKey := some key, candidateCount := 0, pressStartedMs := now, lastRepeatMs := now,
          okLongEmitted := false } :=
        { press := Int.le_refl now, repeated := Int.le_refl now, release := h.release,
          held := fun _ => hnow, pending := h.pending }
      simp only [← shiftTime_of_nonneg (δ := δ) hnow]
      refine Commutes.onSuccess (p := (s.sampleIndex, some key)) ?_ (fun t hp => ?_)
        fun t hp hknown => ?_
      · split_ifs
        · exact .emit hdown rfl hdown rfl
        · exact .same hdown true
      · have hn : t.sampleIndex = s.sampleIndex := congrArg Prod.fst hp
        exact advance_shift (s := { t with candidateKey := some key }) (by simpa [hn] using hindex)
      · exact Known.advance (s := { t with candidateKey := some key })
          { press := hknown.press, repeated := hknown.repeated, release := hknown.release,
            held := hknown.held, pending := hknown.pending }

theorem sampledKey_shift (uv : Int) :
    sampledKey config (shift δ k s) uv = sampledKey config s uv := rfl

theorem pollSample_shift (hδ : 0 ≤ δ) (hnow : 0 ≤ nowMs config s)
    (hlater : nowMs config (shift δ k s) = nowMs config s + δ)
    (hfits : nowMs config s + δ < 2 ^ 31) (h : Known (nowMs config s) s)
    (hindex : s.sampleIndex + k + 1 < 2 ^ 32) (uv : Int) (present : Bool) :
    Moves δ k (nowMs config s) (pollSample config capacity uv present (shift δ k s) events)
      (pollSample config capacity uv present s events) := by
  unfold pollSample
  simp only [hlater, sampledKey_shift, shift_stableKey, shift_candidateKey, shift_candidateCount]
  let counted := { s with candidateCount := wrap32 (s.candidateCount + 1) }
  let fresh := { s with candidateKey := sampledKey config s uv, candidateCount := 1 }
  have hcounted : Known (nowMs config s) counted :=
    { press := h.press, repeated := h.repeated, release := h.release, held := h.held,
      pending := h.pending }
  have hfresh : Known (nowMs config s) fresh :=
    { press := h.press, repeated := h.repeated, release := h.release, held := h.held,
      pending := h.pending }
  split_ifs
  · exact pollAbsent_shift hδ hnow h hindex
  · exact pollStable_shift hδ hnow hfits h hindex
  · exact .advance (s := counted) hcounted hindex
  · exact pollDebounced_shift (s := counted) hδ hnow hcounted hindex _
  · exact .advance (s := fresh) hfresh hindex

/-- A poll commutes with the move while the clock fits. -/
theorem poll_shift (config : Option KeypadConfig) (capacity : Nat) (hδ : 0 ≤ δ)
    (hnow : 0 ≤ nowMs config s) (hlater : nowMs config (shift δ k s) = nowMs config s + δ)
    (hfits : nowMs config s + δ < 2 ^ 31) (h : Known (nowMs config s) s)
    (hindex : s.sampleIndex + k + 1 < 2 ^ 32) (uv : Int) (present : Bool) :
    Moves δ k (nowMs config s) (poll config capacity uv present (shift δ k s))
      (poll config capacity uv present s) := by
  have hon : isOn config (shift δ k s) = isOn config s := rfl
  unfold poll
  rw [hon, hlater]
  cases isOn config s with
  | false => exact ⟨rfl, h⟩
  | true =>
      have hcheck : Commutes δ k (nowMs config s) (frame s)
          (checkPendingShort config capacity (nowMs config s + δ) (shift δ k s) [])
          (checkPendingShort config capacity (nowMs config s) s []) := checkPendingShort_shift h
      simp only [Bool.not_true, Bool.false_eq_true, if_false]
      revert hcheck
      rcases checkPendingShort config capacity (nowMs config s) s [] with ⟨ok, t, events⟩
      rintro ⟨hsame, hknown, hp⟩
      rw [hsame]
      cases ok with
      | false => exact ⟨rfl, hknown⟩
      | true =>
          have hn : t.sampleIndex = s.sampleIndex := congrArg Prod.fst hp
          have hsameNow : nowMs config t = nowMs config s := by
            unfold nowMs
            rw [hn]
          have hsameLater : nowMs config (shift δ k t) = nowMs config (shift δ k s) := by
            unfold nowMs shift
            rw [hn]
          simp only [shiftOutcome]
          rw [← hsameNow] at hnow hlater hfits hknown ⊢
          exact pollSample_shift hδ hnow (hsameLater.trans hlater) hfits hknown
            (by rw [hn]; exact hindex) uv present

end Parts

section Runs

variable {config : Option KeypadConfig} {k : Nat} {s : KeypadState}

theorem Known.mono {now later : Int} (h : Known now s) (hle : now ≤ later) : Known later s :=
  { press := Int.le_trans h.press hle, repeated := Int.le_trans h.repeated hle,
    release := Int.le_trans h.release hle, held := h.held, pending := h.pending }

/-- `k` polls, in milliseconds. -/
def pollsMs (config : Option KeypadConfig) (k : Nat) : Int := k * configPollIntervalMs config

theorem pollsMs_nonneg (config : Option KeypadConfig) (k : Nat) : 0 ≤ pollsMs config k :=
  Int.mul_nonneg (Int.natCast_nonneg k) (by have := one_le_configPollIntervalMs config; omega)

theorem clock_shift (δ : Int) :
    clock config (shift δ k s) = clock config s + pollsMs config k := by
  unfold clock pollsMs shift
  simp only [Int.natCast_add, Int.add_mul]

theorem pollStep_on (hon : isOn config s = true) (x : Sample) :
    (pollStep config s x).1.sampleIndex = (s.sampleIndex + 1) % 2 ^ 32 ∧
      isOn config (pollStep config s x).1 = true := by
  rcases pollStep_effect config s x with ⟨hoff, _⟩ | ⟨_, s', more, heq, heffect⟩
  · exact absurd (hoff.symm.trans hon) Bool.false_ne_true
  · rw [heq]
    cases heffect <;> exact ⟨rfl, hon⟩

/-- One turn commutes with the move while the clock fits. -/
theorem pollStep_shift (h : Known (clock config s) s)
    (hfits : clock config s + pollsMs config k < 2 ^ 31) (x : Sample) :
    pollStep config (shift (pollsMs config k) k s) x =
        (shift (pollsMs config k) k (pollStep config s x).1, (pollStep config s x).2) ∧
      Known (clock config s) (pollStep config s x).1 := by
  have hδ := pollsMs_nonneg config k
  have hlater : clock config (shift (pollsMs config k) k s) =
      clock config s + pollsMs config k := clock_shift _
  have hindex : ((s.sampleIndex + k : Nat) : Int) ≤ clock config s + pollsMs config k := by
    rw [← hlater]
    exact sampleIndex_le_clock config (shift (pollsMs config k) k s)
  have hcount : s.sampleIndex + k + 1 < 2 ^ 32 := by omega
  have hnow : nowMs (pollConfig config x) s = clock config s := by
    rw [nowMs_pollConfig, nowMs_eq_clock (by omega)]
  have hnowLater : nowMs (pollConfig config x) (shift (pollsMs config k) k s) =
      clock config s + pollsMs config k := by
    rw [nowMs_pollConfig, nowMs_eq_clock (by omega), hlater]
  have hnonneg := clock_nonneg config s
  obtain ⟨hsame, hknown⟩ := poll_shift (pollConfig config x) eventCapacity hδ
    (by rw [hnow]; exact hnonneg) (by rw [hnow]; exact hnowLater) (by rw [hnow]; exact hfits)
    (by rw [hnow]; exact h) hcount x.uv x.present
  rw [hnow] at hknown
  exact ⟨congrArg Prod.snd hsame, hknown⟩

/-- The results of the time computations that a poll may make all fit an `int`. -/
structure TimesFit (config : Option KeypadConfig) (s : KeypadState) : Prop where
  index : Fits s.sampleIndex
  now : Fits (clock config s)
  pending : s.shortPending = true → Fits (clock config s - s.pendingReleaseMs)
  press : Fits (clock config s - startedMs (clock config s) s)
  firstRepeat : 0 ≤ s.pressStartedMs →
    configRepeatDelayMs config ≤ clock config s - s.pressStartedMs →
      Fits (s.pressStartedMs + configRepeatDelayMs config) ∧
        Fits (clock config s - (s.pressStartedMs + configRepeatDelayMs config))
  repeated : s.stableKey ≠ none → Fits (clock config s - s.lastRepeatMs)
  holdRepeat : Fits (configLongPressMs config + configRepeatDelayMs config)

theorem Known.timesFit (h : Known (clock config s) s) (hfits : clock config s < 2 ^ 31)
    (hsettings : configLongPressMs config + configRepeatDelayMs config < 2 ^ 31) :
    TimesFit config s := by
  have hindex := sampleIndex_le_clock config s
  have hnonneg := clock_nonneg config s
  have hlong : 1 ≤ configLongPressMs config := one_le_configPositive _ _ (by decide)
  have hdelay : 1 ≤ configRepeatDelayMs config := one_le_configPositive _ _ (by decide)
  have hpress := startedMs_mem hnonneg h
  refine ⟨⟨by omega, by omega⟩, ⟨by omega, hfits⟩, fun hp => ?_, ⟨by omega, by omega⟩,
    fun hp hd => ⟨⟨by omega, by omega⟩, by omega, by omega⟩, fun hs => ?_,
    by omega, hsettings⟩
  · have hpending := h.pending hp
    have hrelease := h.release
    exact ⟨by omega, by omega⟩
  · have hheld := h.held hs
    have hrepeated := h.repeated
    exact ⟨by omega, by omega⟩

/-- The clock fits at the first `m` polls from `s`. -/
def ClockFitsFor (config : Option KeypadConfig) (s : KeypadState) (m : Nat) : Prop :=
  ∀ i < m, clock config s + pollsMs config i < 2 ^ 31

theorem ClockFitsFor.head {m : Nat} (h : ClockFitsFor config s (m + 1)) :
    clock config s < 2 ^ 31 := by
  simpa [pollsMs] using h 0 (Nat.succ_pos m)

theorem clock_next {s' : KeypadState} (h : clock config s < 2 ^ 31)
    (hs' : s'.sampleIndex = (s.sampleIndex + 1) % 2 ^ 32) :
    clock config s' = clock config s + pollsMs config 1 := by
  have hindex := sampleIndex_le_clock config s
  have hnext : s'.sampleIndex = s.sampleIndex + 1 := by
    rw [hs', Nat.mod_eq_of_lt (by omega)]
  unfold clock pollsMs
  rw [hnext, Int.natCast_add, Int.add_mul]

theorem ClockFitsFor.tail {m : Nat} (h : ClockFitsFor config s (m + 1)) {s' : KeypadState}
    (hs' : s'.sampleIndex = (s.sampleIndex + 1) % 2 ^ 32) : ClockFitsFor config s' m := by
  intro i hi
  have hlater := h (i + 1) (by omega)
  rw [clock_next h.head hs']
  unfold pollsMs at *
  rw [Int.natCast_add, Int.add_mul] at hlater
  omega

theorem Known.next (h : Known (clock config s) s) (hon : isOn config s = true)
    (hfits : clock config s < 2 ^ 31) (x : Sample) :
    Known (clock config (pollStep config s x).1) (pollStep config s x).1 := by
  have hzero : clock config s + pollsMs config 0 < 2 ^ 31 := by simpa [pollsMs] using hfits
  exact (pollStep_shift h hzero x).2.mono (clock_advance hfits (pollStep_on hon x).1)

/-- A run commutes with the move while the clock fits: it reports the same events. -/
theorem run_shift (hon : isOn config s = true) (h : Known (clock config s) s) (xs : List Sample)
    (hfits : ClockFitsFor config (shift (pollsMs config k) k s) xs.length) :
    outputs (pollStep config) (shift (pollsMs config k) k s) xs =
      outputs (pollStep config) s xs := by
  induction xs generalizing s with
  | nil => rfl
  | cons x xs ih =>
      have hlater := hfits.head
      rw [clock_shift] at hlater
      have hδ := pollsMs_nonneg config k
      obtain ⟨hstep, _⟩ := pollStep_shift h hlater x
      have htail := hfits.tail (pollStep_on (s := shift (pollsMs config k) k s) hon x).1
      rw [hstep] at htail
      rw [outputs_cons, outputs_cons, hstep,
        ih (pollStep_on hon x).2 (h.next hon (by omega) x) htail]

theorem run_timesFit (hon : isOn config s = true) (h : Known (clock config s) s)
    (xs : List Sample) (hfits : ClockFitsFor config s xs.length)
    (hsettings : configLongPressMs config + configRepeatDelayMs config < 2 ^ 31) :
    Along (pollStep config) (fun s _ => TimesFit config s) s xs := by
  induction xs generalizing s with
  | nil => trivial
  | cons x xs ih =>
      obtain ⟨hnext, hon'⟩ := pollStep_on hon x
      exact ⟨h.timesFit hfits.head hsettings,
        ih hon' (h.next hon hfits.head x) (hfits.tail hnext)⟩

/-- Conversely the clock fits where every time computed fits. -/
theorem clockFitsFor_of_timesFit (hon : isOn config s = true) (xs : List Sample)
    (h : Along (pollStep config) (fun s _ => TimesFit config s) s xs) :
    ClockFitsFor config s xs.length := by
  induction xs generalizing s with
  | nil => exact fun i hi => absurd hi (Nat.not_lt_zero i)
  | cons x xs ih =>
      obtain ⟨hnext, hon'⟩ := pollStep_on hon x
      have hnow := h.1.now.2
      have htail := ih hon' h.2
      rintro (_ | i) hi
      · simpa [pollsMs] using hnow
      · have hlater := htail i (by simpa using hi)
        rw [clock_next hnow hnext] at hlater
        unfold pollsMs at *
        rw [Int.natCast_add, Int.add_mul]
        omega

theorem off_run (hoff : isOn config s = false) (xs : List Sample) :
    outputs (pollStep config) s xs = [] ∧
      Along (pollStep config) (fun s _ => isOn config s = true → TimesFit config s) s xs := by
  have hstill : ∀ x, pollStep config s x = (s, []) := by
    intro x
    rcases pollStep_effect config s x with ⟨_, heq⟩ | ⟨hon, _⟩
    · exact heq
    · exact absurd (hoff.symm.trans hon) Bool.false_ne_true
  induction xs with
  | nil => exact ⟨rfl, trivial⟩
  | cons x xs ih =>
      rw [outputs_cons, along_cons, hstill]
      exact ⟨ih.1, fun hon => absurd (hoff.symm.trans hon) Bool.false_ne_true, ih.2⟩

theorem along_on_iff (hon : isOn config s = true) (xs : List Sample) :
    Along (pollStep config) (fun s _ => isOn config s = true → TimesFit config s) s xs ↔
      Along (pollStep config) (fun s _ => TimesFit config s) s xs :=
  along_congr (I := fun s => isOn config s = true) (fun _ x hs => (pollStep_on hs x).2)
    (fun s _ hs => show (isOn config s = true → TimesFit config s) ↔ TimesFit config s from
      ⟨fun h => h hs, fun h _ => h⟩) xs hon

/-- A fresh detector whose index has come to `n`. -/
def startAt (config : Option KeypadConfig) (n : Nat) : KeypadState :=
  { stateInit config with sampleIndex := n }

theorem startAt_eq_shift (δ : Int) (n : Nat) :
    startAt config n = shift δ n (startAt config 0) := by
  have hnone : shiftTime δ (-1) = -1 := if_pos (by decide)
  simp only [startAt, shift, stateInit, hnone, Nat.zero_add]

theorem startAt_known (n : Nat) :
    Known (clock config (startAt config n)) (startAt config n) := by
  have hnonneg := clock_nonneg config (startAt config n)
  have hnone : -1 ≤ clock config (startAt config n) := by omega
  exact { press := hnone, repeated := hnone, release := hnone, held := fun h => absurd rfl h,
          pending := fun h => absurd h Bool.false_ne_true }

theorem clockFitsFor_startAt_iff (n m : Nat) :
    ClockFitsFor config (startAt config n) m ↔ ∀ i < m, pollsMs config (n + i) < 2 ^ 31 := by
  have hclock : ∀ i : Nat, clock config (startAt config n) + pollsMs config i =
      pollsMs config (n + i) := by
    intro i
    unfold clock pollsMs startAt
    rw [Int.natCast_add, Int.add_mul]
  simp only [ClockFitsFor, hclock]

/-- From any index on, the detector reports what it reports from index 0 on, and no time
computation overflows, exactly if the clock fits at every poll and two of the settings
fit together. -/
theorem shift_invariant_iff (config : Option KeypadConfig) (xs : List Sample) (n : Nat) :
    (outputs (pollStep config) (startAt config n) xs =
        outputs (pollStep config) (startAt config 0) xs ∧
      Along (pollStep config) (fun s _ => isOn config s = true → TimesFit config s)
        (startAt config n) xs) ↔
      (isOn config (stateInit config) = true →
        ∀ i < xs.length, pollsMs config (n + i) < 2 ^ 31 ∧
          configLongPressMs config + configRepeatDelayMs config < 2 ^ 31) := by
  cases hon : isOn config (stateInit config) with
  | false =>
      have hlater := off_run (s := startAt config n) hon xs
      have hfirst := off_run (s := startAt config 0) hon xs
      exact ⟨fun _ h => absurd h Bool.false_ne_true, fun _ =>
        ⟨hlater.1.trans hfirst.1.symm, hlater.2⟩⟩
  | true =>
      have hstart : isOn config (startAt config n) = true := hon
      rw [along_on_iff hstart]
      constructor
      · rintro ⟨_, hfits⟩ _ i hi
        have hclock := clockFitsFor_of_timesFit hstart xs hfits
        refine ⟨(clockFitsFor_startAt_iff n xs.length).mp hclock i hi, ?_⟩
        cases xs with
        | nil => exact absurd hi (Nat.not_lt_zero i)
        | cons x xs => exact hfits.1.holdRepeat.2
      · intro h
        have hclock := (clockFitsFor_startAt_iff n xs.length).mpr fun i hi => (h rfl i hi).1
        constructor
        · have hshift : startAt config n = shift (pollsMs config n) n (startAt config 0) :=
            startAt_eq_shift _ n
          rw [hshift] at hclock ⊢
          exact run_shift hon (startAt_known 0) xs hclock
        · cases xs with
          | nil => trivial
          | cons x xs =>
              have hsettings := (h rfl 0 (Nat.succ_pos _)).2
              exact run_timesFit hstart (startAt_known n) (x :: xs) hclock hsettings

end Runs

/-- A click after 25 days is not the click of the first day. -/
theorem not_shift_invariant :
    ¬ ∀ (config : Option KeypadConfig) (xs : List Sample) (n : Nat), n < 2 ^ 32 →
      outputs (pollStep config) (startAt config n) xs =
          outputs (pollStep config) (startAt config 0) xs ∧
        Along (pollStep config) (fun s _ => isOn config s = true → TimesFit config s)
          (startAt config n) xs := by
  intro h
  have hevents :=
    (h (some taskConfig) (click ++ List.replicate 16 idleSample) uptime (by decide)).1
  exact absurd hevents (by decide)

end Keypad
end JppDos
