import JppDos.Keypad.Poll
import JppDos.Lib.Machine

/-!
# The clicks of the OK key

Every completed press of OK is reported once: as a hold, as a short click, or as the
second half of a double click, and a short click may still be pending.

Main fact:
* `clicks_balanced`: the account of a whole run, and of each press in it.
-/

namespace JppDos
namespace Keypad

open CInt CText Machine

/-- The debounced key is OK. -/
def okDown (s : KeypadState) : Bool := s.stableKey.map Key.text == some okText

/-- The number of events of a kind. -/
def count (kind : EventKind) (events : List Event) : Nat :=
  (events.filter fun e => e.kind == kind).length

/-- One short click still pending, or none. -/
def pending (s : KeypadState) : Nat := if s.shortPending then 1 else 0

/-- One hold reported while it still goes on, or none. -/
def holding (s : KeypadState) : Nat := if okDown s && s.okLongEmitted then 1 else 0

/-- The OK presses completed in a run. -/
def completed (config : Option KeypadConfig) : KeypadState → List Sample → Nat
  | _, [] => 0
  | s, x :: xs =>
      let s' := (pollStep config s x).1
      (if okDown s && !okDown s' then 1 else 0) + completed config s' xs

theorem count_append (kind : EventKind) (events events' : List Event) :
    count kind (events ++ events') = count kind events + count kind events' := by
  simp [count]

/-- The time of a poll, without the limit of its type. -/
def clock (config : Option KeypadConfig) (s : KeypadState) : Int :=
  s.sampleIndex * configPollIntervalMs config

/-- The debounced key returns to idle before another key is debounced. -/
def ReturnsToIdle (config : Option KeypadConfig) (s : KeypadState) (x : Sample) : Prop :=
  s.stableKey ≠ none → ∀ key, ¬ SwitchesTo config x.uv x.present s (some key)

/-- The clock has not overflowed at a poll that begins, continues or ends an OK press. -/
def ClockFits (config : Option KeypadConfig) (s : KeypadState) (x : Sample) : Prop :=
  (okDown s = true ∨
      ∃ key, key.text = okText ∧ SwitchesTo config x.uv x.present s (some key)) →
    clock config s < 2 ^ 31

theorem sampledKey_of_switchesTo {config : Option KeypadConfig} {uv : Int} {present : Bool}
    {s : KeypadState} {key : Key} (h : SwitchesTo config uv present s (some key)) :
    key ∈ sampledKey config s uv := by
  obtain ⟨_, h⟩ := h
  cases present with
  | true => exact h.1
  | false => exact absurd h (by simp)

instance (config : Option KeypadConfig) (s : KeypadState) (x : Sample) :
    Decidable (ReturnsToIdle config s x) :=
  decidable_of_iff
    (s.stableKey ≠ none → ∀ key ∈ sampledKey config s x.uv,
      ¬ SwitchesTo config x.uv x.present s (some key))
    ⟨fun h hne key hswitch => h hne key (sampledKey_of_switchesTo hswitch) hswitch,
      fun h hne key _ => h hne key⟩

instance (config : Option KeypadConfig) (s : KeypadState) (x : Sample) :
    Decidable (ClockFits config s x) :=
  decidable_of_iff
    ((okDown s = true ∨ ∃ key ∈ sampledKey config s x.uv,
        key.text = okText ∧ SwitchesTo config x.uv x.present s (some key)) →
      clock config s < 2 ^ 31)
    ⟨fun h hok => h (hok.imp_right fun ⟨key, htext, hswitch⟩ =>
        ⟨key, sampledKey_of_switchesTo hswitch, htext, hswitch⟩),
      fun h hok => h (hok.imp_right fun ⟨key, _, htext, hswitch⟩ => ⟨key, htext, hswitch⟩)⟩

theorem one_le_configPositive (config : Option KeypadConfig) (field : KeypadConfig → Int)
    {fallback : Int} (h : 1 ≤ fallback) : 1 ≤ configPositive config field fallback := by
  unfold configPositive
  cases config with
  | none => exact h
  | some c =>
      simp only
      split_ifs
      · exact h
      · omega

theorem one_le_configPollIntervalMs (config : Option KeypadConfig) :
    1 ≤ configPollIntervalMs config :=
  one_le_configPositive config KeypadConfig.pollIntervalMs (by decide)

theorem clock_nonneg (config : Option KeypadConfig) (s : KeypadState) : 0 ≤ clock config s := by
  have := one_le_configPollIntervalMs config
  exact Int.mul_nonneg (Int.natCast_nonneg _) (by omega)

theorem sampleIndex_le_clock (config : Option KeypadConfig) (s : KeypadState) :
    (s.sampleIndex : Int) ≤ clock config s := by
  have := one_le_configPollIntervalMs config
  calc (s.sampleIndex : Int) = s.sampleIndex * 1 := (Int.mul_one _).symm
    _ ≤ clock config s := Int.mul_le_mul_of_nonneg_left this (Int.natCast_nonneg _)

theorem nowMs_eq_clock {config : Option KeypadConfig} {s : KeypadState}
    (h : clock config s < 2 ^ 31) : nowMs config s = clock config s := by
  have hindex := sampleIndex_le_clock config s
  unfold nowMs
  rw [wrap32_of_nonneg (Int.natCast_nonneg _) (by omega)]
  exact wrap32_of_nonneg (clock_nonneg config s) h

theorem clock_advance {config : Option KeypadConfig} {s s' : KeypadState}
    (h : clock config s < 2 ^ 31) (hs' : s'.sampleIndex = (s.sampleIndex + 1) % 2 ^ 32) :
    clock config s ≤ clock config s' := by
  have hindex := sampleIndex_le_clock config s
  have hnext : s'.sampleIndex = s.sampleIndex + 1 := by
    rw [hs', Nat.mod_eq_of_lt (by omega)]
  have := one_le_configPollIntervalMs config
  unfold clock
  rw [hnext]
  exact Int.mul_le_mul_of_nonneg_right (by omega) (by omega)

/-- The press that is going on began at an earlier poll, and was reported only once it
was long enough. -/
structure PressInv (config : Option KeypadConfig) (s : KeypadState) : Prop where
  started : okDown s = true → 0 ≤ s.pressStartedMs ∧ s.pressStartedMs ≤ clock config s
  long : okDown s = true → s.okLongEmitted = true →
    configLongPressMs config ≤ clock config s - s.pressStartedMs

/-- What a turn from `s` to `s'` reports: outside of OK presses, at the start of one,
while it goes on and at its end. -/
inductive OkTurn (s s' : KeypadState) (events : List Event) : Prop
  | up (h : okDown s = false) (h' : okDown s' = false) (hlong : count .okLong events = 0)
      (hdouble : count .okDouble events = 0)
      (hshort : count .okShort events + pending s' = pending s)
  | begins (h : okDown s = false) (h' : okDown s' = true) (hfresh : s'.okLongEmitted = false)
      (hlong : count .okLong events = 0) (hdouble : count .okDouble events = 0)
      (hshort : count .okShort events + pending s' = pending s)
  | held (h : okDown s = true) (h' : okDown s' = true)
      (hlong : count .okLong events + holding s = holding s')
      (hdouble : count .okDouble events = 0)
      (hshort : count .okShort events + pending s' = pending s)
  | endsHold (h : okDown s = true) (h' : okDown s' = false)
      (hlong : count .okLong events + holding s = 1) (hdouble : count .okDouble events = 0)
      (hshort : count .okShort events + pending s' = pending s)
  | endsClick (h : okDown s = true) (h' : okDown s' = false) (hnew : holding s = 0)
      (hlong : count .okLong events = 0)
      (hshort : count .okShort events + 2 * count .okDouble events + pending s' = pending s + 1)

/-- The check reports the pending click or leaves it, and a hold is not its business. -/
theorem OkTurn.afterCheck {config : Option KeypadConfig} {now : Int} {s s' : KeypadState}
    {more : List Event} (h : OkTurn (afterCheck config now s) s' more) :
    OkTurn s s' (checkEvents config now s ++ more) := by
  have hlong : count .okLong (checkEvents config now s ++ more) = count .okLong more := by
    rw [count_append, checkEvents]
    split_ifs <;> simp [count, pendingShortEvent]
  have hdouble : count .okDouble (checkEvents config now s ++ more) = count .okDouble more := by
    rw [count_append, checkEvents]
    split_ifs <;> simp [count, pendingShortEvent]
  have hshort : count .okShort (checkEvents config now s) +
      pending (Keypad.afterCheck config now s) = pending s := by
    cases hflush : flushes config now s with
    | false => simp [checkEvents, Keypad.afterCheck, pending, count, hflush]
    | true =>
        have hpending : s.shortPending = true := (Bool.and_eq_true_iff.mp hflush).1
        simp [checkEvents, Keypad.afterCheck, pending, count, pendingShortEvent, hflush, hpending]
  have hsum := count_append .okShort (checkEvents config now s) more
  have hhold : holding (Keypad.afterCheck config now s) = holding s := rfl
  cases h with
  | up h h' hl hd hs => exact .up h h' (hlong.trans hl) (hdouble.trans hd) (by omega)
  | begins h h' hf hl hd hs => exact .begins h h' hf (hlong.trans hl) (hdouble.trans hd) (by omega)
  | held h h' hl hd hs => exact .held h h' (by omega) (hdouble.trans hd) (by omega)
  | endsHold h h' hl hd hs => exact .endsHold h h' (by omega) (hdouble.trans hd) (by omega)
  | endsClick h h' hn hl hs => exact .endsClick h h' (by omega) (hlong.trans hl) (by omega)

theorem okDown_of_stable {s : KeypadState} {key : Key} (h : s.stableKey = some key) :
    okDown s = (key.text == okText) := by
  simp [okDown, h]

/-- What one effect reports, when the OK press that goes on has a sane start and the
check has just been made. -/
theorem Effect.okTurn {config : Option KeypadConfig} {uv : Int} {present : Bool} {now : Int}
    {s s' : KeypadState} {more : List Event} (h : Effect config uv present now s s' more)
    (hret : s.stableKey ≠ none → ∀ key, ¬ SwitchesTo config uv present s (some key))
    (hcheck : s.shortPending = true → elapsed now s.pendingReleaseMs < configDoubleClickMs config)
    (hstarted : okDown s = true → 0 ≤ s.pressStartedMs)
    (hlong : okDown s = true → s.okLongEmitted = true →
      configLongPressMs config ≤ elapsed now s.pressStartedMs) : OkTurn s s' more := by
  have shortPress : okDown s = true →
      max 0 (elapsed now s.pressStartedMs) < configLongPressMs config → holding s = 0 := by
    intro hdown hduration
    have hemitted : s.okLongEmitted = false := by
      cases hemitted : s.okLongEmitted with
      | false => rfl
      | true =>
          have := hlong hdown hemitted
          omega
    simp [holding, hemitted]
  cases h with
  | quiet candidate count hno =>
      cases hdown : okDown s with
      | false => exact .up hdown hdown rfl rfl (Nat.zero_add _)
      | true => exact .held hdown hdown (Nat.zero_add _) rfl (Nat.zero_add _)
  | holdDirection key last fires hkey hdir hno hrepeat =>
      have hdown : okDown s = false := by rw [okDown_of_stable hkey]; simpa using hdir
      cases fires with
      | false => exact .up hdown hdown rfl rfl (Nat.zero_add _)
      | true => exact .up hdown hdown rfl rfl (Nat.zero_add _)
  | holdOk key last fires hkey hok hno =>
      have hdown : okDown s = true := by rw [okDown_of_stable hkey]; simpa using hok
      cases fires with
      | false => exact .held hdown hdown (Nat.zero_add _) rfl (Nat.zero_add _)
      | true => exact .held hdown hdown (Nat.zero_add _) rfl (Nat.zero_add _)
  | holdLong key duration hkey hok hno hnew hduration =>
      have hdown : okDown s = true := by rw [okDown_of_stable hkey]; simpa using hok
      have hholding : holding s = 0 := by simp [holding, hnew]
      refine .held hdown hdown ?_ rfl (Nat.zero_add _)
      rw [hholding]
      exact (if_pos (Bool.and_eq_true_iff.mpr ⟨hdown, rfl⟩)).symm
  | release key hkey hswitch hreport =>
      have hup : okDown (advance (resetHoldState { s with
          stableKey := none, candidateKey := none, candidateCount := 0 })) = false := rfl
      cases hreport with
      | lost hneg =>
          cases hdown : okDown s with
          | false => exact .up hdown hup rfl rfl (Nat.zero_add _)
          | true => exact absurd (hstarted hdown) (Int.not_le.mpr hneg)
      | release duration hpos hdir =>
          have hdown : okDown s = false := by rw [okDown_of_stable hkey]; simpa using hdir
          exact .up hdown hup rfl rfl (Nat.zero_add _)
      | held hpos hok hemitted hduration =>
          have hdown : okDown s = true := by rw [okDown_of_stable hkey]; simpa using hok
          refine .endsHold hdown hup ?_ rfl (Nat.zero_add _)
          simp [holding, hdown, hemitted, count]
      | long duration hpos hok hemitted hduration =>
          have hdown : okDown s = true := by rw [okDown_of_stable hkey]; simpa using hok
          refine .endsHold hdown hup ?_ rfl (Nat.zero_add _)
          simp [holding, hemitted, count]
      | short duration hpos hok hduration hdetect =>
          have hdown : okDown s = true := by rw [okDown_of_stable hkey]; simpa using hok
          exact .endsClick hdown hup (shortPress hdown hduration) rfl (Nat.add_comm _ _)
      | double duration hpos hok hduration hpending =>
          have hdown : okDown s = true := by rw [okDown_of_stable hkey]; simpa using hok
          refine .endsClick hdown hup (shortPress hdown hduration) rfl ?_
          simp [count, pending, hpending, advance, resetHoldState]
      | withheld hpos hok hduration hdetect hwindow =>
          have hdown : okDown s = true := by rw [okDown_of_stable hkey]; simpa using hok
          have hnone : s.shortPending = false := by
            cases hpending : s.shortPending with
            | false => rfl
            | true =>
                have := hcheck hpending
                have := hwindow hpending
                omega
          refine .endsClick hdown hup (shortPress hdown hduration) rfl ?_
          simp [count, pending, hnone, advance, resetHoldState]
  | press key hswitch =>
      have hdown : okDown s = false := by
        cases hstable : s.stableKey with
        | none => simp [okDown, hstable]
        | some prev => exact absurd hswitch (hret (by simp [hstable]) key)
      by_cases hok : key.text = okText
      · rw [if_pos hok]
        exact .begins hdown (by simp [okDown, advance, hok]) rfl rfl rfl (Nat.zero_add _)
      · rw [if_neg hok]
        exact .up hdown (by simpa [okDown, advance] using hok) rfl rfl (Nat.zero_add _)

theorem PressInv.of_start {config : Option KeypadConfig} {t : KeypadState} {c : Int}
    (hle : c ≤ clock config t) (hpos : 0 ≤ t.pressStartedMs) (hstart : t.pressStartedMs ≤ c)
    (hlong : t.okLongEmitted = true → configLongPressMs config ≤ c - t.pressStartedMs) :
    PressInv config t := by
  refine ⟨fun _ => ⟨hpos, by omega⟩, fun _ he => ?_⟩
  have := hlong he
  omega

theorem PressInv.of_up {config : Option KeypadConfig} {t : KeypadState}
    (h : okDown t = false) : PressInv config t :=
  ⟨fun hd => absurd (h.symm.trans hd) (by simp), fun hd => absurd (h.symm.trans hd) (by simp)⟩

/-- The press that goes on keeps its start, and a new one starts now. -/
theorem Effect.pressInv {config : Option KeypadConfig} {uv : Int} {present : Bool} {now : Int}
    {s s' : KeypadState} {more : List Event} (h : Effect config uv present now s s' more)
    (hnow : now = nowMs config s) (hinv : PressInv config s)
    (hclock : okDown s' = true → clock config s < 2 ^ 31) : PressInv config s' := by
  rw [hnow] at h
  have later : ∀ t : KeypadState, t.sampleIndex = (s.sampleIndex + 1) % 2 ^ 32 →
      clock config s < 2 ^ 31 → clock config s ≤ clock config t :=
    fun t ht hlt => clock_advance hlt ht
  have started : okDown s = true → startedMs (nowMs config s) s = s.pressStartedMs :=
    fun hd => if_neg (Int.not_lt.mpr (hinv.started hd).1)
  cases h with
  | quiet candidate count hno =>
      cases hdown : okDown s with
      | false => exact .of_up hdown
      | true =>
          have hstart := hinv.started hdown
          exact .of_start (later _ rfl (hclock hdown)) hstart.1 hstart.2 (hinv.long hdown)
  | holdDirection key last fires hkey hdir hno hrepeat =>
      have hdown : okDown s = false := by rw [okDown_of_stable hkey]; simpa using hdir
      exact .of_up hdown
  | holdOk key last fires hkey hok hno =>
      have hdown : okDown s = true := by rw [okDown_of_stable hkey]; simpa using hok
      have hstart := hinv.started hdown
      have hlong := hinv.long hdown
      rw [← started hdown] at hstart hlong
      exact .of_start (later _ rfl (hclock hdown)) hstart.1 hstart.2 hlong
  | holdLong key duration hkey hok hno hnew hduration =>
      have hdown : okDown s = true := by rw [okDown_of_stable hkey]; simpa using hok
      have hlt := hclock hdown
      have hstart := hinv.started hdown
      rw [← started hdown] at hstart
      have hnonneg := clock_nonneg config s
      rw [nowMs_eq_clock hlt] at hduration hstart
      rw [elapsed, wrap32_of_nonneg (by omega) (by omega)] at hduration
      rw [nowMs_eq_clock hlt]
      exact .of_start (later _ rfl hlt) hstart.1 hstart.2 fun _ => hduration
  | release key hkey hswitch hreport => exact .of_up rfl
  | press key hswitch =>
      have hlt := hclock
      cases hdown : okDown (advance { s with stableKey := some key }) with
      | false => exact .of_up hdown
      | true =>
          have hlt := hclock hdown
          have hnonneg := clock_nonneg config s
          rw [nowMs_eq_clock hlt]
          exact .of_start (later _ rfl hlt) hnonneg (Int.le_refl _) (by simp [advance])

/-- OK is down after an effect when it was before, or has just been debounced. -/
theorem Effect.okDown_cases {config : Option KeypadConfig} {uv : Int} {present : Bool} {now : Int}
    {s s' : KeypadState} {more : List Event} (h : Effect config uv present now s s' more)
    (hdown : okDown s' = true) :
    okDown s = true ∨ ∃ key, key.text = okText ∧ SwitchesTo config uv present s (some key) := by
  cases h with
  | quiet | holdDirection | holdOk | holdLong => exact .inl hdown
  | release => exact absurd hdown (by simp [okDown, advance, resetHoldState])
  | press key hswitch => exact .inr ⟨key, by simpa [okDown, advance] using hdown, hswitch⟩

@[simp] theorem clock_pollConfig (config : Option KeypadConfig) (x : Sample) (s : KeypadState) :
    clock (pollConfig config x) s = clock config s := by
  cases config <;> rfl

theorem pressInv_pollConfig (config : Option KeypadConfig) (x : Sample) (s : KeypadState) :
    PressInv (pollConfig config x) s ↔ PressInv config s := by
  constructor
  · rintro ⟨hstarted, hlong⟩
    exact ⟨by simpa using hstarted, by simpa using hlong⟩
  · rintro ⟨hstarted, hlong⟩
    exact ⟨by simpa using hstarted, by simpa using hlong⟩

/-- A click that is still pending after the check is in its window. -/
theorem window_of_afterCheck {config : Option KeypadConfig} {now : Int} {s : KeypadState}
    (h : (afterCheck config now s).shortPending = true) :
    elapsed now s.pendingReleaseMs < configDoubleClickMs config := by
  have hpending := (Bool.and_eq_true_iff.mp h).1
  have hstays := (Bool.and_eq_true_iff.mp h).2
  simp only [flushes, hpending, Bool.true_and, Bool.not_not, Bool.and_eq_true,
    decide_eq_true_eq] at hstays
  exact hstays.2

theorem pollStep_okTurn {config : Option KeypadConfig} {s : KeypadState} {x : Sample}
    (hinv : PressInv config s) (hret : ReturnsToIdle config s x) (hclock : ClockFits config s x) :
    OkTurn s (pollStep config s x).1 (pollStep config s x).2 ∧
      PressInv config (pollStep config s x).1 := by
  rcases pollStep_effect config s x with ⟨_, heq⟩ | ⟨_, s', more, heq, heffect⟩
  · rw [heq]
    refine ⟨?_, hinv⟩
    cases hdown : okDown s with
    | false => exact .up hdown hdown rfl rfl (Nat.zero_add _)
    | true => exact .held hdown hdown (Nat.zero_add _) rfl (Nat.zero_add _)
  · rw [heq]
    have hfits : okDown s' = true → clock config s < 2 ^ 31 := by
      intro hdown
      rcases heffect.okDown_cases hdown with hd | ⟨key, hok, hswitch⟩
      · exact hclock (.inl hd)
      · exact hclock (.inr ⟨key, hok, (switchesTo_afterCheck config x _ s _).mp hswitch⟩)
    have hinv' : PressInv (pollConfig config x)
        (afterCheck (pollConfig config x) (nowMs config s) s) :=
      (pressInv_pollConfig config x _).mpr ⟨hinv.started, hinv.long⟩
    constructor
    · refine (heffect.okTurn ?_ window_of_afterCheck (fun hd => (hinv'.started hd).1) ?_).afterCheck
      · exact fun hne key hswitch =>
          hret hne key ((switchesTo_afterCheck config x _ s _).mp hswitch)
      · intro hdown hemitted
        have hlt := hclock (.inl hdown)
        have hstart := hinv.started hdown
        have hlong := hinv.long hdown hemitted
        rw [configLongPressMs_pollConfig, nowMs_eq_clock hlt, elapsed]
        have hnonneg := clock_nonneg config s
        show _ ≤ wrap32 (clock config s - s.pressStartedMs)
        rw [wrap32_of_nonneg (by omega) (by omega)]
        exact hlong
    · have hnow := (nowMs_afterCheck config x (nowMs config s) s).symm
      refine (pressInv_pollConfig config x _).mp (heffect.pressInv hnow hinv' fun hdown => ?_)
      rw [clock_pollConfig]
      exact hfits hdown

/-- The conditions on a turn: the debounced key returns to idle between presses, and the
clock has not overflowed. -/
def Clean (config : Option KeypadConfig) (s : KeypadState) (x : Sample) : Prop :=
  ReturnsToIdle config s x ∧ ClockFits config s x

instance (config : Option KeypadConfig) (s : KeypadState) (x : Sample) :
    Decidable (Clean config s x) := inferInstanceAs (Decidable (_ ∧ _))

/-- The account of a run: what was reported, against the completed presses. -/
theorem account_run {config : Option KeypadConfig} {s : KeypadState} {samples : List Sample}
    (hinv : PressInv config s) (h : Along (pollStep config) (Clean config) s samples) :
    let s' := run (pollStep config) s samples
    let events := outputs (pollStep config) s samples
    PressInv config s' ∧
      completed config s samples + holding s' + pending s =
        count .okShort events + 2 * count .okDouble events + count .okLong events +
          pending s' + holding s := by
  induction samples generalizing s with
  | nil => exact ⟨hinv, by simp [completed, count]; omega⟩
  | cons x xs ih =>
      obtain ⟨⟨hret, hclock⟩, hrest⟩ := h
      obtain ⟨hturn, hinv'⟩ := pollStep_okTurn hinv hret hclock
      obtain ⟨hfinal, hsum⟩ := ih hinv' hrest
      refine ⟨hfinal, ?_⟩
      simp only [run_cons, outputs_cons, count_append, completed] at hsum ⊢
      have hup : ∀ t, okDown t = false → holding t = 0 := fun t ht => by simp [holding, ht]
      cases hturn with
      | up hd hd' hlong hdouble hshort =>
          have := hup _ hd
          have := hup _ hd'
          rw [hd, Bool.false_and, if_neg (by simp)]
          omega
      | begins hd hd' hfresh hlong hdouble hshort =>
          have := hup _ hd
          have hnew : holding (pollStep config s x).1 = 0 := by simp [holding, hfresh]
          rw [hd, Bool.false_and, if_neg (by simp)]
          omega
      | held hd hd' hlong hdouble hshort =>
          rw [hd', Bool.not_true, Bool.and_false, if_neg (by simp)]
          omega
      | endsHold hd hd' hlong hdouble hshort =>
          have := hup _ hd'
          rw [hd, hd', if_pos (by simp)]
          omega
      | endsClick hd hd' hnew hlong hshort =>
          have := hup _ hd'
          rw [hd, hd', if_pos (by simp)]
          omega

/-- While a press goes on at most its hold is reported. -/
theorem account_held {config : Option KeypadConfig} {s : KeypadState} {held : List Sample}
    (hinv : PressInv config s) (hs : okDown s = true)
    (h : Along (pollStep config) (Clean config) s held)
    (hdown : Along (pollStep config) (fun s x => okDown (pollStep config s x).1 = true) s held) :
    let s' := run (pollStep config) s held
    let events := outputs (pollStep config) s held
    PressInv config s' ∧ okDown s' = true ∧ count .okLong events + holding s = holding s' ∧
      count .okDouble events = 0 ∧ count .okShort events + pending s' = pending s := by
  induction held generalizing s with
  | nil => exact ⟨hinv, hs, Nat.zero_add _, rfl, Nat.zero_add _⟩
  | cons x xs ih =>
      obtain ⟨⟨hret, hclock⟩, hrest⟩ := h
      obtain ⟨hx, hdown⟩ := hdown
      obtain ⟨hturn, hinv'⟩ := pollStep_okTurn hinv hret hclock
      obtain ⟨hfinal, hdown', hlong', hdouble', hshort'⟩ := ih hinv' hx hrest hdown
      simp only [run_cons, outputs_cons, count_append] at *
      cases hturn with
      | held _ _ hlong hdouble hshort =>
          exact ⟨hfinal, hdown', by omega, by omega, by omega⟩
      | up h | begins h => exact absurd (h.symm.trans hs) (by simp)
      | endsHold _ h | endsClick _ h => exact absurd (h.symm.trans hx) (by simp)

/-- The samples of one press of OK: debounced by the first, held on by the next ones and
ended by the last. -/
structure OnePress (config : Option KeypadConfig) (s : KeypadState) (first : Sample)
    (held : List Sample) (last : Sample) : Prop where
  up : okDown s = false
  down : Along (pollStep config) (fun s x => okDown (pollStep config s x).1 = true) s
    (first :: held)
  ended : okDown (pollStep config (run (pollStep config) s (first :: held)) last).1 = false

/-- A press is reported once: as one hold, with no click of its own, or as a click, with
no hold. -/
theorem account_press {config : Option KeypadConfig} {s : KeypadState} {first last : Sample}
    {held : List Sample} (hinv : PressInv config s)
    (h : Along (pollStep config) (Clean config) s (first :: held ++ [last]))
    (hpress : OnePress config s first held last) :
    let s' := run (pollStep config) s (first :: held ++ [last])
    let events := outputs (pollStep config) s (first :: held ++ [last])
    (count .okLong events = 1 ∧ count .okDouble events = 0 ∧
        count .okShort events + pending s' = pending s) ∨
      (count .okLong events = 0 ∧
        count .okShort events + 2 * count .okDouble events + pending s' = pending s + 1) := by
  obtain ⟨hrun, hlast, _⟩ := (along_append s (first :: held) [last]).mp h
  obtain ⟨⟨hret, hclock⟩, hheld⟩ := hrun
  obtain ⟨hx, hdown⟩ := hpress.down
  obtain ⟨hturn, hinv₁⟩ := pollStep_okTurn hinv hret hclock
  obtain ⟨hinv₂, hdown₂, hlong₂, hdouble₂, hshort₂⟩ := account_held hinv₁ hx hheld hdown
  obtain ⟨hturn', _⟩ := pollStep_okTurn hinv₂ hlast.1 hlast.2
  have hended := hpress.ended
  have hup := hpress.up
  rw [run_append, outputs_append]
  simp only [run_cons, run_nil, outputs_cons, outputs_nil, List.append_nil, count_append] at *
  cases hturn with
  | begins _ _ hfresh hlong hdouble hshort =>
      have hnew : holding (pollStep config s first).1 = 0 := by simp [holding, hfresh]
      cases hturn' with
      | endsHold _ _ hlong' hdouble' hshort' =>
          exact .inl ⟨by omega, by omega, by omega⟩
      | endsClick _ _ hnew' hlong' hshort' => exact .inr ⟨by omega, by omega⟩
      | up hd | begins hd => exact absurd (hd.symm.trans hdown₂) (by simp)
      | held _ hd => exact absurd (hended.symm.trans hd) (by simp)
  | up _ hd => exact absurd (hd.symm.trans hx) (by simp)
  | held hd | endsHold hd | endsClick hd => exact absurd (hup.symm.trans hd) (by simp)

/-- In every run whose debounced key returns to idle between presses and whose clock fits
in its type, the completed OK presses are those reported or still pending (a hold counts
from its report on), and each press is reported once. -/
theorem clicks_balanced (config : Option KeypadConfig) (samples : List Sample)
    (h : Along (pollStep config) (Clean config) (stateInit config) samples) :
    let s := run (pollStep config) (stateInit config) samples
    let events := outputs (pollStep config) (stateInit config) samples
    completed config (stateInit config) samples + holding s =
        count .okShort events + 2 * count .okDouble events + count .okLong events + pending s ∧
      ∀ before first held last after, samples = before ++ ((first :: held ++ [last]) ++ after) →
        let s₁ := run (pollStep config) (stateInit config) before
        OnePress config s₁ first held last →
        let s₂ := run (pollStep config) s₁ (first :: held ++ [last])
        let reports := outputs (pollStep config) s₁ (first :: held ++ [last])
        (count .okLong reports = 1 ∧ count .okDouble reports = 0 ∧
            count .okShort reports + pending s₂ = pending s₁) ∨
          (count .okLong reports = 0 ∧
            count .okShort reports + 2 * count .okDouble reports + pending s₂ =
              pending s₁ + 1) := by
  have hinit : PressInv config (stateInit config) := .of_up rfl
  refine ⟨?_, ?_⟩
  · have hsum := (account_run hinit h).2
    simpa [pending, holding, stateInit, okDown] using hsum
  · rintro before first held last after rfl s₁ hpress
    obtain ⟨hbefore, hrest⟩ := (along_append _ before _).mp h
    obtain ⟨hpressed, _⟩ := (along_append _ (first :: held ++ [last]) after).mp hrest
    exact account_press (account_run hinit hbefore).1 hpressed hpress

/-- A sample far from every band. -/
def idleSample : Sample := ⟨2700000, true, true⟩

/-- A sample of OK. -/
def okSample : Sample := ⟨1995531, true, true⟩

/-- A click of OK. -/
def click : List Sample := [okSample, okSample, idleSample, idleSample]

/-- Two clicks in a row are one double click. -/
theorem clicks_balanced_twoClicks :
    completed (some taskConfig) (stateInit (some taskConfig)) (click ++ click) = 2 ∧
      2 + holding (run (pollStep (some taskConfig)) (stateInit (some taskConfig))
          (click ++ click)) =
        count .okShort (outputs (pollStep (some taskConfig)) (stateInit (some taskConfig))
            (click ++ click)) +
          2 * count .okDouble (outputs (pollStep (some taskConfig)) (stateInit (some taskConfig))
            (click ++ click)) +
          count .okLong (outputs (pollStep (some taskConfig)) (stateInit (some taskConfig))
            (click ++ click)) +
          pending (run (pollStep (some taskConfig)) (stateInit (some taskConfig))
            (click ++ click)) := by
  have hclean : Along (pollStep (some taskConfig)) (Clean (some taskConfig))
      (stateInit (some taskConfig)) (click ++ click) := by decide
  have htwo : completed (some taskConfig) (stateInit (some taskConfig)) (click ++ click) = 2 := by
    decide
  have hbalance := (clicks_balanced (some taskConfig) (click ++ click) hclean).1
  simp only [htwo] at hbalance
  exact ⟨htwo, hbalance⟩

/-- The state of an idle keypad after a number of polls. -/
def idleState (n : Nat) : KeypadState := { stateInit (some taskConfig) with sampleIndex := n }

theorem pollStep_idle (n : Nat) :
    pollStep (some taskConfig) (idleState n) idleSample =
      (idleState ((n + 1) % 2 ^ 32), []) := rfl

theorem idle_run (m : Nat) : ∀ n, n + m < 2 ^ 32 →
    run (pollStep (some taskConfig)) (idleState n) (List.replicate m idleSample) =
        idleState (n + m) ∧
      outputs (pollStep (some taskConfig)) (idleState n) (List.replicate m idleSample) = [] ∧
      completed (some taskConfig) (idleState n) (List.replicate m idleSample) = 0 ∧
      Along (pollStep (some taskConfig)) (ReturnsToIdle (some taskConfig)) (idleState n)
        (List.replicate m idleSample) := by
  induction m with
  | zero => exact fun n _ => ⟨rfl, rfl, rfl, trivial⟩
  | succ m ih =>
      intro n hn
      have hnext : (n + 1) % 2 ^ 32 = n + 1 := Nat.mod_eq_of_lt (by omega)
      obtain ⟨hrun, hout, hcompleted, halong⟩ := ih (n + 1) (by omega)
      rw [List.replicate_succ, run_cons, outputs_cons, completed, along_cons, pollStep_idle, hnext]
      refine ⟨?_, hout, ?_, fun hne => absurd rfl hne, halong⟩
      · rw [hrun, Nat.add_right_comm, Nat.add_assoc]
      · simp only
        rw [hcompleted]
        rfl

theorem completed_append (config : Option KeypadConfig) (s : KeypadState)
    (xs ys : List Sample) :
    completed config s (xs ++ ys) =
      completed config s xs + completed config (run (pollStep config) s xs) ys := by
  induction xs generalizing s with
  | nil => simp [completed]
  | cons x xs ih => simp [completed, ih, Nat.add_assoc]

/-- The polls of twenty-five days, one every 20 ms. -/
def uptime : Nat := 107374183

/-- A click after 2 ^ 31 ms of uptime is lost. -/
theorem click_lost_after_overflow :
    let config := some taskConfig
    let samples := List.replicate uptime idleSample ++ click
    let s := run (pollStep config) (stateInit config) samples
    let events := outputs (pollStep config) (stateInit config) samples
    Along (pollStep config) (ReturnsToIdle config) (stateInit config) samples ∧
      completed config (stateInit config) samples = 1 ∧ holding s = 0 ∧
      count .okShort events + 2 * count .okDouble events + count .okLong events + pending s =
        0 := by
  intro config samples s events
  obtain ⟨hrun, hout, hcompleted, halong⟩ := idle_run uptime 0 (by decide)
  rw [Nat.zero_add] at hrun
  have hs : s = run (pollStep config) (idleState uptime) click := by
    rw [← hrun]
    exact run_append _ _ _ _
  have hevents : events = outputs (pollStep config) (idleState uptime) click := by
    rw [← hrun, ← List.nil_append (outputs _ (run _ _ _) _), ← hout]
    exact outputs_append _ _ _ _
  refine ⟨?_, ?_, ?_, ?_⟩
  · refine (along_append _ _ _).mpr ⟨halong, ?_⟩
    show Along _ _ (run (pollStep (some taskConfig)) (idleState 0) _) _
    rw [hrun]
    decide
  · rw [completed_append]
    show completed _ (idleState 0) _ + completed _ (run _ (idleState 0) _) _ = 1
    rw [hcompleted, hrun]
    decide
  · rw [hs]
    decide
  · rw [hs, hevents]
    decide

end Keypad
end JppDos
