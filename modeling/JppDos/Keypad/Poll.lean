import JppDos.Lib.CInt
import JppDos.Lib.CText

/-!
# The keypad detector

`jpp_keypad_core.c`: one ADC sample in, debounced key events out.  A key is a C
string compared sometimes by address and sometimes by text; the clock is the
sample index times the poll interval, in 32 bits.

Main fact:
* `pollStep_effect`: everything a poll can do, with room in the event buffer.
-/

namespace JppDos
namespace Keypad

open CInt CText

/-- A key name: the string and where it is. -/
structure Key where
  addr : Nat
  text : List UInt8
deriving Repr, DecidableEq

/-- The text of the middle key. -/
def okText : List UInt8 := ascii "OK"

/-- `jpp_keypad_event_kind_t`. -/
inductive EventKind where
  | noEvent
  | press
  | release
  | repeated
  | okShort
  | okLong
  | okDouble
deriving Repr, DecidableEq

/-- `jpp_keypad_event_t`; only the texts of the strings are looked at. -/
structure Event where
  kind : EventKind
  key : List UInt8
  mapped : List UInt8
  durationMs : Int
deriving Repr, DecidableEq

/-- `jpp_keypad_band_t`. -/
structure Band where
  key : Option Key
  centerUv : Int
  toleranceUv : Int
  repeatable : Bool
deriving Repr, DecidableEq

/-- `jpp_keypad_config_t`. -/
structure KeypadConfig where
  enabled : Bool
  calibrationUv : Int
  hysteresisUv : Int
  debounceSamples : Int
  longPressMs : Int
  pollIntervalMs : Int
  repeatEnabled : Bool
  repeatDelayMs : Int
  repeatIntervalMs : Int
  detectDoubleClick : Bool
  doubleClickMs : Int
  bands : Option (List Band)
deriving Repr, DecidableEq

/-- The part of `jpp_keypad_state_t` that a poll reads. -/
structure KeypadState where
  enabled : Bool
  calibrationUv : Int
  stableKey : Option Key
  candidateKey : Option Key
  candidateCount : Int
  pressStartedMs : Int
  lastRepeatMs : Int
  okLongEmitted : Bool
  sampleIndex : Nat
  shortPending : Bool
  pendingReleaseMs : Int
deriving Repr, DecidableEq

/-- `JPP_KEYPAD_DEFAULT_BANDS`. -/
def defaultBands : List Band :=
  [⟨some ⟨1, ascii "UP"⟩, 120000, 40000, true⟩, ⟨some ⟨2, ascii "DOWN"⟩, 300000, 40000, true⟩,
    ⟨some ⟨3, ascii "LEFT"⟩, 500000, 40000, true⟩,
    ⟨some ⟨4, ascii "RIGHT"⟩, 700000, 40000, true⟩, ⟨some ⟨5, okText⟩, 900000, 40000, false⟩]

section Config

variable (config : Option KeypadConfig)

/-- `jpp_keypad_config_bands`. -/
def configBands : List Band :=
  match config.bind KeypadConfig.bands with
  | some (band :: bands) => band :: bands
  | _ => defaultBands

/-- `jpp_keypad_config_hysteresis_uv`. -/
def configHysteresisUv : Int :=
  match config with
  | none => 20000
  | some c => if c.hysteresisUv > 0 then c.hysteresisUv else 0

/-- A setting that has to be positive, with its default. -/
def configPositive (field : KeypadConfig → Int) (fallback : Int) : Int :=
  match config with
  | none => fallback
  | some c => if field c < 1 then fallback else field c

/-- `jpp_keypad_config_debounce_samples`. -/
def configDebounceSamples : Int := configPositive config KeypadConfig.debounceSamples 2

/-- `jpp_keypad_config_long_press_ms`. -/
def configLongPressMs : Int := configPositive config KeypadConfig.longPressMs 700

/-- `jpp_keypad_config_poll_interval_ms`. -/
def configPollIntervalMs : Int := configPositive config KeypadConfig.pollIntervalMs 100

/-- `jpp_keypad_config_repeat_delay_ms`. -/
def configRepeatDelayMs : Int := configPositive config KeypadConfig.repeatDelayMs 500

/-- `jpp_keypad_config_repeat_interval_ms`. -/
def configRepeatIntervalMs : Int := configPositive config KeypadConfig.repeatIntervalMs 500

/-- `jpp_keypad_config_double_click_ms`. -/
def configDoubleClickMs : Int := configPositive config KeypadConfig.doubleClickMs 300

/-- `jpp_keypad_config_detect_double_click`. -/
def configDetectDoubleClick : Bool := (config.map KeypadConfig.detectDoubleClick).getD false

/-- The difference of two clock values. -/
def elapsed (now since : Int) : Int := wrap32 (now - since)

/-- `now_ms` of a poll. -/
def nowMs (s : KeypadState) : Int := wrap32 (wrap32 s.sampleIndex * configPollIntervalMs config)

/-- One more event, when the buffer has room for it. -/
def emit (capacity : Nat) (e : Event) (events : List Event) : Option (List Event) :=
  if events.length ≥ capacity then none else some (events ++ [e])

/-- What a part of a poll returns: success, the state and the events so far. -/
abbrev Outcome := Bool × KeypadState × List Event

/-- The event of a click that is over its window. -/
def pendingShortEvent : Event := ⟨.okShort, okText, okText, 0⟩

/-- `jpp_keypad_check_pending_short`. -/
def checkPendingShort (capacity : Nat) (now : Int) (s : KeypadState) (events : List Event) :
    Outcome :=
  if !s.shortPending then (true, s, events)
  else if configDetectDoubleClick config ∧
      elapsed now s.pendingReleaseMs < configDoubleClickMs config then (true, s, events)
  else
    match emit capacity pendingShortEvent events with
    | none => (false, s, events)
    | some events => (true, { s with shortPending := false }, events)

/-- `jpp_keypad_band_by_key`. -/
def bandByKey (key : Key) : Option Band :=
  (configBands config).find? fun band => (band.key.map Key.text) == some key.text

/-- The tolerance of a band, at least 1. -/
def bandTolerance (band : Band) : Int := if band.toleranceUv > 0 then band.toleranceUv else 1

/-- The distance of a sample from the center of a band. -/
def bandDistance (adjustedUv : Int) (band : Band) : Int :=
  let distance := wrap32 (adjustedUv - band.centerUv)
  if distance < 0 then wrap32 (-distance) else distance

/-- The loop of `jpp_keypad_match_band`: the closest band, the first of several. -/
def closestBand (adjustedUv : Int) (bands : List Band) : Option Band :=
  bands.foldl (fun best band =>
    if bandDistance adjustedUv band ≤ bandTolerance band then
      match best with
      | none => some band
      | some b =>
          if bandDistance adjustedUv band < bandDistance adjustedUv b then some band else best
    else best) none

/-- `jpp_keypad_match_band`. -/
def matchBand (s : KeypadState) (adjustedUv : Int) : Option Band :=
  match closestBand adjustedUv (configBands config) with
  | some band => some band
  | none =>
      match s.stableKey.bind (bandByKey config) with
      | none => none
      | some band =>
          if bandDistance adjustedUv band ≤
              wrap32 (bandTolerance band + configHysteresisUv config) then some band
          else none

/-- `jpp_keypad_emit_repeat_if_needed`. -/
def emitRepeatIfNeeded (capacity : Nat) (key : Key) (now : Int) (s : KeypadState)
    (events : List Event) : Outcome :=
  if !(config.map KeypadConfig.repeatEnabled).getD true then (true, s, events)
  else if !((bandByKey config key).map Band.repeatable).getD false ∨ s.pressStartedMs < 0 then
    (true, s, events)
  else if elapsed now s.pressStartedMs < configRepeatDelayMs config then (true, s, events)
  else
    let s :=
      if s.lastRepeatMs < 0 then
        { s with lastRepeatMs := wrap32 (s.pressStartedMs + configRepeatDelayMs config) }
      else s
    if elapsed now s.lastRepeatMs < configRepeatIntervalMs config then (true, s, events)
    else
      match emit capacity ⟨.repeated, key.text, key.text, 0⟩ events with
      | none => (false, s, events)
      | some events => (true, { s with lastRepeatMs := now }, events)

/-- The end of `jpp_keypad_finalize_release` for a short click. -/
def finalizeClick (capacity : Nat) (key : Key) (now duration : Int) (s : KeypadState)
    (events : List Event) : Outcome :=
  if !configDetectDoubleClick config then
    match emit capacity ⟨.okShort, key.text, okText, duration⟩ events with
    | none => (false, s, events)
    | some events => (true, s, events)
  else if s.shortPending ∧ elapsed now s.pendingReleaseMs ≤ configDoubleClickMs config then
    match emit capacity ⟨.okDouble, key.text, ascii "DOUBLE", duration⟩ events with
    | none => (false, s, events)
    | some events => (true, { s with shortPending := false }, events)
  else (true, { s with shortPending := true, pendingReleaseMs := now }, events)

/-- `jpp_keypad_finalize_release`. -/
def finalizeRelease (capacity : Nat) (key : Key) (now : Int) (s : KeypadState)
    (events : List Event) : Outcome :=
  if s.pressStartedMs < 0 then (true, s, events)
  else
    let duration := max 0 (elapsed now s.pressStartedMs)
    if key.text = okText then
      if duration ≥ configLongPressMs config then
        if s.okLongEmitted then (true, s, events)
        else
          match emit capacity ⟨.okLong, key.text, ascii "HOLD", duration⟩ events with
          | none => (false, s, events)
          | some events => (true, s, events)
      else finalizeClick config capacity key now duration s events
    else
      match emit capacity ⟨.release, key.text, key.text, duration⟩ events with
      | none => (false, s, events)
      | some events => (true, s, events)

/-- `jpp_keypad_reset_hold_state`. -/
def resetHoldState (s : KeypadState) : KeypadState :=
  { s with pressStartedMs := -1, lastRepeatMs := -1, okLongEmitted := false }

/-- One more sample seen. -/
def advance (s : KeypadState) : KeypadState :=
  { s with sampleIndex := (s.sampleIndex + 1) % 2 ^ 32 }

/-- What follows a part of a poll that succeeded. -/
def onSuccess (r : Outcome) (next : KeypadState → KeypadState) : Outcome :=
  match r with
  | (true, s, events) => (true, next s, events)
  | (false, s, events) => (false, s, events)

/-- A poll without a sample. -/
def pollAbsent (capacity : Nat) (now : Int) (s : KeypadState) (events : List Event) : Outcome :=
  match s.stableKey with
  | none => (true, advance s, events)
  | some key =>
      let s := { s with stableKey := none, candidateKey := none, candidateCount := 0 }
      onSuccess (finalizeRelease config capacity key now s events) fun s =>
        advance (resetHoldState s)

/-- The OK key held on. -/
def holdOk (capacity : Nat) (key : Key) (now : Int) (s : KeypadState) (events : List Event) :
    Outcome :=
  let duration := elapsed now s.pressStartedMs
  if duration ≥ configLongPressMs config ∧ !s.okLongEmitted then
    match emit capacity ⟨.okLong, key.text, ascii "HOLD", duration⟩ events with
    | none => (false, s, events)
    | some events => (true, { s with okLongEmitted := true }, events)
  else if s.okLongEmitted ∧
      duration ≥ wrap32 (configLongPressMs config + configRepeatDelayMs config) ∧
      elapsed now s.lastRepeatMs ≥ configRepeatIntervalMs config then
    match emit capacity ⟨.repeated, key.text, ascii "HOLD", 0⟩ events with
    | none => (false, s, events)
    | some events => (true, { s with lastRepeatMs := now }, events)
  else (true, s, events)

/-- The start of the press, which is now when none is noted. -/
def startedMs (now : Int) (s : KeypadState) : Int :=
  if s.pressStartedMs < 0 then now else s.pressStartedMs

/-- A poll whose sample is the stable key. -/
def pollStable (capacity : Nat) (now : Int) (s : KeypadState) (events : List Event) : Outcome :=
  match s.stableKey with
  | none => (true, advance s, events)
  | some key =>
      let s := { s with pressStartedMs := startedMs now s }
      onSuccess
        (if key.text = okText then holdOk config capacity key now s events
         else emitRepeatIfNeeded config capacity key now s events) advance

/-- A poll whose sample is a new stable key, or none. -/
def pollDebounced (capacity : Nat) (now : Int) (key : Option Key) (s : KeypadState)
    (events : List Event) : Outcome :=
  let previous := s.stableKey
  let s := { s with stableKey := key, candidateCount := 0 }
  match key with
  | none =>
      onSuccess
        (match previous with
          | none => (true, s, events)
          | some prev => finalizeRelease config capacity prev now s events) fun s =>
        advance (resetHoldState { s with candidateKey := none })
  | some k =>
      let s := { s with pressStartedMs := now, lastRepeatMs := now, okLongEmitted := false }
      onSuccess
        (if k.text ≠ okText then
          match emit capacity ⟨.press, k.text, k.text, 0⟩ events with
          | none => (false, s, events)
          | some events => (true, s, events)
         else (true, s, events)) fun s =>
        advance { s with candidateKey := key }

/-- The key whose band a sample is in. -/
def sampledKey (s : KeypadState) (sampleUv : Int) : Option Key :=
  (matchBand config s (wrap32 (sampleUv + s.calibrationUv))).bind Band.key

/-- `jpp_keypad_poll` once the pending click is checked. -/
def pollSample (capacity : Nat) (sampleUv : Int) (samplePresent : Bool) (s : KeypadState)
    (events : List Event) : Outcome :=
  let now := nowMs config s
  if !samplePresent then pollAbsent config capacity now s events
  else
    let key := sampledKey config s sampleUv
    if key = s.stableKey then pollStable config capacity now s events
    else if key = s.candidateKey then
      let s := { s with candidateCount := wrap32 (s.candidateCount + 1) }
      if s.candidateCount < configDebounceSamples config then (true, advance s, events)
      else pollDebounced config capacity now key s events
    else (true, advance { s with candidateKey := key, candidateCount := 1 }, events)

/-- The detector is switched on. -/
def isOn (s : KeypadState) : Bool := s.enabled && (config.map KeypadConfig.enabled).getD true

/-- `jpp_keypad_poll`. -/
def poll (capacity : Nat) (sampleUv : Int) (samplePresent : Bool) (s : KeypadState) : Outcome :=
  if !isOn config s then (true, s, [])
  else
    match checkPendingShort config capacity (nowMs config s) s [] with
    | (false, s, events) => (false, s, events)
    | (true, s, events) => pollSample config capacity sampleUv samplePresent s events

/-- `jpp_keypad_state_init`. -/
def stateInit : KeypadState where
  enabled := (config.map KeypadConfig.enabled).getD true
  calibrationUv := (config.map KeypadConfig.calibrationUv).getD 0
  stableKey := none
  candidateKey := none
  candidateCount := 0
  pressStartedMs := -1
  lastRepeatMs := -1
  okLongEmitted := false
  sampleIndex := 0
  shortPending := false
  pendingReleaseMs := -1

end Config

/-- The capacity of the event buffer in `keypad_task`. -/
def eventCapacity : Nat := 8

/-- One turn of `keypad_task`: the sample, if there is one, and whether double clicks
are wanted just now. -/
structure Sample where
  uv : Int
  present : Bool
  detect : Bool
deriving Repr, DecidableEq

/-- The configuration of one turn. -/
def pollConfig (config : Option KeypadConfig) (x : Sample) : Option KeypadConfig :=
  config.map fun c => { c with detectDoubleClick := x.detect }

/-- One turn of `keypad_task`. -/
def pollStep (config : Option KeypadConfig) (s : KeypadState) (x : Sample) :
    KeypadState × List Event :=
  (poll (pollConfig config x) eventCapacity x.uv x.present s).2

/-- The configuration of the firmware, but for `detect_double_click`. -/
def taskConfig : KeypadConfig where
  enabled := true
  calibrationUv := 0
  hysteresisUv := 20000
  debounceSamples := 2
  longPressMs := 700
  pollIntervalMs := 20
  repeatEnabled := true
  repeatDelayMs := 500
  repeatIntervalMs := 500
  detectDoubleClick := false
  doubleClickMs := 300
  bands := some
    [⟨some ⟨1, ascii "LEFT"⟩, 3223, 200000, true⟩, ⟨some ⟨2, ascii "UP"⟩, 396498, 260000, true⟩,
      ⟨some ⟨3, ascii "DOWN"⟩, 902564, 260000, true⟩,
      ⟨some ⟨4, ascii "RIGHT"⟩, 1377949, 320000, true⟩,
      ⟨some ⟨5, okText⟩, 1995531, 345000, false⟩]

@[simp] theorem configDebounceSamples_pollConfig (config : Option KeypadConfig) (x : Sample) :
    configDebounceSamples (pollConfig config x) = configDebounceSamples config := by
  cases config <;> rfl

@[simp] theorem configLongPressMs_pollConfig (config : Option KeypadConfig) (x : Sample) :
    configLongPressMs (pollConfig config x) = configLongPressMs config := by
  cases config <;> rfl

@[simp] theorem nowMs_pollConfig (config : Option KeypadConfig) (x : Sample) (s : KeypadState) :
    nowMs (pollConfig config x) s = nowMs config s := by
  cases config <;> rfl

@[simp] theorem isOn_pollConfig (config : Option KeypadConfig) (x : Sample) (s : KeypadState) :
    isOn (pollConfig config x) s = isOn config s := by
  cases config <;> rfl

@[simp] theorem sampledKey_pollConfig (config : Option KeypadConfig) (x : Sample)
    (s : KeypadState) (uv : Int) :
    sampledKey (pollConfig config x) s uv = sampledKey config s uv := by
  cases config <;> rfl

section Effects

variable (config : Option KeypadConfig) {capacity : Nat} {events : List Event}

theorem emit_room (h : events.length < capacity) (e : Event) :
    emit capacity e events = some (events ++ [e]) := by
  rw [emit, if_neg (by omega)]

/-- The pending click is reported by the check at the start of a poll. -/
def flushes (now : Int) (s : KeypadState) : Bool :=
  s.shortPending && !(configDetectDoubleClick config &&
    elapsed now s.pendingReleaseMs < configDoubleClickMs config)

theorem checkPendingShort_eq (h : events.length < capacity) (now : Int) (s : KeypadState) :
    checkPendingShort config capacity now s events =
      (true, { s with shortPending := s.shortPending && !flushes config now s },
        events ++ if flushes config now s then [pendingShortEvent] else []) := by
  unfold checkPendingShort
  by_cases hpending : s.shortPending = true
  · rw [if_neg (by simp [hpending])]
    by_cases hwait : configDetectDoubleClick config = true ∧
        elapsed now s.pendingReleaseMs < configDoubleClickMs config
    · have hno : flushes config now s = false := by simp [flushes, hwait]
      rw [if_pos hwait, hno]
      simp
    · have hyes : flushes config now s = true := by
        rw [flushes, hpending]
        cases hd : configDetectDoubleClick config <;> simp_all
      rw [if_neg hwait, emit_room h, hyes]
      simp
  · have hno : flushes config now s = false := by simp [flushes, hpending]
    rw [if_pos (by simpa using hpending), hno]
    simp

/-- What the end of a press of a key reports, from the start of the press and what is
pending, and the pending click it leaves. -/
inductive Report (key : Key) (now started since : Int) (long pending : Bool) :
    Bool → Int → List Event → Prop
  | lost (h : started < 0) : Report key now started since long pending pending since []
  | release (duration : Int) (h : 0 ≤ started) (hkey : key.text ≠ okText) :
      Report key now started since long pending pending since
        [⟨.release, key.text, key.text, duration⟩]
  | held (h : 0 ≤ started) (hkey : key.text = okText) (hlong : long = true)
      (hduration : configLongPressMs config ≤ max 0 (elapsed now started)) :
      Report key now started since long pending pending since []
  | long (duration : Int) (h : 0 ≤ started) (hkey : key.text = okText) (hlong : long = false)
      (hduration : configLongPressMs config ≤ max 0 (elapsed now started)) :
      Report key now started since long pending pending since
        [⟨.okLong, key.text, ascii "HOLD", duration⟩]
  | short (duration : Int) (h : 0 ≤ started) (hkey : key.text = okText)
      (hduration : max 0 (elapsed now started) < configLongPressMs config)
      (hdetect : configDetectDoubleClick config = false) :
      Report key now started since long pending pending since
        [⟨.okShort, key.text, okText, duration⟩]
  | double (duration : Int) (h : 0 ≤ started) (hkey : key.text = okText)
      (hduration : max 0 (elapsed now started) < configLongPressMs config)
      (hpending : pending = true) :
      Report key now started since long pending false since
        [⟨.okDouble, key.text, ascii "DOUBLE", duration⟩]
  | withheld (h : 0 ≤ started) (hkey : key.text = okText)
      (hduration : max 0 (elapsed now started) < configLongPressMs config)
      (hdetect : configDetectDoubleClick config = true)
      (hwindow : pending = true → configDoubleClickMs config < elapsed now since) :
      Report key now started since long pending true now []

theorem finalizeRelease_report (h : events.length < capacity) (key : Key) (now : Int)
    (s : KeypadState) :
    ∃ pending since more,
      Report config key now s.pressStartedMs s.pendingReleaseMs s.okLongEmitted s.shortPending
        pending since more ∧
      finalizeRelease config capacity key now s events =
        (true, { s with shortPending := pending, pendingReleaseMs := since },
          events ++ more) := by
  unfold finalizeRelease finalizeClick
  by_cases hlost : s.pressStartedMs < 0
  · exact ⟨_, _, _, .lost hlost, by rw [if_pos hlost, List.append_nil]⟩
  have hstarted : 0 ≤ s.pressStartedMs := Int.not_lt.mp hlost
  rw [if_neg hlost]
  by_cases hkey : key.text = okText
  case neg =>
    exact ⟨_, _, _, .release _ hstarted hkey, by rw [if_neg hkey, emit_room h]⟩
  simp only [if_pos hkey]
  by_cases hlong : configLongPressMs config ≤ max 0 (elapsed now s.pressStartedMs)
  · rw [if_pos hlong]
    by_cases hemitted : s.okLongEmitted = true
    · exact ⟨_, _, _, .held hstarted hkey hemitted hlong,
        by rw [if_pos hemitted, List.append_nil]⟩
    · exact ⟨_, _, _, .long _ hstarted hkey (by simpa using hemitted) hlong,
        by rw [if_neg hemitted, emit_room h]⟩
  · rw [if_neg hlong]
    have hshort := Int.not_le.mp hlong
    by_cases hdetect : configDetectDoubleClick config = true
    · rw [if_neg (by simp [hdetect])]
      by_cases hdouble : s.shortPending = true ∧
          elapsed now s.pendingReleaseMs ≤ configDoubleClickMs config
      · exact ⟨_, _, _, .double _ hstarted hkey hshort hdouble.1,
          by rw [if_pos hdouble, emit_room h]⟩
      · exact ⟨_, _, _, .withheld hstarted hkey hshort hdetect
          fun hp => Int.not_le.mp fun hle => hdouble ⟨hp, hle⟩,
          by rw [if_neg hdouble, List.append_nil]⟩
    · exact ⟨_, _, _, .short _ hstarted hkey hshort (by simpa using hdetect),
        by rw [if_pos (by simpa using hdetect), emit_room h]⟩

/-- The debounced key changes to `key` at a poll. -/
def SwitchesTo (uv : Int) (present : Bool) (s : KeypadState) (key : Option Key) : Prop :=
  key ≠ s.stableKey ∧
    if present then
      sampledKey config s uv = key ∧ key = s.candidateKey ∧
        configDebounceSamples config ≤ wrap32 (s.candidateCount + 1)
    else key = none

instance (uv : Int) (present : Bool) (s : KeypadState) (key : Option Key) :
    Decidable (SwitchesTo config uv present s key) :=
  inferInstanceAs (Decidable (_ ∧ _))

/-- Whether a direction key that is held on is repeated, and the last repeat that is noted;
`started` and `last` are what is noted before. -/
inductive HeldRepeat (key : Key) (now started last : Int) : Int → Bool → Prop
  | waits : HeldRepeat key now started last last false
  | begins (hstarted : 0 ≤ started) (hdelay : configRepeatDelayMs config ≤ elapsed now started)
      (hlast : last < 0) :
      HeldRepeat key now started last (wrap32 (started + configRepeatDelayMs config)) false
  | repeats (henabled : (config.map KeypadConfig.repeatEnabled).getD true = true)
      (hband : ((bandByKey config key).map Band.repeatable).getD false = true)
      (hstarted : 0 ≤ started) (hdelay : configRepeatDelayMs config ≤ elapsed now started)
      (hinterval : 0 ≤ last → configRepeatIntervalMs config ≤ elapsed now last) :
      HeldRepeat key now started last now true

/-- What a poll does once the pending click is checked: nothing that is reported, a
key held on, a key released, or a key pressed. -/
inductive Effect (uv : Int) (present : Bool) (now : Int) (s : KeypadState) :
    KeypadState → List Event → Prop
  | quiet (candidate : Option Key) (count : Int)
      (hno : ∀ key, ¬ SwitchesTo config uv present s key) :
      Effect uv present now s
        (advance { s with candidateKey := candidate, candidateCount := count }) []
  | holdDirection (key : Key) (last : Int) (fires : Bool) (hkey : s.stableKey = some key)
      (hdir : key.text ≠ okText) (hno : ∀ key, ¬ SwitchesTo config uv present s key)
      (hrepeat : HeldRepeat config key now (startedMs now s) s.lastRepeatMs last fires) :
      Effect uv present now s
        (advance { s with pressStartedMs := startedMs now s, lastRepeatMs := last })
        (if fires then [⟨.repeated, key.text, key.text, 0⟩] else [])
  | holdOk (key : Key) (last : Int) (fires : Bool) (hkey : s.stableKey = some key)
      (hok : key.text = okText) (hno : ∀ key, ¬ SwitchesTo config uv present s key) :
      Effect uv present now s
        (advance { s with pressStartedMs := startedMs now s, lastRepeatMs := last })
        (if fires then [⟨.repeated, key.text, ascii "HOLD", 0⟩] else [])
  | holdLong (key : Key) (duration : Int) (hkey : s.stableKey = some key)
      (hok : key.text = okText) (hno : ∀ key, ¬ SwitchesTo config uv present s key)
      (hnew : s.okLongEmitted = false)
      (hlong : configLongPressMs config ≤ elapsed now (startedMs now s)) :
      Effect uv present now s
        (advance { s with pressStartedMs := startedMs now s, okLongEmitted := true })
        [⟨.okLong, key.text, ascii "HOLD", duration⟩]
  | release (key : Key) (hkey : s.stableKey = some key)
      (hswitch : SwitchesTo config uv present s none) {pending : Bool} {since : Int}
      {events : List Event}
      (hreport : Report config key now s.pressStartedMs s.pendingReleaseMs s.okLongEmitted
        s.shortPending pending since events) :
      Effect uv present now s
        (advance (resetHoldState { s with
          stableKey := none, candidateKey := none, candidateCount := 0,
          shortPending := pending, pendingReleaseMs := since })) events
  | press (key : Key) (hswitch : SwitchesTo config uv present s (some key)) :
      Effect uv present now s
        (advance { s with
          stableKey := some key, candidateKey := some key, candidateCount := 0,
          pressStartedMs := now, lastRepeatMs := now, okLongEmitted := false })
        (if key.text = okText then [] else [⟨.press, key.text, key.text, 0⟩])

theorem emitRepeatIfNeeded_eq (h : events.length < capacity) (key : Key) (now : Int)
    (s : KeypadState) :
    ∃ last, ∃ fires : Bool, emitRepeatIfNeeded config capacity key now s events =
        (true, { s with lastRepeatMs := last },
          events ++ if fires then [⟨.repeated, key.text, key.text, 0⟩] else []) ∧
      HeldRepeat config key now s.pressStartedMs s.lastRepeatMs last fires := by
  have still : ∃ last, ∃ fires : Bool,
      ((true, s, events) : Outcome) = (true, { s with lastRepeatMs := last },
          events ++ if fires then [⟨.repeated, key.text, key.text, 0⟩] else []) ∧
        HeldRepeat config key now s.pressStartedMs s.lastRepeatMs last fires :=
    ⟨s.lastRepeatMs, false, by simp, .waits⟩
  unfold emitRepeatIfNeeded
  split
  · exact still
  rename_i henabled
  split
  · exact still
  rename_i hband
  rw [not_or, Int.not_lt] at hband
  split
  · exact still
  rename_i hdelay
  rw [Int.not_lt] at hdelay
  rw [Bool.not_eq_true', Bool.not_eq_false] at henabled
  have hrepeatable : ((bandByKey config key).map Band.repeatable).getD false = true := by
    simpa using hband.1
  by_cases hlast : s.lastRepeatMs < 0
  · simp only [if_pos hlast]
    split
    · exact ⟨_, false, by simp, .begins hband.2 hdelay hlast⟩
    · rw [emit_room h]
      exact ⟨now, true, by simp, .repeats henabled hrepeatable hband.2 hdelay
        fun hpos => absurd hlast (Int.not_lt.mpr hpos)⟩
  · simp only [if_neg hlast]
    split
    · exact still
    · rename_i hinterval
      rw [emit_room h]
      exact ⟨now, true, by simp, .repeats henabled hrepeatable hband.2 hdelay
        fun _ => Int.not_lt.mp hinterval⟩

theorem pollStable_effect (h : events.length < capacity) {uv : Int} {present : Bool}
    (now : Int) (s : KeypadState) (hno : ∀ key, ¬ SwitchesTo config uv present s key) :
    ∃ s' more, pollStable config capacity now s events = (true, s', events ++ more) ∧
      Effect config uv present now s s' more := by
  unfold pollStable
  split
  · exact ⟨_, [], by rw [List.append_nil], .quiet s.candidateKey s.candidateCount hno⟩
  · rename_i key hkey
    by_cases hok : key.text = okText
    · simp only [if_pos hok, holdOk]
      split_ifs with hlong hrepeat
      · rw [emit_room h]
        exact ⟨_, _, rfl, .holdLong key _ hkey hok hno (by simpa using hlong.2) hlong.1⟩
      · rw [emit_room h]
        exact ⟨_, _, rfl, .holdOk key now true hkey hok hno⟩
      · refine ⟨_, _, ?_, .holdOk key s.lastRepeatMs false hkey hok hno⟩
        simp [onSuccess]
    · obtain ⟨last, fires, heq, hrepeat⟩ := emitRepeatIfNeeded_eq config h key now
        { s with pressStartedMs := startedMs now s }
      simp only [if_neg hok, heq]
      exact ⟨_, _, rfl, .holdDirection key last fires hkey hok hno hrepeat⟩

/-- The end of a press; what happens to the candidate key does not matter. -/
theorem release_effect (h : events.length < capacity) {uv : Int} {present : Bool} (now : Int)
    {s : KeypadState} {key : Key} (hkey : s.stableKey = some key)
    (hswitch : SwitchesTo config uv present s none) (candidate : Option Key) :
    ∃ s₁ s' more, finalizeRelease config capacity key now { s with
        stableKey := none, candidateKey := candidate, candidateCount := 0 } events =
        (true, s₁, events ++ more) ∧
      s' = advance (resetHoldState { s₁ with candidateKey := none }) ∧
      s₁.candidateKey = candidate ∧ Effect config uv present now s s' more := by
  obtain ⟨pending, since, more, hreport, heq⟩ := finalizeRelease_report config h key now
    { s with stableKey := none, candidateKey := candidate, candidateCount := 0 }
  exact ⟨_, _, more, heq, rfl, rfl, .release key hkey hswitch hreport⟩

theorem pollAbsent_effect (h : events.length < capacity) (uv now : Int) (s : KeypadState) :
    ∃ s' more, pollAbsent config capacity now s events = (true, s', events ++ more) ∧
      Effect config uv false now s s' more := by
  unfold pollAbsent
  cases hkey : s.stableKey with
  | none =>
      refine ⟨_, [], by rw [List.append_nil], .quiet s.candidateKey s.candidateCount ?_⟩
      rintro key ⟨hne, hnone⟩
      exact hne (by simpa [hkey] using hnone)
  | some key =>
      have hswitch : SwitchesTo config uv false s none := ⟨by simp [hkey], rfl⟩
      obtain ⟨s₁, s', more, heq, rfl, hcandidate, heffect⟩ :=
        release_effect config h now hkey hswitch none
      refine ⟨_, more, ?_, heffect⟩
      simp only [heq, onSuccess]
      rw [← hcandidate]

theorem pollDebounced_effect (h : events.length < capacity) {uv : Int} (now : Int)
    {s : KeypadState} (key : Option Key) (hswitch : SwitchesTo config uv true s key) (count : Int) :
    ∃ s' more, pollDebounced config capacity now key { s with candidateCount := count } events =
        (true, s', events ++ more) ∧ Effect config uv true now s s' more := by
  unfold pollDebounced
  cases key with
  | none =>
      cases hkey : s.stableKey with
      | none => exact absurd hkey.symm hswitch.1
      | some prev =>
          obtain ⟨s₁, s', more, heq, rfl, _, heffect⟩ :=
            release_effect config h now hkey hswitch s.candidateKey
          refine ⟨_, more, ?_, heffect⟩
          simp only [heq, onSuccess]
  | some key =>
      refine ⟨_, _, ?_, .press key hswitch⟩
      by_cases hok : key.text = okText
      · simp [hok, onSuccess]
      · simp [hok, onSuccess, emit_room h]

/-- Everything a poll can do once the pending click is checked. -/
theorem pollSample_effect (h : events.length < capacity) (uv : Int) (present : Bool)
    (s : KeypadState) :
    ∃ s' more, pollSample config capacity uv present s events = (true, s', events ++ more) ∧
      Effect config uv present (nowMs config s) s s' more := by
  unfold pollSample
  cases present with
  | false => exact pollAbsent_effect config h uv _ s
  | true =>
      simp only [Bool.not_true, Bool.false_eq_true, if_false]
      have quiet : ∀ candidate count, (∀ key, ¬ SwitchesTo config uv true s key) →
          ∃ s' more, ((true, advance { s with
              candidateKey := candidate, candidateCount := count }, events) : Outcome) =
            (true, s', events ++ more) ∧ Effect config uv true (nowMs config s) s s' more :=
        fun candidate count hno => ⟨_, [], by rw [List.append_nil], .quiet candidate count hno⟩
      split
      · rename_i hstable
        refine pollStable_effect config h _ s ?_
        rintro key ⟨hne, hsampled, _⟩
        exact hne (hsampled.symm.trans hstable)
      · rename_i hstable
        split
        · rename_i hcandidate
          split
          · rename_i hcount
            refine quiet s.candidateKey _ ?_
            rintro key ⟨_, hsampled, _, hdebounced⟩
            exact absurd hdebounced (Int.not_le.mpr hcount)
          · rename_i hcount
            exact pollDebounced_effect config h _ _
              ⟨hstable, rfl, hcandidate, Int.not_lt.mp hcount⟩ _
        · rename_i hcandidate
          refine quiet _ 1 ?_
          rintro key ⟨_, rfl, hcand, _⟩
          exact hcandidate hcand

/-- The state once the pending click is checked. -/
def afterCheck (now : Int) (s : KeypadState) : KeypadState :=
  { s with shortPending := s.shortPending && !flushes config now s }

/-- The event of the check. -/
def checkEvents (now : Int) (s : KeypadState) : List Event :=
  if flushes config now s then [pendingShortEvent] else []

theorem switchesTo_afterCheck (x : Sample) (now : Int) (s : KeypadState) (key : Option Key) :
    SwitchesTo (pollConfig config x) x.uv x.present (afterCheck (pollConfig config x) now s) key ↔
      SwitchesTo config x.uv x.present s key := by
  unfold SwitchesTo
  rw [sampledKey_pollConfig, configDebounceSamples_pollConfig]
  rfl

theorem nowMs_afterCheck (x : Sample) (now : Int) (s : KeypadState) :
    nowMs (pollConfig config x) (afterCheck (pollConfig config x) now s) = nowMs config s :=
  nowMs_pollConfig config x s

/-- Everything a turn of the task can do: nothing when the detector is off, else the
check of the pending click and one effect. -/
theorem pollStep_effect (s : KeypadState) (x : Sample) :
    (isOn config s = false ∧ pollStep config s x = (s, [])) ∨
      isOn config s = true ∧ ∃ s' more,
        pollStep config s x =
          (s', checkEvents (pollConfig config x) (nowMs config s) s ++ more) ∧
        Effect (pollConfig config x) x.uv x.present (nowMs config s)
          (afterCheck (pollConfig config x) (nowMs config s) s) s' more := by
  unfold pollStep poll
  rw [isOn_pollConfig, nowMs_pollConfig]
  cases hon : isOn config s with
  | false => exact .inl ⟨rfl, by simp⟩
  | true =>
      refine .inr ⟨rfl, ?_⟩
      have hroom : ([] : List Event).length < eventCapacity := by decide
      simp only [Bool.not_true, Bool.false_eq_true, if_false,
        checkPendingShort_eq (pollConfig config x) hroom]
      have hroom' : ([] ++ checkEvents (pollConfig config x) (nowMs config s) s).length <
          eventCapacity := by
        unfold checkEvents
        split_ifs <;> decide
      obtain ⟨s', more, heq, heffect⟩ := pollSample_effect (pollConfig config x) hroom' x.uv
        x.present (afterCheck (pollConfig config x) (nowMs config s) s)
      refine ⟨s', more, ?_, ?_⟩
      · exact congrArg Prod.snd heq
      · have hnow : nowMs (pollConfig config x)
            (afterCheck (pollConfig config x) (nowMs config s) s) = nowMs config s :=
          nowMs_pollConfig config x s
        rwa [hnow] at heffect

end Effects

end Keypad
end JppDos
