import JppDos.Keypad.Clicks
import JppDos.Keypad.Directions

/-!
# The cadence of the repeats

The events of the direction keys with the milliseconds at which they are reported: a REPEAT keeps
its distance from the PRESS and from the REPEAT before it.  The clock of the detector wraps around,
and a negative time is a mark for none, so no REPEAT may fall due while the clock is negative.
-/

namespace JppDos
namespace Keypad

open CInt CText Machine

/-- An event with its time and the key that is debounced then. -/
structure Timed where
  time : Int
  stable : Option (List UInt8)
  event : Event
  deriving DecidableEq

/-- The detector and the number of its polls. -/
structure Timeline where
  s : KeypadState
  polls : Nat
  deriving DecidableEq

/-- The milliseconds of the next poll. -/
def Timeline.ms (config : Option KeypadConfig) (t : Timeline) : Int :=
  t.polls * configPollIntervalMs config

/-- A turn of the task, with the time of its events. -/
def timedStep (config : Option KeypadConfig) (t : Timeline) (x : Sample) :
    Timeline × List Timed :=
  let (s, events) := pollStep config t.s x
  (⟨s, if isOn config t.s then t.polls + 1 else t.polls⟩,
    events.map fun e => ⟨t.ms config, s.stableKey.map Key.text, e⟩)

/-- The start of the task. -/
def timelineStart (config : Option KeypadConfig) : Timeline := ⟨stateInit config, 0⟩

/-- A REPEAT of the key is due at the time `now`. -/
def RepeatDue (config : Option KeypadConfig) (now : Int) (s : KeypadState) (key : Key) : Prop :=
  key.text ≠ okText ∧ (config.map KeypadConfig.repeatEnabled).getD true = true ∧
    ((bandByKey config key).map Band.repeatable).getD false = true ∧ 0 ≤ s.pressStartedMs ∧
    configRepeatDelayMs config ≤ elapsed now s.pressStartedMs ∧
    (0 ≤ s.lastRepeatMs → configRepeatIntervalMs config ≤ elapsed now s.lastRepeatMs)

instance (config : Option KeypadConfig) (now : Int) (s : KeypadState) (key : Key) :
    Decidable (RepeatDue config now s key) := inferInstanceAs (Decidable (_ ∧ _))

/-- A REPEAT of the debounced key is due only while the clock is not negative. -/
def DueOnClock (config : Option KeypadConfig) (now : Int) (s : KeypadState) : Prop :=
  ∀ key ∈ s.stableKey, RepeatDue config now s key → 0 ≤ now

instance (config : Option KeypadConfig) (now : Int) (s : KeypadState) :
    Decidable (DueOnClock config now s) := inferInstanceAs (Decidable (∀ _ ∈ _, _))

/-- A REPEAT of a direction key. -/
def IsRepeat (e : Event) : Prop := e.kind = .repeated ∧ e.key ≠ okText

instance (e : Event) : Decidable (IsRepeat e) := inferInstanceAs (Decidable (_ ∧ _))

/-- A press that is not released, and its last repeat. -/
structure Beat where
  key : List UInt8
  pressed : Int
  repeated : Option Int
  deriving DecidableEq

/-- What an event makes of the press. -/
def nextBeat (b : Option Beat) (e : Timed) : Option Beat :=
  if e.event.kind = .press then some ⟨e.event.key, e.time, none⟩
  else if e.event.kind = .release then none
  else if IsRepeat e.event then b.map fun beat => { beat with repeated := some e.time }
  else b

/-- A REPEAT is one of the key that was pressed last, the delay after the press and the interval
after the last REPEAT. -/
def OnBeat (delay interval : Int) (b : Option Beat) (e : Timed) : Prop :=
  IsRepeat e.event → ∃ beat, b = some beat ∧ beat.key = e.event.key ∧
    beat.pressed + delay ≤ e.time ∧ ∀ time ∈ beat.repeated, time + interval ≤ e.time

/-- All events are on their beat. -/
def Paced (delay interval : Int) : Option Beat → List Timed → Prop
  | _, [] => True
  | b, e :: events => OnBeat delay interval b e ∧ Paced delay interval (nextBeat b e) events

/-- The REPEAT events keep their distances, are those of the debounced key, and need the setting. -/
structure CadenceRight (config : Option KeypadConfig) (events : List Timed) : Prop where
  paced : Paced (configRepeatDelayMs config) (configRepeatIntervalMs config) none events
  stable : ∀ e ∈ events, IsRepeat e.event → e.stable = some e.event.key
  enabled : ∀ e ∈ events, IsRepeat e.event →
    (config.map KeypadConfig.repeatEnabled).getD true = true

variable {delay interval : Int} {config : Option KeypadConfig}

theorem paced_append (b : Option Beat) (events more : List Timed) :
    Paced delay interval b (events ++ more) ↔
      Paced delay interval b events ∧ Paced delay interval (events.foldl nextBeat b) more := by
  induction events generalizing b with
  | nil => exact ⟨fun h => ⟨trivial, h⟩, fun h => h.2⟩
  | cons e events ih => rw [List.cons_append, Paced, Paced, ih, and_assoc, List.foldl_cons]

/-- Events that are no business of the direction keys. -/
def Neutral (e : Event) : Prop := e.kind ≠ .press ∧ e.kind ≠ .release ∧ ¬ IsRepeat e

theorem nextBeat_neutral {b : Option Beat} {e : Timed} (h : Neutral e.event) :
    nextBeat b e = b := by
  rw [nextBeat, if_neg h.1, if_neg h.2.1, if_neg h.2.2]

/-- The clock of a poll is the time, as far as it fits. -/
theorem nowMs_eq_wrap32 {t : Timeline} (h : t.s.sampleIndex = t.polls % 2 ^ 32) :
    nowMs config t.s = wrap32 (t.ms config) := by
  have hindex : wrap32 (t.s.sampleIndex : Int) = wrap32 (t.polls : Int) := by
    rw [h]
    unfold wrap32
    push_cast
    exact Int.emod_bmod _ _
  have hmul := wrap32_mul_add (t.polls : Int) (configPollIntervalMs config) 0
  rw [add_zero, add_zero] at hmul
  rw [nowMs, hindex, hmul, Timeline.ms]

/-- A difference of two times on the clock is never too large. -/
theorem elapsed_le {now since : Int} (h : since ≤ now) :
    elapsed (wrap32 now) (wrap32 since) ≤ now - since := by
  have hdiff : elapsed (wrap32 now) (wrap32 since) = wrap32 (now - since) := by
    unfold elapsed wrap32
    rw [Int.bmod_sub_bmod, Int.sub_bmod_bmod]
  rw [hdiff]
  exact wrap32_le (by omega)

/-- What the detector has noted of the press of the key that is debounced, at the time `now`: its
start, and the last repeat unless a negative number stands there. -/
structure Noted (s : KeypadState) (now : Int) (beat : Beat) : Prop where
  started : ∃ time, beat.pressed ≤ time ∧ time ≤ now ∧ s.pressStartedMs = wrap32 time
  last : 0 ≤ s.lastRepeatMs →
    ∃ time, (∀ r ∈ beat.repeated, r ≤ time) ∧ time ≤ now ∧ s.lastRepeatMs = wrap32 time
  none : s.lastRepeatMs < 0 → beat.repeated = none

/-- The press of the key that is debounced is the last one, and noted. -/
def Beating (s : KeypadState) (now : Int) (b : Option Beat) : Prop :=
  ∀ key, openKey s = some key → ∃ beat, b = some beat ∧ beat.key = key ∧ Noted s now beat

theorem Noted.mono {s : KeypadState} {now later : Int} {beat : Beat} (h : Noted s now beat)
    (hle : now ≤ later) : Noted s later beat := by
  obtain ⟨⟨start, hpressed, hnow, hstart⟩, hlast, hnone⟩ := h
  refine ⟨⟨start, hpressed, by omega, hstart⟩, fun hpos => ?_, hnone⟩
  obtain ⟨time, hafter, htime, heq⟩ := hlast hpos
  exact ⟨time, hafter, by omega, heq⟩

theorem Noted.congr {s s' : KeypadState} {now : Int} {beat : Beat} (h : Noted s now beat)
    (hstarted : s'.pressStartedMs = s.pressStartedMs) (hlast : s'.lastRepeatMs = s.lastRepeatMs) :
    Noted s' now beat := by
  obtain ⟨hstart, hrepeat, hnone⟩ := h
  refine ⟨?_, ?_, ?_⟩
  · rwa [hstarted]
  · rwa [hlast]
  · rwa [hlast]

/-- The start of the press stays noted where a negative one is replaced. -/
theorem Noted.restart {s : KeypadState} {now : Int} {beat : Beat} (h : Noted s now beat) :
    ∃ time, beat.pressed ≤ time ∧ time ≤ now ∧ startedMs (wrap32 now) s = wrap32 time := by
  obtain ⟨start, hpressed, hnow, hstart⟩ := h.started
  unfold startedMs
  split_ifs
  · exact ⟨now, by omega, Int.le_refl now, rfl⟩
  · exact ⟨start, hpressed, hnow, hstart⟩

/-- The events of an effect, in time. -/
def timed (now : Int) (s : KeypadState) (events : List Event) : List Timed :=
  events.map fun e => ⟨now, s.stableKey.map Key.text, e⟩

/-- What is asked of the events of a turn, and of what they leave. -/
structure Turn (config : Option KeypadConfig) (now : Int) (b : Option Beat) (s' : KeypadState)
    (events : List Timed) : Prop where
  paced : Paced (configRepeatDelayMs config) (configRepeatIntervalMs config) b events
  stable : ∀ e ∈ events, IsRepeat e.event → e.stable = some e.event.key
  enabled : ∀ e ∈ events, IsRepeat e.event →
    (config.map KeypadConfig.repeatEnabled).getD true = true
  beating : Beating s' now (events.foldl nextBeat b)

theorem Turn.of_quiet {now : Int} {b : Option Beat} {s' : KeypadState} {events : List Timed}
    (hquiet : ∀ e ∈ events, ¬ IsRepeat e.event)
    (hbeating : Beating s' now (events.foldl nextBeat b)) : Turn config now b s' events := by
  refine ⟨?_, fun e he hr => absurd hr (hquiet e he), fun e he hr => absurd hr (hquiet e he),
    hbeating⟩
  clear hbeating
  induction events generalizing b with
  | nil => trivial
  | cons e events ih =>
      obtain ⟨he, hrest⟩ := List.forall_mem_cons.mp hquiet
      exact ⟨fun hr => absurd hr he, ih hrest⟩

theorem Beating.of_none {s : KeypadState} {now : Int} {b : Option Beat} (h : openKey s = none) :
    Beating s now b := by
  intro key hkey
  rw [h] at hkey
  exact absurd hkey (by simp)

theorem Turn.of_neutral {now : Int} {b : Option Beat} {s' : KeypadState} {e : Timed}
    (he : Neutral e.event) (hbeating : Beating s' now b) : Turn config now b s' [e] := by
  refine .of_quiet (fun e' he' => ?_) ?_
  · rw [List.mem_singleton.mp he']
    exact he.2.2
  · rwa [List.foldl_cons, List.foldl_nil, nextBeat_neutral he]

theorem Turn.of_held {now : Int} {b : Option Beat} {s : KeypadState} {key : Key} {last : Int}
    {fires : Bool} (hkey : s.stableKey = some key) (hdir : key.text ≠ okText)
    (h : Beating s now b)
    (hclock : DueOnClock config (wrap32 now) s)
    (hrepeat : HeldRepeat config key (wrap32 now) (startedMs (wrap32 now) s) s.lastRepeatMs last
      fires) :
    let s' := advance { s with pressStartedMs := startedMs (wrap32 now) s, lastRepeatMs := last }
    Turn config now b s'
      (timed now s' (if fires then [⟨.repeated, key.text, key.text, 0⟩] else [])) := by
  intro s'
  obtain ⟨beat, rfl, hbeat, hnoted⟩ := h key.text (openKey_of_direction hkey hdir)
  have hrestart := hnoted.restart
  have hopen : openKey s' = some key.text := openKey_of_direction hkey hdir
  cases hrepeat with
  | waits =>
      refine .of_quiet (fun e he => absurd he List.not_mem_nil) fun key' hkey' => ?_
      obtain rfl := Option.some.inj (hopen.symm.trans hkey')
      exact ⟨beat, rfl, hbeat, hrestart, hnoted.last, hnoted.none⟩
  | begins hstarted hdelay hlast =>
      refine .of_quiet (fun e he => absurd he List.not_mem_nil) fun key' hkey' => ?_
      obtain rfl := Option.some.inj (hopen.symm.trans hkey')
      have hempty := hnoted.none hlast
      refine ⟨beat, rfl, hbeat, hrestart, fun _ => ?_, fun _ => hempty⟩
      obtain ⟨start, -, hnow, hstart⟩ := hrestart
      rw [hstart] at hdelay
      have hle := elapsed_le hnow
      refine ⟨start + configRepeatDelayMs config, ?_, by omega, ?_⟩
      · rw [hempty]
        exact fun r hr => absurd hr (by simp)
      · have hsum := wrap32_mul_add start 1 (configRepeatDelayMs config)
        rw [mul_one, mul_one] at hsum
        change wrap32 (startedMs (wrap32 now) s + configRepeatDelayMs config) = _
        rw [hstart, hsum]
  | repeats henabled hband hstarted hdelay hinterval =>
      have hrep : IsRepeat ⟨.repeated, key.text, key.text, 0⟩ := ⟨rfl, hdir⟩
      have hpos : 0 ≤ wrap32 now := by
        unfold startedMs at hstarted hdelay
        split_ifs at hstarted hdelay with hold
        · exact hstarted
        · exact hclock key hkey ⟨hdir, henabled, hband, hstarted, hdelay, hinterval⟩
      obtain ⟨start, hpressed, hnow, hstart⟩ := hrestart
      have hafter : start + configRepeatDelayMs config ≤ now := by
        rw [hstart] at hdelay
        have hle := elapsed_le hnow
        omega
      have hdue : beat.pressed + configRepeatDelayMs config ≤ now := by omega
      have hapart : ∀ r ∈ beat.repeated, r + configRepeatIntervalMs config ≤ now := by
        intro r hr
        by_cases hlast : s.lastRepeatMs < 0
        · rw [hnoted.none hlast] at hr
          exact absurd hr (by simp)
        · have hlast := Int.not_lt.mp hlast
          obtain ⟨time, hbefore, htime, heq⟩ := hnoted.last hlast
          have hgap := hinterval hlast
          rw [heq] at hgap
          have hle := elapsed_le htime
          have hr := hbefore r hr
          omega
      have hmem : ∀ e ∈ timed now s' [⟨.repeated, key.text, key.text, 0⟩],
          e = ⟨now, some key.text, ⟨.repeated, key.text, key.text, 0⟩⟩ := by
        intro e he
        have heq := List.mem_singleton.mp he
        have hstable : s'.stableKey.map Key.text = some key.text := congrArg _ hkey
        rw [heq, hstable]
      refine ⟨⟨fun _ => ⟨beat, rfl, hbeat, hdue, hapart⟩, trivial⟩, fun e he _ => ?_,
        fun _ _ _ => henabled, fun key' hkey' => ?_⟩
      · rw [hmem e he]
      · obtain rfl := Option.some.inj (hopen.symm.trans hkey')
        refine ⟨{ beat with repeated := some now }, ?_, hbeat,
          ⟨start, hpressed, hnow, hstart⟩, fun _ => ⟨now, ?_, Int.le_refl now, rfl⟩, fun hneg => ?_⟩
        · change nextBeat (some beat)
            ⟨now, s'.stableKey.map Key.text, ⟨.repeated, key.text, key.text, 0⟩⟩ = _
          rw [nextBeat, if_neg (by simp), if_neg (by simp), if_pos hrep]
          rfl
        · intro r hr
          exact Int.le_of_eq (Option.some.inj hr).symm
        · exact absurd hneg (Int.not_lt.mpr hpos)

theorem neutral_of_ok {e : Event} (hkey : e.key = okText) (hpress : e.kind ≠ .press)
    (hrelease : e.kind ≠ .release) : Neutral e :=
  ⟨hpress, hrelease, fun h => h.2 hkey⟩

theorem Report.not_repeat {key : Key} {now started since : Int} {long pending pending' : Bool}
    {since' : Int} {events : List Event}
    (h : Report config key now started since long pending pending' since' events) :
    ∀ e ∈ events, ¬ IsRepeat e := by
  cases h with
  | lost | held | withheld => exact fun e he => absurd he List.not_mem_nil
  | release | long | short | double =>
      intro e he hr
      rw [List.mem_singleton.mp he] at hr
      exact absurd hr.1 (by simp)

/-- What every effect keeps, while no REPEAT is due on a negative clock. -/
theorem Beating.effect {uv : Int} {present : Bool} {now : Int} {b : Option Beat}
    {s s' : KeypadState} {more : List Event}
    (heffect : Effect config uv present (wrap32 now) s s' more) (h : Beating s now b)
    (hclock : DueOnClock config (wrap32 now) s) :
    Turn config now b s' (timed now s' more) := by
  cases heffect with
  | quiet candidate count hno =>
      refine .of_quiet (fun e he => absurd he List.not_mem_nil) fun key hkey => ?_
      obtain ⟨beat, hb, hbeat, hnoted⟩ := h key hkey
      exact ⟨beat, hb, hbeat, hnoted.congr rfl rfl⟩
  | holdDirection key last fires hkey hdir hno hrepeat =>
      exact .of_held hkey hdir h hclock hrepeat
  | holdOk key last fires hkey hok hno =>
      have hopen : openKey (advance { s with
          pressStartedMs := startedMs (wrap32 now) s, lastRepeatMs := last }) = none :=
        openKey_of_ok hkey hok
      cases fires with
      | false => exact .of_quiet (fun e he => absurd he List.not_mem_nil) (.of_none hopen)
      | true => exact .of_neutral (neutral_of_ok hok (by simp) (by simp)) (.of_none hopen)
  | holdLong key duration hkey hok hno hnew hlong =>
      have hopen : openKey (advance { s with
          pressStartedMs := startedMs (wrap32 now) s, okLongEmitted := true }) = none :=
        openKey_of_ok hkey hok
      exact .of_neutral (neutral_of_ok hok (by simp) (by simp)) (.of_none hopen)
  | release key hkey hswitch hreport =>
      refine .of_quiet (fun e he => ?_) (.of_none rfl)
      obtain ⟨event, hevent, rfl⟩ := List.mem_map.mp he
      exact hreport.not_repeat event hevent
  | press key hswitch =>
      by_cases hok : key.text = okText
      · rw [if_pos hok]
        exact .of_quiet (fun e he => absurd he List.not_mem_nil) (.of_none (openKey_of_ok rfl hok))
      · rw [if_neg hok]
        refine .of_quiet (fun e he => ?_) fun key' hkey' => ?_
        · rw [List.mem_singleton.mp he]
          exact fun hr => absurd hr.1 (by simp)
        · have hopen := openKey_of_direction (s := advance { s with
            stableKey := some key, candidateKey := some key, candidateCount := 0,
            pressStartedMs := wrap32 now, lastRepeatMs := wrap32 now,
            okLongEmitted := false }) rfl hok
          obtain rfl := Option.some.inj (hopen.symm.trans hkey')
          exact ⟨⟨key.text, now, none⟩, rfl, rfl, ⟨now, Int.le_refl now, Int.le_refl now, rfl⟩,
            fun _ => ⟨now, fun r hr => absurd hr (by simp), Int.le_refl now, rfl⟩, fun _ => rfl⟩

/-- The state and the events of a run so far. -/
structure OnTime (config : Option KeypadConfig) (t : Timeline) (events : List Timed) : Prop where
  index : t.s.sampleIndex = t.polls % 2 ^ 32
  right : CadenceRight config events
  beating : Beating t.s (t.ms config) (events.foldl nextBeat none)

theorem onTime_start (config : Option KeypadConfig) : OnTime config (timelineStart config) [] :=
  ⟨rfl, ⟨trivial, fun _ he => absurd he List.not_mem_nil, fun _ he => absurd he List.not_mem_nil⟩,
    .of_none rfl⟩

theorem CadenceRight.append {t : KeypadState} {now : Int} {events more : List Timed}
    (h : CadenceRight config events)
    (hturn : Turn config now (events.foldl nextBeat none) t more) :
    CadenceRight config (events ++ more) := by
  refine ⟨(paced_append none events more).mpr ⟨h.paced, hturn.paced⟩, fun e he => ?_,
    fun e he => ?_⟩
  · rcases List.mem_append.mp he with he | he
    · exact h.stable e he
    · exact hturn.stable e he
  · rcases List.mem_append.mp he with he | he
    · exact h.enabled e he
    · exact hturn.enabled e he

theorem beating_checkEvents (config : Option KeypadConfig) (now ms : Int) (s s' : KeypadState)
    (b : Option Beat) :
    (timed ms s' (checkEvents config now s)).foldl nextBeat b = b ∧
      ∀ e ∈ timed ms s' (checkEvents config now s), ¬ IsRepeat e.event := by
  have hneutral : Neutral pendingShortEvent := neutral_of_ok rfl (by decide) (by decide)
  unfold checkEvents
  split_ifs
  · refine ⟨nextBeat_neutral (e := ⟨ms, s'.stableKey.map Key.text, pendingShortEvent⟩) hneutral,
      fun e he => ?_⟩
    rw [List.mem_singleton.mp he]
    exact hneutral.2.2
  · exact ⟨rfl, fun e he => absurd he List.not_mem_nil⟩

theorem Turn.of_pollConfig {x : Sample} {now : Int} {b : Option Beat} {s' : KeypadState}
    {events : List Timed} (h : Turn (pollConfig config x) now b s' events) :
    Turn config now b s' events := by
  cases config with
  | none => exact h
  | some c => exact ⟨h.paced, h.stable, h.enabled, h.beating⟩

theorem dueOnClock_pollConfig {x : Sample} {now : Int} {s : KeypadState}
    (h : DueOnClock config now s) : DueOnClock (pollConfig config x) now s := by
  cases config with
  | none => exact h
  | some c => exact h

theorem OnTime.step {t : Timeline} {events : List Timed} (h : OnTime config t events) {x : Sample}
    (hclock : DueOnClock config (nowMs config t.s) t.s) :
    OnTime config (timedStep config t x).1 (events ++ (timedStep config t x).2) := by
  obtain ⟨hindex, hright, hbeating⟩ := h
  have hnow : nowMs config t.s = wrap32 (t.ms config) := nowMs_eq_wrap32 hindex
  rcases pollStep_effect config t.s x with ⟨hoff, heq⟩ | ⟨hon, s', more, heq, heffect⟩
  · have hstep : timedStep config t x = (t, []) := by
      rw [timedStep, heq, hoff]
      rfl
    rw [hstep, List.append_nil]
    exact ⟨hindex, hright, hbeating⟩
  · have hstep : timedStep config t x = (⟨s', t.polls + 1⟩,
        timed (t.ms config) s' (checkEvents (pollConfig config x) (nowMs config t.s) t.s) ++
          timed (t.ms config) s' more) := by
      rw [timedStep, heq, hon]
      exact congrArg (Prod.mk _) List.map_append
    have hcount : s'.sampleIndex = (t.s.sampleIndex + 1) % 2 ^ 32 := by
      cases heffect <;> rfl
    obtain ⟨hkept, hquiet⟩ := beating_checkEvents (pollConfig config x) (nowMs config t.s)
      (t.ms config) t.s s' (events.foldl nextBeat none)
    have hcheck : Turn config (t.ms config) (events.foldl nextBeat none) t.s
        (timed (t.ms config) s' (checkEvents (pollConfig config x) (nowMs config t.s) t.s)) :=
      .of_quiet hquiet (hkept.symm ▸ hbeating)
    rw [hnow] at heffect hclock
    -- The check of the pending click touches nothing that is noted of a press.
    have hchecked : Beating (afterCheck (pollConfig config x) (wrap32 (t.ms config)) t.s)
        (t.ms config) (events.foldl nextBeat none) := by
      intro key hkey
      obtain ⟨beat, hb, hbeat, hnoted⟩ := hbeating key hkey
      exact ⟨beat, hb, hbeat, hnoted.congr rfl rfl⟩
    have hturn : Turn config (t.ms config) (events.foldl nextBeat none) s'
        (timed (t.ms config) s' more) :=
      .of_pollConfig (x := x) (hchecked.effect heffect (dueOnClock_pollConfig hclock))
    have hlater : t.ms config ≤ Timeline.ms config ⟨s', t.polls + 1⟩ := by
      have hpoll := one_le_configPollIntervalMs config
      unfold Timeline.ms
      push_cast
      rw [add_mul, one_mul]
      omega
    have hright' := hright.append hcheck
    have hbeats : (events ++ timed (t.ms config) s' (checkEvents (pollConfig config x)
        (nowMs config t.s) t.s)).foldl nextBeat none = events.foldl nextBeat none := by
      rw [List.foldl_append, hkept]
    rw [hstep, ← List.append_assoc]
    refine ⟨?_, hright'.append (hbeats.symm ▸ hturn), ?_⟩
    · change s'.sampleIndex = (t.polls + 1) % 2 ^ 32
      rw [hcount, hindex, Nat.mod_add_mod]
    · intro key hkey
      rw [List.foldl_append, hbeats]
      obtain ⟨beat, hb, hbeat, hnoted⟩ := hturn.beating key hkey
      exact ⟨beat, hb, hbeat, hnoted.mono hlater⟩

/-- The REPEAT events keep their distances in every run in which none falls due on a negative
clock. -/
theorem repeat_cadence (config : Option KeypadConfig) (samples : List Sample)
    (h : Along (timedStep config) (fun t _ => DueOnClock config (nowMs config t.s) t.s)
      (timelineStart config) samples) :
    CadenceRight config (outputs (timedStep config) (timelineStart config) samples) :=
  (h.monitor (I := OnTime config) (fun _ _ _ hon hclock => hon.step hclock)
    (onTime_start config)).right

/-- A sample of UP. -/
def upSample : Sample := ⟨396498, true, false⟩

/-- UP is held for half a second, and repeated once. -/
theorem repeat_cadence_up :
    CadenceRight (some taskConfig) (outputs (timedStep (some taskConfig))
      (timelineStart (some taskConfig)) (List.replicate 30 upSample)) :=
  repeat_cadence (some taskConfig) (List.replicate 30 upSample) (by decide +kernel)

theorem timedStep_idle {n : Nat} (h : n + 1 < 2 ^ 32) :
    timedStep (some taskConfig) ⟨idleState n, n⟩ idleSample =
      (⟨idleState (n + 1), n + 1⟩, []) := by
  rw [timedStep, pollStep_idle, Nat.mod_eq_of_lt h]
  rfl

theorem timed_idle_run (m : Nat) : ∀ n, n + m < 2 ^ 32 →
    run (timedStep (some taskConfig)) ⟨idleState n, n⟩ (List.replicate m idleSample) =
        ⟨idleState (n + m), n + m⟩ ∧
      outputs (timedStep (some taskConfig)) ⟨idleState n, n⟩ (List.replicate m idleSample) =
        [] := by
  induction m with
  | zero => exact fun n _ => ⟨rfl, rfl⟩
  | succ m ih =>
      intro n hn
      obtain ⟨hrun, hout⟩ := ih (n + 1) (by omega)
      rw [List.replicate_succ, run_cons, outputs_cons, timedStep_idle (by omega), hrun, hout,
        Nat.add_right_comm, Nat.add_assoc]
      exact ⟨rfl, rfl⟩

theorem outputs_late {n : Nat} (hn : n < 2 ^ 32) (samples : List Sample) :
    outputs (timedStep (some taskConfig)) (timelineStart (some taskConfig))
        (List.replicate n idleSample ++ samples) =
      outputs (timedStep (some taskConfig)) ⟨idleState n, n⟩ samples := by
  obtain ⟨hrun, hout⟩ := timed_idle_run n 0 (by omega)
  rw [Nat.zero_add] at hrun
  rw [outputs_append]
  change outputs _ (⟨idleState 0, 0⟩ : Timeline) _ ++
    outputs _ (run _ (⟨idleState 0, 0⟩ : Timeline) _) _ = _
  rw [hrun, hout, List.nil_append]

/-- The last polls before 2 ^ 31 ms of uptime. -/
def beforeTurn : Nat := 107374150

/-- The repeats of a key held over 2 ^ 31 ms of uptime: two of them are 20 ms apart. -/
theorem outputs_over_turn :
    outputs (timedStep (some taskConfig)) ⟨idleState beforeTurn, beforeTurn⟩
        (List.replicate 53 upSample) =
      [⟨2147483020, some (ascii "UP"), ⟨.press, ascii "UP", ascii "UP", 0⟩⟩,
        ⟨2147483520, some (ascii "UP"), ⟨.repeated, ascii "UP", ascii "UP", 0⟩⟩,
        ⟨2147484020, some (ascii "UP"), ⟨.repeated, ascii "UP", ascii "UP", 0⟩⟩,
        ⟨2147484040, some (ascii "UP"), ⟨.repeated, ascii "UP", ascii "UP", 0⟩⟩] := by
  decide +kernel

/-- UP is held over 2 ^ 31 ms of uptime: the repeats come with every poll. -/
theorem not_repeat_cadence :
    ¬ ∀ (config : Option KeypadConfig) (samples : List Sample),
      CadenceRight config (outputs (timedStep config) (timelineStart config) samples) := by
  intro h
  have hevents := outputs_late (n := beforeTurn) (by decide) (List.replicate 53 upSample)
  rw [outputs_over_turn] at hevents
  obtain ⟨-, -, -, hlast, -⟩ := (hevents ▸ h (some taskConfig) _ : CadenceRight _ _).paced
  obtain ⟨beat, hbeat, -, -, hgap⟩ := hlast ⟨rfl, by decide⟩
  simp only [nextBeat, IsRepeat] at hbeat
  obtain rfl := Option.some.inj hbeat
  exact absurd (hgap 2147484020 rfl) (by decide)

end Keypad
end JppDos
