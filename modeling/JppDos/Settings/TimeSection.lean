import JppDos.Lib.Machine
import JppDos.Settings.Backup
import JppDos.Ui.Shell

/-!
# The time section of the settings

`handle_time` of `jpp_settings_screen.c`: a list of three rows, of which the last leads to a screen
that changes the timezone in place, and `settings_do_ntp_save`, which every save goes through.
-/

namespace JppDos
namespace Settings

open CText Machine Ui

/-- `jpp_time_ss_t`. -/
inductive TimeSs where
  | main
  | list
  | timezone
  deriving DecidableEq

/-- What the section keeps in `jpp_settings_state_t`. -/
structure TimeState where
  sectionOpen : Bool
  timeSs : TimeSs
  listCursor : Nat
  ntpEnabled : Bool
  ntpHost : CStr
  timezoneOffsetH : Int
  deriving DecidableEq

/-- The arguments of `do_ntp_save`. -/
structure NtpSave where
  enabled : Bool
  host : CStr
  tzOffsetH : Int
  deriving DecidableEq

/-- The call of `do_ntp_save`. -/
def TimeState.save (s : TimeState) : NtpSave := ⟨s.ntpEnabled, s.ntpHost, s.timezoneOffsetH⟩

/-- A key in the list; `typed` is what the keyboard returns, if it is shown and ends with OK. -/
def handleList (typed : Option CStr) (s : TimeState) : Action → TimeState × List NtpSave
  | .up => ({ s with listCursor := s.listCursor - 1 }, [])
  | .down =>
      ({ s with listCursor := if s.listCursor < 2 then s.listCursor + 1 else s.listCursor }, [])
  | .ok =>
      if s.listCursor = 0 then
        let s := { s with ntpEnabled := !s.ntpEnabled }
        (s, [s.save])
      else if s.listCursor = 1 then
        match typed with
        | none => (s, [])
        | some host =>
            if host.val = [] then (s, [])
            else
              let s := { s with ntpHost := host.strncpy ntpHostMax }
              (s, [s.save])
      else ({ s with timeSs := .timezone }, [])
  | .back => ({ s with timeSs := .main }, [])
  | _ => (s, [])

/-- A key on the screen for the timezone. -/
def handleTimezone (s : TimeState) : Action → TimeState × List NtpSave
  | .up =>
      (if s.timezoneOffsetH < 14 then { s with timezoneOffsetH := s.timezoneOffsetH + 1 } else s,
        [])
  | .down =>
      (if -12 < s.timezoneOffsetH then { s with timezoneOffsetH := s.timezoneOffsetH - 1 } else s,
        [])
  | .ok => ({ s with timeSs := .list }, [s.save])
  | .back => ({ s with timeSs := .list }, [])
  | _ => (s, [])

/-- `handle_time`, and the keys that close the section and open it again. -/
def handleTime (typed : Option CStr) (s : TimeState) (action : Action) :
    TimeState × List NtpSave :=
  if s.sectionOpen then
    match s.timeSs with
    | .main =>
        match action with
        | .ok => ({ s with timeSs := .list, listCursor := 0 }, [])
        | .back => ({ s with sectionOpen := false }, [])
        | _ => (s, [])
    | .list => handleList typed s action
    | .timezone => handleTimezone s action
  else if action = .ok then ({ s with sectionOpen := true, timeSs := .main, listCursor := 0 }, [])
  else (s, [])

/-- `settings_do_ntp_save`: `s_ntp_cfg` is what `ntp_apply` sets the clock by and
`ntp_cfg_save` stores. -/
def settingsDoNtpSave (cfg : NtpCfg) (save : NtpSave) : NtpCfg where
  enabled := save.enabled
  host := if save.host.val = [] then cfg.host else save.host.strncpy ntpHostMax
  tzOffsetH := save.tzOffsetH

/-- The section with the configuration, and the offset that was confirmed last. -/
structure TimeSystem where
  state : TimeState
  cfg : NtpCfg
  confirmed : Int
  deriving DecidableEq

/-- OK on the screen for the timezone. -/
def confirms (s : TimeState) (action : Action) : Bool :=
  s.sectionOpen && decide (s.timeSs = .timezone) && decide (action = .ok)

/-- A key, with what the keyboard would return. -/
def timeStep (t : TimeSystem) (key : Action × Option CStr) : TimeSystem × List NtpSave :=
  let (state, saves) := handleTime key.2 t.state key.1
  (⟨state, saves.foldl settingsDoNtpSave t.cfg,
    if confirms t.state key.1 then t.state.timezoneOffsetH else t.confirmed⟩, saves)

/-- The start of the main loop: `ntp_cfg_load`, and the section over it. -/
def timeStart (cfg : NtpCfg) : TimeSystem where
  state :=
    { sectionOpen := false
      timeSs := .main
      listCursor := 0
      ntpEnabled := cfg.enabled
      ntpHost := cfg.host.strncpy ntpHostMax
      timezoneOffsetH := cfg.tzOffsetH }
  cfg := cfg
  confirmed := cfg.tzOffsetH

/-- An offset that the settings allow. -/
def Allowed (offset : Int) : Prop := -12 ≤ offset ∧ offset ≤ 14

instance (offset : Int) : Decidable (Allowed offset) := inferInstanceAs (Decidable (_ ∧ _))

/-- The clock goes by the offset that was confirmed last, and the offset is an allowed one. -/
def ClockRight (t : TimeSystem) : Prop :=
  t.cfg.tzOffsetH = t.confirmed ∧ Allowed t.state.timezoneOffsetH ∧ Allowed t.confirmed

/-- Every save of a key passes the offset that was confirmed last. -/
def SavesConfirmed (t : TimeSystem) (key : Action × Option CStr) : Prop :=
  ∀ save ∈ (timeStep t key).2, save.tzOffsetH = (timeStep t key).1.confirmed

/-- BACK does not leave a changed offset behind. -/
def NothingAbandoned (t : TimeSystem) (key : Action × Option CStr) : Prop :=
  t.state.sectionOpen → t.state.timeSs = .timezone → key.1 = .back →
    t.state.timezoneOffsetH = t.confirmed

instance (t : TimeSystem) (key : Action × Option CStr) : Decidable (NothingAbandoned t key) :=
  inferInstanceAs (Decidable (_ → _ → _ → _))

/-- Outside the screen for the timezone the offset is the confirmed one. -/
structure Settled (t : TimeSystem) : Prop where
  clock : t.cfg.tzOffsetH = t.confirmed
  allowed : Allowed t.state.timezoneOffsetH
  allowedConfirmed : Allowed t.confirmed
  outside : t.state.sectionOpen = false ∨ t.state.timeSs ≠ .timezone →
    t.state.timezoneOffsetH = t.confirmed

section Keys

variable {t : TimeSystem} {typed : Option CStr} {s : TimeState}

/-- A key in the list leaves the offset, and saves it as it is. -/
theorem handleList_spec (typed : Option CStr) (s : TimeState) (action : Action) :
    (handleList typed s action).1.timezoneOffsetH = s.timezoneOffsetH ∧
      ∀ save ∈ (handleList typed s action).2, save.tzOffsetH = s.timezoneOffsetH := by
  cases action with
  | ok =>
      unfold handleList
      dsimp only
      split_ifs
      · exact ⟨rfl, by simp [TimeState.save]⟩
      · cases typed with
        | none => exact ⟨rfl, by simp⟩
        | some host =>
            dsimp only
            split_ifs
            · exact ⟨rfl, by simp⟩
            · exact ⟨rfl, by simp [TimeState.save]⟩
      · exact ⟨rfl, by simp⟩
  | none | up | down | left | right | back => exact ⟨rfl, by simp [handleList]⟩

/-- A key on the screen for the timezone keeps the offset an allowed one; only OK saves, and it and
BACK leave the screen and the offset as it is. -/
theorem handleTimezone_spec (s : TimeState) (action : Action) (h : Allowed s.timezoneOffsetH) :
    Allowed (handleTimezone s action).1.timezoneOffsetH ∧
      (action ≠ .ok → (handleTimezone s action).2 = []) ∧
      (action = .ok → (handleTimezone s action).2 = [s.save]) ∧
      (action = .ok ∨ action = .back →
        (handleTimezone s action).1.timezoneOffsetH = s.timezoneOffsetH) ∧
      (¬ (action = .ok ∨ action = .back) →
        (handleTimezone s action).1.timeSs = s.timeSs ∧
          (handleTimezone s action).1.sectionOpen = s.sectionOpen) := by
  obtain ⟨hlow, hhigh⟩ := h
  cases action with
  | up =>
      unfold handleTimezone
      dsimp only
      split_ifs
      · exact ⟨⟨by dsimp only; omega, by dsimp only; omega⟩, by simp⟩
      · exact ⟨⟨hlow, hhigh⟩, by simp⟩
  | down =>
      unfold handleTimezone
      dsimp only
      split_ifs
      · exact ⟨⟨by dsimp only; omega, by dsimp only; omega⟩, by simp⟩
      · exact ⟨⟨hlow, hhigh⟩, by simp⟩
  | none | left | right | ok | back => exact ⟨⟨hlow, hhigh⟩, by simp [handleTimezone]⟩

theorem foldl_save_tz {saves : List NtpSave} {offset : Int} {cfg : NtpCfg}
    (hcfg : saves = [] → cfg.tzOffsetH = offset) (h : ∀ save ∈ saves, save.tzOffsetH = offset) :
    (saves.foldl settingsDoNtpSave cfg).tzOffsetH = offset := by
  induction saves generalizing cfg with
  | nil => exact hcfg rfl
  | cons save saves ih =>
      refine ih (fun _ => ?_) fun later hlater => h later (List.mem_cons_of_mem _ hlater)
      exact h save List.mem_cons_self

theorem Settled.next (h : Settled t) {state : TimeState} {saves : List NtpSave} {confirmed : Int}
    (hstate : Allowed state.timezoneOffsetH) (hconfirmed : Allowed confirmed)
    (hsaves : ∀ save ∈ saves, save.tzOffsetH = confirmed)
    (hsame : saves = [] → confirmed = t.confirmed)
    (houtside : state.sectionOpen = false ∨ state.timeSs ≠ .timezone →
      state.timezoneOffsetH = confirmed) :
    Settled ⟨state, saves.foldl settingsDoNtpSave t.cfg, confirmed⟩ := by
  refine ⟨foldl_save_tz (fun hnil => ?_) hsaves, hstate, hconfirmed, houtside⟩
  rw [hsame hnil]
  exact h.clock

theorem handleTime_outside (typed : Option CStr) {s : TimeState} (action : Action)
    (h : s.sectionOpen = false ∨ s.timeSs ≠ .timezone) :
    (handleTime typed s action).1.timezoneOffsetH = s.timezoneOffsetH ∧
      ∀ save ∈ (handleTime typed s action).2, save.tzOffsetH = s.timezoneOffsetH := by
  unfold handleTime
  split_ifs with hopen hok
  · cases hss : s.timeSs with
    | main => cases action <;> exact ⟨rfl, by simp⟩
    | list => exact handleList_spec typed s action
    | timezone => exact absurd hss (h.resolve_left (by simp [hopen]))
  · exact ⟨rfl, by simp⟩
  · exact ⟨rfl, by simp⟩

/-- What every key keeps, if it does not leave a change behind: and it saves the offset that was
confirmed last. -/
theorem Settled.step (h : Settled t) (key : Action × Option CStr)
    (hleave : NothingAbandoned t key) :
    Settled (timeStep t key).1 ∧ SavesConfirmed t key := by
  obtain ⟨action, typed⟩ := key
  by_cases hout : t.state.sectionOpen = false ∨ t.state.timeSs ≠ .timezone
  · obtain ⟨hsame, hsaves⟩ := handleTime_outside typed action hout
    have hconfirms : confirms t.state action = false := by
      rcases hout with hclosed | hss
      · simp [confirms, hclosed]
      · simp [confirms, hss]
    rw [h.outside hout] at hsame hsaves
    unfold SavesConfirmed
    simp only [timeStep, hconfirms, Bool.false_eq_true, if_false]
    exact ⟨h.next (hsame ▸ h.allowedConfirmed) h.allowedConfirmed hsaves (fun _ => rfl)
      fun _ => hsame, hsaves⟩
  · obtain ⟨hopen, hss⟩ := not_or.mp hout
    rw [Bool.not_eq_false] at hopen
    rw [not_not] at hss
    have htime : handleTime typed t.state action = handleTimezone t.state action := by
      simp only [handleTime, hopen, hss, if_true]
    obtain ⟨hallowed, hquiet, hok, hleft, hstays⟩ := handleTimezone_spec t.state action h.allowed
    unfold SavesConfirmed
    simp only [timeStep, htime]
    by_cases haction : action = .ok
    · have hconfirms : confirms t.state action = true := by simp [confirms, hopen, hss, haction]
      have hsaves : ∀ save ∈ [t.state.save], save.tzOffsetH = t.state.timezoneOffsetH := by
        simp [TimeState.save]
      rw [if_pos hconfirms, hok haction]
      exact ⟨h.next hallowed h.allowed hsaves (by simp) fun _ => hleft (.inl haction), hsaves⟩
    · have hconfirms : ¬ confirms t.state action = true := by simp [confirms, haction]
      rw [if_neg hconfirms, hquiet haction]
      refine ⟨h.next hallowed h.allowedConfirmed (by simp) (fun _ => rfl) fun houtside => ?_,
        by simp⟩
      by_cases hback : action = .back
      · rw [hleft (.inr hback)]
        exact hleave hopen hss hback
      · obtain ⟨hss', hopen'⟩ := hstays (not_or.mpr ⟨haction, hback⟩)
        rw [hss', hopen', hopen, hss] at houtside
        simp at houtside

theorem settled_start {cfg : NtpCfg} (h : Allowed cfg.tzOffsetH) : Settled (timeStart cfg) :=
  ⟨rfl, h, h, fun _ => rfl⟩

/-- In every run of keys that leaves no change behind with BACK, every save passes the offset that
was confirmed last, the clock goes by it, and the offset stays an allowed one. -/
theorem timeSection_settled {cfg : NtpCfg} (h : Allowed cfg.tzOffsetH)
    {keys : List (Action × Option CStr)}
    (hkeys : Along timeStep NothingAbandoned (timeStart cfg) keys) :
    Throughout timeStep ClockRight (timeStart cfg) keys ∧
      Along timeStep SavesConfirmed (timeStart cfg) keys := by
  have hsettled : Throughout timeStep Settled (timeStart cfg) keys :=
    hkeys.throughout (fun _ key hs hleave => (hs.step key hleave).1) (settled_start h)
  refine ⟨hsettled.mono fun t ht => ⟨ht.clock, ht.allowed, ht.allowedConfirmed⟩, ?_⟩
  exact hkeys.of_invariant (fun _ key hs hleave => hs.step key hleave) (settled_start h)

/-- The clock of a device in UTC. -/
def utcCfg : NtpCfg := ⟨false, ⟨ascii "time.nist.gov", by decide⟩, 0⟩

/-- To the screen for the timezone. -/
def toTimezone : List (Action × Option CStr) :=
  [(.ok, none), (.ok, none), (.down, none), (.down, none), (.ok, none)]

/-- A change that is confirmed, and the synchronisation switched on after it. -/
theorem timeSection_settled_confirmed :
    Throughout timeStep ClockRight (timeStart utcCfg)
        (toTimezone ++ [(.up, none), (.ok, none), (.up, none), (.up, none), (.ok, none)]) ∧
      Along timeStep SavesConfirmed (timeStart utcCfg)
        (toTimezone ++ [(.up, none), (.ok, none), (.up, none), (.up, none), (.ok, none)]) :=
  timeSection_settled (by decide) (by decide)

/-- A change that is left with BACK is saved by the synchronisation switched on after it. -/
theorem not_timeSection : ¬ ∀ (cfg : NtpCfg) (keys : List (Action × Option CStr)),
    Allowed cfg.tzOffsetH →
      Throughout timeStep ClockRight (timeStart cfg) keys ∧
        Along timeStep SavesConfirmed (timeStart cfg) keys := by
  intro h
  obtain ⟨-, hsaves⟩ := h utcCfg
    (toTimezone ++ [(.up, none), (.back, none), (.up, none), (.up, none), (.ok, none)]) (by decide)
  have hlast := ((along_append _ (toTimezone ++ [(.up, none), (.back, none), (.up, none),
    (.up, none)]) [(.ok, none)]).mp hsaves).2.1
  exact absurd (hlast ⟨true, utcCfg.host, 1⟩ (by decide)) (by decide)

end Keys

end Settings
end JppDos
