import JppDos.Keypad.Poll
import JppDos.Lib.Brackets
import JppDos.Lib.Machine

/-!
# The events of the direction keys

PRESS, REPEAT and RELEASE of the keys other than OK as brackets: a press opens the
group of its key and a release closes it.
-/

namespace JppDos
namespace Keypad

open Brackets CInt CText Machine

/-- The mark of an event of a direction key. -/
def mark (e : Event) : Option (Mark (List UInt8)) :=
  if e.key = okText then none
  else
    match e.kind with
    | .press => some (.opens e.key)
    | .repeated => some (.within e.key)
    | .release => some (.closes e.key)
    | _ => none

/-- The marks of the direction keys. -/
def marks (events : List Event) : List (Mark (List UInt8)) := events.filterMap mark

/-- The direction key that is debounced. -/
def openKey (s : KeypadState) : Option (List UInt8) :=
  (s.stableKey.map Key.text).filter (· ≠ okText)

theorem marks_append (events events' : List Event) :
    marks (events ++ events') = marks events ++ marks events' :=
  List.filterMap_append

theorem marks_checkEvents (config : Option KeypadConfig) (now : Int) (s : KeypadState) :
    marks (checkEvents config now s) = [] := by
  unfold checkEvents
  split_ifs <;> rfl

theorem openKey_of_ok {s : KeypadState} {key : Key} (hkey : s.stableKey = some key)
    (hok : key.text = okText) : openKey s = none := by
  simp [openKey, hkey, hok]

theorem openKey_of_direction {s : KeypadState} {key : Key} (hkey : s.stableKey = some key)
    (hdir : key.text ≠ okText) : openKey s = some key.text := by
  simp [openKey, hkey, hdir]

theorem SwitchesTo.unique {config : Option KeypadConfig} {uv : Int} {present : Bool}
    {s : KeypadState} {key key' : Option Key} (h : SwitchesTo config uv present s key)
    (h' : SwitchesTo config uv present s key') : key = key' := by
  obtain ⟨_, h⟩ := h
  obtain ⟨_, h'⟩ := h'
  cases present with
  | true => exact h.1.symm.trans h'.1
  | false => exact h.trans h'.symm

/-- A release is lost when the key is left for another one, or was pressed at a
negative clock. -/
def Loses (config : Option KeypadConfig) (uv : Int) (present : Bool) (s : KeypadState) : Prop :=
  openKey s ≠ none ∧ ((∃ key, SwitchesTo config uv present s (some key)) ∨
    SwitchesTo config uv present s none ∧ s.pressStartedMs < 0)

/-- A turn that takes the debounced key away from a direction key without its release. -/
def LosesRelease (config : Option KeypadConfig) (s : KeypadState) (x : Sample) : Prop :=
  isOn config s = true ∧ Loses config x.uv x.present s

theorem not_loses_of_ok {config : Option KeypadConfig} {uv : Int} {present : Bool}
    {s : KeypadState} (h : openKey s = none) : ¬ Loses config uv present s :=
  fun hloses => hloses.1 h

theorem not_loses_of_hold {config : Option KeypadConfig} {uv : Int} {present : Bool}
    {s : KeypadState} (h : ∀ key, ¬ SwitchesTo config uv present s key) :
    ¬ Loses config uv present s := by
  rintro ⟨_, ⟨key, hswitch⟩ | ⟨hswitch, _⟩⟩
  exacts [h _ hswitch, h _ hswitch]

theorem Report.marks_of_ok {config : Option KeypadConfig} {key : Key} {now started since : Int}
    {long pending pending' : Bool} {since' : Int} {events : List Event}
    (h : Report config key now started since long pending pending' since' events)
    (hok : key.text = okText) : marks events = [] := by
  cases h with
  | release _ _ hkey => exact absurd hok hkey
  | lost | held | withheld => rfl
  | long | short | double => simp [marks, mark, hok]

theorem Report.marks_of_direction {config : Option KeypadConfig} {key : Key}
    {now started since : Int} {long pending pending' : Bool} {since' : Int} {events : List Event}
    (h : Report config key now started since long pending pending' since' events)
    (hdir : key.text ≠ okText) :
    marks events = if started < 0 then [] else [.closes key.text] := by
  cases h with
  | lost hneg => rw [if_pos hneg]; rfl
  | release _ hpos _ => simp [marks, mark, hdir, Int.not_lt.mpr hpos]
  | held _ hkey | long _ _ hkey | short _ _ hkey | double _ _ hkey | withheld _ hkey =>
      exact absurd hkey hdir

/-- An effect keeps the open group that of the debounced key exactly when it loses no
release. -/
theorem Effect.track_iff {config : Option KeypadConfig} {uv : Int} {present : Bool} {now : Int}
    {s s' : KeypadState} {more : List Event} (h : Effect config uv present now s s' more) :
    track (openKey s) (marks more) = some (openKey s') ↔ ¬ Loses config uv present s := by
  cases h with
  | quiet candidate count hno => exact iff_of_true rfl (not_loses_of_hold hno)
  | holdDirection key last fires hkey hdir hno hrepeat =>
      refine iff_of_true ?_ (not_loses_of_hold hno)
      have hopen : openKey s = some key.text := openKey_of_direction hkey hdir
      show track (openKey s) _ = some (openKey s)
      rw [hopen]
      cases fires <;> simp [marks, mark, hdir, track]
  | holdOk key last fires hkey hok hno =>
      refine iff_of_true ?_ (not_loses_of_hold hno)
      show track (openKey s) _ = some (openKey s)
      cases fires <;> simp [marks, mark, hok, track]
  | holdLong key duration hkey hok hno hnew hlong =>
      refine iff_of_true ?_ (not_loses_of_hold hno)
      show track (openKey s) _ = some (openKey s)
      simp [marks, mark, hok, track]
  | release key hkey hswitch hreport =>
      show track (openKey s) (marks more) = some none ↔ _
      by_cases hok : key.text = okText
      · have hopen := openKey_of_ok hkey hok
        rw [hreport.marks_of_ok hok, hopen]
        exact iff_of_true rfl (not_loses_of_ok hopen)
      · have hopen := openKey_of_direction hkey hok
        rw [hreport.marks_of_direction hok, hopen]
        by_cases hneg : s.pressStartedMs < 0
        · rw [if_pos hneg]
          refine iff_of_false (by simp [track]) (not_not.mpr ?_)
          exact ⟨by simp [hopen], .inr ⟨hswitch, hneg⟩⟩
        · rw [if_neg hneg]
          refine iff_of_true (by simp [track]) ?_
          rintro ⟨_, ⟨key', hswitch'⟩ | ⟨_, hneg'⟩⟩
          exacts [absurd (hswitch.unique hswitch') (by simp), hneg hneg']
  | press key hswitch =>
      have hloses : Loses config uv present s ↔ openKey s ≠ none :=
        ⟨fun h => h.1, fun h => ⟨h, .inl ⟨key, hswitch⟩⟩⟩
      rw [hloses, not_not]
      by_cases hok : key.text = okText
      · have hopen : openKey (advance { s with
            stableKey := some key, candidateKey := some key, candidateCount := 0,
            pressStartedMs := now, lastRepeatMs := now, okLongEmitted := false }) = none :=
          openKey_of_ok rfl hok
        rw [if_pos hok, hopen]
        simp [marks, track]
      · have hopen : openKey (advance { s with
            stableKey := some key, candidateKey := some key, candidateCount := 0,
            pressStartedMs := now, lastRepeatMs := now, okLongEmitted := false }) =
            some key.text := openKey_of_direction rfl hok
        rw [if_neg hok, hopen]
        cases openKey s <;> simp [marks, mark, hok, track]

theorem loses_afterCheck (config : Option KeypadConfig) (x : Sample) (now : Int)
    (s : KeypadState) :
    Loses (pollConfig config x) x.uv x.present (afterCheck (pollConfig config x) now s) ↔
      Loses config x.uv x.present s := by
  simp only [Loses, switchesTo_afterCheck]
  rfl

/-- A turn keeps the open group that of the debounced key exactly when it loses no
release. -/
theorem pollStep_track (config : Option KeypadConfig) (s : KeypadState) (x : Sample) :
    track (openKey s) (marks (pollStep config s x).2) = some (openKey (pollStep config s x).1) ↔
      ¬ LosesRelease config s x := by
  rcases pollStep_effect config s x with ⟨hoff, heq⟩ | ⟨hon, s', more, heq, heffect⟩
  · rw [heq]
    simp [LosesRelease, hoff, marks, track]
  · have hlose : LosesRelease config s x ↔ Loses config x.uv x.present s :=
      ⟨fun h => h.2, fun h => ⟨hon, h⟩⟩
    rw [heq, marks_append, marks_checkEvents, List.nil_append, hlose,
      ← loses_afterCheck config x (nowMs config s) s]
    exact heffect.track_iff

/-- In every run the events of the direction keys are complete groups, and the front of
the group of the key that is down, exactly as long as no turn loses a release. -/
theorem keypad_bracketed_iff (config : Option KeypadConfig) (samples : List Sample) :
    (∀ n, Bracketed (openKey (run (pollStep config) (stateInit config) (samples.take n)))
      (marks (outputs (pollStep config) (stateInit config) (samples.take n)))) ↔
      Along (pollStep config) (fun s x => ¬ LosesRelease config s x) (stateInit config)
        samples := by
  have hstep : ∀ (s : KeypadState) (x : Sample) (out : List Event),
      track none (marks out) = some (openKey s) →
        (track none (marks (out ++ (pollStep config s x).2)) =
          some (openKey (pollStep config s x).1) ↔ ¬ LosesRelease config s x) := by
    intro s x out h
    rw [marks_append, track_append, h, Option.bind_some]
    exact pollStep_track config s x
  have hinit : track none (marks []) = some (openKey (stateInit config)) := rfl
  simp only [← track_eq_some_iff]
  exact along_iff hstep hinit

/-- The samples of UP, then directly of DOWN. -/
def upThenDown : List Sample :=
  [⟨396498, true, false⟩, ⟨396498, true, false⟩, ⟨902564, true, false⟩, ⟨902564, true, false⟩]

/-- The resistor ladder moves from UP to DOWN without passing through idle: UP is
pressed and never released. -/
theorem keypad_key_to_key :
    let events := outputs (pollStep (some taskConfig)) (stateInit (some taskConfig)) upThenDown
    marks events = [.opens (ascii "UP"), .opens (ascii "DOWN")] ∧
      ∀ o, ¬ Bracketed o (marks events) := by
  intro events
  have hmarks : marks events = [.opens (ascii "UP"), .opens (ascii "DOWN")] := by
    decide
  refine ⟨hmarks, fun o h => ?_⟩
  rw [← track_eq_some_iff, hmarks] at h
  simp [track] at h

end Keypad
end JppDos
