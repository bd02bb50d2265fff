import JppDos.Lib.Machine
import JppDos.Smp.Areas
import Mathlib.Logic.Function.Basic

/-!
# The tasks of the serial manager side by side

The receive task, the timer task and the main loop on the shared state, in any order.  A task
that is at rest may begin a program: the receive task when a frame has arrived, the timer task
when the timer has fired, the main loop with a key or another turn.  A task with a program
performs its next action.

Main fact:
* `System.Holds.step`: what is to be shown for conditions on the state and the tasks.
-/

namespace JppDos
namespace Smp

open Serial

/-- The tasks. -/
inductive Party
  | rx
  | timer
  | main
deriving DecidableEq

/-- The shared state, and what each task has still to do.  The build is made for provisioning
or not. -/
structure System where
  provisioning : Bool
  state : State
  code : Party → Code Unit

/-- What can happen next. -/
inductive Step
  | frame (payload : List UInt8)
  | fire
  | key (action : Action)
  | turn (screen : Screen)
  | act (who : Party) (io : Io)

/-- The program that a step begins, and the task that does. -/
def Step.starts (d : System) : Step → Option (Party × Code Unit)
  | .frame payload => some (.rx, rxFrame d.provisioning payload)
  | .fire => if d.state.timerArmed then some (.timer, timerFired) else none
  | .key action => some (.main, takeKey action)
  | .turn screen => some (.main, appTurn screen)
  | .act .. => none

/-- A task that is at rest begins a program. -/
def System.start (d : System) (who : Party) (t : Code Unit) : System :=
  if (d.code who).isDone then { d with code := Function.update d.code who t } else d

/-- A task performs its next action. -/
def System.advance (d : System) (who : Party) (io : Io) : System :=
  match (d.code who).advance Act.exec io d.state with
  | some (t, m) => { d with state := m, code := Function.update d.code who t }
  | none => d

/-- One step of the system. -/
def systemStep (d : System) : Step → System × List Empty
  | .act who io => (d.advance who io, [])
  | step =>
      match step.starts d with
      | some (who, t) => (d.start who t, [])
      | none => (d, [])

/-- The device after `jpp_serial_mgr_init`, with either build. -/
def System.boot (provisioning : Bool) : System where
  provisioning := provisioning
  state :=
    { vars :=
        { sessionActive := false
          consentState := .idle
          consentAllowed := false
          consentCursor := 1
          backupConfirmName := []
          xfer := ⟨none, 0, 0, 0, 0, 0, false, false⟩
          activeSdkContext := false
          sdTask := false
          bgRunActive := false
          firstSessionDone := false }
      consentSem := false
      timerArmed := false
      halted := false
      opened := 0
      closings := []
      log := [] }
  code := fun _ => .done ()

/-- A step changes nothing, or a task at rest begins a program, or a task performs its next
action. -/
theorem systemStep_cases (d : System) (step : Step) :
    (systemStep d step).1 = d ∨
      (∃ who t, step.starts d = some (who, t) ∧ d.code who = .done () ∧
        (systemStep d step).1 = { d with code := Function.update d.code who t }) ∨
      ∃ who io a k b m, step = .act who io ∧ d.code who = .act a k ∧
        a.exec io d.state = some (b, m) ∧
        (systemStep d step).1 =
          { d with state := m, code := Function.update d.code who (k b) } := by
  have hstart : ∀ who t, step.starts d = some (who, t) →
      (systemStep d step).1 = d.start who t →
      (systemStep d step).1 = d ∨
        ∃ who t, step.starts d = some (who, t) ∧ d.code who = .done () ∧
          (systemStep d step).1 = { d with code := Function.update d.code who t } := by
    intro who t hstarts heq
    rw [System.start] at heq
    split at heq
    · rename_i hdone
      exact Or.inr ⟨who, t, hstarts, Task.isDone_iff.mp hdone, heq⟩
    · exact Or.inl heq
  cases step with
  | frame payload => exact (hstart _ _ rfl rfl).imp id Or.inl
  | fire =>
      cases harmed : d.state.timerArmed with
      | false => exact Or.inl (by simp [systemStep, Step.starts, harmed])
      | true =>
          have hstarts : Step.fire.starts d = some (.timer, timerFired) := by
            simp [Step.starts, harmed]
          exact (hstart _ _ hstarts (by simp [systemStep, hstarts])).imp id Or.inl
  | key action => exact (hstart _ _ rfl rfl).imp id Or.inl
  | turn screen => exact (hstart _ _ rfl rfl).imp id Or.inl
  | act who io =>
      simp only [systemStep, System.advance]
      cases hadvance : (d.code who).advance Act.exec io d.state with
      | none => exact Or.inl rfl
      | some r =>
          obtain ⟨t, m⟩ := r
          obtain ⟨a, k, b, hcode, hexec, ht⟩ := Task.advance_eq_some hadvance
          exact Or.inr (Or.inr ⟨who, io, a, k, b, m, rfl, hcode, hexec, by rw [ht]⟩)

/-- A condition on the shared state, and one on each task and the state. -/
structure System.Holds (L : State → Prop) (I : Party → Code Unit → State → Prop)
    (d : System) : Prop where
  state : L d.state
  code : ∀ who, I who (d.code who) d.state

/-- A step keeps the conditions if the programs begin with theirs, and if every action keeps
those of its own task and of the others. -/
theorem System.Holds.step {L : State → Prop} {I : Party → Code Unit → State → Prop}
    {d : System} (h : d.Holds L I) (step : Step)
    (hstart : ∀ who t, step.starts d = some (who, t) → d.code who = .done () →
      I who t d.state)
    (hact : ∀ who io a k b m, step = .act who io → d.code who = .act a k →
      a.exec io d.state = some (b, m) →
      L m ∧ I who (k b) m ∧ ∀ other, other ≠ who → I other (d.code other) m) :
    (systemStep d step).1.Holds L I := by
  rcases systemStep_cases d step with heq | ⟨who, t, hstarts, hdone, heq⟩ |
    ⟨who, io, a, k, b, m, hstep, hcode, hexec, heq⟩
  · rwa [heq]
  · rw [heq]
    refine ⟨h.state, fun other => ?_⟩
    by_cases hother : other = who
    · subst hother
      simpa using hstart other t hstarts hdone
    · simpa [hother] using h.code other
  · rw [heq]
    obtain ⟨hL, hown, hothers⟩ := hact who io a k b m hstep hcode hexec
    refine ⟨hL, fun other => ?_⟩
    by_cases hother : other = who
    · subst hother
      simpa using hown
    · simpa [hother] using hothers other hother

theorem Step.starts_cases {P : Party → Code Unit → Prop} {d : System} {step : Step}
    {who : Party} {t : Code Unit} (h : step.starts d = some (who, t))
    (hframe : ∀ payload, P .rx (rxFrame d.provisioning payload)) (hfire : P .timer timerFired)
    (hkey : ∀ action, P .main (takeKey action)) (hturn : ∀ screen, P .main (appTurn screen)) :
    P who t := by
  cases step with
  | frame payload =>
      obtain ⟨rfl, rfl⟩ := Prod.mk.inj (Option.some.inj h)
      exact hframe payload
  | fire =>
      rw [Step.starts] at h
      split at h
      · obtain ⟨rfl, rfl⟩ := Prod.mk.inj (Option.some.inj h)
        exact hfire
      · exact absurd h (by simp)
  | key action =>
      obtain ⟨rfl, rfl⟩ := Prod.mk.inj (Option.some.inj h)
      exact hkey action
  | turn screen =>
      obtain ⟨rfl, rfl⟩ := Prod.mk.inj (Option.some.inj h)
      exact hturn screen
  | act who io => exact absurd h (by simp [Step.starts])

/-- A task performs some actions, and everything goes well. -/
def acts (who : Party) (n : Nat) : List Step := List.replicate n (.act who {})

/-- The host asks for a session, and the user allows it. -/
def openSession : List Step :=
  [.frame [0, SmpCmd.sessionStart, 0, smpProtoVersion]] ++ acts .rx 7 ++ [.key .ok] ++
    acts .main 8 ++ acts .rx 6

end Smp
end JppDos
