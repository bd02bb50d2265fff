import JppDos.Smp.System

/-!
# What only a session allows

Files are created, removed and renamed, and backups are applied, by commands that the gate of
`dispatch_command` lets pass while a session is active.

Main fact:
* `gated_in_session`: every effect is inside a session, if the sessions are ended while no
  command has an effect ahead.
-/

namespace JppDos
namespace Smp

open CText Serial Machine

/-- The areas of the effects that need a session. -/
def Area.gated : Area → Bool
  | .create | .change | .backup => true
  | _ => false

/-- The effects that need a session have happened while one was active. -/
def InSession (log : List (Act × Vars)) : Prop :=
  ∀ e ∈ log, e.1.area.gated = true → e.2.sessionActive = true

instance (log : List (Act × Vars)) : Decidable (InSession log) :=
  inferInstanceAs (Decidable (∀ e ∈ log, _ → _))

/-- The other areas. -/
abbrev Area.Free (area : Area) : Prop := area.gated = false

/-- A program without such an effect. -/
abbrev Ungated (t : Code Unit) : Prop := Uses Area.Free t

/-- When the timer task or the main loop clears `s_session_active`, the command that is being
handled has no effect ahead that needs a session. -/
def ClosesUngated (d : System) : Step → Prop
  | .act who _ => who ≠ .rx → (d.code who).next = some (.store (.sessionActive false)) →
      Ungated (d.code .rx)
  | _ => True

theorem InSession.snoc {log : List (Act × Vars)} (h : InSession log) {a : Act} {v : Vars}
    (ha : a.area.gated = true → v.sessionActive = true) : InSession (log ++ [(a, v)]) := by
  intro e he
  rcases List.mem_append.mp he with he | he
  · exact h e he
  · rw [List.mem_singleton.mp he]
    exact ha

theorem sessionActive_after {a : Act} (ha : a.area ≠ .closing) (io : Io) {m : State}
    (hm : m.vars.sessionActive = true) : (a.after io m).vars.sessionActive = true := by
  rw [Act.vars_after]
  cases a with
  | store s =>
      cases s with
      | sessionActive value =>
          cases value with
          | true => rfl
          | false => exact absurd rfl ha
      | _ => exact hm
  | _ => exact hm

/-- What the receive task relies on: the session goes on. -/
def SessionGoesOn (m m' : State) : Prop :=
  m.vars.sessionActive = true → m'.vars.sessionActive = true

/-- What the receive task guarantees: its effects are inside the session. -/
def KeepsInSession (m m' : State) : Prop := InSession m.log → InSession m'.log

theorem keepsInSession_exec {a : Act} {io : Io} {m m' : State} {b : a.Ans}
    (hexec : a.exec io m = some (b, m'))
    (ha : a.area.gated = true → m.vars.sessionActive = true) : KeepsInSession m m' := by
  obtain ⟨-, -, -, rfl⟩ := Act.exec_eq_some.mp hexec
  intro h
  rw [Act.log_after]
  exact h.snoc ha

/-- The commands after a receive task has got a frame. -/
abbrev RunsGated (t : Code Unit) (m : State) : Prop :=
  Task.Runs Act.exec SessionGoesOn KeepsInSession (fun _ _ => True) t m

theorem runs_ungated {t : Code Unit} (h : Ungated t) (m : State) : RunsGated t m := by
  refine Task.Runs.of_all (I := fun _ => True) (fun _ _ _ _ => trivial) ?_ trivial
  refine Task.All.mono (fun a ha s io b s' _ hexec => ?_) h
  refine ⟨keepsInSession_exec hexec fun hgated => ?_, trivial⟩
  rw [ha] at hgated
  exact absurd hgated Bool.false_ne_true

/-- A program that does not end the session, and begins inside it. -/
theorem runs_inside {t : Code Unit} (h : Uses (· ≠ .closing) t) {m : State}
    (hm : m.vars.sessionActive = true) : RunsGated t m := by
  refine Task.Runs.conseq (Q := fun _ s => s.vars.sessionActive = true) ?_ (fun _ _ h => h)
    (fun _ _ h => h) fun _ _ _ => trivial
  refine Task.Runs.of_all (fun s s' hs hR => hR hs) ?_ hm
  refine Task.All.mono (fun a ha s io b s' hs hexec => ?_) h
  refine ⟨keepsInSession_exec hexec fun _ => hs, ?_⟩
  obtain ⟨-, -, -, rfl⟩ := Act.exec_eq_some.mp hexec
  exact sessionActive_after ha io hs

theorem runs_handleCommand (provisioning : Bool) (seq cmd : UInt8) (body : List UInt8) {m : State}
    (hm : m.vars.sessionActive = true) :
    RunsGated (do resetTimerIf true; handleCommand provisioning seq cmd body) m := by
  by_cases hend : cmd = SmpCmd.sessionEnd
  · subst hend
    exact runs_ungated (uses_bind (uses_resetTimerIf (S := Area.Free) rfl true) fun _ =>
      uses_handleSessionEnd (S := Area.Free) rfl rfl rfl rfl seq) m
  · refine runs_inside (uses_bind (uses_resetTimerIf (by decide) true) fun _ => ?_) hm
    exact uses_handleCommand (by decide) (fun _ => by simp) (fun h => absurd h hend)
      (fun _ => by decide) (fun _ => by decide) (fun _ => by decide) (fun _ => by decide) seq body

/-- Outside a session the gate only lets SESSION_START pass. -/
theorem ungated_outside (provisioning : Bool) (seq cmd : UInt8) (body : List UInt8) :
    Ungated (if !false && cmd ≠ SmpCmd.sessionStart then sendErr seq SmpSt.errNoSession
      else do
        let v ← load
        resetTimerIf v.sessionActive
        handleCommand provisioning seq cmd body) := by
  refine uses_ite (fun _ => uses_sendErr (S := Area.Free) rfl ..) fun hcmd => ?_
  obtain rfl : cmd = SmpCmd.sessionStart := by simpa using hcmd
  refine uses_load (S := Area.Free) rfl fun v => ?_
  exact uses_bind (uses_resetTimerIf (S := Area.Free) rfl v.sessionActive) fun _ =>
    uses_handleSessionStart (S := Area.Free) rfl rfl rfl rfl rfl rfl (fun _ => rfl) seq body

theorem runs_rxFrame (provisioning : Bool) (payload : List UInt8) (m : State) :
    RunsGated (rxFrame provisioning payload) m := by
  refine Task.Runs.act fun m₁ _ io b m₂ hexec => ⟨keepsInSession_exec hexec nofun, ?_⟩
  change RunsGated (dispatchCommand provisioning payload) m₂
  match payload with
  | [] => exact runs_ungated (uses_done _) m₂
  | [_] => exact runs_ungated (uses_done _) m₂
  | [_, _] => exact runs_ungated (uses_done _) m₂
  | seq :: cmd :: _ :: body =>
      refine Task.Runs.act fun m₃ _ io v m₄ hexec => ⟨keepsInSession_exec hexec nofun, ?_⟩
      obtain ⟨-, -, rfl, rfl⟩ := Act.exec_eq_some.mp hexec
      change RunsGated (if !m₃.vars.sessionActive && _ then _ else _) _
      cases hactive : m₃.vars.sessionActive with
      | false => exact runs_ungated (ungated_outside provisioning seq cmd body) _
      | true =>
          rw [if_neg (by simp)]
          refine Task.Runs.act fun m₅ hR io v m₆ hexec =>
            ⟨keepsInSession_exec hexec nofun, ?_⟩
          obtain ⟨-, -, rfl, rfl⟩ := Act.exec_eq_some.mp hexec
          have hm₅ : m₅.vars.sessionActive = true := hR hactive
          change RunsGated (do
            resetTimerIf m₅.vars.sessionActive
            handleCommand provisioning seq cmd body) _
          rw [hm₅]
          exact runs_handleCommand provisioning seq cmd body hm₅

/-- What holds of a task at any time. -/
def GatedTask (who : Party) (t : Code Unit) (m : State) : Prop :=
  Ungated t ∨ who = .rx ∧ RunsGated t m

theorem starts_gated {d : System} {step : Step} {who : Party} {t : Code Unit}
    (h : step.starts d = some (who, t)) : GatedTask who t d.state := by
  refine Step.starts_cases (P := fun who t => GatedTask who t d.state) h (fun payload => ?_) ?_
    (fun action => ?_) fun screen => ?_
  · exact Or.inr ⟨rfl, runs_rxFrame d.provisioning payload d.state⟩
  · exact Or.inl (uses_call (S := Area.Free) rfl fun _ =>
      uses_endSession (S := Area.Free) rfl rfl rfl)
  · exact Or.inl (uses_takeKey (S := Area.Free) rfl rfl rfl rfl rfl rfl rfl action)
  · exact Or.inl (uses_appTurn (S := Area.Free) rfl rfl rfl rfl rfl screen)

/-- An action of a task, and what the task has still to do. -/
theorem GatedTask.act {who : Party} {a : Act} {k : a.Ans → Code Unit} {io : Io} {m m' : State}
    {b : a.Ans} (h : GatedTask who (.act a k) m) (hexec : a.exec io m = some (b, m')) :
    KeepsInSession m m' ∧ GatedTask who (k b) m' := by
  rcases h with hungated | ⟨hwho, hruns⟩
  · refine ⟨keepsInSession_exec hexec fun hgated => ?_, Or.inl (hungated.2 b)⟩
    exact absurd (hungated.1.symm.trans hgated) Bool.false_ne_true
  · obtain ⟨hkeeps, hrest⟩ := hruns m id io b m' hexec
    exact ⟨hkeeps, Or.inr ⟨hwho, hrest⟩⟩

/-- The conditions of the other tasks stay, if a session is ended only while nothing is
ahead. -/
theorem GatedTask.other {d : System} {who other : Party} {io : Io} {a : Act}
    {k : a.Ans → Code Unit} {b : a.Ans} {m : State} (hstep : ClosesUngated d (.act who io))
    (hcode : d.code who = .act a k) (hexec : a.exec io d.state = some (b, m))
    (hother : other ≠ who) (h : GatedTask other (d.code other) d.state) :
    GatedTask other (d.code other) m := by
  rcases h with hungated | ⟨rfl, hruns⟩
  · exact Or.inl hungated
  by_cases hclosing : a.area = .closing
  · have hnext : (d.code who).next = some a := by rw [hcode]; rfl
    exact Or.inl (hstep (Ne.symm hother)
      (hnext.trans (congrArg some (Act.eq_of_closing hclosing))))
  · refine Or.inr ⟨rfl, hruns.rely (fun _ _ _ h₁ h₂ h => h₂ (h₁ h)) ?_⟩
    obtain ⟨-, -, -, rfl⟩ := Act.exec_eq_some.mp hexec
    exact sessionActive_after hclosing io

theorem systemStep_gated {d : System} (h : d.Holds (InSession ·.log) GatedTask) (step : Step)
    (hstep : ClosesUngated d step) :
    (systemStep d step).1.Holds (InSession ·.log) GatedTask := by
  refine h.step step (fun who t hstarts _ => starts_gated hstarts) ?_
  rintro who io a k b m rfl hcode hexec
  obtain ⟨hkeeps, hown⟩ := (hcode ▸ h.code who).act hexec
  exact ⟨hkeeps h.state, hown, fun other hother =>
    (h.code other).other hstep hcode hexec hother⟩

/-- In every run in which a session is ended only while the command that is being handled has
no effect ahead that needs one, all such effects are inside a session. -/
theorem gated_in_session (provisioning : Bool) (steps : List Step)
    (h : Along systemStep ClosesUngated (System.boot provisioning) steps) :
    InSession (run systemStep (System.boot provisioning) steps).state.log := by
  have hboot : (System.boot provisioning).Holds (InSession ·.log) GatedTask :=
    ⟨fun e he => absurd he List.not_mem_nil, fun _ => Or.inl trivial⟩
  exact (h.invariant (fun d step hd hstep => systemStep_gated hd step hstep) hboot).state

/-- A task other than the receive task ends a session only while the latter is at rest. -/
def closesAtRest (d : System) : Step → Bool
  | .act who _ =>
      who = .rx || (d.code who).next ≠ some (.store (.sessionActive false)) ||
        (d.code .rx).isDone
  | _ => true

theorem closesUngated_of_atRest (d : System) (step : Step) (h : closesAtRest d step = true) :
    ClosesUngated d step := by
  cases step with
  | act who io =>
      intro hwho hnext
      simp only [closesAtRest, hwho, decide_false, hnext, Bool.false_or, ne_eq, not_true_eq_false]
        at h
      rw [Task.isDone_iff.mp h]
      trivial
  | _ => trivial

/-- A directory is made in a session, which then times out. -/
def mkdirRun : List Step :=
  openSession ++ [.frame ([1, SmpCmd.fsMkdir, 0] ++ ascii "/sd/a" ++ [0])] ++ acts .rx 8 ++
    [.fire] ++ acts .timer 4

theorem gated_in_session_mkdir :
    InSession (run systemStep (System.boot false) mkdirRun).state.log := by
  have hrest : Along systemStep (fun d step => closesAtRest d step = true)
      (System.boot false) mkdirRun := by decide
  exact gated_in_session false mkdirRun (hrest.mono closesUngated_of_atRest)

/-- A backup without settings. -/
def backupText : List UInt8 := ascii "\x7b\"jppdos_backup\":1\x7d"

/-- The session times out while the user is asked about a backup, and the user then agrees. -/
def backupRun : List Step :=
  openSession ++ [.frame ([1, SmpCmd.applyBackup, 0] ++ ascii "/sd/b" ++ [0])] ++
    acts .rx 6 ++ [.act .rx { content := .ok backupText }] ++ acts .rx 4 ++ [.fire] ++
    acts .timer 4 ++ [.key .right] ++ acts .main 5 ++ [.key .ok] ++ acts .main 8 ++ acts .rx 5

theorem backup_outside_session :
    ¬ InSession (run systemStep (System.boot false) backupRun).state.log := by
  decide +kernel

end Smp
end JppDos
