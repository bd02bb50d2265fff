import JppDos.App.Rights

/-!
# The identity of a running app

Under which name and with which grants the app runs that was started for a directory, in a
run over many launches.

Main fact:
* `app_identified`: a run of such launches lets every app act under its own identity.
-/

namespace JppDos
namespace App

open CText Sdk Machine

/-- The app that was started for a directory runs in a context that was bound for it.  Each of
its capabilities is declared by its manifest, and was saved in an earlier session of the
directory or granted by the user in this one; what is pending is declared; and only the
session itself asks for its end. -/
structure Task.Identified (t : Task) (d : Device) : Prop where
  status : t.status = .ok
  bound : d.state.ctx.bound = true
  appId : d.state.ctx.appId = t.dir
  granted : ∀ cap ∈ d.state.grantedCaps, cap ∈ t.declared ∧
    (ApprovedEarlier d.past t.dir cap ∨ ∃ tier, .consent cap tier true true ∈ d.state.events)
  pending : ∀ p ∈ d.state.pendingCaps, p.1 ∈ t.declared
  close : d.state.ctx.closeRequested = true → .close ∈ d.state.events

/-- The running app acts under its own identity and grants. -/
def Device.Identified (d : Device) : Prop := ∀ t, d.task = some t → t.Identified d

/-- A launch that starts a task has a name that the bind accepts, and a call that may ask for
a capability finds no key of the app in the queue. -/
def Recognised (d : Device) : Step → Prop
  | .launch l | .bgLaunch l _ =>
      d.task.isNone = true → l.starts = true →
        appIdIsValid l.dir = true ∧ l.dir.strlen < appIdMax
  | .call i => d.task.isSome = true → i.call.mayAsk = true → UserKeys d.state
  | _ => True

instance (d : Device) (step : Step) : Decidable (Recognised d step) :=
  match step with
  | .launch _ | .bgLaunch _ _ => inferInstanceAs (Decidable (_ → _ → _ ∧ _))
  | .call _ => inferInstanceAs (Decidable (_ → _ → UserKeys _))
  | .key _ | .finish | .teardown | .bgTeardown | .reboot => inferInstanceAs (Decidable True)

theorem Recognised.orderly {d : Device} {step : Step} (h : Recognised d step) :
    Orderly True d step := by
  cases step with
  | launch l => exact fun hnone hstarts => Or.inl (h hnone hstarts).1
  | bgLaunch l taskName => exact fun hnone hstarts => Or.inl (h hnone hstarts).1
  | call i => exact fun _ => h
  | _ => trivial

/-- The bind of the running app has been accepted. -/
def Device.Accepted (d : Device) : Prop := ∀ t, d.task = some t → t.status = .ok

theorem Device.Accepted.launch {d : Device} (h : d.Accepted) (l : Launch) (bgTask : Option CStr)
    (hbind : l.starts = true → appIdIsValid l.dir = true ∧ l.dir.strlen < appIdMax) :
    (launchAppFrom d l bgTask).2.Accepted := by
  cases hlaunch : launchAppFrom d l bgTask with
  | mk started d' =>
      cases started with
      | false =>
          intro t ht
          exact h t ((launchAppFrom_failed hlaunch).1.symm.trans ht)
      | true =>
          obtain ⟨json, -, hstarts, -, -, -, htask⟩ := launchAppFrom_started hlaunch
          intro t ht
          rw [← Option.some.inj (htask.symm.trans ht), bindFor_eq]
          exact (sdkBindNative_eq_ok _ _ _ _ _).mpr (hbind hstarts)

/-- The launches whose names the bind accepts leave the binds accepted. -/
theorem deviceStep_accepted {d : Device} (h : d.Accepted) (step : Step)
    (hstep : Recognised d step) : (deviceStep d step).1.Accepted := by
  have hclose : d.closeSession.Accepted := fun t ht =>
    absurd ((closeSession_task d).symm.trans ht) (by simp)
  cases step with
  | launch l =>
      simp only [deviceStep, launchSdApp]
      split
      · exact h
      · rename_i hnone
        exact h.launch l none (hstep (by simpa using hnone))
  | bgLaunch l taskName =>
      simp only [deviceStep, appBgLaunch]
      split
      · exact h
      · rename_i hidle
        simp only [Bool.or_eq_true, not_or] at hidle
        have hlaunch := h.launch l (some taskName) (hstep (by simpa using hidle.1))
        cases hresult : launchAppFrom d l (some taskName) with
        | mk started d' =>
            rw [hresult] at hlaunch
            cases started with
            | true => exact hlaunch
            | false => exact hlaunch
  | call i =>
      simp only [deviceStep, appCall]
      split
      · exact h
      · rename_i t htask
        split
        · exact h
        · rintro t' ht'
          rw [← Option.some.inj ht']
          exact h t htask
  | key key =>
      simp only [deviceStep, keypadPushAppKey]
      split
      · exact h
      · exact h
  | finish =>
      simp only [deviceStep, appFinish]
      split
      · exact h
      · rename_i t htask
        split
        · exact h
        · rintro t' ht'
          rw [← Option.some.inj ht']
          exact h t htask
  | teardown => exact hclose
  | bgTeardown => exact hclose
  | reboot => exact fun t ht => absurd ht (by simp [deviceStep, Device.boot])

/-- An app that is in order and whose bind was accepted acts under its own identity. -/
theorem Device.Sound.identified {d : Device} (h : d.Sound True) (haccepted : d.Accepted) :
    d.Identified := by
  intro t htask
  obtain ⟨hdecl, hsound⟩ := h.task t htask
  have hok := haccepted t htask
  have hruns : (t.session True).Runs d.state := by
    rcases hsound with hruns | hrefused
    · exact hruns.2
    · exact absurd hok hrefused.1
  have hsaved : Saved t.files d.past := by
    have hsaved := h.saved trivial
    rwa [Device.filesBefore, htask] at hsaved
  refine ⟨hok, hruns.bound, hruns.appId, ?_, ?_, hruns.close⟩
  · intro cap hcap
    rcases hruns.held cap hcap with hbind | ⟨tier, hpending, byUser, hconsent, huser⟩
    · obtain ⟨hdeclared, htier, hpersisted⟩ := hdecl.atBind cap hbind
      exact ⟨hdeclared, Or.inl (hsaved t.dir hruns.dir.2 cap htier hpersisted)⟩
    · obtain rfl := huser trivial
      exact ⟨(hdecl.pending (cap, tier) hpending).1, Or.inr ⟨tier, hconsent⟩⟩
  · intro p hp
    rw [hruns.pending] at hp
    exact (hdecl.pending p hp).1

/-- In every run whose launches have names that the bind accepts, and whose dialogs find no
key of the app in the queue, the running app acts under its own identity and grants. -/
theorem app_identified (services servicesV2 : List Callback) (steps : List Step)
    (h : Along deviceStep Recognised (freshDevice services servicesV2) steps) :
    (run deviceStep (freshDevice services servicesV2) steps).Identified := by
  have hinit : (freshDevice services servicesV2).Sound True ∧
      (freshDevice services servicesV2).Accepted := by
    constructor
    · exact boot_sound True services servicesV2
    · intro t ht
      exact absurd ht (by simp [freshDevice, Device.boot])
  have hboth : (run deviceStep (freshDevice services servicesV2) steps).Sound True ∧
      (run deviceStep (freshDevice services servicesV2) steps).Accepted := by
    refine Along.invariant (I := fun d => d.Sound True ∧ d.Accepted) ?_ h hinit
    intro d step hd hstep
    constructor
    · exact deviceStep_sound hd.1 step hstep.orderly
    · exact deviceStep_accepted hd.2 step hstep
  exact hboth.1.identified hboth.2

/-- An app is allowed to scan, and finds the grant again in its next session. -/
def returnRun : List Step :=
  scanRun ++ [.finish, .teardown, .launch (nativeLaunch (lit "scanner") [lit "ble.scan"]),
    .call { call := .bleScan }]

theorem app_identified_return :
    (run deviceStep (freshDevice someCallbacks []) returnRun).Identified :=
  app_identified someCallbacks [] returnRun (by decide)

/-- The app whose name the bind refuses runs all the same, in the context of the other one. -/
theorem stranger_runs :
    ¬ (run deviceStep (freshDevice someCallbacks []) strangerRun).Identified := by
  have hdir : (run deviceStep (freshDevice someCallbacks []) strangerRun).task.map Task.dir =
      some (lit "my-app") := by decide
  have happ : (run deviceStep (freshDevice someCallbacks []) strangerRun).state.ctx.appId =
      lit "notes" := by decide
  intro h
  obtain ⟨t, htask, hname⟩ := Option.map_eq_some_iff.mp hdir
  have hsame := (h t htask).appId
  rw [hname, happ] at hsame
  exact absurd hsame (by decide)

end App
end JppDos
