import JppDos.App.Manifest
import JppDos.Lib.Machine
import JppDos.Sdk.Gating

/-!
# The app launcher

One app runs at a time, in the foreground or headless.  A launch reads the manifest into a
static buffer, partitions the declared capabilities, binds the static context and starts the
task; the end of a session leaves the context as it is.

Main facts:
* `launchAppFrom_failed`, `launchAppFrom_started`: what a launch does, for each way it can
  end.
-/

namespace JppDos
namespace App

open CText Sdk Prog

/-- The task of an app: the directory it was started for, what the bind answered, the
capabilities that its manifest declares, those the bind granted and those left pending, the
grant files at its start, whether it runs headless, whether it waits in a dialog for keys
that have not come, and whether it has come to its end. -/
structure Task where
  dir : CStr
  status : SdkStatus
  declared : List CStr
  atBind : List CStr
  pending : List (CStr × Nat)
  files : GrantFiles
  headless : Bool
  waiting : Bool
  finished : Bool

/-- The launcher and the app's side of the device, with the tables of services and with the
sessions that are over: their directories and what happened in them. -/
structure Device where
  state : SdkState
  services : List Callback
  servicesV2 : List Callback
  task : Option Task
  past : List (CStr × List SdkEvent)

/-- The device when it is switched on. -/
def Device.boot (services servicesV2 : List Callback) (files : GrantFiles)
    (past : List (CStr × List SdkEvent)) : Device where
  state :=
    { ctx := Context.zero, capStrs := [], bgRunActive := false, files := files, locks := [],
      events := [] }
  services := services
  servicesV2 := servicesV2
  task := none
  past := past

/-- A launch of an app directory: the manifest, if it can be read and parsed, the entry file,
and whether the VM and the task can be started. -/
structure Launch where
  dir : CStr
  manifest : Option ManifestJson
  entry : EntryFile
  vmStarted : Bool
  created : Bool

/-- The bind functions, for the type of an app; the VM that was started has the task of the
app as its owner. -/
def bindFor (appType : AppType) (ctx : Context) (appId : CStr) (caller : List Nat)
    (services : List Callback) : SdkStatus × Context :=
  match appType with
  | .micropython => sdkBind ctx true appId caller true services
  | .native => sdkBindNative ctx appId caller true services

/-- `launch_app_from`; a name of a task makes it a headless run. -/
def launchAppFrom (d : Device) (l : Launch) (bgTask : Option CStr) : Bool × Device :=
  match l.manifest with
  | none => (false, d)
  | some json =>
      let manifest := loadSdManifest l.dir json
      let loaded := { d.state with capStrs := manifest.capabilities }
      if preflight manifest l.entry ≠ .ok then (false, { d with state := loaded })
      else if manifest.appType = .micropython ∧ l.vmStarted = false then
        (false, { d with state := loaded })
      else
        let consent := applyConsent d.state.files l.dir manifest.capabilities
        let (status, ctx) :=
          bindFor manifest.appType d.state.ctx l.dir consent.caps d.services
        let ready :=
          { loaded with
            ctx := setPendingCaps (setServicesV2 ctx d.servicesV2) consent.pending
            bgRunActive := bgTask.isSome || d.state.bgRunActive }
        if !l.created then (false, { d with state := ready })
        else
          (true,
            { d with
              state := { ready with events := [] }
              task := some
                { dir := l.dir
                  status := status
                  declared := manifest.capabilities
                  atBind :=
                    if status = .ok then
                      (consent.caps.take pendingCapMax).map (manifest.capabilities.getD · (lit ""))
                    else []
                  pending := consent.pending
                  files := d.state.files
                  headless := bgTask.isSome
                  waiting := false
                  finished := false } })

/-- `launch_sd_app`, as the main loop calls it: when no task is there. -/
def launchSdApp (d : Device) (l : Launch) : Device :=
  if d.task.isSome then d else (launchAppFrom d l none).2

/-- `jpp_app_bg_launch`. -/
def appBgLaunch (d : Device) (l : Launch) (taskName : CStr) : Device :=
  if d.task.isSome || d.state.bgRunActive then d
  else
    let (started, d') := launchAppFrom d l (some taskName)
    if started then d' else { d' with state := { d'.state with bgRunActive := false } }

/-- The session of the task is over. -/
def Device.closeSession (d : Device) : Device :=
  match d.task with
  | none => d
  | some task => { d with task := none, past := d.past ++ [(task.dir, d.state.events)] }

/-- `teardown_sd_app`. -/
def teardownSdApp (d : Device) : Device := d.closeSession

/-- `jpp_app_bg_teardown`. -/
def appBgTeardown (d : Device) : Device :=
  let d := d.closeSession
  { d with state := { d.state with bgRunActive := false } }

/-- A call of the running app. -/
def appCall (d : Device) (i : SdkInput) : Device :=
  match d.task with
  | none => d
  | some task =>
      if task.waiting || task.finished then d
      else
        let (result, state) := exec (runCall i) d.state
        let waiting :=
          match result with
          | .error .blocked => true
          | _ => false
        { d with state := state, task := some { task with waiting := waiting } }

/-- `keypad_push_app_key`. -/
def keypadPushAppKey (d : Device) (key : Key) : Device :=
  if key = .none ∨ d.task.isNone then d
  else
    let ctx := d.state.ctx
    { d with
      state :=
        { d.state with ctx := { ctx with keyQueue := pushToQueue ctx.keyQueue ⟨key, false⟩ } } }

/-- The end of `sd_app_task_fn`. -/
def appFinish (d : Device) : Device :=
  match d.task with
  | none => d
  | some task =>
      if task.waiting || task.finished then d
      else { d with state := d.state.closed, task := some { task with finished := true } }

/-- A launch gets as far as starting the task, if none is there. -/
def Launch.starts (l : Launch) : Bool :=
  match l.manifest with
  | none => false
  | some json =>
      let manifest := loadSdManifest l.dir json
      preflight manifest l.entry = .ok && (manifest.appType = .native || l.vmStarted) && l.created

/-- A launch that starts no task leaves the tasks, the grant files and what is over alone. -/
theorem launchAppFrom_failed {d d' : Device} {l : Launch} {bgTask : Option CStr}
    (h : launchAppFrom d l bgTask = (false, d')) :
    d'.task = d.task ∧ d'.past = d.past ∧ d'.state.files = d.state.files := by
  rw [launchAppFrom] at h
  split at h
  · obtain ⟨-, rfl⟩ := Prod.mk.inj h
    exact ⟨rfl, rfl, rfl⟩
  simp only at h
  split at h
  · obtain ⟨-, rfl⟩ := Prod.mk.inj h
    exact ⟨rfl, rfl, rfl⟩
  split at h
  · obtain ⟨-, rfl⟩ := Prod.mk.inj h
    exact ⟨rfl, rfl, rfl⟩
  split at h
  · obtain ⟨-, rfl⟩ := Prod.mk.inj h
    exact ⟨rfl, rfl, rfl⟩
  · exact absurd (congrArg Prod.fst h) (by simp)

/-- A launch that starts a task has passed the checks, and the task runs with what the bind
has left in the context. -/
theorem launchAppFrom_started {d d' : Device} {l : Launch} {bgTask : Option CStr}
    (h : launchAppFrom d l bgTask = (true, d')) :
    ∃ json, l.manifest = some json ∧ l.starts = true ∧
      preflight (loadSdManifest l.dir json) l.entry = .ok ∧
      let manifest := loadSdManifest l.dir json
      let consent := applyConsent d.state.files l.dir manifest.capabilities
      let bind := bindFor manifest.appType d.state.ctx l.dir consent.caps d.services
      d'.past = d.past ∧
        d'.state =
          { ctx := setPendingCaps (setServicesV2 bind.2 d.servicesV2) consent.pending
            capStrs := manifest.capabilities
            bgRunActive := bgTask.isSome || d.state.bgRunActive
            files := d.state.files
            locks := d.state.locks
            events := [] } ∧
        d'.task = some
          { dir := l.dir
            status := bind.1
            declared := manifest.capabilities
            atBind :=
              if bind.1 = .ok then
                (consent.caps.take pendingCapMax).map (manifest.capabilities.getD · (lit ""))
              else []
            pending := consent.pending
            files := d.state.files
            headless := bgTask.isSome
            waiting := false
            finished := false } := by
  rw [launchAppFrom] at h
  split at h
  · exact absurd (congrArg Prod.fst h) (by simp)
  rename_i json hjson
  simp only at h
  split at h
  · exact absurd (congrArg Prod.fst h) (by simp)
  rename_i hpreflight
  split at h
  · exact absurd (congrArg Prod.fst h) (by simp)
  rename_i hvm
  split at h
  · exact absurd (congrArg Prod.fst h) (by simp)
  rename_i hcreated
  obtain ⟨-, rfl⟩ := Prod.mk.inj h
  have hok : preflight (loadSdManifest l.dir json) l.entry = .ok := not_not.mp hpreflight
  refine ⟨json, hjson, ?_, hok, rfl, rfl, rfl⟩
  rw [Launch.starts, hjson]
  simp only [hok, decide_true, Bool.true_and, Bool.and_eq_true, Bool.or_eq_true,
    decide_eq_true_eq]
  refine ⟨?_, by simpa using hcreated⟩
  cases happ : (loadSdManifest l.dir json).appType with
  | native => exact Or.inl rfl
  | micropython => exact Or.inr (by simpa [happ] using hvm)

/-- What can happen next on the device. -/
inductive Step
  | launch (l : Launch)
  | bgLaunch (l : Launch) (taskName : CStr)
  | call (i : SdkInput)
  | key (key : Key)
  | finish
  | teardown
  | bgTeardown
  | reboot

/-- One step of the device. -/
def deviceStep (d : Device) : Step → Device × List Empty
  | .launch l => (launchSdApp d l, [])
  | .bgLaunch l taskName => (appBgLaunch d l taskName, [])
  | .call i => (appCall d i, [])
  | .key key => (keypadPushAppKey d key, [])
  | .finish => (appFinish d, [])
  | .teardown => (teardownSdApp d, [])
  | .bgTeardown => (appBgTeardown d, [])
  | .reboot =>
      let d := d.closeSession
      (Device.boot d.services d.servicesV2 d.state.files d.past, [])

end App
end JppDos
