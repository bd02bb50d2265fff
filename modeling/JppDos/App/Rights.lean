import JppDos.App.Sessions

/-!
# What a running app reaches

The services that an app reaches in a run of the device, the questions that the user is
asked for it, and the paths that its file calls hand to the storage.
-/

namespace JppDos
namespace App

open CText Paths Sdk Machine

/-- The device when it is switched on for the first time. -/
def freshDevice (services servicesV2 : List Callback) : Device :=
  Device.boot services servicesV2 (fun _ => none) []

/-- A run whose steps are orderly keeps the running app in order. -/
theorem run_sound {strict : Prop} {services servicesV2 : List Callback} {steps : List Step}
    (h : Along deviceStep (Orderly strict) (freshDevice services servicesV2) steps) :
    (run deviceStep (freshDevice services servicesV2) steps).Sound strict :=
  h.invariant (fun _ step hd hstep => deviceStep_sound hd step hstep)
    (boot_sound strict services servicesV2)

/-- The capability was granted when the app was bound, or it was left pending and the user
has granted it since. -/
def Task.Granted (t : Task) (before : List SdkEvent) (cap : CStr) : Prop :=
  cap ∈ t.atBind ∨ ∃ tier, (cap, tier) ∈ t.pending ∧ .consent cap tier true true ∈ before

/-- The app has reached no service without one of the capabilities that it needs, and the user
has not been asked for a capability that the manifest does not declare. -/
structure Task.Gated (t : Task) (m : SdkState) : Prop where
  services : ∀ before call callback path after,
    m.events = before ++ .service call callback path :: after →
      call.gate = [] ∨ ∃ cap ∈ call.gate, t.Granted before cap
  prompts : ∀ cap tier, .prompt cap tier ∈ m.events → cap ∈ t.declared

/-- The running app is gated, and the granted list has kept to its room. -/
def Device.Gated (d : Device) : Prop :=
  (∀ t, d.task = some t → t.Gated d.state) ∧ d.state.ctx.granted.length ≤ pendingCapMax

theorem Task.Sound.gated {t : Task} {m : SdkState} (h : t.Sound True m) (hdecl : t.Declared) :
    t.Gated m := by
  constructor
  · intro before call callback path after hevents
    refine (h.conforms before _ after hevents).1.imp id ?_
    rintro ⟨cap, hgate, hholds⟩
    refine ⟨cap, hgate, hholds.imp id ?_⟩
    rintro ⟨tier, hpending, byUser, hconsent, huser⟩
    obtain rfl := huser trivial
    exact ⟨tier, hpending, hconsent⟩
  · intro cap tier hprompt
    obtain ⟨before, after, hevents⟩ := List.append_of_mem hprompt
    exact (hdecl.pending (cap, tier) (h.conforms before _ after hevents)).1

/-- In every run whose launches have their binds accepted, or find the context unbound, and
whose dialogs find no key of the app in the queue, no service is reached without the
capability it needs. -/
theorem calls_gated (services servicesV2 : List Callback) (steps : List Step)
    (h : Along deviceStep (Orderly True) (freshDevice services servicesV2) steps) :
    (run deviceStep (freshDevice services servicesV2) steps).Gated := by
  refine ⟨fun t htask => ?_, (run_sound h).room⟩
  obtain ⟨hdecl, hsound⟩ := (run_sound h).task t htask
  exact hsound.gated hdecl

/-- Some callbacks of the firmware. -/
def someCallbacks : List Callback := [.consentPrompt, .bleScan, .readFile, .netBind]

/-- A manifest of a native app that declares the given capabilities. -/
def nativeManifest (capabilities : List CStr) : ManifestJson where
  name := some (lit "App")
  version := some (lit "1.0")
  entry := some (lit "main.bin")
  appType := some (lit "native")
  schemaVersion := some 2
  sdkMin := some 1
  capabilities := capabilities.map some
  bgEnabled := false
  bgTasks := []
  toolchain := none

/-- A launch of a native app that passes all checks. -/
def nativeLaunch (dir : CStr) (capabilities : List CStr) : Launch where
  dir := dir
  manifest := some (nativeManifest capabilities)
  entry := ⟨true, 1⟩
  vmStarted := true
  created := true

/-- An app that declares `ble.scan` and scans while the user allows it. -/
def scanRun : List Step :=
  [.launch (nativeLaunch (lit "scanner") [lit "ble.scan"]),
    .call { call := .bleScan, capKeys := [.right, .ok] }]

theorem calls_gated_scan : (run deviceStep (freshDevice someCallbacks []) scanRun).Gated :=
  calls_gated someCallbacks [] scanRun (by decide)

/-- The same app, which answers the dialog itself. -/
def pushRun : List Step :=
  [.launch (nativeLaunch (lit "scanner") [lit "ble.scan"]), .call { call := .pushKey .right },
    .call { call := .pushKey .ok }, .call { call := .bleScan }]

/-- The app reaches the scanner without the user. -/
theorem pushed_keys_grant : ¬ (run deviceStep (freshDevice someCallbacks []) pushRun).Gated := by
  have hevents : (run deviceStep (freshDevice someCallbacks []) pushRun).state.events =
      [.prompt (lit "ble.scan") 1, .consent (lit "ble.scan") 1 true false] ++
        .service .bleScan .bleScan none :: [] := by decide
  have hatBind : (run deviceStep (freshDevice someCallbacks []) pushRun).task.map Task.atBind =
      some [] := by decide
  intro h
  obtain ⟨t, htask, hnone⟩ := Option.map_eq_some_iff.mp hatBind
  rcases (h.1 t htask).services _ _ _ _ _ hevents with hfree | ⟨cap, -, hgranted⟩
  · exact absurd hfree (by decide)
  · rcases hgranted with hbind | ⟨tier, -, hconsent⟩
    · rw [hnone] at hbind
      exact absurd hbind (by simp)
    · exact absurd hconsent (by simp)

/-- Every path that a file call of the app has built, and that it has handed to a service,
leads to one of the app's own directories or below it, and stands there as a whole. -/
def Device.Sandboxed (d : Device) : Prop :=
  ∀ t, d.task = some t → ∀ call callback path, .service call callback path ∈ d.state.events →
    ∀ r ∈ call.relative, Inside t.dir r.1 r.2 path

/-- In every run whose launches have their binds accepted, or find the context unbound, the
paths of the running app stay in its own directories. -/
theorem paths_inside (services servicesV2 : List Callback) (steps : List Step)
    (h : Along deviceStep (Orderly False) (freshDevice services servicesV2) steps) :
    (run deviceStep (freshDevice services servicesV2) steps).Sandboxed := by
  intro t htask call callback path hservice
  obtain ⟨-, hsound⟩ := (run_sound h).task t htask
  obtain ⟨before, after, hevents⟩ := List.append_of_mem hservice
  exact (hsound.conforms before _ after hevents).2

/-- An app reads a file of its own. -/
def readRun : List Step :=
  [.launch (nativeLaunch (lit "notes") []), .call { call := .fileRead (some (lit "a/b.txt")) }]

theorem paths_inside_read : (run deviceStep (freshDevice someCallbacks []) readRun).Sandboxed :=
  paths_inside someCallbacks [] readRun (by decide)

/-- An app whose name the bind refuses reads a file behind one that it has accepted. -/
def strangerRun : List Step :=
  [.launch (nativeLaunch (lit "notes") []), .teardown,
    .launch (nativeLaunch (lit "my-app") []), .call { call := .fileRead (some (lit "a.txt")) }]

/-- The app reads a file of the other one. -/
theorem stranger_reads :
    ¬ (run deviceStep (freshDevice someCallbacks []) strangerRun).Sandboxed := by
  have hevents : (run deviceStep (freshDevice someCallbacks []) strangerRun).state.events =
      [.service (.fileRead (some (lit "a.txt"))) .readFile
        (some (ascii "/sd/apps/notes/a.txt"))] := by decide
  have hdir : (run deviceStep (freshDevice someCallbacks []) strangerRun).task.map Task.dir =
      some (lit "my-app") := by decide
  intro h
  obtain ⟨t, htask, hname⟩ := Option.map_eq_some_iff.mp hdir
  obtain ⟨p, q, -, hq, hbelow, -⟩ := h t htask (.fileRead (some (lit "a.txt"))) .readFile
    (some (ascii "/sd/apps/notes/a.txt")) (by rw [hevents]; exact List.mem_singleton.mpr rfl)
    (appsRoot, some (lit "a.txt")) rfl
  rw [hname, ← Option.some.inj hq] at hbelow
  exact absurd hbelow (by decide)

end App
end JppDos
