import JppDos.Lib.Machine
import JppDos.Ui.Shell

/-!
# The main loop around the shell

One iteration of the main loop, part by part: the keys that are waiting, the input of a
password, the state of the file server every two seconds, power, the card, and the apps.  A
part that is not due does nothing; the other tasks act at any time.
-/

namespace JppDos
namespace Ui

open App CText Pool

/-- The part of `run_main_loop` that comes next. -/
inductive LoopPos
  | keys
  | sync
  | power
  | card
  | apps
  deriving DecidableEq

/-- What the main loop works on. -/
structure Loop where
  shell : Shell
  servers : Servers
  pos : LoopPos
  /-- `ui_tick` -/
  uiTick : UInt32
  /-- `power_state_last_tick` -/
  powerLast : PowerState
  /-- `s_sd_task` -/
  task : Bool
  /-- `s_bg_run_active` -/
  bgRun : Bool
  /-- The app of the dummy mode. -/
  dummy : Option AppId
  deriving DecidableEq

/-- What is stored, chosen and found when the device starts. -/
structure BootEnv where
  dummy : Option AppId
  sdApps : List AppId
  passIsStatic : Bool
  staticPass : String
  /-- `jpp_onboarding_run` opens the settings. -/
  openSettings : Bool

/-- `JPP_FILESERVER_DEFAULT_PORT`. -/
def fileserverDefaultPort : Nat := 80

/-- The stack with which the main loop begins. -/
def bootStack (env : BootEnv) : List Screen :=
  let stack := match env.dummy with
    | some id => stackPush (.app id) [.launcher]
    | none => [.launcher]
  if env.openSettings then stackPush .settings stack else stack

/-- The device when the main loop begins. -/
def Loop.boot (env : BootEnv) : Loop where
  shell :=
    { stack := bootStack env
      apps := env.sdApps.foldl (fun apps id => addApp apps (.sd id)) [.settings, .webdav]
      selectedApp := 0
      fileserverRunning := false
      fileserverIp := ""
      webdavMenuSel := 0
      webdavPassconfigSel := 0
      webdavPassIsStatic := env.passIsStatic
      webdavStaticPass := if env.passIsStatic then env.staticPass else ""
      webdavNeedsPassInput := false
      webdavPassConfigChanged := false
      sdEjected := false
      powerState := .active }
  servers := (fileserverInit fileserverDefaultPort .boot).2
  pos := .keys
  uiTick := 0
  powerLast := .active
  task := false
  bgRun := false
  dummy := env.dummy

/-- What else a key meets: the serial manager, the settings, and a restart. -/
structure KeyEnv where
  server : ServerEnv
  /-- `jpp_serial_mgr_needs_render` -/
  serial : Bool
  /-- `jpp_settings_screen_handle_action` -/
  settingsPop : Bool
  boot : BootEnv

/-- `jpp_ui_shell_note_activity`. -/
def Shell.noteActivity (shell : Shell) : Shell := { shell with powerState := .active }

/-- One action of the queue. -/
def keyStep (env : KeyEnv) (action : Action) (s : Loop) : Loop :=
  let s := { s with shell := s.shell.noteActivity }
  if s.shell.sdEjected then (if action = .ok then .boot env.boot else s)
  else if s.task then s
  else if env.serial then s
  else if stackTop s.shell.stack = some .settings then
    if env.settingsPop then { s with shell := { s.shell with stack := stackPop s.shell.stack } }
    else s
  else if s.powerLast ≠ .active then s
  else if s.dummy.isSome then s
  else
    { s with
      shell := (handleAction env.server action s.shell s.servers).1
      servers := (handleAction env.server action s.shell s.servers).2 }

/-- The static password that is asked for, with the restart of the server; then the setting is
stored. -/
def passwordStep (env : ServerEnv) (answer : Option String) (s : Loop) : Loop :=
  if s.shell.webdavNeedsPassInput then
    let shell := { s.shell with webdavNeedsPassInput := false }
    match answer with
    | some text =>
        if text ≠ "" then
          { s with
            shell :=
              { shell with
                webdavStaticPass := text
                webdavPassIsStatic := true
                webdavPassConfigChanged := false }
            servers :=
              if shell.fileserverRunning then
                (fileserverStartWithPassword (some text) env.random env.start
                  (fileserverStop env.exits s.servers).2).2
              else s.servers
            pos := .sync }
        else { s with shell := { shell with webdavPassConfigChanged := false }, pos := .sync }
    | none => { s with shell := { shell with webdavPassConfigChanged := false }, pos := .sync }
  else { s with shell := { s.shell with webdavPassConfigChanged := false }, pos := .sync }

/-- `2000u / JPP_UI_REFRESH_MS`. -/
def syncTicks : UInt32 := 20

/-- `jpp_ui_shell_set_fileserver_state` with the status of the file server, every two seconds. -/
def syncStep (ip : String) (s : Loop) : Loop :=
  if s.uiTick % syncTicks = 0 then
    { s with
      shell :=
        { s.shell with
          fileserverRunning := decide (s.servers.fs.state = .running)
          fileserverIp := ip }
      pos := .power }
  else { s with pos := .power }

/-- What `jpp_ui_shell_tick_power` finds, and what else keeps the device awake. -/
structure PowerEnv where
  tick : Option PowerState
  /-- The wakelock of an app, or the serial manager. -/
  wakelock : Bool
  boot : BootEnv

/-- The tick and the power management; a device that sleeps starts anew. -/
def powerStep (env : PowerEnv) (s : Loop) : Loop :=
  let now := env.tick.getD s.shell.powerState
  let s := { s with uiTick := s.uiTick + 1, shell := { s.shell with powerState := now } }
  if now ≠ s.powerLast ∧ now = .off then
    if s.shell.fileserverRunning || s.servers.lrv.running || env.wakelock then
      { s with shell := s.shell.noteActivity, powerLast := now, pos := .card }
    else .boot env.boot
  else { s with powerLast := now, pos := .card }

/-- The removal of the card. -/
def cardStep (ejected : Bool) (s : Loop) : Loop :=
  if !s.shell.sdEjected && ejected then
    { s with
      shell :=
        { s.shell with
          sdEjected := true
          stack := stackPush .sdEjected (stackResetToRoot s.shell.stack) }
      pos := .apps }
  else { s with pos := .apps }

/-- What becomes of the apps in an iteration. -/
structure AppsEnv where
  /-- `jpp_serial_mgr_session_active` -/
  session : Bool
  /-- `launch_sd_app` -/
  launched : Bool
  /-- `jpp_app_crash_take` behind a launch. -/
  launchCrash : Bool
  /-- `jpp_app_bg_finished` -/
  bgFinished : Bool
  /-- The background run is over its quota. -/
  bgOverrun : Bool
  /-- A background task is due, and the device is idle on the launcher. -/
  bgDue : Bool
  /-- `jpp_app_bg_launch` -/
  bgLaunched : Bool
  /-- `s_sd_ctx.close_requested` -/
  closeRequested : Bool
  /-- `jpp_app_crash_take` behind an app. -/
  crashed : Bool
  /-- `discover_apps_background_ready`, with the apps. -/
  discovered : Option (List AppId)
  boot : BootEnv

/-- A screen of an app is on top. -/
def sdAppOpen (stack : List Screen) : Bool :=
  match stackTop stack with
  | some (.app _) => true
  | _ => false

/-- `jpp_app_bg_teardown`. -/
def Loop.bgTeardown (s : Loop) : Loop := { s with task := false, bgRun := false }

/-- An app that is open and has no task is launched. -/
def launchOpenApp (env : AppsEnv) (s : Loop) : Loop :=
  if sdAppOpen s.shell.stack && !s.task then
    if env.session then { s with shell := { s.shell with stack := stackPop s.shell.stack } }
    else if env.launched then { s with task := true }
    else
      let shell := { s.shell with stack := stackPop s.shell.stack }
      { s with shell := if env.launchCrash then shell.recordCrash else shell }
  else s

/-- The supervision of background runs; `idle` says that the launcher was on top. -/
def superviseBackground (env : AppsEnv) (idle : Bool) (s : Loop) : Loop :=
  if s.bgRun then
    if env.bgFinished then s.bgTeardown else if env.bgOverrun then .boot env.boot else s
  else if idle && !s.task && !s.shell.fileserverRunning && !s.servers.lrv.running && env.bgDue then
    { s with task := env.bgLaunched, bgRun := env.bgLaunched }
  else s

/-- `teardown_sd_app`, the crash that is shown, and the app of the dummy mode. -/
def closeApp (env : AppsEnv) (s : Loop) : Loop :=
  if s.task && !s.bgRun && env.closeRequested then
    let shell := { s.shell with stack := stackPop s.shell.stack }
    let s := { s with task := false }
    if env.crashed then { s with shell := shell.recordCrash }
    else
      match s.dummy with
      | some id => { s with shell := { shell with stack := stackPush (.app id) shell.stack } }
      | none => { s with shell := shell }
  else s

/-- The apps: an app that is open, the background run, an app that ends, and discovery. -/
def appsStep (env : AppsEnv) (s : Loop) : Loop :=
  let idle := decide (stackTop s.shell.stack = some .launcher)
  let s := if sdAppOpen s.shell.stack && s.bgRun then s.bgTeardown else s
  let s := closeApp env (superviseBackground env idle (launchOpenApp env s))
  { s with
    shell :=
      match env.discovered with
      | some found => s.shell.applyDiscovered found
      | none => s.shell
    pos := .keys }

/-- The other tasks: the verification server, the server's task and the apps in the pool. -/
def otherTask : LifeAct → Bool
  | .lrvStart .. | .lrvStop _ | .accept _ | .serveEnd | .taskExit | .appAcquire _
  | .appRelease => true
  | .fsInit _ | .fsStart .. | .fsStartWith .. | .fsStop _ | .start .. | .stop _ => false

/-- What can happen next. -/
inductive LoopEvent
  | key (action : Action) (env : KeyEnv)
  /-- The queue is empty. -/
  | password (env : ServerEnv) (answer : Option String)
  | sync (ip : String)
  | power (env : PowerEnv)
  | card (ejected : Bool)
  | apps (env : AppsEnv)
  | other (act : LifeAct)

/-- One step; one that is not its turn does nothing. -/
def loopStep (s : Loop) : LoopEvent → Loop × List Empty
  | .key action env => if s.pos = .keys then (keyStep env action s, []) else (s, [])
  | .password env answer => if s.pos = .keys then (passwordStep env answer s, []) else (s, [])
  | .sync ip => if s.pos = .sync then (syncStep ip s, []) else (s, [])
  | .power env => if s.pos = .power then (powerStep env s, []) else (s, [])
  | .card ejected => if s.pos = .card then (cardStep ejected s, []) else (s, [])
  | .apps env => if s.pos = .apps then (appsStep env s, []) else (s, [])
  | .other act =>
      if otherTask act then ({ s with servers := (lifeStep s.servers act).1 }, []) else (s, [])

end Ui
end JppDos
