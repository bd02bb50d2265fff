import JppDos.App.Manifest
import JppDos.Pool.Lifecycle

/-!
# The shell

The stack of screens, the catalogue of apps and the part of the shell that knows of the file
server: what each key does on each screen.

Main fact:
* `onWebdav_pop`, `stackTop_pop_passconfig`: where a screen that is left leads to.
-/

namespace JppDos
namespace Ui

open App CText Pool

/-- An identity that is no screen of the system; the discovery of apps skips the others. -/
abbrev AppId : Type := { id : CStr // isReservedAppId id = false }

/-- The names by which the launcher and the main loop know a screen. -/
inductive Screen
  | launcher
  | settings
  | webdav
  | webdavPassconfig
  | dialog
  | appCrash
  | sdEjected
  | app (id : AppId)
  deriving DecidableEq

/-- `JPP_UI_STACK_LIMIT`. -/
def stackLimit : Nat := 8

/-- `jpp_ui_stack_top`; the top is the head. -/
def stackTop (stack : List Screen) : Option Screen := stack.head?

/-- `jpp_ui_stack_push`; a full stack stays. -/
def stackPush (screen : Screen) (stack : List Screen) : List Screen :=
  if stack = [] ∨ stackLimit ≤ stack.length then stack else screen :: stack

/-- `jpp_ui_stack_pop`; the root stays. -/
def stackPop : List Screen → List Screen
  | _ :: screen :: stack => screen :: stack
  | stack => stack

/-- `jpp_ui_stack_reset_to_root`. -/
def stackResetToRoot (stack : List Screen) : List Screen := stack.getLast?.toList

/-- The WebDAV screen or its password screen is on top. -/
def onWebdav (stack : List Screen) : Bool :=
  decide (stackTop stack = some .webdav ∨ stackTop stack = some .webdavPassconfig)

/-- `jpp_ui_action_t`. -/
inductive Action
  | none
  | up
  | down
  | left
  | right
  | ok
  | back
  deriving DecidableEq

/-- `jpp_ui_app_entry_t`: the two entries of the system, and the apps of the card. -/
inductive AppEntry
  | settings
  | webdav
  | sd (id : AppId)
  deriving DecidableEq

/-- `jpp_ui_power_state_t`. -/
inductive PowerState
  | active
  | dim
  | off
  deriving DecidableEq

/-- `jpp_ui_shell_t`, without what is only drawn. -/
structure Shell where
  stack : List Screen
  apps : List AppEntry
  selectedApp : Nat
  fileserverRunning : Bool
  fileserverIp : String
  webdavMenuSel : Nat
  webdavPassconfigSel : Nat
  webdavPassIsStatic : Bool
  webdavStaticPass : String
  webdavNeedsPassInput : Bool
  webdavPassConfigChanged : Bool
  sdEjected : Bool
  powerState : PowerState
  deriving DecidableEq

/-- `JPP_UI_APP_LIMIT`. -/
def appLimit : Nat := 8

/-- `jpp_ui_shell_add_app`; a full catalogue stays. -/
def addApp (apps : List AppEntry) (entry : AppEntry) : List AppEntry :=
  if appLimit ≤ apps.length then apps else apps ++ [entry]

/-- `jpp_ui_shell_clear_sd_apps`. -/
def Shell.clearSdApps (shell : Shell) : Shell :=
  let apps := shell.apps.filter fun entry => entry = .settings ∨ entry = .webdav
  { shell with
    apps := apps
    selectedApp :=
      if apps.length ≤ shell.selectedApp ∧ 0 < apps.length then apps.length - 1
      else shell.selectedApp }

/-- `discover_apps_apply_to_shell`. -/
def Shell.applyDiscovered (found : List AppId) (shell : Shell) : Shell :=
  let shell := shell.clearSdApps
  { shell with apps := found.foldl (fun apps id => addApp apps (.sd id)) shell.apps }

/-- `jpp_ui_menu_move`. -/
def menuMove (selected count : Nat) (down : Bool) : Nat :=
  if count = 0 then selected
  else if down then (if selected + 1 < count then selected + 1 else selected)
  else selected - 1

/-- What the servers answer while a key is handled; `exits` says that the task of a server that
is stopped ends in time. -/
structure ServerEnv where
  random : String
  start : StartEnv
  exits : Bool

/-- `jpp_ui_shell_open_selected`. -/
def openSelected (shell : Shell) : Shell :=
  match shell.apps[shell.selectedApp]? with
  | some .settings => { shell with stack := stackPush .settings shell.stack }
  | some .webdav => { shell with stack := stackPush .webdav shell.stack }
  | some (.sd id) => { shell with stack := stackPush (.app id) shell.stack }
  | none => shell

/-- The actions of `jpp_ui_shell_handle_action` on the launcher, and on a screen it does not
know. -/
def launcherAction (action : Action) (shell : Shell) : Shell :=
  match action with
  | .up => { shell with selectedApp := menuMove shell.selectedApp shell.apps.length false }
  | .down => { shell with selectedApp := menuMove shell.selectedApp shell.apps.length true }
  | .ok => openSelected shell
  | .none | .left | .right | .back => shell

/-- Back on the WebDAV screen: a server that the shell knows to run is stopped. -/
def webdavBack (env : ServerEnv) (shell : Shell) (servers : Servers) : Shell × Servers :=
  if shell.fileserverRunning then
    match fileserverStop env.exits servers with
    | (.ok, servers) =>
        ({ shell with fileserverRunning := false, stack := stackPop shell.stack }, servers)
    | (_, servers) => ({ shell with stack := stackPop shell.stack }, servers)
  else ({ shell with stack := stackPop shell.stack }, servers)

/-- The actions of `jpp_ui_shell_handle_action` on the WebDAV screen. -/
def webdavAction (env : ServerEnv) (action : Action) (shell : Shell) (servers : Servers) :
    Shell × Servers :=
  if action = .back then webdavBack env shell servers
  else if shell.fileserverRunning then
    match action with
    | .up => ({ shell with webdavMenuSel := menuMove shell.webdavMenuSel 2 false }, servers)
    | .down => ({ shell with webdavMenuSel := menuMove shell.webdavMenuSel 2 true }, servers)
    | .ok =>
        if shell.webdavMenuSel = 0 then
          ({ shell with stack := stackPush .webdavPassconfig shell.stack }, servers)
        else (shell, (fileserverStop env.exits servers).2)
    | .none | .left | .right | .back => (shell, servers)
  else if action = .ok ∧ shell.fileserverIp ≠ "" then
    if shell.webdavPassIsStatic = true ∧ shell.webdavStaticPass ≠ "" then
      (shell,
        (fileserverStartWithPassword (some shell.webdavStaticPass) env.random env.start servers).2)
    else (shell, (fileserverStart env.random env.start servers).2)
  else (shell, servers)

/-- The actions of `jpp_ui_shell_handle_action` on the password screen. -/
def passconfigAction (env : ServerEnv) (action : Action) (shell : Shell) (servers : Servers) :
    Shell × Servers :=
  match action with
  | .back => ({ shell with stack := stackPop shell.stack }, servers)
  | .up =>
      ({ shell with webdavPassconfigSel := menuMove shell.webdavPassconfigSel 3 false }, servers)
  | .down =>
      ({ shell with webdavPassconfigSel := menuMove shell.webdavPassconfigSel 3 true }, servers)
  | .ok =>
      if shell.webdavPassconfigSel = 0 then
        ({ shell with
            webdavPassIsStatic := false
            webdavStaticPass := ""
            webdavPassConfigChanged := true
            stack := stackPop shell.stack },
          if shell.fileserverRunning then
            (fileserverStart env.random env.start (fileserverStop env.exits servers).2).2
          else servers)
      else if shell.webdavPassconfigSel = 1 then
        ({ shell with webdavNeedsPassInput := true, stack := stackPop shell.stack }, servers)
      else ({ shell with stack := stackPop shell.stack }, servers)
  | .none | .left | .right => (shell, servers)

/-- `jpp_ui_shell_handle_action`. -/
def handleAction (env : ServerEnv) (action : Action) (shell : Shell) (servers : Servers) :
    Shell × Servers :=
  if action = .none then (shell, servers)
  else
    match stackTop shell.stack with
    | some .sdEjected | some .settings => (shell, servers)
    | some .dialog | some .appCrash =>
        if action = .ok ∨ action = .back then
          ({ shell with stack := stackPop shell.stack }, servers)
        else (shell, servers)
    | some .webdav => webdavAction env action shell servers
    | some .webdavPassconfig => passconfigAction env action shell servers
    | some .launcher | some (.app _) | none => (launcherAction action shell, servers)

/-- `jpp_ui_shell_record_crash`. -/
def Shell.recordCrash (shell : Shell) : Shell :=
  { shell with stack := stackPush .appCrash (stackResetToRoot shell.stack) }

/-- A screen that may lie directly on another one. -/
def Screen.RestsOn : Screen → Screen → Prop
  | .webdavPassconfig, lower => lower = .webdav
  | _, lower => lower ≠ .webdav ∧ lower ≠ .webdavPassconfig

/-- A stack whose root is the launcher, with each screen on one that it may lie on. -/
inductive Stacked : List Screen → Prop
  | root : Stacked [.launcher]
  | on {upper lower : Screen} {stack : List Screen} (hrest : upper.RestsOn lower)
      (h : Stacked (lower :: stack)) : Stacked (upper :: lower :: stack)

@[simp] theorem onWebdav_cons (screen : Screen) (stack : List Screen) :
    onWebdav (screen :: stack) = decide (screen = .webdav ∨ screen = .webdavPassconfig) := by
  simp [onWebdav, stackTop]

theorem Stacked.push {stack : List Screen} (h : Stacked stack) (hnot : onWebdav stack = false)
    {screen : Screen} (hscreen : screen ≠ .webdavPassconfig) :
    Stacked (stackPush screen stack) := by
  rw [stackPush]
  split
  · exact h
  cases h with
  | root =>
      refine .on ?_ .root
      cases screen <;> simp_all [Screen.RestsOn]
  | @on upper lower rest hrest hlower =>
      refine .on ?_ (.on hrest hlower)
      have hupper : upper ≠ .webdav ∧ upper ≠ .webdavPassconfig := by simpa using hnot
      cases screen <;> simp_all [Screen.RestsOn]

theorem Stacked.pushPassconfig {stack : List Screen} (h : Stacked stack)
    (htop : stackTop stack = some .webdav) : Stacked (stackPush .webdavPassconfig stack) := by
  rw [stackPush]
  split
  · exact h
  · cases h with
    | root => cases htop
    | on hrest hlower => exact .on (Option.some.inj htop) (.on hrest hlower)

theorem onWebdav_pushPassconfig {stack : List Screen} (h : onWebdav stack = true) :
    onWebdav (stackPush .webdavPassconfig stack) = true := by
  rw [stackPush]
  split
  · exact h
  · rfl

theorem Stacked.pop {stack : List Screen} (h : Stacked stack) : Stacked (stackPop stack) := by
  cases h with
  | root => exact .root
  | on hrest hlower => exact hlower

theorem onWebdav_pop {stack : List Screen} (h : Stacked stack)
    (htop : stackTop stack ≠ some .webdavPassconfig) : onWebdav (stackPop stack) = false := by
  cases h with
  | root => rfl
  | @on upper lower rest hrest hlower =>
      have hupper : upper ≠ .webdavPassconfig := fun heq => htop (congrArg some heq)
      have hrest : lower ≠ .webdav ∧ lower ≠ .webdavPassconfig := by
        cases upper <;> first | exact hrest | exact absurd rfl hupper
      simp [stackPop, hrest]

/-- The password screen leads back to the WebDAV screen. -/
theorem stackTop_pop_passconfig {stack : List Screen} (h : Stacked stack)
    (htop : stackTop stack = some .webdavPassconfig) :
    stackTop (stackPop stack) = some .webdav := by
  cases h with
  | root => cases htop
  | on hrest hlower =>
      cases Option.some.inj htop
      exact congrArg some hrest

theorem Stacked.reset {stack : List Screen} (h : Stacked stack) :
    stackResetToRoot stack = [.launcher] := by
  induction h with
  | root => rfl
  | on hrest hlower ih => simpa [stackResetToRoot, List.getLast?_cons_cons] using ih

end Ui
end JppDos
