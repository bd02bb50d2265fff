import JppDos.Ui.MainLoop

/-!
# The file server and its screen

The file server is a foreground activity: it runs out of the pool of the apps, and leaving its
screen is meant to stop it.  The shell stops it by a flag that the main loop refreshes every two
seconds.
-/

namespace JppDos
namespace Ui

open Pool

/-- What holds of the shell and the servers between two keys. -/
structure Holds (shell : Shell) (servers : Servers) : Prop where
  ready : servers.Ready
  stacked : Stacked shell.stack
  hidden : onWebdav shell.stack = false → servers.fs.state ≠ .running
  /-- A restart that waits for its password is one on the screens of the server. -/
  pending : shell.webdavNeedsPassInput = true → shell.fileserverRunning = true →
    onWebdav shell.stack = true

theorem Holds.shown {shell : Shell} {servers : Servers} (hready : servers.Ready)
    (hstacked : Stacked shell.stack) (hon : onWebdav shell.stack = true) : Holds shell servers where
  ready := hready
  stacked := hstacked
  hidden hno := absurd (hon.symm.trans hno) nofun
  pending _ _ := hon

theorem Holds.elsewhere {shell shell' : Shell} {servers : Servers} (h : Holds shell servers)
    (hoff : onWebdav shell.stack = false) (hstacked : Stacked shell'.stack)
    (hneeds : shell'.webdavNeedsPassInput = shell.webdavNeedsPassInput)
    (hflag : shell'.fileserverRunning = shell.fileserverRunning) : Holds shell' servers where
  ready := h.ready
  stacked := hstacked
  hidden _ := h.hidden hoff
  pending hwait hrun := by
    have hon := h.pending (hneeds ▸ hwait) (hflag ▸ hrun)
    exact absurd (hoff.symm.trans hon) nofun

/-- A stack that stays, with no password that is waited for. -/
theorem Holds.unasked {shell shell' : Shell} {servers : Servers} (h : Holds shell servers)
    (hstack : shell'.stack = shell.stack) (hneeds : shell'.webdavNeedsPassInput = false) :
    Holds shell' servers where
  ready := h.ready
  stacked := hstack ▸ h.stacked
  hidden hoff := h.hidden (hstack ▸ hoff)
  pending hwait := absurd (hneeds.symm.trans hwait) nofun

theorem Holds.openSelected {shell : Shell} {servers : Servers} (h : Holds shell servers)
    (hoff : onWebdav shell.stack = false) : Holds (openSelected shell) servers := by
  unfold Ui.openSelected
  split
  · exact h.elsewhere hoff (h.stacked.push hoff nofun) rfl rfl
  · exact h.elsewhere hoff (h.stacked.push hoff nofun) rfl rfl
  · exact h.elsewhere hoff (h.stacked.push hoff nofun) rfl rfl
  · exact h

theorem Holds.launcherAction {shell : Shell} {servers : Servers} (h : Holds shell servers)
    (hoff : onWebdav shell.stack = false) (action : Action) :
    Holds (launcherAction action shell) servers := by
  cases action with
  | up => exact h.elsewhere hoff h.stacked rfl rfl
  | down => exact h.elsewhere hoff h.stacked rfl rfl
  | ok => exact h.openSelected hoff
  | none | left | right | back => exact h

theorem Holds.webdavBack {shell : Shell} {servers : Servers} (h : Holds shell servers)
    {env : ServerEnv} (hexits : env.exits = true)
    (hflag : servers.fs.state = .running → shell.fileserverRunning = true) :
    Holds (webdavBack env shell servers).1 (webdavBack env shell servers).2 := by
  obtain ⟨hok, hstopped⟩ := h.ready.fileserverStop
  unfold Ui.webdavBack
  rw [hexits]
  split
  · have hready : (fileserverStop true servers).2.Ready :=
      h.ready.step (show (LifeAct.fsStop true).OfServers from trivial)
    split
    · rename_i servers' heq
      rw [heq] at hready hstopped
      exact
        { ready := hready
          stacked := h.stacked.pop
          hidden := fun _ => hstopped
          pending := nofun }
    · rename_i hno heq
      rw [heq] at hok
      exact absurd hok hno
  · rename_i hclear
    exact
      { ready := h.ready
        stacked := h.stacked.pop
        hidden := fun _ hrun => hclear (hflag hrun)
        pending := fun _ hrun => absurd hrun hclear }

theorem Holds.webdavAction {shell : Shell} {servers : Servers} (h : Holds shell servers)
    (htop : stackTop shell.stack = some .webdav) {env : ServerEnv} (hexits : env.exits = true)
    (action : Action) (hflag : action = .back → servers.fs.state = .running →
      shell.fileserverRunning = true) :
    Holds (webdavAction env action shell servers).1 (webdavAction env action shell servers).2 := by
  have hon : onWebdav shell.stack = true := by simp [onWebdav, htop]
  unfold Ui.webdavAction
  split
  · rename_i hback
    exact h.webdavBack hexits (hflag hback)
  split
  · cases action with
    | up => exact .shown h.ready h.stacked hon
    | down => exact .shown h.ready h.stacked hon
    | ok =>
        simp only
        split
        · refine .shown h.ready (h.stacked.pushPassconfig htop) ?_
          exact onWebdav_pushPassconfig hon
        · have hact : (LifeAct.fsStop env.exits).OfServers := trivial
          exact .shown (h.ready.step hact) h.stacked hon
    | none | left | right | back => exact h
  split
  · split
    · have hact : (LifeAct.fsStartWith (some shell.webdavStaticPass) env.random
          env.start).OfServers := trivial
      exact .shown (h.ready.step hact) h.stacked hon
    · have hact : (LifeAct.fsStart env.random env.start).OfServers := trivial
      exact .shown (h.ready.step hact) h.stacked hon
  · exact h

/-- The password screen always leads back to the WebDAV screen. -/
theorem Holds.passconfigAction {shell : Shell} {servers : Servers} (h : Holds shell servers)
    (htop : stackTop shell.stack = some .webdavPassconfig) (env : ServerEnv) (action : Action) :
    Holds (passconfigAction env action shell servers).1
      (passconfigAction env action shell servers).2 := by
  have hon : onWebdav shell.stack = true := by simp [onWebdav, htop]
  have hback : onWebdav (stackPop shell.stack) = true := by
    simp [onWebdav, stackTop_pop_passconfig h.stacked htop]
  cases action with
  | back => exact .shown h.ready h.stacked.pop hback
  | up => exact .shown h.ready h.stacked hon
  | down => exact .shown h.ready h.stacked hon
  | ok =>
      simp only [Ui.passconfigAction]
      split
      · refine .shown ?_ h.stacked.pop hback
        split
        · have hstop : (LifeAct.fsStop env.exits).OfServers := trivial
          have hstart : (LifeAct.fsStart env.random env.start).OfServers := trivial
          exact (h.ready.step hstop).step hstart
        · exact h.ready
      split
      · exact .shown h.ready h.stacked.pop hback
      · exact .shown h.ready h.stacked.pop hback
  | none | left | right => exact h

/-- A key on any screen; the flag is needed where the WebDAV screen is left. -/
theorem Holds.handleAction {shell : Shell} {servers : Servers} (h : Holds shell servers)
    {env : ServerEnv} (hexits : env.exits = true) (action : Action)
    (hflag : stackTop shell.stack = some .webdav → action = .back →
      servers.fs.state = .running → shell.fileserverRunning = true) :
    Holds (handleAction env action shell servers).1 (handleAction env action shell servers).2 := by
  unfold Ui.handleAction
  split
  · exact h
  cases htop : stackTop shell.stack with
  | none => exact h.launcherAction (by simp [onWebdav, htop]) action
  | some screen =>
      cases screen with
      | launcher => exact h.launcherAction (by simp [onWebdav, htop]) action
      | app id => exact h.launcherAction (by simp [onWebdav, htop]) action
      | settings => exact h
      | sdEjected => exact h
      | webdav => exact h.webdavAction htop hexits action (hflag htop)
      | webdavPassconfig => exact h.passconfigAction htop env action
      | dialog =>
          simp only
          split
          · exact h.elsewhere (by simp [onWebdav, htop]) h.stacked.pop rfl rfl
          · exact h
      | appCrash =>
          simp only
          split
          · exact h.elsewhere (by simp [onWebdav, htop]) h.stacked.pop rfl rfl
          · exact h

/-- What holds between two parts of the main loop. -/
structure Loop.Inv (s : Loop) : Prop where
  holds : Holds s.shell s.servers
  resting : s.pos ≠ .keys → s.shell.webdavNeedsPassInput = false
  /-- An app that runs is not behind a screen of the server. -/
  fore : s.task = true → onWebdav s.shell.stack = false

theorem stacked_bootStack (env : BootEnv) : Stacked (bootStack env) ∧
    onWebdav (bootStack env) = false := by
  unfold bootStack
  cases env.dummy with
  | none =>
      cases env.openSettings with
      | false => exact ⟨.root, rfl⟩
      | true => exact ⟨Stacked.push .root rfl nofun, rfl⟩
  | some id =>
      have happ : Stacked (stackPush (.app id) [.launcher]) := Stacked.push .root rfl nofun
      cases env.openSettings with
      | false => exact ⟨happ, rfl⟩
      | true => exact ⟨happ.push rfl nofun, rfl⟩

theorem ready_boot : (fileserverInit fileserverDefaultPort .boot).2.Ready where
  sound := Servers.Sound.boot.step (.fsInit fileserverDefaultPort)
  owned := Servers.Owned.boot.step .boot
    (show (LifeAct.fsInit fileserverDefaultPort).OfServers from trivial)
  initialized := rfl

theorem Loop.Inv.boot (env : BootEnv) : (Loop.boot env).Inv where
  holds :=
    { ready := ready_boot
      stacked := (stacked_bootStack env).1
      hidden := fun _ => nofun
      pending := nofun }
  resting _ := rfl
  fore := nofun

/-- A key leaves the WebDAV screen. -/
def LeavesWebdav (s : Loop) (action : Action) (env : KeyEnv) : Prop :=
  action = .back ∧ stackTop s.shell.stack = some .webdav ∧ s.shell.sdEjected = false ∧
    s.task = false ∧ env.serial = false ∧ s.powerLast = .active ∧ s.dummy = none

theorem Loop.Inv.key {s : Loop} (h : s.Inv) (hpos : s.pos = .keys) {env : KeyEnv}
    (hexits : env.server.exits = true) (action : Action)
    (hflag : LeavesWebdav s action env → s.servers.fs.state = .running →
      s.shell.fileserverRunning = true) : (keyStep env action s).Inv := by
  unfold keyStep
  have hactive : Holds s.shell.noteActivity s.servers :=
    ⟨h.holds.ready, h.holds.stacked, h.holds.hidden, h.holds.pending⟩
  have hstay : ({ s with shell := s.shell.noteActivity } : Loop).Inv :=
    ⟨hactive, h.resting, h.fore⟩
  simp only
  split
  · split
    · exact .boot env.boot
    · exact hstay
  rename_i hcard
  split
  · exact hstay
  rename_i htask
  split
  · exact hstay
  rename_i hserial
  split
  · rename_i hsettings
    have hoff : onWebdav s.shell.noteActivity.stack = false := by simp [onWebdav, hsettings]
    split
    · exact
        { holds := hactive.elsewhere hoff h.holds.stacked.pop rfl rfl
          resting := h.resting
          fore := fun hrun => absurd hrun htask }
    · exact hstay
  split
  · exact hstay
  rename_i hawake
  split
  · exact hstay
  rename_i hdummy
  refine
    { holds := hactive.handleAction hexits action fun htop hback hrun => ?_
      resting := fun hno => absurd hpos hno
      fore := fun hrun => absurd hrun htask }
  exact hflag ⟨hback, htop, Bool.eq_false_iff.mpr hcard, by simpa using htask,
    by simpa using hserial, by simpa using hawake, by simpa using hdummy⟩ hrun

theorem Loop.Inv.password {s : Loop} (h : s.Inv) (env : ServerEnv) (answer : Option String) :
    (passwordStep env answer s).Inv := by
  unfold passwordStep
  split
  · rename_i hneeds
    cases answer with
    | none => exact ⟨h.holds.unasked rfl rfl, fun _ => rfl, h.fore⟩
    | some text =>
        simp only
        split
        · refine ⟨?_, fun _ => rfl, h.fore⟩
          split
          · -- the server is restarted, and its screen is still there
            rename_i hflag
            have hstop : (LifeAct.fsStop env.exits).OfServers := trivial
            have hstart : (LifeAct.fsStartWith (some text) env.random env.start).OfServers :=
              trivial
            exact .shown ((h.holds.ready.step hstop).step hstart) h.holds.stacked
              (h.holds.pending hneeds hflag)
          · exact h.holds.unasked rfl rfl
        · exact ⟨h.holds.unasked rfl rfl, fun _ => rfl, h.fore⟩
  · rename_i hneeds
    have hclear : s.shell.webdavNeedsPassInput = false := by simpa using hneeds
    exact ⟨h.holds.unasked rfl hclear, fun _ => hclear, h.fore⟩

theorem Loop.Inv.sync {s : Loop} (h : s.Inv) (hpos : s.pos = .sync) (ip : String) :
    (syncStep ip s).Inv := by
  have hclear := h.resting (by simp [hpos])
  unfold syncStep
  split
  · exact ⟨h.holds.unasked rfl hclear, fun _ => hclear, h.fore⟩
  · exact ⟨h.holds, fun _ => hclear, h.fore⟩

theorem Loop.Inv.power {s : Loop} (h : s.Inv) (hpos : s.pos = .power) (env : PowerEnv) :
    (powerStep env s).Inv := by
  have hclear := h.resting (by simp [hpos])
  unfold powerStep
  simp only
  split
  · split
    · exact ⟨h.holds.unasked rfl hclear, fun _ => hclear, h.fore⟩
    · exact .boot env.boot
  · exact ⟨h.holds.unasked rfl hclear, fun _ => hclear, h.fore⟩

theorem Loop.Inv.card {s : Loop} (h : s.Inv) (hpos : s.pos = .card) (ejected : Bool)
    (hidle : ejected = true → s.shell.sdEjected = false → s.servers.fs.state ≠ .running) :
    (cardStep ejected s).Inv := by
  have hclear := h.resting (by simp [hpos])
  unfold cardStep
  split
  · rename_i hcard
    have hboth : s.shell.sdEjected = false ∧ ejected = true := by simpa using hcard
    have hreset := h.holds.stacked.reset
    exact
      { holds :=
          { ready := h.holds.ready
            stacked := by
              rw [hreset]
              exact Stacked.push .root rfl nofun
            hidden := fun _ => hidle hboth.2 hboth.1
            pending := fun hwait => absurd (hclear.symm.trans hwait) nofun }
        resting := fun _ => hclear
        fore := fun _ => by
          simp only [hreset]
          rfl }
  · exact ⟨h.holds, fun _ => hclear, h.fore⟩

/-- The invariant in the part of the loop that no password waits for. -/
structure Loop.Calm (s : Loop) : Prop where
  holds : Holds s.shell s.servers
  clear : s.shell.webdavNeedsPassInput = false
  fore : s.task = true → onWebdav s.shell.stack = false

theorem Loop.Calm.bgTeardown {s : Loop} (h : s.Calm) : s.bgTeardown.Calm :=
  ⟨h.holds, h.clear, nofun⟩

theorem not_onWebdav_of_sdAppOpen {stack : List Screen} (h : sdAppOpen stack = true) :
    onWebdav stack = false := by
  unfold sdAppOpen at h
  split at h
  · rename_i id htop
    simp [onWebdav, htop]
  · cases h

theorem stacked_recordCrash {shell : Shell} (h : Stacked shell.stack) :
    Stacked shell.recordCrash.stack ∧ onWebdav shell.recordCrash.stack = false := by
  rw [Shell.recordCrash, h.reset]
  exact ⟨Stacked.push .root rfl nofun, rfl⟩

theorem Loop.Calm.launchOpenApp {s : Loop} (h : s.Calm) (env : AppsEnv) :
    (launchOpenApp env s).Calm := by
  unfold Ui.launchOpenApp
  split
  · rename_i hopen
    have hboth : sdAppOpen s.shell.stack = true ∧ s.task = false := by simpa using hopen
    have hoff := not_onWebdav_of_sdAppOpen hboth.1
    split
    · exact
        { holds := h.holds.elsewhere hoff h.holds.stacked.pop rfl rfl
          clear := h.clear
          fore := fun hrun => absurd (hboth.2.symm.trans hrun) nofun }
    split
    · exact ⟨h.holds, h.clear, fun _ => hoff⟩
    · refine ⟨?_, ?_, fun hrun => absurd (hboth.2.symm.trans hrun) nofun⟩
      · split
        · exact h.holds.elsewhere hoff (stacked_recordCrash h.holds.stacked.pop).1 rfl rfl
        · exact h.holds.elsewhere hoff h.holds.stacked.pop rfl rfl
      · split <;> exact h.clear
  · exact h

theorem Loop.Calm.superviseBackground {s : Loop} (h : s.Calm) (env : AppsEnv) {idle : Bool}
    (hidle : idle = true → onWebdav s.shell.stack = false) :
    (superviseBackground env idle s).Calm := by
  unfold Ui.superviseBackground
  split
  · split
    · exact h.bgTeardown
    split
    · exact ⟨(Loop.Inv.boot env.boot).holds, rfl, nofun⟩
    · exact h
  split
  · rename_i hdue
    have hlauncher : idle = true := by
      simp only [Bool.and_eq_true] at hdue
      exact hdue.1.1.1.1
    exact ⟨h.holds, h.clear, fun _ => hidle hlauncher⟩
  · exact h

theorem Loop.Calm.closeApp {s : Loop} (h : s.Calm) (env : AppsEnv) : (closeApp env s).Calm := by
  unfold Ui.closeApp
  split
  · rename_i hclose
    have htask : s.task = true := by
      simp only [Bool.and_eq_true] at hclose
      exact hclose.1.1
    have hoff := h.fore htask
    have htop : stackTop s.shell.stack ≠ some .webdavPassconfig := fun htop => by
      simp [onWebdav, htop] at hoff
    have hpop := onWebdav_pop h.holds.stacked htop
    split
    · refine ⟨?_, h.clear, fun htask => (by cases htask)⟩
      exact h.holds.elsewhere hoff (stacked_recordCrash h.holds.stacked.pop).1 rfl rfl
    · simp only
      split
      · refine ⟨?_, h.clear, fun htask => (by cases htask)⟩
        exact h.holds.elsewhere hoff (h.holds.stacked.pop.push hpop fun heq => by cases heq) rfl rfl
      · exact ⟨h.holds.elsewhere hoff h.holds.stacked.pop rfl rfl, h.clear,
          fun htask => (by cases htask)⟩
  · exact h

theorem launchOpenApp_of_launcher {s : Loop} (h : stackTop s.shell.stack = some .launcher)
    (env : AppsEnv) : launchOpenApp env s = s := by
  simp [launchOpenApp, sdAppOpen, h]

theorem Loop.Inv.apps {s : Loop} (h : s.Inv) (hpos : s.pos = .apps) (env : AppsEnv) :
    (appsStep env s).Inv := by
  have hcalm : s.Calm := ⟨h.holds, h.resting (by simp [hpos]), h.fore⟩
  unfold appsStep
  simp only
  generalize hpreempted : (if sdAppOpen s.shell.stack && s.bgRun then s.bgTeardown else s) = s₁
  have hcalm₁ : s₁.Calm := by
    rw [← hpreempted]
    split
    · exact hcalm.bgTeardown
    · exact hcalm
  have hstack₁ : s₁.shell.stack = s.shell.stack := by
    rw [← hpreempted]
    split <;> rfl
  have hidle : decide (stackTop s.shell.stack = some .launcher) = true →
      onWebdav (launchOpenApp env s₁).shell.stack = false := fun hlauncher => by
    have htop : stackTop s₁.shell.stack = some .launcher := by
      simpa [hstack₁] using hlauncher
    simp [launchOpenApp_of_launcher htop, onWebdav, htop]
  have hclosed := ((hcalm₁.launchOpenApp env).superviseBackground env hidle).closeApp env
  refine ⟨?_, fun hno => absurd rfl hno, ?_⟩
  · split
    · exact hclosed.holds.unasked rfl hclosed.clear
    · exact hclosed.holds
  · split
    · exact hclosed.fore
    · exact hclosed.fore

theorem lifeStep_fs_of_otherTask {act : LifeAct} (h : otherTask act = true) (s : Servers) :
    act.OfServers ∧ (lifeStep s act).1.fs = s.fs := by
  cases act with
  | fsInit _ | fsStart _ _ | fsStartWith _ _ _ | fsStop _ | start _ _ | stop _ => cases h
  | lrvStart hasData connected ip env =>
      have hkeep := startServer_fs lrvConfig env s
      refine ⟨trivial, ?_⟩
      simp only [lifeStep, lrvServerStart]
      split_ifs
      · rfl
      · rfl
      · rfl
      · rfl
      · split <;> simp_all
  | lrvStop exits =>
      have hkeep := stopServer_fs exits s
      refine ⟨trivial, ?_⟩
      simp only [lifeStep, lrvServerStop]
      split_ifs
      · rfl
      · split <;> simp_all
  | accept _ | serveEnd | taskExit | appAcquire _ | appRelease =>
      refine ⟨trivial, ?_⟩
      simp only [lifeStep]
      split <;> rfl

theorem Loop.Inv.other {s : Loop} (h : s.Inv) {act : LifeAct} (hact : otherTask act = true) :
    ({ s with servers := (lifeStep s.servers act).1 } : Loop).Inv := by
  obtain ⟨hof, hfs⟩ := lifeStep_fs_of_otherTask hact s.servers
  exact
    { holds :=
        { ready := h.holds.ready.step hof
          stacked := h.holds.stacked
          hidden := fun hoff => by
            rw [hfs]
            exact h.holds.hidden hoff
          pending := h.holds.pending }
      resting := h.resting
      fore := h.fore }

/-- The stops that the event asks for succeed. -/
def LoopEvent.Stops : LoopEvent → Prop
  | .key _ env => env.server.exits = true
  | .password env _ => env.exits = true
  | .sync _ | .power _ | .card _ | .apps _ | .other _ => True

/-- The WebDAV screen is left with the flag up to date: by a key, with the flag set if the server
runs; by the removal of the card, with no server that runs. -/
def FlagAtLeaving (s : Loop) : LoopEvent → Prop
  | .key action env =>
      s.pos = .keys → LeavesWebdav s action env → s.servers.fs.state = .running →
        s.shell.fileserverRunning = true
  | .card ejected =>
      s.pos = .card → ejected = true → s.shell.sdEjected = false →
        s.servers.fs.state ≠ .running
  | .password _ _ | .sync _ | .power _ | .apps _ | .other _ => True

theorem Loop.Inv.step {s : Loop} (h : s.Inv) {event : LoopEvent} (hstops : event.Stops)
    (hflag : FlagAtLeaving s event) : (loopStep s event).1.Inv := by
  cases event with
  | key action env =>
      simp only [loopStep]
      split
      · rename_i hpos
        exact h.key hpos hstops action (hflag hpos)
      · exact h
  | password env answer =>
      simp only [loopStep]
      split
      · exact h.password env answer
      · exact h
  | sync ip =>
      simp only [loopStep]
      split
      · rename_i hpos
        exact h.sync hpos ip
      · exact h
  | power env =>
      simp only [loopStep]
      split
      · rename_i hpos
        exact h.power hpos env
      · exact h
  | card ejected =>
      simp only [loopStep]
      split
      · rename_i hpos
        exact h.card hpos ejected (hflag hpos)
      · exact h
  | apps env =>
      simp only [loopStep]
      split
      · rename_i hpos
        exact h.apps hpos env
      · exact h
  | other act =>
      simp only [loopStep]
      split
      · rename_i hact
        exact h.other hact
      · exact h

/-- The file server runs on its own screens only; its control block serves no WebDAV either. -/
def Loop.Foreground (s : Loop) : Prop :=
  onWebdav s.shell.stack = false → s.servers.fs.state ≠ .running ∧
    ¬ (s.servers.srv.isRunning = true ∧ s.servers.srv.handler = some .webdavDispatch)

theorem Loop.Inv.foreground {s : Loop} (h : s.Inv) : s.Foreground := fun hoff => by
  have hidle := h.holds.hidden hoff
  exact ⟨hidle, fun hserves => hidle (h.holds.ready.owned.fs.mpr hserves)⟩

/-- A step after which the server is in the foreground left its screen with the flag up to
date. -/
theorem Loop.Inv.flag_of_foreground {s : Loop} (h : s.Inv) {event : LoopEvent}
    (hafter : (loopStep s event).1.Foreground) : FlagAtLeaving s event := by
  cases event with
  | key action env =>
      rintro hpos ⟨rfl, htop, hcard, htask, hserial, hawake, hdummy⟩ hrun
      by_contra hclear
      have hoff : onWebdav (stackPop s.shell.stack) = false :=
        onWebdav_pop h.holds.stacked (by simp [htop])
      simp only [loopStep, hpos, if_true] at hafter
      have hkey : keyStep env .back s = { s with shell := { s.shell with
          stack := stackPop s.shell.stack, powerState := .active } } := by
        simp [keyStep, Shell.noteActivity, hcard, htask, hserial, htop, hawake, hdummy,
          handleAction, webdavAction, webdavBack, hclear]
      rw [hkey] at hafter
      exact (hafter hoff).1 hrun
  | card ejected =>
      rintro hpos rfl hcard
      simp only [loopStep, hpos, if_true] at hafter
      have heject : (cardStep true s).shell.stack = [.sdEjected, .launcher] := by
        simp [cardStep, hcard, h.holds.stacked.reset, stackPush, stackLimit]
      have hservers : (cardStep true s).servers = s.servers := by simp [cardStep, hcard]
      rw [← hservers]
      exact (hafter (by rw [heject]; rfl)).1
  | password _ _ | sync _ | power _ | apps _ | other _ => exact trivial

/-- In every run of keys and of the main loop in which the stops succeed: the file server runs
only while its screen or its password screen is on top, exactly if the WebDAV screen is always
left with the flag up to date. -/
theorem webdav_foreground_iff (env : BootEnv) (events : List LoopEvent)
    (hstops : ∀ event ∈ events, event.Stops) :
    (∀ n, (Machine.run loopStep (.boot env) (events.take n)).Foreground) ↔
      Machine.Along loopStep FlagAtLeaving (.boot env) events :=
  Machine.along_iff_of_admitted (Q := LoopEvent.Stops) (fun _ h => h.foreground)
    (fun _ _ hstop h hflag => h.step hstop hflag)
    (fun _ _ _ h hafter => h.flag_of_foreground hafter) hstops (Loop.Inv.boot env)

instance (s : Loop) (action : Action) (env : KeyEnv) : Decidable (LeavesWebdav s action env) := by
  unfold LeavesWebdav
  infer_instance

instance (s : Loop) : DecidablePred (FlagAtLeaving s)
  | .key action env =>
      inferInstanceAs (Decidable (s.pos = .keys → LeavesWebdav s action env →
        s.servers.fs.state = .running → s.shell.fileserverRunning = true))
  | .card ejected =>
      inferInstanceAs (Decidable (s.pos = .card → ejected = true → s.shell.sdEjected = false →
        s.servers.fs.state ≠ .running))
  | .password _ _ | .sync _ | .power _ | .apps _ | .other _ => inferInstanceAs (Decidable True)

/-- A device with no apps. -/
def plainBoot : BootEnv where
  dummy := none
  sdApps := []
  passIsStatic := false
  staticPass := ""
  openSettings := false

/-- A server that starts, and stops in time. -/
def plainServer : ServerEnv where
  random := "a1b2c3d4"
  start := ⟨352, 2048, some 54, true, true, true⟩
  exits := true

/-- A key that nothing keeps from the shell. -/
def plainKey (action : Action) : LoopEvent :=
  .key action { server := plainServer, serial := false, settingsPop := false, boot := plainBoot }

/-- An iteration in which nothing happens. -/
def plainIteration : List LoopEvent :=
  [.password plainServer none, .sync "192.168.1.20",
    .power { tick := none, wakelock := false, boot := plainBoot }, .card false,
    .apps
      { session := false
        launched := false
        launchCrash := false
        bgFinished := false
        bgOverrun := false
        bgDue := false
        bgLaunched := false
        closeRequested := false
        crashed := false
        discovered := none
        boot := plainBoot }]

/-- The WebDAV screen is opened and the server started. -/
def startRun : List LoopEvent := plainIteration ++ [plainKey .down, plainKey .ok, plainKey .ok]

/-- Two seconds pass before the screen is left. -/
def waitRun : List LoopEvent :=
  startRun ++ (List.replicate 20 plainIteration).flatten ++ [plainKey .back]

theorem stops_startRun : ∀ event ∈ startRun, event.Stops := by
  simp [startRun, plainIteration, LoopEvent.Stops, plainKey, plainServer]

theorem stops_waitRun : ∀ event ∈ waitRun, event.Stops := by
  intro event hevent
  simp only [waitRun, List.mem_append, List.mem_flatten, List.mem_replicate] at hevent
  rcases hevent with (hstart | ⟨_, ⟨-, rfl⟩, hiteration⟩) | hback
  · exact stops_startRun event hstart
  · exact stops_startRun event (List.mem_append_left _ hiteration)
  · simp_all [LoopEvent.Stops, plainKey, plainServer]

theorem webdav_foreground_iff_waitRun :
    (∀ n, (Machine.run loopStep (.boot plainBoot) (waitRun.take n)).Foreground) ∧
      onWebdav (Machine.run loopStep (.boot plainBoot) waitRun).shell.stack = false :=
  ⟨(webdav_foreground_iff plainBoot waitRun stops_waitRun).mpr (by decide +kernel),
    by decide +kernel⟩

/-- The server is started, and its screen is left before the flag is refreshed. -/
theorem webdav_left_running :
    ¬ ∀ (env : BootEnv) (events : List LoopEvent), (∀ event ∈ events, event.Stops) →
      ∀ n, (Machine.run loopStep (.boot env) (events.take n)).Foreground := by
  intro h
  have hlast := h plainBoot (startRun ++ [plainKey .back])
    (by simp [startRun, plainIteration, LoopEvent.Stops, plainKey, plainServer]) 9
  exact (hlast (by decide)).1 (by decide)

end Ui
end JppDos
