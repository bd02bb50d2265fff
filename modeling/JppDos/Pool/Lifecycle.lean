import JppDos.Lib.Machine
import JppDos.Pool.Servers

/-!
# The lifecycle of the servers

Starts and stops of the two servers, or of any other owner, with everything that can fail in
them; the server's task, which accepts clients and ends; and the apps that take the same pool.

Main fact:
* `start_changes`: a start that fails, and what it changes.
-/

namespace JppDos
namespace Pool

/-- What can happen next. -/
inductive LifeAct
  | fsInit (port : Nat)
  | fsStart (random : String) (env : StartEnv)
  | fsStartWith (password : Option String) (random : String) (env : StartEnv)
  | fsStop (exits : Bool)
  | lrvStart (hasData connected : Bool) (ip : String) (env : StartEnv)
  | lrvStop (exits : Bool)
  /-- A start for an owner of its own. -/
  | start (config : ServerConfig) (env : StartEnv)
  /-- A stop that is not the file server's or the verification server's. -/
  | stop (exits : Bool)
  /-- The server's task accepts a client. -/
  | accept (fd : Nat)
  /-- The server's task has served the client. -/
  | serveEnd
  /-- The server's task ends, asked to or not. -/
  | taskExit
  /-- An app is loaded. -/
  | appAcquire (needBytes : UInt32)
  /-- The app gives back what it has taken. -/
  | appRelease

/-- The server's task still runs. -/
def ServerControl.serving (srv : ServerControl) : Bool := srv.running && !srv.taskExited

/-- One step; one that is not possible does nothing. -/
def lifeStep (s : Servers) : LifeAct → Servers × List Empty
  | .fsInit port => ((fileserverInit port s).2, [])
  | .fsStart random env => ((fileserverStart random env s).2, [])
  | .fsStartWith password random env =>
      ((fileserverStartWithPassword password random env s).2, [])
  | .fsStop exits => ((fileserverStop exits s).2, [])
  | .lrvStart hasData connected ip env => ((lrvServerStart hasData connected ip env s).2, [])
  | .lrvStop exits => (lrvServerStop exits s, [])
  | .start config env => ((startServer config env s).2, [])
  | .stop exits => ((stopServer exits s).2, [])
  | .accept fd =>
      if s.srv.serving && !s.srv.stopReq && decide (s.srv.clientSock < 0) then
        ({ s with srv := { s.srv with clientSock := fd }, fds := fd :: s.fds }, [])
      else (s, [])
  | .serveEnd =>
      if s.srv.serving then
        ({ s with
            srv := { s.srv with clientSock := -1 }
            fds := closeOpen s.srv.clientSock s.fds }, [])
      else (s, [])
  | .taskExit =>
      if s.srv.serving then ({ s with srv := { s.srv with taskExited := true } }, []) else (s, [])
  | .appAcquire needBytes =>
      match acquire needBytes s.pool with
      | (some _, pool) => ({ s with pool := pool, app := true }, [])
      | (none, _) => (s, [])
  | .appRelease => if s.app then ({ s with pool := release s.pool, app := false }, []) else (s, [])

/-- A start that does not end with a server that runs. -/
def LifeAct.Fails (s : Servers) : LifeAct → Prop
  | .fsStart random env => (fileserverStart random env s).1 ≠ .ok
  | .fsStartWith password random env =>
      (fileserverStartWithPassword password random env s).1 ≠ .ok
  | .lrvStart hasData connected ip env => (lrvServerStart hasData connected ip env s).1 ≠ .ok
  | .start config env => (startServer config env s).1 ≠ .ok
  | _ => False

/-- The step is one of the file server's, the verification server's, the task's or an app's. -/
def LifeAct.OfServers : LifeAct → Prop
  | .start _ _ | .stop _ => False
  | _ => True

/-- The pool is the server's or an app's, and a free pool is as it was at start-up. -/
structure Servers.Sound (s : Servers) : Prop where
  free : s.pool.inUse = false → s.pool = .boot
  held : s.pool.inUse = true ↔ s.srv.running = true ∨ s.app = true
  apart : ¬ (s.srv.running = true ∧ s.app = true)
  lrvIdle : s.lrv.running = false → s.lrv = { running := false, rtc := false, ip := "" }
  fsIdle : s.fs.state ≠ .running → s.fs.password = ""

theorem Servers.Sound.boot : Servers.boot.Sound where
  free _ := rfl
  held := by decide
  apart := by decide
  lrvIdle _ := rfl
  fsIdle _ := rfl

/-- A step that keeps the pool, whether the server runs, and the apps. -/
theorem Servers.Sound.same {s s' : Servers} (h : s.Sound) (hpool : s'.pool = s.pool)
    (hrunning : s'.srv.running = s.srv.running) (happ : s'.app = s.app) (hlrv : s'.lrv = s.lrv)
    (hfs : s'.fs.state ≠ .running → s'.fs.password = "") : s'.Sound where
  free hfree := by
    rw [hpool] at hfree ⊢
    exact h.free hfree
  held := by rw [hpool, hrunning, happ, h.held]
  apart := by
    rw [hrunning, happ]
    exact h.apart
  lrvIdle := by
    rw [hlrv]
    exact h.lrvIdle
  fsIdle := hfs

theorem Servers.Sound.begun {s : Servers} (h : s.Sound) (hfree : s.pool.inUse = false)
    {srv : ServerControl} {pool : AppPool} (fds : List Int) (hrunning : srv.running = true)
    (hpool : pool.inUse = true) :
    ({ s with srv := srv, pool := pool, fds := fds } : Servers).Sound where
  free hno := absurd (hpool.symm.trans hno) nofun
  held := by simp [hpool, hrunning]
  apart := by
    have happ : s.app ≠ true := fun happ => by
      have hheld := h.held.mpr (.inr happ)
      rw [hfree] at hheld
      cases hheld
    exact fun hboth => happ hboth.2
  lrvIdle := h.lrvIdle
  fsIdle := h.fsIdle

theorem Servers.Sound.startServer_cases {s : Servers} (h : s.Sound) (config : ServerConfig)
    (env : StartEnv) :
    (∃ result srv, result ≠ .ok ∧ s.srv.Renewed srv ∧
        startServer config env s = (result, { s with srv := srv })) ∨
      ∃ srv pool fds, s.srv.running = false ∧ srv.running = true ∧
        srv.handler = config.handler ∧
        startServer config env s = (.ok, { s with srv := srv, pool := pool, fds := fds }) ∧
        ({ s with srv := srv, pool := pool, fds := fds } : Servers).Sound := by
  rcases Pool.startServer_cases config env s with
    ⟨result, hresult, heq⟩ | ⟨hrunning, hfree, ⟨result, srv, hresult, hsrv, heq⟩ |
      ⟨srv, pool, fds, hsrv, hhandler, hpool, heq⟩⟩
  · exact .inl ⟨result, s.srv, hresult, .inl rfl, heq⟩
  · refine .inl ⟨result, srv, hresult, .inr ⟨hrunning, hsrv⟩, ?_⟩
    rw [heq, show release s.pool = s.pool from (h.free hfree).symm]
  · exact .inr ⟨srv, pool, fds, hrunning, hsrv, hhandler, heq, h.begun hfree fds hsrv hpool⟩

theorem Servers.Sound.stopServer_cases {s : Servers} (h : s.Sound) (exits : Bool) :
    (∃ result s', result ≠ .ok ∧ stopServer exits s = (result, s') ∧ s'.Sound ∧
        s'.srv.running = s.srv.running ∧ s'.srv.handler = s.srv.handler ∧ s'.fs = s.fs ∧
        s'.lrv = s.lrv) ∨
      ∃ s', s.srv.running = true ∧ stopServer exits s = (.ok, s') ∧ s'.Sound ∧
        s'.srv.running = false ∧ s'.fs = s.fs ∧ s'.lrv = s.lrv := by
  rw [stopServer]
  split
  · exact .inl ⟨.errNotRunning, s, by decide, rfl, h, rfl, rfl, rfl, rfl⟩
  rename_i hrunning
  split
  · refine .inl ⟨.errStopTimeout, _, by decide, rfl, ?_, rfl, rfl, rfl, rfl⟩
    exact h.same rfl rfl rfl rfl h.fsIdle
  · have hrun : s.srv.running = true := by simpa using hrunning
    have happ : s.app = false := by
      cases happ : s.app with
      | false => rfl
      | true => exact absurd ⟨hrun, happ⟩ h.apart
    refine .inr ⟨_, hrun, rfl, ?_, rfl, rfl, rfl⟩
    exact
      { free := fun _ => rfl
        held := by simp [release, happ]
        apart := by simp
        lrvIdle := h.lrvIdle
        fsIdle := h.fsIdle }

/-- What the two servers report is what the control block says. -/
structure Servers.Owned (s : Servers) : Prop where
  fs : s.fs.state = .running ↔
    s.srv.running = true ∧ s.srv.handler = some .webdavDispatch
  lrv : s.lrv.running = true ↔ s.srv.running = true ∧ s.srv.handler = some .lrvDispatch
  fresh : s.fs.initialized = false → s.fs.state = .stopped

theorem Servers.Owned.boot : Servers.boot.Owned where
  fs := by decide
  lrv := by decide
  fresh _ := rfl

theorem Servers.Owned.same {s s' : Servers} (h : s.Owned)
    (hrunning : s'.srv.running = s.srv.running) (hhandler : s'.srv.handler = s.srv.handler)
    (hfs : s'.fs = s.fs) (hlrv : s'.lrv = s.lrv) : s'.Owned where
  fs := by rw [hfs, hrunning, hhandler, h.fs]
  lrv := by rw [hlrv, hrunning, hhandler, h.lrv]
  fresh := by
    rw [hfs]
    exact h.fresh

theorem Servers.Sound.startServerImpl {s : Servers} (h : s.Sound) (hidle : s.fs.state ≠ .running)
    (password : String) (env : StartEnv) :
    (startServerImpl password env s).2.Sound ∧
      ((startServerImpl password env s).1 ≠ .ok → s.Spared (startServerImpl password env s).2) ∧
      (s.fs.initialized = true → s.Owned → (startServerImpl password env s).2.Owned) := by
  rw [Pool.startServerImpl]
  rcases h.startServer_cases (webdavConfig s.fs.port) env with
    ⟨result, srv, hresult, hrenewed, heq⟩ |
      ⟨srv, pool, fds, hrunning, hsrv, hhandler, heq, hsound⟩
  · rw [heq]
    split
    · rename_i hok
      exact absurd (congrArg Prod.fst hok) hresult
    rename_i hfailed
    obtain ⟨-, rfl⟩ := Prod.mk.inj hfailed
    refine ⟨?_, fun _ => ?_, fun hinit howned => ?_⟩
    · exact h.same rfl hrenewed.running rfl rfl fun _ => rfl
    · exact
        { pool := rfl
          fds := rfl
          app := rfl
          lrv := rfl
          isRunning := hrenewed.running
          reportedOwner := hrenewed.reportedOwner
          srv := hrenewed
          fs := .inr (by rw [← h.fsIdle hidle]) }
    · exact
        { fs := by
            rw [hrenewed.serves_iff, ← howned.fs]
            exact ⟨nofun, fun hrun => absurd hrun hidle⟩
          lrv := by rw [hrenewed.serves_iff, ← howned.lrv]
          fresh := fun hnot => absurd (hinit.symm.trans hnot) nofun }
  · rw [heq]
    refine ⟨?_, fun hno => absurd rfl hno, fun hinit howned => ?_⟩
    · exact hsound.same rfl rfl rfl rfl fun hno => absurd rfl hno
    · have hnone : s.lrv.running ≠ true := fun hrun => by
        rw [howned.lrv, hrunning] at hrun
        cases hrun.1
      exact
        { fs := by simp [hsrv, hhandler, webdavConfig]
          lrv := by simp [hnone, hhandler, webdavConfig]
          fresh := fun hnot => absurd (hinit.symm.trans hnot) nofun }

/-- What a step of the servers does to a state of the invariant. -/
structure Servers.Moves (s s' : Servers) (ok : Prop) : Prop where
  sound : s'.Sound
  spared : ¬ ok → s.Spared s'
  owned : s.Owned → s'.Owned

theorem Servers.Moves.stay {s : Servers} (h : s.Sound) (ok : Prop) : s.Moves s ok where
  sound := h
  spared _ :=
    { pool := rfl
      fds := rfl
      app := rfl
      lrv := rfl
      isRunning := rfl
      reportedOwner := rfl
      srv := .inl rfl
      fs := .inl rfl }
  owned howned := howned

theorem Servers.Sound.fileserverStart {s : Servers} (h : s.Sound) (random : String)
    (env : StartEnv) :
    s.Moves (fileserverStart random env s).2 ((fileserverStart random env s).1 = .ok) := by
  rw [Pool.fileserverStart]
  split
  · exact .stay h _
  rename_i hinit
  split
  · exact .stay h _
  rename_i hidle
  obtain ⟨hsound, hspared, howned⟩ := h.startServerImpl hidle random env
  exact ⟨hsound, hspared, howned (by simpa using hinit)⟩

theorem Servers.Sound.fileserverStartWithPassword {s : Servers} (h : s.Sound)
    (password : Option String) (random : String) (env : StartEnv) :
    s.Moves (fileserverStartWithPassword password random env s).2
      ((fileserverStartWithPassword password random env s).1 = .ok) := by
  unfold Pool.fileserverStartWithPassword
  split
  · exact .stay h _
  rename_i hinit
  split
  · exact .stay h _
  rename_i hidle
  have hbegin : ∀ password, s.Moves (Pool.startServerImpl password env s).2
      ((Pool.startServerImpl password env s).1 = .ok) := fun password => by
    obtain ⟨hsound, hspared, howned⟩ := h.startServerImpl hidle password env
    exact ⟨hsound, hspared, howned (by simpa using hinit)⟩
  cases password with
  | none => exact hbegin random
  | some password =>
      simp only
      split
      · exact hbegin random
      · exact hbegin (cutTo passMax password)

theorem Servers.Sound.lrvServerStart {s : Servers} (h : s.Sound) (hasData connected : Bool)
    (ip : String) (env : StartEnv) :
    s.Moves (lrvServerStart hasData connected ip env s).2
      ((lrvServerStart hasData connected ip env s).1 = .ok) := by
  rw [Pool.lrvServerStart]
  split
  · exact .stay h _
  split
  · exact .stay h _
  split
  · exact .stay h _
  rename_i hfs
  split
  · exact .stay h _
  rename_i hidle
  have hlrv : s.lrv = { running := false, rtc := false, ip := "" } :=
    h.lrvIdle (by simpa using hidle)
  rcases h.startServer_cases lrvConfig env with
    ⟨result, srv, hresult, hrenewed, heq⟩ |
      ⟨srv, pool, fds, hrunning, hsrv, hhandler, heq, hsound⟩
  · rw [heq]
    split
    · rename_i hok
      exact absurd (congrArg Prod.fst hok) hresult
    rename_i hfailed
    obtain ⟨-, rfl⟩ := Prod.mk.inj hfailed
    have hsame : ({ s.lrv with rtc := false, ip := "" } : LrvServer) = s.lrv := by rw [hlrv]
    exact
      { sound := h.same rfl hrenewed.running rfl hsame h.fsIdle
        spared := fun _ =>
          { pool := rfl
            fds := rfl
            app := rfl
            lrv := hsame
            isRunning := hrenewed.running
            reportedOwner := hrenewed.reportedOwner
            srv := hrenewed
            fs := .inl rfl }
        owned := fun howned =>
          { fs := by rw [hrenewed.serves_iff, ← howned.fs]
            lrv := by rw [hrenewed.serves_iff, ← howned.lrv]
            fresh := howned.fresh } }
  · rw [heq]
    exact
      { sound :=
          { free := hsound.free
            held := hsound.held
            apart := hsound.apart
            lrvIdle := nofun
            fsIdle := hsound.fsIdle }
        spared := fun hno => absurd rfl hno
        owned := fun howned =>
          { fs := by simp [hfs, hhandler, lrvConfig]
            lrv := by simp [hsrv, hhandler, lrvConfig]
            fresh := howned.fresh } }

theorem Servers.Sound.fileserverStop {s : Servers} (h : s.Sound) (exits : Bool) :
    (fileserverStop exits s).2.Sound ∧ (s.Owned → (fileserverStop exits s).2.Owned) := by
  rw [Pool.fileserverStop]
  split
  · exact ⟨h, id⟩
  rename_i hinit
  split
  · exact ⟨h, id⟩
  rename_i hfs
  rcases h.stopServer_cases exits with
    ⟨result, s', hresult, heq, hsound, hsame, hhandler, hfs', hlrv'⟩ |
      ⟨s', hrunning, heq, hsound, hidle, hfs', hlrv'⟩
  · rw [heq]
    split
    · rename_i hok
      exact absurd (congrArg Prod.fst hok) hresult
    rename_i hfailed
    obtain ⟨-, rfl⟩ := Prod.mk.inj hfailed
    exact ⟨hsound, fun howned => howned.same hsame hhandler hfs' hlrv'⟩
  · rw [heq]
    refine ⟨?_, fun howned => ?_⟩
    · exact hsound.same rfl rfl rfl rfl fun _ => rfl
    · have hserves := howned.fs.mp (by simpa using hfs)
      have hnone : s.lrv.running ≠ true := fun hrun => by
        have hother := (howned.lrv.mp hrun).2
        rw [hserves.2] at hother
        cases hother
      exact
        { fs := by simp [hidle]
          lrv := by simp [hidle, hlrv', hnone]
          fresh := fun _ => rfl }

theorem Servers.Sound.lrvServerStop {s : Servers} (h : s.Sound) (exits : Bool) :
    (lrvServerStop exits s).Sound ∧ (s.Owned → (lrvServerStop exits s).Owned) := by
  rw [Pool.lrvServerStop]
  split
  · exact ⟨h, id⟩
  rename_i hlrv
  rcases h.stopServer_cases exits with
    ⟨result, s', hresult, heq, hsound, hsame, hhandler, hfs', hlrv'⟩ |
      ⟨s', hrunning, heq, hsound, hidle, hfs', hlrv'⟩
  · rw [heq]
    split
    · rename_i hok
      exact absurd (congrArg Prod.fst hok) hresult
    rename_i hfailed
    obtain ⟨-, rfl⟩ := Prod.mk.inj hfailed
    exact ⟨hsound, fun howned => howned.same hsame hhandler hfs' hlrv'⟩
  · rw [heq]
    refine ⟨?_, fun howned => ?_⟩
    · exact
        { free := hsound.free
          held := hsound.held
          apart := hsound.apart
          lrvIdle := fun _ => rfl
          fsIdle := hsound.fsIdle }
    · have hserves := howned.lrv.mp (by simpa using hlrv)
      have hnone : s.fs.state ≠ .running := fun hrun => by
        have hother := (howned.fs.mp hrun).2
        rw [hserves.2] at hother
        cases hother
      exact
        { fs := by simp [hidle, hfs', hnone]
          lrv := by simp [hidle]
          fresh := by
            simp only [hfs']
            exact howned.fresh }

theorem Servers.Sound.fileserverInit {s : Servers} (h : s.Sound) (port : Nat) :
    (fileserverInit port s).2.Sound ∧ (s.Owned → (fileserverInit port s).2.Owned) := by
  rw [Pool.fileserverInit]
  split
  · exact ⟨h, id⟩
  rename_i hinit
  refine ⟨h.same rfl rfl rfl rfl fun _ => rfl, fun howned => ?_⟩
  have hstopped : s.fs.state = .stopped := howned.fresh (by simpa using hinit)
  have hother := howned.fs
  rw [hstopped] at hother
  exact
    { fs := hother
      lrv := howned.lrv
      fresh := fun _ => rfl }

theorem Servers.Sound.appAcquire {s : Servers} (h : s.Sound) (needBytes : UInt32) :
    (lifeStep s (.appAcquire needBytes)).1.Sound ∧
      (s.Owned → (lifeStep s (.appAcquire needBytes)).1.Owned) := by
  simp only [lifeStep, acquire]
  rcases acquireAs_cases (some "app") needBytes s.pool with heq | ⟨heq, hfree, -⟩
  · rw [heq]
    exact ⟨h, id⟩
  · rw [heq]
    have hidle : s.srv.running ≠ true := fun hrun => by
      have hheld := h.held.mpr (.inl hrun)
      rw [hfree] at hheld
      cases hheld
    refine ⟨?_, fun howned => howned.same rfl rfl rfl rfl⟩
    exact
      { free := nofun
        held := by simp
        apart := fun hboth => hidle hboth.1
        lrvIdle := h.lrvIdle
        fsIdle := h.fsIdle }

theorem Servers.Sound.appRelease {s : Servers} (h : s.Sound) :
    (lifeStep s .appRelease).1.Sound ∧ (s.Owned → (lifeStep s .appRelease).1.Owned) := by
  simp only [lifeStep]
  split
  · rename_i happ
    have hidle : s.srv.running = false := by
      cases hrun : s.srv.running with
      | false => rfl
      | true => exact absurd ⟨hrun, happ⟩ h.apart
    refine ⟨?_, fun howned => howned.same rfl rfl rfl rfl⟩
    exact
      { free := fun _ => rfl
        held := by simp [release, hidle]
        apart := by simp
        lrvIdle := h.lrvIdle
        fsIdle := h.fsIdle }
  · exact ⟨h, id⟩

/-- One case per step: the pool stays with the server that runs or with the app. -/
theorem Servers.Sound.step {s : Servers} (h : s.Sound) (act : LifeAct) :
    (lifeStep s act).1.Sound := by
  cases act with
  | fsInit port => exact (h.fileserverInit port).1
  | fsStart random env => exact (h.fileserverStart random env).sound
  | fsStartWith password random env =>
      exact (h.fileserverStartWithPassword password random env).sound
  | fsStop exits => exact (h.fileserverStop exits).1
  | lrvStart hasData connected ip env => exact (h.lrvServerStart hasData connected ip env).sound
  | lrvStop exits => exact (h.lrvServerStop exits).1
  | start config env =>
      simp only [lifeStep]
      rcases h.startServer_cases config env with
        ⟨result, srv, -, hrenewed, heq⟩ | ⟨srv, pool, fds, -, -, -, heq, hsound⟩
      · rw [heq]
        exact h.same rfl hrenewed.running rfl rfl h.fsIdle
      · rw [heq]
        exact hsound
  | stop exits =>
      simp only [lifeStep]
      rcases h.stopServer_cases exits with
        ⟨result, s', -, heq, hsound, -⟩ | ⟨s', -, heq, hsound, -⟩
      · rw [heq]
        exact hsound
      · rw [heq]
        exact hsound
  | accept fd =>
      simp only [lifeStep]
      split
      · exact h.same rfl rfl rfl rfl h.fsIdle
      · exact h
  | serveEnd =>
      simp only [lifeStep]
      split
      · exact h.same rfl rfl rfl rfl h.fsIdle
      · exact h
  | taskExit =>
      simp only [lifeStep]
      split
      · exact h.same rfl rfl rfl rfl h.fsIdle
      · exact h
  | appAcquire needBytes => exact (h.appAcquire needBytes).1
  | appRelease => exact h.appRelease.1

/-- The calls of the two servers keep what these report in step with the control block. -/
theorem Servers.Owned.step {s : Servers} (howned : s.Owned) (h : s.Sound) {act : LifeAct}
    (hact : act.OfServers) : (lifeStep s act).1.Owned := by
  cases act with
  | fsInit port => exact (h.fileserverInit port).2 howned
  | fsStart random env => exact (h.fileserverStart random env).owned howned
  | fsStartWith password random env =>
      exact (h.fileserverStartWithPassword password random env).owned howned
  | fsStop exits => exact (h.fileserverStop exits).2 howned
  | lrvStart hasData connected ip env =>
      exact (h.lrvServerStart hasData connected ip env).owned howned
  | lrvStop exits => exact (h.lrvServerStop exits).2 howned
  | start config env => exact hact.elim
  | stop exits => exact hact.elim
  | accept fd =>
      simp only [lifeStep]
      split
      · exact howned.same rfl rfl rfl rfl
      · exact howned
  | serveEnd =>
      simp only [lifeStep]
      split
      · exact howned.same rfl rfl rfl rfl
      · exact howned
  | taskExit =>
      simp only [lifeStep]
      split
      · exact howned.same rfl rfl rfl rfl
      · exact howned
  | appAcquire needBytes => exact (h.appAcquire needBytes).2 howned
  | appRelease => exact h.appRelease.2 howned

theorem lifeStep_initialized {s : Servers} (h : s.fs.initialized = true) (act : LifeAct) :
    (lifeStep s act).1.fs.initialized = true := by
  have hstart : ∀ config env, (startServer config env s).2.fs.initialized = true :=
    fun config env => by rw [startServer_fs, h]
  have hstop : ∀ exits, (stopServer exits s).2.fs.initialized = true :=
    fun exits => by rw [stopServer_fs, h]
  have himpl : ∀ password env, (startServerImpl password env s).2.fs.initialized = true := by
    intro password env
    have hkeep := hstart (webdavConfig s.fs.port) env
    rw [startServerImpl]
    split <;> simp_all
  cases act with
  | fsInit port => simp [lifeStep, fileserverInit, h]
  | fsStart random env =>
      simp only [lifeStep, fileserverStart]
      split_ifs <;> first | exact h | exact himpl _ _
  | fsStartWith password random env =>
      simp only [lifeStep, fileserverStartWithPassword]
      split_ifs
      · exact h
      · exact h
      · cases password with
        | none => exact himpl _ _
        | some password =>
            simp only
            split_ifs <;> exact himpl _ _
  | fsStop exits =>
      have hkeep := hstop exits
      simp only [lifeStep, fileserverStop]
      split_ifs
      · exact h
      · exact h
      · split <;> simp_all
  | lrvStart hasData connected ip env =>
      have hkeep := hstart lrvConfig env
      simp only [lifeStep, lrvServerStart]
      split_ifs
      · exact h
      · exact h
      · exact h
      · exact h
      · split <;> simp_all
  | lrvStop exits =>
      have hkeep := hstop exits
      simp only [lifeStep, lrvServerStop]
      split_ifs
      · exact h
      · split <;> simp_all
  | start config env => exact hstart config env
  | stop exits => exact hstop exits
  | accept fd =>
      simp only [lifeStep]
      split <;> exact h
  | serveEnd =>
      simp only [lifeStep]
      split <;> exact h
  | taskExit =>
      simp only [lifeStep]
      split <;> exact h
  | appAcquire needBytes =>
      simp only [lifeStep]
      split <;> exact h
  | appRelease =>
      simp only [lifeStep]
      split <;> exact h

/-- The servers of a device that has started. -/
structure Servers.Ready (s : Servers) : Prop where
  sound : s.Sound
  owned : s.Owned
  initialized : s.fs.initialized = true

theorem Servers.Ready.step {s : Servers} (h : s.Ready) {act : LifeAct} (hact : act.OfServers) :
    (lifeStep s act).1.Ready where
  sound := h.sound.step act
  owned := h.owned.step h.sound hact
  initialized := lifeStep_initialized h.initialized act

theorem Servers.Ready.fileserverStop {s : Servers} (h : s.Ready) :
    (fileserverStop true s).1 = .ok ∧ (fileserverStop true s).2.fs.state ≠ .running := by
  rw [Pool.fileserverStop]
  by_cases hrun : s.fs.state = .running
  · have hrunning := (h.owned.fs.mp hrun).1
    simp [h.initialized, hrun, stopServer, hrunning]
  · simp [h.initialized, hrun]

theorem Servers.Sound.fails {s : Servers} (h : s.Sound) {act : LifeAct} (hact : act.Fails s) :
    s.Spared (lifeStep s act).1 := by
  cases act with
  | fsStart random env => exact (h.fileserverStart random env).spared hact
  | fsStartWith password random env =>
      exact (h.fileserverStartWithPassword password random env).spared hact
  | lrvStart hasData connected ip env =>
      exact (h.lrvServerStart hasData connected ip env).spared hact
  | start config env =>
      simp only [lifeStep]
      rcases h.startServer_cases config env with
        ⟨result, srv, -, hrenewed, heq⟩ | ⟨srv, pool, fds, -, -, -, heq, -⟩
      · rw [heq]
        exact
          { pool := rfl
            fds := rfl
            app := rfl
            lrv := rfl
            isRunning := hrenewed.running
            reportedOwner := hrenewed.reportedOwner
            srv := hrenewed
            fs := .inl rfl }
      · exact absurd (congrArg Prod.fst heq) hact
  | fsInit _ | fsStop _ | lrvStop _ | stop _ | accept _ | serveEnd | taskExit | appAcquire _
    | appRelease => exact hact.elim

/-- Over every sequence of calls, of ends of the server's task and of apps: the server holds the
pool exactly while it reports running; each of the two servers reports running exactly while the
control block serves its requests, as long as nothing else starts or stops it; and a start that
fails leaves the pool, the sockets, the apps, the verification server and what the server reports
as they were, with at most the control block of no server made anew and the file server in
error. -/
theorem servers_lifecycle (acts : List LifeAct) :
    let s := Machine.run lifeStep .boot acts
    (s.srv.isRunning = true ↔ s.pool.inUse = true ∧ s.app = false) ∧
      ((∀ act ∈ acts, act.OfServers) →
        (s.fs.state = .running ↔ s.srv.isRunning = true ∧ s.srv.handler = some .webdavDispatch) ∧
        (s.lrv.running = true ↔ s.srv.isRunning = true ∧ s.srv.handler = some .lrvDispatch)) ∧
      ∀ act : LifeAct, act.Fails s → s.Spared (lifeStep s act).1 := by
  intro s
  have hsound : s.Sound := Machine.run_invariant (fun _ act h => h.step act) acts .boot
  refine ⟨?_, fun hacts => ?_, fun act hact => hsound.fails hact⟩
  · rw [hsound.held, ServerControl.isRunning]
    cases happ : s.app with
    | false => simp
    | true =>
        have hidle : s.srv.running ≠ true := fun hrun => hsound.apart ⟨hrun, happ⟩
        simp [hidle]
  · have hboth : Machine.Throughout lifeStep (fun s => s.Sound ∧ s.Owned) .boot acts :=
      Machine.throughout_of_step ⟨.boot, .boot⟩ fun s act hmem h =>
        ⟨h.1.step act, h.2.step h.1 (hacts act hmem)⟩
    exact ⟨hboth.last.2.fs, hboth.last.2.lrv⟩

/-- The file server is asked to start while an app holds the pool: the start fails, and the file
server, which was stopped, is in error. -/
theorem start_changes :
    ¬ ∀ (acts : List LifeAct) (act : LifeAct),
      act.Fails (Machine.run lifeStep .boot acts) →
        (lifeStep (Machine.run lifeStep .boot acts) act).1 = Machine.run lifeStep .boot acts := by
  intro h
  have hsame := h [.fsInit 8080, .appAcquire 0]
    (.fsStart "a1b2c3d4" ⟨352, 2048, some 54, true, true, true⟩)
    (by simp only [LifeAct.Fails]; decide)
  exact absurd (congrArg (fun s => s.fs.state) hsame) (by decide)

end Pool
end JppDos
