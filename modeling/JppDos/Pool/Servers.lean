import JppDos.Pool.Sharing

/-!
# The servers

The one control block behind the file server and the verification server: starting it, which
takes the pool, carves it, opens a listener and creates a task, with an exit wherever one of
these fails; stopping it, which waits for the task; and the starts and stops of the two servers.
-/

namespace JppDos
namespace Pool

/-- The functions that serve requests. -/
inductive Handler
  | webdavDispatch
  | lrvDispatch
  | other (function : Nat)
  deriving DecidableEq

/-- `s_srv`; of the task and of the mutex only whether they are there. -/
structure ServerControl where
  running : Bool
  stopReq : Bool
  taskExited : Bool
  task : Bool
  /-- Where `tcb` lies in the pool. -/
  tcb : Option UInt32
  listenSock : Int
  clientSock : Int
  sockMtx : Bool
  handler : Option Handler
  userCtx : Option Nat
  recvTimeoutS : Nat
  sendTimeoutS : Nat
  /-- Where `conn` lies in the pool. -/
  conn : Option UInt32
  owner : String
  deriving DecidableEq

/-- A control block that is all zero bytes. -/
def ServerControl.zero : ServerControl where
  running := false
  stopReq := false
  taskExited := false
  task := false
  tcb := none
  listenSock := 0
  clientSock := 0
  sockMtx := false
  handler := none
  userCtx := none
  recvTimeoutS := 0
  sendTimeoutS := 0
  conn := none
  owner := ""

/-- `jpp_http_server_is_running`. -/
def ServerControl.isRunning (srv : ServerControl) : Bool := srv.running

/-- `jpp_http_server_owner`. -/
def ServerControl.reportedOwner (srv : ServerControl) : Option String :=
  if srv.running then some srv.owner else none

/-- `jpp_http_server_config_t`. -/
structure ServerConfig where
  owner : Option String
  port : Nat
  stackBytes : UInt32
  recvTimeoutS : Nat
  sendTimeoutS : Nat
  handler : Option Handler
  userCtx : Option Nat

/-- The sizes of the task and connection records, and what the network and the scheduler
answer to a start. -/
structure StartEnv where
  tcbBytes : UInt32
  connBytes : UInt32
  /-- The descriptor that `socket` gives. -/
  socket : Option Int
  bind : Bool
  listen : Bool
  created : Bool

/-- `jpp_fileserver_state_t`. -/
inductive FileServerState
  | stopped
  | running
  | error
  deriving DecidableEq

/-- `s_fs`, without the root. -/
structure FileServer where
  initialized : Bool
  state : FileServerState
  port : Nat
  password : String
  deriving DecidableEq

/-- The statics of the verification server; of the clock only whether there is one. -/
structure LrvServer where
  running : Bool
  rtc : Bool
  ip : String
  deriving DecidableEq

/-- The pool, the servers, and the sockets that are open. -/
structure Servers where
  pool : AppPool
  srv : ServerControl
  fds : List Int
  fs : FileServer
  lrv : LrvServer
  /-- An app has taken the pool. -/
  app : Bool
  deriving DecidableEq

/-- The device after start-up. -/
def Servers.boot : Servers where
  pool := .boot
  srv := .zero
  fds := []
  fs := { initialized := false, state := .stopped, port := 0, password := "" }
  lrv := { running := false, rtc := false, ip := "" }
  app := false

/-- `close`. -/
def closeFd (fd : Int) (fds : List Int) : List Int := fds.erase fd

/-- `open_listener`. -/
def openListener (env : StartEnv) (fds : List Int) : Option Int × List Int :=
  match env.socket with
  | none => (none, fds)
  | some fd =>
      if !env.bind then (none, closeFd fd (fd :: fds))
      else if !env.listen then (none, closeFd fd (fd :: fds))
      else (some fd, fd :: fds)

/-- The text that fits a buffer. -/
def cutTo (n : Nat) (text : String) : String := String.ofList (text.toList.take n)

/-- `s_srv` after the assignments behind `memset`, with the control block of the task. -/
def preparedControl (config : ServerConfig) (owner : String) (tcb : Option UInt32) :
    ServerControl :=
  { ServerControl.zero with
    listenSock := -1
    clientSock := -1
    handler := config.handler
    userCtx := config.userCtx
    recvTimeoutS := if config.recvTimeoutS ≠ 0 then config.recvTimeoutS else 30
    sendTimeoutS := if config.sendTimeoutS ≠ 0 then config.sendTimeoutS else 10
    owner := cutTo 15 owner
    tcb := tcb }

/-- The sizes of a start for the carving. -/
def StartEnv.sizes (env : StartEnv) : HttpEnv where
  tcbBytes := env.tcbBytes
  connBytes := env.connBytes
  listener := env.socket.isSome && env.bind && env.listen
  created := env.created

/-- Where the connection lies that a start carves. -/
def connAt (stackBytes : UInt32) (env : StartEnv) (pool : AppPool) : Option UInt32 :=
  (alloc env.connBytes 16 (alloc stackBytes 16 (alloc env.tcbBytes 16 pool).2).2).1

/-- `jpp_http_server_start`. -/
def startServer (config : ServerConfig) (env : StartEnv) (s : Servers) : HttpResult × Servers :=
  if config.handler = none ∨ config.port = 0 then (.errArg, s)
  else if s.srv.running then (.errAlreadyRunning, s)
  else
    let owner := config.owner.getD "httpd"
    let stackBytes := if config.stackBytes != 0 then config.stackBytes else 8192
    match acquireAs (some owner) 0 s.pool with
    | (none, pool) => (.errPoolBusy, { s with pool := pool })
    | (some _, pool) =>
        let srv := preparedControl config owner (alloc env.tcbBytes 16 pool).1
        match carve stackBytes env.sizes pool with
        | none => (.errNoMemory, { s with srv := srv, pool := release pool })
        | some carved =>
            let srv := { srv with conn := connAt stackBytes env pool }
            match openListener env s.fds with
            | (none, fds) => (.errSocket, { s with srv := srv, fds := fds, pool := release carved })
            | (some fd, fds) =>
                if !env.created then
                  (.errTask, { s with srv := srv, fds := closeFd fd fds, pool := release carved })
                else
                  (.ok, { s with
                    srv :=
                      { srv with
                        listenSock := fd
                        sockMtx := true
                        task := true
                        running := true }
                    fds := fds
                    pool := carved })

/-- `sock_close_client`, `close` of the listener: what is open goes. -/
def closeOpen (fd : Int) (fds : List Int) : List Int := if 0 ≤ fd then closeFd fd fds else fds

/-- `jpp_http_server_stop`; `exits` says that the task ends while it is waited for. -/
def stopServer (exits : Bool) (s : Servers) : HttpResult × Servers :=
  if !s.srv.running then (.errNotRunning, s)
  else if !(s.srv.taskExited || exits) then
    (.errStopTimeout, { s with srv := { s.srv with stopReq := true } })
  else
    (.ok, { s with
      srv := { s.srv with
        stopReq := true
        taskExited := true
        task := false
        clientSock := -1
        listenSock := -1
        sockMtx := false
        conn := none
        running := false }
      fds := closeOpen s.srv.listenSock (closeOpen s.srv.clientSock s.fds)
      pool := release s.pool })

/-- `JPP_FILESERVER_PASS_MAX`. -/
def passMax : Nat := 24

/-- `WEBDAV_STACK_BYTES`. -/
def webdavStackBytes : UInt32 := 8192

/-- `JPP_LRV_SERVER_PORT`. -/
def lrvServerPort : Nat := 3000

/-- `LRV_STACK_BYTES`. -/
def lrvStackBytes : UInt32 := 10240

/-- `jpp_fileserver_result_t`. -/
inductive FileServerResult
  | ok
  | alreadyInitialized
  | notInitialized
  | startFailed
  | stopFailed
  deriving DecidableEq

/-- `jpp_lrv_server_result_t`. -/
inductive LrvServerResult
  | ok
  | errNoData
  | errNoWifi
  | errWebdavRunning
  | errInternal
  deriving DecidableEq

/-- `jpp_fileserver_init`. -/
def fileserverInit (port : Nat) (s : Servers) : FileServerResult × Servers :=
  if s.fs.initialized then (.alreadyInitialized, s)
  else (.ok, { s with fs := { initialized := true, state := .stopped, port, password := "" } })

/-- The configuration of `start_server_impl`. -/
def webdavConfig (port : Nat) : ServerConfig where
  owner := some "webdav"
  port := port
  stackBytes := webdavStackBytes
  recvTimeoutS := 30
  sendTimeoutS := 10
  handler := some .webdavDispatch
  userCtx := none

/-- `start_server_impl`, with the password that is set before it. -/
def startServerImpl (password : String) (env : StartEnv) (s : Servers) :
    FileServerResult × Servers :=
  match startServer (webdavConfig s.fs.port) env s with
  | (.ok, s) => (.ok, { s with fs := { s.fs with state := .running, password := password } })
  | (_, s) => (.startFailed, { s with fs := { s.fs with state := .error, password := "" } })

/-- `jpp_fileserver_start`, with the password that `generate_password` makes. -/
def fileserverStart (random : String) (env : StartEnv) (s : Servers) :
    FileServerResult × Servers :=
  if !s.fs.initialized then (.notInitialized, s)
  else if s.fs.state = .running then (.ok, s)
  else startServerImpl random env s

/-- `jpp_fileserver_start_with_password`. -/
def fileserverStartWithPassword (password : Option String) (random : String) (env : StartEnv)
    (s : Servers) : FileServerResult × Servers :=
  if !s.fs.initialized then (.notInitialized, s)
  else if s.fs.state = .running then (.ok, s)
  else
    match password with
    | none => startServerImpl random env s
    | some password =>
        if password = "" then startServerImpl random env s
        else startServerImpl (cutTo passMax password) env s

/-- `jpp_fileserver_stop`. -/
def fileserverStop (exits : Bool) (s : Servers) : FileServerResult × Servers :=
  if !s.fs.initialized then (.notInitialized, s)
  else if s.fs.state ≠ .running then (.ok, s)
  else
    match stopServer exits s with
    | (.ok, s) => (.ok, { s with fs := { s.fs with state := .stopped, password := "" } })
    | (_, s) => (.stopFailed, s)

/-- The configuration of the verification server. -/
def lrvConfig : ServerConfig where
  owner := some "lrv"
  port := lrvServerPort
  stackBytes := lrvStackBytes
  recvTimeoutS := 15
  sendTimeoutS := 10
  handler := some .lrvDispatch
  userCtx := none

/-- `jpp_lrv_server_start`, with the answers of `jpp_lrv_has_data` and `wifi_is_connected`, and
the address that `get_local_ip` finds. -/
def lrvServerStart (hasData connected : Bool) (ip : String) (env : StartEnv) (s : Servers) :
    LrvServerResult × Servers :=
  if !hasData then (.errNoData, s)
  else if !connected then (.errNoWifi, s)
  else if s.fs.state = .running then (.errWebdavRunning, s)
  else if s.lrv.running then (.ok, s)
  else
    match startServer lrvConfig env s with
    | (.ok, s) => (.ok, { s with lrv := { running := true, rtc := true, ip := ip } })
    | (_, s) => (.errInternal, { s with lrv := { s.lrv with rtc := false, ip := "" } })

/-- `jpp_lrv_server_stop`. -/
def lrvServerStop (exits : Bool) (s : Servers) : Servers :=
  if !s.lrv.running then s
  else
    match stopServer exits s with
    | (.ok, s) => { s with lrv := { running := false, rtc := false, ip := "" } }
    | (_, s) => s

/-- A control block with no task, no lock and no sockets. -/
structure ServerControl.Stopped (srv : ServerControl) : Prop where
  running : srv.running = false
  task : srv.task = false
  sockMtx : srv.sockMtx = false
  listenSock : srv.listenSock = -1
  clientSock : srv.clientSock = -1

/-- The control block stays, or is made anew while no server runs. -/
def ServerControl.Renewed (srv srv' : ServerControl) : Prop :=
  srv' = srv ∨ srv.running = false ∧ srv'.Stopped

/-- What a start that fails leaves of the state before it. -/
structure Servers.Spared (s s' : Servers) : Prop where
  pool : s'.pool = s.pool
  fds : s'.fds = s.fds
  app : s'.app = s.app
  lrv : s'.lrv = s.lrv
  isRunning : s'.srv.isRunning = s.srv.isRunning
  reportedOwner : s'.srv.reportedOwner = s.srv.reportedOwner
  srv : s.srv.Renewed s'.srv
  /-- The file server may be in error. -/
  fs : s'.fs = s.fs ∨ s'.fs = { s.fs with state := .error }

theorem ServerControl.Renewed.running {srv srv' : ServerControl} (h : srv.Renewed srv') :
    srv'.running = srv.running := by
  rcases h with rfl | ⟨hidle, hstopped⟩
  · rfl
  · rw [hidle, hstopped.running]

theorem ServerControl.Renewed.reportedOwner {srv srv' : ServerControl} (h : srv.Renewed srv') :
    srv'.reportedOwner = srv.reportedOwner := by
  rcases h with rfl | ⟨hidle, hstopped⟩
  · rfl
  · simp [ServerControl.reportedOwner, hidle, hstopped.running]

theorem ServerControl.Renewed.serves_iff {srv srv' : ServerControl} (h : srv.Renewed srv')
    (handler : Handler) : srv'.running = true ∧ srv'.handler = some handler ↔
      srv.running = true ∧ srv.handler = some handler := by
  rcases h with rfl | ⟨hidle, hstopped⟩
  · rfl
  · simp [hidle, hstopped.running]

theorem openListener_cases (env : StartEnv) (fds : List Int) :
    env.sizes.listener = false ∧ openListener env fds = (none, fds) ∨
      env.sizes.listener = true ∧ ∃ fd, openListener env fds = (some fd, fd :: fds) := by
  rw [openListener, StartEnv.sizes]
  cases hsocket : env.socket with
  | none => exact .inl ⟨rfl, rfl⟩
  | some fd =>
      cases hbind : env.bind <;> cases hlisten : env.listen <;> simp [closeFd]

/-- Everything `jpp_http_server_start` can do: it refuses; or it has taken the free pool, and
gives it back; or it runs and keeps the pool. -/
theorem startServer_cases (config : ServerConfig) (env : StartEnv) (s : Servers) :
    (∃ result, result ≠ .ok ∧ startServer config env s = (result, s)) ∨
      s.srv.running = false ∧ s.pool.inUse = false ∧
        ((∃ result srv, result ≠ .ok ∧ srv.Stopped ∧
            startServer config env s =
              (result, { s with srv := srv, pool := release s.pool })) ∨
          ∃ srv pool fds, srv.running = true ∧ srv.handler = config.handler ∧
            pool.inUse = true ∧
            startServer config env s = (.ok, { s with srv := srv, pool := pool, fds := fds })) := by
  rw [startServer]
  split
  · exact .inl ⟨.errArg, by decide, rfl⟩
  split
  · exact .inl ⟨.errAlreadyRunning, by decide, rfl⟩
  rename_i hrunning
  simp only
  rcases acquireAs_cases (some (config.owner.getD "httpd")) 0 s.pool with heq | ⟨heq, hfree, -⟩
  · rw [heq]
    exact .inl ⟨.errPoolBusy, by decide, rfl⟩
  rw [heq]
  refine .inr ⟨by simpa using hrunning, hfree, ?_⟩
  simp only
  split
  · exact .inl ⟨.errNoMemory, _, by decide, ⟨rfl, rfl, rfl, rfl, rfl⟩, rfl⟩
  rename_i carved hcarve
  have hcarved : carved.inUse = true := carve_inUse hcarve
  rcases openListener_cases env s.fds with ⟨-, hlisten⟩ | ⟨-, fd, hlisten⟩
  · rw [hlisten]
    exact .inl ⟨.errSocket, _, by decide, ⟨rfl, rfl, rfl, rfl, rfl⟩, rfl⟩
  rw [hlisten]
  simp only
  split
  · rw [closeFd, List.erase_cons_head]
    exact .inl ⟨.errTask, _, by decide, ⟨rfl, rfl, rfl, rfl, rfl⟩, rfl⟩
  · exact .inr ⟨_, carved, _, rfl, rfl, hcarved, rfl⟩

/-- The control block knows nothing of the file server. -/
theorem startServer_fs (config : ServerConfig) (env : StartEnv) (s : Servers) :
    (startServer config env s).2.fs = s.fs := by
  rcases startServer_cases config env s with
    ⟨result, -, heq⟩ | ⟨-, -, ⟨result, srv, -, -, heq⟩ | ⟨srv, pool, fds, -, -, -, heq⟩⟩ <;>
  rw [heq]

theorem stopServer_fs (exits : Bool) (s : Servers) : (stopServer exits s).2.fs = s.fs := by
  rw [stopServer]
  split
  · rfl
  · split <;> rfl

/-- The start that the apps and the main loop know of is this one. -/
theorem startServer_shares (config : ServerConfig) (env : StartEnv) (s : Servers) {shared : Shared}
    (hpool : shared.pool = s.pool) (hserver : shared.server = s.srv.running) :
    serverStart ⟨config.handler.isSome && config.port != 0, config.owner, config.stackBytes⟩
        env.sizes shared =
      ((startServer config env s).1,
        { shared with
          pool := (startServer config env s).2.pool
          server := (startServer config env s).2.srv.running }) := by
  rw [serverStart, startServer, hserver, hpool]
  have hvalid : (config.handler = none ∨ config.port = 0) ↔
      (!(config.handler.isSome && config.port != 0)) = true := by
    cases config.handler <;> simp
  by_cases hbad : config.handler = none ∨ config.port = 0
  · rw [if_pos hbad, if_pos (hvalid.mp hbad), ← hpool, ← hserver]
  rw [if_neg hbad, if_neg (fun h => hbad (hvalid.mpr h))]
  by_cases hrunning : s.srv.running = true
  · rw [if_pos hrunning, if_pos hrunning, ← hpool, ← hserver]
  rw [if_neg hrunning, if_neg hrunning]
  have hidle : s.srv.running = false := by simpa using hrunning
  rcases hacquired : acquireAs (some (config.owner.getD "httpd")) 0 s.pool with ⟨_ | block, pool⟩
  · simp [hacquired]
  simp only [hacquired]
  cases carve (if config.stackBytes != 0 then config.stackBytes else 8192) env.sizes pool with
  | none => simp [preparedControl, ServerControl.zero, hidle]
  | some carved =>
      simp only
      rcases openListener_cases env s.fds with ⟨hlistener, hlisten⟩ | ⟨hlistener, fd, hlisten⟩
      · simp only [hlisten, hlistener]
        simp [preparedControl, ServerControl.zero, hidle]
      · have hcreated : env.sizes.created = env.created := rfl
        simp only [hlisten, hlistener, hcreated]
        cases env.created <;> simp [preparedControl, ServerControl.zero, hidle]

theorem startServer_shares_webdav :
    let env : StartEnv := ⟨352, 8192, some 3, true, true, true⟩
    let started := startServer (webdavConfig 80) env .boot
    serverStart ⟨true, some "webdav", webdavStackBytes⟩ env.sizes .boot =
      (started.1,
        { Shared.boot with pool := started.2.pool, server := started.2.srv.running }) :=
  @startServer_shares (webdavConfig 80) ⟨352, 8192, some 3, true, true, true⟩ .boot .boot rfl rfl

end Pool
end JppDos
