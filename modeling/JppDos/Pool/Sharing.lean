import JppDos.Lib.Machine
import JppDos.Pool.AppPool
import JppDos.Sdk.Broker

/-!
# Apps, servers and the main loop

The task of an app takes the pool while it is being loaded and gives it back on its own way
out, and holds a broker lock during each of its calls.  The main loop deletes the task when
it decides to, wherever the task stands then.  The HTTP servers hold the same pool.

Main fact:
* `serverStart_pool`: a server that does not start gives the pool back.
-/

namespace JppDos
namespace Pool

open Sdk

/-- Where `sd_app_task_fn` stands. -/
inductive TaskPos
  /-- The loader or the runner has not reached the pool. -/
  | entered
  /-- The pool is taken; the image is copied or the interpreter set up. -/
  | loading
  /-- The code of the app runs, inside the calls on these resources. -/
  | running (calls : List String)
  /-- The code has returned or the loading failed; the pool is still taken. -/
  | leaving
  /-- The pool is given back or was never taken. -/
  | freed
  /-- `close_requested` is set by the task. -/
  | closing
  /-- `vTaskSuspend`. -/
  | suspended
  deriving DecidableEq

/-- The task has taken the pool and not given it back. -/
def TaskPos.HoldsPool : TaskPos → Prop
  | .loading | .running _ | .leaving => True
  | .entered | .freed | .closing | .suspended => False

/-- The calls under way. -/
def TaskPos.calls : TaskPos → List String
  | .running calls => calls
  | _ => []

/-- The task behind `s_sd_task`. -/
structure AppTask where
  native : Bool
  background : Bool
  pos : TaskPos
  deriving DecidableEq

/-- What apps, servers and the main loop share. -/
structure Shared where
  pool : AppPool
  /-- `s_broker_locks` -/
  locks : LockSet
  /-- `s_srv.running` -/
  server : Bool
  /-- `s_sd_task` -/
  task : Option AppTask
  /-- `s_sd_ctx.close_requested` -/
  closeRequested : Bool
  /-- `s_bg_run_active` -/
  bgRunActive : Bool
  /-- `s_bg_run_done` -/
  bgRunDone : Bool
  deriving DecidableEq

/-- The device after start-up. -/
def Shared.boot : Shared where
  pool := .boot
  locks := []
  server := false
  task := none
  closeRequested := false
  bgRunActive := false
  bgRunDone := false

/-- The first half of `jpp_broker_run_exclusive`: the lock set with the lock taken, or `none`
when the resource is busy or the table full. -/
def lockEnter (resource : String) (locks : LockSet) : Option LockSet :=
  match findLock locks resource with
  | some entry => if entry.locked then none else some (setLocked resource true locks)
  | none =>
      if lockCapacity ≤ locks.length then none
      else some (setLocked resource true (locks ++ [{ resource := resource, locked := false }]))

/-- What the task of an app can do next. -/
inductive TaskStep
  /-- The file of a native app is refused before the pool is reached. -/
  | refuse
  /-- `jpp_app_pool_acquire`. -/
  | acquire (needBytes : UInt32)
  /-- The rest of the loading succeeds or fails. -/
  | load (ok : Bool)
  /-- The app calls a service that runs under the lock of a resource. -/
  | enter (resource : String)
  /-- The innermost call returns. -/
  | leave
  /-- `jpp_sdk_request_close`. -/
  | requestClose
  /-- The code of the app returns. -/
  | finish
  /-- `jpp_app_pool_release` of `jpp_native_loader_free` or of the runner. -/
  | free
  /-- The end of `sd_app_task_fn`: `close_requested`, then `s_bg_run_done`. -/
  | close
  | suspend
  deriving DecidableEq

/-- The task moves on. -/
def Shared.at (s : Shared) (t : AppTask) (pos : TaskPos) : Shared :=
  { s with task := some { t with pos := pos } }

/-- One step of `sd_app_task_fn`, with the functions it calls; a step that does not fit where
the task stands does nothing. -/
def taskStep (t : AppTask) (s : Shared) : TaskStep → Shared
  | .refuse => if t.pos = .entered ∧ t.native = true then s.at t .freed else s
  | .acquire needBytes =>
      if t.pos = .entered then
        match acquire needBytes s.pool with
        | (some _, pool) => { s with pool := pool }.at t .loading
        | (none, pool) => { s with pool := pool }.at t .freed
      else s
  | .load ok =>
      if t.pos = .loading then s.at t (if ok then .running [] else .leaving) else s
  | .enter resource =>
      match t.pos with
      | .running calls =>
          match lockEnter resource s.locks with
          | some locks => { s with locks := locks }.at t (.running (resource :: calls))
          | none => s
      | _ => s
  | .leave =>
      match t.pos with
      | .running (resource :: calls) =>
          { s with locks := setLocked resource false s.locks }.at t (.running calls)
      | _ => s
  | .requestClose =>
      match t.pos with
      | .running _ => { s with closeRequested := true }
      | _ => s
  | .finish => if t.pos = .running [] then s.at t .leaving else s
  | .free => if t.pos = .leaving then { s with pool := release s.pool }.at t .freed else s
  | .close => if t.pos = .freed then { s with closeRequested := true }.at t .closing else s
  | .suspend =>
      if t.pos = .closing then
        { s with bgRunDone := if t.background then true else s.bgRunDone }.at t .suspended
      else s

/-- `jpp_http_result_t`, as far as starting and stopping go. -/
inductive HttpResult
  | ok
  | errArg
  | errAlreadyRunning
  | errNotRunning
  | errPoolBusy
  | errNoMemory
  | errSocket
  | errTask
  | errStopTimeout
  deriving DecidableEq

/-- What `jpp_http_server_start` reads of its configuration; `valid` says that there is a
handler and a port. -/
structure HttpConfig where
  valid : Bool
  owner : Option String
  stackBytes : UInt32

/-- The sizes of the task and connection records, and what the network and the scheduler
answer. -/
structure HttpEnv where
  tcbBytes : UInt32
  connBytes : UInt32
  listener : Bool
  created : Bool

/-- `io_size` of `jpp_http_server_start`. -/
def ioBytes (pool : AppPool) : UInt32 :=
  let ioSize := avail pool &&& ~~~0x1FF
  if ioSize > 32 * 1024 then 32 * 1024 else ioSize

/-- The carving of `jpp_http_server_start`: the control block, the stack, the connection, its
request and header buffers and all that is left for the I/O buffer. -/
def carve (stackBytes : UInt32) (env : HttpEnv) (pool : AppPool) : Option AppPool :=
  let (tcb, pool) := alloc env.tcbBytes 16 pool
  let (stack, pool) := alloc stackBytes 16 pool
  let (conn, pool) := alloc env.connBytes 16 pool
  if tcb.isNone || stack.isNone || conn.isNone then none
  else
    let (reqBuf, pool) := alloc 4096 4 pool
    let (respHdr, pool) := alloc 512 4 pool
    if reqBuf.isNone || respHdr.isNone then none
    else
      if ioBytes pool < 4096 then none
      else
        match alloc (ioBytes pool) 16 pool with
        | (some _, pool) => some pool
        | (none, _) => none

/-- `jpp_http_server_start`. -/
def serverStart (config : HttpConfig) (env : HttpEnv) (s : Shared) : HttpResult × Shared :=
  if !config.valid then (.errArg, s)
  else if s.server then (.errAlreadyRunning, s)
  else
    let stackBytes := if config.stackBytes != 0 then config.stackBytes else 8192
    match acquireAs (some (config.owner.getD "httpd")) 0 s.pool with
    | (none, pool) => (.errPoolBusy, { s with pool := pool })
    | (some _, pool) =>
        match carve stackBytes env pool with
        | none => (.errNoMemory, { s with pool := release pool })
        | some pool =>
            if !env.listener then (.errSocket, { s with pool := release pool })
            else if !env.created then (.errTask, { s with pool := release pool })
            else (.ok, { s with pool := pool, server := true })

/-- `jpp_http_server_stop`; `exited` says that the server's task ends in time. -/
def serverStop (exited : Bool) (s : Shared) : HttpResult × Shared :=
  if !s.server then (.errNotRunning, s)
  else if !exited then (.errStopTimeout, s)
  else (.ok, { s with pool := release s.pool, server := false })

/-- `launch_app_from` up to the creation of the task: how it ends. -/
structure Launch where
  native : Bool
  /-- Manifest, preflight and virtual machine are in order. -/
  prepared : Bool
  /-- The context takes the app, and forgets the one before. -/
  bound : Bool
  created : Bool

/-- `launch_app_from`. -/
def launchAppFrom (how : Launch) (background : Bool) (s : Shared) : Bool × Shared :=
  if !how.prepared then (false, s)
  else
    let s := { s with closeRequested := if how.bound then false else s.closeRequested }
    let s := if background then { s with bgRunActive := true, bgRunDone := false } else s
    if !how.created then (false, s)
    else (true, { s with task := some ⟨how.native, background, .entered⟩ })

/-- `jpp_app_bg_launch`. -/
def appBgLaunch (how : Launch) (s : Shared) : Bool × Shared :=
  if s.task.isSome || s.bgRunActive then (false, s)
  else
    match launchAppFrom how true s with
    | (true, s) => (true, s)
    | (false, s) => (false, { s with bgRunActive := false })

/-- `teardown_sd_app`. -/
def teardownSdApp (s : Shared) : Shared := { s with task := none }

/-- `jpp_app_bg_teardown`. -/
def appBgTeardown (s : Shared) : Shared :=
  { s with task := none, bgRunActive := false, bgRunDone := false }

/-- What can happen next: the task of the app or the main loop does something. -/
inductive Step
  | task (what : TaskStep)
  /-- The screen of an app is open and no task is there. -/
  | launch (how : Launch)
  /-- The screen of an app is open while a background run is on. -/
  | preempt
  /-- The background run has finished. -/
  | collect
  /-- The background run is over its quota: the device restarts. -/
  | overrun
  /-- A background run is due. -/
  | due (how : Launch)
  /-- The app in the foreground asks to be closed. -/
  | close
  | serverStart (config : HttpConfig) (env : HttpEnv)
  | serverStop (exited : Bool)

/-- One step, with the conditions of `run_main_loop`. -/
def sharedStep (s : Shared) : Step → Shared × List Empty
  | .task what =>
      match s.task with
      | some t => (taskStep t s what, [])
      | none => (s, [])
  | .launch how =>
      if s.task.isNone && !s.bgRunActive then ((launchAppFrom how false s).2, []) else (s, [])
  | .preempt => if s.bgRunActive then (appBgTeardown s, []) else (s, [])
  | .collect => if s.bgRunActive && s.bgRunDone then (appBgTeardown s, []) else (s, [])
  | .overrun => if s.bgRunActive && !s.bgRunDone then (.boot, []) else (s, [])
  | .due how =>
      if s.task.isNone && !s.bgRunActive && !s.server then ((appBgLaunch how s).2, [])
      else (s, [])
  | .close =>
      if s.task.isSome && !s.bgRunActive && s.closeRequested then (teardownSdApp s, [])
      else (s, [])
  | .serverStart config env => ((serverStart config env s).2, [])
  | .serverStop exited => ((serverStop exited s).2, [])

/-- The locked entries are those of the calls under way. -/
structure Accounts (locks : LockSet) (calls : List String) : Prop where
  names : (locks.map LockEntry.resource).Nodup
  calls_nodup : calls.Nodup
  known : ∀ r ∈ calls, r ∈ locks.map LockEntry.resource
  locked : ∀ e ∈ locks, e.locked = true ↔ e.resource ∈ calls

theorem Accounts.nil : Accounts [] [] := ⟨.nil, .nil, nofun, nofun⟩

theorem Accounts.idle {locks : LockSet} (h : Accounts locks []) : Idle locks := fun e he => by
  have hlocked := h.locked e he
  simpa using hlocked

/-- With distinct names, writing a lock writes every entry of that name. -/
theorem setLocked_eq_map {locks : LockSet} (h : (locks.map LockEntry.resource).Nodup)
    (resource : String) (b : Bool) :
    setLocked resource b locks =
      locks.map fun e => if e.resource = resource then { e with locked := b } else e := by
  induction locks with
  | nil => rfl
  | cons e locks ih =>
      obtain ⟨hnew, hrest⟩ := List.nodup_cons.mp h
      rw [setLocked, List.map_cons]
      by_cases he : e.resource = resource
      · have hother : ∀ e' ∈ locks, e'.resource ≠ resource := fun e' he' heq =>
          hnew (List.mem_map.mpr ⟨e', he', heq.trans he.symm⟩)
        rw [if_pos (beq_iff_eq.mpr he), if_pos he]
        congr 1
        exact (List.map_id' locks).symm.trans
          (List.map_congr_left fun e' he' => (if_neg (hother e' he')).symm)
      · rw [if_neg (by simpa using he), if_neg he, ih hrest]

@[simp] theorem map_resource_setLocked (resource : String) (b : Bool) (locks : LockSet) :
    (setLocked resource b locks).map LockEntry.resource = locks.map LockEntry.resource := by
  induction locks with
  | nil => rfl
  | cons e locks ih =>
      rw [setLocked]
      split
      · rfl
      · rw [List.map_cons, List.map_cons, ih]

theorem Accounts.lock {locks : LockSet} {calls : List String} (h : Accounts locks calls)
    {resource : String} (hknown : resource ∈ locks.map LockEntry.resource)
    (hout : resource ∉ calls) : Accounts (setLocked resource true locks) (resource :: calls) where
  names := by simpa using h.names
  calls_nodup := List.nodup_cons.mpr ⟨hout, h.calls_nodup⟩
  known r hr := by
    rw [map_resource_setLocked]
    rcases List.mem_cons.mp hr with rfl | hr
    · exact hknown
    · exact h.known r hr
  locked e he := by
    rw [setLocked_eq_map h.names] at he
    obtain ⟨e', he', rfl⟩ := List.mem_map.mp he
    by_cases hname : e'.resource = resource
    · simp [hname]
    · simpa [hname] using h.locked e' he'

theorem Accounts.register {locks : LockSet} {calls : List String} (h : Accounts locks calls)
    {resource : String} (hnew : resource ∉ locks.map LockEntry.resource) :
    Accounts (locks ++ [{ resource := resource, locked := false }]) calls where
  names := by
    rw [List.map_append]
    refine List.nodup_append.mpr ⟨h.names, List.nodup_cons.mpr ⟨List.not_mem_nil, .nil⟩, ?_⟩
    intro a ha b hb hab
    have hresource : b = resource := by simpa using hb
    exact hnew (hresource ▸ hab ▸ ha)
  calls_nodup := h.calls_nodup
  known r hr := by
    rw [List.map_append]
    exact List.mem_append_left _ (h.known r hr)
  locked e he := by
    rcases List.mem_append.mp he with he | he
    · exact h.locked e he
    · rw [List.mem_singleton.mp he]
      constructor
      · nofun
      · exact fun hr => absurd (h.known _ hr) hnew

theorem Accounts.enter {locks locks' : LockSet} {calls : List String} (h : Accounts locks calls)
    {resource : String} (henter : lockEnter resource locks = some locks') :
    Accounts locks' (resource :: calls) := by
  rw [lockEnter] at henter
  split at henter
  · rename_i entry hfind
    have hmem := List.mem_of_find?_eq_some hfind
    have hname : entry.resource = resource := by simpa using List.find?_some hfind
    split at henter
    · cases henter
    · rename_i hfree
      cases henter
      refine h.lock (List.mem_map.mpr ⟨entry, hmem, hname⟩) fun hin => hfree ?_
      exact (h.locked entry hmem).mpr (hname ▸ hin)
  · rename_i hfind
    have hnew : resource ∉ locks.map LockEntry.resource := fun hin => by
      obtain ⟨e, he, hname⟩ := List.mem_map.mp hin
      have hno := List.find?_eq_none.mp hfind e he
      exact hno (by simpa using hname)
    split at henter
    · cases henter
    · cases henter
      refine (h.register hnew).lock ?_ fun hin => hnew (h.known _ hin)
      simp

theorem Accounts.leave {locks : LockSet} {resource : String} {calls : List String}
    (h : Accounts locks (resource :: calls)) :
    Accounts (setLocked resource false locks) calls where
  names := by simpa using h.names
  calls_nodup := (List.nodup_cons.mp h.calls_nodup).2
  known r hr := by
    rw [map_resource_setLocked]
    exact h.known r (List.mem_cons_of_mem _ hr)
  locked e he := by
    rw [setLocked_eq_map h.names] at he
    obtain ⟨e', he', rfl⟩ := List.mem_map.mp he
    by_cases hname : e'.resource = resource
    · simp [hname, (List.nodup_cons.mp h.calls_nodup).1]
    · simpa [hname] using h.locked e' he'

/-- `jpp_broker_run_exclusive` takes the lock, runs the operation and leaves the lock. -/
theorem runExclusive_eq {π σ : Type} (literal : String → π) (resource : String)
    (operation : σ → BrokerStatus × BrokerResult π × σ) {locks held : LockSet}
    (h : lockEnter resource locks = some held) (s : σ) :
    runExclusive literal resource operation locks s =
      ((operation s).1, some (operation s).2.1, setLocked resource false held,
        (operation s).2.2) := by
  rw [lockEnter] at h
  rw [runExclusive]
  split at h
  · rename_i hfind
    split at h
    · cases h
    · rename_i hfree
      cases h
      simp [hfind, hfree, runLocked]
  · rename_i hfind
    split at h
    · cases h
    · rename_i hroom
      cases h
      simp [hfind, hroom, runLocked]

theorem alloc_inUse (bytes align : UInt32) (pool : AppPool) :
    (alloc bytes align pool).2.inUse = pool.inUse := by
  rcases alloc_cases bytes align pool with heq | ⟨start, heq, -⟩ <;> rw [heq]

theorem carve_inUse {stackBytes : UInt32} {env : HttpEnv} {pool pool' : AppPool}
    (h : carve stackBytes env pool = some pool') : pool'.inUse = pool.inUse := by
  simp only [carve] at h
  split at h
  · cases h
  · split at h
    · cases h
    · split at h
      · cases h
      · split at h
        · rename_i halloc
          have hlast := congrArg (fun r => r.2.inUse) halloc
          simp only [alloc_inUse] at hlast
          rw [← Option.some.inj h, ← hlast]
        · cases h

/-- A server starts on a free pool and holds it, or leaves the pool as it was. -/
theorem serverStart_pool (config : HttpConfig) (env : HttpEnv) (s : Shared) :
    (serverStart config env s).2 = s ∨
      s.server = false ∧ s.pool.inUse = false ∧
        ((serverStart config env s).2 = { s with pool := release s.pool } ∨
          ∃ pool, pool.inUse = true ∧
            (serverStart config env s).2 = { s with pool := pool, server := true }) := by
  rw [serverStart]
  split
  · exact .inl rfl
  · split
    · exact .inl rfl
    · rename_i hserver
      simp only
      rcases acquireAs_cases (some (config.owner.getD "httpd")) 0 s.pool with
        heq | ⟨heq, hfree, -⟩
      · rw [heq]
        exact .inl rfl
      · rw [heq]
        refine .inr ⟨by simpa using hserver, hfree, ?_⟩
        simp only
        split
        · exact .inl rfl
        · rename_i pool hcarve
          split
          · exact .inl rfl
          · split
            · exact .inl rfl
            · exact .inr ⟨pool, carve_inUse hcarve, rfl⟩

/-- What `launch_app_from` leaves. -/
theorem launchAppFrom_cases (how : Launch) (background : Bool) (s : Shared) :
    (launchAppFrom how background s).2 = s ∨
      ∃ s', (launchAppFrom how background s).2 = s' ∧ s'.pool = s.pool ∧ s'.server = s.server ∧
        s'.locks = s.locks ∧
        (s'.task = s.task ∨ s'.task = some ⟨how.native, background, .entered⟩) ∧
        (background = true → s'.bgRunActive = true) ∧
        (s'.bgRunDone = s.bgRunDone ∨ s'.bgRunDone = false) := by
  rw [launchAppFrom]
  split
  · exact .inl rfl
  · refine .inr ⟨_, rfl, ?_⟩
    cases background <;> cases how.created <;> simp

theorem launchAppFrom_failed {how : Launch} {background : Bool} {s s' : Shared}
    (h : launchAppFrom how background s = (false, s')) : s'.task = s.task := by
  rw [Pool.launchAppFrom] at h
  split at h
  · cases h
    rfl
  · simp only at h
    split at h
    · cases background <;> cases h <;> rfl
    · cases h

end Pool
end JppDos
