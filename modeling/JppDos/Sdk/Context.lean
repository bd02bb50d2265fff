import Mathlib.Algebra.Order.Ring.Nat
import JppDos.Lib.Triple
import JppDos.Sdk.Broker
import JppDos.Sdk.Grants

/-!
# The context of an app

What the firmware keeps for the running app: its identity, the pointers to the capabilities
it has been granted, the table of the pending ones, its handles and its key queue; how an
app is bound to it, and how a capability is asked for.

Main fact:
* `sdkBindNative_ok`: what a context holds when an app has been bound to it.
-/

namespace JppDos
namespace Sdk

open CText Prog

/-- `jpp_sdk_key_event_t`. -/
inductive Key
  | none
  | up
  | down
  | left
  | right
  | ok
  | okLong
  | okHold
  | okDouble
  deriving DecidableEq

/-- An element of the key queue; the flag says that the app itself has put it there. -/
structure QueuedKey where
  key : Key
  pushed : Bool
  deriving DecidableEq

/-- The capacity of the key queue. -/
def keyQueueCapacity : Nat := 8

/-- `jpp_sdk_push_key` on the queue of a context; `none` is the null pointer. -/
def pushToQueue (queue : Option (List QueuedKey)) (k : QueuedKey) : Option (List QueuedKey) :=
  queue.map fun keys => if keys.length < keyQueueCapacity then keys ++ [k] else keys

/-- The loop of `jpp_sdk_confirm` over the keys that arrive: the answer, whether all the
keys it read were the user's, and the keys it left.  With no key left it waits. -/
def confirmLoop (allow byUser : Bool) : List QueuedKey → Option (Bool × Bool × List QueuedKey)
  | [] => none
  | k :: rest =>
      let byUser := byUser && !k.pushed
      match k.key with
      | .left => confirmLoop false byUser rest
      | .right => confirmLoop true byUser rest
      | .ok => some (allow, byUser, rest)
      | .okLong => some (false, byUser, rest)
      | _ => confirmLoop allow byUser rest

/-- A dialog that reads no key of the app is answered by the user. -/
theorem confirmLoop_byUser {keys : List QueuedKey} (h : ∀ k ∈ keys, k.pushed = false)
    (allow : Bool) {answer : Bool × Bool × List QueuedKey}
    (hanswer : confirmLoop allow true keys = some answer) :
    answer.2.1 = true ∧ ∀ k ∈ answer.2.2, k.pushed = false := by
  induction keys generalizing allow with
  | nil => exact absurd hanswer (by simp [confirmLoop])
  | cons k rest ih =>
      obtain ⟨hk, hrest⟩ := List.forall_mem_cons.mp h
      simp only [confirmLoop, hk, Bool.not_false, Bool.and_true] at hanswer
      split at hanswer
      · exact ih hrest false hanswer
      · exact ih hrest true hanswer
      · rw [← Option.some.inj hanswer]
        exact ⟨rfl, hrest⟩
      · rw [← Option.some.inj hanswer]
        exact ⟨rfl, hrest⟩
      · exact ih hrest allow hanswer

/-- `jpp_sdk_open_mode_t`. -/
inductive OpenMode
  | read
  | write
  deriving DecidableEq

/-- The callbacks of `jpp_sdk_native_services_t` and `jpp_sdk_services_v2_t`. -/
inductive Callback
  | logWriter
  | deviceStatus
  | rtcReader
  | consentPrompt
  | pathPrompt
  | originPrompt
  | readFile
  | writeFile
  | listFiles
  | deleteFile
  | dirList
  | kvRead
  | kvWrite
  | kvDelete
  | bleScan
  | bleAdvertiseStart
  | bleAdvertiseStop
  | bleSetConnectable
  | bleConnect
  | bleReadChar
  | bleWriteChar
  | bleDisconnect
  | bleServiceRegister
  | bleServiceUnregister
  | bleHostSetValue
  | bleHostWaitWrite
  | bleHostClear
  | espnowSend
  | espnowRecv
  | httpRequest
  | httpsRequest
  | netBind
  | netAccept
  | netConnect
  | netRecv
  | netSend
  | netClose
  | moduleLoad
  | moduleRun
  | moduleUnload
  deriving DecidableEq

/-- The calls of the SDK that reach a service or change the context, with the arguments
that decide what they do; `none` is the null pointer. -/
inductive SdkCall
  | requestClose
  | requestCap (cap : Option CStr)
  | pollKey
  | waitKey
  | pushKey (key : Key)
  | log (eventName : Option CStr)
  | deviceStatus
  | getTime
  | kvGet (key : Option CStr)
  | kvSet (key value : Option CStr)
  | kvDelete (key : Option CStr)
  | ipcSend (recipient payload : Option CStr)
  | ipcRecv
  | fileRead (relativePath : Option CStr)
  | fileWrite (relativePath text : Option CStr)
  | fileList (relativeDir : Option CStr)
  | sharedRead (relativePath : Option CStr)
  | sharedWrite (relativePath text : Option CStr)
  | sharedList (relativeDir : Option CStr)
  | fileOpen (path : Option CStr) (mode : Option OpenMode)
  | handleRead (handle : Nat)
  | handleWrite (handle : Nat) (text : Option CStr)
  | handleList (handle : Nat)
  | handleClose (handle : Nat)
  | filePick
  | backgroundRegister
  | bleScan
  | bleAdvertiseStart (payloadLen : Nat)
  | bleAdvertiseStop
  | bleSetConnectable
  | bleConnect (address : Option CStr)
  | bleReadChar (conn : Nat)
  | bleWriteChar (conn : Nat)
  | bleDisconnect (conn : Nat)
  | bleServiceRegister (svcUuid : Option CStr)
  | bleServiceUnregister
  | bleHostSetValue
  | bleHostWaitWrite
  | bleHostClear
  | espnowSend (dataLen : Nat)
  | espnowRecv
  | httpRequest (method url : Option CStr)
  | httpsRequest (method url : Option CStr) (body : Option CStr)
  | netBind (port : Nat)
  | netAccept
  | netConnect (host : Option CStr) (port : Nat)
  | netRecv
  | netSend
  | netClose
  | moduleLoad (relativePath : Option CStr)
  | moduleRun
  | moduleUnload
  deriving DecidableEq

/-- What an app's calls have done outside of its memory. -/
inductive SdkEvent
  /-- The user is asked for a capability of the given tier. -/
  | prompt (cap : CStr) (tier : Nat)
  /-- The answer to such a question, and whether the user gave it. -/
  | consent (cap : CStr) (tier : Nat) (granted byUser : Bool)
  /-- A service that a call has reached, with the path it was given. -/
  | service (call : SdkCall) (callback : Callback) (path : Option (List UInt8))
  /-- The session has asked for its own end. -/
  | close
  deriving DecidableEq

/-- A pointer to a capability: into the buffer of the manifest or into the context's own
table of pending capabilities. -/
inductive CapPtr
  | manifest (slot : Nat)
  | pending (slot : Nat)
  deriving DecidableEq

/-- `JPP_SDK_HANDLE_CAPACITY`. -/
def handleCapacity : Nat := 4

/-- `JPP_SDK_BLE_CONN_CAPACITY`. -/
def bleConnCapacity : Nat := 2

/-- `jpp_sdk_context_t`, with the entries of the pending table and their tiers; the
callbacks that are not null, in both tables of services. -/
structure Context where
  appId : CStr
  bound : Bool
  granted : List CapPtr
  pendingTable : List (CStr × Nat)
  pendingCount : Nat
  handles : List (Option (CStr × OpenMode))
  bleConns : List (Option CStr)
  bleHostRegistered : Bool
  closeRequested : Bool
  keyQueue : Option (List QueuedKey)
  hasLocks : Bool
  services : List Callback
  servicesV2 : List Callback
  deriving DecidableEq

/-- The context before the first launch. -/
def Context.zero : Context where
  appId := lit ""
  bound := false
  granted := []
  pendingTable := []
  pendingCount := 0
  handles := List.replicate handleCapacity none
  bleConns := List.replicate bleConnCapacity none
  bleHostRegistered := false
  closeRequested := false
  keyQueue := none
  hasLocks := false
  services := []
  servicesV2 := []

/-- `jpp_sdk_context_init`. -/
def contextInit : Context := { Context.zero with keyQueue := some [] }

/-- The app's side of the device: the context, the capability texts of the static manifest
buffer, the flag of a headless run, the grant files, the broker's locks, and what the
session has done so far. -/
structure SdkState where
  ctx : Context
  capStrs : List CStr
  bgRunActive : Bool
  files : GrantFiles
  locks : LockSet
  events : List SdkEvent

/-- The text that a capability pointer leads to. -/
def SdkState.deref (m : SdkState) : CapPtr → CStr
  | .manifest slot => m.capStrs.getD slot (lit "")
  | .pending slot => (m.ctx.pendingTable.getD slot (lit "", 0)).1

/-- The texts of the granted list. -/
def SdkState.grantedCaps (m : SdkState) : List CStr := m.ctx.granted.map m.deref

/-- The used entries of the pending table. -/
def SdkState.pendingCaps (m : SdkState) : List (CStr × Nat) :=
  m.ctx.pendingTable.take m.ctx.pendingCount

/-- `jpp_broker_caller_has_capability`. -/
def SdkState.hasCapability (m : SdkState) (cap : CStr) : Bool := m.grantedCaps.contains cap

/-- `jpp_sdk_bind_native`, for a caller with the capabilities in the given slots of the
manifest's buffer. -/
def sdkBindNative (ctx : Context) (appId : CStr) (caller : List Nat) (hasLocks : Bool)
    (services : List Callback) : SdkStatus × Context :=
  if !appIdIsValid appId then (.invalidArgument, ctx)
  else if appIdMax ≤ appId.strlen then
    (.textTruncated, { contextInit with appId := appId.strncpy appIdMax })
  else
    (.ok,
      { contextInit with
        appId := appId
        granted := (caller.take pendingCapMax).map .manifest
        hasLocks := hasLocks
        services := services
        bound := true })

theorem sdkBindNative_eq_ok (ctx : Context) (appId : CStr) (caller : List Nat) (hasLocks : Bool)
    (services : List Callback) :
    (sdkBindNative ctx appId caller hasLocks services).1 = .ok ↔
      appIdIsValid appId = true ∧ appId.strlen < appIdMax := by
  rw [sdkBindNative]
  split
  · rename_i hbad
    simp only [Bool.not_eq_true'] at hbad
    simp [hbad]
  · rename_i hvalid
    simp only [Bool.not_eq_true', Bool.not_eq_false] at hvalid
    split
    · rename_i hlong
      simp [Nat.not_lt.mpr hlong]
    · rename_i hshort
      simp [hvalid, Nat.not_le.mp hshort]

/-- What a context holds when an app has been bound to it. -/
theorem sdkBindNative_ok {ctx : Context} {appId : CStr} {caller : List Nat} {hasLocks : Bool}
    {services : List Callback} (hvalid : appIdIsValid appId = true)
    (hlen : appId.strlen < appIdMax) :
    sdkBindNative ctx appId caller hasLocks services =
      (.ok,
        { contextInit with
          appId := appId
          granted := (caller.take pendingCapMax).map .manifest
          hasLocks := hasLocks
          services := services
          bound := true }) := by
  rw [sdkBindNative, if_neg (by simp [hvalid]), if_neg (Nat.not_le.mpr hlen)]

/-- A refused bind leaves an unbound context, or the context as it was. -/
theorem sdkBindNative_refused {ctx : Context} {appId : CStr} {caller : List Nat}
    {hasLocks : Bool} {services : List Callback}
    (h : (sdkBindNative ctx appId caller hasLocks services).1 ≠ .ok) :
    ((sdkBindNative ctx appId caller hasLocks services).2.bound = false ∧
        (sdkBindNative ctx appId caller hasLocks services).2.granted = []) ∨
      appIdIsValid appId = false ∧
        (sdkBindNative ctx appId caller hasLocks services).2 = ctx := by
  rw [sdkBindNative] at h ⊢
  split
  · rename_i hbad
    exact Or.inr ⟨by simpa using hbad, rfl⟩
  · rename_i hvalid
    rw [if_neg hvalid] at h
    split
    · exact Or.inl ⟨rfl, rfl⟩
    · rename_i hshort
      rw [if_neg hshort] at h
      exact absurd rfl h

/-- `jpp_sdk_bind`; the flag says whether the task may touch the objects of the VM. -/
def sdkBind (ctx : Context) (canTouch : Bool) (appId : CStr) (caller : List Nat)
    (hasLocks : Bool) (services : List Callback) : SdkStatus × Context :=
  if !canTouch then (.accessDenied, ctx)
  else sdkBindNative ctx appId caller hasLocks services

/-- `jpp_sdk_set_services_v2`. -/
def setServicesV2 (ctx : Context) (services : List Callback) : Context :=
  { ctx with servicesV2 := services }

/-- `jpp_sdk_set_pending_caps`: the table is written from its start, and what stands behind
the new entries stays. -/
def setPendingCaps (ctx : Context) (caps : List (CStr × Nat)) : Context :=
  if caps = [] then ctx
  else
    let entries := (caps.take pendingCapMax).map fun (cap, tier) => (cap.strncpy 32, tier)
    { ctx with
      pendingTable := entries ++ ctx.pendingTable.drop entries.length
      pendingCount := entries.length }

end Sdk
end JppDos
