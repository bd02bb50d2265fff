import JppDos.Lib.Numerals
import JppDos.Sdk.AppPath
import JppDos.Sdk.Context
import JppDos.Sdk.Ipc
import JppDos.Sdk.KvStore

/-!
# The calls of the SDK

The entry points of the SDK as programs over the context: what each of them checks, which
capability it asks for, and the service it reaches.

`runCall` is a call with its arguments and with what the world answers while it runs.
-/

namespace JppDos
namespace Sdk

open CText Numerals Prog

/-- How a call ends without a result: with a status, or not at all, when a dialog waits for
keys that do not come. -/
inductive Stop
  | status (s : SdkStatus)
  | blocked
  deriving DecidableEq

/-- A part of a call of the SDK. -/
abbrev SdkProg := Prog Stop SdkState

/-- What a service hands back. -/
abbrev Answer := BrokerStatus × BrokerResult String

/-- A call, and what the world answers while it runs: whether the pointers that have to be
there before the capability is asked for and behind that are, the keys that arrive while a
dialog for a capability is open and while one for a path or an origin is, whether the origin
has been approved before, and what the services answer. -/
structure SdkInput where
  call : SdkCall
  given : Bool := true
  givenBehind : Bool := true
  capKeys : List Key := []
  scopeKeys : List Key := []
  originSaved : Bool := false
  arrived : Option Key := none
  loaded : Bool := true
  answers : List Answer := []

/-- The answer of the service that is reached as the one with this number. -/
def SdkInput.answer (i : SdkInput) (n : Nat) : Answer := i.answers.getD n (.ok, okResult)

/-- A test of an entry point. -/
def require (cond : Bool) (status : SdkStatus) : SdkProg Unit := check cond (.status status)

/-- Stop with a status. -/
def fail {α : Type} (status : SdkStatus) : SdkProg α := throw (.status status)

/-- `jpp_sdk_ensure_bound`. -/
def ensureBound : SdkProg Unit := do
  let m ← read
  require m.ctx.bound .invalidState

/-- The callbacks that an entry point needs are not null, and the lock set is there. -/
def needServices (callbacks : List Callback) : SdkProg Unit := do
  let m ← read
  require (m.ctx.hasLocks && callbacks.all (m.ctx.services ++ m.ctx.servicesV2).contains)
    .invalidState

/-- The same for an entry point that takes no lock. -/
def needCallback (callback : Callback) : SdkProg Unit := do
  let m ← read
  require ((m.ctx.services ++ m.ctx.servicesV2).contains callback) .invalidState

/-- Something happens that others see. -/
def emit (e : SdkEvent) : SdkProg Unit := update fun m => { m with events := m.events ++ [e] }

/-- Change the context. -/
def setContext (f : Context → Context) : SdkProg Unit := update fun m => { m with ctx := f m.ctx }

/-- `jpp_sdk_confirm` with `default_allow` false, with the keys that arrive meanwhile: the
answer, and whether the user gave it. -/
def sdkConfirm (keys : List Key) : SdkProg (Bool × Bool) := do
  let m ← read
  if !m.ctx.bound then pure (false, true)
  else
    match m.ctx.keyQueue with
    | none => throw .blocked
    | some queued =>
        match confirmLoop false true (queued ++ keys.map fun k => ⟨k, false⟩) with
        | none => do
            setContext fun ctx => { ctx with keyQueue := some [] }
            throw .blocked
        | some (allow, byUser, rest) => do
            setContext fun ctx => { ctx with keyQueue := some (rest.take keyQueueCapacity) }
            pure (allow, byUser)

/-- `jpp_app_consent_prompt`. -/
def appConsentPrompt (i : SdkInput) (cap : CStr) (tier : Nat) : SdkProg Bool := do
  emit (.prompt cap tier)
  let m ← read
  if m.bgRunActive then do
    emit (.consent cap tier false true)
    pure false
  else do
    let (granted, byUser) ← sdkConfirm i.capKeys
    emit (.consent cap tier granted byUser)
    if granted && tier == 1 then
      update fun m => { m with files := grantPersist m.files m.ctx.appId cap }
    pure granted

/-- The first entry of the pending table with the given text. -/
def SdkState.pendingSlot (m : SdkState) (cap : CStr) : Option Nat :=
  m.pendingCaps.findIdx? fun p => p.1 = cap

/-- The call of the consent callback; without one nothing is granted. -/
def askUser (i : SdkInput) (cap : CStr) (tier : Nat) : SdkProg Bool := do
  let m ← read
  if m.ctx.services.contains .consentPrompt then appConsentPrompt i cap tier else pure false

/-- The granted list takes a pointer to a slot of the pending table, if there is room. -/
def pushGranted (slot : Nat) : SdkProg Unit := do
  let m ← read
  if m.ctx.granted.length < pendingCapMax then
    setContext fun ctx => { ctx with granted := ctx.granted ++ [.pending slot] }
  else fail .accessDenied

/-- `jpp_sdk_ensure_cap`. -/
def ensureCap (i : SdkInput) (cap : CStr) : SdkProg Unit := do
  let m ← read
  if m.hasCapability cap then pure ()
  else
    match m.pendingSlot cap with
    | none => fail .accessDenied
    | some slot => do
        let granted ← askUser i cap (m.pendingCaps.getD slot (lit "", 0)).2
        require granted .accessDenied
        pushGranted slot

/-- `jpp_broker_run_exclusive` around the callback of a service. -/
def exclusive (i : SdkInput) (n : Nat) (resource : String) (callback : Callback)
    (path : Option (List UInt8)) : SdkProg (BrokerStatus × Option (BrokerResult String)) := do
  let m ← read
  let (status, result, locks, events) :=
    runExclusive (fun s => s) resource
      (fun events => ((i.answer n).1, (i.answer n).2,
        events ++ [.service i.call callback path])) m.locks m.events
  update fun m => { m with locks := locks, events := events }
  pure (status, result)

/-- A service under a lock, at the end of an entry point. -/
def runService (i : SdkInput) (resource : String) (callback : Callback)
    (path : Option (List UInt8)) : SdkProg Unit := do
  let (status, _) ← exclusive i 0 resource callback path
  require (status = .ok) .brokerError

/-- A call of a service that takes no lock. -/
def callService (i : SdkInput) (callback : Callback) (path : Option (List UInt8)) : SdkProg Unit :=
  emit (.service i.call callback path)

/-- `jpp_sdk_request_close`. -/
def sdkRequestClose : SdkProg Unit := do
  ensureBound
  setContext fun ctx => { ctx with closeRequested := true }
  emit .close

/-- `jpp_sdk_request_cap`. -/
def sdkRequestCap (i : SdkInput) (cap : Option CStr) : SdkProg Unit := do
  ensureBound
  match cap with
  | none => fail .invalidArgument
  | some cap => do
      require (cap.val ≠ []) .invalidArgument
      ensureCap i cap

/-- `xQueueReceive` on the key queue, where a key may arrive during the wait. -/
def takeKey (arrived : Option Key) : SdkProg Unit := do
  let m ← read
  match m.ctx.keyQueue with
  | none => fail .invalidState
  | some queued =>
      let queued := queued ++ (arrived.map fun k => (⟨k, false⟩ : QueuedKey)).toList
      setContext fun ctx => { ctx with keyQueue := some queued.tail }

/-- `jpp_sdk_poll_key`. -/
def sdkPollKey (i : SdkInput) : SdkProg Unit := do
  ensureBound
  require i.given .invalidArgument
  takeKey none

/-- `jpp_sdk_wait_key`. -/
def sdkWaitKey (i : SdkInput) : SdkProg Unit := do
  ensureBound
  require i.given .invalidArgument
  takeKey i.arrived

/-- `jpp_sdk_push_key`, called by an app. -/
def sdkPushKey (key : Key) : SdkProg Unit :=
  setContext fun ctx => { ctx with keyQueue := pushToQueue ctx.keyQueue ⟨key, true⟩ }

/-- `jpp_sdk_text_present`. -/
def textPresent (s : Option CStr) : Bool :=
  match s with
  | none => false
  | some s => decide (s.val ≠ [])

/-- `jpp_sdk_log`. -/
def sdkLog (i : SdkInput) (eventName : Option CStr) : SdkProg Unit := do
  ensureBound
  require (textPresent eventName) .invalidArgument
  let m ← read
  if m.ctx.services.contains .logWriter then callService i .logWriter none

/-- The text is there and fits into a buffer. -/
def fits (s : Option CStr) (bufLen : Nat) : Bool :=
  match s with
  | none => false
  | some s => decide (s.strlen < bufLen)

/-- The entry points that only hand their arguments to a service under a lock. -/
def sdkUngated (i : SdkInput) (resource : String) (callback : Callback) : SdkProg Unit := do
  ensureBound
  require i.given .invalidArgument
  needServices [callback]
  runService i resource callback none

/-- `jpp_sdk_device_status`. -/
def sdkDeviceStatus (i : SdkInput) : SdkProg Unit := sdkUngated i "device" .deviceStatus

/-- `jpp_sdk_get_time`. -/
def sdkGetTime (i : SdkInput) : SdkProg Unit := sdkUngated i "device" .rtcReader

/-- `jpp_sdk_kv_get`. -/
def sdkKvGet (i : SdkInput) (key : Option CStr) : SdkProg Unit := do
  ensureBound
  require (textPresent key && i.given) .invalidArgument
  require (fits key kvKeyMax) .invalidArgument
  needServices [.kvRead]
  let (status, result) ← exclusive i 0 "storage" .kvRead none
  require (status = .ok) .brokerError
  require (result.any BrokerResult.ok) .brokerError

/-- `jpp_sdk_kv_set`. -/
def sdkKvSet (i : SdkInput) (key value : Option CStr) : SdkProg Unit := do
  ensureBound
  require (textPresent key && value.isSome) .invalidArgument
  require (fits key kvKeyMax && fits value kvValueMax) .invalidArgument
  needServices [.kvWrite]
  runService i "storage" .kvWrite none

/-- `jpp_sdk_kv_delete`. -/
def sdkKvDelete (i : SdkInput) (key : Option CStr) : SdkProg Unit := do
  ensureBound
  require (textPresent key) .invalidArgument
  needServices [.kvDelete]
  runService i "storage" .kvDelete none

/-- The recipient's directory is a single safe name; `none` is the null pointer. -/
def recipientIsSafe : Option CStr → Bool
  | none => false
  | some id => appIdSegmentIsSafe id

/-- `jpp_sdk_ipc_send`. -/
def sdkIpcSend (i : SdkInput) (recipient payload : Option CStr) : SdkProg Unit := do
  ensureBound
  require (i.given && payload.isSome) .invalidArgument
  require (recipientIsSafe recipient) .invalidArgument
  require (fits payload ipcPayloadMax) .invalidArgument
  needServices [.writeFile]
  let m ← read
  require (16 + (recipient.map CStr.strlen).getD 0 + m.ctx.appId.strlen + 20 ≤ sdkPathMax)
    .invalidArgument
  runService i "storage" .writeFile none

/-- A step of `jpp_sdk_ipc_recv` that has to bring a result. -/
def ipcStage (i : SdkInput) (n : Nat) (callback : Callback) (status : SdkStatus) :
    SdkProg Unit := do
  let (broker, result) ← exclusive i n "storage" callback none
  require (broker = .ok && result.any BrokerResult.ok) status

/-- `jpp_sdk_ipc_recv`; a listing without an entry counts as one that brings no result. -/
def sdkIpcRecv (i : SdkInput) : SdkProg Unit := do
  ensureBound
  require i.given .invalidArgument
  needServices [.listFiles, .readFile, .deleteFile]
  ipcStage i 0 .listFiles .noData
  ipcStage i 1 .listFiles .noData
  ipcStage i 2 .readFile .brokerError
  let _ ← exclusive i 3 "storage" .deleteFile none
  pure ()

/-- The capability of a file operation; without one the operation is ungated. -/
def ensureOptionalCap (i : SdkInput) : Option CStr → SdkProg Unit
  | none => pure ()
  | some cap => ensureCap i cap

/-- `jpp_sdk_do_read`, `jpp_sdk_do_write` and `jpp_sdk_do_list`. -/
def doFile (i : SdkInput) (argsGiven : Bool) (cap : Option CStr) (callback : Callback)
    (path : List UInt8) : SdkProg Unit := do
  require argsGiven .invalidArgument
  needServices [callback]
  ensureOptionalCap i cap
  runService i "storage" callback (some path)

/-- The calls that build a path below a directory of the app. -/
def sdkScoped (i : SdkInput) (argsGiven : Bool)
    (build : CStr → Option CStr → SdkStatus × List UInt8) (callback : Callback)
    (relativePath : Option CStr) : SdkProg Unit := do
  ensureBound
  let m ← read
  let (status, path) := build m.ctx.appId relativePath
  require (status = .ok) status
  doFile i argsGiven none callback path

/-- An empty or missing directory means the app's own root. -/
def orRoot (relativeDir : Option CStr) : Option CStr :=
  if textPresent relativeDir then relativeDir else some (lit ".")

/-- `jpp_sdk_file_read`. -/
def sdkFileRead (i : SdkInput) (relativePath : Option CStr) : SdkProg Unit :=
  sdkScoped i i.given buildScopedPath .readFile relativePath

/-- `jpp_sdk_file_write`. -/
def sdkFileWrite (i : SdkInput) (relativePath text : Option CStr) : SdkProg Unit :=
  sdkScoped i (i.given && text.isSome) buildScopedPath .writeFile relativePath

/-- `jpp_sdk_file_list`. -/
def sdkFileList (i : SdkInput) (relativeDir : Option CStr) : SdkProg Unit :=
  sdkScoped i i.given buildScopedPath .listFiles (orRoot relativeDir)

/-- `jpp_sdk_shared_read`. -/
def sdkSharedRead (i : SdkInput) (relativePath : Option CStr) : SdkProg Unit :=
  sdkScoped i i.given buildSharedPath .readFile relativePath

/-- `jpp_sdk_shared_write`. -/
def sdkSharedWrite (i : SdkInput) (relativePath text : Option CStr) : SdkProg Unit :=
  sdkScoped i (i.given && text.isSome) buildSharedPath .writeFile relativePath

/-- `jpp_sdk_shared_list`. -/
def sdkSharedList (i : SdkInput) (relativeDir : Option CStr) : SdkProg Unit :=
  sdkScoped i i.given buildSharedPath .listFiles (orRoot relativeDir)

/-- `jpp_sdk_module_load`. -/
def sdkModuleLoad (i : SdkInput) (relativePath : Option CStr) : SdkProg Unit := do
  ensureBound
  require i.given .invalidArgument
  needCallback .moduleLoad
  let m ← read
  let (status, path) := buildScopedPath m.ctx.appId relativePath
  require (status = .ok) status
  callService i .moduleLoad (some path)
  require i.loaded .brokerError

/-- `jpp_sdk_module_run` and `jpp_sdk_module_unload`. -/
def sdkModule (i : SdkInput) (callback : Callback) : SdkProg Unit := do
  ensureBound
  require i.given .invalidArgument
  needCallback callback
  callService i callback none

/-- `files.full`. -/
def filesFull : CStr := lit "files.full"

/-- `sd_path_prompt_cb`. -/
def sdPathPrompt (i : SdkInput) (path : CStr) : SdkProg Bool := do
  callService i .pathPrompt (some path.val)
  let (allow, _) ← sdkConfirm i.scopeKeys
  pure allow

/-- `jpp_sdk_file_open`. -/
def sdkFileOpen (i : SdkInput) (path : Option CStr) (mode : Option OpenMode) :
    SdkProg Unit := do
  ensureBound
  require i.given .invalidArgument
  require (fullPathIsValid path) .invalidArgument
  match path, mode with
  | some path, some mode => do
      needCallback .pathPrompt
      ensureCap i filesFull
      let m ← read
      match m.ctx.handles.findIdx? Option.isNone with
      | none => fail .handleLimit
      | some slot => do
          let allow ← sdPathPrompt i path
          require allow .accessDenied
          setContext fun ctx =>
            { ctx with handles := ctx.handles.set slot (some (path.strncpy sdkPathMax, mode)) }
  | _, _ => fail .invalidArgument

/-- `jpp_sdk_resolve_handle`. -/
def resolveHandle (m : SdkState) (handle : Nat) : Option (CStr × OpenMode) :=
  (m.ctx.handles[handle]?).join

/-- The calls on a handle. -/
def sdkHandle (i : SdkInput) (argsGiven : Bool) (mode : OpenMode) (callback : Callback)
    (handle : Nat) : SdkProg Unit := do
  ensureBound
  let m ← read
  match resolveHandle m handle with
  | none => fail .invalidHandle
  | some entry => do
      require (entry.2 = mode) .accessDenied
      doFile i argsGiven (some filesFull) callback entry.1.val

/-- `jpp_sdk_handle_read`. -/
def sdkHandleRead (i : SdkInput) (handle : Nat) : SdkProg Unit :=
  sdkHandle i i.given .read .readFile handle

/-- `jpp_sdk_handle_write`. -/
def sdkHandleWrite (i : SdkInput) (handle : Nat) (text : Option CStr) : SdkProg Unit :=
  sdkHandle i (i.given && text.isSome) .write .writeFile handle

/-- `jpp_sdk_handle_list`. -/
def sdkHandleList (i : SdkInput) (handle : Nat) : SdkProg Unit :=
  sdkHandle i i.given .read .listFiles handle

/-- `jpp_sdk_handle_close`. -/
def sdkHandleClose (handle : Nat) : SdkProg Unit := do
  ensureBound
  let m ← read
  require (resolveHandle m handle).isSome .invalidHandle
  setContext fun ctx => { ctx with handles := ctx.handles.set handle none }

/-- The turns of the file browser: it lists a directory and waits for a key. -/
def browse (i : SdkInput) : Nat → SdkProg Unit
  | 0 => callService i .dirList none
  | turns + 1 => do
      callService i .dirList none
      takeKey i.arrived
      browse i turns

/-- `jpp_sdk_file_pick`; the browser turns once for each answer. -/
def sdkFilePick (i : SdkInput) : SdkProg Unit := do
  ensureBound
  require i.given .invalidArgument
  needCallback .dirList
  ensureCap i filesFull
  browse i i.answers.length

/-- The entry points that ask for a capability and then hand their arguments to a service
under a lock. -/
def sdkGated (i : SdkInput) (argsValid : Bool) (cap : CStr) (resource : String)
    (callback : Callback) : SdkProg Unit := do
  ensureBound
  require argsValid .invalidArgument
  needServices [callback]
  ensureCap i cap
  runService i resource callback none

/-- The same for a service that takes no lock. -/
def sdkGatedDirect (i : SdkInput) (cap : CStr) (callback : Callback) : SdkProg Unit := do
  ensureBound
  require i.given .invalidArgument
  needCallback callback
  ensureCap i cap
  callService i callback none

/-- `jpp_sdk_background_register`. -/
def sdkBackgroundRegister (i : SdkInput) : SdkProg Unit := do
  ensureBound
  require i.given .invalidArgument
  ensureCap i (lit "background.register")

/-- `jpp_sdk_ble_scan`. -/
def sdkBleScan (i : SdkInput) : SdkProg Unit :=
  sdkGated i i.given (lit "ble.scan") "ble_radio" .bleScan

/-- `JPP_SDK_BLE_AD_PAYLOAD_MAX`. -/
def bleAdPayloadMax : Nat := 31

/-- `jpp_sdk_ble_advertise_start`. -/
def sdkBleAdvertiseStart (i : SdkInput) (payloadLen : Nat) : SdkProg Unit :=
  sdkGated i (i.given && payloadLen ≤ bleAdPayloadMax) (lit "ble.advertise") "ble_radio"
    .bleAdvertiseStart

/-- `jpp_sdk_ble_advertise_stop`. -/
def sdkBleAdvertiseStop (i : SdkInput) : SdkProg Unit :=
  sdkGated i i.given (lit "ble.advertise") "ble_radio" .bleAdvertiseStop

/-- `jpp_sdk_ble_set_connectable`. -/
def sdkBleSetConnectable (i : SdkInput) : SdkProg Unit :=
  sdkGatedDirect i (lit "ble.advertise") .bleSetConnectable

/-- `JPP_SDK_BLE_ADDR_LEN`. -/
def bleAddrLen : Nat := 18

/-- `jpp_sdk_ble_connect`. -/
def sdkBleConnect (i : SdkInput) (address : Option CStr) : SdkProg Unit := do
  ensureBound
  require (textPresent address && i.given) .invalidArgument
  needServices [.bleConnect]
  ensureCap i (lit "ble.connect")
  let m ← read
  match m.ctx.bleConns.findIdx? Option.isNone with
  | none => fail .bleConnLimit
  | some slot => do
      let (status, result) ← exclusive i 0 "ble_client" .bleConnect none
      require (status = .ok && result.any BrokerResult.ok) .brokerError
      setContext fun ctx =>
        { ctx with
          bleConns := ctx.bleConns.set slot (address.map fun a => a.strncpy bleAddrLen) }

/-- `jpp_sdk_resolve_ble_conn`. -/
def resolveBleConn (m : SdkState) (conn : Nat) : Option CStr := (m.ctx.bleConns[conn]?).join

/-- `jpp_sdk_ble_read_char` and `jpp_sdk_ble_write_char`. -/
def sdkBleChar (i : SdkInput) (callback : Callback) (conn : Nat) : SdkProg Unit := do
  ensureBound
  require i.given .invalidArgument
  let m ← read
  require (resolveBleConn m conn).isSome .invalidBleConn
  needServices [callback]
  ensureCap i (lit "ble.connect")
  runService i "ble_client" callback none

/-- `jpp_sdk_ble_disconnect`: the slot is cleared whatever the service answers. -/
def sdkBleDisconnect (i : SdkInput) (conn : Nat) : SdkProg Unit := do
  ensureBound
  let m ← read
  require (resolveBleConn m conn).isSome .invalidBleConn
  needServices [.bleDisconnect]
  ensureCap i (lit "ble.connect")
  let (status, _) ← exclusive i 0 "ble_client" .bleDisconnect none
  setContext fun ctx => { ctx with bleConns := ctx.bleConns.set conn none }
  require (status = .ok) .brokerError

/-- `jpp_sdk_ble_service_register`. -/
def sdkBleServiceRegister (i : SdkInput) (svcUuid : Option CStr) : SdkProg Unit := do
  ensureBound
  require (i.given && textPresent svcUuid) .invalidArgument
  needServices [.bleServiceRegister]
  let m ← read
  require (!m.ctx.bleHostRegistered) .accessDenied
  ensureCap i (lit "ble.host")
  let (status, result) ← exclusive i 0 "ble_host" .bleServiceRegister none
  if status = .ok && result.any BrokerResult.ok then
    setContext fun ctx => { ctx with bleHostRegistered := true }
  require (status = .ok) .brokerError

/-- `jpp_sdk_ble_service_unregister`. -/
def sdkBleServiceUnregister (i : SdkInput) : SdkProg Unit := do
  ensureBound
  require i.given .invalidArgument
  needServices [.bleServiceUnregister]
  let m ← read
  require m.ctx.bleHostRegistered .invalidState
  ensureCap i (lit "ble.host")
  let (status, _) ← exclusive i 0 "ble_host" .bleServiceUnregister none
  if status = .ok then setContext fun ctx => { ctx with bleHostRegistered := false }
  require (status = .ok) .brokerError

/-- `jpp_sdk_ble_host_set_value`, `jpp_sdk_ble_host_wait_write` and
`jpp_sdk_ble_host_clear`. -/
def sdkBleHost (i : SdkInput) (callback : Callback) : SdkProg Unit :=
  sdkGatedDirect i (lit "ble.host") callback

/-- `JPP_SDK_ESPNOW_DATA_MAX`. -/
def espnowDataMax : Nat := 250

/-- `jpp_sdk_espnow_send`. -/
def sdkEspnowSend (i : SdkInput) (dataLen : Nat) : SdkProg Unit :=
  sdkGated i (i.given && dataLen ≤ espnowDataMax) (lit "esp_now") "espnow_radio" .espnowSend

/-- `jpp_sdk_espnow_recv`. -/
def sdkEspnowRecv (i : SdkInput) : SdkProg Unit := do
  ensureBound
  require i.given .invalidArgument
  needServices [.espnowRecv]
  ensureCap i (lit "esp_now")
  let (status, result) ← exclusive i 0 "espnow_radio" .espnowRecv none
  require (status = .ok) .brokerError
  require (!result.any fun r => !r.ok && r.code == "NO_DATA") .noData
  require (result.any BrokerResult.ok) .brokerError

/-- `GET` or `POST`. -/
def methodIsAllowed (method : Option CStr) : Bool :=
  method == some (lit "GET") || method == some (lit "POST")

/-- `jpp_sdk_http_request`. -/
def sdkHttpRequest (i : SdkInput) (method url : Option CStr) : SdkProg Unit :=
  sdkGated i (i.given && textPresent url && methodIsAllowed method) (lit "http.request") "http"
    .httpRequest

/-- `JPP_SDK_ORIGIN_MAX`. -/
def originMax : Nat := 270

/-- `JPP_SDK_HTTPS_BODY_MAX`. -/
def httpsBodyMax : Nat := 2048

/-- A character of a host name. -/
def isHostChar (c : UInt8) : Bool :=
  (97 ≤ c && c ≤ 122) || (65 ≤ c && c ≤ 90) || (48 ≤ c && c ≤ 57) || c == 45 || c == 46

/-- The loop of `jpp_sdk_https_origin` over the digits of a port. -/
def portFrom (port : Nat) : List UInt8 → Option Nat
  | [] => if port = 0 then none else some port
  | c :: rest =>
      if c < 48 ∨ 57 < c then none
      else
        let port := port * 10 + (c.toNat - 48)
        if 65535 < port then none else portFrom port rest

/-- The port behind a host; without one it is that of HTTPS. -/
def originPort : List UInt8 → Option Nat
  | [] => some 443
  | _ :: [] => none
  | _ :: digits => portFrom 0 digits

/-- `jpp_sdk_https_origin`. -/
def httpsOrigin (url : CStr) : SdkStatus × List UInt8 :=
  if (url.val.take 8).map lower ≠ ascii "https://" then (.invalidArgument, [])
  else
    let auth := (url.val.drop 8).takeWhile fun c => c ≠ 47 && c ≠ 63 && c ≠ 35
    let host := auth.takeWhile (· ≠ 58)
    if host = [] ∨ ¬ host.all isHostChar then (.invalidArgument, [])
    else
      match originPort (auth.drop host.length) with
      | none => (.invalidArgument, [])
      | some port =>
          if originMax < 8 + host.length + (if port = 443 then 0 else 6) + 1 then
            (.textTruncated, [])
          else
            (.ok, ascii "https://" ++ host.map lower ++
              if port = 443 then [] else 58 :: showBase 10 port)

/-- `jpp_app_origin_prompt`. -/
def appOriginPrompt (i : SdkInput) (origin : List UInt8) : SdkProg Bool := do
  callService i .originPrompt (some origin)
  let m ← read
  if i.originSaved then pure true
  else if m.bgRunActive then pure false
  else do
    let (granted, _) ← sdkConfirm i.scopeKeys
    pure granted

/-- `jpp_sdk_https_request`. -/
def sdkHttpsRequest (i : SdkInput) (method url body : Option CStr) : SdkProg Unit := do
  ensureBound
  require (i.given && textPresent url && methodIsAllowed method) .invalidArgument
  require (decide ((body.map CStr.strlen).getD 0 ≤ httpsBodyMax)) .invalidArgument
  needServices [.httpsRequest, .originPrompt]
  let (status, origin) := httpsOrigin (url.getD (lit ""))
  require (status = .ok) status
  ensureCap i (lit "https.request")
  let allow ← appOriginPrompt i origin
  require allow .accessDenied
  runService i "http" .httpsRequest none

/-- `network.bind`. -/
def networkBind : CStr := lit "network.bind"

/-- `network.connect`. -/
def networkConnect : CStr := lit "network.connect"

/-- `jpp_sdk_net_ensure_ready`. -/
def netEnsureReady (i : SdkInput) : SdkProg Unit := do
  ensureBound
  require i.given .invalidArgument
  needServices [.netBind]

/-- `jpp_sdk_net_ensure`. -/
def netEnsure (i : SdkInput) (cap : CStr) : SdkProg Unit := do
  netEnsureReady i
  ensureCap i cap

/-- `jpp_sdk_net_ensure_any`. -/
def netEnsureAny (i : SdkInput) : SdkProg Unit := do
  netEnsureReady i
  let m ← read
  require (m.hasCapability networkBind || m.hasCapability networkConnect) .accessDenied

/-- `jpp_sdk_net_bind`. -/
def sdkNetBind (i : SdkInput) (port : Nat) : SdkProg Unit := do
  netEnsure i networkBind
  require (port ≠ 0) .invalidArgument
  runService i "network" .netBind none

/-- `jpp_sdk_net_accept`. -/
def sdkNetAccept (i : SdkInput) : SdkProg Unit := do
  netEnsure i networkBind
  require i.givenBehind .invalidArgument
  runService i "network" .netAccept none

/-- `jpp_sdk_net_connect`. -/
def sdkNetConnect (i : SdkInput) (host : Option CStr) (port : Nat) : SdkProg Unit := do
  netEnsure i networkConnect
  require (textPresent host && port ≠ 0 && i.givenBehind) .invalidArgument
  needCallback .netConnect
  runService i "network" .netConnect none

/-- `jpp_sdk_net_recv`, `jpp_sdk_net_send` and `jpp_sdk_net_close`. -/
def sdkNetShared (i : SdkInput) (callback : Callback) : SdkProg Unit := do
  netEnsureAny i
  require i.givenBehind .invalidArgument
  runService i "network" callback none

/-- A call of an app. -/
def runCall (i : SdkInput) : SdkProg Unit :=
  match i.call with
  | .requestClose => sdkRequestClose
  | .requestCap cap => sdkRequestCap i cap
  | .pollKey => sdkPollKey i
  | .waitKey => sdkWaitKey i
  | .pushKey key => sdkPushKey key
  | .log eventName => sdkLog i eventName
  | .deviceStatus => sdkDeviceStatus i
  | .getTime => sdkGetTime i
  | .kvGet key => sdkKvGet i key
  | .kvSet key value => sdkKvSet i key value
  | .kvDelete key => sdkKvDelete i key
  | .ipcSend recipient payload => sdkIpcSend i recipient payload
  | .ipcRecv => sdkIpcRecv i
  | .fileRead path => sdkFileRead i path
  | .fileWrite path text => sdkFileWrite i path text
  | .fileList dir => sdkFileList i dir
  | .sharedRead path => sdkSharedRead i path
  | .sharedWrite path text => sdkSharedWrite i path text
  | .sharedList dir => sdkSharedList i dir
  | .fileOpen path mode => sdkFileOpen i path mode
  | .handleRead handle => sdkHandleRead i handle
  | .handleWrite handle text => sdkHandleWrite i handle text
  | .handleList handle => sdkHandleList i handle
  | .handleClose handle => sdkHandleClose handle
  | .filePick => sdkFilePick i
  | .backgroundRegister => sdkBackgroundRegister i
  | .bleScan => sdkBleScan i
  | .bleAdvertiseStart payloadLen => sdkBleAdvertiseStart i payloadLen
  | .bleAdvertiseStop => sdkBleAdvertiseStop i
  | .bleSetConnectable => sdkBleSetConnectable i
  | .bleConnect address => sdkBleConnect i address
  | .bleReadChar conn => sdkBleChar i .bleReadChar conn
  | .bleWriteChar conn => sdkBleChar i .bleWriteChar conn
  | .bleDisconnect conn => sdkBleDisconnect i conn
  | .bleServiceRegister svcUuid => sdkBleServiceRegister i svcUuid
  | .bleServiceUnregister => sdkBleServiceUnregister i
  | .bleHostSetValue => sdkBleHost i .bleHostSetValue
  | .bleHostWaitWrite => sdkBleHost i .bleHostWaitWrite
  | .bleHostClear => sdkBleHost i .bleHostClear
  | .espnowSend dataLen => sdkEspnowSend i dataLen
  | .espnowRecv => sdkEspnowRecv i
  | .httpRequest method url => sdkHttpRequest i method url
  | .httpsRequest method url body => sdkHttpsRequest i method url body
  | .netBind port => sdkNetBind i port
  | .netAccept => sdkNetAccept i
  | .netConnect host port => sdkNetConnect i host port
  | .netRecv => sdkNetShared i .netRecv
  | .netSend => sdkNetShared i .netSend
  | .netClose => sdkNetShared i .netClose
  | .moduleLoad path => sdkModuleLoad i path
  | .moduleRun => sdkModule i .moduleRun
  | .moduleUnload => sdkModule i .moduleUnload

/-- The capabilities any one of which a call needs for the services it reaches. -/
def SdkCall.gate : SdkCall → List CStr
  | .fileOpen .. | .handleRead .. | .handleWrite .. | .handleList .. | .filePick => [filesFull]
  | .bleScan => [lit "ble.scan"]
  | .bleAdvertiseStart _ | .bleAdvertiseStop | .bleSetConnectable => [lit "ble.advertise"]
  | .bleConnect _ | .bleReadChar _ | .bleWriteChar _ | .bleDisconnect _ => [lit "ble.connect"]
  | .bleServiceRegister _ | .bleServiceUnregister | .bleHostSetValue | .bleHostWaitWrite
  | .bleHostClear => [lit "ble.host"]
  | .espnowSend _ | .espnowRecv => [lit "esp_now"]
  | .httpRequest .. => [lit "http.request"]
  | .httpsRequest .. => [lit "https.request"]
  | .netBind _ | .netAccept => [networkBind]
  | .netConnect .. => [networkConnect]
  | .netRecv | .netSend | .netClose => [networkBind, networkConnect]
  | _ => []

end Sdk
end JppDos
