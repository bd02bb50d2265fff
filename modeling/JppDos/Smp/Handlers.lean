import JppDos.Smp.Module

/-!
# The programs of the serial manager

The command handlers of `jpp_serial_mgr.c`, the callback of the session timer, and what the
main loop does about keys and about apps, each as a program of actions.
-/

namespace JppDos
namespace Smp

open CText Serial LittleEndian

/-- `fclose(s_xfer.fp)`, with the slot marked free. -/
def dropTransfer : Code Unit := do
  let v ← load
  call (.fclose v.xfer.fp)
  store .xferClosed
  store (.xferActive false)

/-- The common part of `session_timeout_cb` and `close_session`. -/
def endSession : Code Unit := do
  let v ← load
  if v.xfer.active && v.xfer.fp.isSome then
    call (.fclose v.xfer.fp)
    store .xferClosed
  store (.xferActive false)
  store (.sessionActive false)

def sessionTimeoutCb : Code Unit := endSession

/-- The timer has fired: it fires once, and runs its callback. -/
def timerFired : Code Unit := do
  call .stopTimer
  sessionTimeoutCb

def resetSessionTimer : Code Unit := do
  call .stopTimer
  call .startTimer

/-- The inactivity timer is reset inside a session. -/
def resetTimerIf (active : Bool) : Code Unit :=
  if active then resetSessionTimer else return

def closeSession : Code Unit := do
  call .stopTimer
  endSession

/-- A dialog: the cursor is set, the dialog raised, and the answer of the main loop awaited. -/
def askUser (kind : ConsentState) (cursor : Nat) : Code Bool := do
  store (.consentCursor cursor)
  store (.consentState kind)
  call .takeSem
  let v ← load
  return v.consentAllowed

/-- The consent to a session.  A provisioning build takes it for granted the first time. -/
def sessionConsent (provisioning : Bool) : Code Bool := do
  if provisioning then
    if (← load).firstSessionDone then askUser .pending 1
    else
      store (.firstSessionDone true)
      store (.consentAllowed true)
      return (← load).consentAllowed
  else askUser .pending 1

def handleSessionStart (provisioning : Bool) (seq : UInt8) (body : List UInt8) :
    Code Unit := do
  if (← load).sessionActive then sendErr seq SmpSt.errBusy
  else if (← load).activeSdkContext then sendErr seq SmpSt.errAppRunning
  else if body.head? ≠ some smpProtoVersion then sendErr seq SmpSt.errInvalid
  else if ← sessionConsent provisioning then
    store (.sessionActive true)
    resetSessionTimer
    sendResponse seq SmpSt.ok [smpProtoVersion]
  else sendErr seq SmpSt.errDenied

def handleSessionEnd (seq : UInt8) : Code Unit := do
  closeSession
  sendErr seq SmpSt.ok

def handleKeepalive (seq : UInt8) : Code Unit := sendErr seq SmpSt.ok

/-- The handlers of GET_INFO, GET_LRV_DATA and SET_TIME, which use none of the variables. -/
def handleOther (seq cmd : UInt8) (body : List UInt8) : Code Unit := do
  let (status, resp) ← call (.other cmd body)
  sendResponse seq status resp

/-- `handle_provision_lrv`: the identity is stored by other code. -/
def handleProvisionLrv (seq : UInt8) (body : List UInt8) : Code Unit :=
  if body.isEmpty then sendErr seq SmpSt.errInvalid
  else handleOther seq SmpCmd.provisionLrv body

/-- `SMP_LIST_BUF_BYTES`. -/
def smpListBufBytes : Nat := 2048

/-- What `snprintf` leaves of `path/name` in `child_path`. -/
def childPath (path : Path) (name : CStr) : Path := (path ++ Paths.slash :: name.val).take 511

/-- Whether the name of an entry starts with a dot. -/
def Dirent.hidden (ent : Dirent) : Bool := ent.name.val.head? = some Paths.dot

/-- `size_or_count` of an entry. -/
def sizeOrCount (path : Path) (ent : Dirent) : Code Nat :=
  if ent.isDir then do
    let entries : Option (List Dirent) ← call (.readDir (childPath path ent.name))
    return ((entries.getD []).filter (!·.hidden)).length
  else do
    let size : Option Nat ← call (.stat (childPath path ent.name))
    return size.getD 0

/-- The loop of `handle_fs_list_dir` over the entries: the bytes behind the count, and the
count. -/
def listEntries (path : Path) : List Dirent → List UInt8 → Nat → Code (List UInt8 × Nat)
  | [], buf, count => return (buf, count)
  | ent :: rest, buf, count =>
      if ent.hidden then listEntries path rest buf count
      else if 2 + buf.length + 5 + ent.name.strlen + 1 > smpListBufBytes then
        return (buf, count)
      else do
        let n ← sizeOrCount path ent
        listEntries path rest
          (buf ++ [if ent.isDir then 1 else 0] ++ leBytes 4 n ++ ent.name.val ++ [0])
          (count + 1)

/-- `handle_fs_list_dir` behind the check of the path. -/
def listDir (seq : UInt8) (path : Path) : Code Unit := do
  let dir : Option (List Dirent) ← call (.readDir path)
  match dir with
  | none => sendErr seq SmpSt.errNotFound
  | some entries =>
      let (buf, count) ← listEntries path entries [] 0
      sendResponse seq SmpSt.ok (leBytes 2 count ++ buf)

def handleFsListDir (seq : UInt8) (body : List UInt8) : Code Unit :=
  match pathValidSd body with
  | none => sendErr seq SmpSt.errInvalid
  | some path => listDir seq path

/-- The texts in front of the slashes of `rest`, each with `pre` in front. -/
def parentDirs (pre : Path) : List UInt8 → List Path
  | [] => []
  | c :: rest =>
      if c = Paths.slash then pre :: parentDirs (pre ++ [c]) rest
      else parentDirs (pre ++ [c]) rest

/-- `jpp_make_parent_dirs`: the buffer has 256 bytes, and the search starts behind the first. -/
def makeParentDirs (path : Path) : Code Unit :=
  let tmp := path.take 255
  (parentDirs (tmp.take 1) (tmp.drop 1)).forM fun dir => do
    let _ ← call (.mkdir dir)

/-- `handle_fs_mkdir` behind the check of the path. -/
def makeDir (seq : UInt8) (path : Path) : Code Unit := do
  makeParentDirs path
  let failed : Option Errno ← call (.mkdir path)
  match failed with
  | none => sendErr seq SmpSt.ok
  | some .exist => sendErr seq SmpSt.errExists
  | some _ => sendErr seq SmpSt.errIo

def handleFsMkdir (seq : UInt8) (body : List UInt8) : Code Unit :=
  match pathValidSd body with
  | none => sendErr seq SmpSt.errInvalid
  | some path => makeDir seq path

/-- `handle_fs_remove` behind the check of the path. -/
def removeFile (seq : UInt8) (path : Path) : Code Unit := do
  let failed : Option Errno ← call (.remove path)
  match failed with
  | none => sendErr seq SmpSt.ok
  | some .noEnt => sendErr seq SmpSt.errNotFound
  | some _ => sendErr seq SmpSt.errIo

def handleFsRemove (seq : UInt8) (body : List UInt8) : Code Unit :=
  match pathValidSd body with
  | none => sendErr seq SmpSt.errInvalid
  | some path => removeFile seq path

/-- The two paths of a body for RENAME, if it has two ends of strings in the right places. -/
def renamePaths (body : List UInt8) : Option (Path × Path) :=
  let srcLen := (cString body).length
  let dst := body.drop (srcLen + 1)
  if body.length < 4 || srcLen ≥ body.length - 1 || (cString dst).length ≥ dst.length then none
  else some (cString body, cString dst)

/-- `handle_fs_rename` behind the checks of the paths. -/
def renameFile (seq : UInt8) (src dst : Path) : Code Unit := do
  let failed : Option Errno ← call (.rename src dst)
  match failed with
  | none => sendErr seq SmpSt.ok
  | some .noEnt => sendErr seq SmpSt.errNotFound
  | some .exist => sendErr seq SmpSt.errExists
  | some .other => sendErr seq SmpSt.errIo

def handleFsRename (seq : UInt8) (body : List UInt8) : Code Unit :=
  match renamePaths body with
  | none => sendErr seq SmpSt.errInvalid
  | some (src, dst) =>
      if !sdPrefixOk src || !sdPrefixOk dst then sendErr seq SmpSt.errInvalid
      else renameFile seq src dst

/-- The size and the path of a body for UPLOAD_BEGIN, if the path has an end. -/
def uploadPath (body : List UInt8) : Option (UInt32 × Path) :=
  match body with
  | b0 :: b1 :: b2 :: b3 :: pathArea@(_ :: _) =>
      if 0 ∈ pathArea then
        some (UInt32.ofNat (b0.toNat ||| b1.toNat <<< 8 ||| b2.toNat <<< 16 ||| b3.toNat <<< 24),
          cString pathArea)
      else none
  | _ => none

/-- `handle_fs_upload_begin` behind the check of the path. -/
def openUpload (seq : UInt8) (fileSize : UInt32) (path : Path) : Code Unit := do
  makeParentDirs path
  let opened : Except Errno FileNo ← call (.fopen path true)
  match opened with
  | .error _ => sendErr seq SmpSt.errIo
  | .ok fp =>
      store (.xfer
        { fp := some fp
          fileSize := fileSize
          crc32 := 0xFFFFFFFF
          chunkCount := ((fileSize + 1023) / 1024).toUInt16
          nextChunk := 0
          id := 0x00
          isUpload := true
          active := true })
      sendResponse seq SmpSt.ok [0x00]

/-- `handle_fs_upload_begin` while no transfer is active. -/
def beginUpload (seq : UInt8) (body : List UInt8) : Code Unit :=
  match uploadPath body with
  | none => sendErr seq SmpSt.errInvalid
  | some (fileSize, path) =>
      if !sdPrefixOk path then sendErr seq SmpSt.errInvalid
      else openUpload seq fileSize path

def handleFsUploadBegin (seq : UInt8) (body : List UInt8) : Code Unit := do
  if (← load).xfer.active then sendErr seq SmpSt.errTransfer
  else beginUpload seq body

/-- `fwrite` of a chunk in its turn, and what follows. -/
def writeChunk (seq idx0 idx1 : UInt8) (data : List UInt8) : Code Unit := do
  let v ← load
  let took : Nat ← call (.fwrite v.xfer.fp data)
  if took ≠ data.length then
    dropTransfer
    sendErr seq SmpSt.errIo
  else
    let v ← load
    store (.xferCrc32 (crc32Buf v.xfer.crc32 data))
    let v ← load
    store (.xferNextChunk (v.xfer.nextChunk + 1))
    sendResponse seq SmpSt.ok [idx0, idx1]

def handleFsUploadChunk (seq : UInt8) (body : List UInt8) : Code Unit := do
  let v ← load
  if !v.xfer.active || !v.xfer.isUpload then sendErr seq SmpSt.errTransfer
  else
    match body with
    | id :: idx0 :: idx1 :: data@(_ :: _) =>
        let v ← load
        if id ≠ v.xfer.id then sendErr seq SmpSt.errTransfer
        else
          let chunkIdx := UInt16.ofNat (idx0.toNat ||| idx1.toNat <<< 8)
          let v ← load
          if chunkIdx ≠ v.xfer.nextChunk then
            if v.xfer.nextChunk > 0 ∧ chunkIdx = v.xfer.nextChunk - 1 then
              sendResponse seq SmpSt.ok [idx0, idx1]
            else
              dropTransfer
              sendErr seq SmpSt.errTransfer
          else writeChunk seq idx0 idx1 data
    | _ => sendErr seq SmpSt.errInvalid

def handleFsUploadEnd (seq : UInt8) (body : List UInt8) : Code Unit := do
  let v ← load
  if !v.xfer.active || !v.xfer.isUpload then sendErr seq SmpSt.errTransfer
  else
    match body with
    | id :: b0 :: b1 :: b2 :: b3 :: _ =>
        let v ← load
        if id ≠ v.xfer.id then sendErr seq SmpSt.errTransfer
        else
          let hostCrc := UInt32.ofNat
            (b0.toNat ||| b1.toNat <<< 8 ||| b2.toNat <<< 16 ||| b3.toNat <<< 24)
          let v ← load
          call (.fflush v.xfer.fp)
          dropTransfer
          let v ← load
          if hostCrc ≠ ~~~v.xfer.crc32 then sendErr seq SmpSt.errInvalid
          else sendErr seq SmpSt.ok
    | _ => sendErr seq SmpSt.errInvalid

/-- `handle_fs_dl_begin` behind the check of the path. -/
def openDownload (seq : UInt8) (path : Path) : Code Unit := do
  let opened : Except Errno FileNo ← call (.fopen path false)
  match opened with
  | .error .noEnt => sendErr seq SmpSt.errNotFound
  | .error _ => sendErr seq SmpSt.errIo
  | .ok fp =>
      let size : Option Nat ← call (.fileSize (some fp))
      match size with
      | none =>
          call (.fclose (some fp))
          sendErr seq SmpSt.errIo
      | some sz =>
          let content : List UInt8 ← call (.readAll (some fp))
          let fileSize := UInt32.ofNat sz
          let finalCrc := ~~~(crc32Buf 0xFFFFFFFF content)
          let chunkCount := ((fileSize + 1023) / 1024).toUInt16
          store (.xfer
            { fp := some fp
              fileSize := fileSize
              crc32 := finalCrc
              chunkCount := chunkCount
              nextChunk := 0
              id := 0x00
              isUpload := false
              active := true })
          sendResponse seq SmpSt.ok ([0x00] ++ leBytes 4 fileSize.toNat ++
            leBytes 2 chunkCount.toNat ++ leBytes 4 finalCrc.toNat)

/-- `handle_fs_dl_begin` while no transfer is active. -/
def beginDownload (seq : UInt8) (body : List UInt8) : Code Unit :=
  match pathValidSd body with
  | none => sendErr seq SmpSt.errInvalid
  | some path => openDownload seq path

def handleFsDlBegin (seq : UInt8) (body : List UInt8) : Code Unit := do
  if (← load).xfer.active then sendErr seq SmpSt.errTransfer
  else beginDownload seq body

def handleFsDlChunk (seq : UInt8) (body : List UInt8) : Code Unit := do
  let v ← load
  if !v.xfer.active || v.xfer.isUpload then sendErr seq SmpSt.errTransfer
  else
    match body with
    | id :: idx0 :: idx1 :: _ =>
        let v ← load
        if id ≠ v.xfer.id then sendErr seq SmpSt.errTransfer
        else
          let chunkIdx := UInt16.ofNat (idx0.toNat ||| idx1.toNat <<< 8)
          let v ← load
          if chunkIdx ≥ v.xfer.chunkCount then sendErr seq SmpSt.errInvalid
          else
            let v ← load
            let found : Bool ← call (.fseek v.xfer.fp (chunkIdx.toNat * smpChunkSize))
            if !found then sendErr seq SmpSt.errIo
            else
              let v ← load
              let data : Option (List UInt8) ← call (.fread v.xfer.fp smpChunkSize)
              match data with
              | none => sendErr seq SmpSt.errIo
              | some data => sendResponse seq SmpSt.ok ([id, idx0, idx1] ++ data)
    | _ => sendErr seq SmpSt.errInvalid

def handleFsDlEnd (seq : UInt8) (body : List UInt8) : Code Unit := do
  let v ← load
  if !v.xfer.active || v.xfer.isUpload then sendErr seq SmpSt.errTransfer
  else
    let v ← load
    if body.head? ≠ some v.xfer.id then sendErr seq SmpSt.errTransfer
    else
      dropTransfer
      sendErr seq SmpSt.ok

/-- The part of `handle_apply_backup` behind the check of the text. -/
def confirmBackup (seq : UInt8) (path : Path) (text : List UInt8) : Code Unit := do
  let name := (afterLast Paths.slash path).getD path
  store (.backupConfirmName (name.take 63))
  if ← askUser .backupPending 0 then
    let applied : Bool ← call (.applyBackup text)
    if applied then
      sendErr seq SmpSt.ok
      call .restart
    else sendErr seq SmpSt.errIo
  else sendErr seq SmpSt.errDenied

/-- `handle_apply_backup` behind the check of the path. -/
def readBackup (seq : UInt8) (path : Path) : Code Unit := do
  let room : Bool ← call .malloc
  if !room then sendErr seq SmpSt.errIo
  else
    let content : Except ReadError (List UInt8) ← call (.readFile path)
    match content with
    | .error .open => sendErr seq SmpSt.errNotFound
    | .error .size => sendErr seq SmpSt.errOverflow
    | .ok text =>
        let valid : Bool ← call (.checkBackup text)
        if !valid then sendErr seq SmpSt.errInvalid
        else confirmBackup seq path text

def handleApplyBackup (seq : UInt8) (body : List UInt8) : Code Unit :=
  match pathValidSd body with
  | none => sendErr seq SmpSt.errInvalid
  | some path => readBackup seq path

/-- The switch of `dispatch_command`. -/
def handleCommand (provisioning : Bool) (seq cmd : UInt8) (body : List UInt8) : Code Unit :=
  if cmd = SmpCmd.sessionStart then handleSessionStart provisioning seq body
  else if cmd = SmpCmd.sessionEnd then handleSessionEnd seq
  else if cmd = SmpCmd.getInfo ∨ cmd = SmpCmd.getLrvData ∨ cmd = SmpCmd.setTime then
    handleOther seq cmd body
  else if cmd = SmpCmd.keepalive then handleKeepalive seq
  else if cmd = SmpCmd.fsListDir then handleFsListDir seq body
  else if cmd = SmpCmd.fsMkdir then handleFsMkdir seq body
  else if cmd = SmpCmd.fsRemove then handleFsRemove seq body
  else if cmd = SmpCmd.fsRename then handleFsRename seq body
  else if cmd = SmpCmd.fsUploadBegin then handleFsUploadBegin seq body
  else if cmd = SmpCmd.fsUploadChunk then handleFsUploadChunk seq body
  else if cmd = SmpCmd.fsUploadEnd then handleFsUploadEnd seq body
  else if cmd = SmpCmd.fsDlBegin then handleFsDlBegin seq body
  else if cmd = SmpCmd.fsDlChunk then handleFsDlChunk seq body
  else if cmd = SmpCmd.fsDlEnd then handleFsDlEnd seq body
  else if cmd = SmpCmd.applyBackup then handleApplyBackup seq body
  else if provisioning && cmd = SmpCmd.provisionLrv then handleProvisionLrv seq body
  else sendErr seq SmpSt.errInvalid

def dispatchCommand (provisioning : Bool) (payload : List UInt8) : Code Unit :=
  match payload with
  | seq :: cmd :: _flags :: body => do
      let v ← load
      if !v.sessionActive && cmd ≠ SmpCmd.sessionStart then sendErr seq SmpSt.errNoSession
      else
        let v ← load
        resetTimerIf v.sessionActive
        handleCommand provisioning seq cmd body
  | _ => return

/-- One turn of `smp_rx_task`, from a frame that has arrived on. -/
def rxFrame (provisioning : Bool) (payload : List UInt8) : Code Unit := do
  call (.receiveFrame payload)
  dispatchCommand provisioning payload

/-- `jpp_serial_mgr_handle_action` while a dialog is open. -/
def handleDialogKey : Action → Code Unit
  | .left => store (.consentCursor 0)
  | .right => store (.consentCursor 1)
  | .ok => do
      let v ← load
      store (.consentAllowed (v.consentCursor = 1))
      store (.consentState .idle)
      call .giveSem
  | _ => return

/-- `jpp_serial_mgr_handle_action`. -/
def handleAction (action : Action) : Code Unit := do
  if (← load).consentState ≠ .idle then handleDialogKey action
  else if (← load).sessionActive then
    if action = .back then
      call (.send ⟨smpSeqEvent, smpEvtSessionEnded, []⟩)
      closeSession

/-- `jpp_serial_mgr_needs_render`. -/
def needsRender : Code Bool := do
  if (← load).consentState ≠ .idle then return true
  else return (← load).sessionActive

/-- A key that the main loop takes from its queue, as far as the serial manager sees it. -/
def takeKey (action : Action) : Code Unit := do
  call (.receiveKey action)
  if (← load).sdTask then return
  else if ← needsRender then handleAction action

/-- `launch_app_from`: what comes before the context is published is one action. -/
def launchAppFrom (background : Bool) : Code Bool := do
  let ready : Bool ← call .launchApp
  if !ready then return false
  else
    if background then store (.bgRunActive true)
    store (.activeSdkContext true)
    let created : Bool ← call .createTask
    store (.sdTask created)
    if !created then store (.activeSdkContext false)
    return created

/-- `jpp_app_bg_launch`. -/
def appBgLaunch : Code Unit := do
  let v ← load
  if v.sdTask || v.bgRunActive then return
  else if ← launchAppFrom true then return
  else store (.bgRunActive false)

/-- `teardown_sd_app`. -/
def teardownSdApp : Code Unit := do
  store (.sdTask false)
  store (.activeSdkContext false)

/-- `jpp_app_bg_teardown`. -/
def appBgTeardown : Code Unit := do
  store (.sdTask false)
  store (.activeSdkContext false)
  store (.bgRunActive false)

/-- The screen in one turn of the main loop: whether it is that of an app, and whether the
device idles on the launcher. -/
structure Screen where
  sdAppOpen : Bool
  idle : Bool
deriving DecidableEq

/-- The launch of the app whose screen is open.  The answer is `sd_app_open`. -/
def launchOpenApp (screen : Screen) : Code Bool := do
  if screen.sdAppOpen && !(← load).sdTask then
    if (← load).sessionActive then return false
    else launchAppFrom false
  else return screen.sdAppOpen

/-- The supervision of background runs. -/
def superviseBackground (screen : Screen) (sdAppOpen : Bool) : Code Unit := do
  let v ← load
  if v.bgRunActive then
    let finished : Bool ← call .bgFinished
    if finished then appBgTeardown
    else
      let overrun : Bool ← call .bgOverrun
      if overrun then call .restart
  else if !sdAppOpen && !v.sdTask && screen.idle then
    if !(← needsRender) then
      let due : Bool ← call .bgDue
      if due then appBgLaunch

/-- `run_main_loop`, from the user's preemption of a background run to the end of an app. -/
def appTurn (screen : Screen) : Code Unit := do
  if screen.sdAppOpen && (← load).bgRunActive then appBgTeardown
  let sdAppOpen ← launchOpenApp screen
  superviseBackground screen sdAppOpen
  let v ← load
  if v.sdTask && !v.bgRunActive then
    let closeRequested : Bool ← call .closeRequested
    if closeRequested then teardownSdApp

end Smp
end JppDos
