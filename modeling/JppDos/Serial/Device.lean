import JppDos.Lib.CText
import JppDos.Serial.Wire
import Mathlib.Logic.Function.Basic

/-!
# The device side of JPPD-SMP

The command handlers of `jpp_serial_mgr.c` around the one transfer slot
`s_xfer`: session control, file upload, file download.  A frame payload that
passed the receive task goes through `dispatchCommand`; the session timer and
the user's hold-OK action come from outside.

The handlers that never touch the transfer slot are a parameter.

Main fact:
* `dispatchCommand_uploadBegin`, `dispatchCommand_uploadChunk`,
  `dispatchCommand_uploadEnd`: the handlers of an upload within a session.
-/

namespace JppDos
namespace Serial

open CText Crc LittleEndian

/-- `SMP_PROTO_VERSION`. -/
def smpProtoVersion : UInt8 := 1

/-- `SMP_EVT_SESSION_ENDED`. -/
def smpEvtSessionEnded : UInt8 := 0x01

/-- A path, as the bytes of a C string. -/
abbrev Path := List UInt8

/-- The regular files of the card. -/
abbrev Files := Path → Option (List UInt8)

/-- What the surroundings answer while one input is handled: whether an app
runs, the user's consent, whether `fopen` succeeds, how many bytes `fwrite`
leaves over, and how many accepted bytes the closing flush fails to put on the
card (the source ignores the results of `fflush` and `fclose`). -/
structure Io where
  appRunning : Bool
  consent : Bool
  opens : Bool
  short : Nat
  lost : Nat
deriving Repr, DecidableEq

/-- `smp_transfer_t`.  `fp` is the path behind the open file; the source sets
`active` exactly when `fp` is open, so one field stands for both.  `writes` is
an observation: the blocks `fwrite` took since the last BEGIN. -/
structure SmpTransfer where
  fp : Option Path
  fileSize : UInt32
  crc32 : UInt32
  chunkCount : UInt16
  nextChunk : UInt16
  id : UInt8
  isUpload : Bool
  writes : List (List UInt8)
deriving Repr, DecidableEq

/-- The module state. -/
structure Device where
  sessionActive : Bool
  xfer : SmpTransfer
  files : Files

def SmpTransfer.active (x : SmpTransfer) : Bool := x.fp.isSome

/-- The payload of a response frame. -/
structure Reply where
  seq : UInt8
  status : UInt8
  body : List UInt8
deriving Repr, DecidableEq

def sendErr (seq status : UInt8) : List Reply := [⟨seq, status, []⟩]

/-- `send_event`. -/
def sendEvent (eventType : UInt8) (body : List UInt8) : List Reply :=
  [⟨smpSeqEvent, eventType, body⟩]

/-- `sd_prefix_ok`: `/sd` itself or a path below it. -/
def sdPrefixOk (p : Path) : Bool :=
  p.take 3 == [0x2F, 0x73, 0x64] && (p[3]? == none || p[3]? == some 0x2F)

/-- `path_valid_sd`. -/
def pathValidSd (body : List UInt8) : Option Path :=
  if body.getLast? ≠ some 0 then none
  else if sdPrefixOk (cString body) then some (cString body) else none

/-- Bytes taken by `fwrite` at the end of a file. -/
def Files.append (files : Files) (path : Path) (data : List UInt8) : Files :=
  Function.update files path ((files path).map (· ++ data))

/-- The flush of `fclose`: `lost` bytes at the end do not reach the card. -/
def Files.flush (files : Files) (path : Path) (lost : Nat) : Files :=
  Function.update files path ((files path).map fun c => c.take (c.length - lost))

/-- `fclose(s_xfer.fp)`, with the slot marked inactive. -/
def Device.dropTransfer (io : Io) (d : Device) : Device :=
  match d.xfer.fp with
  | some path =>
      { d with
        xfer := { d.xfer with fp := none }
        files := if d.xfer.isUpload then d.files.flush path io.lost else d.files }
  | none => d

/-- `session_timeout_cb`. -/
def sessionTimeoutCb (io : Io) (d : Device) : Device :=
  { d.dropTransfer io with sessionActive := false }

/-- `close_session`. -/
def closeSession (io : Io) (d : Device) : Device :=
  { d.dropTransfer io with sessionActive := false }

def handleSessionStart (io : Io) (seq : UInt8) (body : List UInt8) (d : Device) :
    Device × List Reply :=
  if d.sessionActive then (d, sendErr seq SmpSt.errBusy)
  else if io.appRunning then (d, sendErr seq SmpSt.errAppRunning)
  else if body.head? ≠ some smpProtoVersion then (d, sendErr seq SmpSt.errInvalid)
  else if !io.consent then (d, sendErr seq SmpSt.errDenied)
  else ({ d with sessionActive := true }, [⟨seq, SmpSt.ok, [smpProtoVersion]⟩])

def handleSessionEnd (io : Io) (seq : UInt8) (d : Device) : Device × List Reply :=
  (closeSession io d, sendErr seq SmpSt.ok)

def handleKeepalive (seq : UInt8) (d : Device) : Device × List Reply :=
  (d, sendErr seq SmpSt.ok)

/-- `jpp_serial_mgr_handle_action` on BACK. -/
def handleActionBack (io : Io) (d : Device) : Device × List Reply :=
  if d.sessionActive then (closeSession io d, sendEvent smpEvtSessionEnded []) else (d, [])

def handleFsUploadBegin (io : Io) (seq : UInt8) (body : List UInt8) (d : Device) :
    Device × List Reply :=
  if d.xfer.active then (d, sendErr seq SmpSt.errTransfer)
  else
    match body with
    | b0 :: b1 :: b2 :: b3 :: pathArea@(_ :: _) =>
        let fileSize := UInt32.ofNat
          (b0.toNat ||| b1.toNat <<< 8 ||| b2.toNat <<< 16 ||| b3.toNat <<< 24)
        let path := cString pathArea
        if 0 ∉ pathArea ∨ !sdPrefixOk path then (d, sendErr seq SmpSt.errInvalid)
        else if !io.opens then (d, sendErr seq SmpSt.errIo)
        else
          -- `fopen(path, "wb")` has emptied the file
          ({ d with
              files := Function.update d.files path (some [])
              xfer :=
                { fp := some path
                  fileSize := fileSize
                  crc32 := 0xFFFFFFFF
                  chunkCount := ((fileSize + 1023) / 1024).toUInt16
                  nextChunk := 0
                  id := 0x00
                  isUpload := true
                  writes := [] } },
            [⟨seq, SmpSt.ok, [0x00]⟩])
    | _ => (d, sendErr seq SmpSt.errInvalid)

/-- `fwrite` of a chunk in its turn, and what follows. -/
def writeChunk (io : Io) (seq idx0 idx1 : UInt8) (data : List UInt8) (path : Path)
    (d : Device) : Device × List Reply :=
  let took := data.take (data.length - io.short)
  let files := d.files.append path took
  if took.length ≠ data.length then
    ({ d with files := files }.dropTransfer io, sendErr seq SmpSt.errIo)
  else
    ({ d with
        files := files
        xfer :=
          { d.xfer with
            crc32 := crc32Buf d.xfer.crc32 data
            nextChunk := d.xfer.nextChunk + 1
            writes := d.xfer.writes ++ [data] } },
      [⟨seq, SmpSt.ok, [idx0, idx1]⟩])

def handleFsUploadChunk (io : Io) (seq : UInt8) (body : List UInt8) (d : Device) :
    Device × List Reply :=
  match d.xfer.fp, d.xfer.isUpload with
  | some path, true =>
      match body with
      | id :: idx0 :: idx1 :: data@(_ :: _) =>
          if id ≠ d.xfer.id then (d, sendErr seq SmpSt.errTransfer)
          else
            let chunkIdx := UInt16.ofNat (idx0.toNat ||| idx1.toNat <<< 8)
            if chunkIdx ≠ d.xfer.nextChunk then
              if d.xfer.nextChunk > 0 ∧ chunkIdx = d.xfer.nextChunk - 1 then
                -- a retransmit of the chunk just written
                (d, [⟨seq, SmpSt.ok, [idx0, idx1]⟩])
              else (d.dropTransfer io, sendErr seq SmpSt.errTransfer)
            else writeChunk io seq idx0 idx1 data path d
      | _ => (d, sendErr seq SmpSt.errInvalid)
  | _, _ => (d, sendErr seq SmpSt.errTransfer)

def handleFsUploadEnd (io : Io) (seq : UInt8) (body : List UInt8) (d : Device) :
    Device × List Reply :=
  if !d.xfer.active || !d.xfer.isUpload then (d, sendErr seq SmpSt.errTransfer)
  else
    match body with
    | id :: b0 :: b1 :: b2 :: b3 :: _ =>
        if id ≠ d.xfer.id then (d, sendErr seq SmpSt.errTransfer)
        else
          let hostCrc := UInt32.ofNat
            (b0.toNat ||| b1.toNat <<< 8 ||| b2.toNat <<< 16 ||| b3.toNat <<< 24)
          let finalCrc := ~~~d.xfer.crc32
          if hostCrc ≠ finalCrc then (d.dropTransfer io, sendErr seq SmpSt.errInvalid)
          else (d.dropTransfer io, sendErr seq SmpSt.ok)
    | _ => (d, sendErr seq SmpSt.errInvalid)

def handleFsDlBegin (io : Io) (seq : UInt8) (body : List UInt8) (d : Device) :
    Device × List Reply :=
  if d.xfer.active then (d, sendErr seq SmpSt.errTransfer)
  else
    match pathValidSd body with
    | none => (d, sendErr seq SmpSt.errInvalid)
    | some path =>
        match d.files path with
        | none => (d, sendErr seq SmpSt.errNotFound)
        | some content =>
            if !io.opens then (d, sendErr seq SmpSt.errIo)
            -- `ftell` reports a failure where its `long` cannot hold the position
            else if 2 ^ 31 ≤ content.length then (d, sendErr seq SmpSt.errIo)
            else
              let fileSize := UInt32.ofNat content.length
              let finalCrc := ~~~(crc32Buf 0xFFFFFFFF content)
              let chunkCount := ((fileSize + 1023) / 1024).toUInt16
              ({ d with
                  xfer :=
                    { fp := some path
                      fileSize := fileSize
                      crc32 := finalCrc
                      chunkCount := chunkCount
                      nextChunk := 0
                      id := 0x00
                      isUpload := false
                      writes := [] } },
                [⟨seq, SmpSt.ok, [0x00] ++ leBytes 4 fileSize.toNat ++
                  leBytes 2 chunkCount.toNat ++ leBytes 4 finalCrc.toNat⟩])

def handleFsDlChunk (seq : UInt8) (body : List UInt8) (d : Device) : Device × List Reply :=
  match d.xfer.fp, d.xfer.isUpload with
  | some path, false =>
      match body with
      | id :: idx0 :: idx1 :: _ =>
          if id ≠ d.xfer.id then (d, sendErr seq SmpSt.errTransfer)
          else
            let chunkIdx := UInt16.ofNat (idx0.toNat ||| idx1.toNat <<< 8)
            if chunkIdx ≥ d.xfer.chunkCount then (d, sendErr seq SmpSt.errInvalid)
            else
              let content := (d.files path).getD []
              (d, [⟨seq, SmpSt.ok, [id, idx0, idx1] ++
                (content.drop (chunkIdx.toNat * smpChunkSize)).take smpChunkSize⟩])
      | _ => (d, sendErr seq SmpSt.errInvalid)
  | _, _ => (d, sendErr seq SmpSt.errTransfer)

def handleFsDlEnd (io : Io) (seq : UInt8) (body : List UInt8) (d : Device) :
    Device × List Reply :=
  if !d.xfer.active || d.xfer.isUpload then (d, sendErr seq SmpSt.errTransfer)
  else if body.head? ≠ some d.xfer.id then (d, sendErr seq SmpSt.errTransfer)
  else (d.dropTransfer io, sendErr seq SmpSt.ok)

/-- The handlers that are not modelled: what they do to the device, and the
status and the body of their reply. -/
abbrev OtherHandlers := UInt8 → List UInt8 → Device → Device × UInt8 × List UInt8

/-- The inputs of the device. -/
inductive DeviceIn where
  | frame (payload : List UInt8) (io : Io)
  | timeout (io : Io)
  | userBack (io : Io)
deriving Repr, DecidableEq

section Dispatch

variable (other : OtherHandlers)

def dispatchCommand (io : Io) (payload : List UInt8) (d : Device) : Device × List Reply :=
  match payload with
  | seq :: cmd :: _flags :: body =>
      if !d.sessionActive && cmd ≠ SmpCmd.sessionStart then
        (d, sendErr seq SmpSt.errNoSession)
      else if cmd = SmpCmd.sessionStart then handleSessionStart io seq body d
      else if cmd = SmpCmd.sessionEnd then handleSessionEnd io seq d
      else if cmd = SmpCmd.keepalive then handleKeepalive seq d
      else if cmd = SmpCmd.fsUploadBegin then handleFsUploadBegin io seq body d
      else if cmd = SmpCmd.fsUploadChunk then handleFsUploadChunk io seq body d
      else if cmd = SmpCmd.fsUploadEnd then handleFsUploadEnd io seq body d
      else if cmd = SmpCmd.fsDlBegin then handleFsDlBegin io seq body d
      else if cmd = SmpCmd.fsDlChunk then handleFsDlChunk seq body d
      else if cmd = SmpCmd.fsDlEnd then handleFsDlEnd io seq body d
      else
        let (d', status, respBody) := other cmd body d
        (d', [⟨seq, status, respBody⟩])
  | _ => (d, [])

/-- One input of the device. -/
def deviceStep (d : Device) : DeviceIn → Device × List Reply
  | .frame payload io => dispatchCommand other io payload d
  | .timeout io => (sessionTimeoutCb io d, [])
  | .userBack io => handleActionBack io d

/-- A handler answers with one frame, under the sequence number it was given. -/
def Answers (seq : UInt8) (out : Device × List Reply) : Prop :=
  ∃ status body, out.2 = [⟨seq, status, body⟩]

theorem answers_sendErr (d : Device) (seq status : UInt8) :
    Answers seq (d, sendErr seq status) := ⟨status, [], rfl⟩

theorem answers_reply (d : Device) (seq status : UInt8) (body : List UInt8) :
    Answers seq (d, [⟨seq, status, body⟩]) := ⟨status, body, rfl⟩

theorem handleSessionStart_answers (io : Io) (seq : UInt8) (body : List UInt8) (d : Device) :
    Answers seq (handleSessionStart io seq body d) := by
  unfold handleSessionStart
  split_ifs
  exacts [answers_sendErr .., answers_sendErr .., answers_sendErr .., answers_sendErr ..,
    answers_reply ..]

theorem handleFsUploadBegin_answers (io : Io) (seq : UInt8) (body : List UInt8)
    (d : Device) : Answers seq (handleFsUploadBegin io seq body d) := by
  unfold handleFsUploadBegin
  split
  · exact answers_sendErr ..
  · split
    · simp only
      split_ifs
      exacts [answers_sendErr .., answers_sendErr .., answers_reply ..]
    · exact answers_sendErr ..

theorem writeChunk_answers (io : Io) (seq idx0 idx1 : UInt8) (data : List UInt8)
    (path : Path) (d : Device) : Answers seq (writeChunk io seq idx0 idx1 data path d) := by
  unfold writeChunk
  simp only
  split_ifs
  exacts [answers_sendErr .., answers_reply ..]

theorem handleFsUploadChunk_answers (io : Io) (seq : UInt8) (body : List UInt8)
    (d : Device) : Answers seq (handleFsUploadChunk io seq body d) := by
  unfold handleFsUploadChunk
  split
  · split
    · simp only
      split_ifs
      exacts [answers_sendErr .., answers_reply .., answers_sendErr .., writeChunk_answers ..]
    · exact answers_sendErr ..
  · exact answers_sendErr ..

theorem handleFsUploadEnd_answers (io : Io) (seq : UInt8) (body : List UInt8)
    (d : Device) : Answers seq (handleFsUploadEnd io seq body d) := by
  unfold handleFsUploadEnd
  split
  · exact answers_sendErr ..
  · split
    · simp only
      split_ifs
      exacts [answers_sendErr .., answers_sendErr .., answers_sendErr ..]
    · exact answers_sendErr ..

theorem handleFsDlBegin_answers (io : Io) (seq : UInt8) (body : List UInt8)
    (d : Device) : Answers seq (handleFsDlBegin io seq body d) := by
  unfold handleFsDlBegin
  split
  · exact answers_sendErr ..
  · split
    · exact answers_sendErr ..
    · split
      · exact answers_sendErr ..
      · split_ifs
        exacts [answers_sendErr .., answers_sendErr .., answers_reply ..]

theorem handleFsDlChunk_answers (seq : UInt8) (body : List UInt8) (d : Device) :
    Answers seq (handleFsDlChunk seq body d) := by
  unfold handleFsDlChunk
  split
  · split
    · simp only
      split_ifs
      exacts [answers_sendErr .., answers_sendErr .., answers_reply ..]
    · exact answers_sendErr ..
  · exact answers_sendErr ..

theorem handleFsDlEnd_answers (io : Io) (seq : UInt8) (body : List UInt8) (d : Device) :
    Answers seq (handleFsDlEnd io seq body d) := by
  unfold handleFsDlEnd
  split_ifs
  exacts [answers_sendErr .., answers_sendErr .., answers_sendErr ..]

/-- Every command gets one reply, with the sequence number of the command. -/
theorem dispatchCommand_answers (io : Io) (seq cmd flags : UInt8) (body : List UInt8)
    (d : Device) :
    Answers seq (dispatchCommand other io (seq :: cmd :: flags :: body) d) := by
  unfold dispatchCommand
  simp only
  split_ifs
  exacts [answers_sendErr .., handleSessionStart_answers .., answers_sendErr ..,
    answers_sendErr .., handleFsUploadBegin_answers .., handleFsUploadChunk_answers ..,
    handleFsUploadEnd_answers .., handleFsDlBegin_answers .., handleFsDlChunk_answers ..,
    handleFsDlEnd_answers .., answers_reply ..]

@[simp] theorem dispatchCommand_no_session (io : Io) (seq cmd flags : UInt8)
    (body : List UInt8) (d : Device) (hs : d.sessionActive = false)
    (hcmd : cmd ≠ SmpCmd.sessionStart) :
    dispatchCommand other io (seq :: cmd :: flags :: body) d =
      (d, sendErr seq SmpSt.errNoSession) := by
  simp [dispatchCommand, hs, hcmd]

theorem dispatchCommand_uploadBegin (io : Io) (seq flags : UInt8) (body : List UInt8)
    (d : Device) (hs : d.sessionActive = true) :
    dispatchCommand other io (seq :: SmpCmd.fsUploadBegin :: flags :: body) d =
      handleFsUploadBegin io seq body d := by
  simp [dispatchCommand, hs, SmpCmd.fsUploadBegin, SmpCmd.sessionStart, SmpCmd.sessionEnd,
    SmpCmd.keepalive]

theorem dispatchCommand_uploadChunk (io : Io) (seq flags : UInt8) (body : List UInt8)
    (d : Device) (hs : d.sessionActive = true) :
    dispatchCommand other io (seq :: SmpCmd.fsUploadChunk :: flags :: body) d =
      handleFsUploadChunk io seq body d := by
  simp [dispatchCommand, hs, SmpCmd.fsUploadBegin, SmpCmd.sessionStart, SmpCmd.sessionEnd,
    SmpCmd.keepalive, SmpCmd.fsUploadChunk]

theorem dispatchCommand_uploadEnd (io : Io) (seq flags : UInt8) (body : List UInt8)
    (d : Device) (hs : d.sessionActive = true) :
    dispatchCommand other io (seq :: SmpCmd.fsUploadEnd :: flags :: body) d =
      handleFsUploadEnd io seq body d := by
  simp [dispatchCommand, hs, SmpCmd.fsUploadBegin, SmpCmd.sessionStart, SmpCmd.sessionEnd,
    SmpCmd.keepalive, SmpCmd.fsUploadChunk, SmpCmd.fsUploadEnd]

end Dispatch

end Serial
end JppDos
