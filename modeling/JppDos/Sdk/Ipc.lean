import JppDos.Lib.Numerals
import JppDos.Sdk.AppId
import JppDos.Sdk.Broker

/-!
# Messages between apps

A message is a file in a directory that the recipient's mailbox keeps for its sender.
A receiver lists the mailbox, lists the first sender's directory, reads the first file
in it and deletes it.  The listings hand out pointers into buffers that are gone when
the receiver follows them: such a read is an input of the model.

Main fact:
* `firstEntry_eq`: which entry a receiver finds as the first one.
-/

namespace JppDos
namespace Sdk

open CText Numerals

/-- A message file below `/sd/ipc`. -/
structure IpcMessage where
  recipient : CStr
  sender : CStr
  name : CStr
  text : List UInt8
  deriving DecidableEq

/-- The directories of the senders with their recipients, the message files, and the
static buffers of the services; the directories and files in the order of a listing. -/
structure IpcIo where
  senderDirs : List (CStr × CStr)
  files : List IpcMessage
  listText : List UInt8
  fileReadBuf : List UInt8
  deriving DecidableEq

/-- Where a result's pointer leads. -/
inductive Ptr
  /-- A string literal. -/
  | literal (s : String)
  /-- The buffer `key` of a listing that has returned. -/
  | listKey
  /-- The name in the directory entry of a listing that has closed its directory. -/
  | entryName
  /-- `s_list_text`. -/
  | listText
  /-- `s_file_read_buf`. -/
  | fileReadBuf
  deriving DecidableEq

/-- What the two dead buffers of a listing hold. -/
structure Dead where
  key : CStr
  name : CStr
  deriving DecidableEq

/-- A read through a pointer, while the dead buffers hold the given bytes. -/
def deref (io : IpcIo) (dead : Dead) : Ptr → CStr
  | .literal s => CStr.ofBytes (ascii s)
  | .listKey => dead.key
  | .entryName => dead.name
  | .listText => CStr.ofBytes io.listText
  | .fileReadBuf => CStr.ofBytes io.fileReadBuf

/-- A new entry of a directory takes any place in it. -/
def insertAt {α : Type} (slot : Nat) (a : α) (entries : List α) : List α :=
  entries.take slot ++ a :: entries.drop slot

/-- The size of `s_list_text`. -/
def listTextSize : Nat := 1024

/-- The variables of the loop of `sd_file_list_cb`. -/
structure ListLoop where
  result : BrokerResult Ptr
  text : List UInt8
  pos : Nat
  idx : Nat
  dead : Dead

/-- `entry_N`. -/
def entryKey (idx : Nat) : CStr := CStr.ofBytes (ascii "entry_" ++ showBase 10 idx)

/-- One turn of the loop of `sd_file_list_cb`, for the next entry of the directory. -/
def listEntry (l : ListLoop) (name : CStr) : ListLoop :=
  let l := { l with dead := { l.dead with name := name } }
  if name.val.head? = some 46 then l
  else
    let piece := (if 0 < l.pos then [10] else []) ++ name.val
    let room := listTextSize - l.pos
    let text := l.text.take l.pos ++ piece.take (room - 1)
    let pos := if 0 < piece.length ∧ piece.length < room then l.pos + piece.length else l.pos
    let l := { l with text := text, pos := pos }
    if l.idx + 1 < resultFieldCapacity then
      let (status, result) := resultPut l.result .listKey .entryName
      { l with
        result := result
        idx := if status = .ok then l.idx + 1 else l.idx
        dead := { l.dead with key := entryKey l.idx } }
    else l

/-- The loop over the entries of a directory. -/
def listLoop (names : List CStr) : ListLoop :=
  names.foldl listEntry
    { result := okResult, text := [], pos := 0, idx := 0,
      dead := ⟨CStr.ofBytes [], CStr.ofBytes []⟩ }

/-- `sd_file_list_cb`, on a directory with the given entries if it is there. -/
def sdFileListCb (names : IpcIo → Option (List CStr)) (io : IpcIo) :
    BrokerStatus × BrokerResult Ptr × IpcIo :=
  match names io with
  | none => (.ok, errorResult "DIR_NOT_FOUND", io)
  | some names =>
      let l := listLoop names
      (.ok, (resultPut l.result (.literal "text") .listText).2, { io with listText := l.text })

/-- The sender directories in a recipient's mailbox. -/
def senders (recipient : CStr) (io : IpcIo) : List CStr :=
  (io.senderDirs.filter fun d => d.1 = recipient).map Prod.snd

/-- The entries of `/sd/ipc/<recipient>`. -/
def mailboxNames (recipient : CStr) (io : IpcIo) : Option (List CStr) :=
  if senders recipient io = [] then none else some (senders recipient io)

/-- The files of a sender in a recipient's mailbox. -/
def filesFrom (recipient sender : CStr) (io : IpcIo) : List IpcMessage :=
  io.files.filter fun m => m.recipient = recipient ∧ m.sender = sender

/-- The entries of `/sd/ipc/<recipient>/<sender>`. -/
def senderNames (recipient sender : CStr) (io : IpcIo) : Option (List CStr) :=
  if sender ∈ senders recipient io then
    some ((filesFrom recipient sender io).map IpcMessage.name)
  else none

/-- The file has this path. -/
def IpcMessage.at (recipient sender name : CStr) (m : IpcMessage) : Bool :=
  m.recipient == recipient && m.sender == sender && m.name == name

/-- The size of `s_file_read_buf`. -/
def fileReadBufSize : Nat := 4096

/-- `sd_file_read_cb`. -/
def sdFileReadCb (recipient sender name : CStr) (io : IpcIo) :
    BrokerStatus × BrokerResult Ptr × IpcIo :=
  match io.files.find? (IpcMessage.at recipient sender name) with
  | none => (.ok, errorResult "FILE_NOT_FOUND", io)
  | some m =>
      let io := { io with fileReadBuf := m.text.take (fileReadBufSize - 1) ++ [0] }
      (.ok, (resultPut okResult (.literal "text") .fileReadBuf).2, io)

/-- The places that a new directory and a new file take in their listings. -/
structure Slots where
  dir : Nat
  file : Nat
  deriving DecidableEq

/-- Write a file: the content of an existing one is replaced. -/
def writeFile (slot : Nat) (m : IpcMessage) (files : List IpcMessage) : List IpcMessage :=
  if files.any (IpcMessage.at m.recipient m.sender m.name) then
    files.map fun old =>
      if old.at m.recipient m.sender m.name then { old with text := m.text } else old
  else insertAt slot m files

/-- `sd_file_write_cb`. -/
def sdFileWriteCb (slots : Slots) (m : IpcMessage) (io : IpcIo) :
    BrokerStatus × BrokerResult Ptr × IpcIo :=
  let dirs :=
    if (m.recipient, m.sender) ∈ io.senderDirs then io.senderDirs
    else insertAt slots.dir (m.recipient, m.sender) io.senderDirs
  (.ok, okResult, { io with senderDirs := dirs, files := writeFile slots.file m io.files })

/-- `sd_file_delete_cb`. -/
def sdFileDeleteCb (recipient sender name : CStr) (io : IpcIo) :
    BrokerStatus × BrokerResult Ptr × IpcIo :=
  if io.files.any (IpcMessage.at recipient sender name) then
    (.ok, okResult, { io with files := io.files.eraseP (IpcMessage.at recipient sender name) })
  else (.ok, errorResult "DELETE_FAILED", io)

/-- The context of an app as far as these calls read it. -/
structure SdkCaller where
  bound : Bool
  appId : AppId
  deriving DecidableEq

/-- The lock set that all contexts share, and the files. -/
structure IpcState where
  locks : LockSet
  io : IpcIo
  deriving DecidableEq

/-- `JPP_SDK_IPC_PAYLOAD_MAX`. -/
def ipcPayloadMax : Nat := 512

/-- `jpp_sdk_app_id_segment_is_safe`. -/
def appIdSegmentIsSafe (id : CStr) : Bool :=
  id.val ≠ [] && id.val.all fun c => !(c == 47 || c == 46 || c == 92)

/-- `msg_<tick>.json`. -/
def messageName (tick : UInt32) : CStr :=
  CStr.ofBytes (ascii "msg_" ++ showBase 10 tick.toNat ++ ascii ".json")

/-- `jpp_sdk_ipc_send`; the tick count and the places of new files come from outside. -/
def ipcSend (s : IpcState) (caller : SdkCaller) (recipient payload : CStr) (tick : UInt32)
    (slots : Slots) : IpcState × SdkStatus :=
  if !caller.bound then (s, .invalidState)
  else if !appIdSegmentIsSafe recipient then (s, .invalidArgument)
  else if ipcPayloadMax ≤ payload.strlen then (s, .invalidArgument)
  else if sdkPathMax < 16 + recipient.strlen + caller.appId.val.strlen + 20 then
    (s, .invalidArgument)
  else
    let m : IpcMessage :=
      { recipient := recipient, sender := caller.appId, name := messageName tick,
        text := payload.val }
    let (status, _, locks, io) :=
      runExclusive Ptr.literal "storage" (sdFileWriteCb slots m) s.locks s.io
    (⟨locks, io⟩, if status = .ok then .ok else .brokerError)

/-- What the dead buffers hold at the receiver's reads of them. -/
structure Residue where
  /-- After the listing of the mailbox. -/
  first : Dead
  /-- After the listing of the sender's directory. -/
  second : Dead
  /-- The sender's name when the path of the message is built. -/
  sender : CStr
  /-- The sender's name when the caller reads it from the result. -/
  reported : CStr

/-- What a receiver gets: the status, and with a message its text and its sender. -/
structure RecvAnswer where
  status : SdkStatus
  code : String
  out : Option CStr
  sender : Option CStr
  deriving DecidableEq

/-- A listing under the lock, and the name that its field `entry_0` leads to. -/
def firstEntry (names : IpcIo → Option (List CStr)) (dead : Dead) (s : IpcState) :
    IpcState × Option CStr :=
  let (status, list, locks, io) :=
    runExclusive Ptr.literal "storage" (sdFileListCb names) s.locks s.io
  let s : IpcState := ⟨locks, io⟩
  match list with
  | none => (s, none)
  | some list =>
      if status ≠ .ok ∨ list.ok = false then (s, none)
      else
        match resultGet (deref io dead) list (entryKey 0) with
        | none => (s, none)
        | some entry =>
            if (deref io dead entry).strlen = 0 then (s, none)
            else (s, some (deref io dead entry))

/-- The answer of a receiver that found nothing to read. -/
def noMessages : RecvAnswer := ⟨.noData, "NO_MESSAGES", none, none⟩

/-- The rest of `jpp_sdk_ipc_recv` once the message is found: read it and delete it. -/
def takeMessage (s : IpcState) (self name : CStr) (payloadBufLen : Nat) (residue : Residue) :
    IpcState × RecvAnswer :=
  let (status, read, locks, io) := runExclusive Ptr.literal "storage"
    (sdFileReadCb self residue.sender name) s.locks s.io
  match read with
  | none => (⟨locks, io⟩, ⟨.brokerError, "READ_FAILED", none, none⟩)
  | some read =>
      if status ≠ .ok ∨ read.ok = false then
        (⟨locks, io⟩, ⟨.brokerError, "READ_FAILED", none, none⟩)
      else
        let memory := deref io residue.second
        let text :=
          match resultGet memory read (CStr.ofBytes (ascii "text")) with
          | none => CStr.ofBytes []
          | some p => memory p
        let (_, _, locks, io) := runExclusive Ptr.literal "storage"
          (sdFileDeleteCb self residue.sender name) locks io
        (⟨locks, io⟩, ⟨.ok, "OK", some (text.strncpy payloadBufLen), some residue.reported⟩)

/-- `jpp_sdk_ipc_recv`. -/
def ipcRecv (s : IpcState) (caller : SdkCaller) (payloadBufLen : Nat) (residue : Residue) :
    IpcState × RecvAnswer :=
  if !caller.bound then (s, ⟨.invalidState, "", none, none⟩)
  else if payloadBufLen = 0 then (s, ⟨.invalidArgument, "", none, none⟩)
  else
    let self := caller.appId.val
    match firstEntry (mailboxNames self) residue.first s with
    | (s, none) => (s, noMessages)
    | (s, some sender) =>
        match firstEntry (senderNames self sender) residue.second s with
        | (s, none) => (s, noMessages)
        | (s, some name) => takeMessage s self name payloadBufLen residue

/-- An entry that a listing shows. -/
def Shown (name : CStr) : Prop := name.val.head? ≠ some 46

instance (name : CStr) : Decidable (Shown name) := inferInstanceAs (Decidable (_ ≠ _))

/-- What every turn of the loop keeps: the entries all point to the same two buffers. -/
structure ListLoop.Kept (l : ListLoop) : Prop where
  ok : l.result.ok = true
  fields : l.result.fields = List.replicate l.idx (Ptr.listKey, Ptr.entryName)
  room : l.idx < resultFieldCapacity

theorem ListLoop.Kept.listEntry {l : ListLoop} (h : l.Kept) (name : CStr) :
    (listEntry l name).Kept := by
  rw [Sdk.listEntry]
  dsimp only
  split
  · exact ⟨h.ok, h.fields, h.room⟩
  · split
    · rename_i hroom
      have hfree : ¬ resultFieldCapacity ≤ l.result.fields.length := by
        rw [h.fields, List.length_replicate]
        exact Nat.not_le_of_lt h.room
      rw [resultPut, if_neg hfree]
      refine ⟨h.ok, ?_, hroom⟩
      rw [h.fields, if_pos rfl, List.replicate_succ']
    · exact ⟨h.ok, h.fields, h.room⟩

theorem listLoop_kept (names : List CStr) : (listLoop names).Kept := by
  have hfold : ∀ l : ListLoop, l.Kept → (names.foldl listEntry l).Kept := by
    induction names with
    | nil => exact fun l h => h
    | cons name names ih => exact fun l h => ih _ (h.listEntry name)
  exact hfold _ ⟨rfl, rfl, by decide⟩

theorem listLoop_single {name : CStr} (h : Shown name) :
    (listLoop [name]).idx = 1 ∧ (listLoop [name]).dead = ⟨entryKey 0, name⟩ := by
  simp [listLoop, listEntry, resultPut, resultFieldCapacity, okResult, show ¬ _ = _ from h]

/-- The result of a listing shows its first entry if the dead key reads as `entry_0`. -/
theorem resultGet_listing (names : List CStr) (memory : Ptr → CStr)
    (htext : memory (.literal "text") ≠ entryKey 0) :
    resultGet memory (resultPut (listLoop names).result (.literal "text") .listText).2
        (entryKey 0) =
      if 0 < (listLoop names).idx ∧ memory .listKey = entryKey 0 then some .entryName
      else none := by
  have h := listLoop_kept names
  have hfree : ¬ resultFieldCapacity ≤ (listLoop names).result.fields.length := by
    rw [h.fields, List.length_replicate]
    exact Nat.not_le_of_lt h.room
  rw [resultPut, if_neg hfree, resultGet, h.fields]
  cases (listLoop names).idx with
  | zero => simp [htext]
  | succ idx =>
      by_cases hkey : memory .listKey = entryKey 0
      · simp [List.replicate_succ, hkey]
      · simp [List.find?_append, hkey, htext]

theorem text_ne_entryKey : CStr.ofBytes (ascii "text") ≠ entryKey 0 := by decide

/-- What a receiver finds as the first entry, and what the listing leaves alone. -/
theorem firstEntry_eq {s : IpcState} (hidle : Idle s.locks)
    (names : IpcIo → Option (List CStr)) (dead : Dead) :
    ∃ text, firstEntry names dead s =
      if Lockable s.locks "storage" then
        (⟨register s.locks "storage", { s.io with listText := text }⟩,
          match names s.io with
          | none => none
          | some entries =>
              if 0 < (listLoop entries).idx ∧ dead.key = entryKey 0 ∧ dead.name.strlen ≠ 0 then
                some dead.name
              else none)
      else (s, none) := by
  by_cases hlock : Lockable s.locks "storage"
  · simp only [if_pos hlock, firstEntry, runExclusive_idle hidle, sdFileListCb]
    cases names s.io with
    | none => exact ⟨s.io.listText, rfl⟩
    | some entries =>
        refine ⟨(listLoop entries).text, ?_⟩
        have hok : (resultPut (listLoop entries).result (.literal "text") .listText).2.ok =
            true := by
          rw [resultPut]
          split <;> exact (listLoop_kept entries).ok
        simp only [resultGet_listing entries (deref _ dead) text_ne_entryKey, hok]
        by_cases hentry : 0 < (listLoop entries).idx ∧ dead.key = entryKey 0
        · by_cases hname : dead.name.strlen = 0 <;> simp [hentry, hname, deref]
        · have hnone : ¬ (0 < (listLoop entries).idx ∧ dead.key = entryKey 0 ∧
              dead.name.strlen ≠ 0) := fun h => hentry ⟨h.1, h.2.1⟩
          simp [hentry, hnone, deref]
  · refine ⟨[], ?_⟩
    simp [firstEntry, runExclusive_idle hidle, hlock]

end Sdk
end JppDos
