import JppDos.Ble.Msg
import JppDos.Lib.Machine
import JppDos.Lib.Numerals
import JppDos.Sdk.Calls

/-!
# The Bluetooth client

The calls by which an app scans, connects to peers, reads and writes their characteristics and
disconnects.  A call asks the host stack to do something and waits on one binary semaphore,
`s_ble_done`, which the callbacks of the host's task give; `s_conns` says which slots hold a
connection.  The app's task and the host's task take their steps in any order.

Every operation that the host accepts has a number, and so has every loss of a link that nobody
asked for.  The numbers say which of them a token was given for; the code only sees whether
there is one.
-/

namespace JppDos
namespace Ble

open CText Numerals Sdk

/-- The directives of the `sscanf` formats: `%x` with a width, or a character. -/
inductive Directive
  | hex (width : Nat)
  | literal (c : UInt8)

/-- The value of a hexadecimal digit of either case. -/
def hexDigit (c : UInt8) : Option Nat := Numerals.digitVal (lower c)

/-- `%x` with a width: white space, then at most so many characters, a sign and digits; the
value is that of an `unsigned int`. -/
def scanHex (width : Nat) (s : List UInt8) : Option (Nat × List UInt8) :=
  let (negative, width, s) :=
    match width, s.dropWhile isSpace with
    | width + 1, 43 :: rest => (false, width, rest)
    | width + 1, 45 :: rest => (true, width, rest)
    | width, s => (false, width, s)
  let ds := (s.take width).takeWhile fun c => (hexDigit c).isSome
  if ds.isEmpty then none
  else
    let v := ds.foldl (fun acc c => 16 * acc + (hexDigit c).getD 0) 0
    some (if negative then (2 ^ 32 - v) % 2 ^ 32 else v, s.drop ds.length)

/-- The values that `sscanf` converts until a directive fails. -/
def sscanf : List Directive → List UInt8 → List Nat
  | [], _ => []
  | .hex width :: format, s =>
      match scanHex width s with
      | some (v, rest) => v :: sscanf format rest
      | none => []
  | .literal c :: format, b :: s => if b = c then sscanf format s else []
  | .literal _ :: _, [] => []

/-- `val` of a `ble_addr_t`, the last byte of the written form first. -/
abbrev BdAddr : Type := List UInt8

/-- `%02X:%02X:%02X:%02X:%02X:%02X`. -/
def addrFormat : List Directive :=
  [.hex 2, .literal 58, .hex 2, .literal 58, .hex 2, .literal 58, .hex 2, .literal 58, .hex 2,
    .literal 58, .hex 2]

/-- `str_to_addr`. -/
def strToAddr (str : CStr) : Option BdAddr :=
  let b := sscanf addrFormat str.val
  if b.length = 6 then some (b.reverse.map UInt8.ofNat) else none

/-- `addr_to_str`. -/
def addrToStr (addr : BdAddr) : List UInt8 :=
  List.intercalate [58] (addr.reverse.map upperByte)

/-- `ble_uuid_any_t`. -/
inductive Uuid
  | u128 (value : List UInt8)
  | u16 (value : UInt16)
  deriving DecidableEq

/-- The format of a written 128-bit UUID. -/
def uuidFormat : List Directive :=
  let pairs (n : Nat) : List Directive := List.replicate n (.hex 2)
  pairs 4 ++ .literal 45 :: pairs 2 ++ .literal 45 :: pairs 2 ++ .literal 45 :: pairs 2 ++
    .literal 45 :: pairs 6

/-- `parse_uuid`. -/
def parseUuid (str : CStr) : Option Uuid :=
  let b := sscanf uuidFormat str.val
  if str.strlen = 36 ∧ b.length = 16 then some (.u128 (b.reverse.map UInt8.ofNat))
  else
    match sscanf [.hex 4] str.val with
    | [] => none
    | v :: _ => some (.u16 (UInt16.ofNat v))

/-- The size of `write_buf`. -/
def writeBufSize : Nat := 4096

/-- `hex_decode`. -/
def hexDecode (hex : CStr) (outMax : Nat) : Option (List UInt8) :=
  if hex.strlen % 2 ≠ 0 then none
  else
    (List.range (min (hex.strlen / 2) outMax)).mapM fun i =>
      (scanHex 2 (hex.val.drop (2 * i))).map fun (byte, _) => UInt8.ofNat byte

/-- `ble_conn_slot_t`. -/
structure ConnSlot where
  address : CStr
  handle : Nat
  rxCharHandle : Nat
  txCharHandle : Nat
  active : Bool
  deriving DecidableEq

/-- A slot after `memset`. -/
def ConnSlot.zero : ConnSlot := ⟨lit "", 0, 0, 0, false⟩

/-- What the host is asked to do, with what the caller needs when it goes on: the slot of
`s_conns` and, where it is used, the entry `conn` of the app's own table. -/
inductive HostCall
  /-- `ble_gap_disc`. -/
  | disc (durationMs : Nat)
  /-- `ble_gap_connect`. -/
  | connect (conn slot : Nat) (address : CStr) (peer : BdAddr)
  /-- `ble_gattc_exchange_mtu`. -/
  | exchangeMtu (conn slot : Nat) (address : CStr)
  /-- `ble_gattc_disc_chrs_by_uuid` for a read. -/
  | discForRead (slot : Nat) (uuid : Uuid)
  /-- `ble_gattc_read_long`. -/
  | readLong (slot : Nat)
  /-- `ble_gattc_disc_chrs_by_uuid` for a write. -/
  | discForWrite (slot : Nat) (uuid : Uuid) (data : List UInt8)
  /-- `ble_gattc_write_flat` or `ble_gattc_write_long`. -/
  | write (slot : Nat) (data : List UInt8)
  /-- `ble_gap_terminate`. -/
  | terminate (conn slot : Nat)
  deriving DecidableEq

/-- Where the app's task stands. -/
inductive ClientStage
  /-- In no client call. -/
  | idle
  /-- About to call the host. -/
  | calling (call : HostCall)
  /-- In `xSemaphoreTake`, for the operation with this number. -/
  | waiting (call : HostCall) (op : Nat)
  /-- The token is taken and nothing else done since. -/
  | woken (call : HostCall)
  /-- The wait for a disconnect has timed out, and `s_awaiting_disc` is not cleared yet. -/
  | timedOut (conn slot : Nat)
  deriving DecidableEq

/-- An operation that the host has accepted and not completed. -/
structure Request where
  op : Nat
  call : HostCall
  /-- The session of the app that asked. -/
  session : Nat
  deriving DecidableEq

/-- A link that is up. -/
structure Link where
  handle : Nat
  peer : BdAddr
  /-- The argument of its callback. -/
  slot : Nat
  /-- The session of the app that opened it. -/
  session : Nat
  /-- The operation that asked to terminate it. -/
  terminating : Option Nat
  deriving DecidableEq

/-- `jpp_sdk_ble_scan_result_t`. -/
structure ScanResult where
  address : List UInt8
  name : List UInt8
  rssi : Int
  adData : List UInt8
  deriving DecidableEq

/-- What the callbacks hand over besides the status: `s_scan_ctx`, `s_read_buf` with its
length, and `s_discovered_handle`. -/
structure ClientIo where
  maxResults : Nat
  results : List ScanResult
  readBuf : List UInt8
  readLen : Nat
  discoveredHandle : Nat
  deriving DecidableEq

/-- The size of `s_read_buf`. -/
def readBufSize : Nat := 2048

/-- The client side of the device and the links of the host. -/
structure Client where
  /-- `s_conns`. -/
  slots : List ConnSlot
  /-- `s_ble_done`: empty, or given for the operation or the loss with this number. -/
  done : Option Nat
  /-- `s_ble_status`. -/
  status : Int
  io : ClientIo
  /-- `s_awaiting_disc`. -/
  awaitingDisc : Bool
  /-- `s_op_in_progress`. -/
  opInProgress : Bool
  /-- The broker's lock `ble_client`. -/
  clientLocked : Bool
  /-- The broker's lock `ble_radio`. -/
  radioLocked : Bool
  /-- `ble_conns` of the app's context. -/
  conns : List (Option CStr)
  stage : ClientStage
  requests : List Request
  links : List Link
  /-- A callback has done its work but for giving the semaphore, for this number. -/
  callback : Option Nat
  nextOp : Nat
  /-- The sessions that have ended. -/
  session : Nat
  deriving DecidableEq

/-- After `jpp_ble_native_init`, in the first session. -/
def Client.boot : Client where
  slots := List.replicate bleConnCapacity .zero
  done := none
  status := 0
  io := ⟨0, [], List.replicate readBufSize 0, 0, 0⟩
  awaitingDisc := false
  opInProgress := false
  clientLocked := false
  radioLocked := false
  conns := List.replicate bleConnCapacity none
  stage := .idle
  requests := []
  links := []
  callback := none
  nextOp := 0
  session := 0

/-- What can be seen of the calls. -/
inductive ClientEvent
  /-- An operation has consumed a token that was given for this number. -/
  | took (op token : Nat)
  /-- A connect is refused with `BLE_CONN_LIMIT` while so many links of the app are up. -/
  | connLimit (linksUp : Nat)
  /-- The SDK refuses a call. -/
  | refused (status : SdkStatus)
  /-- A call ends with this result of the native service. -/
  | returned (result : BrokerResult (List UInt8))
  deriving DecidableEq

/-- The links of the running app that are up. -/
def Client.ownLinks (s : Client) : List Link := s.links.filter fun l => l.session = s.session

/-- `handle` of a slot. -/
def Client.handleOf (s : Client) (slot : Nat) : Nat := (s.slots.getD slot .zero).handle

/-- `find_conn_by_addr`. -/
def findConnByAddr (slots : List ConnSlot) (address : CStr) : Option Nat :=
  slots.findIdx? fun slot => slot.active && slot.address = address

/-- `find_free_conn_slot`. -/
def findFreeConnSlot (slots : List ConnSlot) : Option Nat :=
  slots.findIdx? fun slot => !slot.active

/-- The lock of the call is held. -/
def busy (resource : String) : ClientEvent :=
  .returned (resultPut (errorResult "BUSY") (ascii "resource") (ascii resource)).2

/-- A call ends before it has asked the host for anything. -/
def failEarly (code : String) (s : Client) : Client × List ClientEvent :=
  (s, [.returned (errorResult code)])

/-- A scan ends. -/
def endScan (result : BrokerResult (List UInt8)) (s : Client) : Client × List ClientEvent :=
  ({ s with stage := .idle, opInProgress := false, radioLocked := false }, [.returned result])

/-- A connect, a read or a write ends. -/
def endClient (result : BrokerResult (List UInt8)) (s : Client) : Client × List ClientEvent :=
  ({ s with stage := .idle, opInProgress := false, clientLocked := false }, [.returned result])

/-- The end of `ble_connect_impl` and of `jpp_sdk_ble_connect`. -/
def endConnect (conn slot : Nat) (address : CStr) (s : Client) : Client × List ClientEvent :=
  let address := address.strncpy bleAddrLen
  endClient okResult
    { s with
      slots := s.slots.modify slot fun e =>
        { e with address := address, rxCharHandle := 0, txCharHandle := 0, active := true }
      conns := s.conns.set conn (some address) }

/-- The end of `ble_disconnect_impl` and of `jpp_sdk_ble_disconnect`. -/
def endDisconnect (conn slot : Nat) (s : Client) : Client × List ClientEvent :=
  ({ s with
     stage := .idle, clientLocked := false, slots := s.slots.set slot .zero
     conns := s.conns.set conn none }, [.returned okResult])

/-- The assertion of `BLE_OP_ENTER` fails and the device starts again. -/
def Client.reboot (s : Client) : Client :=
  { Client.boot with nextOp := s.nextOp, session := s.session + 1 }

/-- `BLE_OP_ENTER`. -/
def opEnter (next : Client → Client) (s : Client) : Client × List ClientEvent :=
  if s.opInProgress then (s.reboot, []) else (next { s with opInProgress := true }, [])

/-- `jpp_sdk_ble_scan` and `ble_scan_impl`. -/
def beginScan (durationMs maxResults : Nat) (s : Client) : Client × List ClientEvent :=
  if s.radioLocked then (s, [busy "ble_radio"])
  else
    opEnter (fun s =>
      { s with
        radioLocked := true, io.maxResults := maxResults, io.results := [], status := -1
        stage := .calling (.disc durationMs) }) s

/-- `jpp_sdk_ble_connect` and `ble_connect_impl`. -/
def beginConnect (address : Option CStr) (s : Client) : Client × List ClientEvent :=
  match address with
  | none => (s, [.refused .invalidArgument])
  | some address =>
      if address.strlen = 0 then (s, [.refused .invalidArgument])
      else
        match s.conns.findIdx? Option.isNone with
        | none => (s, [.connLimit s.ownLinks.length])
        | some conn =>
            if s.clientLocked then (s, [busy "ble_client"])
            else
              match findFreeConnSlot s.slots with
              | none => (s, [.connLimit s.ownLinks.length])
              | some slot =>
                  match strToAddr address with
                  | none => failEarly "BLE_INVALID_ADDRESS" s
                  | some peer =>
                      opEnter (fun s =>
                        { s with
                          clientLocked := true, status := -1
                          stage := .calling (.connect conn slot address peer) }) s

/-- The read of a value whose handle is known. -/
def callReadLong (slot : Nat) (s : Client) : Client :=
  { s with status := -1, io.readLen := 0, stage := .calling (.readLong slot) }

/-- The write of a value whose handle is known. -/
def callWrite (slot : Nat) (data : List UInt8) (s : Client) : Client :=
  { s with status := -1, stage := .calling (.write slot data) }

/-- `jpp_sdk_ble_read_char` and `ble_read_char_impl`. -/
def beginRead (conn : Nat) (charUuid : Option CStr) (s : Client) : Client × List ClientEvent :=
  match charUuid, (s.conns[conn]?).join with
  | none, _ => (s, [.refused .invalidArgument])
  | some _, none => (s, [.refused .invalidBleConn])
  | some charUuid, some address =>
      if s.clientLocked then (s, [busy "ble_client"])
      else
        match findConnByAddr s.slots address with
        | none => failEarly "BLE_NOT_CONNECTED" s
        | some slot =>
            match parseUuid charUuid with
            | none => failEarly "BLE_INVALID_UUID" s
            | some uuid =>
                opEnter (fun s =>
                  let s := { s with clientLocked := true }
                  if (s.slots.getD slot .zero).txCharHandle = 0 then
                    { s with io.discoveredHandle := 0, status := -1
                             stage := .calling (.discForRead slot uuid) }
                  else callReadLong slot s) s

/-- `jpp_sdk_ble_write_char` and `ble_write_char_impl`. -/
def beginWrite (conn : Nat) (charUuid text : Option CStr) (s : Client) :
    Client × List ClientEvent :=
  match charUuid, text, (s.conns[conn]?).join with
  | some charUuid, some text, some address =>
      if s.clientLocked then (s, [busy "ble_client"])
      else
        match findConnByAddr s.slots address with
        | none => failEarly "BLE_NOT_CONNECTED" s
        | some slot =>
            match parseUuid charUuid, hexDecode text writeBufSize with
            | none, _ => failEarly "BLE_INVALID_UUID" s
            | some _, none => failEarly "BLE_WRITE_INVALID_DATA" s
            | some uuid, some data =>
                opEnter (fun s =>
                  let s := { s with clientLocked := true }
                  if (s.slots.getD slot .zero).rxCharHandle = 0 then
                    { s with io.discoveredHandle := 0, status := -1
                             stage := .calling (.discForWrite slot uuid data) }
                  else callWrite slot data s) s
  | some _, some _, none => (s, [.refused .invalidBleConn])
  | _, _, _ => (s, [.refused .invalidArgument])

/-- `jpp_sdk_ble_disconnect` and `ble_disconnect_impl`: the app's entry is cleared also when
the native service knows no such connection. -/
def beginDisconnect (conn : Nat) (s : Client) : Client × List ClientEvent :=
  match (s.conns[conn]?).join with
  | none => (s, [.refused .invalidBleConn])
  | some address =>
      let cleared := { s with conns := s.conns.set conn none }
      if s.clientLocked then (cleared, [busy "ble_client"])
      else
        match findConnByAddr s.slots address with
        | none => failEarly "BLE_NOT_CONNECTED" cleared
        | some slot =>
            ({ s with clientLocked := true, awaitingDisc := true
                      stage := .calling (.terminate conn slot) }, [])

/-- `BLE_HS_EALREADY`. -/
def hsEalready : Int := 2

/-- `BLE_HS_ENOTCONN`. -/
def hsEnotconn : Int := 7

/-- `BLE_HS_EDONE`. -/
def hsEdone : Int := 14

/-- The host has a link with this handle. -/
def Client.linked (s : Client) (handle : Nat) : Bool := s.links.any fun l => l.handle = handle

/-- The host is connecting. -/
def Client.connecting (s : Client) : Bool :=
  s.requests.any fun r => match r.call with | .connect _ _ _ _ => true | _ => false

/-- The host is scanning. -/
def Client.scanning (s : Client) : Bool :=
  s.requests.any fun r => match r.call with | .disc _ => true | _ => false

/-- What the host's own rules leave of an answer to a call: it connects to one peer at a time
and to no peer twice, and does nothing on a link that is not up. -/
def hostRc (s : Client) (rc : Int) : HostCall → Int
  | .disc _ => if s.scanning then hsEalready else rc
  | .connect _ _ _ peer =>
      if s.links.any fun l => l.peer = peer then hsEdone
      else if s.connecting then hsEalready
      else rc
  | .exchangeMtu _ slot _ | .discForRead slot _ | .readLong slot | .discForWrite slot _ _
  | .write slot _ => if s.linked (s.handleOf slot) then rc else hsEnotconn
  | .terminate _ slot =>
      match s.links.find? fun l => l.handle = s.handleOf slot with
      | none => hsEnotconn
      | some l => if l.terminating.isSome then hsEalready else rc

/-- The host accepts the operation. -/
def accept (call : HostCall) (s : Client) : Client :=
  let s' := { s with nextOp := s.nextOp + 1, stage := .waiting call s.nextOp }
  match call with
  | .terminate _ slot =>
      { s' with
        links := s.links.map fun l =>
          if l.handle = s.handleOf slot then { l with terminating := some s.nextOp } else l }
  | _ => { s' with requests := s.requests ++ [⟨s.nextOp, call, s.session⟩] }

/-- The host refuses the operation. -/
def decline (call : HostCall) (s : Client) : Client × List ClientEvent :=
  match call with
  | .disc _ => endScan (errorResult "BLE_SCAN_START_FAILED") s
  | .connect _ _ _ _ => endClient (errorResult "BLE_CONNECT_FAILED") s
  | .exchangeMtu conn slot address => endConnect conn slot address s
  | .discForRead _ _ | .discForWrite _ _ _ => endClient (errorResult "BLE_DISC_FAILED") s
  | .readLong _ => endClient (errorResult "BLE_READ_FAILED") s
  | .write _ _ => endClient (errorResult "BLE_WRITE_FAILED") s
  | .terminate conn slot => endDisconnect conn slot { s with awaitingDisc := false }

/-- A write that does not fit into one request needs memory for a copy. -/
def lacksMemory (mtu : Nat) (hasMemory : Bool) : HostCall → Bool
  | .write _ data => max 23 mtu - 3 < data.length && !hasMemory
  | _ => false

/-- A call of the host returns. -/
def hostReturn (rc : Int) (mtu : Nat) (hasMemory : Bool) (call : HostCall) (s : Client) :
    Client × List ClientEvent :=
  if lacksMemory mtu hasMemory call then endClient (errorResult "BLE_WRITE_NO_MEM") s
  else if hostRc s rc call = 0 then (accept call s, [])
  else decline call s

/-- The wait for the semaphore ends; only the wait of a disconnect can end without it. -/
def endWait (call : HostCall) (op : Nat) (s : Client) : Client × List ClientEvent :=
  match s.done, call with
  | some token, _ => ({ s with done := none, stage := .woken call }, [.took op token])
  | none, .terminate conn slot => ({ s with stage := .timedOut conn slot }, [])
  | none, _ => (s, [])

/-- The first bytes that were read, in hexadecimal digits. -/
def readText (io : ClientIo) : List UInt8 :=
  (io.readBuf.take (min io.readLen 512)).flatMap upperByte

/-- What the task does when it has the token. -/
def resume (call : HostCall) (s : Client) : Client × List ClientEvent :=
  match call with
  | .disc _ => endScan okResult s
  | .connect conn slot address _ =>
      if s.status ≠ 0 then endClient (errorResult "BLE_CONNECT_ERROR") s
      else ({ s with status := -1, stage := .calling (.exchangeMtu conn slot address) }, [])
  | .exchangeMtu conn slot address => endConnect conn slot address s
  | .discForRead slot _ =>
      if s.status ≠ 0 ∨ s.io.discoveredHandle = 0 then
        endClient (errorResult "BLE_DISC_ERROR") s
      else
        let slots := s.slots.modify slot fun e =>
          { e with txCharHandle := s.io.discoveredHandle }
        (callReadLong slot { s with slots := slots }, [])
  | .readLong _ =>
      if s.status ≠ 0 then endClient (errorResult "BLE_READ_ERROR") s
      else endClient (resultPut okResult (ascii "text") (readText s.io)).2 s
  | .discForWrite slot _ data =>
      if s.status ≠ 0 ∨ s.io.discoveredHandle = 0 then
        endClient (errorResult "BLE_DISC_ERROR") s
      else
        let slots := s.slots.modify slot fun e =>
          { e with rxCharHandle := s.io.discoveredHandle }
        (callWrite slot data { s with slots := slots }, [])
  | .write _ _ =>
      if s.status ≠ 0 then endClient (errorResult "BLE_WRITE_ERROR") s
      else endClient okResult s
  | .terminate conn slot => endDisconnect conn slot s

/-- The last callback of an operation writes this to `s_ble_status`. -/
def lastStatus (status : Int) : HostCall → Int
  | .disc _ => 0
  | .discForRead _ _ | .readLong _ | .discForWrite _ _ _ => if status = hsEdone then 0 else status
  | .connect _ _ _ _ | .exchangeMtu _ _ _ | .write _ _ | .terminate _ _ => status

/-- The host can complete an operation so: a new link has a handle and a peer of its own. -/
def Client.completable (s : Client) (status : Int) (handle : Nat) : HostCall → Bool
  | .connect _ _ _ peer =>
      status ≠ 0 || s.links.all fun l => l.handle ≠ handle && l.peer ≠ peer
  | _ => true

/-- The last callback of an operation, but for giving the semaphore; that of a connect stores
the handle of the new link in the slot. -/
def complete (r : Request) (status : Int) (handle : Nat) (s : Client) : Client :=
  let s' :=
    { s with
      requests := s.requests.filter (fun r' => r'.op ≠ r.op), callback := some r.op
      status := lastStatus status r.call }
  match r.call with
  | .connect _ slot _ peer =>
      if status = 0 then
        { s' with
          links := s.links ++ [⟨handle, peer, slot, r.session, none⟩]
          slots := s.slots.modify slot fun e => { e with handle := handle } }
      else s'
  | _ => s'

/-- A link is gone: `connect_event_cb` gives the semaphore if `s_awaiting_disc` says so. -/
def linkDown (l : Link) (s : Client) : Client :=
  let s' := { s with links := s.links.filter fun l' => l'.handle ≠ l.handle }
  if s.awaitingDisc then
    match l.terminating with
    | some op => { s' with awaitingDisc := false, callback := some op }
    | none =>
        { s' with awaitingDisc := false, callback := some s.nextOp, nextOp := s.nextOp + 1 }
  else s'

/-- `scan_event_cb`. -/
def scanEvent (addr : BdAddr) (rssi : Int) (name : Option (List UInt8)) (data : List UInt8)
    (io : ClientIo) : ClientIo :=
  if io.maxResults ≤ io.results.length then io
  else
    { io with
      results := io.results ++
        [⟨addrToStr addr, (name.getD []).take 31, rssi, data.take 31⟩] }

/-- `read_char_cb` for a fragment. -/
def readFragment (off : Nat) (frag : List UInt8) (io : ClientIo) : ClientIo :=
  if off < readBufSize ∧ 0 < frag.length then
    let copied := frag.take (readBufSize - off)
    { io with
      readBuf := memcpy io.readBuf off copied,
      readLen := max io.readLen (off + copied.length) }
  else io

/-- What the tasks do between two points at which they can be switched. -/
inductive ClientStep
  /-- The app scans. -/
  | scan (durationMs maxResults : Nat)
  /-- The app connects. -/
  | connect (address : Option CStr)
  /-- The app reads a characteristic. -/
  | readChar (conn : Nat) (charUuid : Option CStr)
  /-- The app writes a characteristic. -/
  | writeChar (conn : Nat) (charUuid text : Option CStr)
  /-- The app disconnects. -/
  | disconnect (conn : Nat)
  /-- The host answers the call; `mtu` is `ble_att_mtu`. -/
  | hostReturn (rc : Int) (mtu : Nat) (hasMemory : Bool)
  /-- The wait ends. -/
  | endWait
  /-- The task goes on after the wait. -/
  | resume
  /-- The host's task reports an advertisement. -/
  | scanEvent (addr : BdAddr) (rssi : Int) (name : Option (List UInt8)) (data : List UInt8)
  /-- It hands over a fragment that was read. -/
  | readFragment (off : Nat) (frag : List UInt8)
  /-- It has found a characteristic. -/
  | charFound (handle : Nat)
  /-- It completes an operation. -/
  | complete (op : Nat) (status : Int) (handle : Nat)
  /-- It reports that a link is gone. -/
  | linkDown (handle : Nat)
  /-- It gives the semaphore, which holds one token at most. -/
  | give
  /-- The app's task is deleted and the next app is launched. -/
  | restart
  deriving DecidableEq

/-- One step of the app's or the host's task; a step that is not possible now does nothing. -/
def clientStep (s : Client) : ClientStep → Client × List ClientEvent
  | .scan durationMs maxResults =>
      if s.stage = .idle then beginScan durationMs maxResults s else (s, [])
  | .connect address => if s.stage = .idle then beginConnect address s else (s, [])
  | .readChar conn charUuid => if s.stage = .idle then beginRead conn charUuid s else (s, [])
  | .writeChar conn charUuid text =>
      if s.stage = .idle then beginWrite conn charUuid text s else (s, [])
  | .disconnect conn => if s.stage = .idle then beginDisconnect conn s else (s, [])
  | .hostReturn rc mtu hasMemory =>
      match s.stage with
      | .calling call => hostReturn rc mtu hasMemory call s
      | _ => (s, [])
  | .endWait =>
      match s.stage with
      | .waiting call op => endWait call op s
      | _ => (s, [])
  | .resume =>
      match s.stage with
      | .woken call => resume call s
      | .timedOut conn slot => endDisconnect conn slot { s with awaitingDisc := false }
      | _ => (s, [])
  | .scanEvent addr rssi name data =>
      if s.callback = none ∧ s.scanning then
        ({ s with io := scanEvent addr rssi name data s.io }, [])
      else (s, [])
  | .readFragment off frag =>
      if s.callback = none then ({ s with io := readFragment off frag s.io }, []) else (s, [])
  | .charFound handle =>
      if s.callback = none then ({ s with io.discoveredHandle := handle }, []) else (s, [])
  | .complete op status handle =>
      match s.requests.find? fun r => r.op = op with
      | some r =>
          if s.callback = none ∧ s.completable status handle r.call then
            (complete r status handle s, [])
          else (s, [])
      | none => (s, [])
  | .linkDown handle =>
      match s.links.find? fun l => l.handle = handle with
      | some l => if s.callback = none then (linkDown l s, []) else (s, [])
      | none => (s, [])
  | .give =>
      match s.callback with
      | some op => ({ s with done := some (s.done.getD op), callback := none }, [])
      | none => (s, [])
  | .restart =>
      ({ s with stage := .idle, conns := List.replicate bleConnCapacity none
                session := s.session + 1 }, [])

/-- The call is neither about a new connection nor about the end of one. -/
def HostCall.Plain : HostCall → Prop
  | .disc _ | .discForRead _ _ | .readLong _ | .discForWrite _ _ _ | .write _ _ => True
  | .connect _ _ _ _ | .exchangeMtu _ _ _ | .terminate _ _ => False

/-- What says that a slot is in use, and for which link. -/
def ConnSlot.conn (e : ConnSlot) : CStr × Nat × Bool := (e.address, e.handle, e.active)

/-- The slots differ in their characteristics at most. -/
def SameConns (slots slots' : List ConnSlot) : Prop :=
  slots'.map ConnSlot.conn = slots.map ConnSlot.conn

theorem SameConns.refl (slots : List ConnSlot) : SameConns slots slots := rfl

theorem SameConns.modify (slots : List ConnSlot) (slot : Nat) {f : ConnSlot → ConnSlot}
    (hf : ∀ e, (f e).conn = e.conn) : SameConns slots (slots.modify slot f) := by
  refine List.ext_getElem? fun i => ?_
  rw [List.getElem?_map, List.getElem?_map, List.getElem?_modify]
  cases slots[i]? with
  | none => rfl
  | some e =>
      split
      · exact congrArg some (hf e)
      · rfl

/-- No event of this list is about a token or about the limit. -/
def OnlyResults (events : List ClientEvent) : Prop :=
  ∀ e ∈ events, (∃ result, e = .returned result) ∨ ∃ status, e = .refused status

theorem onlyResults_nil : OnlyResults [] := nofun

theorem onlyResults_returned (result : BrokerResult (List UInt8)) :
    OnlyResults [.returned result] := fun _ he => .inl ⟨result, List.mem_singleton.mp he⟩

theorem onlyResults_refused (status : SdkStatus) : OnlyResults [.refused status] :=
  fun _ he => .inr ⟨status, List.mem_singleton.mp he⟩

/-- The task goes on to a plain call of the host or to the end, and no connection changes. -/
inductive PlainEffect (s : Client) : Client × List ClientEvent → Prop
  | mk (slots : List ConnSlot) (status : Int) (io : ClientIo)
      (opInProgress clientLocked radioLocked : Bool) (stage : ClientStage)
      (events : List ClientEvent) (hslots : SameConns s.slots slots)
      (hstage : stage = .idle ∨ ∃ call : HostCall, call.Plain ∧ stage = .calling call)
      (hevents : OnlyResults events) :
      PlainEffect s
        ({ s with
           slots := slots, status := status, io := io, opInProgress := opInProgress
           clientLocked := clientLocked, radioLocked := radioLocked, stage := stage }, events)

theorem PlainEffect.call {s : Client} (call : HostCall) (hplain : call.Plain)
    {slots : List ConnSlot} (hslots : SameConns s.slots slots) {status : Int} {io : ClientIo}
    {opInProgress clientLocked radioLocked : Bool} :
    PlainEffect s
      ({ s with
         slots := slots, status := status, io := io, opInProgress := opInProgress
         clientLocked := clientLocked, radioLocked := radioLocked, stage := .calling call }, []) :=
  .mk _ _ _ _ _ _ _ _ hslots (.inr ⟨call, hplain, rfl⟩) onlyResults_nil

theorem PlainEffect.stay {s : Client} (h : s.stage = .idle) {events : List ClientEvent}
    (hevents : OnlyResults events) : PlainEffect s (s, events) := by
  have heffect := PlainEffect.mk (s := s) s.slots s.status s.io s.opInProgress s.clientLocked
    s.radioLocked s.stage events (.refl _) (.inl h) hevents
  exact heffect

/-- Everything that a call of the SDK can do until it calls the host; `address` is what a
connect is given. -/
inductive BeginEffect (s : Client) (address : Option CStr) : Client × List ClientEvent → Prop
  | plain {p : Client × List ClientEvent} (h : PlainEffect s p) : BeginEffect s address p
  | limit (h : (∀ c ∈ s.conns, c ≠ none) ∨ ∀ e ∈ s.slots, e.active = true) :
      BeginEffect s address (s, [.connLimit s.ownLinks.length])
  | clears (conn : Nat) (result : BrokerResult (List UInt8)) :
      BeginEffect s address ({ s with conns := s.conns.set conn none }, [.returned result])
  | reboots : BeginEffect s address (s.reboot, [])
  | connects (conn slot : Nat) (text : CStr) (peer : BdAddr) (haddress : address = some text)
      (hpeer : strToAddr text = some peer) (hconn : s.conns[conn]? = some none)
      (hslot : ∃ e, s.slots[slot]? = some e ∧ e.active = false) :
      BeginEffect s address
        ({ s with
           opInProgress := true, clientLocked := true, status := -1
           stage := .calling (.connect conn slot text peer) }, [])
  | terminates (conn slot : Nat) (text : CStr) (hconn : s.conns[conn]? = some (some text))
      (hslot : ∃ e, s.slots[slot]? = some e ∧ e.active = true ∧ e.address = text) :
      BeginEffect s address
        ({ s with
           clientLocked := true, awaitingDisc := true
           stage := .calling (.terminate conn slot) }, [])

theorem findConnByAddr_eq_some {slots : List ConnSlot} {address : CStr} {slot : Nat}
    (h : findConnByAddr slots address = some slot) :
    ∃ e, slots[slot]? = some e ∧ e.active = true ∧ e.address = address := by
  obtain ⟨hlt, hfound, -⟩ := List.findIdx?_eq_some_iff_getElem.mp h
  simp only [Bool.and_eq_true, decide_eq_true_eq] at hfound
  exact ⟨_, List.getElem?_eq_getElem hlt, hfound⟩

theorem findFreeConnSlot_eq_some {slots : List ConnSlot} {slot : Nat}
    (h : findFreeConnSlot slots = some slot) :
    ∃ e, slots[slot]? = some e ∧ e.active = false := by
  obtain ⟨hlt, hfound, -⟩ := List.findIdx?_eq_some_iff_getElem.mp h
  simp only [Bool.not_eq_true'] at hfound
  exact ⟨_, List.getElem?_eq_getElem hlt, hfound⟩

theorem beginScan_effect {s : Client} (h : s.stage = .idle) (durationMs maxResults : Nat) :
    BeginEffect s none (beginScan durationMs maxResults s) := by
  rw [beginScan, opEnter]
  split_ifs
  · exact .plain (.stay h (onlyResults_returned _))
  · exact .reboots
  · exact .plain (.call (.disc durationMs) trivial (.refl _))

theorem beginConnect_effect {s : Client} (h : s.stage = .idle) (address : Option CStr) :
    BeginEffect s address (beginConnect address s) := by
  cases address with
  | none => exact .plain (.stay h (onlyResults_refused _))
  | some text =>
      rw [beginConnect]
      split
      · exact .plain (.stay h (onlyResults_refused _))
      cases hconn : s.conns.findIdx? Option.isNone with
      | none =>
          refine .limit (.inl fun c hc hnone => ?_)
          simpa [hnone] using List.findIdx?_eq_none_iff.mp hconn c hc
      | some conn =>
          obtain ⟨hlt, hfree, -⟩ := List.findIdx?_eq_some_iff_getElem.mp hconn
          have hentry : s.conns[conn]? = some none := by
            rw [List.getElem?_eq_getElem hlt, Option.isNone_iff_eq_none.mp hfree]
          dsimp only
          split
          · exact .plain (.stay h (onlyResults_returned _))
          cases hslot : findFreeConnSlot s.slots with
          | none =>
              refine .limit (.inr fun e he => ?_)
              simpa using List.findIdx?_eq_none_iff.mp hslot e he
          | some slot =>
              dsimp only
              cases hpeer : strToAddr text with
              | none => exact .plain (.stay h (onlyResults_returned _))
              | some peer =>
                  dsimp only
                  rw [opEnter]
                  split_ifs
                  · exact .reboots
                  · exact .connects conn slot text peer rfl hpeer hentry
                      (findFreeConnSlot_eq_some hslot)

/-- What a read and a write do when the checks of their arguments are passed. -/
theorem opEnter_plain {s : Client} {address : Option CStr} {next : Client → Client}
    (h : PlainEffect s (next { s with opInProgress := true }, [])) :
    BeginEffect s address (opEnter next s) := by
  rw [opEnter]
  split_ifs
  · exact .reboots
  · exact .plain h

theorem beginRead_effect {s : Client} (h : s.stage = .idle) (conn : Nat)
    (charUuid : Option CStr) : BeginEffect s none (beginRead conn charUuid s) := by
  unfold beginRead
  split
  · exact .plain (.stay h (onlyResults_refused _))
  · exact .plain (.stay h (onlyResults_refused _))
  split_ifs
  · exact .plain (.stay h (onlyResults_returned _))
  split
  · exact .plain (.stay h (onlyResults_returned _))
  split
  · exact .plain (.stay h (onlyResults_returned _))
  refine opEnter_plain ?_
  dsimp only
  split_ifs
  · exact .call (.discForRead _ _) trivial (.refl _)
  · exact .call (.readLong _) trivial (.refl _)

theorem beginWrite_effect {s : Client} (h : s.stage = .idle) (conn : Nat)
    (charUuid text : Option CStr) : BeginEffect s none (beginWrite conn charUuid text s) := by
  unfold beginWrite
  split
  · split_ifs
    · exact .plain (.stay h (onlyResults_returned _))
    split
    · exact .plain (.stay h (onlyResults_returned _))
    split
    · exact .plain (.stay h (onlyResults_returned _))
    · exact .plain (.stay h (onlyResults_returned _))
    refine opEnter_plain ?_
    dsimp only
    split_ifs
    · exact .call (.discForWrite _ _ _) trivial (.refl _)
    · exact .call (.write _ _) trivial (.refl _)
  · exact .plain (.stay h (onlyResults_refused _))
  · exact .plain (.stay h (onlyResults_refused _))

theorem beginDisconnect_effect {s : Client} (h : s.stage = .idle) (conn : Nat) :
    BeginEffect s none (beginDisconnect conn s) := by
  rw [beginDisconnect]
  split
  · exact .plain (.stay h (onlyResults_refused _))
  · rename_i text htext
    dsimp only
    split_ifs
    · exact .clears conn _
    split
    · exact .clears conn _
    · rename_i slot hslot
      exact .terminates conn slot text (Option.join_eq_some_iff.mp htext)
        (findConnByAddr_eq_some hslot)

theorem endScan_effect (s : Client) (result : BrokerResult (List UInt8)) :
    PlainEffect s (endScan result s) :=
  .mk s.slots _ _ _ _ _ _ _ (.refl _) (.inl rfl) (onlyResults_returned _)

theorem endClient_effect (s : Client) (result : BrokerResult (List UInt8)) :
    PlainEffect s (endClient result s) :=
  .mk s.slots _ _ _ _ _ _ _ (.refl _) (.inl rfl) (onlyResults_returned _)

theorem resume_plain {call : HostCall} {s : Client} (h : call.Plain) :
    PlainEffect s (resume call s) := by
  cases call with
  | disc => exact endScan_effect s _
  | discForRead slot uuid =>
      rw [resume]
      split_ifs
      · exact endClient_effect s _
      · have hslots : SameConns s.slots (s.slots.modify slot fun e =>
            { e with txCharHandle := s.io.discoveredHandle }) := by
          refine .modify _ _ fun e => ?_
          rfl
        exact .call (.readLong slot) trivial hslots
  | readLong =>
      rw [resume]
      split_ifs
      · exact endClient_effect s _
      · exact endClient_effect s _
  | discForWrite slot uuid data =>
      rw [resume]
      split_ifs
      · exact endClient_effect s _
      · have hslots : SameConns s.slots (s.slots.modify slot fun e =>
            { e with rxCharHandle := s.io.discoveredHandle }) := by
          refine .modify _ _ fun e => ?_
          rfl
        exact .call (.write slot data) trivial hslots
  | write =>
      rw [resume]
      split_ifs
      · exact endClient_effect s _
      · exact endClient_effect s _
  | connect => exact h.elim
  | exchangeMtu => exact h.elim
  | terminate => exact h.elim

theorem decline_plain {call : HostCall} {s : Client} (h : call.Plain) :
    PlainEffect s (decline call s) := by
  cases call with
  | disc => exact endScan_effect s _
  | discForRead => exact endClient_effect s _
  | readLong => exact endClient_effect s _
  | discForWrite => exact endClient_effect s _
  | write => exact endClient_effect s _
  | connect => exact h.elim
  | exchangeMtu => exact h.elim
  | terminate => exact h.elim

end Ble
end JppDos
