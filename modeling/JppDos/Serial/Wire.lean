import JppDos.Lib.CrcTable
import JppDos.Lib.LittleEndian

/-!
# JPPD-SMP wire format

The envelope of the serial management protocol, on the device side
(`jpp_serial_mgr.c`) and on the host side (`jppd_upload.py`):

    SOF(4) | LEN(2 LE) | PAYLOAD(LEN) | CRC16(2 LE)

The CRC covers the two LEN bytes and the payload.  A command payload is
`SEQ | CMD | FLAGS | BODY`, a response payload is `SEQ | STATUS | BODY`.

Main fact:
* `crc32Buf_append`: the running CRC-32 can be fed piece by piece.
-/

namespace JppDos
namespace Serial

open Crc LittleEndian

/-- `SMP_SOF`. -/
def smpSof : List UInt8 := [0x01, 0x4A, 0x50, 0x50]

/-- `SMP_MAX_PAYLOAD_BYTES`. -/
def smpMaxPayloadBytes : Nat := 1280

/-- `SMP_CHUNK_SIZE`, and `CHUNK_SIZE` on the host. -/
def smpChunkSize : Nat := 1024

/-- `SMP_SEQ_EVENT`: the sequence number of unsolicited device frames. -/
def smpSeqEvent : UInt8 := 0xFF

namespace SmpCmd

def sessionStart : UInt8 := 0x00
def sessionEnd : UInt8 := 0x01
def getInfo : UInt8 := 0x02
def getLrvData : UInt8 := 0x03
def setTime : UInt8 := 0x04
def keepalive : UInt8 := 0x05
def fsListDir : UInt8 := 0x10
def fsMkdir : UInt8 := 0x11
def fsRemove : UInt8 := 0x12
def fsRename : UInt8 := 0x13
def fsUploadBegin : UInt8 := 0x14
def fsUploadChunk : UInt8 := 0x15
def fsUploadEnd : UInt8 := 0x16
def fsDlBegin : UInt8 := 0x17
def fsDlChunk : UInt8 := 0x18
def fsDlEnd : UInt8 := 0x19
def applyBackup : UInt8 := 0x1A
def provisionLrv : UInt8 := 0x30

end SmpCmd

namespace SmpSt

def ok : UInt8 := 0x00
def errDenied : UInt8 := 0x01
def errNotFound : UInt8 := 0x02
def errIo : UInt8 := 0x03
def errExists : UInt8 := 0x04
def errInvalid : UInt8 := 0x05
def errBusy : UInt8 := 0x06
def errNoSession : UInt8 := 0x07
def errTransfer : UInt8 := 0x08
def errOverflow : UInt8 := 0x09
def errAppRunning : UInt8 := 0x0A

end SmpSt

def crc16Step (crc : UInt16) (byte : UInt8) : UInt16 :=
  (msbBit16 0x1021)^[8] (crc ^^^ (byte.toUInt16 <<< 8))

def crc16Buf (crc : UInt16) (data : List UInt8) : UInt16 :=
  crcFold crc16Step crc data

/-- `_crc16_ccitt_false`, on Python integers. -/
def crc16CcittFalse (data : List UInt8) : Nat :=
  crcFold (fun crc byte => (msbBitMasked 0x1021)^[8] (crc ^^^ (byte.toNat <<< 8))) 0xFFFF data

theorem crc16Buf_append (crc : UInt16) (xs ys : List UInt8) :
    crc16Buf crc (xs ++ ys) = crc16Buf (crc16Buf crc xs) ys :=
  crcFold_append crc16Step crc xs ys

theorem msbBitMasked_iterate (k : Nat) (crc : UInt16) :
    (msbBitMasked 0x1021)^[k] crc.toNat = ((msbBit16 0x1021)^[k] crc).toNat := by
  induction k generalizing crc with
  | zero => rfl
  | succ k ih =>
      rw [Function.iterate_succ_apply, Function.iterate_succ_apply, ← ih]
      congr 1
      exact msbBitMasked_eq 0x1021 crc

theorem crc16CcittFalse_eq (data : List UInt8) :
    crc16CcittFalse data = (crc16Buf 0xFFFF data).toNat := by
  unfold crc16CcittFalse crc16Buf
  rw [crcFold_map crc16Step _ UInt16.toNat]
  · rfl
  · intro crc byte
    unfold crc16Step
    rw [← msbBitMasked_iterate]
    congr 1
    have hb := byte.toNat_lt
    rw [UInt16.toNat_xor, UInt16.toNat_shiftLeft]
    simp only [UInt8.toNat_toUInt16, UInt16.reduceToNat, Nat.reduceMod, Nat.reducePow]
    rw [Nat.mod_eq_of_lt (by rw [Nat.shiftLeft_eq]; omega)]

/-- One shift of the reflected 32-bit register. -/
def crc32Bit (crc : UInt32) : UInt32 :=
  if crc &&& 1 ≠ 0 then (crc >>> 1) ^^^ 0xEDB88320 else crc >>> 1

def crc32Step (crc : UInt32) (byte : UInt8) : UInt32 :=
  crc32Bit^[8] (crc ^^^ byte.toUInt32)

def crc32Buf (crc : UInt32) (data : List UInt8) : UInt32 :=
  crcFold crc32Step crc data

/-- `zlib.crc32` of a whole byte string: initial value and final XOR are all
ones. -/
def zlibCrc32 (data : List UInt8) : UInt32 :=
  ~~~(crcFold crc32Step 0xFFFFFFFF data)

theorem crc32Buf_append (crc : UInt32) (xs ys : List UInt8) :
    crc32Buf crc (xs ++ ys) = crc32Buf (crc32Buf crc xs) ys :=
  crcFold_append crc32Step crc xs ys

/-- The envelope around a payload. -/
def wireFrame (payload : List UInt8) : List UInt8 :=
  smpSof ++ leBytes 2 payload.length ++ payload ++
    leBytes 2 (crc16Buf 0xFFFF (leBytes 2 payload.length ++ payload)).toNat

/-- The envelope code of `_build_frame`, after the payload has been put
together. -/
def buildFrameAround (payload : List UInt8) : List UInt8 :=
  let lenBytes := leBytes 2 payload.length
  let crc := crc16CcittFalse (lenBytes ++ payload)
  smpSof ++ lenBytes ++ payload ++ leBytes 2 crc

/-- `_build_frame`. -/
def buildFrame (seq cmd : UInt8) (body : List UInt8) : List UInt8 :=
  buildFrameAround ([seq, cmd, 0x00] ++ body)

/-- The bytes `send_response` writes. -/
def sendResponse (seq status : UInt8) (body : List UInt8) : List UInt8 :=
  let plen := 2 + body.length
  let hdr := smpSof ++ leBytes 2 plen ++ [seq, status]
  let crc := crc16Buf (crc16Buf 0xFFFF (hdr.drop 4)) body
  hdr ++ body ++ leBytes 2 crc.toNat

theorem buildFrameAround_eq (payload : List UInt8) :
    buildFrameAround payload = wireFrame payload := by
  simp only [buildFrameAround, wireFrame, crc16CcittFalse_eq]

theorem buildFrame_eq (seq cmd : UInt8) (body : List UInt8) :
    buildFrame seq cmd body = wireFrame ([seq, cmd, 0x00] ++ body) :=
  buildFrameAround_eq _

theorem sendResponse_eq (seq status : UInt8) (body : List UInt8) :
    sendResponse seq status body = wireFrame ([seq, status] ++ body) := by
  have hlen : ([seq, status] ++ body).length = 2 + body.length := by
    simp only [List.length_append, List.length_cons, List.length_nil]
  have hdrop : (smpSof ++ leBytes 2 (2 + body.length) ++ [seq, status]).drop 4 =
      leBytes 2 (2 + body.length) ++ [seq, status] := rfl
  simp only [sendResponse, wireFrame, hlen, hdrop, ← crc16Buf_append]
  simp only [List.append_assoc]

end Serial
end JppDos
