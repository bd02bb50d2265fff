import JppDos.Lib.LittleEndian
import JppDos.Serial.Wire
import Mathlib.Data.List.Infix

/-!
# Messages over characteristic writes

A message is written as a BEGIN frame with its length and CRC-32 and DATA frames with
consecutive sequence numbers; the receiver puts it together in the caller's buffer.
-/

namespace JppDos
namespace Ble

open Crc LittleEndian

/-- `MSG_FRAME_BEGIN`. -/
def frameBegin : UInt8 := 0x01

/-- `MSG_FRAME_DATA`. -/
def frameData : UInt8 := 0x02

/-- `MSG_BEGIN_LEN`. -/
def msgBeginLen : Nat := 9

/-- `MSG_DATA_HDR`. -/
def msgDataHdr : Nat := 3

/-- `JPP_BLE_MSG_CHUNK_MAX`. -/
def chunkMax : Nat := 400

/-- `JPP_SDK_BLE_HOST_RX_MAX`. -/
def hostRxMax : Nat := 4096

/-- `MSG_CHUNK_TIMEOUT_MS`. -/
def chunkTimeoutMs : UInt32 := 5000

def wrU32le (v : UInt32) : List UInt8 :=
  [v.toUInt8, (v >>> 8).toUInt8, (v >>> 16).toUInt8, (v >>> 24).toUInt8]

def wrU16le (v : UInt16) : List UInt8 := [v.toUInt8, (v >>> 8).toUInt8]

def rdU32le (p : List UInt8) : UInt32 :=
  (p.getD 0 0).toUInt32 ||| (p.getD 1 0).toUInt32 <<< 8 ||| (p.getD 2 0).toUInt32 <<< 16 |||
    (p.getD 3 0).toUInt32 <<< 24

def rdU16le (p : List UInt8) : UInt16 :=
  (p.getD 0 0).toUInt16 ||| (p.getD 1 0).toUInt16 <<< 8

/-- One shift of the register: the polynomial is masked with the negated lowest bit. -/
def crc32Shift (crc : UInt32) : UInt32 := (crc >>> 1) ^^^ (0xEDB88320 &&& (0 - (crc &&& 1)))

/-- `crc32_buf` of the message layer. -/
def crc32Buf (data : List UInt8) : UInt32 :=
  crcFold (fun crc byte => crc32Shift^[8] (crc ^^^ byte.toUInt32)) 0xFFFFFFFF data ^^^ 0xFFFFFFFF

/-- `jpp_ble_msg_result_t`. -/
inductive MsgResult
  | ok
  | errArg
  | errWrite
  | errTimeout
  | errProtocol
  | errTooBig
  | errCrc
  deriving DecidableEq

/-- The BEGIN frame of a message. -/
def beginFrame (total crc : UInt32) : List UInt8 := frameBegin :: (wrU32le total ++ wrU32le crc)

/-- The DATA frame with a sequence number. -/
def dataFrame (seq : UInt16) (payload : List UInt8) : List UInt8 :=
  frameData :: (wrU16le seq ++ payload)

/-- `write_frame` on one frame after the other until a write fails. -/
def writeFrames (accepts : Nat → Bool) (i : Nat) : List (List UInt8) →
    MsgResult × List (List UInt8)
  | [] => (.ok, [])
  | frame :: frames =>
      if accepts i then
        let (result, written) := writeFrames accepts (i + 1) frames
        (result, frame :: written)
      else (.errWrite, [frame])

/-- The DATA frames of `jpp_ble_msg_send`, in the order of its loop. -/
def chunkFrames (seq : UInt16) (data : List UInt8) : List (List UInt8) :=
  if data = [] then []
  else dataFrame seq (data.take chunkMax) :: chunkFrames (seq + 1) (data.drop chunkMax)
termination_by data.length
decreasing_by
  rename_i h
  have hpos := List.length_pos_iff.mpr h
  simp only [List.length_drop, chunkMax]
  omega

/-- The frames of a message. -/
def msgFrames (data : List UInt8) : List (List UInt8) :=
  beginFrame (UInt32.ofNat data.length) (crc32Buf data) :: chunkFrames 0 data

/-- `jpp_ble_msg_send`, with the frames it writes; `accepts` says which of its writes
`jpp_sdk_ble_write_char` acknowledges. -/
def msgSend (accepts : Nat → Bool) (data : List UInt8) : MsgResult × List (List UInt8) :=
  writeFrames accepts 0 (msgFrames data)

/-- A frame as `jpp_sdk_ble_host_wait_write` hands it over. -/
abbrev Frame := { bytes : List UInt8 // bytes.length ≤ hostRxMax }

/-- The caller's buffer, which shares a 32-bit address space with the static `rx`. -/
structure OutBuf where
  bytes : List UInt8
  apart : bytes.length + hostRxMax ≤ 2 ^ 32

/-- The variables of `jpp_ble_msg_host_recv`. -/
structure RecvState where
  haveBegin : Bool
  total : UInt32
  wantCrc : UInt32
  off : UInt32
  nextSeq : UInt16
  wait : UInt32
  out : List UInt8

/-- `memcpy` into a buffer. -/
def memcpy (buf : List UInt8) (start : Nat) (bytes : List UInt8) : List UInt8 :=
  buf.take start ++ bytes ++ buf.drop (start + bytes.length)

/-- The payload of a DATA frame is added to what was received. -/
def RecvState.append (s : RecvState) (payload : List UInt8) : RecvState :=
  { s with
    out := memcpy s.out s.off.toNat payload
    off := s.off + UInt32.ofNat payload.length
    nextSeq := s.nextSeq + 1 }

/-- What a frame makes of the receiver: it waits for the next, or it returns, with the length
that it stored when the message is taken. -/
inductive Turn
  | more (s : RecvState)
  | done (result : MsgResult) (outLen : UInt32) (s : RecvState)

/-- One turn of the loop of `jpp_ble_msg_host_recv`. -/
def recvFrame (timeoutMs : UInt32) (s : RecvState) (rx : List UInt8) : Turn :=
  if rx.length < 1 then .more s
  else if rx.getD 0 0 = frameBegin then
    if rx.length < msgBeginLen then .done .errProtocol 0 s
    else
      let s := { s with total := rdU32le (rx.drop 1), wantCrc := rdU32le (rx.drop 5) }
      if s.total > UInt32.ofNat s.out.length then .done .errTooBig 0 s
      else
        let s := { s with off := 0, nextSeq := 0, haveBegin := true }
        if s.total = 0 then
          if crc32Buf [] = s.wantCrc then .done .ok 0 s else .done .errCrc 0 s
        else
          .more { s with wait := if timeoutMs < chunkTimeoutMs then timeoutMs else chunkTimeoutMs }
  else if rx.getD 0 0 = frameData then
    if !s.haveBegin then .more s
    else if rx.length < msgDataHdr then .done .errProtocol 0 s
    else if rdU16le (rx.drop 1) ≠ s.nextSeq then .done .errProtocol 0 s
    else
      let payload := rx.drop msgDataHdr
      if s.off + UInt32.ofNat payload.length > s.total then .done .errProtocol 0 s
      else
        let s := s.append payload
        if s.off = s.total then
          if crc32Buf (s.out.take s.total.toNat) ≠ s.wantCrc then .done .errCrc 0 s
          else .done .ok s.total s
        else .more s
  else if !s.haveBegin then .more s
  else .done .errProtocol 0 s

/-- What a call of `jpp_ble_msg_host_recv` leaves. -/
structure Received where
  result : MsgResult
  outLen : UInt32
  out : List UInt8
  /-- The frames that it did not wait for. -/
  later : List Frame

/-- The loop of `jpp_ble_msg_host_recv`; when there is no further frame, the wait times
out. -/
def recvLoop (timeoutMs : UInt32) (s : RecvState) : List Frame → Received
  | [] => ⟨.errTimeout, 0, s.out, []⟩
  | rx :: frames =>
      match recvFrame timeoutMs s rx.1 with
      | .more s => recvLoop timeoutMs s frames
      | .done result outLen s => ⟨result, outLen, s.out, frames⟩

/-- `jpp_ble_msg_host_recv`. -/
def msgHostRecv (timeoutMs : UInt32) (buf : OutBuf) (frames : List Frame) : Received :=
  recvLoop timeoutMs
    { haveBegin := false
      total := 0
      wantCrc := 0
      off := 0
      nextSeq := 0
      wait := timeoutMs
      out := buf.bytes } frames

theorem crc32Shift_eq (crc : UInt32) : crc32Shift crc = Serial.crc32Bit crc := by
  have hmod : (crc &&& 1).toNat = crc.toNat % 2 := by
    rw [UInt32.toNat_and]
    exact Nat.and_two_pow_sub_one_eq_mod crc.toNat 1
  have hbit : crc &&& 1 = 0 ∨ crc &&& 1 = 1 := by
    rcases Nat.mod_two_eq_zero_or_one crc.toNat with h | h
    · exact .inl (UInt32.toNat_inj.mp (hmod.trans h))
    · exact .inr (UInt32.toNat_inj.mp (hmod.trans h))
  rw [crc32Shift, Serial.crc32Bit]
  rcases hbit with hbit | hbit <;> simp [hbit]

theorem crc32Buf_eq (data : List UInt8) : crc32Buf data = Serial.zlibCrc32 data := by
  have hshift : crc32Shift = Serial.crc32Bit := funext crc32Shift_eq
  rw [crc32Buf, Serial.zlibCrc32, hshift]
  exact UInt32.xor_neg_one

theorem wrU32le_eq (v : UInt32) : wrU32le v = leBytes 4 v.toNat := by
  simp only [wrU32le, leBytes, List.cons.injEq, and_true, ← UInt8.toNat_inj, Nat.div_div_eq_div_mul]
  refine ⟨?_, ?_, ?_, ?_⟩ <;> simp [Nat.shiftRight_eq_div_pow]

theorem wrU16le_eq (v : UInt16) : wrU16le v = leBytes 2 v.toNat := by
  simp only [wrU16le, leBytes, List.cons.injEq, and_true, ← UInt8.toNat_inj]
  refine ⟨?_, ?_⟩ <;> simp [Nat.shiftRight_eq_div_pow]

theorem toNat_rdU32le (a b c d : UInt8) (rest : List UInt8) :
    (rdU32le (a :: b :: c :: d :: rest)).toNat = leNat [a, b, c, d] := by
  have ha := a.toNat_lt
  have hb := b.toNat_lt
  have hc := c.toNat_lt
  have hd := d.toNat_lt
  rw [← or_shift_four]
  simp only [rdU32le, List.getD_cons_zero, List.getD_cons_succ, UInt32.toNat_or,
    UInt32.toNat_shiftLeft, UInt8.toNat_toUInt32, UInt32.reduceToNat, Nat.reduceMod]
  rw [Nat.mod_eq_of_lt (a := b.toNat <<< 8) (by rw [Nat.shiftLeft_eq]; omega),
    Nat.mod_eq_of_lt (a := c.toNat <<< 16) (by rw [Nat.shiftLeft_eq]; omega),
    Nat.mod_eq_of_lt (a := d.toNat <<< 24) (by rw [Nat.shiftLeft_eq]; omega)]

theorem toNat_rdU16le (a b : UInt8) (rest : List UInt8) :
    (rdU16le (a :: b :: rest)).toNat = leNat [a, b] := by
  have ha := a.toNat_lt
  have hb := b.toNat_lt
  rw [← or_shift_two]
  simp only [rdU16le, List.getD_cons_zero, List.getD_cons_succ, UInt16.toNat_or,
    UInt16.toNat_shiftLeft, UInt8.toNat_toUInt16, UInt16.reduceToNat, Nat.reduceMod]
  rw [Nat.mod_eq_of_lt (a := b.toNat <<< 8) (by rw [Nat.shiftLeft_eq]; omega)]

theorem rdU32le_wrU32le (v : UInt32) (rest : List UInt8) : rdU32le (wrU32le v ++ rest) = v := by
  apply UInt32.toNat_inj.mp
  rw [show wrU32le v ++ rest = v.toUInt8 :: (v >>> 8).toUInt8 :: (v >>> 16).toUInt8 ::
    (v >>> 24).toUInt8 :: rest from rfl, toNat_rdU32le]
  exact (congrArg leNat (wrU32le_eq v)).trans (leNat_leBytes v.toNat_lt)

theorem rdU16le_wrU16le (v : UInt16) (rest : List UInt8) : rdU16le (wrU16le v ++ rest) = v := by
  apply UInt16.toNat_inj.mp
  rw [show wrU16le v ++ rest = v.toUInt8 :: (v >>> 8).toUInt8 :: rest from rfl, toNat_rdU16le]
  exact (congrArg leNat (wrU16le_eq v)).trans (leNat_leBytes v.toNat_lt)

theorem wrU32le_rdU32le (a b c d : UInt8) (rest : List UInt8) :
    wrU32le (rdU32le (a :: b :: c :: d :: rest)) = [a, b, c, d] := by
  rw [wrU32le_eq, toNat_rdU32le]
  exact leBytes_leNat [a, b, c, d]

theorem wrU16le_rdU16le (a b : UInt8) (rest : List UInt8) :
    wrU16le (rdU16le (a :: b :: rest)) = [a, b] := by
  rw [wrU16le_eq, toNat_rdU16le]
  exact leBytes_leNat [a, b]

/-- The state after an accepted BEGIN. -/
def RecvState.begun (s : RecvState) (total wantCrc wait : UInt32) : RecvState :=
  { haveBegin := true
    total := total
    wantCrc := wantCrc
    off := 0
    nextSeq := 0
    wait := wait
    out := s.out }

/-- Everything one frame can do to the receiver. -/
inductive FrameEffect (s : RecvState) (rx : List UInt8) : Turn → Prop
  | ignored (h : rx = [] ∨ s.haveBegin = false ∧ rx.head? ≠ some frameBegin) :
      FrameEffect s rx (.more s)
  | refused {result : MsgResult} {s' : RecvState} (h : result ≠ .ok) :
      FrameEffect s rx (.done result 0 s')
  | begun {total wantCrc wait : UInt32} (h : rx.take msgBeginLen = beginFrame total wantCrc)
      (hfits : total ≤ UInt32.ofNat s.out.length) (hsome : total ≠ 0) :
      FrameEffect s rx (.more (s.begun total wantCrc wait))
  | empty {total wantCrc wait : UInt32} (h : rx.take msgBeginLen = beginFrame total wantCrc)
      (hnone : total = 0) (hcrc : crc32Buf [] = wantCrc) :
      FrameEffect s rx (.done .ok 0 (s.begun total wantCrc wait))
  | extended {payload : List UInt8} (hbegin : s.haveBegin = true)
      (h : rx = dataFrame s.nextSeq payload)
      (hfits : s.off + UInt32.ofNat payload.length ≤ s.total)
      (hmore : (s.append payload).off ≠ s.total) : FrameEffect s rx (.more (s.append payload))
  | finished {payload : List UInt8} (hbegin : s.haveBegin = true)
      (h : rx = dataFrame s.nextSeq payload)
      (hfits : s.off + UInt32.ofNat payload.length ≤ s.total)
      (hlast : (s.append payload).off = s.total)
      (hcrc : crc32Buf ((s.append payload).out.take s.total.toNat) = s.wantCrc) :
      FrameEffect s rx (.done .ok s.total (s.append payload))

theorem take_beginFrame {rx : List UInt8} (hlength : ¬ rx.length < msgBeginLen)
    (hhead : rx.getD 0 0 = frameBegin) :
    rx.take msgBeginLen = beginFrame (rdU32le (rx.drop 1)) (rdU32le (rx.drop 5)) := by
  match rx, hlength, hhead with
  | t :: a :: b :: c :: d :: e :: f :: g :: h :: rest, _, hhead =>
      have ht : t = frameBegin := hhead
      rw [ht, beginFrame]
      simp only [List.drop_succ_cons, List.drop_zero, wrU32le_rdU32le]
      rfl
  | [], hlength, _ | [_], hlength, _ | [_, _], hlength, _ | [_, _, _], hlength, _
  | [_, _, _, _], hlength, _ | [_, _, _, _, _], hlength, _ | [_, _, _, _, _, _], hlength, _
  | [_, _, _, _, _, _, _], hlength, _ | [_, _, _, _, _, _, _, _], hlength, _ =>
      exact absurd (by simp [msgBeginLen]) hlength

theorem eq_dataFrame {rx : List UInt8} (hlength : ¬ rx.length < msgDataHdr)
    (hhead : rx.getD 0 0 = frameData) :
    rx = dataFrame (rdU16le (rx.drop 1)) (rx.drop msgDataHdr) := by
  match rx, hlength, hhead with
  | t :: a :: b :: rest, _, hhead =>
      have ht : t = frameData := hhead
      rw [ht, dataFrame]
      simp only [List.drop_succ_cons, List.drop_zero, wrU16le_rdU16le, msgDataHdr]
      rfl
  | [], hlength, _ | [_], hlength, _ | [_, _], hlength, _ =>
      exact absurd (by simp [msgDataHdr]) hlength

theorem recvFrame_effect (timeoutMs : UInt32) (s : RecvState) (rx : List UInt8) :
    FrameEffect s rx (recvFrame timeoutMs s rx) := by
  rw [recvFrame]
  split
  · rename_i hnone
    exact .ignored (.inl (List.length_eq_zero_iff.mp (Nat.lt_one_iff.mp hnone)))
  have hhead : rx.getD 0 0 ≠ frameBegin → rx.head? ≠ some frameBegin := fun hb heq => by
    rw [List.head?_eq_getElem?] at heq
    exact hb (by rw [List.getD_eq_getElem?_getD, heq]; rfl)
  split
  · rename_i hbegin
    split
    · exact .refused nofun
    · rename_i hlength
      have hrx := take_beginFrame hlength hbegin
      simp only
      split
      · exact .refused nofun
      · rename_i hfits
        split
        · rename_i hnone
          split
          · rename_i hcrc
            exact .empty hrx hnone hcrc
          · exact .refused nofun
        · rename_i hsome
          exact .begun hrx (UInt32.not_lt.mp hfits) hsome
  · rename_i hbegin
    split
    · rename_i hdata
      split
      · rename_i hidle
        exact .ignored (.inr ⟨by simpa using hidle, hhead hbegin⟩)
      · rename_i hopen
        split
        · exact .refused nofun
        · rename_i hlength
          split
          · exact .refused nofun
          · rename_i hseq
            have hrx := eq_dataFrame hlength hdata
            rw [not_not.mp hseq] at hrx
            have hopen : s.haveBegin = true := by simpa using hopen
            simp only
            split
            · exact .refused nofun
            · rename_i hfits
              have hfits := UInt32.not_lt.mp hfits
              split
              · rename_i hlast
                split
                · exact .refused nofun
                · rename_i hcrc
                  exact .finished hopen hrx hfits hlast (not_not.mp hcrc)
              · rename_i hmore
                exact .extended hopen hrx hfits hmore
    · split
      · rename_i hidle
        exact .ignored (.inr ⟨by simpa using hidle, hhead hbegin⟩)
      · exact .refused nofun

/-- The DATA frames of payloads, numbered from zero; the numbers wrap at 16 bits. -/
def dataFrames (payloads : List (List UInt8)) : List (List UInt8) :=
  payloads.mapIdx fun i payload => dataFrame (UInt16.ofNat i) payload

/-- The last BEGIN of the frames announces the length and the checksum; the frames behind it,
but for empty ones, are the DATA frames of the payloads in order. -/
def Transfer (frames : List (List UInt8)) (total wantCrc : UInt32)
    (payloads : List (List UInt8)) : Prop :=
  ∃ before first rest, frames = before ++ first :: rest ∧
    first.take msgBeginLen = beginFrame total wantCrc ∧
    (∀ frame ∈ rest, frame.head? ≠ some frameBegin) ∧
    rest.filter (fun frame => frame ≠ []) = dataFrames payloads

/-- A message that was taken is the payloads of the last transfer, as announced. -/
def Received.Sound (frames : List Frame) (room : Nat) (r : Received) : Prop :=
  ∃ consumed payloads wantCrc, frames = consumed ++ r.later ∧
    Transfer (consumed.map Subtype.val) r.outLen wantCrc payloads ∧
    r.out.take r.outLen.toNat = payloads.flatten ∧ payloads.flatten.length = r.outLen.toNat ∧
    Serial.zlibCrc32 payloads.flatten = wantCrc ∧ r.outLen.toNat ≤ room

theorem Transfer.start {frames : List (List UInt8)} {rx : List UInt8} {total wantCrc : UInt32}
    (h : rx.take msgBeginLen = beginFrame total wantCrc) :
    Transfer (frames ++ [rx]) total wantCrc [] :=
  ⟨frames, rx, [], rfl, h, nofun, rfl⟩

theorem Transfer.ignore {frames : List (List UInt8)} {total wantCrc : UInt32}
    {payloads : List (List UInt8)} (h : Transfer frames total wantCrc payloads) :
    Transfer (frames ++ [[]]) total wantCrc payloads := by
  obtain ⟨before, first, rest, rfl, hfirst, hrest, hdata⟩ := h
  refine ⟨before, first, rest ++ [[]], by simp, hfirst, ?_, by simpa using hdata⟩
  intro frame hframe
  rcases List.mem_append.mp hframe with hframe | hframe
  · exact hrest frame hframe
  · rw [List.mem_singleton.mp hframe]
    nofun

theorem Transfer.snoc {frames : List (List UInt8)} {total wantCrc : UInt32}
    {payloads : List (List UInt8)} (h : Transfer frames total wantCrc payloads)
    (payload : List UInt8) :
    Transfer (frames ++ [dataFrame (UInt16.ofNat payloads.length) payload]) total wantCrc
      (payloads ++ [payload]) := by
  obtain ⟨before, first, rest, rfl, hfirst, hrest, hdata⟩ := h
  refine ⟨before, first, rest ++ [dataFrame (UInt16.ofNat payloads.length) payload],
    by simp, hfirst, ?_, ?_⟩
  · intro frame hframe
    rcases List.mem_append.mp hframe with hframe | hframe
    · exact hrest frame hframe
    · rw [List.mem_singleton.mp hframe]
      exact fun hb => absurd (Option.some.inj hb) (by decide)
  · rw [List.filter_append, hdata, dataFrames, dataFrames, List.mapIdx_concat]
    rfl

theorem length_memcpy {buf bytes : List UInt8} {start : Nat}
    (h : start + bytes.length ≤ buf.length) : (memcpy buf start bytes).length = buf.length := by
  simp only [memcpy, List.length_append, List.length_take, List.length_drop]
  omega

theorem take_memcpy {buf bytes : List UInt8} {start : Nat} (h : start ≤ buf.length) :
    (memcpy buf start bytes).take (start + bytes.length) = buf.take start ++ bytes := by
  have hlength : start + bytes.length = (buf.take start ++ bytes).length := by
    simp [Nat.min_eq_left h]
  rw [memcpy, hlength, List.take_left']
  rfl

/-- What the receiver has put together so far. -/
structure RecvState.Assembled (s : RecvState) (frames : List (List UInt8)) (room : Nat)
    (payloads : List (List UInt8)) : Prop where
  transfer : Transfer frames s.total s.wantCrc payloads
  out : s.out.take s.off.toNat = payloads.flatten
  off : s.off.toNat = payloads.flatten.length
  nextSeq : s.nextSeq = UInt16.ofNat payloads.length
  off_le : s.off.toNat ≤ s.total.toNat
  total_le : s.total.toNat ≤ room

/-- The invariant of the loop. -/
structure RecvState.Inv (s : RecvState) (frames : List (List UInt8)) (room : Nat) : Prop where
  length : s.out.length = room
  fits : room + hostRxMax ≤ 2 ^ 32
  begun : s.haveBegin = true → ∃ payloads, s.Assembled frames room payloads

theorem length_dataFrame (seq : UInt16) (payload : List UInt8) :
    (dataFrame seq payload).length = payload.length + msgDataHdr := by
  simp [dataFrame, wrU16le, msgDataHdr]

/-- The sum of the offset and the length of a payload does not wrap around. -/
theorem toNat_off_add {off : UInt32} {room : Nat} (hroom : room + hostRxMax ≤ 2 ^ 32)
    (hoff : off.toNat ≤ room) {payload : List UInt8}
    (hlength : payload.length + msgDataHdr ≤ hostRxMax) :
    (off + UInt32.ofNat payload.length).toNat = off.toNat + payload.length := by
  simp only [hostRxMax, msgDataHdr] at hroom hlength
  rw [UInt32.toNat_add, UInt32.toNat_ofNat', Nat.mod_eq_of_lt (a := payload.length) (by omega),
    Nat.mod_eq_of_lt (by omega)]

/-- A DATA frame in its turn and within the announced length. -/
theorem RecvState.Assembled.append {s : RecvState} {frames : List (List UInt8)} {room : Nat}
    {payloads : List (List UInt8)} (h : s.Assembled frames room payloads)
    (hout : s.out.length = room) (hroom : room + hostRxMax ≤ 2 ^ 32) {payload : List UInt8}
    (hlength : payload.length + msgDataHdr ≤ hostRxMax)
    (hfits : s.off + UInt32.ofNat payload.length ≤ s.total) :
    (s.append payload).Assembled (frames ++ [dataFrame s.nextSeq payload]) room
        (payloads ++ [payload]) ∧ (s.append payload).out.length = room := by
  have hoff : s.off.toNat ≤ room := Nat.le_trans h.off_le h.total_le
  have hsum := toNat_off_add hroom hoff hlength
  have htotal : s.off.toNat + payload.length ≤ s.total.toNat :=
    hsum ▸ UInt32.le_iff_toNat_le.mp hfits
  have hinside : s.off.toNat + payload.length ≤ s.out.length := by
    rw [hout]
    exact Nat.le_trans htotal h.total_le
  constructor
  · refine ⟨?_, ?_, ?_, ?_, ?_, h.total_le⟩
    · rw [h.nextSeq]
      exact h.transfer.snoc payload
    · rw [RecvState.append, hsum, take_memcpy (Nat.le_trans (Nat.le_add_right _ _) hinside),
        h.out, List.flatten_append, List.flatten_singleton]
    · rw [RecvState.append, hsum, List.flatten_append, List.length_append, ← h.off,
        List.flatten_singleton]
    · rw [RecvState.append, h.nextSeq, List.length_append, UInt16.ofNat_add]
      rfl
    · rw [RecvState.append, hsum]
      exact htotal
  · rw [RecvState.append]
    exact (length_memcpy hinside).trans hout

theorem RecvState.Inv.frame {s s' : RecvState} {frames : List (List UInt8)} {room : Nat}
    (h : s.Inv frames room) {rx : Frame} (heffect : FrameEffect s rx.1 (.more s')) :
    s'.Inv (frames ++ [rx.1]) room := by
  cases heffect with
  | ignored hcase =>
      refine ⟨h.length, h.fits, fun hbegin => ?_⟩
      rcases hcase with hnone | ⟨hidle, -⟩
      · obtain ⟨payloads, hs⟩ := h.begun hbegin
        rw [hnone]
        exact ⟨payloads, { hs with transfer := hs.transfer.ignore }⟩
      · rw [hidle] at hbegin
        cases hbegin
  | begun hrx hfits hsome =>
      refine ⟨h.length, h.fits, fun _ => ⟨[], .start hrx, rfl, rfl, rfl, Nat.zero_le _, ?_⟩⟩
      have hle := UInt32.le_iff_toNat_le.mp hfits
      rw [UInt32.toNat_ofNat', h.length] at hle
      exact Nat.le_trans hle (Nat.mod_le _ _)
  | extended hbegin hrx hfits hmore =>
      obtain ⟨payloads, hs⟩ := h.begun hbegin
      have hlength := rx.2
      rw [hrx, length_dataFrame] at hlength
      obtain ⟨hnext, hout⟩ := hs.append h.length h.fits hlength hfits
      exact ⟨hout, h.fits, fun _ => ⟨_, hrx ▸ hnext⟩⟩

theorem RecvState.Inv.taken {s s' : RecvState} {frames : List Frame} {room : Nat}
    (h : s.Inv (frames.map Subtype.val) room) {rx : Frame} {outLen : UInt32} (later : List Frame)
    (heffect : FrameEffect s rx.1 (.done .ok outLen s')) :
    Received.Sound (frames ++ rx :: later) room ⟨.ok, outLen, s'.out, later⟩ := by
  have hframes : frames ++ rx :: later = (frames ++ [rx]) ++ later := by simp
  have hmap : (frames ++ [rx]).map Subtype.val = frames.map Subtype.val ++ [rx.1] := by simp
  cases heffect with
  | refused hresult => exact absurd rfl hresult
  | empty hrx hnone hcrc =>
      rw [hnone, ← hcrc] at hrx
      refine ⟨frames ++ [rx], [], crc32Buf [], hframes, ?_, rfl, rfl, (crc32Buf_eq []).symm,
        Nat.zero_le _⟩
      rw [hmap]
      exact .start hrx
  | finished hbegin hrx hfits hlast hcrc =>
      obtain ⟨payloads, hs⟩ := h.begun hbegin
      have hlength := rx.2
      rw [hrx, length_dataFrame] at hlength
      obtain ⟨hnext, -⟩ := hs.append h.length h.fits hlength hfits
      have hout := hnext.out
      have hoff := hnext.off
      rw [hlast] at hout hoff
      refine ⟨frames ++ [rx], _, s.wantCrc, hframes, ?_, hout, hoff.symm, ?_, hnext.total_le⟩
      · rw [hmap, hrx]
        exact hnext.transfer
      · rw [← hout, ← crc32Buf_eq]
        exact hcrc

theorem recvLoop_sound (timeoutMs : UInt32) (room : Nat) (frames seen : List Frame)
    {s : RecvState} (h : s.Inv (seen.map Subtype.val) room)
    (hok : (recvLoop timeoutMs s frames).result = .ok) :
    (recvLoop timeoutMs s frames).Sound (seen ++ frames) room := by
  induction frames generalizing s seen with
  | nil => cases hok
  | cons rx frames ih =>
      have heffect := recvFrame_effect timeoutMs s rx.1
      rw [recvLoop] at hok ⊢
      split at hok
      · rename_i s' hturn
        rw [hturn] at heffect
        have hnext : s'.Inv ((seen ++ [rx]).map Subtype.val) room := by
          rw [List.map_append]
          exact h.frame heffect
        have hrest := ih (seen ++ [rx]) hnext hok
        simpa using hrest
      · rename_i result outLen s' hturn
        rw [hturn] at heffect
        have hresult : result = .ok := hok
        rw [hresult] at heffect ⊢
        exact h.taken frames heffect

/-- A message that is taken is the payloads of the last transfer. -/
theorem recv_sound (timeoutMs : UInt32) (buf : OutBuf) (frames : List Frame)
    (hok : (msgHostRecv timeoutMs buf frames).result = .ok) :
    (msgHostRecv timeoutMs buf frames).Sound frames buf.bytes.length :=
  recvLoop_sound timeoutMs buf.bytes.length frames []
    ⟨rfl, buf.apart, nofun⟩ hok

theorem recvFrame_begin (timeoutMs : UInt32) (s : RecvState) {total wantCrc : UInt32}
    (hfits : total ≤ UInt32.ofNat s.out.length) :
    recvFrame timeoutMs s (beginFrame total wantCrc) =
      if total = 0 then
        if crc32Buf [] = wantCrc then .done .ok 0 (s.begun total wantCrc s.wait)
        else .done .errCrc 0 (s.begun total wantCrc s.wait)
      else
        .more (s.begun total wantCrc
          (if timeoutMs < chunkTimeoutMs then timeoutMs else chunkTimeoutMs)) := by
  have htotal : rdU32le ((beginFrame total wantCrc).drop 1) = total := rdU32le_wrU32le _ _
  have hcrc : rdU32le ((beginFrame total wantCrc).drop 5) = wantCrc := by
    have hdrop : (beginFrame total wantCrc).drop 5 = wrU32le wantCrc ++ [] := rfl
    rw [hdrop, rdU32le_wrU32le]
  have hlength : (beginFrame total wantCrc).length = msgBeginLen := rfl
  have hhead : (beginFrame total wantCrc).getD 0 0 = frameBegin := rfl
  rw [recvFrame, if_neg (by rw [hlength]; decide), if_pos hhead,
    if_neg (by rw [hlength]; decide)]
  simp only [htotal, hcrc]
  rw [if_neg (UInt32.not_lt.mpr hfits)]
  rfl

theorem recvFrame_data (timeoutMs : UInt32) {s : RecvState} (hbegin : s.haveBegin = true)
    {payload : List UInt8} (hfits : s.off + UInt32.ofNat payload.length ≤ s.total) :
    recvFrame timeoutMs s (dataFrame s.nextSeq payload) =
      if (s.append payload).off = s.total then
        if crc32Buf ((s.append payload).out.take s.total.toNat) ≠ s.wantCrc then
          .done .errCrc 0 (s.append payload)
        else .done .ok s.total (s.append payload)
      else .more (s.append payload) := by
  have hseq : rdU16le ((dataFrame s.nextSeq payload).drop 1) = s.nextSeq := rdU16le_wrU16le _ _
  have hpayload : (dataFrame s.nextSeq payload).drop msgDataHdr = payload := rfl
  have hlength := length_dataFrame s.nextSeq payload
  have hhead : (dataFrame s.nextSeq payload).getD 0 0 = frameData := rfl
  have hother : (dataFrame s.nextSeq payload).getD 0 0 ≠ frameBegin := by
    rw [hhead]
    decide
  rw [recvFrame, if_neg (by rw [hlength, msgDataHdr]; omega), if_neg hother, if_pos hhead,
    if_neg (by rw [hbegin]; decide), if_neg (by rw [hlength]; omega),
    if_neg (by rw [hseq]; exact not_not.mpr rfl)]
  simp only [hpayload]
  rw [if_neg (UInt32.not_lt.mpr hfits)]
  rfl

/-- The receiver in the middle of a message: it has the first part of it. -/
structure RecvState.Midway (s : RecvState) (data rest : List UInt8) : Prop where
  begun : s.haveBegin = true
  total : s.total = UInt32.ofNat data.length
  crc : s.wantCrc = crc32Buf data
  fits : data.length ≤ s.out.length
  bounded : s.out.length + hostRxMax ≤ 2 ^ 32
  out : s.out.take s.off.toNat ++ rest = data
  off : s.off.toNat + rest.length = data.length

theorem RecvState.Midway.toNat_total {s : RecvState} {data rest : List UInt8}
    (h : s.Midway data rest) : s.total.toNat = data.length := by
  have hfits := h.fits
  have hbounded := h.bounded
  simp only [hostRxMax] at hbounded
  rw [h.total, UInt32.toNat_ofNat', Nat.mod_eq_of_lt (by omega)]

theorem RecvState.Midway.off_eq_total_iff {s : RecvState} {data rest : List UInt8}
    (h : s.Midway data rest) : s.off = s.total ↔ rest = [] := by
  have hoff := h.off
  rw [← UInt32.toNat_inj, h.toNat_total, ← List.length_eq_zero_iff]
  omega

theorem RecvState.Midway.append {s : RecvState} {data rest : List UInt8} (h : s.Midway data rest) :
    s.off + UInt32.ofNat (rest.take chunkMax).length ≤ s.total ∧
      (s.append (rest.take chunkMax)).Midway data (rest.drop chunkMax) := by
  have htotal := h.toNat_total
  have hoff := h.off
  have hchunk : (rest.take chunkMax).length ≤ rest.length := List.length_take_le' _ _
  have hsplit : (rest.take chunkMax).length + (rest.drop chunkMax).length = rest.length := by
    rw [← List.length_append, List.take_append_drop]
  have hsmall : (rest.take chunkMax).length + msgDataHdr ≤ hostRxMax := by
    have hle : (rest.take chunkMax).length ≤ chunkMax := List.length_take_le _ _
    simp only [chunkMax, msgDataHdr, hostRxMax] at hle ⊢
    omega
  have hfits := h.fits
  have hroom : s.off.toNat ≤ s.out.length := by omega
  have hsum := toNat_off_add h.bounded hroom hsmall
  have hinside : s.off.toNat + (rest.take chunkMax).length ≤ s.out.length := by omega
  have hle : s.off + UInt32.ofNat (rest.take chunkMax).length ≤ s.total := by
    rw [UInt32.le_iff_toNat_le, hsum, htotal]
    omega
  have hout : (s.append (rest.take chunkMax)).out.length = s.out.length := length_memcpy hinside
  refine ⟨hle, h.begun, h.total, h.crc, hout ▸ h.fits, hout ▸ h.bounded, ?_, ?_⟩
  · rw [RecvState.append, hsum, take_memcpy (by omega), List.append_assoc,
      List.take_append_drop]
    exact h.out
  · rw [RecvState.append, hsum]
    omega

/-- The call has taken the message and waited for no frame behind it. -/
structure Received.Took (r : Received) (data : List UInt8) (later : List Frame) : Prop where
  ok : r.result = .ok
  outLen : r.outLen.toNat = data.length
  out : r.out.take data.length = data
  rest : r.later = later

/-- The DATA frames of the rest of a message complete it. -/
theorem recvLoop_chunkFrames (timeoutMs : UInt32) {data : List UInt8} (seq : UInt16)
    (rest : List UInt8) (frames later : List Frame) {s : RecvState} (h : s.Midway data rest)
    (hseq : s.nextSeq = seq) (hrest : rest ≠ [])
    (hframes : frames.map Subtype.val = chunkFrames seq rest) :
    (recvLoop timeoutMs s (frames ++ later)).Took data later := by
  induction seq, rest using chunkFrames.induct generalizing s frames with
  | case1 seq => exact absurd rfl hrest
  | case2 seq rest _ ih =>
      rw [chunkFrames, if_neg hrest] at hframes
      obtain ⟨rx, tail, rfl, hrx, htail⟩ := List.map_eq_cons_iff.mp hframes
      obtain ⟨hfits, hnext⟩ := h.append
      rw [List.cons_append, recvLoop, hrx, ← hseq, recvFrame_data timeoutMs h.begun hfits]
      by_cases hlast : (s.append (rest.take chunkMax)).off = s.total
      · have hdone : rest.drop chunkMax = [] := hnext.off_eq_total_iff.mp hlast
        have hout := hnext.out
        rw [hdone, List.append_nil, hlast] at hout
        have htail : tail = [] := by
          rw [hdone, chunkFrames, if_pos rfl] at htail
          exact List.map_eq_nil_iff.mp htail
        rw [if_pos hlast, if_neg (by rw [hout, h.crc]; exact not_not.mpr rfl), htail]
        exact ⟨rfl, h.toNat_total, by rw [← h.toNat_total]; exact hout, rfl⟩
      · have hmore : rest.drop chunkMax ≠ [] := fun hdone =>
          hlast (hnext.off_eq_total_iff.mpr hdone)
        rw [if_neg hlast]
        exact ih tail hnext (by rw [← hseq]; rfl) hmore htail

/-- The frames of a message that fits are taken and give the message. -/
theorem recv_send (timeoutMs : UInt32) (buf : OutBuf) {data : List UInt8}
    (hfits : data.length ≤ buf.bytes.length) {frames : List Frame} (later : List Frame)
    (hframes : frames.map Subtype.val = msgFrames data) :
    (msgHostRecv timeoutMs buf (frames ++ later)).Took data later := by
  have hapart := buf.apart
  simp only [hostRxMax] at hapart
  have htotal : (UInt32.ofNat data.length).toNat = data.length := by
    rw [UInt32.toNat_ofNat', Nat.mod_eq_of_lt (by omega)]
  have hle : UInt32.ofNat data.length ≤ UInt32.ofNat buf.bytes.length := by
    rw [UInt32.le_iff_toNat_le, htotal, UInt32.toNat_ofNat', Nat.mod_eq_of_lt (by omega)]
    exact hfits
  rw [msgFrames] at hframes
  obtain ⟨rx, tail, rfl, hrx, htail⟩ := List.map_eq_cons_iff.mp hframes
  rw [msgHostRecv, List.cons_append, recvLoop, hrx, recvFrame_begin _ _ hle]
  by_cases hnone : data = []
  · have htail : tail = [] := by
      rw [hnone, chunkFrames, if_pos rfl] at htail
      exact List.map_eq_nil_iff.mp htail
    have hzero : UInt32.ofNat ([] : List UInt8).length = 0 := rfl
    rw [hnone, htail, if_pos hzero, if_pos rfl]
    exact ⟨rfl, rfl, rfl, rfl⟩
  · have hsome : UInt32.ofNat data.length ≠ 0 := fun hzero => by
      rw [← UInt32.toNat_inj, htotal] at hzero
      exact hnone (List.length_eq_zero_iff.mp hzero)
    rw [if_neg hsome]
    exact recvLoop_chunkFrames timeoutMs 0 data tail later
      ⟨rfl, rfl, rfl, hfits, buf.apart, rfl, Nat.zero_add _⟩ rfl hnone htail

theorem writeFrames_accepted {accepts : Nat → Bool} (h : ∀ i, accepts i = true) (i : Nat)
    (frames : List (List UInt8)) : writeFrames accepts i frames = (.ok, frames) := by
  induction frames generalizing i with
  | nil => rfl
  | cons frame frames ih => rw [writeFrames, if_pos (h i), ih]

theorem length_chunkFrames_le (seq : UInt16) (data : List UInt8) :
    ∀ frame ∈ chunkFrames seq data, frame.length ≤ hostRxMax := by
  induction seq, data using chunkFrames.induct with
  | case1 seq =>
      rw [chunkFrames, if_pos rfl]
      nofun
  | case2 seq data hdata ih =>
      rw [chunkFrames, if_neg hdata, List.forall_mem_cons]
      refine ⟨?_, ih⟩
      have hchunk : (data.take chunkMax).length ≤ chunkMax := List.length_take_le _ _
      rw [length_dataFrame]
      simp only [chunkMax, msgDataHdr, hostRxMax] at hchunk ⊢
      omega

theorem length_msgFrames_le (data : List UInt8) :
    ∀ frame ∈ msgFrames data, frame.length ≤ hostRxMax := by
  rw [msgFrames, List.forall_mem_cons]
  exact ⟨Nat.le_of_ble_eq_true rfl, length_chunkFrames_le 0 data⟩

/-- The frames of a message as the receiver is handed them. -/
def handedOver (data : List UInt8) : List Frame :=
  (msgFrames data).pmap Subtype.mk (length_msgFrames_le data)

theorem map_handedOver (data : List UInt8) :
    (handedOver data).map Subtype.val = msgFrames data := by
  rw [handedOver, List.map_pmap]
  exact List.pmap_eq_self.mpr fun _ _ => rfl

/-- Whatever frames arrive, a message that is taken consists of the payloads behind the last
BEGIN, in order and as announced; and the frames that the sender writes for a message that
fits are taken and give the message. -/
theorem msg_transfer (timeoutMs : UInt32) (buf : OutBuf) :
    (∀ frames, (msgHostRecv timeoutMs buf frames).result = .ok →
      (msgHostRecv timeoutMs buf frames).Sound frames buf.bytes.length) ∧
    ∀ accepts data, (∀ i, accepts i = true) → data.length ≤ buf.bytes.length →
      (msgSend accepts data).1 = .ok ∧
      ∀ frames later, frames.map Subtype.val = (msgSend accepts data).2 →
        (msgHostRecv timeoutMs buf (frames ++ later)).Took data later := by
  constructor
  · exact recv_sound timeoutMs buf
  · intro accepts data haccepts hfits
    rw [msgSend, writeFrames_accepted haccepts]
    exact ⟨rfl, fun frames later hframes => recv_send timeoutMs buf hfits later hframes⟩

/-- A buffer of four bytes. -/
def fourBytes : OutBuf := ⟨[0, 0, 0, 0], by decide⟩

theorem msg_transfer_twoBytes :
    (msgHostRecv 1000 fourBytes (handedOver [7, 8] ++ [])).Took [7, 8] [] := by
  have hsent : (handedOver [7, 8]).map Subtype.val = (msgSend (fun _ => true) [7, 8]).2 := by
    rw [msgSend, writeFrames_accepted (fun _ => rfl), map_handedOver]
  exact ((msg_transfer 1000 fourBytes).2 (fun _ => true) [7, 8] (fun _ => rfl) (by decide)).2
    (handedOver [7, 8]) [] hsent

end Ble
end JppDos
