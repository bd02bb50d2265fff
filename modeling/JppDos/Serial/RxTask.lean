import JppDos.Lib.Matcher
import JppDos.Serial.Wire

/-!
# The JPPD-SMP receive task

`smp_rx_task` reads the serial port through `usb_serial_jtag_read_bytes`, which
returns as soon as any bytes are available.  The port is modelled by the bytes
still to arrive and by the driver's answers to the coming read calls, so every
segmentation and every timing of the stream is a choice of `calls`.

Main fact:
* `rxLoop_framed`: a framed stream is dispatched in order, nothing lost.
-/

namespace JppDos
namespace Serial

open Crc LittleEndian

/-- How the driver answers one read call: the ticks the call takes and the
number of bytes it has ready. -/
structure ReadCall where
  wait : Nat
  ready : Nat
deriving Repr, DecidableEq

/-- The serial port as the task sees it: the tick count, the bytes still to
arrive, and the driver's answers to the coming calls. -/
structure Port where
  now : Nat
  rx : List UInt8
  calls : List ReadCall
deriving Repr, DecidableEq

/-- `usb_serial_jtag_read_bytes`.  `none`: the observed run ends with the task
blocked in this call. -/
def usbSerialJtagReadBytes (len : Nat) (p : Port) : Option (List UInt8 × Port) :=
  match p.calls with
  | [] => none
  | c :: calls =>
      let r := min c.ready len
      some (p.rx.take r, ⟨p.now + c.wait, p.rx.drop r, calls⟩)

/-- The loop of `smp_read_exact`; `fuel` bounds the read calls still to come. -/
def smpReadExactLoop (len ticks start : Nat) :
    Nat → List UInt8 → Port → Option (List UInt8 × Port)
  | 0, _, _ => none
  | fuel + 1, buf, p =>
      if buf.length < len then
        -- the overall deadline has elapsed
        if p.now - start ≥ ticks then some (buf, p)
        else
          match usbSerialJtagReadBytes (len - buf.length) p with
          | none => none
          | some (r, p') => smpReadExactLoop len ticks start fuel (buf ++ r) p'
      else some (buf, p)

/-- `smp_read_exact`. -/
def smpReadExact (len ticks : Nat) (p : Port) : Option (List UInt8 × Port) :=
  smpReadExactLoop len ticks p.now (p.calls.length + 1) [] p

/-- The SOF scan of `smp_rx_task`. -/
def scanSofLoop : Nat → Nat → Port → Option Port
  | 0, _, _ => none
  | fuel + 1, sofIdx, p =>
      if sofIdx < 4 then
        match usbSerialJtagReadBytes 1 p with
        | none => none
        | some ([byte], p') =>
            if smpSof[sofIdx]? = some byte then scanSofLoop fuel (sofIdx + 1) p'
            else if smpSof[0]? = some byte then scanSofLoop fuel 1 p'
            else scanSofLoop fuel 0 p'
        | some (_, p') => scanSofLoop fuel sofIdx p'
      else some p

def scanSof (p : Port) : Option Port :=
  scanSofLoop (p.calls.length + 1) 0 p

/-- How one pass of the receive loop ends. -/
inductive RxEvent where
  | shortRead
  | badLength (plen : Nat)
  | crcErr (payload : List UInt8)
  | dispatch (payload : List UInt8)
deriving Repr, DecidableEq

section Task

variable (hz : Nat)

/-- `pdMS_TO_TICKS` at a tick rate of `hz`. -/
def pdMsToTicks (ms : Nat) : Nat := ms * hz / 1000

/-- One pass of the loop of `smp_rx_task`. -/
def rxOnce (p : Port) : Option (RxEvent × Port) := do
  let p ← scanSof p
  let (lenBytes, p) ← smpReadExact 2 (pdMsToTicks hz 1000) p
  match lenBytes with
  | [len0, len1] =>
      let plen := len0.toNat ||| len1.toNat <<< 8
      if plen = 0 ∨ plen > smpMaxPayloadBytes then return (.badLength plen, p)
      let (payload, p) ← smpReadExact plen (pdMsToTicks hz 10000) p
      if payload.length ≠ plen then return (.shortRead, p)
      let (crcBytes, p) ← smpReadExact 2 (pdMsToTicks hz 1000) p
      match crcBytes with
      | [crc0, crc1] =>
          let recvCrc := crc0.toNat ||| crc1.toNat <<< 8
          let calcCrc := crc16Buf (crc16Buf 0xFFFF lenBytes) payload
          if calcCrc.toNat ≠ recvCrc then return (.crcErr payload, p)
          return (.dispatch payload, p)
      | _ => return (.shortRead, p)
  | _ => return (.shortRead, p)

/-- The loop of `smp_rx_task`, for at most `fuel` passes. -/
def rxLoop : Nat → Port → List RxEvent
  | 0, _ => []
  | fuel + 1, p =>
      match rxOnce hz p with
      | none => []
      | some (e, p') => e :: rxLoop fuel p'

/-- `smp_rx_task`, until it blocks in a read call whose answer is not
observed.  A pass takes at least one read call. -/
def smpRxTask (p : Port) : List RxEvent :=
  rxLoop hz (p.calls.length + 1) p

end Task

/-- The payloads handed to `dispatch_command`. -/
def dispatched : List RxEvent → List (List UInt8)
  | [] => []
  | .dispatch payload :: es => payload :: dispatched es
  | _ :: es => dispatched es

/-- The observed calls bring at least as many nonempty answers as there are
bytes to come. -/
def Port.Supplied (p : Port) : Prop :=
  p.rx.length ≤ (p.calls.filter (fun c => 0 < c.ready)).length

theorem usbSerialJtagReadBytes_spec {len : Nat} {p p' : Port} {r : List UInt8}
    (h : usbSerialJtagReadBytes len p = some (r, p')) :
    p.rx = r ++ p'.rx ∧ r.length ≤ len ∧ p.calls.length = p'.calls.length + 1 ∧
      (0 < len → p.Supplied → p'.Supplied) := by
  obtain ⟨now, rx, calls⟩ := p
  cases calls with
  | nil => simp [usbSerialJtagReadBytes] at h
  | cons c calls =>
      simp only [usbSerialJtagReadBytes, Option.some.injEq, Prod.mk.injEq] at h
      obtain ⟨rfl, rfl⟩ := h
      refine ⟨by simp, by simp, rfl, ?_⟩
      intro hlen hsup
      unfold Port.Supplied at hsup ⊢
      by_cases hc : 0 < c.ready
      · simp only [List.filter_cons, hc, decide_true, if_true, List.length_cons] at hsup
        simp only [List.length_drop]
        omega
      · simp only [List.filter_cons, hc, decide_false, Bool.false_eq_true, if_false] at hsup
        simp only [List.length_drop]
        omega

/-- A read call is only blocked for good when the observed calls are used up. -/
theorem usbSerialJtagReadBytes_none {len : Nat} {p : Port}
    (h : usbSerialJtagReadBytes len p = none) : p.calls = [] := by
  obtain ⟨now, rx, calls⟩ := p
  cases calls with
  | nil => rfl
  | cons c calls => simp [usbSerialJtagReadBytes] at h

theorem supplied_nil {p : Port} (h : p.Supplied) (hc : p.calls = []) : p.rx = [] := by
  unfold Port.Supplied at h
  rw [hc] at h
  exact List.length_eq_zero_iff.mp (Nat.le_zero.mp h)

theorem smpReadExactLoop_some {len ticks start : Nat} :
    ∀ {fuel : Nat} {buf out : List UInt8} {p p' : Port}, buf.length ≤ len →
      smpReadExactLoop len ticks start fuel buf p = some (out, p') →
      (∃ r, out = buf ++ r ∧ p.rx = r ++ p'.rx) ∧ out.length ≤ len ∧
        p'.calls.length ≤ p.calls.length ∧ (p.Supplied → p'.Supplied)
  | 0, _, _, _, _, _, h => by simp [smpReadExactLoop] at h
  | fuel + 1, buf, out, p, p', hbuf, h => by
      unfold smpReadExactLoop at h
      split_ifs at h with hlt _
      · obtain ⟨rfl, rfl⟩ := Prod.mk.inj (Option.some.inj h)
        exact ⟨⟨[], by simp⟩, hbuf, le_rfl, id⟩
      · cases hr : usbSerialJtagReadBytes (len - buf.length) p with
        | none => simp [hr] at h
        | some rp =>
            obtain ⟨r, q⟩ := rp
            simp only [hr] at h
            obtain ⟨hrx, hrlen, hcalls, hsup⟩ := usbSerialJtagReadBytes_spec hr
            obtain ⟨⟨r', rfl, hq⟩, hout, hcalls', hsup'⟩ :=
              smpReadExactLoop_some (by simp; omega) h
            refine ⟨⟨r ++ r', by simp, by simp [hrx, hq]⟩, hout, by omega, ?_⟩
            exact fun hs => hsup' (hsup (by omega) hs)
      · obtain ⟨rfl, rfl⟩ := Prod.mk.inj (Option.some.inj h)
        exact ⟨⟨[], by simp⟩, hbuf, le_rfl, id⟩

theorem smpReadExactLoop_none {len ticks start : Nat} :
    ∀ {fuel : Nat} {buf : List UInt8} {p : Port}, p.calls.length < fuel →
      p.Supplied → smpReadExactLoop len ticks start fuel buf p = none →
      buf.length + p.rx.length < len
  | 0, _, _, hf, _, _ => by omega
  | fuel + 1, buf, p, hf, hs, h => by
      unfold smpReadExactLoop at h
      split_ifs at h with hlt _
      cases hr : usbSerialJtagReadBytes (len - buf.length) p with
      | none =>
          have := supplied_nil hs (usbSerialJtagReadBytes_none hr)
          simp only [this, List.length_nil]
          omega
      | some rp =>
          obtain ⟨r, q⟩ := rp
          simp only [hr] at h
          obtain ⟨hrx, hrlen, hcalls, hsup⟩ := usbSerialJtagReadBytes_spec hr
          have := smpReadExactLoop_none (by omega) (hsup (by omega) hs) h
          rw [hrx]
          simp only [List.length_append] at this ⊢
          omega

/-- A multi-packet read returns the next bytes of the stream, and `len` of them
unless the deadline passed. -/
theorem smpReadExact_some {len ticks : Nat} {p p' : Port} {buf : List UInt8}
    (h : smpReadExact len ticks p = some (buf, p')) :
    p.rx = buf ++ p'.rx ∧ buf.length ≤ len ∧
      p'.calls.length ≤ p.calls.length ∧ (p.Supplied → p'.Supplied) := by
  obtain ⟨⟨r, rfl, hrx⟩, hlen, hcalls, hsup⟩ :=
    smpReadExactLoop_some (by simp) h
  exact ⟨hrx, hlen, hcalls, hsup⟩

/-- A multi-packet read of bytes that are there does not block. -/
theorem smpReadExact_none {len ticks : Nat} {p : Port} (hs : p.Supplied)
    (h : smpReadExact len ticks p = none) : p.rx.length < len := by
  have := smpReadExactLoop_none (by omega) hs h
  simpa using this

theorem smpSof_uniqueHead : Matcher.UniqueHead smpSof := by
  simp [Matcher.UniqueHead, smpSof]

/-- The three branches of the scanner are one step of the generic matcher. -/
theorem advance_smpSof (idx : Nat) (byte : UInt8) :
    Matcher.advance smpSof idx byte =
      if smpSof[idx]? = some byte then idx + 1
      else if smpSof[0]? = some byte then 1 else 0 := rfl

theorem scanSofLoop_byte {fuel idx : Nat} {byte : UInt8} {p q : Port} (hidx : idx < 4)
    (hr : usbSerialJtagReadBytes 1 p = some ([byte], q)) :
    scanSofLoop (fuel + 1) idx p =
      scanSofLoop fuel (Matcher.advance smpSof idx byte) q := by
  rw [scanSofLoop, if_pos hidx, hr, advance_smpSof]
  simp only
  split_ifs <;> rfl

/-- The scanner keeps its index when a call brings no byte. -/
theorem scanSofLoop_empty {fuel idx : Nat} {p q : Port} (hidx : idx < 4)
    (hr : usbSerialJtagReadBytes 1 p = some ([], q)) :
    scanSofLoop (fuel + 1) idx p = scanSofLoop fuel idx q := by
  rw [scanSofLoop, if_pos hidx, hr]

theorem advance_le (idx : Nat) (byte : UInt8) (hidx : idx < 4) :
    Matcher.advance smpSof idx byte ≤ 4 := by
  rw [advance_smpSof]
  split_ifs <;> omega

theorem read_one_cases {p : Port} :
    (usbSerialJtagReadBytes 1 p = none) ∨
      (∃ q, usbSerialJtagReadBytes 1 p = some ([], q)) ∨
      (∃ byte q, usbSerialJtagReadBytes 1 p = some ([byte], q)) := by
  cases hr : usbSerialJtagReadBytes 1 p with
  | none => exact Or.inl rfl
  | some rp =>
      obtain ⟨r, q⟩ := rp
      have hlen := (usbSerialJtagReadBytes_spec hr).2.1
      match r, hlen with
      | [], _ => exact Or.inr (Or.inl ⟨q, rfl⟩)
      | [byte], _ => exact Or.inr (Or.inr ⟨byte, q, rfl⟩)

theorem scanSofLoop_some :
    ∀ {fuel idx : Nat} {p p' : Port}, idx < 4 →
      scanSofLoop fuel idx p = some p' →
      Matcher.scan smpSof idx p.rx = some p'.rx ∧
        p'.calls.length < p.calls.length ∧ (p.Supplied → p'.Supplied)
  | 0, _, _, _, _, h => by simp [scanSofLoop] at h
  | fuel + 1, idx, p, p', hidx, h => by
      rcases read_one_cases (p := p) with hr | ⟨q, hr⟩ | ⟨byte, q, hr⟩
      · rw [scanSofLoop, if_pos hidx, hr] at h
        exact absurd h (by simp)
      · rw [scanSofLoop_empty hidx hr] at h
        obtain ⟨hrx, _, hcalls, hsup⟩ := usbSerialJtagReadBytes_spec hr
        obtain ⟨h1, h2, h3⟩ := scanSofLoop_some hidx h
        exact ⟨by rw [hrx]; exact h1, by omega, fun hs => h3 (hsup (by omega) hs)⟩
      · rw [scanSofLoop_byte hidx hr] at h
        obtain ⟨hrx, _, hcalls, hsup⟩ := usbSerialJtagReadBytes_spec hr
        rw [hrx, List.singleton_append, Matcher.scan]
        by_cases hfull : Matcher.advance smpSof idx byte = smpSof.length
        · -- the index is now 4: the loop condition fails on the next turn
          rw [if_pos hfull]
          cases fuel with
          | zero => simp [scanSofLoop] at h
          | succ fuel =>
              rw [scanSofLoop, hfull, if_neg (by decide)] at h
              obtain rfl := Option.some.inj h
              exact ⟨rfl, by omega, hsup (by omega)⟩
        · rw [if_neg hfull]
          have hle := advance_le idx byte hidx
          have hne : Matcher.advance smpSof idx byte ≠ 4 := hfull
          obtain ⟨h1, h2, h3⟩ := scanSofLoop_some (by omega) h
          exact ⟨h1, by omega, fun hs => h3 (hsup (by omega) hs)⟩

theorem scanSofLoop_none :
    ∀ {fuel idx : Nat} {p : Port}, idx < 4 → p.calls.length < fuel → p.Supplied →
      scanSofLoop fuel idx p = none → Matcher.scan smpSof idx p.rx = none
  | 0, _, _, _, hf, _, _ => by omega
  | fuel + 1, idx, p, hidx, hf, hs, h => by
      rcases read_one_cases (p := p) with hr | ⟨q, hr⟩ | ⟨byte, q, hr⟩
      · rw [supplied_nil hs (usbSerialJtagReadBytes_none hr)]
        rfl
      · rw [scanSofLoop_empty hidx hr] at h
        obtain ⟨hrx, _, hcalls, hsup⟩ := usbSerialJtagReadBytes_spec hr
        rw [hrx]
        exact scanSofLoop_none hidx (by omega) (hsup (by omega) hs) h
      · rw [scanSofLoop_byte hidx hr] at h
        obtain ⟨hrx, _, hcalls, hsup⟩ := usbSerialJtagReadBytes_spec hr
        rw [hrx, List.singleton_append, Matcher.scan]
        by_cases hfull : Matcher.advance smpSof idx byte = smpSof.length
        · cases fuel with
          | zero => omega
          | succ fuel =>
              rw [scanSofLoop, hfull, if_neg (by decide)] at h
              exact absurd h (by simp)
        · rw [if_neg hfull]
          have hle := advance_le idx byte hidx
          have hne : Matcher.advance smpSof idx byte ≠ 4 := hfull
          exact scanSofLoop_none (by omega) (by omega) (hsup (by omega) hs) h

/-- The port scan stops where the generic matcher does. -/
theorem scanSof_some {p p' : Port} (h : scanSof p = some p') :
    Matcher.scan smpSof 0 p.rx = some p'.rx ∧
      p'.calls.length < p.calls.length ∧ (p.Supplied → p'.Supplied) :=
  scanSofLoop_some (by omega) h

theorem scanSof_none {p : Port} (hs : p.Supplied) (h : scanSof p = none) :
    Matcher.scan smpSof 0 p.rx = none :=
  scanSofLoop_none (by omega) (by omega) hs h

section Pass

variable {hz : Nat}

theorem rxOnce_cases {p p' : Port} {e : RxEvent} (h : rxOnce hz p = some (e, p')) :
    ∃ q lenBytes q₁, scanSof p = some q ∧
      smpReadExact 2 (pdMsToTicks hz 1000) q = some (lenBytes, q₁) ∧
      ((lenBytes.length ≠ 2 ∧ e = .shortRead ∧ p' = q₁) ∨
       (lenBytes.length = 2 ∧ (leNat lenBytes = 0 ∨ leNat lenBytes > smpMaxPayloadBytes) ∧
          e = .badLength (leNat lenBytes) ∧ p' = q₁) ∨
       (lenBytes.length = 2 ∧ ¬ (leNat lenBytes = 0 ∨ leNat lenBytes > smpMaxPayloadBytes) ∧
          ∃ payload q₂,
            smpReadExact (leNat lenBytes) (pdMsToTicks hz 10000) q₁ = some (payload, q₂) ∧
            ((payload.length ≠ leNat lenBytes ∧ e = .shortRead ∧ p' = q₂) ∨
             (payload.length = leNat lenBytes ∧ ∃ crcBytes,
                smpReadExact 2 (pdMsToTicks hz 1000) q₂ = some (crcBytes, p') ∧
                ((crcBytes.length ≠ 2 ∧ e = .shortRead) ∨
                 (crcBytes.length = 2 ∧
                    (crc16Buf 0xFFFF (lenBytes ++ payload)).toNat ≠ leNat crcBytes ∧
                    e = .crcErr payload) ∨
                 (crcBytes.length = 2 ∧
                    (crc16Buf 0xFFFF (lenBytes ++ payload)).toNat = leNat crcBytes ∧
                    e = .dispatch payload)))))) := by
  unfold rxOnce at h
  obtain ⟨q, hq, h⟩ := Option.bind_eq_some_iff.mp h
  obtain ⟨⟨lenBytes, q₁⟩, hlen, h⟩ := Option.bind_eq_some_iff.mp h
  refine ⟨q, lenBytes, q₁, hq, hlen, ?_⟩
  have hle := (smpReadExact_some hlen).2.1
  match lenBytes, hle with
  | [], _ =>
      simp only [pure, Option.some.injEq, Prod.mk.injEq] at h
      exact Or.inl ⟨by simp, h.1.symm, h.2.symm⟩
  | [_], _ =>
      simp only [pure, Option.some.injEq, Prod.mk.injEq] at h
      exact Or.inl ⟨by simp, h.1.symm, h.2.symm⟩
  | [len0, len1], _ =>
      right
      simp only [or_shift_two] at h
      by_cases hbad : leNat [len0, len1] = 0 ∨ leNat [len0, len1] > smpMaxPayloadBytes
      · rw [if_pos hbad] at h
        simp only [pure, Option.some.injEq, Prod.mk.injEq] at h
        exact Or.inl ⟨rfl, hbad, h.1.symm, h.2.symm⟩
      · right
        rw [if_neg hbad] at h
        obtain ⟨⟨payload, q₂⟩, hpay, h⟩ := Option.bind_eq_some_iff.mp h
        refine ⟨rfl, hbad, payload, q₂, hpay, ?_⟩
        by_cases hshort : payload.length ≠ leNat [len0, len1]
        · simp only [if_pos hshort, pure, Option.some.injEq, Prod.mk.injEq] at h
          exact Or.inl ⟨hshort, h.1.symm, h.2.symm⟩
        · right
          simp only [if_neg hshort] at h
          obtain ⟨⟨crcBytes, q₃⟩, hcrc, h⟩ := Option.bind_eq_some_iff.mp h
          have hle' := (smpReadExact_some hcrc).2.1
          refine ⟨not_not.mp hshort, crcBytes, ?_⟩
          match crcBytes, hle' with
          | [], _ =>
              simp only [pure, Option.some.injEq, Prod.mk.injEq] at h
              obtain ⟨rfl, rfl⟩ := h
              exact ⟨hcrc, Or.inl ⟨by simp, rfl⟩⟩
          | [_], _ =>
              simp only [pure, Option.some.injEq, Prod.mk.injEq] at h
              obtain ⟨rfl, rfl⟩ := h
              exact ⟨hcrc, Or.inl ⟨by simp, rfl⟩⟩
          | [crc0, crc1], _ =>
              simp only [← crc16Buf_append] at h
              split_ifs at h with hne
              · simp only [pure, Option.some.injEq, Prod.mk.injEq] at h
                obtain ⟨rfl, rfl⟩ := h
                exact ⟨hcrc, Or.inr (Or.inl ⟨rfl, hne, rfl⟩)⟩
              · simp only [pure, Option.some.injEq, Prod.mk.injEq] at h
                obtain ⟨rfl, rfl⟩ := h
                exact ⟨hcrc, Or.inr (Or.inr ⟨rfl, not_not.mp hne, rfl⟩)⟩

/-- A pass only takes bytes from the front of the stream. -/
theorem rxOnce_progress {p p' : Port} {e : RxEvent} (h : rxOnce hz p = some (e, p')) :
    (∃ taken, p.rx = taken ++ p'.rx) ∧ p'.calls.length < p.calls.length ∧
      (p.Supplied → p'.Supplied) := by
  obtain ⟨q, lenBytes, q₁, hq, hlen, hrest⟩ := rxOnce_cases h
  obtain ⟨hscan, hcalls, hsup⟩ := scanSof_some hq
  obtain ⟨pre, hpre⟩ := Matcher.scan_sound smpSof_uniqueHead hscan
  obtain ⟨h1, _, hcalls1, hsup1⟩ := smpReadExact_some hlen
  rcases hrest with ⟨_, _, rfl⟩ | ⟨_, _, _, rfl⟩ | ⟨_, _, payload, q₂, hpay, hrest⟩
  · exact ⟨⟨_, by rw [hpre, h1, ← List.append_assoc]⟩, by omega,
      fun hs => hsup1 (hsup hs)⟩
  · exact ⟨⟨_, by rw [hpre, h1, ← List.append_assoc]⟩, by omega,
      fun hs => hsup1 (hsup hs)⟩
  · obtain ⟨h2, _, hcalls2, hsup2⟩ := smpReadExact_some hpay
    rcases hrest with ⟨_, _, rfl⟩ | ⟨_, crcBytes, hcrc, _⟩
    · exact ⟨⟨pre ++ smpSof ++ lenBytes ++ payload, by simp [hpre, h1, h2]⟩, by omega,
        fun hs => hsup2 (hsup1 (hsup hs))⟩
    · obtain ⟨h3, _, hcalls3, hsup3⟩ := smpReadExact_some hcrc
      exact ⟨⟨pre ++ smpSof ++ lenBytes ++ payload ++ crcBytes, by simp [hpre, h1, h2, h3]⟩,
        by omega, fun hs => hsup3 (hsup2 (hsup1 (hsup hs)))⟩

/-- A dispatched payload was framed in the bytes the pass took. -/
theorem rxOnce_dispatch {p p' : Port} {payload : List UInt8}
    (h : rxOnce hz p = some (.dispatch payload, p')) :
    (∃ pre, p.rx = pre ++ wireFrame payload ++ p'.rx) ∧
      1 ≤ payload.length ∧ payload.length ≤ smpMaxPayloadBytes := by
  obtain ⟨q, lenBytes, q₁, hq, hlen, hrest⟩ := rxOnce_cases h
  obtain ⟨pre, hpre⟩ := Matcher.scan_sound smpSof_uniqueHead (scanSof_some hq).1
  obtain ⟨h1, _, _⟩ := smpReadExact_some hlen
  rcases hrest with ⟨_, he, _⟩ | ⟨_, _, he, _⟩ | ⟨hl2, hok, pl, q₂, hpay, hrest⟩
  · exact absurd he (by simp)
  · exact absurd he (by simp)
  rcases hrest with ⟨_, he, _⟩ | ⟨hpl, crcBytes, hcrc, hrest⟩
  · exact absurd he (by simp)
  rcases hrest with ⟨_, he⟩ | ⟨_, _, he⟩ | ⟨hc2, hcrcEq, he⟩
  · exact absurd he (by simp)
  · exact absurd he (by simp)
  obtain rfl := RxEvent.dispatch.inj he
  obtain ⟨h2, _, _⟩ := smpReadExact_some hpay
  obtain ⟨h3, _, _⟩ := smpReadExact_some hcrc
  -- both length fields are the canonical encodings of what was read
  have hlenBytes : leBytes 2 payload.length = lenBytes := by
    rw [hpl, ← hl2, leBytes_leNat]
  have hcrcBytes : leBytes 2 (crc16Buf 0xFFFF (leBytes 2 payload.length ++ payload)).toNat =
      crcBytes := by
    rw [hlenBytes, hcrcEq, ← hc2, leBytes_leNat]
  refine ⟨⟨pre, ?_⟩, by omega, by omega⟩
  rw [wireFrame, hcrcBytes, hlenBytes, hpre, h1, h2, h3]
  simp

/-- Noise in front of a frame that completes no earlier preamble. -/
def CleanNoise (noise : List UInt8) : Prop :=
  ¬ smpSof <:+: noise ++ smpSof.dropLast

/-- The checksum of a payload behind its length. -/
def checkOf (payload : List UInt8) : UInt16 :=
  crc16Buf 0xFFFF (leBytes 2 payload.length ++ payload)

/-- A frame on the line: the noise in front of it, and the payload and the checksum that arrive. -/
structure LineFrame where
  noise : List UInt8
  payload : List UInt8
  crc : UInt16

def LineFrame.bytes (f : LineFrame) : List UInt8 :=
  f.noise ++ smpSof ++ (leBytes 2 f.payload.length ++ (f.payload ++ leBytes 2 f.crc.toNat))

/-- A frame of the host, behind some noise. -/
def LineFrame.ofHost (item : List UInt8 × List UInt8) : LineFrame :=
  ⟨item.1, item.2, checkOf item.2⟩

theorem LineFrame.payload_ofHost (item : List UInt8 × List UInt8) :
    (LineFrame.ofHost item).payload = item.2 := rfl

theorem LineFrame.crc_ofHost (item : List UInt8 × List UInt8) :
    (LineFrame.ofHost item).crc = checkOf item.2 := by
  rw [LineFrame.ofHost]

/-- A frame that the task finds where it is, and whose length it accepts. -/
structure LineFrame.Framed (f : LineFrame) : Prop where
  clean : CleanNoise f.noise
  pos : 1 ≤ f.payload.length
  le : f.payload.length ≤ smpMaxPayloadBytes

theorem scan_bytes {f : LineFrame} (h : f.Framed) (rest : List UInt8) :
    Matcher.scan smpSof 0 (f.bytes ++ rest) =
      some (leBytes 2 f.payload.length ++ (f.payload ++ (leBytes 2 f.crc.toNat ++ rest))) := by
  rw [LineFrame.bytes, List.append_assoc (f.noise ++ smpSof), List.append_assoc (leBytes _ _),
    List.append_assoc f.payload]
  exact Matcher.scan_noise smpSof_uniqueHead h.clean

/-- What a pass makes of a frame, unless a read deadline passes inside it. -/
theorem rxOnce_bytes {p p' : Port} {e : RxEvent} {f : LineFrame} {rest : List UInt8}
    (hf : f.Framed) (hrx : p.rx = f.bytes ++ rest) (h : rxOnce hz p = some (e, p')) :
    e = .shortRead ∨ p'.rx = rest ∧
      e = if checkOf f.payload = f.crc then .dispatch f.payload else .crcErr f.payload := by
  have hval : leNat (leBytes 2 f.payload.length) = f.payload.length :=
    leNat_leBytes (lt_of_le_of_lt hf.le (by decide))
  have hpos := hf.pos
  have hmax := hf.le
  have hscan := scan_bytes hf rest
  obtain ⟨q, lenBytes, q₁, hq, hlen, hrest⟩ := rxOnce_cases h
  rw [← hrx, (scanSof_some hq).1, (smpReadExact_some hlen).1, Option.some.injEq] at hscan
  rcases hrest with ⟨_, hs, _⟩ | ⟨hl2, hbad, _, _⟩ | ⟨hl2, _, payload, q₂, hpay, hrest⟩
  · exact .inl hs
  · obtain ⟨rfl, _⟩ := List.append_inj hscan (by simp [hl2])
    omega
  obtain ⟨rfl, hq₁⟩ := List.append_inj hscan (by simp [hl2])
  rcases hrest with ⟨_, hs, _⟩ | ⟨hpl, crcBytes, hcrc, hrest⟩
  · exact .inl hs
  rw [(smpReadExact_some hpay).1] at hq₁
  obtain ⟨rfl, hq₂⟩ := List.append_inj hq₁ (by omega)
  rw [(smpReadExact_some hcrc).1] at hq₂
  rcases hrest with ⟨_, hs⟩ | ⟨hc2, hne, hd⟩ | ⟨hc2, hsame, hd⟩
  · exact .inl hs
  · obtain ⟨rfl, hback⟩ := List.append_inj hq₂ (by simp [hc2])
    rw [leNat_leBytes (UInt16.toNat_lt _), ← checkOf] at hne
    rw [if_neg fun hsame => hne (congrArg UInt16.toNat hsame)]
    exact .inr ⟨hback, hd⟩
  · obtain ⟨rfl, hback⟩ := List.append_inj hq₂ (by simp [hc2])
    rw [leNat_leBytes (UInt16.toNat_lt _), ← checkOf] at hsame
    rw [if_pos (UInt16.toNat_inj.mp hsame)]
    exact .inr ⟨hback, hd⟩

/-- A frame of which two adjacent bytes may be changed on the way, and the noise in front of it. -/
structure SentFrame where
  noise : List UInt8
  pre : List UInt8
  sent : UInt8 × UInt8
  got : UInt8 × UInt8
  post : List UInt8

namespace SentFrame

def payload (f : SentFrame) : List UInt8 := f.pre ++ f.sent.1 :: f.sent.2 :: f.post

/-- What arrives of a frame. -/
def arrived (f : SentFrame) : LineFrame :=
  ⟨f.noise, f.pre ++ f.got.1 :: f.got.2 :: f.post, checkOf f.payload⟩

end SentFrame

theorem rxOnce_none_cases {p : Port} (h : rxOnce hz p = none) :
    scanSof p = none ∨
      ∃ q, scanSof p = some q ∧
        (smpReadExact 2 (pdMsToTicks hz 1000) q = none ∨
          ∃ lenBytes q₁,
            smpReadExact 2 (pdMsToTicks hz 1000) q = some (lenBytes, q₁) ∧
            lenBytes.length = 2 ∧
            (smpReadExact (leNat lenBytes) (pdMsToTicks hz 10000) q₁ = none ∨
              ∃ payload q₂,
                smpReadExact (leNat lenBytes) (pdMsToTicks hz 10000) q₁ =
                  some (payload, q₂) ∧
                payload.length = leNat lenBytes ∧
                smpReadExact 2 (pdMsToTicks hz 1000) q₂ = none)) := by
  cases hq : scanSof p with
  | none => exact Or.inl rfl
  | some q =>
      simp only [rxOnce, hq, Option.bind_eq_bind, Option.bind_some] at h
      refine Or.inr ⟨q, rfl, ?_⟩
      cases hlen : smpReadExact 2 (pdMsToTicks hz 1000) q with
      | none => exact Or.inl rfl
      | some r =>
          obtain ⟨lenBytes, q₁⟩ := r
          simp only [hlen, Option.bind_some] at h
          refine Or.inr ⟨lenBytes, q₁, rfl, ?_⟩
          match lenBytes, (smpReadExact_some hlen).2.1 with
          | [], _ => simp at h
          | [_], _ => simp at h
          | [len0, len1], _ =>
              simp only [or_shift_two] at h
              refine ⟨rfl, ?_⟩
              split_ifs at h with hbad
              cases hpay : smpReadExact (leNat [len0, len1]) (pdMsToTicks hz 10000) q₁ with
              | none => exact Or.inl rfl
              | some r =>
                  obtain ⟨payload, q₂⟩ := r
                  simp only [hpay, Option.bind_some] at h
                  refine Or.inr ⟨payload, q₂, rfl, ?_⟩
                  split_ifs at h with hshort
                  refine ⟨not_not.mp hshort, ?_⟩
                  cases hcrc : smpReadExact 2 (pdMsToTicks hz 1000) q₂ with
                  | none => rfl
                  | some r =>
                      obtain ⟨crcBytes, q₃⟩ := r
                      simp only [hcrc, Option.bind_some] at h
                      match crcBytes, (smpReadExact_some hcrc).2.1 with
                      | [], _ => simp at h
                      | [_], _ => simp at h
                      | [crc0, crc1], _ =>
                          simp only at h
                          split_ifs at h

/-- A pass over a frame that is all there does not block. -/
theorem rxOnce_bytes_ne_none {p : Port} {f : LineFrame} {rest : List UInt8} (hs : p.Supplied)
    (hf : f.Framed) (hrx : p.rx = f.bytes ++ rest) : rxOnce hz p ≠ none := by
  intro hnone
  have hscan := scan_bytes hf rest
  rw [← hrx] at hscan
  rcases rxOnce_none_cases hnone with hq | ⟨q, hq, hrest⟩
  · rw [scanSof_none hs hq] at hscan
    exact absurd hscan (by simp)
  obtain ⟨hscan', _, hsup⟩ := scanSof_some hq
  rw [hscan', Option.some.injEq] at hscan
  rcases hrest with hlen | ⟨lenBytes, q₁, hlen, hl2, hrest⟩
  · have := smpReadExact_none (hsup hs) hlen
    simp only [hscan, List.length_append, leBytes_length] at this
    omega
  obtain ⟨hq₁, _, _, hsup₁⟩ := smpReadExact_some hlen
  rw [hq₁] at hscan
  obtain ⟨rfl, hrx₁⟩ := List.append_inj hscan (by simp [hl2])
  have hval : leNat (leBytes 2 f.payload.length) = f.payload.length :=
    leNat_leBytes (lt_of_le_of_lt hf.le (by decide))
  rw [hval] at hrest
  rcases hrest with hpay | ⟨pl, q₂, hpay, hpl, hcrc⟩
  · have := smpReadExact_none (hsup₁ (hsup hs)) hpay
    simp only [hrx₁, List.length_append] at this
    omega
  obtain ⟨hq₂, _, _, hsup₂⟩ := smpReadExact_some hpay
  rw [hq₂] at hrx₁
  obtain ⟨_, hrx₂⟩ := List.append_inj hrx₁ hpl
  have := smpReadExact_none (hsup₂ (hsup₁ (hsup hs))) hcrc
  simp only [hrx₂, List.length_append, leBytes_length] at this
  omega

theorem rxOnce_tail {p : Port} (htail : ¬ smpSof <:+: p.rx) : rxOnce hz p = none := by
  cases hq : scanSof p with
  | none => simp [rxOnce, hq]
  | some q =>
      have := (scanSof_some hq).1
      rw [Matcher.scan_none smpSof_uniqueHead htail] at this
      exact absurd this (by simp)

end Pass

/-- A stream of frames, each behind some noise, and a tail. -/
def framedStream : List (List UInt8 × List UInt8) → List UInt8 → List UInt8
  | [], tail => tail
  | (noise, payload) :: items, tail =>
      noise ++ buildFrameAround payload ++ framedStream items tail

theorem framedStream_eq (items : List (List UInt8 × List UInt8)) (tail : List UInt8) :
    framedStream items tail = ((items.map LineFrame.ofHost).map LineFrame.bytes).flatten ++ tail := by
  induction items with
  | nil => rfl
  | cons item items ih =>
      simp only [framedStream, buildFrameAround_eq, wireFrame, ih, List.map_cons,
        List.flatten_cons, LineFrame.bytes, LineFrame.ofHost, checkOf, List.append_assoc]

section Run

variable {hz : Nat}

theorem dispatched_cons_of_ne {e : RxEvent} {es : List RxEvent}
    (he : ∀ payload, e ≠ .dispatch payload) : dispatched (e :: es) = dispatched es := by
  cases e with
  | dispatch payload => exact absurd rfl (he payload)
  | _ => rfl

/-- Every dispatched payload is framed in the stream, at its own place. -/
theorem rxLoop_sound :
    ∀ (fuel : Nat) (p : Port), ∃ items tail,
      p.rx = framedStream items tail ∧
        items.map Prod.snd = dispatched (rxLoop hz fuel p) ∧
        ∀ item ∈ items, 1 ≤ item.2.length ∧ item.2.length ≤ smpMaxPayloadBytes
  | 0, p => ⟨[], p.rx, rfl, rfl, by simp⟩
  | fuel + 1, p => by
      cases hpass : rxOnce hz p with
      | none => exact ⟨[], p.rx, rfl, by simp [rxLoop, hpass, dispatched], by simp⟩
      | some r =>
          obtain ⟨e, p'⟩ := r
          obtain ⟨items, tail, hrx, hitems, hlen⟩ := rxLoop_sound fuel p'
          have hloop : rxLoop hz (fuel + 1) p = e :: rxLoop hz fuel p' := by
            simp [rxLoop, hpass]
          rw [hloop]
          by_cases he : ∃ payload, e = .dispatch payload
          · obtain ⟨payload, rfl⟩ := he
            obtain ⟨⟨pre, hpre⟩, hpos, hmax⟩ := rxOnce_dispatch hpass
            refine ⟨(pre, payload) :: items, tail, ?_, by simp [dispatched, hitems], ?_⟩
            · rw [hpre, hrx, framedStream, buildFrameAround_eq]
            · rintro item (_ | ⟨_, hmem⟩)
              exacts [⟨hpos, hmax⟩, hlen _ hmem]
          · rw [dispatched_cons_of_ne (fun payload h => he ⟨payload, h⟩)]
            -- the bytes taken by this pass become noise in front of the next frame
            obtain ⟨⟨taken, htaken⟩, _, _⟩ := rxOnce_progress hpass
            cases items with
            | nil => exact ⟨[], taken ++ tail, by rw [htaken, hrx]; rfl, hitems, hlen⟩
            | cons item items =>
                obtain ⟨noise, payload⟩ := item
                refine ⟨(taken ++ noise, payload) :: items, tail, ?_, hitems, ?_⟩
                · rw [htaken, hrx]
                  simp [framedStream]
                · rintro item' (_ | ⟨_, hmem⟩)
                  exacts [hlen (noise, payload) (by simp), hlen item' (List.mem_cons_of_mem _ hmem)]

/-- Of a stream of frames, the payloads with the right checksum are dispatched, in order, and none
is lost once every byte has been read. -/
theorem rxLoop_bytes {tail : List UInt8} (htail : ¬ smpSof <:+: tail) :
    ∀ (frames : List LineFrame) (fuel : Nat) (p : Port),
      p.rx = (frames.map LineFrame.bytes).flatten ++ tail → (∀ f ∈ frames, f.Framed) →
      RxEvent.shortRead ∉ rxLoop hz fuel p →
      let right := (frames.filter fun f => checkOf f.payload = f.crc).map LineFrame.payload
      dispatched (rxLoop hz fuel p) <+: right ∧
        (p.Supplied → p.calls.length < fuel → dispatched (rxLoop hz fuel p) = right)
  | _, 0, _, _, _, _ => ⟨by simp [rxLoop, dispatched], fun _ h => by omega⟩
  | [], fuel + 1, p, hrx, _, _ => by
      have htail' : ¬ smpSof <:+: p.rx := by rw [hrx]; exact htail
      simp [rxLoop, rxOnce_tail htail', dispatched]
  | f :: frames, fuel + 1, p, hrx, hframed, hshort => by
      obtain ⟨hf, hframed⟩ := List.forall_mem_cons.mp hframed
      rw [List.map_cons, List.flatten_cons, List.append_assoc] at hrx
      cases hpass : rxOnce hz p with
      | none =>
          refine ⟨by simp [rxLoop, hpass, dispatched], fun hs _ => ?_⟩
          exact absurd hpass (rxOnce_bytes_ne_none hs hf hrx)
      | some r =>
          obtain ⟨e, p'⟩ := r
          have hloop : rxLoop hz (fuel + 1) p = e :: rxLoop hz fuel p' := by
            simp [rxLoop, hpass]
          rw [hloop] at hshort ⊢
          simp only [List.mem_cons, not_or] at hshort
          obtain ⟨hback, he⟩ := (rxOnce_bytes hf hrx hpass).resolve_left (Ne.symm hshort.1)
          obtain ⟨_, hcalls, hsup⟩ := rxOnce_progress hpass
          obtain ⟨hpfx, hall⟩ := rxLoop_bytes htail frames fuel p' hback hframed hshort.2
          by_cases hright : checkOf f.payload = f.crc
          · rw [if_pos hright] at he
            rw [he, List.filter_cons_of_pos (by simpa using hright)]
            refine ⟨by simpa [dispatched] using hpfx, fun hs hfuel => ?_⟩
            simp [dispatched, hall (hsup hs) (by omega)]
          · rw [if_neg hright] at he
            rw [he, List.filter_cons_of_neg (by simpa using hright),
              dispatched_cons_of_ne (by simp)]
            exact ⟨hpfx, fun hs hfuel => hall (hsup hs) (by omega)⟩

/-- A framed stream: nothing the host did not frame is dispatched, nothing is
dispatched out of order, and nothing is lost once every byte has been read. -/
theorem rxLoop_framed {tail : List UInt8} (htail : ¬ smpSof <:+: tail)
    (items : List (List UInt8 × List UInt8)) (fuel : Nat) (p : Port)
    (hrx : p.rx = framedStream items tail)
    (hitems : ∀ item ∈ items, CleanNoise item.1 ∧ 1 ≤ item.2.length ∧
      item.2.length ≤ smpMaxPayloadBytes)
    (hshort : RxEvent.shortRead ∉ rxLoop hz fuel p) :
    dispatched (rxLoop hz fuel p) <+: items.map Prod.snd ∧
      (p.Supplied → p.calls.length < fuel →
        dispatched (rxLoop hz fuel p) = items.map Prod.snd) := by
  have hright : ((items.map LineFrame.ofHost).filter fun f => checkOf f.payload = f.crc).map
      LineFrame.payload = items.map Prod.snd := by
    rw [List.filter_eq_self.mpr, List.map_map]
    · exact List.map_congr_left fun item _ => LineFrame.payload_ofHost item
    · intro f hf
      obtain ⟨item, -, rfl⟩ := List.mem_map.mp hf
      rw [LineFrame.payload_ofHost, LineFrame.crc_ofHost, decide_eq_true_iff]
  rw [← hright]
  refine rxLoop_bytes htail _ fuel p (hrx.trans (framedStream_eq items tail)) ?_ hshort
  intro f hf
  obtain ⟨item, hitem, rfl⟩ := List.mem_map.mp hf
  obtain ⟨hnoise, hpos, hmax⟩ := hitems item hitem
  exact ⟨hnoise, hpos, hmax⟩

/-- Framing is sound for every stream and every way it is read, and complete
for a stream of host frames behind noise, as long as no read deadline passes
inside a frame. -/
theorem smpRxTask_sound_and_complete (hz : Nat) :
    (∀ p : Port, ∃ items tail,
      p.rx = framedStream items tail ∧
        items.map Prod.snd = dispatched (smpRxTask hz p) ∧
        ∀ item ∈ items, 1 ≤ item.2.length ∧ item.2.length ≤ smpMaxPayloadBytes) ∧
    (∀ (p : Port) (items : List (List UInt8 × List UInt8)) (tail : List UInt8),
      p.rx = framedStream items tail →
      (∀ item ∈ items, CleanNoise item.1 ∧ 1 ≤ item.2.length ∧
        item.2.length ≤ smpMaxPayloadBytes) →
      ¬ smpSof <:+: tail →
      RxEvent.shortRead ∉ smpRxTask hz p →
      dispatched (smpRxTask hz p) <+: items.map Prod.snd ∧
        (p.Supplied → dispatched (smpRxTask hz p) = items.map Prod.snd)) := by
  refine ⟨fun p => rxLoop_sound _ p, ?_⟩
  intro p items tail hrx hitems htail hshort
  obtain ⟨hpfx, hall⟩ := rxLoop_framed htail items _ p hrx hitems hshort
  exact ⟨hpfx, fun hs => hall hs (by omega)⟩

end Run

/-- Noise that ends like a preamble, two frames and a stray byte, read in
packets of one to seven bytes with an empty answer in between. -/
def examplePort : Port where
  now := 0
  rx := framedStream [([0x01, 0x4A], [7, 5, 0]), ([0x4A, 0x50], [8, 1, 0, 0x4A])] [0x4A]
  calls := [⟨1, 64⟩, ⟨1, 0⟩] ++ List.replicate 30 ⟨1, 7⟩

theorem smpRxTask_sound_and_complete_examplePort :
    dispatched (smpRxTask 100 examplePort) = [[7, 5, 0], [8, 1, 0, 0x4A]] :=
  ((smpRxTask_sound_and_complete 100).2 examplePort
    [([0x01, 0x4A], [7, 5, 0]), ([0x4A, 0x50], [8, 1, 0, 0x4A])] [0x4A] rfl
    (by unfold CleanNoise; decide) (by decide) (by decide +kernel)).2
    (by unfold Port.Supplied; decide)

end Serial
end JppDos
