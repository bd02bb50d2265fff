import JppDos.Ble.Client

/-!
# What a host publishes and a peer reads

The value of the host's TX characteristic, from `jpp_ble_host_set_tx` through the read of a
connected peer, which gets it in fragments, to the hexadecimal text that the peer's app is given.
Between two reads the host may set new values.

Main fact:
* `read_whole_iff`: when a read returns the text of the whole string that was set last.
-/

namespace JppDos
namespace Ble

open CText Machine Numerals Sdk

/-- `JPP_BLE_HOST_TX_BUF_SIZE`. -/
def txBufSize : Nat := 2048

/-- `s_tx_buf` and `s_tx_len`. -/
structure HostTx where
  buf : List UInt8
  len : Nat
  deriving DecidableEq

/-- After `jpp_ble_native_init`. -/
def HostTx.boot : HostTx := ⟨List.replicate txBufSize 0, 0⟩

/-- `jpp_ble_host_set_tx`; `none` is a null pointer, which the SDK lets through with length 0. -/
def hostSetTx (data : Option (List UInt8)) (s : HostTx) : HostTx :=
  match data with
  | none => s
  | some data =>
      let data := if txBufSize < data.length then data.take txBufSize else data
      ⟨memcpy s.buf 0 data, data.length⟩

/-- What `apphost_gatt_access_cb` appends for a read. -/
def HostTx.value (s : HostTx) : List UInt8 := s.buf.take s.len

/-- The stack hands over a value in pieces of these lengths and a last one. -/
def fragments : List Nat → List UInt8 → List (List UInt8)
  | [], value => [value]
  | n :: sizes, value => value.take n :: fragments sizes (value.drop n)

/-- The callbacks for the fragments, the first of them at `off`. -/
def deliver (off : Nat) : List (List UInt8) → ClientIo → ClientIo
  | [], io => io
  | frag :: frags, io => deliver (off + frag.length) frags (readFragment off frag io)

/-- The fragments as steps of the host's task. -/
def fragmentSteps (off : Nat) : List (List UInt8) → List ClientStep
  | [] => []
  | frag :: frags => .readFragment off frag :: fragmentSteps (off + frag.length) frags

/-- A read of `ble_read_char_impl`, up to the text of its result. -/
def readValue (sizes : List Nat) (value : List UInt8) (io : ClientIo) : List UInt8 × ClientIo :=
  let io := deliver 0 (fragments sizes value) { io with readLen := 0 }
  (readText io, io)

/-- The host's buffer and the peer's, with the string of the last call of
`jpp_sdk_ble_host_set_value` and that of the last one whose pointer was not null. -/
structure Published where
  tx : HostTx
  io : ClientIo
  value : List UInt8
  copied : List UInt8
  deriving DecidableEq

/-- Both devices after `jpp_ble_native_init`. -/
def Published.boot : Published := ⟨.boot, Client.boot.io, [], []⟩

/-- What the two devices do. -/
inductive PublishStep
  /-- The host sets a value. -/
  | set (data : Option (List UInt8))
  /-- The peer reads it in fragments. -/
  | read (sizes : List Nat)
  deriving DecidableEq

/-- A step, and the text that a read returns. -/
def publishStep (s : Published) : PublishStep → Published × List (List UInt8)
  | .set data =>
      ({ s with
         tx := hostSetTx data s.tx, value := data.getD [], copied := data.getD s.copied }, [])
  | .read sizes =>
      let (text, io) := readValue sizes s.tx.value s.io
      ({ s with io := io }, [text])

/-- A call within the capacity of the host. -/
def Accepted : PublishStep → Prop
  | .set data => (data.getD []).length ≤ txBufSize
  | .read _ => True

theorem flatten_fragments (sizes : List Nat) (value : List UInt8) :
    (fragments sizes value).flatten = value := by
  induction sizes generalizing value with
  | nil => exact List.append_nil value
  | cons n sizes ih => rw [fragments, List.flatten_cons, ih, List.take_append_drop]

theorem readFragment_at {off : Nat} {frag : List UInt8} {io : ClientIo}
    (hbuf : io.readBuf.length = readBufSize) (hlen : io.readLen = off)
    (hfits : off + frag.length ≤ readBufSize) :
    (readFragment off frag io).readBuf.length = readBufSize ∧
      (readFragment off frag io).readLen = off + frag.length ∧
      (readFragment off frag io).readBuf.take (off + frag.length) =
        io.readBuf.take off ++ frag := by
  unfold readFragment
  split_ifs with hroom
  · have hcopied : frag.take (readBufSize - off) = frag := List.take_of_length_le (by omega)
    simp only [hcopied]
    exact ⟨(length_memcpy (by omega)).trans hbuf, by omega, take_memcpy (by omega)⟩
  · have hempty : frag = [] := List.length_eq_zero_iff.mp (by omega)
    subst hempty
    exact ⟨hbuf, hlen, by simp⟩

theorem deliver_spec {frags : List (List UInt8)} {off : Nat} {io : ClientIo}
    (hbuf : io.readBuf.length = readBufSize) (hlen : io.readLen = off)
    (hfits : off + frags.flatten.length ≤ readBufSize) :
    (deliver off frags io).readBuf.length = readBufSize ∧
      (deliver off frags io).readLen = off + frags.flatten.length ∧
      (deliver off frags io).readBuf.take (off + frags.flatten.length) =
        io.readBuf.take off ++ frags.flatten := by
  induction frags generalizing off io with
  | nil => exact ⟨hbuf, hlen, by simp [deliver]⟩
  | cons frag frags ih =>
      rw [List.flatten_cons, List.length_append] at hfits ⊢
      obtain ⟨hbuf', hlen', htake⟩ :=
        readFragment_at hbuf hlen (show off + frag.length ≤ readBufSize by omega)
      obtain ⟨hbuf'', hlen'', htake'⟩ := ih hbuf' hlen' (by omega)
      rw [deliver, ← Nat.add_assoc, ← List.append_assoc, ← htake]
      exact ⟨hbuf'', hlen'', htake'⟩

theorem readValue_text (sizes : List Nat) {value : List UInt8} {io : ClientIo}
    (hbuf : io.readBuf.length = readBufSize) (hfits : value.length ≤ readBufSize) :
    (readValue sizes value io).1 = (value.take 512).flatMap upperByte ∧
      (readValue sizes value io).2.readBuf.length = readBufSize := by
  have hflat := flatten_fragments sizes value
  have hstart : ({ io with readLen := 0 } : ClientIo).readBuf.length = readBufSize := hbuf
  have hroom : 0 + (fragments sizes value).flatten.length ≤ readBufSize := by
    rw [hflat]
    omega
  obtain ⟨hbuf', hlen, htake⟩ := deliver_spec hstart rfl hroom
  rw [hflat, Nat.zero_add, List.take_zero, List.nil_append] at htake
  rw [hflat, Nat.zero_add] at hlen
  refine ⟨?_, hbuf'⟩
  have hfirst : (readValue sizes value io).1 =
      ((deliver 0 (fragments sizes value) { io with readLen := 0 }).readBuf.take
        (min (deliver 0 (fragments sizes value) { io with readLen := 0 }).readLen 512)).flatMap
          upperByte := rfl
  rw [hfirst, hlen, Nat.min_comm, ← List.take_take, htake]

/-- The fragments reach the buffer as long as the host's task is in no other callback. -/
theorem run_fragmentSteps {s : Client} (h : s.callback = none) (off : Nat)
    (frags : List (List UInt8)) :
    run clientStep s (fragmentSteps off frags) = { s with io := deliver off frags s.io } ∧
      outputs clientStep s (fragmentSteps off frags) = [] := by
  induction frags generalizing off s with
  | nil => exact ⟨rfl, rfl⟩
  | cons frag frags ih =>
      have hstep : clientStep s (.readFragment off frag) =
          ({ s with io := readFragment off frag s.io }, []) := if_pos h
      obtain ⟨hrun, hout⟩ := ih (s := { s with io := readFragment off frag s.io }) h
        (off + frag.length)
      rw [fragmentSteps, run_cons, outputs_cons, hstep]
      exact ⟨hrun, by rw [hout]; rfl⟩

/-- The text that the peer's task returns when the host has completed a long read. -/
theorem readLong_run {s : Client} {slot op : Nat} (hstage : s.stage = .waiting (.readLong slot) op)
    (hcallback : s.callback = none) (hdone : s.done = none)
    (hrequest : s.requests.find? (fun r => r.op = op) = some ⟨op, .readLong slot, s.session⟩)
    (hlen : s.io.readLen = 0) (sizes : List Nat) (value : List UInt8) :
    outputs clientStep s
        (fragmentSteps 0 (fragments sizes value) ++ [.complete op hsEdone 0, .give, .endWait,
          .resume]) =
      [.took op op,
        .returned (resultPut okResult (ascii "text") (readValue sizes value s.io).1).2] := by
  have hio : { s.io with readLen := 0 } = s.io := by
    rw [← hlen]
  obtain ⟨hrun, hout⟩ := run_fragmentSteps hcallback 0 (fragments sizes value)
  rw [outputs_append, hrun, hout, readValue, hio]
  simp [clientStep, complete, hrequest, hcallback, Client.completable, lastStatus, hstage, endWait,
    hdone, resume, endClient]

theorem readLong_run_twoFragments :
    outputs clientStep
        { Client.boot with stage := .waiting (.readLong 0) 7, requests := [⟨7, .readLong 0, 0⟩] }
        (fragmentSteps 0 (fragments [1] [65, 66]) ++ [.complete 7 hsEdone 0, .give, .endWait,
          .resume]) =
      [.took 7 7,
        .returned (resultPut okResult (ascii "text") (readValue [1] [65, 66] Client.boot.io).1).2] :=
  readLong_run rfl rfl rfl (by decide) rfl [1] [65, 66]

/-- The host's buffer has the string that was copied into it last, and the peer's buffer its
size. -/
structure Held (s : Published) : Prop where
  buf : s.tx.buf.length = txBufSize
  value : s.tx.value = s.copied
  fits : s.copied.length ≤ txBufSize
  last : s.value = s.copied ∨ s.value = []
  readBuf : s.io.readBuf.length = readBufSize

theorem held_boot : Held .boot :=
  ⟨List.length_replicate, rfl, Nat.zero_le _, Or.inl rfl, List.length_replicate⟩

theorem Held.step {s : Published} (h : Held s) {step : PublishStep} (haccepted : Accepted step) :
    Held (publishStep s step).1 := by
  obtain ⟨hbuf, hvalue, hfits, hlast, hread⟩ := h
  cases step with
  | set data =>
      cases data with
      | none => exact ⟨hbuf, hvalue, hfits, Or.inr rfl, hread⟩
      | some data =>
          have hdata : data.length ≤ txBufSize := haccepted
          have htx : hostSetTx (some data) s.tx = ⟨memcpy s.tx.buf 0 data, data.length⟩ := by
            rw [hostSetTx, if_neg (Nat.not_lt.mpr hdata)]
          have htake : (memcpy s.tx.buf 0 data).take data.length = data := by
            have hcopy : (memcpy s.tx.buf 0 data).take (0 + data.length) =
                s.tx.buf.take 0 ++ data := take_memcpy (Nat.zero_le _)
            rwa [Nat.zero_add, List.take_zero, List.nil_append] at hcopy
          have hlen : (memcpy s.tx.buf 0 data).length = txBufSize :=
            (length_memcpy (by omega)).trans hbuf
          refine ⟨?_, ?_, hdata, Or.inl rfl, hread⟩
          · change (hostSetTx (some data) s.tx).buf.length = txBufSize
            rw [htx]
            exact hlen
          · change (hostSetTx (some data) s.tx).value = data
            rw [htx]
            exact htake
  | read sizes =>
      have hcap : s.tx.value.length ≤ readBufSize := hvalue ▸ hfits
      exact ⟨hbuf, hvalue, hfits, hlast, (readValue_text sizes hread hcap).2⟩

theorem Held.run {s : Published} (h : Held s) {steps : List PublishStep}
    (haccepted : ∀ step ∈ steps, Accepted step) : Held (run publishStep s steps) := by
  induction steps generalizing s with
  | nil => exact h
  | cons step steps ih =>
      obtain ⟨hstep, hsteps⟩ := List.forall_mem_cons.mp haccepted
      exact ih (h.step hstep) hsteps

theorem upperDigit_injective {m n : Nat} (hm : m < 16) (hn : n < 16)
    (h : upperDigit m = upperDigit n) : m = n := by
  have hval := hexVal_upperDigit hm
  rw [h, hexVal_upperDigit hn] at hval
  exact (Option.some.inj hval).symm

/-- The texts of two strings are the same only if the strings are. -/
theorem flatMap_upperByte_injective {a b : List UInt8}
    (h : a.flatMap upperByte = b.flatMap upperByte) : a = b := by
  induction a generalizing b with
  | nil =>
      cases b with
      | nil => rfl
      | cons y b => exact absurd h (by simp [upperByte])
  | cons x a ih =>
      cases b with
      | nil => exact absurd h (by simp [upperByte])
      | cons y b =>
          have hx := x.toNat_lt
          have hy := y.toNat_lt
          simp only [List.flatMap_cons, upperByte, List.cons_append, List.nil_append,
            List.cons.injEq] at h
          obtain ⟨hhigh, hlow, hrest⟩ := h
          have hdiv := upperDigit_injective (by omega) (by omega) hhigh
          have hmod := upperDigit_injective (by omega) (by omega) hlow
          have hbyte : x = y := UInt8.toNat_inj.mp (by omega)
          rw [hbyte, ih hrest]

/-- A read returns the text of the first bytes of what was copied last. -/
theorem Held.read {s : Published} (h : Held s) (sizes : List Nat) :
    (publishStep s (.read sizes)).2 = [(s.copied.take 512).flatMap upperByte] := by
  have hcap : s.tx.value.length ≤ readBufSize := h.value ▸ h.fits
  rw [← h.value]
  exact congrArg (fun text => [text]) (readValue_text sizes h.readBuf hcap).1

/-- After any calls a read returns the text of the whole string that was set last, if and only if
the string has 512 bytes at most and did not come with a null pointer in the place of another. -/
theorem read_whole_iff {steps : List PublishStep} (haccepted : ∀ step ∈ steps, Accepted step)
    (sizes : List Nat) :
    let s := run publishStep .boot steps
    (publishStep s (.read sizes)).2 = [s.value.flatMap upperByte] ↔
      s.value.length ≤ 512 ∧ s.value = s.copied := by
  intro s
  have hheld : Held s := held_boot.run haccepted
  rw [hheld.read, List.singleton_inj]
  constructor
  · intro h
    have hsame := flatMap_upperByte_injective h
    have hshort : s.value.length ≤ 512 := by
      rw [← hsame]
      exact List.length_take_le _ _
    refine ⟨hshort, ?_⟩
    rcases hheld.last with hcopied | hnull
    · exact hcopied
    · have hempty : s.copied.take 512 = [] := hsame.trans hnull
      rcases List.take_eq_nil_iff.mp hempty with habsurd | hcopied
      · exact absurd habsurd (by decide)
      · exact hnull.trans hcopied.symm
  · rintro ⟨hshort, hcopied⟩
    rw [← hcopied, List.take_of_length_le hshort]

theorem read_whole_set :
    (publishStep (run publishStep .boot [.set (some [1, 2]), .read [1], .set (some [171])])
      (.read [])).2 = [[171].flatMap upperByte] :=
  (@read_whole_iff [.set (some [1, 2]), .read [1], .set (some [171])]
    (by simp [Accepted, txBufSize]) []).mpr ⟨by decide, rfl⟩

/-- A string of 513 bytes is accepted and cut. -/
theorem not_read_whole : ¬ ∀ (steps : List PublishStep), (∀ step ∈ steps, Accepted step) →
    ∀ sizes, let s := run publishStep .boot steps
      (publishStep s (.read sizes)).2 = [s.value.flatMap upperByte] := by
  intro h
  obtain ⟨value, hlen⟩ : ∃ value : List UInt8, value.length = 513 :=
    ⟨List.replicate 513 0, List.length_replicate⟩
  have haccepted : ∀ step ∈ [PublishStep.set (some value)], Accepted step := by
    simp [Accepted, txBufSize, hlen]
  have hread := (held_boot.run haccepted).read []
  rw [h _ haccepted [], List.singleton_inj] at hread
  have hsame : value = value.take 512 := flatMap_upperByte_injective hread
  have hcut := congrArg List.length hsame
  rw [List.length_take, hlen] at hcut
  exact absurd hcut (by decide)

end Ble
end JppDos
