import JppDos.Lrv.Eeprom
import Mathlib.Algebra.Order.Ring.Nat
import Mathlib.Logic.Function.Basic

/-!
# The EEPROM on its bus

The chip takes the bytes of a frame one by one and stays in the page of their address; during its
write cycle it answers nothing.  `jpp_eeprom_write` splits at the pages and polls the chip until
it answers.
-/

namespace JppDos
namespace Lrv

/-- The address after `addr` within its page. -/
def nextInPage (addr : Nat) : Nat := addr / pageSize * pageSize + (addr + 1) % pageSize

/-- The chip stores bytes from `addr` on, within the page. -/
def Cells.store (cells : Cells) (addr : Nat) : List UInt8 → Cells
  | [] => cells
  | b :: bs => Cells.store (Function.update cells addr b) (nextInPage addr) bs

namespace EepromChip

/-- `jpp_eeprom_result_t` of calls with a state and a buffer. -/
inductive EepromResult
  | ok
  | notPresent
  | outOfRange
  | io
  deriving DecidableEq

/-- The fields of `jpp_eeprom_state_t` that decide a call.  A word address has two bytes. -/
structure EepromState where
  present : Bool
  sizeBytes : Nat
  addressable : sizeBytes ≤ 2 ^ 16

/-- A buffer: an object in the memory of a machine with 32-bit addresses. -/
abbrev Buffer := {buf : List UInt8 // buf.length < 2 ^ 31}

/-- The chip, and whether it is in its write cycle. -/
structure Chip where
  cells : Cells
  busy : Bool

/-- An access to the bus, and what has happened since the one before. -/
structure Access where
  /-- The write cycle is over. -/
  cycleOver : Bool
  /-- The transfer fails. -/
  fault : Bool
  /-- The chip has the whole frame of a transfer that fails. -/
  taken : Bool
  /-- After the access, the deadline of the polling has passed. -/
  late : Bool

/-- The chip at the time of an access. -/
def Chip.wait (chip : Chip) (a : Access) : Chip :=
  { chip with busy := chip.busy && !a.cycleOver }

/-- The chip acknowledges. -/
def Chip.answers (chip : Chip) (a : Access) : Bool := !(chip.wait a).busy && !a.fault

/-- A frame is a word address and the bytes to store. -/
def Chip.receive (chip : Chip) : List UInt8 → Chip
  | high :: low :: b :: bs =>
      { cells := chip.cells.store (high.toNat * 256 + low.toNat) (b :: bs), busy := true }
  | _ => chip

/-- `i2c_master_transmit`. -/
def transmit (chip : Chip) (a : Access) (frame : List UInt8) : Bool × Chip :=
  if chip.answers a then (true, (chip.wait a).receive frame)
  else if !(chip.wait a).busy && a.taken then (false, (chip.wait a).receive frame)
  else (false, chip.wait a)

/-- A call: its result, unless it still waits for the bus, the chip, and the accesses that
follow. -/
structure Run where
  result : Option EepromResult
  chip : Chip
  bus : List Access

/-- `wait_write_complete`. -/
def waitWriteComplete (chip : Chip) : List Access → Run
  | [] => ⟨none, chip, []⟩
  | a :: bus =>
      if chip.answers a then ⟨some .ok, chip.wait a, bus⟩
      else if a.late then ⟨some .io, chip.wait a, bus⟩
      else waitWriteComplete (chip.wait a) bus

/-- The frame of `write_page`. -/
def frameOf (addr : UInt16) (buf : List UInt8) : List UInt8 :=
  (addr >>> 8).toUInt8 :: (addr &&& 0xFF).toUInt8 :: buf

/-- `write_page`. -/
def writePage (chip : Chip) (addr : UInt16) (buf : List UInt8) : List Access → Run
  | [] => ⟨none, chip, []⟩
  | a :: bus =>
      match transmit chip a (frameOf addr buf) with
      | (true, chip) => waitWriteComplete chip bus
      | (false, chip) => ⟨some .io, chip, bus⟩

/-- The bytes of the next page, `off` bytes after the start. -/
def chunkAt (addr : UInt16) (buf : List UInt8) (off : Nat) : Nat :=
  min (buf.length - off) (pageSize - (addr + UInt16.ofNat off).toNat % pageSize)

theorem chunkAt_pos {addr : UInt16} {buf : List UInt8} {off : Nat} (h : off < buf.length) :
    0 < chunkAt addr buf off := by
  have hmod := Nat.mod_lt (addr + UInt16.ofNat off).toNat (show pageSize > 0 by decide)
  unfold chunkAt
  omega

/-- The loop of `jpp_eeprom_write`. -/
def writeFrom (chip : Chip) (bus : List Access) (addr : UInt16) (buf : List UInt8) (off : Nat) :
    Run :=
  if off < buf.length then
    let chunk := chunkAt addr buf off
    let page := writePage chip (addr + UInt16.ofNat off) ((buf.drop off).take chunk) bus
    if page.result = some .ok then writeFrom page.chip page.bus addr buf (off + chunk)
    else page
  else ⟨some .ok, chip, bus⟩
termination_by buf.length - off
decreasing_by
  have hpos := @chunkAt_pos addr buf off ‹off < buf.length›
  omega

/-- `jpp_eeprom_write`; a `size_t` has 32 bits. -/
def eepromWrite (s : EepromState) (chip : Chip) (bus : List Access) (addr : UInt16)
    (buf : Buffer) : Run :=
  if !s.present then ⟨some .notPresent, chip, bus⟩
  else if buf.val.length = 0 then ⟨some .ok, chip, bus⟩
  else if s.sizeBytes < (addr.toNat + buf.val.length) % 2 ^ 32 then
    ⟨some .outOfRange, chip, bus⟩
  else writeFrom chip bus addr buf.val 0

/-- `jpp_eeprom_read` into a buffer of `len` bytes. -/
def eepromRead (s : EepromState) (chip : Chip) (a : Access) (addr : UInt16) (len : Fin (2 ^ 31)) :
    Except EepromResult (List UInt8) :=
  if !s.present then .error .notPresent
  else if len.val = 0 then .ok []
  else if s.sizeBytes < (addr.toNat + len.val) % 2 ^ 32 then .error .outOfRange
  else if chip.answers a then .ok (chip.cells.read addr.toNat len.val)
  else .error .io

/-- Part of the range lies behind the end of the chip. -/
def Exceeds (s : EepromState) (addr : UInt16) (len : Nat) : Prop :=
  ∃ i, addr.toNat ≤ i ∧ i < addr.toNat + len ∧ s.sizeBytes ≤ i

/-- What is read is read of `cells`, and a range of the chip is read unless the bus fails or the
chip is in its write cycle. -/
structure ReadsFrom (s : EepromState) (chip : Chip) (cells : Cells) : Prop where
  exact_of_ok : ∀ a addr len bytes, eepromRead s chip a addr len = .ok bytes →
    bytes = cells.read addr.toNat len.val
  served : ∀ a addr len, ¬ Exceeds s addr len.val → a.fault = false →
    (chip.busy = true → a.cycleOver = true) →
      eepromRead s chip a addr len = .ok (cells.read addr.toNat len.val)

end EepromChip

theorem nextInPage_of_lt {addr : Nat} (h : addr % pageSize + 1 < pageSize) :
    nextInPage addr = addr + 1 := by
  unfold nextInPage pageSize at *
  omega

theorem Cells.put_nil (cells : Cells) (addr : Nat) : cells.put addr [] = cells := by
  funext i
  simp [Cells.put]

theorem Cells.put_singleton (cells : Cells) (addr : Nat) (b : UInt8) :
    cells.put addr [b] = Function.update cells addr b := by
  funext i
  rcases Nat.lt_trichotomy i addr with hlt | rfl | hgt
  · rw [Cells.put_of_lt cells _ hlt, Function.update_of_ne (Nat.ne_of_lt hlt)]
  · rw [Cells.put_cons, Function.update_self]
  · rw [Cells.put_of_ge cells (show addr + [b].length ≤ i from hgt),
      Function.update_of_ne (Nat.ne_of_gt hgt)]

/-- Bytes that stay within the page are stored where they belong. -/
theorem Cells.store_eq_put (cells : Cells) {addr : Nat} {buf : List UInt8}
    (h : addr % pageSize + buf.length ≤ pageSize) : cells.store addr buf = cells.put addr buf := by
  induction buf generalizing cells addr with
  | nil => rw [Cells.store, Cells.put_nil]
  | cons b bs ih =>
      have hcons := cells.put_append addr [b] bs
      rw [Cells.put_singleton] at hcons
      rw [Cells.store]
      rw [List.length_cons] at h
      cases bs with
      | nil => rw [Cells.store, Cells.put_singleton]
      | cons b' bs =>
          rw [List.length_cons] at h
          rw [nextInPage_of_lt (by omega), ih _ (by
            rw [List.length_cons]
            unfold pageSize at *
            omega)]
          exact hcons

namespace EepromChip

theorem wordAddress (addr : UInt16) :
    (addr >>> 8).toUInt8.toNat * 256 + (addr &&& 0xFF).toUInt8.toNat = addr.toNat := by
  have hlt := addr.toNat_lt
  have hlow : addr.toNat &&& 255 = addr.toNat % 256 := Nat.and_two_pow_sub_one_eq_mod _ 8
  have hhigh : addr.toNat >>> 8 = addr.toNat / 256 := Nat.shiftRight_eq_div_pow _ 8
  simp only [UInt16.toNat_toUInt8, UInt16.toNat_shiftRight, UInt16.toNat_and,
    UInt16.reduceToNat, Nat.reduceMod, hlow, hhigh]
  omega

theorem receive_frameOf (chip : Chip) {addr : UInt16} {buf : List UInt8} (hne : buf ≠ [])
    (h : addr.toNat % pageSize + buf.length ≤ pageSize) :
    chip.receive (frameOf addr buf) = { cells := chip.cells.put addr.toNat buf, busy := true } := by
  cases buf with
  | nil => exact absurd rfl hne
  | cons b bs => rw [frameOf, Chip.receive, wordAddress, Cells.store_eq_put _ h]

@[simp] theorem wait_cells (chip : Chip) (a : Access) : (chip.wait a).cells = chip.cells := rfl

theorem idle_of_answers {chip : Chip} {a : Access} (h : chip.answers a = true) :
    (chip.wait a).busy = false := by
  rw [Chip.answers, Bool.and_eq_true, Bool.not_eq_true'] at h
  exact h.1

@[simp] theorem waitWriteComplete_cells (chip : Chip) (bus : List Access) :
    (waitWriteComplete chip bus).chip.cells = chip.cells := by
  induction bus generalizing chip with
  | nil => rfl
  | cons a bus ih =>
      rw [waitWriteComplete]
      split_ifs
      · rfl
      · rfl
      · rw [ih, wait_cells]

theorem idle_of_waitWriteComplete {chip : Chip} {bus : List Access}
    (h : (waitWriteComplete chip bus).result = some .ok) :
    (waitWriteComplete chip bus).chip.busy = false := by
  induction bus generalizing chip with
  | nil => cases h
  | cons a bus ih =>
      rw [waitWriteComplete] at h ⊢
      split_ifs at h ⊢ with hanswers hlate
      · exact idle_of_answers hanswers
      · cases h
      · exact ih h

/-- A page is stored or not; when the call returns well it is, and the chip is idle. -/
theorem writePage_spec (chip : Chip) (bus : List Access) {addr : UInt16} {buf : List UInt8}
    (hne : buf ≠ []) (h : addr.toNat % pageSize + buf.length ≤ pageSize) :
    ∃ stored : Bool,
      (writePage chip addr buf bus).chip.cells =
        (if stored then chip.cells.put addr.toNat buf else chip.cells) ∧
      ((writePage chip addr buf bus).result = some .ok →
        stored = true ∧ (writePage chip addr buf bus).chip.busy = false) := by
  cases bus with
  | nil => exact ⟨false, rfl, nofun⟩
  | cons a bus =>
      rw [writePage, transmit, receive_frameOf _ hne h, wait_cells]
      split_ifs
      · exact ⟨true, waitWriteComplete_cells _ _, fun hok => ⟨rfl, idle_of_waitWriteComplete hok⟩⟩
      · exact ⟨true, rfl, by simp⟩
      · exact ⟨false, rfl, by simp⟩

theorem writePage_completes (chip : Chip) (addr : UInt16) (buf : List UInt8) {bus : List Access}
    (hbus : ∀ a ∈ bus, a.cycleOver = true ∧ a.fault = false) (hlength : 2 ≤ bus.length) :
    (writePage chip addr buf bus).result = some .ok ∧
      (writePage chip addr buf bus).bus = bus.drop 2 := by
  obtain ⟨a, a', rest, rfl⟩ : ∃ a a' rest, bus = a :: a' :: rest := by
    match bus, hlength with
    | a :: a' :: rest, _ => exact ⟨a, a', rest, rfl⟩
  have hanswers : ∀ c : Chip, c.answers a = true := fun c => by
    simp [Chip.answers, Chip.wait, hbus a]
  have hanswers' : ∀ c : Chip, c.answers a' = true := fun c => by
    simp [Chip.answers, Chip.wait, hbus a']
  rw [writePage, transmit, if_pos (hanswers chip)]
  simp only [waitWriteComplete]
  rw [if_pos (hanswers' _)]
  exact ⟨rfl, rfl⟩

section Loop

variable {addr : UInt16} {buf : List UInt8} (hfits : addr.toNat + buf.length ≤ 2 ^ 16)

include hfits

theorem cur_toNat {off : Nat} (hoff : off < buf.length) :
    (addr + UInt16.ofNat off).toNat = addr.toNat + off := by
  rw [UInt16.toNat_add, UInt16.toNat_ofNat']
  omega

/-- The chunk of the loop is that of `writeLoop`. -/
theorem chunkAt_eq {off : Nat} (hoff : off < buf.length) :
    chunkAt addr buf off = chunkLen (addr.toNat + off) (buf.drop off) := by
  rw [chunkAt, cur_toNat hfits hoff, chunkLen, List.length_drop]

theorem writePage_chunk (chip : Chip) (bus : List Access) {off : Nat} (hoff : off < buf.length) :
    ∃ stored : Bool,
      (writePage chip (addr + UInt16.ofNat off) ((buf.drop off).take (chunkAt addr buf off))
        bus).chip.cells = chip.cells.page stored (addr.toNat + off) (buf.drop off) ∧
      ((writePage chip (addr + UInt16.ofNat off) ((buf.drop off).take (chunkAt addr buf off))
        bus).result = some .ok →
        stored = true ∧
          (writePage chip (addr + UInt16.ofNat off) ((buf.drop off).take (chunkAt addr buf off))
            bus).chip.busy = false) := by
  have hpos := @chunkAt_pos addr buf off hoff
  have hmod := Nat.mod_lt (addr.toNat + off) (show pageSize > 0 by decide)
  have hlength : ((buf.drop off).take (chunkAt addr buf off)).length = chunkAt addr buf off := by
    rw [chunkAt_eq hfits hoff]
    exact List.length_take_of_le (chunkLen_le _ _)
  have hne : (buf.drop off).take (chunkAt addr buf off) ≠ [] := by
    rw [← List.length_pos_iff_ne_nil, hlength]
    exact hpos
  have hpage : (addr + UInt16.ofNat off).toNat % pageSize +
      ((buf.drop off).take (chunkAt addr buf off)).length ≤ pageSize := by
    rw [hlength, chunkAt, cur_toNat hfits hoff]
    omega
  obtain ⟨stored, hcells, hok⟩ := writePage_spec chip bus hne hpage
  refine ⟨stored, ?_, hok⟩
  rw [hcells, cur_toNat hfits hoff, Cells.page, chunkAt_eq hfits hoff]

/-- The loop does to the cells what `writeLoop` says, for a chip that acknowledges only what it
has stored. -/
theorem writeFrom_refines (chip : Chip) (bus : List Access) (off : Nat) :
    ∃ outcomes : List PageOutcome, Honest outcomes ∧
      (writeFrom chip bus addr buf off).chip.cells =
        (writeLoop chip.cells outcomes (addr.toNat + off) (buf.drop off)).2.1 ∧
      ((writeFrom chip bus addr buf off).result = some .ok →
        (writeLoop chip.cells outcomes (addr.toNat + off) (buf.drop off)).1 = .ok) := by
  fun_induction writeFrom chip bus addr buf off with
  | case1 chip bus off hoff chunk page hpage ih =>
      obtain ⟨outcomes, hhonest, hcells, hok⟩ := ih
      obtain ⟨stored, hstored, hidle⟩ := writePage_chunk hfits chip bus hoff
      obtain rfl : stored = true := (hidle hpage).1
      have hne : buf.drop off ≠ [] := by
        rw [Ne, List.drop_eq_nil_iff]
        omega
      have hstep : writeLoop chip.cells (⟨true, true⟩ :: outcomes) (addr.toNat + off)
          (buf.drop off) = writeLoop page.chip.cells outcomes (addr.toNat + (off + chunk))
            (buf.drop (off + chunk)) := by
        rw [writeLoop, if_neg hne, if_pos rfl, hstored, ← chunkAt_eq hfits hoff, List.drop_drop,
          Nat.add_assoc]
      refine ⟨⟨true, true⟩ :: outcomes, ?_, ?_, ?_⟩
      · exact List.forall_mem_cons.mpr ⟨fun _ => rfl, hhonest⟩
      · rw [hstep]
        exact hcells
      · rw [hstep]
        exact hok
  | case2 chip bus off hoff chunk page hpage =>
      obtain ⟨stored, hstored, -⟩ := writePage_chunk hfits chip bus hoff
      have hne : buf.drop off ≠ [] := by
        rw [Ne, List.drop_eq_nil_iff]
        omega
      refine ⟨[⟨stored, false⟩], by simp [Honest], ?_, fun hok => absurd hok hpage⟩
      rw [writeLoop, if_neg hne]
      exact hstored
  | case3 chip bus off hoff =>
      have hnil : buf.drop off = [] := List.drop_eq_nil_of_le (by omega)
      exact ⟨[], nofun, by rw [writeLoop, if_pos hnil], fun _ => by rw [writeLoop, if_pos hnil]⟩

theorem writeFrom_cells {chip : Chip} {bus : List Access} {off : Nat}
    (h : (writeFrom chip bus addr buf off).result = some .ok) :
    (writeFrom chip bus addr buf off).chip.cells =
      chip.cells.put (addr.toNat + off) (buf.drop off) := by
  obtain ⟨outcomes, hhonest, hcells, hok⟩ := writeFrom_refines hfits chip bus off
  rw [hcells, writeLoop_ok hhonest (hok h)]

theorem writeFrom_idle {chip : Chip} {bus : List Access} {off : Nat}
    (h : (writeFrom chip bus addr buf off).result = some .ok)
    (hstart : chip.busy = false ∨ off < buf.length) :
    (writeFrom chip bus addr buf off).chip.busy = false := by
  fun_induction writeFrom chip bus addr buf off with
  | case1 chip bus off hoff chunk page hpage ih =>
      obtain ⟨_, -, hidle⟩ := writePage_chunk hfits chip bus hoff
      exact ih h (Or.inl (hidle hpage).2)
  | case2 chip bus off hoff chunk page hpage => exact absurd h hpage
  | case3 chip bus off hoff => exact hstart.resolve_right hoff

end Loop

/-- On a bus without faults the write returns. -/
theorem writeFrom_completes {chip : Chip} {bus : List Access} {addr : UInt16} {buf : List UInt8}
    {off : Nat} (hbus : ∀ a ∈ bus, a.cycleOver = true ∧ a.fault = false)
    (hlength : 2 * (buf.length - off) ≤ bus.length) :
    (writeFrom chip bus addr buf off).result = some .ok := by
  fun_induction writeFrom chip bus addr buf off with
  | case1 chip bus off hoff chunk page hpage ih =>
      have hpos : 0 < chunk := chunkAt_pos hoff
      obtain ⟨-, hdrop⟩ := writePage_completes chip (addr + UInt16.ofNat off)
        ((buf.drop off).take chunk) hbus (by omega)
      have hrest : page.bus = bus.drop 2 := hdrop
      refine ih (fun a ha => hbus a (List.mem_of_mem_drop (hrest ▸ ha))) ?_
      rw [hrest, List.length_drop]
      omega
  | case2 chip bus off hoff chunk page hpage =>
      exact absurd (writePage_completes chip (addr + UInt16.ofNat off)
        ((buf.drop off).take chunk) hbus (by omega)).1 hpage
  | case3 chip bus off hoff => rfl

theorem writeFrom_completes_twoPages :
    (writeFrom ⟨fun _ => 0xFF, true⟩ (List.replicate 4 ⟨true, false, true, false⟩) 31 [1, 2]
      0).result = some .ok :=
  writeFrom_completes (by decide) (by decide)

theorem exceeds_iff {s : EepromState} {addr : UInt16} {len : Nat} :
    Exceeds s addr len ↔ len ≠ 0 ∧ s.sizeBytes < addr.toNat + len := by
  constructor
  · rintro ⟨i, hlow, hhigh, hsize⟩
    omega
  · rintro ⟨hne, hsize⟩
    exact ⟨addr.toNat + len - 1, by omega, by omega, by omega⟩

theorem sum_mod (addr : UInt16) {len : Nat} (h : len < 2 ^ 31) :
    (addr.toNat + len) % 2 ^ 32 = addr.toNat + len := by
  have hlt := addr.toNat_lt
  exact Nat.mod_eq_of_lt (by omega)

theorem readsFrom_cells {s : EepromState} (hpresent : s.present = true) (chip : Chip) :
    ReadsFrom s chip chip.cells := by
  constructor
  · intro a addr len bytes h
    unfold eepromRead at h
    split_ifs at h with _ hzero
    · rw [← Except.ok.inj h, hzero]
      rfl
    · exact (Except.ok.inj h).symm
  · intro a addr len hin hfault hidle
    have hanswers : chip.answers a = true := by
      simp only [Chip.answers, Chip.wait, hfault, Bool.not_false, Bool.and_true,
        Bool.not_eq_true', Bool.and_eq_false_iff, Bool.not_eq_false']
      exact (Bool.eq_false_or_eq_true chip.busy).symm.imp_right hidle
    rw [exceeds_iff, not_and, Nat.not_lt] at hin
    unfold eepromRead
    rw [hpresent, sum_mod addr len.isLt, hanswers]
    by_cases hzero : len.val = 0
    · rw [hzero]
      rfl
    · rw [if_neg (by decide), if_neg hzero, if_neg (Nat.not_lt.mpr (hin hzero)), if_pos rfl]

/-- A write that returns has put its buffer at its address and changed nothing else, and this is
what reads return then; what does not fit on the chip is refused. -/
theorem eepromWrite_exact (s : EepromState) (chip : Chip) (bus : List Access) (addr : UInt16)
    (buf : Buffer) :
    ((eepromWrite s chip bus addr buf).result = some .ok →
      (eepromWrite s chip bus addr buf).chip.cells = chip.cells.put addr.toNat buf.val ∧
      (buf.val ≠ [] → (eepromWrite s chip bus addr buf).chip.busy = false) ∧
      ReadsFrom s (eepromWrite s chip bus addr buf).chip (chip.cells.put addr.toNat buf.val)) ∧
    (Exceeds s addr buf.val.length →
      (eepromWrite s chip bus addr buf).result =
        some (if s.present then .outOfRange else .notPresent) ∧
      (eepromWrite s chip bus addr buf).chip = chip) := by
  rw [exceeds_iff]
  unfold eepromWrite
  rw [sum_mod addr buf.prop]
  by_cases hpresent : s.present = true
  swap
  · rw [Bool.not_eq_true] at hpresent
    rw [hpresent]
    exact ⟨nofun, fun _ => ⟨rfl, rfl⟩⟩
  rw [hpresent, if_neg (by decide)]
  by_cases hzero : buf.val.length = 0
  · have hnil := List.eq_nil_of_length_eq_zero hzero
    rw [if_pos hzero, hnil, Cells.put_nil]
    exact ⟨fun _ => ⟨rfl, fun h => absurd rfl h, readsFrom_cells hpresent chip⟩,
      fun h => absurd rfl h.1⟩
  · rw [if_neg hzero]
    by_cases hexceeds : s.sizeBytes < addr.toNat + buf.val.length
    · rw [if_pos hexceeds]
      exact ⟨nofun, fun _ => ⟨rfl, rfl⟩⟩
    · rw [if_neg hexceeds]
      refine ⟨fun hok => ?_, fun h => absurd h.2 hexceeds⟩
      have hfits : addr.toNat + buf.val.length ≤ 2 ^ 16 :=
        Nat.le_trans (Nat.not_lt.mp hexceeds) s.addressable
      have hcells := writeFrom_cells hfits hok
      rw [Nat.add_zero, List.drop_zero] at hcells
      refine ⟨hcells, fun _ => writeFrom_idle hfits hok (Or.inr (Nat.pos_of_ne_zero hzero)), ?_⟩
      rw [← hcells]
      exact readsFrom_cells hpresent _

end EepromChip
end Lrv
end JppDos
