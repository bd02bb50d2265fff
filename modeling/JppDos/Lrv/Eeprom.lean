import Mathlib.Data.List.Basic
import Mathlib.Tactic.Common

/-!
# The EEPROM driver

Reads and writes of the AT24C32.  A write goes page by page: each page is transmitted whole,
the chip stores it or not, and acknowledges it or not.  Power can be lost between two pages.

Main fact:
* `writeLoop_page`: a write within one page happens or does not.
-/

namespace JppDos
namespace Lrv

/-- The bytes on the chip. -/
abbrev Cells := Nat → UInt8

/-- `JPP_HW_EEPROM_SIZE_BYTES`. -/
def eepromSize : Nat := 4096

/-- `JPP_EEPROM_PAGE_SIZE`. -/
def pageSize : Nat := 32

/-- `len` bytes from `addr` on. -/
def Cells.read (cells : Cells) (addr len : Nat) : List UInt8 :=
  (List.range len).map fun i => cells (addr + i)

/-- Bytes put at `addr`. -/
def Cells.put (cells : Cells) (addr : Nat) (buf : List UInt8) : Cells := fun i =>
  if addr ≤ i then buf[i - addr]?.getD (cells i) else cells i

/-- `jpp_eeprom_read` on a chip that is there; the transfer may fail. -/
def eepromRead (cells : Cells) (transfer : Bool) (addr len : Nat) : Option (List UInt8) :=
  if len = 0 then some []
  else if eepromSize < addr + len then none
  else if transfer then some (cells.read addr len)
  else none

/-- How the write of a page goes: whether the chip stores it, and whether the transfer and the
write cycle are acknowledged. -/
structure PageOutcome where
  stored : Bool
  acked : Bool
  deriving DecidableEq

/-- What becomes of a write. -/
inductive WriteEnd
  | ok
  /-- `JPP_EEPROM_ERR_IO`. -/
  | ioError
  /-- `JPP_EEPROM_ERR_OUT_OF_RANGE`. -/
  | outOfRange
  | powerLost
  deriving DecidableEq

/-- The bytes that go into the page of `addr`. -/
def chunkLen (addr : Nat) (buf : List UInt8) : Nat :=
  min buf.length (pageSize - addr % pageSize)

/-- A page that the chip stores or not. -/
def Cells.page (cells : Cells) (stored : Bool) (addr : Nat) (buf : List UInt8) : Cells :=
  if stored then cells.put addr (buf.take (chunkLen addr buf)) else cells

/-- The loop of `jpp_eeprom_write`: how it ends, the chip, and the outcomes that are left.
Power is lost when there is no outcome for the next page. -/
def writeLoop (cells : Cells) : List PageOutcome → Nat → List UInt8 →
    WriteEnd × Cells × List PageOutcome
  | [], _, buf => if buf = [] then (.ok, cells, []) else (.powerLost, cells, [])
  | o :: io, addr, buf =>
      if buf = [] then (.ok, cells, o :: io)
      else if o.acked then
        writeLoop (cells.page o.stored addr buf) io (addr + chunkLen addr buf)
          (buf.drop (chunkLen addr buf))
      else (.ioError, cells.page o.stored addr buf, io)

/-- `jpp_eeprom_write` on a chip that is there. -/
def eepromWrite (cells : Cells) (io : List PageOutcome) (addr : Nat) (buf : List UInt8) :
    WriteEnd × Cells × List PageOutcome :=
  if buf = [] then (.ok, cells, io)
  else if eepromSize < addr + buf.length then (.outOfRange, cells, io)
  else writeLoop cells io addr buf

/-- The chip acknowledges only pages that it has stored. -/
def Honest (io : List PageOutcome) : Prop := ∀ o ∈ io, o.acked = true → o.stored = true

@[simp] theorem Cells.length_read (cells : Cells) (addr len : Nat) :
    (cells.read addr len).length = len := by
  simp [Cells.read]

theorem Cells.getElem?_read (cells : Cells) {addr len i : Nat} (h : i < len) :
    (cells.read addr len)[i]? = some (cells (addr + i)) := by
  simp [Cells.read, h]

theorem Cells.read_congr {cells cells' : Cells} {addr len : Nat}
    (h : ∀ i, addr ≤ i → i < addr + len → cells' i = cells i) :
    cells'.read addr len = cells.read addr len := by
  refine List.map_congr_left fun i hi => ?_
  have hlt := List.mem_range.mp hi
  exact h _ (Nat.le_add_right _ _) (by omega)

theorem Cells.put_of_lt (cells : Cells) {addr i : Nat} (buf : List UInt8) (h : i < addr) :
    cells.put addr buf i = cells i := if_neg (Nat.not_le.mpr h)

theorem Cells.put_of_ge (cells : Cells) {addr i : Nat} {buf : List UInt8}
    (h : addr + buf.length ≤ i) : cells.put addr buf i = cells i := by
  have hnone : buf[i - addr]? = none := List.getElem?_eq_none (by omega)
  rw [Cells.put, hnone]
  simp

theorem Cells.put_cons (cells : Cells) (addr : Nat) (b : UInt8) (buf : List UInt8) :
    cells.put addr (b :: buf) addr = b := by
  simp [Cells.put]

theorem Cells.read_put (cells : Cells) (addr : Nat) (buf : List UInt8) :
    (cells.put addr buf).read addr buf.length = buf := by
  refine List.ext_getElem (Cells.length_read _ _ _) fun i _ hi => ?_
  simp [Cells.read, Cells.put, hi]

theorem Cells.put_append (cells : Cells) (addr : Nat) (xs ys : List UInt8) :
    (cells.put addr xs).put (addr + xs.length) ys = cells.put addr (xs ++ ys) := by
  funext i
  rcases Nat.lt_or_ge i (addr + xs.length) with hlt | hge
  · rw [Cells.put_of_lt _ _ hlt, Cells.put, Cells.put]
    by_cases haddr : addr ≤ i
    · rw [if_pos haddr, if_pos haddr, List.getElem?_append_left (by omega)]
    · rw [if_neg haddr, if_neg haddr]
  · have haddr : addr ≤ i := by omega
    rw [Cells.put, if_pos hge, Cells.put_of_ge cells hge, Cells.put, if_pos haddr,
      List.getElem?_append_right (by omega), show i - (addr + xs.length) = i - addr - xs.length by
        omega]

attribute [local simp] writeLoop

theorem chunkLen_le (addr : Nat) (buf : List UInt8) : chunkLen addr buf ≤ buf.length :=
  Nat.min_le_left _ _

theorem Cells.page_frame (cells : Cells) (stored : Bool) {addr i : Nat} {buf : List UInt8}
    (h : i < addr ∨ addr + buf.length ≤ i) : cells.page stored addr buf i = cells i := by
  rw [Cells.page]
  split
  · rcases h with hlt | hge
    · exact Cells.put_of_lt cells _ hlt
    · refine Cells.put_of_ge cells ?_
      have htake := List.length_take_le' (chunkLen addr buf) buf
      omega
  · rfl

theorem writeLoop_frame (cells : Cells) (io : List PageOutcome) (addr : Nat) (buf : List UInt8)
    {i : Nat} (h : i < addr ∨ addr + buf.length ≤ i) :
    (writeLoop cells io addr buf).2.1 i = cells i := by
  induction io generalizing cells addr buf with
  | nil =>
      rw [writeLoop]
      split <;> rfl
  | cons o io ih =>
      rw [writeLoop]
      split
      · rfl
      · split
        · have hle := chunkLen_le addr buf
          have hrest : i < addr + chunkLen addr buf ∨
              addr + chunkLen addr buf + (buf.drop (chunkLen addr buf)).length ≤ i := by
            rw [List.length_drop]
            omega
          rw [ih _ _ _ hrest, Cells.page_frame cells _ h]
        · exact Cells.page_frame cells _ h

theorem writeLoop_ok {cells : Cells} {io : List PageOutcome} {addr : Nat} {buf : List UInt8}
    (hio : Honest io) (h : (writeLoop cells io addr buf).1 = .ok) :
    (writeLoop cells io addr buf).2.1 = cells.put addr buf := by
  induction io generalizing cells addr buf with
  | nil =>
      rw [writeLoop] at h ⊢
      split at h
      · rename_i hbuf
        rw [if_pos hbuf, hbuf]
        funext i
        simp [Cells.put]
      · cases h
  | cons o io ih =>
      rw [writeLoop] at h ⊢
      split at h
      · rename_i hbuf
        rw [if_pos hbuf, hbuf]
        funext i
        simp [Cells.put]
      · rename_i hbuf
        rw [if_neg hbuf]
        split at h
        · rename_i hacked
          have hstored : o.stored = true := hio o List.mem_cons_self hacked
          have hpage : cells.page o.stored addr buf =
              cells.put addr (buf.take (chunkLen addr buf)) := by
            rw [Cells.page, hstored, if_pos rfl]
          have hrest := ih (fun o ho => hio o (List.mem_cons_of_mem _ ho)) h
          have hlength : (buf.take (chunkLen addr buf)).length = chunkLen addr buf :=
            List.length_take_of_le (chunkLen_le addr buf)
          have hput := cells.put_append addr (buf.take (chunkLen addr buf))
            (buf.drop (chunkLen addr buf))
          rw [if_pos hacked, hrest, hpage]
          rw [hlength, List.take_append_drop] at hput
          exact hput
        · cases h

/-- A write within one page happens or does not; when it returns, the chip has acknowledged
it. -/
theorem writeLoop_page (cells : Cells) (io : List PageOutcome) {addr : Nat} {buf : List UInt8}
    (hfits : addr % pageSize + buf.length ≤ pageSize) :
    (writeLoop cells io addr buf).2.1 = cells ∨
      (writeLoop cells io addr buf).2.1 = cells.put addr buf := by
  have hchunk : chunkLen addr buf = buf.length := Nat.min_eq_left (by omega)
  cases io with
  | nil =>
      rw [writeLoop]
      split <;> exact Or.inl rfl
  | cons o io =>
      have hpage : cells.page o.stored addr buf = cells ∨
          cells.page o.stored addr buf = cells.put addr buf := by
        rw [Cells.page, hchunk, List.take_length]
        split
        · exact Or.inr rfl
        · exact Or.inl rfl
      rw [writeLoop]
      split
      · exact Or.inl rfl
      · split
        · rw [hchunk, List.drop_length]
          cases io <;> simpa [writeLoop] using hpage
        · exact hpage

end Lrv
end JppDos
