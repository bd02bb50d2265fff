import JppDos.Lib.LittleEndian

/-!
# Flat memory

One byte at every 32-bit address.  Addresses wrap around, and so do ranges.

Main fact:
* `readBytes_write`, `readWord_writeWord`: what was stored is read back.
-/

namespace JppDos
namespace Memory

open LittleEndian

/-- The bytes at all addresses. -/
abbrev Mem := UInt32 → UInt8

/-- The address is one of the `len` from `start` on. -/
def InRange (start : UInt32) (len : Nat) (a : UInt32) : Prop := (a - start).toNat < len

instance (start : UInt32) (len : Nat) (a : UInt32) : Decidable (InRange start len a) :=
  inferInstanceAs (Decidable ((a - start).toNat < len))

/-- No address of the range is in the region. -/
def Apart (start : UInt32) (len : Nat) (region : UInt32 → Prop) : Prop :=
  ∀ a, InRange start len a → ¬ region a

/-- The `n` bytes from `start` on. -/
def readBytes (m : Mem) (start : UInt32) (n : Nat) : List UInt8 :=
  (List.range n).map fun i => m (start + UInt32.ofNat i)

/-- The little-endian word at an address. -/
def readWord (m : Mem) (a : UInt32) : UInt32 := UInt32.ofNat (leNat (readBytes m a 4))

/-- A memory, with the ranges stored to so far, the latest first. -/
structure Ram where
  bytes : Mem
  stored : List (UInt32 × Nat)

namespace Ram

/-- Stores bytes one behind the other. -/
def write (start : UInt32) (data : List UInt8) (ram : Ram) : Ram where
  bytes a := (data[(a - start).toNat]?).getD (ram.bytes a)
  stored := (start, data.length) :: ram.stored

/-- Stores one byte `len` times. -/
def fill (start : UInt32) (len : Nat) (b : UInt8) (ram : Ram) : Ram where
  bytes a := if InRange start len a then b else ram.bytes a
  stored := (start, len) :: ram.stored

/-- Stores a little-endian word. -/
def writeWord (a v : UInt32) (ram : Ram) : Ram := ram.write a (leBytes 4 v.toNat)

/-- The two memories hold the same bytes in the region. -/
def Agrees (region : UInt32 → Prop) (ram ram' : Ram) : Prop :=
  ∀ a, region a → ram'.bytes a = ram.bytes a

/-- The second memory was stored to since the first, or is it. -/
def Extends (ram ram' : Ram) : Prop := ram.stored <:+ ram'.stored

end Ram

section Frame

variable {region : UInt32 → Prop} {ram ram' ram'' : Ram}

theorem Ram.Agrees.refl (region : UInt32 → Prop) (ram : Ram) : Ram.Agrees region ram ram :=
  fun _ _ => rfl

theorem Ram.Agrees.trans (h : Ram.Agrees region ram ram') (h' : Ram.Agrees region ram' ram'') :
    Ram.Agrees region ram ram'' :=
  fun a ha => (h' a ha).trans (h a ha)

theorem Ram.write_agrees {start : UInt32} {data : List UInt8}
    (h : Apart start data.length region) : Ram.Agrees region ram (ram.write start data) := by
  intro a ha
  have hout : ¬ (a - start).toNat < data.length := fun hin => h a hin ha
  change (data[(a - start).toNat]?).getD (ram.bytes a) = ram.bytes a
  rw [List.getElem?_eq_none (by omega), Option.getD_none]

theorem Ram.fill_agrees {start : UInt32} {len : Nat} {b : UInt8}
    (h : Apart start len region) : Ram.Agrees region ram (ram.fill start len b) :=
  fun a ha => if_neg fun hin => h a hin ha

theorem Ram.writeWord_agrees {a v : UInt32} (h : Apart a 4 region) :
    Ram.Agrees region ram (ram.writeWord a v) :=
  Ram.write_agrees (by rwa [leBytes_length])

theorem Ram.Extends.refl (ram : Ram) : Ram.Extends ram ram := List.suffix_refl _

theorem Ram.Extends.trans (h : Ram.Extends ram ram') (h' : Ram.Extends ram' ram'') :
    Ram.Extends ram ram'' :=
  List.IsSuffix.trans h h'

theorem Ram.write_extends (start : UInt32) (data : List UInt8) (ram : Ram) :
    Ram.Extends ram (ram.write start data) :=
  List.suffix_cons _ _

theorem Ram.writeWord_extends (a v : UInt32) (ram : Ram) :
    Ram.Extends ram (ram.writeWord a v) :=
  Ram.write_extends _ _ _

/-- Once something is stored, the log is another one for good. -/
theorem Ram.Extends.ne_of_fill {start : UInt32} {len : Nat} {b : UInt8}
    (h : Ram.Extends (ram.fill start len b) ram') : ram'.stored ≠ ram.stored := by
  intro heq
  have hlen := h.length_le
  rw [heq, Ram.fill, List.length_cons] at hlen
  omega

end Frame

/-- The `i`-th address of a range is `i` away from its start. -/
theorem toNat_add_ofNat_sub (start : UInt32) {i : Nat} (h : i < 2 ^ 32) :
    (start + UInt32.ofNat i - start).toNat = i := by
  rw [UInt32.add_comm, UInt32.add_sub_cancel, UInt32.toNat_ofNat', Nat.mod_eq_of_lt h]

theorem readBytes_write (start : UInt32) {data : List UInt8} (h : data.length ≤ 2 ^ 32)
    (ram : Ram) : readBytes (ram.write start data).bytes start data.length = data := by
  refine List.ext_getElem (by rw [readBytes, List.length_map, List.length_range]) ?_
  intro i hi hi'
  simp only [readBytes, List.getElem_map, List.getElem_range, Ram.write]
  rw [toNat_add_ofNat_sub start (by omega), List.getElem?_eq_getElem hi', Option.getD_some]

theorem readWord_writeWord (a v : UInt32) (ram : Ram) :
    readWord (ram.writeWord a v).bytes a = v := by
  have hlen : (leBytes 4 v.toNat).length ≤ 2 ^ 32 := by
    rw [leBytes_length]
    decide
  have hback := readBytes_write a hlen ram
  rw [leBytes_length] at hback
  rw [readWord, Ram.writeWord, hback, leNat_leBytes (by exact v.toNat_lt)]
  exact UInt32.ofNat_toNat

end Memory
end JppDos
