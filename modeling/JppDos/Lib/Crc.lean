import Mathlib.Data.Nat.Bitwise
import Mathlib.Tactic.Common

/-!
# Bitwise cyclic redundancy checks

Byte-at-a-time CRC registers over machine words, in the two directions used in
practice, and the same register kept in an unbounded integer that is masked
after every shift.

Main fact:
* `msbBitMasked_eq`: the masked unbounded register and the 16-bit word agree.
-/

namespace JppDos
namespace Crc

universe u

/-- Feed a byte string into a register, one byte after the other. -/
def crcFold {σ : Type u} (step : σ → UInt8 → σ) (crc : σ) (data : List UInt8) : σ :=
  data.foldl step crc

section Fold

variable {σ : Type u} (step : σ → UInt8 → σ)

@[simp] theorem crcFold_nil (crc : σ) : crcFold step crc [] = crc := rfl

@[simp] theorem crcFold_cons (crc : σ) (b : UInt8) (data : List UInt8) :
    crcFold step crc (b :: data) = crcFold step (step crc b) data := rfl

theorem crcFold_append (crc : σ) (xs ys : List UInt8) :
    crcFold step crc (xs ++ ys) = crcFold step (crcFold step crc xs) ys := by
  simp [crcFold]

/-- Two registers that agree after every byte agree on every byte string. -/
theorem crcFold_map {τ : Type u} (step' : τ → UInt8 → τ) (f : σ → τ)
    (hstep : ∀ c b, f (step c b) = step' (f c) b) (crc : σ) (data : List UInt8) :
    f (crcFold step crc data) = crcFold step' (f crc) data := by
  induction data generalizing crc with
  | nil => rfl
  | cons b data ih => rw [crcFold_cons, crcFold_cons, ih, hstep]

end Fold

/-- One shift of a most-significant-bit-first 16-bit register. -/
def msbBit16 (poly crc : UInt16) : UInt16 :=
  if crc &&& 0x8000 ≠ 0 then (crc <<< 1) ^^^ poly else crc <<< 1

/-- The same shift on an unbounded integer that is masked back to 16 bits. -/
def msbBitMasked (poly crc : Nat) : Nat :=
  (if crc &&& 0x8000 ≠ 0 then (crc <<< 1) ^^^ poly else crc <<< 1) &&& 0xFFFF

theorem msbBitMasked_eq (poly crc : UInt16) :
    msbBitMasked poly.toNat crc.toNat = (msbBit16 poly crc).toNat := by
  have hmask : ∀ n : Nat, n &&& 0xFFFF = n % 2 ^ 16 := fun n =>
    Nat.and_two_pow_sub_one_eq_mod n 16
  have htop : (crc &&& 0x8000 ≠ 0) ↔ (crc.toNat &&& 0x8000 ≠ 0) := by
    rw [ne_eq, ne_eq, ← UInt16.toNat_inj]
    simp
  unfold msbBitMasked msbBit16
  rw [hmask]
  by_cases h : crc &&& 0x8000 ≠ 0
  · rw [if_pos h, if_pos (htop.mp h), UInt16.toNat_xor, UInt16.toNat_shiftLeft,
      Nat.xor_mod_two_pow]
    rw [Nat.mod_eq_of_lt poly.toNat_lt]
    simp
  · rw [if_neg h, if_neg (fun hn => h (htop.mpr hn)), UInt16.toNat_shiftLeft]
    simp

end Crc
end JppDos
