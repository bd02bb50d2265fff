import JppDos.Lib.Crc
import Mathlib.Data.List.Basic
import Mathlib.Logic.Function.Conjugate
import Mathlib.Logic.Function.Iterate

/-!
# Linear CRC registers and their byte tables

A CRC register is linear over exclusive or, and a shift loses nothing.  Hence eight shifts
of a least-significant-bit-first register are one look-up in a table of 256 entries, which
is how table-driven implementations feed a byte.

Main fact:
* `tableStep32_eq`: the table-driven step is the bitwise one.
-/

namespace JppDos
namespace Crc

/-- One shift of a least-significant-bit-first 32-bit register. -/
def lsbBit32 (poly crc : UInt32) : UInt32 :=
  if crc &&& 1 ≠ 0 then (crc >>> 1) ^^^ poly else crc >>> 1

/-- The entry of the byte table: eight shifts of the index. -/
def crcTable32 (poly : UInt32) (index : UInt8) : UInt32 := (lsbBit32 poly)^[8] index.toUInt32

/-- Feed one byte by a look-up. -/
def tableStep32 (poly crc : UInt32) (byte : UInt8) : UInt32 :=
  crcTable32 poly (crc.toUInt8 ^^^ byte) ^^^ (crc >>> 8)

theorem lowBit32 (crc : UInt32) : crc &&& 1 = 0 ∨ crc &&& 1 = 1 := by
  have hmod : (crc &&& 1).toNat = crc.toNat % 2 := by
    rw [UInt32.toNat_and]
    exact Nat.and_two_pow_sub_one_eq_mod crc.toNat 1
  rcases Nat.mod_two_eq_zero_or_one crc.toNat with h | h
  · exact .inl (UInt32.toNat_inj.mp (hmod.trans h))
  · exact .inr (UInt32.toNat_inj.mp (hmod.trans h))

section Lsb

variable (poly : UInt32)

theorem lsbBit32_even {crc : UInt32} (h : crc &&& 1 = 0) : lsbBit32 poly crc = crc >>> 1 := by
  rw [lsbBit32, if_neg (not_not.mpr h)]

theorem lsbBit32_odd {crc : UInt32} (h : crc &&& 1 = 1) :
    lsbBit32 poly crc = (crc >>> 1) ^^^ poly := by
  rw [lsbBit32, if_pos (by rw [h]; decide)]

theorem lsbBit32_xor : Function.Semiconj₂ (lsbBit32 poly) (· ^^^ ·) (· ^^^ ·) := by
  intro a b
  have hlow : (a ^^^ b) &&& 1 = (a &&& 1) ^^^ (b &&& 1) := UInt32.toNat_inj.mp <| by
    simp only [UInt32.toNat_and, UInt32.toNat_xor]
    exact Nat.and_xor_distrib_right
  have hshift : (a ^^^ b) >>> 1 = (a >>> 1) ^^^ (b >>> 1) := UInt32.shiftRight_xor
  dsimp only
  rcases lowBit32 a with ha | ha <;> rcases lowBit32 b with hb | hb
  · rw [lsbBit32_even poly ha, lsbBit32_even poly hb, lsbBit32_even poly (by rw [hlow, ha, hb]; rfl),
      hshift]
  · rw [lsbBit32_even poly ha, lsbBit32_odd poly hb, lsbBit32_odd poly (by rw [hlow, ha, hb]; rfl),
      hshift, UInt32.xor_assoc]
  · rw [lsbBit32_odd poly ha, lsbBit32_even poly hb, lsbBit32_odd poly (by rw [hlow, ha, hb]; rfl),
      hshift]
    ac_rfl
  · have hcancel : (a >>> 1 ^^^ poly) ^^^ (b >>> 1 ^^^ poly) =
        a >>> 1 ^^^ b >>> 1 ^^^ (poly ^^^ poly) := by ac_rfl
    rw [lsbBit32_odd poly ha, lsbBit32_odd poly hb, lsbBit32_even poly (by rw [hlow, ha, hb]; rfl),
      hshift, hcancel, UInt32.xor_self, UInt32.xor_zero]

/-- Where the low bits are zero, that many shifts are a division. -/
theorem toNat_iterate_lsbBit32 (k : Nat) {crc : UInt32} (h : 2 ^ k ∣ crc.toNat) :
    ((lsbBit32 poly)^[k] crc).toNat = crc.toNat / 2 ^ k := by
  induction k generalizing crc with
  | zero => rw [pow_zero, Nat.div_one, Function.iterate_zero_apply]
  | succ k ih =>
      have hmod : crc.toNat % 2 = 0 := Nat.mod_eq_zero_of_dvd
        ((dvd_pow_self 2 (Nat.succ_ne_zero k)).trans h)
      have heven : crc &&& 1 = 0 := UInt32.toNat_inj.mp <| by
        rw [UInt32.toNat_and]
        exact (Nat.and_two_pow_sub_one_eq_mod crc.toNat 1).trans hmod
      have hhalf : (crc >>> 1).toNat = crc.toNat / 2 := by
        rw [UInt32.toNat_shiftRight]
        exact Nat.shiftRight_eq_div_pow crc.toNat 1
      rw [Function.iterate_succ_apply, lsbBit32_even poly heven, ih, hhalf, Nat.div_div_eq_div_mul,
        ← pow_succ']
      rw [hhalf]
      rw [pow_succ] at h
      exact Nat.dvd_div_of_mul_dvd (by rwa [mul_comm] at h)

theorem split_lowByte (crc : UInt32) (byte : UInt8) :
    crc ^^^ byte.toUInt32 = (crc >>> 8 <<< 8) ^^^ (crc.toUInt8 ^^^ byte).toUInt32 := by
  refine UInt32.toBitVec_inj.mp (BitVec.eq_of_getLsbD_eq fun i hi => ?_)
  simp only [UInt32.toBitVec_xor, UInt32.toBitVec_shiftLeft, UInt32.toBitVec_shiftRight,
    UInt8.toBitVec_toUInt32, UInt8.toBitVec_xor, UInt32.toBitVec_toUInt8, BitVec.getLsbD_xor,
    BitVec.getLsbD_setWidth]
  by_cases hlow : i < 8
  · simp [hlow, hi]
  · have hbyte : byte.toBitVec.getLsbD i = false := BitVec.getLsbD_of_ge _ _ (Nat.le_of_not_lt hlow)
    simp [hlow, hi, hbyte, Nat.add_sub_of_le (Nat.le_of_not_lt hlow)]

/-- The table-driven step feeds a byte as eight shifts do. -/
theorem tableStep32_eq (crc : UInt32) (byte : UInt8) :
    tableStep32 poly crc byte = (lsbBit32 poly)^[8] (crc ^^^ byte.toUInt32) := by
  have hhigh : (lsbBit32 poly)^[8] (crc >>> 8 <<< 8) = crc >>> 8 := by
    have hval : (crc >>> 8 <<< 8).toNat = crc.toNat / 2 ^ 8 * 2 ^ 8 := by
      have hlt := crc.toNat_lt
      rw [UInt32.toNat_shiftLeft, UInt32.toNat_shiftRight]
      simp only [UInt32.reduceToNat, Nat.reduceMod, Nat.shiftLeft_eq, Nat.shiftRight_eq_div_pow]
      omega
    refine UInt32.toNat_inj.mp ?_
    rw [toNat_iterate_lsbBit32 poly 8 (by rw [hval]; exact dvd_mul_left _ _), hval,
      Nat.mul_div_cancel _ (by decide), UInt32.toNat_shiftRight]
    exact (Nat.shiftRight_eq_div_pow crc.toNat 8).symm
  have hsplit := (lsbBit32_xor poly).iterate 8 (crc >>> 8 <<< 8) (crc.toUInt8 ^^^ byte).toUInt32
  rw [split_lowByte, hsplit, hhigh, tableStep32, crcTable32, UInt32.xor_comm]

end Lsb

section Msb

variable (poly : UInt16)

end Msb

end Crc
end JppDos
