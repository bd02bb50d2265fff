import Mathlib.Logic.Function.Basic
import Mathlib.Tactic.Common

/-!
# Bitmaps

A bitmap packed into bytes, eight bits in each.

Main fact:
* `get_set`: a bit is set and read back, and no other one changes.
-/

namespace JppDos
namespace Bitmap

/-- Bit `i` of the bytes. -/
def get (bytes : Nat → UInt8) (i : Nat) : Bool :=
  (bytes (i / 8) >>> UInt8.ofNat (i % 8)) &&& 1 ≠ 0

/-- The bytes with another bit `i`. -/
def set (bytes : Nat → UInt8) (i : Nat) (on : Bool) : Nat → UInt8 :=
  Function.update bytes (i / 8)
    (if on then bytes (i / 8) ||| 1 <<< UInt8.ofNat (i % 8)
      else bytes (i / 8) &&& ~~~(1 <<< UInt8.ofNat (i % 8)))

theorem bit_iff (b : UInt8) {k : Nat} (hk : k < 8) :
    (b >>> UInt8.ofNat k) &&& 1 ≠ 0 ↔ b.toBitVec.getLsbD k = true := by
  have hplace : (UInt8.ofNat k).toNat % 8 = k := by
    rw [UInt8.toNat_ofNat']
    omega
  rw [ne_eq, ← UInt8.toNat_inj, UInt8.toNat_and, UInt8.toNat_shiftRight, hplace,
    BitVec.getLsbD, UInt8.toNat_toBitVec, Nat.testBit_eq_decide_div_mod_eq, decide_eq_true_iff,
    Nat.shiftRight_eq_div_pow]
  change ¬ (b.toNat / 2 ^ k) &&& 1 = 0 ↔ _
  rw [Nat.and_one_is_mod]
  omega

theorem getLsbD_one_shift {k j : Nat} (hk : k < 8) (hj : j < 8) :
    (1 <<< UInt8.ofNat k : UInt8).toBitVec.getLsbD j = decide (j = k) := by
  have hall : ∀ k < 8, ∀ j < 8,
      (1 <<< UInt8.ofNat k : UInt8).toBitVec.getLsbD j = decide (j = k) := by decide
  exact hall k hk j hj

/-- A bit is set and read back, and no other one changes. -/
theorem get_set (bytes : Nat → UInt8) (i j : Nat) (on : Bool) :
    get (set bytes i on) j = if j = i then on else get bytes j := by
  have hi : i % 8 < 8 := Nat.mod_lt i (by decide)
  have hj : j % 8 < 8 := Nat.mod_lt j (by decide)
  have hbit : ∀ bytes : Nat → UInt8, get bytes j = (bytes (j / 8)).toBitVec.getLsbD (j % 8) :=
    fun bytes => by
      rw [get, Bool.eq_iff_iff, decide_eq_true_iff]
      exact bit_iff _ hj
  rw [hbit, hbit, set]
  by_cases hbyte : j / 8 = i / 8
  · have hsame : j = i ↔ j % 8 = i % 8 := by omega
    rw [hbyte, Function.update_self]
    by_cases hplace : j % 8 = i % 8
    · rw [if_pos (hsame.mpr hplace)]
      cases on with
      | true =>
          rw [if_pos rfl, UInt8.toBitVec_or, BitVec.getLsbD_or, getLsbD_one_shift hi hj,
            decide_eq_true hplace, Bool.or_true]
      | false =>
          rw [if_neg Bool.false_ne_true, UInt8.toBitVec_and, UInt8.toBitVec_not,
            BitVec.getLsbD_and, BitVec.getLsbD_not, getLsbD_one_shift hi hj, decide_eq_true hplace,
            Bool.not_true, Bool.and_false, Bool.and_false]
    · rw [if_neg (mt hsame.mp hplace)]
      cases on with
      | true =>
          rw [if_pos rfl, UInt8.toBitVec_or, BitVec.getLsbD_or, getLsbD_one_shift hi hj,
            decide_eq_false hplace, Bool.or_false]
      | false =>
          rw [if_neg Bool.false_ne_true, UInt8.toBitVec_and, UInt8.toBitVec_not,
            BitVec.getLsbD_and, BitVec.getLsbD_not, getLsbD_one_shift hi hj,
            decide_eq_false hplace, decide_eq_true hj, Bool.not_false, Bool.and_true, Bool.and_true]
  · rw [Function.update_of_ne hbyte, if_neg (fun heq => hbyte (congrArg (· / 8) heq))]

end Bitmap
end JppDos
