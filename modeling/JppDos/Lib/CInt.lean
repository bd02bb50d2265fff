import Mathlib.Algebra.Ring.Int.Defs
import Mathlib.Algebra.Ring.Nat
import Mathlib.Data.Int.Basic
import Mathlib.Tactic.Common

/-!
# Machine integers

Two's complement arithmetic of a C `int` of 32 bits on integers: a result that
does not fit wraps around.

Main fact:
* `wrap32_mul_add`: wrapped values are multiplied and added as the values themselves.
-/

namespace JppDos
namespace CInt

/-- A result reduced to 32 bits. -/
def wrap32 (x : Int) : Int := x.bmod (2 ^ 32)

/-- A value of type `int`. -/
def Fits (x : Int) : Prop := -2 ^ 31 ≤ x ∧ x < 2 ^ 31

instance (x : Int) : Decidable (Fits x) := inferInstanceAs (Decidable (_ ∧ _))

theorem wrap32_of_fits {x : Int} (h : Fits x) : wrap32 x = x := by
  obtain ⟨hlow, hhigh⟩ := h
  exact Int.bmod_eq_of_le (by omega) (by omega)

theorem wrap32_of_nonneg {x : Int} (h : 0 ≤ x) (hlt : x < 2 ^ 31) : wrap32 x = x :=
  wrap32_of_fits ⟨by omega, hlt⟩

theorem neg_le_wrap32 (x : Int) : -2 ^ 31 ≤ wrap32 x := by
  unfold wrap32
  rw [Int.bmod_def]
  split_ifs <;> omega

theorem wrap32_lt (x : Int) : wrap32 x < 2 ^ 31 := by
  unfold wrap32
  rw [Int.bmod_def]
  split_ifs <;> omega

theorem wrap32_le {x : Int} (h : -2 ^ 31 ≤ x) : wrap32 x ≤ x := by
  unfold wrap32
  rw [Int.bmod_def]
  split_ifs <;> omega

/-- Wrapped values are multiplied and added as the values themselves. -/
theorem wrap32_mul_add (x y z : Int) : wrap32 (wrap32 x * y + z) = wrap32 (x * y + z) := by
  unfold wrap32
  rw [Int.add_bmod, Int.bmod_mul_bmod, ← Int.add_bmod]

theorem wrap32_add (x y : Int) : wrap32 (wrap32 x + y) = wrap32 (x + y) := by
  have hmul := wrap32_mul_add x 1 y
  rwa [Int.mul_one, Int.mul_one] at hmul

/-- A division of `int`s goes toward zero. -/
theorem tdiv_eq_ite (x d : Int) : x.tdiv d = if 0 ≤ x then x / d else -(-x / d) := by
  split_ifs with h
  · exact Int.tdiv_eq_ediv_of_nonneg h
  · rw [← Int.tdiv_eq_ediv_of_nonneg (by omega), Int.neg_tdiv, Int.neg_neg]

end CInt
end JppDos
