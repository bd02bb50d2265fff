import Mathlib.Data.Nat.Bitwise
import Mathlib.Tactic.Ring
import Mathlib.Tactic.Common

/-!
# Little-endian numbers

Numbers written least significant byte first, with the two ways programs read
them back: positionally, and by shifting bytes into place and or-ing them.

Main fact:
* `or_shift_two`, `or_shift_four`: the shift-and-or readers of two and four
  bytes compute the positional value.
-/

namespace JppDos
namespace LittleEndian

/-- Positional value of a byte string, least significant byte first. -/
def leNat : List UInt8 → Nat
  | [] => 0
  | b :: bs => b.toNat + 256 * leNat bs

/-- The `k` low bytes of `n`, least significant first. -/
def leBytes : Nat → Nat → List UInt8
  | 0, _ => []
  | k + 1, n => UInt8.ofNat n :: leBytes k (n / 256)

@[simp] theorem leBytes_length (k n : Nat) : (leBytes k n).length = k := by
  induction k generalizing n with
  | zero => rfl
  | succ k ih => simp [leBytes, ih]

attribute [local simp] leNat leBytes

theorem leNat_lt (bs : List UInt8) : leNat bs < 256 ^ bs.length := by
  induction bs with
  | nil => simp [leNat]
  | cons b bs ih =>
      have hb := b.toNat_lt
      simp only [leNat, List.length_cons, pow_succ]
      omega

theorem leNat_append (xs ys : List UInt8) :
    leNat (xs ++ ys) = leNat xs + 256 ^ xs.length * leNat ys := by
  induction xs with
  | nil => simp [leNat]
  | cons b xs ih =>
      rw [List.cons_append, leNat, leNat, ih, List.length_cons]
      ring

theorem leNat_leBytes_mod (k n : Nat) : leNat (leBytes k n) = n % 256 ^ k := by
  induction k generalizing n with
  | zero => simp [leBytes, leNat, Nat.mod_one]
  | succ k ih =>
      rw [leBytes, leNat, ih, pow_succ, Nat.mul_comm (256 ^ k) 256, Nat.mod_mul]
      simp

theorem leNat_leBytes {k n : Nat} (h : n < 256 ^ k) : leNat (leBytes k n) = n := by
  rw [leNat_leBytes_mod, Nat.mod_eq_of_lt h]

theorem leBytes_leNat (bs : List UInt8) : leBytes bs.length (leNat bs) = bs := by
  induction bs with
  | nil => rfl
  | cons b bs ih =>
      have hb := b.toNat_lt
      have hdiv : (b.toNat + 256 * leNat bs) / 256 = leNat bs := by omega
      rw [List.length_cons, leNat, leBytes, hdiv, ih]
      congr 1
      apply UInt8.toNat_inj.mp
      rw [UInt8.toNat_ofNat']
      omega

theorem or_shift (m n k : Nat) (h : m < 2 ^ k) : m ||| n <<< k = m + 2 ^ k * n := by
  rw [Nat.or_comm, ← Nat.shiftLeft_add_eq_or_of_lt h, Nat.shiftLeft_eq]
  ring

theorem or_shift_two (a b : UInt8) :
    a.toNat ||| b.toNat <<< 8 = leNat [a, b] := by
  rw [or_shift _ _ _ a.toNat_lt]
  simp [leNat]

theorem or_shift_four (a b c d : UInt8) :
    a.toNat ||| b.toNat <<< 8 ||| c.toNat <<< 16 ||| d.toNat <<< 24 =
      leNat [a, b, c, d] := by
  have ha := a.toNat_lt
  have hb := b.toNat_lt
  have hc := c.toNat_lt
  rw [or_shift _ _ 8 ha, or_shift _ _ 16 (by omega), or_shift _ _ 24 (by omega)]
  simp only [leNat]
  omega

end LittleEndian
end JppDos
