import JppDos.Lib.LittleEndian
import Mathlib.Algebra.Group.Basic
import Mathlib.Algebra.Ring.Nat

/-!
# The curve package

The functions of libsodium that the multi-signature code calls, on byte strings, and the
group of curve points that its documentation describes them by.

Main fact:
* `Curve.leNat_scalar`: a reduced scalar is read as its value.
-/

namespace JppDos
namespace Crypto

open LittleEndian

/-- The functions of libsodium; `none` is a return value of -1. -/
structure Sodium where
  /-- `crypto_hash_sha512`. -/
  sha512 : List UInt8 → List UInt8
  /-- `crypto_core_ed25519_scalar_reduce`. -/
  scalarReduce : List UInt8 → List UInt8
  /-- `crypto_core_ed25519_scalar_add`. -/
  scalarAdd : List UInt8 → List UInt8 → List UInt8
  /-- `crypto_core_ed25519_scalar_mul`. -/
  scalarMul : List UInt8 → List UInt8 → List UInt8
  /-- `crypto_core_ed25519_add`. -/
  add : List UInt8 → List UInt8 → Option (List UInt8)
  /-- `crypto_scalarmult_ed25519_noclamp`. -/
  scalarmult : List UInt8 → List UInt8 → Option (List UInt8)
  /-- `crypto_scalarmult_ed25519_base_noclamp`. -/
  scalarmultBase : List UInt8 → Option (List UInt8)

/-- A reduced scalar in its 32 bytes. -/
def scalar (n : Nat) : List UInt8 := leBytes 32 n

@[simp] theorem length_scalar (n : Nat) : (scalar n).length = 32 := leBytes_length 32 n

/-- The multiplier that the point multiplications take from 32 bytes: all but the top bit. -/
def multiplier (n : List UInt8) : Nat := leNat n % 2 ^ 255

/-- The group of points behind the functions, and what each function does in it. -/
structure Curve (S : Sodium) (G : Type) [AddCommGroup G] where
  /-- The base point. -/
  base : G
  /-- The order of the main subgroup. -/
  order : Nat
  order_pos : 0 < order
  order_le : order ≤ 2 ^ 253
  order_base : order • base = 0
  /-- The point that a byte string encodes. -/
  decode : List UInt8 → Option G
  /-- The canonical encoding of a point. -/
  encode : G → List UInt8
  length_encode : ∀ g, (encode g).length = 32
  decode_encode : ∀ g, decode (encode g) = some g
  /-- The encodings that a point multiplication accepts. -/
  Valid : List UInt8 → Prop
  valid_decode : ∀ p, Valid p → ∃ g, decode p = some g ∧ order • g = 0
  valid_encode : ∀ g, Valid (encode g) ↔ g ≠ 0 ∧ order • g = 0
  length_sha512 : ∀ m, (S.sha512 m).length = 64
  scalarReduce_eq : ∀ h, S.scalarReduce h = scalar (leNat h % order)
  /-- The sum is formed in 32 bytes before it is reduced. -/
  scalarAdd_eq : ∀ x y, S.scalarAdd x y = scalar ((leNat x + leNat y) % 2 ^ 256 % order)
  scalarMul_eq : ∀ x y, S.scalarMul x y = scalar (leNat x * leNat y % order)
  add_eq : ∀ p q, S.add p q =
    (decode p).bind fun g => (decode q).map fun h => encode (g + h)
  /-- A multiplication refuses other points, and the neutral element as its result. -/
  scalarmult_invalid : ∀ n p, ¬ Valid p → S.scalarmult n p = none
  scalarmult_zero : ∀ n p g, Valid p → decode p = some g → multiplier n • g = 0 →
    S.scalarmult n p = none
  scalarmult_eq : ∀ n p g, Valid p → decode p = some g → multiplier n • g ≠ 0 →
    S.scalarmult n p = some (encode (multiplier n • g))
  scalarmultBase_zero : ∀ n, multiplier n • base = 0 → S.scalarmultBase n = none
  scalarmultBase_eq : ∀ n, multiplier n • base ≠ 0 →
    S.scalarmultBase n = some (encode (multiplier n • base))

namespace Curve

variable {S : Sodium} {G : Type} [AddCommGroup G] (C : Curve S G)

/-- The point that a byte string encodes, the neutral one if there is none. -/
def point (p : List UInt8) : G := (C.decode p).getD 0

@[simp] theorem point_encode (g : G) : C.point (C.encode g) = g := by
  rw [point, C.decode_encode, Option.getD_some]

theorem encode_injective : Function.Injective C.encode := fun g h heq =>
  Option.some.inj ((C.decode_encode g).symm.trans (heq ▸ C.decode_encode h))

/-- A point of the main subgroup does not see multiples of the order. -/
theorem mod_order_smul {g : G} (hg : C.order • g = 0) (n : Nat) : (n % C.order) • g = n • g := by
  conv_rhs => rw [← Nat.div_add_mod n C.order, add_nsmul, mul_comm, mul_nsmul', hg, nsmul_zero,
    zero_add]

theorem lt_two_pow {n : Nat} (h : n < C.order) : n < 2 ^ 255 :=
  Nat.lt_of_lt_of_le h (C.order_le.trans (Nat.pow_le_pow_right (by decide) (by decide)))

theorem leNat_scalar {n : Nat} (h : n < C.order) : leNat (scalar n) = n := by
  refine leNat_leBytes (Nat.lt_of_lt_of_le (C.lt_two_pow h) ?_)
  rw [show (256 : Nat) = 2 ^ 8 from rfl, ← pow_mul]
  exact Nat.pow_le_pow_right (by decide) (by decide)

theorem multiplier_scalar {n : Nat} (h : n < C.order) : multiplier (scalar n) = n := by
  rw [multiplier, C.leNat_scalar h, Nat.mod_eq_of_lt (C.lt_two_pow h)]

theorem mod_order_lt (n : Nat) : n % C.order < C.order := Nat.mod_lt n C.order_pos

theorem scalarmult_some {n p q : List UInt8} (h : S.scalarmult n p = some q) :
    C.order • C.point p = 0 ∧ q = C.encode (multiplier n • C.point p) := by
  by_cases hvalid : C.Valid p
  · obtain ⟨g, hg, horder⟩ := C.valid_decode p hvalid
    have hpoint : C.point p = g := by rw [point, hg, Option.getD_some]
    by_cases hzero : multiplier n • g = 0
    · rw [C.scalarmult_zero n p g hvalid hg hzero] at h
      exact absurd h (by simp)
    · rw [C.scalarmult_eq n p g hvalid hg hzero] at h
      rw [hpoint]
      exact ⟨horder, (Option.some.inj h).symm⟩
  · rw [C.scalarmult_invalid n p hvalid] at h
    exact absurd h (by simp)

theorem scalarmultBase_some {n q : List UInt8} (h : S.scalarmultBase n = some q) :
    multiplier n • C.base ≠ 0 ∧ q = C.encode (multiplier n • C.base) := by
  by_cases hzero : multiplier n • C.base = 0
  · rw [C.scalarmultBase_zero n hzero] at h
    exact absurd h (by simp)
  · rw [C.scalarmultBase_eq n hzero] at h
    exact ⟨hzero, (Option.some.inj h).symm⟩

/-- When a multiplication of an encoded point succeeds. -/
theorem scalarmult_encode (n : List UInt8) {g : G} (hg : C.order • g = 0) :
    (S.scalarmult n (C.encode g) = none ∧ multiplier n • g = 0) ∨
      (S.scalarmult n (C.encode g) = some (C.encode (multiplier n • g)) ∧
        multiplier n • g ≠ 0) := by
  by_cases hzero : multiplier n • g = 0
  · refine Or.inl ⟨?_, hzero⟩
    by_cases hvalid : C.Valid (C.encode g)
    · exact C.scalarmult_zero n _ g hvalid (C.decode_encode g) hzero
    · exact C.scalarmult_invalid n _ hvalid
  · have hvalid : C.Valid (C.encode g) :=
      (C.valid_encode g).mpr ⟨fun h => hzero (by rw [h, nsmul_zero]), hg⟩
    exact Or.inr ⟨C.scalarmult_eq n _ g hvalid (C.decode_encode g) hzero, hzero⟩

end Curve

end Crypto
end JppDos
