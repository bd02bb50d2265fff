import JppDos.Crypto.Sodium
import Mathlib.Data.ZMod.Basic

/-!
# Residues for points

A small package with the laws of the curve package, whose points are the residues modulo
251: on it the protocols that use the package can be evaluated.

Main facts:
* `residuesCurve`: the laws hold.
-/

namespace JppDos
namespace Crypto

open LittleEndian

/-- The number of residues. -/
def residueCount : Nat := 251

/-- The residue that a byte string encodes. -/
def residue? (p : List UInt8) : Option Nat :=
  if leNat p < residueCount then some (leNat p) else none

/-- The package on residues. -/
def residues : Sodium where
  sha512 m := leBytes 64 (m.foldl (fun h b => (31 * h + b.toNat + 1) % 65521) 7)
  scalarReduce h := scalar (leNat h % residueCount)
  scalarAdd x y := scalar ((leNat x + leNat y) % 2 ^ 256 % residueCount)
  scalarMul x y := scalar (leNat x * leNat y % residueCount)
  add p q := (residue? p).bind fun g => (residue? q).map fun h =>
    leBytes 32 ((g + h) % residueCount)
  scalarmult n p := (residue? p).bind fun g =>
    if multiplier n * g % residueCount = 0 then none
    else some (leBytes 32 (multiplier n * g % residueCount))
  scalarmultBase n :=
    if multiplier n % residueCount = 0 then none
    else some (leBytes 32 (multiplier n % residueCount))

/-- The encoding of a residue. -/
def encodeResidue (g : ZMod 251) : List UInt8 := leBytes 32 g.val

theorem leNat_encodeResidue (g : ZMod 251) : leNat (encodeResidue g) = g.val :=
  leNat_leBytes (Nat.lt_of_lt_of_le (ZMod.val_lt g) (by decide))

theorem encodeResidue_natCast (n : Nat) :
    encodeResidue (n : ZMod 251) = leBytes 32 (n % residueCount) := by
  rw [encodeResidue, ZMod.val_natCast, residueCount]

theorem residue?_encodeResidue (g : ZMod 251) : residue? (encodeResidue g) = some g.val := by
  rw [residue?, leNat_encodeResidue, if_pos (show g.val < residueCount from ZMod.val_lt g)]

theorem nsmul_natCast (n g : Nat) : n • (g : ZMod 251) = ((n * g : Nat) : ZMod 251) := by
  rw [nsmul_eq_mul, Nat.cast_mul]

theorem natCast_eq_zero {n : Nat} : (n : ZMod 251) = 0 ↔ n % residueCount = 0 := by
  rw [ZMod.natCast_eq_zero_iff, Nat.dvd_iff_mod_eq_zero]
  rfl

/-- The laws of the package on residues. -/
def residuesCurve : Curve residues (ZMod 251) where
  base := 1
  order := residueCount
  order_pos := by decide
  order_le := by decide
  order_base := by rw [nsmul_one, natCast_eq_zero, Nat.mod_self]
  decode p := (residue? p).map Nat.cast
  encode := encodeResidue
  length_encode g := leBytes_length 32 _
  decode_encode g := by
    rw [residue?_encodeResidue, Option.map_some, ZMod.natCast_zmod_val]
  Valid p := ∃ g, residue? p = some g ∧ g ≠ 0
  valid_decode := by
    rintro p ⟨g, hg, -⟩
    refine ⟨g, by rw [hg, Option.map_some], ?_⟩
    rw [nsmul_natCast, natCast_eq_zero, Nat.mul_mod_right]
  valid_encode g := by
    constructor
    · rintro ⟨n, hn, hne⟩
      rw [residue?_encodeResidue] at hn
      obtain rfl := Option.some.inj hn
      refine ⟨fun h => hne (by rw [h]; rfl), ?_⟩
      rw [← ZMod.natCast_zmod_val g, nsmul_natCast, natCast_eq_zero, Nat.mul_mod_right]
    · rintro ⟨hne, -⟩
      exact ⟨g.val, residue?_encodeResidue g, fun h => hne ((ZMod.val_eq_zero g).mp h)⟩
  length_sha512 m := leBytes_length 64 _
  scalarReduce_eq h := rfl
  scalarAdd_eq x y := rfl
  scalarMul_eq x y := rfl
  add_eq p q := by
    change (residue? p).bind _ = _
    cases residue? p with
    | none => rfl
    | some g =>
        cases residue? q with
        | none => rfl
        | some h =>
            simp only [Option.bind_some, Option.map_some, ← Nat.cast_add, encodeResidue_natCast]
  scalarmult_invalid n p h := by
    change (residue? p).bind _ = _
    cases hp : residue? p with
    | none => rfl
    | some g =>
        have hg : g = 0 := by_contra fun hne => h ⟨g, hp, hne⟩
        rw [Option.bind_some, hg, Nat.mul_zero, if_pos (Nat.zero_mod _)]
  scalarmult_zero n p g hvalid hg hzero := by
    obtain ⟨k, hk, -⟩ := hvalid
    rw [hk, Option.map_some] at hg
    obtain rfl := Option.some.inj hg
    rw [nsmul_natCast, natCast_eq_zero] at hzero
    change (residue? p).bind _ = _
    rw [hk, Option.bind_some, if_pos hzero]
  scalarmult_eq n p g hvalid hg hne := by
    obtain ⟨k, hk, -⟩ := hvalid
    rw [hk, Option.map_some] at hg
    obtain rfl := Option.some.inj hg
    rw [nsmul_natCast] at hne ⊢
    rw [ne_eq, natCast_eq_zero] at hne
    change (residue? p).bind _ = _
    rw [hk, Option.bind_some, if_neg hne, encodeResidue_natCast]
  scalarmultBase_zero n hzero := by
    rw [nsmul_one, natCast_eq_zero] at hzero
    exact if_pos hzero
  scalarmultBase_eq n hne := by
    rw [nsmul_one] at hne ⊢
    rw [ne_eq, natCast_eq_zero] at hne
    rw [encodeResidue_natCast]
    exact if_neg hne

end Crypto
end JppDos
