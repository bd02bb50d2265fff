import Mathlib.Data.Nat.Bitwise
import Mathlib.Tactic.Common

/-!
# Base64

The standard encoding of bytes: three bytes in four characters, with the characters of an
incomplete group filled up by `=`.

Main fact:
* `or_shift`: digits are put together by shifting.
-/

namespace JppDos
namespace Base64

/-- The character of a digit below 64. -/
def char (n : Nat) : UInt8 :=
  if n < 26 then UInt8.ofNat (65 + n)
  else if n < 52 then UInt8.ofNat (97 + (n - 26))
  else if n < 62 then UInt8.ofNat (48 + (n - 52))
  else if n = 62 then 43
  else 47

/-- The character `=`. -/
def pad : UInt8 := 61

/-- The standard encoding. -/
def encode : List UInt8 → List UInt8
  | a :: b :: c :: rest =>
      char (a.toNat / 4) :: char (a.toNat % 4 * 16 + b.toNat / 16) ::
        char (b.toNat % 16 * 4 + c.toNat / 64) :: char (c.toNat % 64) :: encode rest
  | [a, b] =>
      [char (a.toNat / 4), char (a.toNat % 4 * 16 + b.toNat / 16), char (b.toNat % 16 * 4), pad]
  | [a] => [char (a.toNat / 4), char (a.toNat % 4 * 16), pad, pad]
  | [] => []

/-- Four characters for three bytes, the last group being filled up. -/
theorem length_encode (bytes : List UInt8) :
    (encode bytes).length = (bytes.length + 2) / 3 * 4 := by
  induction bytes using encode.induct with
  | case1 a b c rest ih =>
      simp only [encode, List.length_cons, ih]
      omega
  | case2 a b => simp [encode]
  | case3 a => simp [encode]
  | case4 => simp [encode]

/-- The bytes of an encoding; `val` is the value of a character of the alphabet. -/
def decode (val : UInt8 → Option Nat) : List UInt8 → Option (List UInt8)
  | [] => some []
  | a :: b :: c :: d :: rest =>
      match val a, val b, val c, val d with
      | some p, some q, some r, some s =>
          (decode val rest).map fun bytes =>
            UInt8.ofNat (p * 4 + q / 16) :: UInt8.ofNat (q % 16 * 16 + r / 4) ::
              UInt8.ofNat (r % 4 * 64 + s) :: bytes
      | some p, some q, some r, none =>
          if d = pad ∧ rest = [] then
            some [UInt8.ofNat (p * 4 + q / 16), UInt8.ofNat (q % 16 * 16 + r / 4)]
          else none
      | some p, some q, none, none =>
          if c = pad ∧ d = pad ∧ rest = [] then some [UInt8.ofNat (p * 4 + q / 16)] else none
      | _, _, _, _ => none
  | _ => none

/-- An encoding is read back, in the alphabet that `recode` changes the standard one to. -/
theorem decode_encode {val : UInt8 → Option Nat} {recode : UInt8 → UInt8}
    (hval : ∀ n < 64, val (recode (char n)) = some n) (hpad : recode pad = pad)
    (hnone : val pad = none) (bytes : List UInt8) :
    decode val ((encode bytes).map recode) = some bytes := by
  induction bytes using encode.induct with
  | case1 a b c rest ih =>
      have ha := a.toNat_lt
      have hb := b.toNat_lt
      have hc := c.toNat_lt
      simp only [encode, List.map_cons, decode]
      rw [hval _ (by omega), hval _ (by omega), hval _ (by omega), hval _ (by omega), ih]
      have h₁ : a.toNat / 4 * 4 + (a.toNat % 4 * 16 + b.toNat / 16) / 16 = a.toNat := by omega
      have h₂ : (a.toNat % 4 * 16 + b.toNat / 16) % 16 * 16 +
          (b.toNat % 16 * 4 + c.toNat / 64) / 4 = b.toNat := by omega
      have h₃ : (b.toNat % 16 * 4 + c.toNat / 64) % 4 * 64 + c.toNat % 64 = c.toNat := by omega
      simp only [h₁, h₂, h₃, UInt8.ofNat_toNat, Option.map_some]
  | case2 a b =>
      have ha := a.toNat_lt
      have hb := b.toNat_lt
      simp only [encode, List.map_cons, List.map_nil, decode, hpad, hnone]
      rw [hval _ (by omega), hval _ (by omega), hval _ (by omega)]
      have h₁ : a.toNat / 4 * 4 + (a.toNat % 4 * 16 + b.toNat / 16) / 16 = a.toNat := by omega
      have h₂ : (a.toNat % 4 * 16 + b.toNat / 16) % 16 * 16 + b.toNat % 16 * 4 / 4 = b.toNat := by
        omega
      simp only [h₁, h₂, UInt8.ofNat_toNat, and_self, if_true]
  | case3 a =>
      have ha := a.toNat_lt
      simp only [encode, List.map_cons, List.map_nil, decode, hpad, hnone]
      rw [hval _ (by omega), hval _ (by omega)]
      have h₁ : a.toNat / 4 * 4 + a.toNat % 4 * 16 / 16 = a.toNat := by omega
      simp only [h₁, UInt8.ofNat_toNat, and_self, if_true]
  | case4 => rfl

theorem forall_mem_encode {p : UInt8 → Prop} (hchar : ∀ n < 64, p (char n)) (hpad : p pad)
    (bytes : List UInt8) : ∀ c ∈ encode bytes, p c := by
  induction bytes using encode.induct with
  | case1 a b c rest ih =>
      have ha := a.toNat_lt
      have hb := b.toNat_lt
      have hc := c.toNat_lt
      simp only [encode, List.forall_mem_cons]
      exact ⟨hchar _ (by omega), hchar _ (by omega), hchar _ (by omega), hchar _ (by omega), ih⟩
  | case2 a b =>
      have ha := a.toNat_lt
      have hb := b.toNat_lt
      simp only [encode, List.forall_mem_cons]
      exact ⟨hchar _ (by omega), hchar _ (by omega), hchar _ (by omega), hpad,
        fun c hc => absurd hc List.not_mem_nil⟩
  | case3 a =>
      have ha := a.toNat_lt
      simp only [encode, List.forall_mem_cons]
      exact ⟨hchar _ (by omega), hchar _ (by omega), hpad, hpad,
        fun c hc => absurd hc List.not_mem_nil⟩
  | case4 => exact fun c hc => absurd hc List.not_mem_nil

theorem char_ne_pad {n : Nat} (h : n < 64) : char n ≠ pad := by
  have hall : ∀ n < 64, char n ≠ pad := by decide
  exact hall n h

/-- Two digits put together: `k` low bits come from the second one. -/
theorem or_shift {hi lo k : Nat} (h : lo < 2 ^ k) : hi <<< k ||| lo = hi * 2 ^ k + lo := by
  rw [← Nat.shiftLeft_add_eq_or_of_lt h, Nat.shiftLeft_eq]

end Base64
end JppDos
