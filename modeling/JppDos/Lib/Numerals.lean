import JppDos.Lib.CText
import Mathlib.Tactic.Ring

/-!
# Printed numbers

Numbers as `printf` writes them in a base up to sixteen, lower case and without
leading zeros, and the reader that takes them back.

Main fact:
* `readHexBytes_hexBytes`: bytes printed as pairs of digits are read back.
-/

namespace JppDos
namespace Numerals

/-- `'0'` to `'9'`, then `'a'` to `'f'`. -/
def digitChar (d : Nat) : UInt8 := if d < 10 then UInt8.ofNat (48 + d) else UInt8.ofNat (87 + d)

/-- The value of a digit character. -/
def digitVal (c : UInt8) : Option Nat :=
  if 48 ≤ c.toNat ∧ c.toNat ≤ 57 then some (c.toNat - 48)
  else if 97 ≤ c.toNat ∧ c.toNat ≤ 102 then some (c.toNat - 87)
  else none

/-- The digits of a number, most significant first; `fuel` bounds their number. -/
def digits (b : Nat) : Nat → Nat → List Nat
  | 0, _ => []
  | fuel + 1, n => if n < b then [n] else digits b fuel (n / b) ++ [n % b]

/-- A number printed in base `b`. -/
def showBase (b n : Nat) : List UInt8 := (digits b (n + 1) n).map digitChar

/-- One more digit of a number being read. -/
def readDigit (b acc : Nat) (c : UInt8) : Option Nat :=
  match digitVal c with
  | none => none
  | some d => if d < b then some (b * acc + d) else none

/-- The number a text of digits stands for. -/
def readBase (b : Nat) (s : List UInt8) : Option Nat :=
  if s = [] then none else s.foldlM (readDigit b) 0

theorem digitChar_toNat {d : Nat} (h : d < 16) :
    (digitChar d).toNat = if d < 10 then 48 + d else 87 + d := by
  unfold digitChar
  split_ifs <;> rw [UInt8.toNat_ofNat'] <;> omega

theorem digitVal_digitChar {d : Nat} (h : d < 16) : digitVal (digitChar d) = some d := by
  unfold digitVal
  rw [digitChar_toNat h]
  by_cases hd : d < 10
  · rw [if_pos hd, if_pos (by omega)]
    simp
  · rw [if_neg hd, if_neg (by omega), if_pos (by omega)]
    simp

theorem digits_ne_nil (b fuel n : Nat) : digits b (fuel + 1) n ≠ [] := by
  rw [digits]
  split_ifs <;> simp

theorem digits_lt {b : Nat} (hb : 0 < b) (fuel : Nat) :
    ∀ n d, d ∈ digits b fuel n → d < b := by
  induction fuel with
  | zero => simp [digits]
  | succ fuel ih =>
      intro n d hd
      rw [digits] at hd
      split_ifs at hd with hn
      · obtain rfl := List.mem_singleton.mp hd
        exact hn
      · rcases List.mem_append.mp hd with hd | hd
        · exact ih _ d hd
        · obtain rfl := List.mem_singleton.mp hd
          exact Nat.mod_lt n hb

theorem foldlM_digits {b : Nat} (hb : 2 ≤ b) (hb' : b ≤ 16) (fuel : Nat) :
    ∀ n, n < fuel → ((digits b fuel n).map digitChar).foldlM (readDigit b) 0 = some n := by
  induction fuel with
  | zero => intro n hn; omega
  | succ fuel ih =>
      intro n hn
      rw [digits]
      split_ifs with hlt
      · simp [readDigit, digitVal_digitChar (by omega : n < 16), hlt]
      · have hmod := Nat.mod_lt n (by omega : b > 0)
        have hdiv : n / b < n := Nat.div_lt_self (by omega) hb
        have hsplit := Nat.div_add_mod n b
        rw [List.map_append, List.foldlM_append, ih (n / b) (by omega)]
        simp [readDigit, digitVal_digitChar (by omega : n % b < 16), hmod, hsplit]

theorem readBase_showBase {b : Nat} (hb : 2 ≤ b) (hb' : b ≤ 16) (n : Nat) :
    readBase b (showBase b n) = some n := by
  unfold readBase showBase
  rw [if_neg (by simpa using digits_ne_nil b n n)]
  exact foldlM_digits hb hb' (n + 1) n (Nat.lt_succ_self n)

theorem length_digits_le {b : Nat} (k : Nat) :
    ∀ fuel n, n < b ^ (k + 1) → (digits b fuel n).length ≤ k + 1 := by
  induction k with
  | zero =>
      intro fuel n hn
      cases fuel with
      | zero => simp [digits]
      | succ fuel =>
          rw [digits, if_pos (by simpa using hn)]
          simp
  | succ k ih =>
      intro fuel n hn
      cases fuel with
      | zero => simp [digits]
      | succ fuel =>
          rw [digits]
          split_ifs with hlt
          · simp
          · have hdiv : n / b < b ^ (k + 1) := Nat.div_lt_of_lt_mul (by rwa [← Nat.pow_succ'])
            have hrest := ih fuel (n / b) hdiv
            rw [List.length_append, List.length_singleton]
            omega

/-- A number below a power of the base is printed with that many digits at most. -/
theorem length_showBase_lt_pow {b k n : Nat} (h : n < b ^ (k + 1)) :
    (showBase b n).length ≤ k + 1 := by
  rw [showBase, List.length_map]
  exact length_digits_le k (n + 1) n h

theorem le_of_foldlM_readDigit {b acc n : Nat} (hb : 0 < b) {s : List UInt8}
    (h : s.foldlM (readDigit b) acc = some n) : acc ≤ n := by
  induction s generalizing acc with
  | nil => exact Nat.le_of_eq (Option.some.inj h)
  | cons c s ih =>
      rw [List.foldlM_cons] at h
      obtain ⟨next, hnext, hrest⟩ := Option.bind_eq_some_iff.mp h
      refine Nat.le_trans ?_ (ih hrest)
      unfold readDigit at hnext
      split at hnext
      · exact absurd hnext (by simp)
      · split_ifs at hnext
        obtain rfl := Option.some.inj hnext
        exact Nat.le_trans (Nat.le_mul_of_pos_left acc hb) (Nat.le_add_right _ _)

theorem digit_of_foldlM_readDigit {acc n : Nat} {s : List UInt8}
    (h : s.foldlM (readDigit 10) acc = some n) {c : UInt8} (hc : c ∈ s) :
    48 ≤ c.toNat ∧ c.toNat ≤ 57 := by
  induction s generalizing acc with
  | nil => exact absurd hc List.not_mem_nil
  | cons b s ih =>
      rw [List.foldlM_cons] at h
      obtain ⟨next, hnext, hrest⟩ := Option.bind_eq_some_iff.mp h
      rcases List.mem_cons.mp hc with rfl | hc
      · by_contra hdigit
        unfold readDigit digitVal at hnext
        rw [if_neg hdigit] at hnext
        by_cases hletter : 97 ≤ c.toNat ∧ c.toNat ≤ 102
        · rw [if_pos hletter] at hnext
          simp only at hnext
          rw [if_neg (by omega)] at hnext
          exact absurd hnext (by simp)
        · rw [if_neg hletter] at hnext
          exact absurd hnext (by simp)
      · exact ih hrest hc

theorem showBase_ne_nil (b n : Nat) : showBase b n ≠ [] := by
  unfold showBase
  simpa using digits_ne_nil b n n

/-- The characters of a printed number are above the control characters. -/
theorem showBase_ge {b : Nat} (hb : 2 ≤ b) (hb' : b ≤ 16) (n : Nat) :
    ∀ c ∈ showBase b n, 48 ≤ c.toNat := by
  intro c hc
  obtain ⟨d, hd, rfl⟩ := List.mem_map.mp hc
  have := digits_lt (by omega) _ n d hd
  rw [digitChar_toNat (by omega)]
  split_ifs <;> omega

theorem showBase_not_mem {b : Nat} (hb : 2 ≤ b) (hb' : b ≤ 16) (n : Nat) {c : UInt8}
    (hc : c.toNat < 48) : c ∉ showBase b n := by
  intro hmem
  have := showBase_ge hb hb' n c hmem
  omega

/-- A number with leading zeros, as `%0*u` prints it. -/
def showPadded (width n : Nat) : List UInt8 :=
  List.replicate (width - (showBase 10 n).length) 48 ++ showBase 10 n

/-- A number as `%0*d` prints it; the sign takes one place of the width. -/
def showInt (width : Nat) (x : Int) : List UInt8 :=
  if x < 0 then 45 :: showPadded (width - 1) x.natAbs else showPadded width x.natAbs

theorem foldlM_replicate_zero (k : Nat) :
    (List.replicate k (48 : UInt8)).foldlM (readDigit 10) 0 = some 0 := by
  induction k with
  | zero => rfl
  | succ k ih =>
      have hzero : readDigit 10 0 48 = some 0 := by decide
      rw [List.replicate_succ, List.foldlM_cons, hzero]
      exact ih

theorem foldlM_showPadded (width n : Nat) :
    (showPadded width n).foldlM (readDigit 10) 0 = some n := by
  rw [showPadded, List.foldlM_append, foldlM_replicate_zero]
  exact foldlM_digits (by decide) (by decide) (n + 1) n (Nat.lt_succ_self n)

theorem digit_of_mem_showPadded {width n : Nat} {c : UInt8} (h : c ∈ showPadded width n) :
    48 ≤ c.toNat ∧ c.toNat ≤ 57 :=
  digit_of_foldlM_readDigit (foldlM_showPadded width n) h

theorem length_showPadded {width n : Nat} (hwidth : 0 < width) (h : n < 10 ^ width) :
    (showPadded width n).length = width := by
  obtain ⟨k, rfl⟩ := Nat.exists_eq_succ_of_ne_zero hwidth.ne'
  have hlen := length_showBase_lt_pow h
  rw [showPadded, List.length_append, List.length_replicate]
  omega

theorem length_showPadded_le (width : Nat) {n k : Nat} (h : n < 10 ^ (k + 1)) :
    (showPadded width n).length ≤ max width (k + 1) := by
  have hlen := length_showBase_lt_pow h
  rw [showPadded, List.length_append, List.length_replicate]
  omega

theorem mem_showInt {width : Nat} {x : Int} {c : UInt8} (h : c ∈ showInt width x) :
    c = 45 ∨ 48 ≤ c.toNat ∧ c.toNat ≤ 57 := by
  unfold showInt at h
  split_ifs at h
  · rcases List.mem_cons.mp h with hsign | hdigit
    · exact Or.inl hsign
    · exact Or.inr (digit_of_mem_showPadded hdigit)
  · exact Or.inr (digit_of_mem_showPadded h)

theorem showPadded_injective {width width' m n : Nat}
    (h : showPadded width m = showPadded width' n) : m = n := by
  have hread := foldlM_showPadded width m
  rw [h, foldlM_showPadded] at hread
  exact (Option.some.inj hread).symm

theorem showPadded_cons_inj {m n : Nat} {c : UInt8} {s s' : List UInt8} (hm : m < 100)
    (hn : n < 100) (h : showPadded 2 m ++ c :: s = showPadded 2 n ++ c :: s') :
    m = n ∧ s = s' := by
  have hlen : (showPadded 2 m).length = (showPadded 2 n).length := by
    rw [length_showPadded (by decide) hm, length_showPadded (by decide) hn]
  obtain ⟨hdigits, hrest⟩ := List.append_inj h hlen
  exact ⟨showPadded_injective hdigits, (List.cons.inj hrest).2⟩

theorem showPadded_ne_cons {width n : Nat} (rest : List UInt8) :
    showPadded width n ≠ 45 :: rest := by
  intro h
  have hsign : (45 : UInt8) ∈ showPadded width n := h ▸ List.mem_cons_self
  exact absurd (digit_of_mem_showPadded hsign).1 (by decide)

/-- A number printed with a sign and a width is no other's text. -/
theorem showInt_injective {width : Nat} {x y : Int} (h : showInt width x = showInt width y) :
    x = y := by
  unfold showInt at h
  split_ifs at h with hx hy hy
  · have habs := showPadded_injective (List.cons.inj h).2
    omega
  · exact absurd h.symm (showPadded_ne_cons _)
  · exact absurd h (showPadded_ne_cons _)
  · have habs := showPadded_injective h
    omega

/-- A byte as `%02x` prints it. -/
def hexByte (b : UInt8) : List UInt8 := [digitChar (b.toNat / 16), digitChar (b.toNat % 16)]

/-- Bytes printed one behind the other. -/
def hexBytes (bytes : List UInt8) : List UInt8 := bytes.flatMap hexByte

/-- The bytes that a text of digit pairs stands for. -/
def readHexBytes : List UInt8 → Option (List UInt8)
  | [] => some []
  | hi :: lo :: rest => do
      let h ← digitVal hi
      let l ← digitVal lo
      let bytes ← readHexBytes rest
      some (UInt8.ofNat (16 * h + l) :: bytes)
  | [_] => none

theorem hexBytes_cons (b : UInt8) (bytes : List UInt8) :
    hexBytes (b :: bytes) =
      digitChar (b.toNat / 16) :: digitChar (b.toNat % 16) :: hexBytes bytes := rfl

@[simp] theorem length_hexBytes (bytes : List UInt8) :
    (hexBytes bytes).length = 2 * bytes.length := by
  induction bytes with
  | nil => rfl
  | cons b bytes ih =>
      rw [hexBytes_cons, List.length_cons, List.length_cons, ih, List.length_cons]
      ring

theorem hexBytes_ge {bytes : List UInt8} {c : UInt8} (h : c ∈ hexBytes bytes) : 48 ≤ c.toNat := by
  obtain ⟨b, -, hc⟩ := List.mem_flatMap.mp h
  have hb := b.toNat_lt
  rcases List.mem_pair.mp hc with rfl | rfl
  · rw [digitChar_toNat (by omega)]
    split_ifs <;> omega
  · rw [digitChar_toNat (by omega)]
    split_ifs <;> omega

theorem readHexBytes_hexBytes (bytes : List UInt8) :
    readHexBytes (hexBytes bytes) = some bytes := by
  induction bytes with
  | nil => rfl
  | cons b bytes ih =>
      have hb := b.toNat_lt
      have hbyte : UInt8.ofNat (16 * (b.toNat / 16) + b.toNat % 16) = b := by
        rw [Nat.div_add_mod, UInt8.ofNat_toNat]
      rw [hexBytes_cons, readHexBytes, digitVal_digitChar (by omega),
        digitVal_digitChar (by omega), ih]
      exact congrArg some (congrArg (· :: bytes) hbyte)

/-- A digit as `%X` writes it. -/
def upperDigit (d : Nat) : UInt8 := if d < 10 then UInt8.ofNat (48 + d) else UInt8.ofNat (55 + d)

/-- `%02X`. -/
def upperByte (b : UInt8) : List UInt8 := [upperDigit (b.toNat / 16), upperDigit (b.toNat % 16)]

/-- The value of a digit of either case. -/
def hexVal (c : UInt8) : Option Nat :=
  if 65 ≤ c.toNat ∧ c.toNat ≤ 70 then some (c.toNat - 55) else digitVal c

theorem hexVal_upperDigit {d : Nat} (h : d < 16) : hexVal (upperDigit d) = some d := by
  have hall : ∀ d < 16, hexVal (upperDigit d) = some d := by decide
  exact hall d h

end Numerals
end JppDos
