import Mathlib.Data.List.Basic
import Mathlib.Data.List.TakeWhile
import Mathlib.Tactic.Common

/-!
# Text in C buffers

Byte strings with the C library's operations on them: C strings, comparison
without case, `strchr`, `strtol`, and lines ended by CRLF.

Main fact:
* `findBlankLine_append`: the first blank line stays the first when more bytes
  arrive behind it.
-/

namespace JppDos
namespace CText

/-- The bytes of an ASCII text. -/
def ascii (s : String) : List UInt8 := s.toList.map fun c => UInt8.ofNat c.toNat

/-- The C string at the front of a buffer. -/
def cString (bytes : List UInt8) : List UInt8 := bytes.takeWhile (· ≠ 0)

/-- `tolower` in the C locale. -/
def lower (b : UInt8) : UInt8 := if 65 ≤ b ∧ b ≤ 90 then b + 32 else b

theorem lower_toNat (b : UInt8) :
    (lower b).toNat = if 65 ≤ b.toNat ∧ b.toNat ≤ 90 then b.toNat + 32 else b.toNat := by
  have hb : (65 ≤ b ∧ b ≤ 90) ↔ 65 ≤ b.toNat ∧ b.toNat ≤ 90 := by
    rw [UInt8.le_iff_toNat_le, UInt8.le_iff_toNat_le]
    exact Iff.rfl
  unfold lower
  simp only [hb]
  split_ifs with h
  · rw [UInt8.toNat_add]
    change (b.toNat + 32) % 256 = b.toNat + 32
    omega
  · rfl

theorem lower_lower (b : UInt8) : lower (lower b) = lower b := by
  rw [← UInt8.toNat_inj, lower_toNat (lower b), lower_toNat b]
  split_ifs <;> omega

/-- Below the small letters nothing else has the same lower case. -/
theorem eq_of_lower_eq {b c : UInt8} (h : lower b = c) (hc : c.toNat < 97) : b = c := by
  have hb := lower_toNat b
  rw [h] at hb
  rw [← UInt8.toNat_inj]
  split_ifs at hb <;> omega

/-- `strcasecmp(a, b) == 0`. -/
def strcaseeq (a b : List UInt8) : Bool := a.map lower == b.map lower

theorem cString_append {pre : List UInt8} (h : 0 ∉ pre) (rest : List UInt8) :
    cString (pre ++ rest) = pre ++ cString rest :=
  List.takeWhile_append_of_pos fun _ hb => decide_eq_true fun heq => h (heq ▸ hb)

/-- The text before and after the first `c`, as `strchr` finds it. -/
def breakAt (c : UInt8) : List UInt8 → Option (List UInt8 × List UInt8)
  | [] => none
  | b :: bs =>
      if b = c then some ([], bs)
      else (breakAt c bs).map fun (pre, post) => (b :: pre, post)

theorem breakAt_append {b : UInt8} {pre : List UInt8} (h : b ∉ pre) (post : List UInt8) :
    breakAt b (pre ++ b :: post) = some (pre, post) := by
  induction pre with
  | nil => simp [breakAt]
  | cons a pre ih =>
      simp only [List.mem_cons, not_or] at h
      rw [List.cons_append, breakAt, if_neg (Ne.symm h.1), ih h.2]
      rfl

/-- The text after the last `c`, as `strrchr` finds it. -/
def afterLast (c : UInt8) : List UInt8 → Option (List UInt8)
  | [] => none
  | b :: bs =>
      match afterLast c bs with
      | some post => some post
      | none => if b = c then some bs else none

theorem afterLast_of_not_mem {c : UInt8} {text : List UInt8} (h : c ∉ text) :
    afterLast c text = none := by
  induction text with
  | nil => rfl
  | cons b text ih =>
      rw [List.mem_cons, not_or] at h
      rw [afterLast, ih h.2]
      exact if_neg (Ne.symm h.1)

theorem afterLast_append {c : UInt8} {post : List UInt8} (h : c ∉ post) (pre : List UInt8) :
    afterLast c (pre ++ c :: post) = some post := by
  induction pre with
  | nil => rw [List.nil_append, afterLast, afterLast_of_not_mem h, if_pos rfl]
  | cons b pre ih => rw [List.cons_append, afterLast, ih]

/-- `isspace` in the C locale. -/
def isSpace (b : UInt8) : Bool := (9 ≤ b && b ≤ 13) || b == 32

/-- The decimal digits at the front of a text. -/
def decimalPrefix (acc : Nat) : List UInt8 → Nat
  | [] => acc
  | b :: bs => if 48 ≤ b ∧ b ≤ 57 then decimalPrefix (10 * acc + (b.toNat - 48)) bs else acc

/-- `strtol(s, NULL, 10)` where `long` has 32 bits. -/
def strtol (s : List UInt8) : Int :=
  let v : Int :=
    match s.dropWhile isSpace with
    | 43 :: ds => decimalPrefix 0 ds
    | 45 :: ds => - decimalPrefix 0 ds
    | ds => decimalPrefix 0 ds
  max (-2147483648) (min v 2147483647)

/-- A C string: its bytes up to the terminating zero byte. -/
abbrev CStr := { s : List UInt8 // 0 ∉ s }

namespace CStr

instance lawfulBEq : LawfulBEq CStr := inferInstance

/-- What a buffer holds as a C string. -/
def ofBytes (bytes : List UInt8) : CStr :=
  ⟨cString bytes, fun h => by simpa using List.mem_takeWhile_imp h⟩

/-- `strlen`. -/
def strlen (s : CStr) : Nat := s.val.length

/-- What `strncpy` leaves in a buffer whose last byte is then cleared. -/
def strncpy (s : CStr) (bufLen : Nat) : CStr :=
  ⟨s.val.take (bufLen - 1), fun h => s.property (List.mem_of_mem_take h)⟩

/-- The text without case, as `strcasecmp` compares it. -/
def fold (s : CStr) : List UInt8 := s.val.map lower

@[simp] theorem ofBytes_val (s : CStr) : ofBytes s.val = s := by
  refine Subtype.ext (List.takeWhile_eq_self_iff.mpr fun b hb => ?_)
  have hne : b ≠ 0 := fun h => s.property (h ▸ hb)
  simpa using hne

theorem ofBytes_append_zero (s : CStr) (rest : List UInt8) :
    ofBytes (s.val ++ 0 :: rest) = s := by
  have hbytes : ∀ b ∈ s.val, decide (b ≠ 0) = true := fun b hb =>
    decide_eq_true fun h => s.property (h ▸ hb)
  refine Subtype.ext ?_
  change (s.val ++ 0 :: rest).takeWhile (· ≠ 0) = s.val
  rw [List.takeWhile_append_of_pos hbytes, List.takeWhile_cons_of_neg (by simp),
    List.append_nil]

theorem strncpy_of_lt {s : CStr} {bufLen : Nat} (h : s.strlen < bufLen) :
    s.strncpy bufLen = s :=
  Subtype.ext (List.take_of_length_le (Nat.le_sub_one_of_lt h))

end CStr

/-- The line end. -/
def crlf : List UInt8 := [13, 10]

/-- The lines of a text; the last one is what follows the last line end. -/
def splitLines : List UInt8 → List (List UInt8)
  | [] => [[]]
  | 13 :: 10 :: rest => [] :: splitLines rest
  | b :: rest =>
      match splitLines rest with
      | [] => [[b]]
      | line :: lines => (b :: line) :: lines

/-- The first line and what follows its end. -/
def readLine : List UInt8 → Option (List UInt8 × List UInt8)
  | [] => none
  | 13 :: 10 :: rest => some ([], rest)
  | b :: rest => (readLine rest).map fun (line, more) => (b :: line, more)

/-- The offset of the first CRLFCRLF. -/
def findBlankLine : List UInt8 → Option Nat
  | [] => none
  | b :: bs =>
      if (b :: bs).take 4 = [13, 10, 13, 10] then some 0
      else (findBlankLine bs).map (· + 1)

theorem readLine_cons {b : UInt8} {rest : List UInt8} (h : b ≠ 13) :
    readLine (b :: rest) = (readLine rest).map fun (line, more) => (b :: line, more) := by
  rw [readLine]
  rintro rest' rfl _
  exact h rfl

/-- A line without CR is read back, whatever follows its end. -/
theorem readLine_append {line : List UInt8} (h : 13 ∉ line) (rest : List UInt8) :
    readLine (line ++ crlf ++ rest) = some (line, rest) := by
  induction line with
  | nil => rfl
  | cons b line ih =>
      simp only [List.mem_cons, not_or] at h
      rw [List.cons_append, List.cons_append, readLine_cons (Ne.symm h.1), ih h.2]
      rfl

theorem splitLines_append {line : List UInt8} (h : 13 ∉ line) (rest : List UInt8) :
    splitLines (line ++ crlf ++ rest) = line :: splitLines rest := by
  induction line with
  | nil => rfl
  | cons b line ih =>
      obtain ⟨hb, hline⟩ := not_or.mp (fun hmem => h (List.mem_cons.mpr hmem))
      rw [List.cons_append, List.cons_append, splitLines, ih hline]
      rintro rest' rfl _
      exact hb rfl

theorem findBlankLine_le {bs : List UInt8} {i : Nat} (h : findBlankLine bs = some i) :
    i + 4 ≤ bs.length ∧ (bs.drop i).take 4 = [13, 10, 13, 10] := by
  induction bs generalizing i with
  | nil => simp [findBlankLine] at h
  | cons b bs ih =>
      rw [findBlankLine] at h
      split_ifs at h with hhere
      · obtain rfl := Option.some.inj h
        have hlen := congrArg List.length hhere
        simp only [List.length_take, List.length_cons, List.length_nil] at hlen
        exact ⟨by simp only [List.length_cons]; omega, hhere⟩
      · obtain ⟨j, hj, rfl⟩ := Option.map_eq_some_iff.mp h
        obtain ⟨h1, h2⟩ := ih hj
        exact ⟨by simp only [List.length_cons]; omega, h2⟩

/-- The first blank line of a buffer is the first one of the stream. -/
theorem findBlankLine_append {bs : List UInt8} {i : Nat} (h : findBlankLine bs = some i)
    (more : List UInt8) : findBlankLine (bs ++ more) = some i := by
  induction bs generalizing i with
  | nil => simp [findBlankLine] at h
  | cons b bs ih =>
      have hle := (findBlankLine_le h).1
      rw [findBlankLine] at h
      rw [List.cons_append, findBlankLine, ← List.cons_append,
        List.take_append_of_le_length (by omega)]
      split_ifs at h with hhere
      · rw [if_pos hhere]
        exact h
      · obtain ⟨j, hj, rfl⟩ := Option.map_eq_some_iff.mp h
        rw [if_neg hhere, ih hj]
        rfl

end CText
end JppDos
