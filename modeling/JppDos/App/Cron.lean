import JppDos.App.Manifest
import JppDos.Lib.Words

/-!
# Cron expressions

`jpp_manifest_v2_is_valid_cron` reads one field after the other, each with the spaces behind it.
It judges the words of the text, with their numbers in an `int`.

Main fact:
* `cronFrom_eq`: the fields are the words of the text.
-/

namespace JppDos
namespace App

open CText Words

/-- The number of a run of digits, in an `int`. -/
theorem cronNumber_eq {digits : List UInt8}
    (h : (digits.all fun c => 48 ≤ c && c ≤ 57) = true) :
    cronNumber digits = CInt.wrap32 (decimalPrefix 0 digits) := by
  have hfold : ∀ (ds : List UInt8) (acc : Nat), (ds.all fun c => 48 ≤ c && c ≤ 57) = true →
      ds.foldl (fun v c => CInt.wrap32 (v * 10 + (c.toNat - 48))) (CInt.wrap32 acc) =
        CInt.wrap32 (decimalPrefix acc ds) := by
    intro ds
    induction ds with
    | nil =>
        intro acc _
        rw [List.foldl_nil, decimalPrefix]
    | cons c ds ih =>
        intro acc hds
        rw [List.all_cons, Bool.and_eq_true] at hds
        have hc : 48 ≤ c ∧ c ≤ 57 := by simpa using hds.1
        have hlow : 48 ≤ c.toNat := by simpa using UInt8.le_iff_toNat_le.mp hc.1
        have hvalue : (acc : Int) * 10 + (c.toNat - 48) = (10 * acc + (c.toNat - 48) : Nat) := by
          omega
        rw [List.foldl_cons, CInt.wrap32_mul_add, hvalue, ih _ hds.2, decimalPrefix, if_pos hc]
  have hzero : CInt.wrap32 ((0 : Nat) : Int) = 0 := CInt.wrap32_of_nonneg (by omega) (by omega)
  have hdigits := hfold digits 0 h
  rwa [hzero] at hdigits

/-- A word that the firmware accepts as a field. -/
def intWordOk (low high : Nat) (word : List UInt8) : Bool :=
  word == [42] ||
    (word.all fun c => 48 ≤ c && c ≤ 57) && word != [] && low ≤ cronNumber word &&
      cronNumber word ≤ high

/-- The ranges that `jpp_manifest_v2_is_valid_cron` gives. -/
def cronRanges : List (Nat × Nat) := [(0, 59), (0, 23), (1, 31), (1, 12), (0, 6)]

/-- A run of one kind of character is followed by a space or the end exactly if the word is all
of this kind. -/
theorem takeWhile_word {p : UInt8 → Bool} (hp : p 32 = false) (cursor : List UInt8) :
    ((cursor.dropWhile p).head? = some 32 ∨ cursor.dropWhile p = []) ↔
      (cursor.takeWhile (· ≠ 32)).all p = true := by
  induction cursor with
  | nil => simp
  | cons c cursor ih =>
      by_cases hc : c = 32
      · subst hc
        simp [hp]
      · rw [List.takeWhile_cons_of_pos (by simpa using hc), List.all_cons]
        by_cases hpc : p c = true
        · rw [List.dropWhile_cons_of_pos hpc, ih, hpc, Bool.true_and]
        · rw [List.dropWhile_cons_of_neg hpc]
          simp [hc, hpc]

theorem drop_takeWhile (p : UInt8 → Bool) (cursor : List UInt8) :
    cursor.drop (cursor.takeWhile p).length = cursor.dropWhile p := by
  induction cursor with
  | nil => rfl
  | cons c cursor ih =>
      cases hc : p c with
      | true =>
          rw [List.takeWhile_cons_of_pos hc, List.dropWhile_cons_of_pos hc]
          exact ih
      | false => simp [hc]

theorem takeWhile_eq_word {p : UInt8 → Bool} (hp : p 32 = false) {cursor : List UInt8}
    (h : (cursor.takeWhile (· ≠ 32)).all p = true) :
    cursor.takeWhile p = cursor.takeWhile (· ≠ 32) ∧
      cursor.dropWhile p = cursor.dropWhile (· ≠ 32) := by
  induction cursor with
  | nil => simp
  | cons c cursor ih =>
      by_cases hc : c = 32
      · subst hc
        simp [hp]
      · rw [List.takeWhile_cons_of_pos (by simpa using hc), List.all_cons,
          Bool.and_eq_true] at h
        obtain ⟨htake, hdrop⟩ := ih h.2
        rw [List.takeWhile_cons_of_pos h.1, List.takeWhile_cons_of_pos (by simpa using hc),
          List.dropWhile_cons_of_pos h.1, List.dropWhile_cons_of_pos (by simpa using hc), htake,
          hdrop]
        exact ⟨rfl, rfl⟩

/-- The firmware reads a star so, and goes on at the next word. -/
theorem cronFieldOk_star (low high : Nat) (rest : List UInt8) :
    cronFieldOk low high (42 :: rest) =
      if intWordOk low high (42 :: rest.takeWhile (· ≠ 32)) then
        some ((rest.dropWhile (· ≠ 32)).dropWhile (· = 32))
      else none := by
  cases rest with
  | nil => rfl
  | cons c rest =>
      by_cases hc : c = 32
      · subst hc
        simp [cronFieldOk, intWordOk]
      · have hword : (c :: rest).takeWhile (· ≠ 32) = c :: rest.takeWhile (· ≠ 32) :=
          List.takeWhile_cons_of_pos (by simpa using hc)
        rw [hword]
        simp [cronFieldOk, intWordOk, hc]

theorem cronFieldOk_number (low high : Nat) {cursor : List UInt8} (hne : cursor ≠ [])
    (hhead : cursor.head? ≠ some 32) (hstar : cursor.head? ≠ some 42) :
    cronFieldOk low high cursor =
      if intWordOk low high (cursor.takeWhile (· ≠ 32)) then
        some ((cursor.dropWhile (· ≠ 32)).dropWhile (· = 32))
      else none := by
  obtain ⟨c, rest, rfl⟩ := List.exists_cons_of_ne_nil hne
  have hc : c ≠ 32 := fun heq => hhead (congrArg some heq)
  have hc' : c ≠ 42 := fun heq => hstar (congrArg some heq)
  generalize hcursor : c :: rest = cursor
  have hword : cursor.takeWhile (· ≠ 32) = c :: rest.takeWhile (· ≠ 32) := by
    rw [← hcursor]
    exact List.takeWhile_cons_of_pos (by simpa using hc)
  have hunfold : cronFieldOk low high cursor =
      if (cursor.takeWhile fun c => 48 ≤ c && c ≤ 57) = [] then none
      else if cronNumber (cursor.takeWhile fun c => 48 ≤ c && c ≤ 57) < low ∨
          high < cronNumber (cursor.takeWhile fun c => 48 ≤ c && c ≤ 57) then none
      else if (cursor.dropWhile fun c => 48 ≤ c && c ≤ 57).head? = some 32 ∨
          (cursor.dropWhile fun c => 48 ≤ c && c ≤ 57) = [] then
        some ((cursor.dropWhile fun c => 48 ≤ c && c ≤ 57).dropWhile (· = 32))
      else none := by
    have hdrop := drop_takeWhile (fun c => 48 ≤ c && c ≤ 57) cursor
    rw [cronFieldOk.eq_def]
    split
    · rename_i tail
      exact absurd (List.cons.inj hcursor).1 hc'
    · simp only [hdrop]
  rw [hunfold]
  have hbeq : (cursor.takeWhile (· ≠ 32) == [42]) = false := by
    rw [hword]
    exact beq_eq_false_iff_ne.mpr fun heq => hc' (List.cons.inj heq).1
  have hbne : (cursor.takeWhile (· ≠ 32) != []) = true := by
    rw [hword]
    rfl
  have hspace := takeWhile_word (p := fun c => 48 ≤ c && c ≤ 57) (by decide) cursor
  by_cases hall : (cursor.takeWhile (· ≠ 32)).all (fun c => 48 ≤ c && c ≤ 57) = true
  · obtain ⟨htake, hdrop⟩ := takeWhile_eq_word (by decide) hall
    rw [if_pos (hspace.mpr hall), htake, hdrop, if_neg (bne_iff_ne.mp hbne)]
    simp only [intWordOk, hbeq, hall, hbne, Bool.false_or, Bool.true_and, Bool.and_eq_true,
      decide_eq_true_eq]
    by_cases hrange : low ≤ cronNumber (cursor.takeWhile (· ≠ 32)) ∧
        cronNumber (cursor.takeWhile (· ≠ 32)) ≤ high
    · rw [if_neg (by omega), if_pos hrange]
    · rw [if_pos (by omega), if_neg hrange]
  · have hnot : intWordOk low high (cursor.takeWhile (· ≠ 32)) = false := by
      rw [Bool.not_eq_true] at hall
      simp only [intWordOk, hbeq, hall, Bool.false_and, Bool.or_false]
    rw [if_neg (mt hspace.mp hall), hnot]
    simp only [ite_self, Bool.false_eq_true, if_false]

/-- The firmware reads a word so, and goes on at the next one. -/
theorem cronFieldOk_eq (low high : Nat) {cursor : List UInt8} (hne : cursor ≠ [])
    (hhead : cursor.head? ≠ some 32) :
    cronFieldOk low high cursor =
      if intWordOk low high (cursor.takeWhile (· ≠ 32)) then
        some ((cursor.dropWhile (· ≠ 32)).dropWhile (· = 32))
      else none := by
  by_cases hstar : cursor.head? = some 42
  · obtain ⟨rest, rfl⟩ : ∃ rest, cursor = 42 :: rest := by
      obtain ⟨c, rest, rfl⟩ := List.exists_cons_of_ne_nil hne
      exact ⟨rest, by rw [Option.some.inj hstar]⟩
    have htake : (42 :: rest).takeWhile (· ≠ (32 : UInt8)) = 42 :: rest.takeWhile (· ≠ 32) :=
      List.takeWhile_cons_of_pos (by decide)
    have hdrop : (42 :: rest).dropWhile (· ≠ (32 : UInt8)) = rest.dropWhile (· ≠ 32) :=
      List.dropWhile_cons_of_pos (by decide)
    rw [cronFieldOk_star, htake, hdrop]
  · exact cronFieldOk_number low high hne hhead hstar

/-- The fields of the firmware's parser, one after the other. -/
def cronFrom : List (Nat × Nat) → List UInt8 → Bool
  | [], cursor => cursor == []
  | (low, high) :: ranges, cursor =>
      match cronFieldOk low high cursor with
      | none => false
      | some rest => cronFrom ranges rest

theorem isValidCron_eq (cron : CStr) :
    isValidCron cron = (nonempty cron && cronFrom cronRanges cron.val) := by
  unfold isValidCron
  congr 1
  simp only [cronRanges, cronFrom]
  cases cronFieldOk 0 59 cron.val with
  | none => rfl
  | some p =>
      cases h1 : cronFieldOk 0 23 p with
      | none => simp [h1]
      | some p =>
          cases h2 : cronFieldOk 1 31 p with
          | none => simp [h1, h2]
          | some p =>
              cases h3 : cronFieldOk 1 12 p with
              | none => simp [h1, h2, h3]
              | some p =>
                  cases h4 : cronFieldOk 0 6 p with
                  | none => simp [h1, h2, h3, h4]
                  | some p => simp [h1, h2, h3, h4]

/-- The parser finds as many words as there are fields, each of them valid. -/
theorem cronFrom_eq (ranges : List (Nat × Nat)) {cursor : List UInt8}
    (hhead : cursor.head? ≠ some 32) :
    cronFrom ranges cursor =
      ((words 32 cursor).length == ranges.length &&
        ((words 32 cursor).zip ranges).all fun f => intWordOk f.2.1 f.2.2 f.1) := by
  induction ranges generalizing cursor with
  | nil =>
      cases cursor with
      | nil => simp [cronFrom]
      | cons c rest =>
          rw [words_eq_cons (List.cons_ne_nil _ _) hhead]
          simp [cronFrom]
  | cons range ranges ih =>
      obtain ⟨low, high⟩ := range
      cases hcursor : cursor with
      | nil => simp [cronFrom, cronFieldOk]
      | cons c rest =>
          rw [← hcursor]
          have hne : cursor ≠ [] := hcursor ▸ List.cons_ne_nil _ _
          have hnext : ((cursor.dropWhile (· ≠ 32)).dropWhile (· = 32)).head? ≠ some 32 := by
            intro hspace
            have hnot := List.head?_dropWhile_not (fun c : UInt8 => decide (c = 32))
              (cursor.dropWhile (· ≠ 32))
            rw [hspace] at hnot
            simp at hnot
          rw [cronFrom, cronFieldOk_eq low high hne hhead, words_eq_cons hne hhead]
          by_cases hword : intWordOk low high (cursor.takeWhile (· ≠ 32)) = true
          · rw [if_pos hword]
            simp only [ih hnext, words_dropWhile, List.length_cons, List.zip_cons_cons,
              List.all_cons, hword, Bool.true_and]
            simp
          · rw [if_neg hword]
            rw [Bool.not_eq_true] at hword
            simp only [List.zip_cons_cons, List.all_cons, hword, Bool.false_and, Bool.and_false]

end App
end JppDos
