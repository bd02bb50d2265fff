import JppDos.Lib.Filling
import Mathlib.Algebra.Order.Ring.Nat

/-!
# Words in rows

Words laid out in rows of a bounded width, with one character between the words of a row.
`fillRows` puts each word into the row at hand if it fits and into the next one otherwise, until
there is none left.

Main fact:
* `fillRows_all_iff`: all of them have been put into rows exactly if the words fit.
-/

namespace JppDos
namespace Rows

open Filling

variable {α : Type} (width : Nat)

/-- The width of words in a row, one more for each of them. -/
def extent (row : List (List α)) : Nat := (row.map fun word => word.length + 1).sum

/-- The words fit in a row. -/
def Fits (row : List (List α)) : Prop := extent row ≤ width + 1

instance (row : List (List α)) : Decidable (Fits width row) :=
  inferInstanceAs (Decidable (_ ≤ _))

/-- The words can be laid out in the given number of rows. -/
def FitsIn (n : Nat) (words : List (List α)) : Prop :=
  ∃ rows : List (List (List α)), rows.length ≤ n ∧ rows.flatten = words ∧
    ∀ row ∈ rows, Fits width row

/-- The row at hand and at most `n` more, filled word after word. -/
def fillRows (n : Nat) (row : List (List α)) : List (List α) → List (List (List α))
  | [] => [row]
  | word :: words =>
      if Fits width (row ++ [word]) then fillRows n (row ++ [word]) words
      else
        match n with
        | 0 => [row]
        | n + 1 => row :: fillRows n [word] words

@[simp] theorem extent_nil : extent ([] : List (List α)) = 0 := rfl

@[simp] theorem extent_append (row row' : List (List α)) :
    extent (row ++ row') = extent row + extent row' := by
  simp [extent]

theorem joined_append (sep : α) {xs ys : List (List α)} (hxs : xs ≠ []) (hys : ys ≠ []) :
    joined sep (xs ++ ys) = joined sep xs ++ sep :: joined sep ys := by
  induction xs with
  | nil => exact absurd rfl hxs
  | cons x xs ih =>
      obtain ⟨y, ys, rfl⟩ := List.exists_cons_of_ne_nil hys
      rcases xs with - | ⟨x', xs⟩
      · rw [List.singleton_append, joined_cons_cons, joined_singleton]
      · have htail := ih (List.cons_ne_nil x' xs)
        rw [List.cons_append] at htail
        rw [List.cons_append, List.cons_append, joined_cons_cons, htail, joined_cons_cons,
          List.append_assoc, List.cons_append]

theorem joined_rows (sep : α) {rows : List (List (List α))} (h : ∀ row ∈ rows, row ≠ []) :
    joined sep (rows.map (joined sep)) = joined sep rows.flatten := by
  induction rows with
  | nil => rfl
  | cons row rows ih =>
      have hrest := fun r hr => h r (List.mem_cons_of_mem row hr)
      rcases rows with - | ⟨next, rows⟩
      · simp
      · have hwords : (next :: rows).flatten ≠ [] := by
          rw [List.flatten_cons]
          exact List.append_ne_nil_of_left_ne_nil (hrest next List.mem_cons_self) _
        rw [List.map_cons, List.map_cons, joined_cons_cons, List.flatten_cons,
          joined_append sep (h row List.mem_cons_self) hwords, ← ih hrest]
        rfl

theorem extent_eq (sep : α) {row : List (List α)} (h : row ≠ []) :
    extent row = (joined sep row).length + 1 := by
  induction row with
  | nil => exact absurd rfl h
  | cons word row ih =>
      rcases row with - | ⟨next, row⟩
      · simp [extent]
      · have hrest := ih (List.cons_ne_nil _ _)
        rw [joined_cons_cons, List.length_append, List.length_cons]
        change word.length + 1 + extent (next :: row) = _
        omega

variable {width}

theorem fits_nil : Fits width ([] : List (List α)) := Nat.zero_le _

theorem fits_iff (sep : α) (row : List (List α)) :
    Fits width row ↔ (joined sep row).length ≤ width := by
  rcases eq_or_ne row [] with rfl | h
  · exact iff_of_true fits_nil (Nat.zero_le _)
  · rw [Fits, extent_eq sep h, Nat.add_le_add_iff_right]

/-- A word that is not too long fits in a row of its own. -/
theorem fits_singleton {word : List α} (h : word.length ≤ width) : Fits width [word] := by
  simpa [Fits, extent] using h

theorem Fits.of_append_left {row row' : List (List α)} (h : Fits width (row ++ row')) :
    Fits width row := by
  rw [Fits, extent_append] at h
  exact Nat.le_trans (Nat.le_add_right _ _) h

theorem Fits.of_append_right {row row' : List (List α)} (h : Fits width (row ++ row')) :
    Fits width row' := by
  rw [Fits, extent_append] at h
  exact Nat.le_trans (Nat.le_add_left _ _) h

theorem Fits.drop {row : List (List α)} (h : Fits width row) (k : Nat) :
    Fits width (row.drop k) := by
  rw [← List.take_append_drop k row] at h
  exact h.of_append_right

theorem FitsIn.drop {n : Nat} {words : List (List α)} (h : FitsIn width n words) (k : Nat) :
    FitsIn width n (words.drop k) := by
  obtain ⟨rows, hrows, rfl, hfits⟩ := h
  induction rows generalizing n k with
  | nil => exact ⟨[], hrows, by simp, by simp⟩
  | cons row rows ih =>
      cases n with
      | zero => exact absurd hrows (by simp)
      | succ n =>
          obtain ⟨rest, hrest, hwords, hfit⟩ := ih (k - row.length) (Nat.le_of_succ_le_succ hrows)
            fun row' hrow' => hfits row' (List.mem_cons_of_mem _ hrow')
          refine ⟨row.drop k :: rest, Nat.succ_le_succ hrest, ?_, ?_⟩
          · rw [List.flatten_cons, List.flatten_cons, List.drop_append, hwords]
          · intro row' hrow'
            rcases List.mem_cons.mp hrow' with rfl | hmem
            · exact (hfits row List.mem_cons_self).drop k
            · exact hfit row' hmem

/-- If one word too many for a row comes first, the others fit in the rows behind it. -/
theorem FitsIn.behind_row {n : Nat} {row words : List (List α)} {word : List α}
    (h : FitsIn width (n + 1) (row ++ word :: words)) (hfull : ¬ Fits width (row ++ [word])) :
    FitsIn width n (word :: words) := by
  obtain ⟨rows, hrows, hwords, hfits⟩ := h
  cases rows with
  | nil => exact absurd hwords.symm (by simp)
  | cons first rows =>
      have hfirst := hfits first List.mem_cons_self
      rw [List.flatten_cons] at hwords
      have hshort : first.length ≤ row.length := by
        by_contra hlong
        refine hfull ?_
        have htake := congrArg (List.take (row.length + 1)) hwords
        have hrow : (row ++ word :: words).take (row.length + 1) = row ++ [word] := by
          rw [List.take_length_add_append, List.take_succ_cons, List.take_zero]
        rw [List.take_append_of_le_length (by omega), hrow] at htake
        rw [← htake]
        rw [← List.take_append_drop (row.length + 1) first] at hfirst
        exact hfirst.of_append_left
      have hrest : FitsIn width n rows.flatten :=
        ⟨rows, Nat.le_of_succ_le_succ hrows, rfl, fun row' hrow' =>
          hfits row' (List.mem_cons_of_mem _ hrow')⟩
      have hdrop := congrArg (List.drop row.length) hwords
      rw [List.drop_left, List.drop_append, List.drop_eq_nil_of_le hshort, List.nil_append] at hdrop
      rw [← hdrop]
      exact hrest.drop _

section Filled

attribute [local simp] fillRows

variable {n : Nat} {row words : List (List α)}

theorem fillRows_cons (word : List α) :
    fillRows width n row (word :: words) =
      if Fits width (row ++ [word]) then fillRows width n (row ++ [word]) words
      else
        match n with
        | 0 => [row]
        | n + 1 => row :: fillRows width n [word] words := by
  cases n <;> rfl

theorem length_fillRows_le : (fillRows width n row words).length ≤ n + 1 := by
  induction words generalizing n row with
  | nil => simp [fillRows]
  | cons word words ih =>
      rw [fillRows_cons]
      split_ifs with hfits
      · exact ih
      · cases n with
        | zero => simp
        | succ n => exact Nat.succ_le_succ ih

/-- The rows hold the words in their order, from the first one on. -/
theorem fillRows_flatten : (fillRows width n row words).flatten <+: row ++ words := by
  induction words generalizing n row with
  | nil => simp [fillRows]
  | cons word words ih =>
      rw [fillRows_cons]
      split_ifs with hfits
      · have h := @ih n (row ++ [word])
        rwa [List.append_assoc, List.singleton_append] at h
      · cases n with
        | zero => simp
        | succ n => exact (List.prefix_append_right_inj row).mpr ih

theorem fits_of_mem_fillRows (hrow : Fits width row)
    (hwords : ∀ word ∈ words, word.length ≤ width) :
    ∀ filled ∈ fillRows width n row words, Fits width filled := by
  induction words generalizing n row with
  | nil => simpa [fillRows] using hrow
  | cons word words ih =>
      have hrest := fun w hw => hwords w (List.mem_cons_of_mem word hw)
      rw [fillRows_cons]
      split_ifs with hfits
      · exact ih hfits hrest
      · cases n with
        | zero => simpa using hrow
        | succ n =>
            have hword := fits_singleton (hwords word List.mem_cons_self)
            exact List.forall_mem_cons.mpr ⟨hrow, ih hword hrest⟩

theorem ne_nil_of_mem_fillRows (h : row ≠ [] ∨ words ≠ []) (hwords : ∀ word ∈ words,
    word.length ≤ width) : ∀ filled ∈ fillRows width n row words, filled ≠ [] := by
  induction words generalizing n row with
  | nil => simpa [fillRows] using h
  | cons word words ih =>
      have hrest := fun w hw => hwords w (List.mem_cons_of_mem word hw)
      rw [fillRows_cons]
      split_ifs with hfits
      · exact ih (Or.inl (by simp)) hrest
      · have hrow : row ≠ [] := by
          rintro rfl
          exact hfits (fits_singleton (hwords word List.mem_cons_self))
        cases n with
        | zero => simpa using hrow
        | succ n => exact List.forall_mem_cons.mpr ⟨hrow, ih (Or.inl (by simp)) hrest⟩

theorem le_of_fitsIn {k : Nat} (hk : k ≤ (row ++ words).length)
    (h : FitsIn width (n + 1) ((row ++ words).take k)) :
    k ≤ (fillRows width n row words).flatten.length := by
  induction words generalizing n row k with
  | nil => simpa [fillRows] using hk
  | cons word words ih =>
      rw [fillRows_cons]
      split_ifs with hfits
      · refine ih ?_ ?_
        · simpa using hk
        · rwa [List.append_assoc, List.singleton_append]
      · rcases Nat.lt_or_ge row.length k with hlong | hshort
        · obtain ⟨j, rfl⟩ : ∃ j, k = row.length + (j + 1) := ⟨k - row.length - 1, by omega⟩
          rw [List.take_length_add_append, List.take_succ_cons] at h
          have hbehind := h.behind_row hfits
          cases n with
          | zero =>
              obtain ⟨rows, hrows, hwords, -⟩ := hbehind
              obtain rfl := List.length_eq_zero_iff.mp (Nat.le_zero.mp hrows)
              exact absurd hwords (by simp)
          | succ n =>
              have hle := @ih n [word] (j + 1) (by
                rw [List.length_append, List.length_cons] at hk
                rw [List.length_append, List.length_singleton]
                omega) hbehind
              simp only [List.flatten_cons, List.length_append]
              omega
        · cases n with
          | zero => simpa using hshort
          | succ n =>
              simp only [List.flatten_cons, List.length_append]
              omega

/-- All of the words have been put into rows exactly if they fit. -/
theorem fillRows_all_iff (hrow : Fits width row)
    (hwords : ∀ word ∈ words, word.length ≤ width) :
    (fillRows width n row words).flatten = row ++ words ↔ FitsIn width (n + 1) (row ++ words) := by
  constructor
  · exact fun h => ⟨_, length_fillRows_le, h, fits_of_mem_fillRows hrow hwords⟩
  · intro h
    refine fillRows_flatten.eq_of_length_le ?_
    exact le_of_fitsIn (Nat.le_refl _) (by rwa [List.take_length])

theorem fitsIn_flatten (hrow : Fits width row) (hwords : ∀ word ∈ words, word.length ≤ width) :
    FitsIn width (n + 1) (fillRows width n row words).flatten :=
  ⟨_, length_fillRows_le, rfl, fits_of_mem_fillRows hrow hwords⟩

end Filled

end Rows
end JppDos
