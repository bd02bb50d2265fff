import Mathlib.Data.List.Basic
import Mathlib.Data.List.Induction
import Mathlib.Tactic.Common

/-!
# Lines joined in a bounded buffer

A writer appends lines to a buffer, each with a separator in front if there is text
before it.  A line that does not fit is cut at the end of the buffer, and the next one
is written over it.

Main fact:
* `whole_lines_iff`: when it leaves whole lines, the first ones.
-/

namespace JppDos
namespace Filling

variable {α : Type}

/-- A line with its separator, behind `pos` characters. -/
def piece (sep : α) (pos : Nat) (line : List α) : List α :=
  (if 0 < pos then [sep] else []) ++ line

/-- The lines with separators between them. -/
def joined (sep : α) (lines : List (List α)) : List α := [sep].intercalate lines

/-- The text in a buffer, and where the next line starts. -/
structure Fill (α : Type) where
  text : List α
  pos : Nat

/-- One more line, in a buffer of `size` characters that keeps the last one free. -/
def Fill.add (sep : α) (size : Nat) (f : Fill α) (line : List α) : Fill α :=
  let p := piece sep f.pos line
  { text := f.text.take f.pos ++ p.take (size - f.pos - 1)
    pos := if 0 < p.length ∧ p.length < size - f.pos then f.pos + p.length else f.pos }

/-- The lines one after the other, from an empty buffer. -/
def fill (sep : α) (size : Nat) (lines : List (List α)) : Fill α :=
  lines.foldl (Fill.add sep size) ⟨[], 0⟩

variable {sep : α}

@[simp] theorem joined_nil : joined sep [] = [] := rfl

@[simp] theorem joined_singleton (line : List α) : joined sep [line] = line := by
  simp [joined, List.intercalate]

theorem joined_cons_cons (a b : List α) (lines : List (List α)) :
    joined sep (a :: b :: lines) = a ++ sep :: joined sep (b :: lines) := by
  simp [joined, List.intercalate, List.intersperse]

theorem joined_concat {lines : List (List α)} (h : lines ≠ []) (line : List α) :
    joined sep (lines ++ [line]) = joined sep lines ++ sep :: line := by
  induction lines with
  | nil => exact absurd rfl h
  | cons a lines ih =>
      cases lines with
      | nil => simp [joined_cons_cons]
      | cons b lines =>
          have htail := ih (List.cons_ne_nil b lines)
          simp only [List.cons_append, joined_cons_cons] at htail ⊢
          rw [htail, List.append_assoc, List.cons_append]

theorem joined_eq_nil_iff {lines : List (List α)} (h : ∀ line ∈ lines, line ≠ []) :
    joined sep lines = [] ↔ lines = [] := by
  cases lines with
  | nil => simp
  | cons a lines =>
      have ha := h a List.mem_cons_self
      cases lines with
      | nil => simpa using ha
      | cons b lines => simp [joined_cons_cons]

/-- The line that `Fill.add` writes behind whole lines. -/
theorem joined_append_piece {lines : List (List α)} (h : ∀ line ∈ lines, line ≠ [])
    (line : List α) :
    joined sep (lines ++ [line]) =
      joined sep lines ++ piece sep (joined sep lines).length line := by
  by_cases hnil : lines = []
  · simp [hnil, piece]
  · have hpos : 0 < (joined sep lines).length :=
      List.length_pos_iff.mpr (mt (joined_eq_nil_iff h).mp hnil)
    rw [joined_concat hnil, piece, if_pos hpos]
    rfl

theorem joined_beginning (lines more : List (List α)) :
    joined sep lines <+: joined sep (lines ++ more) := by
  induction more using List.reverseRecOn with
  | nil => simp
  | append_singleton more line ih =>
      refine ih.trans ?_
      rw [← List.append_assoc]
      by_cases hnil : lines ++ more = []
      · simp [hnil]
      · rw [joined_concat hnil]
        exact List.prefix_append _ _

theorem length_joined_take_mono (sep : α) (lines : List (List α)) {j k : Nat} (h : j ≤ k) :
    (joined sep (lines.take j)).length ≤ (joined sep (lines.take k)).length := by
  obtain ⟨more, hmore⟩ := List.take_prefix_take_left (l := lines) h
  rw [← hmore]
  exact (joined_beginning _ _).length_le

/-- How a buffer stands after some lines. -/
inductive Filled (sep : α) (size : Nat) (lines : List (List α)) (f : Fill α) : Prop
  /-- All lines fit. -/
  | whole (htext : f.text = joined sep lines) (hpos : f.pos = f.text.length)
      (hroom : f.pos < size)
  /-- The first lines fill the buffer to its last character. -/
  | full (j : Nat) (hj : j < lines.length)
      (hcut : size ≤ (joined sep (lines.take (j + 1))).length)
      (htext : f.text = joined sep (lines.take j)) (hpos : f.pos = f.text.length)
      (hroom : f.pos + 1 = size)
  /-- A line was cut, and its rest or a later line stands behind the first lines. -/
  | marred (j : Nat) (hj : j < lines.length)
      (hcut : size ≤ (joined sep (lines.take (j + 1))).length)
      (hpos : (joined sep (lines.take j)).length ≤ f.pos) (hle : f.pos ≤ f.text.length)
      (hmore : (joined sep (lines.take j)).length < f.text.length)
      (hroom : f.text.length < size)

theorem piece_pos (sep : α) (pos : Nat) {line : List α} (h : line ≠ []) :
    0 < (piece sep pos line).length := by
  have := List.length_pos_iff.mpr h
  rw [piece, List.length_append]
  omega

variable {size : Nat} {lines : List (List α)} {f : Fill α}

theorem Fill.length_add (sep : α) (size : Nat) (hle : f.pos ≤ f.text.length) (line : List α) :
    (f.add sep size line).text.length =
      f.pos + min (size - f.pos - 1) (piece sep f.pos line).length := by
  simp only [Fill.add, List.length_append, List.length_take, Nat.min_eq_left hle]

theorem Filled.add (hlines : ∀ line ∈ lines, line ≠ []) (h : Filled sep size lines f)
    {line : List α} (hline : line ≠ []) :
    Filled sep size (lines ++ [line]) (f.add sep size line) := by
  have hp := piece_pos sep f.pos hline
  cases h with
  | whole htext hpos hroom =>
      have hjoin : joined sep (lines ++ [line]) = f.text ++ piece sep f.pos line := by
        rw [joined_append_piece hlines, ← htext, ← hpos]
      have htake : f.text.take f.pos = f.text := by rw [hpos, List.take_length]
      have hlen := Fill.length_add sep size (Nat.le_of_eq hpos) line
      by_cases hfit : (piece sep f.pos line).length < size - f.pos
      · refine .whole ?_ ?_ ?_
        · simp only [Fill.add, htake, hjoin]
          rw [List.take_of_length_le (by omega)]
        · rw [hlen]
          simp only [Fill.add, hp, hfit, and_self, if_true]
          omega
        · simp only [Fill.add, hp, hfit, and_self, if_true]
          omega
      · have hbegin : (lines ++ [line]).take lines.length = lines := List.take_left
        have hcount : lines.length < (lines ++ [line]).length := by simp
        have hkept : (f.add sep size line).pos = f.pos := by simp [Fill.add, hfit]
        have hcut : size ≤ (joined sep ((lines ++ [line]).take (lines.length + 1))).length := by
          rw [List.take_of_length_le (by simp), hjoin, List.length_append]
          omega
        by_cases hlast : f.pos + 1 = size
        · refine .full lines.length hcount hcut ?_ ?_ (by rw [hkept, hlast])
          · simp only [Fill.add, htake, hbegin]
            rw [show size - f.pos - 1 = 0 by omega, List.take_zero, List.append_nil, htext]
          · rw [hkept, hlen]
            omega
        · refine .marred lines.length hcount hcut ?_ ?_ ?_ ?_
          · rw [hbegin, hkept, ← htext]
            exact Nat.le_of_eq hpos.symm
          · rw [hkept, hlen]
            omega
          · rw [hbegin, hlen, ← htext, ← hpos]
            omega
          · rw [hlen]
            omega
  | full j hj hcut htext hpos hroom =>
      have hfit : ¬ (piece sep f.pos line).length < size - f.pos := by omega
      have hadd : f.add sep size line = f := by
        have htake : f.text.take f.pos = f.text := by rw [hpos, List.take_length]
        have hnone : size - f.pos - 1 = 0 := by omega
        simp only [Fill.add, htake, hfit, and_false, if_false, hnone, List.take_zero,
          List.append_nil]
      rw [hadd]
      refine .full j (by simp; omega) ?_ ?_ hpos hroom
      · rwa [List.take_append_of_le_length hj]
      rw [htext, List.take_append_of_le_length (Nat.le_of_lt hj)]
  | marred j hj hcut hpos hle hmore hroom =>
      have hlen := Fill.length_add sep size hle line
      have htake : (lines ++ [line]).take j = lines.take j :=
        List.take_append_of_le_length (Nat.le_of_lt hj)
      refine .marred j (by simp; omega) ?_ ?_ ?_ ?_ ?_
      · rwa [List.take_append_of_le_length hj]
      · rw [htake]
        simp only [Fill.add]
        split <;> omega
      · rw [hlen]
        simp only [Fill.add]
        split <;> omega
      · rw [htake, hlen]
        omega
      · rw [hlen]
        omega

theorem fill_cases (sep : α) (hsize : 0 < size) (hlines : ∀ line ∈ lines, line ≠ []) :
    Filled sep size lines (fill sep size lines) := by
  induction lines using List.reverseRecOn with
  | nil => exact .whole rfl rfl hsize
  | append_singleton lines line ih =>
      have hinit : ∀ l ∈ lines, l ≠ [] := fun l hl =>
        hlines l (List.mem_append_left _ hl)
      rw [fill, List.foldl_append]
      exact (ih hinit).add hinit (hlines line (by simp))

theorem fill_of_fits (hsize : 0 < size) (hlines : ∀ line ∈ lines, line ≠ [])
    (h : (joined sep lines).length < size) :
    (fill sep size lines).text = joined sep lines := by
  have hlong : ∀ j < lines.length, (joined sep (lines.take (j + 1))).length < size := by
    intro j hj
    have := length_joined_take_mono sep lines (show j + 1 ≤ lines.length from hj)
    rw [List.take_length] at this
    omega
  cases fill_cases sep hsize hlines with
  | whole htext => exact htext
  | full j hj hcut => exact absurd (hlong j hj) (Nat.not_lt_of_le hcut)
  | marred j hj hcut => exact absurd (hlong j hj) (Nat.not_lt_of_le hcut)

/-- The text has the separator and characters of the lines. -/
theorem mem_fill {c : α} (h : c ∈ (fill sep size lines).text) :
    c = sep ∨ ∃ line ∈ lines, c ∈ line := by
  induction lines using List.reverseRecOn with
  | nil => exact absurd h List.not_mem_nil
  | append_singleton lines line ih =>
      rw [fill, List.foldl_append] at h
      rcases List.mem_append.mp h with hold | hnew
      · rcases ih (List.mem_of_mem_take hold) with hsep | ⟨l, hl, hc⟩
        · exact Or.inl hsep
        · exact Or.inr ⟨l, List.mem_append_left _ hl, hc⟩
      · rcases List.mem_append.mp (List.mem_of_mem_take hnew) with hsep | hc
        · split at hsep
          · exact Or.inl (List.mem_singleton.mp hsep)
          · exact absurd hsep List.not_mem_nil
        · exact Or.inr ⟨line, by simp, hc⟩

/-- The text consists of whole lines, the first ones, if and only if all lines fit or the
first ones fill the buffer to its last character. -/
theorem whole_lines_iff (hsize : 0 < size) (hlines : ∀ line ∈ lines, line ≠ []) :
    (∃ k, (fill sep size lines).text = joined sep (lines.take k)) ↔
      (joined sep lines).length < size ∨
        ∃ k, (joined sep (lines.take k)).length + 1 = size := by
  cases fill_cases sep hsize hlines with
  | whole htext hpos hroom =>
      refine iff_of_true ⟨lines.length, by rw [htext, List.take_length]⟩ (Or.inl ?_)
      rwa [← htext, ← hpos]
  | full j hj hcut htext hpos hroom =>
      refine iff_of_true ⟨j, htext⟩ (Or.inr ⟨j, ?_⟩)
      rwa [← htext, ← hpos]
  | marred j hj hcut hpos hle hmore hroom =>
      -- Up to the cut line the text is too short, from there on it is too long.
      have hlong : ∀ k, (joined sep (lines.take k)).length ≤
          (joined sep (lines.take j)).length ∨
          size ≤ (joined sep (lines.take k)).length := by
        intro k
        rcases Nat.lt_or_ge j k with hk | hk
        · exact Or.inr (Nat.le_trans hcut (length_joined_take_mono sep lines hk))
        · exact Or.inl (length_joined_take_mono sep lines hk)
      refine iff_of_false ?_ ?_
      · rintro ⟨k, hk⟩
        have := hlong k
        rw [← hk] at this
        omega
      · rintro (hall | ⟨k, hk⟩)
        · have := length_joined_take_mono sep lines (show j + 1 ≤ lines.length from hj)
          rw [List.take_length] at this
          omega
        · have := hlong k
          omega

end Filling
end JppDos
