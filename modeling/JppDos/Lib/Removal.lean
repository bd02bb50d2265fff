import Mathlib.Data.List.Basic
import Mathlib.Tactic.Common

/-!
# Taking elements out of an array

A loop that goes through an array from its end; where it finds an element to take out, it moves the
elements in front of it by one place, puts a filler at the beginning, and looks at the place again.

Main fact:
* `countP_le_of_window`: elements that lie within a window are no more than its places.
-/

namespace JppDos
namespace Removal

variable {α : Type*} (take : α → Bool) (filler : α)

/-- The elements in front of place `r` are moved by one place, from behind. -/
def shiftDown : Nat → List α → List α
  | 0, l => l.set 0 filler
  | r + 1, l => shiftDown r (l.set (r + 1) (l.getD r filler))

/-- The loop before it looks at place `rows - 1`; `taken` counts the elements taken out. -/
def sweep : Nat → Nat → List α → Nat → List α × Nat
  | 0, _, l, taken => (l, taken)
  | _ + 1, 0, l, taken => (l, taken)
  | fuel + 1, row + 1, l, taken =>
      if take (l.getD row filler) then
        sweep fuel (row + 1) (shiftDown filler row l) (taken + 1)
      else sweep fuel row l taken

variable {take} {filler}

theorem shiftDown_eq {r : Nat} {l : List α} (h : r < l.length) :
    shiftDown filler r l = filler :: (l.take r ++ l.drop (r + 1)) := by
  induction r generalizing l with
  | zero =>
      obtain ⟨a, l, rfl⟩ := List.exists_cons_of_length_pos h
      rfl
  | succ r ih =>
      have hr : r < l.length := Nat.lt_of_succ_lt h
      have hlen : r + 1 < (l.set (r + 1) (l.getD r filler)).length := by
        rw [List.length_set]
        exact h
      have hget : l.getD r filler = l[r] := by
        rw [List.getD_eq_getElem?_getD, List.getElem?_eq_getElem hr, Option.getD_some]
      rw [shiftDown, ih (Nat.lt_of_succ_lt hlen), List.take_set_of_le (Nat.le_succ r),
        List.drop_eq_getElem_cons hlen, List.getElem_set_self, List.drop_set_of_lt (by omega), hget,
        List.take_add_one, List.getElem?_eq_getElem hr, List.append_assoc]
      rfl

theorem length_shiftDown {r : Nat} {l : List α} (h : r < l.length) :
    (shiftDown filler r l).length = l.length := by
  rw [shiftDown_eq h, List.length_cons, List.length_append, List.length_take, List.length_drop]
  omega

/-- The loop leaves the elements that are not taken out, in their order, behind the fillers. -/
theorem sweep_eq (hfiller : take filler = false) {fuel row : Nat} {l : List α} (taken : Nat)
    (hrow : row ≤ l.length) (hfuel : row + (l.take row).countP take ≤ fuel) :
    sweep take filler fuel row l taken =
      (List.replicate ((l.take row).countP take) filler ++
        (l.take row).filter (fun a => !take a) ++ l.drop row,
        taken + (l.take row).countP take) := by
  induction fuel generalizing row l taken with
  | zero =>
      obtain rfl : row = 0 := by omega
      simp [sweep]
  | succ fuel ih =>
      cases row with
      | zero => simp [sweep]
      | succ row =>
          have hlt : row < l.length := hrow
          have hsplit : l.take (row + 1) = l.take row ++ [l[row]] := by
            rw [List.take_add_one, List.getElem?_eq_getElem hlt]
            rfl
          have hget : l.getD row filler = l[row] := by
            rw [List.getD_eq_getElem?_getD, List.getElem?_eq_getElem hlt, Option.getD_some]
          rw [sweep, hget]
          by_cases htake : take l[row]
          · -- the loop goes on with one element less in front of the same place
            have hshift : shiftDown filler row l = _ := shiftDown_eq hlt
            have hfront : (shiftDown filler row l).take (row + 1) = filler :: l.take row := by
              rw [hshift, List.take_succ_cons, List.take_append_of_le_length, List.take_take,
                Nat.min_self]
              rw [List.length_take]
              omega
            have hback : (shiftDown filler row l).drop (row + 1) = l.drop (row + 1) := by
              rw [hshift, List.drop_succ_cons, List.drop_left']
              rw [List.length_take]
              omega
            have hcount : ((shiftDown filler row l).take (row + 1)).countP take =
                (l.take row).countP take := by
              rw [hfront, List.countP_cons_of_neg (by simp [hfiller])]
            rw [hsplit, List.countP_append, List.countP_singleton, if_pos htake] at hfuel ⊢
            rw [if_pos htake, ih (taken + 1) (by rw [length_shiftDown hlt]; exact hrow)
              (by rw [hcount]; omega), hcount, hfront, hback, List.filter_append,
              List.filter_cons_of_pos (by simp [hfiller]), List.filter_singleton, htake]
            refine Prod.ext ?_ (by dsimp only; omega)
            simp [List.replicate_succ']
          · rw [hsplit, List.countP_append, List.countP_singleton, if_neg htake] at hfuel ⊢
            rw [if_neg htake, ih taken (Nat.le_of_lt hlt) (by omega), List.filter_append,
              List.filter_singleton, List.drop_eq_getElem_cons hlt]
            simp [htake]

/-- Elements that all lie in a window are no more than its places. -/
theorem countP_le_of_window {l : List α} {first k : Nat}
    (h : ∀ i (hi : i < l.length), take l[i] = true → first ≤ i ∧ i < first + k) :
    l.countP take ≤ k := by
  have hbefore : (l.take first).countP take = 0 := by
    refine List.countP_eq_zero.mpr fun a ha htake => ?_
    obtain ⟨i, hi, rfl⟩ := List.mem_iff_getElem.mp ha
    rw [List.length_take] at hi
    rw [List.getElem_take] at htake
    have hwindow := h i (by omega) htake
    omega
  have hafter : (l.drop (first + k)).countP take = 0 := by
    refine List.countP_eq_zero.mpr fun a ha htake => ?_
    obtain ⟨i, hi, rfl⟩ := List.mem_iff_getElem.mp ha
    rw [List.length_drop] at hi
    rw [List.getElem_drop] at htake
    have hwindow := h (first + k + i) (by omega) htake
    omega
  have hsplit : l = l.take first ++ ((l.drop first).take k ++ l.drop (first + k)) := by
    rw [← List.drop_drop, List.take_append_drop, List.take_append_drop]
  have hmiddle : ((l.drop first).take k).countP take ≤ k :=
    Nat.le_trans List.countP_le_length (by rw [List.length_take]; omega)
  rw [hsplit, List.countP_append, List.countP_append, hbefore, hafter]
  omega

end Removal
end JppDos
