import Mathlib.Data.List.Basic
import Mathlib.Data.Nat.ModEq
import Mathlib.Tactic.Common

/-!
# Rings

A queue in a fixed array: its elements lie from a head on, one behind the other, and go on
at the array's beginning where the capacity ends.

Main fact:
* `contents_pop`: without its first element the queue begins at the next place.
-/

namespace JppDos
namespace Ring

section

variable {α : Type*} {n : Nat}

/-- The elements of a ring, from its head on. -/
def contents (slots : Vector α n) (capacity head count : Nat) : List α :=
  (List.range count).filterMap fun i => slots[(head + i) % capacity]?

@[simp] theorem contents_zero (slots : Vector α n) (capacity head : Nat) :
    contents slots capacity head 0 = [] := rfl

theorem mod_ne {capacity head i j : Nat} (hij : i < j) (hj : j < capacity) :
    (head + i) % capacity ≠ (head + j) % capacity := by
  intro heq
  have h : i % capacity = j % capacity := Nat.ModEq.add_left_cancel' head heq
  rw [Nat.mod_eq_of_lt (by omega), Nat.mod_eq_of_lt hj] at h
  omega

theorem contents_succ {slots : Vector α n} {capacity head count : Nat} {x : α}
    (hx : slots[(head + count) % capacity]? = some x) :
    contents slots capacity head (count + 1) = contents slots capacity head count ++ [x] := by
  rw [contents, List.range_succ, List.filterMap_append, List.filterMap_cons, hx]
  rfl

theorem length_contents {slots : Vector α n} {capacity head count : Nat} (hpos : 0 < capacity)
    (hcapacity : capacity ≤ n) : (contents slots capacity head count).length = count := by
  induction count with
  | zero => rfl
  | succ count ih =>
      have hlt : (head + count) % capacity < n :=
        Nat.lt_of_lt_of_le (Nat.mod_lt _ hpos) hcapacity
      rw [contents_succ (Vector.getElem?_eq_getElem hlt), List.length_append, ih]
      rfl

theorem contents_push {slots : Vector α n} {capacity head count : Nat} (x : α)
    (hcapacity : capacity ≤ n) (hcount : count < capacity) :
    contents (slots.setIfInBounds ((head + count) % capacity) x) capacity head (count + 1) =
      contents slots capacity head count ++ [x] := by
  have hlt : (head + count) % capacity < n :=
    Nat.lt_of_lt_of_le (Nat.mod_lt _ (by omega)) hcapacity
  rw [contents, List.range_succ, List.filterMap_append]
  congr 1
  · refine List.filterMap_congr fun i hi => ?_
    have hne : (head + i) % capacity ≠ (head + count) % capacity :=
      mod_ne (List.mem_range.mp hi) hcount
    rw [Vector.getElem?_setIfInBounds_ne (Ne.symm hne)]
  · simp [hlt]

theorem contents_pop {slots : Vector α n} {capacity head count : Nat} {x : α}
    (hx : slots[head]? = some x) (hhead : head < capacity) :
    contents slots capacity head (count + 1) =
      x :: contents slots capacity ((head + 1) % capacity) count := by
  rw [contents, List.range_succ_eq_map, List.filterMap_cons, Nat.add_zero,
    Nat.mod_eq_of_lt hhead, hx, List.filterMap_map]
  refine congrArg (x :: ·) (List.filterMap_congr fun i _ => ?_)
  simp only [Function.comp_apply]
  rw [Nat.mod_add_mod, Nat.add_assoc, Nat.add_comm 1 i]

end

end Ring
end JppDos
