import Mathlib.Data.List.Basic
import Mathlib.Tactic.Common

/-!
# Compaction in place

An array is walked from the left; what is kept moves down to the first free place, so that
at the end the kept elements stand at the front in their order.

Main fact:
* `Compacting.finish`: what stands at the front after the last one.
-/

namespace JppDos
namespace Compaction

variable {α : Type*} {p : α → Bool} {old slots : List α} {i w : Nat}

/-- The first `i` elements of `old` have been walked, and `w` of them were kept; the others
stand where they were. -/
structure Compacting (p : α → Bool) (old slots : List α) (i w : Nat) : Prop where
  le : w ≤ i
  inside : i ≤ old.length
  room : old.length ≤ slots.length
  kept : slots.take w = (old.take i).filter p
  rest : (slots.take old.length).drop i = old.drop i

theorem Compacting.start (h : slots.take old.length = old) : Compacting p old slots 0 0 where
  le := Nat.le_refl 0
  inside := Nat.zero_le _
  room := by
    have hlen := congrArg List.length h
    rw [List.length_take] at hlen
    omega
  kept := rfl
  rest := by rw [List.drop_zero, List.drop_zero, h]

theorem Compacting.next (h : Compacting p old slots i w) (hi : i < old.length) :
    slots[i]? = some old[i] := by
  have hget := congrArg (fun l => l[0]?) h.rest
  simp only [List.getElem?_drop, Nat.add_zero, List.getElem?_take_of_lt hi] at hget
  rw [hget]
  exact List.getElem?_eq_getElem hi

theorem Compacting.rest_succ (h : Compacting p old slots i w) :
    (slots.take old.length).drop (i + 1) = old.drop (i + 1) := by
  have htail := congrArg List.tail h.rest
  simpa only [List.tail_drop] using htail

theorem Compacting.keep (h : Compacting p old slots i w) (hi : i < old.length)
    (hp : p old[i] = true) : Compacting p old (slots.set w old[i]) (i + 1) (w + 1) where
  le := Nat.succ_le_succ h.le
  inside := hi
  room := by rw [List.length_set]; exact h.room
  kept := by
    have hw : w < (slots.set w old[i]).length := by
      rw [List.length_set]
      exact Nat.lt_of_le_of_lt h.le (Nat.lt_of_lt_of_le hi h.room)
    rw [List.take_succ_eq_append_getElem hw, List.getElem_set_self,
      List.take_set_of_le (Nat.le_refl w), h.kept, List.take_succ_eq_append_getElem hi,
      List.filter_append, List.filter_singleton, hp]
    rfl
  rest := by
    rw [List.take_set, List.drop_set_of_lt (Nat.lt_succ_of_le h.le)]
    exact h.rest_succ

theorem Compacting.stay (h : Compacting p old slots i i) (hi : i < old.length)
    (hp : p old[i] = true) : Compacting p old slots (i + 1) (i + 1) := by
  have hset : slots.set i old[i] = slots := by
    have hlt : i < slots.length := Nat.lt_of_lt_of_le hi h.room
    have hget := h.next hi
    rw [List.getElem?_eq_getElem hlt] at hget
    rw [← Option.some.inj hget]
    exact List.set_getElem_self hlt
  have hkeep := h.keep hi hp
  rwa [hset] at hkeep

theorem Compacting.skip (h : Compacting p old slots i w) (hi : i < old.length)
    (hp : p old[i] = false) : Compacting p old slots (i + 1) w where
  le := Nat.le_succ_of_le h.le
  inside := hi
  room := h.room
  kept := by
    rw [h.kept, List.take_succ_eq_append_getElem hi, List.filter_append, List.filter_singleton,
      hp, Bool.cond_false, List.append_nil]
  rest := h.rest_succ

/-- After the walk the kept elements stand at the front. -/
theorem Compacting.finish (h : Compacting p old slots i w) (hi : old.length ≤ i) :
    slots.take w = old.filter p := by
  rw [h.kept, List.take_of_length_le hi]

end Compaction
end JppDos
