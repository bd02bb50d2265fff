import Mathlib.Data.List.Basic
import Mathlib.Logic.Function.Basic
import Mathlib.Tactic.Common

/-!
# Keyed lists with two matching rules

A list of keyed entries that is read with one rule and edited with a coarser one:
a lookup finds the first entry with exactly the key, a removal takes out the first
entry whose key has the same fold (its text without case, say).

Main fact:
* `lookup_put_eq_update_iff`, `lookup_remove_eq_update_iff`: when an edit is the
  update of a finite map.
-/

namespace JppDos
namespace KeyedList

section Entries

variable {κ ν τ : Type*}

/-- The value of the first entry with exactly the key. -/
def lookup [DecidableEq κ] (entries : List (κ × ν)) (key : κ) : Option ν :=
  (entries.find? fun e => e.1 = key).map Prod.snd

/-- Take out the first entry whose key has the fold of the given one. -/
def remove [DecidableEq τ] (fold : κ → τ) (entries : List (κ × ν)) (key : κ) :
    List (κ × ν) :=
  entries.eraseP fun e => fold e.1 = fold key

/-- Take out what has the fold of the key, and append the new entry. -/
def put [DecidableEq τ] (fold : κ → τ) (entries : List (κ × ν)) (key : κ) (value : ν) :
    List (κ × ν) :=
  remove fold entries key ++ [(key, value)]

/-- The keys have distinct folds. -/
def Distinct (fold : κ → τ) (entries : List (κ × ν)) : Prop :=
  entries.Pairwise fun a b => fold a.1 ≠ fold b.1

/-- Every entry with the fold of the key has exactly the key. -/
def Alone (fold : κ → τ) (entries : List (κ × ν)) (key : κ) : Prop :=
  ∀ e ∈ entries, fold e.1 = fold key → e.1 = key

instance [DecidableEq κ] [DecidableEq τ] (fold : κ → τ) (entries : List (κ × ν)) (key : κ) :
    Decidable (Alone fold entries key) :=
  inferInstanceAs (Decidable (∀ e ∈ entries, fold e.1 = fold key → e.1 = key))

theorem remove_cons [DecidableEq τ] (fold : κ → τ) (e : κ × ν) (entries : List (κ × ν))
    (key : κ) :
    remove fold (e :: entries) key =
      if fold e.1 = fold key then entries else e :: remove fold entries key := by
  by_cases h : fold e.1 = fold key <;> simp [remove, h]

theorem Distinct.remove [DecidableEq τ] {fold : κ → τ} {entries : List (κ × ν)}
    (h : Distinct fold entries) (key : κ) : Distinct fold (remove fold entries key) :=
  List.Pairwise.sublist List.eraseP_sublist h

theorem fold_ne_of_mem_remove [DecidableEq τ] {fold : κ → τ} {entries : List (κ × ν)}
    (h : Distinct fold entries) {key : κ} {e : κ × ν}
    (he : e ∈ KeyedList.remove fold entries key) : fold e.1 ≠ fold key := by
  induction entries with
  | nil => simp [KeyedList.remove] at he
  | cons first entries ih =>
      obtain ⟨hfirst, hrest⟩ := List.pairwise_cons.mp h
      rw [remove_cons] at he
      split at he
      · rename_i hmatch
        rw [← hmatch]
        exact (hfirst e he).symm
      · rename_i hmatch
        rcases List.mem_cons.mp he with rfl | he
        · exact hmatch
        · exact ih hrest he

theorem Distinct.put [DecidableEq τ] {fold : κ → τ} {entries : List (κ × ν)}
    (h : Distinct fold entries) (key : κ) (value : ν) :
    Distinct fold (put fold entries key value) := by
  refine List.pairwise_append.mpr ⟨h.remove key, List.pairwise_singleton _ _, ?_⟩
  intro e he new hnew
  obtain rfl := List.mem_singleton.mp hnew
  exact fold_ne_of_mem_remove h he

variable [DecidableEq κ]

@[simp] theorem lookup_nil (key : κ) : lookup ([] : List (κ × ν)) key = none := rfl

theorem lookup_cons (e : κ × ν) (entries : List (κ × ν)) (key : κ) :
    lookup (e :: entries) key = if e.1 = key then some e.2 else lookup entries key := by
  by_cases h : e.1 = key <;> simp [lookup, h]

theorem lookup_append (entries more : List (κ × ν)) (key : κ) :
    lookup (entries ++ more) key = (lookup entries key).or (lookup more key) := by
  induction entries with
  | nil => rfl
  | cons e entries ih =>
      rw [List.cons_append, lookup_cons, lookup_cons, ih]
      split <;> rfl

theorem lookup_eq_none_iff {entries : List (κ × ν)} {key : κ} :
    lookup entries key = none ↔ ∀ e ∈ entries, e.1 ≠ key := by
  simp [lookup]

variable [DecidableEq τ] {fold : κ → τ} {entries : List (κ × ν)}

/-- A removal makes every key absent that has the fold of the given one, and no other. -/
theorem lookup_remove (h : Distinct fold entries) (key other : κ) :
    lookup (remove fold entries key) other =
      if fold other = fold key then none else lookup entries other := by
  split
  · rename_i hother
    refine lookup_eq_none_iff.mpr fun e he heq => fold_ne_of_mem_remove h he ?_
    rw [heq, hother]
  · rename_i hother
    clear h
    induction entries with
    | nil => rfl
    | cons first entries ih =>
        rw [remove_cons]
        split
        · rename_i hmatch
          rw [lookup_cons, if_neg]
          rintro rfl
          exact hother hmatch
        · rw [lookup_cons, lookup_cons, ih]

/-- A put gives the key its value, makes absent what else has its fold, and keeps the
rest. -/
theorem lookup_put (h : Distinct fold entries) (key : κ) (value : ν) (other : κ) :
    lookup (put fold entries key value) other =
      if other = key then some value
      else if fold other = fold key then none else lookup entries other := by
  rw [put, lookup_append, lookup_remove h, lookup_cons, lookup_nil]
  by_cases hkey : other = key
  · rw [if_pos hkey, if_pos hkey.symm, if_pos (congrArg fold hkey), Option.none_or]
  · rw [if_neg hkey, if_neg (Ne.symm hkey), Option.or_none]

/-- The keys that an edit takes along are exactly those that are not alone. -/
theorem alone_iff (key : κ) :
    Alone fold entries key ↔
      ∀ other, other ≠ key →
        lookup entries other = if fold other = fold key then none else lookup entries other := by
  constructor
  · intro halone other hne
    split
    · rename_i hfold
      refine lookup_eq_none_iff.mpr ?_
      rintro e he rfl
      exact hne (halone e he hfold)
    · rfl
  · intro h e he hfold
    by_contra hne
    have hnone := h e.1 hne
    rw [if_pos hfold, lookup_eq_none_iff] at hnone
    exact hnone e he rfl

/-- A put is the update of a finite map exactly when the key is alone. -/
theorem lookup_put_eq_update_iff (h : Distinct fold entries) (key : κ) (value : ν) :
    lookup (put fold entries key value) = Function.update (lookup entries) key (some value) ↔
      Alone fold entries key := by
  rw [alone_iff, funext_iff]
  refine forall_congr' fun other => ?_
  rw [lookup_put h]
  by_cases hkey : other = key
  · subst hkey
    simp
  · rw [if_neg hkey, Function.update_of_ne hkey, eq_comm]
    exact ⟨fun heq _ => heq, fun heq => heq hkey⟩

/-- A removal is the update of a finite map exactly when the key is alone. -/
theorem lookup_remove_eq_update_iff (h : Distinct fold entries) (key : κ) :
    lookup (remove fold entries key) = Function.update (lookup entries) key none ↔
      Alone fold entries key := by
  rw [alone_iff, funext_iff]
  refine forall_congr' fun other => ?_
  rw [lookup_remove h]
  by_cases hkey : other = key
  · subst hkey
    simp
  · rw [Function.update_of_ne hkey, eq_comm]
    exact ⟨fun heq _ => heq, fun heq => heq hkey⟩

end Entries

end KeyedList
end JppDos
