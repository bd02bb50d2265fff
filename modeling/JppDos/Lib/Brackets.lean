import Mathlib.Data.List.Basic
import Mathlib.Tactic.Common

/-!
# Brackets with a label

Sequences of marks that open, continue and close a group, where at most one group
is open at a time and all marks of a group have its label.

Main fact:
* `track_eq_some_iff`: what `track` accepts are exactly complete groups followed by
  the part of one that is still open.
-/

namespace JppDos
namespace Brackets

variable {κ : Type*}

/-- A mark with the label of its group. -/
inductive Mark (κ : Type*) where
  | opens (k : κ)
  | within (k : κ)
  | closes (k : κ)
deriving Repr, DecidableEq

/-- The group open after a sequence, if the sequence is bracketed. -/
def track [DecidableEq κ] : Option κ → List (Mark κ) → Option (Option κ)
  | o, [] => some o
  | none, .opens k :: ms => track (some k) ms
  | some k, .within j :: ms => if j = k then track (some k) ms else none
  | some k, .closes j :: ms => if j = k then track none ms else none
  | none, .within _ :: _ => none
  | none, .closes _ :: _ => none
  | some _, .opens _ :: _ => none

/-- A group that has been opened and continued `n` times. -/
def openGroup (k : κ) (n : Nat) : List (Mark κ) := .opens k :: List.replicate n (.within k)

/-- A complete group. -/
def group (k : κ) (n : Nat) : List (Mark κ) := openGroup k n ++ [.closes k]

/-- Complete groups. -/
def groups (gs : List (κ × Nat)) : List (Mark κ) := gs.flatMap fun g => group g.1 g.2

/-- Complete groups, and the front of a group that is still open. -/
def Bracketed : Option κ → List (Mark κ) → Prop
  | none, ms => ∃ gs, ms = groups gs
  | some k, ms => ∃ gs n, ms = groups gs ++ openGroup k n

section Track

attribute [local simp] track

variable [DecidableEq κ]

theorem track_append (o : Option κ) (ms ns : List (Mark κ)) :
    track o (ms ++ ns) = (track o ms).bind fun o => track o ns := by
  induction ms generalizing o with
  | nil => rfl
  | cons m ms ih =>
      cases o <;> cases m <;> simp only [List.cons_append, track, Option.bind_none]
      · exact ih _
      · split_ifs
        exacts [ih _, rfl]
      · split_ifs
        exacts [ih _, rfl]

theorem track_within (k : κ) (n : Nat) :
    track (some k) (List.replicate n (.within k)) = some (some k) := by
  induction n with
  | zero => rfl
  | succ n ih =>
      rw [List.replicate_succ, track, if_pos rfl]
      exact ih

theorem track_groups (gs : List (κ × Nat)) : track none (groups gs) = some none := by
  induction gs with
  | nil => rfl
  | cons g gs ih =>
      have hgroup : track none (group g.1 g.2) = some none := by
        rw [group, openGroup, List.cons_append, track, track_append, track_within]
        simp [track]
      rw [groups, List.flatMap_cons, track_append, hgroup]
      exact ih

theorem Bracketed.snoc {o o' : Option κ} {ms : List (Mark κ)} {m : Mark κ}
    (h : Bracketed o ms) (hm : track o [m] = some o') : Bracketed o' (ms ++ [m]) := by
  cases o with
  | none =>
      obtain ⟨gs, rfl⟩ := h
      cases m with
      | opens k =>
          obtain rfl := Option.some.inj hm
          exact ⟨gs, 0, rfl⟩
      | within k => simp [track] at hm
      | closes k => simp [track] at hm
  | some k =>
      obtain ⟨gs, n, rfl⟩ := h
      cases m with
      | opens j => simp [track] at hm
      | within j =>
          simp only [track] at hm
          split_ifs at hm with hj
          obtain rfl := Option.some.inj hm
          subst hj
          refine ⟨gs, n + 1, ?_⟩
          rw [openGroup, openGroup, List.replicate_succ']
          simp
      | closes j =>
          simp only [track] at hm
          split_ifs at hm with hj
          obtain rfl := Option.some.inj hm
          subst hj
          refine ⟨gs ++ [(j, n)], ?_⟩
          simp [groups, group]

theorem Bracketed.of_track {o o' : Option κ} {ms ns : List (Mark κ)} (h : Bracketed o ms)
    (hns : track o ns = some o') : Bracketed o' (ms ++ ns) := by
  induction ns generalizing o ms with
  | nil =>
      obtain rfl := Option.some.inj hns
      simpa using h
  | cons m ns ih =>
      have hsplit : track o [m] >>= (fun o => track o ns) = some o' := by
        rw [← hns]
        exact (track_append o [m] ns).symm
      obtain ⟨o₁, hm, hrest⟩ := Option.bind_eq_some_iff.mp hsplit
      have := ih (h.snoc hm) hrest
      rwa [List.append_assoc] at this

/-- What `track` accepts are complete groups and the front of an open one. -/
theorem track_eq_some_iff {o : Option κ} {ms : List (Mark κ)} :
    track none ms = some o ↔ Bracketed o ms := by
  constructor
  · intro h
    have hnil : Bracketed (none : Option κ) [] := ⟨[], rfl⟩
    exact hnil.of_track h
  · intro h
    cases o with
    | none =>
        obtain ⟨gs, rfl⟩ := h
        exact track_groups gs
    | some k =>
        obtain ⟨gs, n, rfl⟩ := h
        rw [track_append, track_groups]
        exact track_within k n

end Track

end Brackets
end JppDos
