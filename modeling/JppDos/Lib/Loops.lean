import Mathlib.Logic.Relation

/-!
# Counted loops that may stop

A loop over `n` indices from `i` on.  Every turn works on the state and may end the loop with a
failure.

Main fact:
* `turn_of_loop`: when the loop does not fail, none of its turns did.
-/

namespace JppDos
namespace Loops

section Loop

variable {σ ε : Type} (turn : Nat → σ → Option ε × σ)

/-- The loop: how it failed, and the state. -/
def loop : Nat → Nat → σ → Option ε × σ
  | 0, _, s => (none, s)
  | n + 1, i, s =>
      match turn i s with
      | (some e, s) => (some e, s)
      | (none, s) => loop n (i + 1) s

/-- The turns that are made: their indices, and the states before them. -/
def visited : Nat → Nat → σ → List (Nat × σ)
  | 0, _, _ => []
  | n + 1, i, s =>
      (i, s) ::
        match turn i s with
        | (some _, _) => []
        | (none, s) => visited n (i + 1) s

variable {turn}

theorem visited_next {n i : Nat} {s s' : σ} (h : turn i s = (none, s')) :
    visited turn (n + 1) i s = (i, s) :: visited turn n (i + 1) s' := by
  rw [visited, h]

theorem loop_relates {R : σ → σ → Prop} (refl : ∀ s, R s s)
    (trans : ∀ {s s' s''}, R s s' → R s' s'' → R s s'') (n : Nat) :
    ∀ {i : Nat} {s : σ}, (∀ p ∈ visited turn n i s, R p.2 (turn p.1 p.2).2) →
      R s (loop turn n i s).2 := by
  induction n with
  | zero => exact fun _ => refl _
  | succ n ih =>
      intro i s hturns
      have hfirst : R s (turn i s).2 := hturns (i, s) (by rw [visited]; exact List.mem_cons_self ..)
      cases hturn : turn i s with
      | mk failure s' =>
          rw [hturn] at hfirst
          cases failure with
          | some e =>
              rw [loop, hturn]
              exact hfirst
          | none =>
              rw [visited_next hturn] at hturns
              rw [loop, hturn]
              exact trans hfirst (ih fun p hp => hturns p (List.mem_cons_of_mem _ hp))

/-- The turns of a loop that does not fail do not fail. -/
theorem turn_of_loop (n : Nat) :
    ∀ {i : Nat} {s s' : σ}, loop turn n i s = (none, s') →
      ∀ p ∈ visited turn n i s, (turn p.1 p.2).1 = none := by
  induction n with
  | zero => exact fun _ p hp => absurd hp (by rw [visited]; exact List.not_mem_nil)
  | succ n ih =>
      intro i s s' hloop p hp
      rw [loop] at hloop
      cases hturn : turn i s with
      | mk failure s₁ =>
          rw [hturn] at hloop
          cases failure with
          | some e => cases hloop
          | none =>
              rw [visited_next hturn] at hp
              rcases List.mem_cons.mp hp with rfl | hp
              · rw [hturn]
              · exact ih hloop p hp

end Loop

end Loops
end JppDos
