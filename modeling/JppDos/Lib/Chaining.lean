import Mathlib.Tactic.Common

/-!
# Chained blocks

A mode of a block cipher that masks every block twice: what goes in with the block that came
out last, and what comes out with the block that went in last.

Main facts:
* `chain_chain`: with the two first masks exchanged, the mode of the inverse block function
  takes the blocks back.
-/

namespace JppDos
namespace Chaining

universe u

variable {β : Type u} (mask : β → β → β)

/-- The blocks that come out, after the one that came out last and the one that went in. -/
def chain (f : β → β) : β → β → List β → List β
  | _, _, [] => []
  | out, inp, b :: bs =>
      mask (f (mask b out)) inp :: chain f (mask (f (mask b out)) inp) b bs

@[simp] theorem chain_nil (f : β → β) (out inp : β) : chain mask f out inp [] = [] := rfl

theorem chain_cons (f : β → β) (out inp b : β) (bs : List β) :
    chain mask f out inp (b :: bs) =
      mask (f (mask b out)) inp :: chain mask f (mask (f (mask b out)) inp) b bs := rfl

/-- With the two first masks exchanged, the mode of the inverse takes the blocks back. -/
theorem chain_chain {f g : β → β} (hmask : ∀ a b, mask (mask a b) b = a)
    (hinv : ∀ b, g (f b) = b) (out inp : β) (bs : List β) :
    chain mask g inp out (chain mask f out inp bs) = bs := by
  induction bs generalizing out inp with
  | nil => rfl
  | cons b bs ih =>
      have hback : mask (g (mask (mask (f (mask b out)) inp) inp)) out = b := by
        rw [hmask, hinv, hmask]
      rw [chain_cons, chain_cons, hback, ih]

end Chaining
end JppDos
