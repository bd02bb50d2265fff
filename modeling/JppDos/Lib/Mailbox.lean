import Mathlib.Data.Multiset.AddSub
import Mathlib.Data.Multiset.Basic
import Mathlib.Tactic.Common

/-!
# Mailboxes

What a mailbox promises, in terms of what its users see: messages sent, messages
received, and reports that it is empty.
-/

namespace JppDos
namespace Mailbox

section Events

variable {μ : Type*} [DecidableEq μ]

/-- What the users of a mailbox see of it. -/
inductive Event (μ : Type*)
  /-- A message was sent. -/
  | sent (m : μ)
  /-- A message was received. -/
  | received (m : μ)
  /-- The mailbox was reported empty. -/
  | empty
  /-- A receiver got neither a message nor that report. -/
  | failed
  deriving DecidableEq

/-- What is left after an event, if the mailbox may show it. -/
def deliver (left : Multiset μ) : Event μ → Option (Multiset μ)
  | .sent m => some (m ::ₘ left)
  | .received m => if m ∈ left then some (left.erase m) else none
  | .empty => if left = 0 then some left else none
  | .failed => none

/-- What is left after a list of events, if the mailbox may show them. -/
def accept : Multiset μ → List (Event μ) → Option (Multiset μ)
  | left, [] => some left
  | left, e :: es => (deliver left e).bind fun left' => accept left' es

theorem accept_append (left : Multiset μ) (es es' : List (Event μ)) :
    accept left (es ++ es') = (accept left es).bind fun left' => accept left' es' := by
  induction es generalizing left with
  | nil => rfl
  | cons e es ih =>
      rw [List.cons_append, accept, accept, Option.bind_assoc]
      exact congrArg _ (funext fun left' => ih left')

end Events

end Mailbox
end JppDos
