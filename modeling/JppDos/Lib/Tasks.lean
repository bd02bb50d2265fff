import Mathlib.Tactic.Common

/-!
# Tasks of atomic actions

Programs of tasks that share a state.  A program performs one atomic action after the other,
and what it does next depends on the answers.  Between two actions the other tasks may change
the state.

What a program does under the changes of the others is said with two relations: it relies on
`R` for the changes between its actions, and it guarantees `G` for its own.

Main fact:
* `Runs.of_all`: a program all of whose actions keep a condition.
-/

namespace JppDos

/-- A program of actions: it performs one, is given the answer, and goes on. -/
inductive Task (A : Type) (B : A → Type) (α : Type) where
  | done (a : α)
  | act (a : A) (k : B a → Task A B α)

namespace Task

variable {A : Type} {B : A → Type} {α β : Type}

/-- Programs in a row. -/
def bind : Task A B α → (α → Task A B β) → Task A B β
  | done a, f => f a
  | act a k, f => act a fun b => (k b).bind f

instance : Monad (Task A B) where
  pure := done
  bind := bind

/-- One action. -/
def perform (a : A) : Task A B (B a) := act a done

@[simp] theorem pure_eq (a : α) : (pure a : Task A B α) = done a := rfl

@[simp] theorem done_bind (a : α) (f : α → Task A B β) : done a >>= f = f a := rfl

@[simp] theorem act_bind (a : A) (k : B a → Task A B α) (f : α → Task A B β) :
    act a k >>= f = act a fun b => k b >>= f := rfl

@[simp] theorem perform_bind (a : A) (f : B a → Task A B β) : perform a >>= f = act a f := rfl

/-- The program has come to its end. -/
def isDone : Task A B α → Bool
  | done _ => true
  | act _ _ => false

theorem isDone_iff {t : Task A B Unit} : t.isDone = true ↔ t = done () := by
  cases t with
  | done a => simp [isDone]
  | act a k => simp [isDone]

/-- The action that comes next. -/
def next : Task A B α → Option A
  | done _ => none
  | act a _ => some a

/-- What a program returns, and the actions it performs, where each action has a fixed
answer. -/
def outcome (answer : (a : A) → B a) : Task A B α → α × List A
  | done a => (a, [])
  | act a k =>
      let (value, rest) := (k (answer a)).outcome answer
      (value, a :: rest)

@[simp] theorem outcome_done (answer : (a : A) → B a) (a : α) :
    (done a : Task A B α).outcome answer = (a, []) := rfl

@[simp] theorem outcome_act (answer : (a : A) → B a) (a : A) (k : B a → Task A B α) :
    (act a k).outcome answer =
      (((k (answer a)).outcome answer).1, a :: ((k (answer a)).outcome answer).2) := rfl

@[simp] theorem outcome_perform (answer : (a : A) → B a) (a : A) :
    (perform a : Task A B (B a)).outcome answer = (answer a, [a]) := rfl

theorem outcome_bind (answer : (a : A) → B a) (t : Task A B α) (f : α → Task A B β) :
    (t >>= f).outcome answer =
      (((f (t.outcome answer).1).outcome answer).1,
        (t.outcome answer).2 ++ ((f (t.outcome answer).1).outcome answer).2) := by
  induction t with
  | done a => rfl
  | act a k ih => rw [act_bind, outcome_act, ih]; rfl

/-- Every action that the program may still perform satisfies `P`. -/
def All (P : A → Prop) : Task A B α → Prop
  | done _ => True
  | act a k => P a ∧ ∀ b, (k b).All P

@[simp] theorem all_done (P : A → Prop) (a : α) : (done a : Task A B α).All P := trivial

@[simp] theorem all_act (P : A → Prop) (a : A) (k : B a → Task A B α) :
    (act a k).All P ↔ P a ∧ ∀ b, (k b).All P := Iff.rfl

@[simp] theorem all_perform (P : A → Prop) (a : A) :
    (perform a : Task A B (B a)).All P ↔ P a := by
  simp [perform]

theorem All.mono {P P' : A → Prop} (h : ∀ a, P a → P' a) {t : Task A B α} (ht : t.All P) :
    t.All P' := by
  induction t with
  | done a => trivial
  | act a k ih => exact ⟨h a ht.1, fun b => ih b (ht.2 b)⟩

theorem all_bind {P : A → Prop} {t : Task A B α} {f : α → Task A B β} (ht : t.All P)
    (hf : ∀ a, (f a).All P) : (t >>= f).All P := by
  induction t with
  | done a => exact hf a
  | act a k ih => exact ⟨ht.1, fun b => ih b (ht.2 b)⟩

theorem all_forM {P : A → Prop} {γ : Type} {f : γ → Task A B PUnit} (xs : List γ)
    (hf : ∀ x ∈ xs, (f x).All P) : (xs.forM f).All P := by
  induction xs with
  | nil => trivial
  | cons x xs ih =>
      refine all_bind (hf x List.mem_cons_self) fun _ => ih fun y hy => ?_
      exact hf y (List.mem_cons_of_mem x hy)

/-- No action `P` comes before an action `stop`. -/
def Guards (stop P : A → Prop) : Task A B α → Prop
  | done _ => True
  | act a k => ¬ P a ∧ (stop a ∨ ∀ b, (k b).Guards stop P)

theorem guards_of_all {stop P : A → Prop} {t : Task A B α} (h : t.All fun a => ¬ P a) :
    t.Guards stop P := by
  induction t with
  | done a => trivial
  | act a k ih => exact ⟨h.1, Or.inr fun b => ih b (h.2 b)⟩

theorem guards_bind {stop P : A → Prop} {t : Task A B α} {f : α → Task A B β}
    (ht : t.Guards stop P) (hf : ∀ a, (f a).Guards stop P) : (t >>= f).Guards stop P := by
  induction t with
  | done a => exact hf a
  | act a k ih => exact ⟨ht.1, ht.2.imp id fun hk b => ih b (hk b)⟩

/-- Every action satisfies `P` until what is left of the program satisfies `stop`. -/
def Until (P : A → Prop) (stop : Task A B α → Prop) : Task A B α → Prop
  | done _ => True
  | act a k => stop (act a k) ∨ P a ∧ ∀ b, (k b).Until P stop

theorem until_of_all {P : A → Prop} {stop : Task A B α → Prop} {t : Task A B α} (h : t.All P) :
    t.Until P stop := by
  induction t with
  | done a => trivial
  | act a k ih => exact Or.inr ⟨h.1, fun b => ih b (h.2 b)⟩

theorem until_bind {P : A → Prop} {stop : Task A B β → Prop} {t : Task A B α}
    {f : α → Task A B β} (ht : t.All P) (hf : ∀ a, (f a).Until P stop) :
    (t >>= f).Until P stop := by
  induction t with
  | done a => exact hf a
  | act a k ih => exact Or.inr ⟨ht.1, fun b => ih b (ht.2 b)⟩

section Shared

variable {ι σ : Type} (step : (a : A) → ι → σ → Option (B a × σ))

/-- The next action of a program, with what the surroundings have to say to it. -/
def advance : Task A B α → ι → σ → Option (Task A B α × σ)
  | done _, _, _ => none
  | act a k, i, s => (step a i s).map fun r => (k r.1, r.2)

/-- Under changes `R` of the others, the program makes only changes `G`, and ends in `Q`. -/
def Runs (R G : σ → σ → Prop) (Q : α → σ → Prop) : Task A B α → σ → Prop
  | done a, s => ∀ s', R s s' → Q a s'
  | act a k, s => ∀ s', R s s' → ∀ i b s'', step a i s' = some (b, s'') →
      G s' s'' ∧ Runs R G Q (k b) s''

variable {step} {R R' G G' : σ → σ → Prop} {Q Q' : α → σ → Prop} {t : Task A B α} {s s' : σ}

theorem runs_done {a : α} (h : ∀ s', R s s' → Q a s') :
    Runs step R G Q (done a : Task A B α) s := h

theorem Runs.act {a : A} {k : B a → Task A B α}
    (h : ∀ s', R s s' → ∀ i b s'', step a i s' = some (b, s'') →
      G s' s'' ∧ Runs step R G Q (k b) s'') :
    Runs step R G Q (act a k) s := h

/-- The program may go on after a change of the others. -/
theorem Runs.rely (htrans : ∀ s₁ s₂ s₃, R s₁ s₂ → R s₂ s₃ → R s₁ s₃)
    (h : Runs step R G Q t s) (hs : R s s') : Runs step R G Q t s' := by
  cases t with
  | done a => exact fun s'' hs'' => h s'' (htrans _ _ _ hs hs'')
  | act a k => exact fun s'' hs'' => h s'' (htrans _ _ _ hs hs'')

/-- Fewer changes of the others, more of its own, and weaker conditions at the end. -/
theorem Runs.conseq (h : Runs step R G Q t s) (hR : ∀ s s', R' s s' → R s s')
    (hG : ∀ s s', G s s' → G' s s') (hQ : ∀ a s, Q a s → Q' a s) :
    Runs step R' G' Q' t s := by
  induction t generalizing s with
  | done a => exact fun s' hs => hQ a s' (h s' (hR _ _ hs))
  | act a k ih =>
      intro s' hs i b s'' hact
      obtain ⟨hG', hk⟩ := h s' (hR _ _ hs) i b s'' hact
      exact ⟨hG _ _ hG', ih b hk⟩

theorem Runs.bind (hrefl : ∀ s, R s s) {f : α → Task A B β} {Q' : β → σ → Prop}
    (h : Runs step R G Q t s) (hf : ∀ a s, Q a s → Runs step R G Q' (f a) s) :
    Runs step R G Q' (t >>= f) s := by
  induction t generalizing s with
  | done a => exact hf a s (h s (hrefl s))
  | act a k ih =>
      intro s' hs i b s'' hact
      obtain ⟨hG', hk⟩ := h s' hs i b s'' hact
      exact ⟨hG', ih b hk⟩

/-- A program all of whose actions keep a condition that the others keep too. -/
theorem Runs.of_all {I : σ → Prop} (hI : ∀ s s', I s → R s s' → I s')
    (h : t.All fun a => ∀ s i b s', I s → step a i s = some (b, s') → G s s' ∧ I s')
    (hs : I s) : Runs step R G (fun _ => I) t s := by
  induction t generalizing s with
  | done a => exact fun s' hR => hI s s' hs hR
  | act a k ih =>
      intro s' hR i b s'' hact
      obtain ⟨hG, hs''⟩ := h.1 s' i b s'' (hI s s' hs hR) hact
      exact ⟨hG, ih b (h.2 b) hs''⟩

theorem advance_eq_some {i : ι} {t' : Task A B α}
    (hstep : t.advance step i s = some (t', s')) :
    ∃ a k b, t = .act a k ∧ step a i s = some (b, s') ∧ t' = k b := by
  cases t with
  | done a => simp [Task.advance] at hstep
  | act a k =>
      obtain ⟨⟨b, s''⟩, hact, heq⟩ := Option.map_eq_some_iff.mp hstep
      obtain ⟨rfl, rfl⟩ := Prod.mk.inj heq
      exact ⟨a, k, b, rfl, hact, rfl⟩

end Shared

end Task
end JppDos
