import Mathlib.Data.List.Basic
import Mathlib.Tactic.Common

/-!
# Machines with outputs

A machine takes one input at a time, moves to a new state and emits a list of
outputs.  The runs of such machines, with the induction rules that carry a
property of one step to whole runs.
-/

namespace JppDos
namespace Machine

section Runs

variable {σ α β : Type*} (step : σ → α → σ × List β)

/-- The state after a list of inputs. -/
def run : σ → List α → σ
  | s, [] => s
  | s, a :: as => run (step s a).1 as

/-- Everything emitted on a list of inputs. -/
def outputs : σ → List α → List β
  | _, [] => []
  | s, a :: as => (step s a).2 ++ outputs (step s a).1 as

@[simp] theorem run_nil (s : σ) : run step s [] = s := rfl

@[simp] theorem run_cons (s : σ) (a : α) (as : List α) :
    run step s (a :: as) = run step (step s a).1 as := rfl

@[simp] theorem outputs_nil (s : σ) : outputs step s [] = [] := rfl

@[simp] theorem outputs_cons (s : σ) (a : α) (as : List α) :
    outputs step s (a :: as) = (step s a).2 ++ outputs step (step s a).1 as := rfl

theorem run_append (s : σ) (as bs : List α) :
    run step s (as ++ bs) = run step (run step s as) bs := by
  induction as generalizing s with
  | nil => rfl
  | cons a as ih => exact ih (step s a).1

theorem outputs_append (s : σ) (as bs : List α) :
    outputs step s (as ++ bs) = outputs step s as ++ outputs step (run step s as) bs := by
  induction as generalizing s with
  | nil => rfl
  | cons a as ih => simp [ih]

/-- A condition on the state and the input of every step of a run. -/
def Along (cond : σ → α → Prop) : σ → List α → Prop
  | _, [] => True
  | s, a :: as => cond s a ∧ Along cond (step s a).1 as

instance decidableAlong (cond : σ → α → Prop) [∀ s a, Decidable (cond s a)] :
    ∀ (s : σ) (as : List α), Decidable (Along step cond s as)
  | _, [] => inferInstanceAs (Decidable True)
  | s, a :: as =>
      have := decidableAlong cond (step s a).1 as
      inferInstanceAs (Decidable (cond s a ∧ Along step cond (step s a).1 as))

variable {step}

@[simp] theorem along_nil {cond : σ → α → Prop} (s : σ) : Along step cond s [] := trivial

@[simp] theorem along_cons {cond : σ → α → Prop} (s : σ) (a : α) (as : List α) :
    Along step cond s (a :: as) ↔ cond s a ∧ Along step cond (step s a).1 as := Iff.rfl

theorem along_append {cond : σ → α → Prop} (s : σ) (as bs : List α) :
    Along step cond s (as ++ bs) ↔
      Along step cond s as ∧ Along step cond (run step s as) bs := by
  induction as generalizing s with
  | nil => simp
  | cons a as ih => simp [ih, and_assoc]

theorem along_true (s : σ) (as : List α) : Along step (fun _ _ => True) s as := by
  induction as generalizing s with
  | nil => trivial
  | cons a as ih => exact ⟨trivial, ih _⟩

theorem Along.mono {cond cond' : σ → α → Prop} (h : ∀ s a, cond s a → cond' s a) {s : σ}
    {as : List α} (hs : Along step cond s as) : Along step cond' s as := by
  induction as generalizing s with
  | nil => trivial
  | cons a as ih => exact ⟨h s a hs.1, ih hs.2⟩

theorem Along.invariant {cond : σ → α → Prop} {I : σ → Prop}
    (hstep : ∀ s a, I s → cond s a → I (step s a).1) {s : σ} {as : List α}
    (h : Along step cond s as) (hs : I s) : I (run step s as) := by
  induction as generalizing s with
  | nil => exact hs
  | cons a as ih => exact ih h.2 (hstep s a hs h.1)

/-- What the admitted steps from an invariant have, all steps of an admitted run have. -/
theorem Along.of_invariant {cond cond' : σ → α → Prop} {I : σ → Prop}
    (hstep : ∀ s a, I s → cond s a → I (step s a).1 ∧ cond' s a) {s : σ} {as : List α}
    (h : Along step cond s as) (hs : I s) : Along step cond' s as := by
  induction as generalizing s with
  | nil => trivial
  | cons a as ih =>
      obtain ⟨hnext, hcond⟩ := hstep s a hs h.1
      exact ⟨hcond, ih h.2 hnext⟩

/-- Two conditions that agree in every state of an invariant, which the one keeps, agree along
every run. -/
theorem along_congr_of_admitted {cond cond' : σ → α → Prop} {I : σ → Prop}
    (hstep : ∀ s a, I s → cond s a → I (step s a).1)
    (h : ∀ s a, I s → (cond s a ↔ cond' s a)) {s : σ} (as : List α) (hs : I s) :
    Along step cond s as ↔ Along step cond' s as := by
  induction as generalizing s with
  | nil => rfl
  | cons a as ih =>
      rw [along_cons, along_cons, ← h s a hs]
      exact and_congr_right fun hcond => ih (hstep s a hs hcond)

/-- Two conditions that agree in every state of an invariant agree along every run. -/
theorem along_congr {cond cond' : σ → α → Prop} {I : σ → Prop}
    (hstep : ∀ s a, I s → I (step s a).1) (h : ∀ s a, I s → (cond s a ↔ cond' s a))
    {s : σ} (as : List α) (hs : I s) : Along step cond s as ↔ Along step cond' s as :=
  along_congr_of_admitted (fun s a hs _ => hstep s a hs) h as hs

/-- A property of all outputs is one of every step's outputs. -/
theorem forall_mem_outputs {P : β → Prop} (s : σ) (as : List α) :
    (∀ b ∈ outputs step s as, P b) ↔ Along step (fun s a => ∀ b ∈ (step s a).2, P b) s as := by
  induction as generalizing s with
  | nil => simp
  | cons a as ih => rw [outputs_cons, List.forall_mem_append, along_cons, ih]

/-- The induction rule for a relation between the state and the outputs. -/
theorem Along.monitor {cond : σ → α → Prop} {I : σ → List β → Prop}
    (hstep : ∀ s a out, I s out → cond s a → I (step s a).1 (out ++ (step s a).2))
    {s : σ} {as : List α} {out : List β} (h : Along step cond s as) (hs : I s out) :
    I (run step s as) (out ++ outputs step s as) := by
  induction as generalizing s out with
  | nil => simpa using hs
  | cons a as ih => simpa using ih h.2 (hstep s a out hs h.1)

/-- A relation that a step keeps exactly under a condition holds all along a run
exactly when all its steps meet the condition. -/
theorem along_iff {cond : σ → α → Prop} {I : σ → List β → Prop}
    (hstep : ∀ s a out, I s out → (I (step s a).1 (out ++ (step s a).2) ↔ cond s a))
    {s : σ} {as : List α} {out : List β} (hs : I s out) :
    (∀ n, I (run step s (as.take n)) (out ++ outputs step s (as.take n))) ↔
      Along step cond s as := by
  induction as generalizing s out with
  | nil => simpa using hs
  | cons a as ih =>
      rw [along_cons, ← hstep s a out hs]
      constructor
      · intro h
        have hfirst : I (step s a).1 (out ++ (step s a).2) := by simpa using h 1
        refine ⟨hfirst, (ih hfirst).mp fun n => ?_⟩
        simpa using h (n + 1)
      · rintro ⟨hfirst, hrest⟩ n
        cases n with
        | zero => simpa using hs
        | succ n => simpa using (ih hfirst).mpr hrest n

/-- A property that an invariant gives, and that fails after every step that breaks the
invariant, holds all along a run of admitted inputs exactly when all its steps meet the
condition. -/
theorem along_iff_of_admitted {cond : σ → α → Prop} {I P : σ → Prop} {Q : α → Prop}
    (hP : ∀ s, I s → P s) (hkeep : ∀ s a, Q a → I s → cond s a → I (step s a).1)
    (hbreak : ∀ s a, Q a → I s → P (step s a).1 → cond s a) {s : σ} {as : List α}
    (has : ∀ a ∈ as, Q a) (hs : I s) :
    (∀ n, P (run step s (as.take n))) ↔ Along step cond s as := by
  induction as generalizing s with
  | nil => simpa using hP s hs
  | cons a as ih =>
      have ha : Q a := has a List.mem_cons_self
      have hrest : ∀ b ∈ as, Q b := fun b hb => has b (List.mem_cons_of_mem a hb)
      constructor
      · intro h
        have hcond : cond s a := hbreak s a ha hs (by simpa using h 1)
        refine ⟨hcond, (ih hrest (hkeep s a ha hs hcond)).mp fun n => ?_⟩
        simpa using h (n + 1)
      · rintro ⟨hcond, halong⟩ n
        cases n with
        | zero => simpa using hP s hs
        | succ n => simpa using (ih hrest (hkeep s a ha hs hcond)).mpr halong n

theorem along_iff_of_invariant {cond : σ → α → Prop} {I P : σ → Prop} (hP : ∀ s, I s → P s)
    (hkeep : ∀ s a, I s → cond s a → I (step s a).1)
    (hbreak : ∀ s a, I s → P (step s a).1 → cond s a) {s : σ} {as : List α} (hs : I s) :
    (∀ n, P (run step s (as.take n))) ↔ Along step cond s as :=
  along_iff_of_admitted (Q := fun _ => True) hP (fun s a _ => hkeep s a)
    (fun s a _ => hbreak s a) (fun _ _ => trivial) hs

/-- A property that holds wherever a run is cut off. -/
def Throughout (step : σ → α → σ × List β) (P : σ → Prop) (s : σ) (as : List α) : Prop :=
  ∀ n, P (run step s (as.take n))

theorem throughout_nil {P : σ → Prop} {s : σ} : Throughout step P s [] ↔ P s := by
  simp [Throughout]

theorem throughout_cons {P : σ → Prop} {s : σ} {a : α} {as : List α} :
    Throughout step P s (a :: as) ↔ P s ∧ Throughout step P (step s a).1 as := by
  constructor
  · exact fun h => ⟨h 0, fun n => h (n + 1)⟩
  · rintro ⟨hs, h⟩ n
    cases n with
    | zero => exact hs
    | succ n => exact h n

theorem Throughout.last {P : σ → Prop} {s : σ} {as : List α} (h : Throughout step P s as) :
    P (run step s as) := by
  have hall := h as.length
  rwa [List.take_length] at hall

theorem Throughout.mono {P Q : σ → Prop} (h : ∀ s, P s → Q s) {s : σ} {as : List α}
    (hs : Throughout step P s as) : Throughout step Q s as := fun n => h _ (hs n)

/-- What every step keeps holds wherever the run is cut off. -/
theorem throughout_of_step {P : σ → Prop} {s : σ} {as : List α} (hs : P s)
    (hstep : ∀ s, ∀ a ∈ as, P s → P (step s a).1) : Throughout step P s as := by
  induction as generalizing s with
  | nil => exact throughout_nil.mpr hs
  | cons a as ih =>
      refine throughout_cons.mpr ⟨hs, ih (hstep s a List.mem_cons_self hs) ?_⟩
      exact fun s' b hb => hstep s' b (List.mem_cons_of_mem a hb)

/-- What every admitted step keeps holds wherever an admitted run is cut off. -/
theorem Along.throughout {cond : σ → α → Prop} {P : σ → Prop}
    (hstep : ∀ s a, P s → cond s a → P (step s a).1) {s : σ} {as : List α}
    (h : Along step cond s as) (hs : P s) : Throughout step P s as := by
  induction as generalizing s with
  | nil => exact throughout_nil.mpr hs
  | cons a as ih => exact throughout_cons.mpr ⟨hs, ih h.2 (hstep s a hs h.1)⟩

theorem run_invariant {I : σ → Prop} (hstep : ∀ s a, I s → I (step s a).1)
    {s : σ} (as : List α) (hs : I s) : I (run step s as) :=
  Along.invariant (fun s a h _ => hstep s a h) (along_true s as) hs

end Runs

end Machine
end JppDos
