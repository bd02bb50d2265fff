import Mathlib.Tactic.Common

/-!
# Programs with a state that may stop with an error

Programs in the style of C functions that return a status: they change a state, and they
either go on with a value or stop with an error.  Their specifications are triples with one
condition for the value and one for the error.

Main fact:
* `Triple.zoom`: a program on a part of the state, with what it leaves alone.
-/

namespace JppDos

/-- A program with states `σ` and errors `ε`. -/
abbrev Prog (ε σ : Type) (α : Type) := ExceptT ε (StateM σ) α

namespace Prog

variable {ε σ α β : Type}

/-- The result and the state behind a program. -/
def exec (m : Prog ε σ α) (s : σ) : Except ε α × σ := m.run.run s

/-- Stop with an error unless a condition holds. -/
def check (cond : Bool) (e : ε) : Prog ε σ Unit := if cond then pure () else throw e

/-- Read the state. -/
def read : Prog ε σ σ := fun s => (.ok s, s)

/-- Change the state. -/
def update (f : σ → σ) : Prog ε σ Unit := fun s => (.ok (), f s)

@[simp] theorem exec_pure (a : α) (s : σ) : exec (pure a : Prog ε σ α) s = (.ok a, s) := rfl

@[simp] theorem exec_throw (e : ε) (s : σ) :
    exec (throw e : Prog ε σ α) s = (.error e, s) := rfl

@[simp] theorem exec_read (s : σ) : exec (read : Prog ε σ σ) s = (.ok s, s) := rfl

@[simp] theorem exec_update (f : σ → σ) (s : σ) :
    exec (update f : Prog ε σ Unit) s = (.ok (), f s) := rfl

/-- The second program runs when the first has gone on with a value. -/
theorem exec_bind (m : Prog ε σ α) (k : α → Prog ε σ β) (s : σ) :
    exec (m >>= k) s =
      match exec m s with
      | (.ok a, s') => exec (k a) s'
      | (.error e, s') => (.error e, s') := by
  change (ExceptT.run (m >>= k)).run s = _
  rw [ExceptT.run_bind]
  cases h : exec m s with
  | mk r s' =>
      have hm : (ExceptT.run m).run s = (r, s') := h
      rw [StateT.run_bind, hm]
      cases r <;> rfl

theorem exec_check (cond : Bool) (e : ε) (s : σ) :
    exec (check cond e : Prog ε σ Unit) s = if cond then (.ok (), s) else (.error e, s) := by
  cases cond <;> rfl

/-- A program on a part of the state. -/
def zoom {τ : Type} (get : τ → σ) (set : σ → τ → τ) (m : Prog ε σ α) : Prog ε τ α := fun s =>
  let (result, part) := exec m (get s)
  (result, set part s)

@[simp] theorem exec_zoom {τ : Type} (get : τ → σ) (set : σ → τ → τ) (m : Prog ε σ α) (s : τ) :
    exec (zoom get set m) s = ((exec m (get s)).1, set (exec m (get s)).2 s) := rfl

/-- Whenever `P` holds before `m`, `Q` holds behind it if it goes on, and `E` if it stops. -/
def Triple (P : σ → Prop) (m : Prog ε σ α) (Q : α → σ → Prop) (E : ε → σ → Prop) : Prop :=
  ∀ s, P s →
    match exec m s with
    | (.ok a, s') => Q a s'
    | (.error e, s') => E e s'

namespace Triple

variable {P P' : σ → Prop} {Q Q' : α → σ → Prop} {E E' : ε → σ → Prop} {m : Prog ε σ α}

theorem conseq (h : Triple P m Q E) (hP : ∀ s, P' s → P s) (hQ : ∀ a s, Q a s → Q' a s)
    (hE : ∀ e s, E e s → E' e s) : Triple P' m Q' E' := by
  intro s hs
  have hm := h s (hP s hs)
  cases hexec : exec m s with
  | mk r s' =>
      rw [hexec] at hm
      cases r with
      | ok a => exact hQ a s' hm
      | error e => exact hE e s' hm

/-- A condition that holds behind a program however it ends. -/
theorem final {I : σ → Prop} (h : Triple P m (fun _ => I) (fun _ => I)) {s : σ} (hs : P s) :
    I (exec m s).2 := by
  have hm := h s hs
  cases hexec : exec m s with
  | mk r s' =>
      rw [hexec] at hm
      cases r <;> exact hm

theorem pure {a : α} (h : ∀ s, P s → Q a s) :
    Triple P (Pure.pure a : Prog ε σ α) Q E := fun s hs => h s hs

theorem throw {e : ε} (h : ∀ s, P s → E e s) :
    Triple P (MonadExcept.throw e : Prog ε σ α) Q E := fun s hs => h s hs

theorem bind {k : α → Prog ε σ β} {R : β → σ → Prop} (hm : Triple P m Q E)
    (hk : ∀ a, Triple (Q a) (k a) R E) : Triple P (m >>= k) R E := by
  intro s hs
  rw [exec_bind]
  have hmid := hm s hs
  cases hexec : exec m s with
  | mk r s' =>
      rw [hexec] at hmid
      cases r with
      | ok a => exact hk a s' hmid
      | error e => exact hmid

theorem check {cond : Bool} {e : ε} {R : Unit → σ → Prop} (hgo : ∀ s, P s → cond = true → R () s)
    (hstop : ∀ s, P s → cond = false → E e s) :
    Triple P (Prog.check cond e : Prog ε σ Unit) R E := by
  intro s hs
  rw [exec_check]
  cases hcond : cond with
  | true => exact hgo s hs hcond
  | false => exact hstop s hs hcond

theorem read_bind {k : σ → Prog ε σ β} {R : β → σ → Prop}
    (h : ∀ s, P s → Triple (· = s) (k s) R E) : Triple P (Prog.read >>= k) R E := by
  intro s hs
  rw [exec_bind, exec_read]
  exact h s hs s rfl

/-- The same where only the condition on the state matters behind the read. -/
theorem read_then {k : σ → Prog ε σ β} {R : β → σ → Prop}
    (h : ∀ s, P s → Triple P (k s) R E) : Triple P (Prog.read >>= k) R E :=
  read_bind fun s hs => conseq (h s hs) (fun _ heq => heq ▸ hs) (fun _ _ h => h) fun _ _ h => h

theorem update {f : σ → σ} {R : Unit → σ → Prop} (h : ∀ s, P s → R () (f s)) :
    Triple P (Prog.update f : Prog ε σ Unit) R E := fun s hs => h s hs

/-- A program on a part of the state, with a condition that does not look at that part. -/
theorem zoom {τ : Type} {get : τ → σ} {set : σ → τ → τ} {F : τ → Prop} (h : Triple P m Q E)
    (hget : ∀ part s, get (set part s) = part) (hframe : ∀ part s, F s → F (set part s)) :
    Triple (fun s => P (get s) ∧ F s) (Prog.zoom get set m) (fun a s => Q a (get s) ∧ F s)
      (fun e s => E e (get s) ∧ F s) := by
  rintro s ⟨hs, hF⟩
  have hm := h (get s) hs
  rw [exec_zoom]
  cases hexec : exec m (get s) with
  | mk r part =>
      rw [hexec] at hm
      cases r with
      | ok a => exact ⟨(hget part s).symm ▸ hm, hframe part s hF⟩
      | error e => exact ⟨(hget part s).symm ▸ hm, hframe part s hF⟩

end Triple

end Prog
end JppDos
