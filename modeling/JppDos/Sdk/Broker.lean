import Mathlib.Data.List.Basic
import Mathlib.Tactic.Common

/-!
# The broker

The results that services hand back, a table of key and value pointers, and the named
locks under which the services run.

Main fact:
* `runExclusive_obtainable`, `runExclusive_refused`: an operation runs exactly when its lock
  can be taken at the call.
-/

namespace JppDos
namespace Sdk

/-- `jpp_broker_status_t`. -/
inductive BrokerStatus
  | ok
  | invalidArgument
  | fieldOverflow
  deriving DecidableEq

/-- `jpp_sdk_status_t`. -/
inductive SdkStatus
  | ok
  | invalidArgument
  | invalidState
  | accessDenied
  | textTruncated
  | brokerError
  | handleLimit
  | invalidHandle
  | bleConnLimit
  | invalidBleConn
  | noData
  deriving DecidableEq

/-- `jpp_broker_result_t`; the fields hold pointers of the type `π`. -/
structure BrokerResult (π : Type) where
  ok : Bool
  code : String
  fields : List (π × π)
  deriving DecidableEq

/-- `JPP_BROKER_RESULT_FIELD_CAPACITY`. -/
def resultFieldCapacity : Nat := 8

section Results

variable {π : Type}

/-- `jpp_broker_ok_result`. -/
def okResult : BrokerResult π := { ok := true, code := "OK", fields := [] }

/-- `jpp_broker_error_result`. -/
def errorResult (code : String) : BrokerResult π := { ok := false, code := code, fields := [] }

/-- `jpp_broker_result_put`. -/
def resultPut (result : BrokerResult π) (key value : π) : BrokerStatus × BrokerResult π :=
  if resultFieldCapacity ≤ result.fields.length then (.fieldOverflow, result)
  else (.ok, { result with fields := result.fields ++ [(key, value)] })

/-- `jpp_broker_result_get`: the keys are compared as the memory holds them now. -/
def resultGet {τ : Type} [DecidableEq τ] (memory : π → τ) (result : BrokerResult π)
    (key : τ) : Option π :=
  (result.fields.find? fun f => memory f.1 = key).map Prod.snd

end Results

/-- `jpp_broker_lock_entry_t`. -/
structure LockEntry where
  resource : String
  locked : Bool
  deriving DecidableEq

/-- The used entries of a `jpp_broker_lock_set_t`. -/
abbrev LockSet := List LockEntry

/-- `JPP_BROKER_LOCK_CAPACITY`. -/
def lockCapacity : Nat := 8

/-- `jpp_broker_find_lock`. -/
def findLock (locks : LockSet) (resource : String) : Option LockEntry :=
  locks.find? fun e => e.resource == resource

/-- Write the `locked` field of the entry of a resource. -/
def setLocked (resource : String) (locked : Bool) : LockSet → LockSet
  | [] => []
  | e :: locks =>
      if e.resource == resource then { e with locked := locked } :: locks
      else e :: setLocked resource locked locks

section Exclusive

variable {π σ : Type}

/-- The call of the operation between taking and leaving the lock. -/
def runLocked (resource : String) (operation : σ → BrokerStatus × BrokerResult π × σ)
    (locks : LockSet) (s : σ) : BrokerStatus × Option (BrokerResult π) × LockSet × σ :=
  let held := setLocked resource true locks
  let (status, result, s') := operation s
  (status, some result, setLocked resource false held, s')

/-- `jpp_broker_run_exclusive`, with the status, the result as far as it was written, the
lock set and the state of the operation. -/
def runExclusive (literal : String → π) (resource : String)
    (operation : σ → BrokerStatus × BrokerResult π × σ) (locks : LockSet) (s : σ) :
    BrokerStatus × Option (BrokerResult π) × LockSet × σ :=
  match findLock locks resource with
  | some entry =>
      if entry.locked then
        let (status, result) :=
          resultPut (errorResult "BUSY") (literal "resource") (literal resource)
        (status, some result, locks, s)
      else runLocked resource operation locks s
  | none =>
      if lockCapacity ≤ locks.length then (.fieldOverflow, none, locks, s)
      else
        runLocked resource operation (locks ++ [{ resource := resource, locked := false }]) s

/-- No operation is in progress. -/
def Idle (locks : LockSet) : Prop := ∀ e ∈ locks, e.locked = false

/-- The resource has its entry, or there is room for it. -/
def Lockable (locks : LockSet) (resource : String) : Prop :=
  (findLock locks resource).isSome ∨ locks.length < lockCapacity

instance (locks : LockSet) (resource : String) : Decidable (Lockable locks resource) :=
  inferInstanceAs (Decidable (_ ∨ _))

/-- The lock set with the entry of the resource. -/
def register (locks : LockSet) (resource : String) : LockSet :=
  match findLock locks resource with
  | some _ => locks
  | none => locks ++ [{ resource := resource, locked := false }]

theorem idle_nil : Idle [] := fun _ h => absurd h List.not_mem_nil

theorem setLocked_idle {locks : LockSet} (h : Idle locks) (resource : String) :
    setLocked resource false (setLocked resource true locks) = locks := by
  induction locks with
  | nil => rfl
  | cons e locks ih =>
      obtain ⟨he, hlocks⟩ := List.forall_mem_cons.mp h
      rw [setLocked]
      split
      · rename_i hname
        rw [setLocked, if_pos hname, ← he]
      · rename_i hname
        rw [setLocked, if_neg hname, ih hlocks]

theorem Idle.register {locks : LockSet} (h : Idle locks) (resource : String) :
    Idle (register locks resource) := by
  rw [Sdk.register]
  split
  · exact h
  · intro e he
    rcases List.mem_append.mp he with he | he
    · exact h e he
    · rw [List.mem_singleton.mp he]

@[simp] theorem register_register (locks : LockSet) (resource : String) :
    register (register locks resource) resource = register locks resource := by
  cases hfind : findLock locks resource with
  | some entry => simp [register, hfind]
  | none =>
      have hnow : findLock (locks ++ [{ resource := resource, locked := false }]) resource =
          some { resource := resource, locked := false } := by
        rw [findLock] at hfind ⊢
        rw [List.find?_append, hfind]
        simp
      simp [register, hfind, hnow]

theorem lockable_register (locks : LockSet) (resource : String) :
    Lockable (register locks resource) resource := by
  cases hfind : findLock locks resource with
  | some entry => exact Or.inl (by simp [register, hfind])
  | none =>
      refine Or.inl ?_
      rw [findLock] at hfind
      simp [register, findLock, hfind]

/-- With no operation in progress, an operation runs to its end or finds the table full. -/
theorem runExclusive_idle {locks : LockSet} (h : Idle locks) (literal : String → π)
    (resource : String) (operation : σ → BrokerStatus × BrokerResult π × σ) (s : σ) :
    runExclusive literal resource operation locks s =
      if Lockable locks resource then
        ((operation s).1, some (operation s).2.1, register locks resource, (operation s).2.2)
      else (.fieldOverflow, none, locks, s) := by
  rw [runExclusive]
  cases hfind : findLock locks resource with
  | some entry =>
      have hfree : entry.locked = false := h entry (List.mem_of_find?_eq_some hfind)
      have hlock : Lockable locks resource := Or.inl (by rw [hfind]; rfl)
      simp [hfree, hlock, runLocked, register, hfind, setLocked_idle h]
  | none =>
      by_cases hroom : lockCapacity ≤ locks.length
      · have hfull : ¬ Lockable locks resource := by
          simp [Lockable, hfind, hroom]
        simp [hroom, hfull]
      · have hlock : Lockable locks resource := Or.inr (Nat.lt_of_not_le hroom)
        have hidle := h.register resource
        rw [Sdk.register, hfind] at hidle
        simp [hroom, hlock, runLocked, register, hfind, setLocked_idle hidle]

theorem Idle.runExclusive {locks : LockSet} (h : Idle locks) (literal : String → π)
    (resource : String) (operation : σ → BrokerStatus × BrokerResult π × σ) (s : σ) :
    Idle (Sdk.runExclusive literal resource operation locks s).2.2.1 := by
  rw [runExclusive_idle h]
  split
  · exact h.register resource
  · exact h

/-- The lock of a resource can be taken now: it is free, or there is room for its entry. -/
def Obtainable (locks : LockSet) (resource : String) : Prop :=
  match findLock locks resource with
  | some entry => entry.locked = false
  | none => locks.length < lockCapacity

theorem obtainable_of_some {locks : LockSet} {resource : String} {entry : LockEntry}
    (h : findLock locks resource = some entry) :
    Obtainable locks resource ↔ entry.locked = false := by rw [Obtainable, h]

theorem obtainable_of_none {locks : LockSet} {resource : String}
    (h : findLock locks resource = none) :
    Obtainable locks resource ↔ locks.length < lockCapacity := by rw [Obtainable, h]

instance (locks : LockSet) (resource : String) : Decidable (Obtainable locks resource) :=
  match h : findLock locks resource with
  | some _ => decidable_of_iff _ (obtainable_of_some h).symm
  | none => decidable_of_iff _ (obtainable_of_none h).symm

/-- Under a lock that can be taken, an operation runs to its end. -/
theorem runExclusive_obtainable {locks : LockSet} {resource : String}
    (h : Obtainable locks resource) (literal : String → π)
    (operation : σ → BrokerStatus × BrokerResult π × σ) (s : σ) :
    ∃ locks', runExclusive literal resource operation locks s =
      ((operation s).1, some (operation s).2.1, locks', (operation s).2.2) := by
  rw [Sdk.runExclusive]
  cases hfind : findLock locks resource with
  | some entry =>
      have hfree := (obtainable_of_some hfind).mp h
      simp [hfree, runLocked]
  | none =>
      have hroom := Nat.not_le_of_lt ((obtainable_of_none hfind).mp h)
      simp [hroom, runLocked]

/-- Otherwise it does not run, and the call does not report a success. -/
theorem runExclusive_refused {locks : LockSet} {resource : String}
    (h : ¬ Obtainable locks resource) (literal : String → π)
    (operation : σ → BrokerStatus × BrokerResult π × σ) (s : σ) :
    ∃ status result, runExclusive literal resource operation locks s =
      (status, result, locks, s) ∧
      (status = .ok → ∃ r, result = some r ∧ r.ok = false) := by
  rw [Sdk.runExclusive]
  cases hfind : findLock locks resource with
  | some entry =>
      have hheld : entry.locked = true := by simpa using mt (obtainable_of_some hfind).mpr h
      simp [hheld, resultPut, errorResult, resultFieldCapacity]
  | none =>
      have hfull := Nat.le_of_not_lt (mt (obtainable_of_none hfind).mpr h)
      simp [hfull]

theorem runExclusive_state (literal : String → π) (resource : String)
    (operation : σ → BrokerStatus × BrokerResult π × σ) (locks : LockSet) (s : σ) :
    (runExclusive literal resource operation locks s).2.2.2 = s ∨
      (runExclusive literal resource operation locks s).2.2.2 = (operation s).2.2 := by
  rw [Sdk.runExclusive]
  split
  · split
    · exact Or.inl rfl
    · exact Or.inr rfl
  · split
    · exact Or.inl rfl
    · exact Or.inr rfl

end Exclusive

end Sdk
end JppDos
