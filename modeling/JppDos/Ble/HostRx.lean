import JppDos.Lib.Machine
import Mathlib.Data.List.Infix

/-!
# Writes to the host's RX characteristic

One buffer between the Bluetooth host task, which copies an acknowledged write into it and
gives a token, and the app, which takes a token and copies the buffer out.  The semaphore
counts to two.

Main fact:
* `write_overwritten`: two acknowledged writes, the first of which the app never sees.
-/

namespace JppDos
namespace Ble

/-- `JPP_BLE_HOST_RX_BUF_SIZE`. -/
def rxBufSize : Nat := 4096

/-- The largest count of `s_rx_ready`. -/
def rxReadyMax : Nat := 2

/-- What the two tasks share, and where each of them stands. -/
structure HostRx where
  /-- The first `s_rx_len` bytes of `s_rx_buf`. -/
  buf : List UInt8
  /-- The count of `s_rx_ready`. -/
  tokens : Nat
  /-- `apphost_gatt_access_cb` has copied a write and not given its token. -/
  busy : Bool
  /-- `jpp_ble_host_wait_rx` has taken a token and not copied the buffer. -/
  taken : Bool
  /-- The payloads of the writes, all of them acknowledged when the callback returns. -/
  written : List (List UInt8)
  /-- What the successful waits have returned. -/
  returned : List (List UInt8)
  deriving DecidableEq

/-- After `jpp_ble_native_init`. -/
def HostRx.boot : HostRx where
  buf := []
  tokens := 0
  busy := false
  taken := false
  written := []
  returned := []

/-- What the tasks do between two points at which they can be switched: the parts of the
callback and of the wait under `s_rx_mutex`, and those on the semaphore. -/
inductive HostStep
  /-- The callback copies a write. -/
  | write (payload : List UInt8)
  /-- The callback gives the token and acknowledges the write. -/
  | give
  /-- The wait takes a token; without one it times out and nothing happens. -/
  | take
  /-- The wait copies the buffer to the caller, who offers so many bytes or no buffer. -/
  | copyOut (room : Option Nat)
  deriving DecidableEq

/-- The tasks of `apphost_gatt_access_cb` and `jpp_ble_host_wait_rx` take a step. -/
def hostStep (s : HostRx) : HostStep → HostRx × List Empty
  | .write payload =>
      if s.busy then (s, [])
      else ({ s with buf := payload.take rxBufSize, busy := true,
                     written := s.written ++ [payload] }, [])
  | .give =>
      if s.busy then
        ({ s with busy := false, tokens := min rxReadyMax (s.tokens + 1) }, [])
      else (s, [])
  | .take =>
      if s.taken || s.tokens == 0 then (s, [])
      else ({ s with taken := true, tokens := s.tokens - 1 }, [])
  | .copyOut room =>
      if s.taken then
        match room with
        | some n => ({ s with taken := false, returned := s.returned ++ [s.buf.take n] }, [])
        | none => ({ s with taken := false }, [])
      else (s, [])

/-- The app waits as long as something is there, then once more after the callback. -/
def drain : List HostStep :=
  let wait := [.take, .copyOut (some rxBufSize)]
  .copyOut (some rxBufSize) :: wait ++ wait ++ .give :: wait

/-- The app is given every write once and in order. -/
def Delivered (s : HostRx) : Prop := (Machine.run hostStep s drain).returned = s.written

/-- A write finds the buffer drained or holding the same bytes, its token finds room, and
the app offers enough room for it. -/
def Clear (s : HostRx) : HostStep → Prop
  | .write payload =>
      s.busy = false → payload.length ≤ rxBufSize ∧
        (s.taken = true ∨ s.tokens ≠ 0 → s.buf = payload)
  | .give => s.busy = true → s.tokens < rxReadyMax
  | .take => True
  | .copyOut room => s.taken = true → ∃ n, room = some n ∧ s.buf.length ≤ n

/-- The writes that the app has not been given. -/
def HostRx.due (s : HostRx) : Nat := s.taken.toNat + s.tokens + s.busy.toNat

/-- The buffer and the semaphore are within their bounds. -/
structure HostRx.Fits (s : HostRx) : Prop where
  buf_le : s.buf.length ≤ rxBufSize
  tokens_le : s.tokens ≤ rxReadyMax

theorem HostRx.Fits.step {s : HostRx} (h : s.Fits) (step : HostStep) :
    (hostStep s step).1.Fits := by
  obtain ⟨hbuf, htokens⟩ := h
  cases step with
  | write payload =>
      rw [hostStep]
      split
      · exact ⟨hbuf, htokens⟩
      · exact ⟨List.length_take_le _ _, htokens⟩
  | give =>
      rw [hostStep]
      split
      · exact ⟨hbuf, Nat.min_le_left _ _⟩
      · exact ⟨hbuf, htokens⟩
  | take =>
      rw [hostStep]
      split
      · exact ⟨hbuf, htokens⟩
      · exact ⟨hbuf, Nat.le_trans (Nat.sub_le _ _) htokens⟩
  | copyOut room =>
      cases room <;> rw [hostStep] <;> split <;> exact ⟨hbuf, htokens⟩

/-- As long as there is something, the app is given the buffer as it is now. -/
theorem returned_drain {s : HostRx} (h : s.Fits) :
    (Machine.run hostStep s drain).returned = s.returned ++ List.replicate s.due s.buf := by
  obtain ⟨buf, tokens, busy, taken, written, returned⟩ := s
  have hbuf : buf.take rxBufSize = buf := List.take_of_length_le h.buf_le
  have htokens : tokens = 0 ∨ tokens = 1 ∨ tokens = 2 := by
    have hle : tokens ≤ 2 := h.tokens_le
    omega
  rcases htokens with rfl | rfl | rfl <;> cases busy <;> cases taken <;>
    simp [drain, hostStep, rxReadyMax, HostRx.due, hbuf, List.replicate]

theorem due_eq_zero_iff {s : HostRx} :
    s.due = 0 ↔ s.taken = false ∧ s.tokens = 0 ∧ s.busy = false := by
  cases htaken : s.taken <;> cases hbusy : s.busy <;> simp [HostRx.due, htaken, hbusy]

theorem due_write {s : HostRx} (h : s.busy = false) (payload : List UInt8) :
    (hostStep s (.write payload)).1.due = s.due + 1 ∧
      (hostStep s (.write payload)).1.buf = payload.take rxBufSize := by
  simp [hostStep, HostRx.due, h]

theorem due_give {s : HostRx} (h : s.due ≤ 1) :
    (hostStep s .give).1.due = s.due ∧ (hostStep s .give).1.buf = s.buf := by
  rw [hostStep]
  split
  · rename_i hbusy
    simp only [HostRx.due, hbusy, Bool.toNat_true, Bool.toNat_false, rxReadyMax] at h ⊢
    exact ⟨by omega, trivial⟩
  · exact ⟨rfl, rfl⟩

theorem due_take (s : HostRx) :
    (hostStep s .take).1.due = s.due ∧ (hostStep s .take).1.buf = s.buf := by
  rw [hostStep]
  split
  · exact ⟨rfl, rfl⟩
  · rename_i hidle
    simp only [Bool.or_eq_true, beq_iff_eq, not_or, Bool.not_eq_true] at hidle
    refine ⟨?_, rfl⟩
    simp only [HostRx.due, hidle.1, Bool.toNat_true, Bool.toNat_false]
    omega

theorem due_copyOut {s : HostRx} (h : s.taken = true) (n : Nat) :
    (hostStep s (.copyOut (some n))).1.due + 1 = s.due ∧
      (hostStep s (.copyOut (some n))).1.taken = false := by
  simp only [hostStep, h, if_true, HostRx.due, Bool.toNat_true, Bool.toNat_false, and_true]
  omega

theorem delivered_iff {s : HostRx} (h : s.Fits) :
    Delivered s ↔ s.returned ++ List.replicate s.due s.buf = s.written := by
  rw [Delivered, returned_drain h]

/-- What was given is the beginning of what was written, and all of it at rest. -/
theorem Delivered.in_order {s : HostRx} (h : Delivered s) (hfits : s.Fits) :
    s.returned <+: s.written ∧ (s.due = 0 → s.returned = s.written) := by
  have heq := (delivered_iff hfits).mp h
  constructor
  · exact ⟨_, heq⟩
  · intro hdue
    rwa [hdue, List.replicate_zero, List.append_nil] at heq

theorem replicate_succ_eq_iff {α : Type*} (n : Nat) (a b c : α) :
    List.replicate (n + 1) a = List.replicate n b ++ [c] ↔ a = c ∧ (n ≠ 0 → b = c) := by
  rw [List.replicate_succ']
  constructor
  · intro h
    obtain ⟨hinit, hlast⟩ := List.append_inj' h rfl
    have hac : a = c := by simpa using hlast
    refine ⟨hac, fun hn => ?_⟩
    have hba := List.replicate_right_injective hn hinit
    exact hba.symm.trans hac
  · rintro ⟨rfl, hb⟩
    cases n with
    | zero => rfl
    | succ n => rw [hb (Nat.succ_ne_zero n)]

theorem delivered_write_iff {s : HostRx} (h : s.Fits) (hs : Delivered s) (payload : List UInt8) :
    Delivered (hostStep s (.write payload)).1 ↔ Clear s (.write payload) := by
  rw [delivered_iff (h.step _)]
  rw [delivered_iff h] at hs
  rw [hostStep, Clear]
  cases hbusy : s.busy with
  | true => simpa [hbusy] using hs
  | false =>
      have hdue : s.due = s.taken.toNat + s.tokens := by rw [HostRx.due, hbusy]; rfl
      have hnone : s.taken.toNat + s.tokens ≠ 0 ↔ s.taken = true ∨ s.tokens ≠ 0 := by
        cases s.taken <;> simp
      have hfits : payload.take rxBufSize = payload ↔ payload.length ≤ rxBufSize :=
        List.take_eq_self_iff payload
      rw [hdue] at hs
      simp only [Bool.false_eq_true, if_false, HostRx.due, Bool.toNat_true, true_implies]
      rw [← hs, List.append_assoc, List.append_cancel_left_eq, replicate_succ_eq_iff, hfits,
        hnone]

theorem delivered_give_iff {s : HostRx} (h : s.Fits) (hs : Delivered s) :
    Delivered (hostStep s .give).1 ↔ Clear s .give := by
  rw [delivered_iff (h.step _)]
  rw [delivered_iff h] at hs
  rw [hostStep, Clear]
  cases hbusy : s.busy with
  | false => simpa [hbusy] using hs
  | true =>
      have hdue : s.due = s.taken.toNat + (s.tokens + 1) := by
        rw [HostRx.due, hbusy, Nat.add_assoc]
        rfl
      rw [hdue] at hs
      simp only [if_true, HostRx.due, Bool.toNat_false, Nat.add_zero, true_implies]
      rw [← hs, List.append_cancel_left_eq]
      constructor
      · intro heq
        have hlength := congrArg List.length heq
        simp only [List.length_replicate, rxReadyMax] at hlength ⊢
        omega
      · intro hroom
        rw [Nat.min_eq_right hroom]

theorem delivered_take {s : HostRx} (h : s.Fits) (hs : Delivered s) :
    Delivered (hostStep s .take).1 := by
  rw [delivered_iff (h.step _)]
  rw [delivered_iff h] at hs
  rw [hostStep]
  split
  · exact hs
  · rename_i hidle
    simp only [Bool.or_eq_true, beq_iff_eq, not_or, Bool.not_eq_true] at hidle
    have hdue : s.due = 1 + (s.tokens - 1) + s.busy.toNat := by
      rw [HostRx.due, hidle.1, Bool.toNat_false]
      omega
    rw [hdue] at hs
    exact hs

theorem delivered_copyOut_iff {s : HostRx} (h : s.Fits) (hs : Delivered s) (room : Option Nat) :
    Delivered (hostStep s (.copyOut room)).1 ↔ Clear s (.copyOut room) := by
  rw [delivered_iff (h.step _)]
  rw [delivered_iff h] at hs
  cases htaken : s.taken with
  | false => cases room <;> simpa [hostStep, Clear, htaken] using hs
  | true =>
      have hdue : s.due = (s.tokens + s.busy.toNat) + 1 := by
        rw [HostRx.due, htaken, Bool.toNat_true]
        omega
      rw [hdue, List.replicate_succ] at hs
      cases room with
      | none =>
          simp only [hostStep, Clear, htaken, if_true, HostRx.due, Bool.toNat_false,
            Nat.zero_add, true_implies]
          refine iff_of_false (fun heq => ?_) (fun ⟨n, hn, _⟩ => nomatch hn)
          have hlength := congrArg List.length (heq.trans hs.symm)
          simp only [List.length_append, List.length_cons, List.length_replicate] at hlength
          omega
      | some n =>
          simp only [hostStep, Clear, htaken, if_true, HostRx.due, Bool.toNat_false,
            Nat.zero_add, true_implies, Option.some.injEq, exists_eq_left']
          rw [← hs, List.append_assoc, List.append_cancel_left_eq, List.singleton_append,
            List.cons.injEq, and_iff_left rfl, List.take_eq_self_iff]

/-- One step loses and repeats nothing exactly when it is clear. -/
theorem delivered_step_iff {s : HostRx} (h : s.Fits) (hs : Delivered s) (step : HostStep) :
    Delivered (hostStep s step).1 ↔ Clear s step := by
  cases step with
  | write payload => exact delivered_write_iff h hs payload
  | give => exact delivered_give_iff h hs
  | take => exact iff_of_true (delivered_take h hs) trivial
  | copyOut room => exact delivered_copyOut_iff h hs room

/-- In every order of the callback's and the app's steps, the waits return exactly the
payloads of the writes, in order, exactly when every step is clear. -/
theorem writes_delivered_iff (steps : List HostStep) :
    (∀ n, Delivered (Machine.run hostStep .boot (steps.take n))) ↔
      Machine.Along hostStep Clear .boot steps :=
  Machine.along_iff_of_invariant (I := fun s => s.Fits ∧ Delivered s) (fun _ h => h.2)
    (fun _ step h hclear => ⟨h.1.step step, (delivered_step_iff h.1 h.2 step).mpr hclear⟩)
    (fun _ step h hs => (delivered_step_iff h.1 h.2 step).mp hs)
    ⟨⟨Nat.zero_le _, Nat.zero_le _⟩, rfl⟩

/-- Two writes before the app's first wait. -/
def hurriedWrites : List HostStep := [.write [1], .give, .write [2], .give]

/-- Both writes are acknowledged; the app, waiting twice, is given the second one twice. -/
theorem write_overwritten :
    (Machine.run hostStep .boot hurriedWrites).written = [[1], [2]] ∧
      (Machine.run hostStep .boot hurriedWrites).busy = false ∧
      (Machine.run hostStep .boot (hurriedWrites ++ drain)).returned = [[2], [2]] := by
  decide

end Ble
end JppDos
