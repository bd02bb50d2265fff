import JppDos.Keypad.Poll
import JppDos.Lib.Machine

/-!
# Debouncing

When the stable key of the detector changes: by the samples that were matched so far, and by the
candidate key with its count.
-/

namespace JppDos
namespace Keypad

open CInt CText Machine

/-- The fields that debouncing is about. -/
structure Debounce where
  stableKey : Option Key
  candidateKey : Option Key
  candidateCount : Int
  enabled : Bool
deriving Repr, DecidableEq

def KeypadState.debounce (s : KeypadState) : Debounce :=
  ⟨s.stableKey, s.candidateKey, s.candidateCount, s.enabled⟩

/-- What a sample does to them. -/
def Debounce.next (config : Option KeypadConfig) (d : Debounce) :
    Option (Option Key) → Debounce
  | none => if d.stableKey = none then d else ⟨none, none, 0, d.enabled⟩
  | some key =>
      if key = d.stableKey then d
      else if key = d.candidateKey then
        if wrap32 (d.candidateCount + 1) < configDebounceSamples config then
          { d with candidateCount := wrap32 (d.candidateCount + 1) }
        else ⟨key, key, 0, d.enabled⟩
      else { d with candidateKey := key, candidateCount := 1 }

theorem Debounce.next_enabled (config : Option KeypadConfig) (d : Debounce)
    (key : Option (Option Key)) : (d.next config key).enabled = d.enabled := by
  unfold Debounce.next
  cases key with
  | none =>
      simp only
      split_ifs <;> rfl
  | some key =>
      simp only
      split_ifs <;> rfl

section Turns

variable (config : Option KeypadConfig) {capacity : Nat} {events : List Event}

theorem pollAbsent_debounce (h : events.length < capacity) (now : Int) (s : KeypadState) :
    (pollAbsent config capacity now s events).2.1.debounce = s.debounce.next config none := by
  unfold pollAbsent Debounce.next
  cases hkey : s.stableKey with
  | none => exact (if_pos hkey).symm
  | some key =>
      obtain ⟨_, _, _, -, heq⟩ := finalizeRelease_report config h key now
        { s with stableKey := none, candidateKey := none, candidateCount := 0 }
      have hne : s.debounce.stableKey ≠ none := by
        rw [KeypadState.debounce, hkey]
        exact Option.some_ne_none key
      simp only [heq, onSuccess]
      exact (if_neg hne).symm

theorem pollStable_debounce (h : events.length < capacity) (now : Int) (s : KeypadState) :
    (pollStable config capacity now s events).2.1.debounce = s.debounce := by
  unfold pollStable
  split
  · rfl
  · rename_i key hkey
    by_cases hok : key.text = okText
    · simp only [if_pos hok, holdOk]
      split_ifs
      · rw [emit_room h]
        rfl
      · rw [emit_room h]
        rfl
      · rfl
    · obtain ⟨last, fires, heq⟩ := emitRepeatIfNeeded_eq config h key now
        { s with pressStartedMs := startedMs now s }
      simp only [if_neg hok, heq]
      rfl

theorem pollDebounced_debounce (h : events.length < capacity) (now : Int) (key : Option Key)
    (s : KeypadState) : (pollDebounced config capacity now key s events).2.1.debounce =
      ⟨key, key, 0, s.enabled⟩ := by
  unfold pollDebounced
  cases key with
  | none =>
      cases hkey : s.stableKey with
      | none => rfl
      | some prev =>
          obtain ⟨_, _, _, -, heq⟩ := finalizeRelease_report config h prev now
            { s with stableKey := none, candidateCount := 0 }
          simp only [heq, onSuccess]
          rfl
  | some key =>
      by_cases hok : key.text = okText
      · simp only [hok, ne_eq, not_true_eq_false, if_false, onSuccess]
        rfl
      · simp only [hok, ne_eq, not_false_eq_true, if_true, emit_room h, onSuccess]
        rfl

theorem pollSample_debounce (h : events.length < capacity) (uv : Int) (present : Bool)
    (s : KeypadState) :
    (pollSample config capacity uv present s events).2.1.debounce = s.debounce.next config
      (if present then some (sampledKey config s uv) else none) := by
  unfold pollSample
  cases present with
  | false => exact pollAbsent_debounce config h _ s
  | true =>
      simp only [Bool.not_true, Bool.false_eq_true, if_false, if_true]
      unfold Debounce.next
      by_cases hstable : sampledKey config s uv = s.stableKey
      · rw [if_pos hstable, pollStable_debounce config h]
        exact (if_pos hstable).symm
      · rw [if_neg hstable]
        refine Eq.trans ?_ (if_neg hstable).symm
        by_cases hcandidate : sampledKey config s uv = s.candidateKey
        · rw [if_pos hcandidate]
          refine Eq.trans ?_ (if_pos hcandidate).symm
          by_cases hcount : wrap32 (s.candidateCount + 1) < configDebounceSamples config
          · rw [if_pos hcount]
            exact (if_pos hcount).symm
          · rw [if_neg hcount, pollDebounced_debounce config h]
            exact (if_neg hcount).symm
        · rw [if_neg hcandidate]
          exact (if_neg hcandidate).symm

/-- What is matched at a turn: nothing without a sample, else a key or none. -/
def matchedKey (s : KeypadState) (x : Sample) : Option (Option Key) :=
  if x.present then some (sampledKey config s x.uv) else none

/-- What a turn does to the stable key and to the candidate. -/
theorem pollStep_debounce (s : KeypadState) (x : Sample) :
    (pollStep config s x).1.debounce =
      if isOn config s then s.debounce.next config (matchedKey config s x) else s.debounce := by
  unfold pollStep poll
  rw [isOn_pollConfig, nowMs_pollConfig]
  cases hon : isOn config s with
  | false => rfl
  | true =>
      have hroom : ([] : List Event).length < eventCapacity := by decide
      simp only [Bool.not_true, Bool.false_eq_true, if_false, if_true,
        checkPendingShort_eq (pollConfig config x) hroom]
      have hroom' : ([] ++ if flushes (pollConfig config x) (nowMs config s) s then
          [pendingShortEvent] else []).length < eventCapacity := by
        split_ifs <;> decide
      rw [pollSample_debounce (pollConfig config x) hroom']
      unfold Debounce.next matchedKey
      rw [sampledKey_pollConfig, configDebounceSamples_pollConfig]
      rfl

end Turns

/-- The detector, with what was matched so far, the latest first. -/
structure Watched where
  state : KeypadState
  matched : List (Option (Option Key))
deriving Repr, DecidableEq

/-- How many samples in a row, up to the latest, matched the key (or none of the keys). -/
def streak (key : Option Key) (matched : List (Option (Option Key))) : Nat :=
  (matched.takeWhile (· = some key)).length

theorem streak_same (key : Option Key) (matched : List (Option (Option Key))) :
    streak key (some key :: matched) = streak key matched + 1 := by
  simp [streak]

section Watching

variable (config : Option KeypadConfig)

/-- A detector that has seen no sample. -/
def Watched.init : Watched := ⟨stateInit config, []⟩

/-- A turn that is watched. -/
def watch (w : Watched) (x : Sample) : Watched × List Event :=
  (⟨(pollStep config w.state x).1, matchedKey config w.state x :: w.matched⟩,
    (pollStep config w.state x).2)

/-- The stable key does not change at the turn, or enough samples in a row matched the new one. -/
def ChangeDebounced (w : Watched) (x : Sample) : Prop :=
  (watch config w x).1.state.stableKey ≠ w.state.stableKey →
    configDebounceSamples config ≤
      streak (watch config w x).1.state.stableKey (watch config w x).1.matched

instance (w : Watched) (x : Sample) : Decidable (ChangeDebounced config w x) :=
  inferInstanceAs (Decidable (_ → _))

/-- No samples of a candidate are counted when a sample matches the stable key or when there is no
sample, and then there is no stable key. -/
def CountsAfresh (w : Watched) (x : Sample) : Prop :=
  match matchedKey config w.state x with
  | none => w.state.stableKey = none ∧ w.state.candidateCount = 0
  | some key => key = w.state.stableKey → w.state.candidateCount = 0

instance (w : Watched) (x : Sample) : Decidable (CountsAfresh config w x) := by
  unfold CountsAfresh
  split <;> infer_instance

/-- The count of the candidate is at most the number of samples in a row that matched it. -/
def Counted (w : Watched) : Prop :=
  isOn config w.state = true →
    -2 ^ 31 ≤ w.state.candidateCount ∧
      w.state.candidateCount ≤ streak w.state.candidateKey w.matched

end Watching

section Counting

variable {config : Option KeypadConfig} {w : Watched} {x : Sample}

theorem isOn_pollStep (s : KeypadState) (x : Sample) :
    isOn config (pollStep config s x).1 = isOn config s := by
  have hsame : (pollStep config s x).1.enabled = s.enabled := by
    refine (congrArg Debounce.enabled (pollStep_debounce config s x)).trans ?_
    split_ifs
    · exact Debounce.next_enabled config s.debounce _
    · rfl
  rw [isOn, isOn, hsame]

theorem watch_debounce {d : Debounce} (h : (pollStep config w.state x).1.debounce = d) :
    (watch config w x).1.state.stableKey = d.stableKey ∧
      (watch config w x).1.state.candidateKey = d.candidateKey ∧
        (watch config w x).1.state.candidateCount = d.candidateCount := by
  subst h
  exact ⟨rfl, rfl, rfl⟩

/-- While counts start afresh, they stay right, and a change is debounced. -/
theorem Counted.step (h : Counted config w) (hafresh : CountsAfresh config w x) :
    Counted config (watch config w x).1 ∧ ChangeDebounced config w x := by
  have hturn := pollStep_debounce config w.state x
  cases hon : isOn config w.state with
  | false =>
      rw [hon, if_neg Bool.false_ne_true] at hturn
      refine ⟨fun hnext => ?_, fun hchange => absurd (watch_debounce hturn).1 hchange⟩
      have hoff := (isOn_pollStep w.state x).symm.trans hnext
      rw [hon] at hoff
      cases hoff
  | true =>
      obtain ⟨hlow, hcount⟩ := h hon
      rw [hon, if_pos rfl] at hturn
      -- the count is gone, or is not above 0
      have hzero : ∀ d : Debounce, (pollStep config w.state x).1.debounce = d →
          d.candidateCount = 0 → Counted config (watch config w x).1 := by
        intro d hd hnone _
        rw [(watch_debounce hd).2.2, hnone]
        exact ⟨by decide, Int.natCast_nonneg _⟩
      unfold CountsAfresh at hafresh
      unfold Debounce.next at hturn
      cases hmatched : matchedKey config w.state x with
      | none =>
          rw [hmatched] at hafresh hturn
          obtain ⟨hstable, hnone⟩ := hafresh
          have hsame := hturn.trans (if_pos hstable)
          exact ⟨hzero _ hsame hnone, fun hchange => absurd (watch_debounce hsame).1 hchange⟩
      | some key =>
          rw [hmatched] at hafresh hturn
          simp only at hafresh hturn
          by_cases hstable : key = w.state.stableKey
          · have hsame := hturn.trans (if_pos hstable)
            exact ⟨hzero _ hsame (hafresh hstable),
              fun hchange => absurd (watch_debounce hsame).1 hchange⟩
          have hturn' := hturn.trans (if_neg hstable)
          have hlatest : (watch config w x).1.matched = some key :: w.matched := by
            rw [← hmatched]
            rfl
          by_cases hcandidate : key = w.state.candidateKey
          · have hcand := hturn'.trans (if_pos hcandidate)
            have hstreak := streak_same key w.matched
            have hle := wrap32_le (x := w.state.candidateCount + 1) (by omega)
            rw [← hcandidate] at hcount
            by_cases hfew : wrap32 (w.state.candidateCount + 1) < configDebounceSamples config
            · have hmore := hcand.trans (if_pos hfew)
              obtain ⟨hkept, hkey, hnext⟩ := watch_debounce hmore
              refine ⟨fun _ => ?_, fun hchange => absurd hkept hchange⟩
              rw [hnext, hkey, hlatest]
              simp only [KeypadState.debounce]
              rw [← hcandidate, hstreak]
              exact ⟨neg_le_wrap32 _, by push_cast; omega⟩
            · have hswitch := hcand.trans (if_neg hfew)
              refine ⟨hzero _ hswitch rfl, fun _ => ?_⟩
              rw [(watch_debounce hswitch).1, hlatest, hstreak]
              push_cast
              omega
          · have hfirst := hturn'.trans (if_neg hcandidate)
            obtain ⟨hkept, hkey, hnext⟩ := watch_debounce hfirst
            refine ⟨fun _ => ?_, fun hchange => absurd hkept hchange⟩
            rw [hnext, hkey, hlatest]
            simp only
            rw [streak_same]
            exact ⟨by decide, Int.ofNat_le.mpr (Nat.le_add_left 1 _)⟩

/-- In a run whose counts start afresh, the stable key changes only at a sample that completes as
many samples in a row as are asked for. -/
theorem changes_debounced (config : Option KeypadConfig) (xs : List Sample)
    (h : Along (watch config) (CountsAfresh config) (Watched.init config) xs) :
    Along (watch config) (ChangeDebounced config) (Watched.init config) xs := by
  have hinit : Counted config (Watched.init config) := by
    intro _
    have hnone : (Watched.init config).state.candidateCount = 0 := rfl
    rw [hnone]
    exact ⟨by decide, Int.natCast_nonneg _⟩
  exact Along.of_invariant (fun w x hw hafresh => hw.step hafresh) h hinit

end Counting

/-- A sample of the keypad of the firmware: of the first key, or of none. -/
def sampleOf (pressed : Bool) : Sample := ⟨if pressed then 3223 else 3000000, true, false⟩

/-- A key that is pressed for two samples, and released. -/
theorem changes_debounced_press :
    Along (watch (some taskConfig)) (ChangeDebounced (some taskConfig))
      (Watched.init (some taskConfig)) ([true, true, false, false].map sampleOf) :=
  changes_debounced (some taskConfig) _ (by decide)

/-- Two single samples of a key, with a sample of none between them, are a press. -/
theorem not_changes_debounced :
    ¬ ∀ (config : Option KeypadConfig) (xs : List Sample),
      Along (watch config) (ChangeDebounced config) (Watched.init config) xs := by
  intro h
  exact absurd (h (some taskConfig) ([true, false, true].map sampleOf)) (by decide)

end Keypad
end JppDos
