import JppDos.Lib.Machine
import Mathlib.Algebra.Order.Ring.Nat
import Mathlib.Data.Fintype.Basic

/-!
# The buzzer

The player task of the buzzer and the tasks that call it.  A sequence is put into the inbox
under a lock and the player is woken; it copies the inbox under the lock, and checks before
every note whether the generation has changed since.  A blocking sequence is played by its
caller.  Between two steps of a task the others take any number of theirs.

What stands between the taking and the giving of the lock is one step, and what a task does with
its own variables belongs to the step before it.

Main definitions:
* `turnStep`: a step of the player, a call, or a step of a caller;
* `TonesRight`: what is asked of a state and of the events so far;
* `Undisturbed`: the calls that come at a moment when they do no harm.
-/

namespace JppDos
namespace Sound

/-- `jpp_buzzer_note_t`. -/
structure Note where
  freqHz : Nat
  durationMs : Nat
  deriving DecidableEq

/-- `JPP_BUZZER_SEQ_MAX`. -/
def seqMax : Nat := 64

/-- Where a task stands in `jpp_buzzer_tone`. -/
inductive ToneStage
  /-- It has been entered. -/
  | begins
  /-- The channel is driven. -/
  | sounding
  /-- The channel is silent, and nothing is left but to return. -/
  | leaving
  deriving DecidableEq

/-- Where the player stands. -/
inductive PlayerPc
  /-- In `ulTaskNotifyTake`. -/
  | waiting
  /-- Before it takes the lock. -/
  | woken
  /-- Before the check for note `i`. -/
  | checking (i : Nat)
  /-- Before the call of `jpp_buzzer_tone` for note `i`. -/
  | checked (i : Nat)
  /-- In `jpp_buzzer_tone` for note `i`. -/
  | inTone (i : Nat) (stage : ToneStage)
  /-- Before the last `buzzer_silence`. -/
  | ending
  deriving DecidableEq

/-- The variables of the player; `id` is the number of the submission in `s_play_buf`. -/
structure Player where
  pc : PlayerPc
  playBuf : List Note
  myGen : Nat
  lastPlayed : Nat
  id : Nat
  deriving DecidableEq

/-- Where a caller stands; `since` is the number of submissions that its call has made old. -/
inductive Caller
  | idle
  /-- In `buzzer_submit_async`, before it takes the lock. -/
  | submits (notes : List Note)
  /-- In `buzzer_submit_async`, before `xTaskNotifyGive`. -/
  | submitted (since : Nat)
  /-- In `jpp_buzzer_stop`, before it takes the lock. -/
  | stops
  /-- In `jpp_buzzer_stop`, before `buzzer_silence`. -/
  | stopped (since : Nat)
  /-- In `jpp_buzzer_play_sequence`, before it takes the lock. -/
  | plays (notes : List Note)
  /-- Before the call of `jpp_buzzer_tone` for the next of the notes. -/
  | playing (since : Option Nat) (notes : List Note)
  /-- In `jpp_buzzer_tone`. -/
  | inTone (since : Option Nat) (note : Note) (notes : List Note) (stage : ToneStage)
  deriving DecidableEq

/-- The buzzer with its player and `k` tasks that call it; `accepted` counts the submissions,
and those before `cut` are old. -/
structure Buzzer (k : Nat) where
  reqBuf : List Note
  seqGen : Nat
  notified : Bool
  volumePct : Nat
  player : Player
  callers : Fin k → Caller
  accepted : Nat
  cut : Nat

/-- The buzzer after `jpp_buzzer_init`. -/
def buzzerInit (k volumePct : Nat) : Buzzer k where
  reqBuf := []
  seqGen := 0
  notified := false
  volumePct := volumePct
  player := ⟨.waiting, [], 0, 0, 0⟩
  callers _ := .idle
  accepted := 0
  cut := 0

/-- A call of another task. -/
inductive Call
  /-- `jpp_buzzer_play_sequence_async`, and the other calls of `buzzer_submit_async`. -/
  | submit (notes : List Note)
  /-- `jpp_buzzer_stop`. -/
  | stop
  /-- `jpp_buzzer_play_sequence`. -/
  | playSequence (notes : List Note)
  /-- `jpp_buzzer_tone`. -/
  | tone (note : Note)
  deriving DecidableEq

/-- What is noted of a step. -/
inductive Event
  /-- A submission is in the inbox. -/
  | accepted (id : Nat) (notes : List Note)
  /-- The player starts a note of a submission. -/
  | started (id i : Nat) (note : Note)
  /-- A call has returned that made the submissions before `since` old. -/
  | returned (since : Nat)
  deriving DecidableEq

/-- Whose turn it is. -/
inductive Turn (k : Nat)
  | player
  | call (n : Fin k) (c : Call)
  | caller (n : Fin k)
  deriving DecidableEq

variable {k : Nat}

/-- The note is silent. -/
def Note.quiet (volumePct : Nat) (note : Note) : Bool := note.freqHz == 0 || volumePct == 0

/-- `jpp_buzzer_tone`: the next stage, unless it returns. -/
def toneStep (volumePct : Nat) (note : Note) : ToneStage → Option ToneStage
  | .begins => if note.quiet volumePct then some .leaving else some .sounding
  | .sounding => some .leaving
  | .leaving => none

/-- The next step of `jpp_buzzer_tone` is `buzzer_silence`. -/
def toneSilences (volumePct : Nat) (note : Note) : ToneStage → Bool
  | .begins => note.quiet volumePct
  | .sounding => true
  | .leaving => false

/-- The note that the player is at. -/
def Player.note (p : Player) (i : Nat) : Note := p.playBuf.getD i ⟨0, 0⟩

/-- The player comes to another place. -/
def Buzzer.goTo (s : Buzzer k) (pc : PlayerPc) : Buzzer k :=
  { s with player := { s.player with pc := pc } }

/-- The player copies the inbox. -/
def Buzzer.copyInbox (s : Buzzer k) : Buzzer k :=
  { s with player := { s.player with playBuf := s.reqBuf, myGen := s.seqGen, id := s.cut } }

/-- The player notes the generation that it plays. -/
def Buzzer.notePlayed (s : Buzzer k) : Buzzer k :=
  { s with player := { s.player with lastPlayed := s.seqGen } }

/-- `buzzer_player_task`. -/
def playerStep (s : Buzzer k) : Buzzer k × List Event :=
  match s.player.pc with
  | .waiting => if s.notified then ({ s.goTo .woken with notified := false }, []) else (s, [])
  | .woken =>
      -- A generation that was played is not played again.
      if s.seqGen = s.player.lastPlayed then (s.copyInbox.goTo .waiting, [])
      else (s.copyInbox.notePlayed.goTo (.checking 0), [])
  | .checking i =>
      if i < s.player.playBuf.length ∧ s.seqGen = s.player.myGen then (s.goTo (.checked i), [])
      else (s.goTo .ending, [])
  | .checked i => (s.goTo (.inTone i .begins), [.started s.player.id i (s.player.note i)])
  | .inTone i stage =>
      match toneStep s.volumePct (s.player.note i) stage with
      | some stage => (s.goTo (.inTone i stage), [])
      | none => (s.goTo (.checking (i + 1)), [])
  | .ending => (s.goTo .waiting, [])

/-- A caller comes to another place. -/
def Buzzer.setCaller (s : Buzzer k) (n : Fin k) (c : Caller) : Buzzer k :=
  { s with callers := Function.update s.callers n c }

/-- Where a call begins. -/
def Call.start : Call → Caller
  | .submit notes => if notes = [] then .stops else .submits notes
  | .stop => .stops
  | .playSequence notes => .plays notes
  | .tone note => .playing none [note]

/-- The next generation, with an empty inbox. -/
def Buzzer.bump (s : Buzzer k) : Buzzer k :=
  { s with seqGen := (s.seqGen + 1) % 2 ^ 32, reqBuf := [], cut := s.accepted }

/-- The next generation, with a new sequence in the inbox. -/
def Buzzer.submit (s : Buzzer k) (notes : List Note) : Buzzer k :=
  { s with
    seqGen := (s.seqGen + 1) % 2 ^ 32
    reqBuf := notes.take seqMax
    accepted := s.accepted + 1
    cut := s.accepted }

/-- The end of a call. -/
def returnedEvent (since : Option Nat) : List Event := since.toList.map .returned

/-- A step of a caller. -/
def callerStep (s : Buzzer k) (n : Fin k) : Buzzer k × List Event :=
  match s.callers n with
  | .idle => (s, [])
  | .submits notes =>
      ((s.submit notes).setCaller n (.submitted s.accepted),
        [.accepted s.accepted (notes.take seqMax)])
  | .submitted since => ({ s.setCaller n .idle with notified := true }, [.returned since])
  | .stops => (s.bump.setCaller n (.stopped s.accepted), [])
  | .stopped since => (s.setCaller n .idle, [.returned since])
  | .plays notes => (s.bump.setCaller n (.playing (some s.accepted) notes), [])
  | .playing since [] => (s.setCaller n .idle, returnedEvent since)
  | .playing since (note :: notes) => (s.setCaller n (.inTone since note notes .begins), [])
  | .inTone since note notes stage =>
      match toneStep s.volumePct note stage with
      | some stage => (s.setCaller n (.inTone since note notes stage), [])
      | none => (s.setCaller n (.playing since notes), [])

/-- A turn. -/
def turnStep (s : Buzzer k) : Turn k → Buzzer k × List Event
  | .player => playerStep s
  | .call n c => if s.callers n = .idle then (s.setCaller n c.start, []) else (s, [])
  | .caller n => callerStep s n

/-- What a call of the caller has made old. -/
def Caller.since? : Caller → Option Nat
  | .submitted since | .stopped since => some since
  | .playing since _ | .inTone since _ _ _ => since
  | _ => none

/-- The caller plays a blocking sequence, and is in a note or has notes left. -/
def Caller.Blocking : Caller → Prop
  | .playing _ notes => notes ≠ []
  | .inTone _ _ _ _ => True
  | _ => False

/-- What a step of the player can do. -/
inductive PlayerMove (s : Buzzer k) : Buzzer k → List Event → Prop
  | waits (hpc : s.player.pc = .waiting) (hno : s.notified = false) : PlayerMove s s []
  | wakes (hpc : s.player.pc = .waiting) (hnotified : s.notified = true) :
      PlayerMove s { s.goTo .woken with notified := false } []
  | skips (hpc : s.player.pc = .woken) (hgen : s.seqGen = s.player.lastPlayed) :
      PlayerMove s (s.copyInbox.goTo .waiting) []
  | copies (hpc : s.player.pc = .woken) (hgen : s.seqGen ≠ s.player.lastPlayed) :
      PlayerMove s (s.copyInbox.notePlayed.goTo (.checking 0)) []
  | passes (i : Nat) (hpc : s.player.pc = .checking i) (hi : i < s.player.playBuf.length)
      (hgen : s.seqGen = s.player.myGen) : PlayerMove s (s.goTo (.checked i)) []
  | ends (i : Nat) (hpc : s.player.pc = .checking i) : PlayerMove s (s.goTo .ending) []
  | starts (i : Nat) (hpc : s.player.pc = .checked i) :
      PlayerMove s (s.goTo (.inTone i .begins)) [.started s.player.id i (s.player.note i)]
  | sounds (i : Nat) (stage stage' : ToneStage) (hpc : s.player.pc = .inTone i stage) :
      PlayerMove s (s.goTo (.inTone i stage')) []
  | returns (i : Nat) (stage : ToneStage) (hpc : s.player.pc = .inTone i stage) :
      PlayerMove s (s.goTo (.checking (i + 1))) []
  | silences (hpc : s.player.pc = .ending) : PlayerMove s (s.goTo .waiting) []

theorem playerStep_move (s : Buzzer k) : PlayerMove s (playerStep s).1 (playerStep s).2 := by
  unfold playerStep
  split
  · rename_i hpc
    split
    · rename_i hnotified
      exact .wakes hpc hnotified
    · rename_i hno
      exact .waits hpc (Bool.eq_false_of_not_eq_true hno)
  · rename_i hpc
    split
    · rename_i hgen
      exact .skips hpc hgen
    · rename_i hgen
      exact .copies hpc hgen
  · rename_i i hpc
    split
    · rename_i hnext
      exact .passes i hpc hnext.1 hnext.2
    · exact .ends i hpc
  · rename_i i hpc
    exact .starts i hpc
  · rename_i i stage hpc
    split
    · rename_i stage' _
      exact .sounds i stage stage' hpc
    · exact .returns i stage hpc
  · rename_i hpc
    exact .silences hpc

/-- What a step of a caller can do. -/
inductive CallerMove (s : Buzzer k) (n : Fin k) : Buzzer k → List Event → Prop
  | stays (hn : s.callers n = .idle) : CallerMove s n s []
  | submits (notes : List Note) (hn : s.callers n = .submits notes) :
      CallerMove s n ((s.submit notes).setCaller n (.submitted s.accepted))
        [.accepted s.accepted (notes.take seqMax)]
  | submitted (since : Nat) (hn : s.callers n = .submitted since) :
      CallerMove s n { s.setCaller n .idle with notified := true } [.returned since]
  | stops (hn : s.callers n = .stops) :
      CallerMove s n (s.bump.setCaller n (.stopped s.accepted)) []
  | stopped (since : Nat) (hn : s.callers n = .stopped since) :
      CallerMove s n (s.setCaller n .idle) [.returned since]
  | plays (notes : List Note) (hn : s.callers n = .plays notes) :
      CallerMove s n (s.bump.setCaller n (.playing (some s.accepted) notes)) []
  | ends (since : Option Nat) (hn : s.callers n = .playing since []) :
      CallerMove s n (s.setCaller n .idle) (returnedEvent since)
  | goesOn (c : Caller) (hblocking : (s.callers n).Blocking)
      (hsubmitted : ∀ since, c ≠ .submitted since) (hsince : c.since? = (s.callers n).since?) :
      CallerMove s n (s.setCaller n c) []

theorem callerStep_move (s : Buzzer k) (n : Fin k) :
    CallerMove s n (callerStep s n).1 (callerStep s n).2 := by
  unfold callerStep
  split
  · rename_i hn
    exact .stays hn
  · rename_i notes hn
    exact .submits notes hn
  · rename_i since hn
    exact .submitted since hn
  · rename_i hn
    exact .stops hn
  · rename_i since hn
    exact .stopped since hn
  · rename_i notes hn
    exact .plays notes hn
  · rename_i since hn
    exact .ends since hn
  · rename_i since note notes hn
    exact .goesOn _ (by simp [hn, Caller.Blocking]) (by simp) (by simp [hn, Caller.since?])
  · rename_i since note notes stage hn
    have hblocking : (s.callers n).Blocking := by simp [hn, Caller.Blocking]
    split
    · exact .goesOn _ hblocking (by simp) (by simp [hn, Caller.since?])
    · exact .goesOn _ hblocking (by simp) (by simp [hn, Caller.since?])

/-- The player is in `jpp_buzzer_tone`. -/
def PlayerPc.Inside : PlayerPc → Prop
  | .inTone _ _ => True
  | _ => False

/-- The caller is in `jpp_buzzer_tone`. -/
def Caller.Inside : Caller → Prop
  | .inTone _ _ _ _ => True
  | _ => False

/-- No two tasks are in `jpp_buzzer_tone`. -/
def Exclusive (s : Buzzer k) : Prop :=
  (s.player.pc.Inside → ∀ n, ¬ (s.callers n).Inside) ∧
    ∀ m n, (s.callers m).Inside → (s.callers n).Inside → m = n

/-- The next step of the player is `buzzer_silence`. -/
def playerSilences (s : Buzzer k) : Bool :=
  match s.player.pc with
  | .inTone i stage => toneSilences s.volumePct (s.player.note i) stage
  | .ending => true
  | _ => false

/-- A caller sounds a note. -/
def Caller.Sounding : Caller → Prop
  | .inTone _ _ _ stage => stage = .sounding
  | _ => False

/-- The player does not silence a note of another task. -/
def SilencesOwn (s : Buzzer k) (t : Turn k) : Prop :=
  t = .player → playerSilences s = true → ∀ n, ¬ (s.callers n).Sounding

/-- Two events in a row: the submissions are numbered, a note that is started comes after all
notes that were started before it, and none of a submission that a call has made old is
started once it has returned. -/
def InOrder : Event → Event → Prop
  | .accepted id _, .accepted id' _ => id < id'
  | .started id i _, .started id' i' _ => id < id' ∨ id = id' ∧ i < i'
  | .returned since, .started id _ _ => since ≤ id
  | _, _ => True

/-- The events so far: every note is one of its submission, and they are in order. -/
structure EventsRight (events : List Event) : Prop where
  source : ∀ id i note, .started id i note ∈ events →
    ∃ notes, .accepted id notes ∈ events ∧ notes[i]? = some note
  order : events.Pairwise InOrder

/-- The tones of a run are exclusive and current. -/
structure TonesRight (s : Buzzer k) (turns : List (Turn k)) : Prop where
  exclusive : Machine.Throughout turnStep Exclusive s turns
  own : Machine.Along turnStep SilencesOwn s turns
  events : EventsRight (Machine.outputs turnStep s turns)

/-- A blocking sequence is played. -/
def Busy (s : Buzzer k) : Prop := ∃ n, (s.callers n).Blocking

/-- The caller has put a sequence into the inbox and not yet woken the player. -/
def Caller.Submitted : Caller → Prop
  | .submitted _ => True
  | _ => False

/-- The player waits, and is not to be woken, or only for a generation that it has played. -/
def Quiet (s : Buzzer k) (gen : Nat) : Prop :=
  (s.player.pc = .waiting ∨ s.player.pc = .woken) ∧
    (s.player.pc = .woken ∨ s.notified = true ∨ (∃ n, (s.callers n).Submitted) →
      gen = s.player.lastPlayed)

/-- The next generation makes the sequence that is being played old: the player is not between a
check and its note, and the generation is not the one of the notes that are left. -/
def Supersedes (s : Buzzer k) : Prop :=
  match s.player.pc with
  | .checked _ => False
  | .checking i => i < s.player.playBuf.length → (s.seqGen + 1) % 2 ^ 32 ≠ s.player.myGen
  | .inTone i _ => i + 1 < s.player.playBuf.length → (s.seqGen + 1) % 2 ^ 32 ≠ s.player.myGen
  | _ => True

/-- A step of a caller that does no harm. -/
def CallerUndisturbed (s : Buzzer k) : Caller → Prop
  | .submits _ => Supersedes s ∧ ¬ Busy s
  | .stops => Supersedes s ∧ (Busy s → Quiet s ((s.seqGen + 1) % 2 ^ 32))
  | .plays notes =>
      Supersedes s ∧ (Busy s → Quiet s ((s.seqGen + 1) % 2 ^ 32)) ∧
        (notes ≠ [] → ¬ Busy s ∧ Quiet s ((s.seqGen + 1) % 2 ^ 32))
  | _ => True

/-- A turn at which no call does harm. -/
def Undisturbed (s : Buzzer k) : Turn k → Prop
  | .call n (.tone _) => s.callers n = .idle → ¬ Busy s ∧ Quiet s s.seqGen
  | .caller n => CallerUndisturbed s (s.callers n)
  | _ => True

instance : DecidablePred Caller.Blocking
  | .playing _ notes => inferInstanceAs (Decidable (notes ≠ []))
  | .inTone _ _ _ _ => .isTrue trivial
  | .idle | .submits _ | .submitted _ | .stops | .stopped _ | .plays _ => .isFalse id

instance : DecidablePred Caller.Submitted
  | .submitted _ => .isTrue trivial
  | .idle | .submits _ | .stops | .stopped _ | .plays _ | .playing _ _ | .inTone _ _ _ _ =>
      .isFalse id

instance : DecidablePred Caller.Inside
  | .inTone _ _ _ _ => .isTrue trivial
  | .idle | .submits _ | .submitted _ | .stops | .stopped _ | .plays _ | .playing _ _ =>
      .isFalse id

instance : DecidablePred Caller.Sounding
  | .inTone _ _ _ stage => inferInstanceAs (Decidable (stage = .sounding))
  | .idle | .submits _ | .submitted _ | .stops | .stopped _ | .plays _ | .playing _ _ =>
      .isFalse id

instance : DecidablePred PlayerPc.Inside
  | .inTone _ _ => .isTrue trivial
  | .waiting | .woken | .checking _ | .checked _ | .ending => .isFalse id

instance (s : Buzzer k) : Decidable (Exclusive s) := inferInstanceAs (Decidable (_ ∧ _))

instance (s : Buzzer k) (t : Turn k) : Decidable (SilencesOwn s t) :=
  inferInstanceAs (Decidable (_ → _ → _))

instance (a b : Event) : Decidable (InOrder a b) :=
  match a, b with
  | .accepted id _, .accepted id' _ => inferInstanceAs (Decidable (id < id'))
  | .started id i _, .started id' i' _ =>
      inferInstanceAs (Decidable (id < id' ∨ id = id' ∧ i < i'))
  | .returned since, .started id _ _ => inferInstanceAs (Decidable (since ≤ id))
  | .accepted _ _, .started _ _ _ | .accepted _ _, .returned _ | .started _ _ _, .accepted _ _
  | .started _ _ _, .returned _ | .returned _, .accepted _ _ | .returned _, .returned _ =>
      .isTrue trivial

instance (s : Buzzer k) : Decidable (Busy s) := inferInstanceAs (Decidable (∃ _, _))

instance (s : Buzzer k) (gen : Nat) : Decidable (Quiet s gen) :=
  inferInstanceAs (Decidable (_ ∧ (_ → _)))

instance (s : Buzzer k) : Decidable (Supersedes s) := by
  unfold Supersedes
  split <;> infer_instance

instance (s : Buzzer k) (c : Caller) : Decidable (CallerUndisturbed s c) :=
  match c with
  | .submits _ => inferInstanceAs (Decidable (_ ∧ _))
  | .stops => inferInstanceAs (Decidable (_ ∧ (_ → _)))
  | .plays _ => inferInstanceAs (Decidable (_ ∧ (_ → _) ∧ (_ → _)))
  | .idle | .submitted _ | .stopped _ | .playing _ _ | .inTone _ _ _ _ => .isTrue trivial

instance (s : Buzzer k) (t : Turn k) : Decidable (Undisturbed s t) :=
  match t with
  | .call n (.tone _) => inferInstanceAs (Decidable (s.callers n = .idle → _))
  | .caller n => inferInstanceAs (Decidable (CallerUndisturbed s (s.callers n)))
  | .player | .call _ (.submit _) | .call _ .stop | .call _ (.playSequence _) => .isTrue trivial

end Sound
end JppDos
