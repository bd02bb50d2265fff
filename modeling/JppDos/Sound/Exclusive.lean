import JppDos.Sound.Buzzer

/-!
# Tones that are exclusive and current

While no call comes at a wrong moment, a blocking sequence is played alone: the player is at rest
and nothing wakes it but for a generation that it has played.  And a sequence that was made old
is not the one whose note the player has checked for.

Main fact:
* `tones_exclusive`: so over whole runs.
-/

namespace JppDos
namespace Sound

open Machine

variable {k : Nat} {s : Buzzer k}

/-- A blocking sequence is played alone, and the player rests. -/
structure Blocked (s : Buzzer k) : Prop where
  one : ∀ m n, (s.callers m).Blocking → (s.callers n).Blocking → m = n
  quiet : Busy s → Quiet s s.seqGen

theorem Caller.Inside.blocking {c : Caller} (h : c.Inside) : c.Blocking := by
  cases c with
  | inTone => trivial
  | idle | submits | submitted | stops | stopped | plays | playing => exact absurd h id

theorem Caller.Sounding.blocking {c : Caller} (h : c.Sounding) : c.Blocking := by
  cases c with
  | inTone => trivial
  | idle | submits | submitted | stops | stopped | plays | playing => exact absurd h id

theorem Blocked.exclusive (h : Blocked s) : Exclusive s := by
  refine ⟨fun hplayer n hn => ?_, fun m n hm hn => h.one m n hm.blocking hn.blocking⟩
  rcases (h.quiet ⟨n, hn.blocking⟩).1 with hpc | hpc
  · rw [hpc] at hplayer
    exact hplayer
  · rw [hpc] at hplayer
    exact hplayer

theorem Blocked.silencesOwn (h : Blocked s) (t : Turn k) : SilencesOwn s t := by
  intro _ hsilences n hn
  rcases (h.quiet ⟨n, hn.blocking⟩).1 with hpc | hpc
  · simp [playerSilences, hpc] at hsilences
  · simp [playerSilences, hpc] at hsilences

/-- The player stays at rest where nothing more wakes it. -/
theorem Quiet.congr {s' : Buzzer k} {gen : Nat} (h : Quiet s gen) (hplayer : s'.player = s.player)
    (hwakes : s'.notified = true ∨ (∃ n, (s'.callers n).Submitted) →
      s.notified = true ∨ ∃ n, (s.callers n).Submitted) : Quiet s' gen := by
  rw [Quiet, hplayer]
  exact ⟨h.1, fun hw => h.2 (hw.imp_right hwakes)⟩

theorem setCaller_callers (n m : Fin k) (c : Caller) :
    (s.setCaller n c).callers m = if m = n then c else s.callers m :=
  Function.update_apply s.callers n c m

theorem exists_of_setCaller {P : Caller → Prop} {n : Fin k} {c : Caller}
    (hc : P c → P (s.callers n)) (h : ∃ m, P ((s.setCaller n c).callers m)) :
    ∃ m, P (s.callers m) := by
  obtain ⟨m, hm⟩ := h
  rw [setCaller_callers] at hm
  split at hm
  · exact ⟨n, hc hm⟩
  · exact ⟨m, hm⟩

theorem Blocked.setCaller (h : Blocked s) {n : Fin k} {c : Caller}
    (hblocking : c.Blocking → (s.callers n).Blocking)
    (hsubmitted : c.Submitted → (s.callers n).Submitted) : Blocked (s.setCaller n c) := by
  have hone (m : Fin k) (hm : ((s.setCaller n c).callers m).Blocking) :
      (s.callers m).Blocking := by
    rw [setCaller_callers] at hm
    split at hm
    · rename_i heq
      exact heq ▸ hblocking hm
    · exact hm
  refine ⟨fun m m' hm hm' => h.one m m' (hone m hm) (hone m' hm'), fun hbusy => ?_⟩
  exact (h.quiet (exists_of_setCaller hblocking hbusy)).congr rfl
    (Or.imp_right (exists_of_setCaller hsubmitted))

/-- A caller that begins a blocking sequence while no other is played. -/
theorem Blocked.of_alone {n : Fin k} {c : Caller} (hfree : ¬ Busy s) (hquiet : Quiet s s.seqGen)
    (hsubmitted : ¬ c.Submitted) : Blocked (s.setCaller n c) := by
  have hone (m : Fin k) (hm : ((s.setCaller n c).callers m).Blocking) : m = n := by
    rw [setCaller_callers] at hm
    by_contra hne
    rw [if_neg hne] at hm
    exact hfree ⟨m, hm⟩
  refine ⟨fun m m' hm hm' => (hone m hm).trans (hone m' hm').symm, fun _ => ?_⟩
  exact hquiet.congr rfl
    (Or.imp_right (exists_of_setCaller fun hc => absurd hc hsubmitted))

theorem Blocked.of_free (h : ¬ Busy s) : Blocked s :=
  ⟨fun m _ hm _ => absurd ⟨m, hm⟩ h, fun hbusy => absurd hbusy h⟩

/-- A new generation, while no blocking sequence is played or the player rests all the same. -/
theorem Blocked.of_bump {s' : Buzzer k} (h : Blocked s) (hcallers : s'.callers = s.callers)
    (hplayer : s'.player = s.player) (hnotified : s'.notified = s.notified)
    (hquiet : Busy s → Quiet s s'.seqGen) : Blocked s' := by
  refine ⟨?_, fun hbusy => ?_⟩
  · rw [hcallers]
    exact h.one
  · rw [Busy, hcallers] at hbusy
    refine (hquiet hbusy).congr hplayer ?_
    rw [hnotified, hcallers]
    exact id

/-- The player does not leave its rest while a blocking sequence is played. -/
theorem Blocked.playerMove (h : Blocked s) {s' : Buzzer k} {events : List Event}
    (hmove : PlayerMove s s' events) : Blocked s' := by
  have hrests (hbusy : Busy s) (hpc : s.player.pc ≠ .waiting) (hpc' : s.player.pc ≠ .woken) :
      False := (h.quiet hbusy).1.elim hpc hpc'
  cases hmove with
  | waits => exact h
  | wakes hpc hnotified =>
      refine ⟨h.one, fun hbusy => ?_⟩
      have hgen := (h.quiet hbusy).2 (.inr (.inl hnotified))
      exact ⟨.inr rfl, fun _ => hgen⟩
  | skips hpc hgen => exact ⟨h.one, fun _ => ⟨.inl rfl, fun _ => hgen⟩⟩
  | copies hpc hgen =>
      exact ⟨h.one, fun hbusy => absurd ((h.quiet hbusy).2 (.inl hpc)) hgen⟩
  | passes i hpc | ends i hpc | starts i hpc | sounds i stage stage' hpc | returns i stage hpc
  | silences hpc =>
      exact ⟨h.one, fun hbusy => (hrests hbusy (by simp [hpc]) (by simp [hpc])).elim⟩

theorem not_blocking_start {c : Call} (h : ∀ note, c ≠ .tone note) : ¬ c.start.Blocking := by
  cases c with
  | submit notes =>
      rw [Call.start]
      split <;> exact id
  | stop | playSequence notes => exact id
  | tone note => exact absurd rfl (h note)

theorem not_submitted_start (c : Call) : ¬ c.start.Submitted := by
  cases c with
  | submit notes =>
      rw [Call.start]
      split <;> exact id
  | stop | playSequence notes | tone note => exact id

theorem not_submitted {c : Caller} (h : ∀ since, c ≠ .submitted since) : ¬ c.Submitted := by
  cases c with
  | submitted since => exact absurd rfl (h since)
  | idle | submits | stops | stopped | plays | playing | inTone => exact id

theorem Blocked.callerMove (h : Blocked s) {n : Fin k} {s' : Buzzer k} {events : List Event}
    (hmove : CallerMove s n s' events) (hn : CallerUndisturbed s (s.callers n)) : Blocked s' := by
  have hbump (hquiet : Busy s → Quiet s ((s.seqGen + 1) % 2 ^ 32)) : Blocked s.bump :=
    h.of_bump rfl rfl rfl hquiet
  cases hmove with
  | stays => exact h
  | submits notes hcaller =>
      rw [hcaller] at hn
      exact .of_free fun hbusy => hn.2 (exists_of_setCaller (s := s.submit notes)
        (fun hc => absurd hc id) hbusy)
  | submitted since hcaller =>
      have hidle : Blocked (s.setCaller n .idle) := h.setCaller (fun hc => absurd hc id)
        (fun hc => absurd hc (not_submitted (by simp)))
      refine ⟨hidle.one, fun hbusy => ?_⟩
      exact (h.quiet (exists_of_setCaller (fun hc => absurd hc id) hbusy)).congr rfl
        fun _ => .inr ⟨n, by rw [hcaller]; trivial⟩
  | stops hcaller =>
      rw [hcaller] at hn
      exact (hbump hn.2).setCaller (fun hc => absurd hc id)
        (fun hc => absurd hc (not_submitted (by simp)))
  | stopped since hcaller =>
      exact h.setCaller (fun hc => absurd hc id) (fun hc => absurd hc (not_submitted (by simp)))
  | plays notes hcaller =>
      rw [hcaller] at hn
      obtain ⟨-, hquiet, halone⟩ := hn
      by_cases hnotes : notes = []
      · exact (hbump hquiet).setCaller (fun hc => absurd hnotes hc)
          (fun hc => absurd hc (not_submitted (by simp)))
      · obtain ⟨hfree, hrest⟩ := halone hnotes
        exact .of_alone hfree hrest (not_submitted (by simp))
  | ends since hcaller =>
      exact h.setCaller (fun hc => absurd hc id) (fun hc => absurd hc (not_submitted (by simp)))
  | goesOn c hblocking hsubmitted hsince =>
      exact h.setCaller (fun _ => hblocking) (fun hc => absurd hc (not_submitted hsubmitted))

theorem Blocked.step (h : Blocked s) {t : Turn k} (ht : Undisturbed s t) :
    Blocked (turnStep s t).1 := by
  cases t with
  | player => exact h.playerMove (playerStep_move s)
  | call n c =>
      rw [turnStep]
      split
      · rename_i hidle
        by_cases htone : ∃ note, c = .tone note
        · obtain ⟨note, rfl⟩ := htone
          obtain ⟨hfree, hquiet⟩ := ht hidle
          exact .of_alone hfree hquiet (not_submitted_start (.tone note))
        · exact h.setCaller
            (fun hc => absurd hc (not_blocking_start fun note hnote => htone ⟨note, hnote⟩))
            (fun hc => absurd hc (not_submitted_start c))
      · exact h
  | caller n => exact h.callerMove (callerStep_move s n) ht

theorem blocked_init (k volumePct : Nat) : Blocked (buzzerInit k volumePct) :=
  .of_free fun ⟨_, hn⟩ => hn

/-- The player is in a sequence, and the next of its notes is number `i`. -/
def Player.At (p : Player) (i : Nat) : Prop :=
  p.pc = .checking i ∨ p.pc = .checked i ∨ ∃ j stage, i = j + 1 ∧ p.pc = .inTone j stage

theorem Supersedes.not_checked (h : Supersedes s) (i : Nat) : s.player.pc ≠ .checked i := by
  intro hpc
  rw [Supersedes, hpc] at h
  exact h

theorem Supersedes.gen_ne (h : Supersedes s) {i : Nat} (hi : s.player.At i)
    (hlt : i < s.player.playBuf.length) : (s.seqGen + 1) % 2 ^ 32 ≠ s.player.myGen := by
  rcases hi with hpc | hpc | ⟨j, stage, rfl, hpc⟩
  · rw [Supersedes, hpc] at h
    exact h hlt
  · exact absurd hpc (h.not_checked i)
  · rw [Supersedes, hpc] at h
    exact h hlt

/-- What is known of the sequence whose next note is number `i`. -/
structure Sequence (s : Buzzer k) (events : List Event) (i : Nat) : Prop where
  source : i < s.player.playBuf.length → .accepted s.player.id s.player.playBuf ∈ events
  before : i < s.player.playBuf.length → ∀ id' i' note, .started id' i' note ∈ events →
    id' < s.player.id ∨ id' = s.player.id ∧ i' < i
  fresh : i < s.player.playBuf.length → s.seqGen = s.player.myGen → s.cut ≤ s.player.id
  gen : s.player.lastPlayed = s.player.myGen
  inbox : i < s.player.playBuf.length → s.reqBuf ≠ [] → s.player.id = s.cut →
    s.seqGen = s.player.myGen

/-- What is known of the inbox, of the calls and of the events so far. -/
structure Tracked (s : Buzzer k) (events : List Event) : Prop where
  right : EventsRight events
  cut_le : s.cut ≤ s.accepted
  accepted : ∀ id notes, .accepted id notes ∈ events → id < s.accepted
  returned : ∀ since, .returned since ∈ events → since ≤ s.cut
  callers : ∀ n, ∀ since ∈ (s.callers n).since?, since ≤ s.cut
  inbox : s.reqBuf ≠ [] → s.cut + 1 = s.accepted ∧ .accepted s.cut s.reqBuf ∈ events
  played : s.reqBuf ≠ [] → ∀ i note, .started s.cut i note ∈ events →
    s.player.lastPlayed = s.seqGen
  sequence : ∀ i, s.player.At i → Sequence s events i
  checked : ∀ i, s.player.pc = .checked i →
    i < s.player.playBuf.length ∧ s.cut ≤ s.player.id

variable {events : List Event}

theorem Tracked.started (h : Tracked s events) {id i : Nat} {note : Note}
    (hmem : .started id i note ∈ events) : id < s.accepted := by
  obtain ⟨notes, haccepted, -⟩ := h.right.source id i note hmem
  exact h.accepted id notes haccepted

theorem EventsRight.append (h : EventsRight events) {e : Event}
    (hsource : ∀ id i note, e = .started id i note →
      ∃ notes, .accepted id notes ∈ events ∧ notes[i]? = some note)
    (horder : ∀ a ∈ events, InOrder a e) : EventsRight (events ++ [e]) := by
  refine ⟨fun id i note hmem => ?_, ?_⟩
  · have hbefore : ∃ notes, .accepted id notes ∈ events ∧ notes[i]? = some note := by
      rcases List.mem_append.mp hmem with hmem | hmem
      · exact h.source id i note hmem
      · exact hsource id i note (List.mem_singleton.mp hmem).symm
    obtain ⟨notes, haccepted, hnote⟩ := hbefore
    exact ⟨notes, List.mem_append_left _ haccepted, hnote⟩
  · refine List.pairwise_append.mpr ⟨h.order, List.pairwise_singleton _ _, fun a ha b hb => ?_⟩
    rw [List.mem_singleton.mp hb]
    exact horder a ha

theorem mem_append_ne {e e' : Event} (h : e ∈ events ++ [e']) (hne : e ≠ e') : e ∈ events :=
  (List.mem_append.mp h).resolve_right fun hmem => hne (List.mem_singleton.mp hmem)

/-- The player comes to a place with the same next note, or to none. -/
theorem Tracked.goTo (h : Tracked s events) {pc : PlayerPc}
    (hat : ∀ i, (s.goTo pc).player.At i → s.player.At i)
    (hchecked : ∀ i, pc = .checked i → i < s.player.playBuf.length ∧ s.cut ≤ s.player.id) :
    Tracked (s.goTo pc) events where
  right := h.right
  cut_le := h.cut_le
  accepted := h.accepted
  returned := h.returned
  callers := h.callers
  inbox := h.inbox
  played := h.played
  sequence i hi :=
    let hseq := h.sequence i (hat i hi)
    ⟨hseq.source, hseq.before, hseq.fresh, hseq.gen, hseq.inbox⟩
  checked i hi := hchecked i hi

theorem Tracked.notify (h : Tracked s events) (notified : Bool) :
    Tracked { s with notified := notified } events where
  right := h.right
  cut_le := h.cut_le
  accepted := h.accepted
  returned := h.returned
  callers := h.callers
  inbox := h.inbox
  played := h.played
  sequence i hi :=
    let hseq := h.sequence i hi
    ⟨hseq.source, hseq.before, hseq.fresh, hseq.gen, hseq.inbox⟩
  checked := h.checked

theorem Tracked.setCaller (h : Tracked s events) {n : Fin k} {c : Caller}
    (hsince : ∀ since ∈ c.since?, since ≤ s.cut) : Tracked (s.setCaller n c) events where
  right := h.right
  cut_le := h.cut_le
  accepted := h.accepted
  returned := h.returned
  callers m since hmem := by
    rw [setCaller_callers] at hmem
    split at hmem
    · exact hsince since hmem
    · exact h.callers m since hmem
  inbox := h.inbox
  played := h.played
  sequence i hi :=
    let hseq := h.sequence i hi
    ⟨hseq.source, hseq.before, hseq.fresh, hseq.gen, hseq.inbox⟩
  checked := h.checked

theorem Tracked.append_returned (h : Tracked s events) {since : Nat} (hsince : since ≤ s.cut) :
    Tracked s (events ++ [.returned since]) where
  right := h.right.append (fun id i note he => by cases he) fun a _ => by cases a <;> trivial
  cut_le := h.cut_le
  accepted id notes hmem := h.accepted id notes (mem_append_ne hmem (by simp))
  returned since' hmem := by
    rcases List.mem_append.mp hmem with hmem | hmem
    · exact h.returned since' hmem
    · obtain rfl := Event.returned.inj (List.mem_singleton.mp hmem)
      exact hsince
  callers := h.callers
  inbox hbuf := ⟨(h.inbox hbuf).1, List.mem_append_left _ (h.inbox hbuf).2⟩
  played hbuf i note hmem := h.played hbuf i note (mem_append_ne hmem (by simp))
  sequence i hi :=
    let hseq := h.sequence i hi
    ⟨fun hlt => List.mem_append_left _ (hseq.source hlt),
      fun hlt id' i' note hmem => hseq.before hlt id' i' note (mem_append_ne hmem (by simp)),
      hseq.fresh, hseq.gen, hseq.inbox⟩
  checked := h.checked

/-- The player starts the note that it has checked for. -/
theorem Tracked.starts (h : Tracked s events) {i : Nat} (hpc : s.player.pc = .checked i) :
    Tracked (s.goTo (.inTone i .begins))
      (events ++ [.started s.player.id i (s.player.note i)]) := by
  have hseq := h.sequence i (.inr (.inl hpc))
  obtain ⟨hi, hcut⟩ := h.checked i hpc
  have hnote : s.player.playBuf[i]? = some (s.player.note i) := by
    rw [Player.note, List.getD_eq_getElem?_getD, List.getElem?_eq_getElem hi]
    rfl
  have hother {id j : Nat} {note : Note}
      (hmem : .started id j note ∈ events ++ [.started s.player.id i (s.player.note i)]) :
      id < s.player.id ∨ id = s.player.id ∧ j < i + 1 := by
    rcases List.mem_append.mp hmem with hmem | hmem
    · rcases hseq.before hi id j note hmem with hlt | ⟨heq, hlt⟩
      · exact .inl hlt
      · exact .inr ⟨heq, by omega⟩
    · obtain ⟨rfl, rfl, -⟩ := Event.started.inj (List.mem_singleton.mp hmem)
      exact .inr ⟨rfl, Nat.lt_succ_self _⟩
  refine ⟨h.right.append (fun id j note he => ?_) (fun a ha => ?_), h.cut_le,
    fun id notes hmem => h.accepted id notes (mem_append_ne hmem (by simp)),
    fun since hmem => h.returned since (mem_append_ne hmem (by simp)), h.callers,
    fun hbuf => ⟨(h.inbox hbuf).1, List.mem_append_left _ (h.inbox hbuf).2⟩,
    fun hbuf j note hmem => ?_, fun j hj => ?_, fun j hj => by cases hj⟩
  · obtain ⟨rfl, rfl, rfl⟩ := Event.started.inj he
    exact ⟨_, hseq.source hi, hnote⟩
  · cases a with
    | accepted id notes => trivial
    | started id j note => exact hseq.before hi id j note ha
    | returned since => exact Nat.le_trans (h.returned since ha) hcut
  · rcases List.mem_append.mp hmem with hmem | hmem
    · exact h.played hbuf j note hmem
    · obtain ⟨hid, -, -⟩ := Event.started.inj (List.mem_singleton.mp hmem)
      exact hseq.gen.trans (hseq.inbox hi hbuf hid.symm).symm
  · rcases hj with hj | hj | ⟨j', stage, rfl, hj⟩
    · cases hj
    · cases hj
    · obtain ⟨rfl, -⟩ := PlayerPc.inTone.inj hj
      exact ⟨fun _ => List.mem_append_left _ (hseq.source hi),
        fun _ id' i' note hmem => hother hmem, fun _ => hseq.fresh hi, hseq.gen,
        fun _ => hseq.inbox hi⟩

theorem Tracked.skips (h : Tracked s events) : Tracked (s.copyInbox.goTo .waiting) events where
  right := h.right
  cut_le := h.cut_le
  accepted := h.accepted
  returned := h.returned
  callers := h.callers
  inbox := h.inbox
  played := h.played
  sequence i hi := by rcases hi with hi | hi | ⟨j, stage, -, hi⟩ <;> cases hi
  checked i hi := by cases hi

/-- The player copies a sequence that it has not played. -/
theorem Tracked.copies (h : Tracked s events) (hgen : s.seqGen ≠ s.player.lastPlayed) :
    Tracked (s.copyInbox.notePlayed.goTo (.checking 0)) events where
  right := h.right
  cut_le := h.cut_le
  accepted := h.accepted
  returned := h.returned
  callers := h.callers
  inbox := h.inbox
  played _ _ _ _ := rfl
  sequence i hi := by
    have hzero : i = 0 := by
      rcases hi with hi | hi | ⟨j, stage, -, hi⟩
      · exact (PlayerPc.checking.inj hi).symm
      · cases hi
      · cases hi
    subst hzero
    refine ⟨fun hlt => (h.inbox (List.ne_nil_of_length_pos hlt)).2, fun hlt id' i' note hmem => ?_,
      fun _ _ => Nat.le_refl _, rfl, fun _ _ _ => rfl⟩
    have hbuf : s.reqBuf ≠ [] := List.ne_nil_of_length_pos hlt
    have hlast := (h.inbox hbuf).1
    have hid := h.started hmem
    -- The submission in the inbox has no note yet, or its generation would have been played.
    have hne : id' ≠ s.cut := fun heq => hgen (h.played hbuf i' note (heq ▸ hmem)).symm
    exact .inl (show id' < s.cut by omega)
  checked i hi := by cases hi

theorem Tracked.bump (h : Tracked s events) (hold : Supersedes s) : Tracked s.bump events where
  right := h.right
  cut_le := Nat.le_refl _
  accepted := h.accepted
  returned since hmem := Nat.le_trans (h.returned since hmem) h.cut_le
  callers n since hmem := Nat.le_trans (h.callers n since hmem) h.cut_le
  inbox hbuf := absurd rfl hbuf
  played hbuf := absurd rfl hbuf
  sequence i hi :=
    let hseq := h.sequence i hi
    ⟨hseq.source, hseq.before, fun hlt hgen => absurd hgen (hold.gen_ne hi hlt), hseq.gen,
      fun _ hbuf => absurd rfl hbuf⟩
  checked i hi := absurd hi (hold.not_checked i)

theorem Tracked.submit (h : Tracked s events) (hold : Supersedes s) (notes : List Note) :
    Tracked (s.submit notes) (events ++ [.accepted s.accepted (notes.take seqMax)]) where
  right := h.right.append (fun id i note he => by cases he) fun a ha => by
    cases a with
    | accepted id notes => exact h.accepted id notes ha
    | started id i note => trivial
    | returned since => trivial
  cut_le := Nat.le_succ _
  accepted id notes' hmem := by
    rcases List.mem_append.mp hmem with hmem | hmem
    · exact Nat.lt_succ_of_lt (h.accepted id notes' hmem)
    · obtain ⟨rfl, -⟩ := Event.accepted.inj (List.mem_singleton.mp hmem)
      exact Nat.lt_succ_self _
  returned since hmem :=
    Nat.le_trans (h.returned since (mem_append_ne hmem (by simp))) h.cut_le
  callers n since hmem := Nat.le_trans (h.callers n since hmem) h.cut_le
  inbox _ := ⟨rfl, List.mem_append_right _ List.mem_cons_self⟩
  played _ i note hmem :=
    absurd (h.started (mem_append_ne hmem (by simp))) (Nat.lt_irrefl s.accepted)
  sequence i hi :=
    let hseq := h.sequence i hi
    ⟨fun hlt => List.mem_append_left _ (hseq.source hlt),
      fun hlt id' i' note hmem => hseq.before hlt id' i' note (mem_append_ne hmem (by simp)),
      fun hlt hgen => absurd hgen (hold.gen_ne hi hlt), hseq.gen,
      fun hlt _ hid => absurd (h.accepted _ _ (hseq.source hlt)) (hid ▸ Nat.lt_irrefl _)⟩
  checked i hi := absurd hi (hold.not_checked i)

theorem Tracked.playerMove (h : Tracked s events) {s' : Buzzer k} {more : List Event}
    (hmove : PlayerMove s s' more) : Tracked s' (events ++ more) := by
  cases hmove with
  | waits => rwa [List.append_nil]
  | wakes hpc hnotified =>
      rw [List.append_nil]
      refine (h.goTo (fun i hi => ?_) fun i hi => by cases hi).notify false
      rcases hi with hi | hi | ⟨j, stage, -, hi⟩ <;> cases hi
  | skips hpc hgen =>
      rw [List.append_nil]
      exact h.skips
  | copies hpc hgen =>
      rw [List.append_nil]
      exact h.copies hgen
  | passes i hpc hi hgen =>
      rw [List.append_nil]
      refine h.goTo (fun j hj => ?_) fun j hj => ?_
      · rcases hj with hj | hj | ⟨j, stage, -, hj⟩
        · cases hj
        · rw [← PlayerPc.checked.inj hj]
          exact .inl hpc
        · cases hj
      · rw [← PlayerPc.checked.inj hj]
        exact ⟨hi, (h.sequence i (.inl hpc)).fresh hi hgen⟩
  | ends i hpc =>
      rw [List.append_nil]
      refine h.goTo (fun i hi => ?_) fun i hi => by cases hi
      rcases hi with hi | hi | ⟨j, stage, -, hi⟩ <;> cases hi
  | starts i hpc => exact h.starts hpc
  | sounds i stage stage' hpc =>
      rw [List.append_nil]
      refine h.goTo (fun j hj => ?_) fun j hj => by cases hj
      rcases hj with hj | hj | ⟨j', stage'', heq, hj⟩
      · cases hj
      · cases hj
      · rw [heq, ← (PlayerPc.inTone.inj hj).1]
        exact .inr (.inr ⟨i, stage, rfl, hpc⟩)
  | returns i stage hpc =>
      rw [List.append_nil]
      refine h.goTo (fun j hj => ?_) fun j hj => by cases hj
      rcases hj with hj | hj | ⟨j', stage'', heq, hj⟩
      · rw [← PlayerPc.checking.inj hj]
        exact .inr (.inr ⟨i, stage, rfl, hpc⟩)
      · cases hj
      · cases hj
  | silences hpc =>
      rw [List.append_nil]
      refine h.goTo (fun i hi => ?_) fun i hi => by cases hi
      rcases hi with hi | hi | ⟨j, stage, -, hi⟩ <;> cases hi

theorem Tracked.callerMove (h : Tracked s events) {n : Fin k} {s' : Buzzer k} {more : List Event}
    (hmove : CallerMove s n s' more) (hn : CallerUndisturbed s (s.callers n)) :
    Tracked s' (events ++ more) := by
  have hsince (since : Nat) (hcaller : (s.callers n).since? = some since) : since ≤ s.cut :=
    h.callers n since hcaller
  cases hmove with
  | stays => rwa [List.append_nil]
  | submits notes hcaller =>
      rw [hcaller] at hn
      refine (h.submit hn.1 notes).setCaller fun since hs => ?_
      exact Nat.le_of_eq (Option.some.inj hs).symm
  | submitted since hcaller =>
      have hle := hsince since (by rw [hcaller]; rfl)
      exact ((h.append_returned hle).setCaller fun _ hs => by cases hs).notify true
  | stops hcaller =>
      rw [hcaller] at hn
      rw [List.append_nil]
      refine (h.bump hn.1).setCaller fun since hs => ?_
      exact Nat.le_of_eq (Option.some.inj hs).symm
  | stopped since hcaller =>
      have hle := hsince since (by rw [hcaller]; rfl)
      exact (h.append_returned hle).setCaller fun _ hs => by cases hs
  | plays notes hcaller =>
      rw [hcaller] at hn
      rw [List.append_nil]
      refine (h.bump hn.1).setCaller fun since hs => ?_
      exact Nat.le_of_eq (Option.some.inj hs).symm
  | ends since hcaller =>
      cases since with
      | none =>
          rw [show returnedEvent none = [] from rfl, List.append_nil]
          exact h.setCaller fun _ hs => by cases hs
      | some since =>
          have hle := hsince since (by rw [hcaller]; rfl)
          exact (h.append_returned hle).setCaller fun _ hs => by cases hs
  | goesOn c hblocking hsubmitted heq =>
      rw [List.append_nil]
      exact h.setCaller fun since hs => hsince since (heq ▸ hs)

theorem since?_start (c : Call) : c.start.since? = none := by
  cases c with
  | submit notes =>
      rw [Call.start]
      split <;> rfl
  | stop | playSequence notes | tone note => rfl

theorem Tracked.step (h : Tracked s events) {t : Turn k} (ht : Undisturbed s t) :
    Tracked (turnStep s t).1 (events ++ (turnStep s t).2) := by
  cases t with
  | player => exact h.playerMove (playerStep_move s)
  | call n c =>
      rw [turnStep]
      split
      · rw [List.append_nil]
        exact h.setCaller fun since hs => by rw [since?_start] at hs; cases hs
      · rwa [List.append_nil]
  | caller n => exact h.callerMove (callerStep_move s n) ht

theorem tracked_init (k volumePct : Nat) : Tracked (buzzerInit k volumePct) [] where
  right := ⟨fun _ _ _ h => absurd h List.not_mem_nil, .nil⟩
  cut_le := Nat.le_refl _
  accepted _ _ h := absurd h List.not_mem_nil
  returned _ h := absurd h List.not_mem_nil
  callers _ _ h := by cases h
  inbox h := absurd rfl h
  played h := absurd rfl h
  sequence i hi := by rcases hi with hi | hi | ⟨j, stage, -, hi⟩ <;> cases hi
  checked i hi := by cases hi

/-- The tones are exclusive and current in every run in which no call does harm. -/
theorem tones_exclusive (volumePct : Nat) (turns : List (Turn k))
    (h : Along turnStep Undisturbed (buzzerInit k volumePct) turns) :
    TonesRight (buzzerInit k volumePct) turns where
  exclusive := (h.throughout (fun _ _ hs ht => Blocked.step hs ht)
    (blocked_init k volumePct)).mono fun _ hs => hs.exclusive
  own := h.of_invariant (fun _ t hs ht => ⟨Blocked.step hs ht, hs.silencesOwn t⟩)
    (blocked_init k volumePct)
  events :=
    (h.monitor (I := Tracked) (fun _ _ _ hs ht => hs.step ht) (tracked_init k volumePct)).right

/-- One caller submits a note, and wakes the player. -/
def submitNote : List (Turn 1) := [.call 0 (.submit [⟨660, 60⟩]), .caller 0, .caller 0]

/-- The player comes to the call of `jpp_buzzer_tone`. -/
def toChecked : List (Turn 1) := [.player, .player, .player]

/-- The caller plays a note of its own. -/
def playNote : List (Turn 1) := [.call 0 (.playSequence [⟨880, 60⟩]), .caller 0, .caller 0]

/-- The caller stops what is played. -/
def stopAll : List (Turn 1) := [.call 0 .stop, .caller 0, .caller 0]

/-- A stop between two notes, or before the first one, is in time. -/
theorem tones_exclusive_stop :
    TonesRight (buzzerInit 1 100) (submitNote ++ [.player, .player] ++ stopAll ++ [.player]) :=
  tones_exclusive 100 _ (by decide)

/-- A blocking note begins while the player is in one, which ends by silencing it; and a note that
was checked for is started after the stop has returned. -/
theorem not_tones_exclusive :
    (¬ ∀ turns : List (Turn 1), Throughout turnStep Exclusive (buzzerInit 1 100) turns) ∧
      (¬ ∀ turns : List (Turn 1), Along turnStep SilencesOwn (buzzerInit 1 100) turns) ∧
      ¬ ∀ turns : List (Turn 1), EventsRight (outputs turnStep (buzzerInit 1 100) turns) := by
  refine ⟨fun h => ?_, fun h => ?_, fun h => ?_⟩
  · have hlast := (h (submitNote ++ toChecked ++ [.player] ++ playNote)).last
    exact absurd hlast (by decide)
  · exact absurd (h (submitNote ++ toChecked ++ [.player, .player] ++ playNote ++
      [.caller 0, .player])) (by decide)
  · exact absurd (h (submitNote ++ toChecked ++ stopAll ++ [.player])).order (by decide)

end Sound
end JppDos
