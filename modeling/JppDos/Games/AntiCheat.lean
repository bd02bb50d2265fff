import JppDos.Games.Pong

/-!
# The movement checks of the Pong host

`anticheat_check` and the turns of `play_host`: the host takes at most one packet of the client in
a tick, and moves the right paddle only as far as the ticks since the last accepted packet allow.
The ticks are counted in 16 bits and subtracted in 32.

Main fact:
* `guarded_iff`: a match keeps to the rules exactly if it has no jump.
-/

namespace JppDos
namespace Games
namespace Pong

open CInt Machine

/-- `AC_MAX_SPEED`. -/
def acMaxSpeed : Int := 2

/-- `AC_TOLERANCE`. -/
def acTolerance : Int := 4

/-- `AC_THRESHOLD`. -/
def acThreshold : Nat := 5

/-- `HOST_WATCHDOG_TICKS`. -/
def hostWatchdogTicks : Nat := 60

/-- `anticheat_t`. -/
structure AntiCheat where
  lastSeq : UInt16
  haveSeq : Bool
  lastAcceptTick : UInt32
  violations : Nat
  deriving DecidableEq

/-- What becomes of a packet in `anticheat_check`, which returns true for a clean one. -/
inductive Verdict where
  | stale
  | violation
  | clean
  deriving DecidableEq

/-- `max_delta`. -/
def AntiCheat.maxDelta (ac : AntiCheat) (now : UInt32) : Int :=
  let dt := now - ac.lastAcceptTick
  let dt := if 1000 < dt then 1000 else dt
  dt.toNat * acMaxSpeed + acTolerance

/-- `anticheat_check`; `rightY` is the paddle before the packet. -/
def anticheatCheck (ac : AntiCheat) (seq : UInt16) (paddleY : Int) (now : UInt32) (rightY : Int) :
    Verdict × AntiCheat :=
  if ac.haveSeq ∧ seq - ac.lastSeq = 0 then (.stale, ac)
  else if ac.haveSeq ∧ 0x8000 < seq - ac.lastSeq then (.stale, ac)
  else if (paddleY < 0 ∨ paddleMaxY < paddleY) ∨
      (ac.haveSeq ∧ ac.maxDelta now < (paddleY - rightY).natAbs) then
    (.violation, { ac with violations := ac.violations + 1 })
  else (.clean, ⟨seq, true, now, ac.violations - 1⟩)

/-- What the host finds in its receive buffer. -/
inductive Received where
  | nothing
  | bye
  | paddle (seq : UInt16) (y : Int)
  | other
  deriving DecidableEq

/-- The tests on a packet in `play_host`. -/
def received : Option (List UInt8) → Received
  | none => .nothing
  | some rx =>
      if 8 ≤ rx.length ∧ at? rx 0 = 0xA5 then
        if at? rx 1 = 0x03 then .bye
        else if at? rx 1 = 0x02 then .paddle (UInt16.ofNat (at? rx 2 + at? rx 3 * 256)) (at? rx 4)
        else .other
      else .nothing

/-- `client_send_paddle` with `PKT_TYPE_PADDLE`. -/
def clientSendPaddle (seq : Nat) (paddleY : Int) : List UInt8 :=
  [0xA5, 0x02, UInt8.ofNat (seq % 256), UInt8.ofNat (seq / 256), byte paddleY, 0, 0, 0]

/-- The reasons to end a match. -/
inductive Ending where
  | quit
  | anticheat
  | timeout
  deriving DecidableEq

/-- The variables of `play_host`. -/
structure Host where
  game : State
  ac : AntiCheat
  tick : UInt16
  idleTicks : Nat
  ended : Option Ending
  deriving DecidableEq

/-- What a turn of the host meets: the keys on its paddle, whether they end with the key that quits,
what has been received, and the numbers drawn. -/
structure HostTurn where
  keys : List Bool
  quit : Bool
  rx : Option (List UInt8)
  draw : Draw
  deriving DecidableEq

/-- The host takes what has been received. -/
def Host.receive (h : Host) : Received → Host × List Verdict
  | .nothing =>
      ({ h with
          idleTicks := h.idleTicks + 1
          ended := if hostWatchdogTicks < h.idleTicks + 1 then some .timeout else none }, [])
  | .bye => ({ h with ended := some .quit }, [])
  | .paddle seq y =>
      let (verdict, ac) := anticheatCheck h.ac seq y h.tick.toUInt32 h.game.rightY
      ({ h with
          game := { h.game with rightY := if verdict = .clean then y else h.game.rightY }
          ac := ac
          idleTicks := 0
          ended := if acThreshold ≤ ac.violations then some .anticheat else none }, [verdict])
  | .other => (h, [])

/-- The host moves the ball, if the match goes on. -/
def Host.play (draw : Draw) (h : Host) : Host :=
  if h.ended.isSome then h else { h with game := (stepBall draw h.game).2 }

/-- A turn of the loop of `play_host`, with what becomes of a packet; nothing happens in a match
that has ended. -/
def hostTurn (h : Host) (t : HostTurn) : Host × List Verdict :=
  if h.ended.isSome then (h, [])
  else
    let h := { h with
      tick := h.tick + 1
      game := { h.game with leftY := moveLeft t.keys h.game.leftY } }
    if t.quit then ({ h with ended := some .quit }, [])
    else ((h.receive (received t.rx)).1.play t.draw, (h.receive (received t.rx)).2)

/-- The variables at the beginning. -/
def matchHost (draw : Draw) (right : Bool) : Host :=
  ⟨hostStart draw right, ⟨0, false, 0, 0⟩, 0, 0, none⟩

/-- A match as it is watched: `since` is the number of turns since a packet was accepted. -/
structure Watched where
  host : Host
  since : Nat

/-- A turn of a match that is watched. -/
def watchedTurn (w : Watched) (t : HostTurn) : Watched × List Verdict :=
  (⟨(hostTurn w.host t).1, if .clean ∈ (hostTurn w.host t).2 then 0 else w.since + 1⟩,
    (hostTurn w.host t).2)

/-- The beginning of a match that is watched. -/
def watchStart (draw : Draw) (right : Bool) : Watched := ⟨matchHost draw right, 0⟩

/-- A sequence number that is the last one or older, modulo 2^16. -/
def NotNewer (seq last : UInt16) : Prop := ∃ back : UInt16, back < 0x8000 ∧ last = seq + back

/-- A turn keeps to the rules: the paddle is on the court, and has moved by no more than the ticks
since the last accepted packet allow; a packet that is not newer than that one does nothing. -/
structure Bounded (w : Watched) (t : HostTurn) : Prop where
  court : 0 ≤ (watchedTurn w t).1.host.game.rightY ∧
    (watchedTurn w t).1.host.game.rightY ≤ paddleMaxY
  speed : w.host.ac.haveSeq →
    ((watchedTurn w t).1.host.game.rightY - w.host.game.rightY).natAbs ≤
      acMaxSpeed * min (w.since + 1) 1000 + acTolerance
  repeated : w.host.ac.haveSeq → ∀ seq y, received t.rx = .paddle seq y →
    NotNewer seq w.host.ac.lastSeq →
      (watchedTurn w t).1.host.game.rightY = w.host.game.rightY ∧
        (watchedTurn w t).1.host.ac = w.host.ac

/-- A match keeps to the rules: all its turns do, and five violations more than clean packets, in
any part of it, end it. -/
structure Guarded (draw : Draw) (right : Bool) (turns : List HostTurn) : Prop where
  bounded : Along watchedTurn Bounded (watchStart draw right) turns
  strikes : ∀ before part after, turns = before ++ part ++ after →
    let verdicts := outputs watchedTurn (run watchedTurn (watchStart draw right) before) part
    verdicts.count .clean + acThreshold ≤ verdicts.count .violation →
      (run watchedTurn (watchStart draw right) (before ++ part)).host.ended = some .anticheat

/-- A packet that uses the end of the counter of ticks: it comes with a new number and a paddle on
the court when the counter has begun again since the last accepted packet, and is farther away than
the turns since then allow. -/
def Jump (w : Watched) (t : HostTurn) : Prop :=
  w.host.ended = none ∧ t.quit = false ∧ w.host.ac.haveSeq ∧
    (w.host.tick + 1).toUInt32 < w.host.ac.lastAcceptTick ∧
      ∃ seq y, received t.rx = .paddle seq y ∧ ¬ NotNewer seq w.host.ac.lastSeq ∧
        (0 ≤ y ∧ y ≤ paddleMaxY) ∧
          acMaxSpeed * (w.since + 1) + acTolerance < (y - w.host.game.rightY).natAbs

section Packets

variable {ac : AntiCheat} {seq last : UInt16} {y rightY : Int} {now : UInt32}

theorem notNewer_iff : NotNewer seq last ↔ seq - last = 0 ∨ 0x8000 < seq - last := by
  have hseq := seq.toNat_lt
  have hlast := last.toNat_lt
  have hsub : (seq - last).toNat = (2 ^ 16 - last.toNat + seq.toNat) % 2 ^ 16 :=
    UInt16.toNat_sub seq last
  rw [← UInt16.toNat_inj, UInt16.lt_iff_toNat_lt, hsub]
  simp only [UInt16.reduceToNat]
  constructor
  · rintro ⟨back, hback, rfl⟩
    have hlt := UInt16.lt_iff_toNat_lt.mp hback
    rw [UInt16.toNat_add] at *
    simp only [UInt16.reduceToNat] at hlt
    omega
  · intro h
    refine ⟨last - seq, ?_, ?_⟩
    · rw [UInt16.lt_iff_toNat_lt, UInt16.toNat_sub]
      simp only [UInt16.reduceToNat]
      omega
    · rw [← UInt16.toNat_inj, UInt16.toNat_add, UInt16.toNat_sub]
      omega

theorem anticheatCheck_cases (ac : AntiCheat) (seq : UInt16) (y : Int) (now : UInt32)
    (rightY : Int) :
    ((ac.haveSeq ∧ NotNewer seq ac.lastSeq) ∧
        anticheatCheck ac seq y now rightY = (.stale, ac)) ∨
      (¬ (ac.haveSeq ∧ NotNewer seq ac.lastSeq) ∧
        ((y < 0 ∨ paddleMaxY < y) ∨ (ac.haveSeq ∧ ac.maxDelta now < (y - rightY).natAbs)) ∧
        anticheatCheck ac seq y now rightY =
          (.violation, { ac with violations := ac.violations + 1 })) ∨
      (¬ (ac.haveSeq ∧ NotNewer seq ac.lastSeq) ∧
        ((0 ≤ y ∧ y ≤ paddleMaxY) ∧ (ac.haveSeq → ((y - rightY).natAbs : Int) ≤ ac.maxDelta now)) ∧
        anticheatCheck ac seq y now rightY = (.clean, ⟨seq, true, now, ac.violations - 1⟩)) := by
  rw [notNewer_iff, and_or_left]
  unfold anticheatCheck
  by_cases hsame : ac.haveSeq ∧ seq - ac.lastSeq = 0
  · exact Or.inl ⟨Or.inl hsame, if_pos hsame⟩
  rw [if_neg hsame]
  by_cases hold : ac.haveSeq ∧ 0x8000 < seq - ac.lastSeq
  · exact Or.inl ⟨Or.inr hold, if_pos hold⟩
  rw [if_neg hold]
  have hnew : ¬ ((ac.haveSeq ∧ seq - ac.lastSeq = 0) ∨ (ac.haveSeq ∧ 0x8000 < seq - ac.lastSeq)) :=
    not_or.mpr ⟨hsame, hold⟩
  by_cases hbad : (y < 0 ∨ paddleMaxY < y) ∨ (ac.haveSeq ∧ ac.maxDelta now < (y - rightY).natAbs)
  · exact Or.inr (Or.inl ⟨hnew, hbad, if_pos hbad⟩)
  · refine Or.inr (Or.inr ⟨hnew, ⟨?_, fun hhave => ?_⟩, if_neg hbad⟩)
    · omega
    · exact Int.not_lt.mp fun hlt => hbad (Or.inr ⟨hhave, hlt⟩)

theorem maxDelta_of_le (h : ac.lastAcceptTick.toNat ≤ now.toNat) :
    ac.maxDelta now =
      acMaxSpeed * min (now.toNat - ac.lastAcceptTick.toNat : Nat) 1000 + acTolerance := by
  have hnow := now.toNat_lt
  have hdt : (now - ac.lastAcceptTick).toNat = now.toNat - ac.lastAcceptTick.toNat := by
    rw [UInt32.toNat_sub]
    omega
  unfold AntiCheat.maxDelta acMaxSpeed acTolerance
  dsimp only
  by_cases hcap : 1000 < now - ac.lastAcceptTick
  · have hlt := UInt32.lt_iff_toNat_lt.mp hcap
    rw [if_pos hcap]
    rw [hdt] at hlt
    simp only [UInt32.reduceToNat] at hlt ⊢
    omega
  · have hle : ¬ (1000 : UInt32).toNat < (now - ac.lastAcceptTick).toNat :=
      fun h => hcap (UInt32.lt_iff_toNat_lt.mpr h)
    rw [if_neg hcap]
    rw [hdt] at hle ⊢
    simp only [UInt32.reduceToNat] at hle
    omega

theorem maxDelta_of_lt (h : now.toNat < ac.lastAcceptTick.toNat)
    (hlast : ac.lastAcceptTick.toNat < 2 ^ 16) :
    ac.maxDelta now = acMaxSpeed * 1000 + acTolerance := by
  have hcap : 1000 < now - ac.lastAcceptTick := by
    rw [UInt32.lt_iff_toNat_lt, UInt32.toNat_sub]
    simp only [UInt32.reduceToNat]
    omega
  unfold AntiCheat.maxDelta acMaxSpeed acTolerance
  dsimp only
  rw [if_pos hcap]
  rfl

end Packets

section Turns

variable {h : Host} {t : HostTurn} {w : Watched}

theorem stepBall_rightY (draw : Draw) (g : State) : (stepBall draw g).2.rightY = g.rightY := by
  have hwall : ∀ g : State, (wallBounce g).rightY = g.rightY := by
    intro g
    unfold wallBounce topBounce bottomBounce
    split_ifs <;> rfl
  have hhits : ∀ py (g : State), (paddleHits py g).rightY = g.rightY := by
    intro py g
    unfold paddleHits
    dsimp only
    split_ifs <;> rfl
  have hfly : (paddleHits (px (moveBall g).ballY) (wallBounce (moveBall g))).rightY = g.rightY :=
    (hhits _ _).trans (hwall _)
  unfold stepBall
  dsimp only
  split_ifs
  · rfl
  · rfl
  · exact hfly
  · exact hfly
  · exact hfly

@[simp] theorem play_rightY (draw : Draw) : (h.play draw).game.rightY = h.game.rightY := by
  unfold Host.play
  split_ifs
  · rfl
  · exact stepBall_rightY draw h.game

@[simp] theorem play_rest (draw : Draw) :
    (h.play draw).ac = h.ac ∧ (h.play draw).tick = h.tick ∧ (h.play draw).ended = h.ended := by
  unfold Host.play
  split_ifs
  · exact ⟨rfl, rfl, rfl⟩
  · exact ⟨rfl, rfl, rfl⟩

/-- The packet with a paddle that a turn takes. -/
def Takes (t : HostTurn) (seq : UInt16) (y : Int) : Prop :=
  t.quit = false ∧ received t.rx = .paddle seq y

theorem Takes.unique {seq seq' : UInt16} {y y' : Int} (ht : Takes t seq y) (ht' : Takes t seq' y') :
    seq = seq' ∧ y = y' := by
  have heq := ht.2.symm.trans ht'.2
  injection heq with hseq hy
  exact ⟨hseq, hy⟩

theorem hostTurn_of_takes (hlive : h.ended = none) {seq : UInt16} {y : Int} (ht : Takes t seq y)
    {verdict : Verdict} {ac : AntiCheat}
    (hcheck : anticheatCheck h.ac seq y (h.tick + 1).toUInt32 h.game.rightY = (verdict, ac)) :
    (hostTurn h t).2 = [verdict] ∧ (hostTurn h t).1.ac = ac ∧
      (hostTurn h t).1.tick = h.tick + 1 ∧
      (hostTurn h t).1.game.rightY = (if verdict = .clean then y else h.game.rightY) ∧
      (hostTurn h t).1.ended = (if acThreshold ≤ ac.violations then some .anticheat else none) := by
  have hturn : hostTurn h t =
      (({ game := { h.game with
            leftY := moveLeft t.keys h.game.leftY
            rightY := if verdict = .clean then y else h.game.rightY }
          ac := ac
          tick := h.tick + 1
          idleTicks := 0
          ended := if acThreshold ≤ ac.violations then some .anticheat else none } : Host).play
        t.draw, [verdict]) := by
    unfold hostTurn
    rw [hlive, ht.1, ht.2]
    dsimp only [Host.receive]
    rw [hcheck]
    rfl
  rw [hturn]
  obtain ⟨hac, htick, hended⟩ := play_rest (h := _) t.draw
  exact ⟨rfl, hac, htick, play_rightY _, hended⟩

theorem hostTurn_of_not_takes (hlive : h.ended = none) (ht : ∀ seq y, ¬ Takes t seq y) :
    (hostTurn h t).2 = [] ∧ (hostTurn h t).1.ac = h.ac ∧ (hostTurn h t).1.tick = h.tick + 1 ∧
      (hostTurn h t).1.game.rightY = h.game.rightY := by
  unfold hostTurn
  rw [hlive]
  cases hquit : t.quit with
  | true => simp
  | false =>
      cases hrx : received t.rx with
      | paddle seq y => exact absurd ⟨hquit, hrx⟩ (ht seq y)
      | _ => simp [Host.receive]

theorem hostTurn_of_ended (hended : h.ended.isSome) : hostTurn h t = (h, []) := by
  rw [hostTurn, if_pos hended]

/-- What every turn keeps: the paddle is on the court, the counter of ticks tells the turns since
the last accepted packet modulo 2^16, and enough violations have ended the match. -/
structure Watched.Sound (w : Watched) : Prop where
  court : 0 ≤ w.host.game.rightY ∧ w.host.game.rightY ≤ paddleMaxY
  clock : w.host.ended = none → w.host.ac.haveSeq → w.host.ac.lastAcceptTick.toNat < 2 ^ 16 ∧
    (w.host.ac.lastAcceptTick.toNat + w.since) % 2 ^ 16 = w.host.tick.toNat
  strikes : acThreshold ≤ w.host.ac.violations → w.host.ended = some .anticheat

theorem toNat_tick (tick : UInt16) : (tick + 1).toUInt32.toNat = (tick.toNat + 1) % 2 ^ 16 := by
  rw [UInt16.toNat_toUInt32, UInt16.toNat_add]
  rfl

/-- What the turns of a match that goes on do, as far as the rules go. -/
inductive TurnCase (h : Host) (t : HostTurn) (h' : Host) : List Verdict → Prop where
  | idle (hnone : ∀ seq y, ¬ Takes t seq y) (hac : h'.ac = h.ac)
      (hright : h'.game.rightY = h.game.rightY) : TurnCase h t h' []
  | stale (seq : UInt16) (y : Int) (htakes : Takes t seq y)
      (hold : h.ac.haveSeq ∧ NotNewer seq h.ac.lastSeq) (hac : h'.ac = h.ac)
      (hright : h'.game.rightY = h.game.rightY) : TurnCase h t h' [.stale]
  | violation (seq : UInt16) (y : Int) (htakes : Takes t seq y)
      (hnew : ¬ (h.ac.haveSeq ∧ NotNewer seq h.ac.lastSeq))
      (hbad : (y < 0 ∨ paddleMaxY < y) ∨
        (h.ac.haveSeq ∧ h.ac.maxDelta (h.tick + 1).toUInt32 < (y - h.game.rightY).natAbs))
      (hac : h'.ac = { h.ac with violations := h.ac.violations + 1 })
      (hright : h'.game.rightY = h.game.rightY) : TurnCase h t h' [.violation]
  | clean (seq : UInt16) (y : Int) (htakes : Takes t seq y)
      (hnew : ¬ (h.ac.haveSeq ∧ NotNewer seq h.ac.lastSeq)) (hcourt : 0 ≤ y ∧ y ≤ paddleMaxY)
      (hslow : h.ac.haveSeq →
        ((y - h.game.rightY).natAbs : Int) ≤ h.ac.maxDelta (h.tick + 1).toUInt32)
      (hac : h'.ac = ⟨seq, true, (h.tick + 1).toUInt32, h.ac.violations - 1⟩)
      (hright : h'.game.rightY = y) : TurnCase h t h' [.clean]

/-- A turn of a match that goes on is one of them; it counts a tick, and five violations end the
match. -/
theorem hostTurn_cases (hlive : h.ended = none) (t : HostTurn) :
    TurnCase h t (hostTurn h t).1 (hostTurn h t).2 ∧ (hostTurn h t).1.tick = h.tick + 1 ∧
      (h.ac.violations < acThreshold → acThreshold ≤ (hostTurn h t).1.ac.violations →
        (hostTurn h t).1.ended = some .anticheat) := by
  by_cases htakes : ∃ seq y, Takes t seq y
  · obtain ⟨seq, y, htakes⟩ := htakes
    rcases anticheatCheck_cases h.ac seq y (h.tick + 1).toUInt32 h.game.rightY with
      ⟨hold, hcheck⟩ | ⟨hnew, hbad, hcheck⟩ | ⟨hnew, ⟨hcourt, hslow⟩, hcheck⟩
    all_goals
      obtain ⟨hout, hac, htick, hright, hend⟩ := hostTurn_of_takes hlive htakes hcheck
      rw [hout, hac, hend]
      refine ⟨?_, htick, fun _ hmany => if_pos hmany⟩
    · exact .stale seq y htakes hold hac hright
    · exact .violation seq y htakes hnew hbad hac hright
    · exact .clean seq y htakes hnew hcourt hslow hac hright
  · have hnone : ∀ seq y, ¬ Takes t seq y := fun seq y h => htakes ⟨seq, y, h⟩
    obtain ⟨hout, hac, htick, hright⟩ := hostTurn_of_not_takes hlive hnone
    rw [hout, hac]
    exact ⟨.idle hnone hac hright, htick, fun hfew hmany => absurd hmany (Nat.not_le.mpr hfew)⟩

theorem Watched.Sound.turn (hw : w.Sound) (t : HostTurn) : (watchedTurn w t).1.Sound := by
  rw [watchedTurn]
  by_cases hended : w.host.ended.isSome
  · have hsome : w.host.ended ≠ none := Option.isSome_iff_ne_none.mp hended
    rw [hostTurn_of_ended hended]
    exact ⟨hw.court, fun hnone => absurd hnone hsome, hw.strikes⟩
  have hlive : w.host.ended = none := Option.not_isSome_iff_eq_none.mp hended
  have hfew : w.host.ac.violations < acThreshold := by
    by_contra hmany
    rw [hw.strikes (Nat.not_lt.mp hmany)] at hlive
    cases hlive
  obtain ⟨hcase, htick, hstrikes⟩ := hostTurn_cases hlive t
  -- the ticks since the last accepted packet, if this turn has none
  have hclock : w.host.ac.haveSeq → w.host.ac.lastAcceptTick.toNat < 2 ^ 16 ∧
      (w.host.ac.lastAcceptTick.toNat + (w.since + 1)) % 2 ^ 16 =
        (hostTurn w.host t).1.tick.toNat := by
    intro hhave
    obtain ⟨hlt, hmod⟩ := hw.clock hlive hhave
    refine ⟨hlt, ?_⟩
    rw [htick, UInt16.toNat_add, ← hmod]
    simp only [UInt16.reduceToNat]
    omega
  revert hcase htick hstrikes hclock
  generalize hostTurn w.host t = result
  obtain ⟨h', out⟩ := result
  intro hcase htick hstrikes hclock
  refine ⟨?_, fun _ => ?_, hstrikes hfew⟩
  · cases hcase with
    | clean _ _ _ _ hcourt _ _ hright => exact hright.symm ▸ hcourt
    | idle _ _ hright => exact hright.symm ▸ hw.court
    | stale _ _ _ _ _ hright => exact hright.symm ▸ hw.court
    | violation _ _ _ _ _ _ hright => exact hright.symm ▸ hw.court
  · cases hcase with
    | clean _ _ _ _ _ _ hac _ =>
        have hlt := h'.tick.toNat_lt
        dsimp only at hac htick ⊢
        rw [hac, ← htick, if_pos List.mem_cons_self, UInt16.toNat_toUInt32]
        exact fun _ => ⟨hlt, Nat.mod_eq_of_lt hlt⟩
    | idle _ hac _ =>
        dsimp only at hac ⊢
        rw [hac]
        exact hclock
    | stale _ _ _ _ hac _ =>
        dsimp only at hac ⊢
        rw [hac]
        exact hclock
    | violation _ _ _ _ _ hac _ =>
        dsimp only at hac ⊢
        rw [hac]
        exact hclock

/-- A turn moves the paddle within the bound exactly if it is no jump. -/
theorem bounded_iff (hw : w.Sound) (t : HostTurn) : Bounded w t ↔ ¬ Jump w t := by
  have hcourt := (hw.turn t).court
  by_cases hended : w.host.ended.isSome
  · have hsame : (watchedTurn w t).1.host = w.host := by
      rw [watchedTurn, hostTurn_of_ended hended]
    rw [hsame] at hcourt
    refine ⟨fun _ hjump => ?_, fun _ => ⟨?_, fun _ => ?_, fun _ _ _ _ _ => ?_⟩⟩
    · rw [hjump.1] at hended
      cases hended
    all_goals rw [hsame]
    · exact hcourt
    · unfold acMaxSpeed acTolerance
      omega
    · exact ⟨rfl, rfl⟩
  have hlive : w.host.ended = none := Option.not_isSome_iff_eq_none.mp hended
  have htick := toNat_tick w.host.tick
  have hcase := (hostTurn_cases hlive t).1
  constructor
  · -- the packet is accepted, and the paddle moves by more than the turns allow
    rintro hbounded ⟨-, hquit, hhave, hwrap, seq, y, hrx, hnew, hon, hfar⟩
    have htakes : Takes t seq y := ⟨hquit, hrx⟩
    have hmax := maxDelta_of_lt (UInt32.lt_iff_toNat_lt.mp hwrap) (hw.clock hlive hhave).1
    have hspeed := hbounded.speed hhave
    have hrow := hw.court
    change (((hostTurn w.host t).1.game.rightY - w.host.game.rightY).natAbs : Int) ≤ _ at hspeed
    revert hspeed hcase
    generalize hostTurn w.host t = result
    obtain ⟨h', out⟩ := result
    intro hcase hspeed
    cases hcase with
    | idle hnone _ _ => exact hnone seq y htakes
    | stale _ _ htakes' hold _ _ =>
        obtain ⟨rfl, rfl⟩ := htakes.unique htakes'
        exact hnew hold.2
    | violation _ _ htakes' _ hbad _ _ =>
        obtain ⟨rfl, rfl⟩ := htakes.unique htakes'
        rw [hmax] at hbad
        unfold acMaxSpeed acTolerance paddleMaxY paddleH at *
        omega
    | clean _ _ htakes' _ _ _ _ hright =>
        obtain ⟨rfl, rfl⟩ := htakes.unique htakes'
        dsimp only at hright hspeed
        rw [hright] at hspeed
        unfold acMaxSpeed acTolerance at *
        omega
  · intro hjump
    have hrow := hw.court
    refine ⟨hcourt, fun hhave => ?_, fun hhave seq y hrx hold => ?_⟩
    · change (((hostTurn w.host t).1.game.rightY - w.host.game.rightY).natAbs : Int) ≤ _
      revert hcase
      generalize hostTurn w.host t = result
      obtain ⟨h', out⟩ := result
      intro hcase
      -- a paddle that has not moved is within every bound
      have hstill : h'.game.rightY = w.host.game.rightY →
          ((h'.game.rightY - w.host.game.rightY).natAbs : Int) ≤
            acMaxSpeed * min (w.since + 1) 1000 + acTolerance := by
        unfold acMaxSpeed acTolerance
        omega
      cases hcase with
      | idle _ _ hright => exact hstill hright
      | stale _ _ _ _ _ hright => exact hstill hright
      | violation _ _ _ _ _ _ hright => exact hstill hright
      | clean seq y htakes hnew hon hslow _ hright =>
          have hspeed := hslow hhave
          obtain ⟨hlt, hmod⟩ := hw.clock hlive hhave
          dsimp only at hright ⊢
          rw [hright]
          by_cases hwrap : (w.host.tick + 1).toUInt32.toNat < w.host.ac.lastAcceptTick.toNat
          · have hnear : ¬ acMaxSpeed * (w.since + 1) + acTolerance <
                (y - w.host.game.rightY).natAbs := fun hfar =>
              hjump ⟨hlive, htakes.1, hhave, UInt32.lt_iff_toNat_lt.mpr hwrap, seq, y, htakes.2,
                fun hold => hnew ⟨hhave, hold⟩, hon, hfar⟩
            unfold acMaxSpeed acTolerance paddleMaxY paddleH at *
            omega
          · rw [maxDelta_of_le (Nat.not_lt.mp hwrap)] at hspeed
            unfold acMaxSpeed acTolerance at *
            omega
    · change (hostTurn w.host t).1.game.rightY = _ ∧ (hostTurn w.host t).1.ac = _
      revert hcase
      generalize hostTurn w.host t = result
      obtain ⟨h', out⟩ := result
      intro hcase
      cases hcase with
      | idle _ hac hright => exact ⟨hright, hac⟩
      | stale _ _ _ _ hac hright => exact ⟨hright, hac⟩
      | violation _ _ htakes hnew _ _ _ =>
          obtain ⟨rfl, rfl⟩ := htakes.unique ⟨htakes.1, hrx⟩
          exact absurd ⟨hhave, hold⟩ hnew
      | clean _ _ htakes hnew _ _ _ _ =>
          obtain ⟨rfl, rfl⟩ := htakes.unique ⟨htakes.1, hrx⟩
          exact absurd ⟨hhave, hold⟩ hnew

/-- A turn adds its violation to the count, or takes off its clean packet. -/
theorem violations_le_of_turn (w : Watched) (t : HostTurn) :
    w.host.ac.violations + (watchedTurn w t).2.count .violation ≤
      (watchedTurn w t).1.host.ac.violations + (watchedTurn w t).2.count .clean := by
  rw [watchedTurn]
  by_cases hended : w.host.ended.isSome
  · rw [hostTurn_of_ended hended]
    exact le_rfl
  have hlive : w.host.ended = none := Option.not_isSome_iff_eq_none.mp hended
  have hcase := (hostTurn_cases hlive t).1
  revert hcase
  generalize hostTurn w.host t = result
  obtain ⟨h', out⟩ := result
  intro hcase
  cases hcase with
  | idle _ hac _ => exact Nat.le_of_eq (congrArg AntiCheat.violations hac).symm
  | stale _ _ _ _ hac _ => exact Nat.le_of_eq (congrArg AntiCheat.violations hac).symm
  | violation _ _ _ _ _ hac _ => exact Nat.le_of_eq (congrArg AntiCheat.violations hac).symm
  | clean _ _ _ _ _ _ hac _ =>
      have hless : h'.ac.violations = w.host.ac.violations - 1 :=
        congrArg AntiCheat.violations hac
      change w.host.ac.violations ≤ h'.ac.violations + 1
      omega

end Turns

/-- What a part of a match adds to the count of violations. -/
theorem violations_le_of_run (w : Watched) (turns : List HostTurn) :
    w.host.ac.violations + (outputs watchedTurn w turns).count .violation ≤
      (run watchedTurn w turns).host.ac.violations +
        (outputs watchedTurn w turns).count .clean := by
  induction turns generalizing w with
  | nil => exact le_rfl
  | cons t turns ih =>
      have hturn := violations_le_of_turn w t
      have hrest := ih (watchedTurn w t).1
      rw [outputs_cons, run_cons, List.count_append, List.count_append]
      omega

theorem sound_start (draw : Draw) (right : Bool) : (watchStart draw right).Sound :=
  ⟨show 0 ≤ (25 : Int) ∧ (25 : Int) ≤ 50 by decide, fun _ hhave => (Bool.false_ne_true hhave).elim,
    fun hmany => absurd (show 5 ≤ 0 from hmany) (by decide)⟩

theorem sound_run (draw : Draw) (right : Bool) (turns : List HostTurn) :
    (run watchedTurn (watchStart draw right) turns).Sound :=
  run_invariant (fun _ t hw => hw.turn t) turns (sound_start draw right)

/-- A match keeps to the rules exactly if it has no jump. -/
theorem guarded_iff (draw : Draw) (right : Bool) (turns : List HostTurn) :
    Guarded draw right turns ↔
      Along watchedTurn (fun w t => ¬ Jump w t) (watchStart draw right) turns := by
  have hbounded : Along watchedTurn Bounded (watchStart draw right) turns ↔
      Along watchedTurn (fun w t => ¬ Jump w t) (watchStart draw right) turns :=
    along_congr (fun _ t hw => hw.turn t) (fun _ t hw => bounded_iff hw t) turns
      (sound_start draw right)
  refine ⟨fun h => hbounded.mp h.bounded, fun h => ⟨hbounded.mpr h, ?_⟩⟩
  rintro before part after rfl
  dsimp only
  intro hmany
  have hcount := violations_le_of_run (run watchedTurn (watchStart draw right) before) part
  have hsound := sound_run draw right (before ++ part)
  rw [run_append] at hsound ⊢
  exact hsound.strikes (by omega)

/-- A turn in which the client sends its paddle. -/
def sends (draw : Draw) (seq : Nat) (y : Int) : HostTurn :=
  ⟨[], false, some (clientSendPaddle seq y), draw⟩

/-- A client that holds its paddle in the middle, with a packet in every tick, until the counter of
ticks begins again, and then shows it at the end of the court. -/
def patientClient (draw : Draw) : List HostTurn :=
  (List.range' 1 65535).map (fun seq => sends draw seq 25) ++ [sends draw 0 50]

theorem takes_sends (draw : Draw) {seq : Nat} (hseq : seq < 2 ^ 16) {y : Int}
    (hy : 0 ≤ y ∧ y ≤ 255) : Takes (sends draw seq y) (UInt16.ofNat seq) y := by
  refine ⟨rfl, ?_⟩
  have hlow : (UInt8.ofNat (seq % 256)).toNat = seq % 256 := by
    rw [UInt8.toNat_ofNat']
    omega
  have hhigh : (UInt8.ofNat (seq / 256)).toNat = seq / 256 := by
    rw [UInt8.toNat_ofNat']
    omega
  have hbyte : ((byte y).toNat : Int) = y := by
    rw [toNat_byte]
    omega
  change Received.paddle (UInt16.ofNat ((UInt8.ofNat (seq % 256)).toNat +
    (UInt8.ofNat (seq / 256)).toNat * 256)) ((byte y).toNat : Int) = _
  rw [hlow, hhigh, hbyte, Nat.mod_add_div' seq 256]

/-- The host after `n` packets of the patient client. -/
structure Steady (n : Nat) (w : Watched) : Prop where
  live : w.host.ended = none
  tick : w.host.tick.toNat = n
  paddle : w.host.game.rightY = 25
  seq : w.host.ac.lastSeq.toNat = n
  accepted : w.host.ac.lastAcceptTick.toNat = n
  since : w.since = 0
  few : w.host.ac.violations = 0
  some : 0 < n → w.host.ac.haveSeq = true

theorem Steady.turn {n : Nat} {w : Watched} (h : Steady n w) (hn : n + 1 < 2 ^ 16) (draw : Draw) :
    Steady (n + 1) (watchedTurn w (sends draw (n + 1) 25)).1 := by
  have htakes := takes_sends draw hn (y := 25) (by decide)
  have hnumber : (UInt16.ofNat (n + 1)).toNat = n + 1 := UInt16.toNat_ofNat_of_lt' hn
  have htick : (w.host.tick + 1).toNat = n + 1 := by
    rw [UInt16.toNat_add, h.tick]
    exact Nat.mod_eq_of_lt hn
  have hcheck : anticheatCheck w.host.ac (UInt16.ofNat (n + 1)) 25 (w.host.tick + 1).toUInt32
      w.host.game.rightY = (.clean, ⟨UInt16.ofNat (n + 1), true, (w.host.tick + 1).toUInt32,
        w.host.ac.violations - 1⟩) := by
    rcases anticheatCheck_cases w.host.ac (UInt16.ofNat (n + 1)) 25 (w.host.tick + 1).toUInt32
        w.host.game.rightY with ⟨⟨-, hold⟩, -⟩ | ⟨-, hbad, -⟩ | ⟨-, -, hclean⟩
    · -- the number is the next one
      obtain ⟨back, hback, hlast⟩ := hold
      have hlt := UInt16.lt_iff_toNat_lt.mp hback
      have hsum := congrArg UInt16.toNat hlast
      rw [UInt16.toNat_add, hnumber, h.seq] at hsum
      simp only [UInt16.reduceToNat] at hlt
      omega
    · -- and the paddle has not moved
      have hmax : 0 ≤ w.host.ac.maxDelta (w.host.tick + 1).toUInt32 := by
        unfold AntiCheat.maxDelta acMaxSpeed acTolerance
        dsimp only
        omega
      rw [h.paddle] at hbad
      unfold paddleMaxY paddleH at hbad
      omega
    · exact hclean
  obtain ⟨hout, hac, hcount, hright, hended⟩ := hostTurn_of_takes h.live htakes hcheck
  have hfew : ¬ acThreshold ≤ w.host.ac.violations - 1 := by
    rw [h.few]
    decide
  rw [watchedTurn, hout, if_pos List.mem_cons_self]
  refine ⟨?_, ?_, hright, ?_, ?_, rfl, ?_, fun _ => ?_⟩
  · exact hended.trans (if_neg hfew)
  · exact (congrArg UInt16.toNat hcount).trans htick
  · exact (congrArg (fun ac => ac.lastSeq.toNat) hac).trans hnumber
  · exact (congrArg (fun ac => ac.lastAcceptTick.toNat) hac).trans htick
  · exact (congrArg AntiCheat.violations hac).trans (by rw [h.few])
  · exact congrArg AntiCheat.haveSeq hac

theorem steady_run (draw : Draw) (right : Bool) {n : Nat} (hn : n < 2 ^ 16) :
    Steady n (run watchedTurn (watchStart draw right)
      ((List.range' 1 n).map fun seq => sends draw seq 25)) := by
  induction n with
  | zero => exact ⟨rfl, rfl, rfl, rfl, rfl, rfl, rfl, fun h => absurd h (by decide)⟩
  | succ n ih =>
      rw [List.range'_1_concat, List.map_append, run_append, Nat.add_comm 1 n]
      exact (ih (by omega)).turn hn draw

/-- After 36 minutes the paddle of the patient client jumps by half of the court within a tick. -/
theorem not_guarded : ¬ Guarded ⟨0, 0⟩ true (patientClient ⟨0, 0⟩) := by
  rw [guarded_iff, patientClient, along_append]
  rintro ⟨-, hlast, -⟩
  have hsteady := steady_run ⟨0, 0⟩ true (n := 65535) (by decide)
  refine hlast ⟨hsteady.live, rfl, hsteady.some (by decide), ?_, 0, 50,
    (takes_sends _ (by decide) (by decide)).2, ?_, by decide, ?_⟩
  · rw [UInt32.lt_iff_toNat_lt, toNat_tick, hsteady.tick, hsteady.accepted]
    decide
  · rintro ⟨back, hback, hsum⟩
    have hlt := UInt16.lt_iff_toNat_lt.mp hback
    have hnat := congrArg UInt16.toNat hsum
    rw [UInt16.toNat_add, hsteady.seq] at hnat
    simp only [UInt16.reduceToNat] at hlt hnat
    omega
  · rw [hsteady.since, hsteady.paddle]
    decide

end Pong
end Games
end JppDos
