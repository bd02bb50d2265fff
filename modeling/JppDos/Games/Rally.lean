import JppDos.Games.Breakout
import JppDos.Games.Pong

/-!
# Rallies

The paddles of `pong.c` and `breakout.c` add a twentieth to the velocity, in integers: nothing, if
it is smaller than 20.

Main fact:
* `rally_iff`: every hit speeds the ball up exactly if there is none in Pong, and none below level 4
  in Breakout.
-/

namespace JppDos
namespace Games
namespace Rally

open CInt Machine
open Breakout (Hit Press)

/-- A turn of Pong, in any mode of play: the paddles are anywhere. -/
structure Turn where
  draw : Pong.Draw
  leftY : Int
  rightY : Int

/-- The paddles before a step. -/
def paddles (g : Pong.State) (t : Turn) : Pong.State :=
  { g with leftY := t.leftY, rightY := t.rightY }

/-- The tests of `paddleHits`. -/
def MeetsLeft (py : Int) (g : Pong.State) : Prop :=
  g.vx < 0 ∧ Pong.px g.ballX ≤ 3 ∧ 0 ≤ Pong.px g.ballX ∧ g.leftY ≤ py + 2 ∧
    py ≤ g.leftY + Pong.paddleH

def MeetsRight (py : Int) (g : Pong.State) : Prop :=
  0 < g.vx ∧ Pong.rightX ≤ Pong.px g.ballX + 2 ∧ Pong.px g.ballX ≤ Pong.rightX + 2 ∧
    g.rightY ≤ py + 2 ∧ py ≤ g.rightY + Pong.paddleH

instance (py : Int) (g : Pong.State) : Decidable (MeetsLeft py g) :=
  inferInstanceAs (Decidable (_ ∧ _))

instance (py : Int) (g : Pong.State) : Decidable (MeetsRight py g) :=
  inferInstanceAs (Decidable (_ ∧ _))

/-- The ball meets a paddle in the next step. -/
def Meets (g : Pong.State) : Prop :=
  ¬ 0 < g.serveTimer ∧
    (MeetsLeft (Pong.px (Pong.moveBall g).ballY) (Pong.wallBounce (Pong.moveBall g)) ∨
      MeetsRight (Pong.px (Pong.moveBall g).ballY) (Pong.wallBounce (Pong.moveBall g)))

instance (g : Pong.State) : Decidable (Meets g) := inferInstanceAs (Decidable (_ ∧ _))

/-- The velocity before and after the paddles in a step of Pong that meets one. -/
def hitOf (g : Pong.State) : Hit :=
  let walled := Pong.wallBounce (Pong.moveBall g)
  let after := Pong.paddleHits (Pong.px (Pong.moveBall g).ballY) walled
  ⟨(walled.vx, walled.vy), (after.vx, after.vy)⟩

/-- A turn of Pong, with its hits. -/
def turn (g : Pong.State) (t : Turn) : Pong.State × List Hit :=
  ((Pong.stepBall t.draw (paddles g t)).2,
    if Meets (paddles g t) then [hitOf (paddles g t)] else [])

/-- A hit turns a component of the velocity, and keeps both within the cap. -/
structure Turned (component : Int × Int → Int) (hit : Hit) : Prop where
  reversed : 0 < component hit.before ∧ component hit.after < 0 ∨
    component hit.before < 0 ∧ 0 < component hit.after
  capped : hit.after.1.natAbs ≤ 40 ∧ hit.after.2.natAbs ≤ 40

/-- And it makes that component larger, up to the cap. -/
structure SpeedsUp (component : Int × Int → Int) (hit : Hit) : Prop
    extends Turned component hit where
  faster : (component hit.before).natAbs < 40 →
    (component hit.before).natAbs < (component hit.after).natAbs

/-- The column in which the ball of Breakout is behind the walls. -/
def column (g : Breakout.State) : Int := max 0 (min (Breakout.px (g.ballX + g.bvx)) 126)

/-- No paddle is met in a turn of Pong. -/
def Unmet (g : Pong.State) (t : Turn) : Prop := ¬ Meets (paddles g t)

/-- The paddle is met from level 4 on in a turn of Breakout. -/
def Fast (g : Breakout.State) (keys : List Press) : Prop :=
  g.gameOver = false → (keys.foldl Breakout.press g).ballHeld = false →
    Breakout.Meets (keys.foldl Breakout.press g) (column (keys.foldl Breakout.press g)) →
    4 ≤ (keys.foldl Breakout.press g).level

section Pong

variable {g : Pong.State}

/-- The speed across the court, and the side of the next serve. -/
structure Served (g : Pong.State) : Prop where
  vx : g.vx = 13 ∨ g.vx = -13
  serveDir : g.serveDir = 1 ∨ g.serveDir = -1

theorem served_serveReset (draw : Pong.Draw) {dir : Int} (h : dir = 1 ∨ dir = -1) :
    Served (Pong.serveReset draw dir g) := by
  refine ⟨?_, h⟩
  rcases h with rfl | rfl
  · exact Or.inl rfl
  · exact Or.inr rfl

theorem natAbs_clampSpeed (v : Int) : (Pong.clampSpeed v).natAbs ≤ 40 := by
  unfold Pong.clampSpeed Pong.ballMaxV
  omega

theorem paddleHits_cases (py : Int) (g : Pong.State) (hspeed : g.vx = 13 ∨ g.vx = -13) :
    (Pong.paddleHits py g).vx = (if MeetsLeft py g ∨ MeetsRight py g then -g.vx else g.vx) ∧
      (Pong.paddleHits py g).serveDir = g.serveDir ∧
      (MeetsLeft py g ∨ MeetsRight py g → (Pong.paddleHits py g).vy.natAbs ≤ 40) := by
  have hbounce : ∀ v : Int, v = 13 ∨ v = -13 → Pong.clampSpeed (-(v + v.tdiv 20)) = -v := by
    rintro v (rfl | rfl) <;> decide
  unfold Pong.paddleHits
  dsimp only
  by_cases hleft : MeetsLeft py g
  · have htest := hleft
    have hfar : ¬ Pong.rightX ≤ Pong.px g.ballX + 2 := by
      have hnear := hleft.2.1
      unfold Pong.rightX
      omega
    unfold MeetsLeft at htest
    rw [if_pos htest, if_neg fun h => hfar h.2.1, if_pos (Or.inl hleft)]
    exact ⟨hbounce _ hspeed, rfl, fun _ => natAbs_clampSpeed _⟩
  · have htest := hleft
    unfold MeetsLeft at htest
    rw [if_neg htest]
    by_cases hright : MeetsRight py g
    · have htest := hright
      unfold MeetsRight at htest
      rw [if_pos htest, if_pos (Or.inr hright)]
      exact ⟨hbounce _ hspeed, rfl, fun _ => natAbs_clampSpeed _⟩
    · have htest := hright
      have hnone : ¬ (MeetsLeft py g ∨ MeetsRight py g) := not_or.mpr ⟨hleft, hright⟩
      unfold MeetsRight at htest
      rw [if_neg htest, if_neg hnone]
      exact ⟨rfl, rfl, fun h => absurd h hnone⟩

theorem wallBounce_keeps (g : Pong.State) :
    (Pong.wallBounce g).vx = g.vx ∧ (Pong.wallBounce g).serveDir = g.serveDir := by
  unfold Pong.wallBounce Pong.bottomBounce Pong.topBounce
  split_ifs <;> exact ⟨rfl, rfl⟩

theorem served_turn (h : Served g) (t : Turn) : Served (turn g t).1 := by
  unfold turn Pong.stepBall
  dsimp only
  by_cases hwait : 0 < (paddles g t).serveTimer
  · rw [if_pos hwait]
    split_ifs
    · exact ⟨(served_serveReset (g := g) t.draw h.serveDir).vx, h.serveDir⟩
    · exact ⟨h.vx, h.serveDir⟩
  · rw [if_neg hwait]
    obtain ⟨hvx, hdir⟩ := wallBounce_keeps (Pong.moveBall (paddles g t))
    obtain ⟨hvx', hdir', -⟩ := paddleHits_cases (Pong.px (Pong.moveBall (paddles g t)).ballY)
      (Pong.wallBounce (Pong.moveBall (paddles g t))) (hvx ▸ h.vx)
    split_ifs
    · exact served_serveReset t.draw (Or.inr rfl)
    · exact served_serveReset t.draw (Or.inl rfl)
    · have hspeed : (Pong.moveBall (paddles g t)).vx = 13 ∨
          (Pong.moveBall (paddles g t)).vx = -13 := h.vx
      have hside : (Pong.moveBall (paddles g t)).serveDir = 1 ∨
          (Pong.moveBall (paddles g t)).serveDir = -1 := h.serveDir
      constructor
      · dsimp only
        rw [hvx', hvx]
        split_ifs <;> omega
      · dsimp only
        rw [hdir', hdir]
        exact hside

/-- A hit turns the ball, and leaves it as fast as it was. -/
theorem hitOf_spec (h : Served g) (hmeets : Meets g) :
    Turned Prod.fst (hitOf g) ∧ ¬ SpeedsUp Prod.fst (hitOf g) := by
  obtain ⟨hvx, -⟩ := wallBounce_keeps (Pong.moveBall g)
  obtain ⟨hvx', -, hvy'⟩ := paddleHits_cases (Pong.px (Pong.moveBall g).ballY)
    (Pong.wallBounce (Pong.moveBall g)) (hvx ▸ h.vx)
  rw [if_pos hmeets.2, hvx] at hvx'
  have hspeed : (Pong.moveBall g).vx = 13 ∨ (Pong.moveBall g).vx = -13 := h.vx
  have hbefore : (hitOf g).before.1 = (Pong.moveBall g).vx := hvx
  have hafter : (hitOf g).after.1 = -(Pong.moveBall g).vx := hvx'
  refine ⟨⟨?_, ?_, hvy' hmeets.2⟩, fun hup => ?_⟩
  · rw [hbefore, hafter]
    omega
  · rw [hafter]
    omega
  · have hfaster := hup.faster
    rw [hbefore, hafter] at hfaster
    omega

end Pong

section Breakout

open Breakout (Sound speedUp stepBall press walled_foldl_reflect reached reflect)

variable {g : Breakout.State}

/-- A velocity below 20 stays as it is, a larger one grows up to the cap. -/
theorem natAbs_speedUp (v : Int) : (speedUp v).natAbs ≤ 40 ∧ (v.natAbs < 20 → speedUp v = v) ∧
    (20 ≤ v.natAbs → v.natAbs < 40 → v.natAbs < (speedUp v).natAbs) ∧
    (v.natAbs = 40 → (speedUp v).natAbs = 40) := by
  rw [speedUp, tdiv_eq_ite, Breakout.ballMaxV]
  split_ifs <;> omega

/-- The upward speed of a flying ball, by the level. -/
structure Flight (g : Breakout.State) : Prop where
  sound : Sound g
  speed : g.ballHeld = false →
    g.level ≤ 3 ∧ (g.bvy.natAbs : Int) = 13 + 2 * g.level ∨
      4 ≤ g.level ∧ 20 < g.bvy.natAbs ∧ g.bvy.natAbs ≤ 40

theorem flight_resetGame : Flight Breakout.resetGame :=
  ⟨Breakout.sound_resetGame, fun h => absurd h (by decide)⟩

theorem flight_press (h : Flight g) (key : Press) : Flight (press g key) := by
  have hsound : Sound (press g key) := (Breakout.sound_presses h.sound [key]).1
  refine ⟨hsound, fun hflies => ?_⟩
  cases key with
  | left => exact h.speed hflies
  | right => exact h.speed hflies
  | ok draw =>
      have hlevel := h.sound.level
      dsimp only [press] at hflies ⊢
      split_ifs at hflies ⊢ with hheld
      · dsimp only [Breakout.serve]
        omega
      · exact h.speed hflies
  | restart => exact flight_resetGame.speed hflies

theorem flight_presses (h : Flight g) (keys : List Press) : Flight (keys.foldl press g) := by
  induction keys generalizing g with
  | nil => exact h
  | cons key keys ih => exact ih (flight_press h key)

/-- The hits of a step: they turn the ball, and speed it up from level 4 on. -/
theorem hits_stepBall (h : Flight g) :
    (∀ hit ∈ (stepBall g).hits, Turned Prod.snd hit) ∧
      ((∀ hit ∈ (stepBall g).hits, SpeedsUp Prod.snd hit) ↔
        (g.ballHeld = false → Breakout.Meets g (column g) → 4 ≤ g.level)) := by
  cases hheld : g.ballHeld with
  | true =>
      have hnone : (stepBall g).hits = [] := by
        rw [stepBall, if_pos hheld]
      rw [hnone]
      exact ⟨List.forall_mem_nil _, iff_of_true (List.forall_mem_nil _)
        fun hflies => absurd hflies (by decide)⟩
  | false =>
      have ha := walled_foldl_reflect (Breakout.moveBall g)
      obtain ⟨hhits, -⟩ := Breakout.stepBall_hits hheld ha rfl
      have hcolumn : Breakout.px ((reached (Breakout.moveBall g)).foldl reflect
          (Breakout.moveBall g)).ballX = column g := by
        have hmoved : (Breakout.moveBall g).ballX = g.ballX + g.bvx := rfl
        rw [ha.ballX, hmoved, column]
        split_ifs with hleft hright
        · have hzero : Breakout.px 0 = 0 := rfl
          omega
        · rw [Breakout.px_mul]
          omega
        · omega
      rw [hcolumn] at hhits
      obtain ⟨vx, vx', hform⟩ : ∃ vx vx' : Int, (stepBall g).hits =
          if Breakout.Meets g (column g) then
            [⟨(vx, g.bvy), (speedUp vx', speedUp (-g.bvy))⟩]
          else [] := ⟨_, _, hhits⟩
      rw [hform]
      split_ifs with hmeets
      · have hspeed := h.speed hheld
        have hpos := hmeets.1
        obtain ⟨hcap, hslow, hfast, hmost⟩ := natAbs_speedUp (-g.bvy)
        have hturned : speedUp (-g.bvy) < 0 := Breakout.speedUp_neg.mpr (by omega)
        rw [List.forall_mem_singleton, List.forall_mem_singleton]
        have hall : Turned Prod.snd ⟨(vx, g.bvy), (speedUp vx', speedUp (-g.bvy))⟩ :=
          ⟨Or.inl ⟨hpos, hturned⟩, (natAbs_speedUp vx').1, hcap⟩
        refine ⟨hall, fun hup _ _ => ?_, fun hlevel => ⟨hall, fun hmax => ?_⟩⟩
        · by_contra hlow
          have hfaster := hup.faster
          dsimp only at hfaster
          rw [hslow (by omega)] at hfaster
          omega
        · have hlevel' := hlevel rfl hmeets
          dsimp only at hmax ⊢
          omega
      · exact ⟨List.forall_mem_nil _, iff_of_true (List.forall_mem_nil _)
          fun _ hmeets' => absurd hmeets' hmeets⟩

/-- A step keeps the upward speed of the level, or makes it larger from level 4 on. -/
theorem flight_stepBall (h : Flight g) : Flight (stepBall g).after := by
  refine ⟨h.sound.stepBall.1, fun hflies => ?_⟩
  cases hheld : g.ballHeld with
  | true =>
      rw [stepBall, if_pos hheld] at hflies
      exact absurd (hheld.symm.trans hflies) (by decide)
  | false =>
      have ha := walled_foldl_reflect (Breakout.moveBall g)
      obtain ⟨-, hafter⟩ := Breakout.stepBall_hits hheld ha rfl
      have hspeed := h.speed hheld
      obtain ⟨hcap, hslow, hfast, hmost⟩ := natAbs_speedUp (-g.bvy)
      rcases hafter with hholds | ⟨hlevel, hbvy⟩
      · exact absurd (hholds.symm.trans hflies) (by decide)
      · rw [hlevel]
        rcases hbvy with hbvy | hbvy | hbvy
        · rw [hbvy]
          exact hspeed
        · rw [hbvy, Int.natAbs_neg]
          exact hspeed
        · rw [hbvy]
          rcases hspeed with ⟨hlow, hspeed⟩ | ⟨hhigh, hspeed, hmax⟩
          · rw [hslow (by omega), Int.natAbs_neg]
            exact Or.inl ⟨hlow, hspeed⟩
          · omega

theorem flight_tick (h : Flight g) (keys : List Press) : Flight (Breakout.tick g keys).1 := by
  unfold Breakout.tick
  split_ifs
  · exact h
  · exact flight_stepBall (flight_presses h keys)

end Breakout

/-- The hits in a run of Pong. -/
def pongHits (draw : Pong.Draw) (right : Bool) (turns : List Turn) : List Hit :=
  outputs turn (Pong.hostStart draw right) turns

/-- The hits in a run of Breakout. -/
def breakoutHits (ticks : List (List Press)) : List Hit :=
  (outputs Breakout.tick Breakout.resetGame ticks).flatMap (·.hits)

theorem served_hostStart (draw : Pong.Draw) (right : Bool) : Served (Pong.hostStart draw right) :=
  served_serveReset draw (by cases right <;> decide)

theorem forall_mem_breakoutHits {P : Hit → Prop} (ticks : List (List Press)) :
    (∀ hit ∈ breakoutHits ticks, P hit) ↔ Along Breakout.tick
      (fun g keys => ∀ seen ∈ (Breakout.tick g keys).2, ∀ hit ∈ seen.hits, P hit)
      Breakout.resetGame ticks := by
  rw [breakoutHits, List.forall_mem_flatMap, forall_mem_outputs]

theorem hits_turn {g : Pong.State} (h : Served g) (t : Turn) :
    (∀ hit ∈ (turn g t).2, Turned Prod.fst hit) ∧
      ((∀ hit ∈ (turn g t).2, SpeedsUp Prod.fst hit) ↔ Unmet g t) := by
  have hserved : Served (paddles g t) := ⟨h.vx, h.serveDir⟩
  unfold turn Unmet
  dsimp only
  split_ifs with hmeets
  · obtain ⟨hturned, hslow⟩ := hitOf_spec hserved hmeets
    rw [List.forall_mem_singleton, List.forall_mem_singleton]
    exact ⟨hturned, iff_of_false hslow (not_not_intro hmeets)⟩
  · exact ⟨List.forall_mem_nil _, iff_of_true (List.forall_mem_nil _) hmeets⟩

theorem hits_tick {g : Breakout.State} (h : Flight g) (keys : List Press) :
    (∀ seen ∈ (Breakout.tick g keys).2, ∀ hit ∈ seen.hits, Turned Prod.snd hit) ∧
      ((∀ seen ∈ (Breakout.tick g keys).2, ∀ hit ∈ seen.hits, SpeedsUp Prod.snd hit) ↔
        Fast g keys) := by
  unfold Breakout.tick Fast
  split_ifs with hover
  · refine ⟨List.forall_mem_nil _, iff_of_true (List.forall_mem_nil _) fun hgoes => ?_⟩
    rw [hover] at hgoes
    exact absurd hgoes (by decide)
  · obtain ⟨hturned, hup⟩ := hits_stepBall (flight_presses h keys)
    dsimp only
    rw [List.forall_mem_singleton, List.forall_mem_singleton, hup]
    exact ⟨hturned, ⟨fun hup _ => hup, fun hup => hup (by simpa using hover)⟩⟩

/-- Every hit turns the ball, and keeps it within the cap. -/
theorem hits_turned (draw : Pong.Draw) (right : Bool) (turns : List Turn)
    (ticks : List (List Press)) :
    (∀ hit ∈ pongHits draw right turns, Turned Prod.fst hit) ∧
      ∀ hit ∈ breakoutHits ticks, Turned Prod.snd hit := by
  rw [pongHits, forall_mem_outputs, forall_mem_breakoutHits]
  constructor
  · exact (along_true _ turns).of_invariant
      (fun g t h _ => ⟨served_turn h t, (hits_turn h t).1⟩) (served_hostStart draw right)
  · exact (along_true _ ticks).of_invariant
      (fun g keys h _ => ⟨flight_tick h keys, (hits_tick h keys).1⟩) flight_resetGame

/-- Every hit speeds the ball up exactly if there is none in Pong, and none below level 4 in
Breakout. -/
theorem rally_iff (draw : Pong.Draw) (right : Bool) (turns : List Turn)
    (ticks : List (List Press)) :
    ((∀ hit ∈ pongHits draw right turns, SpeedsUp Prod.fst hit) ∧
        ∀ hit ∈ breakoutHits ticks, SpeedsUp Prod.snd hit) ↔
      Along turn Unmet (Pong.hostStart draw right) turns ∧
        Along Breakout.tick Fast Breakout.resetGame ticks := by
  rw [pongHits, forall_mem_outputs, forall_mem_breakoutHits]
  refine and_congr ?_ ?_
  · exact along_congr (fun g t h => served_turn h t) (fun g t h => (hits_turn h t).2) turns
      (served_hostStart draw right)
  · exact along_congr (fun g keys h => flight_tick h keys) (fun g keys h => (hits_tick h keys).2)
      ticks flight_resetGame

/-- A serve straight ahead: the ball is awaited, and flies to the right paddle. -/
def straight : Pong.Draw := ⟨⟨4, by decide⟩, ⟨5, by decide⟩⟩
def rightward : List Turn := List.replicate 105 ⟨straight, 25, 25⟩

/-- The first hit in Pong leaves the ball as fast as it was. -/
theorem not_rally : ¬ ∀ (draw : Pong.Draw) (right : Bool) (turns : List Turn)
    (ticks : List (List Press)), (∀ hit ∈ pongHits draw right turns, SpeedsUp Prod.fst hit) ∧
      ∀ hit ∈ breakoutHits ticks, SpeedsUp Prod.snd hit := by
  intro h
  have hhit : pongHits straight true rightward = [⟨(13, 0), (-13, 2)⟩] := by decide +kernel
  have hup := (h straight true rightward []).1
  rw [hhit, List.forall_mem_singleton] at hup
  exact absurd (hup.faster (by decide)) (by decide)

end Rally
end Games
end JppDos
