import JppDos.Lib.CInt
import JppDos.Lib.Machine
import Mathlib.Data.List.Chain

/-!
# Breakout

`breakout.c`: the ball moves in sixteenths of a pixel and is reflected by the walls, the bricks and
the paddle.  Unlike in `pong.c`, a wall reflects the ball whichever way it moves.

Main fact:
* `breakout_iff`: the ball leaves the walls exactly if it moves toward every wall that it reaches.
-/

namespace JppDos
namespace Games
namespace Breakout

open CInt Machine

/-- `breakout_t`: positions of the ball in sixteenths of a pixel. -/
structure State where
  bricks : List (List Bool)
  bricksLeft : Int
  paddleX : Int
  ballX : Int
  ballY : Int
  bvx : Int
  bvy : Int
  score : Int
  lives : Int
  level : Int
  ballHeld : Bool
  gameOver : Bool

/-- The walls that reflect the ball. -/
inductive Wall where
  | left | right | top
  deriving DecidableEq

/-- The velocity before and after the ball meets the paddle. -/
structure Hit where
  before : Int × Int
  after : Int × Int
  deriving DecidableEq

/-- What is seen of a step. -/
structure Seen where
  walls : List Wall
  hits : List Hit
  after : State

/-- `PADDLE_W`, `PADDLE_Y`, `WALL_Y`, `BALL_MAX_V`. -/
def paddleW : Int := 16
def paddleY : Int := 60
def wallY : Int := 8
def ballMaxV : Int := 40

/-- A coordinate `>> Q`. -/
def px (q : Int) : Int := q / 16

/-- `build_wall`. -/
def buildWall (g : State) : State :=
  { g with bricks := List.replicate 5 (List.replicate 10 true), bricksLeft := 50 }

/-- `hold_ball`. -/
def holdBall (g : State) : State :=
  { g with ballHeld := true, ballX := (g.paddleX + paddleW / 2) * 16, ballY := (paddleY - 3) * 16 }

/-- `serve`; the number drawn is the side. -/
def serve (right : Bool) (g : State) : State :=
  let speed := min (13 + g.level * 2) 24
  { g with
    bvx := if right then speed.tdiv 2 else (-speed).tdiv 2
    bvy := -speed
    ballHeld := false }

/-- `reset_game`. -/
def resetGame : State :=
  holdBall (buildWall
    { bricks := [], bricksLeft := 0, paddleX := 56, ballX := 0, ballY := 0, bvx := 0, bvy := 0,
      score := 0, lives := 3, level := 1, ballHeld := false, gameOver := false })

/-- `speed_up` of one component. -/
def speedUp (v : Int) : Int := max (-ballMaxV) (min (v + v.tdiv 20) ballMaxV)

/-- The ball one tick on. -/
def moveBall (g : State) : State := { g with ballX := g.ballX + g.bvx, ballY := g.ballY + g.bvy }

/-- The walls that a ball has reached. -/
def reached (g : State) : List Wall :=
  (if px g.ballX ≤ 0 then [.left] else []) ++ (if 126 ≤ px g.ballX then [.right] else []) ++
    (if px g.ballY ≤ 0 then [.top] else [])

/-- One wall reflects the ball. -/
def reflect (g : State) : Wall → State
  | .left => { g with ballX := 0, bvx := -g.bvx }
  | .right => { g with ballX := 126 * 16, bvx := -g.bvx }
  | .top => { g with ballY := 0, bvy := -g.bvy }

/-- The ball against the bricks, and whether that has cleared the wall. -/
def brick (g : State) : State × Bool :=
  let y := px g.ballY
  let row := ((y - wallY) / 5).toNat
  let col := (px g.ballX + 1 - 4).tdiv 12
  if (wallY ≤ y ∧ y < wallY + 25) ∧ (0 ≤ col ∧ col < 10) ∧
      (g.bricks.getD row []).getD col.toNat false then
    let g :=
      { g with
        bricks := g.bricks.modify row (·.set col.toNat false)
        bricksLeft := g.bricksLeft - 1
        score := wrap32 (g.score + (5 - row) * g.level)
        bvy := -g.bvy }
    if g.bricksLeft = 0 then (holdBall (buildWall { g with level := g.level + 1 }), true)
    else (g, false)
  else (g, false)

/-- The place of the ball beside the paddle. -/
def Over (g : State) (x y : Int) : Prop :=
  (paddleY - 2 ≤ y ∧ y ≤ paddleY) ∧ g.paddleX ≤ x + 2 ∧ x ≤ g.paddleX + paddleW

instance (g : State) (x y : Int) : Decidable (Over g x y) :=
  inferInstanceAs (Decidable ((_ ∧ _) ∧ _ ∧ _))

/-- `offset`. -/
def offset (g : State) (x : Int) : Int := x + 1 - (g.paddleX + paddleW / 2)

/-- The ball against the paddle. -/
def paddle (g : State) : State × List Hit :=
  if 0 < g.bvy ∧ Over g (px g.ballX) (px g.ballY) then
    let bvx := speedUp (g.bvx + offset g (px g.ballX) * 2)
    let bvy := speedUp (-g.bvy)
    ({ g with bvx, bvy }, [⟨(g.bvx, g.bvy), (bvx, bvy)⟩])
  else (g, [])

/-- A missed ball. -/
def missed (g : State) : State :=
  if 64 < px g.ballY then
    let g := { g with lives := g.lives - 1 }
    if g.lives ≤ 0 then { g with gameOver := true } else holdBall g
  else g

/-- `step_ball`. -/
def stepBall (g : State) : Seen :=
  if g.ballHeld then ⟨[], [], { g with ballX := (g.paddleX + paddleW / 2) * 16 }⟩
  else
    let moved := moveBall g
    let walls := reached moved
    let (g, cleared) := brick (walls.foldl reflect moved)
    if cleared then ⟨walls, [], g⟩
    else
      let (g, hits) := paddle g
      ⟨walls, hits, missed g⟩

/-- The keys of `play_session`; a serve comes with the number that it draws, and a restart is made
in the menu. -/
inductive Press where
  | left
  | right
  | ok (draw : Bool)
  | restart

/-- A key. -/
def press (g : State) : Press → State
  | .left => { g with paddleX := max (g.paddleX - 5) 0 }
  | .right => { g with paddleX := min (g.paddleX + 5) (128 - paddleW) }
  | .ok draw => if g.ballHeld then serve draw g else g
  | .restart => resetGame

/-- A turn of `play_session`: the keys, then a step. -/
def tick (g : State) (keys : List Press) : State × List Seen :=
  if g.gameOver then (g, [])
  else
    let seen := stepBall (keys.foldl press g)
    (seen.after, [seen])

/-- The ball is inside the court, or lost at the bottom. -/
structure InCourt (g : State) : Prop where
  x : 0 ≤ px g.ballX ∧ px g.ballX ≤ 126
  top : 0 ≤ px g.ballY
  bottom : px g.ballY ≤ 64 ∨ g.gameOver = true

/-- The velocity points away from a wall. -/
def Away (g : State) : Wall → Prop
  | .left => 0 < g.bvx
  | .right => g.bvx < 0
  | .top => 0 < g.bvy

/-- The ball stays in the court and leaves a wall that reflects it. -/
structure Reflects (trace : List Seen) : Prop where
  inside : ∀ seen ∈ trace, InCourt seen.after
  away : ∀ seen ∈ trace, ∀ w ∈ seen.walls, Away seen.after w
  once : trace.IsChain fun seen next => ∀ w ∈ seen.walls, w ∉ next.walls

/-- The ball meets the paddle in the next step, at column x. -/
def Meets (g : State) (x : Int) : Prop := 0 < g.bvy ∧ Over g x (px (g.ballY + g.bvy))

instance (g : State) (x : Int) : Decidable (Meets g x) := inferInstanceAs (Decidable (_ ∧ _))

/-- What the paddle then adds to the velocity. -/
def spin (g : State) (x : Int) : Int := if Meets g x then offset g x * 2 else 0

/-- The ball moves toward every wall that it reaches in the next step, and so fast that a paddle
that is met in the same step does not turn it back. -/
def Toward (g : State) : Prop :=
  g.ballHeld = false →
    (px (g.ballX + g.bvx) ≤ 0 → g.bvx < spin g 0) ∧
      (126 ≤ px (g.ballX + g.bvx) → spin g 126 < g.bvx) ∧
      (px (g.ballY + g.bvy) ≤ 0 → g.bvy < 0)

/-- The condition on a turn. -/
def Turns (g : State) (keys : List Press) : Prop :=
  g.gameOver = false → Toward (keys.foldl press g)

section Step

variable {g : State}

theorem px_mul (x : Int) : px (x * 16) = x := Int.mul_ediv_cancel x (by decide)

theorem speedUp_pos {v : Int} : 0 < speedUp v ↔ 0 < v := by
  rw [speedUp, tdiv_eq_ite, ballMaxV]
  split_ifs <;> omega

theorem speedUp_neg {v : Int} : speedUp v < 0 ↔ v < 0 := by
  rw [speedUp, tdiv_eq_ite, ballMaxV]
  split_ifs <;> omega

theorem mem_reached {w : Wall} : w ∈ reached g ↔
    match w with
    | .left => px g.ballX ≤ 0
    | .right => 126 ≤ px g.ballX
    | .top => px g.ballY ≤ 0 := by
  unfold reached
  cases w <;> simp

/-- The ball behind the walls: it is inside, and each component is reflected once at most. -/
structure Walled (g g' : State) : Prop where
  x : 0 ≤ px g'.ballX ∧ px g'.ballX ≤ 126
  y : 0 ≤ px g'.ballY
  ballX : g'.ballX =
    if px g.ballX ≤ 0 then 0 else if 126 ≤ px g.ballX then 126 * 16 else g.ballX
  ballY : g'.ballY = if px g.ballY ≤ 0 then 0 else g.ballY
  bvx : g'.bvx = if px g.ballX ≤ 0 ∨ 126 ≤ px g.ballX then -g.bvx else g.bvx
  bvy : g'.bvy = if px g.ballY ≤ 0 then -g.bvy else g.bvy
  rest : g'.paddleX = g.paddleX ∧ g'.level = g.level ∧ g'.ballHeld = g.ballHeld ∧
    g'.gameOver = g.gameOver

theorem walled_foldl_reflect (g : State) : Walled g ((reached g).foldl reflect g) := by
  unfold reached
  by_cases hleft : px g.ballX ≤ 0
  · have hright : ¬ 126 ≤ px g.ballX := by omega
    by_cases htop : px g.ballY ≤ 0
    · constructor <;> simp [hleft, hright, htop, reflect] <;> decide
    · constructor <;> simp [hleft, hright, htop, reflect] <;> first | decide | omega
  · by_cases hright : 126 ≤ px g.ballX
    · by_cases htop : px g.ballY ≤ 0
      · constructor <;> simp [hleft, hright, htop, reflect] <;> decide
      · constructor <;> simp [hleft, hright, htop, reflect] <;> first | decide | omega
    · by_cases htop : px g.ballY ≤ 0
      · constructor <;> simp [hleft, hright, htop, reflect] <;> first | decide | omega
      · constructor <;> simp [hleft, hright, htop] <;> omega

theorem brick_spec (g : State) :
    (brick g).1.bvx = g.bvx ∧ (brick g).1.paddleX = g.paddleX ∧
      (brick g).1.gameOver = g.gameOver ∧ g.level ≤ (brick g).1.level ∧
      (((brick g).2 = true ∧ (8 ≤ px g.ballY ∧ px g.ballY < 33) ∧
          (brick g).1 = holdBall (brick g).1) ∨
        ((brick g).2 = false ∧ (brick g).1.ballX = g.ballX ∧ (brick g).1.ballY = g.ballY ∧
          ((brick g).1.ballHeld = g.ballHeld ∧ (brick g).1.level = g.level) ∧
          ((brick g).1.bvy = g.bvy ∨
            (8 ≤ px g.ballY ∧ px g.ballY < 33 ∧ (brick g).1.bvy = -g.bvy)))) := by
  unfold brick
  dsimp only
  split_ifs with hhit hclear
  · refine ⟨rfl, rfl, rfl, ?_, Or.inl ⟨rfl, hhit.1, rfl⟩⟩
    exact Int.le_add_of_nonneg_right (by decide)
  · refine ⟨rfl, rfl, rfl, Int.le_refl _, Or.inr ⟨rfl, rfl, rfl, ⟨rfl, rfl⟩, ?_⟩⟩
    exact Or.inr ⟨hhit.1.1, hhit.1.2, rfl⟩
  · exact ⟨rfl, rfl, rfl, Int.le_refl _, Or.inr ⟨rfl, rfl, rfl, ⟨rfl, rfl⟩, Or.inl rfl⟩⟩

theorem paddle_spec (g : State) :
    (paddle g).1 = { g with bvx := (paddle g).1.bvx, bvy := (paddle g).1.bvy } ∧
      (paddle g).1.bvx = (if 0 < g.bvy ∧ Over g (px g.ballX) (px g.ballY) then
        speedUp (g.bvx + offset g (px g.ballX) * 2) else g.bvx) ∧
      (paddle g).1.bvy = (if 0 < g.bvy ∧ Over g (px g.ballX) (px g.ballY) then speedUp (-g.bvy)
        else g.bvy) ∧
      (paddle g).2 = if 0 < g.bvy ∧ Over g (px g.ballX) (px g.ballY) then [⟨(g.bvx, g.bvy),
        (speedUp (g.bvx + offset g (px g.ballX) * 2), speedUp (-g.bvy))⟩] else [] := by
  unfold paddle
  split_ifs <;> exact ⟨rfl, rfl, rfl, rfl⟩

theorem missed_spec (g : State) :
    (missed g).bvx = g.bvx ∧ (missed g).bvy = g.bvy ∧ (missed g).paddleX = g.paddleX ∧
      (missed g).level = g.level ∧
      (missed g = g ∧ px g.ballY ≤ 64 ∨
        (missed g).gameOver = true ∧ (missed g).ballX = g.ballX ∧ (missed g).ballY = g.ballY ∧
          (missed g).ballHeld = g.ballHeld ∨
        missed g = holdBall (missed g)) := by
  unfold missed
  dsimp only
  split_ifs with hlow hlast
  · exact ⟨rfl, rfl, rfl, rfl, Or.inr (Or.inl ⟨rfl, rfl, rfl, rfl⟩)⟩
  · exact ⟨rfl, rfl, rfl, rfl, Or.inr (Or.inr rfl)⟩
  · exact ⟨rfl, rfl, rfl, rfl, Or.inl ⟨rfl, Int.not_lt.mp hlow⟩⟩

theorem meets_behind_bricks {a : State} (ha : Walled (moveBall g) a) :
    ((brick a).2 = true → ¬ Meets g (px a.ballX)) ∧
      ((brick a).2 = false → ((0 < (brick a).1.bvy ∧ Over (brick a).1 (px (brick a).1.ballX)
        (px (brick a).1.ballY)) ↔ Meets g (px a.ballX)) ∧
        offset (brick a).1 (px (brick a).1.ballX) = offset g (px a.ballX) ∧
        (Meets g (px a.ballX) → (brick a).1.bvy = g.bvy)) := by
  obtain ⟨-, hpaddle, -, -, hcases⟩ := brick_spec a
  have hpaddle' : a.paddleX = g.paddleX := ha.rest.1
  have hy : px a.ballY = px (g.ballY + g.bvy) ∨ px (g.ballY + g.bvy) ≤ 0 ∧ px a.ballY = 0 := by
    rw [ha.ballY]
    split_ifs with htop
    · exact Or.inr ⟨htop, rfl⟩
    · exact Or.inl rfl
  have hbvy : 0 < px (g.ballY + g.bvy) → a.bvy = g.bvy := fun hpos =>
    ha.bvy.trans (if_neg (Int.not_le.mpr hpos))
  unfold Meets Over paddleY
  rcases hcases with ⟨hcleared, hrow, -⟩ | ⟨hgoes, hx, hball, -, hturn⟩
  · refine ⟨fun _ hmet => ?_, fun h => ?_⟩
    · have hlow := hmet.2.1.1
      omega
    · rw [hcleared] at h
      exact absurd h (by decide)
  · refine ⟨fun h => ?_, fun _ => ⟨?_, ?_, fun hmet => ?_⟩⟩
    · rw [hgoes] at h
      exact absurd h Bool.false_ne_true
    · rw [hx, hball, hpaddle, hpaddle']
      omega
    · rw [offset, offset, hx, hpaddle, hpaddle']
    · have hlow := hmet.2.1.1
      omega

/-- The velocity after a step, behind the walls `a`. -/
theorem stepBall_velocity (h : g.ballHeld = false) {a : State} (ha : Walled (moveBall g) a)
    (hwalls : (reached (moveBall g)).foldl reflect (moveBall g) = a) :
    (stepBall g).walls = reached (moveBall g) ∧
      ((stepBall g).after.bvx = a.bvx + spin g (px a.ballX) ∨
        (stepBall g).after.bvx = speedUp (a.bvx + spin g (px a.ballX))) ∧
      (px (g.ballY + g.bvy) ≤ 0 → (stepBall g).after.bvy = -g.bvy) := by
  obtain ⟨hbvx, -, -, -, hcases⟩ := brick_spec a
  obtain ⟨hnone, hmeets⟩ := meets_behind_bricks ha
  have htop : px (g.ballY + g.bvy) ≤ 0 → px a.ballY = 0 ∧ a.bvy = -g.bvy := fun hreach =>
    ⟨by rw [ha.ballY.trans (if_pos hreach)]; rfl, ha.bvy.trans (if_pos hreach)⟩
  unfold stepBall
  rw [h, if_neg Bool.false_ne_true]
  dsimp only
  rw [hwalls]
  rcases hcases with ⟨hcleared, hrow, -⟩ | ⟨hgoes, -, -, -, hturn⟩
  · rw [hcleared, if_pos rfl, spin, if_neg (hnone hcleared), Int.add_zero]
    refine ⟨rfl, Or.inl hbvx, fun hreach => ?_⟩
    have hzero := (htop hreach).1
    omega
  · rw [hgoes, if_neg Bool.false_ne_true]
    obtain ⟨-, hpx, hpy, -⟩ := paddle_spec (brick a).1
    obtain ⟨hmx, hmy, -⟩ := missed_spec (paddle (brick a).1).1
    obtain ⟨hmet, hoffset, -⟩ := hmeets hgoes
    refine ⟨rfl, ?_, fun hreach => ?_⟩
    · rw [hmx, hpx, hbvx, hoffset, spin]
      simp only [hmet]
      split_ifs
      · exact Or.inr rfl
      · exact Or.inl (Int.add_zero _).symm
    · obtain ⟨hzero, hflip⟩ := htop hreach
      have hfar : ¬ Meets g (px a.ballX) := by
        rintro ⟨-, ⟨hlow, -⟩, -⟩
        unfold paddleY at hlow
        omega
      rw [hmy, hpy, if_neg (hmet.not.mpr hfar)]
      omega

/-- The hits of a step, and what becomes of the upward component unless the ball is held again. -/
theorem stepBall_hits (h : g.ballHeld = false) {a : State} (ha : Walled (moveBall g) a)
    (hwalls : (reached (moveBall g)).foldl reflect (moveBall g) = a) :
    (stepBall g).hits = (if Meets g (px a.ballX) then [⟨(a.bvx, g.bvy),
        (speedUp (a.bvx + offset g (px a.ballX) * 2), speedUp (-g.bvy))⟩] else []) ∧
      ((stepBall g).after.ballHeld = true ∨ (stepBall g).after.level = g.level ∧
        ((stepBall g).after.bvy = g.bvy ∨ (stepBall g).after.bvy = -g.bvy ∨
          (stepBall g).after.bvy = speedUp (-g.bvy))) := by
  obtain ⟨hbvx, -, -, -, hcases⟩ := brick_spec a
  obtain ⟨hnone, hmeets⟩ := meets_behind_bricks ha
  have hbvy : a.bvy = g.bvy ∨ a.bvy = -g.bvy := by
    rw [ha.bvy]
    split_ifs
    · exact Or.inr rfl
    · exact Or.inl rfl
  unfold stepBall
  rw [h, if_neg Bool.false_ne_true]
  dsimp only
  rw [hwalls]
  rcases hcases with ⟨hcleared, -, hhold⟩ | ⟨hgoes, -, -, ⟨-, hlevel⟩, hturn⟩
  · rw [hcleared, if_pos rfl, if_neg (hnone hcleared)]
    refine ⟨rfl, Or.inl ?_⟩
    dsimp only
    rw [hhold]
    rfl
  · rw [hgoes, if_neg Bool.false_ne_true]
    obtain ⟨hrest, -, hpy, hhits⟩ := paddle_spec (brick a).1
    obtain ⟨-, hmy, -, hmlevel, -⟩ := missed_spec (paddle (brick a).1).1
    obtain ⟨hmet, hoffset, hsame⟩ := hmeets hgoes
    have hplevel : (paddle (brick a).1).1.level = g.level := by
      rw [hrest]
      exact hlevel.trans ha.rest.2.1
    dsimp only
    refine ⟨?_, Or.inr ⟨hmlevel.trans hplevel, ?_⟩⟩
    · rw [hhits, hoffset, hbvx]
      simp only [hmet]
      split_ifs with hmeet
      · rw [hsame hmeet]
      · rfl
    · rw [hmy, hpy]
      simp only [hmet]
      split_ifs with hmeet
      · exact Or.inr (Or.inr (by rw [hsame hmeet]))
      · omega

/-- What is reflected in a step points away exactly if the ball moves toward every wall that it
reaches. -/
theorem away_iff (g : State) :
    (∀ w ∈ (stepBall g).walls, Away (stepBall g).after w) ↔ Toward g := by
  cases hheld : g.ballHeld with
  | true =>
      rw [stepBall, if_pos hheld]
      exact iff_of_true (fun _ hw => absurd hw List.not_mem_nil) fun h => by
        rw [hheld] at h
        exact absurd h (by decide)
  | false =>
      have ha := walled_foldl_reflect (moveBall g)
      obtain ⟨hwalls, hvx, hvy⟩ := stepBall_velocity hheld ha rfl
      set a := (reached (moveBall g)).foldl reflect (moveBall g)
      have hsign : (0 < (stepBall g).after.bvx ↔ 0 < a.bvx + spin g (px a.ballX)) ∧
          ((stepBall g).after.bvx < 0 ↔ a.bvx + spin g (px a.ballX) < 0) := by
        rcases hvx with hvx | hvx
        · rw [hvx]
          exact ⟨Iff.rfl, Iff.rfl⟩
        · rw [hvx]
          exact ⟨speedUp_pos, speedUp_neg⟩
      have hleft : px (g.ballX + g.bvx) ≤ 0 →
          (0 < (stepBall g).after.bvx ↔ g.bvx < spin g 0) := by
        intro hreach
        have hx := ha.ballX.trans (if_pos hreach)
        have hv := ha.bvx.trans (if_pos (Or.inl hreach))
        rw [hsign.1, hx, hv]
        have hv' : (moveBall g).bvx = g.bvx := rfl
        have hzero : px 0 = 0 := rfl
        rw [hv', hzero]
        omega
      have hright : 126 ≤ px (g.ballX + g.bvx) →
          ((stepBall g).after.bvx < 0 ↔ spin g 126 < g.bvx) := by
        intro hreach
        have hx := (ha.ballX.trans (if_neg (by omega : ¬ px (g.ballX + g.bvx) ≤ 0))).trans
          (if_pos hreach)
        have hv := ha.bvx.trans (if_pos (Or.inr hreach))
        rw [hsign.2, hx, hv, px_mul]
        have hv' : (moveBall g).bvx = g.bvx := rfl
        rw [hv']
        omega
      have htop : px (g.ballY + g.bvy) ≤ 0 → (0 < (stepBall g).after.bvy ↔ g.bvy < 0) := by
        intro hreach
        rw [hvy hreach]
        omega
      rw [hwalls]
      constructor
      · intro h _
        exact ⟨fun hl => (hleft hl).mp (h .left (mem_reached.mpr hl)),
          fun hr => (hright hr).mp (h .right (mem_reached.mpr hr)),
          fun ht => (htop ht).mp (h .top (mem_reached.mpr ht))⟩
      · intro h w hw
        obtain ⟨hl, hr, ht⟩ := h hheld
        have hreach := mem_reached.mp hw
        cases w with
        | left => exact (hleft hreach).mpr (hl hreach)
        | right => exact (hright hreach).mpr (hr hreach)
        | top => exact (htop hreach).mpr (ht hreach)

end Step

section Runs

variable {g g' : State}

/-- A game between two keys or steps. -/
structure Sound (g : State) : Prop where
  range : 0 ≤ g.paddleX ∧ g.paddleX ≤ 112
  level : 1 ≤ g.level
  held : g.ballHeld = true → (128 ≤ g.ballX ∧ g.ballX ≤ 1920) ∧ g.ballY = 912

theorem sound_holdBall (hrange : 0 ≤ g.paddleX ∧ g.paddleX ≤ 112) (hlevel : 1 ≤ g.level) :
    Sound (holdBall g) ∧ InCourt (holdBall g) := by
  have hx : (holdBall g).ballX = (g.paddleX + 8) * 16 := rfl
  have hy : (holdBall g).ballY = 912 := rfl
  refine ⟨⟨hrange, hlevel, fun _ => ⟨by omega, hy⟩⟩, ⟨?_, ?_, Or.inl ?_⟩⟩
  · rw [hx, px_mul]
    omega
  · rw [hy]
    decide
  · rw [hy]
    decide

theorem sound_resetGame : Sound resetGame := (sound_holdBall (by decide) (by decide)).1

/-- The ball after a step: it is held again, or it flies on from behind the walls. -/
theorem stepBall_cases (hheld : g.ballHeld = false) {a : State} (ha : Walled (moveBall g) a)
    (hwalls : (reached (moveBall g)).foldl reflect (moveBall g) = a) :
    ∃ after : State, after.paddleX = g.paddleX ∧ g.level ≤ after.level ∧
      ((stepBall g).after = holdBall after ∨
        (stepBall g).after = after ∧ after.ballHeld = false ∧ after.ballX = a.ballX ∧
          after.ballY = a.ballY ∧ (px after.ballY ≤ 64 ∨ after.gameOver = true)) := by
  obtain ⟨hpaddle, hlevel, hgoes, -⟩ := ha.rest
  obtain ⟨-, hbpaddle, -, hblevel, hcases⟩ := brick_spec a
  have hlevel' : g.level ≤ (brick a).1.level := hlevel ▸ hblevel
  unfold stepBall
  rw [hheld, if_neg Bool.false_ne_true]
  dsimp only
  rw [hwalls]
  rcases hcases with ⟨hcleared, -, hhold⟩ | ⟨hstays, hx, hy, hbheld, -⟩
  · rw [hcleared, if_pos rfl]
    exact ⟨(brick a).1, hbpaddle.trans hpaddle, hlevel', Or.inl hhold⟩
  · rw [hstays, if_neg Bool.false_ne_true]
    dsimp only
    obtain ⟨hrest, -⟩ := paddle_spec (brick a).1
    obtain ⟨-, -, hmpaddle, hmlevel, hmissed⟩ := missed_spec (paddle (brick a).1).1
    have hp : (paddle (brick a).1).1.paddleX = g.paddleX ∧
        (paddle (brick a).1).1.level = (brick a).1.level ∧
        (paddle (brick a).1).1.ballX = a.ballX ∧ (paddle (brick a).1).1.ballY = a.ballY ∧
        (paddle (brick a).1).1.ballHeld = false := by
      rw [hrest]
      exact ⟨hbpaddle.trans hpaddle, rfl, hx, hy, hbheld.1.trans (hgoes.trans hheld)⟩
    refine ⟨missed (paddle (brick a).1).1, hmpaddle.trans hp.1, ?_, ?_⟩
    · rw [hmlevel, hp.2.1]
      exact hlevel'
    · rcases hmissed with ⟨hsame, hlow⟩ | ⟨hover, hmx, hmy, hmheld⟩ | hhold
      · rw [hsame]
        exact Or.inr ⟨rfl, hp.2.2.2.2, hp.2.2.1, hp.2.2.2.1, Or.inl hlow⟩
      · exact Or.inr ⟨rfl, hmheld.trans hp.2.2.2.2, hmx.trans hp.2.2.1, hmy.trans hp.2.2.2.1,
          Or.inr hover⟩
      · exact Or.inl hhold

/-- The ball stays in the court, or is lost at the bottom. -/
theorem Sound.stepBall (h : Sound g) :
    Sound (Breakout.stepBall g).after ∧ InCourt (Breakout.stepBall g).after := by
  cases hheld : g.ballHeld with
  | true =>
      have hafter : (Breakout.stepBall g).after = holdBall g := by
        rw [Breakout.stepBall, if_pos hheld, holdBall, hheld, (h.held hheld).2]
        rfl
      exact hafter ▸ sound_holdBall h.range h.level
  | false =>
      have ha := walled_foldl_reflect (moveBall g)
      obtain ⟨after, hpaddle, hlevel, hcases⟩ := stepBall_cases hheld ha rfl
      have hrange : 0 ≤ after.paddleX ∧ after.paddleX ≤ 112 := hpaddle ▸ h.range
      have hone : 1 ≤ after.level := Int.le_trans h.level hlevel
      rcases hcases with hhold | ⟨hsame, hflies, hx, hy, hbottom⟩
      · exact hhold ▸ sound_holdBall hrange hone
      · rw [hsame]
        refine ⟨⟨hrange, hone, fun hh => ?_⟩, ⟨hx ▸ ha.x, hy ▸ ha.y, hbottom⟩⟩
        rw [hflies] at hh
        exact absurd hh Bool.false_ne_true

/-- A ball that was served and has not moved since. -/
structure Served (g : State) : Prop where
  flies : g.ballHeld = false
  place : (128 ≤ g.ballX ∧ g.ballX ≤ 1920) ∧ g.ballY = 912
  bvx : -12 ≤ g.bvx ∧ g.bvx ≤ 12
  bvy : -24 ≤ g.bvy

/-- What keys leave of the velocity: the ball is held, flies on, or was served. -/
def Goes (g g' : State) : Prop :=
  g'.ballHeld = true ∨
    (g.ballHeld = false ∧ g'.ballHeld = false ∧ g'.bvx = g.bvx ∧ g'.bvy = g.bvy) ∨ Served g'

theorem sound_press (h : Sound g') (hgoes : Goes g g') (key : Press) :
    Sound (press g' key) ∧ Goes g (press g' key) := by
  have hrange := h.range
  cases key with
  | left =>
      refine ⟨⟨?_, h.level, h.held⟩, ?_⟩
      · dsimp only [press]
        omega
      · rcases hgoes with hheld | hsame | hserved
        · exact Or.inl hheld
        · exact Or.inr (Or.inl hsame)
        · exact Or.inr (Or.inr ⟨hserved.flies, hserved.place, hserved.bvx, hserved.bvy⟩)
  | right =>
      refine ⟨⟨?_, h.level, h.held⟩, ?_⟩
      · dsimp only [press, paddleW]
        omega
      · rcases hgoes with hheld | hsame | hserved
        · exact Or.inl hheld
        · exact Or.inr (Or.inl hsame)
        · exact Or.inr (Or.inr ⟨hserved.flies, hserved.place, hserved.bvx, hserved.bvy⟩)
  | ok draw =>
      dsimp only [press]
      split_ifs with hheld
      · have hspeed := h.level
        refine ⟨⟨hrange, h.level, fun hh => absurd hh Bool.false_ne_true⟩, Or.inr (Or.inr ?_)⟩
        refine ⟨rfl, h.held hheld, ?_, ?_⟩
        · dsimp only [serve]
          split_ifs
          · rw [tdiv_eq_ite]
            split_ifs <;> omega
          · rw [tdiv_eq_ite]
            split_ifs <;> omega
        · dsimp only [serve]
          omega
      · exact ⟨h, hgoes⟩
  | restart => exact ⟨sound_resetGame, Or.inl rfl⟩

theorem sound_presses (h : Sound g) (keys : List Press) :
    Sound (keys.foldl press g) ∧ Goes g (keys.foldl press g) := by
  have hall : ∀ (keys : List Press) (g' : State), Sound g' → Goes g g' →
      Sound (keys.foldl press g') ∧ Goes g (keys.foldl press g') := by
    intro keys
    induction keys with
    | nil => exact fun g' hg' hgoes => ⟨hg', hgoes⟩
    | cons key keys ih =>
        intro g' hg' hgoes
        obtain ⟨hnext, hgoes'⟩ := sound_press hg' hgoes key
        exact ih _ hnext hgoes'
  refine hall keys g h ?_
  cases hheld : g.ballHeld with
  | true => exact Or.inl hheld
  | false => exact Or.inr (Or.inl ⟨hheld, hheld, rfl, rfl⟩)

/-- A wall that the ball leaves does not reflect it in the next step. -/
theorem not_reflected_twice (h : Sound g) (keys : List Press)
    (hturns : Toward (keys.foldl press g)) {w : Wall} (haway : Away g w) :
    w ∉ (stepBall (keys.foldl press g)).walls := by
  obtain ⟨hnext, hgoes⟩ := sound_presses h keys
  set next := keys.foldl press g
  rcases hgoes with hheld | ⟨-, hheld, hvx, hvy⟩ | hserved
  · rw [stepBall, if_pos hheld]
    exact List.not_mem_nil
  · have ha := walled_foldl_reflect (moveBall next)
    rw [(stepBall_velocity hheld ha rfl).1, mem_reached]
    have hrange := hnext.range
    obtain ⟨hleft, hright, htop⟩ := hturns hheld
    intro hreach
    cases w with
    | left =>
        have hspeed := hleft hreach
        have haway' : 0 < g.bvx := haway
        unfold spin offset paddleW at hspeed
        split_ifs at hspeed <;> omega
    | right =>
        have hspeed := hright hreach
        have haway' : g.bvx < 0 := haway
        unfold spin offset paddleW at hspeed
        split_ifs at hspeed <;> omega
    | top =>
        have hspeed := htop hreach
        have haway' : 0 < g.bvy := haway
        omega
  · have ha := walled_foldl_reflect (moveBall next)
    rw [(stepBall_velocity hserved.flies ha rfl).1, mem_reached]
    obtain ⟨⟨hlow, hhigh⟩, hy⟩ := hserved.place
    have hvx := hserved.bvx
    have hvy := hserved.bvy
    have hx : px (moveBall next).ballX = (next.ballX + next.bvx) / 16 := rfl
    have hy' : px (moveBall next).ballY = (next.ballY + next.bvy) / 16 := rfl
    cases w with
    | left => rw [hx]; omega
    | right => rw [hx]; omega
    | top => rw [hy']; omega

theorem outputs_of_gameOver (h : g.gameOver = true) (ticks : List (List Press)) :
    outputs tick g ticks = [] := by
  induction ticks with
  | nil => rfl
  | cons keys ticks ih =>
      have hstays : tick g keys = (g, []) := if_pos h
      rw [outputs_cons, hstays]
      exact ih

/-- The next step of a run does not reflect the ball at a wall that it leaves. -/
theorem not_reflected_next (h : Sound g) {ticks : List (List Press)}
    (hturns : Along tick Turns g ticks) {w : Wall} (haway : Away g w) :
    ∀ next ∈ (outputs tick g ticks).head?, w ∉ next.walls := by
  intro next hnext
  cases hover : g.gameOver with
  | true =>
      rw [outputs_of_gameOver hover] at hnext
      exact absurd hnext (Option.not_mem_none next)
  | false =>
      cases ticks with
      | nil => exact absurd hnext (Option.not_mem_none next)
      | cons keys ticks =>
          have htick : (tick g keys).2 = [stepBall (keys.foldl press g)] := by
            rw [tick, hover, if_neg Bool.false_ne_true]
          rw [outputs_cons, htick, List.singleton_append, List.head?_cons, Option.mem_some_iff]
            at hnext
          exact hnext ▸ not_reflected_twice h keys (hturns.1 hover) haway

end Runs

/-- The ball stays in the court, leaves every wall that reflects it and is not reflected twice
there, exactly if in every step it moves toward the walls that it reaches. -/
theorem breakout_iff (ticks : List (List Press)) :
    Reflects (outputs tick resetGame ticks) ↔ Along tick Turns resetGame ticks := by
  have hrun : ∀ g, Sound g → (Reflects (outputs tick g ticks) ↔ Along tick Turns g ticks) := by
    induction ticks with
    | nil => exact fun g _ => iff_of_true ⟨nofun, nofun, List.IsChain.nil⟩ trivial
    | cons keys ticks ih =>
        intro g h
        cases hover : g.gameOver with
        | true =>
            have hstays : tick g keys = (g, []) := if_pos hover
            have hturns : Turns g keys := fun hgoes => by
              rw [hover] at hgoes
              exact absurd hgoes (by decide)
            rw [outputs_cons, along_cons, hstays, List.nil_append, ih g h]
            exact (and_iff_right hturns).symm
        | false =>
            have hnext := (sound_presses h keys).1
            have htick : tick g keys = ((stepBall (keys.foldl press g)).after,
                [stepBall (keys.foldl press g)]) := by
              rw [tick, hover, if_neg Bool.false_ne_true]
            set seen := stepBall (keys.foldl press g)
            have hturns : Turns g keys ↔ ∀ w ∈ seen.walls, Away seen.after w := by
              rw [away_iff, Turns, hover]
              exact forall_prop_of_true rfl
            rw [outputs_cons, along_cons, htick, List.singleton_append, hturns]
            have hrest := ih seen.after hnext.stepBall.1
            constructor
            · intro hreflects
              refine ⟨hreflects.away seen List.mem_cons_self, hrest.mp ⟨?_, ?_, ?_⟩⟩
              · exact fun next hmem => hreflects.inside next (List.mem_cons_of_mem seen hmem)
              · exact fun next hmem => hreflects.away next (List.mem_cons_of_mem seen hmem)
              · exact (List.isChain_cons.mp hreflects.once).2
            · rintro ⟨haway, halong⟩
              have hreflects := hrest.mpr halong
              refine ⟨List.forall_mem_cons.mpr ⟨hnext.stepBall.2, hreflects.inside⟩,
                List.forall_mem_cons.mpr ⟨haway, hreflects.away⟩,
                List.isChain_cons.mpr ⟨fun next hmem w hw => ?_, hreflects.once⟩⟩
              exact not_reflected_next hnext.stepBall.1 halong (haway w hw) next hmem
  exact hrun resetGame sound_resetGame

/-- The paddle is moved to the left, and a ball served to that side. -/
def servedLeft : List (List Press) :=
  [List.replicate 12 .left, [.ok false]] ++ List.replicate 17 []

/-- In the first game a ball is too slow to leave a wall, and sticks to it. -/
theorem not_breakout : ¬ ∀ ticks : List (List Press), Reflects (outputs tick resetGame ticks) := by
  intro h
  have htwice : ¬ (outputs tick resetGame servedLeft).IsChain
      fun seen next => ∀ w ∈ seen.walls, w ∉ next.walls := by decide
  exact htwice (h servedLeft).once

end Breakout
end Games
end JppDos
