import JppDos.Lib.CInt
import JppDos.Lib.Machine

/-!
# Pong between two devices

`pong.c`: the host moves the ball and owns the score, and builds a packet of 16 bytes after every
tick.  The client reads some of them, shows what they hold, and sounds when a count has grown.
-/

namespace JppDos
namespace Games
namespace Pong

open CInt Machine

/-- `pong_t`: positions of the ball in sixteenths of a pixel. -/
structure State where
  ballX : Int
  ballY : Int
  vx : Int
  vy : Int
  leftY : Int
  rightY : Int
  leftWins : Int
  rightWins : Int
  serveTimer : Int
  serveDir : Int
  deriving DecidableEq

/-- `PADDLE_H`. -/
def paddleH : Int := 14

/-- `PLAY_TOP`. -/
def playTop : Int := 7

/-- `PLAY_BOTTOM`. -/
def playBottom : Int := 62

/-- `PADDLE_MAX_Y`. -/
def paddleMaxY : Int := 64 - paddleH

/-- `RIGHT_X`; `LEFT_X` is 0. -/
def rightX : Int := 125

/-- `BALL_MAX_V`. -/
def ballMaxV : Int := 40

/-- A coordinate `>> Q`. -/
def px (q : Int) : Int := q / 16

/-- The two numbers that `serve_reset` draws. -/
structure Draw where
  y : Fin 8
  vy : Fin 11
  deriving DecidableEq

/-- `serve_reset`. -/
def serveReset (draw : Draw) (dir : Int) (g : State) : State :=
  { g with
    ballX := 63 * 16
    ballY := (28 + (draw.y : Int)) * 16
    vx := dir * 13
    vy := ((draw.vy : Int) - 5) * 2
    serveTimer := 30
    serveDir := dir }

/-- `clamp_speed` of one component. -/
def clampSpeed (v : Int) : Int := max (-ballMaxV) (min v ballMaxV)

/-- `paddle_bounce`. -/
def paddleBounce (paddleY : Int) (g : State) : State :=
  let offset := px g.ballY + 1 - (paddleY + paddleH / 2)
  { g with vx := clampSpeed (-(g.vx + g.vx.tdiv 20)), vy := clampSpeed (g.vy + offset * 2) }

/-- The ball against the upper wall, and against the lower one; `py` is its row before both. -/
def topBounce (py : Int) (g : State) : State :=
  if g.vy < 0 ∧ py ≤ playTop then { g with ballY := playTop * 16, vy := -g.vy } else g

def bottomBounce (py : Int) (g : State) : State :=
  if 0 < g.vy ∧ playBottom ≤ py then { g with ballY := playBottom * 16, vy := -g.vy } else g

/-- The ball against the walls. -/
def wallBounce (g : State) : State := bottomBounce (px g.ballY) (topBounce (px g.ballY) g)

/-- The ball against the paddles; `py` is its row before the walls. -/
def paddleHits (py : Int) (g : State) : State :=
  let x := px g.ballX
  let g :=
    if g.vx < 0 ∧ x ≤ 3 ∧ 0 ≤ x ∧ g.leftY ≤ py + 2 ∧ py ≤ g.leftY + paddleH then
      paddleBounce g.leftY { g with ballX := 3 * 16 }
    else g
  if 0 < g.vx ∧ rightX ≤ x + 2 ∧ x ≤ rightX + 2 ∧ g.rightY ≤ py + 2 ∧
      py ≤ g.rightY + paddleH then
    paddleBounce g.rightY { g with ballX := (rightX - 2) * 16 }
  else g

/-- The ball one tick on. -/
def moveBall (g : State) : State := { g with ballX := g.ballX + g.vx, ballY := g.ballY + g.vy }

/-- `step_ball`: the side that has scored, and the game. -/
def stepBall (draw : Draw) (g : State) : Int × State :=
  if 0 < g.serveTimer then
    let g := { g with serveTimer := g.serveTimer - 1 }
    if g.serveTimer = 0 then (0, { serveReset draw g.serveDir g with serveTimer := 0 })
    else (0, g)
  else
    let moved := moveBall g
    let g := paddleHits (px moved.ballY) (wallBounce moved)
    if px moved.ballX < -2 then
      (-1, serveReset draw (-1) { g with rightWins := wrap32 (g.rightWins + 1) })
    else if 128 < px moved.ballX then
      (1, serveReset draw 1 { g with leftWins := wrap32 (g.leftWins + 1) })
    else (0, g)

/-- `move_paddle`. -/
def movePaddle (y delta : Int) : Int := min (max (y + delta) playTop) paddleMaxY

/-- The state in which `play_host` begins. -/
def hostStart (draw : Draw) (right : Bool) : State :=
  serveReset draw (if right then 1 else -1)
    { ballX := 0, ballY := 0, vx := 0, vy := 0, leftY := (64 - paddleH) / 2,
      rightY := (64 - paddleH) / 2, leftWins := 0, rightWins := 0, serveTimer := 0, serveDir := 0 }

/-- A value in a byte. -/
def byte (v : Int) : UInt8 := UInt8.ofNat (v % 256).toNat

/-- `host_send_state`. -/
def hostSendState (tick roundEvent endReason ackSeq : Nat) (g : State) : List UInt8 :=
  [0x5A, 0x10, UInt8.ofNat (tick % 256), UInt8.ofNat (tick / 256),
    byte (if 0 < g.serveTimer then 255 else px g.ballX), byte (px g.ballY), byte g.leftY,
    byte g.rightY, byte g.leftWins, byte g.rightWins, UInt8.ofNat roundEvent,
    UInt8.ofNat endReason, UInt8.ofNat (ackSeq % 256), UInt8.ofNat (ackSeq / 256), 0, 0]

/-- What the client plays. -/
inductive Sound where
  | roundWon
  | roundLost
  deriving DecidableEq

/-- Byte `i` of a packet. -/
def at? (rx : List UInt8) (i : Nat) : Nat := (rx[i]?.getD 0).toNat

/-- The part of `play_client` that takes a state packet: the game that the client shows, what
it plays, and the reason to end, if the packet has one; `seq` is the last number that the client has
sent, and `myPaddle` its own paddle. -/
def clientTake (seq : Nat) (myPaddle : Int) (rx : List UInt8) (g : State) :
    State × Option Sound × Nat :=
  let ack := at? rx 12 + at? rx 13 * 256
  let g' : State :=
    { g with
      serveTimer := if at? rx 4 = 255 then 1 else 0
      ballX := if at? rx 4 = 255 then g.ballX else at? rx 4 * 16
      ballY := at? rx 5 * 16
      leftY := at? rx 6
      rightY := if ack = seq then at? rx 7 else myPaddle
      leftWins := at? rx 8
      rightWins := at? rx 9 }
  let sound :=
    if at? rx 11 ≠ 0 then none
    else if g.rightWins < g'.rightWins then some .roundWon
    else if g.leftWins < g'.leftWins then some .roundLost
    else none
  (g', sound, at? rx 11)

/-- The state in which `play_client` begins. -/
def clientStart : State :=
  { ballX := 0, ballY := 0, vx := 0, vy := 0, leftY := (64 - paddleH) / 2,
    rightY := (64 - paddleH) / 2, leftWins := 0, rightWins := 0, serveTimer := 1, serveDir := 0 }

/-- What happens in a tick of the host: the keys on its paddle, the paddle of the client if a
packet with it is accepted, the numbers drawn, and whether the client reads the state before
the next tick, with what it has sent and holds. -/
structure Tick where
  keys : List Bool
  accepted : Option (Fin 51)
  draw : Draw
  ackSeq : Nat
  read : Option (Nat × Int)
  deriving DecidableEq

/-- The keys of the host. -/
def moveLeft (keys : List Bool) (y : Int) : Int :=
  keys.foldl (fun y up => movePaddle y (if up then -4 else 4)) y

/-- A turn of the loop of `play_host`. -/
def hostTick (t : Tick) (g : State) : Int × State :=
  let g := { g with leftY := moveLeft t.keys g.leftY }
  let g := { g with rightY := (t.accepted.map fun y => (y.val : Int)).getD g.rightY }
  stepBall t.draw g

/-- The match: both games, the counter of ticks, and the counts that the client has read last. -/
structure Match where
  host : State
  client : State
  tick : Nat
  seen : Int × Int
  deriving DecidableEq

/-- `round_event`. -/
def roundEvent (scored : Int) : Nat := if 0 < scored then 1 else if scored < 0 then 2 else 0

/-- What the client does with a state when it reads it. -/
def matchStep (m : Match) (t : Tick) : Match × List (Option Sound) :=
  let tick := (m.tick + 1) % 2 ^ 16
  let (scored, host) := hostTick t m.host
  match t.read with
  | none => ({ m with host := host, tick := tick }, [])
  | some (seq, myPaddle) =>
      let pkt := hostSendState tick (roundEvent scored) 0 t.ackSeq host
      let (client, sound, _) := clientTake seq myPaddle pkt m.client
      (⟨host, client, tick, (host.leftWins, host.rightWins)⟩, [sound])

/-- A match at its beginning. -/
def matchStart (draw : Draw) (right : Bool) : Match :=
  ⟨hostStart draw right, clientStart, 0, (0, 0)⟩

/-- What the client should play when it reads these counts after those. -/
def expectedSound (seen : Int × Int) (host : State) : Option Sound :=
  if seen.2 < host.rightWins then some .roundWon
  else if seen.1 < host.leftWins then some .roundLost
  else none

/-- The client shows the ball, or that it is waited for, the paddle and the counts of the host. -/
structure Shows (client host : State) : Prop where
  waiting : 0 < client.serveTimer ↔ 0 < host.serveTimer
  ball : ¬ 0 < host.serveTimer → px client.ballX = px host.ballX ∧ px client.ballY = px host.ballY
  paddle : client.leftY = host.leftY
  leftWins : client.leftWins = host.leftWins
  rightWins : client.rightWins = host.rightWins

/-- A read is right: the client shows the state, and plays for the rounds since the last one. -/
def ReadRight (m : Match) (t : Tick) : Prop :=
  t.read.isSome →
    Shows (matchStep m t).1.client (matchStep m t).1.host ∧
      (matchStep m t).2 = [expectedSound m.seen (matchStep m t).1.host]

/-- A state that fits into the bytes of a packet. -/
def Representable (g : State) : Prop :=
  (0 < g.serveTimer ∨ 0 ≤ px g.ballX) ∧ (0 ≤ g.leftWins ∧ g.leftWins ≤ 255) ∧
    (0 ≤ g.rightWins ∧ g.rightWins ≤ 255)

instance (g : State) : Decidable (Representable g) := inferInstanceAs (Decidable (_ ∧ _))

/-- A state that is read fits. -/
def ReadFits (m : Match) (t : Tick) : Prop :=
  t.read.isSome → Representable (matchStep m t).1.host

section Court

variable {g : State}

/-- What the rules keep: the ball is in the court, up to two pixels beyond its left end and three
beyond its right one, and the host's paddle is on the display. -/
structure InCourt (g : State) : Prop where
  ballX : -2 ≤ px g.ballX ∧ px g.ballX ≤ 128
  ballY : playTop * 16 ≤ g.ballY ∧ g.ballY ≤ playBottom * 16
  leftY : 0 ≤ g.leftY ∧ g.leftY ≤ paddleMaxY

theorem inCourt_serve (h : 0 ≤ g.leftY ∧ g.leftY ≤ paddleMaxY) (draw : Draw) (dir : Int) :
    InCourt (serveReset draw dir g) := by
  have hdraw := draw.y.isLt
  refine ⟨?_, ?_, h⟩
  · change -2 ≤ px (63 * 16) ∧ px (63 * 16) ≤ 128
    decide
  · change 7 * 16 ≤ (28 + (draw.y : Int)) * 16 ∧ (28 + (draw.y : Int)) * 16 ≤ 62 * 16
    omega

/-- The walls keep the ball between them, and change nothing but its row. -/
theorem wallBounce_spec (hlow : 0 ≤ g.vy → playTop * 16 ≤ g.ballY)
    (hhigh : g.vy ≤ 0 → g.ballY ≤ playBottom * 16) :
    (playTop * 16 ≤ (wallBounce g).ballY ∧ (wallBounce g).ballY ≤ playBottom * 16) ∧
      (wallBounce g).ballX = g.ballX ∧ (wallBounce g).leftY = g.leftY := by
  have hedge : ∀ y : Int, y = 7 * 16 ∨ y = 62 * 16 → 7 * 16 ≤ y ∧ y ≤ 62 * 16 := by
    omega
  rw [wallBounce, topBounce]
  by_cases htop : g.vy < 0 ∧ px g.ballY ≤ playTop
  · rw [if_pos htop, bottomBounce]
    unfold px playTop playBottom at *
    split_ifs
    · exact ⟨hedge _ (.inr rfl), rfl, rfl⟩
    · exact ⟨hedge _ (.inl rfl), rfl, rfl⟩
  · rw [if_neg htop, bottomBounce]
    unfold px playTop playBottom at *
    split_ifs
    · exact ⟨hedge _ (.inr rfl), rfl, rfl⟩
    · refine ⟨?_, rfl, rfl⟩
      omega

/-- The paddles move the ball to their front, and change nothing else of the court. -/
theorem paddleHits_spec (py : Int) (g : State) :
    ((paddleHits py g).ballX = g.ballX ∨ (paddleHits py g).ballX = 3 * 16 ∨
        (paddleHits py g).ballX = (rightX - 2) * 16) ∧
      (paddleHits py g).ballY = g.ballY ∧ (paddleHits py g).leftY = g.leftY := by
  unfold paddleHits
  dsimp only
  split_ifs
  · exact ⟨.inr (.inr rfl), rfl, rfl⟩
  · exact ⟨.inr (.inl rfl), rfl, rfl⟩
  · exact ⟨.inr (.inr rfl), rfl, rfl⟩
  · exact ⟨.inl rfl, rfl, rfl⟩

theorem InCourt.fly (h : InCourt g) :
    (∃ x, (paddleHits (px (moveBall g).ballY) (wallBounce (moveBall g))).ballX = x ∧
        (x = (moveBall g).ballX ∨ x = 3 * 16 ∨ x = (rightX - 2) * 16)) ∧
      (playTop * 16 ≤ (paddleHits (px (moveBall g).ballY) (wallBounce (moveBall g))).ballY ∧
        (paddleHits (px (moveBall g).ballY) (wallBounce (moveBall g))).ballY ≤ playBottom * 16) ∧
      (paddleHits (px (moveBall g).ballY) (wallBounce (moveBall g))).leftY = g.leftY := by
  have hY := h.ballY
  have hlow : 0 ≤ (moveBall g).vy → playTop * 16 ≤ (moveBall g).ballY := by
    change 0 ≤ g.vy → playTop * 16 ≤ g.ballY + g.vy
    omega
  have hhigh : (moveBall g).vy ≤ 0 → (moveBall g).ballY ≤ playBottom * 16 := by
    change g.vy ≤ 0 → g.ballY + g.vy ≤ playBottom * 16
    omega
  obtain ⟨hwall, hwallX, hwallL⟩ := wallBounce_spec hlow hhigh
  obtain ⟨hhitX, hhitY, hhitL⟩ :=
    paddleHits_spec (px (moveBall g).ballY) (wallBounce (moveBall g))
  rw [hwallX] at hhitX
  exact ⟨⟨_, rfl, hhitX⟩, hhitY ▸ hwall, hhitL.trans hwallL⟩

theorem InCourt.stepBall (h : InCourt g) (draw : Draw) : InCourt (stepBall draw g).2 := by
  unfold Pong.stepBall
  by_cases hwait : 0 < g.serveTimer
  · rw [if_pos hwait]
    dsimp only
    split_ifs
    · have hserve := inCourt_serve h.leftY draw g.serveDir
      exact ⟨hserve.ballX, hserve.ballY, hserve.leftY⟩
    · exact ⟨h.ballX, h.ballY, h.leftY⟩
  · rw [if_neg hwait]
    obtain ⟨⟨x, hx, hcases⟩, hrow, hleft⟩ := h.fly
    have hpaddle := h.leftY
    rw [← hleft] at hpaddle
    dsimp only
    split_ifs with hlow hhigh
    · refine inCourt_serve ?_ draw (-1)
      exact hpaddle
    · refine inCourt_serve ?_ draw 1
      exact hpaddle
    · refine ⟨?_, hrow, hpaddle⟩
      rw [hx]
      rcases hcases with rfl | rfl | rfl
      · omega
      · decide
      · decide

theorem movePaddle_mem (y delta : Int) :
    0 ≤ movePaddle y delta ∧ movePaddle y delta ≤ paddleMaxY := by
  unfold movePaddle playTop paddleMaxY paddleH
  omega

theorem moveLeft_mem (keys : List Bool) {y : Int} (h : 0 ≤ y ∧ y ≤ paddleMaxY) :
    0 ≤ moveLeft keys y ∧ moveLeft keys y ≤ paddleMaxY := by
  unfold moveLeft
  induction keys generalizing y with
  | nil => exact h
  | cons up keys ih => exact ih (movePaddle_mem _ _)

theorem InCourt.tick (h : InCourt g) (t : Tick) : InCourt (hostTick t g).2 := by
  have hmoved : InCourt { g with
      leftY := moveLeft t.keys g.leftY
      rightY := (t.accepted.map fun y => (y.val : Int)).getD g.rightY } :=
    ⟨h.ballX, h.ballY, moveLeft_mem t.keys h.leftY⟩
  exact hmoved.stepBall t.draw

theorem inCourt_start (draw : Draw) (right : Bool) : InCourt (hostStart draw right) :=
  inCourt_serve (by decide) draw _

end Court

section Packets

variable {g c : State}

theorem toNat_byte (v : Int) : ((byte v).toNat : Int) = v % 256 := by
  rw [byte, UInt8.toNat_ofNat']
  omega

/-- The byte for the ball's column. -/
def ballByte (g : State) : Int := (if 0 < g.serveTimer then 255 else px g.ballX) % 256

/-- What the client takes from a packet of the running match. -/
structure Taken (g c : State) (r : State × Option Sound × Nat) : Prop where
  waiting : 0 < r.1.serveTimer ↔ ballByte g = 255
  ballX : ballByte g ≠ 255 → r.1.ballX = ballByte g * 16
  ballY : r.1.ballY = px g.ballY % 256 * 16
  leftY : r.1.leftY = g.leftY % 256
  leftWins : r.1.leftWins = g.leftWins % 256
  rightWins : r.1.rightWins = g.rightWins % 256
  sound : r.2.1 = expectedSound (c.leftWins, c.rightWins) r.1

theorem clientTake_spec (seq : Nat) (myPaddle : Int) (tick event ack : Nat) (g c : State) :
    Taken g c (clientTake seq myPaddle (hostSendState tick event 0 ack g) c) := by
  have hball : ((at? (hostSendState tick event 0 ack g) 4 : Nat) : Int) = ballByte g :=
    toNat_byte _
  have hiff : at? (hostSendState tick event 0 ack g) 4 = 255 ↔ ballByte g = 255 := by
    rw [← hball]
    omega
  refine ⟨?_, ?_, ?_, ?_, ?_, ?_, ?_⟩
  · rw [← hiff]
    unfold clientTake
    dsimp only
    split_ifs with h <;> simp [h]
  · intro hne
    rw [← hball]
    exact if_neg (mt hiff.mp hne)
  · exact congrArg (· * 16) (toNat_byte (px g.ballY))
  · exact toNat_byte g.leftY
  · exact toNat_byte g.leftWins
  · exact toNat_byte g.rightWins
  · rfl

end Packets

section Runs

variable {m : Match} {t : Tick}

/-- The client has the counts that it read last, and the host plays by the rules. -/
structure InStep (m : Match) : Prop where
  court : InCourt m.host
  counts : (m.client.leftWins, m.client.rightWins) = m.seen

/-- A packet tells the truth exactly if the state fits into its bytes. -/
theorem decode_iff {g c : State} (h : InCourt g) {r : State × Option Sound × Nat}
    (hr : Taken g c r) : Shows r.1 g ↔ Representable g := by
  obtain ⟨⟨hx, hx'⟩, hY, hL⟩ := h
  have hbyte : ballByte g = (if 0 < g.serveTimer then 255 else px g.ballX) % 256 := rfl
  constructor
  · rintro ⟨hwait, hball, -, hleft, hright⟩
    rw [hr.leftWins] at hleft
    rw [hr.rightWins] at hright
    refine ⟨?_, by omega, by omega⟩
    by_contra hno
    obtain ⟨htimer, hneg⟩ := not_or.mp hno
    rw [if_neg htimer] at hbyte
    have hne : ballByte g ≠ 255 := mt hr.waiting.mpr (mt hwait.mp htimer)
    have hcol := (hball htimer).1
    rw [hr.ballX hne, px, Int.mul_ediv_cancel _ (by decide)] at hcol
    omega
  · rintro ⟨hball, hleft, hright⟩
    have hwait : ballByte g = 255 ↔ 0 < g.serveTimer := by
      by_cases htimer : 0 < g.serveTimer
      · rw [if_pos htimer] at hbyte
        exact iff_of_true hbyte htimer
      · rw [if_neg htimer] at hbyte
        exact iff_of_false (by omega) htimer
    refine ⟨hr.waiting.trans hwait, ?_, ?_, ?_, ?_⟩
    · intro htimer
      have hne : ballByte g ≠ 255 := mt hwait.mp htimer
      rw [if_neg htimer] at hbyte
      rw [hr.ballX hne, hr.ballY]
      unfold px playTop playBottom at *
      omega
    · rw [hr.leftY]
      unfold paddleMaxY paddleH at hL
      omega
    · rw [hr.leftWins]
      omega
    · rw [hr.rightWins]
      omega

/-- A read is right exactly if the state that is read fits. -/
theorem readRight_iff (h : InStep m) (t : Tick) : ReadRight m t ↔ ReadFits m t := by
  rw [ReadRight, ReadFits]
  refine forall_congr' fun hread => ?_
  obtain ⟨⟨seq, myPaddle⟩, hsome⟩ := Option.isSome_iff_exists.mp hread
  have htaken := clientTake_spec seq myPaddle ((m.tick + 1) % 2 ^ 16)
    (roundEvent (hostTick t m.host).1) t.ackSeq (hostTick t m.host).2 m.client
  simp only [matchStep, hsome]
  rw [decode_iff (h.court.tick t) htaken, and_iff_left_iff_imp]
  intro hfits
  have hshows := (decode_iff (h.court.tick t) htaken).mpr hfits
  rw [htaken.sound, h.counts]
  simp only [expectedSound, hshows.leftWins, hshows.rightWins]

theorem InStep.step (h : InStep m) (t : Tick) (hfits : ReadFits m t) :
    InStep (matchStep m t).1 := by
  cases hread : t.read with
  | none =>
      simp only [matchStep, hread]
      exact ⟨h.court.tick t, h.counts⟩
  | some last =>
      have hright := (readRight_iff h t).mpr hfits (by rw [hread]; rfl)
      have hcounts := hright.1
      simp only [matchStep, hread] at hcounts ⊢
      refine ⟨h.court.tick t, ?_⟩
      rw [hcounts.leftWins, hcounts.rightWins]

/-- All along a match of any length, whatever the client reads of it: it shows the game of the
host and plays for its rounds exactly if every state that it reads fits into a packet. -/
theorem pong_iff (draw : Draw) (right : Bool) (ticks : List Tick) :
    Along matchStep ReadRight (matchStart draw right) ticks ↔
      Along matchStep ReadFits (matchStart draw right) ticks :=
  (along_congr_of_admitted (fun _ t h hfits => InStep.step h t hfits)
    (fun _ t h => (readRight_iff h t).symm) ticks ⟨inCourt_start draw right, rfl⟩).symm

/-- A tick in which nothing else happens. -/
def quiet : Tick := ⟨[], none, ⟨7, 5⟩, 0, none⟩

/-- A ball that is served to the left, and a paddle that is out of its way. -/
def servedLeft : List Tick :=
  { quiet with keys := List.replicate 5 true } :: List.replicate 106 quiet

/-- A ball that has just left the court is read as one that is waited for. -/
theorem not_pong : ¬ ∀ (draw : Draw) (right : Bool) (ticks : List Tick),
    Along matchStep ReadRight (matchStart draw right) ticks := by
  intro h
  have hrun := h ⟨7, 5⟩ false (servedLeft ++ [{ quiet with read := some (0, 25) }])
  obtain ⟨hlast, -⟩ := ((along_append _ _ _).mp hrun).2
  have hwait := (hlast rfl).1.waiting
  exact absurd hwait (by decide +kernel)

end Runs

end Pong
end Games
end JppDos
