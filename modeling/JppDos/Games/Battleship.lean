import JppDos.Games.Discovery
import JppDos.Sdk.Context

/-!
# Battleship

The two devices of a match from the placement of their ships to the end of the battle.  Both run
the same code; the host publishes its messages in the TX characteristic, which the client polls,
and the client writes its own into the host's RX characteristic, unless they are longer than a
packet may be.

Main fact:
* `answerShot_hit`: only a ship is answered with a hit.
-/

namespace JppDos
namespace Games
namespace Battleship

open Sdk (Key)
open Ble (HostRx hostStep)

/-- `N`. -/
def gridSize : Nat := 8

/-- `OWN_*`. -/
inductive OwnCell where
  | empty
  | ship
  | hit
  | miss
  deriving Repr, DecidableEq

/-- `TGT_*`. -/
inductive TgtCell where
  | unknown
  | miss
  | hit
  deriving Repr, DecidableEq

/-- A grid, row by row. -/
abbrev Grid (α : Type) := Vector α (gridSize * gridSize)

/-- The cell in a row and a column. -/
def Grid.at {α : Type} (g : Grid α) (r c : Nat) : Option α := g[r * gridSize + c]?

/-- The grid with another value in a cell. -/
def Grid.put {α : Type} (g : Grid α) (r c : Nat) (a : α) : Grid α :=
  g.setIfInBounds (r * gridSize + c) a

/-- `k_ships`. -/
def ships : List Nat := [4, 3, 3, 2]

/-- `TOTAL_SHIP_CELLS`. -/
def totalShipCells : Nat := 12

/-- The cells that a ship takes from its origin. -/
def shipCells (r c len : Nat) (horiz : Bool) : List (Nat × Nat) :=
  (List.range len).map fun i => if horiz then (r, c + i) else (r + i, c)

/-- `can_place`. -/
def canPlace (own : Grid OwnCell) (r c len : Nat) (horiz : Bool) : Bool :=
  (shipCells r c len horiz).all fun (rr, cc) =>
    rr < gridSize && cc < gridSize && own.at rr cc == some .empty

/-- `place`. -/
def place (own : Grid OwnCell) (r c len : Nat) (horiz : Bool) : Grid OwnCell :=
  (shipCells r c len horiz).foldl (fun own (rr, cc) => own.put rr cc .ship) own

/-- A cell of the layout that is committed to. -/
def packCell : OwnCell → UInt8
  | .ship | .hit => 1
  | .empty | .miss => 0

/-- `pack_ship_board`. -/
def packShipBoard (own : Grid OwnCell) : Vector UInt8 (gridSize * gridSize) := own.map packCell

/-- `MSG_COMMIT`. -/
def msgCommit : UInt8 := 0x4D

/-- `MSG_SHOT`. -/
def msgShot : UInt8 := 0x53

/-- `MSG_RESULT`. -/
def msgResult : UInt8 := 0x52

/-- `MSG_REVEAL`. -/
def msgReveal : UInt8 := 0x56

/-- `MSG_BYE`. -/
def msgBye : UInt8 := 0x58

/-- `OUT_MISS`. -/
def outMiss : UInt8 := 0

/-- `OUT_HIT`. -/
def outHit : UInt8 := 1

/-- `OUT_WIN`. -/
def outWin : UInt8 := 2

/-- `AC_THRESHOLD`. -/
def acThreshold : Nat := 3

/-- `n` bytes of a message. -/
def slice (rx : List UInt8) (offset n : Nat) : Vector UInt8 n :=
  Vector.ofFn fun i => rx.getD (offset + i) 0

/-- The COMMIT of a commitment. -/
def commitPkt (commit : Vector UInt8 64) : List UInt8 := msgCommit :: commit.toList

/-- The REVEAL of a nonce and a layout. -/
def revealPkt (nonce : Vector UInt8 16) (board : Vector UInt8 (gridSize * gridSize)) :
    List UInt8 :=
  msgReveal :: (nonce.toList ++ board.toList)

/-- The `END_*` that the code sets. -/
inductive EndReason where
  | none
  | quit
  | anticheat
  | timeout
  deriving Repr, DecidableEq

/-- What a player waits for in `recv_msg`. -/
inductive Waiting where
  | commit
  | result
  | shot
  | reveal
  deriving Repr, DecidableEq

/-- The size of the buffer that is received into. -/
def Waiting.bufLen : Waiting → Nat
  | .commit => 1 + 64
  | .result | .shot | .reveal => 1 + 16 + gridSize * gridSize

/-- How long is waited, in milliseconds. -/
def Waiting.timeout : Waiting → Nat
  | .shot => 2000
  | .commit | .result | .reveal => 1000

/-- Where a player is: what it does next.  `retry` counts the rounds of the loop around `recv_msg`,
and `waited` the milliseconds that a client has slept in it. -/
inductive Phase where
  | placing (curR curC : Nat) (horiz : Bool) (shipIdx : Nat)
  | committing
  | send (packet : List UInt8) (next : Phase)
  | sent (next : Phase)
  | recv (waiting : Waiting) (retry waited : Nat)
  | turn
  | pollQuit
  | setupFailed
  | over
  deriving DecidableEq

/-- The player has a shot to send, or waits for its RESULT. -/
def Phase.outstanding : Phase → Bool
  | .send _ next | .sent next => next.outstanding
  | .recv .result _ _ => true
  | _ => false

/-- `bship_t` and `battle_t`. -/
structure Player where
  own : Grid OwnCell
  tgt : Grid TgtCell
  nonce : Vector UInt8 16
  commit : Vector UInt8 64
  peerCommit : Vector UInt8 64
  peerCommitted : Bool
  ownHitsTaken : Nat
  enemyHits : Nat
  curR : Nat
  curC : Nat
  myTurn : Bool
  shotSeq : UInt16
  strikes : Nat
  endReason : EndReason
  iWon : Bool
  peerRevealed : Bool
  peerBoard : Vector UInt8 (gridSize * gridSize)
  peerNonce : Vector UInt8 16
  phase : Phase
  deriving DecidableEq

/-- A player before the placement. -/
def Player.start : Player where
  own := Vector.replicate _ .empty
  tgt := Vector.replicate _ .unknown
  nonce := Vector.replicate _ 0
  commit := Vector.replicate _ 0
  peerCommit := Vector.replicate _ 0
  peerCommitted := false
  ownHitsTaken := 0
  enemyHits := 0
  curR := 0
  curC := 0
  myTurn := false
  shotSeq := 0
  strikes := 0
  endReason := .none
  iWon := false
  peerRevealed := false
  peerBoard := Vector.replicate _ 0
  peerNonce := Vector.replicate _ 0
  phase := .placing 0 0 true 0

/-- One of the two. -/
inductive Side where
  | host
  | client
  deriving Repr, DecidableEq

def Side.other : Side → Side
  | .host => .client
  | .client => .host

/-- What is seen of a match: a message that gives way to another before it has been read, a shot,
the answer to one, and the mark that the shooter makes. -/
inductive Event where
  | overwritten (packet : List UInt8)
  | fired (shooter : Side) (seq : UInt16) (r c : Nat)
  | answered (defender : Side) (seq : UInt8) (r c : Nat) (outcome : UInt8)
  | marked (shooter : Side) (seq : UInt16) (r c : Nat) (mark : TgtCell)
  deriving DecidableEq

namespace Player

/-- A player goes on at another place. -/
def goTo (p : Player) (phase : Phase) : Player := { p with phase := phase }

/-- The top of the loop of `battle_phase`. -/
def loopTop (p : Player) : Player := p.goTo (if p.myTurn then .turn else .recv .shot 0 0)

/-- A key in `placement_phase`, whose cursor is brought back onto the grid first. -/
def placeKey (p : Player) (curR curC : Nat) (horiz : Bool) (shipIdx : Nat) (key : Key) : Player :=
  match ships[shipIdx]? with
  | none => p.goTo .committing
  | some len =>
      let curR :=
        if gridSize < curR + (if horiz then 0 else len) then gridSize - (if horiz then 1 else len)
        else curR
      let curC :=
        if gridSize < curC + (if horiz then len else 0) then gridSize - (if horiz then len else 1)
        else curC
      match key with
      | .up => p.goTo (.placing (curR - 1) curC horiz shipIdx)
      | .down => p.goTo (.placing (curR + 1) curC horiz shipIdx)
      | .left => p.goTo (.placing curR (curC - 1) horiz shipIdx)
      | .right => p.goTo (.placing curR (curC + 1) horiz shipIdx)
      | .ok =>
          if canPlace p.own curR curC len horiz then
            { p with own := place p.own curR curC len horiz,
                     phase :=
                       if shipIdx + 1 < ships.length then .placing curR curC horiz (shipIdx + 1)
                       else .committing }
          else p.goTo (.placing curR curC horiz shipIdx)
      | .okLong => p.goTo (.placing curR curC (!horiz) shipIdx)
      | _ => p.goTo (.placing curR curC horiz shipIdx)

/-- The beginning of `commit_exchange`, with the random bytes of the nonce. -/
def makeCommit (sha512 : List UInt8 → Vector UInt8 64) (p : Player) (nonce : Vector UInt8 16) :
    Player :=
  let commit := sha512 ((packShipBoard p.own).toList ++ nonce.toList)
  { p with nonce := nonce, commit := commit,
           phase := .send (commitPkt commit) (.recv .commit 0 0) }

/-- A key in a player's turn. -/
def turnKey (side : Side) (p : Player) (key : Key) : Player × List Event :=
  match key with
  | .up => ({ p with curR := p.curR - 1 }, [])
  | .down => ({ p with curR := if p.curR < gridSize - 1 then p.curR + 1 else p.curR }, [])
  | .left => ({ p with curC := p.curC - 1 }, [])
  | .right => ({ p with curC := if p.curC < gridSize - 1 then p.curC + 1 else p.curC }, [])
  | .ok =>
      if p.tgt.at p.curR p.curC = some .unknown then
        let seq := p.shotSeq + 1
        let shot := [msgShot, seq.toUInt8, p.curR.toUInt8, p.curC.toUInt8]
        ({ p with shotSeq := seq, phase := .send shot (.recv .result 0 0) },
          [.fired side seq p.curR p.curC])
      else (p, [])
  | .okLong => ({ p with endReason := .quit, phase := .send [msgBye] .over }, [])
  | _ => (p, [])

/-- A key that a waiting player polls after a time-out. -/
def quitKey (p : Player) (key : Key) : Player :=
  match key with
  | .okLong => { p with endReason := .quit, phase := .send [msgBye] .over }
  | _ => p.loopTop

/-- `answer_shot`. -/
def answerShot (p : Player) (r c : Nat) : Player × UInt8 :=
  if p.own.at r c = some .ship then
    let p := { p with own := p.own.put r c .hit, ownHitsTaken := p.ownHitsTaken + 1 }
    (p, if totalShipCells ≤ p.ownHitsTaken then outWin else outHit)
  else if p.own.at r c = some .empty then ({ p with own := p.own.put r c .miss }, outMiss)
  else (p, outMiss)

/-- The end of a round in `commit_exchange`. -/
def gotCommit (side : Side) (p : Player) (retry : Nat) (rx : List UInt8) : Player :=
  if 1 + 64 ≤ rx.length ∧ rx.head? = some msgCommit then
    -- the own COMMIT once more, and the battle
    { p with peerCommit := slice rx 1 64, peerCommitted := true, curR := 0, curC := 0,
             myTurn := side = .host,
             phase := .send (commitPkt p.commit)
               (if side = .host then .turn else .recv .shot 0 0) }
  else if retry + 1 < 50 then p.goTo (.recv .commit (retry + 1) 0)
  else p.goTo .setupFailed

/-- The end of a round in the wait for the RESULT. -/
def gotResult (side : Side) (p : Player) (retry : Nat) (rx : List UInt8) : Player × List Event :=
  if 5 ≤ rx.length ∧ rx.head? = some msgResult ∧ (rx.getD 1 0).toUInt16 = p.shotSeq then
    let outcome := rx.getD 4 0
    let mark : TgtCell := if outcome = outMiss then .miss else .hit
    let p := { p with tgt := p.tgt.put p.curR p.curC mark,
                      enemyHits := if outcome = outMiss then p.enemyHits else p.enemyHits + 1 }
    let events := [.marked side p.shotSeq p.curR p.curC mark]
    if outcome = outWin then
      ({ p with iWon := true,
                phase := .send (revealPkt p.nonce (packShipBoard p.own)) (.recv .reveal 0 0) },
        events)
    else ({ p with myTurn := false }.loopTop, events)
  else if retry + 1 < 30 then (p.goTo (.recv .result (retry + 1) 0), [])
  else ({ p with endReason := .timeout, phase := .over }, [])

/-- The host counts a shot outside the grid, or at a cell that has been shot at. -/
def isStrike (side : Side) (p : Player) (sr sc : Nat) : Bool :=
  side = .host && (gridSize ≤ sr || gridSize ≤ sc || p.own.at sr sc == some .hit ||
    p.own.at sr sc == some .miss)

/-- A strike is counted. -/
def countStrike (side : Side) (p : Player) (sr sc : Nat) : Player :=
  if p.isStrike side sr sc then { p with strikes := p.strikes + 1 } else p

/-- What a defender does with what it has received. -/
def gotShot (side : Side) (p : Player) (rx : List UInt8) : Player × List Event :=
  if 1 ≤ rx.length ∧ rx.head? = some msgBye then
    ({ p with endReason := .quit, phase := .over }, [])
  else if rx.length < 4 ∨ rx.head? ≠ some msgShot then (p.loopTop, [])
  else
    let sr := (rx.getD 2 0).toNat
    let sc := (rx.getD 3 0).toNat
    let strike := p.isStrike side sr sc
    let p := p.countStrike side sr sc
    if strike ∧ acThreshold ≤ p.strikes then
      ({ p with endReason := .anticheat, phase := .over }, [])
    else if gridSize ≤ sr ∨ gridSize ≤ sc then (p.loopTop, [])
    else
      let (p, outcome) := p.answerShot sr sc
      let result := [msgResult, rx.getD 1 0, sr.toUInt8, sc.toUInt8, outcome]
      let events := [.answered side (rx.getD 1 0) sr sc outcome]
      if outcome = outWin then
        let reveal := revealPkt p.nonce (packShipBoard p.own)
        ({ p with iWon := false, phase := .send result (.send reveal (.recv .reveal 0 0)) }, events)
      else ({ p with myTurn := true, phase := .send result .turn }, events)

/-- The end of a round in `do_reveal_exchange`. -/
def gotReveal (p : Player) (retry : Nat) (rx : List UInt8) : Player :=
  if 1 + 16 + gridSize * gridSize ≤ rx.length ∧ rx.head? = some msgReveal then
    { p with peerNonce := slice rx 1 16, peerBoard := slice rx 17 (gridSize * gridSize),
             peerRevealed := true, phase := .over }
  else if retry + 1 < 30 then p.goTo (.recv .reveal (retry + 1) 0)
  else p.goTo .over

/-- What follows `recv_msg`, with what it has received. -/
def received (side : Side) (p : Player) (waiting : Waiting) (retry : Nat)
    (rx : Option (List UInt8)) : Player × List Event :=
  match waiting with
  | .commit => (p.gotCommit side retry (rx.getD []), [])
  | .result => p.gotResult side retry (rx.getD [])
  | .shot =>
      match rx with
      | none => (p.goTo .pollQuit, [])
      | some rx => p.gotShot side rx
  | .reveal => (p.gotReveal retry (rx.getD []), [])

end Player

/-- What a key does in the placement: it moves or turns the ship, or places it. -/
theorem placeKey_cases (p : Player) (curR curC : Nat) (horiz : Bool) {shipIdx : Nat} (key : Key)
    (hidx : shipIdx < ships.length) :
    (∃ r c b, p.placeKey curR curC horiz shipIdx key = p.goTo (.placing r c b shipIdx)) ∨
      ∃ r c b, canPlace p.own r c ships[shipIdx] b = true ∧
        p.placeKey curR curC horiz shipIdx key =
          { p with own := place p.own r c ships[shipIdx] b,
                   phase :=
                     if shipIdx + 1 < ships.length then .placing r c b (shipIdx + 1)
                     else .committing } := by
  rw [Player.placeKey.eq_def, List.getElem?_eq_getElem hidx]
  cases key with
  | ok =>
      dsimp only
      generalize hr : (if gridSize < curR + _ then _ else curR) = r
      generalize hc : (if gridSize < curC + _ then _ else curC) = c
      cases hfits : canPlace p.own r c ships[shipIdx] horiz with
      | false => exact Or.inl ⟨r, c, horiz, rfl⟩
      | true => exact Or.inr ⟨r, c, horiz, hfits, rfl⟩
  | _ => exact Or.inl ⟨_, _, _, rfl⟩

/-- A key in the placement leads on in the placement or to the commitment. -/
theorem placeKey_eq (p : Player) (curR curC : Nat) (horiz : Bool) (shipIdx : Nat) (key : Key) :
    ∃ own phase, p.placeKey curR curC horiz shipIdx key = { p with own := own, phase := phase } ∧
      ((∃ r c b i, phase = .placing r c b i) ∨ phase = .committing) := by
  by_cases hidx : shipIdx < ships.length
  · rcases placeKey_cases p curR curC horiz key hidx with ⟨r, c, b, hkey⟩ | ⟨r, c, b, -, hkey⟩
    · exact ⟨p.own, _, hkey, Or.inl ⟨r, c, b, shipIdx, rfl⟩⟩
    · refine ⟨_, _, hkey, ?_⟩
      split
      · exact Or.inl ⟨r, c, b, shipIdx + 1, rfl⟩
      · exact Or.inr rfl
  · rw [Player.placeKey.eq_def, List.getElem?_eq_none (Nat.not_lt.mp hidx)]
    exact ⟨p.own, _, rfl, Or.inr rfl⟩

theorem at_put_self {α : Type} (g : Grid α) {r c : Nat} (hr : r < gridSize) (hc : c < gridSize)
    (a : α) : (g.put r c a).at r c = some a := by
  have hlt : r * gridSize + c < gridSize * gridSize := by
    unfold gridSize at *
    omega
  rw [Grid.at, Grid.put, Vector.getElem?_setIfInBounds_self_of_lt hlt]

theorem at_put_of_ne {α : Type} (g : Grid α) {r c r' c' : Nat} (hc : c < gridSize)
    (hc' : c' < gridSize) (hne : (r', c') ≠ (r, c)) (a : α) :
    (g.put r c a).at r' c' = g.at r' c' := by
  have hindex : r * gridSize + c ≠ r' * gridSize + c' := by
    intro heq
    refine hne ?_
    unfold gridSize at *
    rw [Prod.mk.injEq]
    omega
  rw [Grid.at, Grid.put, Vector.getElem?_setIfInBounds_ne hindex, Grid.at]

/-- The answer to a shot leaves the layout of the ships as it is. -/
theorem answerShot_packShipBoard (p : Player) (r c : Nat) :
    packShipBoard (p.answerShot r c).1.own = packShipBoard p.own := by
  have hput : ∀ cell cell', p.own.at r c = some cell → packCell cell' = packCell cell →
      packShipBoard (p.own.put r c cell') = packShipBoard p.own := by
    intro cell cell' hcell hpack
    refine Vector.ext fun i hi => ?_
    rw [packShipBoard, Vector.getElem_map, packShipBoard, Vector.getElem_map, Grid.put,
      Vector.getElem_setIfInBounds hi]
    split
    next heq =>
      subst heq
      rw [Grid.at, Vector.getElem?_eq_getElem hi] at hcell
      rw [Option.some.inj hcell, hpack]
    next => rfl
  unfold Player.answerShot
  split
  next hship => exact hput .ship .hit hship rfl
  next =>
    split
    next hempty => exact hput .empty .miss hempty rfl
    next => rfl

theorem answerShot_hit {p : Player} {r c : Nat} (h : (p.answerShot r c).2 ≠ outMiss) :
    p.own.at r c = some .ship := by
  unfold Player.answerShot at h
  split at h
  next hship => exact hship
  next =>
    split at h <;> exact absurd rfl h

/-- The two devices and what is between them; of each characteristic the message that has not been
read. -/
structure Game where
  host : Player
  client : Player
  rx : HostRx
  tx : List UInt8
  rxUnread : Option (List UInt8)
  txUnread : Option (List UInt8)
  deriving DecidableEq

/-- After the discovery: the HELLO has been taken, perhaps not all its tokens, and the TX
characteristic has its value from before. -/
def Game.start (tokens : Nat) (tx : List UInt8) : Game where
  host := .start
  client := .start
  rx := { HostRx.boot with buf := Discovery.hello 3, tokens := tokens }
  tx := tx
  rxUnread := none
  txUnread := none

/-- What the devices do between two points at which the other one can come in; every write arrives,
and every read is answered. -/
inductive Act where
  /-- A player is given a key. -/
  | key (side : Side) (key : Key)
  /-- `randombytes_buf` fills a player's nonce. -/
  | random (side : Side) (nonce : Vector UInt8 16)
  /-- `games_ble_host_send`. -/
  | publish
  /-- `games_ble_host_recv` takes a token. -/
  | take
  /-- `games_ble_host_recv` copies the buffer. -/
  | copyOut
  /-- `games_ble_host_recv` times out. -/
  | timeout
  /-- `games_ble_client_send`. -/
  | write
  /-- The write callback gives its token and acknowledges the write. -/
  | give
  /-- `games_ble_client_recv`. -/
  | poll
  deriving DecidableEq

namespace Game

def player (g : Game) : Side → Player
  | .host => g.host
  | .client => g.client

def setPlayer (g : Game) (side : Side) (p : Player) : Game :=
  match side with
  | .host => { g with host := p }
  | .client => { g with client := p }

/-- A player is given a key. -/
def key (g : Game) (side : Side) (key : Key) : Game × List Event :=
  let p := g.player side
  match p.phase with
  | .placing curR curC horiz shipIdx =>
      (g.setPlayer side (p.placeKey curR curC horiz shipIdx key), [])
  | .turn =>
      let (p, events) := p.turnKey side key
      (g.setPlayer side p, events)
  | .pollQuit => (g.setPlayer side (p.quitKey key), [])
  | _ => (g, [])

def random (sha512 : List UInt8 → Vector UInt8 64) (g : Game) (side : Side)
    (nonce : Vector UInt8 16) : Game :=
  if (g.player side).phase = .committing then
    g.setPlayer side ((g.player side).makeCommit sha512 nonce)
  else g

/-- A message that has not been read gives way to another. -/
def overwrite : Option (List UInt8) → List Event
  | none => []
  | some packet => [.overwritten packet]

def publish (g : Game) : Game × List Event :=
  match g.host.phase with
  | .send packet next =>
      ({ g with tx := packet, txUnread := some packet, host := g.host.goTo next },
        overwrite g.txUnread)
  | _ => (g, [])

def take (g : Game) : Game :=
  match g.host.phase with
  | .recv _ _ _ => { g with rx := (hostStep g.rx .take).1 }
  | _ => g

def copyOut (g : Game) : Game × List Event :=
  match g.host.phase with
  | .recv waiting retry _ =>
      if g.rx.taken then
        let (host, events) :=
          g.host.received .host waiting retry (some (g.rx.buf.take waiting.bufLen))
        ({ g with host := host, rx := (hostStep g.rx (.copyOut (some waiting.bufLen))).1,
                  rxUnread := none }, events)
      else (g, [])
  | _ => (g, [])

def timeout (g : Game) : Game × List Event :=
  match g.host.phase with
  | .recv waiting retry _ =>
      if g.rx.taken = false ∧ g.rx.tokens = 0 then
        let (host, events) := g.host.received .host waiting retry none
        ({ g with host := host }, events)
      else (g, [])
  | _ => (g, [])

/-- A packet that is longer than `pktMax` is not written, and nobody looks at the result. -/
def write (pktMax : Nat) (g : Game) : Game × List Event :=
  match g.client.phase with
  | .send packet next =>
      if pktMax < packet.length then ({ g with client := g.client.goTo next }, [])
      else if g.rx.busy then (g, [])
      else
        ({ g with rx := (hostStep g.rx (.write packet)).1, rxUnread := some packet,
                  client := g.client.goTo (.sent next) }, overwrite g.rxUnread)
  | _ => (g, [])

def give (g : Game) : Game :=
  match g.client.phase with
  | .sent next => { g with rx := (hostStep g.rx .give).1, client := g.client.goTo next }
  | _ => g

/-- A poll; after one that brings nothing the client sleeps for 60 ms. -/
def poll (g : Game) : Game × List Event :=
  match g.client.phase with
  | .recv waiting retry waited =>
      if g.tx ≠ [] then
        let (client, events) :=
          g.client.received .client waiting retry (some (g.tx.take waiting.bufLen))
        ({ g with client := client, txUnread := none }, events)
      else if waited + 60 ≤ waiting.timeout then
        ({ g with client := g.client.goTo (.recv waiting retry (waited + 60)) }, [])
      else
        let (client, events) := g.client.received .client waiting retry none
        ({ g with client := client }, events)
  | _ => (g, [])

end Game

/-- One step of a match. -/
def step (sha512 : List UInt8 → Vector UInt8 64) (pktMax : Nat) (g : Game) :
    Act → Game × List Event
  | .key side key => g.key side key
  | .random side nonce => (g.random sha512 side nonce, [])
  | .publish => g.publish
  | .take => (g.take, [])
  | .copyOut => g.copyOut
  | .timeout => g.timeout
  | .write => g.write pktMax
  | .give => (g.give, [])
  | .poll => g.poll

end Battleship
end Games
end JppDos
