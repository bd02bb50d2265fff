import JppDos.Ble.HostRx
import JppDos.Sdk.Context
import Mathlib.Data.List.GetD

/-!
# Connect-4

The rules of the game, and the two loops that play it: the host owns the board and publishes
it, the client polls it and writes its moves, and between the two is the buffer of the host's
RX characteristic.

Main fact:
* `readState_statePkt`: a published state is read as it was.
-/

namespace JppDos
namespace Games

open Sdk (Key)

/-- `COLS`. -/
def cols : Nat := 7

/-- `ROWS`. -/
def rows : Nat := 6

/-- `TURN_HOST`; the host plays disc value 1. -/
def turnHost : UInt8 := 0

/-- `TURN_CLIENT`; the client plays disc value 2. -/
def turnClient : UInt8 := 1

/-- `WIN_NONE`. -/
def winNone : UInt8 := 0

/-- `WIN_HOST`. -/
def winHost : UInt8 := 1

/-- `WIN_CLIENT`. -/
def winClient : UInt8 := 2

/-- `WIN_DRAW`. -/
def winDraw : UInt8 := 3

/-- `END_NONE`. -/
def endNone : UInt8 := 0

/-- `END_QUIT`. -/
def endQuit : UInt8 := 1

/-- `END_ANTICHEAT`. -/
def endAnticheat : UInt8 := 2

/-- `END_TIMEOUT`. -/
def endTimeout : UInt8 := 3

/-- `AC_THRESHOLD`. -/
def acThreshold : Nat := 3

/-- `c4_board_t`: 0 empty, 1 host, 2 client, row by row. -/
structure Board where
  cell : Vector UInt8 (rows * cols)
  turn : UInt8
  winner : UInt8
  deriving DecidableEq

/-- The board after `memset`. -/
def Board.empty : Board where
  cell := Vector.replicate (rows * cols) 0
  turn := turnHost
  winner := winNone

/-- `b.cell[row][col]`. -/
def Board.get (b : Board) (row col : Nat) : UInt8 := b.cell[row * cols + col]?.getD 0

/-- `column_height`. -/
def columnHeight (b : Board) (col : Nat) : Nat :=
  (List.range rows).countP fun row => b.get row col != 0

/-- `drop_disc`: the board, and the row where the disc comes to lie. -/
def dropDisc (b : Board) (col : Nat) (player : UInt8) : Option (Board × Nat) :=
  if cols ≤ col || rows ≤ columnHeight b col then none
  else
    let row := rows - 1 - columnHeight b col
    some ({ b with cell := b.cell.setIfInBounds (row * cols + col) player }, row)

/-- The discs of a player that follow each other in a direction; no line of the board has more
than `cols` cells. -/
def discsAlong (b : Board) (player : UInt8) (dr dc : Int) : Nat → Int → Int → Nat
  | 0, _, _ => 0
  | n + 1, r, c =>
      if 0 ≤ r ∧ r < rows ∧ 0 ≤ c ∧ c < cols ∧ b.get r.toNat c.toNat = player then
        discsAlong b player dr dc n (r + dr) (c + dc) + 1
      else 0

/-- `wins_at`. -/
def winsAt (b : Board) (row col : Nat) (player : UInt8) : Bool :=
  [((0 : Int), (1 : Int)), (1, 0), (1, 1), (1, -1)].any fun (dr, dc) =>
    4 ≤ 1 + discsAlong b player (-dr) (-dc) cols (row - dr) (col - dc) +
      discsAlong b player dr dc cols (row + dr) (col + dc)

/-- `board_full`. -/
def boardFull (b : Board) : Bool := (List.range cols).all fun col => rows ≤ columnHeight b col

/-- `apply_move`. -/
def applyMove (b : Board) (col : Nat) (player : UInt8) : Board :=
  match dropDisc b col player with
  | none => b
  | some (b, row) =>
      if winsAt b row col player then
        { b with winner := if player = 1 then winHost else winClient }
      else if boardFull b then { b with winner := winDraw }
      else { b with turn := if b.turn = turnHost then turnClient else turnHost }

/-- It is the host's turn to choose a column. -/
def Board.HostsTurn (b : Board) : Prop := b.turn = turnHost ∧ b.winner = winNone

/-- It is the client's turn to choose a column. -/
def Board.ClientsTurn (b : Board) : Prop := b.turn = turnClient ∧ b.winner = winNone

instance (b : Board) : Decidable b.HostsTurn := inferInstanceAs (Decidable (_ ∧ _))

instance (b : Board) : Decidable b.ClientsTurn := inferInstanceAs (Decidable (_ ∧ _))

/-- A move into a column that is not full ends the game or passes the turn. -/
theorem applyMove_turn {b : Board} {col : Nat} (hcol : col < cols)
    (hopen : columnHeight b col < rows) :
    (applyMove b col 2).winner ≠ winNone ∨
      (applyMove b col 2).turn = if b.turn = turnHost then turnClient else turnHost := by
  have hdrop : (decide (cols ≤ col) || decide (rows ≤ columnHeight b col)) = false := by
    simp [Nat.not_le.mpr hcol, Nat.not_le.mpr hopen]
  rw [applyMove, dropDisc, hdrop]
  simp only [Bool.false_eq_true, if_false]
  split
  · exact Or.inl (show winClient ≠ winNone by decide)
  · split
    · exact Or.inl (show winDraw ≠ winNone by decide)
    · exact Or.inr rfl

theorem turn_applyMove {b : Board} (h : b.turn = turnHost ∨ b.turn = turnClient) (col : Nat)
    (player : UInt8) :
    (applyMove b col player).turn = turnHost ∨ (applyMove b col player).turn = turnClient := by
  rw [applyMove, dropDisc]
  split
  · exact h
  · rename_i b' row heq
    split at heq
    · cases heq
    · obtain ⟨rfl, -⟩ := Prod.mk.inj (Option.some.inj heq)
      split
      · exact h
      · split
        · exact h
        · simp only
          split
          · exact Or.inr rfl
          · exact Or.inl rfl

/-- `MOVE_MAGIC`. -/
def moveMagic : UInt8 := 0x43

/-- `STATE_MAGIC`. -/
def stateMagic : UInt8 := 0x63

/-- `MOVE_BYE`. -/
def moveBye : UInt8 := 0xFF

/-- The length of a state. -/
def stateLen : Nat := 1 + rows * cols + 3

/-- What `host_send_state` publishes. -/
def statePkt (b : Board) (endReason : UInt8) : List UInt8 :=
  stateMagic :: (b.cell.toList ++ [b.turn, b.winner, endReason])

/-- What the client reads of a state. -/
def readState (rx : List UInt8) : Option (Board × UInt8) :=
  if stateLen ≤ rx.length ∧ rx.head? = some stateMagic then
    some ({ cell := Vector.ofFn fun i => rx.getD (1 + i) 0
            turn := rx.getD (1 + rows * cols) 0
            winner := rx.getD (2 + rows * cols) 0 }, rx.getD (3 + rows * cols) 0)
  else none

theorem readState_statePkt (b : Board) (endReason : UInt8) :
    readState ((statePkt b endReason).take 64) = some (b, endReason) := by
  have hlength : b.cell.toList.length = rows * cols := Vector.length_toList
  have hall : (statePkt b endReason).length = stateLen := by
    rw [statePkt, List.length_cons, List.length_append, hlength]
    rfl
  have htake : (statePkt b endReason).take 64 = statePkt b endReason :=
    List.take_of_length_le (hall ▸ Nat.le_of_ble_eq_true rfl)
  have hcell : Vector.ofFn (fun i : Fin (rows * cols) =>
      (statePkt b endReason).getD (1 + i) 0) = b.cell := by
    refine Vector.ext fun i hi => ?_
    have hi' : i < b.cell.toList.length := by rw [hlength]; exact hi
    rw [Vector.getElem_ofFn, statePkt, Nat.add_comm 1 i, List.getD_cons_succ,
      List.getD_append _ _ _ _ hi', List.getD_eq_getElem _ _ hi']
    rfl
  have hrest : ∀ i, (statePkt b endReason).getD (i + 1 + rows * cols) 0 =
      [b.turn, b.winner, endReason].getD i 0 := by
    intro i
    rw [statePkt, show i + 1 + rows * cols = (i + rows * cols) + 1 by omega,
      List.getD_cons_succ, List.getD_append_right _ _ _ _ (by omega), hlength,
      Nat.add_sub_cancel]
  rw [htake, readState, if_pos ⟨hall.ge, rfl⟩, hcell, hrest 0, hrest 1, hrest 2]
  rfl

/-- What `client_send_move` writes. -/
def movePkt (seq : UInt16) (col : UInt8) : List UInt8 := [moveMagic, seq.toUInt8, col]

/-- Where `play_host` stands. -/
inductive HostPhase
  /-- It has not published anything. -/
  | start
  /-- It is in `host_send_state`, and returns behind it or goes on. -/
  | send (endReason : UInt8) (stop : Bool)
  /-- It is at the top of its loop, or waits for a key or a write. -/
  | loop
  /-- It has received a write. -/
  | handle (rx : List UInt8)
  | returned (endReason : UInt8)
  deriving DecidableEq

/-- The variables of `play_host`. -/
structure Host where
  board : Board
  cursor : Nat
  violations : Nat
  lastSeq : UInt8
  haveSeq : Bool
  phase : HostPhase

/-- Where `play_client` stands. -/
inductive ClientPhase
  /-- It is at the top of its loop, or waits for a key. -/
  | loop
  /-- It has sent a move and read so many times in vain. -/
  | awaiting (retry : Nat)
  /-- It has read the host's state during the host's turn. -/
  | polled
  | returned (endReason : UInt8)
  deriving DecidableEq

/-- The variables of `play_client`. -/
structure Client where
  board : Board
  cursor : Nat
  seq : UInt16
  stale : Nat
  phase : ClientPhase

/-- The board on which the client has chosen a column. -/
structure Choice where
  board : Board
  col : Nat
  deriving DecidableEq

/-- A disc, the board on which the host placed it, and for a client's disc what the client
had chosen. -/
inductive Placement
  | host (board : Board) (col : Nat)
  | client (board : Board) (col : Nat) (choice : Option Choice)
  deriving DecidableEq

/-- A match: the two devices, and what is between them. -/
structure Match where
  host : Host
  client : Client
  rx : Ble.HostRx
  /-- The value of the TX characteristic. -/
  tx : List UInt8
  /-- The choice behind the last write. -/
  choice : Option Choice
  /-- The choice behind the packet that the host has received. -/
  received : Option Choice
  placed : List Placement

/-- After the discovery: the client's hello has been taken, and the TX characteristic has its
value from before. -/
def Match.start (hello tx : List UInt8) : Match where
  host := ⟨.empty, 3, 0, 0, false, .start⟩
  client := ⟨.empty, 3, 0, 0, .loop⟩
  rx := { Ble.HostRx.boot with buf := hello }
  tx := tx
  choice := none
  received := none
  placed := []

/-- What the devices do between two points at which the other one can come in; a read of the
state is answered in one piece. -/
inductive Step
  /-- The host draws who begins. -/
  | draw (client : Bool)
  /-- `host_send_state`. -/
  | publish
  /-- The host finds the game decided. -/
  | finish
  /-- The host is given a key in its turn. -/
  | hostKey (key : Key)
  /-- `mp_host_recv` takes a token. -/
  | take
  /-- `mp_host_recv` copies the buffer. -/
  | copyOut
  /-- `mp_host_recv` has timed out, and the host polls a key. -/
  | timeout (key : Key)
  /-- The host deals with what it has received. -/
  | handle
  /-- The write callback gives its token. -/
  | give
  /-- The client finds the game decided. -/
  | clientFinish
  /-- The client is given a key in its turn; a write that follows may be lost. -/
  | clientKey (key : Key) (arrives : Bool)
  /-- The client reads the state after its move; a read may fail. -/
  | retry (ok : Bool)
  /-- The client reads the state in the host's turn. -/
  | poll (ok : Bool)
  /-- The client polls a key in the host's turn. -/
  | pollKey (key : Key) (arrives : Bool)
  deriving DecidableEq

/-- `host_send_state` follows, and then the end of `play_host` or its loop. -/
def Match.sendNext (s : Match) (endReason : UInt8) (stop : Bool) : Match :=
  { s with host := { s.host with phase := .send endReason stop } }

/-- The beginning of `play_host`. -/
def Match.draw (s : Match) (client : Bool) : Match :=
  match s.host.phase with
  | .start =>
      let turn := if client then turnClient else turnHost
      { s with host := { s.host with board := { Board.empty with turn := turn },
                                     phase := .send endNone false } }
  | _ => s

def Match.publish (s : Match) : Match :=
  match s.host.phase with
  | .send endReason stop =>
      let phase := if stop then .returned endReason else .loop
      { s with tx := statePkt s.host.board endReason, host := { s.host with phase := phase } }
  | _ => s

/-- The host's loop ends when somebody has won. -/
def Match.finish (s : Match) : Match :=
  if s.host.phase = .loop ∧ s.host.board.winner ≠ winNone then s.sendNext endNone true else s

/-- The host places a disc and publishes it. -/
def Match.place (s : Match) (col : Nat) (player : UInt8) (disc : Placement) : Match :=
  { s with host := { s.host with board := applyMove s.host.board col player,
                                 phase := .send endNone false },
           placed := s.placed ++ [disc] }

/-- The host's turn. -/
def Match.hostKey (s : Match) (key : Key) : Match :=
  if s.host.phase = .loop ∧ s.host.board.HostsTurn then
    match key with
    | .left => { s with host := { s.host with cursor := s.host.cursor - 1 } }
    | .right =>
        if s.host.cursor < cols - 1 then
          { s with host := { s.host with cursor := s.host.cursor + 1 } }
        else s
    | .ok =>
        if columnHeight s.host.board s.host.cursor < rows then
          s.place s.host.cursor 1 (.host s.host.board s.host.cursor)
        else s
    | .okLong => s.sendNext endQuit true
    | _ => s
  else s

/-- The host waits for the client's move. -/
def Match.waits (s : Match) : Prop :=
  s.host.phase = .loop ∧ s.host.board.winner = winNone ∧ s.host.board.turn ≠ turnHost

instance (s : Match) : Decidable s.waits := inferInstanceAs (Decidable (_ ∧ _ ∧ _))

def Match.take (s : Match) : Match :=
  if s.waits then { s with rx := (Ble.hostStep s.rx .take).1 } else s

/-- The wait returns what `rx[16]` holds of the buffer. -/
def Match.copyOut (s : Match) : Match :=
  if s.waits ∧ s.rx.taken = true then
    { s with rx := (Ble.hostStep s.rx (.copyOut (some 16))).1,
             host := { s.host with phase := .handle (s.rx.buf.take 16) },
             received := s.choice }
  else s

def Match.timeout (s : Match) (key : Key) : Match :=
  if s.waits ∧ s.rx.taken = false ∧ key = .okLong then s.sendNext endQuit true else s

/-- The host goes back to the top of its loop. -/
def Match.continue (s : Match) : Match := { s with host := { s.host with phase := .loop } }

/-- The client's move, as the host has received it. -/
def Match.handle (s : Match) : Match :=
  match s.host.phase with
  | .handle (magic :: seq :: col :: _) =>
      if magic ≠ moveMagic then s.continue
      else if s.host.haveSeq ∧ seq = s.host.lastSeq then s.continue
      else if col = moveBye then
        { s with host := { s.host with phase := .returned endQuit } }
      else if cols ≤ col.toNat ∨ rows ≤ columnHeight s.host.board col.toNat then
        let s := { s with host := { s.host with violations := s.host.violations + 1 } }
        if acThreshold ≤ s.host.violations then s.sendNext endAnticheat true
        else s.sendNext endNone false
      else
        let s := { s with host := { s.host with haveSeq := true, lastSeq := seq } }
        s.place col.toNat 2 (.client s.host.board col.toNat s.received)
  | .handle _ => s.continue
  | _ => s

def Match.give (s : Match) : Match := { s with rx := (Ble.hostStep s.rx .give).1 }

/-- The client's loop ends when somebody has won. -/
def Match.clientFinish (s : Match) : Match :=
  if s.client.phase = .loop ∧ s.client.board.winner ≠ winNone then
    { s with client := { s.client with phase := .returned endNone } }
  else s

/-- `client_send_move(++seq, col)`, and what the client does then. -/
def Match.sendMove (s : Match) (col : UInt8) (choice : Option Choice) (arrives : Bool)
    (phase : ClientPhase) : Match :=
  let seq := s.client.seq + 1
  let s := { s with client := { s.client with seq := seq, phase := phase } }
  if arrives ∧ s.rx.busy = false then
    { s with rx := (Ble.hostStep s.rx (.write (movePkt seq col))).1, choice := choice }
  else s

/-- The client's turn. -/
def Match.clientKey (s : Match) (key : Key) (arrives : Bool) : Match :=
  if s.client.phase = .loop ∧ s.client.board.ClientsTurn then
    match key with
    | .left => { s with client := { s.client with cursor := s.client.cursor - 1 } }
    | .right =>
        if s.client.cursor < cols - 1 then
          { s with client := { s.client with cursor := s.client.cursor + 1 } }
        else s
    | .ok =>
        if columnHeight s.client.board s.client.cursor < rows then
          s.sendMove (UInt8.ofNat s.client.cursor)
            (some ⟨s.client.board, s.client.cursor⟩) arrives (.awaiting 0)
        else s
    | .okLong => s.sendMove moveBye none arrives (.returned endQuit)
    | _ => s
  else s

/-- What a read of the client returns. -/
def Match.read (s : Match) (ok : Bool) : Option (Board × UInt8) :=
  if ok then readState (s.tx.take 64) else none

/-- The reads behind a move. -/
def retries : Nat := 20

/-- The client polls for the updated state. -/
def Match.retry (s : Match) (ok : Bool) : Match :=
  match s.client.phase with
  | .awaiting n =>
      match s.read ok with
      | some (board, endReason) =>
          let phase := if endReason = endNone then .loop else .returned endReason
          { s with client := { s.client with board := board, phase := phase } }
      | none =>
          let phase := if n + 1 < retries then .awaiting (n + 1) else .loop
          { s with client := { s.client with phase := phase } }
  | _ => s

/-- The client polls the state until it is its turn again. -/
def Match.poll (s : Match) (ok : Bool) : Match :=
  if s.client.phase = .loop ∧ s.client.board.winner = winNone ∧
      s.client.board.turn ≠ turnClient then
    match s.read ok with
    | some (board, endReason) =>
        let stale := if endReason = endNone then 0 else s.client.stale
        let phase := if endReason = endNone then .polled else .returned endReason
        { s with client := { s.client with board := board, stale := stale, phase := phase } }
    | none =>
        let phase := if 60 < s.client.stale + 1 then .returned endTimeout else .polled
        { s with client := { s.client with stale := s.client.stale + 1, phase := phase } }
  else s

/-- The key behind a poll. -/
def Match.pollKey (s : Match) (key : Key) (arrives : Bool) : Match :=
  if s.client.phase = .polled then
    if key = .okLong then s.sendMove moveBye none arrives (.returned endQuit)
    else { s with client := { s.client with phase := .loop } }
  else s

/-- A step of a match. -/
def step (s : Match) : Step → Match × List Empty
  | .draw client => (s.draw client, [])
  | .publish => (s.publish, [])
  | .finish => (s.finish, [])
  | .hostKey key => (s.hostKey key, [])
  | .take => (s.take, [])
  | .copyOut => (s.copyOut, [])
  | .timeout key => (s.timeout key, [])
  | .handle => (s.handle, [])
  | .give => (s.give, [])
  | .clientFinish => (s.clientFinish, [])
  | .clientKey key arrives => (s.clientKey key arrives, [])
  | .retry ok => (s.retry ok, [])
  | .poll ok => (s.poll ok, [])
  | .pollKey key arrives => (s.pollKey key arrives, [])

end Games
end JppDos
