import JppDos.Lib.CInt
import JppDos.Lib.Removal
import JppDos.Lib.Machine
import JppDos.Sdk.Context
import Mathlib

/-!
# Tetris

`tetris.c`: a well of 20 rows of bits, the falling piece as a mask of 16 bits, and a bag from which
the seven shapes are dealt.

Main fact:
* `tetris_regular`: the rules of the game along all its runs.
-/

namespace JppDos
namespace Games
namespace Tetris

open CInt Machine Removal
open Sdk (Key)

/-- `BW` and `BH`. -/
def bw : Nat := 10
def bh : Nat := 20

/-- A row of the board: bit c is set if the cell in column c is filled. -/
abbrev Row := BitVec 16

/-- `k_pieces`. -/
def pieces : List (List (BitVec 16)) :=
  [[0x0F00, 0x2222, 0x00F0, 0x4444],
   [0x8E00, 0x6440, 0x0E20, 0x44C0],
   [0x2E00, 0x4460, 0x0E80, 0xC440],
   [0x6600, 0x6600, 0x6600, 0x6600],
   [0x6C00, 0x4620, 0x06C0, 0x8C40],
   [0x4E00, 0x4640, 0x0E40, 0x4C40],
   [0xC600, 0x2640, 0x0C60, 0x4C80]]

/-- The cells (r, c) of a mask, in the order of the loops. -/
def maskCells (mask : BitVec 16) : List (Nat × Nat) :=
  (List.range 16).filterMap fun i =>
    if mask &&& ((0x8000 : BitVec 16) >>> i) ≠ 0 then some (i / 4, i % 4) else none

/-- The cells of a shape in a rotation. -/
def pieceCells (type : Fin 7) (rot : Fin 4) : List (Nat × Nat) :=
  maskCells ((pieces.getD type []).getD rot 0)

/-- A shuffle of the bag: the number that is drawn for each place. -/
abbrev Draws := (i : Fin 7) → Fin (i + 1)

/-- `tetris_t`. -/
structure State where
  board : List Row
  type : Fin 7
  rot : Fin 4
  x : Int
  y : Int
  nextType : Fin 7
  bag : Vector (Fin 7) 7
  bagPos : Nat
  score : Int
  lines : Int
  level : Int
  gameOver : Bool
  rotated : Bool
  deriving DecidableEq

/-- What is seen of a game: a shape is dealt, and a piece is locked, which turns one board into
another. -/
inductive Event where
  | dealt (type : Fin 7)
  | locked (before : State) (board : List Row)

/-- The new bag in `bag_next`. -/
def shuffle (draws : Draws) : Vector (Fin 7) 7 :=
  [6, 5, 4, 3, 2, 1].foldl
    (fun (bag : Vector (Fin 7) 7) (i : Fin 7) => bag.swap i (draws i) i.isLt (by omega))
    (Vector.ofFn id)

/-- `bag_next`. -/
def bagNext (draws : Draws) (g : State) : Fin 7 × State :=
  let g := if 7 ≤ g.bagPos then { g with bag := shuffle draws, bagPos := 0 } else g
  (g.bag.toList.getD g.bagPos 0, { g with bagPos := g.bagPos + 1 })

/-- The test of `collides` on one cell. -/
def cellCollides (board : List Row) (x y : Int) (cell : Nat × Nat) : Bool :=
  let bx := x + cell.2
  let by' := y + cell.1
  bx < 0 || (bw : Int) ≤ bx || (bh : Int) ≤ by' ||
    (0 ≤ by' && (board.getD by'.toNat 0).getLsbD bx.toNat)

/-- `collides`. -/
def collides (board : List Row) (type : Fin 7) (rot : Fin 4) (x y : Int) : Bool :=
  (pieceCells type rot).any (cellCollides board x y)

/-- `spawn`. -/
def spawn (draws : Draws) (g : State) : State × List Event :=
  let (next, g') := bagNext draws { g with type := g.nextType }
  let g' := { g' with nextType := next, rot := 0, x := 3, y := -1 }
  ({ g' with gameOver := collides g'.board g'.type 0 3 (-1) || g'.gameOver }, [.dealt next])

/-- A cell of the locked piece is filled, if it lies inside the well. -/
def fillCell (x y : Int) (board : List Row) (cell : Nat × Nat) : List Row :=
  if 0 ≤ y + cell.1 ∧ y + cell.1 < bh then
    board.modify (y + cell.1).toNat fun row => row ||| (1 : BitVec 16) <<< (x + cell.2).toNat
  else board

/-- The first loops of `lock_piece`. -/
def fill (g : State) : List Row := (pieceCells g.type g.rot).foldl (fillCell g.x g.y) g.board

/-- A full row. -/
def fullRow : Row := 0x3FF

/-- The last loop of `lock_piece`; a row that is taken out is followed by a look at the same place,
and 20 rows are taken out at most. -/
def clearRows (board : List Row) : List Row × Nat :=
  sweep (· == fullRow) 0 (2 * bh) bh board 0

/-- `k_points`. -/
def points : List Int := [0, 40, 100, 300, 1200]

/-- `lock_piece`. -/
def lockPiece (draws : Draws) (g : State) : State × List Event :=
  let (board, cleared) := clearRows (fill g)
  let g' := { g with board := board }
  let g' :=
    if 0 < cleared then
      let lines := wrap32 (g.lines + cleared)
      { g' with
        score := wrap32 (g.score + points.getD cleared 0 * (g.level + 1))
        lines := lines
        level := max g.level (lines.tdiv 10) }
    else g'
  let (g', dealt) := spawn draws g'
  (g', .locked g board :: dealt)

/-- `try_move`. -/
def tryMove (dx : Int) (g : State) : State :=
  if collides g.board g.type g.rot (g.x + dx) g.y then g else { g with x := g.x + dx }

/-- `try_rotate`. -/
def tryRotate (g : State) : State :=
  match [0, -1, 1].find? fun kick => !collides g.board g.type (g.rot + 1) (g.x + kick) g.y with
  | some kick => { g with rot := g.rot + 1, x := g.x + kick }
  | none => g

/-- `soft_drop`. -/
def softDrop (draws : Draws) (g : State) : State × List Event :=
  if collides g.board g.type g.rot g.x (g.y + 1) then lockPiece draws g
  else ({ g with y := g.y + 1, score := wrap32 (g.score + 1) }, [])

/-- The loop of `hard_drop`. -/
def dropLoop : Nat → State → State
  | 0, g => g
  | fuel + 1, g =>
      if collides g.board g.type g.rot g.x (g.y + 1) then g
      else dropLoop fuel { g with y := g.y + 1, score := wrap32 (g.score + 2) }

/-- `hard_drop`. -/
def hardDrop (draws : Draws) (g : State) : State × List Event :=
  lockPiece draws (dropLoop (bh - g.y).toNat g)

/-- The fall in `play_session`. -/
def fall (draws : Draws) (g : State) : State × List Event :=
  if collides g.board g.type g.rot g.x (g.y + 1) then lockPiece draws g
  else ({ g with y := g.y + 1 }, [])

/-- `handle_key`, without the menu; a restart from there is another game. -/
def handleKey (draws : Draws) (g : State) (key : Key) : State × List Event :=
  if g.rotated then
    match key with
    | .up => (tryMove 1 g, [])
    | .down => (tryMove (-1) g, [])
    | .left => hardDrop draws g
    | .right => softDrop draws g
    | .ok => (tryRotate g, [])
    | _ => (g, [])
  else
    match key with
    | .left => (tryMove (-1) g, [])
    | .right => (tryMove 1 g, [])
    | .up => hardDrop draws g
    | .down => softDrop draws g
    | .ok => (tryRotate g, [])
    | _ => (g, [])

/-- What happens in `play_session`: a key, or the piece falls, with numbers for a new bag. -/
inductive Input where
  | key (key : Key) (draws : Draws)
  | fall (draws : Draws)

/-- A turn of the session, which ends with the game. -/
def turn (g : State) (input : Input) : State × List Event :=
  if g.gameOver then (g, [])
  else
    match input with
    | .key key draws => handleKey draws g key
    | .fall draws => fall draws g

/-- `reset_game`, with what it deals. -/
def resetGame (draws draws' : Draws) (rotated : Bool) : State × List Event :=
  let fresh : State :=
    { board := List.replicate bh 0, type := 0, rot := 0, x := 0, y := 0, nextType := 0,
      bag := Vector.replicate 7 0, bagPos := 7, score := 0, lines := 0, level := 0,
      gameOver := false, rotated := rotated }
  let (next, g) := bagNext draws fresh
  let (g, dealt) := spawn draws' { g with nextType := next }
  (g, .dealt next :: dealt)

/-- The bit of a cell of the board. -/
def bit (board : List Row) (i c : Nat) : Bool := (board.getD i 0).getLsbD c

/-- A cell of a piece lies between the walls and above the floor. -/
def InWell (x y : Int) (cell : Nat × Nat) : Prop :=
  (0 ≤ x + cell.2 ∧ x + cell.2 < bw) ∧ y + cell.1 < bh

instance (x y : Int) (cell : Nat × Nat) : Decidable (InWell x y cell) :=
  inferInstanceAs (Decidable (_ ∧ _))

/-- It does not overlap a filled cell. -/
def Free (board : List Row) (x y : Int) (cell : Nat × Nat) : Prop :=
  0 ≤ y + cell.1 → bit board (y + cell.1).toNat (x + cell.2).toNat = false

/-- A board between two steps: its rows use the bits of the columns, and none is full. -/
structure Regular (board : List Row) : Prop where
  length : board.length = bh
  narrow : ∀ row ∈ board, ∀ c, bw ≤ c → row.getLsbD c = false
  notFull : ∀ row ∈ board, row ≠ fullRow

/-- The piece lies in the well, on free cells unless the game is over. -/
structure Placed (g : State) : Prop where
  inWell : ∀ cell ∈ pieceCells g.type g.rot, InWell g.x g.y cell
  free : g.gameOver = false → ∀ cell ∈ pieceCells g.type g.rot, Free g.board g.x g.y cell

/-- A piece is locked as it should be: its cells inside the well are filled, and then the full rows,
few enough for the table of points, are taken out, and the others keep their order. -/
def LockExact (before : State) (board : List Row) : Prop :=
  ∃ filled : List Row, filled.length = bh ∧
    (∀ i < bh, ∀ c, bit filled i c = true ↔ bit before.board i c = true ∨
      ∃ cell ∈ pieceCells before.type before.rot, before.y + cell.1 = i ∧ before.x + cell.2 = c) ∧
    board = List.replicate (filled.countP (· == fullRow)) 0 ++ filled.filter (· ≠ fullRow) ∧
    filled.countP (· == fullRow) < points.length

/-- The shapes that events deal. -/
def dealt (events : List Event) : List (Fin 7) :=
  events.filterMap fun
    | .dealt type => some type
    | .locked _ _ => none

/-- A bag: all the shapes, in some order. -/
def IsBag (bag : List (Fin 7)) : Prop := bag.Perm (List.finRange 7)

section Locking

variable {board : List Row} {g : State} {x y : Int}

theorem pieceCells_spec (type : Fin 7) (rot : Fin 4) :
    pieceCells type rot ≠ [] ∧ ∀ cell ∈ pieceCells type rot, cell.1 < 4 ∧ cell.2 < 4 := by
  revert type rot
  decide

theorem cellCollides_eq_false_iff (cell : Nat × Nat) :
    cellCollides board x y cell = false ↔ InWell x y cell ∧ Free board x y cell := by
  unfold cellCollides InWell Free bit
  simp only [Bool.or_eq_false_iff, Bool.and_eq_false_iff, decide_eq_false_iff_not, Int.not_lt,
    Int.not_le]
  constructor
  · rintro ⟨⟨⟨hleft, hright⟩, hfloor⟩, hfree⟩
    exact ⟨⟨⟨hleft, hright⟩, hfloor⟩, fun habove => hfree.resolve_left (Int.not_lt.mpr habove)⟩
  · rintro ⟨⟨⟨hleft, hright⟩, hfloor⟩, hfree⟩
    refine ⟨⟨⟨hleft, hright⟩, hfloor⟩, ?_⟩
    by_cases habove : 0 ≤ y + (cell.1 : Int)
    · exact Or.inr (hfree habove)
    · exact Or.inl (Int.not_le.mp habove)

/-- A piece that does not collide lies in the well, on free cells. -/
theorem collides_eq_false_iff (type : Fin 7) (rot : Fin 4) :
    collides board type rot x y = false ↔
      ∀ cell ∈ pieceCells type rot, InWell x y cell ∧ Free board x y cell := by
  rw [collides, List.any_eq_false]
  exact forall₂_congr fun cell _ => by rw [Bool.not_eq_true, cellCollides_eq_false_iff]

theorem length_fillCell (cell : Nat × Nat) : (fillCell x y board cell).length = board.length := by
  unfold fillCell
  split_ifs
  · exact List.length_modify ..
  · rfl

theorem bit_fillCell (hlen : board.length = bh) {cell : Nat × Nat} (hcell : InWell x y cell)
    {i : Nat} (hi : i < bh) (c : Nat) :
    bit (fillCell x y board cell) i c = true ↔
      bit board i c = true ∨ (y + cell.1 = i ∧ x + cell.2 = c) := by
  obtain ⟨⟨hleft, hright⟩, hfloor⟩ := hcell
  have hin : i < board.length := hlen ▸ hi
  unfold fillCell bit
  by_cases habove : 0 ≤ y + (cell.1 : Int) ∧ y + (cell.1 : Int) < bh
  · rw [if_pos habove, List.getD_eq_getElem?_getD, List.getD_eq_getElem?_getD,
      List.getElem?_modify, List.getElem?_eq_getElem hin]
    simp only [Option.map_eq_map, Option.map_some, Option.getD_some]
    by_cases hsame : (y + (cell.1 : Int)).toNat = i
    · have hone : ((1 : BitVec 16) <<< (x + cell.2).toNat).getLsbD c = true ↔ x + cell.2 = c := by
        change (BitVec.twoPow 16 (x + cell.2).toNat).getLsbD c = true ↔ _
        rw [BitVec.getLsbD_twoPow, Bool.and_eq_true, decide_eq_true_iff, decide_eq_true_iff]
        unfold bw at hright
        omega
      have hsame' : y + (cell.1 : Int) = i := by omega
      rw [if_pos hsame, BitVec.getLsbD_or, Bool.or_eq_true, hone, and_iff_right hsame']
    · have hother : ¬ y + (cell.1 : Int) = i := by omega
      rw [if_neg hsame]
      exact (or_iff_left fun h => hother h.1).symm
  · have hother : ¬ y + (cell.1 : Int) = i := by omega
    rw [if_neg habove]
    exact (or_iff_left fun h => hother h.1).symm

/-- The cells of the piece are filled, if they lie inside the well. -/
theorem bit_foldl_fillCell {cells : List (Nat × Nat)} (hlen : board.length = bh)
    (hcells : ∀ cell ∈ cells, InWell x y cell) {i : Nat} (hi : i < bh) (c : Nat) :
    (cells.foldl (fillCell x y) board).length = bh ∧
      (bit (cells.foldl (fillCell x y) board) i c = true ↔
        bit board i c = true ∨ ∃ cell ∈ cells, y + cell.1 = i ∧ x + cell.2 = c) := by
  induction cells generalizing board with
  | nil => exact ⟨hlen, by simp⟩
  | cons cell cells ih =>
      have hlen' := (length_fillCell (x := x) (y := y) cell).trans hlen
      obtain ⟨hlength, hbit⟩ := ih hlen' fun c' hc' => hcells c' (List.mem_cons_of_mem cell hc')
      refine ⟨hlength, ?_⟩
      rw [List.foldl_cons, hbit, bit_fillCell hlen (hcells cell List.mem_cons_self) hi,
        List.exists_mem_cons_iff, or_assoc]

end Locking

section Lock

variable {board : List Row} {g : State}

/-- The last loop of `lock_piece` takes the full rows out. -/
theorem clearRows_eq (hlen : board.length = bh) :
    clearRows board = (List.replicate (board.countP (· == fullRow)) 0 ++
      board.filter (· ≠ fullRow), board.countP (· == fullRow)) := by
  have htake : board.take bh = board := List.take_of_length_le hlen.le
  have hdrop : board.drop bh = [] := List.drop_of_length_le hlen.le
  have hcount : board.countP (· == fullRow) ≤ bh := hlen ▸ List.countP_le_length
  have hfilter : board.filter (fun row => !(row == fullRow)) = board.filter (· ≠ fullRow) :=
    List.filter_congr fun row _ => (decide_not (p := row = fullRow)).symm
  have hloop : clearRows board = _ := sweep_eq (by decide) 0 hlen.ge (by rw [htake]; omega)
  rw [htake, hdrop, hfilter, List.append_nil, Nat.zero_add] at hloop
  exact hloop

theorem bit_of_lt (hlen : board.length = bh) {i : Nat} (hi : i < bh) :
    ∃ h : i < board.length, ∀ c, bit board i c = board[i].getLsbD c := by
  refine ⟨hlen ▸ hi, fun c => ?_⟩
  rw [bit, List.getD_eq_getElem]

variable (hboard : Regular g.board) (hplaced : Placed g)
include hboard hplaced

theorem bit_fill : (fill g).length = bh ∧ ∀ i < bh, ∀ c, bit (fill g) i c = true ↔
    bit g.board i c = true ∨
      ∃ cell ∈ pieceCells g.type g.rot, g.y + cell.1 = i ∧ g.x + cell.2 = c :=
  ⟨(bit_foldl_fillCell hboard.length hplaced.inWell (show 0 < bh by decide) 0).1, fun _ hi c =>
    (bit_foldl_fillCell hboard.length hplaced.inWell hi c).2⟩

theorem exists_cell_of_full {i : Nat} (hi : i < (fill g).length) (hfull : (fill g)[i] = fullRow) :
    ∃ cell ∈ pieceCells g.type g.rot, g.y + cell.1 = i := by
  obtain ⟨hlen, hbits⟩ := bit_fill hboard hplaced
  have hrow : i < bh := hlen ▸ hi
  obtain ⟨hi', hbefore⟩ := bit_of_lt hboard.length hrow
  obtain ⟨_, hafter⟩ := bit_of_lt hlen hrow
  by_contra hnone
  have hsame : ∀ c, g.board[i].getLsbD c = fullRow.getLsbD c := fun c => by
    rw [← hbefore, ← hfull, ← hafter, Bool.eq_iff_iff, hbits i hrow]
    exact (or_iff_left fun ⟨cell, hcell, hy, _⟩ => hnone ⟨cell, hcell, hy⟩).symm
  exact hboard.notFull _ (List.getElem_mem hi') (BitVec.eq_of_getLsbD_eq fun c _ => hsame c)

theorem countP_fill_le : (fill g).countP (· == fullRow) ≤ 4 := by
  have hwindow : ∀ i (hi : i < (fill g).length), ((fill g)[i] == fullRow) = true →
      g.y.toNat ≤ i ∧ i < g.y.toNat + 4 := by
    intro i hi hfull
    obtain ⟨cell, hcell, hy⟩ := exists_cell_of_full hboard hplaced hi (eq_of_beq hfull)
    have hsmall := ((pieceCells_spec g.type g.rot).2 cell hcell).1
    omega
  exact countP_le_of_window hwindow

/-- The rows of the filled board use the bits of the columns. -/
theorem narrow_fill {row : Row} (hrow : row ∈ fill g) {c : Nat} (hc : bw ≤ c) :
    row.getLsbD c = false := by
  obtain ⟨hlen, hbits⟩ := bit_fill hboard hplaced
  obtain ⟨i, hi, rfl⟩ := List.mem_iff_getElem.mp hrow
  have hi' : i < bh := hlen ▸ hi
  obtain ⟨hin, hbefore⟩ := bit_of_lt hboard.length hi'
  obtain ⟨_, hafter⟩ := bit_of_lt hlen hi'
  rw [← hafter, ← Bool.not_eq_true, hbits i hi', hbefore]
  rintro (hold | ⟨cell, hcell, -, hx⟩)
  · exact absurd hold (by rw [hboard.narrow _ (List.getElem_mem hin) c hc]; decide)
  · have hright := (hplaced.inWell cell hcell).1.2
    omega

theorem lockBoard_exact :
    LockExact g (clearRows (fill g)).1 ∧ Regular (clearRows (fill g)).1 := by
  obtain ⟨hlen, hbits⟩ := bit_fill hboard hplaced
  have hcount := countP_fill_le hboard hplaced
  rw [clearRows_eq hlen]
  refine ⟨⟨fill g, hlen, hbits, rfl, Nat.lt_of_le_of_lt hcount (by decide)⟩, ?_, ?_, ?_⟩
  · have hsplit := List.length_eq_countP_add_countP (· == fullRow) (l := fill g)
    rw [List.length_append, List.length_replicate, ← List.countP_eq_length_filter, ← hlen, hsplit]
    simp
  · intro row hrow c hc
    rcases List.mem_append.mp hrow with hnew | hold
    · rw [List.eq_of_mem_replicate hnew]
      exact BitVec.getLsbD_zero
    · exact narrow_fill hboard hplaced (List.mem_of_mem_filter hold) hc
  · intro row hrow
    rcases List.mem_append.mp hrow with hnew | hold
    · rw [List.eq_of_mem_replicate hnew]
      decide
    · exact of_decide_eq_true (List.mem_filter.mp hold).2

end Lock

theorem shuffle_isBag (draws : Draws) : IsBag (shuffle draws).toList := by
  have hswaps : ∀ (places : List (Fin 7)) (bag : Vector (Fin 7) 7),
      (places.foldl (fun (bag : Vector (Fin 7) 7) (i : Fin 7) =>
        bag.swap i (draws i) i.isLt (by omega)) bag).Perm bag := by
    intro places
    induction places with
    | nil => exact fun bag => Vector.Perm.refl bag
    | cons i places ih => exact fun bag => (ih _).trans (Vector.swap_perm _ _)
  exact (Vector.perm_iff_toList_perm.mp (hswaps _ _)).trans (List.Perm.of_eq (by decide))

/-- What was dealt and what is left of the bag make up whole bags. -/
def Dealing (taken : List (Fin 7)) (g : State) : Prop :=
  ∃ bags : List (List (Fin 7)), (∀ bag ∈ bags, IsBag bag) ∧
    bags.flatten = taken ++ g.bag.toList.drop g.bagPos

theorem Dealing.bagNext {taken : List (Fin 7)} {g : State} (h : Dealing taken g) (draws : Draws) :
    Dealing (taken ++ [(bagNext draws g).1]) (bagNext draws g).2 := by
  obtain ⟨bags, hbags, htaken⟩ := h
  have hdeal : ∀ (bag : Vector (Fin 7) 7) (place : Nat), place < 7 →
      bag.toList.drop place = bag.toList.getD place 0 :: bag.toList.drop (place + 1) := by
    intro bag place hplace
    have hplace' : place < bag.toList.length := by rwa [Vector.length_toList]
    rw [List.drop_eq_getElem_cons hplace', List.getD_eq_getElem _ _ hplace']
  unfold Tetris.bagNext
  by_cases hempty : 7 ≤ g.bagPos
  · have hrest : g.bag.toList.drop g.bagPos = [] :=
      List.drop_of_length_le (by rwa [Vector.length_toList])
    rw [if_pos hempty]
    refine ⟨bags ++ [(shuffle draws).toList], ?_, ?_⟩
    · intro bag hbag
      rcases List.mem_append.mp hbag with hold | hnew
      · exact hbags bag hold
      · exact List.mem_singleton.mp hnew ▸ shuffle_isBag draws
    · have hfirst := hdeal (shuffle draws) 0 (by decide)
      rw [List.drop_zero] at hfirst
      rw [List.flatten_append, List.flatten_singleton, htaken, hrest, List.append_nil,
        List.append_assoc, hfirst]
      rfl
  · rw [if_neg hempty]
    refine ⟨bags, hbags, ?_⟩
    rw [htaken, hdeal g.bag g.bagPos (Nat.lt_of_not_le hempty), List.append_assoc]
    rfl

theorem spawn_spec (draws : Draws) (g : State) :
    ∃ next, (spawn draws g).2 = [.dealt next] ∧ 0 < (spawn draws g).1.bagPos ∧
      (spawn draws g).1.board = g.board ∧
      ∀ taken, Dealing taken g → Dealing (taken ++ [next]) (spawn draws g).1 := by
  refine ⟨(bagNext draws { g with type := g.nextType }).1, rfl, Nat.succ_pos _, ?_, ?_⟩
  · unfold spawn bagNext
    dsimp only
    split_ifs <;> rfl
  · exact fun taken h => Dealing.bagNext (g := { g with type := g.nextType }) h draws

/-- A game between two steps. -/
structure Sound (g : State) : Prop where
  board : Regular g.board
  placed : Placed g
  dealt : 0 < g.bagPos

theorem Sound.moved {g g' : State} (h : Sound g) (hboard : g'.board = g.board)
    (hbag : g'.bagPos = g.bagPos) (hfree : collides g.board g'.type g'.rot g'.x g'.y = false) :
    Sound g' := by
  have hcells := (collides_eq_false_iff g'.type g'.rot).mp hfree
  refine ⟨hboard ▸ h.board, ⟨fun cell hcell => (hcells cell hcell).1, fun _ cell hcell => ?_⟩,
    hbag ▸ h.dealt⟩
  exact hboard ▸ (hcells cell hcell).2

theorem spawn_sound (draws : Draws) {g : State} (h : Regular g.board) :
    Sound (spawn draws g).1 := by
  obtain ⟨next, -, hdealt, hboard, -⟩ := spawn_spec draws g
  have hinside : ∀ type : Fin 7, ∀ cell ∈ pieceCells type 0, InWell 3 (-1) cell := by decide
  refine ⟨hboard ▸ h, ⟨hinside _, fun hgoes => ?_⟩, hdealt⟩
  have hfree := (Bool.or_eq_false_iff.mp hgoes).1
  exact fun cell hcell => ((collides_eq_false_iff _ _).mp hfree cell hcell).2

/-- An action moves the piece, and may then lock it. -/
def Acts (g : State) (r : State × List Event) : Prop :=
  ∃ g', Sound g' ∧ g'.bag = g.bag ∧ g'.bagPos = g.bagPos ∧
    (r = (g', []) ∨ ∃ draws, r = lockPiece draws g')

section Actions

variable {g : State} (h : Sound g)
include h

theorem Acts.moved {g' : State} (hboard : g'.board = g.board) (hbag : g'.bag = g.bag)
    (hpos : g'.bagPos = g.bagPos) (hfree : ¬ collides g.board g'.type g'.rot g'.x g'.y = true) :
    Acts g (g', []) :=
  ⟨g', h.moved hboard hpos (Bool.eq_false_of_not_eq_true hfree), hbag, hpos, Or.inl rfl⟩

theorem Acts.tryMove (dx : Int) : Acts g (Tetris.tryMove dx g, []) := by
  unfold Tetris.tryMove
  split_ifs with hfree
  · exact ⟨g, h, rfl, rfl, Or.inl rfl⟩
  · exact Acts.moved h rfl rfl rfl hfree

theorem Acts.tryRotate : Acts g (Tetris.tryRotate g, []) := by
  unfold Tetris.tryRotate
  cases hkick : [0, -1, 1].find? fun kick =>
      !collides g.board g.type (g.rot + 1) (g.x + kick) g.y with
  | none => exact ⟨g, h, rfl, rfl, Or.inl rfl⟩
  | some kick =>
      have hfree := List.find?_some hkick
      exact Acts.moved h rfl rfl rfl (by simpa using hfree)

theorem Acts.softDrop (draws : Draws) : Acts g (Tetris.softDrop draws g) := by
  unfold Tetris.softDrop
  split_ifs with hfree
  · exact ⟨g, h, rfl, rfl, Or.inr ⟨draws, rfl⟩⟩
  · exact Acts.moved h rfl rfl rfl hfree

theorem Acts.fall (draws : Draws) : Acts g (Tetris.fall draws g) := by
  unfold Tetris.fall
  split_ifs with hfree
  · exact ⟨g, h, rfl, rfl, Or.inr ⟨draws, rfl⟩⟩
  · exact Acts.moved h rfl rfl rfl hfree

theorem Sound.dropLoop (fuel : Nat) : Sound (Tetris.dropLoop fuel g) ∧
    (Tetris.dropLoop fuel g).bag = g.bag ∧ (Tetris.dropLoop fuel g).bagPos = g.bagPos := by
  induction fuel generalizing g with
  | zero => exact ⟨h, rfl, rfl⟩
  | succ fuel ih =>
      rw [Tetris.dropLoop]
      split_ifs with hfree
      · exact ⟨h, rfl, rfl⟩
      · exact ih (h.moved rfl rfl (Bool.eq_false_of_not_eq_true hfree))

theorem Acts.hardDrop (draws : Draws) : Acts g (Tetris.hardDrop draws g) := by
  obtain ⟨hsound, hbag, hpos⟩ := h.dropLoop (bh - g.y).toNat
  exact ⟨_, hsound, hbag, hpos, Or.inr ⟨draws, rfl⟩⟩

theorem Acts.handleKey (draws : Draws) (key : Key) : Acts g (Tetris.handleKey draws g key) := by
  have hnothing : Acts g (g, []) := ⟨g, h, rfl, rfl, Or.inl rfl⟩
  unfold Tetris.handleKey
  split_ifs
  all_goals
    cases key with
    | up => first | exact Acts.tryMove h 1 | exact Acts.hardDrop h draws
    | down => first | exact Acts.tryMove h (-1) | exact Acts.softDrop h draws
    | left => first | exact Acts.tryMove h (-1) | exact Acts.hardDrop h draws
    | right => first | exact Acts.tryMove h 1 | exact Acts.softDrop h draws
    | ok => exact Acts.tryRotate h
    | _ => exact hnothing

theorem Acts.turn (input : Input) : Acts g (Tetris.turn g input) := by
  unfold Tetris.turn
  split_ifs
  · exact ⟨g, h, rfl, rfl, Or.inl rfl⟩
  · cases input with
    | key key draws => exact Acts.handleKey h draws key
    | fall draws => exact Acts.fall h draws

end Actions

/-- The loop of `hard_drop` ends because the piece can fall no further. -/
theorem dropLoop_lands (g : State) : ∃ g', dropLoop (bh - g.y).toNat g = g' ∧
    collides g'.board g'.type g'.rot g'.x (g'.y + 1) = true := by
  have hloop : ∀ (fuel : Nat) (g : State), (bh - g.y).toNat ≤ fuel →
      ∃ g', dropLoop fuel g = g' ∧
        collides g'.board g'.type g'.rot g'.x (g'.y + 1) = true := by
    intro fuel
    induction fuel with
    | zero =>
        intro g hfuel
        refine ⟨g, rfl, ?_⟩
        by_contra hfree
        obtain ⟨cell, hcell⟩ := List.exists_mem_of_ne_nil _ (pieceCells_spec g.type g.rot).1
        have hfloor := ((collides_eq_false_iff g.type g.rot).mp
          (Bool.eq_false_of_not_eq_true hfree) cell hcell).1.2
        omega
    | succ fuel ih =>
        intro g hfuel
        rw [dropLoop]
        split_ifs with hlands
        · exact ⟨g, rfl, hlands⟩
        · refine ih _ ?_
          dsimp only
          omega
  exact hloop _ g le_rfl

/-- What holds of a game and of all its events so far. -/
structure Watched (g : State) (events : List Event) : Prop where
  sound : Sound g
  locks : ∀ before board, .locked before board ∈ events → LockExact before board
  bags : Dealing (dealt events) g

theorem Watched.lockPiece {g : State} {events : List Event} (h : Watched g events)
    (draws : Draws) : Watched (Tetris.lockPiece draws g).1
      (events ++ (Tetris.lockPiece draws g).2) := by
  obtain ⟨hexact, hregular⟩ := lockBoard_exact h.sound.board h.sound.placed
  obtain ⟨scored, hscored, hboard, hbag, hpos⟩ : ∃ scored : State,
      Tetris.lockPiece draws g = ((spawn draws scored).1,
        .locked g (clearRows (fill g)).1 :: (spawn draws scored).2) ∧
      scored.board = (clearRows (fill g)).1 ∧ scored.bag = g.bag ∧ scored.bagPos = g.bagPos := by
    refine ⟨_, rfl, ?_⟩
    split_ifs <;> exact ⟨rfl, rfl, rfl⟩
  obtain ⟨next, hevent, -, -, hdeal⟩ := spawn_spec draws scored
  rw [hscored, hevent]
  refine ⟨spawn_sound draws (hboard ▸ hregular), fun before board hlock => ?_, ?_⟩
  · rcases List.mem_append.mp hlock with hold | hnew
    · exact h.locks before board hold
    · rcases List.mem_cons.mp hnew with hthis | hdealt
      · injection hthis with hg hcleared
        exact hg ▸ hcleared ▸ hexact
      · exact nomatch List.mem_singleton.mp hdealt
  · have hbefore : Dealing (dealt events) scored := by
      unfold Dealing
      rw [hbag, hpos]
      exact h.bags
    have htaken : dealt (events ++ [.locked g (clearRows (fill g)).1, .dealt next]) =
        dealt events ++ [next] := List.filterMap_append
    exact htaken ▸ hdeal _ hbefore

theorem Watched.turn {g : State} {events : List Event} (h : Watched g events) (input : Input) :
    Watched (Tetris.turn g input).1 (events ++ (Tetris.turn g input).2) := by
  obtain ⟨g', hsound, hbag, hpos, hacts⟩ := Acts.turn h.sound input
  have hmoved : Watched g' events := by
    refine ⟨hsound, h.locks, ?_⟩
    unfold Dealing
    rw [hbag, hpos]
    exact h.bags
  rcases hacts with hstays | ⟨draws, hlocks⟩
  · rw [hstays, List.append_nil]
    exact hmoved
  · rw [hlocks]
    exact hmoved.lockPiece draws

theorem watched_resetGame (draws draws' : Draws) (rotated : Bool) :
    Watched (resetGame draws draws' rotated).1 (resetGame draws draws' rotated).2 := by
  have hempty : Regular (List.replicate bh (0 : Row)) := by
    refine ⟨List.length_replicate, fun row hrow c _ => ?_, fun row hrow => ?_⟩
    · rw [List.eq_of_mem_replicate hrow]
      exact BitVec.getLsbD_zero
    · rw [List.eq_of_mem_replicate hrow]
      decide
  unfold resetGame
  set fresh : State :=
    { board := List.replicate bh 0, type := 0, rot := 0, x := 0, y := 0, nextType := 0,
      bag := Vector.replicate 7 0, bagPos := 7, score := 0, lines := 0, level := 0,
      gameOver := false, rotated := rotated } with hfresh
  have hfirst : Dealing ([] ++ [(bagNext draws fresh).1]) (bagNext draws fresh).2 :=
    Dealing.bagNext ⟨[], nofun, by rw [hfresh]; rfl⟩ draws
  obtain ⟨next, hevent, -, -, hdeal⟩ :=
    spawn_spec draws' { (bagNext draws fresh).2 with nextType := (bagNext draws fresh).1 }
  dsimp only
  rw [hevent]
  refine ⟨spawn_sound draws' hempty, fun before board hlock => ?_, hdeal _ hfirst⟩
  rcases List.mem_cons.mp hlock with hthis | hthis
  · exact nomatch hthis
  · exact nomatch List.mem_singleton.mp hthis

/-- The rules of the game: between two steps the board is regular and the piece placed, every piece
is locked as it should be, and the shapes come in bags of all seven. -/
theorem tetris_regular (draws draws' : Draws) (rotated : Bool) (inputs : List Input) :
    let start := resetGame draws draws' rotated
    let g := run turn start.1 inputs
    let events := start.2 ++ outputs turn start.1 inputs
    (Regular g.board ∧ Placed g) ∧
      (∀ before board, .locked before board ∈ events → LockExact before board) ∧
      ∃ bags rest : List _, (∀ bag ∈ bags, IsBag bag) ∧ bags.flatten = dealt events ++ rest ∧
        rest.length < 7 := by
  intro start g events
  have hwatched : Watched g events :=
    (along_true start.1 inputs).monitor (fun _ input _ h _ => h.turn input)
      (watched_resetGame draws draws' rotated)
  obtain ⟨bags, hbags, hdealt⟩ := hwatched.bags
  refine ⟨⟨hwatched.sound.board, hwatched.sound.placed⟩, hwatched.locks, bags, _, hbags, hdealt, ?_⟩
  have hpos := hwatched.sound.dealt
  rw [List.length_drop, Vector.length_toList]
  omega

end Tetris
end Games
end JppDos
