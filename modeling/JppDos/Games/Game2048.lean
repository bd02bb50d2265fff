import JppDos.Lib.CInt
import JppDos.Lib.Fusion
import Mathlib.Algebra.BigOperators.Fin
import Mathlib.Algebra.Order.BigOperators.Group.Finset
import Mathlib.Algebra.Order.Ring.Int
import Mathlib.Algebra.Order.Ring.Nat
import Mathlib.Data.Fin.VecNotation
import Mathlib.Data.Fintype.Pi

/-!
# 2048

`g2048.c`: a grid of 4 × 4 exponents. A slide pushes its four lines, which are read along the
direction, and `any_moves` looks for a blank cell or equal neighbours.

Main fact:
* `gameOver_iff`: a game is over when no slide changes the board any more.
-/

namespace JppDos
namespace Games
namespace G2048

open CInt Fusion

/-- `dir`. -/
inductive Dir where
  | left | right | up | down
  deriving DecidableEq

/-- `cell`: exponents, 0 for an empty cell. -/
abbrev Board := Fin 4 → Fin 4 → Nat

/-- `g2048_t`. -/
structure State where
  cell : Board
  score : Int
  maxExp : Nat
  wonShown : Bool
  gameOver : Bool

/-- `slide_line` after some places: the tiles put out so far, the newest first, and the two fields
of the game that it changes. -/
structure Line where
  out : List Nat
  mergedHere : Bool
  moved : Bool
  score : Int
  maxExp : Nat
  deriving DecidableEq

/-- A tile that is not merged. -/
def Line.push (l : Line) (i e : Nat) : Line :=
  { l with moved := l.moved || i != l.out.length, out := e :: l.out, mergedHere := false }

/-- The loop's body in `slide_line`. -/
def Line.step (l : Line) (i e : Nat) : Line :=
  if e = 0 then l
  else
    match l.out with
    | [] => l.push i e
    | last :: out =>
        if l.mergedHere = false ∧ last = e then
          let merged := (last + 1) % 256
          { out := merged :: out, mergedHere := true, moved := true,
            score := wrap32 (l.score + 2 ^ merged), maxExp := max l.maxExp merged }
        else l.push i e

/-- The loop of `slide_line` from place i on. -/
def Line.loop (l : Line) : Nat → List Nat → Line
  | _, [] => l
  | i, e :: line => (l.step i e).loop (i + 1) line

/-- What `slide_line` leaves in the line. -/
def Line.result (l : Line) (n : Nat) : List Nat :=
  l.out.reverse ++ List.replicate (n - l.out.length) 0

/-- `slide_line`. -/
def slideLine (line : List Nat) (score : Int) (maxExp : Nat) : Line :=
  Line.loop { out := [], mergedHere := false, moved := false, score, maxExp } 0 line

/-- Where place j of line i lies on the board. -/
def place : Dir → Fin 4 → Fin 4 → Fin 4 × Fin 4
  | .left, i, j => (i, j)
  | .right, i, j => (i, j.rev)
  | .up, i, j => (j, i)
  | .down, i, j => (j.rev, i)

/-- Line i of the board. -/
def lineAt (dir : Dir) (board : Board) (i : Fin 4) : List Nat :=
  (List.finRange 4).map fun j => board (place dir i j).1 (place dir i j).2

/-- One cell is written. -/
def setCell (board : Board) (at' : Fin 4 × Fin 4) (e : Nat) : Board := fun r c =>
  if (r, c) = at' then e else board r c

/-- Line i is written back. -/
def writeLine (dir : Dir) (i : Fin 4) (line : List Nat) (board : Board) : Board :=
  (List.finRange 4).foldl (fun board j => setCell board (place dir i j) (line.getD j 0)) board

/-- The outer loop's body in `slide`. -/
def slideRow (dir : Dir) (s : State × Bool) (i : Fin 4) : State × Bool :=
  let l := slideLine (lineAt dir s.1.cell i) s.1.score s.1.maxExp
  ({ s.1 with cell := writeLine dir i (l.result 4) s.1.cell, score := l.score, maxExp := l.maxExp },
    s.2 || l.moved)

/-- `slide`. -/
def slide (dir : Dir) (g : State) : State × Bool :=
  (List.finRange 4).foldl (slideRow dir) (g, false)

/-- `any_moves`. -/
def anyMoves (board : Board) : Bool :=
  (List.finRange 4).any fun r => (List.finRange 4).any fun c =>
    board r c == 0 ||
      (if h : c.val + 1 < 4 then board r c == board r ⟨c + 1, h⟩ else false) ||
      (if h : r.val + 1 < 4 then board r c == board ⟨r + 1, h⟩ c else false)

/-- The cells that `spawn_tile` collects. -/
def freeCells (board : Board) : List (Fin 4 × Fin 4) :=
  (List.finRange 4).flatMap fun r => (List.finRange 4).filterMap fun c =>
    if board r c = 0 then some (r, c) else none

/-- `spawn_tile`, with the two numbers that it draws. -/
def spawnTile (pick tenth : Nat) (g : State) : State :=
  match (freeCells g.cell)[pick]? with
  | some cell => { g with cell := setCell g.cell cell (if tenth = 0 then 2 else 1) }
  | none => g

/-- `reset_game`. -/
def resetGame (pick tenth pick' tenth' : Nat) : State :=
  spawnTile pick' tenth' (spawnTile pick tenth
    { cell := fun _ _ => 0, score := 0, maxExp := 0, wonShown := false, gameOver := false })

/-- A key of `play_session`, with the numbers for a new tile. -/
structure Input where
  dir : Dir
  pick : Nat
  tenth : Nat

/-- A turn of `play_session`. -/
def turn (g : State) (input : Input) : State :=
  if g.gameOver then g
  else
    let (g', moved) := slide input.dir g
    if moved then
      let g' := spawnTile input.pick input.tenth g'
      { g' with
        wonShown := g'.wonShown || (11 ≤ g'.maxExp && g.maxExp < 11)
        gameOver := !anyMoves g'.cell }
    else g'

/-- The value of a tile. -/
def tileValue (e : Nat) : Nat := if e = 0 then 0 else 2 ^ e

/-- The sum of all values. -/
def total (board : Board) : Nat := ∑ r, ∑ c, tileValue (board r c)

/-- A line that is pushed: two equal tiles make up one with the next exponent. -/
def settled (line : List Nat) : List Nat := settle (· + 1) 0 line

/-- The values of the tiles that a pushed line merges. -/
def gain (line : List Nat) : Nat :=
  ((born (· + 1) (line.filter (· ≠ 0))).map tileValue).sum

/-- The values of the tiles that a slide merges. -/
def merged (dir : Dir) (board : Board) : Nat := ∑ i, gain (lineAt dir board i)

def mirror (board : Board) : Board := fun r c => board r c.rev
def transpose (board : Board) : Board := fun r c => board c r

/-- The board turned in such a way that a slide in a direction is one to the left. -/
def view : Dir → Board → Board
  | .left, board => board
  | .right, board => mirror board
  | .up, board => transpose board
  | .down, board => mirror (transpose board)

example : settled [1, 1, 1, 1] = [2, 2, 0, 0] ∧ settled [2, 1, 1, 0] = [2, 2, 0, 0] := by decide

section Lines

/-- The tile that the next one may be merged with. -/
def Line.pending (l : Line) : List Nat := if l.mergedHere then [] else l.out.take 1

/-- The tiles in front of it. -/
def Line.closed (l : Line) : List Nat := (if l.mergedHere then l.out else l.out.drop 1).reverse

/-- What the loop will put out. -/
def Line.finish (l : Line) (rest : List Nat) : List Nat :=
  l.closed ++ fuse (· + 1) (l.pending ++ rest.filter (· ≠ 0))

/-- What the score will be. -/
def Line.tally (l : Line) (rest : List Nat) : Int :=
  wrap32 (l.score + (((born (· + 1) (l.pending ++ rest.filter (· ≠ 0))).map tileValue).sum : Nat))

theorem Line.closed_append_pending (l : Line) : l.closed ++ l.pending = l.out.reverse := by
  unfold Line.closed Line.pending
  split_ifs
  · exact List.append_nil _
  · cases l.out with
    | nil => rfl
    | cons last out => exact (List.reverse_cons).symm

theorem Line.push_spec (l : Line) (i : Nat) {e : Nat} (he : e ≠ 0) (rest : List Nat)
    (h : ∀ last ∈ l.pending, last ≠ e) :
    (l.push i e).finish rest = l.finish (e :: rest) ∧
      (l.push i e).tally rest = l.tally (e :: rest) := by
  have hfilter : (e :: rest).filter (· ≠ 0) = e :: rest.filter (· ≠ 0) :=
    List.filter_cons_of_pos (decide_eq_true he)
  have hclosed : (l.push i e).closed = l.closed ++ l.pending := (l.closed_append_pending).symm
  have hpending : (l.push i e).pending = [e] := rfl
  have hscore : (l.push i e).score = l.score := rfl
  have hcases : l.pending = [] ∨ ∃ last, l.pending = [last] := by
    unfold Line.pending
    split_ifs
    · exact Or.inl rfl
    · cases l.out with
      | nil => exact Or.inl rfl
      | cons last out => exact Or.inr ⟨last, rfl⟩
  unfold Line.finish Line.tally
  rw [hfilter, hclosed, hpending, hscore]
  rcases hcases with hnone | ⟨last, hlast⟩
  · rw [hnone, List.append_nil]
    exact ⟨rfl, rfl⟩
  · have hne : last ≠ e := h last (hlast ▸ List.mem_singleton_self last)
    rw [hlast, List.singleton_append, List.singleton_append, fuse, if_neg hne, born, if_neg hne,
      List.append_assoc]
    exact ⟨rfl, rfl⟩

theorem Line.step_spec (l : Line) (i : Nat) {e : Nat} (he : e < 255) (rest : List Nat) :
    (l.step i e).finish rest = l.finish (e :: rest) ∧
      (l.step i e).tally rest = l.tally (e :: rest) := by
  unfold Line.step
  split_ifs with hzero
  · have hfilter : (e :: rest).filter (· ≠ 0) = rest.filter (· ≠ 0) :=
      List.filter_cons_of_neg (by simpa using hzero)
    unfold Line.finish Line.tally
    rw [hfilter]
    exact ⟨rfl, rfl⟩
  · split
    · rename_i hout
      refine l.push_spec i hzero rest fun last hlast => ?_
      unfold Line.pending at hlast
      rw [hout] at hlast
      split_ifs at hlast <;> exact absurd hlast List.not_mem_nil
    · rename_i last out hout
      split_ifs with hmerge
      · obtain ⟨hopen, rfl⟩ := hmerge
        have hfilter : (last :: rest).filter (· ≠ 0) = last :: rest.filter (· ≠ 0) :=
          List.filter_cons_of_pos (decide_eq_true hzero)
        have hpending : l.pending = [last] := by
          unfold Line.pending
          rw [hopen, hout]
          rfl
        have hclosed : l.closed = out.reverse := by
          unfold Line.closed
          rw [hopen, hout]
          rfl
        have hmod : (last + 1) % 256 = last + 1 := Nat.mod_eq_of_lt (by omega)
        have hvalue : tileValue (last + 1) = 2 ^ (last + 1) := if_neg (Nat.succ_ne_zero last)
        dsimp only
        unfold Line.finish Line.tally
        rw [hfilter, hpending, hclosed, hmod, List.singleton_append, fuse, if_pos rfl, born,
          if_pos rfl]
        refine ⟨?_, ?_⟩
        · simp [Line.closed, Line.pending]
        · dsimp only [Line.pending]
          rw [wrap32_add, if_pos rfl, List.nil_append, List.map_cons, List.sum_cons, hvalue]
          push_cast
          rw [add_assoc]
      · refine l.push_spec i hzero rest fun tile htile => ?_
        unfold Line.pending at htile
        rw [hout] at htile
        split_ifs at htile with hclosed
        · exact absurd htile List.not_mem_nil
        · rw [List.mem_singleton.mp htile]
          exact fun heq => hmerge ⟨Bool.eq_false_of_not_eq_true hclosed, heq⟩

theorem Line.loop_spec (l : Line) (i : Nat) {line : List Nat} (hline : ∀ e ∈ line, e < 255) :
    (l.loop i line).out.reverse = l.finish line ∧
      wrap32 (l.loop i line).score = l.tally line := by
  induction line generalizing l i with
  | nil =>
      rw [Line.loop, ← l.closed_append_pending]
      unfold Line.finish Line.tally Line.pending
      split_ifs
      · exact ⟨rfl, by simp [born]⟩
      · rcases l.out with _ | ⟨last, out⟩
        · exact ⟨rfl, by simp [born]⟩
        · exact ⟨rfl, by simp [born]⟩
  | cons e line ih =>
      obtain ⟨hout, hscore⟩ := ih (l.step i e) (i + 1) fun e' he' =>
        hline e' (List.mem_cons_of_mem e he')
      obtain ⟨hfinish, htally⟩ := l.step_spec i (hline e List.mem_cons_self) line
      exact ⟨hout.trans hfinish, hscore.trans htally⟩

theorem Line.step_fits (l : Line) (i e : Nat) (h : Fits l.score) : Fits (l.step i e).score := by
  unfold Line.step
  split_ifs
  · exact h
  · split
    · exact h
    · split_ifs
      · exact ⟨neg_le_wrap32 _, wrap32_lt _⟩
      · exact h

theorem Line.loop_fits (l : Line) (i : Nat) (line : List Nat) (h : Fits l.score) :
    Fits (l.loop i line).score := by
  induction line generalizing l i with
  | nil => exact h
  | cons e line ih => exact ih (l.step i e) (i + 1) (l.step_fits i e h)

/-- The loop has noticed whether the places so far have changed. -/
structure Line.Tracks (l : Line) (before : List Nat) : Prop where
  length : l.out.length ≤ before.length
  moved : l.moved = true ↔ l.result before.length ≠ before

theorem Line.result_succ (l : Line) {n : Nat} (h : l.out.length ≤ n) :
    l.result (n + 1) = l.result n ++ [0] := by
  rw [Line.result, Line.result, Nat.succ_sub h, List.replicate_succ', List.append_assoc]

theorem Line.Tracks.push {l : Line} {before : List Nat} (h : l.Tracks before) {e : Nat}
    (he : e ≠ 0) : (l.push before.length e).Tracks (before ++ [e]) := by
  have hlen : (before ++ [e]).length = before.length + 1 := List.length_append
  refine ⟨by rw [hlen]; exact Nat.succ_le_succ h.length, ?_⟩
  rw [hlen]
  by_cases hfull : before.length = l.out.length
  · have hresult : (l.push before.length e).result (before.length + 1) =
        l.result before.length ++ [e] := by
      simp [Line.result, Line.push, hfull]
    have hmoved : (l.push before.length e).moved = l.moved := by
      simp [Line.push, hfull]
    rw [hresult, hmoved, h.moved, ne_eq, ne_eq, List.append_left_inj]
  · have hroom : (l.push before.length e).out.length ≤ before.length :=
      Nat.lt_of_le_of_ne h.length (Ne.symm hfull)
    rw [Line.result_succ _ hroom]
    refine iff_of_true ?_ fun heq =>
      he (List.singleton_inj.mp (List.append_inj_right' heq rfl)).symm
    simp [Line.push, hfull]

theorem Line.Tracks.step {l : Line} {before : List Nat} (h : l.Tracks before) (e : Nat) :
    (l.step before.length e).Tracks (before ++ [e]) := by
  have hlen : (before ++ [e]).length = before.length + 1 := List.length_append
  unfold Line.step
  split_ifs with hzero
  · refine ⟨by rw [hlen]; exact Nat.le_succ_of_le h.length, ?_⟩
    rw [hlen, Line.result_succ l h.length, h.moved, hzero, ne_eq, ne_eq, List.append_left_inj]
  · split
    · exact h.push hzero
    · rename_i last out hout
      split_ifs with hmerge
      · -- a blank place is left behind
        have hroom : out.length + 1 ≤ before.length := by
          have hlength := h.length
          rwa [hout] at hlength
        refine ⟨by rw [hlen]; exact Nat.le_succ_of_le hroom, ?_⟩
        rw [hlen, Line.result_succ _ hroom]
        exact iff_of_true rfl fun heq =>
          hzero (List.singleton_inj.mp (List.append_inj_right' heq rfl)).symm
      · exact h.push hzero

theorem Line.Tracks.loop {l : Line} {before : List Nat} (h : l.Tracks before) (line : List Nat) :
    (l.loop before.length line).Tracks (before ++ line) := by
  induction line generalizing l before with
  | nil => exact (List.append_nil before).symm ▸ h
  | cons e line ih =>
      have hnext := ih (h.step e)
      rwa [List.length_append, List.append_assoc] at hnext

/-- A line is settled, and what comes into being is counted. -/
theorem slideLine_spec {line : List Nat} {score : Int} (maxExp : Nat) (hscore : Fits score)
    (hline : ∀ e ∈ line, e < 255) :
    (slideLine line score maxExp).result line.length = settled line ∧
      (slideLine line score maxExp).score = wrap32 (score + gain line) ∧
      ((slideLine line score maxExp).moved = true ↔ settled line ≠ line) := by
  set start : Line := ⟨[], false, false, score, maxExp⟩ with hstart
  obtain ⟨hout, htally⟩ := start.loop_spec 0 hline
  have hfits := start.loop_fits 0 line hscore
  have htracks : start.Tracks [] := ⟨Nat.le_refl 0, iff_of_false Bool.false_ne_true fun h => h rfl⟩
  have hresult : (slideLine line score maxExp).result line.length = settled line := by
    have hfuse : (slideLine line score maxExp).out.reverse =
        fuse (· + 1) (line.filter (· ≠ 0)) := hout
    have hlen : (slideLine line score maxExp).out.length =
        (fuse (· + 1) (line.filter (· ≠ 0))).length := by
      rw [← hfuse, List.length_reverse]
    rw [Line.result, hfuse, hlen]
    rfl
  refine ⟨hresult, (wrap32_of_fits hfits).symm.trans htally, ?_⟩
  rw [← hresult]
  exact (htracks.loop line).moved

end Lines

section Boards

variable {dir : Dir} {board : Board}

theorem place_injective {i j i' j' : Fin 4} (h : place dir i j = place dir i' j') :
    i = i' ∧ j = j' := by
  cases dir <;> simpa [place, and_comm] using h

theorem exists_place (dir : Dir) (r c : Fin 4) : ∃ i j, place dir i j = (r, c) := by
  cases dir with
  | left => exact ⟨r, c, rfl⟩
  | right => exact ⟨r, c.rev, by rw [place, Fin.rev_rev]⟩
  | up => exact ⟨c, r, rfl⟩
  | down => exact ⟨c, r.rev, by rw [place, Fin.rev_rev]⟩

theorem board_ext {board' : Board} (dir : Dir) (h : ∀ i, lineAt dir board i = lineAt dir board' i) :
    board = board' := by
  funext r c
  obtain ⟨i, j, hplace⟩ := exists_place dir r c
  have hcell := List.map_inj_left.mp (h i) j (List.mem_finRange j)
  rwa [hplace] at hcell

theorem length_lineAt (dir : Dir) (board : Board) (i : Fin 4) :
    (lineAt dir board i).length = 4 := by
  rw [lineAt, List.length_map, List.length_finRange]

theorem mem_lineAt {i : Fin 4} {e : Nat} :
    e ∈ lineAt dir board i ↔ ∃ j, board (place dir i j).1 (place dir i j).2 = e := by
  rw [lineAt, List.mem_map]
  exact exists_congr fun j => and_iff_right (List.mem_finRange j)

theorem foldl_setCell_of_notMem {p : Fin 4 → Fin 4 × Fin 4} {v : Fin 4 → Nat} {r c : Fin 4}
    {places : List (Fin 4)} (h : ∀ j ∈ places, p j ≠ (r, c)) :
    places.foldl (fun board j => setCell board (p j) (v j)) board r c = board r c := by
  induction places generalizing board with
  | nil => rfl
  | cons j places ih =>
      rw [List.foldl_cons, ih fun j' hj' => h j' (List.mem_cons_of_mem j hj'), setCell,
        if_neg (Ne.symm (h j List.mem_cons_self))]

theorem foldl_setCell_of_mem {p : Fin 4 → Fin 4 × Fin 4} (hp : Function.Injective p)
    {v : Fin 4 → Nat} {j : Fin 4} {places : List (Fin 4)} (hj : j ∈ places) :
    places.foldl (fun board j => setCell board (p j) (v j)) board (p j).1 (p j).2 = v j := by
  induction places generalizing board with
  | nil => exact absurd hj List.not_mem_nil
  | cons j' places ih =>
      by_cases hrest : j ∈ places
      · exact ih hrest
      · obtain rfl : j = j' := (List.mem_cons.mp hj).resolve_right hrest
        have hothers : ∀ k ∈ places, p k ≠ ((p j).1, (p j).2) := fun k hk heq =>
          hrest (hp heq ▸ hk)
        rw [List.foldl_cons, foldl_setCell_of_notMem hothers, setCell, if_pos rfl]

theorem lineAt_writeLine {line : List Nat} (hline : line.length = 4) (i i' : Fin 4) :
    lineAt dir (writeLine dir i line board) i' = if i' = i then line else lineAt dir board i' := by
  unfold writeLine lineAt
  split_ifs with hsame
  · rw [hsame]
    refine List.ext_getElem (by rw [List.length_map, List.length_finRange, hline]) ?_
    intro n hn hn'
    have hinj : Function.Injective (place dir i) := fun j j' h => (place_injective h).2
    rw [List.getElem_map, foldl_setCell_of_mem hinj (List.mem_finRange _), List.getElem_finRange,
      List.getD_eq_getElem?_getD]
    simp [hn']
  · refine List.map_congr_left fun j _ => foldl_setCell_of_notMem fun j' _ heq => hsame ?_
    exact (place_injective heq).1.symm

theorem foldl_slideRow {lines : List (Fin 4)} (hnodup : lines.Nodup) {s : State × Bool}
    (hscore : Fits s.1.score)
    (hsmall : ∀ i ∈ lines, ∀ e ∈ lineAt dir s.1.cell i, e < 255) :
    let r := lines.foldl (slideRow dir) s
    (∀ i, lineAt dir r.1.cell i =
        if i ∈ lines then settled (lineAt dir s.1.cell i) else lineAt dir s.1.cell i) ∧
      r.1.score = wrap32 (s.1.score + (lines.map fun i => gain (lineAt dir s.1.cell i)).sum) ∧
      (r.2 = true ↔ s.2 = true ∨
        ∃ i ∈ lines, settled (lineAt dir s.1.cell i) ≠ lineAt dir s.1.cell i) := by
  induction lines generalizing s with
  | nil => exact ⟨fun i => rfl, by simp [wrap32_of_fits hscore], by simp⟩
  | cons i lines ih =>
      obtain ⟨hnotMem, hnodup'⟩ := List.nodup_cons.mp hnodup
      obtain ⟨hresult, hgain, hmoved⟩ := slideLine_spec s.1.maxExp hscore
        (hsmall i List.mem_cons_self)
      rw [length_lineAt] at hresult
      have hlines : ∀ i', lineAt dir (slideRow dir s i).1.cell i' =
          if i' = i then settled (lineAt dir s.1.cell i) else lineAt dir s.1.cell i' := by
        intro i'
        have hlen : (settled (lineAt dir s.1.cell i)).length = 4 :=
          (length_settle _).trans (length_lineAt dir s.1.cell i)
        unfold slideRow
        dsimp only
        rw [hresult, lineAt_writeLine hlen]
      have hother : ∀ i' ∈ lines, lineAt dir (slideRow dir s i).1.cell i' =
          lineAt dir s.1.cell i' := fun i' hi' => by
        have hne : ¬ i' = i := fun heq => hnotMem (heq ▸ hi')
        rw [hlines, if_neg hne]
      have hfits : Fits (slideRow dir s i).1.score := by
        have hscore' : (slideRow dir s i).1.score = _ := hgain
        rw [hscore']
        exact ⟨neg_le_wrap32 _, wrap32_lt _⟩
      obtain ⟨hcells, hsum, hany⟩ := ih hnodup' hfits fun i' hi' e he =>
        hsmall i' (List.mem_cons_of_mem i hi') e (hother i' hi' ▸ he)
      refine ⟨fun i' => ?_, ?_, ?_⟩
      · rw [List.foldl_cons, hcells, hlines]
        by_cases hsame : i' = i
        · rw [hsame, if_neg hnotMem, if_pos rfl, if_pos List.mem_cons_self]
        · simp [hsame]
      · have hgains : (lines.map fun i' => gain (lineAt dir (slideRow dir s i).1.cell i')) =
            lines.map fun i' => gain (lineAt dir s.1.cell i') :=
          List.map_congr_left fun i' hi' => by rw [hother i' hi']
        have hscore' : (slideRow dir s i).1.score = _ := hgain
        rw [List.foldl_cons, hsum, hgains, hscore', wrap32_add, List.map_cons, List.sum_cons]
        push_cast
        rw [add_assoc]
      · have hmoved' : (slideRow dir s i).2 = true ↔
            s.2 = true ∨ settled (lineAt dir s.1.cell i) ≠ lineAt dir s.1.cell i := by
          rw [← hmoved]
          exact Bool.or_eq_true ..▸ Iff.rfl
        rw [List.foldl_cons, hany, hmoved', List.exists_mem_cons_iff, or_assoc]
        refine or_congr_right (or_congr_right (exists_congr fun i' => ?_))
        exact and_congr_right fun hi' => by rw [hother i' hi']

theorem slide_spec (dir : Dir) {g : State} (hscore : Fits g.score)
    (hsmall : ∀ r c, g.cell r c < 255) :
    (∀ i, lineAt dir (slide dir g).1.cell i = settled (lineAt dir g.cell i)) ∧
      (slide dir g).1.score = wrap32 (g.score + merged dir g.cell) ∧
      ((slide dir g).2 = true ↔ (slide dir g).1.cell ≠ g.cell) := by
  obtain ⟨hcells, hsum, hany⟩ := foldl_slideRow (List.nodup_finRange 4) (s := (g, false)) hscore
    fun i _ e he => (mem_lineAt.mp he).elim fun j hj => hj ▸ hsmall _ _
  have hlines : ∀ i, lineAt dir (slide dir g).1.cell i = settled (lineAt dir g.cell i) :=
    fun i => (hcells i).trans (if_pos (List.mem_finRange i))
  refine ⟨hlines, hsum.trans ?_, hany.trans ?_⟩
  · rw [merged, Fin.sum_univ_def]
  · constructor
    · rintro (hno | ⟨i, -, hi⟩) heq
      · exact Bool.false_ne_true hno
      · exact hi ((hlines i).symm.trans (heq ▸ rfl))
    · intro hne
      by_contra hnone
      refine hne (board_ext dir fun i => (hlines i).trans ?_)
      by_contra hi
      exact hnone (Or.inr ⟨i, List.mem_finRange i, hi⟩)

/-- The values along the lines of any direction make up the total. -/
theorem total_eq_sum_lines (dir : Dir) (board : Board) :
    total board = ∑ i, ((lineAt dir board i).map tileValue).sum := by
  have hline : ∀ i, ((lineAt dir board i).map tileValue).sum =
      ∑ j, tileValue (board (place dir i j).1 (place dir i j).2) := fun i => by
    rw [lineAt, List.map_map, Fin.sum_univ_def]
    rfl
  rw [total, Finset.sum_congr rfl fun i _ => hline i]
  cases dir with
  | left => rfl
  | right => exact Finset.sum_congr rfl fun i _ => (Equiv.sum_comp Fin.revPerm _).symm
  | up => exact Finset.sum_comm
  | down =>
      rw [Finset.sum_comm]
      exact Finset.sum_congr rfl fun i _ => (Equiv.sum_comp Fin.revPerm _).symm

/-- A slide in a direction is one to the left on the board that is turned. -/
theorem lineAt_view (dir : Dir) (board : Board) (i : Fin 4) :
    lineAt .left (view dir board) i = lineAt dir board i := by
  cases dir <;> rfl

theorem reverse_lineAt (board : Board) (i : Fin 4) :
    (lineAt .left board i).reverse = lineAt .right board i ∧
      (lineAt .up board i).reverse = lineAt .down board i := ⟨rfl, rfl⟩

theorem isChain_lineAt_left (board : Board) (r : Fin 4) :
    (lineAt .left board r).IsChain (· ≠ ·) ↔
      ∀ c : Fin 4, ∀ h : c.val + 1 < 4, board r c ≠ board r ⟨c + 1, h⟩ := by
  have hlen := length_lineAt .left board r
  rw [List.isChain_iff_getElem]
  constructor
  · intro h c hc
    simpa [lineAt, place] using h c (hlen.symm ▸ hc)
  · intro h c hc
    rw [hlen] at hc
    simpa [lineAt, place] using h ⟨c, Nat.lt_of_succ_lt hc⟩ hc

theorem isChain_lineAt_up (board : Board) (c : Fin 4) :
    (lineAt .up board c).IsChain (· ≠ ·) ↔
      ∀ r : Fin 4, ∀ h : r.val + 1 < 4, board r c ≠ board ⟨r + 1, h⟩ c := by
  have hlen := length_lineAt .up board c
  rw [List.isChain_iff_getElem]
  constructor
  · intro h r hr
    simpa [lineAt, place] using h r (hlen.symm ▸ hr)
  · intro h r hr
    rw [hlen] at hr
    simpa [lineAt, place] using h ⟨r, Nat.lt_of_succ_lt hr⟩ hr

/-- `any_moves` finds nothing exactly if there is no blank cell and there are no equal
neighbours. -/
theorem anyMoves_eq_false_iff_isChain (board : Board) : anyMoves board = false ↔
    (∀ r c, board r c ≠ 0) ∧ (∀ r, (lineAt .left board r).IsChain (· ≠ ·)) ∧
      ∀ c, (lineAt .up board c).IsChain (· ≠ ·) := by
  have hneighbour : ∀ (p : Prop) [Decidable p] (e : Nat) (f : p → Nat),
      (if h : p then e == f h else false) = false ↔ ∀ h : p, e ≠ f h := by
    intro p _ e f
    by_cases h : p <;> simp [h]
  have hcell : anyMoves board = false ↔ ∀ r c : Fin 4, (board r c ≠ 0 ∧
      ∀ h : c.val + 1 < 4, board r c ≠ board r ⟨c + 1, h⟩) ∧
        ∀ h : r.val + 1 < 4, board r c ≠ board ⟨r + 1, h⟩ c := by
    unfold anyMoves
    rw [List.any_eq_false]
    refine ⟨fun h r c => ?_, fun h r _ => ?_⟩
    · have hrow := h r (List.mem_finRange r)
      rw [Bool.not_eq_true, List.any_eq_false] at hrow
      have hcell := hrow c (List.mem_finRange c)
      rwa [Bool.not_eq_true, Bool.or_eq_false_iff, Bool.or_eq_false_iff, hneighbour, hneighbour,
        beq_eq_false_iff_ne] at hcell
    · rw [Bool.not_eq_true, List.any_eq_false]
      intro c _
      rw [Bool.not_eq_true, Bool.or_eq_false_iff, Bool.or_eq_false_iff, hneighbour, hneighbour,
        beq_eq_false_iff_ne]
      exact h r c
  rw [hcell]
  constructor
  · exact fun h => ⟨fun r c => (h r c).1.1,
      fun r => (isChain_lineAt_left board r).mpr fun c => (h r c).1.2,
      fun c => (isChain_lineAt_up board c).mpr fun r => (h r c).2⟩
  · rintro ⟨hfull, hrows, hcolumns⟩ r c
    exact ⟨⟨hfull r c, (isChain_lineAt_left board r).mp (hrows r) c⟩,
      (isChain_lineAt_up board c).mp (hcolumns c) r⟩

/-- A line stays as it is in a slide that changes nothing. -/
theorem settled_of_unchanged {g : State} (hscore : Fits g.score)
    (hsmall : ∀ r c, g.cell r c < 255) (h : (slide dir g).1.cell = g.cell) (i : Fin 4) :
    settled (lineAt dir g.cell i) = lineAt dir g.cell i :=
  (((slide_spec dir hscore hsmall).1 i).symm).trans (h ▸ rfl)

/-- No move is left exactly if no slide changes the board. -/
theorem anyMoves_eq_false_iff {g : State} (hscore : Fits g.score)
    (hsmall : ∀ r c, g.cell r c < 255) (hempty : ∃ r c, g.cell r c ≠ 0) :
    anyMoves g.cell = false ↔ ∀ dir, (slide dir g).1.cell = g.cell := by
  have hup : ∀ e : Nat, e ≠ 0 → e + 1 ≠ 0 := fun e _ => Nat.succ_ne_zero e
  have hmem : ∀ dir i, (∀ r c, g.cell r c ≠ 0) → ∀ e ∈ lineAt dir g.cell i, e ≠ 0 :=
    fun dir i hfull e he => (mem_lineAt.mp he).elim fun j hj => hj ▸ hfull _ _
  rw [anyMoves_eq_false_iff_isChain]
  constructor
  · rintro ⟨hfull, hrows, hcolumns⟩ dir
    have hchain : ∀ i, (lineAt dir g.cell i).IsChain (· ≠ ·) := by
      intro i
      have hrev := reverse_lineAt g.cell i
      cases dir with
      | left => exact hrows i
      | right => exact hrev.1 ▸ List.isChain_reverse.mpr ((hrows i).imp fun _ _ => Ne.symm)
      | up => exact hcolumns i
      | down => exact hrev.2 ▸ List.isChain_reverse.mpr ((hcolumns i).imp fun _ _ => Ne.symm)
    refine board_ext dir fun i => ((slide_spec dir hscore hsmall).1 i).trans ?_
    exact (settle_eq_self_iff (hmem dir i hfull)).mpr (hchain i)
  · intro h
    have hline := fun dir => settled_of_unchanged hscore hsmall (h dir)
    -- a blank cell empties its row, and then every column
    have hrow : ∀ r c, g.cell r c = 0 → ∀ c', g.cell r c' = 0 := fun r c hzero c' =>
      all_blank_of_settled hup (hline .left r) ((reverse_lineAt g.cell r).1 ▸ hline .right r)
        (mem_lineAt.mpr ⟨c, hzero⟩) _ (mem_lineAt.mpr ⟨c', rfl⟩)
    have hcolumn : ∀ r c, g.cell r c = 0 → ∀ r', g.cell r' c = 0 := fun r c hzero r' =>
      all_blank_of_settled hup (hline .up c) ((reverse_lineAt g.cell c).2 ▸ hline .down c)
        (mem_lineAt.mpr ⟨r, hzero⟩) _ (mem_lineAt.mpr ⟨r', rfl⟩)
    have hfull : ∀ r c, g.cell r c ≠ 0 := by
      intro r c hzero
      obtain ⟨r', c', htile⟩ := hempty
      exact htile (hcolumn r c' (hrow r c hzero c') r')
    exact ⟨hfull, fun r => (settle_eq_self_iff (hmem .left r hfull)).mp (hline .left r),
      fun c => (settle_eq_self_iff (hmem .up c hfull)).mp (hline .up c)⟩

end Boards

theorem total_slide (dir : Dir) {g : State} (hscore : Fits g.score)
    (hsmall : ∀ r c, g.cell r c < 255) : total (slide dir g).1.cell = total g.cell := by
  rw [total_eq_sum_lines dir, total_eq_sum_lines dir]
  refine Finset.sum_congr rfl fun i _ => ?_
  rw [(slide_spec dir hscore hsmall).1, settled, sum_settle tileValue rfl]
  intro e _ hne
  rw [tileValue, tileValue, if_neg (Nat.succ_ne_zero e), if_neg hne, pow_succ]
  omega

/-- What a slide does: the values of the tiles are kept, every line is settled along the direction,
which makes it the image of a slide to the left, the merged values are scored, and a change is
reported; and no move is left exactly if no slide changes the board. -/
theorem slides_lossless (g : State) (dir : Dir) (hempty : ∃ r c, g.cell r c ≠ 0)
    (hexp : ∀ r c, g.cell r c < 30) (hscore : Fits g.score) :
    let r := slide dir g
    let r' := slide .left { g with cell := view dir g.cell }
    total r.1.cell = total g.cell ∧
      (∀ i, lineAt dir r.1.cell i = settled (lineAt dir g.cell i)) ∧
      (g.score + merged dir g.cell < 2 ^ 31 → r.1.score = g.score + merged dir g.cell) ∧
      (r.2 = true ↔ r.1.cell ≠ g.cell) ∧
      (view dir r.1.cell = r'.1.cell ∧ r.1.score = r'.1.score ∧ r.2 = r'.2) ∧
      (anyMoves g.cell = false ↔ ∀ dir, (slide dir g).1.cell = g.cell) := by
  intro r r'
  have hsmall : ∀ r c, g.cell r c < 255 := fun r c => Nat.lt_trans (hexp r c) (by decide)
  obtain ⟨hlines, hsum, hmoved⟩ := slide_spec dir hscore hsmall
  have hsmall' : ∀ r c, view dir g.cell r c < 255 := by
    cases dir <;> exact fun r c => hsmall _ _
  obtain ⟨hlines', hsum', hmoved'⟩ :=
    slide_spec .left (g := { g with cell := view dir g.cell }) hscore hsmall'
  have hview : view dir r.1.cell = r'.1.cell := by
    refine board_ext .left fun i => ?_
    rw [lineAt_view, hlines, hlines', lineAt_view]
  refine ⟨total_slide dir hscore hsmall, hlines, fun hfits => ?_, hmoved, ⟨hview, ?_, ?_⟩,
    anyMoves_eq_false_iff hscore hsmall hempty⟩
  · rw [hsum]
    exact wrap32_of_fits ⟨by have := hscore.1; omega, hfits⟩
  · have hmerged : merged .left (view dir g.cell) = merged dir g.cell :=
      Finset.sum_congr rfl fun i _ => by rw [lineAt_view]
    rw [← hmerged] at hsum
    exact hsum.trans hsum'.symm
  · rw [Bool.eq_iff_iff, hmoved, hmoved', ← hview]
    refine not_congr ⟨fun h => h ▸ rfl, fun h => board_ext dir fun i => ?_⟩
    exact (lineAt_view dir _ i).symm.trans ((congrArg (lineAt .left · i) h).trans
      (lineAt_view dir _ i))

local instance fourRows : NeZero 4 := ⟨Nat.succ_ne_zero 3⟩

/-- A board whose first row is given, at the beginning of a game. -/
def rowOnly (row : Fin 4 → Nat) : State :=
  { cell := fun r c => if r = 0 then row c else 0, score := 0, maxExp := 0, wonShown := false,
    gameOver := false }

theorem slides_lossless_rowOnly :
    (slide .left (rowOnly ![1, 1, 2, 0])).1.score = 0 + merged .left (rowOnly ![1, 1, 2, 0]).cell ∧
      (anyMoves (rowOnly ![1, 1, 2, 0]).cell = false ↔
        ∀ dir, (slide dir (rowOnly ![1, 1, 2, 0])).1.cell = (rowOnly ![1, 1, 2, 0]).cell) := by
  have h := slides_lossless (rowOnly ![1, 1, 2, 0]) .left (by decide) (by decide) (by decide)
  exact ⟨h.2.2.1 (by decide), h.2.2.2.2.2⟩

/-- Two tiles of 2 ^ 30 come into being, which is more than the score can hold. -/
theorem score_overflows : ∃ g : State, (∃ r c, g.cell r c ≠ 0) ∧ (∀ r c, g.cell r c < 30) ∧
    Fits g.score ∧ (slide .left g).1.score ≠ g.score + merged .left g.cell :=
  ⟨rowOnly ![29, 29, 29, 29], by decide, by decide, by decide, by decide⟩

/-- A game between two turns. -/
structure Playable (g : State) : Prop where
  tile : ∃ r c, g.cell r c ≠ 0
  score : Fits g.score
  ended : g.gameOver = true ↔ anyMoves g.cell = false

theorem total_eq_zero_iff (board : Board) : total board = 0 ↔ ∀ r c, board r c = 0 := by
  have hvalue : ∀ e, tileValue e = 0 ↔ e = 0 := by
    intro e
    unfold tileValue
    split_ifs with h
    · exact iff_of_true rfl h
    · exact iff_of_false (Nat.pow_pos (by decide)).ne' h
  simp only [total, Finset.sum_eq_zero_iff, Finset.mem_univ, true_imp_iff, hvalue]

theorem exists_tile_iff (board : Board) : (∃ r c, board r c ≠ 0) ↔ total board ≠ 0 := by
  rw [ne_eq, total_eq_zero_iff]
  push Not
  rfl

/-- A slide leaves tiles on the board, and the end of the game to the turn. -/
theorem slide_keeps (dir : Dir) {g : State} (h : Playable g) (hsmall : ∀ r c, g.cell r c < 255) :
    (∃ r c, (slide dir g).1.cell r c ≠ 0) ∧ Fits (slide dir g).1.score ∧
      (slide dir g).1.gameOver = g.gameOver := by
  have hover : ∀ (lines : List (Fin 4)) (s : State × Bool),
      (lines.foldl (slideRow dir) s).1.gameOver = s.1.gameOver := by
    intro lines
    induction lines with
    | nil => exact fun s => rfl
    | cons i lines ih => exact fun s => ih (slideRow dir s i)
  refine ⟨?_, ?_, hover _ _⟩
  · rw [exists_tile_iff, total_slide dir h.score hsmall, ← exists_tile_iff]
    exact h.tile
  · rw [(slide_spec dir h.score hsmall).2.1]
    exact ⟨neg_le_wrap32 _, wrap32_lt _⟩

theorem spawnTile_spec (pick tenth : Nat) (g : State) :
    (spawnTile pick tenth g).score = g.score ∧
      ((∃ r c, g.cell r c ≠ 0) → ∃ r c, (spawnTile pick tenth g).cell r c ≠ 0) := by
  unfold spawnTile
  cases (freeCells g.cell)[pick]? with
  | none => exact ⟨rfl, id⟩
  | some cell =>
      refine ⟨rfl, fun _ => ⟨cell.1, cell.2, ?_⟩⟩
      dsimp only
      rw [setCell, if_pos rfl]
      split_ifs <;> decide

theorem playable_resetGame {pick : Nat} (hpick : pick < 16) (tenth pick' tenth' : Nat) :
    Playable (resetGame pick tenth pick' tenth') := by
  have hall : (freeCells fun _ _ => 0).length = 16 := by decide
  have htwo : ∀ a b : Fin 4 × Fin 4, ¬ ∀ c, ((0 : Fin 4), c) = a ∨ ((0 : Fin 4), c) = b := by decide
  set fresh : State :=
    { cell := fun _ _ => 0, score := 0, maxExp := 0, wonShown := false, gameOver := false }
  have hin : pick < (freeCells fresh.cell).length := hall.symm ▸ hpick
  set first := (freeCells fresh.cell)[pick]
  have hone : spawnTile pick tenth fresh =
      { fresh with cell := setCell fresh.cell first (if tenth = 0 then 2 else 1) } := by
    rw [spawnTile, List.getElem?_eq_getElem hin]
  have htile : ∃ r c, (spawnTile pick tenth fresh).cell r c ≠ 0 := by
    refine ⟨first.1, first.2, ?_⟩
    rw [hone]
    dsimp only
    rw [setCell, if_pos rfl]
    split_ifs <;> decide
  obtain ⟨second, hsecond, hgoes⟩ : ∃ second, (∀ r c,
      (resetGame pick tenth pick' tenth').cell r c ≠ 0 → (r, c) = first ∨ (r, c) = second) ∧
      (resetGame pick tenth pick' tenth').gameOver = false := by
    have hcell : ∀ r c, setCell fresh.cell first (if tenth = 0 then 2 else 1) r c ≠ 0 →
        (r, c) = first := by
      intro r c hne
      by_contra hother
      exact hne (if_neg hother)
    unfold resetGame
    rw [hone]
    unfold spawnTile
    split
    · rename_i cell _
      refine ⟨cell, fun r c hne => ?_, rfl⟩
      by_cases hnew : (r, c) = cell
      · exact Or.inr hnew
      · dsimp only at hne
        rw [setCell, if_neg hnew] at hne
        exact Or.inl (hcell r c hne)
    · exact ⟨first, fun r c hne => Or.inl (hcell r c hne), rfl⟩
  obtain ⟨hscore, hkeeps⟩ := spawnTile_spec pick' tenth' (spawnTile pick tenth fresh)
  refine ⟨hkeeps htile, ?_, iff_of_false (by rw [hgoes]; decide) fun hnone => ?_⟩
  · rw [resetGame, hscore, hone]
    exact (by decide : Fits 0)
  · obtain ⟨hfull, -⟩ := (anyMoves_eq_false_iff_isChain _).mp hnone
    exact htwo first second fun c => hsecond 0 c (hfull 0 c)

theorem Playable.turn {g : State} (h : Playable g) (hsmall : ∀ r c, g.cell r c < 255)
    (input : Input) : Playable (G2048.turn g input) := by
  obtain ⟨htile, hfits, hgoes⟩ := slide_keeps input.dir h hsmall
  unfold G2048.turn
  dsimp only
  split_ifs with hover hmoved
  · exact h
  · obtain ⟨hscore, hkeeps⟩ := spawnTile_spec input.pick input.tenth (slide input.dir g).1
    refine ⟨hkeeps htile, hscore ▸ hfits, ?_⟩
    dsimp only
    rw [Bool.not_eq_true']
  · have hsame : (slide input.dir g).1.cell = g.cell := by
      by_contra hne
      exact hmoved ((slide_spec input.dir h.score hsmall).2.2.mpr hne)
    refine ⟨htile, hfits, ?_⟩
    rw [hgoes, hsame]
    exact h.ended

/-- Along a game whose exponents are those of tiles, it is over exactly when no slide changes the
board any more. -/
theorem gameOver_iff {g : State} (h : Playable g) (inputs : List Input)
    (hsmall : ∀ n, ∀ r c, ((inputs.take n).foldl turn g).cell r c < 255) :
    (inputs.foldl turn g).gameOver = true ↔
      ∀ dir, (slide dir (inputs.foldl turn g)).1.cell = (inputs.foldl turn g).cell := by
  have hrun : Playable (inputs.foldl turn g) := by
    induction inputs generalizing g with
    | nil => exact h
    | cons input inputs ih => exact ih (h.turn (hsmall 0) input) fun n => hsmall (n + 1)
  have hlast := hsmall inputs.length
  rw [List.take_length] at hlast
  exact hrun.ended.trans (anyMoves_eq_false_iff hrun.score hlast hrun.tile)

theorem gameOver_iff_firstTurn :
    ([⟨.left, 2, 5⟩].foldl turn (resetGame 0 1 0 1)).gameOver = true ↔
      ∀ dir, (slide dir ([⟨.left, 2, 5⟩].foldl turn (resetGame 0 1 0 1))).1.cell =
        ([⟨.left, 2, 5⟩].foldl turn (resetGame 0 1 0 1)).cell := by
  refine gameOver_iff (playable_resetGame (by decide) 1 0 1) [⟨.left, 2, 5⟩] fun n => ?_
  cases n with
  | zero => decide
  | succ n =>
      rw [List.take_succ_cons, List.take_nil]
      decide

end G2048
end Games
end JppDos
