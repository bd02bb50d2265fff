import JppDos.Lib.Bitmap
import JppDos.Lib.Ring
import Mathlib.Data.List.Chain
import Mathlib.Data.List.Nodup
import Mathlib.Data.List.Perm.Subperm

/-!
# Snake

`snake.c`: the body is a ring of cells beside a bitmap of the cells that it occupies.  A step moves
the head, and the food is drawn until a free cell comes up.

Main fact:
* `snake_iff`: every state is consistent, and the next step ends exactly if it does not eat the food
  on the last free cell.
-/

namespace JppDos
namespace Games
namespace Snake

open JppDos.Ring

/-- `GW` and `GH`. -/
def gw : Nat := 32
def gh : Nat := 16

/-- `CELLS`. -/
def cells : Nat := 512

/-- `snake_t`; a cell is x + GW * y. -/
structure State where
  body : Vector Nat cells
  head : Nat
  tail : Nat
  len : Nat
  occ : Nat → UInt8
  dx : Int
  dy : Int
  pendDx : Int
  pendDy : Int
  food : Nat
  score : Nat
  dead : Bool

/-- `body[i]`. -/
def cellAt (body : Vector Nat cells) (i : Nat) : Nat := body[i]?.getD 0

/-- `place_food`, with the numbers that are drawn; there is no result if it needs more of them. -/
def placeFood (g : State) : List (Fin cells) → Option State
  | [] => none
  | cell :: draws =>
      if Bitmap.get g.occ cell then placeFood g draws else some { g with food := cell }

/-- The loop of `reset_game`. -/
def firstCells (g : State) : State :=
  (List.range 3).foldl (fun g i =>
    let cell := 13 + i + gw * 8
    { g with
      body := g.body.setIfInBounds g.head cell
      occ := Bitmap.set g.occ cell true
      head := if i < 2 then (g.head + 1) % cells else g.head }) g

/-- The snake of three cells with which a session begins. -/
def startState : State :=
  { firstCells
      ⟨Vector.replicate cells 0, 0, 0, 0, fun _ => 0, 1, 0, 1, 0, 0, 0, false⟩ with len := 3 }

/-- `reset_game`. -/
def resetGame (draws : List (Fin cells)) : Option State := placeFood startState draws

/-- The keys that turn the snake. -/
inductive Key where
  | up
  | down
  | left
  | right
  deriving DecidableEq

/-- A key in `play_session`. -/
def pressKey (g : State) : Key → State
  | .up => if g.dy ≠ 1 then { g with pendDx := 0, pendDy := -1 } else g
  | .down => if g.dy ≠ -1 then { g with pendDx := 0, pendDy := 1 } else g
  | .left => if g.dx ≠ 1 then { g with pendDx := -1, pendDy := 0 } else g
  | .right => if g.dx ≠ -1 then { g with pendDx := 1, pendDy := 0 } else g

/-- The cell to which the next step moves the head, if it is on the grid. -/
def nextCell (g : State) : Option Nat :=
  let hx : Int := (cellAt g.body g.head % gw : Nat) + g.pendDx
  let hy : Int := (cellAt g.body g.head / gw : Nat) + g.pendDy
  if hx < 0 ∨ gw ≤ hx ∨ hy < 0 ∨ gh ≤ hy then none else some (hx + gw * hy).toNat

/-- The tail is freed, unless the snake grows. -/
def freeTail (g : State) : State :=
  { g with
    occ := Bitmap.set g.occ (cellAt g.body g.tail) false
    tail := (g.tail + 1) % cells }

/-- The head is put into a cell. -/
def putHead (cell : Nat) (g : State) : State :=
  { g with
    head := (g.head + 1) % cells
    body := g.body.setIfInBounds ((g.head + 1) % cells) cell
    occ := Bitmap.set g.occ cell true }

/-- `step`. -/
def step (draws : List (Fin cells)) (g : State) : Option State :=
  let moved := { g with dx := g.pendDx, dy := g.pendDy }
  match nextCell g with
  | none => some { moved with dead := true }
  | some cell =>
      let freed := if cell = g.food then moved else freeTail moved
      if Bitmap.get freed.occ cell then some { freed with dead := true }
      else if cell = g.food then
        placeFood { putHead cell freed with len := g.len + 1, score := g.score + 1 } draws
      else some (putHead cell freed)

/-- The states of a session: it begins with `reset_game`, and while the snake lives there are keys
and steps, in any order and with any numbers drawn. -/
inductive Reached : State → Prop where
  | reset {g : State} (draws : List (Fin cells)) (h : resetGame draws = some g) : Reached g
  | key {g : State} (h : Reached g) (live : g.dead = false) (k : Key) : Reached (pressKey g k)
  | step {g g' : State} (h : Reached g) (live : g.dead = false) (draws : List (Fin cells))
      (hstep : step draws g = some g') : Reached g'

/-- The cells of the snake, from its tail to its head. -/
def snake (g : State) : List Nat := contents g.body cells g.tail g.len

/-- Two cells that touch. -/
def Adjacent (c c' : Nat) : Prop :=
  ((c % gw : Nat) - (c' % gw : Nat) : Int).natAbs +
    ((c / gw : Nat) - (c' / gw : Nat) : Int).natAbs = 1

instance (c c' : Nat) : Decidable (Adjacent c c') := inferInstanceAs (Decidable (_ = _))

/-- The two representations of a snake that lives agree, and it is one. -/
structure Consistent (g : State) : Prop where
  distinct : (snake g).Nodup
  occupied : ∀ cell < cells, Bitmap.get g.occ cell = true ↔ cell ∈ snake g
  joined : (snake g).IsChain Adjacent
  onGrid : ∀ cell ∈ snake g, cell < cells
  length : (snake g).length = 3 + g.score
  food : g.food < cells ∧ g.food ∉ snake g
  neck : ∀ rest neck head, snake g = rest ++ [neck, head] → nextCell g ≠ some neck

/-- A source of random cells that yields every cell. -/
def Fair (source : Nat → Fin cells) : Prop := ∀ cell, ∃ n, source n = cell

/-- The next step ends, when its numbers come from a source. -/
def Terminates (g : State) (source : Nat → Fin cells) : Prop :=
  ∃ n, (step ((List.range n).map source) g).isSome

/-- A state is consistent, and its next step ends. -/
def Right (g : State) : Prop := Consistent g ∧ ∀ source, Fair source → Terminates g source

/-- The next step eats the food on the last free cell. -/
def FillsBoard (g : State) : Prop := g.len + 1 = cells ∧ nextCell g = some g.food

section Cells

variable {g : State}

theorem getElem?_body (body : Vector Nat cells) {i : Nat} (hi : i < cells) :
    body[i]? = some (cellAt body i) := by
  rw [cellAt, Vector.getElem?_eq_getElem hi, Option.getD_some]

theorem cellAt_set_self (body : Vector Nat cells) {i : Nat} (hi : i < cells) (cell : Nat) :
    cellAt (body.setIfInBounds i cell) i = cell := by
  rw [cellAt, Vector.getElem?_setIfInBounds_self_of_lt hi, Option.getD_some]

theorem cellAt_set_of_ne (body : Vector Nat cells) {i j : Nat} (hne : i ≠ j) (cell : Nat) :
    cellAt (body.setIfInBounds i cell) j = cellAt body j := by
  rw [cellAt, Vector.getElem?_setIfInBounds_ne hne, cellAt]

theorem contents_cells_succ (body : Vector Nat cells) (tail len : Nat) :
    contents body cells tail (len + 1) =
      contents body cells tail len ++ [cellAt body ((tail + len) % cells)] :=
  contents_succ (getElem?_body body (Nat.mod_lt _ (by decide)))

theorem length_snake (g : State) : (snake g).length = g.len :=
  length_contents (by decide) (Nat.le_refl cells)

/-- A direction. -/
def Direction (dx dy : Int) : Prop := (dx = 0 ∧ (dy = 1 ∨ dy = -1)) ∨ (dy = 0 ∧ (dx = 1 ∨ dx = -1))

/-- A cell and the one next to it in a direction. -/
def Moved (c : Nat) (dx dy : Int) (c' : Nat) : Prop :=
  ((c' % gw : Nat) : Int) = (c % gw : Nat) + dx ∧ ((c' / gw : Nat) : Int) = (c / gw : Nat) + dy

theorem Moved.adjacent {c c' : Nat} {dx dy : Int} (h : Moved c dx dy c') (hunit : Direction dx dy) :
    Adjacent c c' := by
  unfold Moved Direction Adjacent at *
  omega

theorem Moved.ne {c c' c'' : Nat} {dx dy px py : Int} (h : Moved c dx dy c')
    (h' : Moved c' px py c'') (hturn : px ≠ -dx ∨ py ≠ -dy) : c'' ≠ c := by
  rintro rfl
  unfold Moved at *
  omega

/-- Cells that touch are in some direction of each other. -/
theorem Adjacent.moved {c c' : Nat} (h : Adjacent c c') :
    ∃ dx dy, Direction dx dy ∧ Moved c dx dy c' := by
  refine ⟨(c' % gw : Nat) - (c % gw : Nat), (c' / gw : Nat) - (c / gw : Nat), ?_, ?_, ?_⟩
  · unfold Adjacent at h
    unfold Direction
    omega
  all_goals omega

theorem nextCell_eq_some {cell : Nat} (h : nextCell g = some cell) :
    cell < cells ∧ Moved (cellAt g.body g.head) g.pendDx g.pendDy cell := by
  unfold nextCell at h
  dsimp only at h
  split_ifs at h with hout
  cases h
  unfold Moved cells
  unfold gw gh at *
  omega

theorem nextCell_of_moved {cell : Nat} (h : Moved (cellAt g.body g.head) g.pendDx g.pendDy cell)
    (hcell : cell < cells) : nextCell g = some cell := by
  have hin : ¬ (((cellAt g.body g.head % gw : Nat) + g.pendDx : Int) < 0 ∨
      gw ≤ (cellAt g.body g.head % gw : Nat) + g.pendDx ∨
      ((cellAt g.body g.head / gw : Nat) + g.pendDy : Int) < 0 ∨
      gh ≤ (cellAt g.body g.head / gw : Nat) + g.pendDy) := by
    unfold Moved gw gh cells at *
    omega
  unfold nextCell
  dsimp only
  rw [if_neg hin, Option.some.injEq]
  unfold Moved gw at *
  omega

/-- A list of cells that is joined, and that a bitmap shows. -/
structure Shown (occ : Nat → UInt8) (l : List Nat) : Prop where
  distinct : l.Nodup
  occupied : ∀ cell < cells, Bitmap.get occ cell = true ↔ cell ∈ l
  joined : l.IsChain Adjacent
  onGrid : ∀ cell ∈ l, cell < cells

variable {occ : Nat → UInt8} {l : List Nat} {cell : Nat}

theorem Shown.free (h : Shown occ (cell :: l)) : Shown (Bitmap.set occ cell false) l := by
  have hnot := (List.nodup_cons.mp h.distinct).1
  refine ⟨(List.nodup_cons.mp h.distinct).2, fun c hc => ?_, h.joined.tail,
    fun c hc => h.onGrid c (List.mem_cons_of_mem cell hc)⟩
  rw [Bitmap.get_set]
  by_cases hsame : c = cell
  · rw [if_pos hsame, hsame]
    exact ⟨fun hfalse => absurd hfalse Bool.false_ne_true, fun hmem => absurd hmem hnot⟩
  · rw [if_neg hsame, h.occupied c hc, List.mem_cons, or_iff_right hsame]

theorem Shown.add (h : Shown occ l) (hcell : cell < cells) (hfree : cell ∉ l)
    (hnext : ∀ c ∈ l.getLast?, Adjacent c cell) :
    Shown (Bitmap.set occ cell true) (l ++ [cell]) := by
  refine ⟨?_, fun c hc => ?_, ?_, ?_⟩
  · rw [← List.concat_eq_append]
    exact h.distinct.concat hfree
  · rw [Bitmap.get_set, List.mem_append, List.mem_singleton]
    by_cases hsame : c = cell
    · rw [if_pos hsame]
      exact ⟨fun _ => Or.inr hsame, fun _ => rfl⟩
    · rw [if_neg hsame, h.occupied c hc, or_iff_left hsame]
  · refine h.joined.append (List.isChain_singleton cell) fun c hc c' hc' => ?_
    cases hc'
    exact hnext c hc
  · intro c hc
    rcases List.mem_append.mp hc with hold | hnew
    · exact h.onGrid c hold
    · rwa [List.mem_singleton.mp hnew]

/-- It leaves a cell free exactly if it has not all of them. -/
theorem Shown.exists_free_iff (h : Shown occ l) :
    (∃ c < cells, c ∉ l) ↔ l.length < cells := by
  constructor
  · rintro ⟨c, hc, hfree⟩
    have hsub : c :: l ⊆ List.range cells := by
      refine List.cons_subset.mpr ⟨List.mem_range.mpr hc, fun c' hc' => ?_⟩
      exact List.mem_range.mpr (h.onGrid c' hc')
    have hle := (List.subperm_of_subset (List.nodup_cons.mpr ⟨hfree, h.distinct⟩) hsub).length_le
    rwa [List.length_range] at hle
  · intro hshort
    by_contra hall
    have hsub : List.range cells ⊆ l := fun c hc => by
      by_contra hfree
      exact hall ⟨c, List.mem_range.mp hc, hfree⟩
    have hle := (List.subperm_of_subset List.nodup_range hsub).length_le
    rw [List.length_range] at hle
    omega

end Cells

section Invariant

variable {g g' : State}

/-- What keys and steps keep of a snake that lives. -/
structure Sound (g : State) : Prop where
  shown : Shown g.occ (snake g)
  len : g.len = 3 + g.score
  food : g.food < cells ∧ g.food ∉ snake g
  tail : g.tail < cells
  head : g.head < cells ∧ (g.tail + (g.len - 1)) % cells = g.head
  unit : Direction g.dx g.dy
  pend : Direction g.pendDx g.pendDy
  turn : g.pendDx ≠ -g.dx ∨ g.pendDy ≠ -g.dy
  neck : Moved (cellAt g.body ((g.tail + (g.len - 2)) % cells)) g.dx g.dy (cellAt g.body g.head)

theorem Sound.snake_eq (h : Sound g) :
    snake g = contents g.body cells g.tail (g.len - 2) ++
      [cellAt g.body ((g.tail + (g.len - 2)) % cells), cellAt g.body g.head] := by
  have hlen := h.len
  have hone : g.len - 1 = g.len - 2 + 1 := by omega
  have htwo : g.len = g.len - 1 + 1 := by omega
  rw [snake, htwo, contents_cells_succ, h.head.2, hone, contents_cells_succ, List.append_assoc]
  rfl

theorem Sound.head_mem (h : Sound g) : (snake g).getLast? = some (cellAt g.body g.head) := by
  rw [h.snake_eq]
  simp

theorem Sound.consistent (h : Sound g) : Consistent g := by
  refine ⟨h.shown.distinct, h.shown.occupied, h.shown.joined, h.shown.onGrid, ?_, h.food, ?_⟩
  · rw [length_snake, h.len]
  · rintro rest neck head hsnake hnext
    rw [h.snake_eq] at hsnake
    obtain ⟨-, htop⟩ := List.append_inj' hsnake rfl
    obtain ⟨rfl, -⟩ := List.cons_eq_cons.mp htop
    exact h.neck.ne (nextCell_eq_some hnext).2 h.turn rfl

theorem Sound.key (h : Sound g) (k : Key) : Sound (pressKey g k) := by
  have hturned : ∀ (p : Prop) [Decidable p] (px py : Int), Direction px py →
      (p → px ≠ -g.dx ∨ py ≠ -g.dy) →
        Sound (if p then { g with pendDx := px, pendDy := py } else g) := by
    intro p _ px py hunit hturn
    split_ifs with hp
    · exact ⟨h.shown, h.len, h.food, h.tail, h.head, h.unit, hunit, hturn hp, h.neck⟩
    · exact h
  cases k with
  | up => exact hturned (g.dy ≠ 1) 0 (-1) (Or.inl ⟨rfl, by decide⟩) fun hdy => Or.inr (by omega)
  | down => exact hturned (g.dy ≠ -1) 0 1 (Or.inl ⟨rfl, by decide⟩) fun hdy => Or.inr (by omega)
  | left => exact hturned (g.dx ≠ 1) (-1) 0 (Or.inr ⟨rfl, by decide⟩) fun hdx => Or.inl (by omega)
  | right => exact hturned (g.dx ≠ -1) 1 0 (Or.inr ⟨rfl, by decide⟩) fun hdx => Or.inl (by omega)

/-- The search for the food keeps everything else, and ends on a free cell. -/
theorem placeFood_eq_some {draws : List (Fin cells)} (h : placeFood g draws = some g') :
    ∃ food : Fin cells, Bitmap.get g.occ food = false ∧ g' = { g with food := food } := by
  induction draws with
  | nil => cases h
  | cons cell draws ih =>
      rw [placeFood] at h
      split_ifs at h with hocc
      · exact ih h
      · exact ⟨cell, Bool.eq_false_iff.mpr hocc, (Option.some.inj h).symm⟩

theorem placeFood_isSome_iff {draws : List (Fin cells)} :
    (placeFood g draws).isSome ↔ ∃ cell ∈ draws, Bitmap.get g.occ cell = false := by
  induction draws with
  | nil => simp [placeFood]
  | cons cell draws ih =>
      rw [placeFood, List.exists_mem_cons_iff]
      split_ifs with hocc
      · rw [ih, hocc, or_iff_right (by decide)]
      · exact ⟨fun _ => Or.inl (Bool.eq_false_iff.mpr hocc), fun _ => rfl⟩

theorem contents_putHead {cell k : Nat} (hk : k < cells)
    (htop : (g.tail + k) % cells = (g.head + 1) % cells) :
    contents (putHead cell g).body cells g.tail (k + 1) =
      contents g.body cells g.tail k ++ [cell] := by
  unfold putHead
  rw [← htop]
  exact contents_push cell (Nat.le_refl cells) hk

theorem Sound.of_putHead {cell : Nat} (hlen : g.len = 3 + g.score)
    (hshown : Shown g.occ (contents g.body cells g.tail (g.len - 1)))
    (hlast : (contents g.body cells g.tail (g.len - 1)).getLast? = some (cellAt g.body g.head))
    (htail : g.tail < cells) (hhead : g.head < cells ∧ (g.tail + (g.len - 2)) % cells = g.head)
    (hroom : g.len - 1 < cells)
    (hdir : g.dx = g.pendDx ∧ g.dy = g.pendDy) (hunit : Direction g.pendDx g.pendDy)
    (hnext : cell < cells ∧ Moved (cellAt g.body g.head) g.pendDx g.pendDy cell)
    (hfree : cell ∉ contents g.body cells g.tail (g.len - 1))
    (hfood : g.food < cells ∧ g.food ∉ contents g.body cells g.tail (g.len - 1) ++ [cell]) :
    Sound (putHead cell g) := by
  have htop : (g.tail + (g.len - 1)) % cells = (g.head + 1) % cells := by
    rw [← hhead.2, Nat.mod_add_mod]
    congr 1
    omega
  have hlen' : g.len = g.len - 1 + 1 := by omega
  have hsnake : snake (putHead cell g) = contents g.body cells g.tail (g.len - 1) ++ [cell] := by
    rw [← contents_putHead hroom htop, ← hlen']
    rfl
  have hplace : (g.head + 1) % cells < cells := Nat.mod_lt _ (by decide)
  have hother : g.head ≠ (g.head + 1) % cells := by
    have hlt := hhead.1
    unfold cells at *
    omega
  refine ⟨?_, hlen, ?_, htail, ⟨hplace, htop⟩, hdir.1 ▸ hdir.2 ▸ hunit, hunit, ?_, ?_⟩
  · rw [hsnake]
    refine hshown.add hnext.1 hfree fun c hc => ?_
    rw [hlast] at hc
    cases hc
    exact hnext.2.adjacent hunit
  · rw [hsnake]
    exact hfood
  · change g.pendDx ≠ -g.dx ∨ g.pendDy ≠ -g.dy
    rw [hdir.1, hdir.2]
    unfold Direction at hunit
    omega
  · change Moved (cellAt (g.body.setIfInBounds ((g.head + 1) % cells) cell)
      ((g.tail + (g.len - 2)) % cells)) g.dx g.dy
      (cellAt (g.body.setIfInBounds ((g.head + 1) % cells) cell) ((g.head + 1) % cells))
    rw [hhead.2, cellAt_set_self g.body hplace, cellAt_set_of_ne g.body hother.symm, hdir.1, hdir.2]
    exact hnext.2

/-- The part of a step before the food is looked for, when the snake grows. -/
def grown (g : State) (cell : Nat) : State :=
  { putHead cell { g with dx := g.pendDx, dy := g.pendDy } with
    len := g.len + 1
    score := g.score + 1 }

theorem Sound.snake_tail (h : Sound g) :
    snake g = cellAt g.body g.tail :: contents g.body cells ((g.tail + 1) % cells) (g.len - 1) := by
  have hlen : g.len = g.len - 1 + 1 := by
    have hsize := h.len
    omega
  rw [snake, hlen]
  exact contents_pop (getElem?_body g.body h.tail) h.tail

/-- A step follows the tail of the snake, or it grows and the food is drawn, or it ends the life of
the snake. -/
theorem step_eq (h : Sound g) (draws : List (Fin cells)) :
    (∃ cell, nextCell g = some cell ∧ cell = g.food ∧
        step draws g = placeFood (grown g cell) draws) ∨
      (∃ cell, nextCell g = some cell ∧ cell ≠ g.food ∧
        cell ∉ contents g.body cells ((g.tail + 1) % cells) (g.len - 1) ∧
          step draws g =
            some (putHead cell (freeTail { g with dx := g.pendDx, dy := g.pendDy }))) ∨
      (nextCell g ≠ some g.food ∧ ∃ g', step draws g = some g' ∧ g'.dead = true) := by
  cases hnext : nextCell g with
  | none =>
      refine Or.inr (Or.inr ⟨nofun,
        { g with dx := g.pendDx, dy := g.pendDy, dead := true }, ?_, rfl⟩)
      unfold step
      rw [hnext]
  | some cell =>
      have hcell := (nextCell_eq_some hnext).1
      unfold step
      rw [hnext]
      dsimp only
      by_cases hfood : cell = g.food
      · -- the food lies on a free cell
        have hfree : Bitmap.get g.occ cell = false := by
          rw [Bool.eq_false_iff, ne_eq, h.shown.occupied cell hcell, hfood]
          exact h.food.2
        refine Or.inl ⟨cell, rfl, hfood, ?_⟩
        rw [if_pos hfood, hfree, if_neg Bool.false_ne_true, if_pos hfood]
        rfl
      · rw [if_neg hfood, if_neg hfood]
        have hshown := (h.snake_tail ▸ h.shown).free
        have hocc := hshown.occupied cell hcell
        change Bitmap.get (freeTail { g with dx := g.pendDx, dy := g.pendDy }).occ cell = true ↔ _
          at hocc
        by_cases hdead : Bitmap.get (freeTail { g with dx := g.pendDx, dy := g.pendDy }).occ cell
        · rw [if_pos hdead]
          exact Or.inr (Or.inr ⟨fun heq => hfood (Option.some.inj heq), _, rfl, rfl⟩)
        · rw [if_neg hdead]
          exact Or.inr (Or.inl ⟨cell, rfl, hfood, fun hmem => hdead (hocc.mpr hmem), rfl⟩)

theorem Sound.shown_grown (h : Sound g) (hnext : nextCell g = some g.food) :
    Shown (grown g g.food).occ (snake g ++ [g.food]) :=
  h.shown.add h.food.1 h.food.2 fun c hc => by
    rw [h.head_mem] at hc
    cases hc
    exact (nextCell_eq_some hnext).2.adjacent h.pend

theorem Sound.len_lt (h : Sound g) : g.len < cells := by
  have hex := h.shown.exists_free_iff.mp ⟨g.food, h.food⟩
  rwa [length_snake] at hex

/-- The snake that has grown, without its food: it has the invariant once a free cell is drawn. -/
theorem Sound.grown (h : Sound g) (hnext : nextCell g = some g.food) {food : Nat}
    (hfood : food < cells) (hfree : Bitmap.get (grown g g.food).occ food = false) :
    Sound { grown g g.food with food := food } ∧
      snake (Snake.grown g g.food) = snake g ++ [g.food] := by
  have hroom := h.len_lt
  have hmoved := nextCell_eq_some hnext
  have hnot : food ∉ snake g ++ [g.food] := by
    rw [← (h.shown_grown hnext).occupied food hfood, hfree]
    exact Bool.false_ne_true
  refine ⟨Sound.of_putHead (g := { g with
      dx := g.pendDx, dy := g.pendDy, len := g.len + 1, score := g.score + 1, food := food })
    ?_ h.shown h.head_mem h.tail ⟨h.head.1, h.head.2⟩ hroom ⟨rfl, rfl⟩ h.pend hmoved h.food.2
    ⟨hfood, hnot⟩, ?_⟩
  · change g.len + 1 = 3 + (g.score + 1)
    rw [h.len, Nat.add_assoc]
  · have htop : (g.tail + g.len) % cells = (g.head + 1) % cells := by
      have hlen := h.len
      rw [← h.head.2, Nat.mod_add_mod]
      congr 1
      omega
    exact contents_putHead (g := g) hroom htop

theorem Sound.step (h : Sound g) {draws : List (Fin cells)} (hstep : step draws g = some g')
    (hlive : g'.dead = false) : Sound g' := by
  rcases step_eq h draws with ⟨cell, hnext, rfl, heq⟩ | ⟨cell, hnext, hother, hfree, heq⟩ |
    ⟨-, g'', heq, hdead⟩
  · obtain ⟨food, hocc, rfl⟩ := placeFood_eq_some (heq.symm.trans hstep)
    exact (h.grown hnext food.isLt hocc).1
  · have hsame := Option.some.inj (heq.symm.trans hstep)
    rw [← hsame]
    have hlen := h.len
    have hcons := h.snake_tail
    have hshown := (hcons ▸ h.shown).free
    have hfood := h.food.2
    rw [hcons, List.mem_cons, not_or] at hfood
    have htop : ((g.tail + 1) % cells + (g.len - 2)) % cells = g.head := by
      rw [← h.head.2, Nat.mod_add_mod]
      congr 1
      omega
    have hlast : (contents g.body cells ((g.tail + 1) % cells) (g.len - 1)).getLast? =
        some (cellAt g.body g.head) := by
      have hone : g.len - 1 = g.len - 2 + 1 := by omega
      rw [hone, contents_cells_succ, List.getLast?_concat, htop]
    have hroom := h.len_lt
    refine Sound.of_putHead (g := freeTail { g with dx := g.pendDx, dy := g.pendDy }) hlen hshown
      hlast (Nat.mod_lt _ (by decide)) ⟨h.head.1, htop⟩ ?_ ⟨rfl, rfl⟩ h.pend
      (nextCell_eq_some hnext) hfree ⟨h.food.1, ?_⟩
    · change g.len - 1 < cells
      omega
    · rw [List.mem_append, List.mem_singleton, not_or]
      exact ⟨hfood.2, Ne.symm hother⟩
  · have hsame := Option.some.inj (heq.symm.trans hstep)
    rw [hsame, hlive] at hdead
    cases hdead

end Invariant

section Sessions

variable {g : State}

theorem shown_nil : Shown (fun _ => 0) [] := by
  refine ⟨List.nodup_nil, fun cell _ => ?_, List.isChain_nil, nofun⟩
  unfold Bitmap.get
  simp

theorem shown_start : Shown startState.occ [269, 270, 271] := by
  have hone : Shown (Bitmap.set (fun _ => 0) 269 true) [269] :=
    shown_nil.add (by decide) (by decide) (by decide)
  have htwo : Shown (Bitmap.set (Bitmap.set (fun _ => 0) 269 true) 270 true) [269, 270] :=
    hone.add (by decide) (by decide) (by decide)
  exact htwo.add (by decide) (by decide) (by decide)

theorem cellAt_start : cellAt startState.body 0 = 269 ∧ cellAt startState.body 1 = 270 ∧
    cellAt startState.body 2 = 271 := by
  have hbody : startState.body = (((Vector.replicate cells 0).setIfInBounds 0 269).setIfInBounds
      1 270).setIfInBounds 2 271 := rfl
  rw [hbody]
  refine ⟨?_, ?_, cellAt_set_self _ (by decide) _⟩
  · rw [cellAt_set_of_ne _ (by decide), cellAt_set_of_ne _ (by decide),
      cellAt_set_self _ (by decide)]
  · rw [cellAt_set_of_ne _ (by decide), cellAt_set_self _ (by decide)]

theorem snake_start : snake startState = [269, 270, 271] := by
  obtain ⟨hfirst, hsecond, hthird⟩ := cellAt_start
  change contents startState.body cells 0 (0 + 1 + 1 + 1) = _
  rw [contents_cells_succ, contents_cells_succ, contents_cells_succ]
  change [cellAt startState.body 0, cellAt startState.body 1, cellAt startState.body 2] = _
  rw [hfirst, hsecond, hthird]

theorem sound_reset {draws : List (Fin cells)} (h : resetGame draws = some g) :
    Sound g ∧ g.dead = false := by
  obtain ⟨food, hocc, rfl⟩ := placeFood_eq_some h
  have hshown : Shown startState.occ (snake startState) := by
    rw [snake_start]
    exact shown_start
  have hfree : (food : Nat) ∉ snake startState := by
    rw [← hshown.occupied food food.isLt]
    exact Bool.eq_false_iff.mp hocc
  have hring : startState.tail < cells ∧ startState.head < cells ∧
      (startState.tail + 2) % cells = startState.head := by decide
  have hneck : Moved (cellAt startState.body 1) 1 0 (cellAt startState.body 2) := by
    rw [cellAt_start.2.1, cellAt_start.2.2]
    unfold Moved
    decide
  have hright : Direction 1 0 := Or.inr ⟨rfl, Or.inl rfl⟩
  have hturn : (1 : Int) ≠ -1 := by decide
  exact ⟨⟨hshown, rfl, ⟨food.isLt, hfree⟩, hring.1, hring.2, hright, hright, Or.inl hturn,
    hneck⟩, rfl⟩

theorem pressKey_dead (g : State) (k : Key) : (pressKey g k).dead = g.dead := by
  cases k
  all_goals
    unfold pressKey
    dsimp only
    split_ifs
    all_goals rfl

theorem Reached.sound (h : Reached g) (hlive : g.dead = false) : Sound g := by
  induction h with
  | reset draws hreset => exact (sound_reset hreset).1
  | key _ live k ih => exact (ih live).key k
  | step _ live draws hstep ih => exact (ih live).step hstep hlive

/-- The next step ends exactly if it does not eat the food on the last free cell. -/
theorem Sound.terminates_iff (h : Sound g) :
    (∀ source, Fair source → Terminates g source) ↔ ¬ FillsBoard g := by
  have hlength : (snake g ++ [g.food]).length = g.len + 1 := by
    rw [List.length_append, length_snake]
    rfl
  by_cases hgrows : nextCell g = some g.food
  · have hshown := h.shown_grown hgrows
    -- the search ends exactly if a free cell is among the numbers
    have hends : ∀ draws, (Snake.step draws g).isSome ↔
        ∃ cell ∈ draws, Bitmap.get (Snake.grown g g.food).occ cell = false := by
      intro draws
      rcases step_eq h draws with ⟨cell, hnext, rfl, heq⟩ | ⟨cell, hnext, hother, -, -⟩ | ⟨hnot, -⟩
      · rw [heq, placeFood_isSome_iff]
      · exact absurd (Option.some.inj (hnext.symm.trans hgrows)) hother
      · exact absurd hgrows hnot
    have hfree : ∀ cell : Fin cells, Bitmap.get (Snake.grown g g.food).occ cell = false ↔
        (cell : Nat) ∉ snake g ++ [g.food] := by
      intro cell
      rw [← hshown.occupied cell cell.isLt, Bool.not_eq_true]
    constructor
    · intro hall hfills
      obtain ⟨n, hsome⟩ := hall (fun n => ⟨n % cells, Nat.mod_lt n (by decide)⟩) fun cell =>
        ⟨cell, Fin.ext (Nat.mod_eq_of_lt cell.isLt)⟩
      obtain ⟨cell, -, hocc⟩ := (hends _).mp hsome
      have hlt := hshown.exists_free_iff.mp ⟨cell, cell.isLt, (hfree cell).mp hocc⟩
      rw [hlength] at hlt
      exact absurd hfills.1 (Nat.ne_of_lt hlt)
    · intro hfills source hfair
      have hlt : (snake g ++ [g.food]).length < cells := by
        have hroom := h.len_lt
        have hnot : g.len + 1 ≠ cells := fun hfull => hfills ⟨hfull, hgrows⟩
        rw [hlength]
        omega
      obtain ⟨c, hc, hnot⟩ := hshown.exists_free_iff.mpr hlt
      obtain ⟨n, hn⟩ := hfair ⟨c, hc⟩
      refine ⟨n + 1, (hends _).mpr ⟨⟨c, hc⟩, ?_, (hfree _).mpr hnot⟩⟩
      exact List.mem_map.mpr ⟨n, List.mem_range.mpr n.lt_succ_self, hn⟩
  · refine ⟨fun _ hfills => hgrows hfills.2, fun _ source _ => ⟨0, ?_⟩⟩
    rcases step_eq h ((List.range 0).map source) with ⟨cell, hnext, rfl, -⟩ | ⟨cell, -, -, -, heq⟩ |
      ⟨-, g', heq, -⟩
    · exact absurd hnext hgrows
    · rw [heq]
      rfl
    · rw [heq]
      rfl

/-- Every state of a session is consistent, and the next step ends exactly if it does not eat the
food on the last free cell. -/
theorem snake_iff (h : Reached g) (hlive : g.dead = false) : Right g ↔ ¬ FillsBoard g := by
  have hsound := h.sound hlive
  rw [← hsound.terminates_iff]
  exact ⟨And.right, fun hends => ⟨hsound.consistent, hends⟩⟩

theorem snake_iff_start :
    Right { startState with food := 0 } ↔ ¬ FillsBoard { startState with food := 0 } :=
  snake_iff (.reset [⟨0, by decide⟩] rfl) rfl

/-- A key turns the snake into every direction but back. -/
theorem Sound.exists_key (h : Sound g) {px py : Int} (hunit : Direction px py)
    (hturn : px ≠ -g.dx ∨ py ≠ -g.dy) :
    ∃ k, pressKey g k = { g with pendDx := px, pendDy := py } := by
  have hdir := h.unit
  unfold Direction at hdir
  rcases hunit with ⟨rfl, rfl | rfl⟩ | ⟨rfl, rfl | rfl⟩
  · exact ⟨.down, if_pos (by omega)⟩
  · exact ⟨.up, if_pos (by omega)⟩
  · exact ⟨.right, if_pos (by omega)⟩
  · exact ⟨.left, if_pos (by omega)⟩

theorem Reached.aim (h : Reached g) (hlive : g.dead = false)
    (hnear : Adjacent (cellAt g.body g.head) g.food) :
    ∃ g', Reached g' ∧ g'.dead = false ∧ snake g' = snake g ∧ g'.food = g.food ∧
      nextCell g' = some g.food := by
  have hsound := h.sound hlive
  obtain ⟨px, py, hunit, hmoved⟩ := hnear.moved
  have hturn : px ≠ -g.dx ∨ py ≠ -g.dy := by
    by_contra hback
    have hneck := hsound.neck
    -- food behind the head would lie on the neck
    refine hsound.food.2 ?_
    rw [hsound.snake_eq]
    have hsame : g.food = cellAt g.body ((g.tail + (g.len - 2)) % cells) := by
      unfold Moved gw at *
      omega
    rw [hsame]
    simp
  obtain ⟨k, hk⟩ := hsound.exists_key hunit hturn
  refine ⟨pressKey g k, h.key hlive k, (pressKey_dead g k).trans hlive, ?_, ?_, ?_⟩
  all_goals rw [hk]
  · rfl
  · exact nextCell_of_moved hmoved hsound.food.1

/-- The snake eats food that it touches, and other food is put into a free cell. -/
theorem Reached.eat (h : Reached g) (hlive : g.dead = false)
    (hnear : Adjacent (cellAt g.body g.head) g.food) {food : Nat} (hfood : food < cells)
    (hfree : food ∉ snake g ++ [g.food]) :
    ∃ g', Reached g' ∧ g'.dead = false ∧ snake g' = snake g ++ [g.food] ∧ g'.food = food := by
  obtain ⟨g', hreached, hlive', hsnake, hsame, hnext⟩ := h.aim hlive hnear
  have hsound := hreached.sound hlive'
  rw [← hsame] at hnext hfree ⊢
  rw [← hsnake] at hfree ⊢
  have hocc : Bitmap.get (grown g' g'.food).occ food = false := by
    rw [Bool.eq_false_iff, ne_eq, (hsound.shown_grown hnext).occupied food hfood]
    exact hfree
  have hstep : Snake.step [⟨food, hfood⟩] g' = some { grown g' g'.food with food := food } := by
    rcases step_eq hsound [⟨food, hfood⟩] with ⟨cell, hcell, rfl, heq⟩ | ⟨cell, hcell, hother, -⟩ |
      ⟨hnot, -⟩
    · rw [heq, placeFood, if_neg (Bool.eq_false_iff.mp hocc)]
    · exact absurd (Option.some.inj (hcell.symm.trans hnext)) hother
    · exact absurd hnext hnot
  exact ⟨_, hreached.step hlive' _ hstep, hlive', (hsound.grown hnext hfood hocc).2, rfl⟩

theorem Reached.along (path : List Nat) (h : Reached g) (hlive : g.dead = false)
    (hshown : (snake g ++ g.food :: path).Nodup ∧ (snake g ++ g.food :: path).IsChain Adjacent)
    (hpath : ∀ cell ∈ path, cell < cells) :
    ∃ g', Reached g' ∧ g'.dead = false ∧ snake g' ++ [g'.food] = snake g ++ g.food :: path := by
  induction path generalizing g with
  | nil => exact ⟨g, h, hlive, rfl⟩
  | cons food path ih =>
      have hsound := h.sound hlive
      obtain ⟨hdistinct, hjoined⟩ := hshown
      have hsplit : snake g ++ g.food :: food :: path = (snake g ++ [g.food]) ++ food :: path := by
        rw [List.append_assoc]
        rfl
      have hnear : Adjacent (cellAt g.body g.head) g.food :=
        (List.isChain_append.mp hjoined).2.2 _ (by rw [hsound.head_mem]; rfl) _ rfl
      have hfree : food ∉ snake g ++ [g.food] := by
        rw [hsplit] at hdistinct
        exact fun hmem => (List.nodup_append.mp hdistinct).2.2 food hmem food
          List.mem_cons_self rfl
      obtain ⟨g', hreached, hlive', hsnake, rfl⟩ :=
        h.eat hlive hnear (hpath food List.mem_cons_self) hfree
      rw [hsplit, ← hsnake] at hdistinct hjoined ⊢
      exact ih hreached hlive' ⟨hdistinct, hjoined⟩ fun cell hcell =>
        hpath cell (List.mem_cons_of_mem _ hcell)

/-- A path through all the cells that begins with the snake of a new session. -/
def tour : List Nat :=
  (List.range 19).map (fun i => 269 + i) ++
  (List.range 224).map (fun i =>
    31 - i / 7 + gw * (if i / 7 % 2 = 0 then 9 + i % 7 else 15 - i % 7)) ++
  (List.range 13).map (fun i => 256 + i) ++
  (List.range 104).map (fun i =>
    (if i / 13 % 2 = 0 then 12 - i % 13 else i % 13) + gw * (7 - i / 13)) ++
  (List.range 152).map (fun i => 13 + i / 8 + gw * (if i / 8 % 2 = 0 then i % 8 else 7 - i % 8))

/-- The place of a cell on it. -/
def place (cell : Nat) : Nat :=
  let x := cell % gw
  let y := cell / gw
  if 9 ≤ y then 19 + (31 - x) * 7 + (if (31 - x) % 2 = 0 then y - 9 else 15 - y)
  else if y = 8 then (if x < 13 then 243 + x else x - 13)
  else if x < 13 then 256 + (7 - y) * 13 + (if (7 - y) % 2 = 0 then 12 - x else x)
  else 360 + (x - 13) * 8 + (if (x - 13) % 2 = 0 then y else 7 - y)

theorem tour_spec : tour.map place = List.range cells ∧ tour.IsChain Adjacent ∧
    (∀ cell ∈ tour, cell < cells) ∧ tour.take 4 = [269, 270, 271, 272] := by
  decide +kernel

/-- A snake that is led along that path fills the board, and the search for more food does not
end. -/
theorem snake_hangs : ¬ ∀ g, Reached g → g.dead = false → Right g := by
  intro hright
  obtain ⟨hplaces, hjoined, hcells, htake⟩ := tour_spec
  have hlength : tour.length = cells := by
    rw [← List.length_map place, hplaces, List.length_range]
  have hdistinct : tour.Nodup := by
    refine List.Nodup.of_map place ?_
    rw [hplaces]
    exact List.nodup_range
  have hreset : resetGame [⟨272, by decide⟩] = some { startState with food := 272 } := rfl
  have hstart : snake { startState with food := 272 } = [269, 270, 271] := snake_start
  have htour : snake { startState with food := 272 } ++ 272 :: tour.drop 4 = tour := by
    have hsplit := List.take_append_drop 4 tour
    rw [htake] at hsplit
    rw [hstart]
    exact hsplit
  obtain ⟨g', hreached, hlive, hall⟩ := (Reached.reset _ hreset).along (tour.drop 4)
    (sound_reset hreset).2 (by rw [htour]; exact ⟨hdistinct, hjoined⟩)
    fun cell hcell => hcells cell (List.mem_of_mem_drop hcell)
  rw [htour] at hall
  have hnear : Adjacent (cellAt g'.body g'.head) g'.food := by
    rw [← hall] at hjoined
    refine (List.isChain_append.mp hjoined).2.2 _ ?_ _ rfl
    rw [(hreached.sound hlive).head_mem]
    rfl
  obtain ⟨g'', hreached', hlive', hsame, hfood, hnext⟩ := hreached.aim hlive hnear
  refine (snake_iff hreached' hlive').mp (hright g'' hreached' hlive') ⟨?_, hfood ▸ hnext⟩
  rw [← hlength, ← hall, List.length_append, ← hsame, length_snake]
  rfl

end Sessions

end Snake
end Games
end JppDos
