import JppDos.Games.Reveal
import JppDos.Lib.Machine

/-!
# The placement of the ships

`placement_phase` in `battleship.c`: every frame shows the footprint of the next ship, whose cursor
is brought back onto the grid by a test that depends on the ship and how it lies.

Main fact:
* `placement_iff`: the footprint is on the grid in every frame exactly if no key leads off it.
-/

namespace JppDos
namespace Games
namespace Battleship

open Machine
open Sdk (Key)

/-- A ship on the grid. -/
structure Ship where
  r : Nat
  c : Nat
  len : Nat
  horiz : Bool
  deriving DecidableEq

/-- Its cells. -/
def Ship.cells (s : Ship) : List (Nat × Nat) := shipCells s.r s.c s.len s.horiz

/-- It lies on the grid. -/
def Ship.Inside (s : Ship) : Prop := ∀ cell ∈ s.cells, cell.1 < gridSize ∧ cell.2 < gridSize

instance (s : Ship) : Decidable s.Inside :=
  inferInstanceAs (Decidable (∀ cell ∈ s.cells, cell.1 < gridSize ∧ cell.2 < gridSize))

/-- The cursor after the tests at the top of the loop of `placement_phase`. -/
def clampShip (curR curC : Nat) (horiz : Bool) (len : Nat) : Ship where
  r :=
    if gridSize < curR + (if horiz then 0 else len) then gridSize - (if horiz then 1 else len)
    else curR
  c :=
    if gridSize < curC + (if horiz then len else 0) then gridSize - (if horiz then len else 1)
    else curC
  len := len
  horiz := horiz

/-- The footprint that a frame of the placement shows. -/
def footprint (p : Player) : Option Ship :=
  match p.phase with
  | .placing curR curC horiz shipIdx => (ships[shipIdx]?).map (clampShip curR curC horiz)
  | _ => none

/-- A key in the placement, with the ship that it places and the grid before. -/
def placementKey (p : Player) (key : Key) : Player × List (Grid OwnCell × Ship) :=
  match p.phase with
  | .placing curR curC horiz shipIdx =>
      (p.placeKey curR curC horiz shipIdx key,
        ((footprint p).filter fun s =>
          key == .ok && canPlace p.own s.r s.c s.len s.horiz).toList.map
          fun s => (p.own, s))
  | _ => (p, [])

/-- The key leads over the edge that the test misses. -/
def Slips (s : Ship) (key : Key) : Prop :=
  s.horiz = true ∧ s.r = gridSize - 1 ∧ key = .down ∨
    s.horiz = false ∧ s.c = gridSize - 1 ∧ key = .right

/-- The condition on a key. -/
def StaysOn (p : Player) (key : Key) : Prop := ∀ s, footprint p = some s → ¬ Slips s key

/-- The grid holds a fleet of ships of these lengths, each in a straight line, and nothing else. -/
def Laid (own : Grid OwnCell) (lens : List Nat) : Prop :=
  ∃ fleet : List Ship, fleet.map Ship.len = lens ∧ (∀ s ∈ fleet, s.Inside) ∧
    fleet.Pairwise (fun s t => s.cells.Disjoint t.cells) ∧
    (∀ r < gridSize, ∀ c < gridSize,
      own.at r c = some (if ∃ s ∈ fleet, (r, c) ∈ s.cells then .ship else .empty)) ∧
    ownShips own = lens.sum

section Cursor

variable {p : Player}

theorem clampShip_horiz (curR curC len : Nat) : clampShip curR curC true len =
    ⟨if 8 < curR then 7 else curR, if 8 < curC + len then 8 - len else curC, len, true⟩ := rfl

theorem clampShip_vert (curR curC len : Nat) : clampShip curR curC false len =
    ⟨if 8 < curR + len then 8 - len else curR, if 8 < curC then 7 else curC, len, false⟩ := rfl

theorem inside_iff (s : Ship) : s.Inside ↔ ∀ i < s.len,
    (if s.horiz then s.r else s.r + i) < 8 ∧ (if s.horiz then s.c + i else s.c) < 8 := by
  unfold Ship.Inside Ship.cells shipCells
  rw [List.forall_mem_map]
  refine forall_congr' fun i => ?_
  rw [List.mem_range]
  cases s.horiz <;> rfl

/-- The test misses the row, or the column, behind the last one. -/
theorem inside_clampShip_iff (curR curC : Nat) (horiz : Bool) {len : Nat} (hpos : 0 < len)
    (hlen : len ≤ 8) : (clampShip curR curC horiz len).Inside ↔
      (horiz = true → curR ≠ 8) ∧ (horiz = false → curC ≠ 8) := by
  rw [inside_iff]
  cases horiz with
  | true =>
      rw [clampShip_horiz]
      simp only [if_true, true_imp_iff, reduceCtorEq, false_imp_iff, and_true]
      constructor
      · intro h
        have hrow := (h 0 hpos).1
        split_ifs at hrow <;> omega
      · intro h i hi
        split_ifs <;> omega
  | false =>
      rw [clampShip_vert]
      simp only [Bool.false_eq_true, if_false, false_imp_iff, true_imp_iff, true_and]
      constructor
      · intro h
        have hcol := (h 0 hpos).2
        split_ifs at hcol <;> omega
      · intro h i hi
        split_ifs <;> omega

theorem len_mem_ships {i len : Nat} (h : ships[i]? = some len) : 2 ≤ len ∧ len ≤ 4 := by
  have hall : ∀ len ∈ ships, 2 ≤ len ∧ len ≤ 4 := by decide
  exact hall len (List.mem_of_getElem? h)

/-- The frame shows a footprint on the grid. -/
def Shown (p : Player) : Prop := ∀ s, footprint p = some s → s.Inside

theorem shown_placing_iff {curR curC i : Nat} {horiz : Bool}
    (h : p.phase = .placing curR curC horiz i) :
    Shown p ↔ (i < ships.length → (horiz = true → curR ≠ 8) ∧ (horiz = false → curC ≠ 8)) := by
  unfold Shown footprint
  rw [h]
  dsimp only
  cases hlen : ships[i]? with
  | none =>
      refine iff_of_true (fun s hs => absurd hs (by simp)) fun hi => ?_
      exact absurd (List.getElem?_eq_none_iff.mp hlen) (Nat.not_le.mpr hi)
  | some len =>
      obtain ⟨hpos, hmax⟩ := len_mem_ships hlen
      have hi : i < ships.length := (List.getElem?_eq_some_iff.mp hlen).1
      rw [← inside_clampShip_iff curR curC horiz (by omega : 0 < len) (by omega), Option.map_some]
      exact ⟨fun hs _ => hs _ rfl, fun hs s heq => Option.some.inj heq ▸ hs hi⟩

/-- A key in the placement, from the cursor that the frame shows. -/
theorem placeKey_eq_clampShip {curR curC i len : Nat} {horiz : Bool} (hlen : ships[i]? = some len)
    (key : Key) : p.placeKey curR curC horiz i key =
      let s := clampShip curR curC horiz len
      match key with
      | .up => p.goTo (.placing (s.r - 1) s.c horiz i)
      | .down => p.goTo (.placing (s.r + 1) s.c horiz i)
      | .left => p.goTo (.placing s.r (s.c - 1) horiz i)
      | .right => p.goTo (.placing s.r (s.c + 1) horiz i)
      | .ok =>
          if canPlace p.own s.r s.c len horiz then
            { p with own := place p.own s.r s.c len horiz,
                     phase := if i + 1 < ships.length then .placing s.r s.c horiz (i + 1)
                              else .committing }
          else p.goTo (.placing s.r s.c horiz i)
      | .okLong => p.goTo (.placing s.r s.c (!horiz) i)
      | _ => p.goTo (.placing s.r s.c horiz i) := by
  rw [Player.placeKey.eq_def, hlen]
  cases key <;> rfl

/-- The cursor of a frame whose footprint is on the grid. -/
theorem clampShip_le {curR curC len : Nat} {horiz : Bool} (hpos : 2 ≤ len) (hlen : len ≤ 8)
    (h : (horiz = true → curR ≠ 8) ∧ (horiz = false → curC ≠ 8)) :
    (clampShip curR curC horiz len).r ≤ 7 ∧ (clampShip curR curC horiz len).c ≤ 7 ∧
      (horiz = true → (clampShip curR curC horiz len).c ≤ 6) ∧
      (horiz = false → (clampShip curR curC horiz len).r ≤ 6) := by
  cases horiz with
  | true =>
      have hrow := h.1 rfl
      rw [clampShip_horiz]
      dsimp only
      refine ⟨?_, ?_, fun _ => ?_, nofun⟩ <;> split_ifs <;> omega
  | false =>
      have hcol := h.2 rfl
      rw [clampShip_vert]
      dsimp only
      refine ⟨?_, ?_, nofun, fun _ => ?_⟩ <;> split_ifs <;> omega

theorem of_footprint_eq_none (h : footprint p = none) (key : Key) : Shown p ∧ StaysOn p key :=
  ⟨fun s hs => absurd (hs.symm.trans h) (Option.some_ne_none s),
    fun s hs => absurd (hs.symm.trans h) (Option.some_ne_none s)⟩

theorem shown_of_ne {r c i : Nat} {horiz : Bool} (h : p.phase = .placing r c horiz i) (hr : r ≠ 8)
    (hc : c ≠ 8) : Shown p :=
  (shown_placing_iff h).mpr fun _ => ⟨fun _ => hr, fun _ => hc⟩

theorem shown_placeKey_iff {curR curC i len : Nat} {horiz : Bool} (hlen : ships[i]? = some len)
    (h : (horiz = true → curR ≠ 8) ∧ (horiz = false → curC ≠ 8)) (key : Key) :
    Shown (p.placeKey curR curC horiz i key) ↔ ¬ Slips (clampShip curR curC horiz len) key := by
  obtain ⟨hpos, hmax⟩ := len_mem_ships hlen
  have hi : i < ships.length := (List.getElem?_eq_some_iff.mp hlen).1
  obtain ⟨hr, hc, hc', hr'⟩ := clampShip_le hpos (by omega : len ≤ 8) h
  have hhoriz : (clampShip curR curC horiz len).horiz = horiz := rfl
  rw [placeKey_eq_clampShip hlen]
  unfold Slips
  rw [hhoriz]
  generalize clampShip curR curC horiz len = s at hr hc hc' hr' ⊢
  dsimp only
  cases key with
  | down =>
      have hphase : (p.goTo (.placing (s.r + 1) s.c horiz i)).phase =
          .placing (s.r + 1) s.c horiz i := rfl
      rw [shown_placing_iff hphase]
      cases horiz with
      | true => simp [hi, gridSize]
      | false => simp [hi]; omega
  | right =>
      have hphase : (p.goTo (.placing s.r (s.c + 1) horiz i)).phase =
          .placing s.r (s.c + 1) horiz i := rfl
      rw [shown_placing_iff hphase]
      cases horiz with
      | true => simp [hi]; omega
      | false => simp [hi, gridSize]
  | up => exact iff_of_true (shown_of_ne rfl (by omega) (by omega)) (by simp)
  | left => exact iff_of_true (shown_of_ne rfl (by omega) (by omega)) (by simp)
  | ok =>
      refine iff_of_true ?_ (by simp)
      split_ifs
      · exact shown_of_ne rfl (by omega) (by omega)
      · exact (of_footprint_eq_none rfl .ok).1
      · exact shown_of_ne rfl (by omega) (by omega)
  | okLong => exact iff_of_true (shown_of_ne rfl (by omega) (by omega)) (by simp)
  | _ => exact iff_of_true (shown_of_ne rfl (by omega) (by omega)) (by simp)

/-- A key from a frame whose footprint is on the grid leads to another, unless it slips. -/
theorem shown_placementKey_iff (h : Shown p) (key : Key) :
    Shown (placementKey p key).1 ↔ StaysOn p key := by
  cases hphase : p.phase with
  | placing curR curC horiz i =>
      have hkey : (placementKey p key).1 = p.placeKey curR curC horiz i key := by
        rw [placementKey, hphase]
      have hfoot : footprint p = (ships[i]?).map (clampShip curR curC horiz) := by
        rw [footprint, hphase]
      rw [hkey]
      cases hlen : ships[i]? with
      | none =>
          rw [hlen, Option.map_none] at hfoot
          rw [Player.placeKey.eq_def, hlen]
          exact iff_of_true (of_footprint_eq_none rfl key).1 (of_footprint_eq_none hfoot key).2
      | some len =>
          have hi : i < ships.length := (List.getElem?_eq_some_iff.mp hlen).1
          rw [hlen, Option.map_some] at hfoot
          rw [shown_placeKey_iff hlen ((shown_placing_iff hphase).mp h hi)]
          exact ⟨fun hs s heq => Option.some.inj (hfoot.symm.trans heq) ▸ hs, fun hs => hs _ hfoot⟩
  | _ =>
      have hkey : (placementKey p key).1 = p := by
        rw [placementKey, hphase]
      have hnone : footprint p = none := by
        rw [footprint, hphase]
      rw [hkey]
      exact iff_of_true h (of_footprint_eq_none hnone key).2

end Cursor

section Fleet

variable {own : Grid OwnCell} {lens : List Nat} {p : Player}

theorem canPlace_iff {s : Ship} : canPlace own s.r s.c s.len s.horiz = true ↔
    s.Inside ∧ ∀ cell ∈ s.cells, own.at cell.1 cell.2 = some .empty := by
  rw [canPlace, List.all_eq_true]
  constructor
  · intro h
    refine ⟨fun cell hcell => ?_, fun cell hcell => ?_⟩
    · have hcell' := h cell hcell
      simp only [Bool.and_eq_true, decide_eq_true_eq] at hcell'
      exact hcell'.1
    · have hcell' := h cell hcell
      simp only [Bool.and_eq_true, beq_iff_eq] at hcell'
      exact hcell'.2
  · rintro ⟨hinside, hempty⟩ cell hcell
    simp only [Bool.and_eq_true, decide_eq_true_eq, beq_iff_eq]
    exact ⟨hinside cell hcell, hempty cell hcell⟩

theorem at_foldl_put {cells : List (Nat × Nat)}
    (hcells : ∀ cell ∈ cells, cell.1 < gridSize ∧ cell.2 < gridSize) {r c : Nat} (hr : r < gridSize)
    (hc : c < gridSize) :
    (cells.foldl (fun own (rr, cc) => own.put rr cc .ship) own).at r c =
      if (r, c) ∈ cells then some .ship else own.at r c := by
  induction cells generalizing own with
  | nil => rfl
  | cons cell cells ih =>
      obtain ⟨hr', hc'⟩ := hcells cell List.mem_cons_self
      rw [List.foldl_cons, ih fun cell' hcell' => hcells cell' (List.mem_cons_of_mem cell hcell')]
      by_cases hmem : (r, c) ∈ cells
      · rw [if_pos hmem, if_pos (List.mem_cons_of_mem cell hmem)]
      · rw [if_neg hmem]
        by_cases hsame : (r, c) = cell
        · rw [if_pos (List.mem_cons.mpr (Or.inl hsame)), ← hsame]
          exact at_put_self own hr hc .ship
        · rw [if_neg fun h => (List.mem_cons.mp h).elim hsame hmem]
          exact at_put_of_ne own hc' hc hsame .ship

theorem Laid.place (h : Laid own lens) (s : Ship)
    (hfits : canPlace own s.r s.c s.len s.horiz = true) :
    Laid (Battleship.place own s.r s.c s.len s.horiz) (lens ++ [s.len]) := by
  obtain ⟨fleet, hlens, hinside, hdisjoint, hcells, hcount⟩ := h
  obtain ⟨hs, hempty⟩ := canPlace_iff.mp hfits
  refine ⟨fleet ++ [s], ?_, ?_, ?_, ?_, ?_⟩
  · rw [List.map_append, hlens, List.map_singleton]
  · rw [List.forall_mem_append, List.forall_mem_singleton]
    exact ⟨hinside, hs⟩
  · refine List.pairwise_append.mpr ⟨hdisjoint, List.pairwise_singleton _ _, fun t ht s' hs' => ?_⟩
    obtain rfl := List.mem_singleton.mp hs'
    intro cell hcell hcell'
    have hship := hcells cell.1 (hs cell hcell').1 cell.2 (hs cell hcell').2
    rw [if_pos ⟨t, ht, hcell⟩, hempty cell hcell'] at hship
    exact absurd hship (by decide)
  · intro r hr c hc
    have hplace : (s.cells.foldl (fun own (rr, cc) => own.put rr cc .ship) own).at r c =
        if (r, c) ∈ s.cells then some .ship else own.at r c := at_foldl_put hs hr hc
    rw [Battleship.place]
    refine hplace.trans ?_
    by_cases hnew : (r, c) ∈ s.cells
    · rw [if_pos hnew, if_pos ⟨s, List.mem_append_right _ (List.mem_singleton_self s), hnew⟩]
    · have hsame : (∃ t ∈ fleet ++ [s], (r, c) ∈ t.cells) ↔ ∃ t ∈ fleet, (r, c) ∈ t.cells := by
        constructor
        · rintro ⟨t, ht, hcell⟩
          rcases List.mem_append.mp ht with hold | hlast
          · exact ⟨t, hold, hcell⟩
          · exact absurd (List.mem_singleton.mp hlast ▸ hcell) hnew
        · rintro ⟨t, ht, hcell⟩
          exact ⟨t, List.mem_append_left _ ht, hcell⟩
      rw [if_neg hnew, hcells r hr c hc]
      simp only [hsame]
  · rw [ownShips_place hfits, hcount, List.sum_append, List.sum_singleton]

/-- The fleet so far. -/
def Placing (p : Player) : Prop :=
  (∃ r c horiz i, p.phase = .placing r c horiz i ∧ i < ships.length ∧ Laid p.own (ships.take i)) ∨
    p.phase = .committing ∧ Laid p.own ships

theorem placing_start : Placing Player.start := by
  refine Or.inl ⟨0, 0, true, 0, rfl, by decide, [], rfl, nofun, List.Pairwise.nil, ?_, by decide⟩
  intro r hr c hc
  have hlt : r * gridSize + c < gridSize * gridSize := by
    unfold gridSize at *
    omega
  rw [Grid.at, Player.start, Vector.getElem?_replicate, if_pos hlt]
  rfl

/-- A ship is placed on free cells only, and what is laid is the fleet so far. -/
theorem Placing.key (h : Placing p) (key : Key) :
    Placing (placementKey p key).1 ∧ ∀ e ∈ (placementKey p key).2, e.1 = p.own ∧ e.2.Inside ∧
      ∀ cell ∈ e.2.cells, e.1.at cell.1 cell.2 = some .empty := by
  constructor
  · rcases h with ⟨r, c, horiz, i, hphase, hi, hlaid⟩ | ⟨hphase, hlaid⟩
    · have hkey : (placementKey p key).1 = p.placeKey r c horiz i key := by
        rw [placementKey, hphase]
      rw [hkey]
      rcases placeKey_cases p r c horiz key hi with ⟨r', c', b, hgoes⟩ | ⟨r', c', b, hfits, hgoes⟩
      · rw [hgoes]
        exact Or.inl ⟨r', c', b, i, rfl, hi, hlaid⟩
      · have hnext : Laid (place p.own r' c' ships[i] b) (ships.take i ++ [ships[i]]) :=
          hlaid.place ⟨r', c', ships[i], b⟩ hfits
        rw [← List.take_succ_eq_append_getElem hi] at hnext
        rw [hgoes]
        by_cases hmore : i + 1 < ships.length
        · exact Or.inl ⟨r', c', b, i + 1, if_pos hmore, hmore, hnext⟩
        · rw [List.take_of_length_le (Nat.not_lt.mp hmore)] at hnext
          exact Or.inr ⟨if_neg hmore, hnext⟩
    · have hkey : (placementKey p key).1 = p := by
        rw [placementKey, hphase]
      rw [hkey]
      exact Or.inr ⟨hphase, hlaid⟩
  · intro e he
    unfold placementKey at he
    split at he
    · obtain ⟨s, hs, rfl⟩ := List.mem_map.mp he
      rw [Option.mem_toList, Option.filter_eq_some_iff] at hs
      obtain ⟨-, hplaces⟩ := hs
      rw [Bool.and_eq_true] at hplaces
      exact ⟨rfl, canPlace_iff.mp hplaces.2⟩
    · exact absurd he List.not_mem_nil

end Fleet

/-- The footprint lies on the grid in every frame, ships are placed on free cells only, and a
placement that has ended has laid the whole fleet. -/
structure WellPlaced (keys : List Key) : Prop where
  frames : Throughout placementKey Shown Player.start keys
  free : ∀ e ∈ outputs placementKey Player.start keys,
    e.2.Inside ∧ ∀ cell ∈ e.2.cells, e.1.at cell.1 cell.2 = some .empty
  fleet : (run placementKey Player.start keys).phase = .committing →
    Laid (run placementKey Player.start keys).own ships ∧
      ownShips (run placementKey Player.start keys).own = totalShipCells

/-- The ships are placed well exactly if no key slips over the edge that the tests of the cursor
miss. -/
theorem placement_iff (keys : List Key) :
    WellPlaced keys ↔ Along placementKey StaysOn Player.start keys := by
  have hstart : Shown Player.start := (shown_placing_iff rfl).mpr fun _ => by decide
  have hkeep : ∀ p key, Shown p → StaysOn p key → Shown (placementKey p key).1 :=
    fun p key h => (shown_placementKey_iff h key).mpr
  have hbreak : ∀ p key, Shown p → Shown (placementKey p key).1 → StaysOn p key :=
    fun p key h => (shown_placementKey_iff h key).mp
  have hframes : Throughout placementKey Shown Player.start keys ↔
      Along placementKey StaysOn Player.start keys :=
    along_iff_of_invariant (fun _ h => h) hkeep hbreak hstart
  rw [← hframes]
  refine ⟨WellPlaced.frames, fun h => ⟨h, ?_, fun hphase => ?_⟩⟩
  · rw [forall_mem_outputs]
    exact (along_true _ keys).of_invariant
      (fun p key h _ => ⟨(h.key key).1, fun e he => ((h.key key).2 e he).2⟩) placing_start
  · have hlast := run_invariant (fun p key (h : Placing p) => (h.key key).1) keys placing_start
    rcases hlast with ⟨r, c, horiz, i, hplacing, -⟩ | ⟨-, hlaid⟩
    · rw [hplacing] at hphase
      exact absurd hphase (by simp)
    · obtain ⟨fleet, -, -, -, -, hcount⟩ := id hlaid
      exact ⟨hlaid, hcount⟩

/-- DOWN eight times from the first frame leads the first ship below the grid. -/
theorem not_wellPlaced : ¬ ∀ keys : List Key, WellPlaced keys := by
  intro h
  have hframe := (h (List.replicate 8 .down)).frames 8
  have hfoot : footprint (run placementKey Player.start (List.replicate 8 .down)) =
      some ⟨8, 0, 4, true⟩ := by decide
  exact absurd (hframe _ hfoot) (by decide)

end Battleship
end Games
end JppDos
