import JppDos.Games.Battleship
import Mathlib.Algebra.BigOperators.Group.List.Basic
import Mathlib.Data.List.Nodup

/-!
# Commit and reveal

What the commitments at the beginning of a match and the reveals at its end are worth to a player
who keeps to the rules, whatever the peer sends: `verify_reveal`, and how a match is booked.
-/

namespace JppDos
namespace Games
namespace Battleship

open Machine
open Sdk (Key)

/-- The ships of a revealed layout. -/
def shipCount (board : Vector UInt8 (gridSize * gridSize)) : Nat := board.toList.countP (· ≠ 0)

/-- A cell of a revealed layout is a ship. -/
def IsShip (board : Grid UInt8) (r c : Nat) : Prop := ∃ byte, board.at r c = some byte ∧ byte ≠ 0

instance (board : Grid UInt8) (r c : Nat) : Decidable (IsShip board r c) :=
  match h : board.at r c with
  | none => isFalse fun ⟨_, hat, _⟩ => by rw [h] at hat; cases hat
  | some byte =>
      if hbyte : byte ≠ 0 then isTrue ⟨byte, h, hbyte⟩
      else isFalse fun ⟨byte', hat, hne⟩ => by
        rw [h] at hat
        exact hbyte (Option.some.inj hat ▸ hne)

section Reveals

variable (sha512 : List UInt8 → Vector UInt8 64)

/-- The layout and the nonce open a commitment. -/
def Opens (commit : Vector UInt8 64) (board : Vector UInt8 (gridSize * gridSize))
    (nonce : Vector UInt8 16) : Prop :=
  sha512 (board.toList ++ nonce.toList) = commit

/-- There is a ship wherever the player has recorded a hit. -/
def HitsAreShips (p : Player) (board : Vector UInt8 (gridSize * gridSize)) : Prop :=
  ∀ r < gridSize, ∀ c < gridSize, p.tgt.at r c = some .hit → IsShip board r c

instance (commit : Vector UInt8 64) (board : Vector UInt8 (gridSize * gridSize))
    (nonce : Vector UInt8 16) : Decidable (Opens sha512 commit board nonce) :=
  inferInstanceAs (Decidable (_ = _))

instance (p : Player) (board : Vector UInt8 (gridSize * gridSize)) :
    Decidable (HitsAreShips p board) :=
  inferInstanceAs (Decidable (∀ r < gridSize, _))

/-- `verify_reveal`. -/
def verifyReveal (p : Player) (board : Vector UInt8 (gridSize * gridSize))
    (nonce : Vector UInt8 16) : Bool :=
  if ¬ Opens sha512 p.peerCommit board nonce then false
  else if ¬ HitsAreShips p board then false
  else shipCount board = totalShipCells

/-- What `jpp_module_entry` says at the end of a battle. -/
inductive Ending where
  | sessionEnded
  | connectionLost
  | abandoned
  | cheatDetected
  | won
  | lost
  deriving Repr, DecidableEq

/-- The end of `jpp_module_entry`. -/
def Player.ending (p : Player) : Ending :=
  match p.endReason with
  | .anticheat => .sessionEnded
  | .timeout => .connectionLost
  | .quit => .abandoned
  | .none =>
      if p.peerRevealed && !verifyReveal sha512 p p.peerBoard p.peerNonce then .cheatDetected
      else if p.iWon then .won
      else .lost

/-- A reveal that is accepted opens the commitment, has a ship wherever a hit is recorded, and has
as many ships as there are. -/
theorem verifyReveal_eq_true (p : Player) (board : Vector UInt8 (gridSize * gridSize))
    (nonce : Vector UInt8 16) :
    verifyReveal sha512 p board nonce = true ↔
      Opens sha512 p.peerCommit board nonce ∧ HitsAreShips p board ∧
        shipCount board = totalShipCells := by
  unfold verifyReveal
  by_cases hopens : Opens sha512 p.peerCommit board nonce
  · by_cases hhits : HitsAreShips p board
    · rw [if_neg (not_not.mpr hopens), if_neg (not_not.mpr hhits), decide_eq_true_iff]
      exact ⟨fun h => ⟨hopens, hhits, h⟩, fun h => h.2.2⟩
    · rw [if_neg (not_not.mpr hopens), if_pos hhits]
      exact iff_of_false (by decide) (fun h => hhits h.2.1)
  · rw [if_pos hopens]
    exact iff_of_false (by decide) (fun h => hopens h.1)

/-- What comes to a player: a key, the random bytes of its nonce, the end of a send, and what
`recv_msg` brings. -/
inductive PlayerAct where
  | key (key : Key)
  | random (nonce : Vector UInt8 16)
  | sendReturns
  | received (rx : Option (List UInt8))

/-- A player goes on. -/
def playerStep (side : Side) (p : Player) : PlayerAct → Player × List Event
  | .key key =>
      match p.phase with
      | .placing curR curC horiz shipIdx => (p.placeKey curR curC horiz shipIdx key, [])
      | .turn => p.turnKey side key
      | .pollQuit => (p.quitKey key, [])
      | _ => (p, [])
  | .random nonce => (if p.phase = .committing then p.makeCommit sha512 nonce else p, [])
  | .sendReturns =>
      match p.phase with
      | .send _ next => (p.goTo next, [])
      | _ => (p, [])
  | .received rx =>
      match p.phase with
      | .recv waiting retry _ => p.received side waiting retry rx
      | _ => (p, [])

end Reveals

/-- Nothing has been marked. -/
def NoMark (events : List Event) : Prop :=
  ∀ shooter seq r c mark, .marked shooter seq r c mark ∉ events

/-- The targeting grid is the record of the answers, and a shot is at a cell without one. -/
structure Marked (side : Side) (p : Player) (events : List Event) : Prop where
  inside : p.curR < gridSize ∧ p.curC < gridSize
  aimed : p.phase.outstanding = true → p.tgt.at p.curR p.curC = some .unknown
  answered : ∀ shooter seq r c mark, .marked shooter seq r c mark ∈ events →
    r < gridSize ∧ c < gridSize ∧ mark ≠ .unknown ∧ p.tgt.at r c = some mark
  recorded : ∀ r c mark, r < gridSize → c < gridSize → mark ≠ .unknown →
    p.tgt.at r c = some mark → ∃ seq, .marked side seq r c mark ∈ events

theorem Marked.start (side : Side) : Marked side .start [] where
  inside := ⟨Nat.zero_lt_succ 7, Nat.zero_lt_succ 7⟩
  aimed := fun houtstanding => (by cases houtstanding)
  answered := fun _ _ _ _ _ hmem => absurd hmem List.not_mem_nil
  recorded := fun r c mark hr hc hmark htgt => by
    have hlt : r * gridSize + c < gridSize * gridSize := by
      unfold gridSize at *
      omega
    rw [Grid.at, Player.start, Vector.getElem?_eq_getElem hlt, Vector.getElem_replicate] at htgt
    exact absurd (Option.some.inj htgt).symm hmark

section Marks

variable {side : Side} {p p' : Player} {events new : List Event}

theorem Marked.next (h : Marked side p events) (htgt : p'.tgt = p.tgt)
    (hinside : p'.curR < gridSize ∧ p'.curC < gridSize)
    (haimed : p'.phase.outstanding = true → p.tgt.at p'.curR p'.curC = some .unknown)
    (hnew : NoMark new) : Marked side p' (events ++ new) where
  inside := hinside
  aimed := fun houtstanding => htgt ▸ haimed houtstanding
  answered := fun shooter seq r c mark hmem => by
    rcases List.mem_append.mp hmem with hmem | hmem
    · exact htgt ▸ h.answered shooter seq r c mark hmem
    · exact absurd hmem (hnew shooter seq r c mark)
  recorded := fun r c mark hr hc hmark hat => by
    obtain ⟨seq, hmem⟩ := h.recorded r c mark hr hc hmark (htgt ▸ hat)
    exact ⟨seq, List.mem_append_left new hmem⟩

/-- A step by which the player stays where it is and marks nothing. -/
theorem Marked.stay (h : Marked side p events) (htgt : p'.tgt = p.tgt) (hcurR : p'.curR = p.curR)
    (hcurC : p'.curC = p.curC)
    (hphase : p'.phase.outstanding = true → p.phase.outstanding = true) :
    Marked side p' (events ++ []) :=
  h.next htgt (hcurR ▸ hcurC ▸ h.inside)
    (fun houtstanding => hcurR ▸ hcurC ▸ h.aimed (hphase houtstanding))
    (fun _ _ _ _ _ => List.not_mem_nil)

theorem Marked.mark (h : Marked side p events) (houtstanding : p.phase.outstanding = true)
    {seq : UInt16} {mark : TgtCell} (hmark : mark ≠ .unknown)
    (htgt : p'.tgt = p.tgt.put p.curR p.curC mark) (hcurR : p'.curR = p.curR)
    (hcurC : p'.curC = p.curC) (hphase : p'.phase.outstanding = false) :
    Marked side p' (events ++ [.marked side seq p.curR p.curC mark]) where
  inside := hcurR ▸ hcurC ▸ h.inside
  aimed := fun hnext => by rw [hphase] at hnext; cases hnext
  answered := fun shooter seq' r c mark' hmem => by
    rcases List.mem_append.mp hmem with hmem | hmem
    · obtain ⟨hr, hc, hne, hat⟩ := h.answered shooter seq' r c mark' hmem
      refine ⟨hr, hc, hne, ?_⟩
      -- the cell that is marked now had no mark
      have hother : (r, c) ≠ (p.curR, p.curC) := by
        intro heq
        obtain ⟨rfl, rfl⟩ := Prod.mk.inj heq
        rw [h.aimed houtstanding] at hat
        exact hne (Option.some.inj hat).symm
      rw [htgt, at_put_of_ne _ h.inside.2 hc hother, hat]
    · obtain ⟨-, -, rfl, rfl, rfl⟩ := Event.marked.inj (List.mem_singleton.mp hmem)
      exact ⟨h.inside.1, h.inside.2, hmark, by rw [htgt, at_put_self _ h.inside.1 h.inside.2]⟩
  recorded := fun r c mark' hr hc hne hat => by
    by_cases hhere : (r, c) = (p.curR, p.curC)
    · obtain ⟨rfl, rfl⟩ := Prod.mk.inj hhere
      rw [htgt, at_put_self _ hr hc] at hat
      obtain rfl := Option.some.inj hat
      exact ⟨seq, List.mem_append_right _ (List.mem_singleton.mpr rfl)⟩
    · rw [htgt, at_put_of_ne _ h.inside.2 hc hhere] at hat
      obtain ⟨seq', hmem⟩ := h.recorded r c mark' hr hc hne hat
      exact ⟨seq', List.mem_append_left _ hmem⟩

theorem Marked.turnKey (h : Marked side p events) (hphase : p.phase = .turn) (key : Key) :
    Marked side (p.turnKey side key).1 (events ++ (p.turnKey side key).2) := by
  have hquiet : p.phase.outstanding = false := by rw [hphase]; rfl
  have hmove : ∀ {q : Player}, q.tgt = p.tgt → q.phase = p.phase →
      q.curR < gridSize ∧ q.curC < gridSize → Marked side q (events ++ []) := fun htgt hq hinside =>
    h.next htgt hinside (fun houtstanding => by rw [hq, hquiet] at houtstanding; cases houtstanding)
      (fun _ _ _ _ _ => List.not_mem_nil)
  obtain ⟨hr, hc⟩ := h.inside
  cases key with
  | up => exact hmove rfl rfl ⟨Nat.lt_of_le_of_lt (Nat.sub_le _ _) hr, hc⟩
  | left => exact hmove rfl rfl ⟨hr, Nat.lt_of_le_of_lt (Nat.sub_le _ _) hc⟩
  | down =>
      have hdown : (if p.curR < gridSize - 1 then p.curR + 1 else p.curR) < gridSize := by
        split <;> omega
      exact hmove rfl rfl ⟨hdown, hc⟩
  | right =>
      have hright : (if p.curC < gridSize - 1 then p.curC + 1 else p.curC) < gridSize := by
        split <;> omega
      exact hmove rfl rfl ⟨hr, hright⟩
  | ok =>
      rw [Player.turnKey]
      split
      next hunknown =>
        refine h.next rfl ⟨hr, hc⟩ (fun _ => hunknown) (fun shooter seq r c mark hmem => ?_)
        cases List.mem_singleton.mp hmem
      next => exact hmove rfl rfl ⟨hr, hc⟩
  | okLong => exact h.stay rfl rfl rfl (fun houtstanding => (by cases houtstanding))
  | none | okHold | okDouble => exact hmove rfl rfl ⟨hr, hc⟩

theorem Marked.gotCommit (h : Marked side p events) (retry : Nat) (rx : List UInt8) :
    Marked side (p.gotCommit side retry rx) (events ++ []) := by
  rw [Player.gotCommit]
  split
  · refine h.next rfl ⟨Nat.zero_lt_succ 7, Nat.zero_lt_succ 7⟩ (fun houtstanding => ?_)
      (fun _ _ _ _ _ => List.not_mem_nil)
    cases side <;> cases houtstanding
  · split
    · exact h.stay rfl rfl rfl (fun houtstanding => (by cases houtstanding))
    · exact h.stay rfl rfl rfl (fun houtstanding => (by cases houtstanding))

theorem outstanding_loopTop (p : Player) : p.loopTop.phase.outstanding = false := by
  rw [Player.loopTop]
  cases p.myTurn <;> rfl

theorem Marked.gotResult (h : Marked side p events) {retry waited : Nat}
    (hphase : p.phase = .recv .result retry waited) (rx : List UInt8) :
    Marked side (p.gotResult side retry rx).1 (events ++ (p.gotResult side retry rx).2) := by
  have houtstanding : p.phase.outstanding = true := by rw [hphase]; rfl
  have hmark : (if rx.getD 4 0 = outMiss then TgtCell.miss else .hit) ≠ .unknown := by
    split <;> decide
  rw [Player.gotResult]
  split
  · dsimp only
    split
    · exact h.mark houtstanding hmark rfl rfl rfl rfl
    · exact h.mark houtstanding hmark rfl rfl rfl (outstanding_loopTop _)
  · split
    · exact h.stay rfl rfl rfl (fun _ => houtstanding)
    · exact h.stay rfl rfl rfl (fun hnext => (by cases hnext))

theorem tgt_answerShot (p : Player) (r c : Nat) : (p.answerShot r c).1.tgt = p.tgt ∧
    (p.answerShot r c).1.curR = p.curR ∧ (p.answerShot r c).1.curC = p.curC := by
  unfold Player.answerShot
  split
  · exact ⟨rfl, rfl, rfl⟩
  · split <;> exact ⟨rfl, rfl, rfl⟩

theorem Marked.gotShot (h : Marked side p events) (rx : List UInt8) :
    Marked side (p.gotShot side rx).1 (events ++ (p.gotShot side rx).2) := by
  have hstay : ∀ {q : Player}, q.tgt = p.tgt → q.curR = p.curR → q.curC = p.curC →
      q.phase.outstanding = false → Marked side q (events ++ []) :=
    fun htgt hcurR hcurC hquiet => h.stay htgt hcurR hcurC
      (fun houtstanding => by rw [hquiet] at houtstanding; cases houtstanding)
  rw [Player.gotShot]
  split
  · exact hstay rfl rfl rfl rfl
  · split
    · exact hstay rfl rfl rfl (outstanding_loopTop _)
    · dsimp only
      generalize hstruck : p.countStrike side _ _ = q
      have hq : q.tgt = p.tgt ∧ q.curR = p.curR ∧ q.curC = p.curC := by
        rw [← hstruck, Player.countStrike]
        split <;> exact ⟨rfl, rfl, rfl⟩
      split
      · exact hstay hq.1 hq.2.1 hq.2.2 rfl
      · split
        · exact hstay hq.1 hq.2.1 hq.2.2 (outstanding_loopTop _)
        · obtain ⟨htgt, hcurR, hcurC⟩ :=
            tgt_answerShot q (rx.getD 2 0).toNat (rx.getD 3 0).toNat
          have hanswer : ∀ {q' : Player} {e : Event}, q'.tgt = q.tgt → q'.curR = q.curR →
              q'.curC = q.curC → q'.phase.outstanding = false → NoMark [e] →
              Marked side q' (events ++ [e]) := fun htgt' hcurR' hcurC' hquiet hnew =>
            h.next (htgt'.trans hq.1)
              ⟨(hcurR'.trans hq.2.1) ▸ h.inside.1, (hcurC'.trans hq.2.2) ▸ h.inside.2⟩
              (fun houtstanding => by rw [hquiet] at houtstanding; cases houtstanding) hnew
          have hnone : ∀ outcome, NoMark [.answered side (rx.getD 1 0) (rx.getD 2 0).toNat
              (rx.getD 3 0).toNat outcome] := fun outcome shooter seq r c mark hmem => by
            cases List.mem_singleton.mp hmem
          split
          · exact hanswer htgt hcurR hcurC rfl (hnone _)
          · exact hanswer htgt hcurR hcurC rfl (hnone _)

theorem Marked.gotReveal (h : Marked side p events) (retry : Nat) (rx : List UInt8) :
    Marked side (p.gotReveal retry rx) (events ++ []) := by
  rw [Player.gotReveal]
  split
  · exact h.stay rfl rfl rfl (fun houtstanding => (by cases houtstanding))
  · split <;> exact h.stay rfl rfl rfl (fun houtstanding => (by cases houtstanding))

/-- Whatever comes to a player, its targeting grid is the record of the answers. -/
theorem Marked.step (h : Marked side p events) (sha512 : List UInt8 → Vector UInt8 64)
    (a : PlayerAct) :
    Marked side (playerStep sha512 side p a).1 (events ++ (playerStep sha512 side p a).2) := by
  have hsame : Marked side p (events ++ []) := h.stay rfl rfl rfl id
  cases a with
  | key key =>
      rw [playerStep]
      split
      next curR curC horiz shipIdx hphase =>
        obtain ⟨own, next, hkey, hnext⟩ := placeKey_eq p curR curC horiz shipIdx key
        rw [hkey]
        refine h.stay rfl rfl rfl (fun houtstanding => ?_)
        rcases hnext with ⟨r, c, b, i, rfl⟩ | rfl <;> cases houtstanding
      next hphase => exact h.turnKey hphase key
      next hphase =>
        refine h.stay ?_ ?_ ?_ (fun houtstanding => ?_)
        · cases key <;> rfl
        · cases key <;> rfl
        · cases key <;> rfl
        · cases key <;> first
            | cases houtstanding
            | (change p.loopTop.phase.outstanding = true at houtstanding
               rw [outstanding_loopTop] at houtstanding
               cases houtstanding)
      next => exact hsame
  | random nonce =>
      rw [playerStep]
      dsimp only
      split
      · exact h.stay rfl rfl rfl (fun houtstanding => (by cases houtstanding))
      · exact hsame
  | sendReturns =>
      rw [playerStep]
      split
      next packet next hphase =>
        exact h.stay rfl rfl rfl (fun houtstanding => by rw [hphase]; exact houtstanding)
      next => exact hsame
  | received rx =>
      rw [playerStep]
      split
      next waiting retry waited hphase =>
        cases waiting with
        | commit => exact h.gotCommit retry (rx.getD [])
        | result => exact h.gotResult hphase (rx.getD [])
        | shot =>
            cases rx with
            | none => exact h.stay rfl rfl rfl (fun houtstanding => (by cases houtstanding))
            | some rx => exact h.gotShot rx
        | reveal => exact h.gotReveal retry (rx.getD [])
      next => exact hsame

end Marks

/-- A player's targeting grid is the record of the answers, after whatever has come to it. -/
theorem marked_run (sha512 : List UInt8 → Vector UInt8 64) (side : Side) (acts : List PlayerAct) :
    Marked side (run (playerStep sha512 side) .start acts)
      (outputs (playerStep sha512 side) .start acts) := by
  have hinv : Marked side (run (playerStep sha512 side) .start acts)
      ([] ++ outputs (playerStep sha512 side) .start acts) :=
    Along.monitor (I := Marked side) (fun p a events h _ => h.step sha512 a)
      (along_true Player.start acts) (.start side)
  rwa [List.nil_append] at hinv

/-- The ships of a layout that is being placed. -/
def ownShips (own : Grid OwnCell) : Nat := own.toList.countP fun cell => packCell cell ≠ 0

theorem shipCount_packShipBoard (own : Grid OwnCell) :
    shipCount (packShipBoard own) = ownShips own := by
  rw [shipCount, packShipBoard, Vector.toList_map, List.countP_map]
  rfl

theorem ownShips_put {own : Grid OwnCell} {r c : Nat} (hr : r < gridSize) (hc : c < gridSize)
    (hempty : own.at r c = some .empty) : ownShips (own.put r c .ship) = ownShips own + 1 := by
  have hlt : r * gridSize + c < gridSize * gridSize := by
    unfold gridSize at *
    omega
  have hlen : r * gridSize + c < own.toList.length := by
    rw [Vector.length_toList]
    exact hlt
  have hcell : own.toList[r * gridSize + c] = .empty := by
    rw [Grid.at, Vector.getElem?_eq_getElem hlt] at hempty
    rw [Vector.getElem_toList]
    exact Option.some.inj hempty
  rw [ownShips, Grid.put, Vector.toList_setIfInBounds, List.countP_set hlen, hcell]
  rfl

/-- The cells of a ship, on cells that are empty and different from each other. -/
theorem ownShips_foldl (cells : List (Nat × Nat)) (own : Grid OwnCell) (hnodup : cells.Nodup)
    (hcells : ∀ cell ∈ cells, cell.1 < gridSize ∧ cell.2 < gridSize ∧
      own.at cell.1 cell.2 = some .empty) :
    ownShips (cells.foldl (fun own (rr, cc) => own.put rr cc .ship) own) =
      ownShips own + cells.length := by
  induction cells generalizing own with
  | nil => rfl
  | cons cell cells ih =>
      obtain ⟨r, c⟩ := cell
      obtain ⟨hr, hc, hempty⟩ := hcells (r, c) List.mem_cons_self
      obtain ⟨hnew, hnodup⟩ := List.nodup_cons.mp hnodup
      rw [List.foldl_cons, ih _ hnodup, ownShips_put hr hc hempty, List.length_cons]
      · omega
      · intro cell hcell
        obtain ⟨hr', hc', hempty'⟩ := hcells cell (List.mem_cons_of_mem _ hcell)
        refine ⟨hr', hc', ?_⟩
        rw [at_put_of_ne own hc hc' (fun heq => hnew (heq ▸ hcell)), hempty']

theorem nodup_shipCells (r c len : Nat) (horiz : Bool) : (shipCells r c len horiz).Nodup := by
  refine List.Nodup.map ?_ List.nodup_range
  intro i j heq
  cases horiz <;> simpa using heq

/-- A ship that fits takes as many cells as it is long. -/
theorem ownShips_place {own : Grid OwnCell} {r c len : Nat} {horiz : Bool}
    (h : canPlace own r c len horiz = true) :
    ownShips (place own r c len horiz) = ownShips own + len := by
  rw [place, ownShips_foldl _ own (nodup_shipCells r c len horiz), shipCells, List.length_map,
    List.length_range]
  intro cell hcell
  have hcell := List.all_eq_true.mp h cell hcell
  simp only [Bool.and_eq_true, decide_eq_true_eq, beq_iff_eq] at hcell
  exact ⟨hcell.1.1, hcell.1.2, hcell.2⟩

/-- The player has committed to its layout. -/
def Phase.committed : Phase → Bool
  | .placing _ _ _ _ | .committing => false
  | .send _ next | .sent next => next.committed
  | _ => true

/-- Hits that have been answered are ships of the layout. -/
def HitsAnswered (own : Grid OwnCell) (events : List Event) : Prop :=
  ∀ defender seq r c outcome, .answered defender seq r c outcome ∈ events → outcome ≠ outMiss →
    IsShip (packShipBoard own) r c

/-- The layout: it is being placed, or it has all ships and is what the player has committed to. -/
structure Fleet (sha512 : List UInt8 → Vector UInt8 64) (p : Player) (events : List Event) :
    Prop where
  placing : ∀ r c b i, p.phase = .placing r c b i →
    i < ships.length ∧ ownShips p.own = (ships.take i).sum
  ready : p.phase = .committing → ownShips p.own = totalShipCells
  committed : p.phase.committed = true →
    ownShips p.own = totalShipCells ∧ Opens sha512 p.commit (packShipBoard p.own) p.nonce
  before : p.phase.committed = false →
    (∃ r c b i, p.phase = .placing r c b i) ∨ p.phase = .committing
  silent : p.phase.committed = false →
    ∀ defender seq r c outcome, .answered defender seq r c outcome ∉ events
  answers : HitsAnswered p.own events

theorem Fleet.start (sha512 : List UInt8 → Vector UInt8 64) : Fleet sha512 .start [] where
  placing := fun r c b i hphase => by
    obtain ⟨-, -, -, rfl⟩ := Phase.placing.inj hphase
    exact ⟨by decide, by decide⟩
  ready := fun hphase => (by cases hphase)
  committed := fun hphase => (by cases hphase)
  before := fun _ => Or.inl ⟨0, 0, true, 0, rfl⟩
  silent := fun _ _ _ _ _ _ => List.not_mem_nil
  answers := fun _ _ _ _ _ hmem => absurd hmem List.not_mem_nil

section Fleets

variable {sha512 : List UInt8 → Vector UInt8 64} {side : Side} {p p' : Player}
  {events new : List Event}

/-- A step after the commitment that leaves the layout as it is. -/
theorem Fleet.keep (h : Fleet sha512 p events) (hphase : p.phase.committed = true)
    (hphase' : p'.phase.committed = true) (hown : packShipBoard p'.own = packShipBoard p.own)
    (hnonce : p'.nonce = p.nonce) (hcommit : p'.commit = p.commit)
    (hnew : HitsAnswered p.own new) : Fleet sha512 p' (events ++ new) where
  placing := fun r c b i heq => by rw [heq] at hphase'; cases hphase'
  ready := fun heq => by rw [heq] at hphase'; cases hphase'
  committed := fun _ => by
    obtain ⟨hships, hopens⟩ := h.committed hphase
    rw [← shipCount_packShipBoard, hown, hnonce, hcommit, shipCount_packShipBoard]
    exact ⟨hships, hopens⟩
  before := fun hnot => by rw [hphase'] at hnot; cases hnot
  silent := fun hnot => by rw [hphase'] at hnot; cases hnot
  answers := fun defender seq r c outcome hmem hhit => by
    rw [hown]
    rcases List.mem_append.mp hmem with hmem | hmem
    · exact h.answers defender seq r c outcome hmem hhit
    · exact hnew defender seq r c outcome hmem hhit

theorem Fleet.prepare (h : Fleet sha512 p events) (hphase : p.phase.committed = false)
    (hplacing : ∀ r c b i, p'.phase = .placing r c b i →
      i < ships.length ∧ ownShips p'.own = (ships.take i).sum)
    (hready : p'.phase = .committing → ownShips p'.own = totalShipCells)
    (hcommitted : p'.phase.committed = true →
      ownShips p'.own = totalShipCells ∧ Opens sha512 p'.commit (packShipBoard p'.own) p'.nonce)
    (hbefore : p'.phase.committed = false →
      (∃ r c b i, p'.phase = .placing r c b i) ∨ p'.phase = .committing) :
    Fleet sha512 p' (events ++ []) where
  placing := hplacing
  ready := hready
  committed := hcommitted
  before := hbefore
  silent := fun _ defender seq r c outcome => by
    rw [List.append_nil]
    exact h.silent hphase defender seq r c outcome
  answers := fun defender seq r c outcome hmem _ => by
    rw [List.append_nil] at hmem
    exact absurd hmem (h.silent hphase defender seq r c outcome)

theorem not_hitsAnswered_nil (own : Grid OwnCell) : HitsAnswered own [] :=
  fun _ _ _ _ _ hmem => absurd hmem List.not_mem_nil

theorem Fleet.placeKey (h : Fleet sha512 p events) {curR curC : Nat} {horiz : Bool} {shipIdx : Nat}
    (hphase : p.phase = .placing curR curC horiz shipIdx) (key : Key) :
    Fleet sha512 (p.placeKey curR curC horiz shipIdx key) (events ++ []) := by
  have hbefore : p.phase.committed = false := by rw [hphase]; rfl
  obtain ⟨hidx, hships⟩ := h.placing curR curC horiz shipIdx hphase
  rcases placeKey_cases p curR curC horiz key hidx with ⟨r, c, b, hkey⟩ | ⟨r, c, b, hfits, hkey⟩
  · rw [hkey]
    refine h.prepare hbefore (fun r' c' b' i heq => ?_) (fun heq => (by cases heq))
      (fun heq => (by cases heq)) (fun _ => Or.inl ⟨r, c, b, shipIdx, rfl⟩)
    obtain ⟨-, -, -, rfl⟩ := Phase.placing.inj heq
    exact ⟨hidx, hships⟩
  · have hmore : ownShips (place p.own r c ships[shipIdx] b) = (ships.take (shipIdx + 1)).sum := by
      rw [ownShips_place hfits, hships, List.sum_take_succ _ _ hidx]
    rw [hkey]
    refine h.prepare hbefore (fun r' c' b' i heq => ?_) (fun heq => ?_) (fun heq => ?_)
      (fun _ => ?_)
    · dsimp only at heq
      split at heq
      next hnext =>
        obtain ⟨-, -, -, rfl⟩ := Phase.placing.inj heq
        exact ⟨hnext, hmore⟩
      next => cases heq
    · dsimp only at heq ⊢
      split at heq
      next => cases heq
      next hlast =>
        rw [hmore, List.take_of_length_le (Nat.not_lt.mp hlast)]
        rfl
    · dsimp only at heq
      split at heq <;> cases heq
    · dsimp only
      split
      · exact Or.inl ⟨r, c, b, shipIdx + 1, rfl⟩
      · exact Or.inr rfl

theorem Fleet.makeCommit (h : Fleet sha512 p events) (hphase : p.phase = .committing)
    (nonce : Vector UInt8 16) : Fleet sha512 (p.makeCommit sha512 nonce) (events ++ []) := by
  refine h.prepare (by rw [hphase]; rfl) (fun _ _ _ _ heq => (by cases heq))
    (fun heq => (by cases heq)) (fun _ => ⟨h.ready hphase, rfl⟩) (fun heq => (by cases heq))

theorem turnKey_fleet (side : Side) (p : Player) (key : Key) (hphase : p.phase = .turn) :
    (p.turnKey side key).1.phase.committed = true ∧ (p.turnKey side key).1.own = p.own ∧
      (p.turnKey side key).1.nonce = p.nonce ∧ (p.turnKey side key).1.commit = p.commit ∧
      HitsAnswered p.own (p.turnKey side key).2 := by
  have hsame : p.phase.committed = true := by rw [hphase]; rfl
  have hnone := not_hitsAnswered_nil p.own
  cases key with
  | ok =>
      rw [Player.turnKey]
      split
      · refine ⟨rfl, rfl, rfl, rfl, fun defender seq r c outcome hmem => ?_⟩
        cases List.mem_singleton.mp hmem
      · exact ⟨hsame, rfl, rfl, rfl, hnone⟩
  | okLong => exact ⟨rfl, rfl, rfl, rfl, hnone⟩
  | _ => exact ⟨hsame, rfl, rfl, rfl, hnone⟩

theorem committed_loopTop (p : Player) : p.loopTop.phase.committed = true := by
  rw [Player.loopTop]
  cases p.myTurn <;> rfl

/-- What is received leaves the layout and the commitment as they are, and only ships are answered
with a hit. -/
structure KeepsFleet (p : Player) (next : Player × List Event) : Prop where
  committed : next.1.phase.committed = true
  own : packShipBoard next.1.own = packShipBoard p.own
  nonce : next.1.nonce = p.nonce
  commit : next.1.commit = p.commit
  answers : HitsAnswered p.own next.2

theorem KeepsFleet.quiet (hphase : p'.phase.committed = true) (hown : p'.own = p.own)
    (hnonce : p'.nonce = p.nonce) (hcommit : p'.commit = p.commit) : KeepsFleet p (p', []) :=
  ⟨hphase, by rw [hown], hnonce, hcommit, not_hitsAnswered_nil p.own⟩

theorem gotCommit_fleet (side : Side) (p : Player) (retry : Nat) (rx : List UInt8) :
    KeepsFleet p (p.gotCommit side retry rx, []) := by
  rw [Player.gotCommit]
  split
  · refine .quiet ?_ rfl rfl rfl
    cases side <;> rfl
  · split <;> exact .quiet rfl rfl rfl rfl

theorem gotResult_fleet (side : Side) (p : Player) (retry : Nat) (rx : List UInt8) :
    KeepsFleet p (p.gotResult side retry rx) := by
  have hmarks : ∀ e : Event, (∀ d seq r c outcome, e ≠ .answered d seq r c outcome) →
      HitsAnswered p.own [e] := fun e he d seq r c outcome hmem =>
    absurd (List.mem_singleton.mp hmem).symm (he d seq r c outcome)
  rw [Player.gotResult]
  split
  · dsimp only
    split
    · exact ⟨rfl, rfl, rfl, rfl, hmarks _ (fun _ _ _ _ _ heq => (by cases heq))⟩
    · exact ⟨committed_loopTop _, rfl, rfl, rfl, hmarks _ (fun _ _ _ _ _ heq => (by cases heq))⟩
  · split <;> exact .quiet rfl rfl rfl rfl

theorem own_countStrike (side : Side) (p : Player) (sr sc : Nat) :
    (p.countStrike side sr sc).own = p.own ∧ (p.countStrike side sr sc).nonce = p.nonce ∧
      (p.countStrike side sr sc).commit = p.commit := by
  rw [Player.countStrike]
  split <;> exact ⟨rfl, rfl, rfl⟩

theorem nonce_answerShot (p : Player) (r c : Nat) : (p.answerShot r c).1.nonce = p.nonce ∧
    (p.answerShot r c).1.commit = p.commit := by
  unfold Player.answerShot
  split
  · exact ⟨rfl, rfl⟩
  · split <;> exact ⟨rfl, rfl⟩

theorem isShip_of_at {own : Grid OwnCell} {r c : Nat} (h : own.at r c = some .ship) :
    IsShip (packShipBoard own) r c := by
  refine ⟨1, ?_, by decide⟩
  rw [Grid.at] at h ⊢
  rw [packShipBoard, Vector.getElem?_map, h]
  rfl

theorem gotShot_fleet (side : Side) (p : Player) (rx : List UInt8) :
    KeepsFleet p (p.gotShot side rx) := by
  rw [Player.gotShot]
  split
  · exact .quiet rfl rfl rfl rfl
  · split
    · exact .quiet (committed_loopTop p) rfl rfl rfl
    · dsimp only
      obtain ⟨hown, hnonce, hcommit⟩ :=
        own_countStrike side p (rx.getD 2 0).toNat (rx.getD 3 0).toNat
      generalize p.countStrike side _ _ = q at hown hnonce hcommit ⊢
      split
      · exact .quiet rfl hown hnonce hcommit
      · split
        · exact .quiet (committed_loopTop q) hown hnonce hcommit
        · obtain ⟨hnonce', hcommit'⟩ :=
            nonce_answerShot q (rx.getD 2 0).toNat (rx.getD 3 0).toNat
          have hpack := answerShot_packShipBoard q (rx.getD 2 0).toNat (rx.getD 3 0).toNat
          have hanswers : HitsAnswered p.own [.answered side (rx.getD 1 0) (rx.getD 2 0).toNat
              (rx.getD 3 0).toNat (q.answerShot (rx.getD 2 0).toNat (rx.getD 3 0).toNat).2] := by
            intro defender seq r c outcome hmem hhit
            obtain ⟨-, -, rfl, rfl, rfl⟩ := Event.answered.inj (List.mem_singleton.mp hmem)
            exact hown ▸ isShip_of_at (answerShot_hit hhit)
          split <;>
            exact ⟨rfl, hpack.trans (by rw [hown]), hnonce'.trans hnonce, hcommit'.trans hcommit,
              hanswers⟩

theorem gotReveal_fleet (p : Player) (retry : Nat) (rx : List UInt8) :
    KeepsFleet p (p.gotReveal retry rx, []) := by
  rw [Player.gotReveal]
  split
  · exact .quiet rfl rfl rfl rfl
  · split <;> exact .quiet rfl rfl rfl rfl

theorem received_fleet (side : Side) (p : Player) (waiting : Waiting) (retry : Nat)
    (rx : Option (List UInt8)) : KeepsFleet p (p.received side waiting retry rx) := by
  cases waiting with
  | commit => exact gotCommit_fleet side p retry (rx.getD [])
  | result => exact gotResult_fleet side p retry (rx.getD [])
  | shot =>
      cases rx with
      | none => exact .quiet rfl rfl rfl rfl
      | some rx => exact gotShot_fleet side p rx
  | reveal => exact gotReveal_fleet p retry (rx.getD [])

/-- Whatever comes to a player, it keeps its layout once it has committed to it. -/
theorem Fleet.step (h : Fleet sha512 p events) (side : Side) (a : PlayerAct) :
    Fleet sha512 (playerStep sha512 side p a).1 (events ++ (playerStep sha512 side p a).2) := by
  have hsame : Fleet sha512 p (events ++ []) := by
    rw [List.append_nil]
    exact h
  cases a with
  | key key =>
      rw [playerStep]
      split
      next curR curC horiz shipIdx hphase => exact h.placeKey hphase key
      next hphase =>
        obtain ⟨hcommitted, hown, hnonce, hcommit, hnew⟩ := turnKey_fleet side p key hphase
        exact h.keep (by rw [hphase]; rfl) hcommitted (by rw [hown]) hnonce hcommit hnew
      next hphase =>
        have hkeep : ∀ {q : Player}, q.phase.committed = true → q.own = p.own →
            q.nonce = p.nonce → q.commit = p.commit → Fleet sha512 q (events ++ []) :=
          fun hq hown hnonce hcommit => h.keep (by rw [hphase]; rfl) hq (by rw [hown]) hnonce
            hcommit (not_hitsAnswered_nil p.own)
        cases key with
        | okLong => exact hkeep rfl rfl rfl rfl
        | _ => exact hkeep (committed_loopTop p) rfl rfl rfl
      next => exact hsame
  | random nonce =>
      rw [playerStep]
      dsimp only
      split
      next hphase => exact h.makeCommit hphase nonce
      next => exact hsame
  | sendReturns =>
      rw [playerStep]
      split
      next packet next hphase =>
        have hnext : p.phase.committed = true := by
          by_contra hnot
          rcases h.before (by simpa using hnot) with ⟨r, c, b, i, heq⟩ | heq
          · rw [hphase] at heq
            cases heq
          · rw [hphase] at heq
            cases heq
        have hnext' : next.committed = true := by
          rw [hphase] at hnext
          exact hnext
        exact h.keep hnext hnext' rfl rfl rfl (not_hitsAnswered_nil p.own)
      next => exact hsame
  | received rx =>
      rw [playerStep]
      split
      next waiting retry waited hphase =>
        have hkeeps := received_fleet side p waiting retry rx
        exact h.keep (by rw [hphase]; rfl) hkeeps.committed hkeeps.own hkeeps.nonce hkeeps.commit
          hkeeps.answers
      next => exact hsame

end Fleets

theorem fleet_run (sha512 : List UInt8 → Vector UInt8 64) (side : Side) (acts : List PlayerAct) :
    Fleet sha512 (run (playerStep sha512 side) .start acts)
      (outputs (playerStep sha512 side) .start acts) := by
  have hinv : Fleet sha512 (run (playerStep sha512 side) .start acts)
      ([] ++ outputs (playerStep sha512 side) .start acts) :=
    Along.monitor (I := Fleet sha512) (fun p a events h _ => h.step side a)
      (along_true Player.start acts) (.start sha512)
  rwa [List.nil_append] at hinv

section Matches

variable (sha512 : List UInt8 → Vector UInt8 64) (side : Side)

/-- A player, after what has come to it. -/
def playerAfter (acts : List PlayerAct) : Player := run (playerStep sha512 side) .start acts

/-- What has been seen of a player. -/
def seenOf (acts : List PlayerAct) : List Event := outputs (playerStep sha512 side) .start acts

/-- The hits that a player has marked have been answered so by the peer, whose COMMIT it has. -/
structure PlayedWith (p : Player) (events : List Event) (peer : Player) (peerEvents : List Event) :
    Prop where
  commit : p.peerCommit = peer.commit
  hits : ∀ seq r c, .marked side seq r c .hit ∈ events →
    ∃ seq' outcome, .answered side.other seq' r c outcome ∈ peerEvents ∧ outcome ≠ outMiss

/-- What is to hold of a player who keeps to the rules, whatever has come to it, and of a layout and
a nonce that are revealed to it. -/
structure RevealHolds (acts : List PlayerAct) (board : Vector UInt8 (gridSize * gridSize))
    (nonce : Vector UInt8 16) : Prop where
  /-- A reveal that is accepted opens the commitment, and all answers were true of it. -/
  sound : verifyReveal sha512 (playerAfter sha512 side acts) board nonce = true →
    Opens sha512 (playerAfter sha512 side acts).peerCommit board nonce ∧
      ∀ seq r c mark, .marked side seq r c mark ∈ seenOf sha512 side acts →
        (mark = .hit ↔ IsShip board r c)
  /-- The reveal of a peer who keeps to the rules is accepted. -/
  complete : ∀ peerActs,
    (playerAfter sha512 side.other peerActs).phase.committed = true →
    PlayedWith side (playerAfter sha512 side acts) (seenOf sha512 side acts)
      (playerAfter sha512 side.other peerActs) (seenOf sha512 side.other peerActs) →
    verifyReveal sha512 (playerAfter sha512 side acts)
      (packShipBoard (playerAfter sha512 side.other peerActs).own)
      (playerAfter sha512 side.other peerActs).nonce = true
  /-- A win is recorded only after a reveal that was accepted. -/
  win : (playerAfter sha512 side acts).phase = .over →
    (playerAfter sha512 side acts).ending sha512 = .won →
    (playerAfter sha512 side acts).peerRevealed = true ∧
      verifyReveal sha512 (playerAfter sha512 side acts) (playerAfter sha512 side acts).peerBoard
        (playerAfter sha512 side acts).peerNonce = true

variable {sha512 side}

/-- The reveal of a peer who keeps to the rules is accepted, whatever the shots were. -/
theorem honest_reveal_accepted {acts peerActs : List PlayerAct}
    (hpeer : (playerAfter sha512 side.other peerActs).phase.committed = true)
    (hplayed : PlayedWith side (playerAfter sha512 side acts) (seenOf sha512 side acts)
      (playerAfter sha512 side.other peerActs) (seenOf sha512 side.other peerActs)) :
    verifyReveal sha512 (playerAfter sha512 side acts)
      (packShipBoard (playerAfter sha512 side.other peerActs).own)
      (playerAfter sha512 side.other peerActs).nonce = true := by
  have hfleet := fleet_run sha512 side.other peerActs
  have hmarked := marked_run sha512 side acts
  obtain ⟨hships, hopens⟩ := hfleet.committed hpeer
  rw [verifyReveal_eq_true, hplayed.commit, shipCount_packShipBoard]
  refine ⟨hopens, fun r hr c hc hhit => ?_, hships⟩
  obtain ⟨seq, hmem⟩ := hmarked.recorded r c .hit hr hc (by decide) hhit
  obtain ⟨seq', outcome, hanswered, hne⟩ := hplayed.hits seq r c hmem
  exact hfleet.answers _ _ _ _ _ hanswered hne

/-- A cell that was answered with a miss is a ship. -/
def MissedShip (p : Player) (board : Vector UInt8 (gridSize * gridSize)) : Prop :=
  ∃ r < gridSize, ∃ c < gridSize, p.tgt.at r c = some .miss ∧ IsShip board r c

/-- Where the hits are ships, the answers were true exactly if no miss is one. -/
theorem truthful_iff {p : Player} {events : List Event}
    {board : Vector UInt8 (gridSize * gridSize)} (h : Marked side p events)
    (hhits : HitsAreShips p board) :
    (∀ seq r c mark, .marked side seq r c mark ∈ events → (mark = .hit ↔ IsShip board r c)) ↔
      ¬ MissedShip p board := by
  constructor
  · rintro htrue ⟨r, hr, c, hc, hmiss, hship⟩
    obtain ⟨seq, hmem⟩ := h.recorded r c .miss hr hc (by decide) hmiss
    exact absurd ((htrue seq r c .miss hmem).mpr hship) (by decide)
  · intro hmissed seq r c mark hmem
    obtain ⟨hr, hc, hmark, hat⟩ := h.answered side seq r c mark hmem
    cases mark with
    | unknown => exact absurd rfl hmark
    | hit => exact iff_of_true rfl (hhits r hr c hc hat)
    | miss =>
        exact iff_of_false (by decide) (fun hship => hmissed ⟨r, hr, c, hc, hat, hship⟩)

theorem ending_eq_won {p : Player} :
    p.ending sha512 = .won ↔ p.endReason = .none ∧ p.iWon = true ∧
      (p.peerRevealed = true → verifyReveal sha512 p p.peerBoard p.peerNonce = true) := by
  unfold Player.ending
  cases p.endReason with
  | none =>
      cases p.peerRevealed <;> cases verifyReveal sha512 p p.peerBoard p.peerNonce <;>
        cases p.iWon <;> decide
  | _ => exact iff_of_false (fun h => (by cases h)) (fun h => absurd h.1 (by decide))

/-- The reveal says what it is to say exactly if it does not open the commitment with twelve ships
that are wherever a hit is recorded and also where a miss is, and if a battle that is won does not
end without one. -/
theorem reveal_holds_iff (sha512 : List UInt8 → Vector UInt8 64) (side : Side)
    (acts : List PlayerAct) (board : Vector UInt8 (gridSize * gridSize))
    (nonce : Vector UInt8 16) :
    RevealHolds sha512 side acts board nonce ↔
      ¬ (Opens sha512 (playerAfter sha512 side acts).peerCommit board nonce ∧
          HitsAreShips (playerAfter sha512 side acts) board ∧
          shipCount board = totalShipCells ∧ MissedShip (playerAfter sha512 side acts) board) ∧
        ¬ ((playerAfter sha512 side acts).phase = .over ∧
          (playerAfter sha512 side acts).endReason = .none ∧
          (playerAfter sha512 side acts).iWon = true ∧
          (playerAfter sha512 side acts).peerRevealed = false) := by
  have hmarked := marked_run sha512 side acts
  constructor
  · intro h
    constructor
    · rintro ⟨hopens, hhits, hships, hmissed⟩
      have haccepted := (verifyReveal_eq_true sha512 _ board nonce).mpr ⟨hopens, hhits, hships⟩
      exact (truthful_iff hmarked hhits).mp (h.sound haccepted).2 hmissed
    · rintro ⟨hover, hend, hwon, hnone⟩
      have hbooked := h.win hover (ending_eq_won.mpr
        ⟨hend, hwon, fun hrevealed => by rw [hnone] at hrevealed; cases hrevealed⟩)
      rw [hnone] at hbooked
      cases hbooked.1
  · rintro ⟨hmiss, hwin⟩
    refine ⟨fun haccepted => ?_, fun peerActs hpeer hplayed => honest_reveal_accepted hpeer hplayed,
      fun hover hbooked => ?_⟩
    · obtain ⟨hopens, hhits, hships⟩ := (verifyReveal_eq_true sha512 _ board nonce).mp haccepted
      exact ⟨hopens, (truthful_iff hmarked hhits).mpr
        (fun hmissed => hmiss ⟨hopens, hhits, hships, hmissed⟩)⟩
    · obtain ⟨hend, hwon, hverified⟩ := ending_eq_won.mp hbooked
      cases hrevealed : (playerAfter sha512 side acts).peerRevealed with
      | true => exact ⟨rfl, hverified hrevealed⟩
      | false => exact absurd ⟨hover, hend, hwon, hrevealed⟩ hwin

end Matches

/-- A hash that tells layouts apart. -/
def layoutHash (bytes : List UInt8) : Vector UInt8 64 := slice bytes 0 64

/-- Twelve ships in the first cells. -/
def firstCells : Vector UInt8 (gridSize * gridSize) :=
  Vector.ofFn fun i => if i.val < totalShipCells then 1 else 0

/-- The host places its ships, has the COMMIT for a layout with a ship in the first cell, shoots
there, and is given an outcome. -/
def firstShot (outcome : UInt8) : List PlayerAct :=
  [.key .ok, .key .down, .key .ok, .key .down, .key .ok, .key .down, .key .ok,
    .random (Vector.replicate _ 0), .sendReturns, .received (some (commitPkt firstCells)),
    .sendReturns, .key .ok, .sendReturns, .received (some [msgResult, 1, 0, 0, outcome])]

/-- A ship that was hit is answered with a miss, and the reveal is accepted; a win is booked for
which there was no reveal. -/
theorem not_reveal_holds :
    ¬ RevealHolds layoutHash .host (firstShot outMiss) firstCells (Vector.replicate _ 0) ∧
      ¬ RevealHolds layoutHash .host
        (firstShot outWin ++ .sendReturns :: List.replicate 30 (.received none))
        firstCells (Vector.replicate _ 0) := by
  constructor
  · intro h
    have haccepted : verifyReveal layoutHash (playerAfter layoutHash .host (firstShot outMiss))
        firstCells (Vector.replicate _ 0) = true := by decide
    have hmarked : .marked .host 1 0 0 .miss ∈ seenOf layoutHash .host (firstShot outMiss) := by
      decide
    have hship : IsShip firstCells 0 0 := by decide
    exact absurd (((h.sound haccepted).2 1 0 0 .miss hmarked).mpr hship) (by decide)
  · intro h
    have hend : (playerAfter layoutHash .host
        (firstShot outWin ++ .sendReturns :: List.replicate 30 (.received none))).phase = .over ∧
        (playerAfter layoutHash .host (firstShot outWin ++ .sendReturns ::
          List.replicate 30 (.received none))).ending layoutHash = .won ∧
        (playerAfter layoutHash .host (firstShot outWin ++ .sendReturns ::
          List.replicate 30 (.received none))).peerRevealed = false := by decide
    exact absurd ((h.win hend.1 hend.2.1).1.symm.trans hend.2.2) (by decide)

end Battleship
end Games
end JppDos
