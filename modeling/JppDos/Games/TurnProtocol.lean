import JppDos.Games.Battleship

/-!
# The turns of a match

What two honest players may count on between the placement and the end of the battle: that no
message gives way to another before it has been read, that every shot has its one answer and the
mark that goes with it, that not both are to fire, and that nobody gives up waiting.

`GAMES_BLE_PKT_MAX` is less than a COMMIT: the client's is never written, the host waits for it in
vain, and no shot is ever fired.  With a longer packet the host's first shot can take the place of
its COMMIT.
-/

namespace JppDos
namespace Games
namespace Battleship

open Machine
open Sdk (Key)
open Ble (HostRx hostStep)

/-- `GAMES_BLE_PKT_MAX`. -/
def blePktMax : Nat := 64

/-- The outcomes with which a shot has been answered. -/
def answersTo (shooter : Side) (seq : UInt16) (r c : Nat) (events : List Event) : List UInt8 :=
  events.filterMap fun
    | .answered defender seq' r' c' outcome =>
        if defender = shooter.other ∧ seq' = seq.toUInt8 ∧ r' = r ∧ c' = c then some outcome
        else none
    | _ => none

/-- What holds of a match and what has been seen of it. -/
structure Turns (g : Game) (events : List Event) : Prop where
  /-- No message gives way to another before it has been read. -/
  kept : ∀ packet, .overwritten packet ∉ events
  /-- A shot has one answer, or is the last one and still waiting for it. -/
  answered : ∀ shooter seq r c, .fired shooter seq r c ∈ events →
    (answersTo shooter seq r c events).length = 1 ∨
      answersTo shooter seq r c events = [] ∧ (g.player shooter).shotSeq = seq ∧
        (g.player shooter).phase.outstanding = true
  /-- What is answered has been fired. -/
  fired : ∀ defender seq r c outcome, .answered defender seq r c outcome ∈ events →
    ∃ seq' : UInt16, seq'.toUInt8 = seq ∧ .fired defender.other seq' r c ∈ events
  /-- The mark is that of the answer. -/
  marked : ∀ shooter seq r c mark, .marked shooter seq r c mark ∈ events →
    ∃ outcome ∈ answersTo shooter seq r c events,
      mark = if outcome = outMiss then .miss else .hit
  /-- Not both players are to fire. -/
  apart : ¬ (g.host.phase = .turn ∧ g.client.phase = .turn)
  /-- Nobody gives up waiting for a RESULT. -/
  inTime : ∀ side, (g.player side).endReason ≠ .timeout

/-- The host is on the way to `commit_exchange`, in it, or has left it without a COMMIT. -/
inductive HostStalls : Phase → Option (List UInt8) → Prop
  | placing (curR curC : Nat) (horiz : Bool) (shipIdx : Nat) :
      HostStalls (.placing curR curC horiz shipIdx) none
  | committing : HostStalls .committing none
  | send (commit : Vector UInt8 64) :
      HostStalls (.send (commitPkt commit) (.recv .commit 0 0)) none
  | recv (retry : Nat) (unread : Option (List UInt8)) : HostStalls (.recv .commit retry 0) unread
  | setupFailed (unread : Option (List UInt8)) : HostStalls .setupFailed unread

/-- The client is on the way to `commit_exchange`, in it, or waits for a shot behind it while the
TX characteristic has a COMMIT. -/
inductive ClientStalls (tx : List UInt8) : Phase → Prop
  | placing (curR curC : Nat) (horiz : Bool) (shipIdx : Nat) :
      ClientStalls tx (.placing curR curC horiz shipIdx)
  | committing : ClientStalls tx .committing
  | send (commit : Vector UInt8 64) :
      ClientStalls tx (.send (commitPkt commit) (.recv .commit 0 0))
  | recv (retry waited : Nat) : ClientStalls tx (.recv .commit retry waited)
  | again (commit : Vector UInt8 64) (htx : tx.head? = some msgCommit) :
      ClientStalls tx (.send (commitPkt commit) (.recv .shot 0 0))
  | shot (waited : Nat) (htx : tx.head? = some msgCommit) : ClientStalls tx (.recv .shot 0 waited)
  | setupFailed : ClientStalls tx .setupFailed

/-- The host has received no COMMIT, and the client nothing but one. -/
structure Stalled (g : Game) : Prop where
  host : HostStalls g.host.phase g.txUnread
  client : ClientStalls g.tx g.client.phase
  buf : g.rx.buf = Discovery.hello 3
  notMyTurn : g.client.myTurn = false
  inTime : ∀ side, (g.player side).endReason = .none

theorem Stalled.start (tokens : Nat) (tx : List UInt8) : Stalled (.start tokens tx) where
  host := .placing 0 0 true 0
  client := .placing 0 0 true 0
  buf := rfl
  notMyTurn := rfl
  inTime := fun side => by cases side <;> rfl

theorem Stalled.turns {g : Game} (h : Stalled g) : Turns g [] where
  kept := fun _ => List.not_mem_nil
  answered := fun _ _ _ _ hfired => absurd hfired List.not_mem_nil
  fired := fun _ _ _ _ _ hanswered => absurd hanswered List.not_mem_nil
  marked := fun _ _ _ _ _ hmarked => absurd hmarked List.not_mem_nil
  apart := by
    rintro ⟨hturn, -⟩
    have hhost := h.host
    rw [hturn] at hhost
    cases hhost
  inTime := fun side htimeout => by
    rw [h.inTime side] at htimeout
    cases htimeout

theorem HostStalls.read {phase : Phase} {unread : Option (List UInt8)}
    (h : HostStalls phase unread) : HostStalls phase none := by
  cases h with
  | placing curR curC horiz shipIdx => exact .placing curR curC horiz shipIdx
  | committing => exact .committing
  | send commit => exact .send commit
  | recv retry => exact .recv retry none
  | setupFailed => exact .setupFailed none

theorem length_commitPkt (commit : Vector UInt8 64) : blePktMax < (commitPkt commit).length := by
  rw [commitPkt, List.length_cons, Vector.length_toList]
  decide

/-- What is not a COMMIT ends in another round, or in the end of the setup. -/
theorem gotCommit_of_not (side : Side) (p : Player) (retry : Nat) {rx : List UInt8}
    (h : ¬ (1 + 64 ≤ rx.length ∧ rx.head? = some msgCommit)) :
    p.gotCommit side retry rx = p.goTo (.recv .commit (retry + 1) 0) ∨
      p.gotCommit side retry rx = p.goTo .setupFailed := by
  rw [Player.gotCommit, if_neg h]
  split
  · exact Or.inl rfl
  · exact Or.inr rfl

section Steps

variable {g : Game}

theorem Stalled.setHost (h : Stalled g) {host : Player} {rx : HostRx}
    {rxUnread : Option (List UInt8)} (hphase : HostStalls host.phase g.txUnread)
    (hbuf : rx.buf = g.rx.buf) (hend : host.endReason = g.host.endReason) :
    Stalled { g with host := host, rx := rx, rxUnread := rxUnread } where
  host := hphase
  client := h.client
  buf := hbuf.trans h.buf
  notMyTurn := h.notMyTurn
  inTime := fun side => by
    cases side with
    | host => exact hend.trans (h.inTime .host)
    | client => exact h.inTime .client

/-- The client goes on where it has received nothing but a COMMIT. -/
theorem Stalled.setClient (h : Stalled g) {client : Player} {txUnread : Option (List UInt8)}
    (hphase : ClientStalls g.tx client.phase) (hhost : HostStalls g.host.phase txUnread)
    (hturn : client.myTurn = false) (hend : client.endReason = g.client.endReason) :
    Stalled { g with client := client, txUnread := txUnread } where
  host := hhost
  client := hphase
  buf := h.buf
  notMyTurn := hturn
  inTime := fun side => by
    cases side with
    | host => exact h.inTime .host
    | client => exact hend.trans (h.inTime .client)

theorem Stalled.key (h : Stalled g) (side : Side) (key : Key) :
    Stalled (g.key side key).1 ∧ (g.key side key).2 = [] := by
  cases side with
  | host =>
      have hhost := h.host
      generalize hphase : g.host.phase = phase, hunread : g.txUnread = unread at hhost
      rw [Game.key, Game.player]
      cases hhost with
      | placing curR curC horiz shipIdx =>
          simp only [hphase]
          obtain ⟨own, next, hkey, hnext⟩ := placeKey_eq g.host curR curC horiz shipIdx key
          rw [hkey]
          refine ⟨h.setHost ?_ rfl rfl, trivial⟩
          rw [hunread]
          rcases hnext with ⟨r, c, b, i, rfl⟩ | rfl
          · exact .placing r c b i
          · exact .committing
      | _ =>
          simp only [hphase]
          exact ⟨h, trivial⟩
  | client =>
      have hclient := h.client
      generalize hphase : g.client.phase = phase at hclient
      rw [Game.key, Game.player]
      cases hclient with
      | placing curR curC horiz shipIdx =>
          simp only [hphase]
          obtain ⟨own, next, hkey, hnext⟩ := placeKey_eq g.client curR curC horiz shipIdx key
          rw [hkey]
          refine ⟨h.setClient ?_ h.host h.notMyTurn rfl, trivial⟩
          rcases hnext with ⟨r, c, b, i, rfl⟩ | rfl
          · exact .placing r c b i
          · exact .committing
      | _ =>
          simp only [hphase]
          exact ⟨h, trivial⟩

theorem Stalled.random (h : Stalled g) (sha512 : List UInt8 → Vector UInt8 64) (side : Side)
    (nonce : Vector UInt8 16) : Stalled (g.random sha512 side nonce) := by
  rw [Game.random]
  split
  next hcommitting =>
    cases side with
    | host =>
        have hhost := h.host
        generalize hphase : g.host.phase = phase, hunread : g.txUnread = unread at hhost
        obtain rfl : phase = .committing := hphase.symm.trans hcommitting
        cases hhost with
        | committing => exact h.setHost (hunread ▸ .send _) rfl rfl
    | client => exact h.setClient (.send _) h.host h.notMyTurn rfl
  next => exact h

/-- The host publishes its COMMIT, and nothing before or after it. -/
theorem Stalled.publish (h : Stalled g) : Stalled g.publish.1 ∧ g.publish.2 = [] := by
  have hhost := h.host
  generalize hphase : g.host.phase = phase, hunread : g.txUnread = unread at hhost
  rw [Game.publish]
  cases hhost with
  | send commit =>
      simp only [hphase, hunread]
      refine ⟨⟨.recv 0 _, ?_, h.buf, h.notMyTurn, fun side => (by
        cases side with
        | host => exact h.inTime .host
        | client => exact h.inTime .client)⟩, rfl⟩
      have hclient := h.client
      dsimp only
      generalize g.client.phase = phase at hclient ⊢
      cases hclient with
      | placing curR curC horiz shipIdx => exact .placing curR curC horiz shipIdx
      | committing => exact .committing
      | send commit' => exact .send commit'
      | recv retry waited => exact .recv retry waited
      | again commit' htx => exact .again commit' rfl
      | shot waited htx => exact .shot waited rfl
      | setupFailed => exact .setupFailed
  | _ =>
      simp only [hphase]
      exact ⟨h, trivial⟩

theorem hostStalls_gotCommit (unread : Option (List UInt8)) (p : Player) (retry : Nat)
    {rx : List UInt8} (hrx : rx.length < 65) :
    HostStalls (p.gotCommit .host retry rx).phase unread ∧
      (p.gotCommit .host retry rx).endReason = p.endReason := by
  have hnot : ¬ (1 + 64 ≤ rx.length ∧ rx.head? = some msgCommit) := fun hcommit => by omega
  rcases gotCommit_of_not .host p retry hnot with hnext | hnext
  · rw [hnext]
    exact ⟨.recv _ _, rfl⟩
  · rw [hnext]
    exact ⟨.setupFailed _, rfl⟩

theorem Stalled.take (h : Stalled g) : Stalled g.take := by
  rw [Game.take]
  split
  · exact h.setHost h.host (Discovery.hostStep_buf _ _ (by simp)) rfl
  · exact h

theorem Stalled.copyOut (h : Stalled g) : Stalled g.copyOut.1 ∧ g.copyOut.2 = [] := by
  have hhost := h.host
  generalize hphase : g.host.phase = phase, hunread : g.txUnread = unread at hhost
  rw [Game.copyOut]
  cases hhost with
  | recv retry =>
      simp only [hphase]
      split
      · have hrx : (g.rx.buf.take Waiting.commit.bufLen).length < 65 := by
          rw [h.buf]
          decide
        obtain ⟨hstalls, hend⟩ := hostStalls_gotCommit g.txUnread g.host retry hrx
        exact ⟨h.setHost hstalls (Discovery.hostStep_buf _ _ (by simp)) hend, rfl⟩
      · exact ⟨h, rfl⟩
  | _ =>
      simp only [hphase]
      exact ⟨h, trivial⟩

theorem Stalled.timeout (h : Stalled g) : Stalled g.timeout.1 ∧ g.timeout.2 = [] := by
  have hhost := h.host
  generalize hphase : g.host.phase = phase, hunread : g.txUnread = unread at hhost
  rw [Game.timeout]
  cases hhost with
  | recv retry =>
      simp only [hphase]
      split
      · obtain ⟨hstalls, hend⟩ := hostStalls_gotCommit g.txUnread g.host retry
          (show [].length < 65 by decide)
        exact ⟨h.setHost hstalls rfl hend, rfl⟩
      · exact ⟨h, rfl⟩
  | _ =>
      simp only [hphase]
      exact ⟨h, trivial⟩

theorem Stalled.write (h : Stalled g) :
    Stalled (g.write blePktMax).1 ∧ (g.write blePktMax).2 = [] := by
  have hclient := h.client
  generalize hphase : g.client.phase = phase at hclient
  rw [Game.write]
  cases hclient with
  | send commit =>
      simp only [hphase]
      rw [if_pos (length_commitPkt commit)]
      exact ⟨h.setClient (.recv 0 0) h.host h.notMyTurn rfl, rfl⟩
  | again commit htx =>
      simp only [hphase]
      rw [if_pos (length_commitPkt commit)]
      exact ⟨h.setClient (.shot 0 htx) h.host h.notMyTurn rfl, rfl⟩
  | _ =>
      simp only [hphase]
      exact ⟨h, trivial⟩

theorem Stalled.give (h : Stalled g) : g.give = g := by
  have hclient := h.client
  generalize hphase : g.client.phase = phase at hclient
  rw [Game.give]
  cases hclient <;> simp only [hphase]

/-- The client goes on behind a COMMIT, and then reads it again and again. -/
theorem Stalled.poll (h : Stalled g) : Stalled g.poll.1 ∧ g.poll.2 = [] := by
  have hclient := h.client
  generalize hphase : g.client.phase = phase at hclient
  rw [Game.poll]
  cases hclient with
  | recv retry waited =>
      simp only [hphase]
      split
      next hread =>
        refine ⟨?_, rfl⟩
        simp only [Player.received, Option.getD_some]
        by_cases hcommit : 1 + 64 ≤ (g.tx.take Waiting.commit.bufLen).length ∧
            (g.tx.take Waiting.commit.bufLen).head? = some msgCommit
        · have htx : g.tx.head? = some msgCommit := by
            rw [← hcommit.2, List.head?_take, if_neg (by decide)]
          rw [Player.gotCommit, if_pos hcommit]
          exact h.setClient (.again _ htx) h.host.read rfl rfl
        · rcases gotCommit_of_not .client g.client retry hcommit with hnext | hnext
          · rw [hnext]
            exact h.setClient (.recv _ _) h.host.read h.notMyTurn rfl
          · rw [hnext]
            exact h.setClient .setupFailed h.host.read h.notMyTurn rfl
      next hempty =>
        split
        · exact ⟨h.setClient (.recv _ _) h.host h.notMyTurn rfl, rfl⟩
        · refine ⟨?_, rfl⟩
          simp only [Player.received, Option.getD_none]
          have hnone : ¬ (1 + 64 ≤ ([] : List UInt8).length ∧
              ([] : List UInt8).head? = some msgCommit) := by decide
          rcases gotCommit_of_not .client g.client retry hnone with hnext | hnext
          · rw [hnext]
            exact h.setClient (.recv _ _) h.host h.notMyTurn rfl
          · rw [hnext]
            exact h.setClient .setupFailed h.host h.notMyTurn rfl
  | shot waited htx =>
      simp only [hphase]
      have hread : g.tx ≠ [] := fun hempty => by
        rw [hempty] at htx
        cases htx
      have hhead : (g.tx.take Waiting.shot.bufLen).head? = some msgCommit := by
        rw [List.head?_take, if_neg (by decide), htx]
      have hshot : g.client.gotShot .client (g.tx.take Waiting.shot.bufLen) =
          (g.client.loopTop, []) := by
        rw [Player.gotShot, if_neg (fun hbye => absurd (hhead.symm.trans hbye.2) (by decide)),
          if_pos (Or.inr (fun hshot => absurd (hhead.symm.trans hshot) (by decide)))]
      rw [if_pos hread]
      simp only [Player.received, hshot, Player.loopTop, h.notMyTurn]
      exact ⟨h.setClient (.shot 0 htx) h.host.read h.notMyTurn rfl, trivial⟩
  | _ =>
      simp only [hphase]
      exact ⟨h, trivial⟩

end Steps

/-- The host does not get past `commit_exchange`, and nothing is seen of the match. -/
theorem Stalled.step {g : Game} (h : Stalled g) (sha512 : List UInt8 → Vector UInt8 64) (a : Act) :
    Stalled (step sha512 blePktMax g a).1 ∧ (step sha512 blePktMax g a).2 = [] := by
  cases a with
  | key side key => exact h.key side key
  | random side nonce => exact ⟨h.random sha512 side nonce, rfl⟩
  | publish => exact h.publish
  | take => exact ⟨h.take, rfl⟩
  | copyOut => exact h.copyOut
  | timeout => exact h.timeout
  | write => exact h.write
  | give =>
      refine ⟨?_, rfl⟩
      change Stalled g.give
      rw [h.give]
      exact h
  | poll => exact h.poll

/-- The turn protocol holds in every match, whatever the hash, what is left of the HELLO and of the
TX characteristic, and however the steps of the players follow each other. -/
theorem turn_protocol (sha512 : List UInt8 → Vector UInt8 64) (tokens : Nat) (tx : List UInt8)
    (acts : List Act) :
    Turns (run (step sha512 blePktMax) (.start tokens tx) acts)
      (outputs (step sha512 blePktMax) (.start tokens tx) acts) := by
  have hinv : Stalled (run (step sha512 blePktMax) (.start tokens tx) acts) ∧
      [] ++ outputs (step sha512 blePktMax) (.start tokens tx) acts = [] :=
    Along.monitor (I := fun g events => Stalled g ∧ events = [])
      (fun g a events hg _ => by
        obtain ⟨hstalled, hnone⟩ := hg.1.step sha512 a
        exact ⟨hstalled, by rw [hg.2, hnone]; rfl⟩)
      (along_true (Game.start tokens tx) acts) ⟨.start tokens tx, rfl⟩
  rw [List.nil_append] at hinv
  rw [hinv.2]
  exact hinv.1.turns

end Battleship
end Games
end JppDos
