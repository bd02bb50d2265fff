import JppDos.Games.Connect4
import Mathlib.Data.List.Chain

/-!
# Agreement on the board

Whether every disc that the host places for the client was chosen on the board where it comes
to lie.  The client takes the first state it reads after a move, also one from before the
host has dealt with it, and then chooses again on the old board.
-/

namespace JppDos
namespace Games

open Sdk (Key)

/-- Whose disc it is. -/
def Placement.isClient : Placement → Bool
  | .client .. => true
  | .host .. => false

/-- The client has chosen this column on this board. -/
def Placement.Agrees : Placement → Prop
  | .client board col choice => choice = some ⟨board, col⟩
  | .host .. => True

instance (d : Placement) : Decidable d.Agrees := by
  cases d <;> unfold Placement.Agrees <;> infer_instance

/-- A disc of the client's is not followed by another one. -/
def Alternates (placed : List Placement) : Prop :=
  placed.IsChain fun d d' => ¬ (d.isClient = true ∧ d'.isClient = true)

/-- Every disc that the host places for the client was chosen on the board where it is
placed, and there is at most one for each of the client's turns. -/
def Agreed (placed : List Placement) : Prop :=
  (∀ d ∈ placed, d.Agrees) ∧ Alternates placed

instance (placed : List Placement) : Decidable (Agreed placed) :=
  inferInstanceAs (Decidable (_ ∧ List.IsChain _ placed))

/-- The host waits in its loop, and nothing that the client has written is unread. -/
def Match.Settled (s : Match) : Prop := s.host.phase = .loop ∧ s.rx.due = 0

instance (s : Match) : Decidable s.Settled := inferInstanceAs (Decidable (_ ∧ _))

/-- The host has seen the client's last sequence byte. -/
def Match.Seen (s : Match) : Prop :=
  s.host.haveSeq = true ∧ s.host.lastSeq = s.client.seq.toUInt8

instance (s : Match) : Decidable s.Seen := inferInstanceAs (Decidable (_ ∧ _))

/-- A state that the client reads and that gives it the turn is read from a settled host. -/
def Match.ReadsSettled (s : Match) (ok : Bool) : Prop :=
  ∀ board, s.read ok = some (board, endNone) → board.ClientsTurn → s.Settled

instance (s : Match) (ok : Bool) : Decidable (s.ReadsSettled ok) :=
  decidable_of_iff (∀ r ∈ s.read ok, r.2 = endNone → r.1.ClientsTurn → s.Settled)
    ⟨fun h board hread => h _ hread rfl, fun h ⟨board, endReason⟩ hread hreason => by
      obtain rfl : endReason = endNone := hreason
      exact h board hread⟩

/-- The client goes back to its turn only when the host has dealt with everything that it has
written; without an answer to a move, only when the move has not been placed. -/
def Answered (s : Match) : Step → Prop
  | .retry ok =>
      ∀ n, s.client.phase = .awaiting n →
        s.ReadsSettled ok ∧ (retries ≤ n + 1 → s.read ok = none → s.Settled ∧ ¬ s.Seen)
  | .poll ok => s.client.phase = .loop → s.ReadsSettled ok
  | _ => True

instance (s : Match) (a : Step) : Decidable (Answered s a) :=
  match a with
  | .retry ok =>
      match hphase : s.client.phase with
      | .awaiting n =>
          decidable_of_iff (s.ReadsSettled ok ∧
              (retries ≤ n + 1 → s.read ok = none → s.Settled ∧ ¬ s.Seen))
            ⟨fun h _ hn => ClientPhase.awaiting.inj (hphase.symm.trans hn) ▸ h,
              fun h => h n hphase⟩
      | .loop => isTrue fun _ hn => nomatch hphase.symm.trans hn
      | .polled => isTrue fun _ hn => nomatch hphase.symm.trans hn
      | .returned _ => isTrue fun _ hn => nomatch hphase.symm.trans hn
  | .poll ok => inferInstanceAs (Decidable (s.client.phase = .loop → s.ReadsSettled ok))
  | .draw _ | .publish | .finish | .hostKey _ | .take | .copyOut | .timeout _ | .handle
  | .give | .clientFinish | .clientKey .. | .pollKey .. => isTrue trivial

/-- The host has received a write and not dealt with it. -/
def HostPhase.handling : HostPhase → Bool
  | .handle _ => true
  | _ => false

/-- The host leaves its loop. -/
def HostPhase.over : HostPhase → Bool
  | .send _ true => true
  | .returned _ => true
  | _ => false

/-- What holds in every match. -/
structure Match.Ok (s : Match) : Prop where
  turn : s.host.board.turn = turnHost ∨ s.host.board.turn = turnClient
  cursor_lt : s.client.cursor < cols
  goesOn : ∀ endReason, s.host.phase = .send endReason false → endReason = endNone
  published : s.host.phase = .loop ∨ s.host.phase.handling = true →
    s.tx = statePkt s.host.board endNone
  taken : s.rx.taken = true → s.waits
  handling : s.host.phase.handling = true → s.host.board.ClientsTurn ∧ s.rx.taken = false
  fresh : s.host.phase = .start → s.placed = []
  alternates : Alternates s.placed
  last : ∀ d, s.placed.getLast? = some d → d.isClient = true → ¬ s.host.board.ClientsTurn

theorem Match.Ok.clientsTurn {s : Match} (h : s.Ok) (hwaits : s.waits) :
    s.host.board.ClientsTurn :=
  ⟨h.turn.resolve_left hwaits.2.2, hwaits.2.1⟩

theorem Board.ClientsTurn.not_hostsTurn {b : Board} (h : b.ClientsTurn) : ¬ b.HostsTurn :=
  fun hhost => absurd (h.1.symm.trans hhost.1) (by decide)

theorem Match.Ok.sendNext {s : Match} (h : s.Ok) {endReason : UInt8} {stop : Bool}
    (hreason : stop = false → endReason = endNone) (htaken : s.rx.taken = false) :
    (s.sendNext endReason stop).Ok where
  turn := h.turn
  cursor_lt := h.cursor_lt
  goesOn := by
    rintro _ ⟨rfl⟩
    exact hreason rfl
  published := fun hphase => hphase.elim nofun nofun
  taken := fun htrue => absurd (htaken.symm.trans htrue) Bool.false_ne_true
  handling := nofun
  fresh := nofun
  alternates := h.alternates
  last := h.last

/-- A disc keeps it, when it is not a second one of the client's. -/
theorem Match.Ok.place {s : Match} (h : s.Ok) (htaken : s.rx.taken = false) {col : Nat}
    {player : UInt8} {disc : Placement}
    (hturn : disc.isClient = true → s.host.board.ClientsTurn)
    (hpass : disc.isClient = true → ¬ (applyMove s.host.board col player).ClientsTurn) :
    (s.place col player disc).Ok where
  turn := turn_applyMove h.turn col player
  cursor_lt := h.cursor_lt
  goesOn := by
    rintro _ ⟨rfl⟩
    rfl
  published := fun hphase => hphase.elim nofun nofun
  taken := fun htrue => absurd (htaken.symm.trans htrue) Bool.false_ne_true
  handling := nofun
  fresh := nofun
  alternates := by
    refine List.isChain_append.mpr ⟨h.alternates, List.isChain_singleton _, ?_⟩
    rintro d hd d' hd' ⟨hclient, hclient'⟩
    obtain rfl : disc = d' := by simpa using hd'
    exact h.last d hd hclient (hturn hclient')
  last := by
    intro d hd
    obtain rfl : disc = d := by simpa [Match.place] using hd
    exact hpass

theorem Match.Ok.not_taken {s : Match} (h : s.Ok) (hwaits : ¬ s.waits) : s.rx.taken = false :=
  Bool.eq_false_iff.mpr fun htaken => hwaits (h.taken htaken)

theorem Match.Ok.draw {s : Match} (h : s.Ok) (client : Bool) : (s.draw client).Ok := by
  rw [Match.draw]
  split
  · rename_i hphase
    have hplaced := h.fresh hphase
    have htaken : s.rx.taken = false :=
      h.not_taken fun hwaits => nomatch hphase.symm.trans hwaits.1
    exact {
      turn := by cases client <;> simp
      cursor_lt := h.cursor_lt
      goesOn := by
        rintro _ ⟨rfl⟩
        rfl
      published := fun hphase => hphase.elim nofun nofun
      taken := fun htrue => absurd (htaken.symm.trans htrue) Bool.false_ne_true
      handling := nofun
      fresh := nofun
      alternates := h.alternates
      last := by
        intro d hd
        rw [hplaced] at hd
        cases hd }
  · exact h

theorem Match.Ok.publish {s : Match} (h : s.Ok) : s.publish.Ok := by
  rw [Match.publish]
  split
  · rename_i endReason stop hphase
    have htaken : s.rx.taken = false :=
      h.not_taken fun hwaits => nomatch hphase.symm.trans hwaits.1
    refine { h with goesOn := ?_, published := ?_, taken := ?_, handling := ?_, fresh := ?_ }
    · cases stop <;> exact nofun
    · cases stop with
      | true => exact fun hphase => hphase.elim nofun nofun
      | false =>
          intro _
          rw [h.goesOn endReason hphase]
    · exact fun htrue => absurd (htaken.symm.trans htrue) Bool.false_ne_true
    · cases stop <;> exact nofun
    · cases stop <;> exact nofun
  · exact h

theorem Match.Ok.finish {s : Match} (h : s.Ok) : s.finish.Ok := by
  rw [Match.finish]
  split
  · rename_i hcond
    exact h.sendNext nofun (h.not_taken fun hwaits => hcond.2 hwaits.2.1)
  · exact h

theorem Match.Ok.hostKey {s : Match} (h : s.Ok) (key : Key) : (s.hostKey key).Ok := by
  rw [Match.hostKey.eq_def]
  split
  · rename_i hcond
    have htaken : s.rx.taken = false :=
      h.not_taken fun hwaits => (h.clientsTurn hwaits).not_hostsTurn hcond.2
    cases key with
    | left => exact { h with }
    | right =>
        dsimp only
        split
        · exact { h with }
        · exact h
    | ok =>
        dsimp only
        split
        · exact h.place htaken nofun nofun
        · exact h
    | okLong => exact h.sendNext nofun htaken
    | none | up | down | okHold | okDouble => exact h
  · exact h

theorem Match.Ok.take {s : Match} (h : s.Ok) : s.take.Ok := by
  rw [Match.take]
  split
  · rename_i hwaits
    refine { h with taken := fun _ => hwaits, handling := ?_ }
    intro hhandling
    rw [hwaits.1] at hhandling
    cases hhandling
  · exact h

theorem Match.Ok.copyOut {s : Match} (h : s.Ok) : s.copyOut.Ok := by
  rw [Match.copyOut]
  split
  · rename_i hcond
    obtain ⟨hwaits, htaken⟩ := hcond
    have hrx := (Ble.due_copyOut htaken 16).2
    exact { h with
      goesOn := nofun
      published := fun _ => h.published (Or.inl hwaits.1)
      taken := fun htrue => absurd (hrx.symm.trans htrue) Bool.false_ne_true
      handling := fun _ => ⟨h.clientsTurn hwaits, hrx⟩
      fresh := nofun }
  · exact h

theorem Match.Ok.timeout {s : Match} (h : s.Ok) (key : Key) : (s.timeout key).Ok := by
  rw [Match.timeout]
  split
  · rename_i hcond
    exact h.sendNext nofun hcond.2.1
  · exact h

/-- The host goes back to its loop with what it has published. -/
theorem Match.Ok.continue {s : Match} (h : s.Ok) (hhandling : s.host.phase.handling = true) :
    s.continue.Ok :=
  { h with
    goesOn := nofun
    published := fun _ => h.published (Or.inr hhandling)
    taken := fun htrue =>
      absurd ((h.handling hhandling).2.symm.trans htrue) Bool.false_ne_true
    handling := nofun
    fresh := nofun }

theorem Match.Ok.handle {s : Match} (h : s.Ok) : s.handle.Ok := by
  rw [Match.handle]
  split
  · rename_i magic seq col rest hphase
    have hhandling : s.host.phase.handling = true := by rw [hphase]; rfl
    obtain ⟨hturn, htaken⟩ := h.handling hhandling
    split
    · exact h.continue hhandling
    · split
      · exact h.continue hhandling
      · split
        · exact { h with
            goesOn := nofun
            published := fun hphase => hphase.elim nofun nofun
            taken := fun htrue => absurd (htaken.symm.trans htrue) Bool.false_ne_true
            handling := nofun
            fresh := nofun }
        · split
          · dsimp only
            have h' : Match.Ok { s with host :=
                { s.host with violations := s.host.violations + 1 } } := { h with }
            split
            · exact h'.sendNext nofun htaken
            · exact h'.sendNext (fun _ => rfl) htaken
          · rename_i hvalid
            simp only [not_or, Nat.not_le] at hvalid
            have h' : Match.Ok { s with host :=
                { s.host with haveSeq := true, lastSeq := seq } } := { h with }
            refine h'.place htaken (fun _ => hturn) fun _ hnext => ?_
            rcases applyMove_turn hvalid.1 hvalid.2 with hwin | hpass
            · exact hwin hnext.2
            · have hhost : (applyMove s.host.board col.toNat 2).turn = turnHost := by
                rw [hpass, hturn.1]
                rfl
              exact absurd (hhost.symm.trans hnext.1) (by decide)
  · rename_i hphase
    exact h.continue (by rw [hphase]; rfl)
  · exact h

theorem Match.Ok.give {s : Match} (h : s.Ok) : s.give.Ok := by
  have htaken : s.give.rx.taken = s.rx.taken := by
    rw [Match.give, Ble.hostStep]
    split <;> rfl
  exact { h with
    taken := fun htrue => h.taken (htaken.symm.trans htrue)
    handling := fun hhandling =>
      ⟨(h.handling hhandling).1, htaken.trans (h.handling hhandling).2⟩ }

/-- What the client does touches only its own variables and the buffer. -/
structure ClientOnly (s s' : Match) : Prop where
  host : s'.host = s.host
  tx : s'.tx = s.tx
  received : s'.received = s.received
  placed : s'.placed = s.placed
  taken : s'.rx.taken = s.rx.taken
  cursor : s.client.cursor < cols → s'.client.cursor < cols

theorem ClientOnly.refl (s : Match) : ClientOnly s s := ⟨rfl, rfl, rfl, rfl, rfl, id⟩

theorem ClientOnly.of_client (s : Match) {client : Client}
    (h : s.client.cursor < cols → client.cursor < cols) :
    ClientOnly s { s with client := client } := ⟨rfl, rfl, rfl, rfl, rfl, h⟩

theorem ClientOnly.sendMove (s : Match) (col : UInt8) (choice : Option Choice) (arrives : Bool)
    (phase : ClientPhase) : ClientOnly s (s.sendMove col choice arrives phase) := by
  rw [Match.sendMove]
  dsimp only
  split
  · refine ⟨rfl, rfl, rfl, rfl, ?_, id⟩
    rw [Ble.hostStep]
    split <;> rfl
  · exact ⟨rfl, rfl, rfl, rfl, rfl, id⟩

theorem ClientOnly.clientFinish (s : Match) : ClientOnly s s.clientFinish := by
  rw [Match.clientFinish]
  split
  · exact .of_client s id
  · exact .refl s

theorem ClientOnly.clientKey (s : Match) (key : Key) (arrives : Bool) :
    ClientOnly s (s.clientKey key arrives) := by
  rw [Match.clientKey.eq_def]
  split
  · cases key with
    | left => exact .of_client s (Nat.lt_of_le_of_lt (Nat.sub_le _ _))
    | right =>
        dsimp only
        split
        · rename_i hlt
          exact .of_client s fun _ => Nat.add_lt_of_lt_sub hlt
        · exact .refl s
    | ok =>
        dsimp only
        split
        · exact .sendMove s _ _ arrives _
        · exact .refl s
    | okLong => exact .sendMove s _ _ arrives _
    | none | up | down | okHold | okDouble => exact .refl s
  · exact .refl s

theorem ClientOnly.retry (s : Match) (ok : Bool) : ClientOnly s (s.retry ok) := by
  rw [Match.retry]
  split
  · split <;> exact .of_client s id
  · exact .refl s

theorem ClientOnly.poll (s : Match) (ok : Bool) : ClientOnly s (s.poll ok) := by
  rw [Match.poll]
  split
  · split <;> exact .of_client s id
  · exact .refl s

theorem ClientOnly.pollKey (s : Match) (key : Key) (arrives : Bool) :
    ClientOnly s (s.pollKey key arrives) := by
  rw [Match.pollKey]
  split
  · split
    · exact .sendMove s _ _ arrives _
    · exact .of_client s id
  · exact .refl s

theorem Match.Ok.client {s s' : Match} (h : s.Ok) (hclient : ClientOnly s s') : s'.Ok := by
  have hwaits : s'.waits ↔ s.waits := by rw [Match.waits, Match.waits, hclient.host]
  obtain ⟨hhost, htx, -, hplaced, htaken, hcursor⟩ := hclient
  exact {
    turn := hhost ▸ h.turn
    cursor_lt := hcursor h.cursor_lt
    goesOn := hhost ▸ h.goesOn
    published := by
      rw [hhost, htx]
      exact h.published
    taken := fun htrue => hwaits.mpr (h.taken (htaken.symm.trans htrue))
    handling := by
      rw [hhost, htaken]
      exact h.handling
    fresh := by
      rw [hhost, hplaced]
      exact h.fresh
    alternates := hplaced ▸ h.alternates
    last := by
      rw [hhost, hplaced]
      exact h.last }

theorem Match.Ok.step {s : Match} (h : s.Ok) (a : Step) : (step s a).1.Ok := by
  cases a with
  | draw client => exact h.draw client
  | publish => exact h.publish
  | finish => exact h.finish
  | hostKey key => exact h.hostKey key
  | take => exact h.take
  | copyOut => exact h.copyOut
  | timeout key => exact h.timeout key
  | handle => exact h.handle
  | give => exact h.give
  | clientFinish => exact h.client (.clientFinish s)
  | clientKey key arrives => exact h.client (.clientKey s key arrives)
  | retry ok => exact h.client (.retry s ok)
  | poll ok => exact h.client (.poll s ok)
  | pollKey key arrives => exact h.client (.pollKey s key arrives)

/-- Nothing that the client has written is still to be dealt with. -/
def Match.Quiet (s : Match) : Prop := s.rx.due = 0 ∧ s.host.phase.handling = false

/-- One packet of the client's is still to be dealt with. -/
def Match.Carries (s : Match) (packet : List UInt8) (choice : Option Choice) : Prop :=
  (s.rx.due = 1 ∧ s.rx.buf = packet ∧ s.choice = choice ∧ s.host.phase.handling = false) ∨
    (s.rx.due = 0 ∧ s.host.phase = .handle packet ∧ s.received = choice)

/-- The client's move is on its way to the board on which it was chosen. -/
def Match.Flying (s : Match) : Prop :=
  s.host.board = s.client.board ∧ (s.host.phase = .loop ∨ s.host.phase.handling = true) ∧
    ∃ col < cols,
      s.Carries (movePkt s.client.seq (UInt8.ofNat col)) (some ⟨s.client.board, col⟩)

/-- The client has no move on its way, and in its turn it knows the host's board. -/
def Match.Idle (s : Match) : Prop :=
  s.Quiet ∧
    (s.client.board.ClientsTurn → s.host.phase = .loop ∧ s.host.board = s.client.board)

/-- Where the client's move can be, while the host goes on. -/
def Match.Live (s : Match) : Prop :=
  match s.client.phase with
  | .loop => s.Idle
  | .polled => s.Idle
  | .awaiting _ =>
      s.host.phase ≠ .start ∧ s.client.board.ClientsTurn ∧
        (s.Flying ∨ s.Quiet ∧ (s.host.board = s.client.board ∨ s.Seen))
  | .returned _ => s.Quiet ∨ ∃ choice, s.Carries (movePkt s.client.seq moveBye) choice

/-- What a step of the host's leaves of it, as long as it does not deal with a packet. -/
structure HostStays (s s' : Match) : Prop where
  client : s'.client = s.client
  quiet : s.Quiet → s'.Quiet
  carries : ∀ packet choice, packet.length = 3 → s.Carries packet choice →
    s'.Carries packet choice
  start : s.host.phase ≠ .start → s'.host.phase ≠ .start
  seen : s.Seen → s'.Seen
  board : s.host.phase ≠ .start → s.host.board.ClientsTurn → s'.host.board = s.host.board
  loop : s.Quiet → s.host.phase = .loop → s.host.board.ClientsTurn → s'.host.phase = .loop
  waits : s.host.board.ClientsTurn → s.host.phase = .loop ∨ s.host.phase.handling = true →
    s'.host.phase = .loop ∨ s'.host.phase.handling = true

theorem HostStays.refl (s : Match) : HostStays s s where
  client := rfl
  quiet := id
  carries := fun _ _ _ h => h
  start := id
  seen := id
  board := fun _ _ => rfl
  loop := fun _ h _ => h
  waits := fun _ h => h

theorem Match.Idle.stays {s s' : Match} (h : s.Idle) (hs : HostStays s s') : s'.Idle := by
  refine ⟨hs.quiet h.1, fun hturn => ?_⟩
  rw [hs.client] at hturn ⊢
  obtain ⟨hphase, hboard⟩ := h.2 hturn
  have hturn' : s.host.board.ClientsTurn := hboard ▸ hturn
  have hstart : s.host.phase ≠ .start := by
    rw [hphase]
    nofun
  exact ⟨hs.loop h.1 hphase hturn', (hs.board hstart hturn').trans hboard⟩

theorem Match.Live.stays {s s' : Match} (h : s.Live) (hs : HostStays s s') : s'.Live := by
  rw [Match.Live] at h ⊢
  rw [hs.client]
  split at h
  · exact h.stays hs
  · exact h.stays hs
  · obtain ⟨hstart, hturn, hmove⟩ := h
    refine ⟨hs.start hstart, hturn, ?_⟩
    rcases hmove with ⟨hboard, hwaits, col, hcol, hcarries⟩ | ⟨hquiet, hmove⟩
    · have hturn' : s.host.board.ClientsTurn := hboard ▸ hturn
      have hsame := hs.board hstart hturn'
      refine Or.inl ⟨?_, hs.waits hturn' hwaits, col, hcol, ?_⟩
      · rw [hs.client, hsame, hboard]
      · rw [hs.client]
        exact hs.carries _ _ rfl hcarries
    · refine Or.inr ⟨hs.quiet hquiet, hmove.imp (fun hboard => ?_) hs.seen⟩
      rw [hs.board hstart (hboard ▸ hturn), hboard]
  · rcases h with hquiet | ⟨choice, hcarries⟩
    · exact Or.inl (hs.quiet hquiet)
    · exact Or.inr ⟨choice, hs.carries _ _ rfl hcarries⟩

theorem HostStays.of_rx (s : Match) {rx : Ble.HostRx} (hdue : s.rx.due ≤ 1 → rx.due = s.rx.due)
    (hbuf : rx.buf = s.rx.buf) : HostStays s { s with rx := rx } :=
  { HostStays.refl s with
    quiet := fun h => ⟨(hdue (h.1.trans_le (Nat.zero_le 1))).trans h.1, h.2⟩
    carries := by
      rintro packet choice - (⟨h, hpacket, hrest⟩ | ⟨h, hrest⟩)
      · exact Or.inl ⟨(hdue h.le).trans h, hbuf.trans hpacket, hrest⟩
      · exact Or.inr ⟨(hdue (h.trans_le (Nat.zero_le 1))).trans h, hrest⟩ }

theorem HostStays.give (s : Match) : HostStays s s.give :=
  .of_rx s (fun h => (Ble.due_give h).1) (by
    rw [Ble.hostStep]
    split <;> rfl)

theorem HostStays.take (s : Match) : HostStays s s.take := by
  rw [Match.take]
  split
  · exact .of_rx s (fun _ => (Ble.due_take s.rx).1) (Ble.due_take s.rx).2
  · exact .refl s

theorem HostStays.draw (s : Match) (client : Bool) : HostStays s (s.draw client) := by
  rw [Match.draw]
  split
  · rename_i hphase
    exact {
      client := rfl
      quiet := fun h => ⟨h.1, rfl⟩
      carries := by
        rintro packet choice - (⟨h, hpacket, hchoice, -⟩ | ⟨-, hhandle, -⟩)
        · exact Or.inl ⟨h, hpacket, hchoice, rfl⟩
        · exact nomatch hphase.symm.trans hhandle
      start := nofun
      seen := id
      board := fun hstart => absurd hphase hstart
      loop := fun _ hloop => nomatch hphase.symm.trans hloop
      waits := by
        rw [hphase]
        exact fun _ hloop => hloop.elim nofun nofun }
  · exact .refl s

theorem publish_stays (s : Match) :
    s.publish.host.phase.over = true ∨ HostStays s s.publish := by
  rw [Match.publish]
  split
  · rename_i endReason stop hphase
    cases stop with
    | true => exact Or.inl rfl
    | false =>
        exact Or.inr {
          client := rfl
          quiet := fun h => ⟨h.1, rfl⟩
          carries := by
            rintro packet choice - (⟨h, hpacket, hchoice, -⟩ | ⟨-, hhandle, -⟩)
            · exact Or.inl ⟨h, hpacket, hchoice, rfl⟩
            · exact nomatch hphase.symm.trans hhandle
          start := nofun
          seen := id
          board := fun _ _ => rfl
          loop := fun _ _ _ => rfl
          waits := fun _ _ => Or.inl rfl }
  · exact Or.inr (.refl s)

theorem hostKey_stays (s : Match) (key : Key) :
    (s.hostKey key).host.phase.over = true ∨ HostStays s (s.hostKey key) := by
  rw [Match.hostKey.eq_def]
  split
  · rename_i hcond
    obtain ⟨hphase, hhost⟩ := hcond
    cases key with
    | left => exact Or.inr { HostStays.refl s with }
    | right =>
        dsimp only
        split
        · exact Or.inr { HostStays.refl s with }
        · exact Or.inr (.refl s)
    | ok =>
        dsimp only
        split
        · refine Or.inr {
            client := rfl
            quiet := fun h => ⟨h.1, rfl⟩
            carries := ?_
            start := nofun
            seen := id
            board := fun _ hturn => absurd hhost hturn.not_hostsTurn
            loop := fun _ _ hturn => absurd hhost hturn.not_hostsTurn
            waits := fun hturn => absurd hhost hturn.not_hostsTurn }
          rintro packet choice - (⟨h, hpacket, hchoice, -⟩ | ⟨-, hhandle, -⟩)
          · exact Or.inl ⟨h, hpacket, hchoice, rfl⟩
          · exact nomatch hphase.symm.trans hhandle
        · exact Or.inr (.refl s)
    | okLong => exact Or.inl rfl
    | none | up | down | okHold | okDouble => exact Or.inr (.refl s)
  · exact Or.inr (.refl s)

theorem HostStays.copyOut (s : Match) : HostStays s s.copyOut := by
  rw [Match.copyOut]
  split
  · rename_i hcond
    obtain ⟨hwaits, htaken⟩ := hcond
    have hdue := (Ble.due_copyOut htaken 16).1
    have hsome : s.rx.due ≠ 0 := by
      rw [← hdue]
      exact Nat.succ_ne_zero _
    exact {
      client := rfl
      quiet := fun h => absurd h.1 hsome
      carries := by
        rintro packet choice hlength (⟨h, hpacket, hchoice, -⟩ | ⟨h, -⟩)
        · refine Or.inr ⟨Nat.succ.inj (hdue.trans h), ?_, hchoice⟩
          have hfits : packet.take 16 = packet := List.take_of_length_le (by omega)
          simp only [hpacket, hfits]
        · exact absurd h hsome
      start := nofun
      seen := id
      board := fun _ _ => rfl
      loop := fun h => absurd h.1 hsome
      waits := fun _ _ => Or.inr rfl }
  · exact .refl s

theorem handle_movePkt {s : Match} {seq : UInt16} {col : UInt8}
    (hphase : s.host.phase = .handle (movePkt seq col)) :
    s.handle =
      if s.host.haveSeq ∧ seq.toUInt8 = s.host.lastSeq then s.continue
      else if col = moveBye then
        { s with host := { s.host with phase := .returned endQuit } }
      else if cols ≤ col.toNat ∨ rows ≤ columnHeight s.host.board col.toNat then
        let s := { s with host := { s.host with violations := s.host.violations + 1 } }
        if acThreshold ≤ s.host.violations then s.sendNext endAnticheat true
        else s.sendNext endNone false
      else
        let s := { s with host := { s.host with haveSeq := true, lastSeq := seq.toUInt8 } }
        s.place col.toNat 2 (.client s.host.board col.toNat s.received) := by
  simp only [Match.handle, hphase, movePkt, ne_eq, not_true_eq_false, if_false]

/-- The client's move comes to the board on which it was chosen. -/
theorem Match.Flying.handle {s : Match} (h : s.Flying) (hturn : s.client.board.ClientsTurn)
    {n : Nat} (hclient : s.client.phase = .awaiting n)
    (hhandling : s.host.phase.handling = true) :
    (s.handle.host.phase.over = true ∨ s.handle.Live) ∧
      ∀ d ∈ s.handle.placed, d ∈ s.placed ∨ d.Agrees := by
  obtain ⟨hboard, -, col, hcol, hcarries⟩ := h
  have hquiet : s.rx.due = 0 ∧ s.host.phase =
      .handle (movePkt s.client.seq (UInt8.ofNat col)) ∧
        s.received = some ⟨s.client.board, col⟩ := by
    rcases hcarries with ⟨-, -, -, hnone⟩ | hcarries
    · exact absurd (hhandling.symm.trans hnone) (by decide)
    · exact hcarries
  obtain ⟨hdue, hphase, hreceived⟩ := hquiet
  have hcols : col < 7 := hcol
  have htoNat : (UInt8.ofNat col).toNat = col := by
    rw [UInt8.toNat_ofNat']
    omega
  have hlive : ∀ {s' : Match}, s'.client = s.client → s'.rx = s.rx →
      s'.host.phase.handling = false → s'.host.phase ≠ .start →
      (s'.host.board = s.client.board ∨
        s'.host.haveSeq = true ∧ s'.host.lastSeq = s.client.seq.toUInt8) → s'.Live := by
    intro s' hc hrx hh hstart hanswer
    rw [Match.Live, hc, hclient]
    refine ⟨hstart, hc ▸ hturn, Or.inr ⟨⟨hrx ▸ hdue, hh⟩, ?_⟩⟩
    rw [Match.Seen, hc]
    exact hanswer
  rw [handle_movePkt hphase]
  split
  · exact ⟨Or.inr (hlive rfl rfl rfl nofun (Or.inl hboard)), fun _ => Or.inl⟩
  · split
    · exact ⟨Or.inl rfl, fun _ => Or.inl⟩
    · split
      · dsimp only
        split
        · exact ⟨Or.inl rfl, fun _ => Or.inl⟩
        · exact ⟨Or.inr (hlive rfl rfl rfl nofun (Or.inl hboard)), fun _ => Or.inl⟩
      · refine ⟨Or.inr (hlive rfl rfl rfl nofun (Or.inr ⟨rfl, rfl⟩)), fun d hd => ?_⟩
        rcases List.mem_append.mp hd with hd | hd
        · exact Or.inl hd
        · obtain rfl := List.mem_singleton.mp hd
          refine Or.inr ?_
          simp only [Placement.Agrees, htoNat]
          rw [hreceived, hboard]

theorem Match.Live.handle {s : Match} (h : s.Live) :
    (s.handle.host.phase.over = true ∨ s.handle.Live) ∧
      ∀ d ∈ s.handle.placed, d ∈ s.placed ∨ d.Agrees := by
  cases hhandling : s.host.phase.handling with
  | false =>
      have hsame : s.handle = s := by
        rw [Match.handle]
        split
        · rename_i hphase
          rw [hphase] at hhandling
          cases hhandling
        · rename_i hphase
          rw [hphase] at hhandling
          cases hhandling
        · rfl
      rw [hsame]
      exact ⟨Or.inr h, fun _ => Or.inl⟩
  | true =>
      have hnot : ¬ s.Quiet := fun hquiet => absurd (hhandling.symm.trans hquiet.2) (by decide)
      rw [Match.Live] at h
      split at h
      · exact absurd h.1 hnot
      · exact absurd h.1 hnot
      · rename_i n hclient
        exact (h.2.2.resolve_right fun hquiet => hnot hquiet.1).handle h.2.1 hclient hhandling
      · rename_i endReason hclient
        obtain ⟨choice, hcarries⟩ := h.resolve_left hnot
        obtain ⟨hdue, hphase, -⟩ := hcarries.resolve_left fun hrx =>
          absurd (hhandling.symm.trans hrx.2.2.2) (by decide)
        rw [handle_movePkt hphase]
        split
        · refine ⟨Or.inr ?_, fun _ => Or.inl⟩
          have hclient' : s.continue.client.phase = .returned endReason := hclient
          rw [Match.Live, hclient']
          exact Or.inl ⟨hdue, rfl⟩
        · exact ⟨Or.inl rfl, fun _ => Or.inl⟩

/-- A write of the client's, when the host has dealt with the ones before. -/
theorem Match.Quiet.sendMove {s : Match} (h : s.Quiet) (col : UInt8) (choice : Option Choice)
    (arrives : Bool) (phase : ClientPhase) :
    ((s.sendMove col choice arrives phase).Quiet ∨
      (s.sendMove col choice arrives phase).Carries (movePkt (s.client.seq + 1) col) choice) ∧
    (s.sendMove col choice arrives phase).host = s.host ∧
    (s.sendMove col choice arrives phase).client =
      { s.client with seq := s.client.seq + 1, phase := phase } := by
  have hbusy : s.rx.busy = false := (Ble.due_eq_zero_iff.mp h.1).2.2
  obtain ⟨hdue, hbuf⟩ := Ble.due_write hbusy (movePkt (s.client.seq + 1) col)
  rw [Match.sendMove]
  dsimp only
  split
  · refine ⟨Or.inr (Or.inl ⟨?_, ?_, rfl, h.2⟩), rfl, rfl⟩
    · exact hdue.trans (congrArg (· + 1) h.1)
    · exact hbuf.trans (List.take_of_length_le (Nat.le_of_ble_eq_true rfl))
  · exact ⟨Or.inl h, rfl, rfl⟩

theorem Match.Live.clientFinish {s : Match} (h : s.Live) : s.clientFinish.Live := by
  rw [Match.clientFinish]
  split
  · rename_i hcond
    rw [Match.Live, hcond.1] at h
    exact Or.inl h.1
  · exact h

theorem Match.Live.clientKey {s : Match} (h : s.Live) (hok : s.Ok) (key : Key)
    (arrives : Bool) : (s.clientKey key arrives).Live := by
  rw [Match.clientKey.eq_def]
  split
  · rename_i hcond
    obtain ⟨hloop, hturn⟩ := hcond
    have hidle : s.Idle := by
      rw [Match.Live, hloop] at h
      exact h
    obtain ⟨hphase, hboard⟩ := hidle.2 hturn
    have hmoved : ∀ cursor, Match.Live { s with client := { s.client with cursor := cursor } } := by
      intro cursor
      rw [Match.Live, show ({ s.client with cursor := cursor } : Client).phase = .loop from hloop]
      exact hidle
    cases key with
    | left => exact hmoved _
    | right =>
        dsimp only
        split
        · exact hmoved _
        · exact h
    | ok =>
        dsimp only
        split
        · obtain ⟨hsent, hhost, hclient⟩ := hidle.1.sendMove (UInt8.ofNat s.client.cursor)
            (some ⟨s.client.board, s.client.cursor⟩) arrives (.awaiting 0)
          rw [Match.Live, hclient]
          refine ⟨?_, hturn, ?_⟩
          · rw [hhost, hphase]
            nofun
          · rcases hsent with hquiet | hcarries
            · refine Or.inr ⟨hquiet, Or.inl ?_⟩
              rw [hhost]
              exact hboard
            · refine Or.inl ⟨?_, Or.inl (hhost ▸ hphase), s.client.cursor, hok.cursor_lt, ?_⟩
              · rw [hhost, hclient]
                exact hboard
              · rw [hclient]
                exact hcarries
        · exact h
    | okLong =>
        obtain ⟨hsent, hhost, hclient⟩ :=
          hidle.1.sendMove moveBye none arrives (.returned endQuit)
        rw [Match.Live, hclient]
        exact hsent.imp id fun hcarries => ⟨none, hcarries⟩
    | none | up | down | okHold | okDouble => exact h
  · exact h

theorem Match.Live.pollKey {s : Match} (h : s.Live) (key : Key) (arrives : Bool) :
    (s.pollKey key arrives).Live := by
  rw [Match.pollKey]
  split
  · rename_i hpolled
    have hidle : s.Idle := by
      rw [Match.Live, hpolled] at h
      exact h
    split
    · obtain ⟨hsent, hhost, hclient⟩ :=
        hidle.1.sendMove moveBye none arrives (.returned endQuit)
      rw [Match.Live, hclient]
      exact hsent.imp id fun hcarries => ⟨none, hcarries⟩
    · exact hidle
  · exact h

theorem Match.Ok.read {s : Match} (h : s.Ok)
    (hphase : s.host.phase = .loop ∨ s.host.phase.handling = true) {ok : Bool} {board : Board}
    {endReason : UInt8} (hread : s.read ok = some (board, endReason)) :
    board = s.host.board ∧ endReason = endNone := by
  cases ok with
  | false => cases hread
  | true =>
      rw [Match.read, if_pos rfl, h.published hphase, readState_statePkt] at hread
      obtain ⟨rfl, rfl⟩ := Prod.mk.inj (Option.some.inj hread)
      exact ⟨rfl, rfl⟩

theorem Match.Quiet.idle_read {s : Match} (h : s.Quiet) (hok : s.Ok) {ok : Bool}
    {board : Board} (hread : s.read ok = some (board, endNone)) (hreads : s.ReadsSettled ok)
    {client : Client} (hclient : client.board = board) :
    Match.Idle { s with client := client } := by
  refine ⟨h, fun hturn => ?_⟩
  have hphase : s.host.phase = .loop := (hreads board hread (hclient ▸ hturn)).1
  exact ⟨hphase, ((hok.read (Or.inl hphase) hread).1.symm).trans hclient.symm⟩

theorem Match.Flying.not_settled {s : Match} (h : s.Flying) : ¬ s.Settled := by
  rintro ⟨hphase, hdue⟩
  obtain ⟨-, -, col, -, ⟨hone, -⟩ | ⟨-, hhandle, -⟩⟩ := h
  · exact absurd (hdue.symm.trans hone) (by decide)
  · exact nomatch hphase.symm.trans hhandle

theorem Match.Live.retry {s : Match} (h : s.Live) (hok : s.Ok) {ok : Bool}
    (hcond : Answered s (.retry ok)) : (s.retry ok).Live := by
  rw [Match.retry]
  split
  · rename_i n hclient
    obtain ⟨hreads, hgiveUp⟩ := hcond n hclient
    rw [Match.Live, hclient] at h
    obtain ⟨hstart, hturn, hmove⟩ := h
    split
    · rename_i board endReason hread
      have hquiet : s.Quiet := by
        refine hmove.elim (fun hflying => ?_) And.left
        obtain ⟨rfl, rfl⟩ := hok.read hflying.2.1 hread
        exact absurd (hreads _ hread (hflying.1 ▸ hturn)) hflying.not_settled
      dsimp only
      split
      · rename_i hreason
        subst hreason
        exact hquiet.idle_read hok hread hreads rfl
      · exact Or.inl hquiet
    · rename_i hread
      dsimp only
      split
      · exact ⟨hstart, hturn, hmove⟩
      · rename_i hlast
        obtain ⟨hsettled, hseen⟩ := hgiveUp (Nat.not_lt.mp hlast) hread
        rcases hmove with hflying | ⟨hquiet, hmove⟩
        · exact absurd hsettled hflying.not_settled
        · exact ⟨hquiet, fun _ => ⟨hsettled.1, hmove.resolve_right hseen⟩⟩
  · exact h

theorem Match.Live.poll {s : Match} (h : s.Live) (hok : s.Ok) {ok : Bool}
    (hcond : Answered s (.poll ok)) : (s.poll ok).Live := by
  rw [Match.poll]
  split
  · rename_i hloop
    have hidle : s.Idle := by
      rw [Match.Live, hloop.1] at h
      exact h
    split
    · rename_i board endReason hread
      dsimp only
      split
      · rename_i hreason
        subst hreason
        exact hidle.1.idle_read hok hread (hcond hloop.1) rfl
      · exact Or.inl hidle.1
    · dsimp only
      split
      · exact Or.inl hidle.1
      · exact hidle
  · exact h

/-- What holds as long as the client goes on with answers only. -/
structure Match.Inv (s : Match) : Prop where
  ok : s.Ok
  agrees : ∀ d ∈ s.placed, d.Agrees
  live : s.host.phase.over = true ∨ s.Live

/-- The host, having left its loop, places nothing more. -/
theorem over_step {s : Match} (h : s.host.phase.over = true) (a : Step) :
    (step s a).1.host.phase.over = true ∧ (step s a).1.placed = s.placed := by
  have hloop : s.host.phase ≠ .loop := by
    intro hloop
    rw [hloop] at h
    cases h
  have hwaits : ¬ s.waits := fun hwaits => hloop hwaits.1
  have hclient : ∀ {s' : Match}, ClientOnly s s' →
      s'.host.phase.over = true ∧ s'.placed = s.placed := fun hs' =>
    ⟨by rw [hs'.host]; exact h, hs'.placed⟩
  cases a with
  | draw client =>
      simp only [step, Match.draw]
      split
      · rename_i hstart
        rw [hstart] at h
        cases h
      · exact ⟨h, rfl⟩
  | publish =>
      simp only [step, Match.publish]
      split
      · rename_i endReason stop hphase
        rw [hphase] at h
        cases stop with
        | false => cases h
        | true => exact ⟨rfl, rfl⟩
      · exact ⟨h, rfl⟩
  | handle =>
      simp only [step, Match.handle]
      split
      · rename_i hphase
        rw [hphase] at h
        cases h
      · rename_i hphase
        rw [hphase] at h
        cases h
      · exact ⟨h, rfl⟩
  | finish =>
      simp only [step, Match.finish, hloop, false_and, if_false]
      exact ⟨h, trivial⟩
  | hostKey key =>
      simp only [step, Match.hostKey.eq_def, hloop, false_and, if_false]
      exact ⟨h, trivial⟩
  | take =>
      simp only [step, Match.take, hwaits, if_false]
      exact ⟨h, trivial⟩
  | copyOut =>
      simp only [step, Match.copyOut, hwaits, false_and, if_false]
      exact ⟨h, trivial⟩
  | timeout key =>
      simp only [step, Match.timeout, hwaits, false_and, if_false]
      exact ⟨h, trivial⟩
  | give => exact ⟨h, rfl⟩
  | clientFinish => exact hclient (.clientFinish s)
  | clientKey key arrives => exact hclient (.clientKey s key arrives)
  | retry ok => exact hclient (.retry s ok)
  | poll ok => exact hclient (.poll s ok)
  | pollKey key arrives => exact hclient (.pollKey s key arrives)

theorem placed_hostKey (s : Match) (key : Key) :
    ∀ d ∈ (s.hostKey key).placed, d ∈ s.placed ∨ d.Agrees := by
  rw [Match.hostKey.eq_def]
  split
  · cases key with
    | right =>
        dsimp only
        split <;> exact fun _ => Or.inl
    | ok =>
        dsimp only
        split
        · intro d hd
          rcases List.mem_append.mp hd with hd | hd
          · exact Or.inl hd
          · obtain rfl := List.mem_singleton.mp hd
            exact Or.inr trivial
        · exact fun _ => Or.inl
    | left | okLong | none | up | down | okHold | okDouble => exact fun _ => Or.inl
  · exact fun _ => Or.inl

/-- As long as the host goes on, a step leaves everything of the client's where it belongs. -/
theorem Match.Live.step {s : Match} (h : s.Live) (hok : s.Ok) (a : Step)
    (hcond : Answered s a) :
    ((step s a).1.host.phase.over = true ∨ (step s a).1.Live) ∧
      ∀ d ∈ (step s a).1.placed, d ∈ s.placed ∨ d.Agrees := by
  have hkept : ∀ {s' : Match}, s'.host.phase.over = true ∨ s'.Live → s'.placed = s.placed →
      (s'.host.phase.over = true ∨ s'.Live) ∧ ∀ d ∈ s'.placed, d ∈ s.placed ∨ d.Agrees :=
    fun hlive hplaced => ⟨hlive, fun d hd => Or.inl (hplaced ▸ hd)⟩
  cases a with
  | draw client =>
      refine hkept (Or.inr (h.stays (.draw s client))) ?_
      simp only [Games.step, Match.draw]
      split <;> rfl
  | publish =>
      refine hkept ((publish_stays s).imp id h.stays) ?_
      simp only [Games.step, Match.publish]
      split <;> rfl
  | finish =>
      refine hkept ?_ ?_ <;> simp only [Games.step, Match.finish] <;> split
      · exact Or.inl rfl
      · exact Or.inr h
      · rfl
      · rfl
  | hostKey key => exact ⟨(hostKey_stays s key).imp id h.stays, placed_hostKey s key⟩
  | take =>
      refine hkept (Or.inr (h.stays (.take s))) ?_
      simp only [Games.step, Match.take]
      split <;> rfl
  | copyOut =>
      refine hkept (Or.inr (h.stays (.copyOut s))) ?_
      simp only [Games.step, Match.copyOut]
      split <;> rfl
  | timeout key =>
      refine hkept ?_ ?_ <;> simp only [Games.step, Match.timeout] <;> split
      · exact Or.inl rfl
      · exact Or.inr h
      · rfl
      · rfl
  | handle => exact h.handle
  | give => exact hkept (Or.inr (h.stays (.give s))) rfl
  | clientFinish =>
      exact hkept (Or.inr h.clientFinish) (ClientOnly.clientFinish s).placed
  | clientKey key arrives =>
      exact hkept (Or.inr (h.clientKey hok key arrives)) (ClientOnly.clientKey s key arrives).placed
  | retry ok => exact hkept (Or.inr (h.retry hok hcond)) (ClientOnly.retry s ok).placed
  | poll ok => exact hkept (Or.inr (h.poll hok hcond)) (ClientOnly.poll s ok).placed
  | pollKey key arrives =>
      exact hkept (Or.inr (h.pollKey key arrives)) (ClientOnly.pollKey s key arrives).placed

/-- What every step keeps behind which the client does not go on too early. -/
theorem Match.Inv.step {s : Match} (h : s.Inv) (a : Step) (hcond : Answered s a) :
    (step s a).1.Inv := by
  refine ⟨h.ok.step a, ?_, ?_⟩
  · rcases h.live with hover | hlive
    · rw [(over_step hover a).2]
      exact h.agrees
    · intro d hd
      exact ((hlive.step h.ok a hcond).2 d hd).elim (h.agrees d) id
  · rcases h.live with hover | hlive
    · exact Or.inl (over_step hover a).1
    · exact (hlive.step h.ok a hcond).1

theorem Match.Inv.start (hello tx : List UInt8) : (Match.start hello tx).Inv where
  ok := {
    turn := Or.inl rfl
    cursor_lt := Nat.lt_of_lt_of_eq (by decide : 3 < 7) rfl
    goesOn := nofun
    published := fun hphase => hphase.elim nofun nofun
    taken := nofun
    handling := nofun
    fresh := fun _ => rfl
    alternates := List.isChain_nil
    last := nofun }
  agrees := nofun
  live := Or.inr ⟨⟨rfl, rfl⟩, fun hturn => absurd hturn.1 (show turnHost ≠ turnClient by decide)⟩

/-- In every match, however its steps follow each other, the two devices agree on every move
as long as the client takes its turn only from a host that has dealt with its last write. -/
theorem moves_agree (hello tx : List UInt8) (steps : List Step)
    (h : Machine.Along step Answered (.start hello tx) steps) :
    Agreed (Machine.run step (.start hello tx) steps).placed := by
  have hinv : (Machine.run step (.start hello tx) steps).Inv :=
    h.invariant (fun _ a hs hcond => hs.step a hcond) (.start hello tx)
  exact ⟨hinv.agrees, hinv.ok.alternates⟩

/-- The client reads the board and moves, and the host places its disc. -/
def answeredMove : List Step :=
  [.draw true, .publish, .poll true, .pollKey .none true, .clientKey .ok true, .give, .take,
    .copyOut, .handle, .publish, .retry true]

theorem moves_agree_answeredMove :
    Agreed (Machine.run step (.start [] []) answeredMove).placed :=
  moves_agree [] [] answeredMove (by decide)

/-- The client reads the board from before its move, and moves once more; the host has placed
the first disc and one of its own when it receives the second move. -/
def earlyRead : List Step :=
  [.draw true, .publish, .poll true, .pollKey .none true, .clientKey .ok true, .give, .take,
    .copyOut, .retry true, .clientKey .ok true, .give, .handle, .publish, .hostKey .ok,
    .publish, .take, .copyOut, .handle]

/-- The host places a disc for the client that was chosen on an earlier board. -/
theorem move_for_earlier_board :
    ¬ Agreed (Machine.run step (.start [] []) earlyRead).placed := by
  decide

end Games
end JppDos
