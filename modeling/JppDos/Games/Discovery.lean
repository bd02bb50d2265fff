import JppDos.Ble.HostRx
import JppDos.Lib.CText
import Mathlib.Logic.Function.Basic

/-!
# Finding a peer

`games_ble_discover` on two devices.  Each of them advertises and waits for a HELLO, scans, and
connects to what it has found to write a HELLO of its own, until one of the two happens.  A HELLO
gets into the buffer of the peer's RX characteristic whatever the peer is at, what a scan returns
need not be so any more, and a connection comes about or does not.

Main fact:
* `roles_agree`: one device is the host and the other its client, in every run in which a connect
  reaches a device that advertises and a HELLO that has arrived is acknowledged.
-/

namespace JppDos
namespace Games
namespace Discovery

open CText Machine
open Ble (HostRx hostStep)

/-- `build_ad`. -/
def buildAd (gameId : UInt8) (nonce : UInt16) : List UInt8 :=
  [8, 0xFF, 0x50, 0x4A, 0x47, gameId, 0x01, nonce.toUInt8, (nonce >>> 8).toUInt8]

/-- `parse_ad`. -/
def parseAd (gameId : UInt8) : List UInt8 → Bool
  | [] => false
  | len :: data =>
      if len = 0 ∨ data.length < len.toNat then false
      else if 8 ≤ len.toNat ∧ data.take 6 = [0xFF, 0x50, 0x4A, 0x47, gameId, 0x01] then true
      else parseAd gameId (data.drop len.toNat)
  termination_by ad => ad.length
  decreasing_by
    simp only [List.length_drop, List.length_cons]
    omega

/-- The HELLO of a game. -/
def hello (gameId : UInt8) : List UInt8 := [0x47, 0x48, gameId, 0x01]

/-- `is_hello`. -/
def isHello (gameId : UInt8) (buf : List UInt8) : Bool := hello gameId == buf.take 4

/-- The advertisement of a game is found by a scan for that game, and by no other. -/
theorem parseAd_buildAd (gameId other : UInt8) (nonce : UInt16) :
    parseAd gameId (buildAd other nonce) = decide (other = gameId) := by
  have hlen : ¬ ((8 : UInt8) = 0 ∨
      [0xFF, 0x50, 0x4A, 0x47, other, 0x01, nonce.toUInt8, (nonce >>> 8).toUInt8].length <
        (8 : UInt8).toNat) := by simp
  rw [buildAd, parseAd, if_neg hlen]
  by_cases hsame : other = gameId
  · rw [if_pos (by simp [hsame]), decide_eq_true hsame]
  · rw [if_neg (by simp [hsame]), decide_eq_false hsame]
    simp [parseAd]

/-- `games_mp_role_t`. -/
inductive Role where
  | none
  | host
  | client
  deriving Repr, DecidableEq

/-- What a scan has found. -/
structure ScanResult where
  address : CStr
  adData : List UInt8
  deriving DecidableEq

/-- Where a device is in `games_ble_discover`: what it does next; `rest` are the scan results that
it has not looked at. -/
inductive Phase where
  | register
  | clearTokens
  | clearBuf
  | setConnectable
  | pollKeys
  | advertiseStart
  | wait
  | copy
  | waited (received : Option (List UInt8))
  | scan
  | next (rest : List ScanResult)
  | connect (found : ScanResult) (rest : List ScanResult)
  | write (found : ScanResult) (rest : List ScanResult)
  | arriving (rest : List ScanResult)
  | answer (rest : List ScanResult)
  | disconnect (rest : List ScanResult)
  | returned (role : Role)
  deriving DecidableEq

/-- A device: `s_advertising`, `s_conn` as the address it is for, and the RX characteristic. -/
structure Device where
  address : CStr
  phase : Phase
  advertising : Bool
  conn : Option CStr
  rx : HostRx
  deriving DecidableEq

/-- A device at the beginning of the call, with what is left in its RX buffer. -/
def Device.start (address : CStr) (buf : List UInt8) (tokens : Nat) : Device where
  address := address
  phase := .register
  advertising := false
  conn := none
  rx := { HostRx.boot with buf := buf, tokens := tokens }

/-- What a device does next: it goes on, or what it calls fails, the user cancels, the wait times
out, the scan has found something, the connect succeeds or does not, the write arrives at the peer
or does not, and its answer is a success or is not.  A client writes what it wants to. -/
inductive Move where
  | go
  | fail
  | cancel
  | timeout
  | scanned (results : List ScanResult)
  | connected (ok : Bool)
  | wrote (arrives : Bool)
  | answered (ok : Bool)
  | packet (payload : List UInt8)
  deriving DecidableEq

namespace Device

/-- A device goes on at another place. -/
def goTo (own : Device) (phase : Phase) : Device := { own with phase := phase }

/-- `games_ble_end`, and `GAMES_MP_NONE` is returned. -/
def giveUp (own : Device) : Device :=
  { own with advertising := false, conn := none, rx := { own.rx with tokens := 0, buf := [] },
             phase := .returned .none }

/-- A step of the host task or of the app on the RX characteristic. -/
def rxStep (own : Device) (step : Ble.HostStep) : Device :=
  { own with rx := (hostStep own.rx step).1 }

/-- One step of a device, next to its peer.  Only the peer has the service of the game. -/
def move (gameId : UInt8) (own peer : Device) : Move → Device × Device
  | .go =>
      match own.phase with
      | .register => (own.goTo .clearTokens, peer)
      | .clearTokens => ({ own with rx := { own.rx with tokens := 0 }, phase := .clearBuf }, peer)
      | .clearBuf => ({ own with rx := { own.rx with buf := [] }, phase := .setConnectable }, peer)
      | .setConnectable => (own.goTo .pollKeys, peer)
      | .pollKeys => (own.goTo .advertiseStart, peer)
      | .advertiseStart => ({ own with advertising := true, phase := .wait }, peer)
      | .wait => if own.rx.tokens = 0 then (own, peer) else ((own.rxStep .take).goTo .copy, peer)
      | .copy =>
          ((own.rxStep (.copyOut (some 64))).goTo (.waited (some (own.rx.buf.take 64))), peer)
      | .waited received =>
          let own := { own with advertising := false }
          if received.any (isHello gameId) then (own.goTo (.returned .host), peer)
          else (own.goTo .scan, peer)
      | .next [] => (own.goTo .pollKeys, peer)
      | .next (found :: rest) =>
          if parseAd gameId found.adData then (own.goTo (.connect found rest), peer)
          else (own.goTo (.next rest), peer)
      | .arriving rest => (own.goTo (.answer rest), peer.rxStep .give)
      | .disconnect rest => ({ own with conn := none, phase := .next rest }, peer)
      | .returned .client => (own, peer.rxStep .give)
      | _ => (own, peer)
  | .fail =>
      match own.phase with
      | .register => (own.goTo (.returned .none), peer)
      | .setConnectable | .advertiseStart | .scan => (own.giveUp, peer)
      | .wait => (own.goTo (.waited none), peer)
      | _ => (own, peer)
  | .cancel => if own.phase = .pollKeys then (own.giveUp, peer) else (own, peer)
  | .timeout =>
      if own.phase = .wait ∧ own.rx.tokens = 0 then (own.goTo (.waited none), peer)
      else (own, peer)
  | .scanned results => if own.phase = .scan then (own.goTo (.next results), peer) else (own, peer)
  | .connected ok =>
      match own.phase with
      | .connect found rest =>
          if ok then ({ own with conn := some found.address, phase := .write found rest }, peer)
          else (own.goTo (.next rest), peer)
      | _ => (own, peer)
  | .wrote arrives =>
      match own.phase with
      | .write found rest =>
          if arrives ∧ found.address = peer.address then
            (own.goTo (.arriving rest), peer.rxStep (.write (hello gameId)))
          else (own.goTo (.disconnect rest), peer)
      | _ => (own, peer)
  | .answered ok =>
      match own.phase with
      | .answer rest =>
          if ok then (own.goTo (.returned .client), peer) else (own.goTo (.disconnect rest), peer)
      | _ => (own, peer)
  | .packet payload =>
      if own.phase = .returned .client then (own, peer.rxStep (.write payload)) else (own, peer)

end Device

/-- One of the two. -/
inductive Side where
  | left
  | right
  deriving Repr, DecidableEq

/-- The other one. -/
def Side.other : Side → Side
  | .left => .right
  | .right => .left

/-- The two devices. -/
abbrev Air := Side → Device

/-- A step of one of the devices. -/
def step (gameId : UInt8) (s : Air) (a : Side × Move) : Air × List Empty :=
  let (own, peer) := (s a.1).move gameId (s a.1.other) a.2
  (fun side => if side = a.1 then own else peer, [])

/-- If both calls return a role other than none, then one device is the host and the other is its
client. -/
def Agreed (s : Air) : Prop :=
  ∀ role : Side → Role, (∀ side, (s side).phase = .returned (role side) ∧ role side ≠ .none) →
    ∃ side, role side = .host ∧ role side.other = .client ∧
      (s side.other).conn = some (s side).address

/-- The address that a device tries to connect to. -/
def Phase.connecting : Phase → Option CStr
  | .connect found _ => some found.address
  | _ => none

/-- The device waits for the answer to a HELLO that has arrived. -/
def Phase.unanswered : Phase → Bool
  | .answer _ => true
  | _ => false

/-- A connect that succeeds reaches a peer that advertises, and a HELLO that has arrived is
acknowledged. -/
def Device.Sound (own peer : Device) : Move → Prop
  | .connected ok =>
      ok = true → own.phase.connecting = some peer.address → peer.advertising = true
  | .answered ok => own.phase.unanswered = true → ok = true
  | _ => True

instance (own peer : Device) : ∀ m, Decidable (own.Sound peer m)
  | .connected _ => inferInstanceAs (Decidable (_ → _))
  | .answered _ => inferInstanceAs (Decidable (_ → _))
  | .go | .fail | .cancel | .timeout | .scanned _ | .wrote _ | .packet _ => isTrue trivial

/-- The same for a step of one of the two. -/
def Sound (s : Air) (a : Side × Move) : Prop := (s a.1).Sound (s a.1.other) a.2

instance (s : Air) (a : Side × Move) : Decidable (Sound s a) :=
  inferInstanceAs (Decidable ((s a.1).Sound (s a.1.other) a.2))

/-- A connection is up, or was a moment ago. -/
def Phase.linked : Phase → Bool
  | .write _ _ | .arriving _ | .answer _ | .disconnect _ | .returned .client => true
  | _ => false

/-- A HELLO has arrived at the peer. -/
def Phase.sent : Phase → Bool
  | .arriving _ | .answer _ | .returned .client => true
  | _ => false

/-- The device advertises. -/
def Phase.listening : Phase → Bool
  | .wait | .copy | .waited _ => true
  | _ => false

/-- The RX buffer has been cleared. -/
def Phase.cleared : Phase → Bool
  | .register | .clearTokens | .clearBuf | .returned .none => false
  | _ => true

/-- A HELLO has been taken from the RX buffer. -/
def Phase.heard (gameId : UInt8) : Phase → Bool
  | .waited received => received.any (isHello gameId)
  | .returned .host => true
  | _ => false

/-- There is a HELLO in the RX buffer, or one has been taken from it. -/
def Device.Heard (gameId : UInt8) (own : Device) : Prop :=
  own.phase.cleared = true ∧ isHello gameId own.rx.buf = true ∨ own.phase.heard gameId = true

/-- What holds of a device, next to its peer: it has no connection while it advertises, its HELLO
went to the peer, and what it has heard came from there. -/
structure Half (gameId : UInt8) (own peer : Device) : Prop where
  linked : own.phase.linked = false → own.conn = none
  listening : own.advertising = true → own.phase.listening = true
  target : ∀ found rest, own.phase = .write found rest → own.conn = some found.address
  sent : own.phase.sent = true → own.conn = some peer.address
  heard : own.Heard gameId → peer.phase.sent = true

theorem Half.conn_of_advertising {gameId : UInt8} {own peer : Device} (h : Half gameId own peer)
    (hadv : own.advertising = true) : own.conn = none := by
  refine h.linked ?_
  have hlisten := h.listening hadv
  cases hphase : own.phase <;> rw [hphase] at hlisten <;> first | rfl | cases hlisten

theorem Phase.linked_of_sent {phase : Phase} (h : phase.sent = true) : phase.linked = true := by
  cases phase with
  | returned role => cases role <;> first | rfl | cases h
  | arriving rest | answer rest => rfl
  | _ => cases h

theorem Phase.heard_of_sent {gameId : UInt8} {phase : Phase} (h : phase.sent = true) :
    phase.heard gameId = false := by
  cases phase with
  | returned role => cases role <;> first | rfl | cases h
  | waited received => cases h
  | _ => rfl

/-- A HELLO that is still in the buffer was there before. -/
theorem Device.Heard.of_buf {gameId : UInt8} {own own' : Device} (h : own'.Heard gameId)
    (hcleared : own.phase.cleared = true) (hheard : own'.phase.heard gameId = false)
    (hbuf : own'.rx.buf = own.rx.buf) : own.Heard gameId := by
  rcases h with ⟨-, hhello⟩ | hphase
  · exact Or.inl ⟨hcleared, hbuf ▸ hhello⟩
  · rw [hheard] at hphase
    cases hphase

/-- Without a HELLO in its buffer a device has heard nothing. -/
theorem not_heard {gameId : UInt8} {own : Device}
    (hbuf : own.phase.cleared = false ∨ own.rx.buf = [])
    (hheard : own.phase.heard gameId = false) : ¬ own.Heard gameId := by
  rintro (⟨hcleared, hhello⟩ | hphase)
  · rcases hbuf with hbuf | hbuf
    · rw [hbuf] at hcleared
      cases hcleared
    · rw [hbuf] at hhello
      cases hhello
  · rw [hheard] at hphase
    cases hphase

/-- A HELLO is one also behind the bytes that the wait copies. -/
theorem isHello_take (gameId : UInt8) (buf : List UInt8) :
    isHello gameId (buf.take 64) = isHello gameId buf := by
  rw [isHello, List.take_take]
  rfl

theorem hostStep_buf (rx : HostRx) (step : Ble.HostStep) (h : ∀ payload, step ≠ .write payload) :
    (hostStep rx step).1.buf = rx.buf := by
  cases step with
  | write payload => exact absurd rfl (h payload)
  | give | take =>
      rw [hostStep]
      split <;> rfl
  | copyOut room => cases room <;> rw [hostStep] <;> split <;> rfl

/-- Both devices, of which not each has a connection to the other. -/
structure Paired (gameId : UInt8) (own peer : Device) : Prop where
  mine : Half gameId own peer
  theirs : Half gameId peer own
  apart : own.conn = some peer.address → peer.conn ≠ some own.address

section Steps

variable {gameId : UInt8} {own peer own' : Device}

theorem Paired.symm (h : Paired gameId own peer) : Paired gameId peer own where
  mine := h.theirs
  theirs := h.mine
  apart := fun hpeer hown => h.apart hown hpeer

/-- A step by which a device that has sent nothing gets to no connection. -/
theorem Paired.quiet (h : Paired gameId own peer) (hsent : own.phase.sent = false)
    (haddress : own'.address = own.address) (hconn : own'.conn = none)
    (hlinked : own'.phase.linked = false)
    (hlisten : own'.advertising = true → own'.phase.listening = true)
    (hheard : own'.Heard gameId → own.Heard gameId) : Paired gameId own' peer where
  mine :=
    { linked := fun _ => hconn
      listening := hlisten
      target := fun found rest hphase => by rw [hphase] at hlinked; cases hlinked
      sent := fun hsent' => by rw [Phase.linked_of_sent hsent'] at hlinked; cases hlinked
      heard := fun hown => h.mine.heard (hheard hown) }
  theirs :=
    { linked := h.theirs.linked
      listening := h.theirs.listening
      target := h.theirs.target
      sent := fun hpeer => haddress ▸ h.theirs.sent hpeer
      heard := fun hpeer => by rw [h.theirs.heard hpeer] at hsent; cases hsent }
  apart := fun hown => by rw [hconn] at hown; cases hown

/-- A step by which a device has sent something, or still has. -/
theorem Paired.sends (h : Paired gameId own peer) (hconn : own.conn = some peer.address)
    (hcleared : own.phase.cleared = true) {phase : Phase} (hsent : phase.sent = true)
    (rx : HostRx) :
    Paired gameId (own.goTo phase) { peer with rx := rx } where
  mine :=
    { linked := fun hlinked => by
        change phase.linked = false at hlinked
        rw [Phase.linked_of_sent hsent] at hlinked
        cases hlinked
      listening := fun hadv => by
        rw [h.mine.conn_of_advertising hadv] at hconn
        cases hconn
      target := fun found rest hphase => by
        change phase = .write found rest at hphase
        rw [hphase] at hsent
        cases hsent
      sent := fun _ => hconn
      heard := fun hown => h.mine.heard (hown.of_buf hcleared (Phase.heard_of_sent hsent) rfl) }
  theirs :=
    { linked := h.theirs.linked
      listening := h.theirs.listening
      target := h.theirs.target
      sent := h.theirs.sent
      heard := fun _ => hsent }
  apart := h.apart

theorem Phase.sent_of_not_linked {phase : Phase} (h : phase.linked = false) :
    phase.sent = false := by
  cases hsent : phase.sent with
  | false => rfl
  | true =>
      rw [Phase.linked_of_sent hsent] at h
      cases h

/-- A device without a connection goes on to another place, where it has none. -/
theorem Paired.goTo (h : Paired gameId own peer) {phase : Phase}
    (hlinked : own.phase.linked = false) (hlinked' : phase.linked = false)
    (hcleared : own.phase.cleared = true) (hlisten : own.phase.listening = phase.listening)
    (hheard : phase.heard gameId = false) : Paired gameId (own.goTo phase) peer :=
  h.quiet (Phase.sent_of_not_linked hlinked) rfl (h.mine.linked hlinked) hlinked'
    (fun hadv => hlisten ▸ h.mine.listening hadv) (fun hown => hown.of_buf hcleared hheard rfl)

theorem Paired.giveUp (h : Paired gameId own peer) (hlinked : own.phase.linked = false) :
    Paired gameId own.giveUp peer :=
  h.quiet (Phase.sent_of_not_linked hlinked) rfl rfl rfl (fun hadv => (by cases hadv))
    (fun hheard => absurd hheard (not_heard (Or.inl rfl) rfl))

/-- The advertising is over where a device does not listen. -/
theorem Half.not_advertising (h : Half gameId own peer) (hlisten : own.phase.listening = false) :
    own.advertising = false := by
  cases hadv : own.advertising with
  | false => rfl
  | true =>
      rw [h.listening hadv] at hlisten
      cases hlisten

/-- A device that does not listen goes on with nothing heard. -/
theorem Paired.clears (h : Paired gameId own peer) (hlinked : own.phase.linked = false)
    (hlisten : own.phase.listening = false) (haddress : own'.address = own.address)
    (hconn : own'.conn = own.conn) (hadv : own'.advertising = own.advertising)
    (hlinked' : own'.phase.linked = false) (hheard : ¬ own'.Heard gameId) :
    Paired gameId own' peer :=
  h.quiet (Phase.sent_of_not_linked hlinked) haddress (hconn.trans (h.mine.linked hlinked))
    hlinked' (fun hadv' => by
      rw [hadv, h.mine.not_advertising hlisten] at hadv'
      cases hadv')
    (fun hown => absurd hown hheard)

theorem Paired.go (h : Paired gameId own peer) :
    Paired gameId (own.move gameId peer .go).1 (own.move gameId peer .go).2 := by
  rw [Device.move]
  split
  next hphase =>
    exact h.clears (by rw [hphase]; rfl) (by rw [hphase]; rfl) rfl rfl rfl rfl
      (not_heard (Or.inl rfl) rfl)
  next hphase =>
    exact h.clears (by rw [hphase]; rfl) (by rw [hphase]; rfl) rfl rfl rfl rfl
      (not_heard (Or.inl rfl) rfl)
  next hphase =>
    exact h.clears (by rw [hphase]; rfl) (by rw [hphase]; rfl) rfl rfl rfl rfl
      (not_heard (Or.inr rfl) rfl)
  next hphase =>
    exact h.goTo (by rw [hphase]; rfl) rfl (by rw [hphase]; rfl) (by rw [hphase]; rfl) rfl
  next hphase =>
    exact h.goTo (by rw [hphase]; rfl) rfl (by rw [hphase]; rfl) (by rw [hphase]; rfl) rfl
  next hphase =>
    exact h.quiet (by rw [hphase]; rfl) rfl (h.mine.linked (by rw [hphase]; rfl)) rfl
      (fun _ => rfl) (fun hown => hown.of_buf (by rw [hphase]; rfl) rfl rfl)
  next hphase =>
    split
    · exact h
    · exact h.quiet (by rw [hphase]; rfl) rfl (h.mine.linked (by rw [hphase]; rfl)) rfl
        (fun _ => rfl)
        (fun hown => hown.of_buf (by rw [hphase]; rfl) rfl (hostStep_buf _ _ (by simp)))
  next hphase =>
    have hbuf := hostStep_buf own.rx (.copyOut (some 64)) (by simp)
    refine h.quiet (by rw [hphase]; rfl) rfl (h.mine.linked (by rw [hphase]; rfl)) rfl
      (fun _ => rfl) (fun hown => Or.inl ⟨by rw [hphase]; rfl, ?_⟩)
    rcases hown with ⟨-, hhello⟩ | hhello
    · exact hbuf ▸ hhello
    · rw [← isHello_take]
      exact hhello
  next received hphase =>
    have hlinked : own.phase.linked = false := by rw [hphase]; rfl
    simp only
    split
    next hhello =>
      exact h.quiet (Phase.sent_of_not_linked hlinked) rfl (h.mine.linked hlinked) rfl
        (fun hadv => (by cases hadv)) (fun _ => Or.inr (by rw [hphase]; exact hhello))
    next =>
      exact h.quiet (Phase.sent_of_not_linked hlinked) rfl (h.mine.linked hlinked) rfl
        (fun hadv => (by cases hadv)) (fun hown => hown.of_buf (by rw [hphase]; rfl) rfl rfl)
  next hphase =>
    exact h.goTo (by rw [hphase]; rfl) rfl (by rw [hphase]; rfl) (by rw [hphase]; rfl) rfl
  next hphase =>
    split <;>
      exact h.goTo (by rw [hphase]; rfl) rfl (by rw [hphase]; rfl) (by rw [hphase]; rfl) rfl
  next rest hphase =>
    exact h.sends (h.mine.sent (by rw [hphase]; rfl)) (by rw [hphase]; rfl) rfl _
  next rest hphase =>
    have hoff := h.mine.not_advertising (by rw [hphase]; rfl)
    exact h.quiet (by rw [hphase]; rfl) rfl rfl rfl
      (fun hadv => absurd (hoff.symm.trans hadv) (by decide))
      (fun hown => hown.of_buf (by rw [hphase]; rfl) rfl rfl)
  next hphase =>
    have hsent : own.phase.sent = true := by rw [hphase]; rfl
    exact h.sends (h.mine.sent hsent) (by rw [hphase]; rfl) hsent _
  next => exact h

theorem Paired.fail (h : Paired gameId own peer) :
    Paired gameId (own.move gameId peer .fail).1 (own.move gameId peer .fail).2 := by
  rw [Device.move]
  split
  next hphase =>
    exact h.clears (by rw [hphase]; rfl) (by rw [hphase]; rfl) rfl rfl rfl rfl
      (not_heard (Or.inl rfl) rfl)
  next hphase => exact h.giveUp (by rw [hphase]; rfl)
  next hphase => exact h.giveUp (by rw [hphase]; rfl)
  next hphase => exact h.giveUp (by rw [hphase]; rfl)
  next hphase =>
    exact h.goTo (by rw [hphase]; rfl) rfl (by rw [hphase]; rfl) (by rw [hphase]; rfl) rfl
  next => exact h

/-- A connect comes to its end; the peer advertises if it has been reached. -/
theorem Paired.connected (h : Paired gameId own peer) {ok : Bool}
    (hsound : own.Sound peer (.connected ok)) :
    Paired gameId (own.move gameId peer (.connected ok)).1
      (own.move gameId peer (.connected ok)).2 := by
  rw [Device.move]
  split
  next found rest hphase =>
    cases ok with
    | false =>
        exact h.goTo (by rw [hphase]; rfl) rfl (by rw [hphase]; rfl) (by rw [hphase]; rfl) rfl
    | true =>
        have hoff := h.mine.not_advertising (by rw [hphase]; rfl)
        have hsent : own.phase.sent = false := by rw [hphase]; rfl
        exact
          { mine :=
              { linked := fun hlinked => (by cases hlinked)
                listening := fun hadv => absurd (hoff.symm.trans hadv) (by decide)
                target := fun found' rest' heq => by
                  obtain ⟨rfl, -⟩ := Phase.write.inj heq
                  rfl
                sent := fun hsent' => (by cases hsent')
                heard := fun hown => h.mine.heard (hown.of_buf (by rw [hphase]; rfl) rfl rfl) }
            theirs :=
              { linked := h.theirs.linked
                listening := h.theirs.listening
                target := h.theirs.target
                sent := h.theirs.sent
                heard := fun hpeer => by rw [h.theirs.heard hpeer] at hsent; cases hsent }
            apart := fun hown hpeer => by
              -- a peer that advertises has no connection itself
              have hreached : own.phase.connecting = some peer.address := by
                rw [hphase]
                exact hown
              have hadv := hsound rfl hreached
              exact absurd ((h.theirs.conn_of_advertising hadv).symm.trans hpeer) (by simp) }
  next => exact h

theorem Paired.drops (h : Paired gameId own peer) (hsent : own.phase.sent = false)
    (hlisten : own.phase.listening = false) (hcleared : own.phase.cleared = true)
    (rest : List ScanResult) : Paired gameId (own.goTo (.disconnect rest)) peer where
  mine :=
    { linked := fun hlinked => (by cases hlinked)
      listening := fun hadv => by
        rw [h.mine.listening hadv] at hlisten
        cases hlisten
      target := fun found' rest' heq => (by cases heq)
      sent := fun hsent' => (by cases hsent')
      heard := fun hown => h.mine.heard (hown.of_buf hcleared rfl rfl) }
  theirs :=
    { linked := h.theirs.linked
      listening := h.theirs.listening
      target := h.theirs.target
      sent := h.theirs.sent
      heard := fun hpeer => by rw [h.theirs.heard hpeer] at hsent; cases hsent }
  apart := h.apart

theorem Paired.move (h : Paired gameId own peer) {m : Move} (hsound : own.Sound peer m) :
    Paired gameId (own.move gameId peer m).1 (own.move gameId peer m).2 := by
  cases m with
  | go => exact h.go
  | fail => exact h.fail
  | connected ok => exact h.connected hsound
  | cancel =>
      rw [Device.move]
      split
      next hphase => exact h.giveUp (by rw [hphase]; rfl)
      next => exact h
  | timeout =>
      rw [Device.move]
      split
      next hwait =>
        have hphase := hwait.1
        exact h.goTo (by rw [hphase]; rfl) rfl (by rw [hphase]; rfl) (by rw [hphase]; rfl) rfl
      next => exact h
  | scanned results =>
      rw [Device.move]
      split
      next hphase =>
        exact h.goTo (by rw [hphase]; rfl) rfl (by rw [hphase]; rfl) (by rw [hphase]; rfl) rfl
      next => exact h
  | wrote arrives =>
      rw [Device.move]
      split
      next found rest hphase =>
        split
        next harrives =>
          have hconn : own.conn = some peer.address := by
            rw [h.mine.target found rest hphase, harrives.2]
          exact h.sends hconn (by rw [hphase]; rfl) rfl _
        next =>
          exact h.drops (by rw [hphase]; rfl) (by rw [hphase]; rfl) (by rw [hphase]; rfl) rest
      next => exact h
  | answered ok =>
      rw [Device.move]
      split
      next rest hphase =>
        obtain rfl : ok = true := hsound (by rw [hphase]; rfl)
        exact h.sends (h.mine.sent (by rw [hphase]; rfl)) (by rw [hphase]; rfl) rfl peer.rx
      next => exact h
  | packet payload =>
      rw [Device.move]
      split
      next hphase =>
        have hsent : own.phase.sent = true := by rw [hphase]; rfl
        exact h.sends (h.mine.sent hsent) (by rw [hphase]; rfl) hsent _
      next => exact h

end Steps

/-- Both devices at the beginning of their calls, with what is left in their RX buffers. -/
def Air.start (address : Side → CStr) (buf : Side → List UInt8) (tokens : Side → Nat) : Air :=
  fun side => .start (address side) (buf side) (tokens side)

/-- The two devices, seen from each of them. -/
def Inv (gameId : UInt8) (s : Air) : Prop := ∀ side, Paired gameId (s side) (s side.other)

theorem Side.other_other (side : Side) : side.other.other = side := by cases side <;> rfl

theorem Side.eq_or_eq_other (side side' : Side) : side' = side ∨ side' = side.other := by
  cases side <;> cases side' <;> decide

theorem Inv.of_paired {gameId : UInt8} {s : Air} (side : Side)
    (h : Paired gameId (s side) (s side.other)) : Inv gameId s := by
  intro side'
  rcases side.eq_or_eq_other side' with rfl | rfl
  · exact h
  · rw [Side.other_other]
    exact h.symm

theorem Inv.start (gameId : UInt8) (address : Side → CStr) (buf : Side → List UInt8)
    (tokens : Side → Nat) : Inv gameId (.start address buf tokens) := by
  have hhalf : ∀ side peer, Half gameId (Air.start address buf tokens side) peer := fun side peer =>
    { linked := fun _ => rfl
      listening := fun hadv => (by cases hadv)
      target := fun found rest hphase => (by cases hphase)
      sent := fun hsent => (by cases hsent)
      heard := fun hown => absurd hown (not_heard (Or.inl rfl) rfl) }
  exact fun side => ⟨hhalf side _, hhalf side.other _, fun hconn => (by cases hconn)⟩

theorem step_own (gameId : UInt8) (s : Air) (a : Side × Move) :
    (step gameId s a).1 a.1 = ((s a.1).move gameId (s a.1.other) a.2).1 := if_pos rfl

theorem step_peer (gameId : UInt8) (s : Air) (a : Side × Move) :
    (step gameId s a).1 a.1.other = ((s a.1).move gameId (s a.1.other) a.2).2 :=
  if_neg (by cases a.1 <;> decide)

theorem Inv.step {gameId : UInt8} {s : Air} {a : Side × Move} (h : Inv gameId s)
    (hsound : Sound s a) : Inv gameId (step gameId s a).1 := by
  refine Inv.of_paired a.1 ?_
  rw [step_own, step_peer]
  exact (h a.1).move hsound

/-- Of two devices with a role only one has sent a HELLO, and it is the client. -/
theorem Inv.agreed {gameId : UInt8} {s : Air} (h : Inv gameId s) : Agreed s := by
  intro role hrole
  have hclient : ∀ side, role side = .client → (s side).conn = some (s side.other).address :=
    fun side hrole' => (h side).mine.sent (by rw [(hrole side).1, hrole']; rfl)
  have hhost : ∀ side, role side = .host → role side.other = .client := by
    intro side hrole'
    have hsent := (h side).mine.heard (Or.inr (by rw [(hrole side).1, hrole']; rfl))
    rw [(hrole side.other).1] at hsent
    cases hother : role side.other with
    | client => rfl
    | _ =>
        rw [hother] at hsent
        cases hsent
  -- both cannot be clients, and a host's peer is a client
  have hone : ∃ side, role side = .host := by
    by_contra hnone
    have hall : ∀ side, role side = .client := by
      intro side
      cases hside : role side with
      | none => exact absurd hside (hrole side).2
      | host => exact absurd ⟨side, hside⟩ hnone
      | client => rfl
    refine (h .left).apart (hclient .left (hall .left)) ?_
    exact hclient .right (hall .right)
  obtain ⟨side, hside⟩ := hone
  refine ⟨side, hside, hhost side hside, ?_⟩
  have hconn := hclient side.other (hhost side hside)
  rwa [Side.other_other] at hconn

/-- In every run of the two calls in which a connect that succeeds reaches a device that
advertises and a HELLO that has arrived is acknowledged, the devices agree on their roles. -/
theorem roles_agree (gameId : UInt8) (address : Side → CStr) (buf : Side → List UInt8)
    (tokens : Side → Nat) {acts : List (Side × Move)}
    (h : Along (step gameId) Sound (.start address buf tokens) acts) :
    Agreed (run (step gameId) (.start address buf tokens) acts) :=
  (h.invariant (I := Inv gameId) (fun _ _ hinv hsound => hinv.step hsound)
    (.start gameId address buf tokens)).agreed

/-- The addresses of the two. -/
def addressOf : Side → CStr
  | .left => CStr.ofBytes (ascii "AA:AA:AA:AA:AA:AA")
  | .right => CStr.ofBytes (ascii "BB:BB:BB:BB:BB:BB")

/-- What a scan finds of a device. -/
def seen (side : Side) : ScanResult := ⟨addressOf side, buildAd 7 0⟩

/-- `n` steps of a device. -/
def goes (side : Side) (n : Nat) : List (Side × Move) := List.replicate n (side, .go)

/-- A device that listens in vain and then finds the other one in a scan. -/
def finds (side : Side) : List (Side × Move) :=
  [(side, .timeout), (side, .go), (side, .scanned [seen side.other]), (side, .go)]

/-- A run of the two calls, with nothing left in the RX buffers. -/
def runCalls (acts : List (Side × Move)) : Air :=
  run (step 7) (.start addressOf (fun _ => []) (fun _ => 0)) acts

/-- One finds the other, connects while it advertises, and writes a HELLO. -/
def oneHello : List (Side × Move) :=
  goes .right 6 ++ goes .left 6 ++ finds .left ++
    [(.left, .connected true), (.left, .wrote true), (.left, .go), (.left, .answered true)] ++
    goes .right 3

theorem roles_agree_oneHello : Agreed (runCalls oneHello) :=
  roles_agree 7 addressOf (fun _ => []) (fun _ => 0) (by decide +kernel)

/-- Both have found each other in scans, and both connect and write a HELLO. -/
def twoClients : List (Side × Move) :=
  goes .left 6 ++ goes .right 6 ++ finds .right ++ finds .left ++
    [(.left, .connected true), (.right, .connected true), (.left, .wrote true),
      (.right, .wrote true), (.left, .go), (.right, .go), (.left, .answered true),
      (.right, .answered true)]

/-- Each connects to the other while that advertises, and the answer to each HELLO is lost. -/
def twoHosts : List (Side × Move) :=
  goes .right 6 ++ goes .left 6 ++ finds .left ++ [(.left, .connected true)] ++
    [(.right, .timeout), (.right, .go)] ++
    [(.left, .wrote true), (.left, .go), (.left, .answered false)] ++ goes .left 4 ++
    [(.right, .scanned [seen .left]), (.right, .go), (.right, .connected true),
      (.right, .wrote true), (.right, .go), (.right, .answered false)] ++
    goes .right 7 ++ goes .left 3

/-- Both become the client, or both the host. -/
theorem not_roles_agree : ¬ Agreed (runCalls twoClients) ∧ ¬ Agreed (runCalls twoHosts) := by
  constructor
  · have hroles : ∀ side, (runCalls twoClients side).phase = .returned .client := by
      intro side
      cases side <;> decide +kernel
    intro h
    obtain ⟨side, hhost, -⟩ := h (fun _ => .client) (fun side => ⟨hroles side, by decide⟩)
    cases hhost
  · have hroles : ∀ side, (runCalls twoHosts side).phase = .returned .host := by
      intro side
      cases side <;> decide +kernel
    intro h
    obtain ⟨side, -, hclient, -⟩ := h (fun _ => .host) (fun side => ⟨hroles side, by decide⟩)
    cases hclient

end Discovery
end Games
end JppDos
