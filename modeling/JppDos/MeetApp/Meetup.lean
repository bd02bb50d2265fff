import JppDos.Crypto.Residues
import JppDos.MeetApp.Proof

/-!
# A meetup

The leader's and the participants' signing: three rounds over the links to the peers, of
which each may fail or bring any bytes, and the proof that is stored at the end.
-/

namespace JppDos
namespace MeetApp

open CText Numerals Crypto

/-- `meetapp_identity_t`. -/
structure Identity (S : Sodium) where
  nickname : Text nicknameMax
  keys : KeyPair S

/-- The public key of an identity. -/
def Identity.key {S : Sodium} (identity : Identity S) : Key :=
  ⟨identity.keys.pubkey, identity.keys.length_pubkey⟩

/-- `meetapp_peer_t`. -/
structure Peer where
  nickname : Text nicknameMax
  pubkey : Key
  pubnonce : List UInt8
  partialSig : List UInt8

/-- A peer in range: its name, and the bytes read from it in rounds A and B, if it could be
connected to and has answered. -/
structure PeerLink where
  nickname : Text nicknameMax
  roundA : Option (List UInt8)
  roundB : Option (List UInt8)

/-- A peer's record when the session starts. -/
def PeerLink.newPeer (link : PeerLink) : Peer :=
  ⟨link.nickname, ⟨zeros 32, rfl⟩, zeros 64, zeros 32⟩

/-- `MEETAPP_TX_NONCE`. -/
def txNonce : UInt8 := 1

/-- `MEETAPP_TX_PARTSIG`. -/
def txPartsig : UInt8 := 2

/-- `MEETAPP_RX_ROUND15`. -/
def rxRound15 : UInt8 := 1

/-- `MEETAPP_RX_FINALSIG`. -/
def rxFinalsig : UInt8 := 2

/-- The 32 bytes behind the first one. -/
def keyField (raw : List UInt8) (h : 33 ≤ raw.length) : Key :=
  ⟨(raw.drop 1).take 32, by
    rw [List.length_take, List.length_drop]
    omega⟩

/-- One turn of the loop of `meetapp_ble_collect_nonces`. -/
def collectNonce (link : PeerLink) (p : Peer) : Peer :=
  match link.roundA with
  | none => p
  | some raw =>
      if h : 97 ≤ raw.length ∧ raw.head? = some txNonce then
        { p with
          pubkey := keyField raw (Nat.le_trans (by decide) h.1)
          pubnonce := (raw.drop 33).take 64 }
      else p

/-- One turn of the loop of `meetapp_ble_exchange_sigs`. -/
def exchangeSig (link : PeerLink) (p : Peer) : Peer :=
  match link.roundB with
  | none => p
  | some raw =>
      if 33 ≤ raw.length ∧ raw.head? = some txPartsig then
        { p with partialSig := (raw.drop 1).take 32 }
      else p

/-- `build_participant_list` with a session. -/
def buildParticipantList {S : Sodium} (identity : Identity S) (allPubkeys : List Key)
    (peers : List Peer) : List Participant :=
  (allPubkeys.take maxTotal).zipIdx.map fun (pk, i) =>
    if pk = identity.key then ⟨pk, identity.nickname⟩
    else
      match peers.find? fun p => p.pubkey = pk with
      | some p => ⟨pk, p.nickname⟩
      | none => ⟨pk, Text.copy nicknameMax (CStr.ofBytes (ascii "Peer" ++ showBase 10 (i + 1)))⟩

/-- What a run has reported, and the file that it has stored. -/
structure Report where
  title : String
  text : List UInt8
  file : Option ProofFile

/-- `notify`: an outcome that stores nothing. -/
def notify (title text : String) : Report := ⟨title, ascii text, none⟩

/-- What a leader's run depends on, from the first nonce on. -/
structure LeaderRun (S : Sodium) where
  identity : Identity S
  sessionNonce : List UInt8
  random : List UInt8
  timestamp : Text (tsFieldLen - 1)
  comment : Text commentMax
  links : List PeerLink
  /-- Whether the file can be written. -/
  saves : Bool
  length_sessionNonce : sessionNonce.length = 8
  links_ne_nil : links ≠ []
  length_links : links.length ≤ maxPeers

/-- The leader's state between rounds A and B. -/
structure Signing where
  peers : List Peer
  allPubkeys : List Key
  aggPubnonce : List UInt8
  participants : List Participant
  message : List UInt8
  partialSig : List UInt8

section Leader

variable (S : Sodium)

/-- The first half of `run_leader`: round A and the leader's own signature. -/
def startLeader (run : LeaderRun S) : Except Report Signing :=
  match nonceGen S run.random with
  | none => .error (notify "Error" "Could not generate signing nonce.")
  | some (mySecnonce, myPubnonce) =>
      let peers := run.links.map fun link => collectNonce link link.newPeer
      let allPubkeys := run.identity.key :: peers.map Peer.pubkey
      let allPubnonces := myPubnonce :: peers.map Peer.pubnonce
      match aggregateNonces S allPubnonces with
      | none => .error (notify "Error" "Could not aggregate nonces.")
      | some aggPubnonce =>
          let participants := buildParticipantList run.identity allPubkeys peers
          let message := buildMessage participants run.sessionNonce run.timestamp run.comment
          match partialSign S mySecnonce run.identity.keys.seckey (keyBytes allPubkeys)
              aggPubnonce (S.sha512 message) with
          | none => .error (notify "Error" "Could not create partial signature.")
          | some partialSig =>
              .ok ⟨peers, allPubkeys, aggPubnonce, participants, message, partialSig⟩

/-- The second half of `run_leader`: round B, the sum, and the file. -/
def finishLeader (run : LeaderRun S) (s : Signing) : Report :=
  let peers := List.zipWith exchangeSig run.links s.peers
  match aggregateSigs S (s.partialSig :: peers.map Peer.partialSig) with
  | none => notify "Error" "Could not aggregate signatures."
  | some sum =>
      let finalSig := s.aggPubnonce.take 32 ++ sum
      let file := proofSave s.participants run.sessionNonce run.timestamp run.comment finalSig
      if run.saves then
        ⟨"Proof complete", ascii "Signed " ++ run.timestamp.bytes.take 11, some file⟩
      else notify "Save failed" "Proof signed but could not be saved."

/-- `run_leader`, from the first nonce on. -/
def runLeader (run : LeaderRun S) : Report :=
  match startLeader S run with
  | .error report => report
  | .ok s => finishLeader S run s

end Leader

section LeaderProof

variable {S : Sodium} {G : Type} [AddCommGroup G] (C : Curve S G)

/-- The participants are listed in the order of the keys. -/
theorem map_pubkey_buildParticipantList (identity : Identity S) {allPubkeys : List Key}
    (hlen : allPubkeys.length ≤ maxTotal) (peers : List Peer) :
    (buildParticipantList identity allPubkeys peers).map Participant.pubkey = allPubkeys := by
  rw [buildParticipantList, List.take_of_length_le hlen, List.map_map]
  conv_rhs => rw [← List.zipIdx_map_fst 0 allPubkeys]
  refine List.map_congr_left fun x _ => ?_
  obtain ⟨pk, i⟩ := x
  simp only [Function.comp_apply]
  split
  · rfl
  · split <;> rfl

/-- The nonce of a peer and the challenge's share of its key. -/
def peerShare (s : Signing) (p : Peer) : G :=
  noncePoint C p.pubnonce +
    keyShare C (keyBytes s.allPubkeys) (s.aggPubnonce.take 32) (S.sha512 s.message) p.pubkey.val

/-- The leader's scalar with the peers' partial signatures added to it. -/
def finalScalar (s : Signing) (peers : List Peer) : Nat :=
  addShares C (LittleEndian.leNat s.partialSig) (peers.map Peer.partialSig)

/-- The peers have signed: what their partial signatures add to the leader's is worth their
nonces and the challenge's share of their keys, and neither side of the equation is neutral. -/
structure PeersSigned (s : Signing) (peers : List Peer) : Prop where
  shares : finalScalar C s peers • C.base =
    LittleEndian.leNat s.partialSig • C.base + (peers.map (peerShare C s)).sum
  sum_ne_zero : finalScalar C s peers • C.base ≠ 0
  challenge_ne_zero :
    challengeNat (S := S) (C.encode (aggregatePoint C (keyBytes s.allPubkeys)))
      (s.aggPubnonce.take 32) (S.sha512 s.message) • aggregatePoint C (keyBytes s.allPubkeys) ≠ 0

/-- What holds of the leader's state when round A is over. -/
structure Started (run : LeaderRun S) (s : Signing) : Prop where
  peers_eq : s.peers = run.links.map fun link => collectNonce link link.newPeer
  allPubkeys_eq : s.allPubkeys = run.identity.key :: s.peers.map Peer.pubkey
  participants_eq : s.participants.map Participant.pubkey = s.allPubkeys
  message_eq : s.message =
    messageText s.participants run.sessionNonce run.timestamp run.comment
  aggregate_eq : aggregatePubkeys S (keyBytes s.allPubkeys) =
    some (C.encode (aggregatePoint C (keyBytes s.allPubkeys)))
  order_key : ∀ pk ∈ keyBytes s.allPubkeys, C.order • C.point pk = 0
  signs : ∃ r k, k < C.order ∧ s.partialSig = scalar k ∧
    s.aggPubnonce.take 32 =
      C.encode (r + (s.peers.map fun p => noncePoint C p.pubnonce).sum) ∧
    k • C.base = r + keyShare C (keyBytes s.allPubkeys) (s.aggPubnonce.take 32)
      (S.sha512 s.message) run.identity.keys.pubkey

theorem Started.length_participants {run : LeaderRun S} {s : Signing} (h : Started C run s) :
    s.participants.length = 1 + run.links.length := by
  rw [← List.length_map Participant.pubkey, h.participants_eq, h.allPubkeys_eq,
    List.length_cons, List.length_map, h.peers_eq, List.length_map, Nat.add_comm]

theorem startLeader_ok {run : LeaderRun S} {s : Signing} (h : startLeader S run = .ok s) :
    Started C run s := by
  rw [startLeader] at h
  cases hnonce : nonceGen S run.random with
  | none => simp [hnonce] at h
  | some nonces =>
  obtain ⟨mySecnonce, myPubnonce⟩ := nonces
  simp only [hnonce] at h
  split at h
  · exact absurd h (by simp)
  rename_i aggPubnonce hagg
  split at h
  · exact absurd h (by simp)
  rename_i partialSig hpartial
  obtain rfl := Except.ok.inj h
  obtain ⟨r, hr, hsec, hpub⟩ := nonceGen_some C hnonce
  obtain ⟨haggregate, horder, k, hk, hsigned, hshare⟩ := partialSign_some C hr hsec hpartial
  generalize hpeers : (run.links.map fun link => collectNonce link link.newPeer) = peers at *
  have hne : peers.map Peer.pubnonce ≠ [] := by
    rw [← hpeers]
    simpa using run.links_ne_nil
  have hlinks : peers.length ≤ maxPeers := by
    rw [← hpeers, List.length_map]
    exact run.length_links
  have hkeys : (run.identity.key :: peers.map Peer.pubkey).length ≤ maxTotal := by
    rw [List.length_cons, List.length_map]
    simp only [maxPeers, maxTotal] at hlinks ⊢
    omega
  have hparticipants := map_pubkey_buildParticipantList run.identity hkeys peers
  have hlen : (buildParticipantList run.identity
      (run.identity.key :: peers.map Peer.pubkey) peers).length ≤ maxTotal := by
    rw [← List.length_map Participant.pubkey, hparticipants]
    exact hkeys
  have hnonces : aggPubnonce.take 32 =
      C.encode (r • C.base + (peers.map fun p => noncePoint C p.pubnonce).sum) := by
    rw [aggregateNonces_some C hne hagg, List.map_cons, List.sum_cons, noncePoint, hpub,
      C.point_encode, List.map_map]
    rfl
  exact
    { peers_eq := hpeers.symm
      allPubkeys_eq := rfl
      participants_eq := hparticipants
      message_eq := buildMessage_eq hlen run.length_sessionNonce _ _
      aggregate_eq := haggregate
      order_key := horder
      signs := ⟨r • C.base, k, hk, hsigned, hnonces, hshare⟩ }

theorem startLeader_error {run : LeaderRun S} {report : Report}
    (h : startLeader S run = .error report) : report.title ≠ "Proof complete" := by
  rw [startLeader] at h
  split at h
  · obtain rfl := Except.error.inj h
    decide
  simp only at h
  split at h
  · obtain rfl := Except.error.inj h
    decide
  split at h
  · obtain rfl := Except.error.inj h
    decide
  · exact absurd h (by simp)

/-- A file verifies when its signature meets the equation of its keys. -/
theorem fileVerifies_proofSave {participants : List Participant} {sessionNonce : List UInt8}
    (hn : participants.length ≤ maxTotal) (hnonce : sessionNonce.length = 8)
    (timestamp : Text (tsFieldLen - 1)) (comment : Text commentMax) {finalSig : List UInt8}
    (hsig : finalSig.length = 64) {keys : List Key}
    (hkeys : participants.map Participant.pubkey = keys)
    (haggregate : aggregatePubkeys S (keyBytes keys) =
      some (C.encode (aggregatePoint C (keyBytes keys))))
    (horder : ∀ pk ∈ keyBytes keys, C.order • C.point pk = 0) :
    fileVerifies S participants.length
        (proofSave participants sessionNonce timestamp comment finalSig).text = true ↔
      Signed C (aggregatePoint C (keyBytes keys))
        (S.sha512 (messageText participants sessionNonce timestamp comment))
        (finalSig.take 32) ((finalSig.drop 32).take 32) := by
  rw [fileVerifies, readProof_proofText hn hnonce timestamp comment hsig, hkeys]
  simp only [haggregate]
  exact verify_iff C (order_aggregatePoint C horder)

/-- The equation of the sum is the equation of the peers' shares. -/
theorem signed_iff_peersSigned {run : LeaderRun S} {s : Signing} (h : Started C run s)
    {peers : List Peer} (hshares : peers.map (peerShare C s) = s.peers.map (peerShare C s)) :
    Signed C (aggregatePoint C (keyBytes s.allPubkeys)) (S.sha512 s.message)
        (s.aggPubnonce.take 32) (scalar (finalScalar C s peers)) ↔
      PeersSigned C s peers := by
  obtain ⟨r, k, hk, hsigned, hnonces, hshare⟩ := h.signs
  have hown : LittleEndian.leNat s.partialSig = k := by rw [hsigned, C.leNat_scalar hk]
  have hsum : multiplier (scalar (finalScalar C s peers)) = finalScalar C s peers := by
    rw [C.multiplier_scalar]
    rw [finalScalar, hown]
    exact addShares_lt C hk _
  have hkeyShares : challengeNat (S := S)
      (C.encode (aggregatePoint C (keyBytes s.allPubkeys))) (s.aggPubnonce.take 32)
        (S.sha512 s.message) • aggregatePoint C (keyBytes s.allPubkeys) =
      keyShare C (keyBytes s.allPubkeys) (s.aggPubnonce.take 32) (S.sha512 s.message)
        run.identity.keys.pubkey +
      (s.peers.map fun p => keyShare C (keyBytes s.allPubkeys) (s.aggPubnonce.take 32)
        (S.sha512 s.message) p.pubkey.val).sum := by
    have hkeys : keyBytes s.allPubkeys =
        run.identity.keys.pubkey :: s.peers.map fun p => p.pubkey.val := by
      rw [h.allPubkeys_eq, keyBytes, List.map_cons, List.map_map]
      rfl
    rw [challenge_smul_aggregatePoint]
    generalize keyShare C (keyBytes s.allPubkeys) (s.aggPubnonce.take 32) (S.sha512 s.message) = f
    rw [hkeys, List.map_cons, List.sum_cons, List.map_map]
    rfl
  have hpeerShares : (peers.map (peerShare C s)).sum =
      (s.peers.map fun p => noncePoint C p.pubnonce).sum +
      (s.peers.map fun p => keyShare C (keyBytes s.allPubkeys) (s.aggPubnonce.take 32)
        (S.sha512 s.message) p.pubkey.val).sum := by
    rw [hshares, ← List.sum_map_add]
    rfl
  have hequation : finalScalar C s peers • C.base =
      r + (s.peers.map fun p => noncePoint C p.pubnonce).sum +
        challengeNat (S := S) (C.encode (aggregatePoint C (keyBytes s.allPubkeys)))
          (s.aggPubnonce.take 32) (S.sha512 s.message) •
            aggregatePoint C (keyBytes s.allPubkeys) ↔
      finalScalar C s peers • C.base =
        LittleEndian.leNat s.partialSig • C.base + (peers.map (peerShare C s)).sum := by
    rw [hown, hshare, hpeerShares, hkeyShares]
    constructor <;> intro heq <;> rw [heq] <;> abel
  have hdecode : C.decode (s.aggPubnonce.take 32) =
      some (r + (s.peers.map fun p => noncePoint C p.pubnonce).sum) := by
    rw [hnonces, C.decode_encode]
  constructor
  · rintro ⟨r', hr', hsumNe, hchallengeNe, heq⟩
    rw [hsum] at hsumNe heq
    obtain rfl := Option.some.inj (hdecode.symm.trans hr')
    exact ⟨hequation.mp heq, hsumNe, hchallengeNe⟩
  · rintro ⟨heq, hsumNe, hchallengeNe⟩
    refine ⟨_, hdecode, ?_, hchallengeNe, ?_⟩
    · rwa [hsum]
    · rw [hsum]
      exact hequation.mpr heq

theorem peerShare_exchangeSig (s : Signing) (link : PeerLink) (p : Peer) :
    peerShare C s (exchangeSig link p) = peerShare C s p := by
  rw [exchangeSig]
  split
  · rfl
  · split <;> rfl

theorem map_peerShare_exchangeSig (s : Signing) : ∀ (links : List PeerLink) (peers : List Peer),
    peers.length = links.length →
      (List.zipWith exchangeSig links peers).map (peerShare C s) = peers.map (peerShare C s)
  | [], [], _ => rfl
  | link :: links, p :: peers, h => by
      rw [List.zipWith_cons_cons, List.map_cons, List.map_cons, peerShare_exchangeSig,
        map_peerShare_exchangeSig s links peers (Nat.succ.inj h)]

/-- When the proof that a leader reports complete verifies. -/
theorem finishLeader_verifies {run : LeaderRun S} {s : Signing} (h : Started C run s)
    (hcomplete : (finishLeader S run s).title = "Proof complete") :
    ∃ file, (finishLeader S run s).file = some file ∧
      (fileVerifies S (1 + run.links.length) file.text = true ↔
        PeersSigned C s (List.zipWith exchangeSig run.links s.peers)) := by
  obtain ⟨r, k, hk, hsigned, hnonces, -⟩ := h.signs
  have hshares := map_peerShare_exchangeSig C s run.links s.peers
    (by rw [h.peers_eq, List.length_map])
  generalize hpeers : List.zipWith exchangeSig run.links s.peers = peers at hshares
  have hfinal : aggregateSigs S (s.partialSig :: peers.map Peer.partialSig) =
      some (scalar (finalScalar C s peers)) := by
    rw [hsigned, aggregateSigs_eq C hk, finalScalar, hsigned, C.leNat_scalar hk]
  simp only [finishLeader, hpeers, hfinal] at hcomplete ⊢
  have hlen : s.participants.length ≤ maxTotal := by
    have hlinks := run.length_links
    rw [h.length_participants]
    simp only [maxPeers, maxTotal] at hlinks ⊢
    omega
  have hR : (s.aggPubnonce.take 32).length = 32 := by rw [hnonces, C.length_encode]
  split at hcomplete
  · rename_i hsaves
    rw [if_pos hsaves]
    refine ⟨_, rfl, ?_⟩
    rw [← h.length_participants, fileVerifies_proofSave C hlen run.length_sessionNonce _ _
      (by rw [List.length_append, hR, length_scalar]) h.participants_eq h.aggregate_eq
      h.order_key, ← h.message_eq, List.take_left' hR, List.drop_left' hR,
      List.take_of_length_le (length_scalar _).le]
    exact signed_iff_peersSigned C h hshares
  · exact absurd hcomplete (by simp [notify])


/-- A peer that has signed its own share. -/
def Honest (s : Signing) (p : Peer) : Prop :=
  LittleEndian.leNat p.partialSig < C.order ∧
    LittleEndian.leNat p.partialSig • C.base = peerShare C s p

/-- Peers that have all signed their own shares have signed. -/
theorem shares_of_honest {run : LeaderRun S} {s : Signing} (h : Started C run s)
    {peers : List Peer} (hpeers : ∀ p ∈ peers, Honest C s p) :
    finalScalar C s peers • C.base =
      LittleEndian.leNat s.partialSig • C.base + (peers.map (peerShare C s)).sum := by
  obtain ⟨r, k, hk, hsigned, -, -⟩ := h.signs
  have hreduced : ∀ sig ∈ peers.map Peer.partialSig, LittleEndian.leNat sig < C.order := by
    intro sig hsig
    obtain ⟨p, hp, rfl⟩ := List.mem_map.mp hsig
    exact (hpeers p hp).1
  have hworth : peers.map (fun p => LittleEndian.leNat p.partialSig • C.base) =
      peers.map (peerShare C s) := List.map_congr_left fun p hp => (hpeers p hp).2
  rw [finalScalar, hsigned, C.leNat_scalar hk, addShares_smul C hk hreduced, List.map_map,
    ← hworth]
  rfl

end LeaderProof

/-- A string in a field of `n` bytes, zeros behind it. -/
def field (n : Nat) (s : List UInt8) : List UInt8 := s ++ zeros (n - s.length)

/-- What round 1.5 brings. -/
structure Round15 where
  msgHash : List UInt8
  aggPubnonce : List UInt8
  allPubkeys : List Key
  timestamp : Text (tsFieldLen - 1)
  nicknames : List (Text nicknameMax)
  comment : Text commentMax

/-- The payload that `meetapp_ble_exchange_sigs` sends. -/
def round15Payload (r : Round15) : List UInt8 :=
  [rxRound15] ++ r.msgHash ++ r.aggPubnonce ++ [UInt8.ofNat r.allPubkeys.length] ++
    (keyBytes r.allPubkeys).flatten ++ field tsFieldLen r.timestamp.bytes ++
    r.nicknames.flatMap (fun nick => field (nicknameMax + 1) nick.bytes) ++
    field (commentMax + 1) r.comment.bytes

/-- `n` keys one behind the other. -/
def splitKeys : Nat → List UInt8 → List Key
  | 0, _ => []
  | n + 1, bytes =>
      if h : 32 ≤ bytes.length then
        ⟨bytes.take 32, List.length_take_of_le h⟩ :: splitKeys n (bytes.drop 32)
      else []

/-- `n` nickname fields one behind the other. -/
def splitNicknames : Nat → List UInt8 → List (Text nicknameMax)
  | 0, _ => []
  | n + 1, bytes =>
      Text.ofField nicknameMax (bytes.take (nicknameMax + 1)) ::
        splitNicknames n (bytes.drop (nicknameMax + 1))

/-- `meetapp_ble_wait_round15`, on the message that has been received. -/
def waitRound15 (rx : List UInt8) : Option Round15 :=
  if rx.length < 130 ∨ rx.head? ≠ some rxRound15 then none
  else
    let n := (rx.getD 129 0).toNat
    if n = 0 ∨ maxTotal < n then none
    else
      let tsStart := 130 + n * 32
      let nickStart := tsStart + tsFieldLen
      let commentStart := nickStart + n * (nicknameMax + 1)
      let need := commentStart + (commentMax + 1)
      if rx.length < need then none
      else
        some
          { msgHash := (rx.drop 1).take 64
            aggPubnonce := (rx.drop 65).take 64
            allPubkeys := splitKeys n (rx.drop 130)
            timestamp := Text.ofField (tsFieldLen - 1) ((rx.drop tsStart).take tsFieldLen)
            nicknames := splitNicknames n (rx.drop nickStart)
            comment := Text.ofField commentMax ((rx.drop commentStart).take (commentMax + 1)) }

/-- `meetapp_ble_wait_final_sig`, on the bytes that have been written. -/
def waitFinalSig (rx : List UInt8) : Option (List UInt8) :=
  if rx.length < 65 ∨ rx.head? ≠ some rxFinalsig then none else some ((rx.drop 1).take 64)

/-- The participants that round 1.5 names. -/
def Round15.participants (r : Round15) : List Participant :=
  (r.allPubkeys.zip r.nicknames).map fun (pk, nick) => ⟨pk, Text.copy nicknameMax nick.val⟩

/-- What a participant's run depends on, from its nonce on. -/
structure ParticipantRun (S : Sodium) where
  identity : Identity S
  sessionNonce : List UInt8
  random : List UInt8
  /-- What the nonce buffers hold when no nonce can be generated. -/
  stack : List UInt8 × List UInt8
  /-- The message of round 1.5, if one arrives in time. -/
  round15 : Option (List UInt8)
  /-- The bytes written at the end, if there are any in time. -/
  finalSig : Option (List UInt8)
  saves : Bool
  length_sessionNonce : sessionNonce.length = 8

/-- `run_participant`, from its nonce on. -/
def runParticipant (S : Sodium) (run : ParticipantRun S) : Report :=
  let (mySecnonce, _) := (nonceGen S run.random).getD run.stack
  match run.round15.bind waitRound15 with
  | none => notify "Timed out" "No signing request from the leader."
  | some r =>
      match partialSign S mySecnonce run.identity.keys.seckey (keyBytes r.allPubkeys)
          r.aggPubnonce r.msgHash with
      | none => notify "Error" "Signing failed."
      | some _ =>
          match run.finalSig.bind waitFinalSig with
          | none => notify "Timed out" "No final signature received."
          | some finalSig =>
              let file := proofSave r.participants run.sessionNonce r.timestamp r.comment finalSig
              if run.saves then
                ⟨"Proof saved", ascii "Signed " ++ r.timestamp.bytes.take 11, some file⟩
              else notify "Save failed" "Proof signed but could not be saved."

theorem length_splitKeys : ∀ (n : Nat) {bytes : List UInt8}, n * 32 ≤ bytes.length →
    (splitKeys n bytes).length = n
  | 0, _, _ => rfl
  | n + 1, bytes, h => by
      rw [splitKeys, dif_pos (by omega), List.length_cons,
        length_splitKeys n (by rw [List.length_drop]; omega)]

theorem length_splitNicknames (n : Nat) (bytes : List UInt8) :
    (splitNicknames n bytes).length = n := by
  induction n generalizing bytes with
  | zero => rfl
  | succ n ih => rw [splitNicknames, List.length_cons, ih]

theorem waitRound15_some {rx : List UInt8} {r : Round15} (h : waitRound15 rx = some r) :
    r.allPubkeys.length ≤ maxTotal ∧ r.nicknames.length = r.allPubkeys.length := by
  rw [waitRound15] at h
  split at h
  · exact absurd h (by simp)
  simp only at h
  split at h
  · exact absurd h (by simp)
  rename_i hn
  split at h
  · exact absurd h (by simp)
  rename_i hneed
  obtain rfl := Option.some.inj h
  have hkeys : (splitKeys (rx.getD 129 0).toNat (rx.drop 130)).length = (rx.getD 129 0).toNat :=
    length_splitKeys _ (by rw [List.length_drop]; omega)
  exact ⟨by simp only [hkeys]; omega, by simp only [hkeys, length_splitNicknames]⟩

theorem Round15.map_pubkey_participants {r : Round15}
    (h : r.nicknames.length = r.allPubkeys.length) :
    r.participants.map Participant.pubkey = r.allPubkeys := by
  rw [Round15.participants, List.map_map]
  exact List.map_fst_zip h.ge

theorem splitKeys_flatten (keys : List Key) (rest : List UInt8) :
    splitKeys keys.length ((keyBytes keys).flatten ++ rest) = keys := by
  induction keys with
  | nil => rfl
  | cons key keys ih =>
      have hsplit : (keyBytes (key :: keys)).flatten ++ rest =
          key.val ++ ((keyBytes keys).flatten ++ rest) := by
        rw [keyBytes, List.map_cons, List.flatten_cons, List.append_assoc]
        rfl
      rw [hsplit, List.length_cons, splitKeys,
        dif_pos (by rw [List.length_append, key.property]; omega)]
      congr 1
      · exact Subtype.ext (List.take_left' key.property)
      · rw [List.drop_left' key.property, ih]

theorem length_field {n : Nat} {s : List UInt8} (h : s.length ≤ n) : (field n s).length = n := by
  rw [field, List.length_append, zeros, List.length_replicate]
  omega

theorem ofField_field {n : Nat} (t : Text n) : Text.ofField n (field (n + 1) t.bytes) = t := by
  have hzeros : field (n + 1) t.bytes = t.val.val ++ 0 :: zeros (n - t.bytes.length) := by
    have hlen := t.length_bytes
    rw [field, show n + 1 - t.bytes.length = (n - t.bytes.length) + 1 by omega]
    rfl
  rw [Text.ofField, hzeros, CStr.ofBytes_append_zero, Text.copy_val]

theorem splitNicknames_flatMap (nicks : List (Text nicknameMax)) (rest : List UInt8) :
    splitNicknames nicks.length
      (nicks.flatMap (fun nick => field (nicknameMax + 1) nick.bytes) ++ rest) = nicks := by
  induction nicks with
  | nil => rfl
  | cons nick nicks ih =>
      have hlen : (field (nicknameMax + 1) nick.bytes).length = nicknameMax + 1 :=
        length_field (Nat.le_succ_of_le nick.length_bytes)
      rw [List.length_cons, splitNicknames, List.flatMap_cons, List.append_assoc,
        List.take_left' hlen, List.drop_left' hlen, ofField_field, ih]

theorem length_flatten_keyBytes (keys : List Key) :
    (keyBytes keys).flatten.length = keys.length * 32 := by
  induction keys with
  | nil => rfl
  | cons key keys ih =>
      have hcons : (keyBytes (key :: keys)).flatten = key.val ++ (keyBytes keys).flatten := rfl
      rw [hcons, List.length_append, key.property, ih, List.length_cons]
      ring

theorem length_flatMap_field (nicks : List (Text nicknameMax)) :
    (nicks.flatMap fun nick => field (nicknameMax + 1) nick.bytes).length =
      nicks.length * (nicknameMax + 1) := by
  induction nicks with
  | nil => rfl
  | cons nick nicks ih =>
      rw [List.flatMap_cons, List.length_append, ih,
        length_field (n := nicknameMax + 1) (Nat.le_succ_of_le nick.length_bytes),
        List.length_cons]
      ring

theorem drop_of_drop {bytes front rest : List UInt8} {i j : Nat}
    (h : bytes.drop i = front ++ rest) (hj : i + front.length = j) : bytes.drop j = rest := by
  rw [← hj, ← List.drop_drop, h, List.drop_left]

theorem waitRound15_round15Payload {r : Round15} (hhash : r.msgHash.length = 64)
    (hnonce : r.aggPubnonce.length = 64) (hpos : 0 < r.allPubkeys.length)
    (hmax : r.allPubkeys.length ≤ maxTotal) (hnicks : r.nicknames.length = r.allPubkeys.length) :
    waitRound15 (round15Payload r) = some r := by
  have hkeys := length_flatten_keyBytes r.allPubkeys
  have hts : (field tsFieldLen r.timestamp.bytes).length = tsFieldLen :=
    length_field (Nat.le_succ_of_le r.timestamp.length_bytes)
  have hnick := length_flatMap_field r.nicknames
  have hcomment : (field (commentMax + 1) r.comment.bytes).length = commentMax + 1 :=
    length_field (Nat.le_succ_of_le r.comment.length_bytes)
  rw [hnicks] at hnick
  generalize hn : r.allPubkeys.length = n at *
  have hcount : (UInt8.ofNat n).toNat = n := by
    rw [UInt8.toNat_ofNat', Nat.mod_eq_of_lt]
    exact Nat.lt_of_le_of_lt hmax (by decide)
  generalize hrx : round15Payload r = rx
  -- The payload is read at growing offsets, each behind the part before it.
  have d0 : rx.drop 0 = [rxRound15] ++ (r.msgHash ++ (r.aggPubnonce ++ ([UInt8.ofNat n] ++
      ((keyBytes r.allPubkeys).flatten ++ (field tsFieldLen r.timestamp.bytes ++
        ((r.nicknames.flatMap fun nick => field (nicknameMax + 1) nick.bytes) ++
          field (commentMax + 1) r.comment.bytes)))))) := by
    rw [List.drop_zero, ← hrx, round15Payload, hn]
    simp only [List.append_assoc]
  have d1 := drop_of_drop d0 (j := 1) rfl
  have d65 := drop_of_drop d1 (j := 65) (by rw [hhash])
  have d129 := drop_of_drop d65 (j := 129) (by rw [hnonce])
  have d130 := drop_of_drop d129 (j := 130) rfl
  have dts := drop_of_drop d130 (j := 130 + n * 32) (by rw [hkeys])
  have dnick := drop_of_drop dts (j := 130 + n * 32 + tsFieldLen) (by rw [hts])
  have dcomment := drop_of_drop dnick
    (j := 130 + n * 32 + tsFieldLen + n * (nicknameMax + 1)) (by rw [hnick])
  have hlen : rx.length =
      130 + n * 32 + tsFieldLen + n * (nicknameMax + 1) + (commentMax + 1) := by
    rw [← List.drop_zero (l := rx), d0]
    simp only [List.length_append, List.length_singleton, hhash, hnonce, hkeys, hts, hnick,
      hcomment]
    omega
  have hhead : rx.head? = some rxRound15 := by
    rw [← List.drop_zero (l := rx), d0]
    rfl
  have hbyte : (rx.getD 129 0).toNat = n := by
    rw [List.getD_eq_getElem?_getD, ← List.head?_drop, d129]
    exact hcount
  have hfront : ¬(rx.length < 130 ∨ rx.head? ≠ some rxRound15) := by
    rintro (hshort | hother)
    · omega
    · exact hother hhead
  have hkeyFields := splitKeys_flatten r.allPubkeys (field tsFieldLen r.timestamp.bytes ++
    ((r.nicknames.flatMap fun nick => field (nicknameMax + 1) nick.bytes) ++
      field (commentMax + 1) r.comment.bytes))
  have hnickFields := splitNicknames_flatMap r.nicknames (field (commentMax + 1) r.comment.bytes)
  have htsField : Text.ofField (tsFieldLen - 1) (field tsFieldLen r.timestamp.bytes) =
      r.timestamp := ofField_field r.timestamp
  rw [hn] at hkeyFields
  rw [hnicks] at hnickFields
  simp only [waitRound15, if_neg hfront, hbyte]
  rw [if_neg (by omega), if_neg (by omega), d1, d65, d130, dts, dnick, dcomment,
    List.take_left' hhash, List.take_left' hnonce, List.take_left' hts,
    List.take_of_length_le hcomment.le, hkeyFields, hnickFields, htsField, ofField_field]

theorem waitFinalSig_some {rx sig : List UInt8} (h : waitFinalSig rx = some sig) :
    sig.length = 64 := by
  rw [waitFinalSig] at h
  split at h
  · exact absurd h (by simp)
  rename_i hlen
  obtain rfl := Option.some.inj h
  rw [List.length_take, List.length_drop]
  omega

section ParticipantProof

variable {S : Sodium} {G : Type} [AddCommGroup G] (C : Curve S G)

/-- The bytes that the leader sends at the end sign the message that round 1.5 describes. -/
def LeaderSigned (run : ParticipantRun S) : Prop :=
  ∃ r sig, run.round15.bind waitRound15 = some r ∧ run.finalSig.bind waitFinalSig = some sig ∧
    Signed C (aggregatePoint C (keyBytes r.allPubkeys))
      (S.sha512 (messageText r.participants run.sessionNonce r.timestamp r.comment))
      (sig.take 32) ((sig.drop 32).take 32)

/-- When the proof that a participant reports saved verifies. -/
theorem runParticipant_verifies {run : ParticipantRun S}
    (hsaved : (runParticipant S run).title = "Proof saved") :
    ∃ n file, (runParticipant S run).file = some file ∧
      (∃ r, run.round15.bind waitRound15 = some r ∧ n = r.allPubkeys.length) ∧
      (fileVerifies S n file.text = true ↔ LeaderSigned C run) := by
  rw [runParticipant] at hsaved ⊢
  generalize (nonceGen S run.random).getD run.stack = nonces at hsaved ⊢
  obtain ⟨mySecnonce, myPubnonce⟩ := nonces
  simp only at hsaved ⊢
  split at hsaved
  · exact absurd hsaved (by simp [notify])
  rename_i r hr
  split at hsaved
  · exact absurd hsaved (by simp [notify])
  rename_i partialSig hpartial
  split at hsaved
  · exact absurd hsaved (by simp [notify])
  rename_i finalSig hfinal
  split at hsaved
  · rename_i hsaves
    obtain ⟨rx, -, hrx⟩ := Option.bind_eq_some_iff.mp hr
    obtain ⟨rx', -, hrx'⟩ := Option.bind_eq_some_iff.mp hfinal
    obtain ⟨hkeys, hnicks⟩ := waitRound15_some hrx
    obtain ⟨haggregate, horder⟩ := partialSign_aggregates C hpartial
    have hparticipants := Round15.map_pubkey_participants hnicks
    have hlen : r.participants.length = r.allPubkeys.length := by
      rw [← List.length_map Participant.pubkey, hparticipants]
    have hverifies := fileVerifies_proofSave C (hlen.le.trans hkeys) run.length_sessionNonce
      r.timestamp r.comment (waitFinalSig_some hrx') hparticipants haggregate horder
    rw [hlen] at hverifies
    simp only [hr, if_pos hsaves]
    refine ⟨_, _, rfl, ⟨r, rfl, rfl⟩,
      hverifies.trans ⟨fun h => ⟨r, finalSig, hr, hfinal, h⟩, ?_⟩⟩
    rintro ⟨r', sig', hr', hfinal', h⟩
    obtain rfl := Option.some.inj (hr.symm.trans hr')
    obtain rfl := Option.some.inj (hfinal.symm.trans hfinal')
    exact h
  · exact absurd hsaved (by simp [notify])

end ParticipantProof

/-- When a proof that is reported complete or saved verifies. -/
theorem proof_verifies_iff {S : Sodium} {G : Type} [AddCommGroup G] (C : Curve S G) :
    (∀ run : LeaderRun S, (runLeader S run).title = "Proof complete" →
      ∃ s file, startLeader S run = .ok s ∧ (runLeader S run).file = some file ∧
        (fileVerifies S (1 + run.links.length) file.text = true ↔
          PeersSigned C s (List.zipWith exchangeSig run.links s.peers))) ∧
    (∀ run : ParticipantRun S, (runParticipant S run).title = "Proof saved" →
      ∃ r file, run.round15.bind waitRound15 = some r ∧
        (runParticipant S run).file = some file ∧
        (fileVerifies S r.allPubkeys.length file.text = true ↔ LeaderSigned C run)) := by
  constructor
  · intro run hcomplete
    rw [runLeader] at hcomplete ⊢
    cases hstart : startLeader S run with
    | error report =>
        simp only [hstart] at hcomplete
        exact absurd hcomplete (startLeader_error hstart)
    | ok s =>
        simp only [hstart] at hcomplete ⊢
        obtain ⟨file, hfile, hverifies⟩ :=
          finishLeader_verifies C (startLeader_ok C hstart) hcomplete
        exact ⟨s, file, rfl, hfile, hverifies⟩
  · intro run hsaved
    obtain ⟨n, file, hfile, ⟨r, hr, rfl⟩, hverifies⟩ := runParticipant_verifies C hsaved
    exact ⟨r, file, hr, hfile, hverifies⟩

section HonestMeeting

variable {S : Sodium} {G : Type} [AddCommGroup G] (C : Curve S G)

/-- With peers that have all signed their own shares, a proof that is reported complete verifies
exactly when neither side of its equation is neutral. -/
theorem honest_meeting_iff {run : LeaderRun S} {s : Signing} (hstart : startLeader S run = .ok s)
    (hcomplete : (runLeader S run).title = "Proof complete")
    (hpeers : ∀ p ∈ List.zipWith exchangeSig run.links s.peers, Honest C s p) :
    ∃ file, (runLeader S run).file = some file ∧
      (fileVerifies S (1 + run.links.length) file.text = true ↔
        finalScalar C s (List.zipWith exchangeSig run.links s.peers) • C.base ≠ 0 ∧
        challengeNat (S := S) (C.encode (aggregatePoint C (keyBytes s.allPubkeys)))
            (s.aggPubnonce.take 32) (S.sha512 s.message) •
          aggregatePoint C (keyBytes s.allPubkeys) ≠ 0) := by
  have hs := startLeader_ok C hstart
  rw [runLeader] at hcomplete ⊢
  simp only [hstart] at hcomplete ⊢
  obtain ⟨file, hfile, hverifies⟩ := finishLeader_verifies C hs hcomplete
  refine ⟨file, hfile, hverifies.trans ⟨fun h => ⟨h.sum_ne_zero, h.challenge_ne_zero⟩, ?_⟩⟩
  rintro ⟨hsum, hchallenge⟩
  exact ⟨shares_of_honest C hs hpeers, hsum, hchallenge⟩

end HonestMeeting

/-- The keys of the leader in the runs on residues. -/
def leaderKeys : KeyPair residues where
  pubkey := scalar 27
  seckey := List.replicate 32 1 ++ scalar 27
  seed := List.replicate 32 1
  length_seed := List.length_replicate
  length_pubkey := length_scalar 27
  pubkey_eq := by decide
  seckey_eq := rfl

/-- A leader with one peer, whose answer in round B is given. -/
def leaderRun (roundB : Option (List UInt8)) : LeaderRun residues where
  identity := ⟨Text.ofField nicknameMax (ascii "lead"), leaderKeys⟩
  sessionNonce := [1, 2, 3, 4, 5, 6, 7, 8]
  random := List.replicate 32 5
  timestamp := Text.ofField (tsFieldLen - 1) (ascii "2026-01-02 03:04")
  comment := Text.ofField commentMax []
  links :=
    [{ nickname := Text.ofField nicknameMax (ascii "peer")
       roundA := some (txNonce :: scalar 237 ++ scalar 220 ++ zeros 32)
       roundB := roundB }]
  saves := true
  length_sessionNonce := rfl
  links_ne_nil := List.cons_ne_nil _ _
  length_links := by simp [maxPeers]

/-- A participant that is sent a signature of zeros. -/
def participantRun : ParticipantRun residues where
  identity := ⟨Text.ofField nicknameMax (ascii "peer"), leaderKeys⟩
  sessionNonce := [1, 2, 3, 4, 5, 6, 7, 8]
  random := List.replicate 32 5
  stack := ([], [])
  round15 := some (round15Payload
    { msgHash := zeros 64
      aggPubnonce := scalar 16 ++ zeros 32
      allPubkeys := [⟨scalar 27, length_scalar 27⟩]
      timestamp := Text.ofField (tsFieldLen - 1) (ascii "2026-01-02 03:04")
      nicknames := [Text.ofField nicknameMax (ascii "peer")]
      comment := Text.ofField commentMax [] })
  finalSig := some (rxFinalsig :: zeros 64)
  saves := true
  length_sessionNonce := rfl

/-- A peer that signs its share, and a leader that sends zeros. -/
theorem proof_verifies_iff_residues :
    (∃ s file, startLeader residues (leaderRun (some (txPartsig :: scalar 71))) = .ok s ∧
      (runLeader residues (leaderRun (some (txPartsig :: scalar 71)))).file = some file ∧
        (fileVerifies residues 2 file.text = true ↔
          PeersSigned residuesCurve s (List.zipWith exchangeSig
            (leaderRun (some (txPartsig :: scalar 71))).links s.peers))) ∧
    (∃ r file, participantRun.round15.bind waitRound15 = some r ∧
      (runParticipant residues participantRun).file = some file ∧
        (fileVerifies residues r.allPubkeys.length file.text = true ↔
          LeaderSigned residuesCurve participantRun)) :=
  ⟨(proof_verifies_iff residuesCurve).1 (leaderRun (some (txPartsig :: scalar 71)))
      (by decide +kernel),
    (proof_verifies_iff residuesCurve).2 participantRun (by decide +kernel)⟩

/-- The run in which the peer signs its share. -/
def signedRun : LeaderRun residues := leaderRun (some (txPartsig :: scalar 71))

theorem honest_meeting_residues :
    ∃ s file, startLeader residues signedRun = .ok s ∧
      (runLeader residues signedRun).file = some file ∧
      (fileVerifies residues 2 file.text = true ↔
        finalScalar residuesCurve s (List.zipWith exchangeSig
          signedRun.links s.peers) • residuesCurve.base ≠ 0 ∧
        challengeNat (S := residues)
            (residuesCurve.encode (aggregatePoint residuesCurve (keyBytes s.allPubkeys)))
            (s.aggPubnonce.take 32) (residues.sha512 s.message) •
          aggregatePoint residuesCurve (keyBytes s.allPubkeys) ≠ 0) := by
  have hok : (match startLeader residues signedRun with
      | .error _ => false
      | .ok s => (List.zipWith exchangeSig signedRun.links
          s.peers).all fun p => decide (LittleEndian.leNat p.partialSig < residueCount ∧
            (LittleEndian.leNat p.partialSig : ZMod 251) * 1 =
              noncePoint residuesCurve p.pubnonce +
                (challengeNat (S := residues)
                    (residuesCurve.encode (aggregatePoint residuesCurve (keyBytes s.allPubkeys)))
                    (s.aggPubnonce.take 32) (residues.sha512 s.message) *
                  coeff (S := residues) (keyBytes s.allPubkeys) p.pubkey.val : Nat) *
                    residuesCurve.point p.pubkey.val)) = true := by
    decide +kernel
  cases h : startLeader residues signedRun with
  | error e => rw [h] at hok; cases hok
  | ok s =>
      rw [h] at hok
      obtain ⟨file, hfile, hverifies⟩ := honest_meeting_iff residuesCurve h (by decide +kernel)
        fun p hp => by
          have hp := of_decide_eq_true (List.all_eq_true.mp hok p hp)
          refine ⟨hp.1, ?_⟩
          rw [peerShare, keyShare, nsmul_eq_mul, nsmul_eq_mul]
          exact hp.2
      exact ⟨s, file, rfl, hfile, hverifies⟩

/-- A peer that does not answer in round B leaves a complete proof that does not verify, and
a participant saves whatever it is sent. -/
theorem proof_complete_unverified :
    (¬ ∀ run : LeaderRun residues, (runLeader residues run).title = "Proof complete" →
      (runLeader residues run).file.any fun file =>
        fileVerifies residues (1 + run.links.length) file.text) ∧
    (¬ ∀ run : ParticipantRun residues, (runParticipant residues run).title = "Proof saved" →
      (runParticipant residues run).file.any fun file =>
        (run.round15.bind waitRound15).any fun r =>
          fileVerifies residues r.allPubkeys.length file.text) := by
  constructor
  · intro h
    exact absurd (h (leaderRun none) (by decide +kernel)) (by decide +kernel)
  · intro h
    exact absurd (h participantRun (by decide +kernel)) (by decide +kernel)

example : (runLeader residues (leaderRun (some (txPartsig :: scalar 71)))).file.any
    (fun file => fileVerifies residues 2 file.text) = true := by decide +kernel

end MeetApp
end JppDos
