import JppDos.Ble.Msg
import JppDos.MeetApp.Meetup

/-!
# The text that everybody signs

The leader builds the message, signs its hash and sends what the participants need to build
it again: round 1.5, which travels as one message over characteristic writes.

Main fact:
* `round15_shares_text`: a participant reads what was sent and builds the leader's message,
  of which nothing is cut off.
-/

namespace JppDos
namespace MeetApp

open CText Crypto

/-- The message of a session and what is sent of it: one to twenty participants with their
keys and nicknames, the nonce, the time and the leader's comment. -/
structure SharedText where
  participants : List Participant
  sessionNonce : List UInt8
  timestamp : Text (tsFieldLen - 1)
  comment : Text commentMax
  aggPubnonce : List UInt8
  participants_pos : 0 < participants.length
  participants_le : participants.length ≤ maxTotal
  length_sessionNonce : sessionNonce.length = 8
  length_aggPubnonce : aggPubnonce.length = 64

/-- The leader's message. -/
def SharedText.message (x : SharedText) : List UInt8 :=
  buildMessage x.participants x.sessionNonce x.timestamp x.comment

/-- What `meetapp_ble_exchange_sigs` is given to send. -/
def SharedText.round15 (S : Sodium) (x : SharedText) : Round15 where
  msgHash := S.sha512 x.message
  aggPubnonce := x.aggPubnonce
  allPubkeys := x.participants.map Participant.pubkey
  timestamp := x.timestamp
  nicknames := x.participants.map Participant.nickname
  comment := x.comment

/-- The message that a participant builds for its file. -/
def Round15.message (r : Round15) (sessionNonce : List UInt8) : List UInt8 :=
  buildMessage r.participants sessionNonce r.timestamp r.comment

/-- The static `rx_buf` of `meetapp_ble_wait_round15`. -/
abbrev Round15Buf := { bytes : List UInt8 // bytes.length = Ble.hostRxMax }

/-- The buffer as the caller's buffer of a transfer. -/
def Round15Buf.outBuf (buf : Round15Buf) : Ble.OutBuf :=
  ⟨buf.val, by rw [buf.property]; decide⟩

/-- `meetapp_ble_wait_round15` with the transfer below it. -/
def bleWaitRound15 (timeoutMs : UInt32) (buf : Round15Buf) (frames : List Ble.Frame) :
    Option Round15 :=
  let r := Ble.msgHostRecv timeoutMs buf.outBuf frames
  if r.result = .ok then waitRound15 (r.out.take r.outLen.toNat) else none

theorem length_round15Payload_le {r : Round15} (hhash : r.msgHash.length = 64)
    (hnonce : r.aggPubnonce.length = 64) (hmax : r.allPubkeys.length ≤ maxTotal)
    (hnicks : r.nicknames.length = r.allPubkeys.length) :
    (round15Payload r).length ≤ Ble.hostRxMax := by
  have hkeys := length_flatten_keyBytes r.allPubkeys
  have hts : (field tsFieldLen r.timestamp.bytes).length = tsFieldLen :=
    length_field (Nat.le_succ_of_le r.timestamp.length_bytes)
  have hnick := length_flatMap_field r.nicknames
  have hcomment : (field (commentMax + 1) r.comment.bytes).length = commentMax + 1 :=
    length_field (Nat.le_succ_of_le r.comment.length_bytes)
  rw [hnicks] at hnick
  have hfields : (round15Payload r).length = 130 + r.allPubkeys.length * 32 + tsFieldLen +
      r.allPubkeys.length * (nicknameMax + 1) + (commentMax + 1) := by
    simp only [round15Payload, List.length_append, List.length_singleton, hhash, hnonce, hkeys,
      hts, hnick, hcomment]
  simp only [maxTotal, tsFieldLen, nicknameMax, commentMax, Ble.hostRxMax] at hmax hfields ⊢
  omega

/-- What a participant reads of round 1.5 names the leader's participants. -/
theorem participants_round15 (S : Sodium) (x : SharedText) :
    (x.round15 S).participants = x.participants := by
  have hzip : (x.participants.map Participant.pubkey).zip
      (x.participants.map Participant.nickname) =
        x.participants.map fun p => (p.pubkey, p.nickname) := by
    rw [List.zip_map', List.map_congr_left]
    exact fun _ _ => rfl
  rw [Round15.participants, SharedText.round15, hzip, List.map_map]
  refine (List.map_congr_left fun p _ => ?_).trans (List.map_id _)
  simp only [Function.comp_apply, Text.copy_val]
  rfl

/-- What the leader sends in round 1.5. -/
def sentRound15 (S : Sodium) (run : LeaderRun S) (s : Signing) : Round15 where
  msgHash := S.sha512 s.message
  aggPubnonce := s.aggPubnonce
  allPubkeys := s.allPubkeys
  timestamp := run.timestamp
  nicknames := s.participants.map Participant.nickname
  comment := run.comment

/-- What `meetapp_ble_distribute_sig` writes, if there is a sum. -/
def sentFinalSig (S : Sodium) (run : LeaderRun S) (s : Signing) : Option (List UInt8) :=
  (aggregateSigs S (s.partialSig :: (List.zipWith exchangeSig run.links s.peers).map
    Peer.partialSig)).map fun sum => rxFinalsig :: (s.aggPubnonce.take 32 ++ sum)

section Session

variable {S : Sodium} {G : Type} [AddCommGroup G] (C : Curve S G)

include C in
theorem length_foldlM_add {nonces : List (List UInt8)} {acc R : List UInt8}
    (hacc : acc.length = 32)
    (h : nonces.foldlM (fun acc nonce => S.add acc (nonce.take 32)) acc = some R) :
    R.length = 32 := by
  induction nonces generalizing acc with
  | nil =>
      obtain rfl := Option.some.inj h
      exact hacc
  | cons nonce nonces ih =>
      rw [List.foldlM_cons] at h
      obtain ⟨acc', hacc', h⟩ := Option.bind_eq_some_iff.mp h
      rw [C.add_eq] at hacc'
      obtain ⟨g, -, hacc'⟩ := Option.bind_eq_some_iff.mp hacc'
      obtain ⟨n, -, rfl⟩ := Option.map_eq_some_iff.mp hacc'
      exact ih (C.length_encode _) h

include C in
/-- An aggregate of nonces that begins with a generated one is 64 bytes long. -/
theorem length_aggregateNonces {random sec pub R : List UInt8} {nonces : List (List UInt8)}
    (hnonce : nonceGen S random = some (sec, pub))
    (h : aggregateNonces S (pub :: nonces) = some R) : R.length = 64 := by
  obtain ⟨acc, hacc, h⟩ := Option.bind_eq_some_iff.mp h
  obtain rfl := Option.some.inj h
  obtain ⟨r, -, -, hpub⟩ := nonceGen_some C hnonce
  have hlength := length_foldlM_add C (by rw [hpub, C.length_encode]) hacc
  rw [List.length_append, hlength, zeros, List.length_replicate]

include C in
/-- A leader's session has such a text, of which round 1.5 is sent. -/
theorem startLeader_sharedText {run : LeaderRun S} {s : Signing}
    (h : startLeader S run = .ok s) :
    ∃ x : SharedText, x.participants = s.participants ∧ x.aggPubnonce = s.aggPubnonce ∧
      x.round15 S = sentRound15 S run s := by
  have hs := startLeader_ok C h
  have hcount := hs.length_participants
  have hlinks := run.length_links
  simp only [maxPeers] at hlinks
  have hle : s.participants.length ≤ maxTotal := by
    simp only [maxTotal]
    omega
  have haggPubnonce : s.aggPubnonce.length = 64 := by
    rw [startLeader] at h
    split at h
    · cases h
    · rename_i hnonce
      simp only at h
      split at h
      · cases h
      · rename_i hagg
        split at h
        · cases h
        · obtain rfl := Except.ok.inj h
          exact length_aggregateNonces C hnonce hagg
  refine ⟨⟨s.participants, run.sessionNonce, run.timestamp, run.comment, s.aggPubnonce, by omega,
    hle, run.length_sessionNonce, haggPubnonce⟩, rfl, rfl, ?_⟩
  rw [SharedText.round15, sentRound15, hs.participants_eq, hs.message_eq, SharedText.message,
    buildMessage_eq hle run.length_sessionNonce]

include C in
theorem waitRound15_sent (x : SharedText) :
    waitRound15 (round15Payload (x.round15 S)) = some (x.round15 S) := by
  have hkeys : (x.round15 S).allPubkeys.length = x.participants.length := List.length_map _
  exact waitRound15_round15Payload (C.length_sha512 _) x.length_aggPubnonce
    (hkeys ▸ x.participants_pos) (hkeys ▸ x.participants_le)
    ((List.length_map _).trans hkeys.symm)

include C in
/-- However many devices meet, a participant that is sent the frames of round 1.5 reads
exactly what the leader has sent and builds the leader's message, which has all of its parts;
so its hash is the one that is signed. -/
theorem round15_shares_text (x : SharedText) (timeoutMs : UInt32) (buf : Round15Buf)
    (later : List Ble.Frame) :
    bleWaitRound15 timeoutMs buf (Ble.handedOver (round15Payload (x.round15 S)) ++ later) =
        some (x.round15 S) ∧
      x.message = messageText x.participants x.sessionNonce x.timestamp x.comment ∧
      x.message.length < proofMsgMax ∧
      (x.round15 S).message x.sessionNonce = x.message ∧
      S.sha512 ((x.round15 S).message x.sessionNonce) = (x.round15 S).msgHash := by
  have hhash : (x.round15 S).msgHash.length = 64 := C.length_sha512 _
  have hkeys : (x.round15 S).allPubkeys.length = x.participants.length := List.length_map _
  have hnicks : (x.round15 S).nicknames.length = (x.round15 S).allPubkeys.length :=
    (List.length_map _).trans hkeys.symm
  have hmax : (x.round15 S).allPubkeys.length ≤ maxTotal := hkeys ▸ x.participants_le
  have hpos : 0 < (x.round15 S).allPubkeys.length := hkeys ▸ x.participants_pos
  have htext := buildMessage_eq x.participants_le x.length_sessionNonce x.timestamp x.comment
  have hsame : (x.round15 S).message x.sessionNonce = x.message := by
    rw [Round15.message, participants_round15]
    rfl
  refine ⟨?_, htext, ?_, hsame, by rw [hsame]; rfl⟩
  · have hroom : (round15Payload (x.round15 S)).length ≤ buf.outBuf.bytes.length :=
      buf.property ▸ length_round15Payload_le hhash x.length_aggPubnonce hmax hnicks
    have htook := Ble.recv_send timeoutMs buf.outBuf hroom later (Ble.map_handedOver _)
    rw [bleWaitRound15, if_pos htook.ok, htook.outLen, htook.out]
    exact waitRound15_round15Payload hhash x.length_aggPubnonce hpos hmax hnicks
  · rw [SharedText.message, htext]
    exact length_messageText x.participants_le x.length_sessionNonce x.timestamp x.comment

include C in
/-- The leader has the sum of the shares, and its last message is read as the signature. -/
theorem finalSig_sent {run : LeaderRun S} {s : Signing} (hstart : startLeader S run = .ok s)
    (hnonce : s.aggPubnonce.length = 64) :
    ∃ sum, aggregateSigs S (s.partialSig ::
        (List.zipWith exchangeSig run.links s.peers).map Peer.partialSig) = some sum ∧
      (sentFinalSig S run s).bind waitFinalSig = some (s.aggPubnonce.take 32 ++ sum) := by
  obtain ⟨r, k, hk, hsigned, -, -⟩ := (startLeader_ok C hstart).signs
  have hsum : aggregateSigs S (s.partialSig ::
      (List.zipWith exchangeSig run.links s.peers).map Peer.partialSig) =
        some (scalar (finalScalar C s (List.zipWith exchangeSig run.links s.peers))) := by
    rw [hsigned, aggregateSigs_eq C hk, finalScalar, hsigned, C.leNat_scalar hk]
  generalize hscalar : scalar (finalScalar C s (List.zipWith exchangeSig run.links s.peers)) = sum
    at hsum
  have hlength : (s.aggPubnonce.take 32 ++ sum).length = 64 := by
    rw [← hscalar, List.length_append, length_scalar, List.length_take, hnonce]
    rfl
  refine ⟨sum, hsum, ?_⟩
  rw [sentFinalSig, hsum, Option.map_some, Option.bind_some, waitFinalSig, if_neg,
    List.drop_one, List.tail_cons, List.take_of_length_le hlength.le]
  rintro (hshort | hother)
  · rw [List.length_cons, hlength] at hshort
    omega
  · exact hother rfl

include C in
/-- A participant that is sent the leader's two messages saves the leader's proof, byte for byte
and under its name. -/
theorem same_proof {run : LeaderRun S} {s : Signing} (hstart : startLeader S run = .ok s)
    (hcomplete : (runLeader S run).title = "Proof complete") {member : ParticipantRun S}
    (hsession : member.sessionNonce = run.sessionNonce)
    (hround15 : member.round15 = some (round15Payload (sentRound15 S run s)))
    (hfinal : member.finalSig = sentFinalSig S run s)
    (hsaved : (runParticipant S member).title = "Proof saved") :
    (runParticipant S member).file = (runLeader S run).file := by
  obtain ⟨x, hparticipants, hnonce, hsent⟩ := startLeader_sharedText C hstart
  have hread : member.round15.bind waitRound15 = some (sentRound15 S run s) := by
    rw [hround15, ← hsent]
    exact waitRound15_sent C x
  have hlisted : (sentRound15 S run s).participants = s.participants := by
    rw [← hsent, participants_round15, hparticipants]
  have hlength : s.aggPubnonce.length = 64 := hnonce ▸ x.length_aggPubnonce
  obtain ⟨sum, hsum, hread'⟩ := finalSig_sent C hstart hlength
  rw [← hfinal] at hread'
  rw [runLeader] at hcomplete ⊢
  rw [runParticipant] at hsaved ⊢
  generalize (nonceGen S member.random).getD member.stack = nonces at hsaved ⊢
  simp only [hstart, finishLeader, hsum] at hcomplete ⊢
  simp only [hread, hread'] at hsaved ⊢
  split at hcomplete
  swap
  · exact absurd hcomplete (by simp [notify])
  rename_i hleader
  split at hsaved
  · exact absurd hsaved (by simp [notify])
  split at hsaved
  swap
  · exact absurd hsaved (by simp [notify])
  rename_i hmember
  rw [if_pos hleader, if_pos hmember, hlisted, hsession]
  rfl

end Session

/-- The participant of that run. -/
def signedMember : ParticipantRun residues where
  identity := ⟨Text.ofField nicknameMax (ascii "peer"), leaderKeys⟩
  sessionNonce := [1, 2, 3, 4, 5, 6, 7, 8]
  random := List.replicate 32 5
  stack := ([], [])
  round15 := (startLeader residues signedRun).toOption.map fun s =>
    round15Payload (sentRound15 residues signedRun s)
  finalSig := (startLeader residues signedRun).toOption.bind (sentFinalSig residues signedRun)
  saves := true
  length_sessionNonce := signedRun.length_sessionNonce

theorem same_proof_signedMember :
    (runParticipant residues signedMember).file = (runLeader residues signedRun).file := by
  cases h : startLeader residues signedRun with
  | error e =>
      have hok : (startLeader residues signedRun).toOption.isSome = true := by decide +kernel
      rw [h] at hok
      cases hok
  | ok s =>
      exact same_proof residuesCurve h (by decide +kernel) rfl (by rw [signedMember, h]; rfl)
        (by rw [signedMember, h]; rfl) (by decide +kernel)

end MeetApp
end JppDos
