import JppDos.Crypto.MuSig
import JppDos.Lib.Numerals

/-!
# The proof of a meetup

The message that the devices sign, the file that keeps it with its signature, and the
reader of such a file.

Main fact:
* `readProof_proofText`: a file gives back its message, keys and signature.
-/

namespace JppDos
namespace MeetApp

open CText Numerals Crypto

/-- `MEETAPP_NICKNAME_MAX`. -/
def nicknameMax : Nat := 16

/-- `MEETAPP_COMMENT_MAX`. -/
def commentMax : Nat := 100

/-- `MEETAPP_TS_FIELD_LEN`. -/
def tsFieldLen : Nat := 20

/-- `MEETAPP_PROOF_MSG_MAX`. -/
def proofMsgMax : Nat := 2048

/-- `MEETAPP_MAX_PEERS`. -/
def maxPeers : Nat := 19

/-- `MEETAPP_MAX_TOTAL`. -/
def maxTotal : Nat := 20

/-- A C string of a bounded length. -/
abbrev Text (n : Nat) := { s : CStr // s.strlen ≤ n }

/-- A string copied into a field of `n + 1` bytes. -/
def Text.copy (n : Nat) (s : CStr) : Text n :=
  ⟨s.strncpy (n + 1), by simp [CStr.strncpy, CStr.strlen]⟩

/-- The bytes of a text. -/
def Text.bytes {n : Nat} (t : Text n) : List UInt8 := t.val.val

theorem Text.length_bytes {n : Nat} (t : Text n) : t.bytes.length ≤ n := t.property

@[simp] theorem Text.copy_val {n : Nat} (t : Text n) : Text.copy n t.val = t :=
  Subtype.ext (CStr.strncpy_of_lt (Nat.lt_succ_of_le t.property))

/-- What a field of `n + 1` bytes holds as a string, its last byte cleared. -/
def Text.ofField (n : Nat) (bytes : List UInt8) : Text n := Text.copy n (CStr.ofBytes bytes)

/-- The 32 bytes of a public key. -/
abbrev Key := { bytes : List UInt8 // bytes.length = 32 }

/-- The bytes of keys. -/
def keyBytes (keys : List Key) : List (List UInt8) := keys.map Subtype.val

/-- `meetapp_proof_participant_t`. -/
structure Participant where
  pubkey : Key
  nickname : Text nicknameMax

/-- A buffer being printed into: the text in front of its end, and the count of `snprintf`. -/
structure Out where
  text : List UInt8
  off : Nat

namespace Out

/-- An empty buffer. -/
def empty : Out := ⟨[], 0⟩

/-- `off += snprintf(out + off, size - off, ...)`. -/
def snprintf (size : Nat) (o : Out) (piece : List UInt8) : Out :=
  ⟨o.text ++ piece.take (size - 1 - o.off), o.off + piece.length⟩

/-- A buffer that holds all of a text. -/
def holding (text : List UInt8) : Out := ⟨text, text.length⟩

@[simp] theorem off_holding (text : List UInt8) : (holding text).off = text.length := rfl

@[simp] theorem text_holding (text : List UInt8) : (holding text).text = text := rfl

theorem snprintf_holding {size : Nat} {text piece : List UInt8}
    (h : text.length + piece.length < size) :
    (holding text).snprintf size piece = holding (text ++ piece) := by
  rw [snprintf, holding, holding, List.take_of_length_le (by simp only; omega),
    List.length_append]

theorem snprintf_empty {size : Nat} {piece : List UInt8} (h : piece.length < size) :
    empty.snprintf size piece = holding piece := by
  have hfits := @snprintf_holding size [] piece (by rw [List.length_nil]; omega)
  rwa [List.nil_append] at hfits

theorem foldl_snprintf_holding {size : Nat} {α : Type} (line : α → List UInt8) (xs : List α) :
    ∀ {text : List UInt8}, (text ++ xs.flatMap line).length < size →
      xs.foldl (fun o x => if o.off < size then o.snprintf size (line x) else o)
        (holding text) = holding (text ++ xs.flatMap line) := by
  induction xs with
  | nil => intro text _; simp
  | cons x xs ih =>
      intro text h
      simp only [List.flatMap_cons, List.length_append] at h
      have hoff : (holding text).off < size := by
        rw [off_holding]
        omega
      rw [List.foldl_cons, if_pos hoff, snprintf_holding (by omega), ih, List.flatMap_cons,
        List.append_assoc]
      simp only [List.length_append]
      omega

end Out

/-- The head of every message. -/
def headText : List UInt8 := ascii "J++DEVICE PROOF OF MEETUP\n-----BEGIN MESSAGE-----\n"

/-- The leader's note, if there is one. -/
def commentText (comment : Text commentMax) : List UInt8 :=
  ascii "Comment: " ++ comment.bytes ++ ascii "\n\n"

/-- The statement that is signed. -/
def statementText (n : Nat) (timestamp : Text (tsFieldLen - 1)) (sessionNonce : List UInt8) :
    List UInt8 :=
  ascii "This verifies that " ++ showBase 10 n ++
    ascii " devices' holders have met up in person on " ++ timestamp.bytes ++
    ascii ". Message is signed by participants' J++Devices using MuSig2 algorithm.\n" ++
    ascii "Session nonce: " ++ hexBytes sessionNonce ++
    ascii "\n\nParticipants and their public keys:\n"

/-- A participant's line: `"%-16s %s\n"`. -/
def participantLine (p : Participant) : List UInt8 :=
  p.nickname.bytes ++ List.replicate (nicknameMax - p.nickname.bytes.length) 32 ++ [32] ++
    hexBytes p.pubkey.val ++ [10]

/-- `meetapp_proof_build_message`: the text. -/
def buildMessage (participants : List Participant) (sessionNonce : List UInt8)
    (timestamp : Text (tsFieldLen - 1)) (comment : Text commentMax) : List UInt8 :=
  let o := Out.empty.snprintf proofMsgMax headText
  let o :=
    if comment.bytes ≠ [] ∧ o.off < proofMsgMax then
      o.snprintf proofMsgMax (commentText comment)
    else o
  let o :=
    if o.off < proofMsgMax then
      o.snprintf proofMsgMax (statementText participants.length timestamp sessionNonce)
    else o
  let o := participants.foldl (fun o p =>
    if o.off < proofMsgMax then o.snprintf proofMsgMax (participantLine p) else o) o
  o.text.take (if proofMsgMax ≤ o.off then proofMsgMax - 1 else o.off)

/-- The message with all of its parts. -/
def messageText (participants : List Participant) (sessionNonce : List UInt8)
    (timestamp : Text (tsFieldLen - 1)) (comment : Text commentMax) : List UInt8 :=
  headText ++ (if comment.bytes = [] then [] else commentText comment) ++
    statementText participants.length timestamp sessionNonce ++
    participants.flatMap participantLine

theorem length_participantLine (p : Participant) : (participantLine p).length = 82 := by
  have hnick := p.nickname.length_bytes
  simp only [participantLine, List.length_append, List.length_replicate, length_hexBytes,
    p.pubkey.property, List.length_singleton, nicknameMax] at hnick ⊢
  omega

theorem length_flatMap_participantLine (participants : List Participant) :
    (participants.flatMap participantLine).length = 82 * participants.length := by
  induction participants with
  | nil => rfl
  | cons p ps ih =>
      rw [List.flatMap_cons, List.length_append, length_participantLine, ih, List.length_cons]
      ring

theorem length_showBase_le : ∀ n ≤ maxTotal, (showBase 10 n).length ≤ 2 := by decide

theorem length_statementText {n : Nat} (hn : n ≤ maxTotal) (timestamp : Text (tsFieldLen - 1))
    {sessionNonce : List UInt8} (h : sessionNonce.length = 8) :
    (statementText n timestamp sessionNonce).length ≤ 240 := by
  have hts := timestamp.length_bytes
  have hshow := length_showBase_le n hn
  have h1 : (ascii "This verifies that ").length = 19 := by decide
  have h2 : (ascii " devices' holders have met up in person on ").length = 43 := by decide
  have h3 : (ascii
      ". Message is signed by participants' J++Devices using MuSig2 algorithm.\n").length = 72 := by
    decide
  have h4 : (ascii "Session nonce: ").length = 15 := by decide
  have h5 : (ascii "\n\nParticipants and their public keys:\n").length = 38 := by decide
  simp only [statementText, List.length_append, length_hexBytes, h, tsFieldLen, h1, h2, h3, h4,
    h5] at hts ⊢
  omega

theorem length_commentText (comment : Text commentMax) :
    (commentText comment).length ≤ 111 := by
  have hc := comment.length_bytes
  have h1 : (ascii "Comment: ").length = 9 := by decide
  have h2 : (ascii "\n\n").length = 2 := by decide
  simp only [commentText, List.length_append, commentMax, h1, h2] at hc ⊢
  omega

theorem length_headText : headText.length = 50 := by decide

theorem length_messageText {participants : List Participant} {sessionNonce : List UInt8}
    (hn : participants.length ≤ maxTotal) (hnonce : sessionNonce.length = 8)
    (timestamp : Text (tsFieldLen - 1)) (comment : Text commentMax) :
    (messageText participants sessionNonce timestamp comment).length < proofMsgMax := by
  have hhead := length_headText
  have hcomment := length_commentText comment
  have hstatement := length_statementText hn timestamp hnonce
  have hlines := length_flatMap_participantLine participants
  simp only [maxTotal] at hn
  simp only [messageText, List.length_append, proofMsgMax]
  split_ifs
  · rw [List.length_nil]
    omega
  · omega

theorem buildMessage_eq {participants : List Participant} {sessionNonce : List UInt8}
    (hn : participants.length ≤ maxTotal) (hnonce : sessionNonce.length = 8)
    (timestamp : Text (tsFieldLen - 1)) (comment : Text commentMax) :
    buildMessage participants sessionNonce timestamp comment =
      messageText participants sessionNonce timestamp comment := by
  have hfits := length_messageText hn hnonce timestamp comment
  rw [messageText] at hfits ⊢
  have hhead : Out.empty.snprintf proofMsgMax headText = Out.holding headText := by
    refine Out.snprintf_empty ?_
    simp only [List.length_append] at hfits
    omega
  have hcomment : (if comment.bytes ≠ [] ∧ (Out.holding headText).off < proofMsgMax then
      (Out.holding headText).snprintf proofMsgMax (commentText comment)
      else Out.holding headText) =
      Out.holding (headText ++ if comment.bytes = [] then [] else commentText comment) := by
    by_cases hempty : comment.bytes = []
    · rw [if_neg (fun h => h.1 hempty), if_pos hempty, List.append_nil]
    · simp only [if_neg hempty, List.length_append] at hfits
      have hoff : headText.length < proofMsgMax := by omega
      rw [if_pos ⟨hempty, hoff⟩, if_neg hempty, Out.snprintf_holding (by omega)]
  rw [buildMessage]
  simp only [hhead, hcomment]
  generalize (headText ++ if comment.bytes = [] then [] else commentText comment) = front
    at hfits ⊢
  generalize statementText participants.length timestamp sessionNonce = statement at hfits ⊢
  have hlen : front.length + statement.length < proofMsgMax := by
    simp only [List.length_append] at hfits
    omega
  have hoff : (Out.holding front).off < proofMsgMax := by
    rw [Out.off_holding]
    omega
  rw [if_pos hoff, Out.snprintf_holding hlen, Out.foldl_snprintf_holding participantLine _ hfits,
    Out.off_holding, Out.text_holding, if_neg (Nat.not_le.mpr hfits), List.take_length]

/-- The line in front of the signature. -/
def beginSignature : List UInt8 := ascii "-----BEGIN SIGNATURE-----\n"

/-- The line behind the signature. -/
def endSignature : List UInt8 := ascii "\n-----END SIGNATURE-----\n"

/-- The text of the file that `meetapp_proof_save` writes. -/
def proofText (message finalSig : List UInt8) : List UInt8 :=
  let size := proofMsgMax + 256
  let o := Out.empty.snprintf size message
  let o := o.snprintf size (beginSignature ++ hexBytes finalSig ++ endSignature)
  o.text

theorem proofText_eq {message finalSig : List UInt8} (hmsg : message.length < proofMsgMax)
    (hsig : finalSig.length = 64) :
    proofText message finalSig =
      message ++ (beginSignature ++ hexBytes finalSig ++ endSignature) := by
  have h1 : beginSignature.length = 26 := by decide
  have h2 : endSignature.length = 25 := by decide
  have hempty : Out.empty.snprintf (proofMsgMax + 256) message = Out.holding message :=
    Out.snprintf_empty (Nat.lt_add_right 256 hmsg)
  rw [proofText, hempty, Out.snprintf_holding]
  · rfl
  · simp only [List.length_append, length_hexBytes, hsig, h1, h2]
    omega

/-- The time in a file name, with its separators removed. -/
def tsCompact (timestamp : Text (tsFieldLen - 1)) : List UInt8 :=
  let ts := timestamp.bytes
  if 16 ≤ ts.length then
    ts.take 4 ++ (ts.drop 5).take 2 ++ (ts.drop 8).take 2 ++ ascii "_" ++
      (ts.drop 11).take 2 ++ (ts.drop 14).take 2
  else ascii "00000000_0000"

/-- The name of the file. -/
def proofName (sessionNonce : List UInt8) (timestamp : Text (tsFieldLen - 1)) : List UInt8 :=
  ascii "proof_" ++ hexBytes sessionNonce ++ ascii "_" ++ tsCompact timestamp ++ ascii ".txt"

/-- A file of the app. -/
structure ProofFile where
  name : List UInt8
  text : List UInt8

/-- `meetapp_proof_save`: the file that is written. -/
def proofSave (participants : List Participant) (sessionNonce : List UInt8)
    (timestamp : Text (tsFieldLen - 1)) (comment : Text commentMax) (finalSig : List UInt8) :
    ProofFile :=
  ⟨proofName sessionNonce timestamp,
    proofText (buildMessage participants sessionNonce timestamp comment) finalSig⟩

/-- The keys of `n` participants' lines. -/
def readLines : Nat → List UInt8 → Option (List (List UInt8))
  | 0, _ => some []
  | n + 1, lines => do
      let key ← readHexBytes ((lines.drop (nicknameMax + 1)).take 64)
      let keys ← readLines n (lines.drop 82)
      some (key :: keys)

/-- The message, the keys of its `n` participants and the signature of a file. -/
def readProof (n : Nat) (text : List UInt8) :
    Option (List UInt8 × List (List UInt8) × List UInt8) := do
  let len := text.length - (beginSignature.length + 128 + endSignature.length)
  let message := text.take len
  let keys ← readLines n (message.drop (message.length - 82 * n))
  let sig ← readHexBytes (((text.drop len).drop beginSignature.length).take 128)
  some (message, keys, sig)

theorem participantLine_eq (p : Participant) : ∃ front : List UInt8,
    front.length = nicknameMax + 1 ∧
      participantLine p = front ++ (hexBytes p.pubkey.val ++ [10]) := by
  have hnick := p.nickname.length_bytes
  refine ⟨p.nickname.bytes ++ List.replicate (nicknameMax - p.nickname.bytes.length) 32 ++ [32],
    ?_, ?_⟩
  · simp only [List.length_append, List.length_replicate, List.length_singleton]
    omega
  · simp only [participantLine, List.append_assoc]

theorem readLines_flatMap (participants : List Participant) :
    readLines participants.length (participants.flatMap participantLine) =
      some (keyBytes (participants.map Participant.pubkey)) := by
  induction participants with
  | nil => rfl
  | cons p ps ih =>
      obtain ⟨front, hfront, hline⟩ := participantLine_eq p
      have hkey : (((p :: ps).flatMap participantLine).drop (nicknameMax + 1)).take 64 =
          hexBytes p.pubkey.val := by
        rw [List.flatMap_cons, hline, List.append_assoc, List.drop_left' hfront,
          List.append_assoc]
        exact List.take_left' (by rw [length_hexBytes, p.pubkey.property])
      rw [List.length_cons, readLines, hkey, readHexBytes_hexBytes, List.flatMap_cons,
        List.drop_left' (length_participantLine p), ih]
      rfl

theorem readProof_proofText {participants : List Participant} {sessionNonce : List UInt8}
    (hn : participants.length ≤ maxTotal) (hnonce : sessionNonce.length = 8)
    (timestamp : Text (tsFieldLen - 1)) (comment : Text commentMax) {finalSig : List UInt8}
    (hsig : finalSig.length = 64) :
    readProof participants.length
        (proofSave participants sessionNonce timestamp comment finalSig).text =
      some (messageText participants sessionNonce timestamp comment,
        keyBytes (participants.map Participant.pubkey), finalSig) := by
  have hfits := length_messageText hn hnonce timestamp comment
  rw [proofSave, buildMessage_eq hn hnonce, proofText_eq hfits hsig]
  have hlines : (messageText participants sessionNonce timestamp comment).drop
      ((messageText participants sessionNonce timestamp comment).length -
        82 * participants.length) = participants.flatMap participantLine := by
    rw [messageText, ← length_flatMap_participantLine, List.length_append, Nat.add_sub_cancel,
      List.drop_left]
  generalize messageText participants sessionNonce timestamp comment = message at hlines ⊢
  have hlen : (message ++ (beginSignature ++ hexBytes finalSig ++ endSignature)).length -
      (beginSignature.length + 128 + endSignature.length) = message.length := by
    simp only [List.length_append, length_hexBytes, hsig]
    omega
  have hsigText : ((beginSignature ++ hexBytes finalSig ++ endSignature).drop
      beginSignature.length).take 128 = hexBytes finalSig := by
    rw [List.append_assoc, List.drop_left]
    exact List.take_left' (by rw [length_hexBytes, hsig])
  simp only [readProof, hlen, List.take_left, List.drop_left, hlines, hsigText,
    readLines_flatMap, readHexBytes_hexBytes, Option.bind_eq_bind, Option.bind_some]

/-- A file verifies: its signature does, for the keys listed in its message and the hash of
the message. -/
def fileVerifies (S : Sodium) (n : Nat) (text : List UInt8) : Bool :=
  match readProof n text with
  | none => false
  | some (message, keys, sig) =>
      match aggregatePubkeys S keys with
      | none => false
      | some P => verify S (S.sha512 message) P sig

end MeetApp
end JppDos
