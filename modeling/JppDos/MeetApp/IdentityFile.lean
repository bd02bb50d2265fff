import JppDos.Lib.Machine
import JppDos.MeetApp.Meetup
import JppDos.Sdk.Context
import Mathlib.Data.List.DropRight

/-!
# The identity file

The nickname and the key pair of a device are one line of digits on the card.  The app
reads it at its start; when it gets no identity from it, it makes a new one and writes
that over the file.  Every call may find its lock taken, its file closed to it, or the
card failing half way.

Main fact:
* `identity_kept_iff`: the runs that keep every identity.
-/

namespace JppDos
namespace MeetApp

open CText Numerals Crypto
open Sdk (BrokerStatus BrokerResult SdkStatus LockSet okResult errorResult resultPut resultGet
  runExclusive Obtainable)

/-- The 64 bytes of a secret key. -/
abbrev SecretKey := { bytes : List UInt8 // bytes.length = 64 }

/-- `meetapp_identity_t`, whatever its keys are. -/
structure IdentityRecord where
  nickname : Text nicknameMax
  pubkey : Key
  seckey : SecretKey
  loaded : Bool
  deriving DecidableEq

/-- `IDENTITY_SIZE`. -/
def identitySize : Nat := 1 + nicknameMax + 32 + 64

/-- The bytes that `save_identity` prints. -/
def identityBytes (id : IdentityRecord) : List UInt8 :=
  UInt8.ofNat id.nickname.bytes.length ::
    (id.nickname.bytes ++ zeros (nicknameMax - id.nickname.bytes.length)) ++
    id.pubkey.val ++ id.seckey.val

/-- The text that `save_identity` writes. -/
def identityText (id : IdentityRecord) : List UInt8 := hexBytes (identityBytes id)

/-- A digit of a hexadecimal number, as `sscanf` reads it. -/
def hexDigit (c : UInt8) : Option Nat :=
  match digitVal c with
  | some d => some d
  | none => if 65 ≤ c.toNat ∧ c.toNat ≤ 70 then some (c.toNat - 55) else none

/-- `sscanf(s, "%02x", &byte)`, and the byte that is kept of the number: behind white
space at most two characters, of which the first may be a sign. -/
def scanByte (s : List UInt8) : Option UInt8 :=
  match s.dropWhile isSpace with
  | [] => none
  | c :: rest =>
      if c = 43 ∨ c = 45 then do
        let d ← rest.head?
        let n ← hexDigit d
        some (if c = 45 then UInt8.ofNat (256 - n) else UInt8.ofNat n)
      else do
        let hi ← hexDigit c
        match rest.head? with
        | none => some (UInt8.ofNat hi)
        | some d =>
            match hexDigit d with
            | some lo => some (UInt8.ofNat (16 * hi + lo))
            | none =>
                -- "0x" promises a digit that the width leaves no room for
                if c = 48 ∧ (d = 120 ∨ d = 88) then none else some (UInt8.ofNat hi)

/-- The `n` bytes of a field. -/
def fieldBytes (n : Nat) (bytes : List UInt8) : { bytes : List UInt8 // bytes.length = n } :=
  ⟨(bytes ++ zeros n).take n, by simp [zeros]⟩

/-- The identity in the bytes of a file. -/
def identityOfBytes (buf : List UInt8) : IdentityRecord where
  nickname := Text.ofField nicknameMax
    ((buf.drop 1).take (min (buf.headD 0).toNat nicknameMax))
  pubkey := fieldBytes 32 (buf.drop (1 + nicknameMax))
  seckey := fieldBytes 64 (buf.drop (1 + nicknameMax + 32))
  loaded := true

/-- What `load_identity` makes of the text of the file. -/
def decodeIdentity (hex : CStr) : Option IdentityRecord :=
  if hex.strlen < identitySize * 2 then none
  else do
    let buf ← (List.range identitySize).mapM fun i => scanByte (hex.val.drop (i * 2))
    some (identityOfBytes buf)

/-- The file on the card: its content if it is there, and how often it has been opened for
writing. -/
structure SdFile where
  content : Option (List UInt8)
  writes : Nat
  deriving DecidableEq

/-- What a call finds: the app's context, and the locks that all tasks share. -/
structure Access where
  bound : Bool
  services : Bool
  locks : LockSet
  deriving DecidableEq

/-- How far the card serves a reader: the file can be opened, and this many bytes come. -/
structure ReadCourse where
  opens : Bool
  fetched : Nat
  deriving DecidableEq

/-- How far the card serves a writer: the file can be opened, and this many bytes arrive. -/
structure WriteCourse where
  opens : Bool
  stored : Nat
  deriving DecidableEq

/-- A literal. -/
def lit (s : String) : CStr := CStr.ofBytes (ascii s)

/-- The size of `s_file_read_buf`. -/
def fileReadBufSize : Nat := 4096

/-- The text in the buffer after `fread` and the terminating zero. -/
def delivered (c : ReadCourse) (f : List UInt8) : CStr :=
  CStr.ofBytes (f.take (min c.fetched (fileReadBufSize - 1)))

/-- `sd_file_read_cb`. -/
def sdFileReadCb (c : ReadCourse) (file : SdFile) :
    BrokerStatus × BrokerResult CStr × SdFile :=
  match file.content with
  | none => (.ok, errorResult "FILE_NOT_FOUND", file)
  | some f =>
      if c.opens then (.ok, (resultPut okResult (lit "text") (delivered c f)).2, file)
      else (.ok, errorResult "FILE_NOT_FOUND", file)

/-- `sd_file_write_cb`: opening the file empties it, and a failing `fputs` goes unseen. -/
def sdFileWriteCb (c : WriteCourse) (text : List UInt8) (file : SdFile) :
    BrokerStatus × BrokerResult CStr × SdFile :=
  if c.opens then (.ok, okResult, ⟨some (text.take c.stored), file.writes + 1⟩)
  else (.ok, errorResult "WRITE_FAILED", file)

/-- `jpp_sdk_file_read` and `jpp_sdk_file_write`, with their service. -/
def sdkFile (a : Access) (service : SdFile → BrokerStatus × BrokerResult CStr × SdFile)
    (file : SdFile) : SdkStatus × Option (BrokerResult CStr) × SdFile :=
  if !a.bound then (.invalidState, none, file)
  else if !a.services then (.invalidState, none, file)
  else
    let (status, result, _, file) := runExclusive lit "storage" service a.locks file
    (if status = .ok then .ok else .brokerError, result, file)

/-- The result of a call that has succeeded: `st == JPP_SDK_STATUS_OK && result.ok`. -/
def success (status : SdkStatus) (result : Option (BrokerResult CStr)) :
    Option (BrokerResult CStr) :=
  if status = .ok then result.filter fun r => r.ok else none

/-- `load_identity`. -/
def loadIdentity (a : Access) (c : ReadCourse) (file : SdFile) : Option IdentityRecord := do
  let (status, result, _) := sdkFile a (sdFileReadCb c) file
  let result ← success status result
  let hex ← resultGet id result (lit "text")
  decodeIdentity hex

/-- `save_identity`. -/
def saveIdentity (a : Access) (c : WriteCourse) (id : IdentityRecord) (file : SdFile) :
    Bool × SdFile :=
  let (status, result, file) := sdkFile a (sdFileWriteCb c (identityText id)) file
  ((success status result).isSome, file)

/-- A name without the spaces around it. -/
def trimSpaces (t : Text nicknameMax) : List UInt8 :=
  (t.bytes.dropWhile (· = 32)).rdropWhile (· = 32)

/-- `meetapp_identity_prompt_nickname`, over the entries that the user makes one after the
other; `none` is BACK. -/
def promptNickname : List (Option (Text nicknameMax)) → Option (Text nicknameMax)
  | [] => none
  | none :: _ => none
  | some t :: rest =>
      if trimSpaces t = [] then promptNickname rest
      else some (Text.ofField nicknameMax (trimSpaces t))

/-- `try_default_nickname_from_device`, on the user's name if the device reports one. -/
def defaultNickname (username : Option CStr) : Option (Text nicknameMax) :=
  (username.filter fun u => u.strlen ≠ 0).map (Text.copy nicknameMax)

/-- The record of a nickname and a key pair. -/
def freshIdentity {S : Sodium} (nickname : Text nicknameMax) (keys : KeyPair S) :
    IdentityRecord where
  nickname := nickname
  pubkey := ⟨keys.pubkey, keys.length_pubkey⟩
  seckey := ⟨keys.seckey, by
    rw [keys.seckey_eq, List.length_append, keys.length_seed, keys.length_pubkey]⟩
  loaded := true

section Sessions

variable (S : Sodium)

/-- What a start of the app meets. -/
structure StartCourse where
  reading : Access
  read : ReadCourse
  username : Option CStr
  entries : List (Option (Text nicknameMax))
  keys : Option (KeyPair S)
  writing : Access
  write : WriteCourse

/-- What a reset meets. -/
structure ResetCourse where
  entries : List (Option (Text nicknameMax))
  keys : Option (KeyPair S)
  writing : Access
  write : WriteCourse

variable {S}

/-- The name of an identity that a start makes. -/
def StartCourse.nickname (c : StartCourse S) : Option (Text nicknameMax) :=
  (defaultNickname c.username).or (promptNickname c.entries)

/-- The common end of `meetapp_identity_load_or_create` and `meetapp_identity_reset`: save
the identity if there is one to save. -/
def saveFresh (nickname : Option (Text nicknameMax)) (keys : Option (KeyPair S))
    (a : Access) (c : WriteCourse) (file : SdFile) : Option IdentityRecord × SdFile :=
  match nickname, keys with
  | some nickname, some keys =>
      let (saved, file) := saveIdentity a c (freshIdentity nickname keys) file
      (if saved then some (freshIdentity nickname keys) else none, file)
  | _, _ => (none, file)

/-- `meetapp_identity_load_or_create`. -/
def loadOrCreate (c : StartCourse S) (file : SdFile) : Option IdentityRecord × SdFile :=
  match loadIdentity c.reading c.read file with
  | some id => (some id, file)
  | none => saveFresh c.nickname c.keys c.writing c.write file

/-- `meetapp_identity_reset`. -/
def resetIdentity (c : ResetCourse S) (file : SdFile) : Option IdentityRecord × SdFile :=
  saveFresh (promptNickname c.entries) c.keys c.writing c.write file

end Sessions

theorem hexDigit_digitChar {d : Nat} (h : d < 16) : hexDigit (digitChar d) = some d := by
  rw [hexDigit, digitVal_digitChar h]

theorem scanByte_hexByte (b : UInt8) (rest : List UInt8) :
    scanByte (hexByte b ++ rest) = some b := by
  have hb := b.toNat_lt
  have hhi := digitChar_toNat (by omega : b.toNat / 16 < 16)
  have hge : 48 ≤ (digitChar (b.toNat / 16)).toNat := by
    rw [hhi]
    split_ifs <;> omega
  have hspace : isSpace (digitChar (b.toNat / 16)) = false := by
    simp only [isSpace, UInt8.le_iff_toNat_le, Bool.or_eq_false_iff, Bool.and_eq_false_iff,
      decide_eq_false_iff_not, beq_eq_false_iff_ne, ne_eq, ← UInt8.toNat_inj]
    refine ⟨Or.inr ?_, ?_⟩
    · intro h
      exact absurd (Nat.le_trans hge h) (by decide)
    · intro h
      exact absurd (h ▸ hge) (by decide)
  have hsign : ¬ (digitChar (b.toNat / 16) = 43 ∨ digitChar (b.toNat / 16) = 45) := by
    rintro (h | h)
    · exact absurd (h ▸ hge) (by decide)
    · exact absurd (h ▸ hge) (by decide)
  have hbyte : UInt8.ofNat (16 * (b.toNat / 16) + b.toNat % 16) = b := by
    rw [Nat.div_add_mod, UInt8.ofNat_toNat]
  unfold scanByte
  simp only [hexByte, List.cons_append, List.nil_append, List.dropWhile_cons, hspace,
    Bool.false_eq_true, if_false, if_neg hsign, List.head?_cons,
    hexDigit_digitChar (by omega : b.toNat / 16 < 16),
    hexDigit_digitChar (by omega : b.toNat % 16 < 16), hbyte, Option.bind_eq_bind,
    Option.bind_some]

/-- The loop of `load_identity` on a text that was printed. -/
theorem mapM_scanByte_hexBytes (bytes : List UInt8) :
    ((List.range bytes.length).mapM fun i => scanByte ((hexBytes bytes).drop (i * 2))) =
      some bytes := by
  induction bytes with
  | nil => rfl
  | cons b bytes ih =>
      have hnext : ∀ i, (hexBytes (b :: bytes)).drop ((i + 1) * 2) =
          (hexBytes bytes).drop (i * 2) := fun i => by
        rw [hexBytes_cons, Nat.succ_mul, List.drop_succ_cons, List.drop_succ_cons]
      have hfirst : scanByte ((hexBytes (b :: bytes)).drop (0 * 2)) = some b :=
        scanByte_hexByte b (hexBytes bytes)
      rw [List.length_cons, List.range_succ_eq_map, List.mapM_cons, hfirst, List.mapM_map]
      simp only [Function.comp_def, Nat.succ_eq_add_one, hnext, ih, Option.bind_eq_bind,
        Option.bind_some, Option.pure_def]

/-- The nickname's field: its bytes, and zeros up to its size. -/
theorem length_nicknameField (t : Text nicknameMax) :
    (t.bytes ++ zeros (nicknameMax - t.bytes.length)).length = nicknameMax := by
  have hle := t.length_bytes
  rw [List.length_append, zeros, List.length_replicate]
  omega

theorem length_identityBytes (id : IdentityRecord) : (identityBytes id).length = identitySize := by
  rw [identityBytes, List.length_append, List.length_append, List.length_cons,
    length_nicknameField, id.pubkey.property, id.seckey.property]
  rfl

theorem length_identityText (id : IdentityRecord) :
    (identityText id).length = identitySize * 2 := by
  rw [identityText, length_hexBytes, length_identityBytes, Nat.mul_comm]

theorem zero_not_mem_identityText (id : IdentityRecord) : 0 ∉ identityText id :=
  fun h => absurd (hexBytes_ge h) (by decide)

theorem fieldBytes_append {n : Nat} (field : { bytes : List UInt8 // bytes.length = n })
    (rest : List UInt8) : fieldBytes n (field.val ++ rest) = field := by
  refine Subtype.ext ?_
  change (field.val ++ rest ++ zeros n).take n = field.val
  rw [List.append_assoc, List.take_left' field.property]

/-- The fields of an identity are found where they were put. -/
theorem identityOfBytes_identityBytes (id : IdentityRecord) :
    identityOfBytes (identityBytes id) = { id with loaded := true } := by
  have hle := id.nickname.length_bytes
  have hfield := length_nicknameField id.nickname
  have hlen : (UInt8.ofNat id.nickname.bytes.length).toNat = id.nickname.bytes.length := by
    rw [UInt8.toNat_ofNat']
    exact Nat.mod_eq_of_lt (Nat.lt_of_le_of_lt hle (by decide))
  have hnickname : (identityBytes id).drop 1 =
      id.nickname.bytes ++ (zeros (nicknameMax - id.nickname.bytes.length) ++
        (id.pubkey.val ++ id.seckey.val)) := by
    simp only [identityBytes, List.cons_append, List.drop_succ_cons, List.drop_zero,
      List.append_assoc]
  have hpubkey : (identityBytes id).drop (1 + nicknameMax) = id.pubkey.val ++ id.seckey.val := by
    rw [← List.drop_drop, hnickname, ← List.append_assoc, List.drop_left' hfield]
  have hseckey : (identityBytes id).drop (1 + nicknameMax + 32) = id.seckey.val ++ [] := by
    rw [← List.drop_drop, hpubkey, List.drop_left' id.pubkey.property, List.append_nil]
  have hhead : (identityBytes id).headD 0 = UInt8.ofNat id.nickname.bytes.length := rfl
  unfold identityOfBytes
  rw [hnickname, hpubkey, hseckey, hhead, hlen, Nat.min_eq_left hle, List.take_left,
    fieldBytes_append, fieldBytes_append, Text.ofField, Text.bytes, CStr.ofBytes_val,
    Text.copy_val]

theorem decodeIdentity_identityText (id : IdentityRecord) :
    decodeIdentity (CStr.ofBytes (identityText id)) = some { id with loaded := true } := by
  have hval : CStr.ofBytes (identityText id) = ⟨identityText id, zero_not_mem_identityText id⟩ :=
    CStr.ofBytes_val ⟨identityText id, zero_not_mem_identityText id⟩
  have hloop : ((List.range identitySize).mapM fun i =>
      scanByte ((identityText id).drop (i * 2))) = some (identityBytes id) := by
    rw [← length_identityBytes id]
    exact mapM_scanByte_hexBytes (identityBytes id)
  rw [decodeIdentity, hval, CStr.strlen, length_identityText, if_neg (Nat.lt_irrefl _), hloop,
    Option.bind_eq_bind, Option.bind_some, identityOfBytes_identityBytes]

theorem decodeIdentity_take (f : List UInt8) {n : Nat} (h : n < identitySize * 2) :
    decodeIdentity (CStr.ofBytes (f.take n)) = none := by
  have hlen : (CStr.ofBytes (f.take n)).strlen ≤ n :=
    Nat.le_trans (List.takeWhile_sublist _).length_le (List.length_take_le n f)
  rw [decodeIdentity, if_pos (Nat.lt_of_le_of_lt hlen h)]

/-- The call reaches the service: the context is bound to it, and the lock can be taken. -/
def Access.Served (a : Access) : Prop :=
  a.bound = true ∧ a.services = true ∧ Obtainable a.locks "storage"

instance (a : Access) : Decidable a.Served := inferInstanceAs (Decidable (_ ∧ _))

theorem sdkFile_served {a : Access} (h : a.Served)
    (service : SdFile → BrokerStatus × BrokerResult CStr × SdFile) (file : SdFile) :
    sdkFile a service file =
      (if (service file).1 = .ok then .ok else .brokerError, some (service file).2.1,
        (service file).2.2) := by
  obtain ⟨hbound, hservices, hlock⟩ := h
  obtain ⟨locks, hrun⟩ := Sdk.runExclusive_obtainable hlock lit service file
  rw [sdkFile, hbound, hservices, hrun]
  rfl

theorem sdkFile_refused {a : Access} (h : ¬ a.Served)
    (service : SdFile → BrokerStatus × BrokerResult CStr × SdFile) (file : SdFile) :
    ∃ status result, sdkFile a service file = (status, result, file) ∧
      success status result = none := by
  rw [sdkFile]
  cases hbound : a.bound with
  | false => exact ⟨_, _, rfl, rfl⟩
  | true =>
      cases hservices : a.services with
      | false => exact ⟨_, _, rfl, rfl⟩
      | true =>
          obtain ⟨status, result, hrun, hok⟩ := Sdk.runExclusive_refused
            (fun hlock => h ⟨hbound, hservices, hlock⟩) lit service file
          rw [hrun]
          refine ⟨_, _, rfl, ?_⟩
          by_cases hstatus : status = .ok
          · obtain ⟨r, rfl, hr⟩ := hok hstatus
            simp [success, hstatus, hr]
          · simp [success, hstatus]

/-- A reader gets the identity in the part of the file that is delivered. -/
theorem loadIdentity_eq (a : Access) (c : ReadCourse) (file : SdFile) :
    loadIdentity a c file =
      if a.Served ∧ c.opens = true then
        file.content.bind fun f => decodeIdentity (delivered c f)
      else none := by
  by_cases hserved : a.Served
  · rw [loadIdentity, sdkFile_served hserved]
    cases hcontent : file.content with
    | none => simp [sdFileReadCb, hcontent, success, errorResult]
    | some f =>
        cases hopens : c.opens with
        | false => simp [sdFileReadCb, hcontent, hopens, success, errorResult]
        | true =>
            simp [sdFileReadCb, hcontent, hopens, success, okResult, resultPut, resultGet,
              Sdk.resultFieldCapacity, hserved, Option.filter]
  · obtain ⟨status, result, hcall, hnone⟩ := sdkFile_refused hserved (sdFileReadCb c) file
    rw [loadIdentity, hcall, if_neg (fun h => hserved h.1)]
    simp [hnone]

theorem saveIdentity_eq (a : Access) (c : WriteCourse) (id : IdentityRecord) (file : SdFile) :
    saveIdentity a c id file =
      if a.Served ∧ c.opens = true then
        (true, ⟨some ((identityText id).take c.stored), file.writes + 1⟩)
      else (false, file) := by
  by_cases hserved : a.Served
  · rw [saveIdentity, sdkFile_served hserved]
    cases hopens : c.opens with
    | false => simp [sdFileWriteCb, hopens, success, errorResult]
    | true => simp [sdFileWriteCb, hopens, success, okResult, hserved]
  · obtain ⟨status, result, hcall, hnone⟩ :=
      sdkFile_refused hserved (sdFileWriteCb c (identityText id)) file
    rw [saveIdentity, hcall, if_neg (fun h => hserved h.1)]
    simp [hnone]

/-- After a write that is reported as done, a reader gets the identity if all of it has
arrived and is delivered, and nothing else in any case. -/
theorem loadIdentity_saveIdentity {a : Access} {c : WriteCourse} {id : IdentityRecord}
    {file : SdFile} (h : (saveIdentity a c id file).1 = true) (a' : Access) (c' : ReadCourse) :
    loadIdentity a' c' (saveIdentity a c id file).2 =
      if (a'.Served ∧ c'.opens = true) ∧ identitySize * 2 ≤ c.stored ∧
          identitySize * 2 ≤ c'.fetched then some { id with loaded := true }
      else none := by
  have hsaved : a.Served ∧ c.opens = true := by
    by_contra hno
    rw [saveIdentity_eq, if_neg hno] at h
    exact Bool.false_ne_true h
  rw [loadIdentity_eq, saveIdentity_eq, if_pos hsaved]
  by_cases hread : a'.Served ∧ c'.opens = true
  · rw [if_pos hread, Option.bind_some, delivered, List.take_take]
    have hbuf : identitySize * 2 ≤ fileReadBufSize - 1 := by decide
    by_cases hall : identitySize * 2 ≤ c.stored ∧ identitySize * 2 ≤ c'.fetched
    · rw [if_pos ⟨hread, hall⟩, List.take_of_length_le, decodeIdentity_identityText]
      rw [length_identityText]
      omega
    · rw [if_neg (fun hno => hall hno.2)]
      exact decodeIdentity_take _ (by omega)
  · rw [if_neg hread, if_neg (fun hno => hread hno.1)]

/-- What the round trip through the file promises. -/
def RoundTrips : Prop :=
  ∀ (id : IdentityRecord) (file : SdFile) (a a' : Access) (c : WriteCourse) (c' : ReadCourse),
    (saveIdentity a c id file).1 = true →
      (∀ id', loadIdentity a' c' (saveIdentity a c id file).2 = some id' →
        id' = { id with loaded := true }) ∧
      (identitySize * 2 ≤ c.stored → a'.Served → c'.opens = true →
        identitySize * 2 ≤ c'.fetched →
          loadIdentity a' c' (saveIdentity a c id file).2 = some { id with loaded := true })

theorem roundTrips : RoundTrips := by
  intro id file a a' c c' h
  rw [loadIdentity_saveIdentity h]
  constructor
  · intro id' hload
    split_ifs at hload
    exact (Option.some.inj hload).symm
  · intro hstored hserved hopens hfetched
    rw [if_pos ⟨⟨hserved, hopens⟩, hstored, hfetched⟩]

section Sessions

variable {S : Sodium}

/-- The file holds an identity with a valid key pair. -/
def ValidStored (S : Sodium) (file : SdFile) : Prop :=
  ∃ f id, file.content = some f ∧ decodeIdentity (CStr.ofBytes f) = some id ∧
    ∃ keys : KeyPair S, id.pubkey.val = keys.pubkey ∧ id.seckey.val = keys.seckey

/-- The read at a start delivers an identity. -/
def StartCourse.Loads (c : StartCourse S) (file : SdFile) : Prop :=
  (c.reading.Served ∧ c.read.opens = true) ∧
    ∃ f, file.content = some f ∧ (decodeIdentity (delivered c.read f)).isSome = true

/-- A new identity is made and its write reaches the file. -/
def StartCourse.Saves (c : StartCourse S) : Prop :=
  c.nickname.isSome = true ∧ c.keys.isSome = true ∧ c.writing.Served ∧ c.write.opens = true

/-- A new identity leaves the file as it is when there is none or its write is refused. -/
theorem saveFresh_file_eq_iff (nickname : Option (Text nicknameMax)) (keys : Option (KeyPair S))
    (a : Access) (c : WriteCourse) (file : SdFile) :
    (saveFresh nickname keys a c file).2 = file ↔
      ¬ (nickname.isSome = true ∧ keys.isSome = true ∧ a.Served ∧ c.opens = true) := by
  cases nickname with
  | none => simp [saveFresh]
  | some nickname =>
      cases keys with
      | none => simp [saveFresh]
      | some keys =>
          rw [saveFresh, saveIdentity_eq]
          by_cases hwrite : a.Served ∧ c.opens = true
          · -- the file has been opened once more
            have hne : (⟨some ((identityText (freshIdentity nickname keys)).take c.stored),
                file.writes + 1⟩ : SdFile) ≠ file := fun h =>
              Nat.succ_ne_self _ (congrArg SdFile.writes h)
            simp [hwrite, hne]
          · rw [if_neg hwrite]
            simp [hwrite]

/-- A start leaves the file as it is when it loads the identity or saves none. -/
theorem loadOrCreate_file_eq_iff (c : StartCourse S) (file : SdFile) :
    (loadOrCreate c file).2 = file ↔ c.Loads file ∨ ¬ c.Saves := by
  have hload : (loadIdentity c.reading c.read file).isSome = true ↔ c.Loads file := by
    rw [loadIdentity_eq, StartCourse.Loads]
    by_cases hread : c.reading.Served ∧ c.read.opens = true
    · rw [if_pos hread]
      cases file.content with
      | none => simp
      | some f => simp [hread]
    · simp [hread]
  rw [← hload, loadOrCreate]
  cases loadIdentity c.reading c.read file with
  | some id => simp
  | none =>
      simp only [Option.isSome_none, Bool.false_eq_true, false_or]
      exact saveFresh_file_eq_iff c.nickname c.keys c.writing c.write file

/-- The loop of `confirm_reset`, over the time of each picture of the screen and the key
that follows it. -/
def confirmReset (began : UInt32) (yes : Bool) : List (UInt32 × Sdk.Key) → Option Bool
  | [] => none
  | (now, key) :: rest =>
      match key with
      | .up | .down => confirmReset began (!yes) rest
      | .ok =>
          if yes = false then some false
          else if 5000 ≤ now - began then some true
          else confirmReset began yes rest
      | .okLong => some false
      | _ => confirmReset began yes rest

theorem confirmReset_held {began : UInt32} {yes : Bool} {ticks : List (UInt32 × Sdk.Key)}
    (h : confirmReset began yes ticks = some true) :
    ∃ now, (now, Sdk.Key.ok) ∈ ticks ∧ 5000 ≤ now - began := by
  induction ticks generalizing yes with
  | nil => cases h
  | cons tick rest ih =>
      obtain ⟨now, key⟩ := tick
      have hlater : ∀ {yes : Bool}, confirmReset began yes rest = some true →
          ∃ now', (now', Sdk.Key.ok) ∈ (now, key) :: rest ∧ 5000 ≤ now' - began := fun h => by
        obtain ⟨now', hmem, hheld⟩ := ih h
        exact ⟨now', List.mem_cons_of_mem _ hmem, hheld⟩
      unfold confirmReset at h
      cases key with
      | ok =>
          by_cases hheld : 5000 ≤ now - began
          · exact ⟨now, List.mem_cons_self, hheld⟩
          · cases yes with
            | false => cases h
            | true =>
                simp only [if_neg hheld] at h
                exact hlater h
      | okLong => cases h
      | up | down | none | left | right | okHold | okDouble => exact hlater h

variable (S) in
/-- The parts of the app that may write the file: a start, and "Reset identity" in the menu
with the user's answer to its question. -/
inductive Action
  | start (c : StartCourse S)
  | reset (began : UInt32) (ticks : List (UInt32 × Sdk.Key)) (c : ResetCourse S)

/-- The user has confirmed this reset. -/
def Action.Confirmed : Action S → Prop
  | .start _ => False
  | .reset began ticks _ => confirmReset began true ticks = some true

/-- The file, and the identity that the app runs with if it runs. -/
structure Session where
  file : SdFile
  identity : Option IdentityRecord
  deriving DecidableEq

/-- One action of `meetapp_run`; it puts nothing out. -/
def step (s : Session) : Action S → Session × List Empty
  | .start c =>
      let (identity, file) := loadOrCreate c s.file
      (⟨file, identity⟩, [])
  | .reset began ticks c =>
      if s.identity.isSome ∧ confirmReset began true ticks = some true then
        let (fresh, file) := resetIdentity c s.file
        (⟨file, fresh.or s.identity⟩, [])
      else (s, [])

/-- The step writes over a valid identity only if it is a confirmed reset. -/
def KeepsIdentity (s : Session) (a : Action S) : Prop :=
  ValidStored S s.file → (step s a).1.file ≠ s.file → a.Confirmed

/-- A start that finds a valid identity loads it, or saves no other. -/
def LoadsOrSavesNone (s : Session) : Action S → Prop
  | .start c => ValidStored S s.file → c.Loads s.file ∨ ¬ c.Saves
  | .reset .. => True

theorem keepsIdentity_iff (s : Session) (a : Action S) :
    KeepsIdentity s a ↔ LoadsOrSavesNone s a := by
  cases a with
  | start c =>
      refine imp_congr_right fun _ => ?_
      rw [← loadOrCreate_file_eq_iff]
      exact not_not
  | reset began ticks c =>
      refine iff_true_intro fun _ hwritten => ?_
      by_contra hno
      refine hwritten ?_
      rw [step, if_neg (fun h => hno h.2)]

/-- A reset that the user has not confirmed changes nothing. -/
theorem step_reset_of_not_confirmed {s : Session} {began : UInt32}
    {ticks : List (UInt32 × Sdk.Key)} {c : ResetCourse S}
    (h : ¬ (Action.reset began ticks c).Confirmed) : step s (.reset began ticks c) = (s, []) :=
  if_neg fun hconfirmed => h hconfirmed.2

/-- A reset changes nothing, or OK was pressed five seconds or more after the question came up. -/
theorem reset_held (s : Session) (began : UInt32) (ticks : List (UInt32 × Sdk.Key))
    (c : ResetCourse S) :
    step s (.reset began ticks c) = (s, []) ∨
      ∃ now, (now, Sdk.Key.ok) ∈ ticks ∧ 5000 ≤ now - began := by
  by_cases h : (Action.reset began ticks c).Confirmed
  · exact Or.inr (confirmReset_held h)
  · exact Or.inl (step_reset_of_not_confirmed h)

/-- In a run of starts and resets, every valid identity in the file stays until a confirmed
reset exactly when every start that finds one loads it or saves no other; what was saved is
always read back. -/
theorem identity_kept_iff (S : Sodium) (s : Session) (actions : List (Action S)) :
    (Machine.Along step KeepsIdentity s actions ∧ RoundTrips) ↔
      Machine.Along step LoadsOrSavesNone s actions := by
  rw [and_iff_left roundTrips]
  exact Machine.along_congr (I := fun _ => True) (fun _ _ _ => trivial)
    (fun s a _ => keepsIdentity_iff s a) actions trivial

end Sessions

/-- An identity on residues. -/
def storedAnn : IdentityRecord :=
  freshIdentity (Text.ofField nicknameMax (ascii "ann")) leaderKeys

/-- A start while another task holds the lock of the card, which is free again for the
write. -/
def busyStart : StartCourse residues where
  reading := ⟨true, true, [⟨"storage", true⟩]⟩
  read := ⟨true, 226⟩
  username := some (lit "jo")
  entries := []
  keys := some leaderKeys
  writing := ⟨true, true, [⟨"storage", false⟩]⟩
  write := ⟨true, 226⟩

/-- A start that finds the card busy writes a new identity over the stored one. -/
theorem not_identity_kept :
    ¬ ∀ (S : Sodium) (s : Session) (actions : List (Action S)),
      Machine.Along step KeepsIdentity s actions ∧ RoundTrips := by
  intro h
  have hkept := (h residues ⟨⟨some (identityText storedAnn), 1⟩, none⟩ [.start busyStart]).1.1
  have hvalid : ValidStored residues ⟨some (identityText storedAnn), 1⟩ :=
    ⟨_, _, rfl, decodeIdentity_identityText storedAnn, leaderKeys, rfl, rfl⟩
  refine hkept hvalid fun hsame => ?_
  rcases (loadOrCreate_file_eq_iff busyStart _).mp hsame with hload | hnone
  · exact absurd hload.1.1 (by decide)
  · exact hnone ⟨by decide, rfl, by decide, rfl⟩

end MeetApp
end JppDos
