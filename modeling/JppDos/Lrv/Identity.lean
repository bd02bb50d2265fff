import JppDos.Lib.Crc
import JppDos.Lib.LittleEndian
import JppDos.Lib.CText
import JppDos.Lib.Machine
import JppDos.Lrv.Eeprom
import Mathlib.Data.List.GetD

/-!
# The identity on the EEPROM

Provisioning writes the record and then its header, and is refused once there is a header.
What is on the chip behind an attempt that a lost supply or a failed write has cut short.

Main fact:
* `second_identity`: an attempt on a chip that has an identity, with a read that fails.
-/

namespace JppDos
namespace Lrv

open Crc LittleEndian CText

/-- `RC_OFF_CERTLEN`. -/
def rcOffCertlen : Nat := 186

/-- `RC_FIXED_SZ`. -/
def rcFixedSz : Nat := 188

/-- `RC_MIN_SZ`. -/
def rcMinSz : Nat := rcFixedSz + 1

/-- `JPP_LRV_CERT_MAX`. -/
def certMax : Nat := 192

/-- `JPP_LRV_HWID_MAX`. -/
def hwidMax : Nat := 24

/-- `RC_MAX_SZ`. -/
def rcMaxSz : Nat := rcFixedSz + certMax

/-- `jpp_lrv_data_t`. -/
structure LrvData where
  serial : UInt16
  devicePubkey : List UInt8
  deviceSeckey : List UInt8
  certSig : List UInt8
  hwid : List UInt8
  cert : List UInt8
  deriving DecidableEq

/-- `crc16_ccitt`. -/
def crc16Ccitt (data : List UInt8) : UInt16 :=
  crcFold (fun crc b => (msbBit16 0x1021)^[8] (crc ^^^ (b.toUInt16 <<< 8))) 0xFFFF data

/-- `buf[i] | (buf[i + 1] << 8)`. -/
def u16At (buf : List UInt8) (i : Nat) : Nat :=
  (buf.getD i 0).toNat ||| (buf.getD (i + 1) 0).toNat <<< 8

/-- `deserialise`. -/
def deserialise (buf : List UInt8) : Option LrvData :=
  if buf.length < rcMinSz then none
  else
    let certLen := u16At buf rcOffCertlen
    if certLen = 0 ∨ buf.length < rcFixedSz + certLen then none
    else
      let copy := if certLen < certMax then certLen else certMax - 1
      some {
        serial := UInt16.ofNat (u16At buf 0)
        devicePubkey := (buf.drop 2).take 32
        deviceSeckey := (buf.drop 34).take 64
        certSig := (buf.drop 98).take 64
        hwid := cString ((buf.drop 162).take (hwidMax - 1))
        cert := (buf.drop rcFixedSz).take copy }

/-- `EE_HDR_SIZE`. -/
def hdrSize : Nat := 8

/-- `EE_IDENTITY_ADDR`. -/
def identityAddr : Nat := 0

/-- `EE_IDENTITY_MAGIC`. -/
def identityMagic : List UInt8 := ascii "JLRV"

/-- The header that goes with a record. -/
def identityHeader (record : List UInt8) : List UInt8 :=
  identityMagic ++ leBytes 2 record.length ++ leBytes 2 (crc16Ccitt record).toNat

/-- `identity_read_record`; the flags say whether its two transfers succeed. -/
def identityReadRecord (cells : Cells) (hdrRead bodyRead : Bool) : Option (List UInt8) :=
  (eepromRead cells hdrRead identityAddr hdrSize).bind fun hdr =>
    let len := u16At hdr 4
    if hdr.take 4 ≠ identityMagic then none
    else if len < rcMinSz ∨ rcMaxSz < len then none
    else
      (eepromRead cells bodyRead (identityAddr + hdrSize) len).bind fun buf =>
        if crc16Ccitt buf ≠ UInt16.ofNat (u16At hdr 6) then none else some buf

/-- `identity_present`. -/
def identityPresent (cells : Cells) (hdrRead : Bool) : Bool :=
  match eepromRead cells hdrRead identityAddr hdrSize with
  | none => false
  | some hdr => hdr.take 4 = identityMagic ∧ rcMinSz ≤ u16At hdr 4 ∧ u16At hdr 4 ≤ rcMaxSz

/-- The identity that `jpp_lrv_init` loads, with transfers that succeed. -/
def load (cells : Cells) : Option LrvData :=
  (identityReadRecord cells true true).bind deserialise

/-- `jpp_lrv_result_t`. -/
inductive LrvResult
  | ok
  | notFound
  | corrupt
  | exists
  | internal
  deriving DecidableEq

/-- How the transfers of an attempt go. -/
structure StoreIO where
  /-- The chip has answered at boot. -/
  present : Bool
  /-- The read of `identity_present` succeeds. -/
  guardRead : Bool
  pages : List PageOutcome
  /-- The two reads of the verification succeed. -/
  verifyHdr : Bool
  verifyBody : Bool

/-- What becomes of an attempt; without a result power was lost. -/
structure Attempt where
  result : Option LrvResult
  cells : Cells
  /-- The identity that the running firmware has from then on. -/
  published : Option LrvData

/-- `jpp_lrv_store_identity`. -/
def storeIdentity (cells : Cells) (io : StoreIO) (record : List UInt8) : Attempt :=
  let refused (r : LrvResult) : Attempt := ⟨some r, cells, none⟩
  if record = [] then refused .internal
  else if record.length < rcMinSz ∨ rcMaxSz < record.length then refused .corrupt
  else if io.present = false then refused .notFound
  else
    match deserialise record with
    | none => refused .corrupt
    | some parsed =>
        if identityPresent cells io.guardRead then refused .exists
        else
          match eepromWrite cells io.pages (identityAddr + hdrSize) record with
          | (.ok, cells, pages) =>
              match eepromWrite cells pages identityAddr (identityHeader record) with
              | (.ok, cells, _) =>
                  if identityReadRecord cells io.verifyHdr io.verifyBody = some record then
                    ⟨some .ok, cells, some parsed⟩
                  else ⟨some .internal, cells, none⟩
              | (.powerLost, cells, _) => ⟨none, cells, none⟩
              | (_, cells, _) => ⟨some .internal, cells, none⟩
          | (.powerLost, cells, _) => ⟨none, cells, none⟩
          | (_, cells, _) => ⟨some .internal, cells, none⟩

/-- A chip on which everything works. -/
def working : StoreIO where
  present := true
  guardRead := true
  pages := List.replicate eepromSize ⟨true, true⟩
  verifyHdr := true
  verifyBody := true

/-- No identity is reported, and every record that can be read back can be provisioned. -/
def Retriable (cells : Cells) : Prop :=
  load cells = none ∧
    ∀ record parsed, record.length ≤ rcMaxSz → deserialise record = some parsed →
      (storeIdentity cells working record).result = some .ok

/-- The complete record is there and loads. -/
def Complete (cells : Cells) (record : List UInt8) : Prop :=
  identityReadRecord cells true true = some record ∧
    ∃ data, deserialise record = some data ∧ load cells = some data

/-- What an attempt may do to the chip: nothing when there is an identity; else it leaves no
identity, or the complete record. -/
def Safe (cells : Cells) (io : StoreIO) (record : List UInt8) : Prop :=
  let after := (storeIdentity cells io record).cells
  if (load cells).isSome then after = cells
  else Retriable after ∨ Complete after record

theorem u16At_eq (buf : List UInt8) (i : Nat) :
    u16At buf i = leNat [buf.getD i 0, buf.getD (i + 1) 0] := or_shift_two _ _

theorem length_identityHeader (record : List UInt8) :
    (identityHeader record).length = hdrSize := by
  rw [identityHeader, List.length_append, List.length_append, leBytes_length, leBytes_length]
  rfl

theorem identityHeader_eq (record : List UInt8) :
    identityHeader record =
      [74, 76, 82, 86, UInt8.ofNat record.length, UInt8.ofNat (record.length / 256),
        UInt8.ofNat (crc16Ccitt record).toNat, UInt8.ofNat ((crc16Ccitt record).toNat / 256)] :=
  rfl

/-- The header holds the length and the checksum of its record. -/
theorem u16At_identityHeader {record : List UInt8} (h : record.length ≤ rcMaxSz) :
    u16At (identityHeader record) 4 = record.length ∧
      u16At (identityHeader record) 6 = (crc16Ccitt record).toNat := by
  have hlength : record.length < 256 ^ 2 := Nat.lt_of_le_of_lt h (by decide)
  have hcrc : (crc16Ccitt record).toNat < 256 ^ 2 := (crc16Ccitt record).toNat_lt
  constructor
  · exact (u16At_eq _ _).trans (leNat_leBytes hlength)
  · exact (u16At_eq _ _).trans (leNat_leBytes hcrc)

theorem eepromRead_true (cells : Cells) {addr len : Nat} (hlen : 0 < len)
    (hfits : addr + len ≤ eepromSize) :
    eepromRead cells true addr len = some (cells.read addr len) := by
  rw [eepromRead, if_neg (Nat.ne_of_gt hlen), if_neg (Nat.not_lt.mpr hfits), if_pos rfl]

theorem eepromRead_header (cells : Cells) :
    eepromRead cells true identityAddr hdrSize = some (cells.read identityAddr hdrSize) :=
  eepromRead_true cells (by decide) (by decide)

theorem identityReadRecord_of_read {cells : Cells} {record : List UInt8}
    (hhdr : cells.read identityAddr hdrSize = identityHeader record)
    (hbody : cells.read (identityAddr + hdrSize) record.length = record)
    (hmin : rcMinSz ≤ record.length) (hmax : record.length ≤ rcMaxSz) :
    identityReadRecord cells true true = some record := by
  obtain ⟨hlen, hcrc⟩ := u16At_identityHeader hmax
  have hfits : identityAddr + hdrSize + record.length ≤ eepromSize :=
    Nat.le_trans (Nat.add_le_add_left hmax _) (by decide)
  have hpos : 0 < record.length := Nat.lt_of_lt_of_le (by decide) hmin
  have hmagic : (identityHeader record).take 4 = identityMagic := rfl
  rw [identityReadRecord, eepromRead_header, hhdr, Option.bind_some]
  simp only [hlen, hcrc, hmagic]
  rw [if_neg (not_not.mpr rfl), if_neg (by omega), eepromRead_true cells hpos hfits, hbody,
    Option.bind_some, if_neg (by simp)]

/-- There is no header on the chip. -/
def Absent (cells : Cells) : Prop := identityPresent cells true = false

theorem identityPresent_iff (cells : Cells) :
    identityPresent cells true = true ↔
      (cells.read identityAddr hdrSize).take 4 = identityMagic ∧
        rcMinSz ≤ u16At (cells.read identityAddr hdrSize) 4 ∧
        u16At (cells.read identityAddr hdrSize) 4 ≤ rcMaxSz := by
  rw [identityPresent, eepromRead_header]
  exact decide_eq_true_iff

theorem present_of_read {cells : Cells} {record : List UInt8}
    (h : identityReadRecord cells true true = some record) :
    identityPresent cells true = true := by
  rw [identityReadRecord, eepromRead_header, Option.bind_some] at h
  simp only at h
  split at h
  · cases h
  · rename_i hmagic
    split at h
    · cases h
    · rename_i hlen
      rw [not_or, Nat.not_lt, Nat.not_lt] at hlen
      exact (identityPresent_iff cells).mpr ⟨not_not.mp hmagic, hlen⟩

theorem Absent.load {cells : Cells} (h : Absent cells) : load cells = none := by
  cases hread : identityReadRecord cells true true with
  | none => rw [Lrv.load, hread, Option.bind_none]
  | some record => exact absurd ((present_of_read hread).symm.trans h) (by decide)

theorem Absent.congr {cells cells' : Cells} (h : Absent cells)
    (heq : ∀ i < hdrSize, cells' i = cells i) : Absent cells' := by
  have hread : cells'.read identityAddr hdrSize = cells.read identityAddr hdrSize :=
    Cells.read_congr fun i _ hi => heq i (by simpa [identityAddr] using hi)
  rw [Absent, identityPresent, eepromRead_header, hread, ← eepromRead_header]
  exact h

theorem Absent.guard {cells : Cells} (h : Absent cells) (guardRead : Bool) :
    identityPresent cells guardRead = false := by
  cases guardRead with
  | true => exact h
  | false => rfl

/-- A record that the firmware could read back. -/
def Accepted (record : List UInt8) : Prop :=
  record.length ≤ rcMaxSz ∧ (deserialise record).isSome = true

theorem Accepted.min_le {record : List UInt8} (h : Accepted record) :
    rcMinSz ≤ record.length := by
  by_contra hshort
  have hnone : deserialise record = none := if_pos (Nat.not_le.mp hshort)
  exact nomatch hnone ▸ h.2

/-- The writes of an attempt: the record, then its header. -/
def written (cells : Cells) (pages : List PageOutcome) (record : List UInt8) :
    WriteEnd × Cells :=
  let body := writeLoop cells pages (identityAddr + hdrSize) record
  if body.1 = .ok then
    let header := writeLoop body.2.1 body.2.2 identityAddr (identityHeader record)
    (header.1, header.2.1)
  else (body.1, body.2.1)

theorem eepromWrite_eq (cells : Cells) (io : List PageOutcome) {addr : Nat} {buf : List UInt8}
    (hbuf : buf ≠ []) (hfits : addr + buf.length ≤ eepromSize) :
    eepromWrite cells io addr buf = writeLoop cells io addr buf := by
  rw [eepromWrite, if_neg hbuf, if_neg (Nat.not_lt.mpr hfits)]

theorem storeIdentity_eq {cells : Cells} {io : StoreIO} {record : List UInt8}
    (haccepted : Accepted record) (hpresent : io.present = true)
    (hguard : identityPresent cells io.guardRead = false) :
    (storeIdentity cells io record).cells = (written cells io.pages record).2 ∧
      ((written cells io.pages record).1 = .ok →
        identityReadRecord (written cells io.pages record).2 io.verifyHdr io.verifyBody =
          some record → (storeIdentity cells io record).result = some .ok) := by
  have hmin := haccepted.min_le
  have hrecord : record ≠ [] := by
    rintro rfl
    exact absurd hmin (by decide)
  have hfits : identityAddr + hdrSize + record.length ≤ eepromSize :=
    Nat.le_trans (Nat.add_le_add_left haccepted.1 _) (by decide)
  have hheader : identityHeader record ≠ [] := by
    rw [identityHeader_eq]
    exact List.cons_ne_nil _ _
  have hheaderFits : identityAddr + (identityHeader record).length ≤ eepromSize := by
    rw [length_identityHeader]
    decide
  have hrange : ¬ (record.length < rcMinSz ∨ rcMaxSz < record.length) := by
    have hmax := haccepted.1
    omega
  obtain ⟨parsed, hparsed⟩ := Option.isSome_iff_exists.mp haccepted.2
  rw [storeIdentity, if_neg hrecord, if_neg hrange, if_neg (by simp [hpresent]), hparsed]
  simp only [hguard, Bool.false_eq_true, if_false]
  rw [eepromWrite_eq cells io.pages hrecord hfits, written]
  rcases hbody : writeLoop cells io.pages (identityAddr + hdrSize) record with ⟨e, cells', pages⟩
  cases e with
  | ok =>
      simp only [if_pos]
      rw [eepromWrite_eq cells' pages hheader hheaderFits]
      rcases writeLoop cells' pages identityAddr (identityHeader record) with ⟨e, cells'', rest⟩
      cases e with
      | ok =>
          dsimp only
          split
          · exact ⟨rfl, fun _ _ => rfl⟩
          · rename_i hverify
            exact ⟨rfl, fun _ hread => absurd hread hverify⟩
      | ioError | outOfRange | powerLost => exact ⟨rfl, nofun⟩
  | ioError | outOfRange | powerLost => exact ⟨rfl, nofun⟩

theorem storeIdentity_refused {cells : Cells} {io : StoreIO} {record : List UInt8}
    (h : ¬ (Accepted record ∧ io.present = true ∧
      identityPresent cells io.guardRead = false)) :
    (storeIdentity cells io record).cells = cells := by
  rw [storeIdentity]
  split
  · rfl
  · split
    · rfl
    · rename_i hrange
      split
      · rfl
      · rename_i hpresent
        split
        · rfl
        · rename_i parsed hparsed
          split
          · rfl
          · rename_i hguard
            refine absurd ⟨⟨?_, ?_⟩, ?_, ?_⟩ h
            · omega
            · rw [hparsed]
              rfl
            · simpa using hpresent
            · simpa using hguard

theorem header_page (record : List UInt8) :
    identityAddr % pageSize + (identityHeader record).length ≤ pageSize := by
  rw [length_identityHeader]
  decide

theorem body_frame (cells : Cells) (pages : List PageOutcome) (record : List UInt8) :
    ∀ i < hdrSize,
      (writeLoop cells pages (identityAddr + hdrSize) record).2.1 i = cells i :=
  fun _ hi => writeLoop_frame _ _ _ _ (Or.inl (by simpa [identityAddr] using hi))

theorem complete_put (cells : Cells) {record : List UInt8} (haccepted : Accepted record) :
    Complete ((cells.put (identityAddr + hdrSize) record).put identityAddr
      (identityHeader record)) record := by
  have hhdr := Cells.read_put (cells.put (identityAddr + hdrSize) record) identityAddr
    (identityHeader record)
  rw [length_identityHeader] at hhdr
  have hbody : (((cells.put (identityAddr + hdrSize) record).put identityAddr
      (identityHeader record)).read (identityAddr + hdrSize) record.length) = record := by
    refine (Cells.read_congr fun i hi _ => ?_).trans (Cells.read_put cells _ record)
    exact Cells.put_of_ge _ (by rwa [length_identityHeader])
  have hread := identityReadRecord_of_read hhdr hbody haccepted.min_le haccepted.1
  obtain ⟨data, hdata⟩ := Option.isSome_iff_exists.mp haccepted.2
  exact ⟨hread, data, hdata, by rw [load, hread, Option.bind_some, hdata]⟩

/-- Writes that are cut short leave no header, or everything. -/
theorem Absent.written {cells : Cells} (h : Absent cells) {pages : List PageOutcome}
    (hpages : Honest pages) {record : List UInt8} (haccepted : Accepted record) :
    Absent (written cells pages record).2 ∨ Complete (written cells pages record).2 record := by
  have habsent := h.congr (body_frame cells pages record)
  rw [Lrv.written]
  dsimp only
  split
  · rename_i hok
    rcases writeLoop_page (writeLoop cells pages (identityAddr + hdrSize) record).2.1
      (writeLoop cells pages (identityAddr + hdrSize) record).2.2
      (header_page record) with hnot | hdone
    · rw [hnot]
      exact Or.inl habsent
    · rw [hdone, writeLoop_ok hpages hok]
      exact Or.inr (complete_put cells haccepted)
  · exact Or.inl habsent

/-- An attempt on a chip without a header leaves it so, or writes everything. -/
theorem Absent.attempt {cells : Cells} (h : Absent cells) {io : StoreIO}
    (hpages : Honest io.pages) (record : List UInt8) :
    Absent (storeIdentity cells io record).cells ∨
      Complete (storeIdentity cells io record).cells record := by
  by_cases hpass : Accepted record ∧ io.present = true ∧
    identityPresent cells io.guardRead = false
  · obtain ⟨haccepted, hpresent, hguard⟩ := hpass
    rw [(storeIdentity_eq haccepted hpresent hguard).1]
    exact h.written hpages haccepted
  · rw [storeIdentity_refused hpass]
    exact Or.inl h

/-- A page that is stored and acknowledged. -/
def goodPage : PageOutcome := ⟨true, true⟩

theorem honest_nil : Honest [] := fun _ ho => absurd ho List.not_mem_nil

theorem honest_replicate (n : Nat) : Honest (List.replicate n goodPage) := by
  intro o ho _
  rw [List.eq_of_mem_replicate ho]
  rfl

theorem chunkLen_pos (addr : Nat) {buf : List UInt8} (hbuf : buf ≠ []) :
    0 < chunkLen addr buf := by
  have hlength := List.length_pos_of_ne_nil hbuf
  have hpage : addr % pageSize < pageSize := Nat.mod_lt _ (by decide)
  rw [chunkLen]
  omega

theorem writeLoop_works (cells : Cells) {n : Nat} (addr : Nat) {buf : List UInt8}
    (h : buf.length ≤ n) :
    (writeLoop cells (List.replicate n goodPage) addr buf).1 = .ok ∧
      ∃ m, n ≤ m + buf.length ∧
        (writeLoop cells (List.replicate n goodPage) addr buf).2.2 =
          List.replicate m goodPage := by
  induction n generalizing cells addr buf with
  | zero =>
      obtain rfl := List.eq_nil_of_length_eq_zero (Nat.le_zero.mp h)
      exact ⟨rfl, 0, Nat.le_refl _, rfl⟩
  | succ n ih =>
      by_cases hbuf : buf = []
      · rw [List.replicate_succ, writeLoop, if_pos hbuf]
        exact ⟨rfl, n + 1, Nat.le_add_right _ _, rfl⟩
      · have hpos := chunkLen_pos addr hbuf
        have hle := chunkLen_le addr buf
        have hshorter : (buf.drop (chunkLen addr buf)).length < buf.length := by
          rw [List.length_drop]
          omega
        obtain ⟨hok, m, hm, hrest⟩ := ih (cells.page true addr buf)
          (addr + chunkLen addr buf) (Nat.le_of_lt_succ (hshorter.trans_le h))
        rw [List.length_drop] at hm
        have hacked : goodPage.acked = true := rfl
        rw [List.replicate_succ, writeLoop, if_neg hbuf, if_pos hacked]
        exact ⟨hok, m, by omega, hrest⟩

theorem works_of_absent {cells : Cells} (h : Absent cells) {record : List UInt8}
    (haccepted : Accepted record) :
    (storeIdentity cells working record).result = some .ok := by
  have hmax := haccepted.1
  have hroom : rcMaxSz ≤ eepromSize := by decide
  obtain ⟨hbody, m, hm, hrest⟩ := writeLoop_works cells
    (identityAddr + hdrSize) (Nat.le_trans hmax hroom)
  have hm' : (identityHeader record).length ≤ m := by
    have hsize : rcMaxSz + hdrSize ≤ eepromSize := by decide
    rw [length_identityHeader]
    omega
  have hheader := writeLoop_works
    (writeLoop cells (List.replicate eepromSize goodPage) (identityAddr + hdrSize) record).2.1
    identityAddr hm'
  have hwritten : written cells working.pages record =
      (.ok, (cells.put (identityAddr + hdrSize) record).put identityAddr
        (identityHeader record)) := by
    have hcells := writeLoop_ok (honest_replicate m) hheader.1
    have hcells' := writeLoop_ok (honest_replicate eepromSize) hbody
    change written cells (List.replicate eepromSize goodPage) record = _
    rw [written, if_pos hbody, hrest]
    dsimp only
    rw [hheader.1, hcells, hcells']
  have hcomplete := complete_put cells haccepted
  refine (storeIdentity_eq haccepted rfl (h.guard _)).2 ?_ ?_
  · rw [hwritten]
  · rw [hwritten]
    exact hcomplete.1

theorem Absent.retriable {cells : Cells} (h : Absent cells) : Retriable cells :=
  ⟨h.load, fun _ _ hmax hparsed => works_of_absent h ⟨hmax, by rw [hparsed]; rfl⟩⟩

/-- A record of zeros but for its first byte, with an empty certificate. -/
def plainRecord (b : UInt8) : List UInt8 := (b :: List.replicate 185 0) ++ [1, 0, 0]

theorem length_plainRecord (b : UInt8) : (plainRecord b).length = rcMinSz := by
  rw [plainRecord, List.length_append, List.length_cons, List.length_replicate]
  rfl

theorem accepted_plainRecord (b : UInt8) : Accepted (plainRecord b) := by
  have hlength := length_plainRecord b
  have hhead : (b :: List.replicate 185 (0 : UInt8)).length = rcOffCertlen := by
    rw [List.length_cons, List.length_replicate]
    rfl
  have hget : ∀ k,
      (plainRecord b).getD (rcOffCertlen + k) 0 = ([1, 0, 0] : List UInt8).getD k 0 := by
    intro k
    rw [plainRecord, List.getD_append_right _ _ _ _ (hhead ▸ Nat.le_add_right _ _), hhead,
      Nat.add_sub_cancel_left]
  have hcert : u16At (plainRecord b) rcOffCertlen = 1 := by
    rw [u16At, hget 1, show (plainRecord b).getD rcOffCertlen 0 = 1 from hget 0]
    rfl
  constructor
  · rw [hlength]
    decide
  · rw [deserialise, hlength, hcert, if_neg (Nat.lt_irrefl _), if_neg (by decide)]
    rfl

/-- The first byte of a complete record is at its place. -/
theorem head_of_complete {cells : Cells} {b : UInt8} (h : Complete cells (plainRecord b)) :
    cells (identityAddr + hdrSize) = b := by
  have hread := h.1
  rw [identityReadRecord, eepromRead_header, Option.bind_some] at hread
  dsimp only at hread
  split at hread
  · cases hread
  · split at hread
    · cases hread
    · rename_i hlen
      rw [not_or, Nat.not_lt, Nat.not_lt] at hlen
      have hpos : 0 < u16At (cells.read identityAddr hdrSize) 4 :=
        Nat.lt_of_lt_of_le (by decide) hlen.1
      rw [eepromRead_true cells hpos (Nat.le_trans (Nat.add_le_add_left hlen.2 _) (by decide)),
        Option.bind_some] at hread
      split at hread
      · cases hread
      · have hfirst := congrArg (·[0]?) (Option.some.inj hread)
        simp only [Cells.getElem?_read cells hpos] at hfirst
        exact Option.some.inj hfirst

theorem not_retriable {cells : Cells} (h : ¬ Absent cells) : ¬ Retriable cells := by
  intro hretriable
  have hguard : identityPresent cells working.guardRead = true := by
    rwa [Absent, Bool.not_eq_false] at h
  have haccepted := accepted_plainRecord 0
  obtain ⟨parsed, hparsed⟩ := Option.isSome_iff_exists.mp haccepted.2
  have hresult := hretriable.2 (plainRecord 0) parsed haccepted.1 hparsed
  have hempty : plainRecord 0 ≠ [] := List.cons_ne_nil _ _
  have hrange : ¬ ((plainRecord 0).length < rcMinSz ∨ rcMaxSz < (plainRecord 0).length) := by
    rw [length_plainRecord]
    decide
  rw [storeIdentity, if_neg hempty, if_neg hrange, if_neg (by decide), hparsed] at hresult
  dsimp only at hresult
  rw [if_pos hguard] at hresult
  cases hresult

theorem writeLoop_plainRecord (cells : Cells) (stored : Bool) (io : List PageOutcome) (b : UInt8) :
    writeLoop cells (⟨stored, true⟩ :: io) (identityAddr + hdrSize) (plainRecord b) =
      writeLoop (if stored then cells.put (identityAddr + hdrSize) ((plainRecord b).take 24)
        else cells) io pageSize ((plainRecord b).drop 24) := by
  have hchunk : chunkLen (identityAddr + hdrSize) (plainRecord b) = 24 := by
    rw [chunkLen, length_plainRecord]
    decide
  have hempty : plainRecord b ≠ [] := List.cons_ne_nil _ _
  rw [writeLoop, if_neg hempty, if_pos rfl, Cells.page, hchunk]
  rfl

theorem drop_plainRecord (b : UInt8) :
    ((plainRecord b).drop 24).length = 165 ∧ (plainRecord b).drop 24 ≠ [] := by
  have hlength : ((plainRecord b).drop 24).length = 165 := by
    rw [List.length_drop, length_plainRecord]
    rfl
  refine ⟨hlength, fun hnil => ?_⟩
  rw [hnil] at hlength
  cases hlength

theorem written_goodPage (cells : Cells) (b : UInt8) :
    (written cells [goodPage] (plainRecord b)).2 (identityAddr + hdrSize) = b := by
  have hbody : writeLoop cells [goodPage] (identityAddr + hdrSize) (plainRecord b) =
      (.powerLost, cells.put (identityAddr + hdrSize) ((plainRecord b).take 24), []) := by
    rw [goodPage, writeLoop_plainRecord, if_pos rfl, writeLoop, if_neg (drop_plainRecord b).2]
  rw [written, hbody]
  dsimp only
  rw [if_neg (by decide)]
  exact Cells.put_cons cells (identityAddr + hdrSize) b
    ((List.replicate 185 0 ++ ([1, 0, 0] : List UInt8)).take 23)

/-- The first page is acknowledged and not stored, everything else is. -/
def silentPage : List PageOutcome := ⟨false, true⟩ :: List.replicate eepromSize goodPage

theorem written_silentPage (cells : Cells) (b : UInt8) :
    (written cells silentPage (plainRecord b)).2 (identityAddr + hdrSize) =
        cells (identityAddr + hdrSize) ∧
      ¬ Absent (written cells silentPage (plainRecord b)).2 := by
  have hsize : ((plainRecord b).drop 24).length ≤ eepromSize := by
    rw [(drop_plainRecord b).1]
    decide
  obtain ⟨hok, m, hm, hrest⟩ := writeLoop_works cells pageSize hsize
  have hfits : (identityHeader (plainRecord b)).length ≤ m := by
    rw [(drop_plainRecord b).1] at hm
    rw [length_identityHeader]
    simp only [eepromSize, hdrSize] at hm ⊢
    omega
  have hheader := writeLoop_works (cells.put pageSize ((plainRecord b).drop 24))
    identityAddr hfits
  have hwritten : (written cells silentPage (plainRecord b)).2 =
      (cells.put pageSize ((plainRecord b).drop 24)).put identityAddr
        (identityHeader (plainRecord b)) := by
    rw [written, silentPage, writeLoop_plainRecord, if_neg Bool.false_ne_true]
    dsimp only
    rw [if_pos hok, hrest, writeLoop_ok (honest_replicate _) hok]
    exact writeLoop_ok (honest_replicate m) hheader.1
  rw [hwritten]
  constructor
  · have hbehind : identityAddr + (identityHeader (plainRecord b)).length ≤
        identityAddr + hdrSize := by rw [length_identityHeader]
    rw [Cells.put_of_ge _ hbehind, Cells.put_of_lt _ _ (by decide)]
  · have hhdr := Cells.read_put (cells.put pageSize ((plainRecord b).drop 24)) identityAddr
      (identityHeader (plainRecord b))
    rw [length_identityHeader] at hhdr
    have hlen := (u16At_identityHeader (accepted_plainRecord b).1).1
    rw [length_plainRecord] at hlen
    rw [Absent, Bool.not_eq_false, identityPresent_iff, hhdr, hlen]
    exact ⟨rfl, Nat.le_refl _, by decide⟩

theorem add_one_ne (b : UInt8) : b + 1 ≠ b := by
  intro h
  have hlt := b.toNat_lt
  have hsum := congrArg UInt8.toNat h
  rw [UInt8.toNat_add] at hsum
  change (b.toNat + 1) % 2 ^ 8 = b.toNat at hsum
  omega

/-- A record that is not the one on the chip. -/
def otherRecord (cells : Cells) : List UInt8 :=
  plainRecord (cells (identityAddr + hdrSize) + 1)

/-- The guard's read fails on a chip with an identity, and power is lost behind one page. -/
def blindGuard : StoreIO := ⟨true, false, [goodPage], true, true⟩

theorem not_safe_blindGuard {cells : Cells} (hload : (load cells).isSome = true) :
    ¬ Safe cells blindGuard (otherRecord cells) := by
  have hstore : (storeIdentity cells blindGuard
      (plainRecord (cells (identityAddr + hdrSize) + 1))).cells =
        (written cells [goodPage] (plainRecord (cells (identityAddr + hdrSize) + 1))).2 :=
    (storeIdentity_eq (accepted_plainRecord _) rfl rfl).1
  have hbyte := written_goodPage cells (cells (identityAddr + hdrSize) + 1)
  intro hsafe
  rw [Safe, if_pos hload, otherRecord, hstore] at hsafe
  rw [hsafe] at hbyte
  exact add_one_ne _ hbyte.symm

/-- Power is lost before the first page, on a chip with a header and no identity. -/
theorem not_safe_header {cells : Cells} (hload : ¬ (load cells).isSome = true)
    (hheader : ¬ Absent cells) (guardRead : Bool) :
    ¬ Safe cells ⟨true, guardRead, [], true, true⟩ (plainRecord 0) := by
  have hempty : plainRecord 0 ≠ [] := List.cons_ne_nil _ _
  have hwritten : written cells [] (plainRecord 0) = (.powerLost, cells) := by
    have hlost : WriteEnd.powerLost ≠ .ok := by decide
    rw [written, writeLoop, if_neg hempty, if_neg hlost]
  have hsame : (storeIdentity cells ⟨true, guardRead, [], true, true⟩ (plainRecord 0)).cells =
      cells := by
    by_cases hpass : identityPresent cells guardRead = false
    · rw [(storeIdentity_eq (accepted_plainRecord 0) rfl hpass).1, hwritten]
    · exact storeIdentity_refused fun hstore => hpass hstore.2.2
  intro hsafe
  rw [Safe, if_neg hload, hsame] at hsafe
  rcases hsafe with hretriable | hcomplete
  · exact not_retriable hheader hretriable
  · obtain ⟨data, -, hdata⟩ := hcomplete.2
    exact hload (Option.isSome_iff_exists.mpr ⟨data, hdata⟩)

/-- The chip acknowledges a page that it has not stored. -/
theorem not_safe_silent {cells : Cells} (h : Absent cells) (guardRead : Bool) :
    ¬ Safe cells ⟨true, guardRead, silentPage, true, true⟩ (otherRecord cells) := by
  have hstore : (storeIdentity cells ⟨true, guardRead, silentPage, true, true⟩
      (plainRecord (cells (identityAddr + hdrSize) + 1))).cells =
        (written cells silentPage (plainRecord (cells (identityAddr + hdrSize) + 1))).2 :=
    (storeIdentity_eq (accepted_plainRecord _) rfl (h.guard guardRead)).1
  obtain ⟨hbyte, hheader⟩ := written_silentPage cells (cells (identityAddr + hdrSize) + 1)
  intro hsafe
  rw [Safe, if_neg (by rw [h.load]; exact Bool.false_ne_true), otherRecord, hstore] at hsafe
  rcases hsafe with hretriable | hcomplete
  · exact not_retriable hheader hretriable
  · have hfirst := head_of_complete hcomplete
    rw [hbyte] at hfirst
    exact add_one_ne _ hfirst.symm

/-- On a chip every attempt, with any record, any outcome of its page writes and any loss of
power between them, is safe exactly when the guard's read succeeds on a chip with an identity,
or the chip has no header and acknowledges only pages that it has stored. -/
theorem store_safe_iff (cells : Cells) (guardRead honest : Bool) :
    (∀ io record, io.guardRead = guardRead → (honest = true → Honest io.pages) →
        Safe cells io record) ↔
      ((load cells).isSome = true ∧ guardRead = true) ∨ (Absent cells ∧ honest = true) := by
  constructor
  · intro h
    by_cases hload : (load cells).isSome = true
    · refine Or.inl ⟨hload, Bool.not_eq_false _ ▸ fun hguard => ?_⟩
      exact not_safe_blindGuard hload
        (h blindGuard (otherRecord cells) hguard.symm fun _ => honest_replicate 1)
    · have habsent : Absent cells := Classical.byContradiction fun hheader =>
        not_safe_header hload hheader guardRead
          (h ⟨true, guardRead, [], true, true⟩ (plainRecord 0) rfl fun _ => honest_nil)
      refine Or.inr ⟨habsent, Bool.not_eq_false _ ▸ fun hsilent => ?_⟩
      exact not_safe_silent habsent guardRead
        (h ⟨true, guardRead, silentPage, true, true⟩ (otherRecord cells) rfl
          fun hhonest => nomatch hsilent.symm.trans hhonest)
  · rintro (⟨hload, rfl⟩ | ⟨habsent, rfl⟩) io record hguard hpages
    · have hpresent : identityPresent cells io.guardRead = true := by
        obtain ⟨d, hd⟩ := Option.isSome_iff_exists.mp hload
        obtain ⟨record, hread, -⟩ := Option.bind_eq_some_iff.mp hd
        rw [hguard]
        exact present_of_read hread
      rw [Safe, if_pos hload]
      refine storeIdentity_refused fun hstore => ?_
      exact absurd (hpresent.symm.trans hstore.2.2) (by decide)
    · rw [Safe, if_neg (by rw [habsent.load]; exact Bool.false_ne_true)]
      exact (habsent.attempt (hpages rfl) record).imp Absent.retriable id

/-- A device at its factory: attempts follow one another. -/
def attemptStep (cells : Cells) (attempt : StoreIO × List UInt8) : Cells × List Empty :=
  ((storeIdentity cells attempt.1 attempt.2).cells, [])

/-- The guard can read the header of an identity; without one the chip acknowledges only pages
that it has stored. -/
def Guarded (cells : Cells) (attempt : StoreIO × List UInt8) : Prop :=
  if (load cells).isSome then attempt.1.guardRead = true else Honest attempt.1.pages

/-- From a chip without a header on, all such attempts are safe. -/
theorem attempts_safe {cells : Cells} (h : Absent cells ∨ (load cells).isSome = true)
    {attempts : List ( StoreIO × List UInt8)}
    (hguarded : Machine.Along attemptStep Guarded cells attempts) :
    Machine.Along attemptStep (fun cells a => Safe cells a.1 a.2) cells attempts := by
  induction attempts generalizing cells with
  | nil => trivial
  | cons a attempts ih =>
      obtain ⟨hfirst, hrest⟩ := hguarded
      rw [Guarded] at hfirst
      by_cases hload : (load cells).isSome = true
      · rw [if_pos hload] at hfirst
        have hsame : (storeIdentity cells a.1 a.2).cells = cells := by
          obtain ⟨d, hd⟩ := Option.isSome_iff_exists.mp hload
          obtain ⟨record, hread, -⟩ := Option.bind_eq_some_iff.mp hd
          refine storeIdentity_refused fun hstore => ?_
          rw [hfirst] at hstore
          exact absurd ((present_of_read hread).symm.trans hstore.2.2) (by decide)
        refine ⟨?_, ih (Or.inr ?_) hrest⟩
        · show Safe cells a.1 a.2
          rwa [Safe, if_pos hload]
        · rwa [attemptStep, hsame]
      · rw [if_neg hload] at hfirst
        have habsent := h.resolve_right hload
        have hattempt := habsent.attempt hfirst a.2
        refine ⟨?_, ih (hattempt.imp id fun hcomplete => ?_) hrest⟩
        · show Safe cells a.1 a.2
          rw [Safe, if_neg hload]
          exact hattempt.imp Absent.retriable id
        · obtain ⟨data, -, hdata⟩ := hcomplete.2
          exact Option.isSome_iff_exists.mpr ⟨data, hdata⟩

theorem attempts_safe_blank :
    Machine.Along attemptStep (fun cells a => Safe cells a.1 a.2) (fun _ => 0xFF)
      [(⟨true, false, [goodPage], true, true⟩, plainRecord 0)] := by
  have habsent : Absent fun _ => 0xFF := by
    unfold Absent
    decide
  refine attempts_safe (Or.inl habsent) ⟨?_, trivial⟩
  rw [Guarded, habsent.load]
  exact honest_replicate 1

/-- A chip with an identity. -/
def provisioned : Cells :=
  (Cells.put (fun _ => 0xFF) (identityAddr + hdrSize) (plainRecord 0)).put identityAddr
    (identityHeader (plainRecord 0))

/-- A second attempt whose guard cannot read the header writes over the identity. -/
theorem second_identity :
    (load provisioned).isSome = true ∧
      (storeIdentity provisioned blindGuard (otherRecord provisioned)).cells ≠ provisioned := by
  obtain ⟨data, -, hdata⟩ :=
    (complete_put (fun _ => 0xFF) (accepted_plainRecord 0)).2
  have hload : (load provisioned).isSome = true := Option.isSome_iff_exists.mpr ⟨data, hdata⟩
  refine ⟨hload, fun hsame => not_safe_blindGuard hload ?_⟩
  rw [Safe, if_pos hload]
  exact hsame

end Lrv
end JppDos
