import JppDos.Lrv.Identity

/-!
# The identity record, from its making to its loading

The record as the manufacturing script packs it, the fields that the firmware unpacks, and
the contents of the EEPROM that it takes for an identity.

Main fact:
* `record_mismatch`: a record with a byte behind its certificate, and one with a short key.
-/

namespace JppDos
namespace Lrv

open Crc LittleEndian CText

/-- `struct.pack("<H", n)`. -/
def packH (n : Int) : Option (List UInt8) :=
  if 0 ≤ n ∧ n ≤ 65535 then some (leBytes 2 n.toNat) else none

/-- `serialise_record`, with the two texts as they are encoded; `none` is an exception. -/
def serialiseRecord (serial : Int) (pubkey seckey certSig hwid cert : List UInt8) :
    Option (List UInt8) :=
  let certBytes := cert ++ [0]
  if certBytes.length > 191 then none
  else
    let hwidPadded := (hwid.take 23 ++ List.replicate (24 - (hwid.take 23).length) 0).take 24
    (packH serial).bind fun header =>
      (packH certBytes.length).bind fun certLen =>
        some (header ++ pubkey ++ seckey ++ certSig ++ hwidPadded ++ certLen ++ certBytes)

theorem take_drop_mid {front mid back : List UInt8} {m n : Nat} (hm : front.length = m)
    (hn : mid.length = n) : ((front ++ (mid ++ back)).drop m).take n = mid := by
  rw [List.drop_left' hm, List.take_left' hn]

theorem u16At_append (front : List UInt8) {mid back : List UInt8} {m : Nat}
    (hm : front.length = m) (hn : mid.length = 2) :
    u16At (front ++ (mid ++ back)) m = leNat mid := by
  match mid, hn with
  | [a, b], _ =>
      have h0 : (front ++ ([a, b] ++ back)).getD m 0 = a := by
        rw [List.getD_eq_getElem?_getD, List.getElem?_append_right (by omega)]
        simp [hm]
      have h1 : (front ++ ([a, b] ++ back)).getD (m + 1) 0 = b := by
        rw [List.getD_eq_getElem?_getD, List.getElem?_append_right (by omega)]
        simp [hm]
      rw [u16At_eq, h0, h1]

theorem cString_append_replicate (text : List UInt8) (n : Nat) :
    cString (text ++ List.replicate n 0) = cString text := by
  induction text with
  | nil => cases n <;> simp [cString, List.replicate_succ]
  | cons c text ih =>
      unfold cString at ih ⊢
      by_cases hc : c = 0
      · simp [hc]
      · rw [List.cons_append, List.takeWhile_cons_of_pos (by simpa using hc),
          List.takeWhile_cons_of_pos (by simpa using hc), ih]

theorem take_hwid (hwid : List UInt8) :
    ((hwid.take 23 ++ List.replicate (24 - (hwid.take 23).length) 0).take 24).length = 24 ∧
      cString (((hwid.take 23 ++ List.replicate (24 - (hwid.take 23).length) (0 : UInt8)).take
        24).take 23) = cString (hwid.take 23) := by
  have hle : (hwid.take 23).length ≤ 23 := List.length_take_le _ _
  constructor
  · simp only [List.length_take, List.length_append, List.length_replicate]
    omega
  · rw [List.take_take, List.take_append, List.take_of_length_le (by omega), List.take_replicate,
      cString_append_replicate]

theorem packH_eq_some {n : Int} {bytes : List UInt8} (h : packH n = some bytes) :
    bytes.length = 2 ∧ (leNat bytes : Int) = n := by
  rw [packH] at h
  split_ifs at h with hn
  obtain rfl := Option.some.inj h
  refine ⟨leBytes_length _ _, ?_⟩
  rw [leNat_leBytes (by omega)]
  omega

/-- What `serialise_record` does when it raises nothing. -/
theorem serialiseRecord_eq_some {serial : Int} {pubkey seckey certSig hwid cert record : List UInt8}
    (h : serialiseRecord serial pubkey seckey certSig hwid cert = some record) :
    ∃ header certLen, packH serial = some header ∧ packH (cert ++ [0]).length = some certLen ∧
      (cert ++ [0]).length ≤ 191 ∧
      record = header ++ (pubkey ++ (seckey ++ (certSig ++
        ((hwid.take 23 ++ List.replicate (24 - (hwid.take 23).length) 0).take 24 ++
          (certLen ++ (cert ++ [0])))))) := by
  simp only [serialiseRecord] at h
  split_ifs at h with hlen
  obtain ⟨header, hheader, h⟩ := Option.bind_eq_some_iff.mp h
  obtain ⟨certLen, hcertLen, h⟩ := Option.bind_eq_some_iff.mp h
  refine ⟨header, certLen, hheader, hcertLen, Nat.le_of_not_lt hlen, ?_⟩
  rw [← Option.some.inj h]
  simp only [List.append_assoc]

/-- The fields that a record of the script has for the firmware. -/
def recordData (serial : Int) (pubkey seckey certSig hwid cert : List UInt8) : LrvData where
  serial := UInt16.ofNat serial.toNat
  devicePubkey := pubkey
  deviceSeckey := seckey
  certSig := certSig
  hwid := cString (hwid.take 23)
  cert := cert ++ [0]

theorem deserialise_serialise {serial : Int} {pubkey seckey certSig hwid cert record : List UInt8}
    (hpub : pubkey.length = 32) (hsec : seckey.length = 64) (hsig : certSig.length = 64)
    (h : serialiseRecord serial pubkey seckey certSig hwid cert = some record) :
    rcMinSz ≤ record.length ∧ record.length ≤ rcMaxSz ∧
      deserialise record = some (recordData serial pubkey seckey certSig hwid cert) := by
  obtain ⟨header, certLen, hheader, hcertLen, hcert, hrecord⟩ := serialiseRecord_eq_some h
  obtain ⟨hheaderLen, hserial⟩ := packH_eq_some hheader
  obtain ⟨hcertLenLen, hcertLenVal⟩ := packH_eq_some hcertLen
  obtain ⟨hhwidLen, hhwid⟩ := take_hwid hwid
  generalize hpadded :
    (hwid.take 23 ++ List.replicate (24 - (hwid.take 23).length) (0 : UInt8)).take 24 = padded
    at hrecord hhwidLen hhwid
  have hlength : record.length = 188 + (cert ++ [0]).length := by
    rw [hrecord]
    simp only [List.length_append, hheaderLen, hpub, hsec, hsig, hhwidLen, hcertLenLen]
    omega
  -- Each field is read between what stands in front of it and what stands behind it.
  have hserialAt : u16At record 0 = leNat header := by
    rw [hrecord]
    exact u16At_append [] rfl hheaderLen
  have hpubAt : (record.drop 2).take 32 = pubkey := by
    rw [hrecord]
    exact take_drop_mid hheaderLen hpub
  have hsecAt : (record.drop 34).take 64 = seckey := by
    rw [hrecord, ← List.append_assoc]
    exact take_drop_mid (by rw [List.length_append, hheaderLen, hpub]) hsec
  have hsigAt : (record.drop 98).take 64 = certSig := by
    rw [hrecord, ← List.append_assoc, ← List.append_assoc]
    exact take_drop_mid (by simp only [List.length_append, hheaderLen, hpub, hsec]) hsig
  have hhwidAt : (record.drop 162).take 23 = padded.take 23 := by
    have hfull : (record.drop 162).take 24 = padded := by
      rw [hrecord, ← List.append_assoc, ← List.append_assoc, ← List.append_assoc]
      exact take_drop_mid (by simp only [List.length_append, hheaderLen, hpub, hsec, hsig])
        hhwidLen
    rw [← hfull, List.take_take]
    rfl
  have hlenAt : u16At record rcOffCertlen = leNat certLen := by
    rw [hrecord, ← List.append_assoc, ← List.append_assoc, ← List.append_assoc,
      ← List.append_assoc]
    exact u16At_append _
      (by simp only [List.length_append, hheaderLen, hpub, hsec, hsig, hhwidLen]; rfl) hcertLenLen
  have hcertAt : record.drop rcFixedSz = cert ++ [0] := by
    rw [hrecord, ← List.append_assoc, ← List.append_assoc, ← List.append_assoc,
      ← List.append_assoc, ← List.append_assoc]
    exact List.drop_left'
      (by simp only [List.length_append, hheaderLen, hpub, hsec, hsig, hhwidLen, hcertLenLen]; rfl)
  have hpos : 0 < (cert ++ [0]).length := by simp
  have hval : leNat certLen = (cert ++ [0]).length := by exact_mod_cast hcertLenVal
  have hmin : rcMinSz ≤ record.length := by
    rw [hlength, rcMinSz, rcFixedSz]
    omega
  refine ⟨hmin, by rw [hlength, rcMaxSz, rcFixedSz, certMax]; omega, ?_⟩
  rw [deserialise, if_neg (Nat.not_lt.mpr hmin), hlenAt, hval]
  dsimp only
  rw [if_neg (by rw [hlength, rcFixedSz]; omega), if_pos (by rw [certMax]; omega), hserialAt,
    hpubAt, hsecAt, hsigAt, hwidMax, hhwidAt, hhwid, hcertAt, List.take_length]
  rw [recordData, ← hserial, Int.toNat_natCast]

/-- A chip that holds a record behind its header loads it. -/
theorem load_of_read {cells : Cells} {record : List UInt8} {data : LrvData}
    (hhdr : cells.read identityAddr hdrSize = identityHeader record)
    (hbody : cells.read (identityAddr + hdrSize) record.length = record)
    (hmin : rcMinSz ≤ record.length) (hmax : record.length ≤ rcMaxSz)
    (hdata : deserialise record = some data) : load cells = some data := by
  rw [load, identityReadRecord_of_read hhdr hbody hmin hmax, Option.bind_some, hdata]

/-- The length that the header of a chip gives its record. -/
def recordLength (cells : Cells) : Nat := u16At (cells.read identityAddr hdrSize) 4

/-- The record that the header of a chip delimits. -/
def recordAt (cells : Cells) : List UInt8 :=
  cells.read (identityAddr + hdrSize) (recordLength cells)

/-- The magic and the checksum match, the length is one that records have, and the record
holds a certificate with the length that it gives. -/
structure Loadable (cells : Cells) : Prop where
  magic : (cells.read identityAddr hdrSize).take 4 = identityMagic
  min : rcMinSz ≤ recordLength cells
  max : recordLength cells ≤ rcMaxSz
  crc : crc16Ccitt (recordAt cells) = UInt16.ofNat (u16At (cells.read identityAddr hdrSize) 6)
  certPos : 0 < u16At (recordAt cells) rcOffCertlen
  certFits : rcFixedSz + u16At (recordAt cells) rcOffCertlen ≤ recordLength cells

theorem identityReadRecord_iff {cells : Cells} {record : List UInt8} :
    identityReadRecord cells true true = some record ↔
      (cells.read identityAddr hdrSize).take 4 = identityMagic ∧
        rcMinSz ≤ recordLength cells ∧ recordLength cells ≤ rcMaxSz ∧
        crc16Ccitt (recordAt cells) =
          UInt16.ofNat (u16At (cells.read identityAddr hdrSize) 6) ∧
        record = recordAt cells := by
  rw [identityReadRecord, eepromRead_header, Option.bind_some]
  by_cases hmagic : (cells.read identityAddr hdrSize).take 4 = identityMagic
  swap
  · rw [if_pos hmagic]
    simp [hmagic]
  rw [if_neg (not_not.mpr hmagic)]
  change (if recordLength cells < rcMinSz ∨ rcMaxSz < recordLength cells then none else _) = _ ↔ _
  by_cases hlen : recordLength cells < rcMinSz ∨ rcMaxSz < recordLength cells
  · rw [if_pos hlen]
    simp only [reduceCtorEq, false_iff]
    rintro ⟨-, hmin, hmax, -⟩
    omega
  rw [if_neg hlen]
  rw [not_or, Nat.not_lt, Nat.not_lt] at hlen
  have hpos : 0 < recordLength cells := Nat.lt_of_lt_of_le (by decide) hlen.1
  have hfits : identityAddr + hdrSize + recordLength cells ≤ eepromSize :=
    Nat.le_trans (Nat.add_le_add_left hlen.2 _) (by decide)
  change ((eepromRead cells true (identityAddr + hdrSize) (recordLength cells)).bind _) = _ ↔ _
  rw [eepromRead_true cells hpos hfits, Option.bind_some]
  change (if crc16Ccitt (recordAt cells) ≠ _ then none else some (recordAt cells)) = _ ↔ _
  by_cases hcrc : crc16Ccitt (recordAt cells) =
      UInt16.ofNat (u16At (cells.read identityAddr hdrSize) 6)
  · rw [if_neg (not_not.mpr hcrc), Option.some.injEq]
    exact ⟨fun h => ⟨hmagic, hlen.1, hlen.2, hcrc, h.symm⟩, fun h => h.2.2.2.2.symm⟩
  · rw [if_pos hcrc]
    simp [hcrc]

theorem deserialise_isSome_iff {buf : List UInt8} :
    (deserialise buf).isSome = true ↔
      rcMinSz ≤ buf.length ∧ 0 < u16At buf rcOffCertlen ∧
        rcFixedSz + u16At buf rcOffCertlen ≤ buf.length := by
  rw [deserialise]
  by_cases hmin : buf.length < rcMinSz
  · rw [if_pos hmin]
    simp only [Option.isSome_none, Bool.false_eq_true, false_iff]
    omega
  rw [if_neg hmin]
  dsimp only
  by_cases hcert : u16At buf rcOffCertlen = 0 ∨ buf.length < rcFixedSz + u16At buf rcOffCertlen
  · rw [if_pos hcert]
    simp only [Option.isSome_none, Bool.false_eq_true, false_iff]
    omega
  · rw [if_neg hcert]
    simp only [Option.isSome_some, true_iff]
    omega

theorem load_isSome_iff (cells : Cells) : (load cells).isSome = true ↔ Loadable cells := by
  have hlength : (recordAt cells).length = recordLength cells := Cells.length_read _ _ _
  constructor
  · intro h
    obtain ⟨data, hdata⟩ := Option.isSome_iff_exists.mp h
    rw [load] at hdata
    obtain ⟨record, hread, hparse⟩ := Option.bind_eq_some_iff.mp hdata
    obtain ⟨hmagic, hmin, hmax, hcrc, rfl⟩ := identityReadRecord_iff.mp hread
    obtain ⟨-, hpos, hfits⟩ := deserialise_isSome_iff.mp (Option.isSome_iff_exists.mpr ⟨_, hparse⟩)
    exact ⟨hmagic, hmin, hmax, hcrc, hpos, hlength ▸ hfits⟩
  · intro h
    have hread := identityReadRecord_iff.mpr ⟨h.magic, h.min, h.max, h.crc, rfl⟩
    rw [load, hread, Option.bind_some]
    exact deserialise_isSome_iff.mpr ⟨hlength ▸ h.min, h.certPos, hlength ▸ h.certFits⟩

/-- What the script packs the firmware unpacks and loads with the same fields; and a chip loads
exactly when its magic and its checksum match, its length is one of a record, and the record
holds the certificate that it announces. -/
theorem record_round_trip :
    (∀ (serial : Int) (pubkey : Vector UInt8 32) (seckey certSig : Vector UInt8 64)
      (hwid cert record : List UInt8),
      serialiseRecord serial pubkey.toList seckey.toList certSig.toList hwid cert = some record →
        ∃ data, deserialise record = some data ∧ (data.serial.toNat : Int) = serial ∧
          data.devicePubkey = pubkey.toList ∧ data.deviceSeckey = seckey.toList ∧
          data.certSig = certSig.toList ∧ data.cert = cert ++ [0] ∧
          ∀ cells, cells.read identityAddr hdrSize = identityHeader record →
            cells.read (identityAddr + hdrSize) record.length = record →
              load cells = some data) ∧
    (∀ cells, (load cells).isSome = true ↔ Loadable cells) := by
  refine ⟨fun serial pubkey seckey certSig hwid cert record h => ?_, load_isSome_iff⟩
  obtain ⟨hmin, hmax, hdata⟩ := deserialise_serialise pubkey.size_toArray seckey.size_toArray
    certSig.size_toArray h
  obtain ⟨header, -, hheader, -⟩ := serialiseRecord_eq_some h
  have hserial : 0 ≤ serial ∧ serial ≤ 65535 := by
    rw [packH] at hheader
    split_ifs at hheader with hbounds
    exact hbounds
  refine ⟨_, hdata, ?_, rfl, rfl, rfl, rfl, fun cells hhdr hbody =>
    load_of_read hhdr hbody hmin hmax hdata⟩
  rw [recordData, UInt16.toNat_ofNat', Nat.mod_eq_of_lt (by omega)]
  omega

/-- A record with one byte behind its certificate. -/
def trailingRecord : List UInt8 :=
  List.replicate 186 0 ++ leBytes 2 2 ++ ascii "A" ++ [0] ++ ascii "B"

/-- A chip with that record. -/
def trailingCells : Cells := fun i =>
  (identityHeader trailingRecord ++ trailingRecord).getD i 0

theorem read_getD (front part back : List UInt8) :
    Cells.read (fun i => (front ++ (part ++ back)).getD i 0) front.length part.length = part := by
  refine List.ext_getElem (by simp) fun n hn hn' => ?_
  rw [Cells.length_read] at hn
  simp only [Cells.read, List.getElem_map, List.getElem_range]
  rw [List.getD_eq_getElem?_getD, List.getElem?_append_right (Nat.le_add_right _ _),
    Nat.add_sub_cancel_left, List.getElem?_append_left hn, List.getElem?_eq_getElem hn,
    Option.getD_some]

theorem trailingCells_read :
    trailingCells.read identityAddr hdrSize = identityHeader trailingRecord ∧
      trailingCells.read (identityAddr + hdrSize) trailingRecord.length = trailingRecord := by
  have hlen := length_identityHeader trailingRecord
  constructor
  · have hread := read_getD [] (identityHeader trailingRecord) trailingRecord
    rwa [hlen] at hread
  · have hread := read_getD (identityHeader trailingRecord) trailingRecord []
    rwa [hlen, List.append_nil] at hread

/-- The script also packs a public key of another length, whose record the firmware unpacks
into other fields; and the firmware loads a record that is longer than its certificate makes
it. -/
theorem record_mismatch :
    (¬ ∀ (serial : Int) (pubkey seckey certSig hwid cert record : List UInt8),
      serialiseRecord serial pubkey seckey certSig hwid cert = some record →
        ∃ data, deserialise record = some data ∧ data.devicePubkey = pubkey) ∧
    (¬ ∀ cells, (load cells).isSome = true →
      recordLength cells = rcFixedSz + u16At (recordAt cells) rcOffCertlen) := by
  constructor
  · intro h
    have hbad : (serialiseRecord 1 (List.replicate 33 7) (List.replicate 64 1)
        (List.replicate 64 2) [] (ascii "serial=1")).bind (fun record =>
          (deserialise record).map LrvData.devicePubkey) ≠ some (List.replicate 33 7) := by
      decide +kernel
    refine hbad (Option.bind_eq_some_iff.mpr ?_)
    obtain ⟨record, hrecord⟩ := Option.isSome_iff_exists.mp
      (show (serialiseRecord 1 (List.replicate 33 7) (List.replicate 64 1) (List.replicate 64 2) []
        (ascii "serial=1")).isSome = true by decide)
    obtain ⟨data, hdata, hkey⟩ := h _ _ _ _ _ _ _ hrecord
    exact ⟨record, hrecord, by rw [hdata, Option.map_some, hkey]⟩
  · intro h
    obtain ⟨hhdr, hbody⟩ := trailingCells_read
    obtain ⟨data, hdata⟩ := Option.isSome_iff_exists.mp
      (show (deserialise trailingRecord).isSome = true by decide +kernel)
    have hload : load trailingCells = some data :=
      load_of_read hhdr hbody (by decide +kernel) (by decide +kernel) hdata
    have hlength : recordLength trailingCells = trailingRecord.length := by
      rw [recordLength, hhdr, (u16At_identityHeader (by decide +kernel)).1]
    have hmatch := h trailingCells (Option.isSome_iff_exists.mpr ⟨data, hload⟩)
    rw [recordAt, hlength, hbody] at hmatch
    exact absurd hmatch (by decide +kernel)

end Lrv
end JppDos
