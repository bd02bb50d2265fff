import JppDos.Serial.Upload

/-!
# Downloads of whole files

A host that follows the protocol: it sends FS_DL_BEGIN, takes the size, the chunk
count and the CRC-32 out of the reply, asks for the chunks in order and puts their
data together.

`handle_fs_dl_begin` keeps the number of chunks in sixteen bits, while a file has as
many as its size asks for.

Main fact:
* `reassembled_iff`: these are the whole file exactly up to 65,535 chunks.
-/

namespace JppDos
namespace Serial

open CText Crc LittleEndian

/-- `[xfer_id:1][file_size:4 LE][chunk_count:2 LE][crc32:4 LE]`. -/
structure Announced where
  xferId : UInt8
  fileSize : Nat
  chunkCount : Nat
  crc32 : Nat
deriving Repr, DecidableEq

/-- The reply to FS_DL_BEGIN, if the file was accepted. -/
def announced : List Reply → Option Announced
  | [⟨_, status, xferId :: rest⟩] =>
      if status = SmpSt.ok ∧ rest.length = 10 then
        some ⟨xferId, leNat (rest.take 4), leNat ((rest.drop 4).take 2), leNat (rest.drop 6)⟩
      else none
  | _ => none

/-- The data in a reply to FS_DL_CHUNK, behind `[xfer_id:1][chunk_idx:2 LE]`. -/
def chunkData : List Reply → Option (List UInt8)
  | [⟨_, status, _ :: _ :: _ :: data⟩] => if status = SmpSt.ok then some data else none
  | _ => none

/-- The data of chunks 0 to `n - 1`, one after the other; `dev i` is the device as
the request for chunk `i` finds it. -/
def downloadChunks (xferId : UInt8) (seq : Nat → UInt8) (dev : Nat → Device) :
    Nat → Option (List UInt8)
  | 0 => some []
  | n + 1 => do
      let before ← downloadChunks xferId seq dev n
      let data ← chunkData (handleFsDlChunk (seq n) (xferId :: leBytes 2 n) (dev n)).2
      return before ++ data

/-- All chunks that were announced. -/
def download (a : Announced) (seq : Nat → UInt8) (dev : Nat → Device) : Option (List UInt8) :=
  downloadChunks a.xferId seq dev a.chunkCount

/-- The host has the file, and the announced size and CRC-32 are the file's. -/
def Reassembled (a : Announced) (seq : Nat → UInt8) (dev : Nat → Device)
    (content : List UInt8) : Prop :=
  download a seq dev = some content ∧ content.length = a.fileSize ∧
    (zlibCrc32 content).toNat = a.crc32

variable {path : Path} {content : List UInt8} {d : Device} {io : Io} {seq : UInt8}
  {body : List UInt8} {a : Announced}

/-- The chunks that FS_DL_BEGIN counts. -/
def announcedChunks (content : List UInt8) : Nat := (content.length + 1023) / 1024 % 2 ^ 16

/-- The transfer slot holds the download of `content`, which is in the file still. -/
structure Downloading (path : Path) (content : List UInt8) (d : Device) : Prop where
  fp : d.xfer.fp = some path
  isUpload : d.xfer.isUpload = false
  id : d.xfer.id = 0
  chunkCount : d.xfer.chunkCount.toNat = announcedChunks content
  file : d.files path = some content

theorem begin_chunkCount (h : content.length < 2 ^ 31) :
    ((UInt32.ofNat content.length + 1023) / 1024).toUInt16.toNat = announcedChunks content := by
  have hsum : (UInt32.ofNat content.length + 1023).toNat = content.length + 1023 := by
    rw [UInt32.toNat_add, UInt32.toNat_ofNat']
    simp only [UInt32.reduceToNat]
    omega
  rw [UInt32.toNat_toUInt16, UInt32.toNat_div, hsum]
  rfl

/-- The device after FS_DL_BEGIN has taken the file, and its reply. -/
theorem handleFsDlBegin_ok (hpath : pathValidSd body = some path)
    (hfile : d.files path = some content)
    (h : announced (handleFsDlBegin io seq body d).2 = some a) :
    content.length < 2 ^ 31 ∧ Downloading path content (handleFsDlBegin io seq body d).1 ∧
      a = ⟨0, content.length, announcedChunks content, (zlibCrc32 content).toNat⟩ := by
  unfold handleFsDlBegin at h ⊢
  simp only [hpath, hfile] at h ⊢
  split_ifs at h ⊢ with hactive hopens hbig
  · exact absurd h (by simp [announced, sendErr])
  · exact absurd h (by simp [announced, sendErr])
  · exact absurd h (by simp [announced, sendErr])
  · have hlen : content.length < 2 ^ 31 := by omega
    refine ⟨hlen, ⟨rfl, rfl, rfl, begin_chunkCount hlen, hfile⟩, ?_⟩
    have hsize : (UInt32.ofNat content.length).toNat = content.length := by
      rw [UInt32.toNat_ofNat']
      omega
    have hcount : announcedChunks content < 2 ^ 16 := Nat.mod_lt _ (by decide)
    have hcrc := (~~~crc32Buf 0xFFFFFFFF content).toNat_lt
    simp only [announced, List.cons_append, List.nil_append, List.append_assoc,
      List.length_append, leBytes_length, and_self, if_true, Option.some.injEq] at h
    rw [hsize, begin_chunkCount hlen, List.take_left' (by simp), List.drop_left' (by simp),
      List.take_left' (by simp), ← List.append_assoc, List.drop_left' (by simp),
      leNat_leBytes (by omega), leNat_leBytes (by omega), leNat_leBytes (by omega)] at h
    exact h.symm

/-- FS_DL_BEGIN takes any file that opens and whose size `ftell` can report. -/
theorem announced_begin (hidle : d.xfer.active = false) (hpath : pathValidSd body = some path)
    (hfile : d.files path = some content) (hopens : io.opens = true)
    (hlen : content.length < 2 ^ 31) :
    ∃ a, announced (handleFsDlBegin io seq body d).2 = some a := by
  unfold handleFsDlBegin
  simp only [hidle, hpath, hfile, hopens, Bool.false_eq_true, if_false, Bool.not_true,
    Nat.not_le.mpr hlen, announced, List.cons_append, List.nil_append, List.length_append,
    leBytes_length, and_self, if_true]
  exact ⟨_, rfl⟩

theorem chunkData_chunk (h : Downloading path content d) {i : Nat}
    (hi : i < announcedChunks content) :
    chunkData (handleFsDlChunk seq (0 :: leBytes 2 i) d).2 =
      some ((content.drop (i * smpChunkSize)).take smpChunkSize) := by
  have hlt : i < 2 ^ 16 := hi.trans (Nat.mod_lt _ (by decide))
  have hnum : UInt16.ofNat ((UInt8.ofNat i).toNat ||| (UInt8.ofNat (i / 256)).toNat <<< 8) =
      UInt16.ofNat i := by
    rw [or_shift_two]
    exact congrArg UInt16.ofNat (leNat_leBytes (k := 2) hlt)
  have hnat : (UInt16.ofNat i).toNat = i := by
    rw [UInt16.toNat_ofNat']
    omega
  have hidx : ¬ UInt16.ofNat i ≥ d.xfer.chunkCount := by
    rw [ge_iff_le, UInt16.le_iff_toNat_le, h.chunkCount, hnat]
    omega
  simp only [handleFsDlChunk, leBytes, h.fp, h.isUpload, h.id, hnum, hidx, h.file, hnat, ne_eq,
    not_true, if_false, chunkData, List.cons_append, List.nil_append, if_true, Option.getD_some]

/-- The host gets as many bytes of the file as its requests cover. -/
theorem downloadChunks_eq {seq : Nat → UInt8} {dev : Nat → Device} {n : Nat}
    (hn : n ≤ announcedChunks content) (hdev : ∀ i < n, Downloading path content (dev i)) :
    downloadChunks 0 seq dev n = some (content.take (n * smpChunkSize)) := by
  induction n with
  | zero => simp [downloadChunks]
  | succ n ih =>
      have hbefore := ih (by omega) fun i hi => hdev i (by omega)
      have hdata : chunkData (handleFsDlChunk (seq n) (0 :: leBytes 2 n) (dev n)).2 =
          some ((content.drop (n * smpChunkSize)).take smpChunkSize) :=
        chunkData_chunk (hdev n (Nat.lt_succ_self n)) (by omega)
      rw [downloadChunks, hbefore, hdata, Nat.succ_mul, List.take_add]
      rfl

/-- Which is the whole file where the count was not cut to sixteen bits. -/
theorem take_announcedChunks_iff :
    content.take (announcedChunks content * smpChunkSize) = content ↔
      content.length ≤ 65535 * 1024 := by
  unfold announcedChunks smpChunkSize
  constructor
  · intro h
    have hlen := congrArg List.length h
    rw [List.length_take] at hlen
    omega
  · intro h
    have hcount : (content.length + 1023) / 1024 < 2 ^ 16 := by omega
    have hcover : content.length ≤ (content.length + 1023) / 1024 * 1024 := by
      clear h hcount
      omega
    rw [Nat.mod_eq_of_lt hcount, List.take_of_length_le hcover]

/-- Transfer and file are as FS_DL_BEGIN left them. -/
def Unchanged (path : Path) (d d' : Device) : Prop :=
  d'.xfer = d.xfer ∧ d'.files path = d.files path

theorem Downloading.of_unchanged {d' : Device} (h : Downloading path content d)
    (hd : Unchanged path d d') : Downloading path content d' :=
  ⟨by rw [hd.1]; exact h.fp, by rw [hd.1]; exact h.isUpload, by rw [hd.1]; exact h.id,
    by rw [hd.1]; exact h.chunkCount, by rw [hd.2]; exact h.file⟩

/-- The download of a file that FS_DL_BEGIN accepted and that stays as it is, whatever
else the device does between the requests: the chunks are the file, of the announced
size and CRC-32, exactly if sixteen bits can count them. -/
theorem reassembled_iff (io : Io) (seq : UInt8) (body : List UInt8) (d : Device)
    (seqs : Nat → UInt8) (dev : Nat → Device) {path : Path} {content : List UInt8}
    {a : Announced} (hpath : pathValidSd body = some path) (hfile : d.files path = some content)
    (hbegin : announced (handleFsDlBegin io seq body d).2 = some a)
    (hdev : ∀ i < a.chunkCount, Unchanged path (handleFsDlBegin io seq body d).1 (dev i)) :
    Reassembled a seqs dev content ↔ content.length ≤ 65535 * 1024 := by
  obtain ⟨_, hdown, rfl⟩ := handleFsDlBegin_ok hpath hfile hbegin
  have hall : download ⟨0, content.length, announcedChunks content, (zlibCrc32 content).toNat⟩
      seqs dev = some (content.take (announcedChunks content * smpChunkSize)) :=
    downloadChunks_eq le_rfl fun i hi => hdown.of_unchanged (hdev i hi)
  rw [← take_announcedChunks_iff, Reassembled, hall, Option.some.injEq]
  simp only [and_true]

/-- `/sd/a` -/
def exampleRequest : List UInt8 := [0x2F, 0x73, 0x64, 0x2F, 0x61, 0]

/-- A card with one file, `/sd/a`. -/
def deviceWith (content : List UInt8) : Device :=
  { idleDevice with files := fun p => if p = cString exampleRequest then some content else none }

theorem reassembled_iff_small :
    Reassembled ⟨0, 4, 1, 0x4278c983⟩ (fun _ => 2)
      (fun _ => (handleFsDlBegin ioOk 1 exampleRequest (deviceWith exampleFile.data)).1)
      exampleFile.data :=
  (reassembled_iff ioOk 1 exampleRequest (deviceWith exampleFile.data) (fun _ => 2) _
    (show pathValidSd exampleRequest = some (cString exampleRequest) by decide) rfl
    (by decide +kernel) fun _ _ => ⟨rfl, rfl⟩).mpr (by decide)

/-- 64 MiB: 65,536 chunks, of which none is announced. -/
theorem not_reassembled :
    ¬ ∀ (io : Io) (seq : UInt8) (body : List UInt8) (d : Device) (seqs : Nat → UInt8)
      (dev : Nat → Device) (path : Path) (content : List UInt8) (a : Announced),
      pathValidSd body = some path → d.files path = some content →
      announced (handleFsDlBegin io seq body d).2 = some a →
      (∀ i < a.chunkCount, Unchanged path (handleFsDlBegin io seq body d).1 (dev i)) →
      Reassembled a seqs dev content := by
  intro h
  obtain ⟨content, hlen⟩ : ∃ content : List UInt8, content.length = 65536 * 1024 :=
    ⟨List.replicate (65536 * 1024) 0, List.length_replicate⟩
  have hpath : pathValidSd exampleRequest = some (cString exampleRequest) := by decide
  have hfile : (deviceWith content).files (cString exampleRequest) = some content := by
    simp [deviceWith]
  obtain ⟨a, ha⟩ :
      ∃ a, announced (handleFsDlBegin ioOk 1 exampleRequest (deviceWith content)).2 = some a :=
    announced_begin rfl hpath hfile rfl (by omega)
  have hwhole := h ioOk 1 exampleRequest (deviceWith content) (fun _ => 2)
    (fun _ => (handleFsDlBegin ioOk 1 exampleRequest (deviceWith content)).1) _ content a hpath
    hfile ha fun _ _ => ⟨rfl, rfl⟩
  rw [Reassembled] at hwhole
  obtain ⟨_, hdown, rfl⟩ := handleFsDlBegin_ok hpath hfile ha
  have hzero : announcedChunks content = 0 := by
    unfold announcedChunks
    omega
  have hnil : content = [] := by
    have hdata := hwhole.1
    rw [download, hzero] at hdata
    exact (Option.some.inj hdata).symm
  rw [hnil] at hlen
  exact absurd hlen (by decide)

end Serial
end JppDos
