import JppDos.Serial.Link

/-!
# Stop-and-wait upload safety

`upload_file` of `jppd_upload.py` as a program of `_cmd` calls, and what the
device has written when it returns.

Main fact:
* `uploadFile_safe`: a normal return means the device wrote the local bytes.
-/

namespace JppDos
namespace Serial

open CText Crc LittleEndian

/-- What `upload_file` reads: the local bytes, and the encoded remote path. -/
structure LocalFile where
  data : List UInt8
  remotePath : List UInt8

namespace LocalFile

variable (f : LocalFile)

/-- `n_chunks`. -/
def nChunks : Nat :=
  if f.data.length ≠ 0 then (f.data.length + smpChunkSize - 1) / smpChunkSize else 0

/-- `data[idx * CHUNK_SIZE:(idx + 1) * CHUNK_SIZE]`. -/
def chunk (idx : Nat) : List UInt8 := (f.data.drop (idx * smpChunkSize)).take smpChunkSize

/-- The file the device opens. -/
def path : Path := cString (f.remotePath ++ [0])

/-- The UPLOAD_BEGIN call; `struct.pack('<I', ..)` raises on larger files. -/
def beginCall : Option Call :=
  if f.data.length < 2 ^ 32 then
    some ⟨SmpCmd.fsUploadBegin, leBytes 4 f.data.length ++ f.remotePath ++ [0x00], 0, by omega⟩
  else none

/-- An UPLOAD_CHUNK call; `struct.pack('<H', ..)` raises on larger indices. -/
def chunkCall (xferId : UInt8) (idx : Nat) : Option Call :=
  if idx < 2 ^ 16 then
    some ⟨SmpCmd.fsUploadChunk, [xferId] ++ leBytes 2 idx ++ f.chunk idx, 4, by omega⟩
  else none

/-- The UPLOAD_END call. -/
def endCall (xferId : UInt8) : Call :=
  ⟨SmpCmd.fsUploadEnd, [xferId] ++ leBytes 4 (zlibCrc32 f.data).toNat, 0, by omega⟩

end LocalFile

/-- Where the host is: in earlier commands of the session, with the UPLOAD_BEGIN
call after the last of them, or in the chunk loop, or at UPLOAD_END. -/
inductive UploadPc where
  | earlier (calls : List Call)
  | chunk (xferId : UInt8) (idx : Nat)
  | finish (xferId : UInt8)
  | returned
  | raised
deriving DecidableEq

/-- The head of the chunk loop. -/
def chunkLoop (f : LocalFile) (xferId : UInt8) (idx : Nat) : UploadPc :=
  if idx < f.nChunks then .chunk xferId idx else .finish xferId

/-- Any commands, then `upload_file`. -/
def uploadFile (f : LocalFile) : Program UploadPc where
  call
    | .earlier (c :: _) => some c
    | .earlier [] => f.beginCall
    | .chunk xferId idx => f.chunkCall xferId idx
    | .finish xferId => some (f.endCall xferId)
    | .returned => none
    | .raised => none
  resume
    | .earlier (_ :: calls), _, _ => .earlier calls
    | .earlier [], status, resp =>
        if status ≠ SmpSt.ok then .raised
        else
          match resp with
          | [] => .raised
          | xferId :: _ => chunkLoop f xferId 0
    | .chunk xferId idx, status, _ =>
        if status ≠ SmpSt.ok then .raised else chunkLoop f xferId (idx + 1)
    | .finish _, status, _ => if status ≠ SmpSt.ok then .raised else .returned
    | .returned, _, _ => .returned
    | .raised, _, _ => .raised

section Chunks

variable (f : LocalFile)

theorem take_succ_chunk (i : Nat) :
    f.data.take ((i + 1) * smpChunkSize) = f.data.take (i * smpChunkSize) ++ f.chunk i := by
  rw [LocalFile.chunk, Nat.succ_mul, List.take_add]

theorem chunk_ne_nil {i : Nat} (h : i < f.nChunks) : f.chunk i ≠ [] := by
  unfold LocalFile.nChunks at h
  intro hnil
  have hlen := congrArg List.length hnil
  simp only [LocalFile.chunk, List.length_take, List.length_drop, List.length_nil,
    smpChunkSize] at hlen h
  split_ifs at h with h0
  · omega
  · omega

theorem take_nChunks : f.data.take (f.nChunks * smpChunkSize) = f.data := by
  apply List.take_of_length_le
  unfold LocalFile.nChunks smpChunkSize
  split_ifs <;> omega

theorem chunks_flatten (i : Nat) :
    ((List.range i).map f.chunk).flatten = f.data.take (i * smpChunkSize) := by
  induction i with
  | zero => simp
  | succ i ih => simp [List.range_succ, ih, take_succ_chunk]

end Chunks

section Upload

variable (f : LocalFile)

/-- The device has the first `i` chunks, each written once, and waits for the
next. -/
structure Writing (i : Nat) (d : Device) : Prop where
  fp : d.xfer.fp = some f.path
  isUpload : d.xfer.isUpload = true
  id : d.xfer.id = 0
  nextChunk : d.xfer.nextChunk = UInt16.ofNat i
  crc32 : d.xfer.crc32 = crc32Buf 0xFFFFFFFF (f.data.take (i * smpChunkSize))
  writes : d.xfer.writes = (List.range i).map f.chunk
  file : d.files f.path = some (f.data.take (i * smpChunkSize))

/-- As `Writing`, unless the transfer is gone. -/
def WritingOrGone (i : Nat) (d : Device) : Prop := d.xfer.fp = none ∨ Writing f i d

/-- The upload is over and complete; the file is whole if no flush failed. -/
structure Stored (lossless : Prop) (d : Device) : Prop where
  fp : d.xfer.fp = none
  crc32 : d.xfer.crc32 = crc32Buf 0xFFFFFFFF f.data
  writes : d.xfer.writes = (List.range f.nChunks).map f.chunk
  file : lossless → d.files f.path = some f.data

variable {f} {other : OtherHandlers} {lossless : Prop}

theorem dropTransfer_fp (io : Io) (d : Device) : (d.dropTransfer io).xfer.fp = none := by
  unfold Device.dropTransfer
  split
  · rfl
  · assumption

theorem dropTransfer_of_none (io : Io) {d : Device} (h : d.xfer.fp = none) :
    d.dropTransfer io = d := by
  unfold Device.dropTransfer
  rw [h]

theorem dropTransfer_of_some (io : Io) {d : Device} {path : Path} (h : d.xfer.fp = some path)
    (hup : d.xfer.isUpload = true) :
    d.dropTransfer io =
      { d with xfer := { d.xfer with fp := none }, files := d.files.flush path io.lost } := by
  unfold Device.dropTransfer
  simp [h, hup]

theorem flush_zero (files : Files) (path : Path) : files.flush path 0 = files := by
  funext p
  unfold Files.flush
  by_cases hp : p = path
  · subst hp
    simp
  · rw [Function.update_of_ne hp]

/-- A lost flush of zero bytes is none: the closed file is what was written. -/
theorem Writing.stored {d : Device} (h : Writing f f.nChunks d) {io : Io}
    (hio : lossless → io.lost = 0) : Stored f lossless (d.dropTransfer io) := by
  rw [dropTransfer_of_some io h.fp h.isUpload]
  refine ⟨rfl, ?_, h.writes, fun hl => ?_⟩
  · rw [h.crc32, take_nChunks]
  · have hfile := h.file
    rw [take_nChunks] at hfile
    simp only
    rw [hio hl, flush_zero, hfile]

/-- `fwrite` of the chunk in its turn. -/
theorem Writing.write {d : Device} {i : Nat} (h : Writing f i d) (io : Io)
    (seq idx0 idx1 : UInt8) :
    let out := writeChunk io seq idx0 idx1 (f.chunk i) f.path d
    WritingOrGone f (i + 1) out.1 := by
  simp only [writeChunk]
  split_ifs with hshort
  · exact Or.inl (dropTransfer_fp io _)
  · right
    have htook : (f.chunk i).take ((f.chunk i).length - io.short) = f.chunk i := by
      apply List.take_of_length_le
      have := not_not.mp hshort
      rw [List.length_take] at this
      omega
    refine ⟨h.fp, h.isUpload, h.id, ?_, ?_, ?_, ?_⟩
    · simp [h.nextChunk, UInt16.ofNat_add]
    · simp only
      rw [h.crc32, take_succ_chunk, crc32Buf_append]
    · simp [h.writes, List.range_succ]
    · simp [Files.append, h.file, htook, take_succ_chunk]

theorem uploadBegin_spec {c : Call} (hc : f.beginCall = some c) (io : Io) (seq : UInt8)
    (d : Device) :
    ∀ r ∈ (dispatchCommand other io (c.payload seq) d).2, r.status = SmpSt.ok →
      Writing f 0 (dispatchCommand other io (c.payload seq) d).1 ∧ r.body = [0] := by
  unfold LocalFile.beginCall at hc
  split_ifs at hc with hlen
  obtain rfl := Option.some.inj hc
  simp only [Call.payload, List.cons_append, List.nil_append]
  cases hs : d.sessionActive with
  | false =>
      rw [dispatchCommand_no_session other io _ _ _ _ d hs (by decide)]
      simp [sendErr, SmpSt.ok, SmpSt.errNoSession]
  | true =>
      rw [dispatchCommand_uploadBegin other io _ _ _ d hs]
      obtain ⟨b, area, harea⟩ : ∃ b area, f.remotePath ++ [0x00] = b :: area :=
        List.exists_cons_of_ne_nil (by simp)
      simp only [leBytes, List.cons_append, List.nil_append, harea, handleFsUploadBegin]
      split_ifs
      · simp [sendErr, SmpSt.ok, SmpSt.errTransfer]
      · simp [sendErr, SmpSt.ok, SmpSt.errInvalid]
      · simp [sendErr, SmpSt.ok, SmpSt.errIo]
      · simp only [List.mem_singleton, forall_eq, and_true]
        intro _
        refine ⟨by rw [LocalFile.path, harea], rfl, rfl, rfl, by simp [crc32Buf], rfl, ?_⟩
        simp [LocalFile.path, harea]

theorem uint16_ofNat_ne_succ (i : Nat) : UInt16.ofNat i ≠ UInt16.ofNat (i + 1) := by
  intro h
  have := congrArg UInt16.toNat h
  rw [UInt16.toNat_ofNat', UInt16.toNat_ofNat'] at this
  omega

/-- A chunk request at a device that has the chunk already, or has its turn. -/
theorem uploadChunk_spec {c : Call} {i : Nat} (hi : i < f.nChunks)
    (hc : f.chunkCall 0 i = some c) (io : Io) (seq : UInt8) {d : Device}
    (hd : WritingOrGone f i d ∨ WritingOrGone f (i + 1) d) :
    let out := dispatchCommand other io (c.payload seq) d
    (WritingOrGone f i out.1 ∨ WritingOrGone f (i + 1) out.1) ∧
      (WritingOrGone f (i + 1) d → WritingOrGone f (i + 1) out.1) ∧
      ∀ r ∈ out.2, r.status = SmpSt.ok → WritingOrGone f (i + 1) out.1 := by
  unfold LocalFile.chunkCall at hc
  split_ifs at hc with hidx
  obtain rfl := Option.some.inj hc
  simp only [Call.payload, List.cons_append, List.nil_append]
  cases hs : d.sessionActive with
  | false =>
      rw [dispatchCommand_no_session other io _ _ _ _ d hs (by decide)]
      exact ⟨hd, id, by simp [sendErr, SmpSt.ok, SmpSt.errNoSession]⟩
  | true =>
      rw [dispatchCommand_uploadChunk other io _ _ _ d hs]
      obtain ⟨b, data, hdata⟩ := List.exists_cons_of_ne_nil (chunk_ne_nil f hi)
      have hnum : UInt16.ofNat ((UInt8.ofNat i).toNat ||| (UInt8.ofNat (i / 256)).toNat <<< 8) =
          UInt16.ofNat i := by
        rw [or_shift_two]
        exact congrArg UInt16.ofNat (leNat_leBytes (k := 2) hidx)
      simp only [leBytes, List.cons_append, List.nil_append, hdata, handleFsUploadChunk, hnum]
      have hgone : d.xfer.fp = none → WritingOrGone f i d ∧ WritingOrGone f (i + 1) d :=
        fun h => ⟨Or.inl h, Or.inl h⟩
      rcases hd with (hfp | hw) | (hfp | hw)
      · rw [hfp]
        exact ⟨Or.inl (hgone hfp).1, id, by simp [sendErr, SmpSt.ok, SmpSt.errTransfer]⟩
      · -- its turn: written now
        simp only [hw.fp, hw.isUpload, hw.id, hw.nextChunk, ne_eq, not_true, if_false]
        rw [← hdata]
        exact ⟨Or.inr (hw.write io ..), fun _ => hw.write io .., fun _ _ _ => hw.write io ..⟩
      · rw [hfp]
        exact ⟨Or.inl (hgone hfp).1, id, by simp [sendErr, SmpSt.ok, SmpSt.errTransfer]⟩
      · -- already written: acknowledged again, or refused where the counter wrapped
        simp only [hw.fp, hw.isUpload, hw.id, hw.nextChunk, ne_eq, not_true, if_false,
          uint16_ofNat_ne_succ, not_false_eq_true, if_true]
        split_ifs
        · exact ⟨Or.inr (Or.inr hw), id, fun _ _ _ => Or.inr hw⟩
        · have hdrop := dropTransfer_fp io d
          exact ⟨Or.inl (Or.inl hdrop), fun _ => Or.inl hdrop, fun _ _ _ => Or.inl hdrop⟩

theorem uploadEnd_spec {io : Io} (hio : lossless → io.lost = 0) (seq : UInt8) {d : Device}
    (hd : WritingOrGone f f.nChunks d) :
    ∀ r ∈ (dispatchCommand other io ((f.endCall 0).payload seq) d).2, r.status = SmpSt.ok →
      Stored f lossless (dispatchCommand other io ((f.endCall 0).payload seq) d).1 := by
  simp only [Call.payload, LocalFile.endCall, List.cons_append, List.nil_append]
  cases hs : d.sessionActive with
  | false =>
      rw [dispatchCommand_no_session other io _ _ _ _ d hs (by decide)]
      simp [sendErr, SmpSt.ok, SmpSt.errNoSession]
  | true =>
      rw [dispatchCommand_uploadEnd other io _ _ _ d hs]
      rcases hd with hfp | hw
      · simp [handleFsUploadEnd, SmpTransfer.active, hfp, sendErr, SmpSt.ok, SmpSt.errTransfer]
      · simp only [handleFsUploadEnd, SmpTransfer.active, hw.fp, hw.isUpload, hw.id, leBytes,
          Option.isSome_some, Bool.not_true, Bool.or_self, Bool.false_eq_true, if_false,
          ne_eq, not_true]
        split_ifs
        · exact fun _ _ _ => hw.stored hio
        · simp [sendErr, SmpSt.ok, SmpSt.errInvalid]

/-- Every OK reply in flight stands for `P` at the device. -/
def OkReplies (l : Link UploadPc) (P : Reply → Prop) : Prop :=
  ∀ r ∈ l.rep, isReply r → r.frame.status = SmpSt.ok → P r.frame

/-- What is known of the device at each point of the host program. -/
def UploadInv (f : LocalFile) (lossless : Prop) (l : Link UploadPc) : Prop :=
  match l.host.pc with
  | .earlier (_ :: _) => True
  | .earlier [] => OkReplies l fun r => WritingOrGone f 0 l.dev ∧ r.body = [0]
  | .chunk xferId idx =>
      xferId = 0 ∧ idx < f.nChunks ∧
        (WritingOrGone f idx l.dev ∨ WritingOrGone f (idx + 1) l.dev) ∧
        OkReplies l fun _ => WritingOrGone f (idx + 1) l.dev
  | .finish xferId =>
      xferId = 0 ∧ (l.host.attempt = 0 ∨ l.req ≠ [] → WritingOrGone f f.nChunks l.dev) ∧
        OkReplies l fun _ => Stored f lossless l.dev
  | .returned => Stored f lossless l.dev ∧ l.req = []
  | .raised => True

theorem OkReplies.of_subset {l l' : Link UploadPc} {P Q : Reply → Prop} (h : OkReplies l P)
    (hsub : ∀ r ∈ l'.rep, isReply r → r ∈ l.rep) (hPQ : ∀ r, P r → Q r) : OkReplies l' Q :=
  fun r hr hreal hok => hPQ _ (h r (hsub r hr hreal) hreal hok)

/-- Losing frames and closing the transfer keep what is known of the device. -/
theorem UploadInv.of_weaker {l l' : Link UploadPc} (h : UploadInv f lossless l)
    (hhost : l'.host = l.host) (hreq : l'.req.Sublist l.req)
    (hrep : ∀ r ∈ l'.rep, isReply r → r ∈ l.rep)
    (hgone : ∀ i, WritingOrGone f i l.dev → WritingOrGone f i l'.dev)
    (hstored : Stored f lossless l.dev → Stored f lossless l'.dev) :
    UploadInv f lossless l' := by
  unfold UploadInv at h ⊢
  rw [hhost]
  split <;> rename_i hpc <;> simp only [hpc] at h
  · trivial
  · exact h.of_subset hrep fun r hr => ⟨hgone 0 hr.1, hr.2⟩
  · obtain ⟨hid, hidx, hd, hok⟩ := h
    exact ⟨hid, hidx, hd.imp (hgone _) (hgone _), hok.of_subset hrep fun _ => hgone _⟩
  · obtain ⟨hid, hd, hok⟩ := h
    refine ⟨hid, ?_, hok.of_subset hrep fun _ => hstored⟩
    rintro (h0 | hne)
    · exact hgone _ (hd (Or.inl h0))
    · exact hgone _ (hd (Or.inr fun hnil => hne (List.sublist_nil.mp (hnil ▸ hreq))))
  · exact ⟨hstored h.1, List.sublist_nil.mp (h.2 ▸ hreq)⟩
  · trivial

theorem Stored.drop {d : Device} (h : Stored f lossless d) (io : Io) :
    Stored f lossless { d.dropTransfer io with sessionActive := false } := by
  rw [dropTransfer_of_none io h.fp]
  exact ⟨h.fp, h.crc32, h.writes, h.file⟩

theorem UploadInv.of_close {l : Link UploadPc} (h : UploadInv f lossless l) (io : Io)
    (rep : List (InFlight Reply)) (hrep : ∀ r ∈ rep, isReply r → r ∈ l.rep) :
    UploadInv f lossless
      { l with dev := { l.dev.dropTransfer io with sessionActive := false }, rep := rep } :=
  h.of_weaker rfl (List.Sublist.refl _) hrep (fun _ _ => Or.inl (dropTransfer_fp io l.dev))
    (fun hs => hs.drop io)

theorem UploadInv.chunkLoop {l : Link UploadPc} {idx : Nat} (hidx : idx ≤ f.nChunks)
    (hd : WritingOrGone f idx l.dev) (hrep : l.rep.filter isReply = [])
    (hpc : l.host.pc = chunkLoop f 0 idx) : UploadInv f lossless l := by
  have hnone : ∀ P, OkReplies l P := by
    intro P r hr hreal
    have : r ∈ l.rep.filter isReply := List.mem_filter.mpr ⟨hr, hreal⟩
    rw [hrep] at this
    exact absurd this (by simp)
  unfold UploadInv
  rw [hpc]
  unfold Serial.chunkLoop
  split_ifs with hlt
  · exact ⟨rfl, hlt, Or.inl hd, hnone _⟩
  · obtain rfl : idx = f.nChunks := by omega
    exact ⟨rfl, fun _ => hd, hnone _⟩

theorem UploadInv.accept {l : Link UploadPc} (h : UploadInv f lossless l) {r : InFlight Reply}
    {rep : List (InFlight Reply)} (hrep : l.rep = r :: rep) (hreal : isReply r = true)
    (hreq : l.req = []) (hrest : rep.filter isReply = []) :
    UploadInv f lossless
      { l with
        host :=
          { l.host with
            pc := (uploadFile f).resume l.host.pc r.frame.status r.frame.body
            attempt := 0
            mode := .sending }
        rep := rep } := by
  obtain ⟨⟨seq, pc, attempt, mode⟩, sent, req, rep', dev⟩ := l
  obtain rfl : rep' = r :: rep := hrep
  obtain rfl : req = [] := hreq
  have hmem : r ∈ r :: rep := by simp
  cases pc with
  | earlier calls =>
      cases calls with
      | cons c calls =>
          cases calls with
          | cons c' calls => trivial
          | nil =>
              intro r' hr' hreal'
              have : r' ∈ rep.filter isReply := List.mem_filter.mpr ⟨hr', hreal'⟩
              rw [hrest] at this
              exact absurd this (by simp)
      | nil =>
          simp only [uploadFile]
          by_cases hst : r.frame.status = SmpSt.ok
          · obtain ⟨hd, hbody⟩ := h r hmem hreal hst
            simp only [hst, ne_eq, not_true, if_false, hbody]
            exact UploadInv.chunkLoop (Nat.zero_le _) hd hrest rfl
          · simp only [ne_eq, hst, not_false_eq_true, if_true]
            trivial
  | chunk xferId idx =>
      obtain ⟨rfl, hidx, _, hok⟩ := h
      simp only [uploadFile]
      by_cases hst : r.frame.status = SmpSt.ok
      · simp only [hst, ne_eq, not_true, if_false]
        exact UploadInv.chunkLoop hidx (hok r hmem hreal hst) hrest rfl
      · simp only [ne_eq, hst, not_false_eq_true, if_true]
        trivial
  | finish xferId =>
      obtain ⟨rfl, _, hok⟩ := h
      simp only [uploadFile]
      by_cases hst : r.frame.status = SmpSt.ok
      · simp only [hst, ne_eq, not_true, if_false]
        exact ⟨hok r hmem hreal hst, rfl⟩
      · simp only [ne_eq, hst, not_false_eq_true, if_true]
        trivial
  | returned => exact ⟨h.1, rfl⟩
  | raised => trivial

theorem beginCall_retries {c : Call} (hc : f.beginCall = some c) : c.retries = 0 := by
  unfold LocalFile.beginCall at hc
  split_ifs at hc
  exact (Option.some.inj hc) ▸ rfl

theorem okReplies_of_filter {l : Link UploadPc} (h : l.rep.filter isReply = [])
    (P : Reply → Prop) : OkReplies l P := by
  intro r hr hreal
  have : r ∈ l.rep.filter isReply := List.mem_filter.mpr ⟨hr, hreal⟩
  rw [h] at this
  exact absurd this (by simp)

theorem OkReplies.answer {l l' : Link UploadPc} {P : Reply → Prop} {tag : Nat}
    {replies : List Reply} (h : OkReplies l P) (hrep : l'.rep = l.rep ++ replies.map (⟨tag, ·⟩))
    (hans : ∀ r ∈ replies, r.status = SmpSt.ok → P r) : OkReplies l' P := by
  intro r hr hreal hok
  rw [hrep] at hr
  rcases List.mem_append.mp hr with hr | hr
  · exact h r hr hreal hok
  · obtain ⟨r', hr', rfl⟩ := List.mem_map.mp hr
    exact hans r' hr' hok

theorem UploadInv.devRecv {l : Link UploadPc} (h : UploadInv f lossless l)
    (hl : l.Inv (uploadFile f)) {io : Io} (hio : lossless → io.lost = 0) :
    UploadInv f lossless (Serial.devRecv other io l) := by
  unfold Serial.devRecv
  split
  · exact h
  · rename_i tag payload req hreq
    have hsub : req.Sublist l.req := by rw [hreq]; exact List.sublist_cons_self _ _
    split_ifs with hbig
    · exact h.of_weaker rfl hsub (fun r hr _ => hr) (fun _ => id) id
    · obtain ⟨c, hc, hpay⟩ := hl.req_call ⟨tag, payload⟩ (by simp [hreq])
      obtain rfl : payload = c.payload (seqOf tag) := hpay
      unfold UploadInv at h ⊢
      simp only
      split <;> rename_i hpc <;> simp only [hpc] at h
      · trivial
      · -- UPLOAD_BEGIN is sent once, so no reply to it is on its way yet
        have hcall : f.beginCall = some c := by rw [hpc] at hc; exact hc
        obtain ⟨_, hrep, _⟩ := hl.single hc (beginCall_retries hcall) hreq
        refine (okReplies_of_filter hrep _).answer rfl fun r hr hok => ?_
        obtain ⟨hw, hbody⟩ := uploadBegin_spec hcall io _ l.dev r hr hok
        exact ⟨Or.inr hw, hbody⟩
      · obtain ⟨rfl, hidx, hd, hok⟩ := h
        rw [hpc] at hc
        obtain ⟨hd', hkeep, hans⟩ :=
          uploadChunk_spec hidx hc io (seqOf tag) hd
        refine ⟨rfl, hidx, hd', OkReplies.answer (l := l) ?_ rfl hans⟩
        -- an acknowledged chunk stays acknowledged
        exact fun r hr hreal hst => hkeep (hok r hr hreal hst)
      · obtain ⟨rfl, hd, hok⟩ := h
        have hcall : c = f.endCall 0 := by
          rw [hpc] at hc
          exact (Option.some.inj hc).symm
        obtain ⟨hnil, hrep, hone⟩ := hl.single hc (by rw [hcall]; rfl) hreq
        refine ⟨rfl, ?_, (okReplies_of_filter hrep _).answer rfl ?_⟩
        · rintro (h0 | hne)
          · omega
          · exact absurd hnil hne
        · subst hcall
          exact uploadEnd_spec hio _ (hd (Or.inr (by simp [hreq])))
      · exact absurd h.2 (by simp [hreq])
      · trivial

/-- The host sends its next attempt; UPLOAD_END goes out once, so the device
is still waiting for it. -/
theorem UploadInv.send {l : Link UploadPc} (h : UploadInv f lossless l)
    (hl : l.Inv (uploadFile f)) :
    UploadInv f lossless (linkStep (uploadFile f) other l .send).1 := by
  obtain ⟨⟨seq, pc, attempt, mode⟩, sent, req, rep, dev⟩ := l
  simp only [linkStep, hostSend]
  cases mode with
  | waiting s => exact h
  | raised => exact h
  | sending =>
      cases hc : (uploadFile f).call pc with
      | none => exact h
      | some c =>
          cases pc with
          | earlier calls =>
              cases calls with
              | nil => exact h
              | cons c' calls => trivial
          | chunk xferId idx => exact h
          | finish xferId =>
              obtain ⟨hid, hd, hok⟩ := h
              obtain rfl := Option.some.inj hc
              have hfirst : attempt ≤ 0 := hl.sending rfl _ hc
              exact ⟨hid, fun _ => hd (Or.inl (Nat.le_zero.mp hfirst)), hok⟩
          | returned => exact absurd hc (by simp [uploadFile])
          | raised => trivial

theorem UploadInv.hostTimeout {l : Link UploadPc} (h : UploadInv f lossless l) :
    UploadInv f lossless (linkStep (uploadFile f) other l .hostTimeout).1 := by
  have hhost : (Serial.hostTimeout (uploadFile f) l.host).pc = l.host.pc ∧
      (Serial.hostTimeout (uploadFile f) l.host).attempt = l.host.attempt := by
    unfold Serial.hostTimeout
    split
    · split_ifs <;> exact ⟨rfl, rfl⟩
    · exact ⟨rfl, rfl⟩
  unfold UploadInv at h ⊢
  simp only [linkStep, hhost.1, hhost.2]
  exact h

/-- The flush loss a step of the link brings along. -/
def LinkIn.lost : LinkIn → Nat
  | .devRecv io | .devTimeout io | .devBack io => io.lost
  | _ => 0

theorem UploadInv.step {l : Link UploadPc} (hl : l.Inv (uploadFile f))
    (h : UploadInv f lossless l) (a : LinkIn) (ha : lossless → a.lost = 0) :
    UploadInv f lossless (linkStep (uploadFile f) other l a).1 := by
  have hkeep : ∀ r ∈ l.rep, isReply r → r ∈ l.rep := fun r hr _ => hr
  cases a with
  | send => exact h.send hl
  | hostTimeout => exact h.hostTimeout
  | hostRecv =>
      simp only [linkStep]
      split
      · rename_i s r rep hmode hrep
        have hsub : ∀ r' ∈ rep, isReply r' → r' ∈ l.rep := by
          intro r' hr' _
          rw [hrep]
          exact List.mem_cons_of_mem _ hr'
        simp only [hostRecv, hmode]
        split_ifs with hev hseq
        · exact h.of_weaker rfl (List.Sublist.refl _) hsub (fun _ => id) id
        · obtain ⟨_, hreq, hrest⟩ := hl.accept hmode hrep hev hseq
          exact h.accept hrep (isReply_iff.mpr hev) hreq hrest
        · exact h.of_weaker rfl (List.Sublist.refl _) hsub (fun _ => id) id
      · exact h
  | devRecv io => exact h.devRecv hl ha
  | devTimeout io => exact h.of_close io l.rep hkeep
  | devBack io =>
      simp only [linkStep, handleActionBack]
      split_ifs
      · refine h.of_close io _ fun r hr hreal => ?_
        rcases List.mem_append.mp hr with hr | hr
        · exact hr
        · obtain rfl := List.mem_singleton.mp hr
          exact absurd rfl (isReply_iff.mp hreal)
      · exact h.of_weaker rfl (List.Sublist.refl _) (by simpa using hkeep) (fun _ => id) id
  | loseReq i =>
      exact h.of_weaker rfl (List.eraseIdx_sublist ..) hkeep (fun _ => id) id
  | loseRep i =>
      exact h.of_weaker rfl (List.Sublist.refl _)
        (fun r hr _ => (List.eraseIdx_sublist ..).subset hr) (fun _ => id) id

end Upload

/-- A session just opened: `_seq` is zero and nothing is in flight. -/
def openedLink (earlier : List Call) (d : Device) : Link UploadPc where
  host := ⟨0, .earlier earlier, 0, .sending⟩
  sent := 0
  req := []
  rep := []
  dev := d

theorem openedLink_inv (f : LocalFile) (earlier : List Call) (d : Device) :
    (openedLink earlier d).Inv (uploadFile f) where
  seq_eq := rfl
  attempt_le := fun _ _ => Nat.zero_le _
  attempt_zero := fun _ => rfl
  req_call := by simp [openedLink]
  rep_seq := by simp [openedLink]
  window := by simp [openedLink, Link.tags]
  sorted := by simp [openedLink, Link.tags]
  sending := fun _ _ _ => Nat.zero_le _
  waiting := by simp [openedLink]

theorem openedLink_uploadInv (f : LocalFile) (lossless : Prop) (earlier : List Call)
    (d : Device) : UploadInv f lossless (openedLink earlier d) := by
  cases earlier with
  | nil => exact fun r hr => absurd hr (by simp [openedLink])
  | cons c calls => trivial

/-- The run rule for uploads: both invariants after any pattern of losses,
delays, retries and closed sessions. -/
theorem openedLink_run (f : LocalFile) (other : OtherHandlers) {lossless : Prop}
    (earlier : List Call) (d : Device) {as : List LinkIn}
    (has : ∀ a ∈ as, lossless → a.lost = 0) :
    (Machine.run (linkStep (uploadFile f) other) (openedLink earlier d) as).Inv (uploadFile f) ∧
      UploadInv f lossless
        (Machine.run (linkStep (uploadFile f) other) (openedLink earlier d) as) := by
  suffices hgen : ∀ l : Link UploadPc, l.Inv (uploadFile f) → UploadInv f lossless l →
      (Machine.run (linkStep (uploadFile f) other) l as).Inv (uploadFile f) ∧
        UploadInv f lossless (Machine.run (linkStep (uploadFile f) other) l as) from
    hgen _ (openedLink_inv f earlier d) (openedLink_uploadInv f lossless earlier d)
  induction as with
  | nil => exact fun l hl h => ⟨hl, h⟩
  | cons a as ih =>
      intro l hl h
      exact ih (fun a' ha' => has a' (by simp [ha'])) _ (hl.step a)
        (h.step hl a (has a (by simp)))

/-- Whatever is lost or late, when `upload_file` returns the device has written
every chunk of the local file once and in order, its CRC-32 is the host's, and
the file holds the local bytes if no flush failed.  No stale reply is ever taken
for the reply to a later command. -/
theorem uploadFile_safe (f : LocalFile) (other : OtherHandlers) (earlier : List Call)
    (d : Device) (as : List LinkIn) :
    let l := Machine.run (linkStep (uploadFile f) other) (openedLink earlier d) as
    (l.host.pc = .returned →
      l.dev.xfer.writes = (List.range f.nChunks).map f.chunk ∧
        l.dev.xfer.writes.flatten = f.data ∧
        ~~~l.dev.xfer.crc32 = zlibCrc32 f.data ∧
        ((∀ a ∈ as, a.lost = 0) → l.dev.files f.path = some f.data)) ∧
      ∀ acc ∈ Machine.outputs (linkStep (uploadFile f) other) (openedLink earlier d) as,
        acc.answers = acc.current := by
  intro l
  refine ⟨fun hret => ?_, linkStep_accepted (openedLink_inv f earlier d) as⟩
  have hrun := (openedLink_run f other earlier d
    (fun a ha (hlossless : ∀ a ∈ as, a.lost = 0) => hlossless a ha)).2
  unfold UploadInv at hrun
  rw [hret] at hrun
  obtain ⟨hstored, _⟩ := hrun
  refine ⟨hstored.writes, ?_, ?_, hstored.file⟩
  · rw [hstored.writes, chunks_flatten, take_nChunks]
  · rw [hstored.crc32]
    rfl

/-- Four bytes to `/sd`'s `/sd/a`; the first acknowledgement of the chunk is
lost, the second one arrives late. -/
def exampleFile : LocalFile where
  data := [0x6A, 0x70, 0x70, 0x21]
  remotePath := [0x2F, 0x73, 0x64, 0x2F, 0x61]

def idleDevice : Device where
  sessionActive := true
  xfer := ⟨none, 0, 0, 0, 0, 0, false, []⟩
  files := fun _ => none

/-- Everything on the device side goes well. -/
def ioOk : Io := ⟨false, true, true, 0, 0⟩

def exampleRun : List LinkIn :=
  [.send, .devRecv ioOk, .hostRecv, .send, .devRecv ioOk, .loseRep 0, .hostTimeout, .send,
    .hostTimeout, .send, .devRecv ioOk, .devRecv ioOk, .hostRecv, .hostRecv, .send,
    .devRecv ioOk, .hostRecv]

theorem uploadFile_safe_exampleRun :
    let l := Machine.run (linkStep (uploadFile exampleFile) fun _ _ d => (d, 0, []))
      (openedLink [] idleDevice) exampleRun
    l.dev.xfer.writes = [[0x6A, 0x70, 0x70, 0x21]] ∧
      l.dev.files exampleFile.path = some [0x6A, 0x70, 0x70, 0x21] := by
  have h := (uploadFile_safe exampleFile (fun _ _ d => (d, 0, [])) [] idleDevice exampleRun).1
    (by decide +kernel)
  exact ⟨h.1, h.2.2.2 (by decide)⟩

end Serial
end JppDos
