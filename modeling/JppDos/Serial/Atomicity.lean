import JppDos.Serial.Upload

/-!
# Upload atomicity

One upload on the device: an accepted UPLOAD_BEGIN, then any frames, session
timeouts and user actions until the transfer slot is free again.  BEGIN opens
the target with `"wb"`, so the old content is gone at once, and END compares the
CRC of what arrived but not its length with the announced one.

Main fact:
* `upload_atomic_iff`: when an upload is all or nothing.
-/

namespace JppDos
namespace Serial

open CText Crc LittleEndian

/-- The surroundings of one input. -/
def DeviceIn.io : DeviceIn → Io
  | .frame _ io | .timeout io | .userBack io => io

/-- The `file_size` field of a BEGIN body. -/
def announcedSize (body : List UInt8) : UInt32 := UInt32.ofNat (leNat (body.take 4))

/-- The path of a BEGIN body. -/
def announcedPath (body : List UInt8) : Path := cString (body.drop 4)

/-- The `crc32` field of an END body. -/
def announcedCrc (body : List UInt8) : UInt32 := UInt32.ofNat (leNat ((body.drop 1).take 4))

/-- The data of a chunk frame that comes in its turn, cut where `fwrite`
stopped. -/
def takenBy (next : UInt16) : DeviceIn → Option (List UInt8)
  | .frame (_ :: cmd :: _ :: id :: idx0 :: idx1 :: b :: data) io =>
      if cmd = SmpCmd.fsUploadChunk ∧ id = 0 ∧ UInt16.ofNat (leNat [idx0, idx1]) = next then
        some ((b :: data).take ((b :: data).length - io.short))
      else none
  | _ => none

/-- The file data in a sequence of inputs. -/
def receivedFrom : UInt16 → List DeviceIn → List UInt8
  | _, [] => []
  | next, a :: ins =>
      match takenBy next a with
      | some bytes => bytes ++ receivedFrom (next + 1) ins
      | none => receivedFrom next ins

/-- The part of the data that is on the card after the file was closed. -/
def keptBytes (received : List UInt8) (io : Io) : List UInt8 :=
  received.take (received.length - io.lost)

/-- The input is an UPLOAD_END whose CRC is the one of the received data. -/
def IsMatchingEnd (received : List UInt8) : DeviceIn → Prop
  | .frame (_ :: cmd :: _ :: body) _ =>
      cmd = SmpCmd.fsUploadEnd ∧ 5 ≤ body.length ∧ body.head? = some 0 ∧
        announcedCrc body = zlibCrc32 received
  | _ => False

/-- The input is an UPLOAD_END announcing `crc`, and it is answered with OK. -/
def EndAcknowledged (other : OtherHandlers) (d : Device) (crc : UInt32) : DeviceIn → Prop
  | .frame (seq :: cmd :: flags :: body) io =>
      cmd = SmpCmd.fsUploadEnd ∧ announcedCrc body = crc ∧
        (deviceStep other d (.frame (seq :: cmd :: flags :: body) io)).2 = sendErr seq SmpSt.ok
  | _ => False

/-- The input leaves an upload to `path` alone unless it is one of the modelled
commands: no other command changes the session, the slot or the file. -/
def Spares (other : OtherHandlers) (path : Path) : DeviceIn → Prop
  | .frame (_ :: cmd :: _ :: body) _ =>
      ∀ d, (other cmd body d).1.sessionActive = d.sessionActive ∧
        (other cmd body d).1.xfer = d.xfer ∧ (other cmd body d).1.files path = d.files path
  | _ => True

/-- One upload: the device before it, the BEGIN frame, and the inputs after it,
the last of which ends the transfer. -/
structure UploadRun where
  before : Device
  seq : UInt8
  flags : UInt8
  body : List UInt8
  io : Io
  ins : List DeviceIn
  last : DeviceIn

namespace UploadRun

variable (other : OtherHandlers) (u : UploadRun)

/-- The BEGIN frame. -/
def begin : DeviceIn := .frame (u.seq :: SmpCmd.fsUploadBegin :: u.flags :: u.body) u.io

def begun : Device := (deviceStep other u.before u.begin).1

/-- The device before the last input. -/
def atLast : Device := Machine.run (deviceStep other) (u.begun other) u.ins

/-- The device after the last input. -/
def after : Device := (deviceStep other (u.atLast other) u.last).1

def path : Path := announcedPath u.body

def received : List UInt8 := receivedFrom 0 (u.ins ++ [u.last])

def kept : List UInt8 := keptBytes u.received u.last.io

/-- BEGIN was accepted, the transfer was open at every later input, and the last
one ended it. -/
structure Complete : Prop where
  accepted : (deviceStep other u.before u.begin).2 = [⟨u.seq, SmpSt.ok, [0x00]⟩]
  opened : Machine.Along (deviceStep other) (fun d _ => d.xfer.fp ≠ none) (u.begun other) u.ins
  openedLast : (u.atLast other).xfer.fp ≠ none
  closed : (u.after other).xfer.fp = none
  spares : ∀ a ∈ u.ins ++ [u.last], Spares other u.path a

/-- All or nothing: an OK to UPLOAD_END means a file of the announced size and
CRC, any other end means the file is what it was. -/
def Atomic : Prop :=
  (∀ crc, EndAcknowledged other (u.atLast other) crc u.last →
    ∃ content, (u.after other).files u.path = some content ∧
      content.length = (announcedSize u.body).toNat ∧ zlibCrc32 content = crc) ∧
  ((∀ crc, ¬ EndAcknowledged other (u.atLast other) crc u.last) →
    (u.after other).files u.path = u.before.files u.path)

/-- Where the upload was all or nothing: its data, as far as it is on the card,
has the announced size and the CRC of what was received; or the file had just
that content before. -/
def NothingAmiss : Prop :=
  (IsMatchingEnd u.received u.last →
    u.kept.length = (announcedSize u.body).toNat ∧ zlibCrc32 u.kept = zlibCrc32 u.received) ∧
  (¬ IsMatchingEnd u.received u.last → u.before.files u.path = some u.kept)

end UploadRun

section Step

variable {other : OtherHandlers}

/-- An open upload to `path`: `data` is what the chunks brought so far. -/
structure Uploading (path : Path) (next : UInt16) (data : List UInt8) (d : Device) :
    Prop where
  session : d.sessionActive = true
  fp : d.xfer.fp = some path
  isUpload : d.xfer.isUpload = true
  id : d.xfer.id = 0
  nextChunk : d.xfer.nextChunk = next
  crc32 : d.xfer.crc32 = crc32Buf 0xFFFFFFFF data
  file : d.files path = some data

/-- The transfer is closed, with `data` received and flushed to the file. -/
def Closed (path : Path) (data : List UInt8) (io : Io) (d : Device) : Prop :=
  d.xfer.fp = none ∧ d.files path = some (keptBytes data io)

/-- A closed transfer leaves in the file what was on the card. -/
theorem dropTransfer_closed {path : Path} {data : List UInt8} {d : Device} (io : Io)
    (hfp : d.xfer.fp = some path) (hup : d.xfer.isUpload = true)
    (hfile : d.files path = some data) : Closed path data io (d.dropTransfer io) := by
  rw [dropTransfer_of_some io hfp hup]
  exact ⟨rfl, by simp [Files.flush, hfile, keptBytes]⟩

theorem Uploading.drop {path : Path} {next : UInt16} {data : List UInt8} {d : Device}
    (h : Uploading path next data d) (io : Io) : Closed path data io (d.dropTransfer io) :=
  dropTransfer_closed io h.fp h.isUpload h.file

/-- `fwrite` of a chunk in its turn, whole or cut short. -/
theorem Uploading.write {path : Path} {next : UInt16} {data : List UInt8} {d : Device}
    (h : Uploading path next data d) (io : Io) (seq idx0 idx1 : UInt8) (chunk : List UInt8) :
    let d' := (writeChunk io seq idx0 idx1 chunk path d).1
    let data' := data ++ chunk.take (chunk.length - io.short)
    Uploading path (next + 1) data' d' ∨ Closed path data' io d' := by
  simp only [writeChunk]
  split_ifs with hshort
  · right
    exact dropTransfer_closed io h.fp h.isUpload (by simp [Files.append, h.file])
  · left
    have htook : chunk.take (chunk.length - io.short) = chunk := by
      apply List.take_of_length_le
      have := not_not.mp hshort
      rw [List.length_take] at this
      omega
    simp only [htook]
    refine ⟨h.session, h.fp, h.isUpload, h.id, ?_, ?_, ?_⟩
    · simp [h.nextChunk]
    · simp [h.crc32, crc32Buf_append]
    · simp [Files.append, h.file]

theorem takenBy_of_ne_chunk {seq cmd flags : UInt8} {body : List UInt8} {io : Io}
    (next : UInt16) (h : cmd ≠ SmpCmd.fsUploadChunk) :
    takenBy next (.frame (seq :: cmd :: flags :: body) io) = none := by
  unfold takenBy
  split
  · rename_i heq
    obtain ⟨hpay, _⟩ := DeviceIn.frame.inj heq
    simp only [List.cons.injEq] at hpay
    rw [if_neg]
    rintro ⟨hcmd, _⟩
    exact h (hpay.2.1.trans hcmd)
  · rfl

theorem Uploading.chunk {path : Path} {next : UInt16} {data : List UInt8} {d : Device}
    (h : Uploading path next data d) (seq flags : UInt8) (body : List UInt8) (io : Io) :
    let d' := (handleFsUploadChunk io seq body d).1
    let a : DeviceIn := .frame (seq :: SmpCmd.fsUploadChunk :: flags :: body) io
    (takenBy next a = none → Uploading path next data d' ∨ Closed path data io d') ∧
      ∀ bytes, takenBy next a = some bytes →
        Uploading path (next + 1) (data ++ bytes) d' ∨ Closed path (data ++ bytes) io d' := by
  simp only [handleFsUploadChunk, h.fp, h.isUpload]
  split
  · rename_i id idx0 idx1 b bytes
    simp only [h.id, h.nextChunk, or_shift_two, takenBy, true_and]
    by_cases hid : id = 0
    swap
    · simp only [hid, ne_eq, not_false_eq_true, if_true, false_and, if_false, reduceCtorEq,
        false_implies, implies_true, and_true]
      exact fun _ => Or.inl h
    by_cases hidx : UInt16.ofNat (leNat [idx0, idx1]) = next
    swap
    · -- out of turn: a repeated chunk is acknowledged, any other ends the transfer
      simp only [hid, hidx, ne_eq, not_false_eq_true, not_true, if_true, and_false, if_false,
        reduceCtorEq, false_implies, implies_true, and_true]
      intro _
      split_ifs
      · exact Or.inl h
      · exact Or.inr (h.drop io)
    · simp only [hid, hidx, ne_eq, not_true, if_false, true_and, if_true, reduceCtorEq,
        false_implies, Option.some.injEq, forall_eq']
      exact h.write io seq idx0 idx1 (b :: bytes)
  · rename_i hshape
    have hnone : takenBy next (.frame (seq :: SmpCmd.fsUploadChunk :: flags :: body) io) =
        none := by
      unfold takenBy
      split
      · rename_i heq
        obtain ⟨hpay, _⟩ := DeviceIn.frame.inj heq
        simp only [List.cons.injEq] at hpay
        exact absurd hpay.2.2.2 (hshape _ _ _ _ _)
      · rfl
    rw [hnone]
    exact ⟨fun _ => Or.inl h, by simp⟩

/-- An END frame at an open upload closes it or is refused. -/
theorem Uploading.finish {path : Path} {next : UInt16} {data : List UInt8} {d : Device}
    (h : Uploading path next data d) (seq : UInt8) (body : List UInt8) (io : Io) :
    (Uploading path next data (handleFsUploadEnd io seq body d).1 ∨
        Closed path data io (handleFsUploadEnd io seq body d).1) ∧
      ((handleFsUploadEnd io seq body d).2 = sendErr seq SmpSt.ok ↔
        5 ≤ body.length ∧ body.head? = some 0 ∧ announcedCrc body = zlibCrc32 data) := by
  simp only [handleFsUploadEnd, SmpTransfer.active, h.fp, h.isUpload, Option.isSome_some,
    Bool.not_true, Bool.or_self, Bool.false_eq_true, if_false]
  split
  · rename_i id b0 b1 b2 b3 rest
    simp only [h.id, h.crc32, or_shift_four]
    have hcrc : announcedCrc (id :: b0 :: b1 :: b2 :: b3 :: rest) =
        UInt32.ofNat (leNat [b0, b1, b2, b3]) := rfl
    have hzlib : zlibCrc32 data = ~~~crc32Buf 0xFFFFFFFF data := rfl
    rw [hcrc, hzlib]
    by_cases hid : id = 0
    · simp only [hid, ne_eq, not_true, if_false]
      split_ifs with heq
      · exact ⟨Or.inr (h.drop io), by simp [heq]⟩
      · exact ⟨Or.inr (h.drop io), by simp [sendErr, SmpSt.ok, SmpSt.errInvalid, heq]⟩
    · simp only [hid, ne_eq, not_false_eq_true, if_true]
      exact ⟨Or.inl h, by simp [sendErr, SmpSt.ok, SmpSt.errTransfer, hid]⟩
  · rename_i hshape
    refine ⟨Or.inl h, ?_⟩
    have hlen : ¬ 5 ≤ body.length := by
      intro hlen
      rcases body with _ | ⟨id, _ | ⟨b0, _ | ⟨b1, _ | ⟨b2, _ | ⟨b3, rest⟩⟩⟩⟩⟩
      case cons.cons.cons.cons.cons => exact hshape _ _ _ _ _ _ rfl
      all_goals simp at hlen
    simp [sendErr, SmpSt.ok, SmpSt.errInvalid, hlen]

/-- One input at an open upload: it goes on, or the transfer is closed. -/
theorem Uploading.step {path : Path} {next : UInt16} {data : List UInt8} {d : Device}
    (h : Uploading path next data d) {a : DeviceIn} (ha : Spares other path a) :
    let d' := (deviceStep other d a).1
    (takenBy next a = none → Uploading path next data d' ∨ Closed path data a.io d') ∧
      ∀ bytes, takenBy next a = some bytes →
        Uploading path (next + 1) (data ++ bytes) d' ∨ Closed path (data ++ bytes) a.io d' := by
  cases a with
  | timeout io => exact ⟨fun _ => Or.inr (h.drop io), by simp [takenBy]⟩
  | userBack io =>
      refine ⟨fun _ => Or.inr ?_, by simp [takenBy]⟩
      simp only [deviceStep, handleActionBack, h.session, if_true]
      exact h.drop io
  | frame payload io =>
      rcases payload with _ | ⟨seq, _ | ⟨cmd, _ | ⟨flags, body⟩⟩⟩
      case nil => exact ⟨fun _ => Or.inl h, by simp [takenBy]⟩
      case cons.nil => exact ⟨fun _ => Or.inl h, by simp [takenBy]⟩
      case cons.cons.nil => exact ⟨fun _ => Or.inl h, by simp [takenBy]⟩
      case cons.cons.cons =>
          by_cases hchunk : cmd = SmpCmd.fsUploadChunk
          · subst hchunk
            simp only [deviceStep, dispatchCommand_uploadChunk other io _ _ _ d h.session]
            exact h.chunk seq flags body io
          · rw [takenBy_of_ne_chunk next hchunk]
            refine ⟨fun _ => ?_, by simp⟩
            simp only [deviceStep, dispatchCommand, h.session, Bool.not_true, Bool.false_and,
              Bool.false_eq_true, if_false, hchunk, DeviceIn.io]
            have hactive : d.xfer.active = true := by simp [SmpTransfer.active, h.fp]
            split_ifs
            · exact Or.inl (by simpa [handleSessionStart, h.session] using h)
            · exact Or.inr (h.drop io)
            · exact Or.inl h
            · exact Or.inl (by simpa [handleFsUploadBegin, hactive] using h)
            · exact (h.finish seq body io).1
            · exact Or.inl (by simpa [handleFsDlBegin, hactive] using h)
            · exact Or.inl (by simpa [handleFsDlChunk, h.fp, h.isUpload] using h)
            · exact Or.inl (by simpa [handleFsDlEnd, h.isUpload] using h)
            · obtain ⟨hsession, hxfer, hfile⟩ := ha d
              exact Or.inl ⟨hsession.trans h.session, by rw [hxfer]; exact h.fp,
                by rw [hxfer]; exact h.isUpload, by rw [hxfer]; exact h.id,
                by rw [hxfer]; exact h.nextChunk, by rw [hxfer]; exact h.crc32,
                hfile.trans h.file⟩

theorem Uploading.run {path : Path} {ins : List DeviceIn} :
    ∀ {next : UInt16} {data : List UInt8} {d : Device}, Uploading path next data d →
      (∀ a ∈ ins, Spares other path a) →
      Machine.Along (deviceStep other) (fun d _ => d.xfer.fp ≠ none) d ins →
      (Machine.run (deviceStep other) d ins).xfer.fp ≠ none →
      ∃ next', Uploading path next' (data ++ receivedFrom next ins)
          (Machine.run (deviceStep other) d ins) ∧
        ∀ more, receivedFrom next (ins ++ more) =
          receivedFrom next ins ++ receivedFrom next' more := by
  induction ins with
  | nil =>
      exact fun {next} _ _ h _ _ _ =>
        ⟨next, by simpa [receivedFrom] using h, by simp [receivedFrom]⟩
  | cons a ins ih =>
      intro next data d h hspares halong hend
      obtain ⟨hnone, hsome⟩ := h.step (hspares a (by simp))
      -- a closed transfer would be open at the next input
      have hopen : (deviceStep other d a).1.xfer.fp ≠ none := by
        cases ins with
        | nil => exact hend
        | cons a' ins => exact halong.2.1
      have hspares' : ∀ a' ∈ ins, Spares other path a' := fun a' ha' => hspares a' (by simp [ha'])
      cases htaken : takenBy next a with
      | none =>
          have h' := (hnone htaken).resolve_right fun hc => hopen hc.1
          obtain ⟨next', hrun, hmore⟩ := ih h' hspares' halong.2 hend
          exact ⟨next', by simpa [receivedFrom, htaken] using hrun,
            fun more => by simpa [receivedFrom, htaken] using hmore more⟩
      | some bytes =>
          have h' := (hsome bytes htaken).resolve_right fun hc => hopen hc.1
          obtain ⟨next', hrun, hmore⟩ := ih h' hspares' halong.2 hend
          exact ⟨next', by simpa [receivedFrom, htaken] using hrun,
            fun more => by simp [receivedFrom, htaken, hmore more]⟩

/-- An accepted BEGIN opens an empty upload to the announced path. -/
theorem uploading_begin {d : Device} {seq flags : UInt8} {body : List UInt8} {io : Io}
    (h : (deviceStep other d (.frame (seq :: SmpCmd.fsUploadBegin :: flags :: body) io)).2 =
      [⟨seq, SmpSt.ok, [0x00]⟩]) :
    Uploading (announcedPath body) 0 []
      (deviceStep other d (.frame (seq :: SmpCmd.fsUploadBegin :: flags :: body) io)).1 := by
  cases hs : d.sessionActive with
  | false =>
      simp only [deviceStep, dispatchCommand_no_session other io _ _ _ _ d hs
        (by decide : SmpCmd.fsUploadBegin ≠ SmpCmd.sessionStart)] at h
      simp [sendErr] at h
  | true =>
      simp only [deviceStep, dispatchCommand_uploadBegin other io _ _ _ d hs] at h ⊢
      unfold handleFsUploadBegin at h ⊢
      split at h
      · simp [sendErr] at h
      rename_i hactive
      rw [if_neg hactive]
      split at h
      · rename_i b0 b1 b2 b3 b area
        simp only at h ⊢
        split_ifs at h with hpath hopens
        · simp [sendErr] at h
        · simp [sendErr] at h
        · rw [if_neg hpath, if_neg hopens]
          refine ⟨hs, rfl, rfl, rfl, rfl, rfl, ?_⟩
          simp [announcedPath]
      · simp [sendErr] at h

/-- END is acknowledged exactly when its CRC is the one of the data. -/
theorem Uploading.acknowledged_iff {path : Path} {next : UInt16} {data : List UInt8}
    {d : Device} (h : Uploading path next data d) (crc : UInt32) (a : DeviceIn) :
    EndAcknowledged other d crc a ↔ IsMatchingEnd data a ∧ crc = zlibCrc32 data := by
  match a with
  | .timeout _ | .userBack _ | .frame [] _ | .frame [_] _ | .frame [_, _] _ =>
      simp [EndAcknowledged, IsMatchingEnd]
  | .frame (seq :: cmd :: flags :: body) io =>
      simp only [EndAcknowledged, IsMatchingEnd, deviceStep]
      constructor
      · rintro ⟨rfl, rfl, hok⟩
        rw [dispatchCommand_uploadEnd other io _ _ _ d h.session] at hok
        obtain ⟨hlen, hid, hcrc⟩ := (h.finish seq body io).2.mp hok
        exact ⟨⟨rfl, hlen, hid, hcrc⟩, hcrc⟩
      · rintro ⟨⟨rfl, hlen, hid, hcrc⟩, rfl⟩
        refine ⟨rfl, hcrc, ?_⟩
        rw [dispatchCommand_uploadEnd other io _ _ _ d h.session]
        exact (h.finish seq body io).2.mpr ⟨hlen, hid, hcrc⟩

theorem takenBy_of_matchingEnd {data : List UInt8} {a : DeviceIn} (h : IsMatchingEnd data a)
    (next : UInt16) : takenBy next a = none := by
  match a, h with
  | .frame (seq :: cmd :: flags :: body) io, h =>
      refine takenBy_of_ne_chunk next ?_
      rw [h.1]
      decide

end Step

section Whole

variable {other : OtherHandlers} {u : UploadRun}

/-- The state of a complete upload when its last input comes. -/
theorem UploadRun.Complete.uploading (h : u.Complete other) :
    ∃ next, Uploading u.path next (receivedFrom 0 u.ins) (u.atLast other) ∧
      u.received = receivedFrom 0 u.ins ++ receivedFrom next [u.last] := by
  obtain ⟨next, hrun, hmore⟩ := (uploading_begin h.accepted).run
    (fun a ha => h.spares a (by simp [ha])) h.opened h.openedLast
  exact ⟨next, hrun, hmore [u.last]⟩

/-- Whatever ends the upload, the file is what the chunks brought to the card. -/
theorem upload_file_after (h : u.Complete other) :
    (u.after other).files u.path = some u.kept := by
  obtain ⟨next, hup, hrec⟩ := h.uploading
  obtain ⟨hnone, hsome⟩ := hup.step (h.spares u.last (by simp))
  have hclosed : (deviceStep other (u.atLast other) u.last).1.xfer.fp = none := h.closed
  unfold UploadRun.kept UploadRun.after
  rw [hrec]
  cases htaken : takenBy next u.last with
  | none =>
      have hc := (hnone htaken).resolve_left fun h' => by simp [h'.fp] at hclosed
      simpa [receivedFrom, htaken] using hc.2
  | some bytes =>
      have hc := (hsome bytes htaken).resolve_left fun h' => by simp [h'.fp] at hclosed
      simpa [receivedFrom, htaken] using hc.2

theorem upload_acknowledged_iff (h : u.Complete other) (crc : UInt32) :
    EndAcknowledged other (u.atLast other) crc u.last ↔
      IsMatchingEnd u.received u.last ∧ crc = zlibCrc32 u.received := by
  obtain ⟨next, hup, hrec⟩ := h.uploading
  rw [hup.acknowledged_iff crc u.last]
  cases htaken : takenBy next u.last with
  | none =>
      have : u.received = receivedFrom 0 u.ins := by simpa [receivedFrom, htaken] using hrec
      rw [this]
  | some bytes =>
      -- a chunk frame is no END
      have hno : ∀ data, ¬ IsMatchingEnd data u.last := by
        intro data hend
        rw [takenBy_of_matchingEnd hend next] at htaken
        exact absurd htaken (by simp)
      simp [hno]

/-- An upload is all or nothing exactly when nothing went amiss: BEGIN has
already emptied the file and no path puts the old content back, and END does
not compare lengths. -/
theorem upload_atomic_iff (other : OtherHandlers) (u : UploadRun) (h : u.Complete other) :
    u.Atomic other ↔ u.NothingAmiss := by
  have hfile := upload_file_after h
  have hack := upload_acknowledged_iff h
  unfold UploadRun.Atomic UploadRun.NothingAmiss
  by_cases hend : IsMatchingEnd u.received u.last
  · constructor
    · rintro ⟨hok, _⟩
      obtain ⟨content, hcontent, hlen, hcrc⟩ := hok _ ((hack _).mpr ⟨hend, rfl⟩)
      obtain rfl := Option.some.inj (hfile.symm.trans hcontent)
      exact ⟨fun _ => ⟨hlen, hcrc⟩, fun hno => absurd hend hno⟩
    · rintro ⟨hok, _⟩
      obtain ⟨hlen, hcrc⟩ := hok hend
      refine ⟨fun crc hacked => ⟨u.kept, hfile, hlen, ?_⟩, fun hno => ?_⟩
      · rw [((hack crc).mp hacked).2, hcrc]
      · exact absurd ((hack _).mpr ⟨hend, rfl⟩) (hno _)
  · have hno : ∀ crc, ¬ EndAcknowledged other (u.atLast other) crc u.last :=
      fun crc hacked => hend ((hack crc).mp hacked).1
    constructor
    · rintro ⟨_, hkeep⟩
      exact ⟨fun h' => absurd h' hend, fun _ => by rw [← hkeep hno, hfile]⟩
    · rintro ⟨_, hkeep⟩
      exact ⟨fun crc hacked => absurd hacked (hno crc), fun _ => by rw [hfile, hkeep hend]⟩

end Whole

/-- Handlers outside the model that do nothing. -/
def idleHandlers : OtherHandlers := fun _ _ d => (d, SmpSt.ok, [])

theorem idleHandlers_spares (path : Path) : ∀ a, Spares idleHandlers path a := by
  intro a
  unfold Spares
  split
  · exact fun d => ⟨rfl, rfl, rfl⟩
  · trivial

/-- `/sd/a` holds one byte; the session times out right after BEGIN. -/
def timedOutUpload : UploadRun where
  before := { idleDevice with files := fun _ => some [0x78] }
  seq := 3
  flags := 0
  body := [4, 0, 0, 0, 0x2F, 0x73, 0x64, 0x2F, 0x61, 0]
  io := ioOk
  ins := []
  last := .timeout ioOk

/-- Four bytes announced, END right after BEGIN with the CRC of no bytes. -/
def shortUpload : UploadRun where
  before := idleDevice
  seq := 3
  flags := 0
  body := [4, 0, 0, 0, 0x2F, 0x73, 0x64, 0x2F, 0x61, 0]
  io := ioOk
  ins := []
  last := .frame [4, SmpCmd.fsUploadEnd, 0, 0, 0, 0, 0, 0] ioOk

theorem timedOutUpload_complete : timedOutUpload.Complete idleHandlers where
  accepted := by decide
  opened := trivial
  openedLast := by decide
  closed := by decide
  spares := fun a _ => idleHandlers_spares _ a

theorem shortUpload_complete : shortUpload.Complete idleHandlers where
  accepted := by decide
  opened := trivial
  openedLast := by decide
  closed := by decide
  spares := fun a _ => idleHandlers_spares _ a

/-- A session timeout leaves an empty file for the old one, and an upload that
brought no data is acknowledged as four bytes long. -/
theorem upload_not_atomic :
    (timedOutUpload.Complete idleHandlers ∧ ¬ timedOutUpload.Atomic idleHandlers) ∧
      (shortUpload.Complete idleHandlers ∧ ¬ shortUpload.Atomic idleHandlers) := by
  refine ⟨⟨timedOutUpload_complete, ?_⟩, ⟨shortUpload_complete, ?_⟩⟩
  · rintro ⟨_, hkeep⟩
    have := hkeep (fun crc h => h)
    exact absurd this (by decide)
  · rintro ⟨hok, _⟩
    obtain ⟨content, hfile, hlen, _⟩ := hok 0 (by exact ⟨rfl, by decide, by decide⟩)
    have hempty : (shortUpload.after idleHandlers).files shortUpload.path = some [] := by decide
    obtain rfl := Option.some.inj (hempty.symm.trans hfile)
    exact absurd hlen (by decide)

theorem upload_atomic_iff_shortUpload :
    shortUpload.Atomic idleHandlers ↔ shortUpload.NothingAmiss :=
  upload_atomic_iff idleHandlers shortUpload shortUpload_complete

end Serial
end JppDos
