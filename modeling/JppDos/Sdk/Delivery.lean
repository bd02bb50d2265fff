import JppDos.Lib.Machine
import JppDos.Lib.Mailbox
import JppDos.Sdk.Ipc

/-!
# What the message boxes deliver

The senders and the receiver of one mailbox, in any order of their calls.  No message is
lost or delivered twice as long as no send reuses the file of a message that is still
there, and every receiver finds at most one sender's directory, with one message in it,
and the dead buffers of its listings as they were left.

Main fact:
* `ipc_delivers`: the account of a whole run.
-/

namespace JppDos
namespace Sdk

open CText Machine Mailbox

/-- A call of an app, the mailbox in question being that of one recipient. -/
inductive IpcCall
  | send (caller : SdkCaller) (recipient payload : CStr) (tick : UInt32) (slots : Slots)
  | recv (bound : Bool) (payloadBufLen : Nat) (residue : Residue)

/-- A sender with the text of its message. -/
abbrev Msg := CStr × CStr

section Recipient

variable (self : AppId)

/-- What a receiver's answer shows of the mailbox. -/
def RecvAnswer.events (a : RecvAnswer) : List (Event Msg) :=
  match a.status with
  | .ok => [.received (a.sender.getD (CStr.ofBytes []), a.out.getD (CStr.ofBytes []))]
  | .noData => [.empty]
  | .brokerError => [.failed]
  | _ => []

/-- One call, with what it shows of the recipient's mailbox. -/
def ipcStep (s : IpcState) : IpcCall → IpcState × List (Event Msg)
  | .send caller recipient payload tick slots =>
      ((ipcSend s caller recipient payload tick slots).1,
        if (ipcSend s caller recipient payload tick slots).2 = .ok ∧ recipient = self then
          [.sent (caller.appId, payload)]
        else [])
  | .recv bound payloadBufLen residue =>
      ((ipcRecv s ⟨bound, self⟩ payloadBufLen residue).1,
        (ipcRecv s ⟨bound, self⟩ payloadBufLen residue).2.events)

/-- The message files of the recipient. -/
def inbox (io : IpcIo) : List IpcMessage := io.files.filter fun m => m.recipient = self

/-- The messages that wait for the recipient. -/
def waiting (io : IpcIo) : Multiset Msg :=
  ((inbox self io).map fun m => (m.sender, CStr.ofBytes m.text) : List Msg)

/-- The dead buffers of a receiver's listings read as the listings left them. -/
def Residue.Intact (residue : Residue) (io : IpcIo) : Prop :=
  ∀ d ∈ senders self io,
    residue.first = (listLoop (senders self io)).dead ∧
      residue.sender = residue.first.name ∧ residue.reported = residue.first.name ∧
      ((filesFrom self d io) ≠ [] →
        residue.second = (listLoop ((filesFrom self d io).map IpcMessage.name)).dead)

/-- There is nothing to receive, or one message in the directory of the only sender. -/
def Single (bufLen : Nat) (io : IpcIo) : Prop :=
  inbox self io = [] ∨
    ∃ m, inbox self io = [m] ∧ senders self io = [m.sender] ∧ m.text.length < bufLen

instance (residue : Residue) (io : IpcIo) : Decidable (residue.Intact self io) :=
  inferInstanceAs (Decidable (∀ d ∈ senders self io, _ ∧ _ ∧ _ ∧ (_ → _)))

instance (bufLen : Nat) (io : IpcIo) : Decidable (Single self bufLen io) :=
  match h : inbox self io with
  | [] => .isTrue (Or.inl h)
  | [m] =>
      decidable_of_iff (senders self io = [m.sender] ∧ m.text.length < bufLen)
        ⟨fun hm => Or.inr ⟨m, h, hm⟩, fun hs => by
          rcases hs with hs | ⟨m', hs, hm⟩
          · exact absurd (h.symm.trans hs) (List.cons_ne_nil m [])
          · obtain rfl := List.head_eq_of_cons_eq (h.symm.trans hs)
            exact hm⟩
  | m :: m' :: ms =>
      .isFalse fun hs => by
        rcases hs with hs | ⟨x, hs, -⟩
        · exact absurd (h.symm.trans hs) (List.cons_ne_nil m _)
        · exact absurd (List.tail_eq_of_cons_eq (h.symm.trans hs)) (List.cons_ne_nil m' ms)

/-- A send leaves the waiting messages alone, and a receiver finds its message. -/
def Clear (s : IpcState) : IpcCall → Prop
  | .send caller recipient _ tick _ =>
      recipient = self → ∀ m ∈ inbox self s.io,
        ¬ (m.sender = caller.appId ∧ m.name = messageName tick)
  | .recv _ payloadBufLen residue =>
      residue.Intact self s.io ∧ (payloadBufLen ≠ 0 → Single self payloadBufLen s.io)

instance (s : IpcState) : DecidablePred (Clear self s)
  | .send _ _ _ _ _ => inferInstanceAs (Decidable (_ → ∀ m ∈ inbox self s.io, ¬ (_ ∧ _)))
  | .recv _ _ _ => inferInstanceAs (Decidable (_ ∧ (_ → _)))

/-- A message as a send writes it. -/
structure IpcMessage.Sent (m : IpcMessage) : Prop where
  sender : Shown m.sender ∧ m.sender.strlen ≠ 0
  name : Shown m.name ∧ m.name.strlen ≠ 0
  text : ∃ payload : CStr, m.text = payload.val ∧ payload.strlen < ipcPayloadMax

/-- The state of the files between two calls. -/
structure IpcState.Kept (s : IpcState) : Prop where
  idle : Idle s.locks
  sent : ∀ m ∈ s.io.files, m.Sent
  ready : s.io.files ≠ [] → Lockable s.locks "storage"

theorem shown_appId (id : AppId) : Shown id.val ∧ id.val.strlen ≠ 0 := by
  obtain ⟨c, rest, hval, hdot⟩ := strNameValid_head (appIdIsValid_name id.property.1)
  rw [Shown, CStr.strlen, hval]
  exact ⟨by simpa using hdot, by simp⟩

theorem shown_messageName (tick : UInt32) :
    Shown (messageName tick) ∧ (messageName tick).strlen ≠ 0 := by
  have hascii : ascii "msg_" = [109, 115, 103, 95] := by decide
  obtain ⟨rest, hval⟩ : ∃ rest, (messageName tick).val = 109 :: rest := by
    simp [messageName, CStr.ofBytes, cString, hascii]
  rw [Shown, CStr.strlen, hval]
  exact ⟨by simp, by simp⟩

/-- A send writes its file, or fails and leaves everything as it is. -/
theorem ipcSend_cases {s : IpcState} (hidle : Idle s.locks) (caller : SdkCaller)
    (recipient payload : CStr) (tick : UInt32) (slots : Slots) :
    (Lockable s.locks "storage" ∧ payload.strlen < ipcPayloadMax ∧
      ∃ dirs, ipcSend s caller recipient payload tick slots =
        (⟨register s.locks "storage",
          { s.io with
            senderDirs := dirs
            files := writeFile slots.file
              ⟨recipient, caller.appId, messageName tick, payload.val⟩ s.io.files }⟩, .ok)) ∨
      (ipcSend s caller recipient payload tick slots).1 = s ∧
        (ipcSend s caller recipient payload tick slots).2 ≠ .ok := by
  unfold ipcSend
  split
  · exact Or.inr ⟨rfl, SdkStatus.noConfusion⟩
  · split
    · exact Or.inr ⟨rfl, SdkStatus.noConfusion⟩
    · split
      · exact Or.inr ⟨rfl, SdkStatus.noConfusion⟩
      · rename_i hpayload
        split
        · exact Or.inr ⟨rfl, SdkStatus.noConfusion⟩
        · simp only [runExclusive_idle hidle]
          split
          · rename_i hlock
            exact Or.inl ⟨hlock, Nat.lt_of_not_le hpayload, _, rfl⟩
          · exact Or.inr ⟨rfl, SdkStatus.noConfusion⟩

theorem mem_insertAt {α : Type} {slot : Nat} {a b : α} {entries : List α} :
    b ∈ insertAt slot a entries ↔ b = a ∨ b ∈ entries := by
  conv_rhs => rw [← List.take_append_drop slot entries]
  simp only [insertAt, List.mem_append, List.mem_cons]
  exact or_left_comm

/-- Every file after a write was there before, has a new text, or is the new one. -/
theorem mem_writeFile {slot : Nat} {m x : IpcMessage} {files : List IpcMessage}
    (h : x ∈ writeFile slot m files) :
    x ∈ files ∨ x = m ∨ ∃ old ∈ files, x = { old with text := m.text } := by
  rw [writeFile] at h
  split at h
  · obtain ⟨old, hold, rfl⟩ := List.mem_map.mp h
    split
    · exact Or.inr (Or.inr ⟨old, hold, rfl⟩)
    · exact Or.inl hold
  · rcases mem_insertAt.mp h with rfl | h
    · exact Or.inr (Or.inl rfl)
    · exact Or.inl h

/-- A write for one recipient leaves the mailboxes of all others alone. -/
theorem filter_writeFile_other (slot : Nat) {m : IpcMessage} {r : CStr}
    (h : m.recipient ≠ r) (files : List IpcMessage) :
    (writeFile slot m files).filter (fun x => x.recipient = r) =
      files.filter fun x => x.recipient = r := by
  rw [writeFile]
  split
  · clear * - h
    induction files with
    | nil => rfl
    | cons old files ih =>
        rw [List.map_cons, List.filter_cons, List.filter_cons, ih]
        by_cases hold : old.at m.recipient m.sender m.name = true
        · have hr : old.recipient ≠ r := by
            simp only [IpcMessage.at, Bool.and_eq_true, beq_iff_eq] at hold
            rw [hold.1.1]
            exact h
          simp [hold, hr]
        · simp [hold]
  · rw [insertAt, List.filter_append, List.filter_cons_of_neg (by simpa using h),
      ← List.filter_append, List.take_append_drop]

/-- A write under a new name adds the message to the mailbox. -/
theorem filter_writeFile_new (slot : Nat) {m : IpcMessage} {r : CStr} {files : List IpcMessage}
    (h : m.recipient = r)
    (hnew : ∀ x ∈ files.filter fun x => x.recipient = r,
      ¬ (x.sender = m.sender ∧ x.name = m.name)) :
    ((writeFile slot m files).filter fun x => x.recipient = r).Perm
      (m :: files.filter fun x => x.recipient = r) := by
  have hany : files.any (IpcMessage.at m.recipient m.sender m.name) = false := by
    rw [List.any_eq_false]
    intro x hx hat
    simp only [IpcMessage.at, Bool.and_eq_true, beq_iff_eq] at hat
    exact hnew x (List.mem_filter.mpr ⟨hx, by simp [hat.1.1, h]⟩) ⟨hat.1.2, hat.2⟩
  rw [writeFile, hany, if_neg (by simp), insertAt, List.filter_append]
  conv_rhs => rw [← List.take_append_drop slot files, List.filter_append]
  rw [List.filter_cons_of_pos (by simpa using h)]
  exact List.perm_middle

theorem send_delivers {s : IpcState} (h : s.Kept) {caller : SdkCaller}
    {recipient payload : CStr} {tick : UInt32} {slots : Slots}
    (hclear : Clear self s (.send caller recipient payload tick slots)) :
    (ipcStep self s (.send caller recipient payload tick slots)).1.Kept ∧
      accept (waiting self s.io) (ipcStep self s (.send caller recipient payload tick slots)).2 =
        some (waiting self (ipcStep self s (.send caller recipient payload tick slots)).1.io) := by
  rcases ipcSend_cases h.idle caller recipient payload tick slots with
    ⟨hlock, hpayload, dirs, hrun⟩ | ⟨hstate, hstatus⟩
  · simp only [ipcStep, hrun]
    constructor
    · refine ⟨h.idle.register _, fun x hx => ?_, fun _ => lockable_register _ _⟩
      have htext : ∃ p : CStr, payload.val = p.val ∧ p.strlen < ipcPayloadMax :=
        ⟨payload, rfl, hpayload⟩
      rcases mem_writeFile hx with hx | rfl | ⟨old, hold, rfl⟩
      · exact h.sent x hx
      · exact ⟨shown_appId caller.appId, shown_messageName tick, htext⟩
      · exact ⟨(h.sent old hold).sender, (h.sent old hold).name, htext⟩
    · by_cases hself : recipient = self
      · have hperm := filter_writeFile_new slots.file
          (m := ⟨recipient, caller.appId, messageName tick, payload.val⟩) hself
          (hclear hself)
        rw [if_pos ⟨trivial, hself⟩]
        simp only [accept, deliver, Option.bind_some, waiting, inbox]
        have hmap := hperm.map fun m : IpcMessage => (m.sender, CStr.ofBytes m.text)
        rw [Multiset.coe_eq_coe.mpr hmap, List.map_cons, CStr.ofBytes_val]
        rfl
      · rw [if_neg fun hboth => hself hboth.2]
        simp only [accept, waiting, inbox,
          filter_writeFile_other slots.file
            (m := ⟨recipient, caller.appId, messageName tick, payload.val⟩) hself]
  · simp only [ipcStep, hstate]
    rw [if_neg fun hboth => hstatus hboth.1]
    exact ⟨h, rfl⟩

/-- The only message of a mailbox, as the files hold it. -/
theorem find_single {r : CStr} {files : List IpcMessage} {m : IpcMessage}
    (h : files.filter (fun x => x.recipient = r) = [m]) :
    files.find? (IpcMessage.at r m.sender m.name) = some m ∧
      files.any (IpcMessage.at r m.sender m.name) = true ∧
      (files.eraseP (IpcMessage.at r m.sender m.name)).filter (fun x => x.recipient = r) = [] := by
  have hm : m ∈ files.filter fun x => x.recipient = r := by
    rw [h]
    exact List.mem_singleton_self m
  have hmem := (List.mem_filter.mp hm).1
  have hrec : m.recipient = r := by simpa using (List.mem_filter.mp hm).2
  have hat : IpcMessage.at r m.sender m.name m = true := by simp [IpcMessage.at, hrec]
  have honly : ∀ x ∈ files, IpcMessage.at r m.sender m.name x = true → x = m := by
    intro x hx hxat
    simp only [IpcMessage.at, Bool.and_eq_true, beq_iff_eq] at hxat
    have hxm : x ∈ files.filter fun x => x.recipient = r :=
      List.mem_filter.mpr ⟨hx, by simp [hxat.1.1]⟩
    rw [h] at hxm
    exact List.mem_singleton.mp hxm
  refine ⟨?_, List.any_eq_true.mpr ⟨m, hmem, hat⟩, ?_⟩
  · cases hfind : files.find? (IpcMessage.at r m.sender m.name) with
    | none => exact absurd hat (List.find?_eq_none.mp hfind m hmem)
    | some x =>
        rw [honly x (List.mem_of_find?_eq_some hfind) (List.find?_some hfind)]
  · obtain ⟨x, before, after, -, hx, hfiles, herase⟩ := List.exists_of_eraseP hmem hat
    have hxrec : x.recipient = r := by
      simp only [IpcMessage.at, Bool.and_eq_true, beq_iff_eq] at hx
      exact hx.1.1
    rw [hfiles, List.filter_append, List.filter_cons_of_pos (by simpa using hxrec)] at h
    rw [herase, List.filter_append]
    obtain ⟨hbefore, hafter⟩ : before.filter (fun x => x.recipient = r) = [] ∧
        after.filter (fun x => x.recipient = r) = [] := by
      have hlen := congrArg List.length h
      simp only [List.length_append, List.length_cons, List.length_nil] at hlen
      exact ⟨List.eq_nil_of_length_eq_zero (by omega),
        List.eq_nil_of_length_eq_zero (by omega)⟩
    rw [hbefore, hafter, List.append_nil]

theorem takeMessage_single {s : IpcState} (hidle : Idle s.locks)
    (hlock : Lockable s.locks "storage") {m : IpcMessage} (hm : inbox self s.io = [m])
    {payload : CStr} (htext : m.text = payload.val) (hmax : payload.strlen < ipcPayloadMax)
    {bufLen : Nat} (hlen : payload.strlen < bufLen) {residue : Residue}
    (hsender : residue.sender = m.sender) :
    takeMessage s self m.name bufLen residue =
      (⟨register s.locks "storage",
        { s.io with
          fileReadBuf := payload.val ++ [0]
          files := s.io.files.eraseP (IpcMessage.at self m.sender m.name) }⟩,
        ⟨.ok, "OK", some payload, some residue.reported⟩) := by
  obtain ⟨hfind, hany, -⟩ := find_single hm
  have hfit : payload.val.take (fileReadBufSize - 1) = payload.val := by
    refine List.take_of_length_le ?_
    have : payload.val.length < 512 := hmax
    have : fileReadBufSize - 1 = 4095 := rfl
    omega
  simp only [takeMessage, runExclusive_idle hidle, if_pos hlock, sdFileReadCb, hsender, hfind,
    htext, hfit, runExclusive_idle (hidle.register "storage"),
    if_pos (lockable_register s.locks "storage"), register_register, sdFileDeleteCb, hany]
  have hread : resultGet
      (deref { s.io with fileReadBuf := payload.val ++ [0] } residue.second)
      (resultPut okResult (.literal "text") .fileReadBuf).2 (CStr.ofBytes (ascii "text")) =
        some .fileReadBuf := by
    simp [resultGet, resultPut, okResult, resultFieldCapacity, deref]
  have hok : (resultPut okResult (Ptr.literal "text") .fileReadBuf).2.ok = true := rfl
  simp only [hread, hok, deref, CStr.ofBytes_append_zero, CStr.strncpy_of_lt hlen]
  simp

theorem firstEntry_frame {s : IpcState} (h : s.Kept) (names : IpcIo → Option (List CStr))
    (dead : Dead) :
    (firstEntry names dead s).1.Kept ∧
      (firstEntry names dead s).1.io.files = s.io.files ∧
      (firstEntry names dead s).1.io.senderDirs = s.io.senderDirs := by
  obtain ⟨text, heq⟩ := firstEntry_eq h.idle names dead
  rw [heq]
  split
  · exact ⟨⟨h.idle.register _, h.sent, fun _ => lockable_register _ _⟩, rfl, rfl⟩
  · exact ⟨h, rfl, rfl⟩

/-- There is no first entry in an empty or missing directory. -/
theorem firstEntry_empty {s : IpcState} (h : s.Kept) (names : IpcIo → Option (List CStr))
    (dead : Dead) (hnames : names s.io = none ∨ names s.io = some []) :
    (firstEntry names dead s).2 = none := by
  obtain ⟨text, heq⟩ := firstEntry_eq h.idle names dead
  rw [heq]
  split
  · rcases hnames with hnames | hnames
    · simp only [hnames]
    · simp [hnames, listLoop]
  · rfl

/-- The only entry of a directory is its first one, if the dead buffers kept it. -/
theorem firstEntry_single {s : IpcState} (h : s.Kept) (hlock : Lockable s.locks "storage")
    (names : IpcIo → Option (List CStr)) {name : CStr} (hnames : names s.io = some [name])
    (hshown : Shown name ∧ name.strlen ≠ 0) {dead : Dead} (hdead : dead = (listLoop [name]).dead) :
    (firstEntry names dead s).2 = some name ∧
      Lockable (firstEntry names dead s).1.locks "storage" := by
  obtain ⟨text, heq⟩ := firstEntry_eq h.idle names dead
  obtain ⟨hidx, hlast⟩ := listLoop_single hshown.1
  rw [heq, if_pos hlock]
  refine ⟨?_, lockable_register _ _⟩
  simp [hnames, hidx, hdead, hlast, hshown.2]

theorem ipcRecv_eq (s : IpcState) {bufLen : Nat} (hlen : bufLen ≠ 0) (residue : Residue) :
    ipcRecv s ⟨true, self⟩ bufLen residue =
      let listed := firstEntry (mailboxNames self) residue.first s
      match listed.2 with
      | none => (listed.1, noMessages)
      | some sender =>
          let files := firstEntry (senderNames self sender) residue.second listed.1
          match files.2 with
          | none => (files.1, noMessages)
          | some name => takeMessage files.1 self name bufLen residue := by
  unfold ipcRecv
  rw [if_neg (by simp), if_neg hlen]
  dsimp only
  generalize firstEntry (mailboxNames self) residue.first s = listed
  obtain ⟨s₁, found⟩ := listed
  cases found with
  | none => rfl
  | some sender =>
      dsimp only
      generalize firstEntry (senderNames self sender) residue.second s₁ = files
      obtain ⟨s₂, found₂⟩ := files
      cases found₂ <;> rfl

/-- The files of a sender are among those of the mailbox. -/
theorem filesFrom_eq (sender : CStr) (io : IpcIo) :
    filesFrom self sender io = (inbox self io).filter fun m => m.sender = sender := by
  rw [filesFrom, inbox, List.filter_filter]
  refine List.filter_congr fun m _ => ?_
  simp [Bool.and_comm]

theorem inbox_congr {io io' : IpcIo} (h : io'.files = io.files) :
    inbox self io' = inbox self io := by
  rw [inbox, h, inbox]

theorem recv_empty {s : IpcState} (h : s.Kept) (hempty : inbox self s.io = [])
    {bufLen : Nat} (hlen : bufLen ≠ 0) (residue : Residue) :
    (ipcRecv s ⟨true, self⟩ bufLen residue).2 = noMessages ∧
      (ipcRecv s ⟨true, self⟩ bufLen residue).1.Kept ∧
      (ipcRecv s ⟨true, self⟩ bufLen residue).1.io.files = s.io.files := by
  obtain ⟨hkept, hfiles, -⟩ := firstEntry_frame h (mailboxNames self) residue.first
  rw [ipcRecv_eq self s hlen residue]
  dsimp only
  cases (firstEntry (mailboxNames self) residue.first s).2 with
  | none => exact ⟨rfl, hkept, hfiles⟩
  | some sender =>
      obtain ⟨hkept₂, hfiles₂, -⟩ :=
        firstEntry_frame hkept (senderNames self sender) residue.second
      have hnone := firstEntry_empty hkept (senderNames self sender)
        residue.second (by
          rw [senderNames, filesFrom_eq, inbox_congr self hfiles, hempty]
          split
          · exact Or.inr rfl
          · exact Or.inl rfl)
      simp only [hnone]
      exact ⟨trivial, hkept₂, hfiles₂.trans hfiles⟩

/-- With one message waiting in the only directory, a receiver gets it. -/
theorem recv_single {s : IpcState} (h : s.Kept) {m : IpcMessage} (hm : inbox self s.io = [m])
    (hsenders : senders self s.io = [m.sender]) {bufLen : Nat}
    (hlen : m.text.length < bufLen) {residue : Residue} (hintact : residue.Intact self s.io) :
    (ipcRecv s ⟨true, self⟩ bufLen residue).2 =
        ⟨.ok, "OK", some (CStr.ofBytes m.text), some m.sender⟩ ∧
      (ipcRecv s ⟨true, self⟩ bufLen residue).1.Kept ∧
      inbox self (ipcRecv s ⟨true, self⟩ bufLen residue).1.io = [] := by
  have hmem : m ∈ s.io.files :=
    List.mem_of_mem_filter (hm ▸ List.mem_singleton_self m : m ∈ inbox self s.io)
  obtain ⟨hsent, hname, payload, htext, hmax⟩ := h.sent m hmem
  have hlock := h.ready (List.ne_nil_of_mem hmem)
  have hfrom : filesFrom self m.sender s.io = [m] := by
    rw [filesFrom_eq, hm]
    simp
  obtain ⟨hfirst, hsender, hreported, hsecond⟩ :=
    hintact m.sender (by rw [hsenders]; exact List.mem_singleton_self _)
  rw [hsenders] at hfirst
  have hsecond := hsecond (by rw [hfrom]; exact List.cons_ne_nil _ _)
  rw [hfrom] at hsecond
  have hdead : residue.first.name = m.sender := by
    rw [hfirst, (listLoop_single hsent.1).2]
  -- The mailbox lists the one sender, whose directory lists the one file.
  obtain ⟨hkept, hfiles, hdirs⟩ := firstEntry_frame h (mailboxNames self) residue.first
  obtain ⟨hfound, hlock₁⟩ := firstEntry_single h hlock
    (mailboxNames self) (by simp [mailboxNames, hsenders]) hsent hfirst
  obtain ⟨hkept₂, hfiles₂, -⟩ :=
    firstEntry_frame hkept (senderNames self m.sender) residue.second
  obtain ⟨hfound₂, hlock₂⟩ := firstEntry_single hkept hlock₁
    (senderNames self m.sender)
    (by
      have hsenders₁ : m.sender ∈ senders self
          (firstEntry (mailboxNames self) residue.first s).1.io := by
        rw [senders, hdirs, ← senders, hsenders]
        exact List.mem_singleton_self _
      rw [senderNames, if_pos hsenders₁, filesFrom_eq, inbox_congr self hfiles,
        ← filesFrom_eq, hfrom]
      rfl) hname hsecond
  have hlen' : payload.strlen < bufLen := by
    rw [CStr.strlen, ← htext]
    exact hlen
  have hm₂ : inbox self (firstEntry (senderNames self m.sender) residue.second
      (firstEntry (mailboxNames self) residue.first s).1).1.io = [m] := by
    rw [inbox_congr self (hfiles₂.trans hfiles), hm]
  rw [ipcRecv_eq self s (by omega) residue]
  simp only [hfound, hfound₂]
  rw [takeMessage_single self hkept₂.idle hlock₂ hm₂ htext hmax hlen' (hsender.trans hdead)]
  refine ⟨?_, ⟨hkept₂.idle.register _, fun x hx => ?_, fun _ => lockable_register _ _⟩, ?_⟩
  · rw [htext, CStr.ofBytes_val, hreported, hdead]
  · exact hkept₂.sent x (List.mem_of_mem_eraseP hx)
  · exact (find_single hm₂).2.2

/-- What a receiver's call does to the waiting messages. -/
theorem recv_delivers {s : IpcState} (h : s.Kept) {bound : Bool} {bufLen : Nat}
    {residue : Residue} (hclear : Clear self s (.recv bound bufLen residue)) :
    (ipcStep self s (.recv bound bufLen residue)).1.Kept ∧
      accept (waiting self s.io) (ipcStep self s (.recv bound bufLen residue)).2 =
        some (waiting self (ipcStep self s (.recv bound bufLen residue)).1.io) := by
  obtain ⟨hintact, hsingle⟩ := hclear
  simp only [ipcStep]
  cases bound with
  | false => exact ⟨h, rfl⟩
  | true =>
      by_cases hlen : bufLen = 0
      · rw [show ipcRecv s ⟨true, self⟩ bufLen residue =
          (s, ⟨.invalidArgument, "", none, none⟩) by simp [ipcRecv, hlen]]
        exact ⟨h, rfl⟩
      · rcases hsingle hlen with hempty | ⟨m, hm, hsenders, hfit⟩
        · obtain ⟨hanswer, hkept, hfiles⟩ := recv_empty self h hempty hlen residue
          refine ⟨hkept, ?_⟩
          have hnone : waiting self s.io = 0 := by
            rw [waiting, hempty]
            rfl
          have hnone' : waiting self (ipcRecv s ⟨true, self⟩ bufLen residue).1.io = 0 := by
            rw [waiting, inbox_congr self hfiles, hempty]
            rfl
          rw [hanswer, hnone, hnone']
          rfl
        · obtain ⟨hanswer, hkept, hempty⟩ := recv_single self h hm hsenders hfit hintact
          refine ⟨hkept, ?_⟩
          have hone : waiting self s.io = {(m.sender, CStr.ofBytes m.text)} := by
            rw [waiting, hm]
            rfl
          have hnone' : waiting self (ipcRecv s ⟨true, self⟩ bufLen residue).1.io = 0 := by
            rw [waiting, hempty]
            rfl
          rw [hanswer, hone, hnone']
          simp [RecvAnswer.events, accept, deliver]

/-- What every call keeps that leaves the waiting messages alone. -/
theorem ipcStep_delivers {s : IpcState} (h : s.Kept) {call : IpcCall}
    (hclear : Clear self s call) :
    (ipcStep self s call).1.Kept ∧
      accept (waiting self s.io) (ipcStep self s call).2 =
        some (waiting self (ipcStep self s call).1.io) := by
  cases call with
  | send caller recipient payload tick slots => exact send_delivers self h hclear
  | recv bound bufLen residue => exact recv_delivers self h hclear

/-- Before the first message: no files and no directories, and no operation in progress. -/
def emptyIpc (locks : LockSet) (listText fileReadBuf : List UInt8) : IpcState :=
  ⟨locks, ⟨[], [], listText, fileReadBuf⟩⟩

/-- The account of a run so far. -/
def Accounted (s : IpcState) (events : List (Event Msg)) : Prop :=
  s.Kept ∧ accept 0 events = some (waiting self s.io)

theorem Accounted.step {s : IpcState} {events : List (Event Msg)} (h : Accounted self s events)
    {call : IpcCall} (hclear : Clear self s call) :
    Accounted self (ipcStep self s call).1 (events ++ (ipcStep self s call).2) := by
  obtain ⟨hkept, hstep⟩ := ipcStep_delivers self h.1 hclear
  refine ⟨hkept, ?_⟩
  rw [accept_append, h.2, Option.bind_some, hstep]

/-- In every run whose calls leave the waiting messages alone, every message sent is received
by exactly one call with its sender, no call fails, and a call that reports an empty mailbox
comes when everything sent has been received. -/
theorem ipc_delivers {locks : LockSet} (hidle : Idle locks) (listText fileReadBuf : List UInt8)
    {calls : List IpcCall}
    (h : Along (ipcStep self) (Clear self) (emptyIpc locks listText fileReadBuf) calls) :
    accept 0 (outputs (ipcStep self) (emptyIpc locks listText fileReadBuf) calls) =
      some (waiting self (run (ipcStep self) (emptyIpc locks listText fileReadBuf) calls).io) := by
  have hstart : Accounted self (emptyIpc locks listText fileReadBuf) [] :=
    ⟨⟨hidle, by simp [emptyIpc], by simp [emptyIpc]⟩, rfl⟩
  exact (h.monitor (I := Accounted self) (fun _ _ _ hs hclear => hs.step self hclear) hstart).2

end Recipient

/-- The app `home`. -/
def homeApp : AppId := ⟨CStr.ofBytes (ascii "home"), by decide⟩

/-- A sending app, by the last letter of its name. -/
def senderApp (name : String) : SdkCaller :=
  ⟨true, if h : _ then ⟨CStr.ofBytes (ascii name), h⟩ else homeApp⟩

/-- The dead buffers after two listings of single entries. -/
def homeResidue (sender : String) (tick : UInt32) : Residue :=
  let sender := CStr.ofBytes (ascii sender)
  ⟨⟨entryKey 0, sender⟩, ⟨entryKey 0, messageName tick⟩, sender, sender⟩

/-- A message to `home`. -/
def sendHome (sender text : String) (tick : UInt32) : IpcCall :=
  .send (senderApp sender) homeApp (CStr.ofBytes (ascii text)) tick ⟨0, 0⟩

theorem ipc_delivers_twoMessages :
    accept 0 (outputs (ipcStep homeApp) (emptyIpc [] [] [])
        [sendHome "a" "one" 1, .recv true ipcPayloadMax (homeResidue "a" 1),
          sendHome "a" "two" 2, .recv true ipcPayloadMax (homeResidue "a" 2)]) =
      some (waiting homeApp (run (ipcStep homeApp) (emptyIpc [] [] [])
        [sendHome "a" "one" 1, .recv true ipcPayloadMax (homeResidue "a" 1),
          sendHome "a" "two" 2, .recv true ipcPayloadMax (homeResidue "a" 2)]).io) :=
  ipc_delivers homeApp idle_nil [] [] (by decide)

/-- With two senders a receiver is told that there is no message, while two wait. -/
theorem ipc_two_senders :
    let calls := [sendHome "a" "one" 1, sendHome "b" "two" 1]
    let s := run (ipcStep homeApp) (emptyIpc [] [] []) calls
    let residue : Residue :=
      ⟨⟨entryKey 1, CStr.ofBytes (ascii "a")⟩, ⟨entryKey 0, messageName 1⟩,
        CStr.ofBytes (ascii "a"), CStr.ofBytes (ascii "a")⟩
    residue.first = (listLoop (senders homeApp s.io)).dead ∧
      (ipcRecv s ⟨true, homeApp⟩ ipcPayloadMax residue).2.status = .noData ∧
      waiting homeApp s.io = {(CStr.ofBytes (ascii "b"), CStr.ofBytes (ascii "two")),
        (CStr.ofBytes (ascii "a"), CStr.ofBytes (ascii "one"))} ∧
      accept 0 (outputs (ipcStep homeApp) (emptyIpc [] [] [])
        (calls ++ [.recv true ipcPayloadMax residue])) = none := by
  decide

end Sdk
end JppDos
