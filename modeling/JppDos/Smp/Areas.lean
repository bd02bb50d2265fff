import JppDos.Smp.Handlers

/-!
# What the programs of the serial manager use

The actions are sorted into areas, and for each program it is said which areas its actions are
from.  What concerns no area of a program concerns none of its actions.
-/

namespace JppDos
namespace Smp

open CText Serial

/-- The areas of the actions. -/
inductive Area
  -- a frame or a key arrives
  | frame
  | key
  -- nothing that others look at is changed
  | look
  | timer
  -- `s_session_active` is set or cleared
  | opening
  | closing
  -- a dialog is raised, or its answer awaited
  | raise
  | await
  -- the main loop moves the cursor, or answers
  | cursor
  | answer
  -- the transfer slot and its FILE
  | slot
  -- a file is created for an upload
  | create
  -- other changes of the file system
  | change
  | backup
  | restart
  -- an app is launched: the beginning, the publication of its context, the rest
  | launch
  | publish
  | app
deriving DecidableEq

/-- The area of an action. -/
def Act.area : Act → Area
  | .receiveFrame _ => .frame
  | .receiveKey _ => .key
  | .stopTimer | .startTimer => .timer
  | .store (.sessionActive true) => .opening
  | .store (.sessionActive false) => .closing
  | .store (.consentState .idle) | .store (.consentAllowed _) | .giveSem => .answer
  | .store (.consentState _) => .raise
  | .takeSem => .await
  | .store (.consentCursor _) => .cursor
  | .store (.xfer _) | .store .xferClosed | .store (.xferActive _) | .store (.xferCrc32 _)
  | .store (.xferNextChunk _) | .fopen _ false | .fileSize _ | .readAll _ | .fseek ..
  | .fread .. | .fwrite .. | .fflush _ | .fclose _ => .slot
  | .fopen _ true => .create
  | .mkdir _ | .remove _ | .rename .. => .change
  | .applyBackup _ => .backup
  | .restart => .restart
  | .launchApp => .launch
  | .store (.activeSdkContext true) => .publish
  | .store (.activeSdkContext false) | .store (.sdTask _) | .store (.bgRunActive _)
  | .createTask => .app
  | .load | .store (.backupConfirmName _) | .store (.firstSessionDone _) | .readDir _ | .stat _
  | .readFile _ | .malloc | .checkBackup _ | .other .. | .send _ | .bgFinished | .bgOverrun | .bgDue
  | .closeRequested => .look

/-- Only one assignment is in the area `closing`. -/
theorem Act.eq_of_closing {a : Act} (h : a.area = .closing) :
    a = .store (.sessionActive false) := by
  revert h
  cases a with
  | store s =>
      cases s with
      | sessionActive value => cases value <;> simp [Act.area]
      | consentState value => cases value <;> simp [Act.area]
      | activeSdkContext value => cases value <;> simp [Act.area]
      | _ => simp [Act.area]
  | fopen path write => cases write <;> simp [Act.area]
  | _ => simp [Act.area]

/-- All actions of a program are from areas with a property. -/
def Uses {α : Type} (S : Area → Prop) (t : Code α) : Prop := t.All fun a => S a.area

section Uses

variable {S : Area → Prop}

theorem uses_bind {α β : Type} {t : Code α} {f : α → Code β} (ht : Uses S t)
    (hf : ∀ a, Uses S (f a)) : Uses S (t >>= f) := Task.all_bind ht hf

theorem uses_call {α : Type} {a : Act} {k : a.Ans → Code α} (ha : S a.area)
    (hk : ∀ b, Uses S (k b)) : Uses S (Task.act a k) := ⟨ha, hk⟩

theorem uses_load {α : Type} {f : Vars → Code α} (hlook : S .look) (hf : ∀ v, Uses S (f v)) :
    Uses S (load >>= f) := ⟨hlook, hf⟩

theorem uses_done {α : Type} (a : α) : Uses S (Task.done a) := trivial

theorem uses_ite {α : Type} {c : Prop} [Decidable c] {t e : Code α} (ht : c → Uses S t)
    (he : ¬ c → Uses S e) : Uses S (if c then t else e) := by
  split
  · rename_i hc
    exact ht hc
  · rename_i hc
    exact he hc

theorem uses_sendResponse (hlook : S .look) (seq status : UInt8) (body : List UInt8) :
    Uses S (sendResponse seq status body) := ⟨hlook, fun _ => trivial⟩

theorem uses_sendErr (hlook : S .look) (seq status : UInt8) : Uses S (sendErr seq status) :=
  ⟨hlook, fun _ => trivial⟩

theorem uses_dropTransfer (hlook : S .look) (hslot : S .slot) : Uses S dropTransfer :=
  ⟨hlook, fun _ => ⟨hslot, fun _ => ⟨hslot, fun _ => ⟨hslot, fun _ => trivial⟩⟩⟩⟩

theorem uses_endSession (hlook : S .look) (hslot : S .slot) (hclosing : S .closing) :
    Uses S endSession := by
  have hend : Uses S (do store (.xferActive false); store (.sessionActive false)) :=
    ⟨hslot, fun _ => ⟨hclosing, fun _ => trivial⟩⟩
  refine ⟨hlook, fun v => ?_⟩
  change Uses S (ite _ _ _)
  split
  · exact ⟨hslot, fun _ => ⟨hslot, fun _ => hend⟩⟩
  · exact hend

theorem uses_closeSession (hlook : S .look) (htimer : S .timer) (hslot : S .slot)
    (hclosing : S .closing) : Uses S closeSession :=
  ⟨htimer, fun _ => uses_endSession hlook hslot hclosing⟩

theorem uses_resetSessionTimer (htimer : S .timer) : Uses S resetSessionTimer :=
  ⟨htimer, fun _ => ⟨htimer, fun _ => trivial⟩⟩

theorem uses_resetTimerIf (htimer : S .timer) (active : Bool) :
    Uses S (resetTimerIf active) := by
  cases active with
  | false => trivial
  | true => exact uses_resetSessionTimer htimer

theorem uses_askUser (hlook : S .look) (hcursor : S .cursor) (hraise : S .raise)
    (hawait : S .await) {kind : ConsentState} (hkind : kind ≠ .idle) (cursor : Nat) :
    Uses S (askUser kind cursor) := by
  refine ⟨hcursor, fun _ => ⟨?_, fun _ => ⟨hawait, fun _ => ⟨hlook, fun _ => trivial⟩⟩⟩⟩
  cases kind with
  | idle => exact absurd rfl hkind
  | pending => exact hraise
  | backupPending => exact hraise

theorem uses_sessionConsent {provisioning : Bool} (hlook : S .look) (hcursor : S .cursor)
    (hraise : S .raise) (hawait : S .await) (hanswer : provisioning = true → S .answer) :
    Uses S (sessionConsent provisioning) := by
  have hask : Uses S (askUser .pending 1) :=
    uses_askUser hlook hcursor hraise hawait (by decide) 1
  cases provisioning with
  | false => exact hask
  | true =>
      refine uses_load hlook fun v => uses_ite (fun _ => hask) fun _ => ?_
      exact ⟨hlook, fun _ => ⟨hanswer rfl, fun _ => ⟨hlook, fun _ => trivial⟩⟩⟩

theorem uses_handleSessionStart {provisioning : Bool} (hlook : S .look) (htimer : S .timer)
    (hopening : S .opening) (hcursor : S .cursor) (hraise : S .raise) (hawait : S .await)
    (hanswer : provisioning = true → S .answer) (seq : UInt8) (body : List UInt8) :
    Uses S (handleSessionStart provisioning seq body) := by
  refine ⟨hlook, fun v => ?_⟩
  change Uses S (ite _ _ _)
  split
  · exact uses_sendErr hlook ..
  refine ⟨hlook, fun v => ?_⟩
  change Uses S (ite _ _ (ite _ _ _))
  split
  · exact uses_sendErr hlook ..
  split
  · exact uses_sendErr hlook ..
  refine uses_bind (uses_sessionConsent hlook hcursor hraise hawait hanswer) fun allowed => ?_
  split
  · refine ⟨hopening, fun _ => ?_⟩
    change Uses S (resetSessionTimer >>= fun _ => _)
    exact uses_bind (uses_resetSessionTimer htimer) fun _ => uses_sendResponse hlook ..
  · exact uses_sendErr hlook ..

theorem uses_handleSessionEnd (hlook : S .look) (htimer : S .timer) (hslot : S .slot)
    (hclosing : S .closing) (seq : UInt8) : Uses S (handleSessionEnd seq) :=
  uses_bind (uses_closeSession hlook htimer hslot hclosing) fun _ => uses_sendErr hlook ..

theorem uses_handleOther (hlook : S .look) (seq cmd : UInt8) (body : List UInt8) :
    Uses S (handleOther seq cmd body) := ⟨hlook, fun _ => uses_sendResponse hlook ..⟩

theorem uses_sizeOrCount (hlook : S .look) (path : Path) (ent : Dirent) :
    Uses S (sizeOrCount path ent) := by
  rw [sizeOrCount]
  split
  · exact ⟨hlook, fun _ => trivial⟩
  · exact ⟨hlook, fun _ => trivial⟩

theorem uses_listEntries (hlook : S .look) (path : Path) (entries : List Dirent)
    (buf : List UInt8) (count : Nat) : Uses S (listEntries path entries buf count) := by
  induction entries generalizing buf count with
  | nil => trivial
  | cons ent rest ih =>
      rw [listEntries]
      split
      · exact ih buf count
      · split
        · trivial
        · exact uses_bind (uses_sizeOrCount hlook path ent) fun _ => ih _ _

theorem uses_handleFsListDir (hlook : S .look) (seq : UInt8) (body : List UInt8) :
    Uses S (handleFsListDir seq body) := by
  rw [handleFsListDir]
  split
  · exact uses_sendErr hlook ..
  · rename_i path _
    refine ⟨hlook, fun dir => ?_⟩
    cases dir with
    | none => exact uses_sendErr hlook ..
    | some entries =>
        change Uses S (listEntries path entries [] 0 >>= _)
        exact uses_bind (uses_listEntries hlook path entries [] 0) fun _ =>
          uses_sendResponse hlook ..

theorem uses_makeParentDirs (hchange : S .change) (path : Path) :
    Uses S (makeParentDirs path) :=
  Task.all_forM _ fun _ _ => ⟨hchange, fun _ => trivial⟩

theorem uses_handleFsMkdir (hlook : S .look) (hchange : S .change) (seq : UInt8)
    (body : List UInt8) : Uses S (handleFsMkdir seq body) := by
  rw [handleFsMkdir]
  split
  · exact uses_sendErr hlook ..
  · refine uses_bind (uses_makeParentDirs hchange _) fun _ => ⟨hchange, fun failed => ?_⟩
    rcases failed with _ | _ | _ | _ <;> exact uses_sendErr hlook ..

theorem uses_handleFsRemove (hlook : S .look) (hchange : S .change) (seq : UInt8)
    (body : List UInt8) : Uses S (handleFsRemove seq body) := by
  rw [handleFsRemove]
  split
  · exact uses_sendErr hlook ..
  · refine ⟨hchange, fun failed => ?_⟩
    rcases failed with _ | _ | _ | _ <;> exact uses_sendErr hlook ..

theorem uses_handleFsRename (hlook : S .look) (hchange : S .change) (seq : UInt8)
    (body : List UInt8) : Uses S (handleFsRename seq body) := by
  rw [handleFsRename]
  split
  · exact uses_sendErr hlook ..
  · split
    · exact uses_sendErr hlook ..
    · refine ⟨hchange, fun failed => ?_⟩
      rcases failed with _ | _ | _ | _ <;> exact uses_sendErr hlook ..

theorem uses_beginUpload (hlook : S .look) (hchange : S .change) (hcreate : S .create)
    (hslot : S .slot) (seq : UInt8) (body : List UInt8) : Uses S (beginUpload seq body) := by
  rw [beginUpload]
  split
  · exact uses_sendErr hlook ..
  · split
    · exact uses_sendErr hlook ..
    · refine uses_bind (uses_makeParentDirs hchange _) fun _ => ⟨hcreate, fun opened => ?_⟩
      cases opened with
      | error e => exact uses_sendErr hlook ..
      | ok fp => exact ⟨hslot, fun _ => uses_sendResponse hlook ..⟩

theorem uses_writeChunk (hlook : S .look) (hslot : S .slot) (seq idx0 idx1 : UInt8)
    (data : List UInt8) : Uses S (writeChunk seq idx0 idx1 data) := by
  refine ⟨hlook, fun v => ⟨hslot, fun (took : Nat) => ?_⟩⟩
  change Uses S (ite _ _ _)
  split
  · exact uses_bind (uses_dropTransfer hlook hslot) fun _ => uses_sendErr hlook ..
  · exact ⟨hlook, fun _ => ⟨hslot, fun _ => ⟨hlook, fun _ => ⟨hslot, fun _ =>
      uses_sendResponse hlook ..⟩⟩⟩⟩

theorem uses_handleFsUploadChunk (hlook : S .look) (hslot : S .slot) (seq : UInt8)
    (body : List UInt8) : Uses S (handleFsUploadChunk seq body) := by
  refine ⟨hlook, fun v => ?_⟩
  change Uses S (ite _ _ _)
  split
  · exact uses_sendErr hlook ..
  split
  · refine ⟨hlook, fun v => ?_⟩
    change Uses S (ite _ _ _)
    split
    · exact uses_sendErr hlook ..
    refine ⟨hlook, fun v => ?_⟩
    change Uses S (ite _ (ite _ _ _) _)
    split_ifs
    · exact uses_sendResponse hlook ..
    · exact uses_bind (uses_dropTransfer hlook hslot) fun _ => uses_sendErr hlook ..
    · exact uses_writeChunk hlook hslot ..
  · exact uses_sendErr hlook ..

theorem uses_handleFsUploadEnd (hlook : S .look) (hslot : S .slot) (seq : UInt8)
    (body : List UInt8) : Uses S (handleFsUploadEnd seq body) := by
  refine ⟨hlook, fun v => ?_⟩
  change Uses S (ite _ _ _)
  split
  · exact uses_sendErr hlook ..
  split
  · refine ⟨hlook, fun v => ?_⟩
    change Uses S (ite _ _ _)
    split
    · exact uses_sendErr hlook ..
    refine ⟨hlook, fun v => ⟨hslot, fun _ => ?_⟩⟩
    change Uses S (dropTransfer >>= fun _ => _)
    refine uses_bind (uses_dropTransfer hlook hslot) fun _ => ⟨hlook, fun v => ?_⟩
    change Uses S (ite _ _ _)
    split_ifs
    · exact uses_sendErr hlook ..
    · exact uses_sendErr hlook ..
  · exact uses_sendErr hlook ..

theorem uses_beginDownload (hlook : S .look) (hslot : S .slot) (seq : UInt8)
    (body : List UInt8) : Uses S (beginDownload seq body) := by
  rw [beginDownload]
  split
  · exact uses_sendErr hlook ..
  · refine ⟨hslot, fun opened => ?_⟩
    rcases opened with (_ | _ | _) | fp
    · exact uses_sendErr hlook ..
    · exact uses_sendErr hlook ..
    · exact uses_sendErr hlook ..
    · refine ⟨hslot, fun size => ?_⟩
      cases size with
      | none => exact ⟨hslot, fun _ => uses_sendErr hlook ..⟩
      | some sz => exact ⟨hslot, fun _ => ⟨hslot, fun _ => uses_sendResponse hlook ..⟩⟩

theorem uses_handleFsDlChunk (hlook : S .look) (hslot : S .slot) (seq : UInt8)
    (body : List UInt8) : Uses S (handleFsDlChunk seq body) := by
  refine ⟨hlook, fun v => ?_⟩
  change Uses S (ite _ _ _)
  split
  · exact uses_sendErr hlook ..
  split
  · refine ⟨hlook, fun v => ?_⟩
    change Uses S (ite _ _ _)
    split
    · exact uses_sendErr hlook ..
    refine ⟨hlook, fun v => ?_⟩
    change Uses S (ite _ _ _)
    split
    · exact uses_sendErr hlook ..
    refine ⟨hlook, fun v => ⟨hslot, fun found => ?_⟩⟩
    change Uses S (ite _ _ _)
    split
    · exact uses_sendErr hlook ..
    refine ⟨hlook, fun v => ⟨hslot, fun data => ?_⟩⟩
    cases data with
    | none => exact uses_sendErr hlook ..
    | some data => exact uses_sendResponse hlook ..
  · exact uses_sendErr hlook ..

theorem uses_handleFsDlEnd (hlook : S .look) (hslot : S .slot) (seq : UInt8)
    (body : List UInt8) : Uses S (handleFsDlEnd seq body) := by
  refine ⟨hlook, fun v => ?_⟩
  change Uses S (ite _ _ _)
  split
  · exact uses_sendErr hlook ..
  refine ⟨hlook, fun v => ?_⟩
  change Uses S (ite _ _ _)
  split
  · exact uses_sendErr hlook ..
  · exact uses_bind (uses_dropTransfer hlook hslot) fun _ => uses_sendErr hlook ..

theorem uses_handleApplyBackup (hlook : S .look) (hcursor : S .cursor) (hraise : S .raise)
    (hawait : S .await) (hbackup : S .backup) (hrestart : S .restart) (seq : UInt8)
    (body : List UInt8) : Uses S (handleApplyBackup seq body) := by
  rw [handleApplyBackup]
  split
  · exact uses_sendErr hlook ..
  refine ⟨hlook, fun room => ?_⟩
  change Uses S (ite _ _ _)
  split
  · exact uses_sendErr hlook ..
  refine ⟨hlook, fun content => ?_⟩
  rcases content with (_ | _) | text
  · exact uses_sendErr hlook ..
  · exact uses_sendErr hlook ..
  refine ⟨hlook, fun valid => ?_⟩
  change Uses S (ite _ _ _)
  split
  · exact uses_sendErr hlook ..
  refine ⟨hlook, fun _ => ?_⟩
  change Uses S (askUser .backupPending 0 >>= _)
  refine uses_bind (uses_askUser hlook hcursor hraise hawait (by decide) 0) fun allowed => ?_
  split
  · refine ⟨hbackup, fun applied => ?_⟩
    cases (show Bool from applied) with
    | false => exact uses_sendErr hlook ..
    | true => exact ⟨hlook, fun _ => ⟨hrestart, fun _ => trivial⟩⟩
  · exact uses_sendErr hlook ..

theorem uses_handleCommand {provisioning : Bool} {cmd : UInt8} (hlook : S .look)
    (hstart : cmd = SmpCmd.sessionStart →
      S .timer ∧ S .opening ∧ S .cursor ∧ S .raise ∧ S .await ∧
        (provisioning = true → S .answer))
    (hend : cmd = SmpCmd.sessionEnd → S .timer ∧ S .slot ∧ S .closing)
    (hchange : cmd ∈ [SmpCmd.fsMkdir, SmpCmd.fsRemove, SmpCmd.fsRename, SmpCmd.fsUploadBegin] →
      S .change)
    (hcreate : cmd = SmpCmd.fsUploadBegin → S .create)
    (hslot : cmd ∈ [SmpCmd.fsUploadBegin, SmpCmd.fsUploadChunk, SmpCmd.fsUploadEnd,
      SmpCmd.fsDlBegin, SmpCmd.fsDlChunk, SmpCmd.fsDlEnd] → S .slot)
    (hbackup : cmd = SmpCmd.applyBackup →
      S .cursor ∧ S .raise ∧ S .await ∧ S .backup ∧ S .restart)
    (seq : UInt8) (body : List UInt8) :
    Uses S (handleCommand provisioning seq cmd body) := by
  refine uses_ite (fun h => ?_) fun _ => uses_ite (fun h => ?_) fun _ => uses_ite (fun _ => ?_)
    fun _ => uses_ite (fun _ => ?_) fun _ => uses_ite (fun _ => ?_) fun _ => uses_ite (fun h => ?_)
    fun _ => uses_ite (fun h => ?_) fun _ => uses_ite (fun h => ?_) fun _ => uses_ite (fun h => ?_)
    fun _ => uses_ite (fun h => ?_) fun _ => uses_ite (fun h => ?_) fun _ => uses_ite (fun h => ?_)
    fun _ => uses_ite (fun h => ?_) fun _ => uses_ite (fun h => ?_) fun _ => uses_ite (fun h => ?_)
    fun _ => uses_ite (fun _ => ?_) fun _ => uses_sendErr hlook seq _
  · obtain ⟨htimer, hopening, hcursor, hraise, hawait, hanswer⟩ := hstart h
    exact uses_handleSessionStart hlook htimer hopening hcursor hraise hawait hanswer seq body
  · obtain ⟨htimer, hslot, hclosing⟩ := hend h
    exact uses_handleSessionEnd hlook htimer hslot hclosing seq
  · exact uses_handleOther hlook seq cmd body
  · exact uses_sendErr hlook seq _
  · exact uses_handleFsListDir hlook seq body
  · exact uses_handleFsMkdir hlook (hchange (by simp [h])) seq body
  · exact uses_handleFsRemove hlook (hchange (by simp [h])) seq body
  · exact uses_handleFsRename hlook (hchange (by simp [h])) seq body
  · have hupload := uses_beginUpload hlook (hchange (by simp [h])) (hcreate h)
      (hslot (by simp [h])) seq body
    exact ⟨hlook, fun v => uses_ite (fun _ => uses_sendErr hlook seq _) fun _ => hupload⟩
  · exact uses_handleFsUploadChunk hlook (hslot (by simp [h])) seq body
  · exact uses_handleFsUploadEnd hlook (hslot (by simp [h])) seq body
  · have hdownload := uses_beginDownload hlook (hslot (by simp [h])) seq body
    exact ⟨hlook, fun v => uses_ite (fun _ => uses_sendErr hlook seq _) fun _ => hdownload⟩
  · exact uses_handleFsDlChunk hlook (hslot (by simp [h])) seq body
  · exact uses_handleFsDlEnd hlook (hslot (by simp [h])) seq body
  · obtain ⟨hcursor, hraise, hawait, hbackup, hrestart⟩ := hbackup h
    exact uses_handleApplyBackup hlook hcursor hraise hawait hbackup hrestart seq body
  · exact uses_ite (fun _ => uses_sendErr hlook seq _) fun _ => uses_handleOther hlook ..

theorem uses_dispatchCommand {provisioning : Bool} {payload : List UInt8} (hlook : S .look)
    (htimer : S .timer)
    (hcommand : ∀ seq cmd flags body, payload = seq :: cmd :: flags :: body →
      Uses S (handleCommand provisioning seq cmd body)) :
    Uses S (dispatchCommand provisioning payload) := by
  match payload with
  | [] => trivial
  | [_] => trivial
  | [_, _] => trivial
  | seq :: cmd :: flags :: body =>
      refine uses_load hlook fun v => uses_ite (fun _ => uses_sendErr hlook ..) fun _ => ?_
      refine uses_load hlook fun v => uses_bind (uses_resetTimerIf htimer _) fun _ => ?_
      exact hcommand seq cmd flags body rfl

theorem uses_rxFrame {provisioning : Bool} {payload : List UInt8} (hframe : S .frame)
    (hlook : S .look) (htimer : S .timer)
    (hcommand : ∀ seq cmd flags body, payload = seq :: cmd :: flags :: body →
      Uses S (handleCommand provisioning seq cmd body)) :
    Uses S (rxFrame provisioning payload) :=
  ⟨hframe, fun _ => uses_dispatchCommand hlook htimer hcommand⟩

theorem uses_handleDialogKey (hlook : S .look) (hcursor : S .cursor) (hanswer : S .answer)
    (action : Action) : Uses S (handleDialogKey action) := by
  cases action with
  | left => exact ⟨hcursor, fun _ => trivial⟩
  | right => exact ⟨hcursor, fun _ => trivial⟩
  | ok => exact ⟨hlook, fun _ => ⟨hanswer, fun _ => ⟨hanswer, fun _ => ⟨hanswer, fun _ =>
      trivial⟩⟩⟩⟩
  | _ => trivial

theorem uses_needsRender (hlook : S .look) : Uses S needsRender := by
  refine ⟨hlook, fun v => ?_⟩
  change Uses S (ite _ _ _)
  split
  · trivial
  · exact ⟨hlook, fun _ => trivial⟩

theorem uses_handleAction (hlook : S .look) (htimer : S .timer) (hcursor : S .cursor)
    (hanswer : S .answer) (hslot : S .slot) (hclosing : S .closing) (action : Action) :
    Uses S (handleAction action) := by
  refine ⟨hlook, fun v => ?_⟩
  change Uses S (ite _ _ _)
  split
  · exact uses_handleDialogKey hlook hcursor hanswer action
  refine ⟨hlook, fun v => ?_⟩
  change Uses S (ite _ (ite _ _ _) _)
  split_ifs
  · exact ⟨hlook, fun _ => uses_closeSession hlook htimer hslot hclosing⟩
  · trivial
  · trivial

theorem uses_takeKey (hkey : S .key) (hlook : S .look) (htimer : S .timer)
    (hcursor : S .cursor) (hanswer : S .answer) (hslot : S .slot) (hclosing : S .closing)
    (action : Action) : Uses S (takeKey action) := by
  refine ⟨hkey, fun _ => ⟨hlook, fun v => ?_⟩⟩
  change Uses S (ite _ _ _)
  split
  · trivial
  refine uses_bind (uses_needsRender hlook) fun needs => ?_
  split
  · exact uses_handleAction hlook htimer hcursor hanswer hslot hclosing action
  · trivial

theorem uses_launchAppFrom (hlaunch : S .launch) (hpublish : S .publish) (happ : S .app)
    (background : Bool) : Uses S (launchAppFrom background) := by
  have hrest : Uses S (do
      store (.activeSdkContext true)
      let created : Bool ← call .createTask
      store (.sdTask created)
      if !created then store (.activeSdkContext false)
      return created) := by
    refine ⟨hpublish, fun _ => ⟨happ, fun created => ⟨happ, fun _ => ?_⟩⟩⟩
    cases (show Bool from created) with
    | false => exact ⟨happ, fun _ => trivial⟩
    | true => trivial
  refine ⟨hlaunch, fun ready => ?_⟩
  cases (show Bool from ready) with
  | false => trivial
  | true =>
      cases background with
      | false => exact hrest
      | true => exact ⟨happ, fun _ => hrest⟩

theorem uses_teardownSdApp (happ : S .app) : Uses S teardownSdApp :=
  ⟨happ, fun _ => ⟨happ, fun _ => trivial⟩⟩

theorem uses_appBgTeardown (happ : S .app) : Uses S appBgTeardown :=
  ⟨happ, fun _ => ⟨happ, fun _ => ⟨happ, fun _ => trivial⟩⟩⟩

theorem uses_appBgLaunch (hlook : S .look) (hlaunch : S .launch) (hpublish : S .publish)
    (happ : S .app) : Uses S appBgLaunch := by
  refine ⟨hlook, fun v => ?_⟩
  change Uses S (ite _ _ _)
  split
  · trivial
  refine uses_bind (uses_launchAppFrom hlaunch hpublish happ true) fun launched => ?_
  split
  · trivial
  · exact ⟨happ, fun _ => trivial⟩

theorem uses_launchOpenApp (hlook : S .look) (hlaunch : S .launch) (hpublish : S .publish)
    (happ : S .app) (screen : Screen) : Uses S (launchOpenApp screen) := by
  refine ⟨hlook, fun v => ?_⟩
  change Uses S (ite _ _ _)
  split
  · refine ⟨hlook, fun v => ?_⟩
    change Uses S (ite _ _ _)
    split
    · trivial
    · exact uses_launchAppFrom hlaunch hpublish happ false
  · trivial

theorem uses_superviseBackground (hlook : S .look) (hlaunch : S .launch)
    (hpublish : S .publish) (happ : S .app) (hrestart : S .restart) (screen : Screen)
    (sdAppOpen : Bool) : Uses S (superviseBackground screen sdAppOpen) := by
  refine ⟨hlook, fun v => ?_⟩
  change Uses S (ite _ _ (ite _ _ _))
  split_ifs
  · refine ⟨hlook, fun finished => ?_⟩
    cases (show Bool from finished) with
    | true => exact uses_appBgTeardown happ
    | false =>
        refine ⟨hlook, fun overrun => ?_⟩
        cases (show Bool from overrun) with
        | true => exact ⟨hrestart, fun _ => trivial⟩
        | false => trivial
  · refine uses_bind (uses_needsRender hlook) fun needs => ?_
    split
    · refine ⟨hlook, fun due => ?_⟩
      cases (show Bool from due) with
      | true => exact uses_appBgLaunch hlook hlaunch hpublish happ
      | false => trivial
    · trivial
  · trivial

theorem uses_appTurn (hlook : S .look) (hlaunch : S .launch) (hpublish : S .publish)
    (happ : S .app) (hrestart : S .restart) (screen : Screen) : Uses S (appTurn screen) := by
  have hrest : Uses S (do
      let sdAppOpen ← launchOpenApp screen
      superviseBackground screen sdAppOpen
      let v ← load
      if v.sdTask && !v.bgRunActive then
        let closeRequested : Bool ← call .closeRequested
        if closeRequested then teardownSdApp) := by
    refine uses_bind (uses_launchOpenApp hlook hlaunch hpublish happ screen) fun _ => ?_
    refine uses_bind (uses_superviseBackground hlook hlaunch hpublish happ hrestart ..)
      fun _ => ⟨hlook, fun v => ?_⟩
    change Uses S (ite _ _ _)
    split
    · refine ⟨hlook, fun closeRequested => ?_⟩
      cases (show Bool from closeRequested) with
      | true => exact uses_teardownSdApp happ
      | false => trivial
    · trivial
  refine ⟨hlook, fun v => ?_⟩
  change Uses S (ite _ _ _)
  split
  · exact uses_bind (uses_appBgTeardown happ) fun _ => hrest
  · exact hrest

end Uses

end Smp
end JppDos
