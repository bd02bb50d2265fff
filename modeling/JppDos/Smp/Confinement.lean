import JppDos.Smp.Handlers

/-!
# The paths of the file commands

Which paths the file commands of the serial manager hand to the file system, and where these
lead.
-/

namespace JppDos
namespace Smp

open CText Paths Serial

/-- The way to the root of the card. -/
def sdRoot : List Segment := [ascii "sd"]

/-- A program hands no path to the file system that does not lead to the card. -/
def Confined (t : Code Unit) : Prop := t.All fun a => ∀ p ∈ a.paths, Below sdRoot p

/-- The commands with paths in their bodies. -/
inductive FileCommand
  | listDir
  | mkdir
  | remove
  | rename
  | uploadBegin
  | dlBegin
  | applyBackup
deriving DecidableEq

namespace FileCommand

/-- The handler of a command. -/
def handle (seq : UInt8) (body : List UInt8) : FileCommand → Code Unit
  | listDir => handleFsListDir seq body
  | mkdir => handleFsMkdir seq body
  | remove => handleFsRemove seq body
  | rename => handleFsRename seq body
  | uploadBegin => handleFsUploadBegin seq body
  | dlBegin => handleFsDlBegin seq body
  | applyBackup => handleApplyBackup seq body

/-- The commands that begin a transfer, and are refused while one is active. -/
def begins : FileCommand → Bool
  | uploadBegin | dlBegin => true
  | _ => false

/-- The handler of a command while a transfer is active, or while none is. -/
def handleWhile (seq : UInt8) (busy : Bool) (body : List UInt8) : FileCommand → Code Unit
  | uploadBegin => if busy then sendErr seq SmpSt.errTransfer else beginUpload seq body
  | dlBegin => if busy then sendErr seq SmpSt.errTransfer else beginDownload seq body
  | c => c.handle seq body

/-- The paths that a body names, whatever they are. -/
def named (body : List UInt8) : FileCommand → List Path
  | rename =>
      match renamePaths body with
      | some (src, dst) => [src, dst]
      | none => []
  | uploadBegin =>
      match uploadPath body with
      | some (_, path) => [path]
      | none => []
  | _ => if body.getLast? = some 0 then [cString body] else []

/-- What a handler cuts from a path besides using it: the text in front of each slash within
the first 255 bytes, or the first 511 bytes. -/
def cuts (path : Path) : FileCommand → List Path
  | listDir => [path.take 511]
  | mkdir | uploadBegin => parentDirs ((path.take 255).take 1) ((path.take 255).drop 1)
  | _ => []

/-- The command does not leave the card: it hands no path to the file system that leads
elsewhere, and a body that names such a path is answered with `ERR_INVALID` and nothing
else. -/
def Confines (c : FileCommand) (busy : Bool) (body : List UInt8) : Prop :=
  ∀ seq, Confined (c.handleWhile seq busy body) ∧
    ((∃ p ∈ c.named body, ¬ Below sdRoot p) →
      c.handleWhile seq busy body = sendErr seq SmpSt.errInvalid)

/-- A command that is refused because of an active transfer names only paths that lead to the
card.  For any other command, the paths of the body and what is cut from them lead to the
card, unless one of the paths fails the test of its first bytes. -/
def StaysOnCard (c : FileCommand) (busy : Bool) (body : List UInt8) : Prop :=
  if c.begins && busy then ∀ p ∈ c.named body, Below sdRoot p
  else (∀ p ∈ c.named body, sdPrefixOk p = true) →
    ∀ p ∈ c.named body, Below sdRoot p ∧ ∀ q ∈ c.cuts p, Below sdRoot q

end FileCommand

theorem no_paths {a : Act} (h : a.paths = []) : ∀ p ∈ a.paths, Below sdRoot p := by
  simp [h]

theorem one_path {a : Act} {path : Path} (h : a.paths = [path]) :
    (∀ p ∈ a.paths, Below sdRoot p) ↔ Below sdRoot path := by
  simp [h]

theorem confined_sendResponse (seq status : UInt8) (body : List UInt8) :
    Confined (sendResponse seq status body) := ⟨no_paths rfl, fun _ => trivial⟩

theorem confined_sendErr (seq status : UInt8) : Confined (sendErr seq status) :=
  confined_sendResponse seq status []

/-- The name of an entry that is not hidden leads no way up, even when it is cut. -/
theorem below_name {dirs : List Segment} {path : Path} (h : Below dirs path) {name : CStr}
    (hslash : slash ∉ name.val) (hdot : name.val.head? ≠ some dot) (n : Nat) :
    Below dirs (path ++ slash :: name.val.take n) := by
  have hseg : segments (name.val.take n) = [name.val.take n] :=
    segments_name fun hmem => hslash (List.mem_of_mem_take hmem)
  have hparent : parent ∉ segments (name.val.take n) := by
    rw [hseg, List.mem_singleton]
    intro heq
    have hhead : (name.val.take n).head? = some dot := by rw [← heq]; rfl
    rw [List.head?_take] at hhead
    split at hhead
    · exact absurd hhead (by simp)
    · exact hdot hhead
  rw [Below, resolve_join]
  exact List.IsPrefix.trans h (prefix_foldl_walk hparent _)

/-- The path of an entry leads to the card if its directory and the cut directory do. -/
theorem below_childPath {path : Path} (h : Below sdRoot path)
    (hcut : Below sdRoot (path.take 511)) {ent : Dirent} (hhidden : ent.hidden = false) :
    Below sdRoot (childPath path ent.name) := by
  rw [childPath, List.take_append]
  by_cases hlen : 511 ≤ path.length
  · rw [show 511 - path.length = 0 from Nat.sub_eq_zero_of_le hlen, List.take_zero,
      List.append_nil]
    exact hcut
  · obtain ⟨n, hn⟩ : ∃ n, 511 - path.length = n + 1 :=
      ⟨511 - path.length - 1, by omega⟩
    rw [hn, List.take_succ_cons, List.take_of_length_le (by omega)]
    exact below_name h ent.noSlash (by simpa [Dirent.hidden] using hhidden) n

theorem confined_sizeOrCount {path : Path} {ent : Dirent}
    (h : Below sdRoot (childPath path ent.name)) :
    (sizeOrCount path ent).All fun a => ∀ p ∈ a.paths, Below sdRoot p := by
  rw [sizeOrCount]
  split
  · exact ⟨(one_path rfl).mpr h, fun _ => trivial⟩
  · exact ⟨(one_path rfl).mpr h, fun _ => trivial⟩

theorem confined_listEntries {path : Path} (h : Below sdRoot path)
    (hcut : Below sdRoot (path.take 511)) (entries : List Dirent) (buf : List UInt8)
    (count : Nat) :
    (listEntries path entries buf count).All fun a => ∀ p ∈ a.paths, Below sdRoot p := by
  induction entries generalizing buf count with
  | nil => trivial
  | cons ent rest ih =>
      rw [listEntries]
      split
      · exact ih buf count
      · rename_i hhidden
        have hchild : Below sdRoot (childPath path ent.name) :=
          below_childPath h hcut (by simpa using hhidden)
        split
        · trivial
        · exact Task.all_bind (confined_sizeOrCount hchild) fun _ => ih _ _

/-- A listing shows the file system the directory and the paths of its entries. -/
theorem confined_listDir (seq : UInt8) (path : Path) :
    Confined (listDir seq path) ↔ Below sdRoot path ∧ Below sdRoot (path.take 511) := by
  constructor
  · intro h
    have hpath : Below sdRoot path := (one_path rfl).mp h.1
    refine ⟨hpath, ?_⟩
    by_cases hlen : 511 ≤ path.length
    · -- an entry of a directory with a long path shows the cut path
      let ent : Dirent := ⟨CStr.ofBytes (ascii "a"), false, by decide⟩
      have hchild : Below sdRoot (childPath path ent.name) :=
        (one_path rfl).mp (h.2 (some [ent])).1
      rwa [childPath, List.take_append_of_le_length hlen] at hchild
    · rwa [List.take_of_length_le (by omega)]
  · rintro ⟨h, hcut⟩
    refine ⟨(one_path rfl).mpr h, fun dir => ?_⟩
    cases dir with
    | none => exact confined_sendErr ..
    | some entries =>
        change Task.All _ (listEntries path entries [] 0 >>= _)
        exact Task.all_bind (confined_listEntries h hcut entries [] 0) fun _ =>
          confined_sendResponse ..

theorem confined_makeParentDirs_bind {path : Path} {t : Code Unit} :
    Confined (makeParentDirs path >>= fun _ => t) ↔
      (∀ q ∈ parentDirs ((path.take 255).take 1) ((path.take 255).drop 1), Below sdRoot q) ∧
        Confined t := by
  rw [makeParentDirs]
  induction parentDirs ((path.take 255).take 1) ((path.take 255).drop 1) with
  | nil => exact ⟨fun h => ⟨fun q hq => absurd hq List.not_mem_nil, h⟩, fun h => h.2⟩
  | cons dir dirs ih =>
      rw [List.forall_mem_cons, and_assoc, ← ih]
      constructor
      · intro h
        exact ⟨(one_path rfl).mp h.1, h.2 none⟩
      · rintro ⟨hdir, hrest⟩
        exact ⟨(one_path rfl).mpr hdir, fun _ => hrest⟩

theorem confined_makeDir (seq : UInt8) (path : Path) :
    Confined (makeDir seq path) ↔ Below sdRoot path ∧
      ∀ q ∈ parentDirs ((path.take 255).take 1) ((path.take 255).drop 1), Below sdRoot q := by
  rw [makeDir, confined_makeParentDirs_bind, and_comm]
  refine and_congr_left fun _ => ⟨fun h => (one_path rfl).mp h.1, fun h => ?_⟩
  refine ⟨(one_path rfl).mpr h, fun failed => ?_⟩
  rcases failed with _ | _ | _ | _ <;> exact confined_sendErr ..

theorem confined_removeFile (seq : UInt8) (path : Path) :
    Confined (removeFile seq path) ↔ Below sdRoot path := by
  refine ⟨fun h => (one_path rfl).mp h.1, fun h => ?_⟩
  refine ⟨(one_path rfl).mpr h, fun failed => ?_⟩
  rcases failed with _ | _ | _ | _ <;> exact confined_sendErr ..

theorem confined_renameFile (seq : UInt8) (src dst : Path) :
    Confined (renameFile seq src dst) ↔ Below sdRoot src ∧ Below sdRoot dst := by
  have hpaths : (∀ p ∈ (Act.rename src dst).paths, Below sdRoot p) ↔
      Below sdRoot src ∧ Below sdRoot dst := by simp [Act.paths]
  refine ⟨fun h => hpaths.mp h.1, fun h => ?_⟩
  refine ⟨hpaths.mpr h, fun failed => ?_⟩
  rcases failed with _ | _ | _ | _ <;> exact confined_sendErr ..

theorem confined_openUpload (seq : UInt8) (fileSize : UInt32) (path : Path) :
    Confined (openUpload seq fileSize path) ↔ Below sdRoot path ∧
      ∀ q ∈ parentDirs ((path.take 255).take 1) ((path.take 255).drop 1), Below sdRoot q := by
  rw [openUpload, confined_makeParentDirs_bind, and_comm]
  refine and_congr_left fun _ => ⟨fun h => (one_path rfl).mp h.1, fun h => ?_⟩
  refine ⟨(one_path rfl).mpr h, fun opened => ?_⟩
  cases opened with
  | error e => exact confined_sendErr ..
  | ok fp => exact ⟨no_paths rfl, fun _ => confined_sendResponse ..⟩

theorem confined_openDownload (seq : UInt8) (path : Path) :
    Confined (openDownload seq path) ↔ Below sdRoot path := by
  refine ⟨fun h => (one_path rfl).mp h.1, fun h => ?_⟩
  refine ⟨(one_path rfl).mpr h, fun opened => ?_⟩
  rcases opened with (_ | _ | _) | fp
  · exact confined_sendErr ..
  · exact confined_sendErr ..
  · exact confined_sendErr ..
  · refine ⟨no_paths rfl, fun size => ?_⟩
    cases size with
    | none => exact ⟨no_paths rfl, fun _ => confined_sendErr ..⟩
    | some sz =>
        refine ⟨no_paths rfl, fun content => ?_⟩
        exact ⟨no_paths rfl, fun _ => confined_sendResponse ..⟩

theorem confined_confirmBackup (seq : UInt8) (path : Path) (text : List UInt8) :
    Confined (confirmBackup seq path text) := by
  have hask : (askUser .backupPending 0).All fun a => ∀ p ∈ a.paths, Below sdRoot p :=
    ⟨no_paths rfl, fun _ => ⟨no_paths rfl, fun _ => ⟨no_paths rfl, fun _ =>
      ⟨no_paths rfl, fun _ => trivial⟩⟩⟩⟩
  refine ⟨no_paths rfl, fun _ => ?_⟩
  change Task.All _ (askUser .backupPending 0 >>= _)
  refine Task.all_bind hask fun allowed => ?_
  cases allowed with
  | false => exact confined_sendErr ..
  | true =>
      refine ⟨no_paths rfl, fun applied => ?_⟩
      cases (show Bool from applied) with
      | false => exact confined_sendErr ..
      | true => exact ⟨no_paths rfl, fun _ => ⟨no_paths rfl, fun _ => trivial⟩⟩

theorem confined_readBackup (seq : UInt8) (path : Path) :
    Confined (readBackup seq path) ↔ Below sdRoot path := by
  constructor
  · intro h
    exact (one_path rfl).mp (h.2 true).1
  · intro h
    refine ⟨no_paths rfl, fun room => ?_⟩
    cases (show Bool from room) with
    | false => exact confined_sendErr ..
    | true =>
        refine ⟨(one_path rfl).mpr h, fun content => ?_⟩
        rcases content with (_ | _) | text
        · exact confined_sendErr ..
        · exact confined_sendErr ..
        · refine ⟨no_paths rfl, fun valid => ?_⟩
          cases (show Bool from valid) with
          | false => exact confined_sendErr ..
          | true => exact confined_confirmBackup ..

/-- A handler that tests the first bytes of a path, and then hands the path and its cuts to
the file system. -/
theorem confines_checked {f : UInt8 → Path → Code Unit} {cuts : Path → List Path}
    (hf : ∀ seq p, Confined (f seq p) ↔ Below sdRoot p ∧ ∀ q ∈ cuts p, Below sdRoot q)
    {t : UInt8 → Code Unit} {named : List Path} (hnamed : named.length ≤ 1)
    (hnone : named = [] → ∀ seq, t seq = sendErr seq SmpSt.errInvalid)
    (hsome : ∀ p ∈ named, ∀ seq,
      t seq = if sdPrefixOk p then f seq p else sendErr seq SmpSt.errInvalid) :
    (∀ seq, Confined (t seq) ∧
      ((∃ p ∈ named, ¬ Below sdRoot p) → t seq = sendErr seq SmpSt.errInvalid)) ↔
    ((∀ p ∈ named, sdPrefixOk p = true) →
      ∀ p ∈ named, Below sdRoot p ∧ ∀ q ∈ cuts p, Below sdRoot q) := by
  match named, hnamed with
  | [], _ =>
      refine ⟨fun _ _ p hp => absurd hp List.not_mem_nil, fun _ seq => ?_⟩
      rw [hnone rfl]
      exact ⟨confined_sendErr .., fun _ => rfl⟩
  | [p], _ =>
      simp only [List.mem_singleton, forall_eq, exists_eq_left]
      simp only [List.mem_singleton, forall_eq] at hsome
      by_cases hp : sdPrefixOk p = true
      · simp only [hp, if_true] at hsome
        constructor
        · intro h _
          have hconfined := (h 0).1
          rwa [hsome, hf] at hconfined
        · intro h seq
          rw [hsome, hf]
          exact ⟨h hp, fun hnot => absurd (h hp).1 hnot⟩
      · simp only [hp, Bool.false_eq_true, if_false] at hsome
        refine ⟨fun _ h => absurd h hp, fun _ seq => ?_⟩
        rw [hsome]
        exact ⟨confined_sendErr .., fun _ => rfl⟩

/-- A handler that takes its path with `path_valid_sd`. -/
theorem confines_pathValidSd {f : UInt8 → Path → Code Unit} {cuts : Path → List Path}
    (hf : ∀ seq p, Confined (f seq p) ↔ Below sdRoot p ∧ ∀ q ∈ cuts p, Below sdRoot q)
    (body : List UInt8) {t : UInt8 → Code Unit}
    (ht : ∀ seq, t seq = match pathValidSd body with
      | none => sendErr seq SmpSt.errInvalid
      | some path => f seq path)
    {named : List Path} (hnamed : named = if body.getLast? = some 0 then [cString body] else []) :
    (∀ seq, Confined (t seq) ∧
      ((∃ p ∈ named, ¬ Below sdRoot p) → t seq = sendErr seq SmpSt.errInvalid)) ↔
    ((∀ p ∈ named, sdPrefixOk p = true) →
      ∀ p ∈ named, Below sdRoot p ∧ ∀ q ∈ cuts p, Below sdRoot q) := by
  by_cases hlast : body.getLast? = some 0
  · rw [if_pos hlast] at hnamed
    subst hnamed
    refine confines_checked hf (Nat.le_refl 1) (fun hnil => absurd hnil (by simp)) ?_
    intro p hp seq
    rw [ht, pathValidSd, if_neg (not_not.mpr hlast), List.mem_singleton.mp hp]
    split_ifs <;> rfl
  · rw [if_neg hlast] at hnamed
    subst hnamed
    refine confines_checked hf (Nat.zero_le 1) (fun _ seq => ?_) fun p hp => ?_
    · rw [ht, pathValidSd, if_pos hlast]
    · exact absurd hp List.not_mem_nil

/-- A program that is refused at once stays on the card. -/
theorem confines_refused {t : UInt8 → Code Unit} {named : List Path}
    (ht : ∀ seq, t seq = sendErr seq SmpSt.errTransfer) :
    (∀ seq, Confined (t seq) ∧
      ((∃ p ∈ named, ¬ Below sdRoot p) → t seq = sendErr seq SmpSt.errInvalid)) ↔
    ∀ p ∈ named, Below sdRoot p := by
  have hne : ∀ seq, sendErr seq SmpSt.errTransfer ≠ sendErr seq SmpSt.errInvalid := by
    intro seq heq
    have hact := (Task.act.inj heq).1
    exact absurd hact (by simp [SmpSt.errTransfer, SmpSt.errInvalid])
  constructor
  · intro h p hp
    by_contra hnot
    exact hne 0 ((ht 0).symm.trans ((h 0).2 ⟨p, hp, hnot⟩))
  · intro h seq
    rw [ht]
    refine ⟨confined_sendErr .., ?_⟩
    rintro ⟨p, hp, hnot⟩
    exact absurd (h p hp) hnot

theorem confines_rename (body : List UInt8) :
    FileCommand.rename.Confines false body ↔ FileCommand.rename.StaysOnCard false body := by
  simp only [FileCommand.Confines, FileCommand.StaysOnCard, FileCommand.handleWhile,
    FileCommand.handle, handleFsRename, FileCommand.named, FileCommand.cuts,
    FileCommand.begins, Bool.and_self, Bool.false_eq_true, if_false]
  cases hpaths : renamePaths body with
  | none =>
      simp only [List.not_mem_nil, false_and, exists_false, false_implies, and_true,
        implies_true, iff_true]
      exact fun seq => confined_sendErr ..
  | some paths =>
      obtain ⟨src, dst⟩ := paths
      simp only [List.forall_mem_cons, List.not_mem_nil, false_implies, implies_true, and_true]
      by_cases hstart : sdPrefixOk src = true ∧ sdPrefixOk dst = true
      · simp only [hstart.1, hstart.2, Bool.not_true, Bool.or_self, Bool.false_eq_true,
          if_false, confined_renameFile, and_self, true_implies]
        constructor
        · exact fun h => (h 0).1
        · intro h seq
          refine ⟨h, ?_⟩
          rintro ⟨p, hp, hnot⟩
          rcases List.mem_cons.mp hp with rfl | hp
          · exact absurd h.1 hnot
          · exact absurd (List.mem_singleton.mp hp ▸ h.2) hnot
      · have hrefused : (!sdPrefixOk src || !sdPrefixOk dst) = true := by
          rw [Bool.or_eq_true, Bool.not_eq_true', Bool.not_eq_true', ← Bool.not_eq_true,
            ← Bool.not_eq_true]
          exact not_and_or.mp hstart
        simp only [hrefused, if_true]
        refine ⟨fun _ h => absurd h hstart, fun _ seq => ?_⟩
        exact ⟨confined_sendErr .., fun _ => trivial⟩

/-- The file commands do not leave the card exactly when the paths of their bodies, and what
is cut from these, do not, unless a path fails the test of its first bytes. -/
theorem files_confined_iff (c : FileCommand) (busy : Bool) (body : List UInt8) :
    c.Confines busy body ↔ c.StaysOnCard busy body := by
  have hplain : ∀ p : Path, Below sdRoot p ↔
      Below sdRoot p ∧ ∀ q ∈ ([] : List Path), Below sdRoot q := by simp
  cases c with
  | listDir =>
      refine confines_pathValidSd (f := listDir) (fun seq p => ?_) body (fun seq => rfl) rfl
      rw [confined_listDir]
      simp [FileCommand.cuts]
  | mkdir => exact confines_pathValidSd confined_makeDir body (fun seq => rfl) rfl
  | remove =>
      exact confines_pathValidSd (fun seq p => (confined_removeFile seq p).trans (hplain p))
        body (fun seq => rfl) rfl
  | rename => exact confines_rename body
  | uploadBegin =>
      cases busy with
      | true => exact confines_refused fun seq => rfl
      | false =>
          cases hpath : uploadPath body with
          | none =>
              have hnamed : FileCommand.uploadBegin.named body = [] := by
                rw [FileCommand.named, hpath]
              have ht : ∀ seq, FileCommand.uploadBegin.handleWhile seq false body =
                  sendErr seq SmpSt.errInvalid := by
                intro seq
                simp only [FileCommand.handleWhile, Bool.false_eq_true, if_false, beginUpload,
                  hpath]
              rw [FileCommand.Confines, FileCommand.StaysOnCard, hnamed]
              exact confines_checked (confined_openUpload · 0 ·) (Nat.zero_le 1)
                (fun _ => ht) fun p hp => absurd hp List.not_mem_nil
          | some found =>
              obtain ⟨fileSize, path⟩ := found
              have hnamed : FileCommand.uploadBegin.named body = [path] := by
                rw [FileCommand.named, hpath]
              rw [FileCommand.Confines, FileCommand.StaysOnCard, hnamed]
              refine confines_checked (confined_openUpload · fileSize ·) (Nat.le_refl 1)
                (fun hnil => absurd hnil (by simp)) fun p hp seq => ?_
              obtain rfl := List.mem_singleton.mp hp
              simp only [FileCommand.handleWhile, Bool.false_eq_true, if_false, beginUpload,
                hpath]
              cases sdPrefixOk p <;> rfl
  | dlBegin =>
      cases busy with
      | true => exact confines_refused fun seq => rfl
      | false =>
          exact confines_pathValidSd
            (fun seq p => (confined_openDownload seq p).trans (hplain p)) body
            (fun seq => rfl) rfl
  | applyBackup =>
      exact confines_pathValidSd (fun seq p => (confined_readBackup seq p).trans (hplain p))
        body (fun seq => rfl) rfl

/-- A path that passes the test of its first bytes and leads to the other partition. -/
theorem remove_leaves_card :
    ¬ FileCommand.remove.Confines false (ascii "/sd/../data/grants/notes.json" ++ [0]) := by
  intro h
  have hpath : pathValidSd (ascii "/sd/../data/grants/notes.json" ++ [0]) =
      some (ascii "/sd/../data/grants/notes.json") := by decide
  have hconfined : Confined (handleFsRemove 0 (ascii "/sd/../data/grants/notes.json" ++ [0])) :=
    (h 0).1
  rw [handleFsRemove, hpath] at hconfined
  change Confined (removeFile 0 _) at hconfined
  rw [confined_removeFile] at hconfined
  exact absurd hconfined (by decide)

end Smp
end JppDos
