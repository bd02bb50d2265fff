import JppDos.App.Manifest
import JppDos.Vm.ImportHook

/-!
# The entry file and the entry module

`launch_app_from` checks that the file `<app_root>/<app_id>/<entry>` of a MicroPython app is there;
the runner cuts a module name out of that path and has the interpreter search for it.

Main fact:
* `runsCheckedFile_iff`: the checked file is the one that runs exactly when it lies in place or the
  run fails to load.
-/

namespace JppDos
namespace Vm

open CText Paths Sdk

/-- What there is under a path. -/
inductive Node
  | absent
  | dir
  | file (bytes : List UInt8)
  deriving DecidableEq

/-- The files: what there is under the names on the way from the root. -/
abbrev Disk := List Segment → Node

/-- `stat`; a path that does not start at the root leads nowhere. -/
def Disk.stat (disk : Disk) (path : List UInt8) : Node :=
  if path.head? = some slash then disk (resolve path) else .absent

/-- The record that `launch_app_from` makes of the entry file. -/
def Disk.entryFile (disk : Disk) (path : List UInt8) : App.EntryFile where
  present := disk.stat path ≠ .absent
  sizeBytes :=
    match disk.stat path with
    | .file bytes => bytes.length
    | _ => 0

/-- `.py`. -/
def pySuffix : List UInt8 := ascii ".py"

/-- `.mpy`. -/
def mpySuffix : List UInt8 := ascii ".mpy"

/-- `mp_import_stat`. -/
def mpImportStat (disk : Disk) (path : List UInt8) : Node :=
  if pySuffix.isSuffixOf path then .absent else disk.stat path

/-- There is a directory under the path. -/
def isDir (disk : Disk) (path : List UInt8) : Bool := mpImportStat disk path == .dir

/-- There is a file under the path. -/
def isFile (disk : Disk) (path : List UInt8) : Bool :=
  match mpImportStat disk path with
  | .file _ => true
  | _ => false

/-- Where a module is found: among those that are there already, as a package, as a file. -/
inductive Origin
  | resident (name : List UInt8)
  | package (dir : List UInt8)
  | file (path : List UInt8)
  deriving DecidableEq

/-- A name with `.py` or, if there is no such file, `.mpy` behind it. -/
def pyOrMpy (disk : Disk) (path : List UInt8) : Option (List UInt8) :=
  if isFile disk (path ++ pySuffix) then some (path ++ pySuffix)
  else if isFile disk (path ++ mpySuffix) then some (path ++ mpySuffix)
  else none

/-- The path of a name at a place of `sys.path`. -/
def placePath (place name : List UInt8) : List UInt8 :=
  if place = [] then name else place ++ slash :: name

/-- The search for a module at one place of `sys.path`. -/
def searchAt (disk : Disk) (name place : List UInt8) : Option Origin :=
  if isDir disk (placePath place name) then some (.package (placePath place name))
  else (pyOrMpy disk (placePath place name)).map .file

/-- The search for a module along `sys.path`. -/
def searchPath (disk : Disk) (places : List CStr) (name : List UInt8) : Option Origin :=
  places.findSome? fun place => searchAt disk name place.val

/-- The file whose code runs when a module is loaded. -/
def Origin.executed (disk : Disk) : Origin → Option (List UInt8)
  | .resident _ => none
  | .package dir => pyOrMpy disk (dir ++ ascii "/__init__")
  | .file path => some path

/-- The first part of a dotted name; a dot in front of it belongs to it. -/
def topPart : List UInt8 → List UInt8
  | [] => []
  | c :: rest => c :: rest.takeWhile (· ≠ dot)

/-- The parts behind the first one. -/
def laterParts : List UInt8 → List Segment
  | [] => []
  | _ :: rest =>
      match rest.dropWhile (· ≠ dot) with
      | [] => []
      | _ :: tail => tail.splitOn dot

/-- What the runner takes from the entry module. -/
inductive LoadHook
  | createApp
  | onTask (name : CStr)

/-- What comes of it: there is no such attribute, it is `None`, calling it raises an exception, it
returns; in the last case, whether the calls of the life cycle return as well. -/
inductive HookEffect
  | missing
  | isNone
  | raises
  | returns (clean : Bool)
  deriving DecidableEq

/-- The parts of MicroPython and of the code it runs: the built-in modules, `sys.path` after
`mp_init`, whether a module can be loaded with the parts of a dotted name behind it, and what its
hooks do. -/
structure Python where
  builtin : List UInt8 → Bool
  initialPath : List CStr
  initial_relative : ∀ place ∈ initialPath, place.val.head? ≠ some slash
  loads : Origin → List Segment → Bool
  hook : List UInt8 → LoadHook → HookEffect

/-- The directories that apps are launched from. -/
inductive AppsDir
  | sd
  | embedded

/-- `app_root`. -/
def AppsDir.path : AppsDir → List UInt8
  | .sd => ascii "/sd/apps"
  | .embedded => ascii "/data/apps"

/-- `jpp_mp_runner_result_t`. -/
inductive RunnerResult
  | ok
  | loadFailed
  | noFactory
  | hookError
  deriving DecidableEq

/-- A run of a MicroPython app: the directory, the name of a directory in it, the manifest as it is
read, the task of a headless run, the files, the interpreter, whether there is a heap, and the
places of `sys.path` that there is memory for. -/
structure EntryRun where
  appsDir : AppsDir
  appId : CStr
  appId_name : IsName appId.val
  appId_short : appId.strlen < 32
  json : App.ManifestJson
  bgTask : Option CStr
  disk : Disk
  python : Python
  heap : Bool
  stored : CStr → Bool

namespace EntryRun

variable (r : EntryRun)

/-- The manifest. -/
def manifest : App.Manifest := App.loadSdManifest r.appId r.json

/-- The entry path of the manifest. -/
def entry : List UInt8 := r.manifest.entry.val

/-- `s_sd_app_root`. -/
def appRoot : CStr :=
  (CStr.ofBytes (r.appsDir.path ++ slash :: r.appId.val)).strncpy 160

/-- `abs_entry`, which is also the path that the runner gets. -/
def absEntry : CStr :=
  (CStr.ofBytes (r.appsDir.path ++ slash :: r.appId.val ++ slash :: r.entry)).strncpy 256

/-- `sys.path` after `populate_sys_path`. -/
def sysPath : List CStr :=
  r.python.initialPath ++ populateSysPath (runningContext r.appRoot) r.stored

/-- The module is there before the search: built in or, as `jppsdk`, loaded. -/
def resident (name : List UInt8) : Bool := r.python.builtin name || name == ascii "jppsdk"

/-- The module that the first part of a name leads to. -/
def findTop (name : List UInt8) : Option Origin :=
  if r.resident (topPart name) then some (.resident (topPart name))
  else searchPath r.disk r.sysPath (topPart name)

/-- `mp_builtin___import__`; nothing when it raises an exception. -/
def importName (name : List UInt8) : Option Origin :=
  if name = [] then none
  else (r.findTop name).filter fun origin => r.python.loads origin (laterParts name)

/-- The module that the runner imports. -/
def entryOrigin : Option Origin := r.importName (entryModule r.absEntry).val

/-- What the runner calls. -/
def loadHook : LoadHook :=
  match r.bgTask with
  | none => .createApp
  | some name => .onTask name

/-- What comes of the hook of a module; only the code of a file defines one. -/
def hookEffect (origin : Origin) : HookEffect :=
  match origin.executed r.disk with
  | none => .missing
  | some path => r.python.hook path r.loadHook

/-- `runner_run_internal`. -/
def runnerRun : RunnerResult :=
  if r.heap then
    match r.entryOrigin with
    | none => .loadFailed
    | some origin =>
        match r.hookEffect origin with
        | .missing | .raises => .loadFailed
        | .isNone => if r.bgTask.isSome then .loadFailed else .noFactory
        | .returns clean => if r.bgTask.isSome || clean then .ok else .hookError
  else .loadFailed

/-- The preflight lets the app through as a MicroPython app. -/
structure Accepted : Prop where
  preflight : App.preflight r.manifest (r.disk.entryFile r.absEntry.val) = .ok
  micropython : r.manifest.appType = .micropython

/-- The path leads to the file that has been checked. -/
def IsChecked (path : List UInt8) : Prop :=
  path.head? = some slash ∧ resolve path = resolve r.absEntry.val

/-- The module that the hook is taken from is the file that was checked, or the run fails to
load. -/
def RunsCheckedFile : Prop :=
  r.runnerRun = .loadFailed ∨
    ∃ origin path, r.entryOrigin = some origin ∧ origin.executed r.disk = some path ∧
      r.IsChecked path

/-- The name of the entry file. -/
def base : List UInt8 := (afterLast slash r.entry).getD r.entry

/-- The name of the entry file without its extension. -/
def stem : List UInt8 := r.base.take (r.base.length - 4)

/-- The directories on the way from the app's own directory to the entry file. -/
def entryDirs : List Segment := (segments r.entry).dropLast.filter fun seg => Spelt seg

/-- The entry file is found under its stem: the app's directory is on `sys.path`, the stem is
neither cut nor dotted nor the name of a module that is there already, and the file lies in the
app's directory, next to no directory named as its stem, or it is the `__init__` of a package
`__init__`. -/
structure InPlace : Prop where
  stored : r.stored r.appRoot = true
  short : r.stem.length < 64
  undotted : dot ∉ r.stem.tail
  fresh : r.resident r.stem = false
  place :
    r.entryDirs = [] ∧ isDir r.disk (r.appRoot.val ++ slash :: r.stem) = false ∨
      r.entryDirs = [ascii "__init__"] ∧ r.stem = ascii "__init__" ∧
        isDir r.disk (r.appRoot.val ++ slash :: r.stem) = true

/-- A module answers to the name of the entry module, can be loaded, and has a hook that works. -/
def Answers : Prop :=
  r.heap = true ∧ ∃ origin, r.entryOrigin = some origin ∧
    (r.hookEffect origin = .isNone ∧ r.bgTask = none ∨
      ∃ clean, r.hookEffect origin = .returns clean)

end EntryRun

/-- No `.py` file is ever found. -/
theorem isFile_py (disk : Disk) (path : List UInt8) : isFile disk (path ++ pySuffix) = false := by
  have hsuffix : pySuffix.isSuffixOf (path ++ pySuffix) = true :=
    List.isSuffixOf_iff_suffix.mpr (List.suffix_append path pySuffix)
  rw [isFile, mpImportStat, if_pos hsuffix]

/-- A path with `.mpy` behind it is looked up as it stands. -/
theorem mpImportStat_mpy (disk : Disk) (path : List UInt8) :
    mpImportStat disk (path ++ mpySuffix) = disk.stat (path ++ mpySuffix) := by
  refine if_neg fun hsuffix => ?_
  have hpy := List.isSuffixOf_iff_suffix.mp hsuffix
  have hends : pySuffix <:+ mpySuffix :=
    List.suffix_of_suffix_length_le hpy (List.suffix_append path mpySuffix) (by decide)
  exact absurd hends (by decide)

theorem pyOrMpy_eq (disk : Disk) (path : List UInt8) :
    pyOrMpy disk path =
      if isFile disk (path ++ mpySuffix) then some (path ++ mpySuffix) else none := by
  rw [pyOrMpy, isFile_py, if_neg Bool.false_ne_true]

theorem eq_of_pyOrMpy {disk : Disk} {path found : List UInt8}
    (h : pyOrMpy disk path = some found) : found = path ++ mpySuffix := by
  rw [pyOrMpy_eq] at h
  split_ifs at h
  exact (Option.some.inj h).symm

/-- A path that does not start at the root leads nowhere. -/
theorem mpImportStat_relative {disk : Disk} {path : List UInt8} (h : path.head? ≠ some slash) :
    mpImportStat disk path = .absent := by
  rw [mpImportStat, Disk.stat, if_neg h, ite_self]

/-- Nothing is found at a place that does not start at the root. -/
theorem searchAt_relative {disk : Disk} {name place : List UInt8} (hname : slash ∉ name)
    (hplace : place.head? ≠ some slash) : searchAt disk name place = none := by
  have hpath : ∀ suffix, suffix.head? ≠ some slash →
      (placePath place name ++ suffix).head? ≠ some slash := by
    intro suffix hsuffix
    cases place with
    | nil =>
        rw [placePath, if_pos rfl]
        cases name with
        | nil => exact hsuffix
        | cons c name =>
            intro hc
            exact hname (by rw [Option.some.inj hc]; exact List.mem_cons_self)
    | cons c place =>
        rw [placePath, if_neg (List.cons_ne_nil c place)]
        exact hplace
  have hdir : isDir disk (placePath place name) = false := by
    have hrelative := hpath [] (by simp)
    rw [List.append_nil] at hrelative
    rw [isDir, mpImportStat_relative hrelative]
    rfl
  have hfile : isFile disk (placePath place name ++ mpySuffix) = false := by
    rw [isFile, mpImportStat_relative (hpath mpySuffix (by decide))]
  rw [searchAt, hdir, pyOrMpy_eq, hfile]
  rfl

/-- The name of a file, and the directories in front of it. -/
theorem exists_base (path : List UInt8) :
    slash ∉ (afterLast slash path).getD path ∧
      ((segments path).dropLast ++ [(afterLast slash path).getD path] = segments path) ∧
      ((afterLast slash path).getD path = path ∨
        ∃ front, path = front ++ slash :: (afterLast slash path).getD path) := by
  rcases exists_last_segment path with hpath | ⟨front, seg, rfl, hseg⟩
  · rw [afterLast_of_not_mem hpath, segments_name hpath]
    exact ⟨hpath, rfl, Or.inl rfl⟩
  · rw [afterLast_append hseg, segments_join, segments_name hseg, List.dropLast_concat]
    exact ⟨hseg, rfl, Or.inr ⟨front, rfl⟩⟩

/-- The extension of a path is that of the file's name. -/
theorem mpySuffix_base {path : List UInt8} (h : mpySuffix <:+ path) :
    mpySuffix <:+ (afterLast slash path).getD path := by
  obtain ⟨-, -, heq | ⟨front, hfront⟩⟩ := exists_base path
  · rwa [heq]
  · have hlast : slash :: (afterLast slash path).getD path <:+ path := ⟨front, hfront.symm⟩
    rcases List.suffix_or_suffix_of_suffix h hlast with hin | hin
    · rcases List.suffix_cons_iff.mp hin with heq | hin
      · exact absurd (List.cons.inj heq).1 (by decide)
      · exact hin
    · exact absurd (hin.subset List.mem_cons_self) (by decide)

/-- What the preflight has asked of the manifest and of the entry file. -/
theorem preflight_asks {manifest : App.Manifest} {entry : App.EntryFile}
    (h : App.preflight manifest entry = .ok) :
    App.manifestValidate manifest = .ok ∧ App.isValidEntryPath manifest.entry = true ∧
      entry.sizeBytes ≠ 0 := by
  have hvalid : App.manifestValidate manifest = .ok := by
    by_contra hbad
    rw [App.preflight, if_pos hbad] at h
    cases h
  rw [App.preflight, if_neg (not_not.mpr hvalid)] at h
  split_ifs at h with hpresent hpath hsize
  all_goals exact ⟨hvalid, by simpa using hpath, hsize⟩

namespace EntryRun

variable {r : EntryRun}

theorem entry_length (r : EntryRun) : r.entry.length < 160 := by
  have hentry : r.entry = (r.json.entry.getD (lit "")).val.take 159 := rfl
  rw [hentry, List.length_take]
  omega

theorem appsDir_path (d : AppsDir) :
    0 ∉ d.path ∧ d.path.length ≤ 10 ∧ d.path.head? = some slash ∧ parent ∉ segments d.path := by
  cases d <;> exact ⟨by decide, by decide, by decide, by decide⟩

theorem appRoot_val (r : EntryRun) : r.appRoot.val = r.appsDir.path ++ slash :: r.appId.val := by
  obtain ⟨hzero, hlength, -⟩ := appsDir_path r.appsDir
  have hnul : 0 ∉ r.appsDir.path ++ slash :: r.appId.val := by
    simp only [List.mem_append, List.mem_cons, not_or]
    exact ⟨hzero, by decide, r.appId.property⟩
  have hval : CStr.ofBytes (r.appsDir.path ++ slash :: r.appId.val) = ⟨_, hnul⟩ :=
    CStr.ofBytes_val ⟨_, hnul⟩
  have hid : r.appId.val.length < 32 := r.appId_short
  rw [appRoot, hval, CStr.strncpy_of_lt]
  simp only [CStr.strlen, List.length_append, List.length_cons]
  omega

theorem absEntry_val (r : EntryRun) : r.absEntry.val = r.appRoot.val ++ slash :: r.entry := by
  obtain ⟨hzero, hlength, -⟩ := appsDir_path r.appsDir
  have hnul : 0 ∉ r.appsDir.path ++ slash :: r.appId.val ++ slash :: r.entry := by
    simp only [List.mem_append, List.mem_cons, not_or]
    exact ⟨⟨hzero, by decide, r.appId.property⟩, by decide, r.manifest.entry.property⟩
  have hval : CStr.ofBytes (r.appsDir.path ++ slash :: r.appId.val ++ slash :: r.entry) =
      ⟨_, hnul⟩ := CStr.ofBytes_val ⟨_, hnul⟩
  have hid : r.appId.val.length < 32 := r.appId_short
  have hentry := r.entry_length
  rw [absEntry, hval, CStr.strncpy_of_lt, appRoot_val]
  simp only [CStr.strlen, List.length_append, List.length_cons]
  omega

theorem head_appRoot (r : EntryRun) : r.appRoot.val.head? = some slash := by
  obtain ⟨-, -, hhead, -⟩ := appsDir_path r.appsDir
  rw [appRoot_val, List.head?_append, hhead]
  rfl

theorem appRoot_no_parent (r : EntryRun) : parent ∉ segments r.appRoot.val := by
  obtain ⟨-, -, -, hparent⟩ := appsDir_path r.appsDir
  rw [appRoot_val, segments_join, segments_name r.appId_name.2.2.2, List.mem_append, not_or]
  exact ⟨hparent, fun hmem => r.appId_name.2.2.1 (List.mem_singleton.mp hmem).symm⟩

theorem resolve_appRoot (r : EntryRun) :
    resolve r.appRoot.val = resolve r.appsDir.path ++ [r.appId.val] := by
  rw [appRoot_val, resolve_join_name _ r.appId_name]

/-- What the preflight has found out about the entry path and the entry file. -/
structure EntryFacts (r : EntryRun) : Prop where
  extension : mpySuffix <:+ r.entry
  noParent : parent ∉ segments r.entry
  isFile : ∃ bytes, r.disk.stat r.absEntry.val = .file bytes

theorem Accepted.facts (h : r.Accepted) : r.EntryFacts := by
  obtain ⟨hvalid, hpath, hsize⟩ := preflight_asks h.preflight
  have htype : App.validateAppTypeEntry r.manifest = .ok := by
    rw [App.manifestValidate] at hvalid
    split_ifs at hvalid
    exact (App.orElse_eq_ok hvalid).1
  have hsuffix : App.hasSuffix r.manifest.entry (lit ".mpy") = true := by
    by_contra hno
    rw [App.validateAppTypeEntry, h.micropython] at htype
    simp only [hno] at htype
    exact absurd htype (by decide)
  refine ⟨List.isSuffixOf_iff_suffix.mp hsuffix, fun hparent => ?_, ?_⟩
  · have hscan := (strHasParentSegment_eq_true r.manifest.entry).mpr hparent
    rw [App.isValidEntryPath, hscan] at hpath
    simp at hpath
  · rw [Disk.entryFile] at hsize
    cases hstat : r.disk.stat r.absEntry.val with
    | file bytes => exact ⟨bytes, rfl⟩
    | absent => exact absurd (by rw [hstat]) hsize
    | dir => exact absurd (by rw [hstat]) hsize

theorem slash_not_mem_base (r : EntryRun) : slash ∉ r.base := (exists_base r.entry).1

/-- The name of the entry file is its stem and the extension. -/
theorem EntryFacts.base_eq (h : r.EntryFacts) : r.base = r.stem ++ mpySuffix := by
  obtain ⟨front, hfront⟩ := mpySuffix_base h.extension
  have hbase : r.base = front ++ mpySuffix := hfront.symm
  have hlen : mpySuffix.length = 4 := by decide
  have hstem : r.stem = front := by
    rw [stem, hbase, List.length_append, hlen, Nat.add_sub_cancel, List.take_left']
    rfl
  rw [hstem, hbase]

theorem EntryFacts.slash_not_mem_stem (h : r.EntryFacts) : slash ∉ r.stem := fun hmem =>
  r.slash_not_mem_base (h.base_eq ▸ List.mem_append_left _ hmem)

theorem EntryFacts.resolve_absEntry (h : r.EntryFacts) :
    resolve r.absEntry.val = resolve r.appRoot.val ++ (r.entryDirs ++ [r.stem ++ mpySuffix]) := by
  have hspelt : Spelt (r.stem ++ mpySuffix) := by
    constructor <;> intro heq <;> have hlen := congrArg List.length heq <;>
      simp [mpySuffix, ascii] at hlen
  have hsegments : segments r.entry = (segments r.entry).dropLast ++ [r.stem ++ mpySuffix] := by
    rw [← h.base_eq]
    exact (exists_base r.entry).2.1.symm
  rw [absEntry_val, resolve_join, foldl_walk_eq h.noParent]
  rw [hsegments, List.filter_append, List.filter_singleton, entryDirs]
  simp [hspelt]

/-- The name that is imported is the stem of the entry file, cut to 63 bytes. -/
theorem EntryFacts.entryModule_eq (h : r.EntryFacts) :
    (entryModule r.absEntry).val = r.stem.take 63 := by
  have hbase : (afterLast slash r.absEntry.val).getD r.absEntry.val = r.base := by
    obtain ⟨hslash, -, heq | ⟨front, hfront⟩⟩ := exists_base r.entry
    · rw [absEntry_val, ← heq, afterLast_append hslash]
      rfl
    · rw [absEntry_val, hfront, ← List.cons_append, ← List.append_assoc, afterLast_append hslash]
      rfl
  have hlast : afterLast dot r.base = some (ascii "mpy") := by
    rw [h.base_eq]
    exact afterLast_append (by decide) r.stem
  have hlen : r.base.length - (ascii "mpy").length - 1 = r.base.length - 4 := by
    rw [show (ascii "mpy").length = 3 by decide]
    omega
  have hnul : 0 ∉ r.stem := by
    intro hmem
    have hmem' : 0 ∈ r.entry := by
      have hin : 0 ∈ r.base := h.base_eq ▸ List.mem_append_left _ hmem
      obtain ⟨-, -, heq | ⟨front, hfront⟩⟩ := exists_base r.entry
      · exact heq ▸ hin
      · rw [hfront]
        exact List.mem_append_right _ (List.mem_cons_of_mem _ hin)
    exact r.manifest.entry.property hmem'
  have hname : CStr.ofBytes r.stem = ⟨r.stem, hnul⟩ := CStr.ofBytes_val ⟨r.stem, hnul⟩
  rw [entryModule]
  simp only [hbase, hlast, hlen]
  rw [show r.base.take (r.base.length - 4) = r.stem from rfl, hname]
  rfl

/-- `runtime_root`. -/
def runtimeRoot : CStr := pyName "/lib"

/-- `sd_lib_root`. -/
def sdLibRoot : CStr := pyName "/sd/lib"

theorem pathIsUnderRoot_self {path : CStr} (hhead : path.val.head? = some slash)
    (hparent : parent ∉ segments path.val) : pathIsUnderRoot (some path) (some path) = true := by
  have hne : path.val ≠ [] := fun hnil => by rw [hnil] at hhead; cases hhead
  have hscan : strHasParentSegment path = false := by
    rw [← Bool.not_eq_true, strHasParentSegment_eq_true]
    exact hparent
  rw [pathIsUnderRoot, if_neg (by simp [hne, hhead]), hscan, if_neg Bool.false_ne_true]
  exact beginsWith_iff.mpr (Or.inl rfl)

/-- The places of the search: those of `mp_init`, the app's own directory and the two libraries, as
far as there is memory for them. -/
theorem sysPath_eq (r : EntryRun) :
    r.sysPath =
      r.python.initialPath ++ [r.appRoot, runtimeRoot, sdLibRoot].filter r.stored := by
  have hne : ∀ path : CStr, path.val.head? = some slash → strNonempty (some path) = true := by
    intro path hhead
    have hval : path.val ≠ [] := fun hnil => by rw [hnil] at hhead; cases hhead
    simp [strNonempty, hval]
  have hcheck : ∀ (path : CStr) (role : PathRole),
      (launchConfig r.appRoot).importSurface.rootOf role = some path →
      path.val.head? = some slash → parent ∉ segments path.val →
      checkSysPathEntry (runningContext r.appRoot) (some path) role = .ok := by
    intro path role hroot hhead hparent
    have hunder := pathIsUnderRoot_self hhead hparent
    rw [checkSysPathEntry, hne path hhead]
    cases role with
    | other value => cases hroot
    | app | runtime | sdk =>
        obtain rfl := Option.some.inj hroot
        exact if_pos (e := VmStatus.pathNotAllowed) hunder
  have hroot := hcheck r.appRoot .app rfl r.head_appRoot r.appRoot_no_parent
  have hlib := hcheck runtimeRoot .runtime rfl (by decide) (by decide)
  have hsdLib := hcheck sdLibRoot .sdk rfl (by decide) (by decide)
  have hsurface : (runningContext r.appRoot).config.importSurface =
      (launchConfig r.appRoot).importSurface := rfl
  rw [sysPath, populateSysPath, hsurface]
  congr 1
  have hfirst : (launchConfig r.appRoot).importSurface.appRoot = some r.appRoot := rfl
  have hsecond : (launchConfig r.appRoot).importSurface.runtimeRoot = some runtimeRoot := rfl
  have hthird : (launchConfig r.appRoot).importSurface.sdLibRoot = some sdLibRoot := rfl
  simp only [hfirst, hsecond, hthird, List.filterMap_cons, List.filterMap_nil]
  rw [if_pos ⟨hne _ r.head_appRoot, hroot⟩, if_pos ⟨hne runtimeRoot (by decide), hlib⟩,
    if_pos ⟨hne sdLibRoot (by decide), hsdLib⟩]
  cases hx : r.stored r.appRoot <;> cases hy : r.stored runtimeRoot <;>
    cases hz : r.stored sdLibRoot <;> simp [Option.filter, hx, hy, hz]

/-- Nothing is found at the places of `mp_init`. -/
theorem searchPath_sysPath {name : List UInt8} (hname : slash ∉ name) :
    searchPath r.disk r.sysPath name =
      searchPath r.disk ([r.appRoot, runtimeRoot, sdLibRoot].filter r.stored) name := by
  have hinitial : searchPath r.disk r.python.initialPath name = none := by
    rw [searchPath, List.findSome?_eq_none_iff]
    exact fun place hplace => searchAt_relative hname (r.python.initial_relative place hplace)
  rw [searchPath] at hinitial
  rw [sysPath_eq, searchPath, List.findSome?_append, hinitial]
  rfl

/-- What lies in a library does not lie in the app's directory. -/
theorem library_disjoint (r : EntryRun) {place : CStr}
    (h : place = runtimeRoot ∨ place = sdLibRoot) (xs ys : List Segment) :
    resolve place.val ++ xs ≠ resolve r.appRoot.val ++ ys := by
  have hlib : resolve runtimeRoot.val = [ascii "lib"] := by decide
  have hsdLib : resolve sdLibRoot.val = [ascii "sd", ascii "lib"] := by decide
  have hsd : resolve (ascii "/sd/apps") = [ascii "sd", ascii "apps"] := by decide
  have hdata : resolve (ascii "/data/apps") = [ascii "data", ascii "apps"] := by decide
  have hne : ascii "lib" ≠ ascii "sd" ∧ ascii "lib" ≠ ascii "data" ∧ ascii "sd" ≠ ascii "data" ∧
      ascii "lib" ≠ ascii "apps" := by decide
  rw [resolve_appRoot]
  rcases h with rfl | rfl <;> cases r.appsDir <;>
    simp only [AppsDir.path, hlib, hsdLib, hsd, hdata, List.cons_append, List.nil_append, ne_eq,
      List.cons.injEq, hne, false_and, not_false_eq_true, and_false]

theorem topPart_length_le (name : List UInt8) : (topPart name).length ≤ name.length := by
  cases name with
  | nil => exact Nat.le_refl 0
  | cons c rest => exact Nat.succ_le_succ (List.takeWhile_prefix _).length_le

/-- A name is its own first part when there is no dot behind its first character. -/
theorem topPart_eq_self_iff (name : List UInt8) : topPart name = name ↔ dot ∉ name.tail := by
  cases name with
  | nil => simp [topPart]
  | cons c rest =>
      rw [topPart, List.tail_cons, List.cons_inj_right, List.takeWhile_eq_self_iff]
      constructor
      · exact fun hall hdot => by simpa using hall dot hdot
      · exact fun hdot b hb => by simpa using fun heq : b = dot => hdot (heq ▸ hb)

theorem mem_of_mem_topPart {name : List UInt8} {b : UInt8} (h : b ∈ topPart name) : b ∈ name := by
  cases name with
  | nil => exact h
  | cons c rest =>
      rcases List.mem_cons.mp h with rfl | h
      · exact List.mem_cons_self
      · exact List.mem_cons_of_mem _ ((List.takeWhile_prefix _).subset h)

/-- The first part of the imported name. -/
def top (r : EntryRun) : List UInt8 := topPart (r.stem.take 63)

/-- The stem is found as it is when it is neither cut nor dotted. -/
theorem top_eq_stem_iff (r : EntryRun) :
    r.top = r.stem ↔ r.stem.length < 64 ∧ dot ∉ r.stem.tail := by
  constructor
  · intro heq
    have hlen : r.top.length ≤ (r.stem.take 63).length := topPart_length_le _
    rw [heq, List.length_take] at hlen
    have hshort : r.stem.length < 64 := by omega
    rw [top, List.take_of_length_le (by omega)] at heq
    exact ⟨hshort, (topPart_eq_self_iff r.stem).mp heq⟩
  · rintro ⟨hshort, hdot⟩
    rw [top, List.take_of_length_le (by omega)]
    exact (topPart_eq_self_iff r.stem).mpr hdot

theorem EntryFacts.slash_not_mem_top (h : r.EntryFacts) : slash ∉ r.top := fun hmem =>
  h.slash_not_mem_stem (List.mem_of_mem_take (mem_of_mem_topPart hmem))

theorem isName_mpy {name : List UInt8} (h : slash ∉ name) : IsName (name ++ mpySuffix) := by
  have hlen : (name ++ mpySuffix).length = name.length + 4 := List.length_append
  refine ⟨fun heq => ?_, fun heq => ?_, fun heq => ?_, fun hmem => ?_⟩
  · rw [heq] at hlen
    simp at hlen
  · rw [heq] at hlen
    simp at hlen
  · rw [heq, parent] at hlen
    simp at hlen
  · rcases List.mem_append.mp hmem with hmem | hmem
    · exact h hmem
    · exact absurd hmem (by decide)

theorem head_append_of_head {path rest : List UInt8} (h : path.head? = some slash) :
    (path ++ rest).head? = some slash := by
  rw [List.head?_append, h]
  rfl

theorem resolve_init (path : List UInt8) :
    resolve (path ++ ascii "/__init__" ++ mpySuffix) = resolve path ++ [ascii "__init__.mpy"] := by
  rw [List.append_assoc, show ascii "/__init__" ++ mpySuffix = slash :: ascii "__init__.mpy" by
    decide, resolve_join_name path (by decide)]

/-- The search at the app's own directory or at a library leads to the checked file only there
where the entry file lies in place. -/
theorem EntryFacts.place_of_executed (h : r.EntryFacts) {place : CStr} {origin : Origin}
    {path : List UInt8} (hplace : place ∈ [r.appRoot, runtimeRoot, sdLibRoot])
    (hsearch : searchAt r.disk r.top place.val = some origin)
    (hexec : origin.executed r.disk = some path) (hchecked : r.IsChecked path) :
    place = r.appRoot ∧ r.top = r.stem ∧
      (r.entryDirs = [] ∧ isDir r.disk (r.appRoot.val ++ slash :: r.stem) = false ∨
        r.entryDirs = [ascii "__init__"] ∧ r.stem = ascii "__init__" ∧
          isDir r.disk (r.appRoot.val ++ slash :: r.stem) = true) := by
  have hne : place.val ≠ [] := by
    simp only [List.mem_cons, List.not_mem_nil, or_false] at hplace
    rcases hplace with rfl | rfl | rfl
    · intro hnil
      have hhead := r.head_appRoot
      rw [hnil] at hhead
      cases hhead
    · decide
    · decide
  have hroot : ∀ xs ys, resolve place.val ++ xs = resolve r.appRoot.val ++ ys →
      place = r.appRoot := by
    intro xs ys heq
    simp only [List.mem_cons, List.not_mem_nil, or_false] at hplace
    rcases hplace with hplace | hplace
    · exact hplace
    · exact absurd heq (r.library_disjoint hplace xs ys)
  obtain ⟨-, hresolve⟩ := hchecked
  rw [h.resolve_absEntry] at hresolve
  rw [searchAt, placePath, if_neg hne] at hsearch
  by_cases hdir : isDir r.disk (place.val ++ slash :: r.top) = true
  · -- a package: the checked file is its `__init__`
    rw [if_pos hdir] at hsearch
    obtain rfl := Option.some.inj hsearch
    obtain rfl := eq_of_pyOrMpy hexec
    rw [resolve_init, ← List.append_assoc] at hresolve
    obtain ⟨hdirs, hlast⟩ := List.append_inj' hresolve rfl
    have hstem : r.stem = ascii "__init__" := by
      have hfile : ascii "__init__.mpy" = ascii "__init__" ++ mpySuffix := by decide
      rw [hfile] at hlast
      exact (List.append_cancel_right (List.cons.inj hlast).1).symm
    have htop : r.top = ascii "__init__" := by
      rw [top, hstem]
      decide
    rw [htop, resolve_join_name _ (by decide)] at hdirs
    obtain rfl := hroot _ _ hdirs
    rw [htop, ← hstem] at hdir
    exact ⟨rfl, htop.trans hstem.symm, Or.inr ⟨(List.append_cancel_left hdirs).symm, hstem, hdir⟩⟩
  · rw [if_neg hdir] at hsearch
    obtain ⟨found, hfound, rfl⟩ := Option.map_eq_some_iff.mp hsearch
    obtain rfl := eq_of_pyOrMpy hfound
    obtain rfl := Option.some.inj hexec
    rw [List.append_assoc, List.cons_append,
      resolve_join_name _ (isName_mpy h.slash_not_mem_top), ← List.append_assoc] at hresolve
    obtain ⟨hdirs, hlast⟩ := List.append_inj' hresolve rfl
    have htop : r.top = r.stem := List.append_cancel_right (List.cons.inj hlast).1
    obtain rfl := hroot [] r.entryDirs (by rw [List.append_nil, hdirs])
    have hnone : r.entryDirs = [] := by
      have hlen := congrArg List.length hdirs
      rw [List.length_append] at hlen
      exact List.length_eq_zero_iff.mp (by omega)
    rw [htop, Bool.not_eq_true] at hdir
    exact ⟨rfl, htop, Or.inl ⟨hnone, hdir⟩⟩

/-- The import of the entry module, by the first part of its name. -/
theorem EntryFacts.entryOrigin_eq_some (h : r.EntryFacts) {origin : Origin}
    (horigin : r.entryOrigin = some origin) :
    (if r.resident r.top then some (.resident r.top)
      else searchPath r.disk ([r.appRoot, runtimeRoot, sdLibRoot].filter r.stored) r.top) =
        some origin := by
  rw [entryOrigin, importName, h.entryModule_eq] at horigin
  split_ifs at horigin
  have hfind := (Option.filter_eq_some_iff.mp horigin).1
  have hsearch := searchPath_sysPath (r := r) h.slash_not_mem_top
  rw [top] at hsearch ⊢
  rwa [findTop, hsearch] at hfind

/-- The file that runs is the checked one only where that lies in place. -/
theorem EntryFacts.inPlace_of_executed (h : r.EntryFacts) {origin : Origin} {path : List UInt8}
    (horigin : r.entryOrigin = some origin) (hexec : origin.executed r.disk = some path)
    (hchecked : r.IsChecked path) : r.InPlace := by
  have hfind := h.entryOrigin_eq_some horigin
  by_cases hresident : r.resident r.top = true
  · rw [if_pos hresident] at hfind
    obtain rfl := Option.some.inj hfind
    cases hexec
  · rw [if_neg hresident] at hfind
    obtain ⟨place, hmem, hsearch⟩ := List.exists_of_findSome?_eq_some hfind
    obtain ⟨hplace, hstored⟩ := List.mem_filter.mp hmem
    obtain ⟨rfl, htop, hlies⟩ := h.place_of_executed hplace hsearch hexec hchecked
    obtain ⟨hshort, hdot⟩ := r.top_eq_stem_iff.mp htop
    rw [htop, Bool.not_eq_true] at hresident
    exact ⟨hstored, hshort, hdot, hresident, hlies⟩

/-- The file of an entry that lies in place, at the app's own directory. -/
theorem EntryFacts.searchAt_inPlace (h : r.EntryFacts) (hin : r.InPlace) :
    ∃ origin path, searchAt r.disk r.stem r.appRoot.val = some origin ∧
      origin.executed r.disk = some path ∧ r.IsChecked path := by
  have hne : r.appRoot.val ≠ [] := by
    intro hnil
    have hhead := r.head_appRoot
    rw [hnil] at hhead
    cases hhead
  obtain ⟨bytes, hbytes⟩ := h.isFile
  -- a path that leads where the checked one does is found to be a file
  have hfound : ∀ path, path.head? = some slash →
      resolve (path ++ mpySuffix) = resolve r.absEntry.val →
      pyOrMpy r.disk path = some (path ++ mpySuffix) := by
    intro path hhead hresolve
    have habs : r.absEntry.val.head? = some slash := by
      rw [absEntry_val]
      exact head_append_of_head r.head_appRoot
    have hstat : r.disk.stat (path ++ mpySuffix) = .file bytes := by
      rw [Disk.stat, if_pos (head_append_of_head hhead), hresolve, ← hbytes, Disk.stat,
        if_pos habs]
    rw [pyOrMpy_eq, Vm.isFile, mpImportStat_mpy, hstat]
    rfl
  have hhead : (r.appRoot.val ++ slash :: r.stem).head? = some slash :=
    head_append_of_head r.head_appRoot
  rcases hin.place with ⟨hdirs, hdir⟩ | ⟨hdirs, hstem, hdir⟩
  · have hresolve : resolve (r.appRoot.val ++ slash :: r.stem ++ mpySuffix) =
        resolve r.absEntry.val := by
      rw [List.append_assoc, List.cons_append,
        resolve_join_name _ (isName_mpy h.slash_not_mem_stem), h.resolve_absEntry, hdirs,
        List.nil_append]
    refine ⟨.file _, _, ?_, rfl, head_append_of_head hhead, hresolve⟩
    rw [searchAt, placePath, if_neg hne, hdir, if_neg Bool.false_ne_true, hfound _ hhead hresolve]
    rfl
  · have hresolve :
        resolve (r.appRoot.val ++ slash :: r.stem ++ ascii "/__init__" ++ mpySuffix) =
          resolve r.absEntry.val := by
      rw [resolve_init, hstem, resolve_join_name _ (by decide), h.resolve_absEntry, hdirs, hstem,
        List.append_assoc]
      rfl
    refine ⟨.package _, _, ?_, hfound _ (head_append_of_head hhead) hresolve,
      head_append_of_head (head_append_of_head hhead), hresolve⟩
    rw [searchAt, placePath, if_neg hne, if_pos hdir]

/-- Where the entry file lies in place, it is the file that runs. -/
theorem EntryFacts.executed_of_inPlace (h : r.EntryFacts) (hin : r.InPlace) {origin : Origin}
    (horigin : r.entryOrigin = some origin) :
    ∃ path, origin.executed r.disk = some path ∧ r.IsChecked path := by
  have htop : r.top = r.stem := r.top_eq_stem_iff.mpr ⟨hin.short, hin.undotted⟩
  have hfind := h.entryOrigin_eq_some horigin
  rw [htop, hin.fresh, if_neg Bool.false_ne_true, List.filter_cons_of_pos hin.stored] at hfind
  obtain ⟨found, path, hsearch, hexec, hchecked⟩ := h.searchAt_inPlace hin
  rw [searchPath, List.findSome?_cons, hsearch] at hfind
  obtain rfl := Option.some.inj hfind
  exact ⟨path, hexec, hchecked⟩

/-- A run fails to load exactly when no module answers to the name with a hook that works. -/
theorem runnerRun_eq_loadFailed (r : EntryRun) : r.runnerRun = .loadFailed ↔ ¬ r.Answers := by
  rw [runnerRun, Answers]
  cases r.heap with
  | false => simp
  | true =>
      cases horigin : r.entryOrigin with
      | none => simp
      | some origin =>
          cases hhook : r.hookEffect origin with
          | missing => simp [hhook]
          | raises => simp [hhook]
          | isNone => cases htask : r.bgTask <;> simp [hhook]
          | returns clean => cases htask : r.bgTask <;> cases clean <;> simp [hhook]

/-- The checked file is the one that runs, or the run fails to load, exactly when the entry file
lies in place or no module answers to its name with a hook that works. -/
theorem runsCheckedFile_iff (r : EntryRun) (h : r.Accepted) :
    r.RunsCheckedFile ↔ r.InPlace ∨ ¬ r.Answers := by
  rw [RunsCheckedFile, runnerRun_eq_loadFailed, Or.comm]
  have hfacts := h.facts
  by_cases hanswers : r.Answers
  · refine or_congr_left' fun _ => ⟨?_, fun hin => ?_⟩
    · rintro ⟨origin, path, horigin, hexec, hchecked⟩
      exact hfacts.inPlace_of_executed horigin hexec hchecked
    · obtain ⟨-, origin, horigin, -⟩ := hanswers
      obtain ⟨path, hexec, hchecked⟩ := hfacts.executed_of_inPlace hin horigin
      exact ⟨origin, path, horigin, hexec, hchecked⟩
  · exact iff_of_true (Or.inr hanswers) (Or.inr hanswers)

/-- The manifest of a MicroPython app with the given entry path. -/
def sampleManifest (entry : String) : App.ManifestJson where
  name := some (lit "Game")
  version := some (lit "1.0")
  entry := some (lit entry)
  appType := some (lit "micropython")
  schemaVersion := none
  sdkMin := none
  capabilities := []
  bgEnabled := false
  bgTasks := []
  toolchain := some
    { runtimeVersion := some (lit "v1.28.0"), crossVersion := some (lit "1.28.0"),
      bytecodeAbi := some 6 }

/-- The directory of an app, with an entry file and, in one case, a package of the same name. -/
def sampleDisk (package : Bool) : Disk := fun names =>
  let dir := [ascii "sd", ascii "apps", ascii "game"]
  if names = dir ++ [ascii "main.mpy"] then .file [77]
  else if package ∧ names = dir ++ [ascii "main"] then .dir
  else if package ∧ names = dir ++ [ascii "main", ascii "__init__.mpy"] then .file [77]
  else .absent

/-- An app whose files all offer a `create_app`. -/
def sampleRun (package : Bool) : EntryRun where
  appsDir := .sd
  appId := lit "game"
  appId_name := by decide
  appId_short := by decide
  json := sampleManifest "main.mpy"
  bgTask := none
  disk := sampleDisk package
  python :=
    { builtin := fun name => name == ascii "sys"
      initialPath := [lit ""]
      initial_relative := by decide
      loads := fun _ later => later.isEmpty
      hook := fun _ _ => .returns true }
  heap := true
  stored := fun _ => true

theorem sampleRun_accepted (package : Bool) : (sampleRun package).Accepted := by
  cases package <;> exact ⟨by decide, by decide⟩

/-- An app directory with nothing but the entry file. -/
theorem runsCheckedFile_iff_plain :
    (sampleRun false).RunsCheckedFile ↔ (sampleRun false).InPlace ∨ ¬ (sampleRun false).Answers :=
  runsCheckedFile_iff (sampleRun false) (sampleRun_accepted false)

/-- A package next to the entry file runs in its place. -/
theorem not_runsCheckedFile : ¬ ∀ r : EntryRun, r.Accepted → r.RunsCheckedFile := by
  intro hall
  have horigin : (sampleRun true).entryOrigin = some (.package (ascii "/sd/apps/game/main")) := by
    decide
  have hexec : Origin.executed (sampleRun true).disk (.package (ascii "/sd/apps/game/main")) =
      some (ascii "/sd/apps/game/main/__init__.mpy") := by decide
  rcases hall (sampleRun true) (sampleRun_accepted true) with
    hfail | ⟨origin, path, hfound, hpath, -, hresolve⟩
  · exact absurd hfail (by decide)
  · obtain rfl := Option.some.inj (horigin.symm.trans hfound)
    obtain rfl := Option.some.inj (hexec.symm.trans hpath)
    exact absurd hresolve (by decide)

end EntryRun

end Vm
end JppDos
