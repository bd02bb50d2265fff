import JppDos.Vm.Imports

/-!
# The import hook

How modules are loaded on behalf of a MicroPython app.  `runner_run_internal` has the entry module
loaded by the built-in importer; after that the code of the app imports what it wants to, through
`mp_jpp_import` where the name `__import__` is looked up in the namespace it was bound in, and
through the built-in importer elsewhere.

Main fact:
* `import_policy_enforced_iff`: the policy is enforced in a run exactly when the run loads nothing.
-/

namespace JppDos
namespace Vm

open CText Paths

/-- Where a module comes from. -/
inductive LoadSource where
  | builtin
  | file (path : CStr)
  deriving DecidableEq

/-- One call of `jpp_vm_check_import`, with its result. -/
structure ImportCheck where
  name : CStr
  source : ImportSource
  origin : CStr
  status : VmStatus
  deriving DecidableEq

/-- What happens while modules are imported. -/
inductive ImportEvent where
  | checked (check : ImportCheck)
  | loaded (name : CStr) (source : LoadSource)
  deriving DecidableEq

/-- The parts of MicroPython: its built-in modules, `sys.path` after `mp_init`, and the search of
`sys.path` for the file of a module. -/
structure Interpreter where
  builtin : CStr → Bool
  initialPath : List CStr
  find : List CStr → CStr → Option CStr

/-- A name as it stands in the source. -/
def pyName (s : String) : CStr := CStr.ofBytes (ascii s)

section Imports

variable (ip : Interpreter)

/-- What `mp_builtin___import__` loads for a name. -/
def importLoads (sysPath loaded : List CStr) (name : CStr) : Option LoadSource :=
  if name ∈ loaded then none
  else if ip.builtin name then some .builtin
  else (ip.find sysPath name).map .file

/-- `mp_builtin___import__`: what happens, and the modules loaded then. -/
def builtinImport (sysPath loaded : List CStr) (name : CStr) : List ImportEvent × List CStr :=
  match importLoads ip sysPath loaded name with
  | none => ([], loaded)
  | some source => ([.loaded name source], name :: loaded)

/-- An import: the name, whether it gets to the hook, the fifth argument if it is a string, and the
state of `sys.path` and of the runtime.  The packages that a dotted name is in are imports of their
own, past the hook. -/
structure ImportRequest where
  name : CStr
  hooked : Bool
  level : Option CStr
  sysPath : List CStr
  context : Context

/-- The check that `mp_jpp_import` makes. -/
def ImportRequest.check (r : ImportRequest) : ImportCheck :=
  let origin := r.level.getD (pyName "")
  ⟨r.name, .core, origin, checkImport r.context (some r.name) .core (some origin)⟩

/-- `mp_jpp_import`. -/
def mpJppImport (loaded : List CStr) (r : ImportRequest) : List ImportEvent × List CStr :=
  if r.check.status ≠ .ok then ([.checked r.check], loaded)
  else
    let (events, loaded) := builtinImport ip r.sysPath loaded r.name
    (.checked r.check :: events, loaded)

/-- One import. -/
def importRequest (loaded : List CStr) (r : ImportRequest) : List ImportEvent × List CStr :=
  if r.hooked then mpJppImport ip loaded r else builtinImport ip r.sysPath loaded r.name

/-- A sequence of imports. -/
def importRequests : List CStr → List ImportRequest → List ImportEvent
  | _, [] => []
  | loaded, r :: rs =>
      (importRequest ip loaded r).1 ++ importRequests (importRequest ip loaded r).2 rs

end Imports

/-- A check lets a module be loaded from where it is: the kind of its source is the one checked, and
for a file the path is. -/
def ImportCheck.Covers (c : ImportCheck) (name : CStr) (source : LoadSource) : Prop :=
  c.name = name ∧ c.status = .ok ∧
    match source with
    | .builtin => c.source = .core ∨ c.source = .sdk
    | .file path => (c.source = .appPath ∨ c.source = .runtimePath) ∧ c.origin = path

/-- Every load is covered by a check before it; `checks` are those made so far. -/
def EnforcedAfter : List ImportCheck → List ImportEvent → Prop
  | _, [] => True
  | checks, .checked c :: events => EnforcedAfter (c :: checks) events
  | checks, .loaded name source :: events =>
      (∃ c ∈ checks, c.Covers name source) ∧ EnforcedAfter checks events

/-- Every load is covered by a check before it. -/
def Enforced (events : List ImportEvent) : Prop := EnforcedAfter [] events

/-- The checks made so far, the latest first. -/
def checksAfter : List ImportCheck → List ImportEvent → List ImportCheck
  | checks, [] => checks
  | checks, .checked c :: events => checksAfter (c :: checks) events
  | checks, .loaded _ _ :: events => checksAfter checks events

theorem enforcedAfter_append (checks : List ImportCheck) (events later : List ImportEvent) :
    EnforcedAfter checks (events ++ later) ↔
      EnforcedAfter checks events ∧ EnforcedAfter (checksAfter checks events) later := by
  induction events generalizing checks with
  | nil => exact ⟨fun h => ⟨trivial, h⟩, And.right⟩
  | cons e events ih =>
      cases e with
      | checked c => exact ih (c :: checks)
      | loaded name source =>
          rw [List.cons_append, EnforcedAfter, ih, EnforcedAfter, and_assoc]
          rfl

section Requests

variable {ip : Interpreter}

/-- The built-in modules that the hook let through are loaded, and all its checks are for built-in
modules. -/
structure HookChecks (ip : Interpreter) (checks : List ImportCheck) (loaded : List CStr) :
    Prop where
  core : ∀ c ∈ checks, c.source = .core
  loaded : ∀ c ∈ checks, c.status = .ok → ip.builtin c.name = true → c.name ∈ loaded

theorem HookChecks.nil (ip : Interpreter) (loaded : List CStr) : HookChecks ip [] loaded :=
  ⟨fun _ hc => absurd hc List.not_mem_nil, fun _ hc => absurd hc List.not_mem_nil⟩

theorem HookChecks.not_covers_file {checks : List ImportCheck} {loaded : List CStr}
    (h : HookChecks ip checks loaded) (name path : CStr) :
    ¬ ∃ c ∈ checks, c.Covers name (.file path) := by
  rintro ⟨c, hc, -, -, hsource, -⟩
  rw [h.core c hc] at hsource
  rcases hsource with hsource | hsource <;> cases hsource

theorem importLoads_builtin {sysPath loaded : List CStr} {name : CStr}
    (h : importLoads ip sysPath loaded name = some .builtin) :
    name ∉ loaded ∧ ip.builtin name = true := by
  unfold importLoads at h
  split_ifs at h with hloaded hbuiltin
  · exact ⟨hloaded, hbuiltin⟩
  · cases hfind : ip.find sysPath name with
    | none =>
        rw [hfind] at h
        cases h
    | some path =>
        rw [hfind] at h
        cases h

/-- What an import loads, if it gets that far. -/
def ImportRequest.loads (ip : Interpreter) (loaded : List CStr) (r : ImportRequest) :
    Option LoadSource :=
  if r.hooked = true ∧ r.check.status ≠ .ok then none
  else importLoads ip r.sysPath loaded r.name

/-- An import as its events: the check of the hook, and what is loaded. -/
theorem importRequest_eq (loaded : List CStr) (r : ImportRequest) :
    importRequest ip loaded r =
      ((if r.hooked then [.checked r.check] else []) ++
          ((r.loads ip loaded).toList.map (.loaded r.name)),
        if (r.loads ip loaded).isSome then r.name :: loaded else loaded) := by
  unfold importRequest mpJppImport builtinImport ImportRequest.loads
  by_cases hhooked : r.hooked = true
  · by_cases hstatus : r.check.status = .ok
    · rw [if_pos hhooked, if_neg (not_not.mpr hstatus), if_pos hhooked,
        if_neg (fun h => h.2 hstatus)]
      cases importLoads ip r.sysPath loaded r.name <;> rfl
    · rw [if_pos hhooked, if_pos hstatus, if_pos hhooked, if_pos ⟨hhooked, hstatus⟩]
      rfl
  · rw [if_neg hhooked, if_neg hhooked, if_neg (fun h => hhooked h.1)]
    cases importLoads ip r.sysPath loaded r.name <;> rfl

/-- Everything that is loaded is a built-in module that comes through the hook. -/
def PolicyOnPath (ip : Interpreter) : List CStr → List ImportRequest → Prop
  | _, [] => True
  | loaded, r :: rs =>
      (∀ source, r.loads ip loaded = some source → r.hooked = true ∧ source = .builtin) ∧
        PolicyOnPath ip (importRequest ip loaded r).2 rs

/-- One import keeps track of what the hook has let through. -/
theorem HookChecks.request {checks : List ImportCheck} {loaded : List CStr}
    (h : HookChecks ip checks loaded) (r : ImportRequest) :
    HookChecks ip (checksAfter checks (importRequest ip loaded r).1)
      (importRequest ip loaded r).2 := by
  have hkeep : ∀ name ∈ loaded, name ∈ (importRequest ip loaded r).2 := by
    intro name hname
    rw [importRequest_eq]
    simp only
    split_ifs
    · exact List.mem_cons_of_mem _ hname
    · exact hname
  have hchecks : checksAfter checks (importRequest ip loaded r).1 =
      if r.hooked then r.check :: checks else checks := by
    rw [importRequest_eq]
    cases r.hooked <;> cases r.loads ip loaded <;> rfl
  rw [hchecks]
  split_ifs with hhooked
  · refine ⟨fun c hc => ?_, fun c hc hstatus hbuiltin => ?_⟩
    · rcases List.mem_cons.mp hc with rfl | hc
      · rfl
      · exact h.core c hc
    · rcases List.mem_cons.mp hc with rfl | hc
      · -- a built-in module that is let through is loaded at once, if it was not before
        by_cases hloaded : r.name ∈ loaded
        · exact hkeep r.name hloaded
        · have hbuiltin : ip.builtin r.name = true := hbuiltin
          have hloads : r.loads ip loaded = some .builtin := by
            unfold ImportRequest.loads importLoads
            rw [if_neg (fun h => h.2 hstatus), if_neg hloaded, if_pos hbuiltin]
          rw [importRequest_eq, hloads]
          exact List.mem_cons_self ..
      · exact hkeep c.name (h.loaded c hc hstatus hbuiltin)
  · exact ⟨h.core, fun c hc hstatus hbuiltin => hkeep c.name (h.loaded c hc hstatus hbuiltin)⟩

/-- One import is enforced exactly when what it loads is built in and comes through the hook. -/
theorem request_enforced_iff {checks : List ImportCheck} {loaded : List CStr}
    (h : HookChecks ip checks loaded) (r : ImportRequest) :
    EnforcedAfter checks (importRequest ip loaded r).1 ↔
      ∀ source, r.loads ip loaded = some source → r.hooked = true ∧ source = .builtin := by
  rw [importRequest_eq]
  simp only
  cases hloads : r.loads ip loaded with
  | none =>
      refine iff_of_true ?_ (fun source hsource => (by cases hsource))
      cases r.hooked <;> exact trivial
  | some source =>
      have himport : importLoads ip r.sysPath loaded r.name = some source := by
        unfold ImportRequest.loads at hloads
        split_ifs at hloads
        exact hloads
      have honly : (∀ source', some source = some source' →
          r.hooked = true ∧ source' = .builtin) ↔ r.hooked = true ∧ source = .builtin :=
        ⟨fun hall => hall source rfl, fun hboth source' heq => Option.some.inj heq ▸ hboth⟩
      rw [honly]
      cases hhooked : r.hooked with
      | false =>
          refine iff_of_false ?_ (fun hboth => (by cases hboth.1))
          rintro ⟨⟨c, hc, hcovers⟩, -⟩
          cases source with
          | file path => exact h.not_covers_file r.name path ⟨c, hc, hcovers⟩
          | builtin =>
              obtain ⟨hnew, hbuiltin⟩ := importLoads_builtin himport
              obtain ⟨hname, hstatus, -⟩ := hcovers
              exact hnew (hname ▸ h.loaded c hc hstatus (hname ▸ hbuiltin))
      | true =>
          have hstatus : r.check.status = .ok := by
            by_contra hstatus
            rw [ImportRequest.loads, if_pos ⟨hhooked, hstatus⟩] at hloads
            cases hloads
          cases source with
          | file path =>
              refine iff_of_false ?_ (fun hboth => (by cases hboth.2))
              rintro ⟨⟨c, hc, hcovers⟩, -⟩
              rcases List.mem_cons.mp hc with rfl | hc
              · obtain ⟨-, -, hsource, -⟩ := hcovers
                rcases hsource with hsource | hsource <;> cases hsource
              · exact h.not_covers_file r.name path ⟨c, hc, hcovers⟩
          | builtin =>
              have hcovers : r.check.Covers r.name .builtin := ⟨rfl, hstatus, Or.inl rfl⟩
              exact iff_of_true ⟨⟨r.check, List.mem_cons_self .., hcovers⟩, trivial⟩ ⟨rfl, rfl⟩

/-- A sequence of imports is enforced exactly when all it loads are built-in modules that come
through the hook. -/
theorem requests_enforced_iff (rs : List ImportRequest) :
    ∀ {checks : List ImportCheck} {loaded : List CStr}, HookChecks ip checks loaded →
      (EnforcedAfter checks (importRequests ip loaded rs) ↔ PolicyOnPath ip loaded rs) := by
  induction rs with
  | nil => exact fun _ => Iff.rfl
  | cons r rs ih =>
      intro checks loaded h
      rw [importRequests, enforcedAfter_append, request_enforced_iff h, ih (h.request r)]
      exact Iff.rfl

end Requests

/-- The name under which the runner imports the entry module: the last part of the path without its
extension, cut to the buffer. -/
def entryModule (entryPath : CStr) : CStr :=
  let basename := (afterLast slash entryPath.val).getD entryPath.val
  let name :=
    match afterLast dot basename with
    | none => basename
    | some extension => basename.take (basename.length - extension.length - 1)
  (CStr.ofBytes name).strncpy 64

/-- `populate_sys_path`: the entries that are appended; `stored` are those there is memory for. -/
def populateSysPath (context : Context) (stored : CStr → Bool) : List CStr :=
  let surface := context.config.importSurface
  [(surface.appRoot, PathRole.app), (surface.runtimeRoot, .runtime),
      (surface.sdLibRoot, .sdk)].filterMap fun (path, role) =>
    if strNonempty path ∧ checkSysPathEntry context path role = .ok then path.filter stored
    else none

/-- A run of an app, in the foreground or for a background task: the interpreter, the context, the
entry path, whether there is a heap, the entries of `sys.path` there is memory for, and the imports
of the entry module's code and of all that runs after it, the runner's own of `jppsdk` included. -/
structure AppRun where
  interpreter : Interpreter
  context : Context
  entryPath : CStr
  heap : Bool
  stored : CStr → Bool
  requests : List ImportRequest

namespace AppRun

/-- What the import of the entry module loads; `jppsdk` is put with the loaded modules before. -/
def entryLoad (r : AppRun) : Option LoadSource :=
  if r.heap then
    importLoads r.interpreter (r.interpreter.initialPath ++ populateSysPath r.context r.stored)
      [pyName "jppsdk"] (entryModule r.entryPath)
  else none

/-- What happens in `runner_run_internal`.  Without an entry module no code of the app runs. -/
def events (r : AppRun) : List ImportEvent :=
  match r.entryLoad with
  | none => []
  | some source =>
      .loaded (entryModule r.entryPath) source ::
        importRequests r.interpreter [entryModule r.entryPath, pyName "jppsdk"] r.requests

theorem entryLoad_eq_none (r : AppRun) :
    r.entryLoad = none ↔
      r.heap = false ∨ entryModule r.entryPath = pyName "jppsdk" ∨
        r.interpreter.builtin (entryModule r.entryPath) = false ∧
          r.interpreter.find (r.interpreter.initialPath ++ populateSysPath r.context r.stored)
            (entryModule r.entryPath) = none := by
  unfold entryLoad importLoads
  split_ifs with hheap hloaded hbuiltin
  · exact iff_of_true rfl (Or.inr (Or.inl (List.mem_singleton.mp hloaded)))
  · refine iff_of_false (fun h => (by cases h)) ?_
    rintro (h | h | ⟨h, -⟩)
    · exact absurd hheap (by simp [h])
    · exact hloaded (List.mem_singleton.mpr h)
    · exact absurd hbuiltin (by simp [h])
  · rw [Option.map_eq_none_iff]
    constructor
    · exact fun h => Or.inr (Or.inr ⟨by simpa using hbuiltin, h⟩)
    · rintro (h | h | ⟨-, h⟩)
      · exact absurd hheap (by simp [h])
      · exact absurd (List.mem_singleton.mpr h) hloaded
      · exact h
  · exact iff_of_true rfl (Or.inl (by simpa using hheap))

/-- In a run with an entry module the later imports are enforced exactly when all they load are
built-in modules that come through the hook. -/
theorem imports_enforced_iff (r : AppRun) :
    Enforced
        (importRequests r.interpreter [entryModule r.entryPath, pyName "jppsdk"] r.requests) ↔
      PolicyOnPath r.interpreter [entryModule r.entryPath, pyName "jppsdk"] r.requests :=
  requests_enforced_iff r.requests (HookChecks.nil r.interpreter _)

end AppRun

/-- The policy is enforced in a run exactly when the run loads nothing: there is no heap, or the
entry module is `jppsdk`, or it is neither built in nor found on `sys.path`. -/
theorem import_policy_enforced_iff (r : AppRun) :
    Enforced r.events ↔
      r.heap = false ∨ entryModule r.entryPath = pyName "jppsdk" ∨
        r.interpreter.builtin (entryModule r.entryPath) = false ∧
          r.interpreter.find (r.interpreter.initialPath ++ populateSysPath r.context r.stored)
            (entryModule r.entryPath) = none := by
  rw [← AppRun.entryLoad_eq_none]
  unfold AppRun.events
  cases hload : r.entryLoad with
  | none => exact iff_of_true trivial rfl
  | some source =>
      refine iff_of_false ?_ (fun h => (by cases h))
      -- nothing is checked before the entry module
      rintro ⟨⟨c, hc, -⟩, -⟩
      exact absurd hc List.not_mem_nil

/-- An interpreter with no built-in modules that finds the modules in one directory. -/
def modulesIn (dir : CStr) : Interpreter where
  builtin := fun _ => false
  initialPath := [pyName ""]
  find := fun sysPath name =>
    if dir ∈ sysPath then some (CStr.ofBytes (dir.val ++ slash :: name.val ++ ascii ".mpy"))
    else none

/-- An app whose entry module is in its own directory and that imports nothing. -/
def plainRun : AppRun where
  interpreter := modulesIn (pyName "/sd/apps/game")
  context := runningContext (pyName "/sd/apps/game")
  entryPath := pyName "main.mpy"
  heap := true
  stored := fun _ => true
  requests := []

/-- The entry module is loaded with no check before it. -/
theorem not_import_policy_enforced : ¬ ∀ r : AppRun, Enforced r.events := by
  intro h
  have hload : plainRun.entryLoad = some (.file (pyName "/sd/apps/game/main.mpy")) := by
    decide
  have hevents : plainRun.events =
      [.loaded (entryModule plainRun.entryPath) (.file (pyName "/sd/apps/game/main.mpy"))] := by
    unfold AppRun.events
    rw [hload]
    rfl
  have hplain := h plainRun
  rw [hevents] at hplain
  obtain ⟨⟨c, hc, -⟩, -⟩ := hplain
  exact absurd hc List.not_mem_nil

end Vm
end JppDos
