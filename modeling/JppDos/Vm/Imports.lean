import JppDos.Sdk.AppPath
import JppDos.Vm.Context

/-!
# The import policy

Which modules an app may import, and from where: a list of blocked root packages, the list
of allowed ones, and the directories below which a module that comes from a path must lie.
-/

namespace JppDos
namespace Vm

open CText Paths Sdk

/-- The text begins with the given one, and there it ends or goes on with a separator. -/
def beginsWith (sep : UInt8) (front text : CStr) : Bool :=
  front.val.isPrefixOf text.val &&
    (text.val[front.strlen]? == none || text.val[front.strlen]? == some sep)

/-- `jpp_vm_path_is_under_root`. -/
def pathIsUnderRoot (path root : Option CStr) : Bool :=
  match path, root with
  | some path, some root =>
      if path.val = [] ∨ root.val = [] ∨ path.val.head? ≠ some slash then false
      else if strHasParentSegment path then false
      else beginsWith slash root path
  | _, _ => false

/-- `jpp_vm_allowed_module_matches`. -/
def allowedModuleMatches (allowedModule moduleName : Option CStr) : Bool :=
  match allowedModule, moduleName with
  | some allowedModule, some moduleName =>
      if allowedModule.val = [] ∨ moduleName.val = [] then false
      else beginsWith dot allowedModule moduleName
  | _, _ => false

/-- `blocked_modules`. -/
def blockedModules : List CStr :=
  ["machine", "network", "socket", "os", "uos", "esp", "esp32"].map fun name =>
    CStr.ofBytes (ascii name)

/-- `jpp_vm_module_is_blocked`. -/
def moduleIsBlocked (moduleName : Option CStr) : Bool :=
  if !strNonempty moduleName then true
  else blockedModules.any fun blocked => allowedModuleMatches (some blocked) moduleName

/-- `jpp_vm_module_is_allowed`. -/
def moduleIsAllowed (surface : ImportSurface) (moduleName : Option CStr) : Bool :=
  match moduleName with
  | none => false
  | some name =>
      if !strNameValid name || moduleIsBlocked (some name) then false
      else surface.allowedModules.any fun allowed => allowedModuleMatches allowed (some name)

/-- `jpp_vm_check_import`, whose callers pass the address of a context. -/
def checkImport (context : Context) (moduleName : Option CStr) (source : ImportSource)
    (originPath : Option CStr) : VmStatus :=
  match moduleName with
  | none => .invalidArgument
  | some name =>
      if name.val = [] then .invalidArgument
      else if context.state ≠ .running then .invalidState
      else if !strNameValid name then .invalidArgument
      else if moduleIsBlocked (some name) then .unsupportedImport
      else
        let surface := context.config.importSurface
        match source with
        | .core | .sdk =>
            if moduleIsAllowed surface (some name) then .ok else .unsupportedImport
        | .runtimePath =>
            if !moduleIsAllowed surface (some name) then .unsupportedImport
            else if pathIsUnderRoot originPath surface.runtimeRoot ||
                pathIsUnderRoot originPath surface.sdLibRoot then .ok
            else .pathNotAllowed
        | .appPath =>
            if pathIsUnderRoot originPath surface.appRoot then .ok else .pathNotAllowed
        | .other _ => .invalidArgument

/-- `jpp_vm_check_sys_path_entry`. -/
def checkSysPathEntry (context : Context) (path : Option CStr) (role : PathRole) : VmStatus :=
  if !strNonempty path then .invalidArgument
  else if context.state ≠ .running then .invalidState
  else
    let surface := context.config.importSurface
    match role with
    | .runtime => if pathIsUnderRoot path surface.runtimeRoot then .ok else .pathNotAllowed
    | .sdk => if pathIsUnderRoot path surface.sdLibRoot then .ok else .pathNotAllowed
    | .app => if pathIsUnderRoot path surface.appRoot then .ok else .pathNotAllowed
    | .other _ => .invalidArgument

/-- The beginning is all of the text, or the separator follows it. -/
theorem beginsWith_iff {sep : UInt8} {front text : CStr} :
    beginsWith sep front text = true ↔
      text.val = front.val ∨ ∃ rest, text.val = front.val ++ sep :: rest := by
  simp only [beginsWith, Bool.and_eq_true, Bool.or_eq_true, List.isPrefixOf_iff_prefix,
    beq_iff_eq]
  constructor
  · rintro ⟨⟨rest, hrest⟩, hend⟩
    rw [← hrest, CStr.strlen, List.getElem?_append_right (Nat.le_refl _), Nat.sub_self] at hend
    cases rest with
    | nil => exact Or.inl (by rw [← hrest, List.append_nil])
    | cons c rest =>
        obtain rfl : c = sep := by simpa using hend
        exact Or.inr ⟨rest, hrest.symm⟩
  · rintro (heq | ⟨rest, heq⟩)
    · exact ⟨heq ▸ List.prefix_refl _, Or.inl (by simp [heq, CStr.strlen])⟩
    · exact ⟨heq ▸ List.prefix_append _ _, Or.inr (by simp [heq, CStr.strlen])⟩

/-- The package that a dotted name is a part of. -/
def rootPackage (name : CStr) : List UInt8 := name.val.takeWhile (· ≠ dot)

theorem beginsWith_rootPackage {front name : CStr} (h : rootPackage name = front.val) :
    beginsWith dot front name = true := by
  rw [beginsWith_iff, ← h, rootPackage]
  have hsplit := List.takeWhile_append_dropWhile (p := (· ≠ dot)) (l := name.val)
  cases hrest : name.val.dropWhile (· ≠ dot) with
  | nil =>
      rw [hrest, List.append_nil] at hsplit
      exact Or.inl hsplit.symm
  | cons c rest =>
      have hc : c = dot := by
        have hhead := List.head?_dropWhile_not (· ≠ dot) name.val
        rw [hrest] at hhead
        simpa using hhead
      rw [hrest, hc] at hsplit
      exact Or.inr ⟨rest, hsplit.symm⟩

/-- The root package of a name that is not blocked is on no list of blocked modules. -/
theorem not_moduleIsBlocked {name : CStr} (h : moduleIsBlocked (some name) = false) :
    rootPackage name ∉ blockedModules.map Subtype.val := by
  intro hmem
  obtain ⟨blocked, hblocked, heq⟩ := List.mem_map.mp hmem
  rw [moduleIsBlocked] at h
  split at h
  · exact absurd h (by simp)
  rename_i hname
  have hne : name.val ≠ [] := by simpa [strNonempty] using hname
  have hblockedNe : blocked.val ≠ [] :=
    (show ∀ b ∈ blockedModules, b.val ≠ [] by decide) blocked hblocked
  have hmatch : allowedModuleMatches (some blocked) (some name) = true := by
    simp [allowedModuleMatches, hne, hblockedNe, beginsWith_rootPackage heq.symm]
  rw [List.any_eq_false] at h
  exact h blocked hblocked hmatch

/-- A path that is accepted leads below the root, also when its `..` are followed. -/
theorem pathIsUnderRoot_below {path root : Option CStr} (h : pathIsUnderRoot path root = true) :
    ∃ p r : CStr, path = some p ∧ root = some r ∧ p.val.head? = some slash ∧
      Below (resolve r.val) p.val := by
  cases path with
  | none => exact absurd h (by simp [pathIsUnderRoot])
  | some p =>
      cases root with
      | none => exact absurd h (by simp [pathIsUnderRoot])
      | some r =>
          simp only [pathIsUnderRoot] at h
          split at h
          · exact absurd h (by simp)
          rename_i hslash
          refine ⟨p, r, rfl, rfl, by simpa using (not_or.mp (not_or.mp hslash).2).2, ?_⟩
          split at h
          · exact absurd h (by simp)
          rename_i hparent
          rw [strHasParentSegment_eq_true] at hparent
          rcases beginsWith_iff.mp h with heq | ⟨rest, heq⟩
          · exact heq ▸ List.prefix_refl _
          · rw [heq, segments_join, List.mem_append, not_or] at hparent
            exact heq ▸ below_join hparent.2

/-- The roots below which a module of a kind may lie. -/
def ImportSurface.rootsOf (surface : ImportSurface) : ImportSource → List (Option CStr)
  | .runtimePath => [surface.runtimeRoot, surface.sdLibRoot]
  | .appPath => [surface.appRoot]
  | _ => []

/-- The path leads below a root of its kind, also when its `..` are followed. -/
def ImportSurface.Holds (surface : ImportSurface) (source : ImportSource)
    (originPath : Option CStr) : Prop :=
  ∃ path root : CStr, originPath = some path ∧ some root ∈ surface.rootsOf source ∧
    path.val.head? = some slash ∧ Below (resolve root.val) path.val

/-- What the check of an import has found when it returns OK. -/
theorem checkImport_ok {context : Context} {moduleName originPath : Option CStr}
    {source : ImportSource} (h : checkImport context moduleName source originPath = .ok) :
    ∃ name, moduleName = some name ∧ moduleIsBlocked (some name) = false ∧
      (source = .runtimePath ∨ source = .appPath →
        ∃ root ∈ context.config.importSurface.rootsOf source,
          pathIsUnderRoot originPath root = true) := by
  cases moduleName with
  | none => exact absurd h (by simp [checkImport])
  | some name =>
      rw [checkImport] at h
      split_ifs at h with hname hstate hvalid hblocked
      refine ⟨name, rfl, by simpa using hblocked, ?_⟩
      cases source with
      | core => simp
      | sdk => simp
      | runtimePath =>
          simp only at h
          split_ifs at h with hallowed hpath
          rw [Bool.or_eq_true] at hpath
          intro _
          rcases hpath with hpath | hpath
          · exact ⟨_, List.mem_cons_self, hpath⟩
          · exact ⟨_, List.mem_cons_of_mem _ List.mem_cons_self, hpath⟩
      | appPath =>
          simp only at h
          split_ifs at h with hpath
          exact fun _ => ⟨_, List.mem_cons_self, hpath⟩
      | other value => exact absurd h (by simp)

/-- The check lets no blocked package through, in no configuration, and a module that comes
from a path only from below a root of its kind. -/
theorem checkImport_sound (context : Context) (moduleName originPath : Option CStr)
    (source : ImportSource) (h : checkImport context moduleName source originPath = .ok) :
    ∃ name, moduleName = some name ∧ rootPackage name ∉ blockedModules.map Subtype.val ∧
      (source = .runtimePath ∨ source = .appPath →
        context.config.importSurface.Holds source originPath) := by
  obtain ⟨name, hname, hblocked, hpath⟩ := checkImport_ok h
  refine ⟨name, hname, not_moduleIsBlocked hblocked, fun hsource => ?_⟩
  obtain ⟨root, hroot, hunder⟩ := hpath hsource
  obtain ⟨path, r, rfl, rfl, hslash, hbelow⟩ := pathIsUnderRoot_below hunder
  exact ⟨path, r, rfl, hroot, hslash, hbelow⟩

/-- A context in which an app runs. -/
def runningContext (appRoot : CStr) : Context :=
  { contextInit with config := launchConfig appRoot, state := .running, queueCapacity := 8 }

/-- A submodule of a package in the app's own directory. -/
theorem checkImport_sound_appPath :
    ∃ name, some (CStr.ofBytes (ascii "levels.first")) = some name ∧
      rootPackage name ∉ blockedModules.map Subtype.val ∧
      (ImportSource.appPath = .runtimePath ∨ ImportSource.appPath = .appPath →
        (launchConfig (CStr.ofBytes (ascii "/sd/apps/game"))).importSurface.Holds .appPath
          (some (CStr.ofBytes (ascii "/sd/apps/game/levels/first.py")))) :=
  checkImport_sound (runningContext (CStr.ofBytes (ascii "/sd/apps/game"))) _ _ .appPath
    (by decide)

/-- The root for entries of a role. -/
def ImportSurface.rootOf (surface : ImportSurface) : PathRole → Option CStr
  | .runtime => surface.runtimeRoot
  | .sdk => surface.sdLibRoot
  | .app => surface.appRoot
  | .other _ => none

end Vm
end JppDos
