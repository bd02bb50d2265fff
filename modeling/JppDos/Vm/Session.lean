import JppDos.Vm.Imports

/-!
# Preparing and starting the runtime

Which configurations a session of an app may have, and the two steps that lead to it.

Main fact:
* `runtimeConfigIsValid_launch`: the configuration of a launch is valid exactly when its
  root is.
-/

namespace JppDos
namespace Vm

open CText Paths Sdk

/-- `jpp_vm_app_id_is_valid`. -/
def vmAppIdIsValid (appId : CStr) : Bool :=
  if !strNameValid appId then false else appId ≠ CStr.ofBytes (ascii "settings")

/-- `sd_prefix`. -/
def sdPrefix : List UInt8 := ascii "/sd/apps/"

/-- `data_prefix`. -/
def dataPrefix : List UInt8 := ascii "/data/apps/"

/-- `jpp_vm_app_root_is_valid`. -/
def appRootIsValid (path : Option CStr) : Bool :=
  match path with
  | none => false
  | some path =>
      if path.val = [] then false
      else if path.val.take sdPrefix.length = sdPrefix then
        if path.val.drop sdPrefix.length = [] then false else !strHasParentSegment path
      else if path.val.take dataPrefix.length = dataPrefix then
        if path.val.drop dataPrefix.length = [] then false else !strHasParentSegment path
      else false

/-- `jpp_vm_import_surface_is_valid`. -/
def importSurfaceIsValid (surface : ImportSurface) : Bool :=
  if !appRootIsValid surface.appRoot then false
  else if !taskNameMatches surface.runtimeRoot (some (CStr.ofBytes (ascii "/lib"))) then false
  else if !taskNameMatches surface.sdLibRoot (some (CStr.ofBytes (ascii "/sd/lib"))) then false
  else if surface.allowedModules = [] then false
  else surface.allowedModules.all fun allowed =>
    match allowed with
    | none => false
    | some name => strNameValid name && !moduleIsBlocked (some name)

/-- `jpp_vm_runtime_config_is_valid`. -/
def runtimeConfigIsValid (config : RuntimeConfig) : Bool :=
  if !strNonempty config.ownerTaskName then false
  else if config.memory.heapBytes = 0 ∨ config.memory.stackWords = 0 then false
  else if config.memory.heapBytes > heapLimitBytes then false
  else if config.memory.stackWords > stackLimitWords then false
  else if config.memory.queueDepth = 0 ∨ config.memory.queueDepth > queueCapacityMax then false
  else importSurfaceIsValid config.importSurface

/-- What `jpp_vm_runtime_prepare` leaves of a valid configuration. -/
def prepared (config : RuntimeConfig) : Context :=
  { contextInit with
    config := config
    queueCapacity := config.memory.queueDepth
    state := .waitingForBoot }

/-- `jpp_vm_runtime_prepare`; `none` is the null pointer. -/
def runtimePrepare (context : Context) (config : Option RuntimeConfig) : VmStatus × Context :=
  match config with
  | none => (.invalidArgument, context)
  | some config =>
      if !runtimeConfigIsValid config then (.invalidConfig, context)
      else (.ok, prepared config)

/-- What the runtime reads of `jpp_boot_context_t`. -/
structure BootContext where
  flashLayoutReady : Bool
  settingsAvailable : Bool
  runtimePathsReady : Bool
  servicesReady : Bool
  systemReady : Bool

/-- `jpp_vm_boot_ready`. -/
def bootReady (boot : BootContext) : Bool :=
  if !boot.flashLayoutReady || !boot.settingsAvailable then false
  else if !boot.runtimePathsReady || !boot.servicesReady then false
  else boot.systemReady

/-- `jpp_vm_runtime_start`; `none` is the null pointer. -/
def runtimeStart (context : Context) (boot : Option BootContext) : VmStatus × Context :=
  match boot with
  | none => (.invalidArgument, context)
  | some boot =>
      if context.state ≠ .waitingForBoot then (.invalidState, context)
      else if !bootReady boot then (.bootNotReady, context)
      else (.ok, { context with state := .running })

/-- `jpp_vm_task_can_touch_python_objects`. -/
def taskCanTouchPythonObjects (context : Context) (taskName : Option CStr) : Bool :=
  if context.state ≠ .running then false
  else taskNameMatches context.config.ownerTaskName taskName

theorem taskNameMatches_eq {left right : Option CStr} (h : taskNameMatches left right = true) :
    left = right := by
  rw [taskNameMatches, Bool.and_eq_true, Bool.and_eq_true, beq_iff_eq] at h
  exact h.1.2

/-- The queue of a valid configuration has places, and no more than the array. -/
theorem runtimeConfigIsValid_depth {config : RuntimeConfig}
    (h : runtimeConfigIsValid config = true) :
    0 < config.memory.queueDepth ∧ config.memory.queueDepth ≤ queueCapacityMax := by
  rw [runtimeConfigIsValid] at h
  split_ifs at h
  omega

/-- The configuration of a launch is valid exactly when its root is. -/
theorem runtimeConfigIsValid_launch (appRoot : CStr) :
    runtimeConfigIsValid (launchConfig appRoot) = appRootIsValid (some appRoot) := by
  have hnames : ∀ text ∈ [ascii "sd_app", ascii "/lib", ascii "/sd/lib"],
      taskNameMatches (some (CStr.ofBytes text)) (some (CStr.ofBytes text)) = true ∧
        strNonempty (some (CStr.ofBytes text)) = true := by decide
  have howner : strNonempty (launchConfig appRoot).ownerTaskName = true :=
    (hnames (ascii "sd_app") (by simp)).2
  have hruntime : taskNameMatches (launchConfig appRoot).importSurface.runtimeRoot
      (some (CStr.ofBytes (ascii "/lib"))) = true := (hnames (ascii "/lib") (by simp)).1
  have hsdLib : taskNameMatches (launchConfig appRoot).importSurface.sdLibRoot
      (some (CStr.ofBytes (ascii "/sd/lib"))) = true := (hnames (ascii "/sd/lib") (by simp)).1
  have hmodules : ∀ name ∈ launchModules,
      (strNameValid name && !moduleIsBlocked (some name)) = true := by decide
  have hall : (launchConfig appRoot).importSurface.allowedModules.all (fun allowed =>
      match allowed with
      | none => false
      | some name => strNameValid name && !moduleIsBlocked (some name)) = true := by
    rw [List.all_eq_true]
    intro allowed hallowed
    obtain ⟨name, hname, rfl⟩ := List.mem_map.mp hallowed
    exact hmodules name hname
  have hne : (launchConfig appRoot).importSurface.allowedModules ≠ [] := by
    simp [launchConfig, launchModules]
  rw [runtimeConfigIsValid, importSurfaceIsValid, howner, hruntime, hsdLib, hall, if_neg hne]
  cases hroot : appRootIsValid (some appRoot) <;>
    simp [launchConfig, hroot, heapLimitBytes, stackLimitWords, queueCapacityMax]

end Vm
end JppDos
