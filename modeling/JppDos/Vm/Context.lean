import JppDos.Lib.CText

/-!
# The context of the app runtime

The data of the runtime that a MicroPython app runs under: its configuration, the requests
that other tasks queue for it, and the context that holds both.
-/

namespace JppDos
namespace Vm

open CText

/-- `JPP_VM_QUEUE_CAPACITY_MAX`. -/
def queueCapacityMax : Nat := 8

/-- `JPP_VM_TASK_NAME_MAX`. -/
def taskNameMax : Nat := 32

/-- `JPP_RESOURCE_VM_HEAP_LIMIT_BYTES`. -/
def heapLimitBytes : Nat := 196608

/-- `JPP_RESOURCE_VM_STACK_LIMIT_WORDS`. -/
def stackLimitWords : Nat := 12288

/-- `jpp_vm_state_t`. -/
inductive VmState
  | offline
  | waitingForBoot
  | running
  deriving DecidableEq

/-- `jpp_vm_status_t`. -/
inductive VmStatus
  | ok
  | invalidArgument
  | invalidConfig
  | invalidState
  | bootNotReady
  | queueFull
  | accessDenied
  | appNotAllowed
  | unsupportedImport
  | pathNotAllowed
  deriving DecidableEq

/-- `jpp_vm_request_kind_t`, and the values outside the enumeration. -/
inductive RequestKind
  | none
  | startup
  | idle
  | importModule
  | action
  | other (value : Nat)
  deriving DecidableEq

/-- `jpp_vm_import_source_t`, and the values above its last one. -/
inductive ImportSource
  | core
  | sdk
  | runtimePath
  | appPath
  | other (value : Nat)
  deriving DecidableEq

/-- `jpp_vm_path_role_t`, and the values above its last one. -/
inductive PathRole
  | runtime
  | sdk
  | app
  | other (value : Nat)
  deriving DecidableEq

/-- `jpp_vm_memory_config_t`. -/
structure MemoryConfig where
  heapBytes : Nat
  stackWords : Nat
  queueDepth : Nat
  deriving DecidableEq

/-- `jpp_vm_import_surface_t`; `none` is the null pointer. -/
structure ImportSurface where
  appRoot : Option CStr
  runtimeRoot : Option CStr
  sdLibRoot : Option CStr
  /-- The array and its count; the null array is empty. -/
  allowedModules : List (Option CStr)
  deriving DecidableEq

/-- `jpp_vm_runtime_config_t`. -/
structure RuntimeConfig where
  ownerTaskName : Option CStr
  memory : MemoryConfig
  importSurface : ImportSurface
  deriving DecidableEq

/-- `jpp_vm_request_t`. -/
structure Request where
  kind : RequestKind
  originTaskName : CStr
  appId : CStr
  moduleName : CStr
  originPath : CStr
  importSource : ImportSource
  actionPayload : UInt32
  deriving DecidableEq

/-- A request that is all zero bytes. -/
def Request.zero : Request where
  kind := .none
  originTaskName := CStr.ofBytes []
  appId := CStr.ofBytes []
  moduleName := CStr.ofBytes []
  originPath := CStr.ofBytes []
  importSource := .core
  actionPayload := 0

/-- A configuration that is all zero bytes. -/
def RuntimeConfig.zero : RuntimeConfig where
  ownerTaskName := none
  memory := { heapBytes := 0, stackWords := 0, queueDepth := 0 }
  importSurface :=
    { appRoot := none, runtimeRoot := none, sdLibRoot := none, allowedModules := [] }

/-- `jpp_vm_context_t`. -/
structure Context where
  config : RuntimeConfig
  state : VmState
  queueCapacity : Nat
  queueHead : Nat
  queueCount : Nat
  queue : Vector Request queueCapacityMax
  deriving DecidableEq

/-- `jpp_vm_context_init`. -/
def contextInit : Context where
  config := RuntimeConfig.zero
  state := .offline
  queueCapacity := 0
  queueHead := 0
  queueCount := 0
  queue := Vector.replicate queueCapacityMax Request.zero

/-- The modules that `launch_app_from` allows. -/
def launchModules : List CStr :=
  ["jppsdk", "json", "struct", "math", "array", "collections", "io", "micropython", "gc",
    "sys"].map fun name => CStr.ofBytes (ascii name)

/-- The configuration that `launch_app_from` makes for an app with the given root. -/
def launchConfig (appRoot : CStr) : RuntimeConfig where
  ownerTaskName := some (CStr.ofBytes (ascii "sd_app"))
  memory := { heapBytes := 32 * 1024, stackWords := 8192, queueDepth := 8 }
  importSurface :=
    { appRoot := some appRoot
      runtimeRoot := some (CStr.ofBytes (ascii "/lib"))
      sdLibRoot := some (CStr.ofBytes (ascii "/sd/lib"))
      allowedModules := launchModules.map some }

/-- `jpp_str_nonempty`. -/
def strNonempty (s : Option CStr) : Bool :=
  match s with
  | none => false
  | some s => s.val ≠ []

/-- `jpp_vm_task_name_matches`. -/
def taskNameMatches (left right : Option CStr) : Bool :=
  left.isSome && left == right && strNonempty left

end Vm
end JppDos
