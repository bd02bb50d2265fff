import JppDos.Lib.CInt
import JppDos.Sdk.AppPath
import JppDos.Sdk.Grants

/-!
# Manifests

The manifest of an app as the launcher reads it from its file, the checks it has to pass,
and the checks of the entry file before an app is started.
-/

namespace JppDos
namespace App

open CText Sdk

/-- An element of `background.tasks`; `none` where the value has another type. -/
structure TaskJson where
  name : Option CStr
  intervalS : Option Nat
  cron : Option CStr

/-- The object `toolchain`. -/
structure ToolchainJson where
  runtimeVersion : Option CStr
  crossVersion : Option CStr
  bytecodeAbi : Option Int

/-- The values of a manifest file that are read; `none` where one has another type. -/
structure ManifestJson where
  name : Option CStr
  version : Option CStr
  entry : Option CStr
  appType : Option CStr
  schemaVersion : Option Int
  sdkMin : Option Int
  capabilities : List (Option CStr)
  bgEnabled : Bool
  bgTasks : List TaskJson
  toolchain : Option ToolchainJson

/-- `jpp_manifest_app_type_t`. -/
inductive AppType
  | micropython
  | native
  deriving DecidableEq

/-- `jpp_manifest_bg_task_t`. -/
structure BgTask where
  name : CStr
  intervalS : Nat
  cron : CStr

/-- `jpp_manifest_v2_t`. -/
structure Manifest where
  schemaVersion : Int
  appId : CStr
  name : CStr
  version : CStr
  sdkMin : Int
  entry : CStr
  appType : AppType
  capabilities : List CStr
  bgEnabled : Bool
  bgTasks : List BgTask
  runtimeVersion : CStr
  crossVersion : CStr
  bytecodeAbi : Int

/-- `SD_MANIFEST_CAP_MAX`. -/
def sdManifestCapMax : Nat := 16

/-- `JPP_MANIFEST_V2_BG_TASK_MAX`. -/
def bgTaskMax : Nat := 4

/-- A text of the file in a cleared buffer. -/
def copied (value : Option CStr) (bufLen : Nat) : CStr := (value.getD (lit "")).strncpy bufLen

/-- A task of the file, if it has a name. -/
def loadTask (task : TaskJson) : Option BgTask :=
  task.name.map fun name =>
    { name := name.strncpy 32
      intervalS := task.intervalS.getD 0
      cron := copied task.cron 24 }

/-- `load_sd_manifest`, behind the parser. -/
def loadSdManifest (appId : CStr) (json : ManifestJson) : Manifest where
  schemaVersion := json.schemaVersion.getD 2
  appId := appId.strncpy 64
  name := copied json.name 64
  version := copied json.version 32
  sdkMin := json.sdkMin.getD 1
  entry := copied json.entry 160
  appType := if json.appType = some (lit "native") then .native else .micropython
  capabilities := ((json.capabilities.filterMap id).take sdManifestCapMax).map (·.strncpy 32)
  bgEnabled := json.bgEnabled
  bgTasks := (json.bgTasks.filterMap loadTask).take bgTaskMax
  runtimeVersion := copied (json.toolchain.bind (·.runtimeVersion)) 32
  crossVersion := copied (json.toolchain.bind (·.crossVersion)) 32
  bytecodeAbi := (json.toolchain.bind (·.bytecodeAbi)).getD 0

theorem loadSdManifest_length (appId : CStr) (json : ManifestJson) :
    (loadSdManifest appId json).capabilities.length ≤ pendingCapMax := by
  rw [loadSdManifest, List.length_map, List.length_take]
  exact Nat.min_le_left _ _

/-- `jpp_manifest_result_t`. -/
inductive ManifestResult
  | ok
  | invalidManifest
  | schemaMismatch
  | reservedAppId
  | invalidEntry
  | invalidAppType
  | invalidCapability
  | invalidBackground
  | invalidToolchain
  | runtimeMismatch
  | sdkTooOld
  deriving DecidableEq

/-- `jpp_str_nonempty`. -/
def nonempty (s : CStr) : Bool := decide (s.val ≠ [])

/-- The names of `jpp_manifest_v2_is_reserved_app_id`. -/
def reservedAppIds : List CStr :=
  [lit "launcher", lit "settings", lit "webdav", lit "webdav_passconfig", lit "shell",
    lit "dialog", lit "app_crash", lit "sd_ejected"]

/-- `jpp_manifest_v2_is_reserved_app_id`. -/
def isReservedAppId (appId : CStr) : Bool := decide (appId ∈ reservedAppIds)

/-- `jpp_manifest_v2_is_valid_entry_path`. -/
def isValidEntryPath (path : CStr) : Bool :=
  nonempty path && path.val.head? != some 47 && !strHasParentSegment path

/-- `has_suffix`. -/
def hasSuffix (s suffix : CStr) : Bool := suffix.val.isSuffixOf s.val

/-- `validate_app_type_entry`. -/
def validateAppTypeEntry (manifest : Manifest) : ManifestResult :=
  match manifest.appType with
  | .micropython => if hasSuffix manifest.entry (lit ".mpy") then .ok else .invalidAppType
  | .native => if hasSuffix manifest.entry (lit ".bin") then .ok else .invalidAppType

/-- `validate_capabilities`. -/
def validateCapabilities (manifest : Manifest) : ManifestResult :=
  if manifest.capabilities.all isAllowedCapability then .ok else .invalidCapability

/-- The number of a field, `v = v * 10 + (*p - '0')` in an `int`. -/
def cronNumber (digits : List UInt8) : Int :=
  digits.foldl (fun v c => CInt.wrap32 (v * 10 + (c.toNat - 48))) 0

/-- `cron_field_ok`: what follows a valid field. -/
def cronFieldOk (minV maxV : Nat) (cursor : List UInt8) : Option (List UInt8) :=
  let behind (rest : List UInt8) : Option (List UInt8) :=
    if rest.head? = some 32 ∨ rest = [] then some (rest.dropWhile (· = 32)) else none
  match cursor with
  | 42 :: rest => behind rest
  | _ =>
      let digits := cursor.takeWhile fun c => 48 ≤ c && c ≤ 57
      let v := cronNumber digits
      if digits = [] then none
      else if v < minV ∨ maxV < v then none
      else behind (cursor.drop digits.length)

/-- `jpp_manifest_v2_is_valid_cron`. -/
def isValidCron (cron : CStr) : Bool :=
  nonempty cron &&
    (do
      let p ← cronFieldOk 0 59 cron.val
      let p ← cronFieldOk 0 23 p
      let p ← cronFieldOk 1 31 p
      let p ← cronFieldOk 1 12 p
      cronFieldOk 0 6 p) == some []

/-- `JPP_RESOURCE_BG_INTERVAL_MIN_S`. -/
def bgIntervalMinS : Nat := 60

/-- The checks of `validate_background` on a task. -/
def validTask (task : BgTask) : Bool :=
  let hasInterval := decide (0 < task.intervalS)
  let hasCron := nonempty task.cron
  strNameValid task.name && hasInterval != hasCron &&
    (!hasInterval || bgIntervalMinS ≤ task.intervalS) && (!hasCron || isValidCron task.cron)

/-- `validate_background`. -/
def validateBackground (manifest : Manifest) : ManifestResult :=
  if bgTaskMax < manifest.bgTasks.length then .invalidBackground
  else if manifest.bgTasks.all validTask then .ok
  else .invalidBackground

/-- `JPP_MANIFEST_V2_RUNTIME_VERSION`. -/
def manifestRuntimeVersion : CStr := lit "v1.28.0"

/-- `JPP_MANIFEST_V2_CROSS_VERSION`. -/
def manifestCrossVersion : CStr := lit "1.28.0"

/-- `JPP_MANIFEST_V2_BYTECODE_ABI`. -/
def manifestBytecodeAbi : Int := 6

/-- The toolchain of a manifest or an entry record is there. -/
def toolchainIsComplete (runtimeVersion crossVersion : CStr) (bytecodeAbi : Int) : Bool :=
  nonempty runtimeVersion && nonempty crossVersion && 0 < bytecodeAbi

/-- And it is the firmware's own. -/
def toolchainMatches (runtimeVersion crossVersion : CStr) (bytecodeAbi : Int) : Bool :=
  runtimeVersion == manifestRuntimeVersion && crossVersion == manifestCrossVersion &&
    bytecodeAbi == manifestBytecodeAbi

/-- `validate_toolchain`. -/
def validateToolchain (manifest : Manifest) : ManifestResult :=
  if manifest.appType = .native then .ok
  else if !toolchainIsComplete manifest.runtimeVersion manifest.crossVersion
      manifest.bytecodeAbi then .invalidToolchain
  else if !toolchainMatches manifest.runtimeVersion manifest.crossVersion
      manifest.bytecodeAbi then .runtimeMismatch
  else .ok

/-- `JPP_MANIFEST_V2_SCHEMA_VERSION`. -/
def manifestSchemaVersion : Int := 2

/-- `JPP_SDK_VERSION`. -/
def sdkVersion : Int := 3

/-- The first check that fails, or the ones behind it. -/
def ManifestResult.orElse (result rest : ManifestResult) : ManifestResult :=
  if result = .ok then rest else result

/-- `jpp_manifest_v2_validate`. -/
def manifestValidate (manifest : Manifest) : ManifestResult :=
  if manifest.schemaVersion ≠ manifestSchemaVersion then .schemaMismatch
  else if !nonempty manifest.appId || !nonempty manifest.name || !nonempty manifest.version ||
      !nonempty manifest.entry then .invalidManifest
  else if isReservedAppId manifest.appId then .reservedAppId
  else if manifest.sdkMin < 1 then .invalidManifest
  else if sdkVersion < manifest.sdkMin then .sdkTooOld
  else if !isValidEntryPath manifest.entry then .invalidEntry
  else
    (validateAppTypeEntry manifest).orElse <|
      (validateCapabilities manifest).orElse <|
        (validateBackground manifest).orElse (validateToolchain manifest)

/-- `jpp_app_loader_result_t`. -/
inductive LoaderResult
  | ok
  | manifestRejected
  | missingEntry
  | invalidEntry
  | invalidToolchain
  | runtimeMismatch
  | corrupt
  deriving DecidableEq

/-- The entry file of an app. -/
structure EntryFile where
  present : Bool
  sizeBytes : Nat

/-- `jpp_app_loader_preflight`, on the record that the launcher makes from the manifest and
the entry file. -/
def preflight (manifest : Manifest) (entry : EntryFile) : LoaderResult :=
  if manifestValidate manifest ≠ .ok then .manifestRejected
  else if !entry.present then .missingEntry
  else if !isValidEntryPath manifest.entry then .invalidEntry
  else if entry.sizeBytes = 0 then .corrupt
  else if manifest.appType = .micropython then
    if !toolchainIsComplete manifest.runtimeVersion manifest.crossVersion
        manifest.bytecodeAbi then .invalidToolchain
    else if !toolchainMatches manifest.runtimeVersion manifest.crossVersion
        manifest.bytecodeAbi then .runtimeMismatch
    else .ok
  else .ok

theorem orElse_eq_ok {result rest : ManifestResult} (h : result.orElse rest = .ok) :
    result = .ok ∧ rest = .ok := by
  rw [ManifestResult.orElse] at h
  split at h
  · exact ⟨‹_›, h⟩
  · exact absurd h ‹_›

/-- An app that passes declares known capabilities only. -/
theorem preflight_allowed {manifest : Manifest} {entry : EntryFile}
    (h : preflight manifest entry = .ok) :
    ∀ cap ∈ manifest.capabilities, isAllowedCapability cap = true := by
  have hmanifest : manifestValidate manifest = .ok := by
    by_contra hbad
    rw [preflight, if_pos hbad] at h
    exact absurd h (by decide)
  rw [manifestValidate] at hmanifest
  repeat' first
    | (split at hmanifest; · exact absurd hmanifest (by decide))
  have hcaps := (orElse_eq_ok (orElse_eq_ok hmanifest).2).1
  rw [validateCapabilities] at hcaps
  split at hcaps
  · exact List.all_eq_true.mp ‹_›
  · exact absurd hcaps (by decide)

end App
end JppDos
