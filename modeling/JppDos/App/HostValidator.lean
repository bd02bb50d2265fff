import JppDos.App.Cron
import JppDos.App.ManifestFile

/-!
# The validator on the host

`tests/validate_manifests.py`, which repeats the firmware's checks of a manifest and of the
entry file on the values that Python reads.  A check that finds a fault ends the validation
with a reason; an operation that is not defined on its operand ends it with an exception.
-/

namespace JppDos
namespace App
namespace Host

open CText Sdk Words

/-- How a validation ends that does not succeed; `raised` is an exception that nobody
catches. -/
inductive Failure
  | reason (r : ManifestResult)
  | invalidJson
  | missingEntry
  | corrupt
  | raised
  deriving DecidableEq

/-- A check: nothing, or a failure. -/
abbrev Check := Except Failure Unit

/-- A rejection for a reason. -/
def reject (r : ManifestResult) : Check := .error (.reason r)

/-- `SCHEMA_VERSION`. -/
def schemaVersion : Int := 2

/-- `SDK_VERSION`. -/
def sdkVersion : Int := 3

/-- `RUNTIME_VERSION`. -/
def runtimeVersion : CStr := lit "v1.28.0"

/-- `CROSS_VERSION`. -/
def crossVersion : CStr := lit "1.28.0"

/-- `BYTECODE_ABI`. -/
def bytecodeAbi : Int := 6

/-- `BG_TASK_MAX`. -/
def bgTaskMax : Nat := 4

/-- `BG_INTERVAL_MIN_S`. -/
def bgIntervalMinS : Int := 60

/-- `RESERVED_APP_IDS`. -/
def reservedAppIds : List CStr :=
  [lit "launcher", lit "settings", lit "webdav", lit "webdav_passconfig", lit "shell",
    lit "dialog", lit "app_crash", lit "sd_ejected"]

/-- `ALLOWED_CAPABILITIES`. -/
def allowedCapabilities : List CStr :=
  [lit "http.request", lit "https.request", lit "ble.scan", lit "ble.advertise",
    lit "background.register", lit "esp_now", lit "files.full", lit "network.bind",
    lit "network.connect", lit "ble.connect", lit "ble.host"]

/-- `CRON_FIELD_RANGES`. -/
def cronFieldRanges : List (Nat × Nat) := [(0, 59), (0, 23), (1, 31), (1, 12), (0, 6)]

/-- `char.isascii() and (char.isalnum() or char == "_")`. -/
def isWordChar (c : UInt8) : Bool :=
  c < 128 && ((48 ≤ c && c ≤ 57) || (65 ≤ c && c ≤ 90) || (97 ≤ c && c ≤ 122) || c == 95)

/-- The loop of `_name_valid`. -/
def nameValidFrom (previousWasDot : Bool) : List UInt8 → Bool
  | [] => true
  | char :: rest =>
      if char = 46 then
        if previousWasDot || rest.isEmpty then false else nameValidFrom true rest
      else if isWordChar char then nameValidFrom false rest
      else false

/-- `_name_valid` of a string. -/
def nameValid (name : CStr) : Bool :=
  if name.val = [] || name.val.head? == some 46 then false else nameValidFrom false name.val

/-- The largest number of digits that `int` reads. -/
def intMaxStrDigits : Nat := 4300

/-- `isdigit` and `int` of a nonempty string: nothing where it is not all digits, else the
number unless `int` raises.  `foreign` is what they say of one with characters beyond
ASCII. -/
def digitsOf (foreign : List UInt8 → Option (Option Nat)) (field : List UInt8) :
    Option (Option Nat) :=
  if field.all fun c => 48 ≤ c && c ≤ 57 then
    some (if field.length ≤ intMaxStrDigits then some (decimalPrefix 0 field) else none)
  else if field.all (· < 128) then none
  else foreign field

/-- A turn of the loop of `_cron_valid`. -/
def cronFieldValid (foreign : List UInt8 → Option (Option Nat)) (field : List UInt8)
    (low high : Nat) : Except Failure Bool :=
  if field = [42] then .ok true
  else
    match digitsOf foreign field with
    | none => .ok false
    | some none => .error .raised
    | some (some n) => .ok (low ≤ n && n ≤ high)

/-- The loop of `_cron_valid`; it ends at the first field that is not valid. -/
def cronFieldsValid (foreign : List UInt8 → Option (Option Nat)) :
    List (List UInt8 × Nat × Nat) → Except Failure Bool
  | [] => .ok true
  | (field, low, high) :: rest =>
      cronFieldValid foreign field low high >>= fun valid =>
        if valid then cronFieldsValid foreign rest else .ok false

/-- `_cron_valid` of a string. -/
def cronValid (foreign : List UInt8 → Option (Option Nat)) (cron : CStr) : Except Failure Bool :=
  if cron.val = [] || cron.val.head? == some 32 then .ok false
  else
    let fields := words 32 cron.val
    if fields.length ≠ cronFieldRanges.length then .ok false
    else cronFieldsValid foreign (fields.zip cronFieldRanges)

variable {ν : Type}

/-- `dict.get`: the last of the members of a name. -/
def get (v : Value ν) (key : CStr) : Option (Value ν) :=
  match v with
  | .object members => (members.reverse.find? fun m => m.1 = key).map (·.2)
  | _ => none

/-- `isinstance(value, int)`, and the value; the two truth values are 1 and 0. -/
def intOf : Value ν → Option Int
  | .number (.int n) => some n
  | .bool b => some (if b then 1 else 0)
  | _ => none

/-- A member with a string. -/
def stringAt (v : Value ν) (key : CStr) : Option CStr := (get v key).bind Json.string?

/-- `_nonempty_str` of a member. -/
def nonemptyStr (v : Value ν) (key : CStr) : Bool := (stringAt v key).any nonempty

/-- The value is in no `frozenset`, but it may be looked up in one. -/
def hashable : Value ν → Bool
  | .array _ | .object _ => false
  | _ => true

section Checks

variable [DecidableEq ν] (d : Doubles ν) (foreign : List UInt8 → Option (Option Nat))
  (manifest : Value ν)

/-- `manifest.get("schema_version", SCHEMA_VERSION) != SCHEMA_VERSION`. -/
def checkSchemaVersion : Check :=
  match get manifest (lit "schema_version") with
  | none => .ok ()
  | some (.number (.int n)) => if n = schemaVersion then .ok () else reject .schemaMismatch
  | some (.number (.float x)) =>
      if x = d.ofInt schemaVersion then .ok () else reject .schemaMismatch
  | some _ => reject .schemaMismatch

/-- The check of `name`, `version` and `entry`. -/
def checkNames : Check :=
  if nonemptyStr manifest (lit "name") && nonemptyStr manifest (lit "version") &&
      nonemptyStr manifest (lit "entry") then .ok ()
  else reject .invalidManifest

/-- The check of the directory. -/
def checkReserved (dir : CStr) : Check :=
  if dir ∈ reservedAppIds then reject .reservedAppId else .ok ()

/-- The check of `sdk_min`. -/
def checkSdkMin : Check :=
  match (get manifest (lit "sdk_min")).map intOf with
  | none => .ok ()
  | some none => reject .invalidManifest
  | some (some n) =>
      if n < 1 then reject .invalidManifest
      else if sdkVersion < n then reject .sdkTooOld
      else .ok ()

/-- The path of the entry file, once it is known to be a string. -/
def entryOf : CStr := (stringAt manifest (lit "entry")).getD (lit "")

/-- The check of the path of the entry file. -/
def checkEntry : Check :=
  if (entryOf manifest).val.head? = some 47 ∨
      Paths.parent ∈ Paths.segments (entryOf manifest).val then reject .invalidEntry
  else .ok ()

/-- `app_type`, where it is absent or a string. -/
def appTypeOf : Option CStr :=
  match get manifest (lit "app_type") with
  | none => some (lit "micropython")
  | some v => v.string?

/-- The check of `app_type` and the suffix of the entry file. -/
def checkAppType : Check :=
  if appTypeOf manifest = some (lit "micropython") then
    if hasSuffix (entryOf manifest) (lit ".mpy") then .ok () else reject .invalidAppType
  else if appTypeOf manifest = some (lit "native") then
    if hasSuffix (entryOf manifest) (lit ".bin") then .ok () else reject .invalidAppType
  else reject .invalidAppType

/-- A capability. -/
def checkCapability : Value ν → Check
  | .string s => if s ∈ allowedCapabilities then .ok () else reject .invalidCapability
  | v => if hashable v then reject .invalidCapability else .error .raised

/-- The loop over the capabilities. -/
def checkEach : List (Value ν) → Check
  | [] => .ok ()
  | capability :: rest => checkCapability capability >>= fun _ => checkEach rest

/-- The check of `capabilities`. -/
def checkCapabilities : Check :=
  match get manifest (lit "capabilities") with
  | none => .ok ()
  | some (.array items) => checkEach items
  | some _ => reject .invalidManifest

/-- The checks of `_validate_background` on a task. -/
def validateTask (task : Value ν) : Check :=
  if !task.isObject || !(stringAt task (lit "name")).any nameValid then reject .invalidBackground
  else
    let interval := (get task (lit "interval_s")).bind intOf
    let hasInterval := interval.any (0 < ·)
    let hasCron := nonemptyStr task (lit "cron")
    if hasInterval == hasCron then reject .invalidBackground
    else if hasInterval && interval.any (· < bgIntervalMinS) then reject .invalidBackground
    else if hasCron then
      cronValid foreign ((stringAt task (lit "cron")).getD (lit "")) >>= fun valid =>
        if valid then .ok () else reject .invalidBackground
    else .ok ()

/-- The loop over the tasks. -/
def validateTasks : List (Value ν) → Check
  | [] => .ok ()
  | task :: rest => validateTask foreign task >>= fun _ => validateTasks rest

/-- `enabled` is absent or a truth value. -/
def enabledOk (background : Value ν) : Bool :=
  match get background (lit "enabled") with
  | none | some (.bool _) => true
  | some _ => false

/-- `_validate_background`. -/
def validateBackground : Check :=
  match get manifest (lit "background") with
  | none | some .null => .ok ()
  | some (.object members) =>
      if !enabledOk (.object members : Value ν) then reject .invalidBackground
      else
        match get (.object members : Value ν) (lit "tasks") with
        | none => .ok ()
        | some (.array tasks) =>
            if bgTaskMax < tasks.length then reject .invalidBackground
            else validateTasks foreign tasks
        | some _ => reject .invalidBackground
  | some _ => reject .invalidBackground

/-- The check of `toolchain`. -/
def checkToolchain : Check :=
  if appTypeOf manifest = some (lit "micropython") then
    match get manifest (lit "toolchain") with
    | some (.object members) =>
        let toolchain : Value ν := .object members
        let abi := (get toolchain (lit "bytecode_abi")).elim (some 0) intOf
        if !(nonemptyStr toolchain (lit "runtime_version") &&
            nonemptyStr toolchain (lit "cross_version") && abi.any (0 < ·)) then
          reject .invalidToolchain
        else if stringAt toolchain (lit "runtime_version") ≠ some runtimeVersion ∨
            stringAt toolchain (lit "cross_version") ≠ some crossVersion ∨
            abi ≠ some bytecodeAbi then reject .runtimeMismatch
        else .ok ()
    | _ => reject .invalidToolchain
  else .ok ()

/-- `validate_manifest`. -/
def validateManifest (dir : CStr) : Check := do
  checkSchemaVersion d manifest
  checkNames manifest
  checkReserved dir
  checkSdkMin manifest
  checkEntry manifest
  checkAppType manifest
  checkCapabilities manifest
  validateBackground foreign manifest
  checkToolchain manifest

/-- The part of `validate_package` that judges the manifest, once Python could read it. -/
def checkManifest (dir : CStr) : Check :=
  if !manifest.isObject then .error .invalidJson else validateManifest d foreign manifest dir

/-- The path of an app's entry file. -/
def entryPath (dir entry : CStr) : List UInt8 :=
  ascii "/sd/apps" ++ 47 :: dir.val ++ 47 :: entry.val

/-- The check of the entry file. -/
def checkEntryFile (entry : EntryFile) : Check :=
  if !entry.present then .error .missingEntry
  else if entry.sizeBytes = 0 then .error .corrupt
  else .ok ()

/-- `validate_package`. -/
def validatePackage (files : List UInt8 → EntryFile) (dir : CStr) : Check :=
  checkManifest d foreign manifest dir >>= fun _ =>
    checkEntryFile (files (entryPath dir (entryOf manifest)))

end Checks

theorem isWordChar_eq (c : UInt8) : isWordChar c = isNameChar c := by
  rw [Bool.eq_iff_iff]
  simp only [isWordChar, isNameChar, Bool.and_eq_true, Bool.or_eq_true, decide_eq_true_eq,
    beq_iff_eq, UInt8.le_iff_toNat_le, UInt8.lt_iff_toNat_lt, ← UInt8.toNat_inj,
    UInt8.reduceToNat]
  omega

theorem nameValidFrom_eq (dot : Bool) (name : List UInt8) :
    nameValidFrom dot name = Sdk.nameValidFrom dot name := by
  induction name generalizing dot with
  | nil => rfl
  | cons c rest ih => rw [nameValidFrom, Sdk.nameValidFrom, isWordChar_eq, ih, ih]

theorem nameValid_eq (name : CStr) : nameValid name = strNameValid name := by
  unfold nameValid strNameValid
  cases name.val with
  | nil => rfl
  | cons c rest => simp [nameValidFrom_eq]

theorem allowedCapabilities_eq (capability : CStr) :
    capability ∈ allowedCapabilities ↔ isAllowedCapability capability = true := by
  have hperm : allowedCapabilities = tier1Caps ++ tier2Caps := by decide
  rw [isAllowedCapability, decide_eq_true_eq, hperm]

theorem reservedAppIds_eq : reservedAppIds = App.reservedAppIds := rfl

/-- A word that a cron field may be. -/
def cronWordOk (low high : Nat) (word : List UInt8) : Bool :=
  word == [42] ||
    (word.all fun c => 48 ≤ c && c ≤ 57) && word != [] && low ≤ decimalPrefix 0 word &&
      decimalPrefix 0 word ≤ high

theorem cronFieldValid_eq (foreign : List UInt8 → Option (Option Nat)) {word : List UInt8}
    (hne : word ≠ []) (hascii : ∀ c ∈ word, c < 128) (hlen : word.length ≤ intMaxStrDigits)
    (low high : Nat) :
    cronFieldValid foreign word low high = .ok (cronWordOk low high word) := by
  unfold cronFieldValid cronWordOk
  by_cases hstar : word = [42]
  · simp [hstar]
  · have hall : (word.all (· < 128)) = true := by simpa using hascii
    have hbeq : (word == [42]) = false := beq_eq_false_iff_ne.mpr hstar
    have hbne : (word != []) = true := bne_iff_ne.mpr hne
    by_cases hdigits : (word.all fun c => 48 ≤ c && c ≤ 57) = true
    · simp only [hstar, if_false, digitsOf, hdigits, if_true, hlen, hbeq, hbne, Bool.false_or,
        Bool.true_and]
    · rw [Bool.not_eq_true] at hdigits
      simp only [hstar, if_false, digitsOf, hdigits, hall, if_true, hbeq, Bool.false_and,
        Bool.false_or, Bool.false_eq_true]

/-- And the firmware alike, if its `int` holds the number. -/
theorem cronWordOk_eq (low high : Nat) {word : List UInt8} (h : decimalPrefix 0 word < 2 ^ 31) :
    cronWordOk low high word = intWordOk low high word := by
  unfold cronWordOk intWordOk
  by_cases hdigits : (word.all fun c => 48 ≤ c && c ≤ 57) = true
  · rw [cronNumber_eq hdigits, CInt.wrap32_of_nonneg (Int.natCast_nonneg _) (by exact_mod_cast h)]
    simp only [Nat.cast_le]
  · rw [Bool.not_eq_true] at hdigits
    simp only [hdigits, Bool.false_and]

theorem cronFieldsValid_eq (foreign : List UInt8 → Option (Option Nat))
    {fields : List (List UInt8 × Nat × Nat)}
    (h : ∀ f ∈ fields, f.1 ≠ [] ∧ (∀ c ∈ f.1, c < 128) ∧ f.1.length ≤ intMaxStrDigits) :
    cronFieldsValid foreign fields = .ok (fields.all fun f => cronWordOk f.2.1 f.2.2 f.1) := by
  induction fields with
  | nil => rfl
  | cons field fields ih =>
      obtain ⟨word, low, high⟩ := field
      obtain ⟨hne, hascii, hlen⟩ := h _ List.mem_cons_self
      have hrest := ih fun f hf => h f (List.mem_cons_of_mem _ hf)
      rw [cronFieldsValid, cronFieldValid_eq foreign hne hascii hlen, List.all_cons]
      cases hword : cronWordOk low high word with
      | true => simpa [bind, Except.bind] using hrest
      | false => simp [bind, Except.bind]

/-- The host judges a cron expression in ASCII, with numbers that fit, as the firmware does. -/
theorem cronValid_eq (foreign : List UInt8 → Option (Option Nat)) {cron : CStr}
    (hascii : ∀ c ∈ cron.val, c < 128) (hlen : cron.strlen ≤ intMaxStrDigits)
    (hsmall : ∀ word ∈ words 32 cron.val, decimalPrefix 0 word < 2 ^ 31) :
    cronValid foreign cron = .ok (isValidCron cron) := by
  rw [isValidCron_eq, show cronRanges = cronFieldRanges from rfl]
  unfold cronValid nonempty
  by_cases hne : cron.val = []
  · simp [hne]
  · by_cases hhead : cron.val.head? = some 32
    · have hnot : cronFrom cronFieldRanges cron.val = false := by
        obtain ⟨c, rest, hcons⟩ := List.exists_cons_of_ne_nil hne
        rw [hcons] at hhead
        obtain rfl : c = 32 := Option.some.inj hhead
        rw [hcons]
        rfl
      simp [hhead, hnot]
    · rw [cronFrom_eq _ hhead]
      have hfields : ∀ f ∈ (words 32 cron.val).zip cronFieldRanges,
          f.1 ≠ [] ∧ (∀ c ∈ f.1, c < 128) ∧ f.1.length ≤ intMaxStrDigits := by
        intro f hf
        obtain ⟨hword, hwithin⟩ := mem_words (List.of_mem_zip hf).1
        exact ⟨hword, fun c hc => hascii c (hwithin.subset hc), hwithin.length_le.trans hlen⟩
      have hsame : (((words 32 cron.val).zip cronFieldRanges).all
            fun f => cronWordOk f.2.1 f.2.2 f.1) =
          ((words 32 cron.val).zip cronFieldRanges).all fun f => intWordOk f.2.1 f.2.2 f.1 := by
        rw [Bool.eq_iff_iff, List.all_eq_true, List.all_eq_true]
        refine forall₂_congr fun f hf => ?_
        rw [cronWordOk_eq _ _ (hsmall _ (List.of_mem_zip hf).1)]
      simp only [hne, cronFieldsValid_eq foreign hfields, hsame]
      by_cases hcount : (words 32 cron.val).length = cronFieldRanges.length
      · simp [hcount, hne, hhead]
      · simp [hcount, hne, hhead]

end Host
end App
end JppDos
