import JppDos.App.Manifest
import JppDos.Lib.Json

/-!
# The manifest file

How the launcher reads a manifest from the value of its JSON text.  A number is an integer
where its text has neither a fraction nor an exponent; the firmware sees a double in any case.
-/

namespace JppDos
namespace App

open CText Sdk

/-- A number of a JSON text. -/
inductive JsonNum (ν : Type)
  | int (n : Int)
  | float (x : ν)

/-- The value of a manifest file. -/
abbrev Value (ν : Type) := Json (JsonNum ν)

/-- The conversions between doubles and integers of 32 bits. -/
structure Doubles (ν : Type) where
  ofInt : Int → ν
  toInt : ν → Int
  toUnsigned : ν → Nat

variable {ν : Type}

/-- A double holds the integers of 32 bits. -/
structure Doubles.Holds (d : Doubles ν) : Prop where
  toInt_ofInt : ∀ n, -2 ^ 31 ≤ n → n < 2 ^ 31 → d.toInt (d.ofInt n) = n
  toUnsigned_ofInt : ∀ n : Nat, n < 2 ^ 32 → d.toUnsigned (d.ofInt n) = n

/-- `valuedouble`. -/
def JsonNum.valuedouble (d : Doubles ν) : JsonNum ν → ν
  | .int n => d.ofInt n
  | .float x => x

/-- The string that an object has under a name. -/
def textAt (v : Value ν) (name : CStr) : Option CStr := (v.getItem name).bind Json.string?

/-- The number that an object has under a name. -/
def numberAt (v : Value ν) (name : CStr) : Option (JsonNum ν) := (v.getItem name).bind Json.number?

section Reading

variable (d : Doubles ν)

/-- An element of `background.tasks`. -/
def readTask (task : Value ν) : TaskJson where
  name := textAt task (lit "name")
  intervalS := (numberAt task (lit "interval_s")).map fun n => d.toUnsigned (n.valuedouble d)
  cron := textAt task (lit "cron")

/-- The object `background`, if there is one. -/
def backgroundAt (root : Value ν) : Option (Value ν) :=
  (root.getItem (lit "background")).filter Json.isObject

/-- The elements that the loop over `background.tasks` goes through. -/
def tasksAt (background : Value ν) : List (Value ν) :=
  ((background.getItem (lit "tasks")).map Json.children).getD []

/-- The elements that the loop over `capabilities` goes through, those with a string as such. -/
def capabilitiesAt (root : Value ν) : List (Option CStr) :=
  match root.getItem (lit "capabilities") with
  | some (.array items) => items.map Json.string?
  | _ => []

/-- The object `toolchain`. -/
def readToolchain (toolchain : Value ν) : ToolchainJson where
  runtimeVersion := textAt toolchain (lit "runtime_version")
  crossVersion := textAt toolchain (lit "cross_version")
  bytecodeAbi := (numberAt toolchain (lit "bytecode_abi")).map fun n => d.toInt (n.valuedouble d)

/-- What `load_sd_manifest` reads from the value of the file. -/
def readManifest (root : Value ν) : ManifestJson where
  name := textAt root (lit "name")
  version := textAt root (lit "version")
  entry := textAt root (lit "entry")
  appType := textAt root (lit "app_type")
  schemaVersion := (numberAt root (lit "schema_version")).map fun n => d.toInt (n.valuedouble d)
  sdkMin := (numberAt root (lit "sdk_min")).map fun n => d.toInt (n.valuedouble d)
  capabilities := capabilitiesAt root
  bgEnabled := (backgroundAt root).any fun bg => (bg.getItem (lit "enabled")).any Json.isTrue
  bgTasks := ((backgroundAt root).elim [] tasksAt).map (readTask d)
  toolchain := ((root.getItem (lit "toolchain")).filter Json.isObject).map (readToolchain d)

/-- `load_sd_manifest`. -/
def manifestOf (dir : CStr) (root : Value ν) : Manifest :=
  loadSdManifest dir (readManifest d root)

/-- The path of an app's entry file, in its buffer. -/
def absEntry (dir entry : CStr) : List UInt8 :=
  (ascii "/sd/apps" ++ 47 :: dir.val ++ 47 :: entry.val).take 255

/-- `jpp_app_loader_preflight` on the manifest of an app and the files of the card. -/
def preflightApp (files : List UInt8 → EntryFile) (dir : CStr) (root : Value ν) : LoaderResult :=
  preflight (manifestOf d dir root) (files (absEntry dir (manifestOf d dir root).entry))

end Reading

end App
end JppDos
