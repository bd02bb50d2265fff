import JppDos.Lib.Json
import JppDos.Lib.Machine
import JppDos.Lib.Numerals

/-!
# The settings file

The settings are written to a temporary file that then takes the place of the old one; the
boot sequence looks at what it finds of the two and repairs it.  Power can be lost between two
operations on the files, also while the boot sequence repairs them.

Main fact:
* `short_write_resets`: a write that comes up short, behind which the boot sequence finds
  nothing that it can use.
-/

namespace JppDos
namespace Settings

open CText

variable {ν : Type} (json : JsonLib ν)

/-- `SETTINGS_PATH` and `SETTINGS_TMP_PATH`. -/
structure Files where
  main : Option (List UInt8)
  temp : Option (List UInt8)
  deriving DecidableEq

/-- The operations on them, each of which happens or does not. -/
inductive FileOp
  /-- `fopen(SETTINGS_TMP_PATH, "w")`. -/
  | create
  /-- Bytes reach the temporary file. -/
  | append (bytes : List UInt8)
  /-- `remove(SETTINGS_PATH)`. -/
  | remove
  /-- `rename(SETTINGS_TMP_PATH, SETTINGS_PATH)`. -/
  | rename
  deriving DecidableEq

/-- An operation. -/
def fileStep (files : Files) : FileOp → Files × List Empty
  | .create => ({ files with temp := some [] }, [])
  | .append bytes => ({ files with temp := files.temp.map (· ++ bytes) }, [])
  | .remove => ({ files with main := none }, [])
  | .rename =>
      match files.temp with
      | some text => ({ main := some text, temp := none }, [])
      | none => (files, [])

/-- How a write goes: whether the temporary file can be opened, and how many bytes have
reached it after `fputs` and after `fclose`. -/
structure WriteIO where
  opened : Bool
  flushed : Nat
  reached : Nat
  flushed_le : flushed ≤ reached

/-- `write_settings`: the operations it performs. -/
def writeSettings (text : CStr) (io : WriteIO) : List FileOp :=
  if io.opened then
    [.create, .append (text.val.take io.flushed),
      .append ((text.val.take io.reached).drop io.flushed), .remove, .rename]
  else []

/-- `jpp_settings_payload_status_t`. -/
inductive PayloadStatus
  | missing
  | valid
  | corrupt
  deriving DecidableEq

/-- `jpp_settings_source_t`. -/
inductive Source
  | unknown
  | defaults
  | stored
  deriving DecidableEq

/-- `jpp_settings_storage_probe_t`. -/
structure StorageProbe where
  mainExists : Bool
  tempExists : Bool
  payloadStatus : PayloadStatus
  deriving DecidableEq

/-- `jpp_settings_load_result_t`. -/
structure LoadResult where
  source : Source
  usedDefaultsMarker : Bool
  usedStoredMarker : Bool
  recoveredMarker : Bool
  corruptResetMarker : Bool
  deriving DecidableEq

/-- `jpp_settings_load_result_init`. -/
def LoadResult.init : LoadResult := ⟨.unknown, false, false, false, false⟩

/-- `"schema_version"`. -/
def schemaVersion : CStr := CStr.ofBytes (ascii "schema_version")

/-- The text of a settings file that counts as valid. -/
def validText (text : List UInt8) : Bool :=
  match json.parse (CStr.ofBytes text) with
  | none => false
  | some root =>
      match (root.getItem schemaVersion).bind Json.number? with
      | some ver => json.toInt ver = 2
      | none => false

/-- `probe_settings_payload`. -/
def probeSettingsPayload : Option (List UInt8) → PayloadStatus
  | none => .missing
  | some text => if validText json text then .valid else .corrupt

/-- `jpp_settings_classify`; the flag says `JPP_SETTINGS_STATUS_OK`. -/
def classify (probe : StorageProbe) : Bool × LoadResult :=
  if !(probe.mainExists || probe.tempExists) then
    if probe.payloadStatus ≠ .missing then (false, .init)
    else (true, { LoadResult.init with source := .defaults, usedDefaultsMarker := true })
  else
    let result := { LoadResult.init with
      recoveredMarker := !probe.mainExists && probe.tempExists }
    match probe.payloadStatus with
    | .valid => (true, { result with source := .stored, usedStoredMarker := true })
    | .corrupt =>
        (true, { result with source := .defaults, usedDefaultsMarker := true,
                             corruptResetMarker := true })
    | .missing => (false, result)

/-- The probe of the boot sequence. -/
def bootProbe (files : Files) : StorageProbe where
  mainExists := files.main.isSome
  tempExists := files.temp.isSome
  payloadStatus :=
    if files.main.isSome then probeSettingsPayload json files.main
    else if files.temp.isSome then probeSettingsPayload json files.temp
    else .missing

/-- What the boot sequence reports. -/
def bootResult (files : Files) : LoadResult := (classify (bootProbe json files)).2

/-- `DEFAULT_SETTINGS`. -/
def defaultSettings : CStr := CStr.ofBytes (ascii
  ("\x7b\"schema_version\":2,\"policy\":\x7b\"wifi\":\x7b\"preferred_ssid\":\"\"" ++
    ",\"password\":\"\"\x7d,\"recovery\":\x7b\"force_recovery\":false\x7d\x7d\x7d"))

/-- The operations of the boot sequence on the settings files. -/
def bootOps (io : WriteIO) (files : Files) : List FileOp :=
  let result := bootResult json files
  (if result.recoveredMarker then [.rename] else []) ++
    (if result.corruptResetMarker then writeSettings defaultSettings io else []) ++
    (if result.usedDefaultsMarker && !result.corruptResetMarker then
      writeSettings defaultSettings io else [])

/-- A boot that loses power after so many operations. -/
def interruptedBoot (io : WriteIO) (files : Files) (stop : Nat) : Files :=
  Machine.run fileStep files ((bootOps json io files).take stop)

/-- The boot sequence. -/
def boot (io : WriteIO) (files : Files) : Files :=
  Machine.run fileStep files (bootOps json io files)

/-- After boots that lose power the boot sequence ends with a stored text from `texts`. -/
def Survives (io : WriteIO) (texts : List (List UInt8)) (files : Files) : Prop :=
  ∀ stops : List Nat,
    let found := stops.foldl (interruptedBoot json io) files
    (bootResult json found).source = .stored ∧
      ∃ text ∈ texts, (boot json io found).main = some text

/-- The file that the boot sequence looks at holds a valid text from `texts`. -/
def Held (texts : List (List UInt8)) (files : Files) : Prop :=
  ∃ text ∈ texts, validText json text = true ∧
    (files.main = some text ∨ files.main = none ∧ files.temp = some text)

variable {json} {texts : List (List UInt8)} {files : Files}

theorem bootResult_main {text : List UInt8} (hmain : files.main = some text)
    (hvalid : validText json text = true) :
    bootResult json files = { LoadResult.init with source := .stored,
                                                   usedStoredMarker := true } := by
  simp [bootResult, bootProbe, classify, probeSettingsPayload, hmain, hvalid, LoadResult.init]

theorem bootResult_temp {text : List UInt8} (hmain : files.main = none)
    (htemp : files.temp = some text) (hvalid : validText json text = true) :
    bootResult json files = { LoadResult.init with source := .stored,
                                                   usedStoredMarker := true,
                                                   recoveredMarker := true } := by
  simp [bootResult, bootProbe, classify, probeSettingsPayload, hmain, htemp, hvalid]

theorem source_of_invalid {text : List UInt8} (hmain : files.main = some text)
    (hvalid : validText json text = false) : (bootResult json files).source = .defaults := by
  simp [bootResult, bootProbe, classify, probeSettingsPayload, hmain, hvalid]

/-- The boot sequence leaves a valid file alone, or promotes the temporary one. -/
theorem Held.bootOps (h : Held json texts files) (io : WriteIO) :
    (bootResult json files).source = .stored ∧
      ((∃ text ∈ texts, files.main = some text ∧ bootOps json io files = []) ∨
        ∃ text ∈ texts, files.main = none ∧ files.temp = some text ∧
          bootOps json io files = [.rename]) := by
  obtain ⟨text, htext, hvalid, hmain | ⟨hmain, htemp⟩⟩ := h
  · have hresult := bootResult_main hmain hvalid
    refine ⟨by rw [hresult], Or.inl ⟨text, htext, hmain, ?_⟩⟩
    simp [Settings.bootOps, hresult, LoadResult.init]
  · have hresult := bootResult_temp hmain htemp hvalid
    refine ⟨by rw [hresult], Or.inr ⟨text, htext, hmain, htemp, ?_⟩⟩
    simp [Settings.bootOps, hresult, LoadResult.init]

theorem Held.step_rename {text : List UInt8} (htext : text ∈ texts)
    (hvalid : validText json text = true) (htemp : files.temp = some text) :
    Held json texts (fileStep files .rename).1 := by
  rw [fileStep, htemp]
  exact ⟨text, htext, hvalid, Or.inl rfl⟩

theorem Held.interruptedBoot (h : Held json texts files) (io : WriteIO) (stop : Nat) :
    Held json texts (interruptedBoot json io files stop) := by
  obtain ⟨-, ⟨text, htext, hmain, hops⟩ | ⟨text, htext, hmain, htemp, hops⟩⟩ := h.bootOps io
  · rw [Settings.interruptedBoot, hops, List.take_nil]
    exact h
  · have hvalid : validText json text = true := by
      obtain ⟨text', -, hvalid, hmain' | ⟨-, htemp'⟩⟩ := h
      · exact nomatch hmain.symm.trans hmain'
      · obtain rfl := Option.some.inj (htemp.symm.trans htemp')
        exact hvalid
    rw [Settings.interruptedBoot, hops]
    cases stop with
    | zero => exact h
    | succ stop =>
        rw [List.take_succ_cons, List.take_nil]
        exact Held.step_rename htext hvalid htemp

theorem Held.survives (h : Held json texts files) (io : WriteIO) :
    Survives json io texts files := by
  intro stops
  have hfound : Held json texts (stops.foldl (Settings.interruptedBoot json io) files) := by
    induction stops generalizing files with
    | nil => exact h
    | cons stop stops ih => exact ih (h.interruptedBoot io stop)
  obtain ⟨hsource, hrest⟩ := hfound.bootOps io
  refine ⟨hsource, ?_⟩
  rcases hrest with ⟨text, htext, hmain, hops⟩ | ⟨text, htext, -, htemp, hops⟩
  · refine ⟨text, htext, ?_⟩
    simp only [boot, hops, Machine.run_nil]
    exact hmain
  · refine ⟨text, htext, ?_⟩
    simp only [boot, hops, Machine.run_cons, Machine.run_nil, fileStep, htemp]

theorem take_append_drop_take {α : Type*} (text : List α) {flushed reached : Nat}
    (h : flushed ≤ reached) :
    text.take flushed ++ (text.take reached).drop flushed = text.take reached := by
  have hflushed : text.take flushed = (text.take reached).take flushed := by
    rw [List.take_take, Nat.min_eq_left h]
  rw [hflushed, List.take_append_drop]

/-- A write leaves the old text in its place until what has reached the temporary file is to
take it. -/
theorem throughout_writeSettings {P : Files → Prop} {old : List UInt8}
    {temp : Option (List UInt8)} {text : CStr} {io : WriteIO} (hopened : io.opened = true) :
    Machine.Throughout fileStep P ⟨some old, temp⟩ (writeSettings text io) ↔
      (P ⟨some old, temp⟩ ∧ P ⟨some old, some []⟩ ∧
        P ⟨some old, some (text.val.take io.flushed)⟩ ∧
        P ⟨some old, some (text.val.take io.reached)⟩) ∧
        P ⟨none, some (text.val.take io.reached)⟩ ∧
        P ⟨some (text.val.take io.reached), none⟩ := by
  rw [writeSettings, if_pos hopened]
  simp only [Machine.throughout_cons, Machine.throughout_nil, fileStep, Option.map_some,
    List.nil_append, take_append_drop_take text.val io.flushed_le, and_assoc]

/-- However a write goes and wherever power is lost, in it or in the boots that follow, the
boot sequence ends with the old or the new text, exactly when the write ends with one of them
in the temporary file or without having opened it. -/
theorem settings_survive_iff (json : JsonLib ν) (old : List UInt8) (new : CStr)
    (temp : Option (List UInt8)) (hold : validText json old = true)
    (hnew : validText json new.val = true) (io bootIO : WriteIO) :
    Machine.Throughout fileStep (Survives json bootIO [old, new.val]) ⟨some old, temp⟩
        (writeSettings new io) ↔
      (io.opened = true → new.val.take io.reached ∈ [old, new.val]) := by
  have hmain : ∀ temp, Survives json bootIO [old, new.val] ⟨some old, temp⟩ := fun temp =>
    Held.survives ⟨old, List.mem_cons_self, hold, Or.inl rfl⟩ bootIO
  cases hopened : io.opened with
  | false =>
      rw [writeSettings, hopened, if_neg Bool.false_ne_true, Machine.throughout_nil]
      exact iff_of_true (hmain temp) nofun
  | true =>
      rw [throughout_writeSettings hopened]
      constructor
      · rintro ⟨-, -, hlast⟩ -
        obtain ⟨hsource, text, htext, hboot⟩ := hlast []
        have hvalid : validText json (new.val.take io.reached) = true := by
          rw [← Bool.not_eq_false]
          intro hinvalid
          exact nomatch hsource.symm.trans (source_of_invalid rfl hinvalid)
        have hmain' : (⟨some (new.val.take io.reached), none⟩ : Files).main =
            some (new.val.take io.reached) := rfl
        have hresult := bootResult_main hmain' hvalid
        have hsame : text = new.val.take io.reached := by
          simpa [boot, bootOps, hresult, LoadResult.init] using hboot.symm
        exact hsame ▸ htext
      · intro hreached
        have hvalid : validText json (new.val.take io.reached) = true := by
          rcases List.mem_pair.mp (hreached rfl) with h | h <;> rw [h] <;> assumption
        refine ⟨⟨hmain _, hmain _, hmain _, hmain _⟩, ?_, ?_⟩
        · exact Held.survives ⟨_, hreached rfl, hvalid, Or.inr ⟨rfl, rfl⟩⟩ bootIO
        · exact Held.survives ⟨_, hreached rfl, hvalid, Or.inl rfl⟩ bootIO

/-- A reader for objects whose first member is the version: what follows it is read when the
text ends with a brace. -/
def versionJson : JsonLib Int where
  parse text :=
    if (ascii "\x7b\"schema_version\":2").isPrefixOf text.val ∧ text.val.getLast? = some 125 then
      some (.object [(schemaVersion, .number 2)])
    else none
  printUnformatted _ := none
  toInt n := n
  ofInt n := n
  finite _ := true
  numberText n := Numerals.showBase 10 n.toNat

/-- A settings text without a policy. -/
def bareSettings : CStr := CStr.ofBytes (ascii "\x7b\"schema_version\":2\x7d")

/-- A settings text with one. -/
def otherSettings : CStr :=
  CStr.ofBytes (ascii "\x7b\"schema_version\":2,\"policy\":\x7b\x7d\x7d")

/-- Everything reaches the temporary file. -/
def fullWrite : WriteIO := ⟨true, 10, 1000, by decide⟩

/-- The volume is full behind twenty bytes. -/
def shortWrite : WriteIO := ⟨true, 10, 20, by decide⟩

theorem settings_survive_fullWrite :
    validText versionJson bareSettings.val = true ∧
      validText versionJson otherSettings.val = true ∧
      Machine.Throughout fileStep
        (Survives versionJson fullWrite [bareSettings.val, otherSettings.val])
        ⟨some bareSettings.val, none⟩ (writeSettings otherSettings fullWrite) := by
  have hold : validText versionJson bareSettings.val = true := by decide
  have hnew : validText versionJson otherSettings.val = true := by decide
  refine ⟨hold, hnew, ?_⟩
  exact (settings_survive_iff versionJson _ otherSettings none hold hnew fullWrite fullWrite).mpr
    (by decide)

/-- Behind a write that comes up short nothing but the defaults is left, without any loss of
power. -/
theorem short_write_resets :
    validText versionJson bareSettings.val = true ∧
      validText versionJson otherSettings.val = true ∧
      (boot versionJson fullWrite (Machine.run fileStep ⟨some bareSettings.val, none⟩
        (writeSettings otherSettings shortWrite))).main = some defaultSettings.val ∧
      defaultSettings ∉ [bareSettings, otherSettings] := by
  decide +kernel

end Settings
end JppDos
