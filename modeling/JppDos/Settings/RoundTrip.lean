import JppDos.Settings.Backup

/-!
# What a backup carries to another device

Main fact:
* `username_stays`: a source without a user name leaves the target its own.
-/

namespace JppDos
namespace Settings

open CText

variable {ν : Type} {json : JsonLib ν}

section Items

variable {members : List (CStr × Json ν)} {name : String}

theorem itemInt_of_mem (hnum : json.Numbers) (hnodup : (members.map fun m => m.1.fold).Nodup)
    {n : Int} (hlow : -2 ^ 31 ≤ n) (hhigh : n < 2 ^ 31)
    (hmem : (key name, Json.number (json.ofInt n)) ∈ members) :
    itemInt json (.object members) name = some n := by
  rw [itemInt, Json.getItem_of_mem hnodup hmem]
  exact congrArg some (hnum.toInt_ofInt n hlow hhigh)

theorem itemU8_of_mem (hnum : json.Numbers) (hnodup : (members.map fun m => m.1.fold).Nodup)
    {v : UInt8} (hmem : (key name, numberU8 json v) ∈ members) :
    itemInt json (.object members) name = some (v.toNat : Int) := by
  have hlt := v.toNat_lt
  exact itemInt_of_mem hnum hnodup (by omega) (by omega) hmem

theorem itemStr_of_mem (hnodup : (members.map fun m => m.1.fold).Nodup) {s : CStr}
    (hmem : (key name, Json.string s) ∈ members) :
    itemStr (.object members) name = some s := by
  rw [itemStr, Json.getItem_of_mem hnodup hmem]
  rfl

end Items

theorem ofInt_toNat (v : UInt8) : UInt8.ofInt (v.toNat : Int) = v := by
  have hlt := v.toNat_lt
  have hmod : ((v.toNat : Int) % 2 ^ 8).toNat = v.toNat := by omega
  rw [UInt8.ofInt, hmod, UInt8.ofNat_toNat]

/-- What has been read into a buffer fits into it again. -/
theorem nvsGetStr_nvsGetStr (stored : Option CStr) (size : Nat) (fallback : CStr) :
    nvsGetStr (some (nvsGetStr stored size fallback)) size fallback =
      nvsGetStr stored size fallback := by
  cases stored with
  | none => exact ite_self fallback
  | some s =>
      by_cases hfits : s.strlen < size <;> simp [nvsGetStr, hfits]

theorem jingle?_val (j : Jingle) : jingle? (j.val.toNat : Int) = some j := by
  have hj := j.property
  have hrange : 0 ≤ (j.val.toNat : Int) ∧ (j.val.toNat : Int) < startupJingleCount ∧
      (UInt8.ofInt (j.val.toNat : Int)).toNat < startupJingleCount := by
    rw [ofInt_toNat]
    omega
  rw [jingle?, dif_pos hrange]
  exact congrArg some (Subtype.ext (ofInt_toNat j.val))

theorem gesture?_val (g : Gesture) : gesture? (g.val.toNat : Int) = some g := by
  obtain ⟨_, rfl | rfl⟩ := g <;> rfl

/-- A namespace that was written on the source is loaded as there behind a restore; one that
was not leaves the target as it was.  Its object is read back as it was printed. -/
structure Carries {α β : Type} (json : JsonLib ν) (load : Option α → β)
    (backup : Option α → Json ν) (restore : Option (Json ν) → Option α → Option α) : Prop where
  written : ∀ source target, load (restore (some (backup (some source))) target) =
    load (some source)
  absent : ∀ target, load (restore (some (backup none)) target) = load target
  sanitize : ∀ source, (backup source).sanitize json.finite = backup source
  depth : ∀ source, (backup source).depth = 1

/-- A namespace is carried over exactly when the source has it or the target holds the
defaults. -/
theorem Carries.loads_iff {α β : Type} {load : Option α → β} {backup : Option α → Json ν}
    {restore : Option (Json ν) → Option α → Option α} (h : Carries json load backup restore)
    (source target : Option α) :
    load (restore (some (backup source)) target) = load source ↔
      (source = none → load target = load none) := by
  cases source with
  | none =>
      rw [h.absent]
      exact ⟨fun hload _ => hload, fun hload => hload rfl⟩
  | some source => exact iff_of_true (h.written source target) nofun

theorem openNs_object {α : Type} (members : List (CStr × Json ν)) (ns : Option α) (empty : α)
    (write : Json ν → α → α) :
    openNs (some (.object members)) ns empty write =
      some (write (.object members) (ns.getD empty)) := rfl

theorem carries_time (hnum : json.Numbers) :
    Carries json ntpCfgLoad (backupTime json) (restoreTime json) where
  written source target := by
    rw [backupTime, restoreTime, openNs_object]
    have hnodup (a b c : Json ν) :
        ([(key "ntp_en", a), (key "ntp_host", b), (key "tz_h", c)].map fun m => m.1.fold).Nodup :=
      (by decide : (["ntp_en", "ntp_host", "tz_h"].map fun name => (key name).fold).Nodup)
    have hlow := (source.tzH.getD 0).le_toInt
    have hhigh := (source.tzH.getD 0).toInt_lt
    rw [itemU8_of_mem hnum (hnodup _ _ _) List.mem_cons_self,
      itemStr_of_mem (hnodup _ _ _) (List.mem_cons_of_mem _ List.mem_cons_self),
      itemInt_of_mem hnum (hnodup _ _ _) (by omega) (by omega)
        (List.mem_cons_of_mem _ (List.mem_cons_of_mem _ List.mem_cons_self))]
    simp only [ntpCfgLoad, Option.map_some, Option.some_or, Option.getD_some, ofInt_toNat,
      Int8.ofInt_toInt, nvsGetStr_nvsGetStr]
    cases source.ntpEn <;> cases source.tzH <;> rfl
  absent target := by cases target <;> rfl
  sanitize source := by
    cases source <;>
      simp [backupTime, numberU8, Json.sanitize, Json.sanitizeMembers, hnum.finite_ofInt]
  depth source := by cases source <;> simp [backupTime, numberU8, Json.depth, Json.depthMembers]

theorem carries_power (hnum : json.Numbers) :
    Carries json loadScreenSettings (backupPower json) (restorePower json) where
  written source target := by
    rw [backupPower, restorePower, openNs_object]
    have hnodup (a b : Json ν) :
        ([(key "dim_s", a), (key "poweroff_s", b)].map fun m => m.1.fold).Nodup :=
      (by decide : (["dim_s", "poweroff_s"].map fun name => (key name).fold).Nodup)
    have hitem : ∀ v : Int32, -2 ^ 31 ≤ v.toInt ∧ v.toInt < 2 ^ 31 := fun v =>
      ⟨v.le_toInt, v.toInt_lt⟩
    rw [itemInt_of_mem hnum (hnodup _ _) (hitem _).1 (hitem _).2 List.mem_cons_self,
      itemInt_of_mem hnum (hnodup _ _) (hitem _).1 (hitem _).2
        (List.mem_cons_of_mem _ List.mem_cons_self)]
    simp only [loadScreenSettings, Option.map_some, Option.some_or, Option.bind_some,
      Option.getD_some, Int32.ofInt_toInt]
  absent target := by cases target <;> rfl
  sanitize source := by
    cases source <;> simp [backupPower, Json.sanitize, Json.sanitizeMembers, hnum.finite_ofInt]
  depth source := by cases source <;> simp [backupPower, Json.depth, Json.depthMembers]

theorem carries_webdav (hnum : json.Numbers) :
    Carries json loadWebdavSettings (backupWebdav json) (restoreWebdav json) where
  written source target := by
    rw [backupWebdav, restoreWebdav, openNs_object]
    have hnodup (a b : Json ν) :
        ([(key "pass_static", a), (key "static_pass", b)].map fun m => m.1.fold).Nodup :=
      (by decide : (["pass_static", "static_pass"].map fun name => (key name).fold).Nodup)
    rw [itemU8_of_mem hnum (hnodup _ _) List.mem_cons_self,
      itemStr_of_mem (hnodup _ _) (List.mem_cons_of_mem _ List.mem_cons_self)]
    simp only [loadWebdavSettings, Option.map_some, Option.some_or, Option.bind_some,
      Option.getD_some, ofInt_toNat, nvsGetStr_nvsGetStr]
    cases source.passStatic <;> rfl
  absent target := by cases target <;> rfl
  sanitize source := by
    cases source <;>
      simp [backupWebdav, numberU8, Json.sanitize, Json.sanitizeMembers, hnum.finite_ofInt]
  depth source := by cases source <;> simp [backupWebdav, numberU8, Json.depth, Json.depthMembers]

theorem carries_sound (hnum : json.Numbers) :
    Carries json loadBuzzerVolume (backupSound json) (restoreSound json) where
  written source target := by
    rw [backupSound, restoreSound, openNs_object]
    have hnodup (a b : Json ν) :
        ([(key "buzzer_vol", a), (key "startup_jingle", b)].map fun m => m.1.fold).Nodup :=
      (by decide : (["buzzer_vol", "startup_jingle"].map fun name => (key name).fold).Nodup)
    rw [itemU8_of_mem hnum (hnodup _ _) List.mem_cons_self,
      itemU8_of_mem hnum (hnodup _ _) (List.mem_cons_of_mem _ List.mem_cons_self)]
    simp only [loadBuzzerVolume, Option.map_some, Option.some_or, Option.bind_some,
      Option.getD_some, ofInt_toNat, jingle?_val]
  absent target := by cases target <;> rfl
  sanitize source := by
    cases source <;>
      simp [backupSound, numberU8, Json.sanitize, Json.sanitizeMembers, hnum.finite_ofInt]
  depth source := by cases source <;> simp [backupSound, numberU8, Json.depth, Json.depthMembers]

theorem carries_user (json : JsonLib ν) :
    Carries json loadUsername backupUser restoreUser where
  written source target := by
    rw [backupUser, restoreUser, openNs_object]
    have hnodup (a : Json ν) :
        ([(key "username", a)].map fun m => m.1.fold).Nodup :=
      (by decide : (["username"].map fun name => (key name).fold).Nodup)
    rw [itemStr_of_mem (hnodup _) List.mem_cons_self]
    simp only [loadUsername, Option.some_or, Option.bind_some, nvsGetStr_nvsGetStr]
  absent target := by cases target <;> rfl
  sanitize source := by
    cases source <;> simp [backupUser, Json.sanitize, Json.sanitizeMembers]
  depth source := by cases source <;> simp [backupUser, Json.depth, Json.depthMembers]

theorem carries_input (hnum : json.Numbers) :
    Carries json loadBackGesture (backupInput json) (restoreInput json) where
  written source target := by
    rw [backupInput, restoreInput, openNs_object]
    have hnodup (a : Json ν) :
        ([(key "back_gesture", a)].map fun m => m.1.fold).Nodup :=
      (by decide : (["back_gesture"].map fun name => (key name).fold).Nodup)
    rw [itemU8_of_mem hnum (hnodup _) List.mem_cons_self]
    simp only [loadBackGesture, Option.some_or, Option.bind_some, Option.getD_some, gesture?_val]
  absent target := by cases target <;> rfl
  sanitize source := by
    cases source <;>
      simp [backupInput, numberU8, Json.sanitize, Json.sanitizeMembers, hnum.finite_ofInt]
  depth source := by cases source <;> simp [backupInput, numberU8, Json.depth, Json.depthMembers]

/-- A backup loses nothing when it is printed but what its settings lose. -/
theorem sanitize_backupRoot (hnum : json.Numbers) (settings : Json ν) (nvs : Nvs) :
    (backupRoot json settings nvs).sanitize json.finite =
      backupRoot json (settings.sanitize json.finite) nvs := by
  simp only [backupRoot, Json.sanitize, Json.sanitizeMembers, if_pos (hnum.finite_ofInt _),
    (carries_time hnum).sanitize, (carries_power hnum).sanitize, (carries_webdav hnum).sanitize,
    (carries_sound hnum).sanitize, (carries_user json).sanitize,
    (carries_input hnum).sanitize]

/-- A backup is nested once more than the settings in it. -/
theorem depth_backupRoot (hnum : json.Numbers) {settings : Json ν}
    (hobject : settings.isObject = true) (nvs : Nvs) :
    (backupRoot json settings nvs).depth = settings.depth + 1 := by
  have hsettings : 1 ≤ settings.depth := by
    cases settings with
    | object members =>
        rw [Json.depth]
        exact Nat.le_add_left 1 _
    | null | bool b | number n | string s | array items => cases hobject
  simp only [backupRoot, Json.depth, Json.depthMembers, (carries_time hnum).depth,
    (carries_power hnum).depth, (carries_webdav hnum).depth, (carries_sound hnum).depth,
    (carries_user json).depth, (carries_input hnum).depth]
  omega

theorem getItem_backupRoot (json : JsonLib ν) (settings : Json ν) (nvs : Nvs)
    (name : String) (value : Json ν)
    (hmem : (key name, value) ∈
      [(key "jppdos_backup", Json.number (json.ofInt 1)), (key "settings", settings),
        (key "nvs_time", backupTime json nvs.time), (key "nvs_power", backupPower json nvs.power),
        (key "nvs_webdav", backupWebdav json nvs.webdav),
        (key "nvs_sound", backupSound json nvs.sound), (key "nvs_user", backupUser nvs.user),
        (key "nvs_input", backupInput json nvs.input)]) :
    (backupRoot json settings nvs).getItem (key name) = some value := by
  refine Json.getItem_of_mem ?_ hmem
  exact (by decide : (["jppdos_backup", "settings", "nvs_time", "nvs_power",
    "nvs_webdav", "nvs_sound", "nvs_user", "nvs_input"].map fun name => (key name).fold).Nodup)

/-- The root of a settings text that counts as valid. -/
def ValidRoot (json : JsonLib ν) (root : Json ν) : Prop :=
  ∃ ver, (root.getItem schemaVersion).bind Json.number? = some ver ∧ json.toInt ver = 2

theorem validText_iff {text : List UInt8} {root : Json ν}
    (hparse : json.parse (CStr.ofBytes text) = some root) :
    validText json text = true ↔ ValidRoot json root := by
  simp only [validText, hparse, ValidRoot]
  cases hver : (root.getItem schemaVersion).bind Json.number? with
  | none => simp
  | some ver => simp

theorem ValidRoot.isObject {root : Json ν} (h : ValidRoot json root) : root.isObject = true := by
  obtain ⟨ver, hver, -⟩ := h
  cases root with
  | object members => rfl
  | null | bool b | number n | string s | array items => cases hver

theorem ValidRoot.sanitize {root : Json ν} (hnum : json.Numbers) (h : ValidRoot json root) :
    ValidRoot json (root.sanitize json.finite) := by
  obtain ⟨ver, hver, htwo⟩ := h
  obtain ⟨item, hitem, hnumber⟩ := Option.bind_eq_some_iff.mp hver
  refine ⟨ver, ?_, htwo⟩
  rw [Json.getItem_sanitize, hitem]
  exact Json.number?_sanitize json.finite hnumber (hnum.finite_of_toInt ver htwo)

theorem policyItem_sanitize (finite : ν → Bool) (root : Json ν) (group item : String) :
    policyItem (root.sanitize finite) group item =
      (policyItem root group item).map (Json.sanitize finite) := by
  rw [policyItem, policyItem, Json.getItem_sanitize]
  cases root.getItem (CStr.ofBytes (ascii "policy")) with
  | none => rfl
  | some policy =>
      rw [Option.map_some, Option.bind_some, Option.bind_some, Json.getItem_sanitize]
      cases policy.getItem (CStr.ofBytes (ascii group)) with
      | none => rfl
      | some part => exact Json.getItem_sanitize finite part _

/-- What the firmware reads of the settings outlives the printing. -/
theorem readPolicy_sanitize (finite : ν → Bool) (root : Json ν) :
    readPolicy (root.sanitize finite) = readPolicy root := by
  have hstring (v : Option (Json ν)) :
      (v.map (Json.sanitize finite)).bind Json.string? = v.bind Json.string? := by
    cases v with
    | none => rfl
    | some v => exact Json.string?_sanitize finite v
  have htrue (v : Option (Json ν)) :
      (v.map (Json.sanitize finite)).map Json.isTrue = v.map Json.isTrue := by
    cases v with
    | none => rfl
    | some v => exact congrArg some (Json.isTrue_sanitize finite v)
  simp only [readPolicy, policyItem_sanitize, hstring, htrue]

theorem run_writeSettings_whole (text : CStr) (files : Files) :
    Machine.run fileStep files (writeSettings text (wholeWrite text)) = ⟨some text.val, none⟩ := by
  have hwhole : text.val.take text.strlen = text.val := List.take_length
  simp only [writeSettings, wholeWrite, if_pos, Machine.run_cons, Machine.run_nil, fileStep,
    Option.map_some, List.take_zero, List.drop_zero, List.nil_append, hwhole]

/-- The settings file that a restore leaves is valid and has the same values. -/
theorem restoreFiles_reads {root : Json ν} (hnum : json.Numbers) (hvalid : ValidRoot json root)
    (hreads : json.Rereads root) (hdepth : root.depth ≤ jsonNestingLimit) (files : Files) :
    ∃ text, (restoreFiles json (some root) files).main = some text ∧
      validText json text = true ∧
      (json.parse (CStr.ofBytes text)).map readPolicy = some (readPolicy root) := by
  obtain ⟨text, hprint, -, hparse⟩ := hreads
  rw [if_pos hdepth] at hparse
  have hroot : json.parse (CStr.ofBytes text.val) = some (root.sanitize json.finite) := by
    rw [CStr.ofBytes_val, hparse]
  refine ⟨text.val, ?_, (validText_iff hroot).mpr (hvalid.sanitize hnum), ?_⟩
  · simp only [restoreFiles, if_pos hvalid.isObject, hprint, run_writeSettings_whole]
  · rw [hroot, Option.map_some, readPolicy_sanitize]

/-- The backup of one device restores its settings on another: it is accepted, the next boot
classifies the settings file as valid, and the effective values are the same. -/
def Restores (json : JsonLib ν) (source target : Device) : Prop :=
  ∃ file device, settingsDoBackup json source = .ok file ∧
    settingsDoRestore json file target = .ok device ∧
    (bootProbe json device.files).payloadStatus = .valid ∧
    effective json device = effective json source

/-- Where the source has never written a namespace, the target loads the defaults. -/
structure Covered (source target : Nvs) : Prop where
  time : source.time = none → ntpCfgLoad target.time = ntpCfgLoad none
  power : source.power = none → loadScreenSettings target.power = loadScreenSettings none
  webdav : source.webdav = none → loadWebdavSettings target.webdav = loadWebdavSettings none
  sound : source.sound = none → loadBuzzerVolume target.sound = loadBuzzerVolume none
  user : source.user = none → loadUsername target.user = loadUsername none
  input : source.input = none → loadBackGesture target.input = loadBackGesture none

/-- What a backup leaves on the device that accepts it. -/
def restored (json : JsonLib ν) (settings : Json ν) (source : Nvs) (target : Device) : Device where
  files := restoreFiles json (some settings) target.files
  nvs := {
    time := restoreTime json (some (backupTime json source.time)) target.nvs.time
    power := restorePower json (some (backupPower json source.power)) target.nvs.power
    webdav := restoreWebdav json (some (backupWebdav json source.webdav)) target.nvs.webdav
    sound := restoreSound json (some (backupSound json source.sound)) target.nvs.sound
    user := restoreUser (some (backupUser (ν := ν) source.user)) target.nvs.user
    input := restoreInput json (some (backupInput json source.input)) target.nvs.input }

theorem itemInt_backupRoot (hnum : json.Numbers) (settings : Json ν) (nvs : Nvs) :
    itemInt json (backupRoot json settings nvs) "jppdos_backup" = some 1 := by
  rw [itemInt, getItem_backupRoot json settings nvs _ _ List.mem_cons_self]
  exact congrArg some (hnum.toInt_ofInt 1 (by decide) (by decide))

theorem backupApplyJson_backup (hnum : json.Numbers) {text : CStr} {settings : Json ν}
    {source : Nvs} (hparse : json.parse text = some (backupRoot json settings source))
    (target : Device) :
    backupApplyJson json text target = .ok (restored json settings source target) := by
  have hitem := getItem_backupRoot json settings source
  simp only [backupApplyJson, hparse]
  rw [if_neg (by rw [itemInt_backupRoot hnum]; simp)]
  rw [hitem "settings" settings (by simp),
    hitem "nvs_time" (backupTime json source.time) (by simp),
    hitem "nvs_power" (backupPower json source.power) (by simp),
    hitem "nvs_webdav" (backupWebdav json source.webdav) (by simp),
    hitem "nvs_sound" (backupSound json source.sound) (by simp),
    hitem "nvs_user" (backupUser source.user) (by simp),
    hitem "nvs_input" (backupInput json source.input) (by simp)]
  rfl

/-- The namespaces behind a restore have the source's values exactly when the target covers
those that the source has never written. -/
theorem nvs_restored_iff (hnum : json.Numbers) (settings : Json ν) (source : Nvs)
    (target : Device) :
    let nvs := (restored json settings source target).nvs
    (ntpCfgLoad nvs.time = ntpCfgLoad source.time ∧
        loadScreenSettings nvs.power = loadScreenSettings source.power ∧
        loadWebdavSettings nvs.webdav = loadWebdavSettings source.webdav ∧
        loadBuzzerVolume nvs.sound = loadBuzzerVolume source.sound ∧
        loadUsername nvs.user = loadUsername source.user ∧
        loadBackGesture nvs.input = loadBackGesture source.input) ↔
      Covered source target.nvs := by
  simp only [restored, (carries_time hnum).loads_iff, (carries_power hnum).loads_iff,
    (carries_webdav hnum).loads_iff, (carries_sound hnum).loads_iff,
    (carries_user json).loads_iff, (carries_input hnum).loads_iff]
  constructor
  · rintro ⟨htime, hpower, hwebdav, hsound, huser, hinput⟩
    exact ⟨htime, hpower, hwebdav, hsound, huser, hinput⟩
  · rintro ⟨htime, hpower, hwebdav, hsound, huser, hinput⟩
    exact ⟨htime, hpower, hwebdav, hsound, huser, hinput⟩

/-- Which backups are written and accepted, and what they leave. -/
theorem settingsDoRestore_backup (hnum : json.Numbers) {source : Device} {text : List UInt8}
    {root : Json ν} (hmain : source.files.main = some text)
    (hparse : json.parse (CStr.ofBytes text) = some root) (hobject : root.isObject = true)
    (hreads : json.Rereads (backupRoot json root source.nvs)) (target device : Device) :
    (∃ file, settingsDoBackup json source = .ok file ∧
        settingsDoRestore json file target = .ok device) ↔
      (text.length < backupBufSize ∧
        ((backupRoot json root source.nvs).compact json.numberText).length < backupBufSize ∧
        root.depth < jsonNestingLimit) ∧
        restored json (root.sanitize json.finite) source.nvs target = device := by
  obtain ⟨out, hprint, hout, hreparse⟩ := hreads
  have hbackup : settingsDoBackup json source =
      if backupBufSize ≤ text.length then .error "Error: settings too large"
      else .ok out.val := by
    simp only [settingsDoBackup, hmain, hparse, hprint]
  have hrestore : settingsDoRestore json out.val target =
      if backupBufSize ≤ out.val.length then .error "Error: file too large"
      else backupApplyJson json out target := by
    rw [settingsDoRestore, CStr.ofBytes_val]
  rw [hbackup, ← hout]
  by_cases htext : backupBufSize ≤ text.length
  · rw [if_pos htext]
    exact iff_of_false nofun fun h => absurd h.1.1 (Nat.not_lt_of_le htext)
  rw [if_neg htext]
  simp only [Except.ok.injEq, exists_eq_left', hrestore]
  by_cases hlength : backupBufSize ≤ out.val.length
  · rw [if_pos hlength]
    exact iff_of_false nofun fun h => absurd h.1.2.1 (Nat.not_lt_of_le hlength)
  rw [if_neg hlength]
  rw [depth_backupRoot hnum hobject, sanitize_backupRoot hnum] at hreparse
  by_cases hdepth : root.depth < jsonNestingLimit
  · rw [if_pos (Nat.succ_le_of_lt hdepth)] at hreparse
    rw [backupApplyJson_backup hnum hreparse, Except.ok.injEq]
    exact (and_iff_right ⟨Nat.lt_of_not_le htext, Nat.lt_of_not_le hlength, hdepth⟩).symm
  · rw [if_neg (by omega)] at hreparse
    simp only [backupApplyJson, hreparse]
    exact iff_of_false nofun fun h => hdepth h.1.2.2

/-- A backup restores the settings of its device exactly when the settings file and the text of
the backup fit into the buffer, the settings are not nested too deeply, and the target loads
the defaults from every namespace that the source has never written. -/
theorem backup_restores_iff (json : JsonLib ν) (hnum : json.Numbers) (source target : Device)
    {text : List UInt8} {root : Json ν} (hmain : source.files.main = some text)
    (hparse : json.parse (CStr.ofBytes text) = some root) (hvalid : validText json text = true)
    (hbackup : json.Rereads (backupRoot json root source.nvs))
    (hsettings : json.Rereads (root.sanitize json.finite)) :
    Restores json source target ↔
      (text.length < backupBufSize ∧
        ((backupRoot json root source.nvs).compact json.numberText).length < backupBufSize ∧
        root.depth < jsonNestingLimit) ∧
        Covered source.nvs target.nvs := by
  have hroot : ValidRoot json root := (validText_iff hparse).mp hvalid
  have haccepted := settingsDoRestore_backup hnum hmain hparse hroot.isObject hbackup target
  have hloads : ∀ device,
      effective json device = effective json source ↔
        (device.files.main.bind fun text => json.parse (CStr.ofBytes text)).map readPolicy =
            some (readPolicy root) ∧
          ntpCfgLoad device.nvs.time = ntpCfgLoad source.nvs.time ∧
          loadScreenSettings device.nvs.power = loadScreenSettings source.nvs.power ∧
          loadWebdavSettings device.nvs.webdav = loadWebdavSettings source.nvs.webdav ∧
          loadBuzzerVolume device.nvs.sound = loadBuzzerVolume source.nvs.sound ∧
          loadUsername device.nvs.user = loadUsername source.nvs.user ∧
          loadBackGesture device.nvs.input = loadBackGesture source.nvs.input := by
    intro device
    simp only [effective, hmain, Option.bind_some, hparse, Option.map_some, Effective.mk.injEq]
  constructor
  · rintro ⟨file, device, hfile, hdevice, -, heffective⟩
    obtain ⟨hsizes, rfl⟩ := (haccepted device).mp ⟨file, hfile, hdevice⟩
    exact ⟨hsizes, (nvs_restored_iff hnum _ source.nvs target).mp ((hloads _).mp heffective).2⟩
  · rintro ⟨hsizes, hcovered⟩
    obtain ⟨file, hfile, hdevice⟩ := (haccepted _).mpr ⟨hsizes, rfl⟩
    have hdepth : (root.sanitize json.finite).depth ≤ jsonNestingLimit := by
      rw [Json.depth_sanitize]
      exact hsizes.2.2.le
    obtain ⟨text', hmain', hvalid', hpolicy⟩ :=
      restoreFiles_reads hnum (hroot.sanitize hnum) hsettings hdepth target.files
    rw [readPolicy_sanitize] at hpolicy
    refine ⟨file, _, hfile, hdevice, ?_, (hloads _).mpr ⟨?_, ?_⟩⟩
    · simp only [restored, bootProbe, hmain', probeSettingsPayload, hvalid', Option.isSome_some,
        if_pos]
    · rw [restored, hmain', Option.bind_some, hpolicy]
    · exact (nvs_restored_iff hnum _ source.nvs target).mpr hcovered

/-- How a number that is not negative is printed. -/
def natText (n : Int) : List UInt8 := Numerals.showBase 10 n.toNat

/-- A package with integers for numbers that reads the texts of a few values. -/
def tableJson (table : List (Json Int)) : JsonLib Int where
  parse text := table.find? fun v => v.compact natText = text.val
  printUnformatted v := some (CStr.ofBytes (v.compact natText))
  toInt n := n
  ofInt n := n
  finite _ := true
  numberText := natText

theorem numbers_tableJson (table : List (Json Int)) : (tableJson table).Numbers where
  toInt_ofInt _ _ _ := rfl
  finite_ofInt _ := rfl
  finite_of_toInt _ _ := rfl

theorem sanitize_tableJson (table : List (Json Int)) (v : Json Int) :
    v.sanitize (tableJson table).finite = v := Json.sanitize_eq_self (fun _ => rfl) v

theorem parse_tableJson {table : List (Json Int)}
    (hnodup : (table.map fun v => v.compact natText).Nodup) {v : Json Int} (hmem : v ∈ table)
    {text : CStr} (htext : text.val = v.compact natText) :
    (tableJson table).parse text = some v := by
  change table.find? (fun w => w.compact natText = text.val) = some v
  rw [htext]
  exact Json.find?_of_nodup (fun v => v.compact natText) hnodup hmem

theorem rereads_tableJson {table : List (Json Int)}
    (hnodup : (table.map fun v => v.compact natText).Nodup) {v : Json Int} (hmem : v ∈ table)
    (htext : (CStr.ofBytes (v.compact natText)).val = v.compact natText)
    (hdepth : v.depth ≤ jsonNestingLimit) : (tableJson table).Rereads v := by
  refine ⟨CStr.ofBytes (v.compact natText), rfl, htext, ?_⟩
  rw [if_pos hdepth, sanitize_tableJson]
  exact parse_tableJson hnodup hmem htext

/-- The value of the default settings. -/
def defaultRoot : Json Int := .object
  [(schemaVersion, .number 2),
    (key "policy", .object
      [(key "wifi", .object
        [(key "preferred_ssid", .string emptyStr), (key "password", .string emptyStr)]),
        (key "recovery", .object [(key "force_recovery", .bool false)])])]

/-- Namespaces none of which was ever written. -/
def freshNvs : Nvs := ⟨none, none, none, none, none, none⟩

/-- Namespaces with a user name. -/
def namedNvs : Nvs := { freshNvs with user := some ⟨some (key "bob")⟩ }

/-- A device with the default settings. -/
def defaultDevice (nvs : Nvs) : Device := ⟨⟨some defaultSettings.val, none⟩, nvs⟩

/-- The values that are read here: the default settings, and two backups of them. -/
def exampleTable : List (Json Int) :=
  [defaultRoot, backupRoot (tableJson []) defaultRoot freshNvs,
    backupRoot (tableJson []) defaultRoot namedNvs]

theorem nodup_exampleTable : (exampleTable.map fun v => v.compact natText).Nodup := by
  decide +kernel

theorem parse_defaultSettings :
    (tableJson exampleTable).parse (CStr.ofBytes defaultSettings.val) = some defaultRoot :=
  parse_tableJson nodup_exampleTable List.mem_cons_self (by decide)

/-- The user name of the source arrives. -/
theorem backup_restores_named :
    Restores (tableJson exampleTable) (defaultDevice namedNvs) (defaultDevice freshNvs) := by
  refine (backup_restores_iff _ (numbers_tableJson _) _ _ rfl parse_defaultSettings
    (by decide +kernel) ?_ ?_).mpr ⟨by decide +kernel, ?_⟩
  · exact rereads_tableJson nodup_exampleTable
      (List.mem_cons_of_mem _ (List.mem_cons_of_mem _ List.mem_cons_self)) (by decide +kernel)
      (by decide)
  · rw [sanitize_tableJson]
    exact rereads_tableJson nodup_exampleTable List.mem_cons_self (by decide)
      (by decide)
  · exact ⟨fun _ => rfl, fun _ => rfl, fun _ => rfl, fun _ => rfl, nofun, fun _ => rfl⟩

/-- A source that never had a user name leaves the target its own. -/
theorem username_stays :
    ∃ file device,
      settingsDoBackup (tableJson exampleTable) (defaultDevice freshNvs) = .ok file ∧
        settingsDoRestore (tableJson exampleTable) file (defaultDevice namedNvs) = .ok device ∧
        (effective (tableJson exampleTable) (defaultDevice freshNvs)).username = emptyStr ∧
        (effective (tableJson exampleTable) device).username = key "bob" := by
  have hreads : (tableJson exampleTable).Rereads
      (backupRoot (tableJson exampleTable) defaultRoot freshNvs) :=
    rereads_tableJson nodup_exampleTable (List.mem_cons_of_mem _ List.mem_cons_self)
      (by decide +kernel) (by decide +kernel)
  have hmain : (defaultDevice freshNvs).files.main = some defaultSettings.val := rfl
  obtain ⟨file, hbackup, hrestore⟩ :=
    (settingsDoRestore_backup (numbers_tableJson _) hmain parse_defaultSettings rfl hreads
      (defaultDevice namedNvs) _).mpr ⟨by decide +kernel, rfl⟩
  exact ⟨file, _, hbackup, hrestore, rfl, rfl⟩

end Settings
end JppDos
