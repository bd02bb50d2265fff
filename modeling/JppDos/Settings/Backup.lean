import JppDos.Settings.Store

/-!
# Backup and restore of the settings

A backup is one JSON text with the settings file and what the six namespaces of the
non-volatile storage hold; a restore writes it back on the same or another device.  What a
namespace holds that was never written is not in the backup, not even as a default.

Main definitions:
* `effective`: the values that the firmware reads when it boots;
* `settingsDoBackup`, `settingsDoRestore`: both ways.
-/

namespace JppDos
namespace Settings

open CText

variable {ν : Type} (json : JsonLib ν)

/-- `JPP_STARTUP_JINGLE_COUNT`. -/
def startupJingleCount : Nat := 11

/-- A jingle that its setter stores. -/
abbrev Jingle := { j : UInt8 // j.toNat < startupJingleCount }

/-- A gesture that its setter stores: hold, or double click. -/
abbrev Gesture := { g : UInt8 // g = 0 ∨ g = 1 }

/-- `jpp_time`. -/
structure TimeNs where
  ntpEn : Option UInt8
  ntpHost : Option CStr
  tzH : Option Int8
  deriving DecidableEq

/-- `jpp_power`. -/
structure PowerNs where
  dimS : Option Int32
  poweroffS : Option Int32
  deriving DecidableEq

/-- `jpp_webdav`. -/
structure WebdavNs where
  passStatic : Option UInt8
  staticPass : Option CStr
  deriving DecidableEq

/-- `jpp_sound`. -/
structure SoundNs where
  buzzerVol : Option UInt8
  startupJingle : Option Jingle
  deriving DecidableEq

/-- `jpp_user`. -/
structure UserNs where
  username : Option CStr
  deriving DecidableEq

/-- `jpp_input`. -/
structure InputNs where
  backGesture : Option Gesture
  deriving DecidableEq

/-- The namespaces; one that was never written does not exist. -/
structure Nvs where
  time : Option TimeNs
  power : Option PowerNs
  webdav : Option WebdavNs
  sound : Option SoundNs
  user : Option UserNs
  input : Option InputNs
  deriving DecidableEq

/-- What a device keeps of its settings. -/
structure Device where
  files : Files
  nvs : Nvs
  deriving DecidableEq

/-- `nvs_get_str` into a buffer that holds a default; a string that is too long is not read. -/
def nvsGetStr (stored : Option CStr) (size : Nat) (fallback : CStr) : CStr :=
  match stored with
  | some s => if s.strlen < size then s else fallback
  | none => fallback

/-- The empty string. -/
def emptyStr : CStr := CStr.ofBytes []

/-- `JPP_SETTINGS_NTP_HOST_MAX`. -/
def ntpHostMax : Nat := 65

/-- `JPP_SETTINGS_USERNAME_MAX`. -/
def usernameMax : Nat := 64

/-- `JPP_UI_WEBDAV_PASS_MAX + 1`. -/
def webdavPassSize : Nat := 25

/-- The default of `ntp_host`. -/
def defaultNtpHost : CStr := CStr.ofBytes (ascii "time.nist.gov")

/-- `JPP_STARTUP_JINGLE_DEFAULT`. -/
def defaultJingle : Jingle := ⟨0, by decide⟩

/-- `JPP_KEYPAD_BACK_GESTURE_HOLD`. -/
def gestureHold : Gesture := ⟨0, Or.inl rfl⟩

/-- `ntp_cfg_t`. -/
structure NtpCfg where
  enabled : Bool
  host : CStr
  tzOffsetH : Int
  deriving DecidableEq

/-- `ntp_cfg_load` at boot. -/
def ntpCfgLoad : Option TimeNs → NtpCfg
  | none => ⟨false, defaultNtpHost, 0⟩
  | some ns =>
      { enabled := (ns.ntpEn.map (· != 0)).getD false
        host := nvsGetStr ns.ntpHost ntpHostMax defaultNtpHost
        tzOffsetH := (ns.tzH.map Int8.toInt).getD 0 }

/-- `load_screen_settings` at boot: the seconds until standby and sleep. -/
def loadScreenSettings (ns : Option PowerNs) : Int32 × Int32 :=
  ((ns.bind PowerNs.dimS).getD 60, (ns.bind PowerNs.poweroffS).getD 300)

/-- `load_webdav_settings` at boot: whether the password is static, and the static one. -/
def loadWebdavSettings (ns : Option WebdavNs) : Bool × CStr :=
  if ((ns.bind WebdavNs.passStatic).map (· != 0)).getD false then
    (true, nvsGetStr (ns.bind WebdavNs.staticPass) webdavPassSize emptyStr)
  else (false, emptyStr)

/-- `load_buzzer_volume` at boot: the volume and the jingle. -/
def loadBuzzerVolume (ns : Option SoundNs) : UInt8 × Jingle :=
  ((ns.bind SoundNs.buzzerVol).getD 100, (ns.bind SoundNs.startupJingle).getD defaultJingle)

/-- `load_username` at boot. -/
def loadUsername (ns : Option UserNs) : CStr :=
  nvsGetStr (ns.bind UserNs.username) usernameMax emptyStr

/-- `load_back_gesture` at boot. -/
def loadBackGesture (ns : Option InputNs) : Gesture :=
  (ns.bind InputNs.backGesture).getD gestureHold

/-- A member of a member. -/
def policyItem (root : Json ν) (group item : String) : Option (Json ν) :=
  ((root.getItem (CStr.ofBytes (ascii "policy"))).bind
    (·.getItem (CStr.ofBytes (ascii group)))).bind (·.getItem (CStr.ofBytes (ascii item)))

/-- What the firmware reads of the settings file. -/
structure Policy where
  preferredSsid : CStr
  password : CStr
  forceRecovery : Bool
  deriving DecidableEq

/-- `jpp_settings_read_wifi` and `read_force_recovery`. -/
def readPolicy (root : Json ν) : Policy where
  preferredSsid := ((policyItem root "wifi" "preferred_ssid").bind Json.string?).getD emptyStr
  password := ((policyItem root "wifi" "password").bind Json.string?).getD emptyStr
  forceRecovery := ((policyItem root "recovery" "force_recovery").map Json.isTrue).getD false

/-- The values of all settings that a backup contains. -/
structure Effective where
  policy : Option Policy
  ntp : NtpCfg
  screen : Int32 × Int32
  webdav : Bool × CStr
  sound : UInt8 × Jingle
  username : CStr
  backGesture : Gesture
  deriving DecidableEq

/-- The effective settings of a device. -/
def effective (d : Device) : Effective where
  policy := (d.files.main.bind fun text => json.parse (CStr.ofBytes text)).map readPolicy
  ntp := ntpCfgLoad d.nvs.time
  screen := loadScreenSettings d.nvs.power
  webdav := loadWebdavSettings d.nvs.webdav
  sound := loadBuzzerVolume d.nvs.sound
  username := loadUsername d.nvs.user
  backGesture := loadBackGesture d.nvs.input

/-- A name in a backup. -/
abbrev key (name : String) : CStr := CStr.ofBytes (ascii name)

/-- `cJSON_AddNumberToObject` of a byte. -/
def numberU8 (v : UInt8) : Json ν := .number (json.ofInt v.toNat)

/-- The object of `jpp_time`. -/
def backupTime : Option TimeNs → Json ν
  | none => .object []
  | some ns => .object
      [(key "ntp_en", numberU8 json (ns.ntpEn.getD 0)),
        (key "ntp_host", .string (nvsGetStr ns.ntpHost ntpHostMax defaultNtpHost)),
        (key "tz_h", .number (json.ofInt (ns.tzH.getD 0).toInt))]

/-- The object of `jpp_power`. -/
def backupPower : Option PowerNs → Json ν
  | none => .object []
  | some ns => .object
      [(key "dim_s", .number (json.ofInt (ns.dimS.getD 60).toInt)),
        (key "poweroff_s", .number (json.ofInt (ns.poweroffS.getD 300).toInt))]

/-- The object of `jpp_webdav`. -/
def backupWebdav : Option WebdavNs → Json ν
  | none => .object []
  | some ns => .object
      [(key "pass_static", numberU8 json (ns.passStatic.getD 0)),
        (key "static_pass", .string (nvsGetStr ns.staticPass webdavPassSize emptyStr))]

/-- The object of `jpp_sound`. -/
def backupSound : Option SoundNs → Json ν
  | none => .object []
  | some ns => .object
      [(key "buzzer_vol", numberU8 json (ns.buzzerVol.getD 100)),
        (key "startup_jingle", numberU8 json (ns.startupJingle.getD defaultJingle).val)]

/-- The object of `jpp_user`. -/
def backupUser : Option UserNs → Json ν
  | none => .object []
  | some ns => .object
      [(key "username", .string (nvsGetStr ns.username usernameMax emptyStr))]

/-- The object of `jpp_input`. -/
def backupInput : Option InputNs → Json ν
  | none => .object []
  | some ns => .object
      [(key "back_gesture", numberU8 json (ns.backGesture.getD gestureHold).val)]

/-- The backup of a settings object and the namespaces. -/
def backupRoot (settings : Json ν) (nvs : Nvs) : Json ν := .object
  [(key "jppdos_backup", .number (json.ofInt 1)),
    (key "settings", settings),
    (key "nvs_time", backupTime json nvs.time),
    (key "nvs_power", backupPower json nvs.power),
    (key "nvs_webdav", backupWebdav json nvs.webdav),
    (key "nvs_sound", backupSound json nvs.sound),
    (key "nvs_user", backupUser nvs.user),
    (key "nvs_input", backupInput json nvs.input)]

/-- The size of `s_backup_file_buf`. -/
def backupBufSize : Nat := 8192

/-- `settings_do_backup`: its error, or the file that it writes to the card. -/
def settingsDoBackup (d : Device) : Except String (List UInt8) :=
  match d.files.main with
  | none => .error "Error: no settings file"
  | some text =>
      if backupBufSize ≤ text.length then .error "Error: settings too large"
      else
        match json.parse (CStr.ofBytes text) with
        | none => .error "Error: corrupt settings"
        | some settings =>
            match json.printUnformatted (backupRoot json settings d.nvs) with
            | none => .error "Error: out of memory"
            | some out => .ok out.val

/-- `cJSON_GetObjectItem` where it is a number, as an integer. -/
def itemInt (o : Json ν) (name : String) : Option Int :=
  ((o.getItem (key name)).bind Json.number?).map json.toInt

/-- `cJSON_GetObjectItem` where it is a string. -/
def itemStr (o : Json ν) (name : String) : Option CStr :=
  (o.getItem (key name)).bind Json.string?

/-- A namespace that is opened for writing: it exists from then on. -/
def openNs {α : Type} (o : Option (Json ν)) (ns : Option α) (empty : α)
    (write : Json ν → α → α) : Option α :=
  match o with
  | some o => if o.isObject then some (write o (ns.getD empty)) else ns
  | none => ns

/-- A jingle in its range. -/
def jingle? (n : Int) : Option Jingle :=
  if h : 0 ≤ n ∧ n < startupJingleCount ∧ (UInt8.ofInt n).toNat < startupJingleCount then
    some ⟨UInt8.ofInt n, h.2.2⟩
  else none

/-- A gesture that there is. -/
def gesture? (n : Int) : Option Gesture :=
  if n = 0 then some ⟨0, Or.inl rfl⟩ else if n = 1 then some ⟨1, Or.inr rfl⟩ else none

/-- The part for `jpp_time`. -/
def restoreTime (o : Option (Json ν)) (ns : Option TimeNs) : Option TimeNs :=
  openNs o ns ⟨none, none, none⟩ fun o ns =>
    { ntpEn := ((itemInt json o "ntp_en").map UInt8.ofInt).or ns.ntpEn
      ntpHost := (itemStr o "ntp_host").or ns.ntpHost
      tzH := ((itemInt json o "tz_h").map Int8.ofInt).or ns.tzH }

/-- The part for `jpp_power`. -/
def restorePower (o : Option (Json ν)) (ns : Option PowerNs) : Option PowerNs :=
  openNs o ns ⟨none, none⟩ fun o ns =>
    { dimS := ((itemInt json o "dim_s").map Int32.ofInt).or ns.dimS
      poweroffS := ((itemInt json o "poweroff_s").map Int32.ofInt).or ns.poweroffS }

/-- The part for `jpp_webdav`. -/
def restoreWebdav (o : Option (Json ν)) (ns : Option WebdavNs) : Option WebdavNs :=
  openNs o ns ⟨none, none⟩ fun o ns =>
    { passStatic := ((itemInt json o "pass_static").map UInt8.ofInt).or ns.passStatic
      staticPass := (itemStr o "static_pass").or ns.staticPass }

/-- The part for `jpp_sound`. -/
def restoreSound (o : Option (Json ν)) (ns : Option SoundNs) : Option SoundNs :=
  openNs o ns ⟨none, none⟩ fun o ns =>
    { buzzerVol := ((itemInt json o "buzzer_vol").map UInt8.ofInt).or ns.buzzerVol
      startupJingle := ((itemInt json o "startup_jingle").bind jingle?).or ns.startupJingle }

/-- The part for `jpp_user`. -/
def restoreUser (o : Option (Json ν)) (ns : Option UserNs) : Option UserNs :=
  openNs o ns ⟨none⟩ fun o ns => { username := (itemStr o "username").or ns.username }

/-- The part for `jpp_input`. -/
def restoreInput (o : Option (Json ν)) (ns : Option InputNs) : Option InputNs :=
  openNs o ns ⟨none⟩ fun o ns =>
    { backGesture := ((itemInt json o "back_gesture").bind gesture?).or ns.backGesture }

/-- A write all of which reaches the file. -/
def wholeWrite (text : CStr) : WriteIO := ⟨true, 0, text.strlen, Nat.zero_le _⟩

/-- The part for the settings file. -/
def restoreFiles (o : Option (Json ν)) (files : Files) : Files :=
  match o with
  | some o =>
      if o.isObject then
        match json.printUnformatted o with
        | some text => Machine.run fileStep files (writeSettings text (wholeWrite text))
        | none => files
      else files
  | none => files

/-- `jpp_backup_apply_json`. -/
def backupApplyJson (text : CStr) (d : Device) : Except String Device :=
  match json.parse text with
  | none => .error "Error: invalid JSON"
  | some root =>
      if itemInt json root "jppdos_backup" ≠ some 1 then .error "Error: not a backup file"
      else
        let item (name : String) := root.getItem (key name)
        .ok {
          files := restoreFiles json (item "settings") d.files
          nvs := {
            time := restoreTime json (item "nvs_time") d.nvs.time
            power := restorePower json (item "nvs_power") d.nvs.power
            webdav := restoreWebdav json (item "nvs_webdav") d.nvs.webdav
            sound := restoreSound json (item "nvs_sound") d.nvs.sound
            user := restoreUser (item "nvs_user") d.nvs.user
            input := restoreInput json (item "nvs_input") d.nvs.input } }

/-- `settings_do_restore` with the file that was picked; the device restarts behind it. -/
def settingsDoRestore (file : List UInt8) (d : Device) : Except String Device :=
  if backupBufSize ≤ file.length then .error "Error: file too large"
  else backupApplyJson json (CStr.ofBytes file) d

end Settings
end JppDos
