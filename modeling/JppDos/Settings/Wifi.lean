import JppDos.Lib.JsonEdit
import JppDos.Settings.RoundTrip

/-!
# The credentials of the network

The name and the passphrase of the network stand in the settings file.  They are stored beside
all other settings, read at boot and copied to the configuration of the station, whose field
for the name has no room for a terminating zero byte beside a name of full length.

Main fact:
* `wifi_kept_iff`: the files and the names for which all goes well.
-/

namespace JppDos
namespace Settings

open CText Json

variable {ν : Type} (json : JsonLib ν)

/-- `policy.wifi.preferred_ssid`. -/
abbrev ssidKey : CStr := key "preferred_ssid"

/-- `policy.wifi.password`. -/
abbrev passwordKey : CStr := key "password"

/-- What the settings file holds. -/
def readRoot (files : Files) : Option (Json ν) :=
  files.main.bind fun text => json.parse (CStr.ofBytes text)

/-- `jpp_settings_read_wifi`. -/
def readWifi (ssidSize passwordSize : Nat) (files : Files) : CStr × CStr :=
  match readRoot json files with
  | none => (emptyStr, emptyStr)
  | some root =>
      ((readPolicy root).preferredSsid.strncpy ssidSize,
        (readPolicy root).password.strncpy passwordSize)

/-- The credentials replace those of `policy.wifi`. -/
def storeWifi (ssid password : CStr) (wifi : Json ν) : Json ν :=
  (((wifi.deleteItem ssidKey).deleteItem passwordKey).addItem ssidKey (.string ssid)).addItem
    passwordKey (.string password)

/-- The settings with the credentials. -/
def savedRoot (ssid password : CStr) (root : Json ν) : Json ν :=
  withObject (key "policy") (withObject (key "wifi") (storeWifi ssid password)) root

/-- `jpp_settings_save_wifi`; `io` is how a write of a text goes. -/
def saveWifi (io : CStr → WriteIO) (ssid password : CStr) (files : Files) : Files :=
  match readRoot json files with
  | none => files
  | some root =>
      match json.printUnformatted (savedRoot ssid password root) with
      | none => files
      | some text => Machine.run fileStep files (writeSettings text (io text))

/-- `sizeof(wifi_cfg.sta.ssid)`. -/
def staSsidSize : Nat := 32

/-- `sizeof(wifi_cfg.sta.password)`. -/
def staPasswordSize : Nat := 64

/-- The fields of `wifi_config_t` that are set. -/
structure WifiConfig where
  ssid : List UInt8
  password : List UInt8
  wpa2 : Bool
  deriving DecidableEq

/-- `strncpy` of all but one byte into a field of zero bytes. -/
def staField (size : Nat) (s : CStr) : List UInt8 :=
  (s.strncpy size).val ++ List.replicate (size - (s.strncpy size).strlen) 0

/-- `init_wifi`: what it configures, if the driver has started. -/
def initWifi (started : Bool) (files : Files) : Option WifiConfig :=
  let (ssid, password) := readWifi json 64 64 files
  if ssid.strlen = 0 then none
  else if started then some ⟨staField staSsidSize ssid, staField staPasswordSize password, true⟩
  else none

/-- `wifi_connect`: what it configures. -/
def wifiConnect (started : Bool) (ssid password : CStr) : Option WifiConfig :=
  if started then
    some ⟨staField staSsidSize ssid,
      if password.strlen = 0 then List.replicate staPasswordSize 0
      else staField staPasswordSize password,
      password.strlen ≠ 0⟩
  else none

/-- The station joins the network: a field is read up to a zero byte or its end. -/
def WifiConfig.Joins (config : WifiConfig) (ssid password : CStr) : Prop :=
  CStr.ofBytes config.ssid = ssid ∧ CStr.ofBytes config.password = password

/-- The places of the credentials. -/
def wifiPaths : List (List CStr) :=
  [[key "policy", key "wifi", ssidKey], [key "policy", key "wifi", passwordKey]]

/-- The path of another setting: it neither leads to the credentials nor past them. -/
def OtherSetting (path : List CStr) : Prop := path ≠ [] ∧ ∀ target ∈ wifiPaths, Apart target path

/-- The value of a setting. -/
def settingAt (files : Files) (path : List CStr) : Option (Json ν) :=
  (readRoot json files).bind (·.lookup path)

/-- The credentials are read back, the station gets them at boot as on request, and all other
settings have kept their values. -/
structure WifiKept (before after : Files) (ssid password : CStr) : Prop where
  read : ∀ ssidSize passwordSize, 32 < ssidSize → 63 < passwordSize →
    readWifi json ssidSize passwordSize after = (ssid, password)
  station : ∃ config, initWifi json true after = some config ∧ config.Joins ssid password
  same : wifiConnect true ssid password = initWifi json true after
  others : ∀ path, OtherSetting path → settingAt json after path = settingAt json before path

/-- The members of `policy.wifi`, unless something else stands in the place of an object. -/
def wifiMembers (root : Json ν) : Option (List (CStr × Json ν)) :=
  (root.objectAt (key "policy")).bind fun members => (object members).objectAt (key "wifi")

/-- A second member of that name. -/
def secondItem (members : List (CStr × Json ν)) (name : CStr) : Option (Json ν) :=
  ((object members).deleteItem name).getItem name

/-- The name fits, the objects on the way are objects, no second member stands behind a
credential with another value, and no other setting has a number that is not finite. -/
structure WifiClear (root : Json ν) (ssid password : CStr) : Prop where
  fits : ssid.strlen < staSsidSize
  single : ∃ members, wifiMembers root = some members ∧
    (∀ v ∈ secondItem members ssidKey, v = .string ssid) ∧
    ∀ v ∈ secondItem members passwordKey, v = .string password
  finite : ∀ path, OtherSetting path → ∀ v ∈ root.lookup path, v.sanitize json.finite = v

section Storing

variable (ssid password : CStr)

theorem keeps_savedRoot : Keeps (savedRoot (ν := ν) ssid password) wifiPaths := by
  have hstore : Keeps (storeWifi (ν := ν) ssid password) [[ssidKey], [passwordKey]] := by
    have hssid : [[ssidKey]] ⊆ [[ssidKey], [passwordKey]] := by simp
    have hpassword : [[passwordKey]] ⊆ [[ssidKey], [passwordKey]] := by simp
    exact ((keeps_addItem passwordKey (.string password)).mono hpassword).comp
      (((keeps_addItem ssidKey (.string ssid)).mono hssid).comp
        (((keeps_deleteItem passwordKey).mono hpassword).comp
          ((keeps_deleteItem ssidKey).mono hssid)))
  exact (hstore.withObject (List.cons_ne_nil _ _) (key "wifi")).withObject
    (List.cons_ne_nil _ _) (key "policy")

theorem fold_ssidKey_ne : ssidKey.fold ≠ passwordKey.fold := by decide

/-- What is found of the credentials in the object that they are stored in. -/
theorem getItem_storeWifi (members : List (CStr × Json ν)) :
    (storeWifi ssid password (object members)).getItem ssidKey =
        (secondItem members ssidKey).or (some (.string ssid)) ∧
      (storeWifi ssid password (object members)).getItem passwordKey =
        (secondItem members passwordKey).or (some (.string password)) := by
  have hne := fold_ssidKey_ne
  have hstore : storeWifi ssid password (object members) =
      ((object ((members.eraseP (named ssidKey)).eraseP (named passwordKey)) :
        Json ν).addItem ssidKey (.string ssid)).addItem passwordKey (.string password) := rfl
  have hssid : (object ((members.eraseP (named ssidKey)).eraseP (named passwordKey))).getItem
      ssidKey = secondItem members ssidKey :=
    getItem_deleteItem ((object members).deleteItem ssidKey) hne.symm
  have hpassword : (object ((members.eraseP (named ssidKey)).eraseP (named passwordKey))).getItem
      passwordKey = secondItem members passwordKey := by
    rw [List.eraseP_comm fun m _ => ?_]
    · exact getItem_deleteItem ((object members).deleteItem passwordKey) hne
    · by_cases hm : named ssidKey m = true
      · exact .inr (by simp [named_ne hne hm])
      · exact .inl hm
  rw [hstore, addItem.eq_1]
  constructor
  · rw [getItem_addItem, getItem_object, ← getItem_object, ← addItem.eq_1, getItem_addItem, hssid,
      if_pos rfl, if_neg hne.symm, Option.or_none]
  · rw [getItem_addItem, ← addItem.eq_1, getItem_addItem, hpassword, if_neg hne, Option.or_none,
      if_pos rfl]

theorem lookup_savedRoot (root : Json ν) (name : CStr) :
    (savedRoot ssid password root).lookup [key "policy", key "wifi", name] =
      (wifiMembers root).bind fun members =>
        (storeWifi ssid password (object members)).getItem name := by
  rw [savedRoot, lookup_withObject root rfl _ (List.cons_ne_nil _ _), wifiMembers,
    Option.bind_assoc]
  congr 1
  funext members
  rw [lookup_withObject _ rfl _ (List.cons_ne_nil _ _)]
  congr 1
  funext inner
  exact lookup_singleton _ name

theorem depth_savedRoot {root : Json ν} (h : root.depth ≤ jsonNestingLimit) :
    (savedRoot ssid password root).depth ≤ jsonNestingLimit := by
  have hstore (v : Json ν) (hv : v.depth ≤ 997 + 1) :
      (storeWifi ssid password v).depth ≤ 997 + 1 :=
    depth_addItem (depth_addItem (depth_deleteItem (depth_deleteItem hv _) _)
      (Nat.zero_le _) _) (Nat.zero_le _) _
  exact depth_withObject (fun v hv => depth_withObject hstore hv _) h _

end Storing

theorem policyItem_eq_lookup (root : Json ν) (group item : String) :
    policyItem root group item = root.lookup [key "policy", key group, key item] := by
  rw [policyItem, lookup_cons]
  cases root.getItem (key "policy") with
  | none => rfl
  | some policy =>
      rw [Option.bind_some, Option.bind_some, lookup_cons]
      cases policy.getItem (key group) with
      | none => rfl
      | some part => exact (lookup_singleton part (key item)).symm

theorem run_writeSettings_reached {text : CStr} {io : WriteIO} (hopened : io.opened = true)
    (hreached : text.strlen ≤ io.reached) (files : Files) :
    Machine.run fileStep files (writeSettings text io) = ⟨some text.val, none⟩ := by
  have hwhole : text.val.take io.reached = text.val := List.take_of_length_le hreached
  have hbytes := take_append_drop_take text.val io.flushed_le
  rw [hwhole] at hbytes
  simp only [writeSettings, if_pos hopened, Machine.run_cons, Machine.run_nil, fileStep,
    Option.map_some, List.nil_append, hwhole, hbytes]

variable {json} {io : CStr → WriteIO} {files : Files} {root : Json ν} {ssid password : CStr}

/-- The file that is read after the credentials were stored. -/
theorem readRoot_saveWifi (hroot : readRoot json files = some root)
    (hdepth : root.depth ≤ jsonNestingLimit)
    (hreads : json.Rereads (savedRoot ssid password root))
    (hio : ∀ text, (io text).opened = true ∧ text.strlen ≤ (io text).reached) :
    readRoot json (saveWifi json io ssid password files) =
      some ((savedRoot ssid password root).sanitize json.finite) := by
  obtain ⟨text, hprint, -, hparse⟩ := hreads
  rw [if_pos (depth_savedRoot ssid password hdepth)] at hparse
  obtain ⟨hopened, hreached⟩ := hio text
  have hsave : saveWifi json io ssid password files = ⟨some text.val, none⟩ := by
    simp only [saveWifi, hroot, hprint, run_writeSettings_reached hopened hreached]
  rw [hsave, readRoot, Option.bind_some, CStr.ofBytes_val, hparse]

/-- A field of the configuration is read as it was copied. -/
theorem ofBytes_staField (size : Nat) (s : CStr) :
    CStr.ofBytes (staField size s) = s.strncpy size := by
  rw [staField]
  cases size - (s.strncpy size).strlen with
  | zero =>
      rw [List.replicate_zero, List.append_nil]
      exact CStr.ofBytes_val _
  | succ n =>
      rw [List.replicate_succ]
      exact CStr.ofBytes_append_zero _ _

theorem strncpy_eq_self_iff {s : CStr} {size : Nat} (h : 0 < size) :
    s.strncpy size = s ↔ s.strlen < size := by
  refine ⟨fun heq => ?_, CStr.strncpy_of_lt⟩
  have hlength : (s.strncpy size).strlen = s.strlen := congrArg CStr.strlen heq
  have htake : (s.strncpy size).strlen = min (size - 1) s.strlen := List.length_take
  omega

theorem initWifi_eq {after : Files} (hread : readWifi json 64 64 after = (ssid, password))
    (hssid : 1 ≤ ssid.strlen) :
    initWifi json true after =
      some ⟨staField staSsidSize ssid, staField staPasswordSize password, true⟩ := by
  simp only [initWifi, hread]
  rw [if_neg (by omega), if_pos trivial]

theorem joins_iff {after : Files} (hread : readWifi json 64 64 after = (ssid, password))
    (hssid : 1 ≤ ssid.strlen) (hpassword : password.strlen < 64) :
    (∃ config, initWifi json true after = some config ∧ config.Joins ssid password) ↔
      ssid.strlen < staSsidSize := by
  rw [initWifi_eq hread hssid]
  simp only [Option.some.injEq, exists_eq_left', WifiConfig.Joins, ofBytes_staField,
    strncpy_eq_self_iff (show 0 < staSsidSize by decide),
    strncpy_eq_self_iff (show 0 < staPasswordSize by decide)]
  exact ⟨And.left, fun h => ⟨h, hpassword⟩⟩

/-- The request configures the same station as the boot. -/
theorem wifiConnect_eq {after : Files} (hread : readWifi json 64 64 after = (ssid, password))
    (hssid : 1 ≤ ssid.strlen) (hpassword : 1 ≤ password.strlen) :
    wifiConnect true ssid password = initWifi json true after := by
  have hne : password.strlen ≠ 0 := by omega
  rw [initWifi_eq hread hssid, wifiConnect, if_pos rfl, if_neg hne, decide_eq_true hne]

/-- A string that is read into any buffer with room for `max` bytes is the item. -/
theorem string_iff {item : Option (Json ν)} {s : CStr} {max : Nat} (hs : 1 ≤ s.strlen)
    (hmax : s.strlen ≤ max) :
    (∀ size, max < size → ((item.bind Json.string?).getD emptyStr).strncpy size = s) ↔
      item = some (.string s) := by
  constructor
  · intro h
    have hself : (item.bind Json.string?).getD emptyStr = s := by
      have hread := h (max + ((item.bind Json.string?).getD emptyStr).strlen + 1) (by omega)
      rwa [CStr.strncpy_of_lt (by omega)] at hread
    have hne : emptyStr ≠ s := by
      rintro rfl
      exact absurd hs (by decide)
    cases item with
    | none => exact absurd hself hne
    | some v =>
        cases v with
        | string t => rw [show t = s from hself]
        | null | bool b | number n | array items | object members => exact absurd hself hne
  · rintro rfl size hsize
    change s.strncpy size = s
    exact CStr.strncpy_of_lt (by omega)

/-- What is read from a settings file into buffers with room for all of it. -/
theorem readWifi_iff {after : Files} {root : Json ν} (hroot : readRoot json after = some root)
    (hssid : 1 ≤ ssid.strlen ∧ ssid.strlen ≤ 32)
    (hpassword : 8 ≤ password.strlen ∧ password.strlen ≤ 63) :
    (∀ ssidSize passwordSize, 32 < ssidSize → 63 < passwordSize →
        readWifi json ssidSize passwordSize after = (ssid, password)) ↔
      root.lookup [key "policy", key "wifi", ssidKey] = some (.string ssid) ∧
        root.lookup [key "policy", key "wifi", passwordKey] = some (.string password) := by
  rw [← policyItem_eq_lookup, ← policyItem_eq_lookup, ← string_iff hssid.1 hssid.2,
    ← string_iff (by omega) hpassword.2]
  simp only [readWifi, hroot, Prod.mk.injEq, readPolicy]
  exact ⟨fun h => ⟨fun size hsize => (h size 64 hsize (by decide)).1,
      fun size hsize => (h 33 size (by decide) hsize).2⟩,
    fun h ssidSize passwordSize hs hp => ⟨h.1 ssidSize hs, h.2 passwordSize hp⟩⟩

theorem or_some_eq_iff {α : Type*} {first : Option α} {v : α} :
    first.or (some v) = some v ↔ ∀ w ∈ first, w = v := by
  cases first with
  | none => simp
  | some w => simp

theorem lookup_stored_iff :
    ((savedRoot ssid password root).sanitize json.finite).lookup
          [key "policy", key "wifi", ssidKey] = some (.string ssid) ∧
        ((savedRoot ssid password root).sanitize json.finite).lookup
          [key "policy", key "wifi", passwordKey] = some (.string password) ↔
      ∃ members, wifiMembers root = some members ∧
        (∀ v ∈ secondItem members ssidKey, v = .string ssid) ∧
        ∀ v ∈ secondItem members passwordKey, v = .string password := by
  have hstring (item : Option (Json ν)) (s : CStr) :
      item.map (Json.sanitize json.finite) = some (.string s) ↔ item = some (.string s) := by
    cases item with
    | none => simp
    | some v =>
        cases v with
        | number n =>
            simp only [Option.map_some, Option.some.injEq, sanitize]
            split <;> simp
        | null | bool b | string t | array items | object members => simp [sanitize]
  rw [lookup_sanitize, lookup_sanitize, hstring, hstring, lookup_savedRoot, lookup_savedRoot]
  cases wifiMembers root with
  | none => simp
  | some members =>
      obtain ⟨hssid, hpassword⟩ := getItem_storeWifi ssid password members
      simp only [Option.bind_some, hssid, hpassword, or_some_eq_iff, Option.some.injEq,
        exists_eq_left']

/-- All other settings are read back if they have no number that is not finite. -/
theorem others_kept_iff {files after : Files} (hroot : readRoot json files = some root)
    (hafter : readRoot json after = some ((savedRoot ssid password root).sanitize json.finite)) :
    (∀ path, OtherSetting path → settingAt json after path = settingAt json files path) ↔
      ∀ path, OtherSetting path → ∀ v ∈ root.lookup path, v.sanitize json.finite = v := by
  refine forall_congr' fun path => imp_congr_right fun hother => ?_
  rw [settingAt, settingAt, hroot, hafter, Option.bind_some, Option.bind_some, lookup_sanitize,
    keeps_savedRoot ssid password root path hother.1 hother.2]
  cases root.lookup path with
  | none => simp
  | some v => simp

/-- The credentials that were stored are kept exactly if the name leaves room for a terminator
and the settings file has no other place for them. -/
theorem wifi_kept_iff (hroot : readRoot json files = some root)
    (hdepth : root.depth ≤ jsonNestingLimit)
    (hreads : json.Rereads (savedRoot ssid password root))
    (hio : ∀ text, (io text).opened = true ∧ text.strlen ≤ (io text).reached)
    (hssid : 1 ≤ ssid.strlen ∧ ssid.strlen ≤ 32)
    (hpassword : 8 ≤ password.strlen ∧ password.strlen ≤ 63) :
    WifiKept json files (saveWifi json io ssid password files) ssid password ↔
      WifiClear json root ssid password := by
  have hafter := readRoot_saveWifi hroot hdepth hreads hio
  have hread := (readWifi_iff hafter hssid hpassword).trans lookup_stored_iff
  have hothers := others_kept_iff hroot hafter
  constructor
  · intro h
    have hboot := h.read 64 64 (by decide) (by decide)
    exact ⟨(joins_iff hboot hssid.1 (by omega)).mp h.station, hread.mp h.read,
      hothers.mp h.others⟩
  · intro h
    have hreadback := hread.mpr h.single
    have hboot := hreadback 64 64 (by decide) (by decide)
    exact ⟨hreadback, (joins_iff hboot hssid.1 (by omega)).mpr h.fits,
      wifiConnect_eq hboot hssid.1 (by omega), hothers.mpr h.finite⟩

/-- A passphrase. -/
def passphrase : CStr := key "open sesame"

/-- A name of 31 bytes. -/
def ssid31 : CStr := key "the network at the end of a row"

/-- A name of 32 bytes. -/
def ssid32 : CStr := key "the network at the end of a hall"

/-- The values that are read here. -/
def wifiTable : List (Json Int) :=
  [defaultRoot, savedRoot ssid31 passphrase defaultRoot, savedRoot ssid32 passphrase defaultRoot]

theorem nodup_wifiTable : (wifiTable.map fun v => v.compact natText).Nodup := by
  decide +kernel

/-- The settings file of a new device. -/
def newFiles : Files := ⟨some defaultSettings.val, none⟩

theorem readRoot_newFiles : readRoot (tableJson wifiTable) newFiles = some defaultRoot :=
  parse_tableJson nodup_wifiTable List.mem_cons_self (by decide)

theorem reads_savedRoot {ssid : CStr}
    (hmem : savedRoot ssid passphrase defaultRoot ∈ wifiTable)
    (htext : (CStr.ofBytes ((savedRoot ssid passphrase defaultRoot).compact natText)).val =
      (savedRoot ssid passphrase defaultRoot).compact natText) :
    (tableJson wifiTable).Rereads (savedRoot ssid passphrase defaultRoot) :=
  rereads_tableJson nodup_wifiTable hmem htext (depth_savedRoot ssid passphrase (by decide))

theorem wholeWrite_reached (text : CStr) :
    (wholeWrite text).opened = true ∧ text.strlen ≤ (wholeWrite text).reached :=
  ⟨rfl, Nat.le_refl _⟩

/-- A name of 31 bytes is kept. -/
theorem wifi_kept_ssid31 :
    WifiKept (tableJson wifiTable) newFiles
      (saveWifi (tableJson wifiTable) wholeWrite ssid31 passphrase newFiles) ssid31 passphrase := by
  refine (wifi_kept_iff readRoot_newFiles (by decide) ?_ wholeWrite_reached (by decide)
    (by decide)).mpr ⟨by decide, ⟨_, rfl, ?_, ?_⟩, fun _ _ v _ => sanitize_tableJson wifiTable v⟩
  · exact reads_savedRoot (List.mem_cons_of_mem _ List.mem_cons_self) (by decide +kernel)
  · exact fun v hv => absurd (show none = some v from hv) (by simp)
  · exact fun v hv => absurd (show none = some v from hv) (by simp)

/-- A name of 32 bytes is cut for the station, and the files are as they should be. -/
theorem not_wifi_kept :
    ¬ ∀ (json : JsonLib Int) (io : CStr → WriteIO) (files : Files) (root : Json Int)
      (ssid password : CStr), readRoot json files = some root → root.depth ≤ jsonNestingLimit →
      json.Rereads (savedRoot ssid password root) →
      (∀ text, (io text).opened = true ∧ text.strlen ≤ (io text).reached) →
      1 ≤ ssid.strlen ∧ ssid.strlen ≤ 32 → 8 ≤ password.strlen ∧ password.strlen ≤ 63 →
      WifiKept json files (saveWifi json io ssid password files) ssid password := by
  intro h
  have hreads : (tableJson wifiTable).Rereads (savedRoot ssid32 passphrase defaultRoot) :=
    reads_savedRoot (List.mem_cons_of_mem _ (List.mem_cons_of_mem _ List.mem_cons_self))
      (by decide +kernel)
  have hkept := h (tableJson wifiTable) wholeWrite newFiles defaultRoot ssid32 passphrase
    readRoot_newFiles (by decide) hreads wholeWrite_reached (by decide) (by decide)
  have hboot := hkept.read 64 64 (by decide) (by decide)
  exact absurd ((joins_iff hboot (by decide) (by decide)).mp hkept.station) (by decide)

end Settings
end JppDos
