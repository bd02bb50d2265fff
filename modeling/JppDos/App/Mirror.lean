import JppDos.App.HostValidator
import Mathlib.Data.List.Nodup

/-!
# The two validators

What the firmware makes of a manifest against what the host says of it.  A manifest is read
alike where the names are spelled as the firmware compares them, its numbers are integers
of their types and its texts fit their buffers; the rest is a matter of the types and the
number of the values.

Main fact:
* `mirrors_iff`: when the two accept and reject a package alike.
-/

namespace JppDos
namespace App

open CText Sdk Words

/-- A result of the firmware as the host would put it. -/
def verdict (r : ManifestResult) : Host.Check := if r = .ok then .ok () else Host.reject r

/-- A check with one reason. -/
def require (b : Bool) (r : ManifestResult) : ManifestResult := if b then .ok else r

@[simp] theorem verdict_ok : verdict .ok = .ok () := rfl

theorem verdict_of_ne {r : ManifestResult} (h : r ≠ .ok) : verdict r = .error (.reason r) :=
  if_neg h

theorem verdict_eq_ok {r : ManifestResult} : verdict r = .ok () ↔ r = .ok := by
  constructor
  · intro h
    by_contra hne
    rw [verdict_of_ne hne] at h
    cases h
  · rintro rfl
    rfl

/-- A check of the host beside the one of the firmware.  The host is at least as strict; the
two end alike exactly on a condition; and where the firmware lets the manifest pass, the host
fails for one of these reasons. -/
structure Stage (p : Host.Check) (r : ManifestResult) (alike : Prop)
    (failures : List Host.Failure) : Prop where
  strict : p = .ok () → r = .ok
  alike_iff : p = verdict r ↔ alike
  fails : r = .ok → ∀ e, p = .error e → e ∈ failures

section Stages

variable {p rest : Host.Check} {r later : ManifestResult} {alike alike' : Prop}
  {failures : List Host.Failure}

theorem Stage.same (h : p = verdict r) (halike : alike) : Stage p r alike failures where
  strict hp := verdict_eq_ok.mp (h.symm.trans hp)
  alike_iff := iff_of_true h halike
  fails hr e he := by
    rw [h, hr] at he
    cases he

/-- The host fails where the firmware lets the manifest pass. -/
theorem Stage.looser {e : Host.Failure} (hp : p = .error e) (hr : r = .ok) (halike : ¬ alike)
    (he : e ∈ failures) : Stage p r alike failures where
  strict hok := hr
  alike_iff := by
    refine iff_of_false ?_ halike
    rw [hp, hr]
    exact fun h => by cases h
  fails _ e' he' := by
    rw [hp] at he'
    obtain rfl := Except.error.inj he'
    exact he

theorem Stage.different {e : Host.Failure} (hp : p = .error e) (hr : r ≠ .ok)
    (hne : e ≠ .reason r) (halike : ¬ alike) : Stage p r alike failures where
  strict hok := by
    rw [hp] at hok
    cases hok
  alike_iff := by
    refine iff_of_false ?_ halike
    rw [hp, verdict_of_ne hr]
    exact fun h => hne (Except.error.inj h)
  fails hok := absurd hok hr

/-- The host rejects; the firmware does so for the same reason or not at all. -/
theorem Stage.rejects {x : ManifestResult} (hp : p = Host.reject x) (hx : x ≠ .ok)
    (hr : r = .ok ∨ r = x) (halike : alike ↔ r ≠ .ok) (hmem : .reason x ∈ failures) :
    Stage p r alike failures := by
  rcases hr with hok | hsame
  · exact Stage.looser hp hok (fun h => halike.mp h hok) hmem
  · refine Stage.same ?_ (halike.mpr (hsame ▸ hx))
    rw [hp, hsame, verdict_of_ne hx, Host.reject]

theorem Stage.congr (h : Stage p r alike failures) (halike : alike ↔ alike') :
    Stage p r alike' failures :=
  ⟨h.strict, h.alike_iff.trans halike, h.fails⟩

theorem orElse_eq_ok_iff : r.orElse later = .ok ↔ r = .ok ∧ later = .ok := by
  constructor
  · exact orElse_eq_ok
  · rintro ⟨rfl, hlater⟩
    exact hlater

/-- Two sequences of checks, one check at a time: no later check of the firmware has a reason
for which the host fails in the first one. -/
theorem Stage.seq {failures' : List Host.Failure} (h : Stage p r alike failures)
    (hlater : ∀ e ∈ failures, verdict later ≠ .error e)
    (hrest : alike → r = .ok → Stage rest later alike' failures') :
    Stage (p >>= fun _ => rest) (r.orElse later) (alike ∧ (r = .ok → alike'))
      (failures ++ failures') := by
  cases hp : p with
  | ok u =>
      have hr := h.strict hp
      have halike := h.alike_iff.mp (by rw [hp, hr]; rfl)
      have hnext := hrest halike hr
      refine ⟨fun hok => ?_, ?_, fun hok e he => ?_⟩
      · exact orElse_eq_ok_iff.mpr ⟨hr, hnext.strict hok⟩
      · rw [hr]
        exact hnext.alike_iff.trans ⟨fun h' => ⟨halike, fun _ => h'⟩, fun h' => h'.2 rfl⟩
      · exact List.mem_append_right _ (hnext.fails (orElse_eq_ok_iff.mp hok).2 e he)
  | error e =>
      refine ⟨fun hok => (by cases hok), ?_, fun hok e' he' => ?_⟩
      · rw [← h.alike_iff, hp]
        by_cases hr : r = .ok
        · have hne := hlater e (h.fails hr e hp)
          simp only [hr, ManifestResult.orElse, if_true, bind, Except.bind, verdict_ok,
            reduceCtorEq, false_and, iff_false]
          exact fun heq => hne heq.symm
        · simp only [ManifestResult.orElse, hr, if_false, bind, Except.bind, false_imp_iff,
            and_true]
      · obtain rfl : e = e' := Except.error.inj he'
        exact List.mem_append_left _ (h.fails (orElse_eq_ok_iff.mp hok).1 e hp)

/-- A result of later checks is not among the reasons of an earlier one. -/
theorem verdict_not_mem {results : List ManifestResult} (h : r ∈ results)
    (hdisjoint : ∀ x ∈ results, Host.Failure.reason x ∉ failures) :
    ∀ e ∈ failures, verdict r ≠ .error e := by
  intro e he heq
  by_cases hr : r = .ok
  · rw [hr] at heq
    cases heq
  · rw [verdict_of_ne hr] at heq
    obtain rfl := Except.error.inj heq
    exact hdisjoint r h he

theorem orElse_mem {results results' : List ManifestResult} (h : r ∈ results)
    (hlater : later ∈ results') : r.orElse later ∈ results ++ results' := by
  rw [ManifestResult.orElse, List.mem_append]
  split_ifs
  · exact Or.inr hlater
  · exact Or.inl h

theorem require_mem (b : Bool) (x : ManifestResult) : require b x ∈ [.ok, x] := by
  cases b <;> simp [require]

end Stages

theorem require_eq_ok {r : ManifestResult} (hr : r ≠ .ok) {b : Bool} :
    require b r = .ok ↔ b = true := by
  cases b <;> simp [require, hr]

theorem require_orElse {r : ManifestResult} (hr : r ≠ .ok) (b : Bool) (later : ManifestResult) :
    (require b r).orElse later = if b then later else r := by
  cases b <;> simp [require, ManifestResult.orElse, hr]

/-- The texts that no manifest goes without. -/
def namesGiven (m : Manifest) : Bool :=
  nonempty m.appId && nonempty m.name && nonempty m.version && nonempty m.entry

/-- The check of `sdk_min`. -/
def validateSdkMin (m : Manifest) : ManifestResult :=
  if m.sdkMin < 1 then .invalidManifest
  else if sdkVersion < m.sdkMin then .sdkTooOld
  else .ok

/-- `jpp_manifest_v2_validate` as a sequence of checks. -/
theorem manifestValidate_eq (m : Manifest) :
    manifestValidate m =
      (require (m.schemaVersion = manifestSchemaVersion) .schemaMismatch).orElse
        ((require (namesGiven m) .invalidManifest).orElse
          ((require (!isReservedAppId m.appId) .reservedAppId).orElse
            ((validateSdkMin m).orElse
              ((require (isValidEntryPath m.entry) .invalidEntry).orElse
                ((validateAppTypeEntry m).orElse
                  ((validateCapabilities m).orElse
                    ((validateBackground m).orElse (validateToolchain m)))))))) := by
  have hsdk : ∀ later, (validateSdkMin m).orElse later =
      if m.sdkMin < 1 then .invalidManifest
      else if sdkVersion < m.sdkMin then .sdkTooOld else later := by
    intro later
    unfold validateSdkMin
    split_ifs <;> simp [ManifestResult.orElse]
  have hnames : (!nonempty m.appId || !nonempty m.name || !nonempty m.version ||
      !nonempty m.entry) = !namesGiven m := by
    simp only [namesGiven, Bool.not_and]
  rw [require_orElse (by decide), require_orElse (by decide), require_orElse (by decide), hsdk,
    require_orElse (by decide)]
  unfold manifestValidate
  simp only [hnames, Bool.not_eq_true', decide_eq_true_eq, ne_eq, ite_not]
  cases namesGiven m <;> cases isReservedAppId m.appId <;> cases isValidEntryPath m.entry <;> rfl

section Readable

variable {ν : Type}

/-- Both lookups find the same under these names: the firmware takes the first one, upper and
lower case alike, and the host the last one. -/
def KeysAlike (v : Value ν) (keys : List CStr) : Prop :=
  ∀ key ∈ keys, v.getItem key = Host.get v key

/-- A number under this name is an integer of its type. -/
def Integer (v : Value ν) (key : CStr) (low high : Int) : Prop :=
  ∀ n, numberAt v key = some n → ∃ i : Int, n = .int i ∧ low ≤ i ∧ i < high

/-- The names that are looked up in a manifest. -/
def manifestKeys : List CStr :=
  [lit "schema_version", lit "name", lit "version", lit "entry", lit "sdk_min", lit "app_type",
    lit "capabilities", lit "background", lit "toolchain"]

/-- The names that are looked up in a task. -/
def taskKeys : List CStr := [lit "name", lit "interval_s", lit "cron"]

/-- The names that are looked up in `background`. -/
def backgroundKeys : List CStr := [lit "enabled", lit "tasks"]

/-- The names that are looked up in `toolchain`. -/
def toolchainKeys : List CStr := [lit "runtime_version", lit "cross_version", lit "bytecode_abi"]

/-- A task whose texts fit their buffers and whose cron expression is in ASCII, with no number
that an `int` does not hold. -/
structure ReadableTask (task : Value ν) : Prop where
  keys : KeysAlike task taskKeys
  name : ∀ s, textAt task (lit "name") = some s → s.strlen < 32
  interval : Integer task (lit "interval_s") 0 (2 ^ 32)
  cron : ∀ s, textAt task (lit "cron") = some s →
    s.strlen < 24 ∧ (∀ c ∈ s.val, c < 128) ∧
      ∀ field ∈ words 32 s.val, decimalPrefix 0 field < 2 ^ 31

/-- A manifest whose names, numbers and texts are the same for both. -/
structure Readable (dir : CStr) (root : Value ν) : Prop where
  keys : KeysAlike root manifestKeys
  schemaVersion : Integer root (lit "schema_version") (-2 ^ 31) (2 ^ 31)
  sdkMin : Integer root (lit "sdk_min") (-2 ^ 31) (2 ^ 31)
  entry : ∀ s, textAt root (lit "entry") = some s →
    s.strlen < 160 ∧ (Host.entryPath dir s).length < 256
  background : ∀ bg, root.getItem (lit "background") = some bg →
    KeysAlike bg backgroundKeys ∧ ∀ task ∈ tasksAt bg, ReadableTask task
  toolchain : ∀ tc, root.getItem (lit "toolchain") = some tc →
    KeysAlike tc toolchainKeys ∧ Integer tc (lit "bytecode_abi") (-2 ^ 31) (2 ^ 31)

/-- Where no two names of an object differ in upper and lower case only, and none is another
spelling of these, they are looked up alike. -/
theorem keysAlike_of_names {members : List (CStr × Value ν)} {keys : List CStr}
    (hnodup : (members.map fun m => m.1.fold).Nodup)
    (hspelled : ∀ m ∈ members, ∀ key ∈ keys, m.1.fold = key.fold → m.1 = key) :
    KeysAlike (.object members) keys := by
  intro key hkey
  rw [Json.getItem, Host.get]
  congr 1
  cases hfirst : members.find? (fun m => m.1.fold = key.fold) with
  | none =>
      symm
      rw [List.find?_eq_none] at hfirst ⊢
      intro m hm
      have hfold : m.1.fold ≠ key.fold := by simpa using hfirst m (List.mem_reverse.mp hm)
      have hne : m.1 ≠ key := fun heq => hfold (congrArg CStr.fold heq)
      simpa using hne
  | some m =>
      have hm := List.mem_of_find?_eq_some hfirst
      have hfold : m.1.fold = key.fold := by simpa using List.find?_some hfirst
      have hname := hspelled m hm key hkey hfold
      cases hlast : members.reverse.find? (fun m => m.1 = key) with
      | none =>
          rw [List.find?_eq_none] at hlast
          exact absurd hname (by simpa using hlast m (List.mem_reverse.mpr hm))
      | some m' =>
          have hm' := List.mem_reverse.mp (List.mem_of_find?_eq_some hlast)
          have hname' : m'.1 = key := by simpa using List.find?_some hlast
          have hsame : m'.1.fold = m.1.fold := by rw [hname', hfold]
          rw [List.inj_on_of_nodup_map hnodup hm' hm hsame]

theorem KeysAlike.stringAt {v : Value ν} {keys : List CStr} (h : KeysAlike v keys) {k : CStr}
    (hkey : k ∈ keys) : Host.stringAt v k = textAt v k := by
  rw [Host.stringAt, textAt, h k hkey]

theorem Integer.toInt {d : Doubles ν} (hd : d.Holds) {v : Value ν} {key : CStr}
    (h : Integer v key (-2 ^ 31) (2 ^ 31)) {n : JsonNum ν} (hn : numberAt v key = some n) :
    ∃ i, n = .int i ∧ d.toInt (n.valuedouble d) = i := by
  obtain ⟨i, rfl, hlow, hhigh⟩ := h n hn
  exact ⟨i, rfl, hd.toInt_ofInt i hlow hhigh⟩

end Readable

theorem native_ne_micropython : lit "native" ≠ lit "micropython" := by decide

theorem strlen_reservedAppIds : ∀ id ∈ reservedAppIds, id.strlen < 63 := by decide

theorem strlen_caps : ∀ cap ∈ tier1Caps ++ tier2Caps, CStr.strlen cap < 31 := by decide

section Checks

variable {ν : Type} {d : Doubles ν} {dir : CStr} {root : Value ν}

/-- `schema_version`, if there is one, is a number. -/
def SchemaVersionAlike (root : Value ν) : Prop :=
  ∀ v, root.getItem (lit "schema_version") = some v → v.number?.isSome = true

/-- The host rejects what is no number, and the firmware puts its own version in its place. -/
theorem stage_schemaVersion [DecidableEq ν] (hd : d.Holds) (hread : Readable dir root) :
    Stage (Host.checkSchemaVersion d root)
      (require ((manifestOf d dir root).schemaVersion = manifestSchemaVersion) .schemaMismatch)
      (SchemaVersionAlike root) [.reason .schemaMismatch] := by
  have hkey := hread.keys (lit "schema_version") (by simp [manifestKeys])
  have hint := fun n => hread.schemaVersion.toInt hd (n := n)
  have hvalue : (manifestOf d dir root).schemaVersion =
      ((numberAt root (lit "schema_version")).map fun n => d.toInt (n.valuedouble d)).getD 2 := rfl
  rw [hvalue]
  unfold Host.checkSchemaVersion SchemaVersionAlike
  unfold numberAt at hint ⊢
  rw [← hkey]
  cases hv : root.getItem (lit "schema_version") with
  | none => exact Stage.same rfl (by simp)
  | some v =>
      cases v with
      | number n =>
          rw [hv] at hint
          obtain ⟨i, rfl, hi⟩ := hint n rfl
          refine Stage.same ?_ (by simp [Json.number?])
          simp only [Option.bind_some, Json.number?, Option.map_some, Option.getD_some, hi]
          by_cases htwo : i = 2
          · subst htwo
            rfl
          · simp [Host.schemaVersion, manifestSchemaVersion, require, htwo, verdict]
      | null | bool b | string s | array items | object members =>
          exact Stage.looser rfl rfl (by simp [Json.number?]) (by simp)

theorem nonempty_strncpy (s : CStr) {bufLen : Nat} (h : 1 < bufLen) :
    nonempty (s.strncpy bufLen) = nonempty s := by
  obtain ⟨n, rfl⟩ : ∃ n, bufLen = n + 2 := ⟨bufLen - 2, by omega⟩
  obtain ⟨bytes, hzero⟩ := s
  cases bytes with
  | nil => rfl
  | cons c rest => rfl

theorem nonempty_copied (value : Option CStr) {bufLen : Nat} (h : 1 < bufLen) :
    nonempty (copied value bufLen) = value.any nonempty := by
  rw [copied, nonempty_strncpy _ h]
  cases value with
  | none => rfl
  | some s => rfl

/-- The texts that no manifest goes without are judged alike. -/
theorem checkNames_eq (hdir : nonempty dir = true) (hread : Readable dir root) :
    Host.checkNames root =
      verdict (require (namesGiven (manifestOf d dir root)) .invalidManifest) := by
  have happ : nonempty (manifestOf d dir root).appId = true :=
    (nonempty_strncpy dir (by decide)).trans hdir
  have hname : nonempty (manifestOf d dir root).name = Host.nonemptyStr root (lit "name") := by
    rw [Host.nonemptyStr, hread.keys.stringAt (by simp [manifestKeys])]
    exact nonempty_copied _ (by decide)
  have hversion : nonempty (manifestOf d dir root).version =
      Host.nonemptyStr root (lit "version") := by
    rw [Host.nonemptyStr, hread.keys.stringAt (by simp [manifestKeys])]
    exact nonempty_copied _ (by decide)
  have hentry : nonempty (manifestOf d dir root).entry = Host.nonemptyStr root (lit "entry") := by
    rw [Host.nonemptyStr, hread.keys.stringAt (by simp [manifestKeys])]
    exact nonempty_copied _ (by decide)
  rw [namesGiven, happ, hname, hversion, hentry, Bool.true_and, Host.checkNames]
  split_ifs with hgiven
  · rw [hgiven]
    rfl
  · rw [Bool.not_eq_true] at hgiven
    rw [hgiven]
    rfl

/-- The reserved names are judged alike: they are shorter than the buffer. -/
theorem checkReserved_eq (dir : CStr) (root : Value ν) :
    Host.checkReserved dir =
      verdict (require (!isReservedAppId (manifestOf d dir root).appId) .reservedAppId) := by
  have happ : (manifestOf d dir root).appId = dir.strncpy 64 := rfl
  have hshort := strlen_reservedAppIds
  have hmem : dir.strncpy 64 ∈ reservedAppIds ↔ dir ∈ reservedAppIds := by
    by_cases hlen : dir.strlen < 64
    · rw [CStr.strncpy_of_lt hlen]
    · have hcut : (dir.strncpy 64).strlen = 63 := by
        simp only [CStr.strlen, CStr.strncpy, List.length_take] at hlen ⊢
        omega
      constructor
      · exact fun hmem => absurd (hshort _ hmem) (by omega)
      · exact fun hmem => absurd (hshort _ hmem) (by omega)
  rw [happ, isReservedAppId, Host.checkReserved, Host.reservedAppIds_eq]
  by_cases hreserved : dir ∈ reservedAppIds
  · simp [hreserved, hmem, require, verdict]
  · simp [hreserved, hmem, require]

/-- `sdk_min`, if there is one, is a number or true. -/
def SdkMinAlike (root : Value ν) : Prop :=
  ∀ v, root.getItem (lit "sdk_min") = some v → v.number?.isSome = true ∨ v.isTrue = true

/-- The host rejects what is no number but for `true`, and the firmware takes all of it for a
one. -/
theorem stage_sdkMin (hd : d.Holds) (hread : Readable dir root) :
    Stage (Host.checkSdkMin root) (validateSdkMin (manifestOf d dir root)) (SdkMinAlike root)
      [.reason .invalidManifest] := by
  have hkey := hread.keys (lit "sdk_min") (by simp [manifestKeys])
  have hint := fun n => hread.sdkMin.toInt hd (n := n)
  have hvalue : (manifestOf d dir root).sdkMin =
      ((numberAt root (lit "sdk_min")).map fun n => d.toInt (n.valuedouble d)).getD 1 := rfl
  unfold Host.checkSdkMin SdkMinAlike validateSdkMin
  rw [hvalue]
  unfold numberAt at hint ⊢
  rw [← hkey]
  cases hv : root.getItem (lit "sdk_min") with
  | none => exact Stage.same rfl (by simp)
  | some v =>
      cases v with
      | number n =>
          rw [hv] at hint
          obtain ⟨i, rfl, hi⟩ := hint n rfl
          refine Stage.same ?_ (by simp [Json.number?])
          simp only [Option.bind_some, Json.number?, Option.map_some, Option.getD_some, hi,
            Host.intOf, Host.sdkVersion, sdkVersion]
          by_cases hlow : i < 1
          · simp only [hlow, if_true]
            rfl
          · by_cases hhigh : 3 < i
            · simp only [hlow, hhigh, if_true, if_false]
              rfl
            · simp only [hlow, hhigh, if_false]
              rfl
      | bool b =>
          cases b with
          | true => exact Stage.same rfl (by simp [Json.isTrue])
          | false => exact Stage.looser rfl rfl (by simp [Json.number?, Json.isTrue]) (by simp)
      | null | string s | array items | object members =>
          exact Stage.looser rfl rfl (by simp [Json.number?, Json.isTrue]) (by simp)

theorem entry_eq (hread : Readable dir root) :
    (manifestOf d dir root).entry = Host.entryOf root := by
  have hentry : (manifestOf d dir root).entry = copied (textAt root (lit "entry")) 160 := rfl
  rw [hentry, Host.entryOf, hread.keys.stringAt (by simp [manifestKeys]), copied]
  cases htext : textAt root (lit "entry") with
  | none => rfl
  | some s => exact CStr.strncpy_of_lt (hread.entry s htext).1

theorem checkEntry_eq (hread : Readable dir root)
    (hnames : namesGiven (manifestOf d dir root) = true) :
    Host.checkEntry root =
      verdict (require (isValidEntryPath (manifestOf d dir root).entry) .invalidEntry) := by
  have hgiven : nonempty (manifestOf d dir root).entry = true := by
    rw [namesGiven, Bool.and_eq_true] at hnames
    exact hnames.2
  rw [isValidEntryPath, hgiven, Bool.true_and, entry_eq hread, Host.checkEntry]
  simp only [← strHasParentSegment_eq_true]
  by_cases hslash : (Host.entryOf root).val.head? = some 47
  · simp [hslash, require, verdict]
  · cases hparent : strHasParentSegment (Host.entryOf root) with
    | true => simp [hslash, require, verdict]
    | false => simp [hslash, require]

/-- `app_type`, if there is one, names a type, or the firmware, which takes any other value for
`micropython`, rejects the suffix. -/
def AppTypeAlike (root : Value ν) (m : Manifest) : Prop :=
  ∀ v, root.getItem (lit "app_type") = some v →
    v.string? = some (lit "micropython") ∨ v.string? = some (lit "native") ∨
      hasSuffix m.entry (lit ".mpy") = false

theorem stage_appType (hread : Readable dir root) :
    Stage (Host.checkAppType root) (validateAppTypeEntry (manifestOf d dir root))
      (AppTypeAlike root (manifestOf d dir root)) [.reason .invalidAppType] := by
  have hkey := hread.keys (lit "app_type") (by simp [manifestKeys])
  have hvalue : (manifestOf d dir root).appType =
      if textAt root (lit "app_type") = some (lit "native") then .native else .micropython := rfl
  have hentry := entry_eq (d := d) hread
  unfold AppTypeAlike Host.checkAppType validateAppTypeEntry
  rw [hvalue, hentry, Host.appTypeOf, textAt, ← hkey]
  cases hv : root.getItem (lit "app_type") with
  | none =>
      refine Stage.same ?_ (by simp)
      simp only [Option.bind_none, reduceCtorEq, if_false, if_true]
      split_ifs <;> rfl
  | some v =>
      simp only [Option.bind_some]
      by_cases hnative : v.string? = some (lit "native")
      · refine Stage.same ?_ (by simp [hnative])
        simp only [hnative, Option.some.injEq, native_ne_micropython, if_false, if_true]
        split_ifs <;> rfl
      · by_cases hmicro : v.string? = some (lit "micropython")
        · refine Stage.same ?_ (by simp [hmicro])
          simp only [hmicro, Option.some.injEq, native_ne_micropython.symm, if_false, if_true]
          split_ifs <;> rfl
        · simp only [hnative, hmicro, if_false]
          by_cases hsuffix : hasSuffix (Host.entryOf root) (lit ".mpy") = true
          · exact Stage.looser rfl (if_pos hsuffix) (by simp [hnative, hmicro, hsuffix]) (by simp)
          · refine Stage.same ?_ (by simp [Bool.eq_false_iff.mpr hsuffix])
            rw [if_neg hsuffix]
            rfl

/-- A string that names a capability. -/
def allowedString (v : Value ν) : Bool := v.string?.any isAllowedCapability

/-- Every capability is a string that names one; or the first other one is no array and no
object, and the firmware rejects one of the strings. -/
def CapabilitiesAlike (root : Value ν) (m : Manifest) : Prop :=
  ∀ v, root.getItem (lit "capabilities") = some v →
    ∃ items, v = .array items ∧ ∀ item, items.find? (fun i => !allowedString i) = some item →
      Host.hashable item = true ∧ validateCapabilities m ≠ .ok

/-- A capability is judged alike where it is cut off: all of them are short. -/
theorem isAllowedCapability_strncpy (s : CStr) :
    isAllowedCapability (s.strncpy 32) = isAllowedCapability s := by
  by_cases hlen : s.strlen < 32
  · rw [CStr.strncpy_of_lt hlen]
  · have hshort := strlen_caps
    have hcut : (s.strncpy 32).strlen = 31 := by
      simp only [CStr.strlen, CStr.strncpy, List.length_take] at hlen ⊢
      omega
    have hlong : ∀ cap : CStr, 31 ≤ cap.strlen → isAllowedCapability cap = false := by
      intro cap hcap
      rw [isAllowedCapability, decide_eq_false_iff_not]
      intro hmem
      exact absurd (hshort cap hmem) (by omega)
    rw [hlong _ (by omega), hlong s (by omega)]

/-- The host's loop ends at the first value that names no capability. -/
theorem checkEach_of_none {items : List (Value ν)} (h : ∀ i ∈ items, allowedString i = true) :
    Host.checkEach items = .ok () := by
  induction items with
  | nil => rfl
  | cons item items ih =>
      have hitem := h item List.mem_cons_self
      have hrest := ih fun i hi => h i (List.mem_cons_of_mem _ hi)
      rw [Host.checkEach]
      cases item with
      | string s =>
          have hs : isAllowedCapability s = true := hitem
          simpa [Host.checkCapability, Host.allowedCapabilities_eq, hs, bind, Except.bind]
            using hrest
      | null | bool b | number n | array l | object l => cases hitem

theorem checkEach_of_some {items : List (Value ν)} {item : Value ν}
    (h : items.find? (fun i => !allowedString i) = some item) :
    Host.checkEach items = .error
      (if Host.hashable item then .reason .invalidCapability else .raised) := by
  induction items with
  | nil => cases h
  | cons first items ih =>
      rw [Host.checkEach]
      cases hfirst : allowedString first with
      | true =>
          rw [List.find?_cons_of_neg (by simp [hfirst])] at h
          have hok : Host.checkEach [first] = .ok () := checkEach_of_none (by simpa using hfirst)
          rw [Host.checkEach] at hok
          cases hcap : Host.checkCapability first with
          | ok u => exact ih h
          | error e =>
              rw [hcap] at hok
              cases hok
      | false =>
          rw [List.find?_cons_of_pos (by simp [hfirst])] at h
          obtain rfl := Option.some.inj h
          cases first with
          | string s =>
              have hs : isAllowedCapability s = false := hfirst
              simp [Host.checkCapability, Host.allowedCapabilities_eq, hs, bind, Except.bind,
                Host.reject, Host.hashable]
          | null | bool b | number n | array l | object l => rfl

theorem validateCapabilities_cases (m : Manifest) :
    validateCapabilities m = .ok ∨ validateCapabilities m = .invalidCapability := by
  unfold validateCapabilities
  split_ifs <;> simp

/-- The host's verdict on an array, of which the firmware judges the first strings. -/
theorem stage_each {items : List (Value ν)} {m : Manifest}
    (hcaps : m.capabilities =
      (((items.map Json.string?).filterMap id).take sdManifestCapMax).map (CStr.strncpy · 32)) :
    Stage (Host.checkEach items) (validateCapabilities m)
      (∀ item, items.find? (fun i => !allowedString i) = some item →
        Host.hashable item = true ∧ validateCapabilities m ≠ .ok)
      [.reason .invalidManifest, .reason .invalidCapability, .raised] := by
  cases hfind : items.find? (fun i => !allowedString i) with
  | none =>
      have hall : ∀ i ∈ items, allowedString i = true := by simpa using hfind
      have hok : validateCapabilities m = .ok := by
        rw [validateCapabilities, if_pos]
        rw [List.all_eq_true, hcaps]
        intro cap hcap
        obtain ⟨s, hs, rfl⟩ := List.mem_map.mp hcap
        obtain ⟨text, htext, hid⟩ := List.mem_filterMap.mp (List.mem_of_mem_take hs)
        obtain ⟨item, hitem, rfl⟩ := List.mem_map.mp htext
        have hallowed := hall item hitem
        rw [allowedString, show item.string? = some s from hid] at hallowed
        exact (isAllowedCapability_strncpy s).trans hallowed
      refine Stage.same ?_ (by simp)
      rw [checkEach_of_none hall, hok]
      rfl
  | some item =>
      have hhost := checkEach_of_some hfind
      rcases validateCapabilities_cases m with hok | hbad
      · refine Stage.looser hhost hok (fun h => (h item rfl).2 hok) ?_
        split_ifs <;> simp
      · cases hhash : Host.hashable item with
        | true =>
            refine Stage.same ?_ (fun i hi => ?_)
            · rw [hhost, hhash, hbad]
              rfl
            · obtain rfl := Option.some.inj hi
              exact ⟨hhash, by simp [hbad]⟩
        | false =>
            rw [hhash] at hhost
            refine Stage.different hhost (by simp [hbad]) (by simp) (fun h => ?_)
            exact absurd (hhash.symm.trans (h item rfl).1) (by simp)

/-- Where there is no array, the firmware sees no capabilities. -/
theorem stage_capabilities (hread : Readable dir root) :
    Stage (Host.checkCapabilities root) (validateCapabilities (manifestOf d dir root))
      (CapabilitiesAlike root (manifestOf d dir root))
      [.reason .invalidManifest, .reason .invalidCapability, .raised] := by
  have hkey := hread.keys (lit "capabilities") (by simp [manifestKeys])
  have hvalue : (manifestOf d dir root).capabilities =
      (((capabilitiesAt root).filterMap id).take sdManifestCapMax).map (CStr.strncpy · 32) := rfl
  unfold CapabilitiesAlike Host.checkCapabilities
  rw [← hkey]
  cases hv : root.getItem (lit "capabilities") with
  | none =>
      have hnone : capabilitiesAt root = [] := by rw [capabilitiesAt, hv]
      refine Stage.same ?_ (by simp)
      rw [validateCapabilities, hvalue, hnone]
      rfl
  | some v =>
      cases v with
      | array items =>
          have hitems : capabilitiesAt root = items.map Json.string? := by rw [capabilitiesAt, hv]
          rw [hitems] at hvalue
          refine (stage_each hvalue).congr ⟨fun h v hsome => ?_, fun h => ?_⟩
          · cases hsome
            exact ⟨items, rfl, h⟩
          · obtain ⟨l, hl, hitem⟩ := h _ rfl
            cases hl
            exact hitem
      | null | bool b | number n | string s | object members =>
          have hnone : capabilitiesAt root = [] := by rw [capabilitiesAt, hv]
          have hok : validateCapabilities (manifestOf d dir root) = .ok := by
            rw [validateCapabilities, hvalue, hnone]
            rfl
          refine Stage.looser rfl hok (fun h => ?_) (by simp)
          obtain ⟨items, hitems, _⟩ := h _ rfl
          cases hitems

/-- A task with a string for its name, and with an interval that is not true. -/
def typedTask (task : Value ν) : Bool :=
  task.isObject && (textAt task (lit "name")).isSome &&
    !(task.getItem (lit "interval_s")).any Json.isTrue

/-- The schedule of a task that is read alike: its interval, and its cron expression. -/
theorem validateTask_schedule (hd : d.Holds) {task : Value ν} (hread : ReadableTask task)
    (foreign : List UInt8 → Option (Option Nat)) (htrue :
      (task.getItem (lit "interval_s")).any Json.isTrue = false) :
    ∃ (interval : Nat) (cron : CStr), (readTask d task).intervalS.getD 0 = interval ∧
      copied (readTask d task).cron 24 = cron ∧
      ((Host.get task (lit "interval_s")).bind Host.intOf).any (0 < ·) = decide (0 < interval) ∧
      (0 < interval → ((Host.get task (lit "interval_s")).bind Host.intOf).any
        (· < Host.bgIntervalMinS) = decide (interval < bgIntervalMinS)) ∧
      Host.nonemptyStr task (lit "cron") = nonempty cron ∧
      (nonempty cron = true → Host.cronValid foreign
        ((Host.stringAt task (lit "cron")).getD (lit "")) = .ok (isValidCron cron)) := by
  have hstring : Host.stringAt task (lit "cron") = textAt task (lit "cron") :=
    hread.keys.stringAt (by simp [taskKeys])
  have hcron : ∃ cron : CStr, copied (readTask d task).cron 24 = cron ∧
      Host.nonemptyStr task (lit "cron") = nonempty cron ∧
      (nonempty cron = true → Host.cronValid foreign
        ((Host.stringAt task (lit "cron")).getD (lit "")) = .ok (isValidCron cron)) := by
    rw [Host.nonemptyStr, hstring]
    change ∃ cron : CStr, copied (textAt task (lit "cron")) 24 = cron ∧ _
    cases htext : textAt task (lit "cron") with
    | none => exact ⟨lit "", rfl, rfl, fun h => absurd h (by decide)⟩
    | some s =>
        obtain ⟨hlen, hascii, hsmall⟩ := hread.cron s htext
        refine ⟨s, CStr.strncpy_of_lt hlen, rfl, fun _ => ?_⟩
        have hshort : s.strlen ≤ Host.intMaxStrDigits := hlen.le.trans (by decide)
        exact Host.cronValid_eq foreign hascii hshort hsmall
  obtain ⟨cron, hcopy, hempty, hvalid⟩ := hcron
  have hint := hread.interval
  have hinterval : ∃ interval : Nat, (readTask d task).intervalS.getD 0 = interval ∧
      ((Host.get task (lit "interval_s")).bind Host.intOf).any (0 < ·) = decide (0 < interval) ∧
      (0 < interval → ((Host.get task (lit "interval_s")).bind Host.intOf).any
        (· < Host.bgIntervalMinS) = decide (interval < bgIntervalMinS)) := by
    rw [← hread.keys (lit "interval_s") (by simp [taskKeys])]
    change ∃ interval : Nat, ((numberAt task (lit "interval_s")).map
      fun n => d.toUnsigned (n.valuedouble d)).getD 0 = interval ∧ _
    unfold Integer at hint
    unfold numberAt at hint ⊢
    cases hv : task.getItem (lit "interval_s") with
    | none => exact ⟨0, rfl, rfl, fun h => absurd h (by decide)⟩
    | some v =>
        rw [hv] at hint htrue
        cases v with
        | number n =>
            obtain ⟨i, rfl, hlow, hhigh⟩ := hint n rfl
            obtain ⟨k, rfl⟩ := Int.eq_ofNat_of_zero_le hlow
            have hk : d.toUnsigned (d.ofInt k) = k := hd.toUnsigned_ofInt k (by omega)
            refine ⟨k, hk, ?_, fun _ => ?_⟩
            · simp [Host.intOf]
            · change decide ((k : Int) < 60) = decide (k < 60)
              rw [decide_eq_decide]
              omega
        | bool b =>
            cases b with
            | true => cases htrue
            | false => exact ⟨0, rfl, rfl, fun h => absurd h (by decide)⟩
        | null | string s | array items | object members =>
            exact ⟨0, rfl, rfl, fun h => absurd h (by decide)⟩
  obtain ⟨interval, hget, hpos, hmin⟩ := hinterval
  exact ⟨interval, cron, hget, hcopy, hpos, hmin, hempty, hvalid⟩

theorem validateTask_eq (hd : d.Holds) {task : Value ν} (hread : ReadableTask task)
    (foreign : List UInt8 → Option (Option Nat)) (htyped : typedTask task = true) :
    ∃ bgTask, loadTask (readTask d task) = some bgTask ∧
      Host.validateTask foreign task = verdict (require (validTask bgTask) .invalidBackground) := by
  rw [typedTask, Bool.and_eq_true, Bool.and_eq_true, Bool.not_eq_true'] at htyped
  obtain ⟨⟨hobject, hname⟩, htrue⟩ := htyped
  obtain ⟨name, hname⟩ := Option.isSome_iff_exists.mp hname
  obtain ⟨interval, cron, hget, hcopy, hpos, hmin, hempty, hvalid⟩ :=
    validateTask_schedule hd hread foreign htrue
  refine ⟨⟨name, interval, cron⟩, ?_, ?_⟩
  · have hload : loadTask (readTask d task) = some ⟨name.strncpy 32,
        (readTask d task).intervalS.getD 0, copied (readTask d task).cron 24⟩ := by
      rw [loadTask, show (readTask d task).name = some name from hname]
      rfl
    rw [hload, hget, hcopy, CStr.strncpy_of_lt (hread.name name hname)]
  · have hstring : Host.stringAt task (lit "name") = textAt task (lit "name") :=
      hread.keys.stringAt (by simp [taskKeys])
    simp only [Host.validateTask, validTask, hstring, hname, hobject, hpos, hempty,
      Option.any_some, Host.nameValid_eq]
    cases hvalidName : strNameValid name with
    | false => rfl
    | true =>
        by_cases hzero : 0 < interval
        · have hle : decide (bgIntervalMinS ≤ interval) = !decide (interval < bgIntervalMinS) := by
            rw [← decide_not, decide_eq_decide]
            omega
          simp only [hmin hzero, hzero, decide_true, hle]
          cases nonempty cron <;> cases decide (interval < bgIntervalMinS) <;> rfl
        · simp only [hzero, decide_false, Bool.false_and]
          cases hcron : nonempty cron with
          | false => rfl
          | true =>
              rw [hvalid hcron]
              cases isValidCron cron <;> rfl

/-- A task that is not of the right types is rejected by the host. -/
theorem validateTask_of_not_typed {task : Value ν} (hread : ReadableTask task)
    (foreign : List UInt8 → Option (Option Nat)) (htyped : typedTask task = false) :
    Host.validateTask foreign task = Host.reject .invalidBackground := by
  have hstring : Host.stringAt task (lit "name") = textAt task (lit "name") :=
    hread.keys.stringAt (by simp [taskKeys])
  have hkey := hread.keys (lit "interval_s") (by simp [taskKeys])
  unfold typedTask at htyped
  simp only [Host.validateTask, hstring, ← hkey]
  cases hobject : task.isObject with
  | false => rfl
  | true =>
      cases hname : textAt task (lit "name") with
      | none => rfl
      | some name =>
          rw [hobject, hname, Option.isSome_some, Bool.true_and, Bool.true_and,
            Bool.not_eq_false'] at htyped
          have htrue : task.getItem (lit "interval_s") = some (.bool true) := by
            cases hv : task.getItem (lit "interval_s") with
            | none =>
                rw [hv] at htyped
                cases htyped
            | some v =>
                rw [hv] at htyped
                cases v with
                | bool b =>
                    obtain rfl : b = true := htyped
                    rfl
                | null | number n | string s | array items | object members => cases htyped
          have hpos : ((some (.bool true) : Option (Value ν)).bind Host.intOf).any (0 < ·) = true :=
            rfl
          have hmin : ((some (.bool true) : Option (Value ν)).bind Host.intOf).any
              (· < Host.bgIntervalMinS) = true := rfl
          rw [htrue, hpos, hmin, Option.any_some]
          cases Host.nameValid name <;> cases Host.nonemptyStr task (lit "cron") <;> rfl

theorem validateTasks_eq (hd : d.Holds) (foreign : List UInt8 → Option (Option Nat))
    {tasks : List (Value ν)} (hread : ∀ task ∈ tasks, ReadableTask task)
    (htyped : ∀ task ∈ tasks, typedTask task = true) :
    ∃ bgTasks, (tasks.map (readTask d)).filterMap loadTask = bgTasks ∧
      bgTasks.length = tasks.length ∧
      Host.validateTasks foreign tasks =
        verdict (require (bgTasks.all validTask) .invalidBackground) := by
  induction tasks with
  | nil => exact ⟨[], rfl, rfl, rfl⟩
  | cons task tasks ih =>
      obtain ⟨bgTask, hload, hhost⟩ := validateTask_eq hd (hread task List.mem_cons_self) foreign
        (htyped task List.mem_cons_self)
      obtain ⟨bgTasks, hloads, hlen, hhosts⟩ :=
        ih (fun t ht => hread t (List.mem_cons_of_mem _ ht))
          (fun t ht => htyped t (List.mem_cons_of_mem _ ht))
      refine ⟨bgTask :: bgTasks, ?_, ?_, ?_⟩
      · rw [List.map_cons, List.filterMap_cons_some hload, hloads]
      · rw [List.length_cons, List.length_cons, hlen]
      · rw [Host.validateTasks, hhost, hhosts, List.all_cons]
        cases validTask bgTask <;> cases bgTasks.all validTask <;> rfl

theorem validateTasks_of_not_typed (hd : d.Holds) (foreign : List UInt8 → Option (Option Nat))
    {tasks : List (Value ν)} (hread : ∀ task ∈ tasks, ReadableTask task)
    (htyped : tasks.all typedTask = false) :
    Host.validateTasks foreign tasks = Host.reject .invalidBackground := by
  induction tasks with
  | nil => cases htyped
  | cons task tasks ih =>
      have hfirst := hread task List.mem_cons_self
      rw [Host.validateTasks]
      cases htask : typedTask task with
      | false =>
          rw [validateTask_of_not_typed hfirst foreign htask]
          rfl
      | true =>
          rw [List.all_cons, htask, Bool.true_and] at htyped
          rw [ih (fun t ht => hread t (List.mem_cons_of_mem _ ht)) htyped]
          obtain ⟨bgTask, _, hhost⟩ := validateTask_eq hd hfirst foreign htask
          rw [hhost]
          cases validTask bgTask <;> rfl

/-- The value is true or false. -/
def isBool : Value ν → Bool
  | .bool _ => true
  | _ => false

/-- The tasks are absent, or an array of up to four tasks of the right types. -/
def typedTasks : Option (Value ν) → Bool
  | none => true
  | some (.array tasks) => decide (tasks.length ≤ bgTaskMax) && tasks.all typedTask
  | some _ => false

/-- A background object with values of the right types. -/
def typedBackground (bg : Value ν) : Bool :=
  bg.isObject && (bg.getItem (lit "enabled")).all isBool && typedTasks (bg.getItem (lit "tasks"))

/-- The value is null. -/
def isNull : Value ν → Bool
  | .null => true
  | _ => false

/-- `background` is absent, null, or of the right types, or the firmware rejects a task. -/
def BackgroundAlike (root : Value ν) (m : Manifest) : Prop :=
  ∀ bg, root.getItem (lit "background") = some bg →
    isNull bg = true ∨ typedBackground bg = true ∨ validateBackground m ≠ .ok

theorem validateBackground_eq (d : Doubles ν) (dir : CStr) (root : Value ν) :
    validateBackground (manifestOf d dir root) =
      require ((manifestOf d dir root).bgTasks.all validTask) .invalidBackground := by
  have hlen : (manifestOf d dir root).bgTasks.length ≤ bgTaskMax := by
    change (List.take bgTaskMax _).length ≤ bgTaskMax
    exact List.length_take_le _ _
  unfold validateBackground
  rw [if_neg (Nat.not_lt.mpr hlen), require]

/-- `enabled` is looked up alike. -/
theorem enabledOk_eq {bg : Value ν} (hkeys : KeysAlike bg backgroundKeys) :
    Host.enabledOk bg = (bg.getItem (lit "enabled")).all isBool := by
  rw [Host.enabledOk, ← hkeys (lit "enabled") (by simp [backgroundKeys])]
  cases bg.getItem (lit "enabled") with
  | none => rfl
  | some v => cases v <;> rfl

/-- The background object is judged alike where its values are of the right types. -/
theorem validateBackground_typed (hd : d.Holds) (foreign : List UInt8 → Option (Option Nat))
    {members : List (CStr × Value ν)} (hget : Host.get root (lit "background") =
      some (.object members))
    (hkeys : KeysAlike (.object members : Value ν) backgroundKeys)
    (hread : ∀ task ∈ tasksAt (.object members : Value ν), ReadableTask task)
    (htyped : typedBackground (.object members : Value ν) = true) :
    Host.validateBackground foreign root = verdict (require
      (((((tasksAt (.object members : Value ν)).map (readTask d)).filterMap loadTask).take
        bgTaskMax).all validTask) .invalidBackground) := by
  rw [typedBackground, Bool.and_eq_true, Bool.and_eq_true] at htyped
  obtain ⟨⟨_, henabled⟩, htasks⟩ := htyped
  unfold Host.validateBackground
  rw [hget]
  simp only [enabledOk_eq hkeys, henabled, ← hkeys (lit "tasks") (by simp [backgroundKeys])]
  unfold tasksAt at hread ⊢
  cases hv : (Json.object members : Value ν).getItem (lit "tasks") with
  | none => rfl
  | some v =>
      rw [hv] at htasks hread
      cases v with
      | array tasks =>
          rw [typedTasks, Bool.and_eq_true, decide_eq_true_eq, List.all_eq_true] at htasks
          obtain ⟨hlen, hall⟩ := htasks
          obtain ⟨bgTasks, hload, hcount, hhost⟩ :=
            validateTasks_eq hd foreign (show ∀ task ∈ tasks, ReadableTask task from hread) hall
          have htake : bgTasks.take bgTaskMax = bgTasks :=
            List.take_of_length_le (hcount.trans_le hlen)
          change (if bgTaskMax < tasks.length then _ else Host.validateTasks foreign tasks) =
            verdict (require (((((tasks.map (readTask d)).filterMap loadTask).take
              bgTaskMax).all validTask)) .invalidBackground)
          rw [if_neg (Nat.not_lt.mpr hlen), hhost, hload, htake]
      | null | bool b | number n | string s | object l => cases htasks

theorem validateBackground_of_not_typed (hd : d.Holds)
    (foreign : List UInt8 → Option (Option Nat)) {members : List (CStr × Value ν)}
    (hget : Host.get root (lit "background") = some (.object members))
    (hkeys : KeysAlike (.object members : Value ν) backgroundKeys)
    (hread : ∀ task ∈ tasksAt (.object members : Value ν), ReadableTask task)
    (htyped : typedBackground (.object members : Value ν) = false) :
    Host.validateBackground foreign root = Host.reject .invalidBackground := by
  unfold Host.validateBackground
  rw [hget]
  simp only [enabledOk_eq hkeys, ← hkeys (lit "tasks") (by simp [backgroundKeys])]
  cases henabled : ((Json.object members : Value ν).getItem (lit "enabled")).all isBool with
  | false => rfl
  | true =>
      rw [typedBackground, henabled] at htyped
      unfold tasksAt at hread
      cases hv : (Json.object members : Value ν).getItem (lit "tasks") with
      | none =>
          rw [hv] at htyped
          cases htyped
      | some v =>
          rw [hv] at htyped hread
          cases v with
          | array tasks =>
              change (if bgTaskMax < tasks.length then _
                else Host.validateTasks foreign tasks) = _
              by_cases hlen : tasks.length ≤ bgTaskMax
              · have hall : tasks.all typedTask = false := by
                  have hall' : (decide (tasks.length ≤ bgTaskMax) && tasks.all typedTask) = false :=
                    htyped
                  rwa [decide_eq_true hlen, Bool.true_and] at hall'
                rw [if_neg (Nat.not_lt.mpr hlen)]
                exact validateTasks_of_not_typed hd foreign hread hall
              · exact if_pos (Nat.lt_of_not_le hlen)
          | null | bool b | number n | string s | object l => rfl

/-- The check of `background`. -/
theorem stage_background (hd : d.Holds) (foreign : List UInt8 → Option (Option Nat))
    (hread : Readable dir root) :
    Stage (Host.validateBackground foreign root) (validateBackground (manifestOf d dir root))
      (BackgroundAlike root (manifestOf d dir root)) [.reason .invalidBackground] := by
  have hkey := hread.keys (lit "background") (by simp [manifestKeys])
  have hvalue : (manifestOf d dir root).bgTasks =
      ((((backgroundAt root).elim [] tasksAt).map (readTask d)).filterMap loadTask).take
        bgTaskMax := rfl
  have hresult := validateBackground_eq d dir root
  have hcases : validateBackground (manifestOf d dir root) = .ok ∨
      validateBackground (manifestOf d dir root) = .invalidBackground := by
    rw [hresult]
    cases (manifestOf d dir root).bgTasks.all validTask
    · exact Or.inr rfl
    · exact Or.inl rfl
  cases hv : root.getItem (lit "background") with
  | none =>
      have hnone : backgroundAt root = none := by rw [backgroundAt, hv]; rfl
      refine Stage.same ?_ (fun bg hbg => absurd (hv.symm.trans hbg) (by simp))
      rw [hresult, hvalue, hnone, Host.validateBackground, ← hkey, hv]
      rfl
  | some bg =>
      have halike : BackgroundAlike root (manifestOf d dir root) ↔
          isNull bg = true ∨ typedBackground bg = true ∨
            validateBackground (manifestOf d dir root) ≠ .ok := by
        constructor
        · exact fun h => h bg hv
        · intro h bg' hbg'
          obtain rfl := Option.some.inj (hv.symm.trans hbg')
          exact h
      cases bg with
      | object members =>
          obtain ⟨hkeys, htasks⟩ := hread.background _ hv
          have hget : Host.get root (lit "background") = some (.object members) :=
            hkey.symm.trans hv
          have hbackground : backgroundAt root = some (.object members) := by
            rw [backgroundAt, hv]
            rfl
          cases htyped : typedBackground (Json.object members : Value ν) with
          | true =>
              refine Stage.same ?_ (halike.mpr (Or.inr (Or.inl htyped)))
              rw [validateBackground_typed hd foreign hget hkeys htasks htyped, hresult, hvalue,
                hbackground]
              rfl
          | false =>
              refine Stage.rejects
                (validateBackground_of_not_typed hd foreign hget hkeys htasks htyped) (by decide)
                hcases ?_ (by simp)
              rw [halike, htyped]
              simp [isNull]
      | null =>
          have hnone : backgroundAt root = none := by rw [backgroundAt, hv]; rfl
          refine Stage.same ?_ (halike.mpr (Or.inl rfl))
          rw [hresult, hvalue, hnone, Host.validateBackground, ← hkey, hv]
          rfl
      | bool b | number n | string s | array items =>
          refine Stage.rejects (x := .invalidBackground) ?_ (by decide) hcases ?_ (by simp)
          · rw [Host.validateBackground, ← hkey, hv]
          · rw [halike]
            simp [isNull, typedBackground, Json.isObject]

/-- The app is native, or `bytecode_abi` is not true, unless a version is missing anyway. -/
def ToolchainAlike (root : Value ν) (m : Manifest) : Prop :=
  m.appType = .native ∨ ∀ tc, root.getItem (lit "toolchain") = some tc →
    (tc.getItem (lit "bytecode_abi")).any Json.isTrue = false ∨
      (textAt tc (lit "runtime_version")).any nonempty = false ∨
        (textAt tc (lit "cross_version")).any nonempty = false

/-- Once the suffix has been judged alike, the type is. -/
theorem appType_eq (hread : Readable dir root)
    (halike : AppTypeAlike root (manifestOf d dir root))
    (hok : validateAppTypeEntry (manifestOf d dir root) = .ok) :
    ((manifestOf d dir root).appType = .native ∧ Host.appTypeOf root = some (lit "native")) ∨
      ((manifestOf d dir root).appType = .micropython ∧
        Host.appTypeOf root = some (lit "micropython")) := by
  have hkey := hread.keys (lit "app_type") (by simp [manifestKeys])
  have hvalue : (manifestOf d dir root).appType =
      if textAt root (lit "app_type") = some (lit "native") then .native else .micropython := rfl
  rw [Host.appTypeOf, ← hkey]
  rw [textAt] at hvalue
  cases hv : root.getItem (lit "app_type") with
  | none =>
      rw [hv] at hvalue
      exact Or.inr ⟨hvalue, rfl⟩
  | some v =>
      rw [hv, Option.bind_some] at hvalue
      rcases halike v hv with hmicro | hnative | hsuffix
      · rw [hmicro, if_neg (fun h => native_ne_micropython (Option.some.inj h).symm)] at hvalue
        exact Or.inr ⟨hvalue, hmicro⟩
      · rw [hnative, if_pos rfl] at hvalue
        exact Or.inl ⟨hvalue, hnative⟩
      · by_cases hnative : v.string? = some (lit "native")
        · rw [hnative, if_pos rfl] at hvalue
          exact Or.inl ⟨hvalue, hnative⟩
        · rw [if_neg hnative] at hvalue
          rw [validateAppTypeEntry, hvalue, hsuffix] at hok
          cases hok

theorem copied_beq (value : Option CStr) {bufLen : Nat} {text : CStr}
    (hlen : text.strlen + 1 < bufLen) (hne : nonempty text = true) :
    (copied value bufLen == text) = (value == some text) := by
  have hiff : copied value bufLen = text ↔ value = some text := by
    cases value with
    | none =>
        constructor
        · intro h
          rw [← h, nonempty_copied none (by omega)] at hne
          exact absurd hne (by simp)
        · exact fun h => absurd h (by simp)
    | some s =>
        rw [Option.some.injEq]
        change s.strncpy bufLen = text ↔ s = text
        by_cases hshort : s.strlen < bufLen
        · rw [CStr.strncpy_of_lt hshort]
        · constructor
          · intro h
            have hcut := congrArg CStr.strlen h
            simp only [CStr.strlen, CStr.strncpy, List.length_take] at hcut hshort hlen
            omega
          · rintro rfl
            omega
  rw [Bool.eq_iff_iff, beq_iff_eq, beq_iff_eq]
  exact hiff

/-- The number of the bytecode is read alike, unless it is true. -/
theorem bytecodeAbi_eq (hd : d.Holds) {tc : Value ν}
    (habi : Integer tc (lit "bytecode_abi") (-2 ^ 31) (2 ^ 31))
    (htrue : (tc.getItem (lit "bytecode_abi")).any Json.isTrue = false) :
    ((tc.getItem (lit "bytecode_abi")).elim (some 0) Host.intOf).any (0 < ·) =
        decide (0 < ((numberAt tc (lit "bytecode_abi")).map
          fun n => d.toInt (n.valuedouble d)).getD 0) ∧
      (0 < ((numberAt tc (lit "bytecode_abi")).map fun n => d.toInt (n.valuedouble d)).getD 0 →
        (tc.getItem (lit "bytecode_abi")).elim (some 0) Host.intOf =
          some (((numberAt tc (lit "bytecode_abi")).map
            fun n => d.toInt (n.valuedouble d)).getD 0)) := by
  have hint := fun n => habi.toInt hd (n := n)
  unfold numberAt at hint ⊢
  cases hv : tc.getItem (lit "bytecode_abi") with
  | none => exact ⟨rfl, fun h => absurd h (by simp)⟩
  | some v =>
      rw [hv] at hint htrue
      cases v with
      | number n =>
          obtain ⟨i, rfl, hi⟩ := hint n rfl
          simp only [Option.bind_some, Json.number?, Option.map_some, Option.getD_some, hi,
            Option.elim_some, Host.intOf, Option.any_some, true_and, implies_true]
      | bool b =>
          obtain rfl : b = false := htrue
          exact ⟨rfl, fun h => absurd h (by simp [Json.number?])⟩
      | null | string s | array items | object members =>
          exact ⟨rfl, fun h => absurd h (by simp [Json.number?])⟩

/-- The check of the object `toolchain`. -/
theorem stage_toolchainObject (hd : d.Holds) {m : Manifest} {members : List (CStr × Value ν)}
    (happ : Host.appTypeOf root = some (lit "micropython"))
    (hget : Host.get root (lit "toolchain") = some (.object members))
    (hkeys : KeysAlike (.object members : Value ν) toolchainKeys)
    (habi : Integer (.object members : Value ν) (lit "bytecode_abi") (-2 ^ 31) (2 ^ 31))
    (hmicro : m.appType = .micropython)
    (hruntime : m.runtimeVersion =
      copied (textAt (.object members : Value ν) (lit "runtime_version")) 32)
    (hcross : m.crossVersion =
      copied (textAt (.object members : Value ν) (lit "cross_version")) 32)
    (hbytecode : m.bytecodeAbi =
      ((numberAt (.object members : Value ν) (lit "bytecode_abi")).map
        fun n => d.toInt (n.valuedouble d)).getD 0) :
    Stage (Host.checkToolchain root) (validateToolchain m)
      (((Json.object members : Value ν).getItem (lit "bytecode_abi")).any Json.isTrue = false ∨
        (textAt (.object members : Value ν) (lit "runtime_version")).any nonempty = false ∨
          (textAt (.object members : Value ν) (lit "cross_version")).any nonempty = false) [] := by
  generalize hobject : (Json.object members : Value ν) = tc
    at hget hkeys habi hruntime hcross hbytecode ⊢
  have hhost : Host.checkToolchain root =
      if !((textAt tc (lit "runtime_version")).any nonempty &&
          (textAt tc (lit "cross_version")).any nonempty &&
            ((tc.getItem (lit "bytecode_abi")).elim (some 0) Host.intOf).any (0 < ·)) then
        Host.reject .invalidToolchain
      else if textAt tc (lit "runtime_version") ≠ some manifestRuntimeVersion ∨
          textAt tc (lit "cross_version") ≠ some manifestCrossVersion ∨
          (tc.getItem (lit "bytecode_abi")).elim (some 0) Host.intOf ≠ some manifestBytecodeAbi then
        Host.reject .runtimeMismatch
      else .ok () := by
    subst hobject
    have hruntime' := hkeys.stringAt (k := lit "runtime_version") (by simp [toolchainKeys])
    have hcross' := hkeys.stringAt (k := lit "cross_version") (by simp [toolchainKeys])
    unfold Host.checkToolchain
    simp only [happ, if_true, hget, Host.nonemptyStr, hruntime', hcross',
      ← hkeys (lit "bytecode_abi") (by simp [toolchainKeys])]
    rfl
  have hfirmware : validateToolchain m =
      if !((textAt tc (lit "runtime_version")).any nonempty &&
          (textAt tc (lit "cross_version")).any nonempty && decide (0 < m.bytecodeAbi)) then
        .invalidToolchain
      else if !(textAt tc (lit "runtime_version") == some manifestRuntimeVersion &&
          textAt tc (lit "cross_version") == some manifestCrossVersion &&
            m.bytecodeAbi == manifestBytecodeAbi) then .runtimeMismatch
      else .ok := by
    rw [validateToolchain, hmicro, if_neg (by decide), toolchainIsComplete, toolchainMatches,
      hruntime, hcross, nonempty_copied _ (by decide), nonempty_copied _ (by decide),
      copied_beq _ (by decide) (by decide),
      copied_beq _ (by decide) (by decide)]
  rw [hhost, hfirmware]
  cases hruntime' : (textAt tc (lit "runtime_version")).any nonempty with
  | false => exact Stage.same rfl (Or.inr (Or.inl rfl))
  | true =>
      cases hcross' : (textAt tc (lit "cross_version")).any nonempty with
      | false => exact Stage.same rfl (Or.inr (Or.inr rfl))
      | true =>
          cases htrue : (tc.getItem (lit "bytecode_abi")).any Json.isTrue with
          | false =>
              obtain ⟨hpos, hsome⟩ := bytecodeAbi_eq hd habi htrue
              rw [← hbytecode] at hpos hsome
              refine Stage.same ?_ (Or.inl rfl)
              rw [hpos]
              by_cases habipos : 0 < m.bytecodeAbi
              · have hiff : (textAt tc (lit "runtime_version") ≠ some manifestRuntimeVersion ∨
                    textAt tc (lit "cross_version") ≠ some manifestCrossVersion ∨
                    some m.bytecodeAbi ≠ some manifestBytecodeAbi) ↔
                    (!(textAt tc (lit "runtime_version") == some manifestRuntimeVersion &&
                      textAt tc (lit "cross_version") == some manifestCrossVersion &&
                        m.bytecodeAbi == manifestBytecodeAbi)) = true := by
                  rw [Bool.not_eq_true', Bool.eq_false_iff, ne_eq, ne_eq, ne_eq, ne_eq,
                    Bool.and_eq_true, Bool.and_eq_true, beq_iff_eq, beq_iff_eq, beq_iff_eq,
                    Option.some.injEq]
                  tauto
                rw [hsome habipos]
                simp only [hiff, habipos, decide_true, Bool.and_self, Bool.not_true,
                  Bool.false_eq_true, if_false]
                split_ifs <;> rfl
              · simp [habipos, verdict]
          | true =>
              have hbool : tc.getItem (lit "bytecode_abi") = some (.bool true) := by
                cases hv : tc.getItem (lit "bytecode_abi") with
                | none =>
                    rw [hv] at htrue
                    cases htrue
                | some v =>
                    rw [hv] at htrue
                    cases v with
                    | bool b =>
                        obtain rfl : b = true := htrue
                        rfl
                    | null | number n | string s | array items | object l => cases htrue
              have hzero : m.bytecodeAbi = 0 := by
                rw [hbytecode, numberAt, hbool]
                rfl
              rw [hbool, hzero]
              refine Stage.different (e := .reason .runtimeMismatch) ?_ (by simp) (by simp)
                (by simp)
              have hone : (some (Json.bool true : Value ν)).elim (some 0) Host.intOf = some 1 := rfl
              rw [hone]
              simp [manifestBytecodeAbi, Host.reject]

/-- The check of `toolchain`. -/
theorem stage_toolchain (hd : d.Holds) (hread : Readable dir root)
    (halike : AppTypeAlike root (manifestOf d dir root))
    (hok : validateAppTypeEntry (manifestOf d dir root) = .ok) :
    Stage (Host.checkToolchain root) (validateToolchain (manifestOf d dir root))
      (ToolchainAlike root (manifestOf d dir root)) [] := by
  have hkey := hread.keys (lit "toolchain") (by simp [manifestKeys])
  rcases appType_eq hread halike hok with ⟨hnative, hhost⟩ | ⟨hmicro, hhost⟩
  · refine Stage.same ?_ (Or.inl hnative)
    rw [Host.checkToolchain, hhost, if_neg (fun h => native_ne_micropython (Option.some.inj h)),
      validateToolchain, if_pos hnative]
    rfl
  · have hruntime : (manifestOf d dir root).runtimeVersion =
        copied ((((root.getItem (lit "toolchain")).filter Json.isObject).map
          (readToolchain d)).bind (·.runtimeVersion)) 32 := rfl
    have hcross : (manifestOf d dir root).crossVersion =
        copied ((((root.getItem (lit "toolchain")).filter Json.isObject).map
          (readToolchain d)).bind (·.crossVersion)) 32 := rfl
    have hbytecode : (manifestOf d dir root).bytecodeAbi =
        ((((root.getItem (lit "toolchain")).filter Json.isObject).map
          (readToolchain d)).bind (·.bytecodeAbi)).getD 0 := rfl
    cases hv : root.getItem (lit "toolchain") with
    | none =>
        rw [hv] at hruntime
        refine Stage.same ?_ (Or.inr fun tc htc => absurd (hv.symm.trans htc) (by simp))
        rw [Host.checkToolchain, hhost, if_pos rfl, ← hkey, hv, validateToolchain, hmicro,
          if_neg (by decide), hruntime]
        rfl
    | some tc =>
        rw [hv] at hruntime hcross hbytecode
        have hcond : (ToolchainAlike root (manifestOf d dir root)) ↔
            ((tc.getItem (lit "bytecode_abi")).any Json.isTrue = false ∨
              (textAt tc (lit "runtime_version")).any nonempty = false ∨
                (textAt tc (lit "cross_version")).any nonempty = false) := by
          constructor
          · rintro (hnative | h)
            · exact absurd (hmicro.symm.trans hnative) (by decide)
            · exact h tc hv
          · intro h
            refine Or.inr fun tc' htc' => ?_
            obtain rfl := Option.some.inj (hv.symm.trans htc')
            exact h
        cases tc with
        | object members =>
            obtain ⟨hkeys, habi⟩ := hread.toolchain _ hv
            exact (stage_toolchainObject hd hhost (hkey.symm.trans hv) hkeys habi hmicro hruntime
              hcross hbytecode).congr hcond.symm
        | null | bool b | number n | string s | array items =>
            refine Stage.same ?_ (hcond.mpr (Or.inl rfl))
            rw [Host.checkToolchain, hhost, if_pos rfl, ← hkey, hv, validateToolchain, hmicro,
              if_neg (by decide), hruntime]
            rfl

/-- The manifest passes the checks in front of that of `sdk_min`. -/
def NamesPass (m : Manifest) : Prop :=
  m.schemaVersion = manifestSchemaVersion ∧ namesGiven m = true ∧ isReservedAppId m.appId = false

/-- And those in front of that of `app_type`. -/
def EntryPasses (m : Manifest) : Prop :=
  NamesPass m ∧ validateSdkMin m = .ok ∧ isValidEntryPath m.entry = true

/-- Every value is of a type for which the host has the firmware's verdict, as far as no
earlier check rejects the manifest. -/
structure Alike (root : Value ν) (m : Manifest) : Prop where
  schemaVersion : SchemaVersionAlike root
  sdkMin : NamesPass m → SdkMinAlike root
  appType : EntryPasses m → AppTypeAlike root m
  capabilities : EntryPasses m → validateAppTypeEntry m = .ok → CapabilitiesAlike root m
  background : EntryPasses m → validateAppTypeEntry m = .ok → validateCapabilities m = .ok →
    BackgroundAlike root m
  toolchain : EntryPasses m → validateAppTypeEntry m = .ok → validateCapabilities m = .ok →
    validateBackground m = .ok → ToolchainAlike root m

theorem validateToolchain_mem (m : Manifest) :
    validateToolchain m ∈ [.ok, .invalidToolchain, .runtimeMismatch] := by
  unfold validateToolchain
  split_ifs <;> simp

theorem validateAppTypeEntry_mem (m : Manifest) :
    validateAppTypeEntry m ∈ [.ok, .invalidAppType] := by
  unfold validateAppTypeEntry
  cases m.appType <;> simp only <;> split_ifs <;> simp

theorem validateSdkMin_mem (m : Manifest) :
    validateSdkMin m ∈ [.ok, .invalidManifest, .sdkTooOld] := by
  unfold validateSdkMin
  split_ifs <;> simp

/-- The host's checks of a manifest that both read alike, beside the firmware's. -/
theorem stage_manifest [DecidableEq ν] (hd : d.Holds)
    (foreign : List UInt8 → Option (Option Nat)) (hdir : nonempty dir = true)
    (hread : Readable dir root) :
    Stage (Host.validateManifest d foreign root dir) (manifestValidate (manifestOf d dir root))
      (Alike root (manifestOf d dir root))
      [.reason .schemaMismatch, .reason .invalidManifest, .reason .invalidAppType,
        .reason .invalidManifest, .reason .invalidCapability, .raised,
        .reason .invalidBackground] := by
  have hbackgroundMem : validateBackground (manifestOf d dir root) ∈ [.ok, .invalidBackground] := by
    rw [validateBackground_eq]
    exact require_mem _ _
  have hcapsMem : validateCapabilities (manifestOf d dir root) ∈ [.ok, .invalidCapability] := by
    rcases validateCapabilities_cases (manifestOf d dir root) with h | h <;> simp [h]
  have hlast := validateToolchain_mem (manifestOf d dir root)
  have hlast2 := orElse_mem hbackgroundMem hlast
  have hlast3 := orElse_mem hcapsMem hlast2
  have hlast4 := orElse_mem (validateAppTypeEntry_mem (manifestOf d dir root)) hlast3
  have hlast5 := orElse_mem (require_mem (isValidEntryPath (manifestOf d dir root).entry)
    .invalidEntry) hlast4
  have hlast6 := orElse_mem (validateSdkMin_mem (manifestOf d dir root)) hlast5
  have hlast7 := orElse_mem (require_mem (!isReservedAppId (manifestOf d dir root).appId)
    .reservedAppId) hlast6
  have hlast8 := orElse_mem (require_mem (namesGiven (manifestOf d dir root)) .invalidManifest)
    hlast7
  have hnames : Stage (Host.checkNames root)
      (require (namesGiven (manifestOf d dir root)) .invalidManifest) True [] :=
    Stage.same (checkNames_eq hdir hread) trivial
  have hreserved : Stage (Host.checkReserved dir)
      (require (!isReservedAppId (manifestOf d dir root).appId) .reservedAppId) True [] :=
    Stage.same (checkReserved_eq dir root) trivial
  have hentry : namesGiven (manifestOf d dir root) = true → Stage (Host.checkEntry root)
      (require (isValidEntryPath (manifestOf d dir root).entry) .invalidEntry) True [] :=
    fun hgiven => Stage.same (checkEntry_eq hread hgiven) trivial
  have hchain := (stage_schemaVersion hd hread).seq (verdict_not_mem hlast8 (by decide))
    fun _ _ => hnames.seq (by simp) fun _ hgiven => hreserved.seq (by simp)
      fun _ _ => (stage_sdkMin hd hread).seq (verdict_not_mem hlast5 (by decide))
        fun _ _ => (hentry (by simpa [require] using hgiven)).seq (by simp)
          fun _ _ => (stage_appType hread).seq (verdict_not_mem hlast3 (by decide))
            fun happ hok => (stage_capabilities hread).seq (verdict_not_mem hlast2 (by decide))
              fun _ _ => (stage_background hd foreign hread).seq (verdict_not_mem hlast (by decide))
                fun _ _ => stage_toolchain hd hread happ hok
  rw [manifestValidate_eq]
  refine hchain.congr ?_
  simp only [require_eq_ok (show ManifestResult.schemaMismatch ≠ .ok by decide),
    require_eq_ok (show ManifestResult.invalidManifest ≠ .ok by decide),
    require_eq_ok (show ManifestResult.reservedAppId ≠ .ok by decide),
    require_eq_ok (show ManifestResult.invalidEntry ≠ .ok by decide), decide_eq_true_eq,
    Bool.not_eq_true', true_and]
  constructor
  · rintro ⟨hschema, h⟩
    have hsdk : NamesPass (manifestOf d dir root) → _ := fun hn => h hn.1 hn.2.1 hn.2.2
    have happ : EntryPasses (manifestOf d dir root) → _ :=
      fun he => (hsdk he.1).2 he.2.1 he.2.2
    exact ⟨hschema, fun hn => (hsdk hn).1, fun he => (happ he).1,
      fun he h6 => ((happ he).2 h6).1, fun he h6 h7 => (((happ he).2 h6).2 h7).1,
      fun he h6 h7 h8 => (((happ he).2 h6).2 h7).2 h8⟩
  · intro h
    refine ⟨h.schemaVersion, fun h1 h2 h3 => ⟨h.sdkMin ⟨h1, h2, h3⟩, fun h4 h5 => ?_⟩⟩
    have he : EntryPasses (manifestOf d dir root) := ⟨⟨h1, h2, h3⟩, h4, h5⟩
    exact ⟨h.appType he, fun h6 => ⟨h.capabilities he h6, fun h7 =>
      ⟨h.background he h6 h7, fun h8 => h.toolchain he h6 h7 h8⟩⟩⟩

end Checks

section Packages

variable {ν : Type} {d : Doubles ν}
  {foreign : List UInt8 → Option (Option Nat)} {files : List UInt8 → EntryFile} {dir : CStr}
  {root : Value ν}

/-- The host accepts what the firmware accepts, and where both reject the manifest, for the same
reason. -/
structure Mirrors [DecidableEq ν] (d : Doubles ν) (foreign : List UInt8 → Option (Option Nat))
    (files : List UInt8 → EntryFile) (dir : CStr) (root : Value ν) : Prop where
  accepts : Host.validatePackage d foreign root files dir = .ok () ↔
    preflightApp d files dir root = .ok
  reason : manifestValidate (manifestOf d dir root) ≠ .ok →
    Host.checkManifest d foreign root dir ≠ .ok () →
      Host.checkManifest d foreign root dir = verdict (manifestValidate (manifestOf d dir root))

/-- The entry file is there and not empty. -/
def EntryFile.usable (entry : EntryFile) : Bool := entry.present && entry.sizeBytes != 0

theorem valid_checks {m : Manifest} (h : manifestValidate m = .ok) :
    namesGiven m = true ∧ isValidEntryPath m.entry = true ∧ validateToolchain m = .ok := by
  rw [manifestValidate_eq] at h
  simp only [orElse_eq_ok_iff, require_eq_ok (show ManifestResult.invalidManifest ≠ .ok by decide),
    require_eq_ok (show ManifestResult.invalidEntry ≠ .ok by decide)] at h
  obtain ⟨-, hnames, -, -, hentry, -, -, -, htoolchain⟩ := h
  exact ⟨hnames, hentry, htoolchain⟩

/-- The preflight asks nothing of the manifest that it has not been asked yet. -/
theorem preflight_eq_ok_iff {m : Manifest} {entry : EntryFile} :
    preflight m entry = .ok ↔ manifestValidate m = .ok ∧ entry.usable = true := by
  by_cases hvalid : manifestValidate m = .ok
  · obtain ⟨-, hentry, htoolchain⟩ := valid_checks hvalid
    have hrest : (if m.appType = .micropython then
        if !toolchainIsComplete m.runtimeVersion m.crossVersion m.bytecodeAbi then
          LoaderResult.invalidToolchain
        else if !toolchainMatches m.runtimeVersion m.crossVersion m.bytecodeAbi then
          .runtimeMismatch
        else .ok
      else .ok) = .ok := by
      rw [validateToolchain] at htoolchain
      cases happ : m.appType with
      | native => rfl
      | micropython =>
          rw [happ, if_neg (by decide)] at htoolchain
          cases hcomplete : toolchainIsComplete m.runtimeVersion m.crossVersion m.bytecodeAbi <;>
            cases hmatches : toolchainMatches m.runtimeVersion m.crossVersion m.bytecodeAbi <;>
            simp [hcomplete, hmatches] at htoolchain ⊢
    rw [preflight, if_neg (not_not.mpr hvalid), hentry, hrest, EntryFile.usable]
    cases entry.present <;> by_cases hsize : entry.sizeBytes = 0 <;> simp [hvalid, hsize]
  · rw [preflight, if_pos hvalid]
    simp [hvalid]

theorem absEntry_eq (hread : Readable dir root)
    (hnames : namesGiven (manifestOf d dir root) = true) :
    absEntry dir (manifestOf d dir root).entry = Host.entryPath dir (Host.entryOf root) := by
  rw [entry_eq hread]
  have hgiven : nonempty (manifestOf d dir root).entry = true := by
    rw [namesGiven, Bool.and_eq_true] at hnames
    exact hnames.2
  rw [entry_eq hread, Host.entryOf, hread.keys.stringAt (by simp [manifestKeys])] at hgiven
  rw [Host.entryOf, hread.keys.stringAt (by simp [manifestKeys])]
  cases htext : textAt root (lit "entry") with
  | none =>
      rw [htext] at hgiven
      exact absurd hgiven (by decide)
  | some s =>
      have hlen := (hread.entry s htext).2
      refine List.take_of_length_le ?_
      rw [Host.entryPath] at hlen
      exact Nat.le_of_lt_succ hlen

theorem not_valid_of_not_object (hobject : root.isObject = false) :
    manifestValidate (manifestOf d dir root) ≠ .ok := by
  intro h
  have hnames := (valid_checks h).1
  have hname : (manifestOf d dir root).name = copied (textAt root (lit "name")) 64 := rfl
  have hnone : textAt root (lit "name") = none := by
    cases root with
    | object members => cases hobject
    | null | bool b | number n | string s | array items => rfl
  rw [namesGiven, hname, hnone] at hnames
  simp [nonempty_copied] at hnames

theorem checkManifest_iff [DecidableEq ν] (foreign : List UInt8 → Option (Option Nat))
    (hd : d.Holds) (hdir : nonempty dir = true) (hread : Readable dir root) :
    (Host.checkManifest d foreign root dir = .ok () →
      manifestValidate (manifestOf d dir root) = .ok) ∧
    (Host.checkManifest d foreign root dir = verdict (manifestValidate (manifestOf d dir root)) ↔
      root.isObject = true ∧ Alike root (manifestOf d dir root)) := by
  have hstage := stage_manifest hd foreign hdir hread
  unfold Host.checkManifest
  cases hobject : root.isObject with
  | true => exact ⟨hstage.strict, hstage.alike_iff.trans (by simp)⟩
  | false =>
      have hinvalid : manifestValidate (manifestOf d dir root) ≠ .ok :=
        not_valid_of_not_object hobject
      refine ⟨fun h => (by cases h), iff_of_false (fun h => ?_) (by simp)⟩
      rw [verdict_of_ne hinvalid] at h
      cases h

/-- The host accepts a package and rejects it as the firmware does, of manifests that are
read alike, exactly if the types of their values allow it, or neither gets beyond the entry
file. -/
theorem mirrors_iff [DecidableEq ν] (hd : d.Holds) (hdir : nonempty dir = true)
    (hread : Readable dir root) :
    Mirrors d foreign files dir root ↔
      root.isObject = true ∧ Alike root (manifestOf d dir root) ∨
        manifestValidate (manifestOf d dir root) = .ok ∧
          (files (absEntry dir (manifestOf d dir root).entry)).usable = false := by
  obtain ⟨hstrict, halike⟩ := checkManifest_iff foreign hd hdir hread
  have hfile : ∀ entry : EntryFile, Host.checkEntryFile entry = .ok () ↔ entry.usable = true := by
    intro entry
    unfold Host.checkEntryFile EntryFile.usable
    cases entry.present <;> by_cases hsize : entry.sizeBytes = 0 <;> simp [hsize]
  have haccepts : Host.validatePackage d foreign root files dir = .ok () ↔
      Host.checkManifest d foreign root dir = .ok () ∧
        (files (Host.entryPath dir (Host.entryOf root))).usable = true := by
    unfold Host.validatePackage
    rw [← hfile]
    cases Host.checkManifest d foreign root dir with
    | ok u => simp [bind, Except.bind]
    | error e => simp [bind, Except.bind]
  rw [← halike]
  by_cases hok : Host.checkManifest d foreign root dir = .ok ()
  · have hvalid := hstrict hok
    have hpath := absEntry_eq hread (valid_checks hvalid).1
    refine iff_of_true ⟨?_, fun h => absurd hvalid h⟩ (Or.inl ?_)
    · rw [haccepts, preflightApp, preflight_eq_ok_iff, hpath]
      simp [hok, hvalid]
    · rw [hok, hvalid]
      rfl
  · by_cases hvalid : manifestValidate (manifestOf d dir root) = .ok
    · have hne : Host.checkManifest d foreign root dir ≠
          verdict (manifestValidate (manifestOf d dir root)) := by
        rw [hvalid]
        exact hok
      constructor
      · intro h
        refine Or.inr ⟨hvalid, ?_⟩
        by_contra husable
        rw [Bool.not_eq_false] at husable
        have hfirmware := h.accepts.mpr (preflight_eq_ok_iff.mpr ⟨hvalid, husable⟩)
        exact hok (haccepts.mp hfirmware).1
      · rintro (heq | ⟨_, hunusable⟩)
        · exact absurd heq hne
        · refine ⟨iff_of_false (fun h => hok (haccepts.mp h).1) (fun h => ?_),
            fun h => absurd hvalid h⟩
          have husable := (preflight_eq_ok_iff.mp h).2
          rw [hunusable] at husable
          cases husable
    · constructor
      · exact fun h => Or.inl (h.reason hvalid hok)
      · rintro (heq | ⟨h, _⟩)
        · refine ⟨iff_of_false (fun h => hok (haccepts.mp h).1) (fun h => ?_), fun _ _ => heq⟩
          exact hvalid (preflight_eq_ok_iff.mp h).1
        · exact absurd h hvalid

end Packages

/-- A package whose numbers are integers. -/
def intDoubles : Doubles Int := ⟨id, id, Int.toNat⟩

theorem holds_intDoubles : intDoubles.Holds := ⟨fun _ _ _ => rfl, fun n _ => Int.toNat_natCast n⟩

/-- A task every quarter of an hour. -/
def pollTask : Value Int :=
  .object [(lit "name", .string (lit "poll")), (lit "interval_s", .number (.int 900))]

/-- The object `background` with this task. -/
def pollBackground : Value Int :=
  .object [(lit "enabled", .bool true), (lit "tasks", .array [pollTask])]

/-- The members of the manifest of a native app. -/
def clockMembers : List (CStr × Value Int) :=
  [(lit "name", .string (lit "Clock")), (lit "version", .string (lit "1.0")),
    (lit "entry", .string (lit "main.bin")), (lit "app_type", .string (lit "native")),
    (lit "capabilities", .array [.string (lit "background.register")]),
    (lit "background", pollBackground)]

/-- No number is written in other digits. -/
def noForeign : List UInt8 → Option (Option Nat) := fun _ => none

/-- Every file has ten bytes. -/
def tenBytes : List UInt8 → EntryFile := fun _ => ⟨true, 10⟩

theorem readable_pollTask : ReadableTask pollTask where
  keys := keysAlike_of_names (by decide) (by decide)
  name := by
    intro s hs
    obtain rfl := Option.some.inj hs
    decide
  interval := fun n hn => ⟨900, (Option.some.inj hn).symm, by decide, by decide⟩
  cron := fun s hs => by cases (show (none : Option CStr) = some s from hs)

theorem readable_clock : Readable (lit "clock") (.object clockMembers) where
  keys := keysAlike_of_names (by decide) (by decide)
  schemaVersion := by
    intro n hn
    cases (show (none : Option (JsonNum Int)) = some n from hn)
  sdkMin := by
    intro n hn
    cases (show (none : Option (JsonNum Int)) = some n from hn)
  entry := by
    intro s hs
    obtain rfl : lit "main.bin" = s := Option.some.inj hs
    exact ⟨by decide, by decide⟩
  background := by
    intro bg hbg
    obtain rfl : pollBackground = bg := Option.some.inj hbg
    refine ⟨keysAlike_of_names (by decide) (by decide), fun task htask => ?_⟩
    obtain rfl : task = pollTask := List.mem_singleton.mp htask
    exact readable_pollTask
  toolchain := by
    intro tc htc
    cases (show (none : Option (Value Int)) = some tc from htc)

theorem alike_clock :
    Alike (.object clockMembers) (manifestOf intDoubles (lit "clock") (.object clockMembers)) where
  schemaVersion v hv := by cases (show (none : Option (Value Int)) = some v from hv)
  sdkMin _ v hv := by cases (show (none : Option (Value Int)) = some v from hv)
  appType _ v hv := by
    obtain rfl := Option.some.inj hv
    exact Or.inr (Or.inl rfl)
  capabilities _ _ v hv := by
    obtain rfl := Option.some.inj hv
    refine ⟨_, rfl, fun item hitem => ?_⟩
    have hnone : [(.string (lit "background.register") : Value Int)].find?
        (fun i => !allowedString i) = none := by decide
    exact absurd (hnone.symm.trans hitem) (by simp)
  background _ _ _ bg hbg := by
    obtain rfl : pollBackground = bg := Option.some.inj hbg
    exact Or.inr (Or.inl (by decide))
  toolchain _ _ _ _ := Or.inl rfl

theorem mirrors_clock :
    Mirrors intDoubles noForeign tenBytes (lit "clock") (.object clockMembers) :=
  (mirrors_iff holds_intDoubles (by decide) readable_clock).mpr
    (Or.inl ⟨rfl, alike_clock⟩)

/-- With a string for its schema version the package is accepted by the firmware only. -/
theorem not_mirrors :
    ¬ ∀ files dir (root : Value Int), nonempty dir = true →
      Mirrors intDoubles noForeign files dir root := by
  intro h
  have hmirrors := h tenBytes (lit "clock")
    (.object ((lit "schema_version", .string (lit "2")) :: clockMembers)) (by decide)
  have hfirmware : preflightApp intDoubles tenBytes (lit "clock")
      (.object ((lit "schema_version", .string (lit "2")) :: clockMembers)) = .ok := by
    decide
  have hhost := hmirrors.accepts.mpr hfirmware
  exact absurd hhost (by decide)

end App
end JppDos
