import JppDos.App.Manifest
import JppDos.Lib.Json

/-!
# Discovery of apps

The apps of the card are listed at boot, straight into the catalogue of the launcher, and again
by a task when the user comes back to the launcher; what that task has found is then applied to
the catalogue.
-/

namespace JppDos
namespace Ui
namespace Discovery

open App CText Sdk

variable {ν : Type}

/-- A name in a directory; it is never empty. -/
abbrev FileName : Type := { name : CStr // name.val ≠ [] }

/-- What is found where a manifest file should be. -/
inductive ManifestFile (ν : Type)
  | missing
  /-- The file cannot be read, or it is no JSON text. -/
  | unreadable
  | parsed (root : Json ν)

/-- An entry of the directory of apps. -/
structure DirEnt (ν : Type) where
  name : FileName
  /-- `d_type == DT_DIR`. -/
  isDir : Bool
  manifest : ManifestFile ν

/-- `jpp_ui_app_source_t`. -/
inductive AppSource
  | builtin
  | sd
  deriving DecidableEq

/-- `jpp_ui_app_entry_t`. -/
structure CatalogEntry where
  appId : CStr
  name : CStr
  source : AppSource
  deriving DecidableEq

/-- The launcher's part of `jpp_ui_shell_t`. -/
structure Catalog where
  apps : List CatalogEntry
  selectedApp : Nat
  deriving DecidableEq

/-- After `jpp_ui_shell_init`. -/
def Catalog.init : Catalog := ⟨[], 0⟩

/-- `jpp_boot_discovery_summary_t`. -/
structure Summary where
  builtinCount : Nat
  disabledCount : Nat
  rejectedCount : Nat
  sdCount : Nat
  totalCount : Nat
  deriving DecidableEq

/-- `JPP_UI_APP_LIMIT`. -/
def appLimit : Nat := 8

/-- `JPP_UI_TEXT_LIMIT`. -/
def textLimit : Nat := 32

/-- `BG_DISC_APP_MAX`. -/
def bgDiscAppMax : Nat := 6

/-- `jpp_ui_shell_add_app`. -/
def shellAddApp (appId name : CStr) (source : AppSource) (shell : Catalog) : Catalog :=
  if !nonempty appId then shell
  else if appId = lit "launcher" then shell
  else if appLimit ≤ shell.apps.length then shell
  else
    { shell with
      apps := shell.apps ++
        [⟨appId.strncpy textLimit, (if nonempty name then name else appId).strncpy textLimit,
          source⟩] }

/-- `jpp_ui_shell_clear_sd_apps`. -/
def shellClearSdApps (shell : Catalog) : Catalog :=
  let apps := shell.apps.filter fun e => e.source = .builtin
  { apps := apps
    selectedApp :=
      if apps.length ≤ shell.selectedApp ∧ 0 < apps.length then apps.length - 1
      else shell.selectedApp }

/-- `read_manifest_display_name`; `outName` is what the caller has filled in. -/
def readManifestDisplayName (manifest : ManifestFile ν) (outName : CStr) : CStr :=
  match manifest with
  | .parsed root =>
      match root.getItem (lit "name") with
      | some (.string s) => if nonempty s then s.strncpy textLimit else outName
      | _ => outName
  | _ => outName

/-- The label of an app in the launcher. -/
def displayName (ent : DirEnt ν) : CStr :=
  readManifestDisplayName ent.manifest (ent.name.val.strncpy textLimit)

/-- `.` and `..`. -/
def isDotName (name : CStr) : Bool := name = lit "." || name = lit ".."

/-- The manifest file is there. -/
def ManifestFile.isThere : ManifestFile ν → Bool
  | .missing => false
  | _ => true

/-- The body of the loop of `discover_apps`. -/
def discoverEntry (state : Summary × Catalog) (ent : DirEnt ν) : Summary × Catalog :=
  let (summary, shell) := state
  if !ent.isDir then state
  else if isDotName ent.name then state
  else if isReservedAppId ent.name then
    ({ summary with rejectedCount := summary.rejectedCount + 1 }, shell)
  else if !ent.manifest.isThere then
    ({ summary with rejectedCount := summary.rejectedCount + 1 }, shell)
  else
    ({ summary with sdCount := summary.sdCount + 1 },
      shellAddApp ent.name (displayName ent) .sd shell)

/-- The two entries of the system. -/
def addBuiltins (shell : Catalog) : Catalog :=
  shellAddApp (lit "webdav") (lit "WebDAV server") .builtin
    (shellAddApp (lit "settings") (lit "Settings") .builtin shell)

/-- `discover_apps`; without a directory `opendir` fails. -/
def discoverApps (normalMode : Bool) (dir : Option (List (DirEnt ν))) (shell : Catalog) :
    Summary × Catalog :=
  let summary : Summary := ⟨2, 0, 0, 0, 2⟩
  let shell := addBuiltins shell
  match normalMode, dir with
  | true, some ents =>
      let (summary, shell) := ents.foldl discoverEntry (summary, shell)
      ({ summary with
          totalCount := summary.builtinCount + summary.sdCount + summary.disabledCount +
            summary.rejectedCount }, shell)
  | _, _ => (summary, shell)

/-- `bg_disc_entry_t`. -/
structure BgDiscEntry where
  id : CStr
  name : CStr
  deriving DecidableEq

/-- The loop of `bg_discover_task`, which ends when `s_bg_disc_apps` is full. -/
def bgDiscoverLoop : List (DirEnt ν) → List BgDiscEntry → List BgDiscEntry
  | [], found => found
  | ent :: ents, found =>
      if bgDiscAppMax ≤ found.length then found
      else if !ent.isDir || isDotName ent.name || isReservedAppId ent.name ||
          !ent.manifest.isThere then bgDiscoverLoop ents found
      else
        bgDiscoverLoop ents (found ++ [⟨ent.name.val.strncpy textLimit, displayName ent⟩])

/-- `bg_discover_task`. -/
def bgDiscover (normalMode : Bool) (dir : Option (List (DirEnt ν))) : List BgDiscEntry :=
  match normalMode, dir with
  | true, some ents => bgDiscoverLoop ents []
  | _, _ => []

/-- `discover_apps_apply_to_shell`. -/
def applyToShell (found : List BgDiscEntry) (shell : Catalog) : Catalog :=
  found.foldl (fun shell e => shellAddApp e.id e.name .sd shell) (shellClearSdApps shell)

/-- The directory entry is an app. -/
def DirEnt.isApp (ent : DirEnt ν) : Bool :=
  ent.isDir && !isDotName ent.name && !isReservedAppId ent.name && ent.manifest.isThere

/-- The entry of the catalogue for an app of the card. -/
def sdEntry (ent : DirEnt ν) : CatalogEntry :=
  ⟨ent.name.val.strncpy textLimit,
    (if nonempty (displayName ent) then displayName ent else ent.name.val).strncpy textLimit, .sd⟩

/-- The apps of the card, in the order of the directory. -/
def sdEntries (dir : Option (List (DirEnt ν))) : List CatalogEntry :=
  ((dir.getD []).filter DirEnt.isApp).map sdEntry

/-- The entries of the system. -/
def builtins : List CatalogEntry :=
  [⟨lit "settings", lit "Settings", .builtin⟩, ⟨lit "webdav", lit "WebDAV server", .builtin⟩]

theorem addBuiltins_init : (addBuiltins .init).apps = builtins := by decide

theorem strncpy_strncpy (s : CStr) (n : Nat) : (s.strncpy n).strncpy n = s.strncpy n :=
  Subtype.ext (by simp [CStr.strncpy])

theorem nonempty_strncpy {s : CStr} (h : s.val ≠ []) : nonempty (s.strncpy textLimit) = true := by
  obtain ⟨bytes, hbytes⟩ := s
  cases bytes with
  | nil => exact absurd rfl h
  | cons b bytes => exact decide_eq_true (List.cons_ne_nil _ _)

/-- The name of an app is not the launcher's, also when it is cut. -/
theorem ne_launcher {s : CStr} (h : isReservedAppId s = false) :
    s ≠ lit "launcher" ∧ s.strncpy textLimit ≠ lit "launcher" := by
  have hne : s ≠ lit "launcher" := by
    rintro rfl
    exact absurd h (by decide)
  refine ⟨hne, fun hcut => hne ?_⟩
  have hval : s.val.take 31 = (lit "launcher").val := congrArg Subtype.val hcut
  have hlength : (lit "launcher").val.length = 8 := by decide
  have hshort : s.val.length ≤ 31 := by
    have hmin := congrArg List.length hval
    rw [List.length_take, hlength] at hmin
    omega
  rw [List.take_of_length_le hshort] at hval
  exact Subtype.ext hval

/-- An app of the card is added as long as there is room. -/
theorem shellAddApp_sd {ent : DirEnt ν} (h : ent.isApp = true) (shell : Catalog) :
    shellAddApp ent.name (displayName ent) .sd shell =
      { shell with
        apps := if appLimit ≤ shell.apps.length then shell.apps
          else shell.apps ++ [sdEntry ent] } := by
  simp only [DirEnt.isApp, Bool.and_eq_true, Bool.not_eq_true'] at h
  have hname : nonempty ent.name.val = true := decide_eq_true ent.name.property
  rw [shellAddApp, if_neg (by simp [hname]), if_neg (ne_launcher h.1.2).1]
  by_cases hfull : appLimit ≤ shell.apps.length
  · rw [if_pos hfull, if_pos hfull]
  · rw [if_neg hfull, if_neg hfull]
    rfl

theorem shellAddApp_found {ent : DirEnt ν} (h : ent.isApp = true) (shell : Catalog) :
    shellAddApp (ent.name.val.strncpy textLimit) (displayName ent) .sd shell =
      { shell with
        apps := if appLimit ≤ shell.apps.length then shell.apps
          else shell.apps ++ [sdEntry ent] } := by
  simp only [DirEnt.isApp, Bool.and_eq_true, Bool.not_eq_true'] at h
  have hname : nonempty (ent.name.val.strncpy textLimit) = true :=
    nonempty_strncpy ent.name.property
  have hlabel : (if nonempty (displayName ent) then displayName ent
      else ent.name.val.strncpy textLimit).strncpy textLimit =
      (if nonempty (displayName ent) then displayName ent else ent.name.val).strncpy
        textLimit := by
    split_ifs
    · rfl
    · exact strncpy_strncpy _ _
  rw [shellAddApp, if_neg (by simp [hname]), if_neg (ne_launcher h.1.2).2, hlabel,
    strncpy_strncpy]
  by_cases hfull : appLimit ≤ shell.apps.length
  · rw [if_pos hfull, if_pos hfull]
  · rw [if_neg hfull, if_neg hfull]
    rfl

theorem foldl_add (limit : Nat) (entries apps : List CatalogEntry) (h : apps.length ≤ limit) :
    entries.foldl (fun apps e => if limit ≤ apps.length then apps else apps ++ [e]) apps =
      (apps ++ entries).take limit := by
  induction entries generalizing apps with
  | nil => rw [List.foldl_nil, List.append_nil, List.take_of_length_le h]
  | cons e entries ih =>
      rw [List.foldl_cons]
      split_ifs with hfull
      · have hlength : apps.length = limit := Nat.le_antisymm h hfull
        rw [ih apps h, ← hlength, List.take_left, List.take_left]
      · rw [ih _ (by rw [List.length_append, List.length_singleton]; omega), List.append_assoc]
        rfl

theorem discoverEntry_apps (state : Summary × Catalog) (ent : DirEnt ν) :
    (discoverEntry state ent).2.selectedApp = state.2.selectedApp ∧
      (discoverEntry state ent).2.apps =
        if ent.isApp then
          if appLimit ≤ state.2.apps.length then state.2.apps
          else state.2.apps ++ [sdEntry ent]
        else state.2.apps := by
  obtain ⟨summary, shell⟩ := state
  cases happ : ent.isApp with
  | true =>
      have hparts := happ
      simp only [DirEnt.isApp, Bool.and_eq_true, Bool.not_eq_true'] at hparts
      obtain ⟨⟨⟨hdir, hdot⟩, hreserved⟩, hthere⟩ := hparts
      simp [discoverEntry, hdir, hdot, hreserved, hthere, shellAddApp_sd happ]
  | false =>
      rw [if_neg Bool.false_ne_true, discoverEntry]
      dsimp only
      split_ifs with hdir hdot hreserved hthere
      · exact ⟨rfl, rfl⟩
      · exact ⟨rfl, rfl⟩
      · exact ⟨rfl, rfl⟩
      · exact ⟨rfl, rfl⟩
      · simp_all [DirEnt.isApp]

theorem foldl_discoverEntry (ents : List (DirEnt ν)) (state : Summary × Catalog)
    (h : state.2.apps.length ≤ appLimit) :
    (ents.foldl discoverEntry state).2.selectedApp = state.2.selectedApp ∧
      (ents.foldl discoverEntry state).2.apps =
        (state.2.apps ++ (ents.filter DirEnt.isApp).map sdEntry).take appLimit := by
  induction ents generalizing state with
  | nil => exact ⟨rfl, by simp [List.take_of_length_le h]⟩
  | cons ent ents ih =>
      obtain ⟨hselected, happs⟩ := discoverEntry_apps state ent
      rw [List.foldl_cons, List.filter_cons]
      cases happ : ent.isApp with
      | false =>
          rw [happ] at happs
          simp only [Bool.false_eq_true, if_false] at happs ⊢
          obtain ⟨hsel, hlist⟩ := ih (discoverEntry state ent) (happs ▸ h)
          exact ⟨hsel.trans hselected, by rw [hlist, happs]⟩
      | true =>
          rw [happ, if_pos rfl] at happs
          rw [if_pos rfl, List.map_cons]
          have hroom : (discoverEntry state ent).2.apps.length ≤ appLimit := by
            rw [happs]
            split_ifs with hfull
            · exact h
            · rw [List.length_append, List.length_singleton]
              omega
          obtain ⟨hsel, hlist⟩ := ih (discoverEntry state ent) hroom
          refine ⟨hsel.trans hselected, ?_⟩
          rw [hlist, happs]
          split_ifs with hfull
          · have hlength : state.2.apps.length = appLimit := Nat.le_antisymm h hfull
            rw [← hlength, List.take_left, List.take_left]
          · rw [List.append_assoc, List.singleton_append]

/-- The apps of the card that boot lists. -/
def bootEntries (normalMode : Bool) (dir : Option (List (DirEnt ν))) : List CatalogEntry :=
  if normalMode then (sdEntries dir).take bgDiscAppMax else []

theorem discoverApps_apps (normalMode : Bool) (dir : Option (List (DirEnt ν))) :
    (discoverApps normalMode dir .init).2.selectedApp = 0 ∧
      (discoverApps normalMode dir .init).2.apps = builtins ++ bootEntries normalMode dir := by
  have hselected : (addBuiltins .init).selectedApp = 0 := by decide
  cases normalMode with
  | false => cases dir <;> exact ⟨hselected, addBuiltins_init⟩
  | true =>
      cases dir with
      | none => exact ⟨hselected, addBuiltins_init⟩
      | some ents =>
          have hroom : (addBuiltins .init).apps.length ≤ appLimit := by
            rw [addBuiltins_init]
            decide
          obtain ⟨hsel, hlist⟩ :=
            foldl_discoverEntry ents (⟨2, 0, 0, 0, 2⟩, addBuiltins .init) hroom
          refine ⟨hsel.trans hselected, hlist.trans ?_⟩
          rw [addBuiltins_init, List.take_append]
          rfl

/-- What the task notes down of an app. -/
def noteOf (ent : DirEnt ν) : BgDiscEntry := ⟨ent.name.val.strncpy textLimit, displayName ent⟩

theorem bgDiscoverLoop_eq (ents : List (DirEnt ν)) (found : List BgDiscEntry)
    (h : found.length ≤ bgDiscAppMax) :
    bgDiscoverLoop ents found =
      (found ++ (ents.filter DirEnt.isApp).map noteOf).take bgDiscAppMax := by
  induction ents generalizing found with
  | nil => simp [bgDiscoverLoop, List.take_of_length_le h]
  | cons ent ents ih =>
      rw [bgDiscoverLoop]
      split_ifs with hfull hskip
      · have hlength : found.length = bgDiscAppMax := Nat.le_antisymm h hfull
        rw [← hlength, List.take_left]
      · have happ : ent.isApp = false := by
          simp only [Bool.or_eq_true, Bool.not_eq_true'] at hskip
          rcases hskip with ((hdir | hdot) | hreserved) | hthere <;> simp [DirEnt.isApp, *]
        rw [ih found h, List.filter_cons_of_neg (by simp [happ])]
      · have happ : ent.isApp = true := by
          simpa [DirEnt.isApp, and_assoc] using hskip
        have hroom : (found ++ [noteOf ent]).length ≤ bgDiscAppMax := by
          rw [List.length_append, List.length_singleton]
          omega
        rw [List.filter_cons_of_pos happ, List.map_cons]
        exact (ih _ hroom).trans (by rw [List.append_assoc, List.singleton_append])

theorem bgDiscover_eq (normalMode : Bool) (dir : Option (List (DirEnt ν))) :
    bgDiscover normalMode dir =
      if normalMode then
        (((dir.getD []).filter DirEnt.isApp).map noteOf).take bgDiscAppMax
      else [] := by
  cases normalMode with
  | false => rfl
  | true =>
      cases dir with
      | none => rfl
      | some ents => exact bgDiscoverLoop_eq ents [] (Nat.zero_le _)

theorem foldl_found (ents : List (DirEnt ν)) (h : ∀ ent ∈ ents, ent.isApp = true)
    (shell : Catalog) :
    (ents.map noteOf).foldl (fun shell e => shellAddApp e.id e.name .sd shell) shell =
      { shell with
        apps := (ents.map sdEntry).foldl
          (fun apps e => if appLimit ≤ apps.length then apps else apps ++ [e]) shell.apps } := by
  induction ents generalizing shell with
  | nil => rfl
  | cons ent ents ih =>
      rw [List.map_cons, List.foldl_cons, List.map_cons, List.foldl_cons]
      have hstep := shellAddApp_found (h ent List.mem_cons_self) shell
      rw [noteOf, hstep]
      exact ih (fun ent' hent => h ent' (List.mem_cons_of_mem _ hent)) _

theorem sdEntry_source (ent : DirEnt ν) : (sdEntry ent).source = .sd := rfl

/-- Clearing leaves the entries of the system and moves the selection onto them. -/
theorem shellClearSdApps_eq {entries : List CatalogEntry} (h : ∀ e ∈ entries, e.source = .sd)
    (selected : Nat) :
    shellClearSdApps ⟨builtins ++ entries, selected⟩ =
      ⟨builtins, if 2 ≤ selected then 1 else selected⟩ := by
  have hnone : entries.filter (fun e => e.source = .builtin) = [] := by
    refine List.filter_eq_nil_iff.mpr fun e he => ?_
    simp [h e he]
  have happs : (builtins ++ entries).filter (fun e => e.source = .builtin) = builtins := by
    rw [List.filter_append, hnone]
    rfl
  rw [shellClearSdApps, happs]
  refine congrArg (Catalog.mk builtins) ?_
  change (if 2 ≤ selected ∧ 0 < 2 then 2 - 1 else selected) = _
  simp

theorem mem_bootEntries {normalMode : Bool} {dir : Option (List (DirEnt ν))} {e : CatalogEntry}
    (h : e ∈ bootEntries normalMode dir) : e.source = .sd := by
  cases normalMode with
  | false => exact absurd h List.not_mem_nil
  | true =>
      obtain ⟨ent, -, rfl⟩ := List.mem_map.mp (List.mem_of_mem_take h)
      exact sdEntry_source ent

/-- The catalogue after boot, with the selection where the user has moved it. -/
def booted (normalMode : Bool) (dir : Option (List (DirEnt ν))) (selected : Nat) : Catalog :=
  { (discoverApps normalMode dir .init).2 with selectedApp := selected }

/-- What a second discovery of the same card makes of the catalogue after boot. -/
theorem rediscovery_eq (normalMode : Bool) (dir : Option (List (DirEnt ν))) (selected : Nat) :
    applyToShell (bgDiscover normalMode dir) (booted normalMode dir selected) =
      booted normalMode dir (if 2 ≤ selected then 1 else selected) := by
  have hbooted : ∀ n, booted normalMode dir n = ⟨builtins ++ bootEntries normalMode dir, n⟩ :=
    fun n => congrArg (fun apps => Catalog.mk apps n) (discoverApps_apps normalMode dir).2
  rw [hbooted, hbooted, applyToShell,
    shellClearSdApps_eq (fun e he => mem_bootEntries he), bgDiscover_eq]
  cases normalMode with
  | false => rfl
  | true =>
      rw [if_pos rfl, ← List.map_take, foldl_found]
      · refine congrArg (fun apps => Catalog.mk apps _) ?_
        rw [foldl_add appLimit _ _ (show builtins.length ≤ appLimit by decide), bootEntries,
          if_pos rfl, sdEntries, List.map_take, List.take_append, List.take_take]
        rfl
      · exact fun ent hent => (List.mem_filter.mp (List.mem_of_mem_take hent)).2

/-- A second discovery of the same card gives the same catalogue; it leaves the selection where
it is exactly when that is an entry of the system. -/
theorem rediscovery_unchanged_iff (normalMode : Bool) (dir : Option (List (DirEnt ν)))
    (selected : Nat) :
    applyToShell (bgDiscover normalMode dir) (booted normalMode dir selected) =
      booted normalMode dir selected ↔ selected < 2 := by
  rw [rediscovery_eq]
  constructor
  · intro h
    have hselected : (if 2 ≤ selected then 1 else selected) = selected :=
      congrArg Catalog.selectedApp h
    split_ifs at hselected <;> omega
  · intro h
    rw [if_neg (by omega)]

/-- A card with one app. -/
def oneApp : Option (List (DirEnt Int)) :=
  some [⟨⟨lit "games", by decide⟩, true, .parsed (.object [(lit "name", .string (lit "Games"))])⟩]

/-- The user comes back from the app of the card: the selection goes to the WebDAV server. -/
theorem selection_lost :
    (booted true oneApp 2).apps[(booted true oneApp 2).selectedApp]? =
        some ⟨lit "games", lit "Games", .sd⟩ ∧
      applyToShell (bgDiscover true oneApp) (booted true oneApp 2) ≠ booted true oneApp 2 ∧
      (applyToShell (bgDiscover true oneApp) (booted true oneApp 2)).selectedApp = 1 := by
  decide

end Discovery
end Ui
end JppDos
