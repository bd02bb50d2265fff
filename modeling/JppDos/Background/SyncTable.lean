import JppDos.Background.Closing

/-!
# What a sync leaves

`jpp_bg_scheduler_sync_app` compares app ids and task names in full and keeps them in fields of
32 bytes, the cron expressions in 24.
-/

namespace JppDos
namespace Background

open CText App Sdk

/-- The table as `s_entries` holds it. -/
structure Table where
  entries : List BgEntry
  fits : ∀ e ∈ entries, e.Fits
  room : entries.length ≤ bgScheduleMax

/-- The tasks that get a place beside the entries of the other apps. -/
def placed (app : CStr) (tasks : List BgTask) (before : List BgEntry) : List BgTask :=
  tasks.take (bgScheduleMax - (before.filter (·.appId != app)).length)

/-- A sync does what it is for: the other apps keep their entries, the app has its tasks as far
as there is room, with the times of their last runs; the table has its size; the same sync
again changes nothing, and the file gives the table. -/
structure Synchronised {ν : Type} (json : JsonLib ν) (toUint32 : ν → Nat) (app : CStr)
    (tasks : List BgTask) (before : List BgEntry) : Prop where
  others : (syncApp app tasks before).filter (·.appId != app) = before.filter (·.appId != app)
  own : (((syncApp app tasks before).filter (·.appId == app)).map
      fun e => (e.task, e.intervalS, e.cron)) =
    (placed app tasks before).map fun task => (task.name, task.intervalS, task.cron)
  lastRun : ∀ e ∈ syncApp app tasks before, e.appId = app →
    (∃ old ∈ before, old.names = e.names ∧ e.lastRun = old.lastRun) ∨
      (∀ old ∈ before, old.names ≠ e.names) ∧ e.lastRun = 0
  capacity : (syncApp app tasks before).length ≤ bgScheduleMax
  again : syncApp app tasks (syncApp app tasks before) = syncApp app tasks before
  reload : ∀ text, json.printUnformatted (scheduleJson json (syncApp app tasks before)) =
    some text → schedulerInit json toUint32 (some text) = syncApp app tasks before

/-- The app's id and the task fit into their fields. -/
structure FitsTable (app : CStr) (task : BgTask) : Prop where
  app : app.strlen < 32
  name : task.name.strlen < 32
  cron : task.cron.strlen < 24

variable {app : CStr} {tasks : List BgTask} {before : List BgEntry}

theorem syncApp_placed (app : CStr) (tasks : List BgTask) (before : List BgEntry) :
    syncApp app tasks before = before.filter (·.appId != app) ++
      (placed app tasks before).map (newEntry app (before.filter (·.appId == app))) :=
  syncApp_eq app tasks before

theorem filter_placed (h : ∀ task ∈ placed app tasks before, FitsTable app task) :
    (syncApp app tasks before).filter (·.appId != app) = before.filter (·.appId != app) ∧
      (syncApp app tasks before).filter (·.appId == app) =
        (placed app tasks before).map (newEntry app (before.filter (·.appId == app))) := by
  have hnone : (before.filter (·.appId != app)).filter (·.appId == app) = [] := by
    rw [List.filter_filter]
    exact List.filter_eq_nil_iff.mpr fun e _ => by simp [bne]
  rw [syncApp_placed, List.filter_append, List.filter_append, hnone, List.filter_filter]
  simp only [Bool.and_self, List.nil_append]
  cases hplaced : placed app tasks before with
  | nil => simp
  | cons task rest =>
      have happ := (h task (hplaced ▸ List.mem_cons_self)).app
      obtain ⟨hown, hothers⟩ :=
        filter_newEntry happ (before.filter (·.appId == app)) (task :: rest)
      rw [hown, hothers, List.append_nil]
      exact ⟨rfl, rfl⟩

theorem newEntry_task {task : BgTask} (prev : List BgEntry) (h : FitsTable app task) :
    (newEntry app prev task).task = task.name := CStr.strncpy_of_lt h.name

theorem prevLast_map {prev : List BgEntry} {ts : List BgTask} (h : ∀ t ∈ ts, FitsTable app t)
    {task : BgTask} (htask : task ∈ ts) :
    prevLast (ts.map (newEntry app prev)) task.name = prevLast prev task.name := by
  induction ts with
  | nil => exact absurd htask (by simp)
  | cons t ts ih =>
      have hname := newEntry_task prev (h t List.mem_cons_self)
      rw [prevLast, List.map_cons, List.find?_cons]
      by_cases heq : t.name = task.name
      · rw [hname, heq, beq_self_eq_true]
        simp only [newEntry, heq]
      · have hrest := (List.mem_cons.mp htask).resolve_left fun hsame => heq (hsame ▸ rfl)
        rw [hname, beq_eq_false_iff_ne.mpr heq]
        exact ih (fun t ht => h t (List.mem_cons_of_mem _ ht)) hrest

/-- The last run of a task is that of an entry with its name, or none. -/
theorem prevLast_spec (before : List BgEntry) (app name : CStr) :
    (∃ old ∈ before, old.names = (app, name) ∧
        prevLast (before.filter (·.appId == app)) name = old.lastRun) ∨
      (∀ old ∈ before, old.names ≠ (app, name)) ∧
        prevLast (before.filter (·.appId == app)) name = 0 := by
  unfold prevLast
  cases hfind : (before.filter (·.appId == app)).find? (·.task == name) with
  | some old =>
      obtain ⟨hold, happ⟩ := List.mem_filter.mp (List.mem_of_find?_eq_some hfind)
      have hname := List.find?_some hfind
      exact Or.inl ⟨old, hold, Prod.ext (beq_iff_eq.mp happ) (beq_iff_eq.mp hname), rfl⟩
  | none =>
      refine Or.inr ⟨fun old hold hnames => ?_, rfl⟩
      have hmem : old ∈ before.filter (·.appId == app) :=
        List.mem_filter.mpr ⟨hold, beq_iff_eq.mpr (congrArg Prod.fst hnames)⟩
      exact List.find?_eq_none.mp hfind old hmem (beq_iff_eq.mpr (congrArg Prod.snd hnames))

theorem length_syncApp (h : before.length ≤ bgScheduleMax) :
    (syncApp app tasks before).length ≤ bgScheduleMax := by
  have hothers := List.length_filter_le (fun e : BgEntry => e.appId != app) before
  rw [syncApp_placed, List.length_append, List.length_map, placed, List.length_take]
  omega

section Sync

variable {ν : Type} {json : JsonLib ν} {toUint32 : ν → Nat}

theorem syncApp_fits (hbefore : ∀ e ∈ before, e.Fits)
    (hinterval : ∀ task ∈ tasks, task.intervalS < 2 ^ 32) :
    ∀ e ∈ syncApp app tasks before, e.Fits := by
  intro e he
  rcases mem_syncApp he with ⟨hold, -⟩ | ⟨task, htask, rfl⟩
  · exact hbefore e hold
  · exact newEntry_fits (fun e he => hbefore e (List.mem_filter.mp he).1) (hinterval task htask)

theorem synchronised_of_fits (hnum : Uint32s json toUint32) (table : Table)
    (hinterval : ∀ task ∈ tasks, task.intervalS < 2 ^ 32)
    (hreads : json.Rereads (scheduleJson json (syncApp app tasks table.entries)))
    (h : ∀ task ∈ placed app tasks table.entries, FitsTable app task) :
    Synchronised json toUint32 app tasks table.entries := by
  obtain ⟨hothers, hown⟩ := filter_placed h
  constructor
  case others => exact hothers
  case own =>
    rw [hown, List.map_map]
    refine List.map_congr_left fun task htask => ?_
    have hfits := h task htask
    simp only [Function.comp_apply, newEntry, CStr.strncpy_of_lt hfits.name,
      CStr.strncpy_of_lt hfits.cron]
  case lastRun =>
    intro e he happ
    have hmem : e ∈ (syncApp app tasks table.entries).filter (·.appId == app) :=
      List.mem_filter.mpr ⟨he, beq_iff_eq.mpr happ⟩
    rw [hown, List.mem_map] at hmem
    obtain ⟨task, htask, rfl⟩ := hmem
    have hnames : (newEntry app (table.entries.filter (·.appId == app)) task).names =
        (app, task.name) :=
      Prod.ext happ (newEntry_task (table.entries.filter (·.appId == app)) (h task htask))
    rw [hnames]
    exact prevLast_spec table.entries app task.name
  case capacity => exact length_syncApp table.room
  case again =>
    have hsame : placed app tasks (syncApp app tasks table.entries) =
        placed app tasks table.entries := by
      rw [placed, hothers]
      rfl
    rw [syncApp_placed app tasks (syncApp app tasks table.entries), hothers, hown, hsame,
      syncApp_placed app tasks table.entries]
    congr 1
    refine List.map_congr_left fun task htask => ?_
    simp only [newEntry, prevLast_map h htask]
  case reload =>
    intro text hprint
    exact schedulerInit_scheduleJson hnum (syncApp_fits table.fits hinterval)
      (length_syncApp table.room) hreads hprint

/-- And it does so only if the tasks that get a place fit. -/
theorem fits_of_synchronised (table : Table)
    (hinterval : ∀ task ∈ tasks, task.intervalS < 2 ^ 32)
    (h : Synchronised json toUint32 app tasks table.entries) :
    ∀ task ∈ placed app tasks table.entries, FitsTable app task := by
  intro task htask
  have hown := h.own
  have happ : app.strlen < 32 := by
    by_contra hlong
    -- no entry has the id of the app
    have hnone : (syncApp app tasks table.entries).filter (·.appId == app) = [] := by
      refine List.filter_eq_nil_iff.mpr fun e he heq => ?_
      have hshort := (syncApp_fits table.fits hinterval e he).appId
      rw [beq_iff_eq.mp heq] at hshort
      exact hlong hshort
    rw [hnone, List.map_nil] at hown
    rw [List.map_eq_nil_iff.mp hown.symm] at htask
    exact absurd htask (by simp)
  have hnone : (table.entries.filter (·.appId != app)).filter (·.appId == app) = [] := by
    rw [List.filter_filter]
    exact List.filter_eq_nil_iff.mpr fun e _ => by simp [bne]
  rw [syncApp_placed, List.filter_append, hnone, (filter_newEntry happ _ _).1, List.nil_append,
    List.map_map] at hown
  have hfields := List.map_inj_left.mp hown task htask
  simp only [Function.comp_apply, newEntry, Prod.mk.injEq, true_and] at hfields
  have hname := strlen_strncpy task.name (show 0 < 32 by decide)
  have hcron := strlen_strncpy task.cron (show 0 < 24 by decide)
  rw [hfields.1] at hname
  rw [hfields.2] at hcron
  exact ⟨happ, hname, hcron⟩

/-- A sync does what it is for exactly when the app's id and the tasks that get a place fit into
their fields. -/
theorem synchronised_iff (hnum : Uint32s json toUint32) (app : CStr) (tasks : List BgTask)
    (table : Table) (hinterval : ∀ task ∈ tasks, task.intervalS < 2 ^ 32)
    (hreads : json.Rereads (scheduleJson json (syncApp app tasks table.entries))) :
    Synchronised json toUint32 app tasks table.entries ↔
      ∀ task ∈ placed app tasks table.entries, FitsTable app task :=
  ⟨fits_of_synchronised table hinterval, synchronised_of_fits hnum table hinterval hreads⟩

end Sync

/-- The table with one entry. -/
def mailTable : Table where
  entries := [mailEntry]
  fits := by
    intro e he
    obtain rfl := List.mem_singleton.mp he
    exact ⟨by decide, by decide, by decide, by decide, by decide⟩
  room := by decide

theorem synchronised_clock :
    Synchronised clockJson Int.toNat (lit "clock") [⟨lit "poll", 900, lit ""⟩]
      mailTable.entries := by
  refine (synchronised_iff uint32s_clockJson _ _ mailTable (by decide) ?_).mpr ?_
  · exact Settings.rereads_tableJson (by decide +kernel) List.mem_cons_self (by decide +kernel)
      (by decide)
  · intro task htask
    obtain rfl : task = ⟨lit "poll", 900, lit ""⟩ := by
      simpa [placed] using List.mem_of_mem_take htask
    exact ⟨by decide, by decide, by decide⟩

/-- An app whose id has 32 characters. -/
def longNamed : Manifest where
  schemaVersion := 2
  appId := lit "weather_station_with_forecasts_2"
  name := lit "Weather"
  version := lit "1"
  sdkMin := 1
  entry := lit "main.bin"
  appType := .native
  capabilities := []
  bgEnabled := true
  bgTasks := [⟨lit "poll", 900, lit ""⟩]
  runtimeVersion := lit ""
  crossVersion := lit ""
  bytecodeAbi := 0

/-- Every sync adds its task once more. -/
theorem not_synchronised :
    ¬ ∀ manifest : Manifest, manifestValidate manifest = .ok → ∀ table : Table,
      Synchronised clockJson Int.toNat manifest.appId manifest.bgTasks table.entries := by
  intro hall
  have hagain := (hall longNamed (by decide) ⟨[], by simp, by decide⟩).again
  exact absurd (congrArg List.length hagain) (by decide)

end Background
end JppDos
