import JppDos.Background.Timing
import JppDos.Lib.Compaction
import JppDos.Lib.Json
import JppDos.Settings.RoundTrip

/-!
# The end of a session

When an app has returned, its task brings the schedule up to date: it compacts the table,
adds the tasks of the manifest and rewrites the file, step by step.  The main loop deletes
the task as soon as it sees `close_requested`, which the app may have set long before.

Main fact:
* `followsManifest_of_finished`: the schedule follows grant and manifest if the main loop
  finds the request after the sync only.
-/

namespace JppDos
namespace Background

open CText App Sdk Machine Compaction

section File

variable {ν : Type} (json : JsonLib ν) (toUint32 : ν → Nat)

/-- An entry in the file. -/
def entryJson (e : BgEntry) : Json ν := .object
  [(lit "app", .string e.appId), (lit "task", .string e.task),
    (lit "interval_s", .number (json.ofInt e.intervalS)), (lit "cron", .string e.cron),
    (lit "last_run", .number (json.ofInt e.lastRun))]

/-- The value that `save_schedule` prints. -/
def scheduleJson (entries : List BgEntry) : Json ν := .object
  [(lit "v", .number (json.ofInt 1)), (lit "entries", .array (entries.map (entryJson json)))]

/-- An element of `entries`, if it has the names of app and task. -/
def loadEntry (v : Json ν) : Option BgEntry := do
  let app ← (v.getItem (lit "app")).bind Json.string?
  let task ← (v.getItem (lit "task")).bind Json.string?
  return {
    appId := app.strncpy 32
    task := task.strncpy 32
    intervalS := (((v.getItem (lit "interval_s")).bind Json.number?).map toUint32).getD 0
    cron := copied ((v.getItem (lit "cron")).bind Json.string?) 24
    lastRun := (((v.getItem (lit "last_run")).bind Json.number?).map toUint32).getD 0 }

/-- `jpp_bg_scheduler_init`. -/
def schedulerInit (file : Option CStr) : List BgEntry :=
  match file.bind json.parse with
  | none => []
  | some root =>
      ((((root.getItem (lit "entries")).map Json.children).getD []).filterMap
        (loadEntry toUint32)).take bgScheduleMax

/-- An entry as its fields hold it: `char[32]`, `char[24]` and `uint32_t`. -/
structure BgEntry.Fits (e : BgEntry) : Prop where
  appId : e.appId.strlen < 32
  task : e.task.strlen < 32
  cron : e.cron.strlen < 24
  intervalS : e.intervalS < 2 ^ 32
  lastRun : e.lastRun < 2 ^ 32

/-- The numbers of a table go through a double. -/
structure Uint32s : Prop where
  toUint32_ofInt : ∀ n : Nat, n < 2 ^ 32 → toUint32 (json.ofInt n) = n
  finite_ofInt : ∀ n, json.finite (json.ofInt n) = true

variable {json toUint32}

theorem loadEntry_entryJson (hnum : Uint32s json toUint32) {e : BgEntry} (h : e.Fits) :
    loadEntry toUint32 (entryJson json e) = some e := by
  have happ : (entryJson json e).getItem (lit "app") = some (.string e.appId) := rfl
  have htask : (entryJson json e).getItem (lit "task") = some (.string e.task) := rfl
  have hinterval : (entryJson json e).getItem (lit "interval_s") =
      some (.number (json.ofInt e.intervalS)) := rfl
  have hcron : (entryJson json e).getItem (lit "cron") = some (.string e.cron) := rfl
  have hlast : (entryJson json e).getItem (lit "last_run") =
      some (.number (json.ofInt e.lastRun)) := rfl
  simp only [loadEntry, happ, htask, hinterval, hcron, hlast, Option.bind_some, Json.string?,
    Json.number?, Option.map_some, Option.getD_some, copied, Option.bind_eq_bind,
    CStr.strncpy_of_lt h.appId, CStr.strncpy_of_lt h.task, CStr.strncpy_of_lt h.cron,
    hnum.toUint32_ofInt _ h.intervalS, hnum.toUint32_ofInt _ h.lastRun]
  rfl

theorem depth_scheduleJson (entries : List BgEntry) :
    (scheduleJson json entries).depth ≤ jsonNestingLimit := by
  have hitems : Json.depthItems (entries.map (entryJson json)) ≤ 1 := by
    induction entries with
    | nil => simp [Json.depthItems]
    | cons e entries ih =>
        rw [List.map_cons, Json.depthItems]
        exact max_le (by simp [entryJson, Json.depth, Json.depthMembers]) ih
  simp only [scheduleJson, Json.depth, Json.depthMembers, jsonNestingLimit]
  omega

theorem sanitize_scheduleJson (hnum : Uint32s json toUint32) (entries : List BgEntry) :
    (scheduleJson json entries).sanitize json.finite = scheduleJson json entries := by
  have hentry : ∀ e : BgEntry, (entryJson json e).sanitize json.finite = entryJson json e := by
    intro e
    simp only [entryJson, Json.sanitize, Json.sanitizeMembers, hnum.finite_ofInt, if_true]
  have hitems : Json.sanitizeItems json.finite (entries.map (entryJson json)) =
      entries.map (entryJson json) := by
    induction entries with
    | nil => rfl
    | cons e entries ih => rw [List.map_cons, Json.sanitizeItems, hentry, ih]
  simp only [scheduleJson, Json.sanitize, Json.sanitizeMembers, hnum.finite_ofInt, if_true, hitems]

theorem schedulerInit_scheduleJson (hnum : Uint32s json toUint32) {entries : List BgEntry}
    (hfits : ∀ e ∈ entries, e.Fits) (hlen : entries.length ≤ bgScheduleMax)
    (hreads : json.Rereads (scheduleJson json entries)) {text : CStr}
    (hprint : json.printUnformatted (scheduleJson json entries) = some text) :
    schedulerInit json toUint32 (some text) = entries := by
  obtain ⟨text', hprint', _, hparse⟩ := hreads
  obtain rfl : text = text' := Option.some.inj (hprint.symm.trans hprint')
  rw [if_pos (depth_scheduleJson entries), sanitize_scheduleJson hnum] at hparse
  have hitem : (scheduleJson json entries).getItem (lit "entries") =
      some (.array (entries.map (entryJson json))) := rfl
  have hload : (entries.map (entryJson json)).filterMap (loadEntry toUint32) = entries := by
    rw [List.filterMap_map]
    refine (List.filterMap_congr fun e he => ?_).trans List.filterMap_some
    exact loadEntry_entryJson hnum (hfits e he)
  simp only [schedulerInit, Option.bind_some, hparse, hitem, Option.map_some, Option.getD_some,
    Json.children, hload, List.take_of_length_le hlen]

end File

/-- Where the task of an app stands: in the app's own code, in the loops of
`jpp_bg_scheduler_sync_app`, in `save_schedule` before and behind `fopen`, behind the sync,
suspended; or it is deleted. -/
inductive TaskAt where
  | running
  | compact (tasks : List BgTask) (i w : Nat) (prev : List BgEntry)
  | add (tasks : List BgTask) (prev : List BgEntry)
  | save
  | openFile (text : CStr)
  | write (text : CStr)
  | signal
  | suspended
  | deleted

/-- What the task and the main loop share. -/
structure World where
  slots : List BgEntry
  count : Nat
  file : Option CStr
  grants : GrantFiles
  closeRequested : Bool
  task : TaskAt

/-- The schedule table. -/
def World.table (s : World) : List BgEntry := s.slots.take s.count

/-- The app in its own code persists a grant, asks to be closed, or returns; a loader that
fails asks for it too.  The task does its next step behind the app's code, where `fopen` may
fail.  The main loop handles a request. -/
inductive CloseOp where
  | allow (cap : CStr)
  | requestClose
  | returns (loaded : Bool)
  | next (opens : Bool)
  | mainLoop
deriving DecidableEq

/-- A task as its fields hold it: `char[32]`, `char[24]` and `unsigned`. -/
structure TaskFits (task : BgTask) : Prop where
  name : task.name.strlen < 32
  cron : task.cron.strlen < 24
  intervalS : task.intervalS < 2 ^ 32

/-- A session: the app's directory, and its manifest, whose tasks are in their buffers. -/
structure AppSession where
  app : CStr
  manifest : Manifest
  fits : ∀ task ∈ manifest.bgTasks, TaskFits task

/-- What `sd_app_task_fn` passes to the sync. -/
def AppSession.tasks (session : AppSession) (grants : GrantFiles) : List BgTask :=
  if session.manifest.bgEnabled && grantIsPersisted grants session.app (lit "background.register")
  then session.manifest.bgTasks else []

section Steps

variable {ν : Type} (json : JsonLib ν) (session : AppSession)

/-- An iteration of the loop that drops the entries of the app. -/
def compactStep (s : World) (tasks : List BgTask) (i w : Nat) (prev : List BgEntry) : World :=
  if i < s.count then
    match s.slots[i]? with
    | none => s
    | some e =>
        if e.appId = session.app then
          { s with task := .compact tasks (i + 1) w (prev ++ [e]) }
        else
          { s with
            slots := if w ≠ i then s.slots.set w e else s.slots
            task := .compact tasks (i + 1) (w + 1) prev }
  else { s with count := w, task := .add tasks prev }

/-- An iteration of the loop over the tasks. -/
def addStep (s : World) (prev : List BgEntry) : List BgTask → World
  | [] => { s with task := .save }
  | task :: tasks =>
      if bgScheduleMax ≤ s.count then { s with task := .save }
      else
        { s with
          slots := s.slots.set s.count (newEntry session.app prev task)
          count := s.count + 1
          task := .add tasks prev }

/-- The next step of the task behind the app's code. -/
def taskStep (s : World) (opens : Bool) : World :=
  match s.task with
  | .compact tasks i w prev => compactStep session s tasks i w prev
  | .add tasks prev => addStep session s prev tasks
  | .save =>
      match json.printUnformatted (scheduleJson json s.table) with
      | none => { s with task := .signal }
      | some text => { s with task := .openFile text }
  | .openFile text =>
      if opens then { s with file := some (lit ""), task := .write text }
      else { s with task := .signal }
  | .write text => { s with file := some text, task := .signal }
  | .signal => { s with closeRequested := true, task := .suspended }
  | .running | .suspended | .deleted => s

/-- The task is in the app's own code. -/
def TaskAt.isRunning : TaskAt → Bool
  | .running => true
  | _ => false

/-- One operation; the output is `SD_APP_CLOSED`. -/
def closeStep (s : World) : CloseOp → World × List Unit
  | .allow cap =>
      if s.task.isRunning then ({ s with grants := grantPersist s.grants session.app cap }, [])
      else (s, [])
  | .requestClose =>
      if s.task.isRunning then ({ s with closeRequested := true }, []) else (s, [])
  | .returns loaded =>
      if s.task.isRunning then
        ({ s with
            closeRequested := s.closeRequested || !loaded
            task := .compact (session.tasks s.grants) 0 0 [] }, [])
      else (s, [])
  | .next opens => (taskStep json session s opens, [])
  | .mainLoop =>
      match s.task with
      | .deleted => (s, [])
      | _ => if s.closeRequested then ({ s with task := .deleted }, [()]) else (s, [])

end Steps

section Sync

variable {ν : Type} {json : JsonLib ν} {session : AppSession} {before : List BgEntry} {s : World}

/-- The table that the sync has to make of the one before it. -/
def AppSession.target (session : AppSession) (grants : GrantFiles) (before : List BgEntry) :
    List BgEntry :=
  syncApp session.app (session.tasks grants) before

/-- What has been done where the task stands. -/
def Progress (json : JsonLib ν) (session : AppSession) (before : List BgEntry) (s : World) :
    Prop :=
  match s.task with
  | .running => s.table = before
  | .compact tasks i w prev =>
      tasks = session.tasks s.grants ∧ s.count = before.length ∧
        prev = (before.take i).filter (·.appId == session.app) ∧
        Compacting (fun e : BgEntry => e.appId != session.app) before s.slots i w
  | .add tasks prev =>
      addTasks session.app prev s.table tasks = session.target s.grants before
  | .save => s.table = session.target s.grants before
  | .openFile text | .write text =>
      s.table = session.target s.grants before ∧
        json.printUnformatted (scheduleJson json s.table) = some text
  | .signal | .suspended | .deleted =>
      s.table = session.target s.grants before ∧
        ∀ text, json.printUnformatted (scheduleJson json s.table) = some text →
          s.file = some text

/-- The table is in its array, and the sync is as far as the task. -/
structure Syncing (json : JsonLib ν) (session : AppSession) (before : List BgEntry) (s : World) :
    Prop where
  room : s.slots.length = bgScheduleMax
  inside : s.count ≤ bgScheduleMax
  progress : Progress json session before s

theorem TaskAt.isRunning_iff {task : TaskAt} : task.isRunning = true ↔ task = .running := by
  cases task <;> simp [TaskAt.isRunning]

/-- The first iteration comes with the whole table before it. -/
theorem Syncing.returns (h : Syncing json session before s) (hrun : s.task = .running)
    (closing : Bool) :
    Syncing json session before
      { s with
        closeRequested := closing
        task := .compact (session.tasks s.grants) 0 0 [] } where
  room := h.room
  inside := h.inside
  progress := by
    have htable : s.table = before := by
      have hprogress := h.progress
      rwa [Progress, hrun] at hprogress
    have hcount : s.count = before.length := by
      rw [← htable, World.table, List.length_take, h.room]
      exact (Nat.min_eq_left h.inside).symm
    refine ⟨rfl, hcount, rfl, Compacting.start ?_⟩
    rw [← hcount]
    exact htable

theorem Syncing.compactStep (h : Syncing json session before s) {tasks : List BgTask}
    {i w : Nat} {prev : List BgEntry} (hat : s.task = .compact tasks i w prev) :
    Syncing json session before (compactStep session s tasks i w prev) := by
  have hprogress := h.progress
  rw [Progress, hat] at hprogress
  obtain ⟨htasks, hcount, hprev, hcompacting⟩ := hprogress
  by_cases hi : i < s.count
  · have hlt : i < before.length := hcount ▸ hi
    have hnext := hcompacting.next hlt
    have htake := List.take_succ_eq_append_getElem hlt
    by_cases happ : before[i].appId = session.app
    · simp only [Background.compactStep, hi, if_true, hnext, happ]
      refine ⟨h.room, h.inside, htasks, hcount, ?_, hcompacting.skip hlt (by simp [happ])⟩
      rw [hprev, htake, List.filter_append, List.filter_singleton, beq_iff_eq.mpr happ]
      rfl
    · have hkeep : (before[i].appId != session.app) = true := bne_iff_ne.mpr happ
      have hsame : prev = (before.take (i + 1)).filter (·.appId == session.app) := by
        rw [hprev, htake, List.filter_append, List.filter_singleton, beq_eq_false_iff_ne.mpr happ,
          Bool.cond_false, List.append_nil]
      simp only [Background.compactStep, hi, if_true, hnext, happ, if_false]
      by_cases hw : w = i
      · subst hw
        simp only [ne_eq, not_true_eq_false, if_false]
        exact ⟨h.room, h.inside, htasks, hcount, hsame, hcompacting.stay hlt hkeep⟩
      · simp only [ne_eq, hw, not_false_eq_true, if_true]
        refine ⟨?_, h.inside, htasks, hcount, hsame, hcompacting.keep hlt hkeep⟩
        rw [List.length_set]
        exact h.room
  · have hend : before.length ≤ i := by omega
    simp only [Background.compactStep, hi, if_false]
    refine ⟨h.room, hcompacting.le.trans (hcompacting.inside.trans (hcount ▸ h.inside)), ?_⟩
    change addTasks session.app prev (s.slots.take w) tasks = _
    rw [hcompacting.finish hend, hprev, htasks, List.take_of_length_le hend]
    rfl

theorem Syncing.addStep (h : Syncing json session before s) {tasks : List BgTask}
    {prev : List BgEntry} (hat : s.task = .add tasks prev) :
    Syncing json session before (addStep session s prev tasks) := by
  have hprogress := h.progress
  rw [Progress, hat] at hprogress
  cases tasks with
  | nil => exact ⟨h.room, h.inside, hprogress⟩
  | cons task tasks =>
      have hlen : s.table.length = s.count := by
        rw [World.table, List.length_take, h.room]
        exact Nat.min_eq_left h.inside
      simp only [Background.addStep]
      simp only [addTasks, hlen] at hprogress
      split_ifs with hfull
      · rw [if_pos hfull] at hprogress
        exact ⟨h.room, h.inside, hprogress⟩
      · rw [if_neg hfull] at hprogress
        have hlt : s.count < (s.slots.set s.count (newEntry session.app prev task)).length := by
          rw [List.length_set, h.room]
          omega
        refine ⟨?_, Nat.lt_of_not_le hfull, ?_⟩
        · rw [List.length_set]
          exact h.room
        · change addTasks session.app prev
            ((s.slots.set s.count (newEntry session.app prev task)).take (s.count + 1)) tasks = _
          rw [List.take_succ_eq_append_getElem hlt, List.getElem_set_self,
            List.take_set_of_le (Nat.le_refl _)]
          exact hprogress

/-- The steps of `save_schedule`, and the last one. -/
theorem Syncing.taskStep (h : Syncing json session before s) {opens : Bool}
    (hopens : opens = true) : Syncing json session before (taskStep json session s opens) := by
  subst hopens
  have hprogress := h.progress
  unfold Background.taskStep
  unfold Progress at hprogress
  cases hat : s.task with
  | running | suspended | deleted => exact h
  | compact tasks i w prev => exact h.compactStep hat
  | add tasks prev => exact h.addStep hat
  | save =>
      rw [hat] at hprogress
      cases hprint : json.printUnformatted (scheduleJson json s.table) with
      | none =>
          refine ⟨h.room, h.inside, hprogress, fun text htext => ?_⟩
          exact absurd (hprint.symm.trans htext) (by simp)
      | some text => exact ⟨h.room, h.inside, hprogress, hprint⟩
  | openFile text =>
      rw [hat] at hprogress
      exact ⟨h.room, h.inside, hprogress⟩
  | write text =>
      rw [hat] at hprogress
      obtain ⟨htable, hprint⟩ := hprogress
      exact ⟨h.room, h.inside, htable, fun text' htext' => hprint.symm.trans htext'⟩
  | signal =>
      rw [hat] at hprogress
      exact ⟨h.room, h.inside, hprogress⟩

/-- The sync is over. -/
def TaskAt.Done : TaskAt → Prop
  | .signal | .suspended | .deleted => True
  | _ => False

instance : (task : TaskAt) → Decidable task.Done
  | .signal | .suspended | .deleted => inferInstanceAs (Decidable True)
  | .running | .compact .. | .add .. | .save | .openFile _ | .write _ =>
      inferInstanceAs (Decidable False)

/-- The main loop finds a request after the sync only, and the file opens. -/
def Finished (s : World) : CloseOp → Prop
  | .mainLoop => s.closeRequested = true → s.task.Done
  | .next opens => opens = true
  | _ => True

instance (s : World) : (op : CloseOp) → Decidable (Finished s op)
  | .mainLoop => inferInstanceAs (Decidable (_ → _))
  | .next _ => inferInstanceAs (Decidable (_ = _))
  | .allow _ | .requestClose | .returns _ => inferInstanceAs (Decidable True)

theorem Syncing.step (h : Syncing json session before s) (op : CloseOp) (hop : Finished s op) :
    Syncing json session before (closeStep json session s op).1 := by
  have hprogress := h.progress
  unfold Progress at hprogress
  cases op with
  | allow cap =>
      simp only [closeStep]
      split_ifs with hrun
      · rw [TaskAt.isRunning_iff] at hrun
        refine ⟨h.room, h.inside, ?_⟩
        simp only [Progress, hrun] at hprogress ⊢
        exact hprogress
      · exact h
  | requestClose =>
      simp only [closeStep]
      split_ifs
      · exact ⟨h.room, h.inside, h.progress⟩
      · exact h
  | returns loaded =>
      simp only [closeStep]
      split_ifs with hrun
      · exact h.returns (TaskAt.isRunning_iff.mp hrun) _
      · exact h
  | next opens => exact h.taskStep hop
  | mainLoop =>
      have hdone : s.closeRequested = true → s.task.Done := hop
      unfold closeStep
      cases hat : s.task with
      | deleted => exact h
      | running | compact tasks i w prev | add tasks prev | save | openFile text | write text =>
          rw [hat] at hdone
          have hclosed : ¬ s.closeRequested = true := fun hclosed => hdone hclosed
          simp only [hclosed]
          exact h
      | signal | suspended =>
          rw [hat] at hprogress
          cases s.closeRequested with
          | true => exact ⟨h.room, h.inside, hprogress⟩
          | false => exact h

end Sync

section Leaves

variable {ν : Type} {json : JsonLib ν} {toUint32 : ν → Nat} {session : AppSession}

/-- The schedule follows grant and manifest: the other apps' entries are those before the
session, the app's are its tasks as far as there is room, and the file gives the table. -/
structure FollowsManifest (json : JsonLib ν) (toUint32 : ν → Nat) (session : AppSession)
    (before : List BgEntry) (s : World) : Prop where
  others : s.table.filter (·.appId != session.app) = before.filter (·.appId != session.app)
  own : ((s.table.filter (·.appId == session.app)).map fun e => (e.task, e.intervalS, e.cron)) =
    ((session.tasks s.grants).take
      (bgScheduleMax - (before.filter (·.appId != session.app)).length)).map
        fun task => (task.name, task.intervalS, task.cron)
  file : schedulerInit json toUint32 s.file = s.table

/-- A session that has just been launched, over any table. -/
structure World.Launched (s : World) : Prop where
  room : s.slots.length = bgScheduleMax
  inside : s.count ≤ bgScheduleMax
  fits : ∀ e ∈ s.table, e.Fits
  notAsked : s.closeRequested = false
  running : s.task = .running

theorem AppSession.tasks_fit {grants : GrantFiles} :
    ∀ task ∈ session.tasks grants, TaskFits task := by
  intro task htask
  unfold AppSession.tasks at htask
  split_ifs at htask
  · exact session.fits task htask
  · exact absurd htask (by simp)

theorem strlen_strncpy (s : CStr) {bufLen : Nat} (h : 0 < bufLen) :
    (s.strncpy bufLen).strlen < bufLen := by
  simp only [CStr.strlen, CStr.strncpy, List.length_take]
  omega

/-- The entry of a task fits, whatever the length of the app's name. -/
theorem newEntry_fits {app : CStr} {prev : List BgEntry} {task : BgTask}
    (hprev : ∀ e ∈ prev, e.Fits) (hinterval : task.intervalS < 2 ^ 32) :
    (newEntry app prev task).Fits where
  appId := strlen_strncpy _ (by decide)
  task := strlen_strncpy _ (by decide)
  cron := strlen_strncpy _ (by decide)
  intervalS := hinterval
  lastRun := by
    simp only [newEntry, prevLast]
    cases hfind : prev.find? (·.task == task.name) with
    | none => decide
    | some e => exact (hprev e (List.mem_of_find?_eq_some hfind)).lastRun

theorem target_fits {before : List BgEntry} (h : ∀ e ∈ before, e.Fits) (grants : GrantFiles) :
    ∀ e ∈ session.target grants before, e.Fits := by
  intro e he
  rcases mem_syncApp he with ⟨hold, _⟩ | ⟨task, htask, rfl⟩
  · exact h e hold
  · exact newEntry_fits (fun e he => h e (List.mem_filter.mp he).1)
      (AppSession.tasks_fit task htask).intervalS

/-- The entries that are made for an app whose name fits have its name. -/
theorem filter_newEntry {app : CStr} (happ : app.strlen < 32) (prev : List BgEntry)
    (tasks : List BgTask) :
    (tasks.map (newEntry app prev)).filter (·.appId == app) = tasks.map (newEntry app prev) ∧
      (tasks.map (newEntry app prev)).filter (·.appId != app) = [] := by
  have hname : ∀ e ∈ tasks.map (newEntry app prev), e.appId = app := by
    intro e he
    obtain ⟨task, _, rfl⟩ := List.mem_map.mp he
    exact CStr.strncpy_of_lt happ
  constructor
  · rw [List.filter_eq_self]
    exact fun e he => beq_iff_eq.mpr (hname e he)
  · rw [List.filter_eq_nil_iff]
    exact fun e he => by simp [hname e he]

theorem others_target {before : List BgEntry} {grants : GrantFiles}
    (happ : session.app.strlen < 32) :
    (session.target grants before).filter (·.appId != session.app) =
      before.filter (·.appId != session.app) := by
  rw [AppSession.target, syncApp_eq, List.filter_append, List.filter_filter,
    (filter_newEntry happ _ _).2, List.append_nil]
  simp only [Bool.and_self]

theorem own_target {before : List BgEntry} {grants : GrantFiles}
    (happ : session.app.strlen < 32) :
    (((session.target grants before).filter (·.appId == session.app)).map
        fun e => (e.task, e.intervalS, e.cron)) =
      ((session.tasks grants).take
        (bgScheduleMax - (before.filter (·.appId != session.app)).length)).map
          fun task => (task.name, task.intervalS, task.cron) := by
  rw [AppSession.target, syncApp_eq, List.filter_append, List.filter_filter,
    (filter_newEntry happ _ _).1, List.filter_eq_nil_iff.mpr fun e _ => by simp [bne],
    List.nil_append, List.map_map]
  refine List.map_congr_left fun task htask => ?_
  have hfits := AppSession.tasks_fit task (List.mem_of_mem_take htask)
  simp only [Function.comp_apply, newEntry, CStr.strncpy_of_lt hfits.name,
    CStr.strncpy_of_lt hfits.cron]

/-- The schedule follows grant and manifest after a session whose close request the main loop
finds behind the sync, and whose file opens. -/
theorem followsManifest_of_finished (hnum : Uint32s json toUint32) {start : World}
    (hstart : start.Launched) (happ : session.app.strlen < 32) (ops : List CloseOp)
    (hreads : json.Rereads (scheduleJson json (run (closeStep json session) start ops).table))
    (hops : Along (closeStep json session) Finished start ops)
    (hended : (run (closeStep json session) start ops).task = .deleted) :
    FollowsManifest json toUint32 session start.table (run (closeStep json session) start ops) := by
  have hlaunch : Syncing json session start.table start := by
    refine ⟨hstart.room, hstart.inside, ?_⟩
    rw [Progress, hstart.running]
  have hend : Syncing json session start.table (run (closeStep json session) start ops) :=
    Along.invariant (I := Syncing json session start.table)
      (fun _ op hs hop => hs.step op hop) hops hlaunch
  obtain ⟨htable, hfile⟩ : (run (closeStep json session) start ops).table =
        session.target (run (closeStep json session) start ops).grants start.table ∧ _ := by
    have hprogress := hend.progress
    rwa [Progress, hended] at hprogress
  generalize run (closeStep json session) start ops = s at hreads hend htable hfile ⊢
  have hlen : s.table.length ≤ bgScheduleMax := by
    rw [World.table, List.length_take, hend.room]
    exact Nat.min_le_right _ _
  have ⟨text, hprint, _⟩ := hreads
  refine ⟨?_, ?_, ?_⟩
  · rw [htable]
    exact others_target happ
  · rw [htable]
    exact own_target happ
  · rw [hfile text hprint]
    exact schedulerInit_scheduleJson hnum (htable ▸ target_fits hstart.fits _) hlen hreads hprint

end Leaves

/-- The tasks of a manifest that was loaded are in their buffers. -/
theorem taskFits_of_load {dir : CStr} {manifest : ManifestJson}
    (hinterval : ∀ task ∈ manifest.bgTasks, ∀ n ∈ task.intervalS, n < 2 ^ 32) :
    ∀ task ∈ (loadSdManifest dir manifest).bgTasks, TaskFits task := by
  intro task htask
  obtain ⟨t, ht, hload⟩ := List.mem_filterMap.mp (List.mem_of_mem_take htask)
  obtain ⟨name, _, rfl⟩ := Option.map_eq_some_iff.mp hload
  refine ⟨strlen_strncpy _ (by decide), strlen_strncpy _ (by decide), ?_⟩
  cases hn : t.intervalS with
  | none => simp
  | some n => simpa using hinterval t ht n hn

/-- A session of an app with one task. -/
def clockSession : AppSession where
  app := lit "clock"
  manifest := loadSdManifest (lit "clock") (manifestWith [quarterly])
  fits := taskFits_of_load (by simp [manifestWith, quarterly])

/-- An entry of another app. -/
def mailEntry : BgEntry := ⟨lit "mail", lit "fetch", 3600, lit "", 0⟩

/-- A slot that was never used. -/
def blankEntry : BgEntry := ⟨lit "", lit "", 0, lit "", 0⟩

/-- The app has the grant, and the table one entry of another app. -/
def clockLaunch : World where
  slots := mailEntry :: List.replicate 7 blankEntry
  count := 1
  file := none
  grants := grantPersist (fun _ => none) (lit "clock") (lit "background.register")
  closeRequested := false
  task := .running

theorem launched_clockLaunch : clockLaunch.Launched where
  room := rfl
  inside := by decide
  fits := by
    intro e he
    obtain rfl : e = mailEntry := by simpa [World.table, clockLaunch] using he
    exact ⟨by decide, by decide, by decide, by decide, by decide⟩
  notAsked := rfl
  running := rfl

/-- The table that the session leaves. -/
def clockTable : List BgEntry := [mailEntry, ⟨lit "clock", lit "poll", 900, lit "", 0⟩]

/-- A package that reads the text of this table. -/
def clockJson : JsonLib Int :=
  Settings.tableJson [scheduleJson (Settings.tableJson []) clockTable]

theorem uint32s_clockJson : Uint32s clockJson Int.toNat :=
  ⟨fun n _ => Int.toNat_natCast n, fun _ => rfl⟩

instance : (task : TaskAt) → Decidable (task = .deleted)
  | .deleted => isTrue rfl
  | .running | .compact .. | .add .. | .save | .openFile _ | .write _ | .signal | .suspended =>
      isFalse (by simp)

/-- The app asks to be closed and returns; the main loop comes behind the sync. -/
def lateClose : List CloseOp :=
  .requestClose :: .returns true :: (List.replicate 7 (.next true) ++ [.mainLoop])

theorem followsManifest_lateClose :
    FollowsManifest clockJson Int.toNat clockSession clockLaunch.table
      (run (closeStep clockJson clockSession) clockLaunch lateClose) := by
  have htable : (run (closeStep clockJson clockSession) clockLaunch lateClose).table =
      clockTable := by decide
  refine followsManifest_of_finished uint32s_clockJson launched_clockLaunch (by decide)
    lateClose ?_ (by decide) (by decide)
  rw [htable]
  exact Settings.rereads_tableJson (by decide +kernel) List.mem_cons_self (by decide +kernel)
    (by decide)

/-- The app asks to be closed, and the main loop deletes its task before it has returned: the
table has no task of an app with grant and manifest. -/
theorem not_followsManifest :
    ¬ ∀ ops, (run (closeStep clockJson clockSession) clockLaunch ops).task = .deleted →
      FollowsManifest clockJson Int.toNat clockSession clockLaunch.table
        (run (closeStep clockJson clockSession) clockLaunch ops) := by
  intro h
  have hown := (h [.requestClose, .mainLoop] (by decide)).own
  exact absurd hown (by decide)

end Background
end JppDos
