import JppDos.App.Manifest
import JppDos.Clock.Rtc
import JppDos.Lib.Machine
import Mathlib.Data.List.Nodup

/-!
# The schedule of background tasks

`jpp_bg_scheduler.c`: a table of up to eight tasks.  `jpp_bg_scheduler_sync_app` replaces
the entries of an app, `jpp_bg_scheduler_due` finds the first task whose time has come,
and `jpp_bg_scheduler_mark_run` notes when it ran.

An entry is found again by the names of app and task.

Main fact:
* `mem_markRun`: a mark goes to an entry with the names.
-/

namespace JppDos
namespace Background

open CText App Clock Calendar

/-- `bg_entry_t`. -/
structure BgEntry where
  appId : CStr
  task : CStr
  intervalS : Nat
  cron : CStr
  lastRun : Nat
deriving DecidableEq

/-- The names that an entry goes by. -/
def BgEntry.names (e : BgEntry) : CStr × CStr := (e.appId, e.task)

/-- `JPP_RESOURCE_BG_SCHEDULE_MAX`. -/
def bgScheduleMax : Nat := 8

/-- `days_from_civil`; its `int32_t` has room for years of six digits. -/
def daysFromCivil (y m d : Int) : Int :=
  let y := if m ≤ 2 then y - 1 else y
  let era := y / 400
  let yoe := y - era * 400
  let doy := (153 * (m + (if m > 2 then -3 else 9)) + 2) / 5 + d - 1
  let doe := yoe * 365 + yoe / 4 - yoe / 100 + doy
  era * 146097 + doe - 719468

/-- The seconds since 1970, without the limit of their type. -/
def secondsOf (dt : RtcDatetime) : Int :=
  daysFromCivil dt.year dt.month dt.day * 86400 + dt.hour * 3600 + dt.minute * 60 + dt.second

/-- `datetime_to_epoch`. -/
def datetimeToEpoch (dt : RtcDatetime) : Nat := (secondsOf dt % 2 ^ 32).toNat

/-- The day count is that of the calendar, 1 January 1970 being its day 719163. -/
theorem daysFromCivil_eq (d : Date) :
    daysFromCivil d.year d.month d.day = d.dayNumber - 719163 := by
  obtain ⟨hlow, hhigh⟩ := d.month_mem
  unfold daysFromCivil Date.dayNumber daysBeforeYear daysBeforeMonth
  generalize d.month = month at hlow hhigh ⊢
  generalize d.year = year
  by_cases hleap : IsLeap year <;> have hrule := hleap <;> unfold IsLeap at hrule <;>
    interval_cases month <;> simp only [hleap, if_true, if_false] <;> norm_num <;> omega

/-- `cron_field_matches`: the verdict, and the cursor behind the field. -/
def cronFieldMatches (cursor : List UInt8) (value : Int) : Bool × List UInt8 :=
  match cursor with
  | 42 :: rest => (true, rest.dropWhile (· = 32))
  | _ =>
      let digits := cursor.takeWhile fun c => 48 ≤ c && c ≤ 57
      (cronNumber digits = value, (cursor.drop digits.length).dropWhile (· = 32))

/-- `cron_matches`; day 0 of the week is a Sunday. -/
def cronMatches (cron : CStr) (dt : RtcDatetime) : Bool :=
  let dow := ((daysFromCivil dt.year dt.month dt.day + 4) % 2 ^ 32) % 7
  let (minute, p) := cronFieldMatches cron.val dt.minute
  let (hour, p) := cronFieldMatches p dt.hour
  let (day, p) := cronFieldMatches p dt.day
  let (month, p) := cronFieldMatches p dt.month
  let (weekday, _) := cronFieldMatches p dow
  minute && hour && day && month && weekday

/-- The `last_run` of a task before the sync. -/
def prevLast (prev : List BgEntry) (name : CStr) : Nat :=
  match prev.find? (·.task == name) with
  | some e => e.lastRun
  | none => 0

/-- The entry of a task. -/
def newEntry (appId : CStr) (prev : List BgEntry) (task : BgTask) : BgEntry where
  appId := appId.strncpy 32
  task := task.name.strncpy 32
  intervalS := task.intervalS
  cron := task.cron.strncpy 24
  lastRun := prevLast prev task.name

/-- The loop over the tasks; it ends where the table is full. -/
def addTasks (appId : CStr) (prev : List BgEntry) :
    List BgEntry → List BgTask → List BgEntry
  | entries, [] => entries
  | entries, task :: tasks =>
      if bgScheduleMax ≤ entries.length then entries
      else addTasks appId prev (entries ++ [newEntry appId prev task]) tasks

/-- `jpp_bg_scheduler_sync_app`. -/
def syncApp (appId : CStr) (tasks : List BgTask) (entries : List BgEntry) : List BgEntry :=
  addTasks appId (entries.filter (·.appId == appId)) (entries.filter (·.appId != appId)) tasks

/-- The time of an entry has come. -/
def isDue (now : RtcDatetime) (e : BgEntry) : Bool :=
  let epoch := datetimeToEpoch now
  if 0 < e.intervalS then e.lastRun = 0 ∨ epoch ≥ (e.lastRun + e.intervalS) % 2 ^ 32
  else cronMatches e.cron now ∧ epoch / 60 ≠ e.lastRun / 60

/-- `jpp_bg_scheduler_due`, on a clock that shows a time: the entry whose names it returns. -/
def due (now : RtcDatetime) (entries : List BgEntry) : Option BgEntry :=
  entries.find? (isDue now)

/-- The loop of `jpp_bg_scheduler_mark_run`. -/
def markRun (epoch : Nat) (appId task : CStr) : List BgEntry → List BgEntry
  | [] => []
  | e :: entries =>
      if e.appId = appId ∧ e.task = task then { e with lastRun := epoch } :: entries
      else e :: markRun epoch appId task entries

section Facts

variable {appId : CStr} {prev entries : List BgEntry} {tasks : List BgTask} {e : BgEntry}

/-- The table after the loop: some of the tasks, from the first on. -/
theorem addTasks_eq (appId : CStr) (prev entries : List BgEntry) (tasks : List BgTask) :
    addTasks appId prev entries tasks =
      entries ++ (tasks.take (bgScheduleMax - entries.length)).map (newEntry appId prev) := by
  induction tasks generalizing entries with
  | nil => simp [addTasks]
  | cons task tasks ih =>
      rw [addTasks]
      split_ifs with hfull
      · rw [Nat.sub_eq_zero_of_le hfull]
        simp
      · have hroom : bgScheduleMax - entries.length =
            bgScheduleMax - (entries ++ [newEntry appId prev task]).length + 1 := by
          rw [List.length_append, List.length_singleton]
          omega
        rw [ih, hroom]
        simp

/-- The entries of the other apps stay, and those of the app are made from its tasks. -/
theorem syncApp_eq (appId : CStr) (tasks : List BgTask) (entries : List BgEntry) :
    syncApp appId tasks entries =
      entries.filter (·.appId != appId) ++
        (tasks.take (bgScheduleMax - (entries.filter (·.appId != appId)).length)).map
          (newEntry appId (entries.filter (·.appId == appId))) :=
  addTasks_eq ..

theorem mem_syncApp (h : e ∈ syncApp appId tasks entries) :
    (e ∈ entries ∧ e.appId ≠ appId) ∨
      ∃ task ∈ tasks, e = newEntry appId (entries.filter (·.appId == appId)) task := by
  rw [syncApp_eq, List.mem_append, List.mem_filter, List.mem_map] at h
  rcases h with ⟨hmem, happ⟩ | ⟨task, htask, rfl⟩
  · exact Or.inl ⟨hmem, by simpa using happ⟩
  · exact Or.inr ⟨task, List.mem_of_mem_take htask, rfl⟩

/-- The names stay apart if those of the app's tasks do. -/
theorem nodup_syncApp (h : (entries.map BgEntry.names).Nodup) (happ : appId.strncpy 32 = appId)
    (htasks : (tasks.map fun task => task.name.strncpy 32).Nodup) :
    ((syncApp appId tasks entries).map BgEntry.names).Nodup := by
  rw [syncApp_eq, List.map_append, List.nodup_append]
  refine ⟨h.sublist (List.filter_sublist.map _), ?_, ?_⟩
  · have hpair : ∀ prev : List BgEntry, BgEntry.names ∘ newEntry appId prev =
        (fun name => (appId, name)) ∘ fun task : BgTask => task.name.strncpy 32 := by
      intro prev
      funext task
      simp [BgEntry.names, newEntry, happ]
    rw [List.map_map, hpair, ← List.map_map]
    refine List.Nodup.map (fun a b hab => (Prod.mk.inj hab).2) ?_
    exact htasks.sublist ((List.take_sublist _ _).map _)
  · intro a ha b hb hab
    rw [List.mem_map] at ha hb
    obtain ⟨e, he, rfl⟩ := ha
    obtain ⟨e', he', rfl⟩ := hb
    rw [List.mem_map] at he'
    obtain ⟨task, _, rfl⟩ := he'
    rw [List.mem_filter] at he
    have hne : e.appId ≠ appId := by simpa using he.2
    have heq : e.appId = appId.strncpy 32 := congrArg Prod.fst hab
    exact hne (heq.trans happ)

theorem names_markRun (epoch : Nat) (appId task : CStr) (entries : List BgEntry) :
    (markRun epoch appId task entries).map BgEntry.names = entries.map BgEntry.names := by
  induction entries with
  | nil => rfl
  | cons e entries ih =>
      rw [markRun]
      split_ifs
      · rfl
      · rw [List.map_cons, List.map_cons, ih]

/-- A mark changes one entry with the names; the rest was there before. -/
theorem mem_markRun {epoch : Nat} {task : CStr} (h : e ∈ markRun epoch appId task entries) :
    e ∈ entries ∨
      ∃ e' ∈ entries, e'.names = (appId, task) ∧ e = { e' with lastRun := epoch } := by
  induction entries with
  | nil => exact absurd h (by simp [markRun])
  | cons e' entries ih =>
      rw [markRun] at h
      split_ifs at h with hnames
      · rcases List.mem_cons.mp h with rfl | hmem
        · exact Or.inr ⟨e', List.mem_cons_self, by simp [BgEntry.names, hnames], rfl⟩
        · exact Or.inl (List.mem_cons_of_mem _ hmem)
      · rcases List.mem_cons.mp h with rfl | hmem
        · exact Or.inl List.mem_cons_self
        · rcases ih hmem with hold | ⟨e'', hmem', hnames', heq⟩
          · exact Or.inl (List.mem_cons_of_mem _ hold)
          · exact Or.inr ⟨e'', List.mem_cons_of_mem _ hmem', hnames', heq⟩

/-- Where the names are apart, the mark is on every entry that has them. -/
theorem lastRun_markRun {epoch : Nat} {task : CStr} (hnodup : (entries.map BgEntry.names).Nodup)
    (h : e ∈ markRun epoch appId task entries) (hnames : e.names = (appId, task)) :
    e.lastRun = epoch := by
  induction entries with
  | nil => exact absurd h (by simp [markRun])
  | cons e' entries ih =>
      rw [List.map_cons, List.nodup_cons] at hnodup
      rw [markRun] at h
      split_ifs at h with hfirst
      · rcases List.mem_cons.mp h with rfl | hmem
        · rfl
        · have hsame : e'.names = e.names := by
            rw [hnames]
            simp [BgEntry.names, hfirst]
          exact absurd (hsame ▸ List.mem_map_of_mem hmem) hnodup.1
      · rcases List.mem_cons.mp h with rfl | hmem
        · exact absurd ⟨congrArg Prod.fst hnames, congrArg Prod.snd hnames⟩ hfirst
        · exact ih hnodup.2 hmem

end Facts

end Background
end JppDos
