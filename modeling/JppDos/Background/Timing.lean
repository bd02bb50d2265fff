import JppDos.Background.Schedule

/-!
# When background tasks fire

The turns of the main loop that run a due task, and the syncs at the end of the sessions
in between, on a clock that does not go back.

Main fact:
* `onTime_of_clean`: no task fires early or twice where names are apart and times fit.
-/

namespace JppDos
namespace Background

open CText App Clock Machine Sdk

/-- A session of an app ends, or the main loop is idle: it asks for a due task at one
time, and notes the run at another. -/
inductive BgOp where
  | sync (dir : CStr) (json : ManifestJson) (scheduled : Bool)
  | turn (dueAt markAt : RtcDatetime)

/-- The table, and the latest time the clock has shown. -/
structure Sched where
  entries : List BgEntry
  time : Int

/-- The clock has no time before the year 2000. -/
def clockStart : Int := 946684800

/-- Nothing scheduled yet. -/
def emptySched : Sched := ⟨[], clockStart⟩

/-- The tasks that `sd_app_task_fn` passes on. -/
def scheduledTasks (dir : CStr) (json : ManifestJson) (scheduled : Bool) : List BgTask :=
  if scheduled then (loadSdManifest dir json).bgTasks else []

/-- One operation, and the entry that fires. -/
def bgStep (s : Sched) : BgOp → Sched × List BgEntry
  | .sync dir json scheduled =>
      ({ s with entries := syncApp (dir.strncpy 64) (scheduledTasks dir json scheduled) s.entries },
        [])
  | .turn dueAt markAt =>
      match due dueAt s.entries with
      | none => ({ s with time := secondsOf markAt }, [])
      | some e =>
          (⟨markRun (datetimeToEpoch markAt) e.appId e.task s.entries, secondsOf markAt⟩, [e])

theorem bgStep_turn_time (s : Sched) (a b : RtcDatetime) :
    (bgStep s (.turn a b)).1.time = secondsOf b := by
  simp only [bgStep]
  cases due a s.entries <;> rfl

/-- The manifests are valid and the clock does not go back. -/
def Admitted (s : Sched) : BgOp → Prop
  | .sync dir json _ => manifestValidate (loadSdManifest dir json) = .ok
  | .turn dueAt markAt => s.time ≤ secondsOf dueAt ∧ secondsOf dueAt ≤ secondsOf markAt

/-- The app's directory fits the table, and no two of its tasks have one name. -/
def Clean (s : Sched) : BgOp → Prop
  | .sync dir json scheduled =>
      dir.strlen < 32 ∧ ((scheduledTasks dir json scheduled).map BgTask.name).Nodup
  | .turn _ markAt => ∀ e ∈ s.entries, secondsOf markAt + e.intervalS < 2 ^ 32

instance (s : Sched) : (op : BgOp) → Decidable (Admitted s op)
  | .sync dir json _ =>
      inferInstanceAs (Decidable (manifestValidate (loadSdManifest dir json) = .ok))
  | .turn _ _ => inferInstanceAs (Decidable (_ ∧ _))

instance (s : Sched) : (op : BgOp) → Decidable (Clean s op)
  | .sync .. => inferInstanceAs (Decidable (_ ∧ _))
  | .turn _ markAt =>
      inferInstanceAs (Decidable (∀ e ∈ s.entries, secondsOf markAt + e.intervalS < 2 ^ 32))

/-- An entry that fired at `fired` may fire at `again`. -/
def BgEntry.OnTime (e : BgEntry) (fired again : Int) : Prop :=
  if 0 < e.intervalS then fired + e.intervalS ≤ again else fired / 60 < again / 60

/-- No task fires early or twice in a run: wherever a task fires again that has not left the
table since it fired, it is on time. -/
def OnTimeAlong (ops : List BgOp) : Prop :=
  ∀ pre a b mid a' b' post e e', ops = pre ++ .turn a b :: (mid ++ .turn a' b' :: post) →
    due a (run bgStep emptySched pre).entries = some e →
    (∀ n, e.names ∈
      (run bgStep emptySched (pre ++ .turn a b :: mid.take n)).entries.map BgEntry.names) →
    due a' (run bgStep emptySched (pre ++ .turn a b :: mid)).entries = some e' →
    e'.names = e.names → e'.OnTime (secondsOf a) (secondsOf a')

/-- The names in the table are apart, and the clock has a time. -/
structure Apart (s : Sched) : Prop where
  names : (s.entries.map BgEntry.names).Nodup
  time : clockStart ≤ s.time

theorem strncpy_eq_self {dir : CStr} (h : dir.strlen < 32) :
    (dir.strncpy 64).strncpy 32 = dir.strncpy 64 := by
  have hroom : dir.strlen < 64 := by omega
  rw [CStr.strncpy_of_lt hroom, CStr.strncpy_of_lt h]

theorem scheduledTasks_name {dir : CStr} {json : ManifestJson} {scheduled : Bool} :
    ∀ task ∈ scheduledTasks dir json scheduled, task.name.strncpy 32 = task.name := by
  intro task htask
  unfold scheduledTasks at htask
  split_ifs at htask
  · have hload : task ∈ json.bgTasks.filterMap loadTask := List.mem_of_mem_take htask
    obtain ⟨t, _, ht⟩ := List.mem_filterMap.mp hload
    obtain ⟨name, _, rfl⟩ := Option.map_eq_some_iff.mp ht
    refine CStr.strncpy_of_lt ?_
    simp only [CStr.strlen, CStr.strncpy, List.length_take]
    omega
  · exact absurd htask (by simp)

theorem map_name_strncpy (dir : CStr) (json : ManifestJson) (scheduled : Bool) :
    (scheduledTasks dir json scheduled).map (fun task => task.name.strncpy 32) =
      (scheduledTasks dir json scheduled).map BgTask.name :=
  List.map_congr_left fun task htask => scheduledTasks_name task htask

theorem Apart.step {s : Sched} (h : Apart s) (op : BgOp) (hop : Admitted s op ∧ Clean s op) :
    Apart (bgStep s op).1 := by
  cases op with
  | sync dir json scheduled =>
      obtain ⟨_, hlen, hnames⟩ := hop
      refine ⟨nodup_syncApp h.names (strncpy_eq_self hlen) ?_, h.time⟩
      rw [map_name_strncpy]
      exact hnames
  | turn a b =>
      obtain ⟨⟨hdue, hmark⟩, _⟩ := hop
      have htime : clockStart ≤ secondsOf b := h.time.trans (hdue.trans hmark)
      simp only [bgStep]
      cases due a s.entries with
      | none => exact ⟨h.names, htime⟩
      | some e => exact ⟨by rw [names_markRun]; exact h.names, htime⟩

/-- The task of these names has fired at or after the time `fired`: its entry says so. -/
def FiredSince (names : CStr × CStr) (fired : Int) (s : Sched) : Prop :=
  ∀ e ∈ s.entries, e.names = names → fired ≤ e.lastRun ∧ (e.lastRun : Int) ≤ s.time

theorem datetimeToEpoch_of_lt {dt : RtcDatetime} (hpos : 0 ≤ secondsOf dt)
    (hlt : secondsOf dt < 2 ^ 32) : (datetimeToEpoch dt : Int) = secondsOf dt := by
  unfold datetimeToEpoch
  rw [Int.emod_eq_of_lt hpos hlt]
  exact Int.toNat_of_nonneg hpos

theorem Clean.secondsOf_lt {s : Sched} {a b : RtcDatetime} (h : Clean s (.turn a b)) {e : BgEntry}
    (he : e ∈ s.entries) : secondsOf b < 2 ^ 32 := by
  have := h e he
  omega

theorem firedSince_turn {s : Sched} (h : Apart s) {a b : RtcDatetime} {e : BgEntry}
    (hadm : Admitted s (.turn a b)) (hclean : Clean s (.turn a b))
    (hdue : due a s.entries = some e) :
    FiredSince e.names (secondsOf a) (bgStep s (.turn a b)).1 := by
  have hmem : e ∈ s.entries := List.mem_of_find?_eq_some hdue
  have hpos : 0 ≤ secondsOf b := by
    have hstart := h.time
    have hclock := hadm.1.trans hadm.2
    unfold clockStart at hstart
    omega
  have hepoch := datetimeToEpoch_of_lt hpos (hclean.secondsOf_lt hmem)
  intro e' he' hnames
  simp only [bgStep, hdue] at he' ⊢
  rw [lastRun_markRun h.names he' hnames, hepoch]
  exact ⟨hadm.2, Int.le_refl _⟩

/-- The run that a sync carries over to a task that was in the table. -/
theorem prevLast_mem {entries : List BgEntry} {appId name : CStr}
    (h : (appId, name) ∈ entries.map BgEntry.names) :
    ∃ e ∈ entries, e.names = (appId, name) ∧
      prevLast (entries.filter (·.appId == appId)) name = e.lastRun := by
  obtain ⟨e, he, hnames⟩ := List.mem_map.mp h
  have happ : e.appId = appId := congrArg Prod.fst hnames
  have htask : e.task = name := congrArg Prod.snd hnames
  obtain ⟨e', hfind⟩ :
      ∃ e', (entries.filter (·.appId == appId)).find? (·.task == name) = some e' :=
    Option.isSome_iff_exists.mp <| List.find?_isSome.mpr
      ⟨e, List.mem_filter.mpr ⟨he, by simp [happ]⟩, by simp [htask]⟩
  have hmem := List.mem_filter.mp (List.mem_of_find?_eq_some hfind)
  have hname := List.find?_some hfind
  refine ⟨e', hmem.1, ?_, by rw [prevLast, hfind]⟩
  exact Prod.ext (beq_iff_eq.mp hmem.2) (beq_iff_eq.mp hname)

/-- Every operation that leaves the task in the table leaves the note. -/
theorem FiredSince.step {names : CStr × CStr} {fired : Int} {s : Sched} (h : Apart s)
    (hfired : FiredSince names fired s) (hle : fired ≤ s.time)
    (hin : names ∈ s.entries.map BgEntry.names) (op : BgOp)
    (hop : Admitted s op ∧ Clean s op) :
    FiredSince names fired (bgStep s op).1 ∧ fired ≤ (bgStep s op).1.time := by
  cases op with
  | sync dir json scheduled =>
      obtain ⟨_, hlen, _⟩ := hop
      refine ⟨fun e he hnames => ?_, hle⟩
      rcases mem_syncApp he with ⟨hold, _⟩ | ⟨task, htask, rfl⟩
      · exact hfired e hold hnames
      · have hsame : ((dir.strncpy 64), task.name) = names := by
          rw [← hnames]
          simp only [newEntry, BgEntry.names, strncpy_eq_self hlen, scheduledTasks_name task htask]
        rw [← hsame] at hin
        obtain ⟨e', he', hnames', hlast⟩ := prevLast_mem hin
        have hnoted := hfired e' he' (hnames'.trans hsame)
        simp only [newEntry, hlast]
        exact hnoted
  | turn a b =>
      obtain ⟨⟨hdue, hmark⟩, hclean⟩ := hop
      have hclock : s.time ≤ secondsOf b := hdue.trans hmark
      have hnext : fired ≤ secondsOf b := hle.trans hclock
      have hkeep : ∀ e ∈ s.entries, e.names = names →
          fired ≤ e.lastRun ∧ (e.lastRun : Int) ≤ secondsOf b := by
        intro e he hnames
        obtain ⟨hlow, hhigh⟩ := hfired e he hnames
        exact ⟨hlow, hhigh.trans hclock⟩
      simp only [bgStep]
      cases due a s.entries with
      | none => exact ⟨hkeep, hnext⟩
      | some f =>
          refine ⟨fun e he hnames => ?_, hnext⟩
          rcases mem_markRun he with hold | ⟨e', he', _, rfl⟩
          · exact hkeep e hold hnames
          · have hstart := h.time
            have hepoch : (datetimeToEpoch b : Int) = secondsOf b :=
              datetimeToEpoch_of_lt (by unfold clockStart at hstart; omega)
                (Clean.secondsOf_lt (a := a) hclean he')
            simp only [hepoch]
            exact ⟨hnext, Int.le_refl _⟩

theorem onTime_of_firedSince {s : Sched} {fired : Int} {e : BgEntry} {a b : RtcDatetime}
    (hstart : clockStart ≤ fired) (hfired : FiredSince e.names fired s)
    (hadm : Admitted s (.turn a b)) (hclean : Clean s (.turn a b))
    (hdue : due a s.entries = some e) : e.OnTime fired (secondsOf a) := by
  have hmem : e ∈ s.entries := List.mem_of_find?_eq_some hdue
  obtain ⟨hlow, hhigh⟩ := hfired e hmem rfl
  obtain ⟨hclock, hmark⟩ := hadm
  have hlimit := hclean e hmem
  have hepoch : (datetimeToEpoch a : Int) = secondsOf a :=
    datetimeToEpoch_of_lt (by unfold clockStart at hstart; omega) (by omega)
  have hcome := List.find?_some hdue
  unfold clockStart at hstart
  unfold isDue at hcome
  unfold BgEntry.OnTime
  split_ifs with hinterval
  · simp only [hinterval, if_true, decide_eq_true_eq] at hcome
    rw [Nat.mod_eq_of_lt (by omega)] at hcome
    omega
  · simp only [hinterval, if_false, decide_eq_true_eq] at hcome
    omega

theorem apart_emptySched : Apart emptySched := ⟨List.nodup_nil, Int.le_refl _⟩

/-- A task that stays in the table after it fired carries the note of it. -/
theorem FiredSince.run {names : CStr × CStr} {fired : Int} {mid : List BgOp} :
    ∀ {s : Sched}, Apart s → FiredSince names fired s → fired ≤ s.time →
      Along bgStep (fun s op => Admitted s op ∧ Clean s op) s mid →
      (∀ n, names ∈ (Machine.run bgStep s (mid.take n)).entries.map BgEntry.names) →
      FiredSince names fired (Machine.run bgStep s mid) := by
  induction mid with
  | nil => exact fun _ hfired _ _ _ => hfired
  | cons op mid ih =>
      intro s h hfired hle hmid hin
      obtain ⟨hnext, htime⟩ := hfired.step h hle (hin 0) op hmid.1
      exact ih (h.step op hmid.1) hnext htime hmid.2 fun n => hin (n + 1)

/-- No task fires early or twice in a run of sessions and turns whose apps fit the table,
whose manifests give every task a name of its own, and whose times with the intervals of
the table fit the 32 bits of a `last_run`. -/
theorem onTime_of_clean (ops : List BgOp)
    (h : Along bgStep (fun s op => Admitted s op ∧ Clean s op) emptySched ops) :
    OnTimeAlong ops := by
  rintro pre a b mid a' b' post e e' rfl hdue hin hagain hnames
  obtain ⟨hpre, hfirst, hrest⟩ := (along_append _ _ _).mp h
  obtain ⟨hmid, hlast, _⟩ := (along_append _ _ _).mp hrest
  have hapart : Apart (Machine.run bgStep emptySched pre) :=
    Along.invariant (I := Apart) (fun _ op hs hop => hs.step op hop) hpre apart_emptySched
  have hsplit : ∀ ops, Machine.run bgStep emptySched (pre ++ .turn a b :: ops) =
      Machine.run bgStep (bgStep (Machine.run bgStep emptySched pre) (.turn a b)).1 ops :=
    fun ops => run_append bgStep emptySched pre (.turn a b :: ops)
  simp only [hsplit] at hin hagain
  have hnoted := firedSince_turn hapart hfirst.1 hfirst.2 hdue
  have hclock : secondsOf a ≤
      (bgStep (Machine.run bgStep emptySched pre) (.turn a b)).1.time := by
    rw [bgStep_turn_time]
    exact hfirst.1.2
  have hrun := hnoted.run (hapart.step _ hfirst) hclock hmid hin
  rw [← hnames] at hrun
  exact onTime_of_firedSince (hapart.time.trans hfirst.1.1) hrun hlast.1 hlast.2 hagain

/-- A task that runs every quarter of an hour. -/
def quarterly : TaskJson := ⟨some (lit "poll"), some 900, none⟩

/-- The manifest of a native app with these tasks. -/
def manifestWith (tasks : List TaskJson) : ManifestJson where
  name := some (lit "Clock")
  version := some (lit "1.0")
  entry := some (lit "main.bin")
  appType := some (lit "native")
  schemaVersion := some 2
  sdkMin := some 1
  capabilities := [some (lit "background.register")]
  bgEnabled := true
  bgTasks := tasks
  toolchain := none

/-- Noon of 1 March 2026, a Sunday, and some seconds. -/
def noonAnd (s : Int) : RtcDatetime := ⟨2026, 3, 1, 0, 12, 0, s, 0⟩

/-- A session of an app with one task, and two turns. -/
def quietRun : List BgOp :=
  [.sync (lit "clock") (manifestWith [quarterly]) true, .turn (noonAnd 0) (noonAnd 0),
    .turn (noonAnd 1) (noonAnd 1)]

theorem onTime_of_clean_quietRun : OnTimeAlong quietRun :=
  onTime_of_clean quietRun (by decide)

/-- Two tasks of one name, and a session that schedules them. -/
def twinTasks : List TaskJson := [quarterly, ⟨some (lit "poll"), some 3600, none⟩]

def twinSession : BgOp := .sync (lit "clock") (manifestWith twinTasks) true

/-- The entry of the second of them, which no mark ever reaches. -/
def secondTwin : BgEntry := ⟨lit "clock", lit "poll", 3600, lit "", 0⟩

/-- With two tasks of one name the mark of the second run is on the first entry, and the
second one fires again in the same second. -/
theorem not_onTime :
    ¬ ∀ ops, Along bgStep Admitted emptySched ops → OnTimeAlong ops := by
  intro h
  let noon : BgOp := .turn (noonAnd 0) (noonAnd 0)
  have htime := h [twinSession, noon, noon, noon] (by decide) [twinSession, noon]
    (noonAnd 0) (noonAnd 0) [] (noonAnd 0) (noonAnd 0) [] secondTwin secondTwin rfl
    (by decide) (fun n => ?_) (by decide) rfl
  · exact absurd htime (by simp [BgEntry.OnTime, secondTwin])
  · rw [List.take_nil]
    decide

end Background
end JppDos
