import JppDos.Pool.Sharing

/-!
# What deleted apps leave behind

Main fact:
* `close_leaves_pool`: an app that asked to be closed is deleted while its code still runs.
-/

namespace JppDos
namespace Pool

open Sdk

/-- No task holds the pool. -/
def Shared.Quiet (s : Shared) : Prop := ∀ t, s.task = some t → ¬ t.pos.HoldsPool

/-- The calls of the app under way. -/
def Shared.calls (s : Shared) : List String :=
  match s.task with
  | some t => t.pos.calls
  | none => []

/-- The pool is held by a server or by the task, the locks by the calls of the task. -/
structure Held (s : Shared) : Prop where
  pool : s.pool.inUse = true ↔ s.server = true ∨ ¬ s.Quiet
  apart : s.server = true → s.Quiet
  locks : Accounts s.locks s.calls
  background : ∀ t, s.task = some t → t.background = true → s.bgRunActive = true
  done : s.bgRunDone = true → ∃ t, s.task = some t ∧ t.background = true ∧ t.pos = .suspended

/-- With no task and no server, nothing is held. -/
def Released (s : Shared) : Prop :=
  s.task = none → s.server = false → s.pool.inUse = false ∧ Idle s.locks

/-- A step does not delete a task that holds the pool. -/
def SparesHolder (s : Shared) : Step → Prop
  | .preempt => s.bgRunActive = true → s.Quiet
  | .close => s.bgRunActive = false → s.closeRequested = true → s.Quiet
  | _ => True

theorem quiet_none {s : Shared} (h : s.task = none) : s.Quiet := fun t ht => by
  rw [h] at ht
  cases ht

theorem quiet_some {s : Shared} {t : AppTask} (h : s.task = some t) :
    s.Quiet ↔ ¬ t.pos.HoldsPool := by
  constructor
  · exact fun hs => hs t h
  · intro ht t' ht'
    rw [h] at ht'
    cases ht'
    exact ht

theorem calls_some {s : Shared} {t : AppTask} (h : s.task = some t) : s.calls = t.pos.calls := by
  rw [Shared.calls, h]

theorem Shared.Quiet.calls {s : Shared} (h : s.Quiet) : s.calls = [] := by
  cases htask : s.task with
  | none => rw [Shared.calls, htask]
  | some t =>
      rw [calls_some htask]
      have hpos := h t htask
      cases hp : t.pos with
      | running calls => rw [hp] at hpos; exact absurd trivial hpos
      | _ => rfl

theorem Held.released {s : Shared} (h : Held s) : Released s := fun htask hserver => by
  have hquiet := quiet_none htask
  constructor
  · have hnot : ¬ s.pool.inUse = true := by
      rw [h.pool, hserver]
      exact fun hheld => hheld.elim nofun fun hn => hn hquiet
    simpa using hnot
  · have hlocks := h.locks
    rw [hquiet.calls] at hlocks
    exact hlocks.idle

theorem Held.boot : Held .boot where
  pool := by
    constructor
    · nofun
    · exact fun h => h.elim nofun fun hn => absurd (quiet_none rfl) hn
  apart := nofun
  locks := .nil
  background := nofun
  done := nofun

theorem Held.task {s : Shared} {t : AppTask} (h : Held s) (htask : s.task = some t) :
    (s.pool.inUse = true ↔ s.server = true ∨ t.pos.HoldsPool) ∧
      (s.server = true → ¬ t.pos.HoldsPool) ∧ Accounts s.locks t.pos.calls ∧
      (t.background = true → s.bgRunActive = true) ∧
      (s.bgRunDone = true → t.background = true ∧ t.pos = .suspended) := by
  refine ⟨?_, fun hs => (quiet_some htask).mp (h.apart hs), calls_some htask ▸ h.locks,
    h.background t htask, ?_⟩
  · rw [h.pool, quiet_some htask, not_not]
  · intro hdone
    obtain ⟨t', ht', hend⟩ := h.done hdone
    rw [htask] at ht'
    cases ht'
    exact hend

theorem Held.of_task {s : Shared} {t : AppTask} (htask : s.task = some t)
    (hpool : s.pool.inUse = true ↔ s.server = true ∨ t.pos.HoldsPool)
    (hapart : s.server = true → ¬ t.pos.HoldsPool) (hlocks : Accounts s.locks t.pos.calls)
    (hback : t.background = true → s.bgRunActive = true)
    (hdone : s.bgRunDone = true → t.background = true ∧ t.pos = .suspended) : Held s where
  pool := by rw [hpool, quiet_some htask, not_not]
  apart hs := (quiet_some htask).mpr (hapart hs)
  locks := (calls_some htask).symm ▸ hlocks
  background t' ht' := by
    rw [htask] at ht'
    cases ht'
    exact hback
  done hs := ⟨t, htask, hdone hs⟩

/-- The task moves without taking or giving back anything. -/
theorem Held.move {s : Shared} {t : AppTask} (h : Held s) (htask : s.task = some t)
    {pos : TaskPos} (hpool : pos.HoldsPool ↔ t.pos.HoldsPool) (hcalls : pos.calls = t.pos.calls)
    (hrun : t.pos ≠ .suspended) : Held (s.at t pos) := by
  obtain ⟨hheld, hapart, hlocks, hback, hdone⟩ := h.task htask
  refine .of_task rfl ?_ ?_ (hcalls ▸ hlocks) hback fun hd => absurd (hdone hd).2 hrun
  · rw [hpool]
    exact hheld
  · rw [hpool]
    exact hapart

theorem Held.requestClose {s : Shared} (h : Held s) (b : Bool) :
    Held { s with closeRequested := b } := ⟨h.pool, h.apart, h.locks, h.background, h.done⟩

theorem Held.taskStep {s : Shared} {t : AppTask} (h : Held s) (htask : s.task = some t)
    (what : TaskStep) : Held (taskStep t s what) := by
  obtain ⟨hheld, hapart, hlocks, hback, hdone⟩ := h.task htask
  cases what with
  | refuse =>
      rw [Pool.taskStep]
      split
      · rename_i hpos
        exact h.move htask (by simp [hpos.1, TaskPos.HoldsPool]) (by rw [hpos.1]; rfl)
          (by rw [hpos.1]; nofun)
      · exact h
  | acquire needBytes =>
      rw [Pool.taskStep]
      split
      · rename_i hpos
        rw [acquire]
        rcases acquireAs_cases (some "app") needBytes s.pool with heq | ⟨heq, hfree, -⟩
        · simp only [heq]
          exact h.move htask (by simp [hpos, TaskPos.HoldsPool]) (by rw [hpos]; rfl)
            (by rw [hpos]; nofun)
        · simp only [heq]
          have hserver : s.server ≠ true := fun hs => by
            rw [hheld.mpr (.inl hs)] at hfree
            cases hfree
          refine .of_task rfl ⟨fun _ => .inr trivial, fun _ => rfl⟩
            (fun hs => absurd hs hserver) ?_ hback fun hd => ?_
          · rw [hpos] at hlocks
            exact hlocks
          · rw [hpos] at hdone
            exact absurd (hdone hd).2 nofun
      · exact h
  | load ok =>
      rw [Pool.taskStep]
      split
      · rename_i hpos
        cases ok
        · exact h.move htask (by simp [hpos, TaskPos.HoldsPool]) (by rw [hpos]; rfl)
            (by rw [hpos]; nofun)
        · exact h.move htask (by simp [hpos, TaskPos.HoldsPool]) (by rw [hpos]; rfl)
            (by rw [hpos]; nofun)
      · exact h
  | enter resource =>
      simp only [Pool.taskStep]
      split
      · rename_i calls hpos
        rw [hpos] at hheld hapart hlocks hdone
        split
        · rename_i locks henter
          exact .of_task rfl hheld hapart (hlocks.enter henter) hback
            fun hd => absurd (hdone hd).2 nofun
        · exact h
      · exact h
  | leave =>
      simp only [Pool.taskStep]
      split
      · rename_i resource calls hpos
        rw [hpos] at hheld hapart hlocks hdone
        exact .of_task rfl hheld hapart hlocks.leave hback fun hd => absurd (hdone hd).2 nofun
      · exact h
  | requestClose =>
      simp only [Pool.taskStep]
      split
      · exact h.requestClose true
      · exact h
  | finish =>
      rw [Pool.taskStep]
      split
      · rename_i hpos
        exact h.move htask (by simp [hpos, TaskPos.HoldsPool]) (by rw [hpos]; rfl)
          (by rw [hpos]; nofun)
      · exact h
  | free =>
      rw [Pool.taskStep]
      split
      · rename_i hpos
        rw [hpos] at hheld hapart hlocks hdone
        refine .of_task rfl ⟨nofun, ?_⟩ (fun _ => id) hlocks hback
          fun hd => absurd (hdone hd).2 nofun
        rintro (hs | hf)
        · exact absurd trivial (hapart hs)
        · cases hf
      · exact h
  | close =>
      rw [Pool.taskStep]
      split
      · rename_i hpos
        exact (h.requestClose true).move htask (by simp [hpos, TaskPos.HoldsPool])
          (by rw [hpos]; rfl) (by rw [hpos]; nofun)
      · exact h
  | suspend =>
      rw [Pool.taskStep]
      split
      · rename_i hpos
        rw [hpos] at hheld hapart hlocks hdone
        refine .of_task rfl hheld hapart hlocks hback fun hd => ?_
        cases hbg : t.background with
        | true => exact ⟨rfl, rfl⟩
        | false =>
            simp only [hbg, Bool.false_eq_true, if_false] at hd
            exact absurd (hdone hd).2 nofun
      · exact h

/-- Where nothing is taken by a task, the task may be deleted or a new one created. -/
theorem Held.replace {s s' : Shared} (h : Held s) (hquiet : s.Quiet) (hpool : s'.pool = s.pool)
    (hserver : s'.server = s.server) (hlocks : s'.locks = s.locks)
    (htask : ∀ t, s'.task = some t →
      t.pos = .entered ∧ (t.background = true → s'.bgRunActive = true))
    (hdone : s'.bgRunDone = false) : Held s' := by
  have hnew : s'.Quiet := fun t ht hholds => by
    rw [(htask t ht).1] at hholds
    exact hholds
  have hidle : Accounts s.locks [] := hquiet.calls ▸ h.locks
  refine ⟨?_, fun _ => hnew, ?_, fun t ht => (htask t ht).2, fun hd => ?_⟩
  · rw [hpool, hserver, h.pool]
    exact or_congr_right ⟨fun hn => absurd hquiet hn, fun hn => absurd hnew hn⟩
  · rw [hlocks, hnew.calls]
    exact hidle
  · rw [hdone] at hd
    cases hd

theorem Held.notDone {s : Shared} (h : Held s) (hidle : s.bgRunActive = false ∨ s.task = none) :
    s.bgRunDone = false := by
  cases hd : s.bgRunDone with
  | false => rfl
  | true =>
      obtain ⟨t, ht, hbg, -⟩ := h.done hd
      rcases hidle with hidle | hidle
      · rw [h.background t ht hbg] at hidle
        cases hidle
      · rw [ht] at hidle
        cases hidle

theorem Held.launchAppFrom {s : Shared} (h : Held s) (htask : s.task = none) (how : Launch)
    (background : Bool) : Held (launchAppFrom how background s).2 := by
  rcases launchAppFrom_cases how background s with
    heq | ⟨s', heq, hpool, hserver, hlocks, hcreated, hactive, hdone⟩ <;> rw [heq]
  · exact h
  · refine h.replace (quiet_none htask) hpool hserver hlocks (fun t ht => ?_) ?_
    · rcases hcreated with hcreated | hcreated <;> rw [hcreated] at ht
      · rw [htask] at ht
        cases ht
      · cases ht
        exact ⟨rfl, hactive⟩
    · rcases hdone with hdone | hdone
      · rw [hdone, h.notDone (.inr htask)]
      · exact hdone

theorem Held.appBgLaunch {s : Shared} (h : Held s) (htask : s.task = none) (how : Launch) :
    Held (appBgLaunch how s).2 := by
  have hlaunch := h.launchAppFrom htask how true
  rw [Pool.appBgLaunch]
  split
  · exact h
  · split
    · rename_i heq
      rwa [heq] at hlaunch
    · rename_i heq
      rw [heq] at hlaunch
      have hnone := (launchAppFrom_failed heq).trans htask
      exact hlaunch.replace (quiet_none hnone) rfl rfl rfl
        (fun t ht => by rw [hnone] at ht; cases ht) (hlaunch.notDone (.inr hnone))

theorem Held.serverStart {s : Shared} (h : Held s) (config : HttpConfig) (env : HttpEnv) :
    Held (serverStart config env s).2 := by
  rcases serverStart_pool config env s with heq | ⟨hserver, hfree, hcase⟩
  · rw [heq]
    exact h
  · have hquiet : s.Quiet := by
      by_contra hn
      rw [h.pool.mpr (.inr hn)] at hfree
      cases hfree
    rcases hcase with heq | ⟨pool, hpool, heq⟩ <;> rw [heq]
    · refine ⟨⟨nofun, fun hheld => hheld.elim (fun hs => ?_) fun hn => absurd hquiet hn⟩,
        fun _ => hquiet, h.locks, h.background, h.done⟩
      rw [hserver] at hs
      cases hs
    · exact ⟨⟨fun _ => .inl rfl, fun _ => hpool⟩, fun _ => hquiet, h.locks, h.background, h.done⟩

theorem Held.serverStop {s : Shared} (h : Held s) (exited : Bool) :
    Held (serverStop exited s).2 := by
  rw [Pool.serverStop]
  split
  · exact h
  · split
    · exact h
    · rename_i hserver _
      have hquiet : s.Quiet := h.apart (by simpa using hserver)
      exact ⟨⟨nofun, fun hheld => hheld.elim nofun fun hn => absurd hquiet hn⟩,
        fun _ => hquiet, h.locks, h.background, h.done⟩

theorem Held.quiet_of_done {s : Shared} (h : Held s) (hdone : s.bgRunDone = true) : s.Quiet := by
  obtain ⟨t, ht, -, hpos⟩ := h.done hdone
  rw [quiet_some ht, hpos]
  exact id

/-- A step that deletes no task which holds the pool keeps everything accounted for. -/
theorem Held.step {s : Shared} (h : Held s) {step : Step} (hspares : SparesHolder s step) :
    Held (sharedStep s step).1 := by
  cases step with
  | task what =>
      simp only [sharedStep]
      split
      · rename_i t htask
        exact h.taskStep htask what
      · exact h
  | launch how =>
      simp only [sharedStep]
      split
      · rename_i hguard
        simp only [Bool.and_eq_true, Option.isNone_iff_eq_none] at hguard
        exact h.launchAppFrom hguard.1 how false
      · exact h
  | preempt =>
      simp only [sharedStep]
      split
      · rename_i hguard
        exact h.replace (hspares hguard) rfl rfl rfl nofun rfl
      · exact h
  | collect =>
      simp only [sharedStep]
      split
      · rename_i hguard
        simp only [Bool.and_eq_true] at hguard
        exact h.replace (h.quiet_of_done hguard.2) rfl rfl rfl nofun rfl
      · exact h
  | overrun =>
      simp only [sharedStep]
      split
      · exact .boot
      · exact h
  | due how =>
      simp only [sharedStep]
      split
      · rename_i hguard
        simp only [Bool.and_eq_true, Option.isNone_iff_eq_none] at hguard
        exact h.appBgLaunch hguard.1.1 how
      · exact h
  | close =>
      simp only [sharedStep]
      split
      · rename_i hguard
        simp only [Bool.and_eq_true, Bool.not_eq_true', Option.isSome_iff_exists] at hguard
        exact h.replace (hspares hguard.1.2 hguard.2) rfl rfl rfl nofun
          (h.notDone (.inl hguard.1.2))
      · exact h
  | serverStart config env => exact h.serverStart config env
  | serverStop exited => exact h.serverStop exited

/-- A task that is deleted while it holds the pool leaves the pool held. -/
theorem Held.quiet_of_released {s s' : Shared} (h : Held s) (hreleased : Released s')
    (hpool : s'.pool = s.pool) (hserver : s'.server = s.server) (htask : s'.task = none) :
    s.Quiet := by
  cases hs : s.server with
  | true => exact h.apart hs
  | false =>
      by_contra hn
      have hfree := (hreleased htask (hserver.trans hs)).1
      rw [hpool, h.pool.mpr (.inr hn)] at hfree
      cases hfree

theorem Held.spares_of_released {s : Shared} (h : Held s) {step : Step}
    (hreleased : Released (sharedStep s step).1) : SparesHolder s step := by
  cases step with
  | preempt =>
      intro hactive
      simp only [sharedStep, hactive, if_true] at hreleased
      exact h.quiet_of_released hreleased rfl rfl rfl
  | close =>
      intro hactive hclose
      cases htask : s.task with
      | none => exact quiet_none htask
      | some t =>
          simp only [sharedStep, hactive, hclose, htask, Option.isSome_some, Bool.not_false,
            Bool.and_self, if_true] at hreleased
          exact h.quiet_of_released hreleased rfl rfl rfl
  | _ => trivial

/-- In every order of the steps, nothing is left held with no task and no server exactly when
no task is deleted between taking the pool and giving it back. -/
theorem released_iff (steps : List Step) :
    (∀ n, Released (Machine.run sharedStep .boot (steps.take n))) ↔
      Machine.Along sharedStep SparesHolder .boot steps :=
  Machine.along_iff_of_invariant (fun _ h => h.released) (fun _ _ h hspares => h.step hspares)
    (fun _ _ h hreleased => h.spares_of_released hreleased) Held.boot

/-- Where nothing is held, an app is given the pool, and its calls find no resource busy. -/
theorem Released.serves {s : Shared} (h : Released s) (htask : s.task = none)
    (hserver : s.server = false) {needBytes : UInt32} (hneed : needBytes ≤ poolBytes)
    (resource : String) :
    (acquire needBytes s.pool).1 = some (0, poolBytes) ∧
      ∀ entry, findLock s.locks resource = some entry → entry.locked = false := by
  obtain ⟨hfree, hidle⟩ := h htask hserver
  constructor
  · simp [acquire, acquireAs, hfree, UInt32.not_lt.mpr hneed]
  · exact fun entry hfind => hidle entry (List.mem_of_find?_eq_some hfind)

/-- After a run that deletes no holder, with no task and no server left, an app is given the pool
and its calls find no resource busy. -/
theorem next_app_served {steps : List Step}
    (h : Machine.Along sharedStep SparesHolder .boot steps)
    (htask : (Machine.run sharedStep .boot steps).task = none)
    (hserver : (Machine.run sharedStep .boot steps).server = false) {needBytes : UInt32}
    (hneed : needBytes ≤ poolBytes) (resource : String) :
    (acquire needBytes (Machine.run sharedStep .boot steps).pool).1 = some (0, poolBytes) ∧
      ∀ entry, findLock (Machine.run sharedStep .boot steps).locks resource = some entry →
        entry.locked = false :=
  have hheld : Held (Machine.run sharedStep .boot steps) :=
    h.invariant (fun _ _ h hspares => h.step hspares) Held.boot
  hheld.released.serves htask hserver hneed resource

/-- A server is started and stopped. -/
def servedRun : List Step :=
  [.serverStart ⟨true, none, 0⟩ ⟨352, 8192, true, true⟩, .serverStop true]

theorem next_app_served_servedRun :
    (acquire 40000 (Machine.run sharedStep .boot servedRun).pool).1 = some (0, poolBytes) ∧
      ∀ entry, findLock (Machine.run sharedStep .boot servedRun).locks "storage" = some entry →
        entry.locked = false :=
  have hspares : Machine.Along sharedStep SparesHolder .boot servedRun :=
    ⟨trivial, trivial, trivial⟩
  next_app_served hspares (by decide) (by decide) (by decide) "storage"

/-- A native app that starts without trouble. -/
def plainLaunch : Launch := ⟨true, true, true, true⟩

/-- An app asks to be closed during a call and is deleted before the call returns. -/
def closedRun : List Step :=
  [.launch plainLaunch, .task (.acquire 40000), .task (.load true), .task .requestClose,
    .task (.enter "storage"), .close]

/-- The main loop deletes the app while its code still runs: the pool and the lock stay
taken, and the next app cannot be loaded. -/
theorem close_leaves_pool :
    let s := Machine.run sharedStep .boot closedRun
    s.task = none ∧ s.server = false ∧ s.pool.inUse = true ∧
      s.locks = [⟨"storage", true⟩] ∧
      (Machine.run sharedStep s [.launch plainLaunch, .task (.acquire 40000)]).task =
        some ⟨true, false, .freed⟩ := by
  decide

end Pool
end JppDos
