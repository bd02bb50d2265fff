import JppDos.Smp.System

/-!
# Sessions and apps

The receive task opens a session when no app has a context, and the main loop launches apps
when no session is active.  Each looks first and acts later.
-/

namespace JppDos
namespace Smp

open Serial Machine

/-- A session is active and an app has its context. -/
def Vars.Both (v : Vars) : Prop := v.sessionActive = true ∧ v.activeSdkContext = true

instance (v : Vars) : Decidable v.Both := inferInstanceAs (Decidable (_ ∧ _))

/-- The program opens no session. -/
abbrev Unopening (t : Code Unit) : Prop := Uses (· ≠ .opening) t

/-- Every context that the program publishes is for a launch that it has yet to begin. -/
abbrev Prepared {α : Type} (t : Code α) : Prop :=
  t.Guards (fun a => a.area = .launch) (fun a => a.area = .publish)

/-- A launch begins only while no session is active and none is being opened, and no session
is asked for between the beginning of a launch and the publication of the context. -/
def LaunchesApart (d : System) : Step → Prop
  | .act .main _ => (d.code .main).next = some .launchApp →
      d.state.vars.sessionActive = false ∧ Unopening (d.code .rx)
  | .frame payload => ¬ Prepared (d.code .main) → Unopening (rxFrame d.provisioning payload)
  | _ => True

theorem sessionActive_stays {a : Act} (ha : a.area ≠ .opening) (io : Io) {m : State}
    (hm : m.vars.sessionActive = false) : (a.after io m).vars.sessionActive = false := by
  rw [Act.vars_after]
  cases a with
  | store s =>
      cases s with
      | sessionActive value =>
          cases value with
          | true => exact absurd rfl ha
          | false => rfl
      | _ => exact hm
  | _ => exact hm

theorem activeSdkContext_stays {a : Act} (ha : a.area ≠ .publish) (io : Io) {m : State}
    (hm : m.vars.activeSdkContext = false) : (a.after io m).vars.activeSdkContext = false := by
  rw [Act.vars_after]
  cases a with
  | store s =>
      cases s with
      | activeSdkContext value =>
          cases value with
          | true => exact absurd rfl ha
          | false => rfl
      | _ => exact hm
  | _ => exact hm

theorem Act.eq_of_launch {a : Act} (h : a.area = .launch) : a = .launchApp := by
  revert h
  cases a with
  | store s =>
      cases s with
      | sessionActive value => cases value <;> simp [Act.area]
      | consentState value => cases value <;> simp [Act.area]
      | activeSdkContext value => cases value <;> simp [Act.area]
      | _ => simp [Act.area]
  | fopen path write => cases write <;> simp [Act.area]
  | _ => simp [Act.area]

theorem prepared_of_uses {α : Type} {t : Code α} (h : Uses (· ≠ .publish) t) : Prepared t :=
  Task.guards_of_all h

theorem prepared_launchAppFrom (background : Bool) : Prepared (launchAppFrom background) :=
  ⟨nofun, Or.inl rfl⟩

theorem prepared_launchOpenApp (screen : Screen) : Prepared (launchOpenApp screen) := by
  refine ⟨nofun, Or.inr fun v => ?_⟩
  change Prepared (ite _ _ _)
  split
  · refine ⟨nofun, Or.inr fun v => ?_⟩
    change Prepared (ite _ _ _)
    split
    · trivial
    · exact prepared_launchAppFrom false
  · trivial

theorem prepared_appBgLaunch : Prepared appBgLaunch := by
  refine ⟨nofun, Or.inr fun v => ?_⟩
  change Prepared (ite _ _ _)
  split
  · trivial
  · refine Task.guards_bind (prepared_launchAppFrom true) fun launched => ?_
    split
    · trivial
    · exact prepared_of_uses ⟨by decide, fun _ => trivial⟩

theorem prepared_superviseBackground (screen : Screen) (sdAppOpen : Bool) :
    Prepared (superviseBackground screen sdAppOpen) := by
  refine ⟨nofun, Or.inr fun v => ?_⟩
  change Prepared (ite _ _ (ite _ _ _))
  split_ifs
  · refine ⟨nofun, Or.inr fun finished => ?_⟩
    cases (show Bool from finished) with
    | true => exact prepared_of_uses (uses_appBgTeardown (by decide))
    | false =>
        refine ⟨nofun, Or.inr fun overrun => ?_⟩
        cases (show Bool from overrun) with
        | true => exact prepared_of_uses ⟨by decide, fun _ => trivial⟩
        | false => trivial
  · refine Task.guards_bind (prepared_of_uses (uses_needsRender (by decide))) fun needs => ?_
    split
    · refine ⟨nofun, Or.inr fun due => ?_⟩
      cases (show Bool from due) with
      | true => exact prepared_appBgLaunch
      | false => trivial
    · trivial
  · trivial

/-- A turn of the main loop publishes a context only behind the beginning of a launch. -/
theorem guards_appTurn (screen : Screen) : Prepared (appTurn screen) := by
  have hrest : Prepared (do
      let sdAppOpen ← launchOpenApp screen
      superviseBackground screen sdAppOpen
      let v ← load
      if v.sdTask && !v.bgRunActive then
        let closeRequested : Bool ← call .closeRequested
        if closeRequested then teardownSdApp) := by
    refine Task.guards_bind (prepared_launchOpenApp screen) fun sdAppOpen => ?_
    refine Task.guards_bind (prepared_superviseBackground screen sdAppOpen) fun _ => ?_
    refine ⟨nofun, Or.inr fun v => ?_⟩
    change Prepared (ite _ _ _)
    split
    · refine ⟨nofun, Or.inr fun closeRequested => ?_⟩
      cases (show Bool from closeRequested) with
      | true => exact prepared_of_uses (uses_teardownSdApp (by decide))
      | false => trivial
    · trivial
  refine ⟨nofun, Or.inr fun v => ?_⟩
  change Prepared (ite _ _ _)
  split
  · exact Task.guards_bind (prepared_of_uses (uses_appBgTeardown (by decide))) fun _ => hrest
  · exact hrest

section Opening

variable {R G : State → State → Prop}
  (hG : ∀ {a : Act} {io : Io} {m m' : State} {b : a.Ans}, a.exec io m = some (b, m') →
    a.area ≠ .opening → G m m')

include hG

theorem runs_of_unopening {t : Code Unit} (h : Unopening t) (m : State) :
    Task.Runs Act.exec R G (fun _ _ => True) t m := by
  refine Task.Runs.of_all (I := fun _ => True) (fun _ _ _ _ => trivial) ?_ trivial
  exact Task.All.mono (fun a ha s io b s' _ hexec => ⟨hG hexec ha, trivial⟩) h

/-- What a frame may do is what SESSION_START may do, and the actions that open no session. -/
theorem runs_rxFrame_of (hrefl : ∀ m, R m m) {provisioning : Bool}
    (hstart : ∀ seq body m,
      Task.Runs Act.exec R G (fun _ _ => True) (handleSessionStart provisioning seq body) m)
    (payload : List UInt8) (m : State) :
    Task.Runs Act.exec R G (fun _ _ => True) (rxFrame provisioning payload) m := by
  refine Task.Runs.act fun m₁ _ io b m₂ hexec => ⟨hG hexec nofun, ?_⟩
  change Task.Runs _ _ _ _ (dispatchCommand provisioning payload) m₂
  match payload with
  | [] => exact runs_of_unopening hG (uses_done _) m₂
  | [_] => exact runs_of_unopening hG (uses_done _) m₂
  | [_, _] => exact runs_of_unopening hG (uses_done _) m₂
  | seq :: cmd :: _ :: body =>
      refine Task.Runs.act fun m₃ _ io v m₄ hexec => ⟨hG hexec nofun, ?_⟩
      change Task.Runs _ _ _ _ (ite _ _ _) _
      split
      · exact runs_of_unopening hG (uses_sendErr (by decide) ..) _
      refine Task.Runs.act fun m₅ _ io v m₆ hexec => ⟨hG hexec nofun, ?_⟩
      change Task.Runs _ _ _ _ (resetTimerIf _ >>= fun _ => _) _
      refine Task.Runs.bind hrefl
        (runs_of_unopening hG (uses_resetTimerIf (by decide) _) _) fun _ m _ => ?_
      by_cases hcmd : cmd = SmpCmd.sessionStart
      · subst hcmd
        exact hstart seq body m
      · exact runs_of_unopening hG (uses_handleCommand (by decide) (fun h => absurd h hcmd)
          (fun _ => by decide) (fun _ => by decide) (fun _ => by decide) (fun _ => by decide)
          (fun _ => by decide) seq body) m

end Opening

/-- What the receive task relies on: a context that is not there stays away. -/
def NoContext (m m' : State) : Prop :=
  m.vars.activeSdkContext = false → m'.vars.activeSdkContext = false

/-- What it guarantees: it opens a session only while there is no context. -/
def OpensAlone (m m' : State) : Prop :=
  m'.vars.sessionActive = true → m.vars.sessionActive = true ∨ m.vars.activeSdkContext = false

abbrev RunsAlone {α : Type} (Q : α → State → Prop) (t : Code α) (m : State) : Prop :=
  Task.Runs Act.exec NoContext OpensAlone Q t m

theorem opensAlone_exec {a : Act} {io : Io} {m m' : State} {b : a.Ans}
    (hexec : a.exec io m = some (b, m'))
    (ha : a.area ≠ .opening ∨ m.vars.activeSdkContext = false) : OpensAlone m m' := by
  obtain ⟨-, -, -, rfl⟩ := Act.exec_eq_some.mp hexec
  intro hopen
  rcases ha with ha | ha
  · cases hm : m.vars.sessionActive with
    | true => exact Or.inl rfl
    | false => exact absurd ((sessionActive_stays ha io hm).symm.trans hopen) (by simp)
  · exact Or.inr ha

theorem runs_unopening {t : Code Unit} (h : Unopening t) (m : State) :
    RunsAlone (fun _ _ => True) t m :=
  runs_of_unopening (fun hexec ha => opensAlone_exec hexec (Or.inl ha)) h m

/-- A program that publishes no context, and begins without one. -/
theorem runs_alone {α : Type} {t : Code α} (h : Uses (· ≠ .publish) t) {m : State}
    (hm : m.vars.activeSdkContext = false) :
    RunsAlone (fun _ m => m.vars.activeSdkContext = false) t m := by
  refine Task.Runs.of_all (fun s s' hs hR => hR hs) ?_ hm
  refine Task.All.mono (fun a ha s io b s' hs hexec => ?_) h
  refine ⟨opensAlone_exec hexec (Or.inr hs), ?_⟩
  obtain ⟨-, -, -, rfl⟩ := Act.exec_eq_some.mp hexec
  exact activeSdkContext_stays ha io hs

/-- SESSION_START looks for a context, and opens the session if there is none. -/
theorem runs_sessionStart (provisioning : Bool) (seq : UInt8) (body : List UInt8) (m : State) :
    RunsAlone (fun _ _ => True) (handleSessionStart provisioning seq body) m := by
  refine Task.Runs.act fun m₁ _ io v m₂ hexec => ⟨opensAlone_exec hexec (Or.inl nofun), ?_⟩
  change RunsAlone _ (ite _ _ _) _
  split
  · exact runs_unopening (uses_sendErr (by decide) ..) _
  refine Task.Runs.act fun m₃ _ io v m₄ hexec => ⟨opensAlone_exec hexec (Or.inl nofun), ?_⟩
  obtain ⟨-, -, rfl, rfl⟩ := Act.exec_eq_some.mp hexec
  change RunsAlone _ (ite (m₃.vars.activeSdkContext = true) _ (ite _ _ _)) _
  split
  · exact runs_unopening (uses_sendErr (by decide) ..) _
  rename_i hcontext
  split
  · exact runs_unopening (uses_sendErr (by decide) ..) _
  refine Task.Runs.conseq (runs_alone (m := Act.after io m₃ .load) ?_
      (Bool.eq_false_iff.mpr hcontext))
    (fun _ _ h => h) (fun _ _ h => h) fun _ _ _ => trivial
  refine uses_bind (uses_sessionConsent (by decide) (by decide) (by decide) (by decide)
    fun _ => by decide) fun allowed => uses_ite (fun _ => ?_) fun _ =>
      uses_sendErr (by decide) ..
  refine ⟨by decide, fun _ => ?_⟩
  change Uses (· ≠ .publish) (resetSessionTimer >>= fun _ => _)
  exact uses_bind (uses_resetSessionTimer (by decide)) fun _ => uses_sendResponse (by decide) ..

theorem runs_rxFrame_alone (provisioning : Bool) (payload : List UInt8) (m : State) :
    RunsAlone (fun _ _ => True) (rxFrame provisioning payload) m :=
  runs_rxFrame_of (fun hexec ha => opensAlone_exec hexec (Or.inl ha)) (fun _ h => h)
    (runs_sessionStart provisioning) payload m

/-- What holds of each task. -/
def AloneTask (who : Party) (t : Code Unit) (m : State) : Prop :=
  match who with
  | .rx => Uses (· ≠ .publish) t ∧ (Unopening t ∨ RunsAlone (fun _ _ => True) t m)
  | .timer => Unopening t ∧ Uses (· ≠ .publish) t
  | .main => Unopening t

/-- What holds at any time: never both, and while a context is about to be published no session
is active and none is being opened. -/
structure System.Excludes (d : System) : Prop where
  holds : d.Holds (fun m => ¬ m.vars.Both) AloneTask
  launch : ¬ Prepared (d.code .main) →
    d.state.vars.sessionActive = false ∧ Unopening (d.code .rx)

theorem uses_rxFrame_publish (provisioning : Bool) (payload : List UInt8) :
    Uses (· ≠ .publish) (rxFrame provisioning payload) := by
  refine uses_rxFrame (by decide) (by decide) (by decide) fun seq cmd flags body _ => ?_
  exact uses_handleCommand (by decide) (fun _ => by simp) (fun _ => by decide)
    (fun _ => by decide) (fun _ => by decide) (fun _ => by decide) (fun _ => by decide) seq body

theorem starts_alone {d : System} {step : Step} {who : Party} {t : Code Unit}
    (h : step.starts d = some (who, t)) : AloneTask who t d.state := by
  refine Step.starts_cases (P := fun who t => AloneTask who t d.state) h (fun payload => ?_) ?_
    (fun action => ?_) fun screen => ?_
  · exact ⟨uses_rxFrame_publish d.provisioning payload,
      Or.inr (runs_rxFrame_alone d.provisioning payload d.state)⟩
  · exact ⟨uses_call (by decide) fun _ =>
        uses_endSession (by decide) (by decide) (by decide),
      uses_call (by decide) fun _ => uses_endSession (by decide) (by decide) (by decide)⟩
  · exact uses_takeKey (S := (· ≠ .opening)) (by decide) (by decide) (by decide) (by decide)
      (by decide) (by decide) (by decide) action
  · exact uses_appTurn (S := (· ≠ .opening)) (by decide) (by decide) (by decide) (by decide)
      (by decide) screen

/-- An action that opens no session where a context is, and publishes no context where a
session is active. -/
theorem not_both_exec {a : Act} {io : Io} {m m' : State} {b : a.Ans}
    (hexec : a.exec io m = some (b, m')) (hopens : OpensAlone m m')
    (hpublishes : a.area = .publish → m.vars.sessionActive = false ∧ a.area ≠ .opening)
    (h : ¬ m.vars.Both) : ¬ m'.vars.Both := by
  obtain ⟨-, -, -, rfl⟩ := Act.exec_eq_some.mp hexec
  rintro ⟨hsession, hcontext⟩
  by_cases hpublish : a.area = .publish
  · obtain ⟨hclosed, hopening⟩ := hpublishes hpublish
    exact absurd ((sessionActive_stays hopening io hclosed).symm.trans hsession) (by simp)
  · have hbefore : m.vars.activeSdkContext = true := by
      by_contra hno
      have hstays := activeSdkContext_stays hpublish io (Bool.eq_false_iff.mpr hno)
      exact absurd (hstays.symm.trans hcontext) (by simp)
    rcases hopens hsession with hactive | hnone
    · exact h ⟨hactive, hbefore⟩
    · exact absurd (hnone.symm.trans hbefore) (by simp)

section Steps

variable {d : System} {io : Io} {a : Act} {k : a.Ans → Code Unit} {b : a.Ans} {m : State}

theorem System.Excludes.rx (h : d.Excludes) (hcode : d.code .rx = .act a k)
    (hexec : a.exec io d.state = some (b, m)) :
    ¬ m.vars.Both ∧ AloneTask .rx (k b) m ∧ NoContext d.state m ∧
      (Unopening (.act a k) → a.area ≠ .opening ∧ Unopening (k b)) := by
  obtain ⟨hpublish, hopening⟩ := hcode ▸ h.holds.code .rx
  have hnext : OpensAlone d.state m ∧
      (Unopening (k b) ∨ RunsAlone (fun _ _ => True) (k b) m) := by
    rcases hopening with hunopening | hruns
    · exact ⟨opensAlone_exec hexec (Or.inl hunopening.1), Or.inl (hunopening.2 b)⟩
    · obtain ⟨hopens, hrest⟩ := hruns d.state id io b m hexec
      exact ⟨hopens, Or.inr hrest⟩
  refine ⟨not_both_exec hexec hnext.1 (fun hp => absurd hp hpublish.1) h.holds.state,
    ⟨hpublish.2 b, hnext.2⟩, ?_, fun hunopening => ⟨hunopening.1, hunopening.2 b⟩⟩
  obtain ⟨-, -, -, rfl⟩ := Act.exec_eq_some.mp hexec
  exact activeSdkContext_stays hpublish.1 io

theorem System.Excludes.timer (h : d.Excludes) (hcode : d.code .timer = .act a k)
    (hexec : a.exec io d.state = some (b, m)) :
    ¬ m.vars.Both ∧ AloneTask .timer (k b) m ∧ NoContext d.state m ∧ a.area ≠ .opening := by
  obtain ⟨hunopening, hpublish⟩ := hcode ▸ h.holds.code .timer
  refine ⟨not_both_exec hexec (opensAlone_exec hexec (Or.inl hunopening.1))
    (fun hp => absurd hp hpublish.1) h.holds.state, ⟨hunopening.2 b, hpublish.2 b⟩, ?_,
    hunopening.1⟩
  obtain ⟨-, -, -, rfl⟩ := Act.exec_eq_some.mp hexec
  exact activeSdkContext_stays hpublish.1 io

theorem System.Excludes.main (h : d.Excludes) (hstep : LaunchesApart d (.act .main io))
    (hcode : d.code .main = .act a k) (hexec : a.exec io d.state = some (b, m)) :
    ¬ m.vars.Both ∧ AloneTask .main (k b) m ∧ (NoContext d.state m ∨ Unopening (d.code .rx)) ∧
      (¬ Prepared (k b) → m.vars.sessionActive = false ∧ Unopening (d.code .rx)) := by
  have hunopening : Unopening (.act a k) := hcode ▸ h.holds.code .main
  have hlaunch := h.launch
  rw [hcode] at hlaunch
  have hpublishes : a.area = .publish →
      d.state.vars.sessionActive = false ∧ Unopening (d.code .rx) :=
    fun hp => hlaunch fun hprepared => hprepared.1 hp
  refine ⟨not_both_exec hexec (opensAlone_exec hexec (Or.inl hunopening.1))
    (fun hp => ⟨(hpublishes hp).1, hunopening.1⟩) h.holds.state, hunopening.2 b, ?_, ?_⟩
  · by_cases hp : a.area = .publish
    · exact Or.inr (hpublishes hp).2
    · obtain ⟨-, -, -, rfl⟩ := Act.exec_eq_some.mp hexec
      exact Or.inl (activeSdkContext_stays hp io)
  · intro hcommitted
    -- the launch begins with this action, or it has begun before
    have hbefore : d.state.vars.sessionActive = false ∧ Unopening (d.code .rx) := by
      by_cases hbegins : a.area = .launch
      · have hnext : (d.code .main).next = some a := by rw [hcode]; rfl
        exact hstep (hnext.trans (congrArg some (Act.eq_of_launch hbegins)))
      · refine hlaunch fun hprepared => hcommitted ?_
        exact (hprepared.2.resolve_left hbegins) b
    obtain ⟨-, -, -, rfl⟩ := Act.exec_eq_some.mp hexec
    exact ⟨sessionActive_stays hunopening.1 io hbefore.1, hbefore.2⟩

end Steps

/-- The condition of another task stays when a missing context stays away. -/
theorem AloneTask.other {other : Party} {t : Code Unit} {m m' : State}
    (h : AloneTask other t m) (hm : NoContext m m' ∨ Unopening t) : AloneTask other t m' := by
  cases other with
  | rx =>
      refine ⟨h.1, ?_⟩
      rcases hm with hm | hunopening
      · exact h.2.imp id fun hruns => hruns.rely (fun _ _ _ h₁ h₂ h => h₂ (h₁ h)) hm
      · exact Or.inl hunopening
  | timer => exact h
  | main => exact h

theorem systemStep_excludes {d : System} (h : d.Excludes) (step : Step)
    (hstep : LaunchesApart d step) : (systemStep d step).1.Excludes := by
  constructor
  · refine h.holds.step step (fun who t hstarts _ => starts_alone hstarts) ?_
    rintro who io a k b m rfl hcode hexec
    cases who with
    | rx =>
        obtain ⟨hboth, hown, hcontext, -⟩ := h.rx hcode hexec
        exact ⟨hboth, hown, fun other _ => (h.holds.code other).other (Or.inl hcontext)⟩
    | timer =>
        obtain ⟨hboth, hown, hcontext, -⟩ := h.timer hcode hexec
        exact ⟨hboth, hown, fun other _ => (h.holds.code other).other (Or.inl hcontext)⟩
    | main =>
        obtain ⟨hboth, hown, hcontext, -⟩ := h.main hstep hcode hexec
        refine ⟨hboth, hown, fun other hother => ?_⟩
        cases other with
        | rx => exact (h.holds.code .rx).other hcontext
        | timer => exact h.holds.code .timer
        | main => exact absurd rfl hother
  · rcases systemStep_cases d step with heq | ⟨who, t, hstarts, hdone, heq⟩ |
      ⟨who, io, a, k, b, m, rfl, hcode, hexec, heq⟩
    · rw [heq]
      exact h.launch
    · rw [heq]
      cases step with
      | frame payload =>
          obtain ⟨rfl, rfl⟩ := Prod.mk.inj (Option.some.inj hstarts)
          intro hcommitted
          have hmain : ¬ Prepared (d.code .main) := by simpa using hcommitted
          exact ⟨(h.launch hmain).1, by simpa using hstep hmain⟩
      | fire =>
          rw [Step.starts] at hstarts
          split at hstarts
          · obtain ⟨rfl, rfl⟩ := Prod.mk.inj (Option.some.inj hstarts)
            simpa using h.launch
          · exact absurd hstarts (by simp)
      | key action =>
          obtain ⟨rfl, rfl⟩ := Prod.mk.inj (Option.some.inj hstarts)
          have hprepared : Prepared (takeKey action) := prepared_of_uses
            (uses_takeKey (by decide) (by decide) (by decide) (by decide) (by decide)
              (by decide) (by decide) action)
          exact fun hcommitted => absurd hprepared (by simpa using hcommitted)
      | turn screen =>
          obtain ⟨rfl, rfl⟩ := Prod.mk.inj (Option.some.inj hstarts)
          exact fun hcommitted => absurd (guards_appTurn screen) (by simpa using hcommitted)
      | act who io => exact absurd hstarts (by simp [Step.starts])
    · rw [heq]
      cases who with
      | rx =>
          obtain ⟨-, -, -, hunopening⟩ := h.rx hcode hexec
          intro hcommitted
          obtain ⟨hclosed, hrx⟩ := h.launch (by simpa using hcommitted)
          obtain ⟨hopening, hrest⟩ := hunopening (hcode ▸ hrx)
          obtain ⟨-, -, -, rfl⟩ := Act.exec_eq_some.mp hexec
          exact ⟨sessionActive_stays hopening io hclosed, by simpa using hrest⟩
      | timer =>
          obtain ⟨-, -, -, hopening⟩ := h.timer hcode hexec
          intro hcommitted
          obtain ⟨hclosed, hrx⟩ := h.launch (by simpa using hcommitted)
          obtain ⟨-, -, -, rfl⟩ := Act.exec_eq_some.mp hexec
          exact ⟨sessionActive_stays hopening io hclosed, by simpa using hrx⟩
      | main =>
          obtain ⟨-, -, -, hlaunch⟩ := h.main hstep hcode hexec
          simpa using hlaunch

/-- In every run in which no launch overlaps with the opening of a session, there is never a
session together with the context of an app. -/
theorem session_excludes_app (provisioning : Bool) (steps : List Step)
    (h : Along systemStep LaunchesApart (System.boot provisioning) steps) :
    ¬ (run systemStep (System.boot provisioning) steps).state.vars.Both := by
  have hboot : (System.boot provisioning).Excludes := by
    refine ⟨⟨by simp [System.boot, Vars.Both], fun who => ?_⟩, fun hcommitted => ?_⟩
    · cases who with
      | rx => exact ⟨trivial, Or.inl trivial⟩
      | timer => exact ⟨trivial, trivial⟩
      | main => trivial
    · exact absurd trivial hcommitted
  exact (h.invariant (fun d step hd hstep => systemStep_excludes hd step hstep) hboot).holds.state

/-- Launches begin while the receive task is at rest, and frames arrive while the main loop
is. -/
def launchesAtRest (d : System) : Step → Bool
  | .act .main _ => (d.code .main).next ≠ some .launchApp ||
      (!d.state.vars.sessionActive && (d.code .rx).isDone)
  | .frame _ => (d.code .main).isDone
  | _ => true

theorem launchesApart_of_atRest (d : System) (step : Step) (h : launchesAtRest d step = true) :
    LaunchesApart d step := by
  cases step with
  | frame payload =>
      rw [launchesAtRest, Task.isDone_iff] at h
      intro hcommitted
      rw [h] at hcommitted
      exact absurd trivial hcommitted
  | act who io =>
      cases who with
      | main =>
          intro hnext
          simp only [launchesAtRest, hnext, ne_eq, not_true_eq_false, decide_false,
            Bool.false_or, Bool.and_eq_true, Bool.not_eq_true', Task.isDone_iff] at h
          exact ⟨h.1, h.2 ▸ trivial⟩
      | rx => trivial
      | timer => trivial
  | fire => trivial
  | key action => trivial
  | turn screen => trivial

/-- A session times out, and an app is launched. -/
def appAfterSession : List Step :=
  openSession ++ [.fire] ++ acts .timer 4 ++ [.turn ⟨true, false⟩] ++ acts .main 7

theorem session_excludes_app_after :
    ¬ (run systemStep (System.boot false) appAfterSession).state.vars.Both := by
  have hrest : Along systemStep (fun d step => launchesAtRest d step = true)
      (System.boot false) appAfterSession := by decide
  exact session_excludes_app false appAfterSession (hrest.mono launchesApart_of_atRest)

/-- A session is opened without a dialog while an app is being launched. -/
def sessionInLaunch : List Step :=
  [.turn ⟨true, false⟩] ++ acts .main 4 ++ [.frame [0, SmpCmd.sessionStart, 0, smpProtoVersion]] ++
    acts .rx 10 ++ acts .main 1

theorem session_beside_app :
    (run systemStep (System.boot true) sessionInLaunch).state.vars.Both := by
  decide

end Smp
end JppDos
