import JppDos.App.Device

/-!
# The sessions of a device

What holds of the running app in every run: the context belongs to the app's own directory,
or it is unbound and nothing is reached through it.

Main fact:
* `deviceStep_sound`: every step keeps the running app in order.
-/

namespace JppDos
namespace App

open CText Sdk Prog

/-- The session of a task; in a strict one a grant only counts when the user has given it. -/
def Task.session (t : Task) (strict : Prop) : Session where
  dir := t.dir
  atBind := t.atBind
  pending := t.pending
  files := t.files
  strict := strict

/-- What the launch has found for a task in its manifest and in its grant file. -/
structure Task.Declared (t : Task) : Prop where
  atBind : ∀ cap ∈ t.atBind, cap ∈ t.declared ∧ cap ∈ tier1Caps ∧
    grantIsPersisted t.files t.dir cap = true
  pending : ∀ p ∈ t.pending, p.1 ∈ t.declared ∧ p.2 = capTier p.1

/-- The context belongs to the running app, or nothing is reached through it. -/
def Task.Sound (t : Task) (strict : Prop) (m : SdkState) : Prop :=
  t.status = .ok ∧ (t.session strict).Runs m ∨ t.status ≠ .ok ∧ (t.session strict).Idles m

theorem Task.Sound.conforms {t : Task} {strict : Prop} {m : SdkState} (h : t.Sound strict m) :
    (t.session strict).Conforms m.events := by
  rcases h with h | h
  · exact h.2.events
  · exact h.2.events

theorem Task.Sound.room {t : Task} {strict : Prop} {m : SdkState} (h : t.Sound strict m) :
    m.ctx.granted.length ≤ pendingCapMax := by
  rcases h with h | h
  · exact h.2.room
  · exact h.2.room

theorem bindFor_eq (appType : AppType) (ctx : Context) (appId : CStr) (caller : List Nat)
    (services : List Callback) :
    bindFor appType ctx appId caller services = sdkBindNative ctx appId caller true services := by
  cases appType <;> rfl

/-- The table of a context that was just initialised holds the pending capabilities. -/
theorem setPendingCaps_fresh (ctx : Context) (htable : ctx.pendingTable = [])
    {caps : List (CStr × Nat)}
    (hlen : caps.length ≤ pendingCapMax) (hshort : ∀ p ∈ caps, p.1.strlen < 32) :
    (setPendingCaps ctx caps).pendingTable.take (setPendingCaps ctx caps).pendingCount = caps := by
  rw [setPendingCaps]
  split
  · rename_i hnil
    rw [htable, hnil, List.take_nil]
  · have hcopy : caps.map (fun p => (p.1.strncpy 32, p.2)) = caps := by
      refine (List.map_congr_left fun p hp => ?_).trans (List.map_id caps)
      rw [CStr.strncpy_of_lt (hshort p hp)]
      rfl
    simp only [List.take_of_length_le hlen, htable, List.drop_nil, List.append_nil]
    rw [hcopy, List.take_length]

theorem setPendingCaps_fields (ctx : Context) (caps : List (CStr × Nat)) :
    (setPendingCaps ctx caps).appId = ctx.appId ∧
      (setPendingCaps ctx caps).bound = ctx.bound ∧
      (setPendingCaps ctx caps).granted = ctx.granted ∧
      (setPendingCaps ctx caps).closeRequested = ctx.closeRequested ∧
      (setPendingCaps ctx caps).keyQueue = ctx.keyQueue := by
  rw [setPendingCaps]
  split
  · exact ⟨rfl, rfl, rfl, rfl, rfl⟩
  · exact ⟨rfl, rfl, rfl, rfl, rfl⟩

/-- What `apply_consent` finds is what the manifest declares. -/
theorem declared_of_consent (files : GrantFiles) (dir : CStr) (declared : List CStr) :
    (∀ cap ∈ ((applyConsent files dir declared).caps.take pendingCapMax).map
        (declared.getD · (lit "")),
      cap ∈ declared ∧ cap ∈ tier1Caps ∧ grantIsPersisted files dir cap = true) ∧
    ∀ p ∈ (applyConsent files dir declared).pending, p.1 ∈ declared ∧ p.2 = capTier p.1 := by
  have hsound := applyConsent_sound files dir declared
  constructor
  · intro cap hcap
    obtain ⟨slot, hslot, rfl⟩ := List.mem_map.mp hcap
    obtain ⟨c, hentry, htier, hsaved⟩ := hsound.caps slot (List.mem_of_mem_take hslot)
    have hget : declared[slot]? = some c := List.mk_mem_zipIdx_iff_getElem?.mp hentry
    rw [List.getD_eq_getElem?_getD, hget, Option.getD_some]
    exact ⟨List.mem_of_getElem? hget, htier, hsaved⟩
  · intro p hp
    obtain ⟨⟨slot, hentry⟩, htier⟩ := hsound.pending p hp
    exact ⟨List.mem_of_getElem? (List.mk_mem_zipIdx_iff_getElem?.mp hentry), htier⟩

/-- A session begins in order: the bind has been accepted and the pending capabilities have
been handed over. -/
theorem runs_of_bind {dir : CStr} (hvalid : appIdIsValid dir = true) (hlen : dir.strlen < appIdMax)
    {pending : List (CStr × Nat)} (hlength : pending.length ≤ pendingCapMax)
    (hshort : ∀ p ∈ pending, p.1.strlen < 32) (ctx : Context) (caller : List Nat)
    (hasLocks : Bool) (services servicesV2 : List Callback) (capStrs : List CStr)
    (bgRunActive : Bool) (files : GrantFiles) (locks : LockSet) (strict : Prop) :
    Session.Runs
      { dir := dir, atBind := (caller.take pendingCapMax).map (capStrs.getD · (lit "")),
        pending := pending, files := files, strict := strict }
      { ctx := setPendingCaps (setServicesV2 (sdkBindNative ctx dir caller hasLocks services).2
          servicesV2) pending
        capStrs := capStrs, bgRunActive := bgRunActive, files := files, locks := locks,
        events := [] } := by
  rw [sdkBindNative_ok hvalid hlen]
  generalize hctx : setServicesV2 _ servicesV2 = fresh
  obtain ⟨happ, hbound, hgranted, hclose, -⟩ := setPendingCaps_fields fresh pending
  have hpending := setPendingCaps_fresh fresh (by rw [← hctx]; rfl) hlength hshort
  subst hctx
  refine ⟨⟨appIdIsValid_name hvalid, hlen⟩, happ, hbound, ?_, ?_, hpending,
    Session.conforms_nil _, ?_, fun id _ cap _ hsaved => Or.inl hsaved⟩
  · rw [hgranted]
    exact (List.length_map _).trans_le (List.length_take_le _ _)
  · intro cap hcap
    rw [SdkState.grantedCaps, hgranted] at hcap
    refine Or.inl ?_
    obtain ⟨p, hp, rfl⟩ := List.mem_map.mp hcap
    obtain ⟨slot, hslot, rfl⟩ := List.mem_map.mp hp
    exact List.mem_map_of_mem hslot
  · intro hclosed
    rw [hclose] at hclosed
    exact absurd hclosed (by simp [setServicesV2, contextInit, Context.zero])

/-- A bind leaves no more capabilities than there is room for. -/
theorem sdkBindNative_room {ctx : Context} (h : ctx.granted.length ≤ pendingCapMax) (dir : CStr)
    (caller : List Nat) (hasLocks : Bool) (services : List Callback) :
    (sdkBindNative ctx dir caller hasLocks services).2.granted.length ≤ pendingCapMax := by
  rw [sdkBindNative]
  split
  · exact h
  split
  · exact Nat.zero_le _
  · exact (List.length_map _).trans_le (List.length_take_le _ _)

theorem launchAppFrom_room {d d' : Device} {l : Launch} {bgTask : Option CStr}
    (hroom : d.state.ctx.granted.length ≤ pendingCapMax)
    (h : launchAppFrom d l bgTask = (false, d')) :
    d'.state.ctx.granted.length ≤ pendingCapMax := by
  rw [launchAppFrom] at h
  split at h
  · obtain ⟨-, rfl⟩ := Prod.mk.inj h
    exact hroom
  simp only at h
  split at h
  · obtain ⟨-, rfl⟩ := Prod.mk.inj h
    exact hroom
  split at h
  · obtain ⟨-, rfl⟩ := Prod.mk.inj h
    exact hroom
  split at h
  · obtain ⟨-, rfl⟩ := Prod.mk.inj h
    simp only [bindFor_eq]
    rw [(setPendingCaps_fields _ _).2.2.1]
    exact sdkBindNative_room hroom _ _ _ _
  · exact absurd (congrArg Prod.fst h) (by simp)

/-- A launch that starts a task leaves it in order, unless the bind is refused in a context
that is still bound. -/
theorem launch_sound {d d' : Device} {l : Launch} {bgTask : Option CStr}
    (h : launchAppFrom d l bgTask = (true, d'))
    (hbind : appIdIsValid l.dir = true ∨ d.state.ctx.bound = false)
    (hfew : d.state.ctx.granted.length ≤ pendingCapMax) (strict : Prop) :
    ∃ t, d'.task = some t ∧ t.dir = l.dir ∧ t.files = d.state.files ∧ t.Declared ∧
      t.Sound strict d'.state ∧ d'.past = d.past := by
  obtain ⟨json, -, -, hpreflight, hpast, hstate, htask⟩ := launchAppFrom_started h
  have hallowed := preflight_allowed hpreflight
  have hroom := loadSdManifest_length l.dir json
  generalize loadSdManifest l.dir json = manifest at hpreflight hallowed hroom hstate htask
  obtain ⟨hatBind, hpending⟩ := declared_of_consent d.state.files l.dir
    manifest.capabilities
  have hlength := (applyConsent_sound d.state.files l.dir manifest.capabilities).length
  generalize applyConsent d.state.files l.dir manifest.capabilities = consent
    at hatBind hpending hlength hstate htask
  simp only [bindFor_eq] at hstate htask
  refine ⟨_, htask, rfl, rfl, ⟨?_, hpending⟩, ?_, hpast⟩
  · intro cap hcap
    simp only at hcap
    split at hcap
    · exact hatBind cap hcap
    · exact absurd hcap (by simp)
  have hshort : ∀ p ∈ consent.pending, p.1.strlen < 32 := fun p hp =>
    strlen_of_allowed (hallowed p.1 (hpending p hp).1)
  have hok := sdkBindNative_eq_ok d.state.ctx l.dir consent.caps true d.services
  rw [hstate]
  by_cases hbinds : appIdIsValid l.dir = true ∧ l.dir.strlen < appIdMax
  · refine Or.inl ⟨hok.mpr hbinds, ?_⟩
    simp only [Task.session, if_pos (hok.mpr hbinds)]
    exact runs_of_bind hbinds.1 hbinds.2 hlength hshort _ _ _ _ _ _ _ _ _ _
  · have hrefused : (sdkBindNative d.state.ctx l.dir consent.caps true d.services).1 ≠ .ok :=
      mt hok.mp hbinds
    refine Or.inr ⟨hrefused, ?_, ?_, Session.conforms_nil _, rfl⟩
    · rw [(setPendingCaps_fields _ _).2.1]
      rcases sdkBindNative_refused hrefused with hempty | ⟨hinvalid, hsame⟩
      · exact hempty.1
      · rw [hsame]
        exact hbind.resolve_left (by simp [hinvalid])
    · rw [(setPendingCaps_fields _ _).2.2.1]
      rcases sdkBindNative_refused hrefused with hempty | ⟨hinvalid, hsame⟩
      · exact hempty.2 ▸ Nat.zero_le _
      · rw [hsame]
        exact hfew

/-- The user has granted a saved capability in an earlier session of the directory. -/
def ApprovedEarlier (past : List (CStr × List SdkEvent)) (dir cap : CStr) : Prop :=
  ∃ s ∈ past, s.1 = dir ∧ .consent cap 1 true true ∈ s.2

/-- Every grant in the files was given in a session that is over. -/
def Saved (files : GrantFiles) (past : List (CStr × List SdkEvent)) : Prop :=
  ∀ id : CStr, id.strlen < appIdMax → ∀ cap ∈ tier1Caps, grantIsPersisted files id cap = true →
    ApprovedEarlier past id cap

/-- The grant files as they were before the running session. -/
def Device.filesBefore (d : Device) : GrantFiles :=
  match d.task with
  | none => d.state.files
  | some t => t.files

/-- The running app is in order, and every grant has its origin. -/
structure Device.Sound (strict : Prop) (d : Device) : Prop where
  room : d.state.ctx.granted.length ≤ pendingCapMax
  task : ∀ t, d.task = some t → t.Declared ∧ t.Sound strict d.state
  saved : strict → Saved d.filesBefore d.past

/-- What keeps the running app in order: a launch that starts a task has its bind accepted, or
finds the context unbound; and where a grant has to be the user's, a call that may ask finds
no key of the app in the queue. -/
def Orderly (strict : Prop) (d : Device) : Step → Prop
  | .launch l | .bgLaunch l _ =>
      d.task.isNone = true → l.starts = true →
        appIdIsValid l.dir = true ∨ d.state.ctx.bound = false
  | .call i => strict → d.task.isSome = true → i.call.mayAsk = true → UserKeys d.state
  | _ => True

instance (strict : Prop) [Decidable strict] (d : Device) (step : Step) :
    Decidable (Orderly strict d step) :=
  match step with
  | .launch _ | .bgLaunch _ _ => inferInstanceAs (Decidable (_ → _ → _ ∨ _))
  | .call _ => inferInstanceAs (Decidable (_ → _ → _ → UserKeys _))
  | .key _ | .finish | .teardown | .bgTeardown | .reboot => inferInstanceAs (Decidable True)

section Steps

variable {strict : Prop} {d : Device}

theorem Saved.mono {files : GrantFiles} {past : List (CStr × List SdkEvent)}
    (h : Saved files past) (more : List (CStr × List SdkEvent)) : Saved files (past ++ more) := by
  intro id hid cap hcap hsaved
  obtain ⟨s, hs, hdir, hconsent⟩ := h id hid cap hcap hsaved
  exact ⟨s, List.mem_append_left more hs, hdir, hconsent⟩

theorem closeSession_task (d : Device) : d.closeSession.task = none := by
  rw [Device.closeSession]
  split
  · assumption
  · rfl

theorem Device.Sound.close (h : d.Sound strict) : d.closeSession.Sound strict := by
  rw [Device.closeSession]
  cases htask : d.task with
  | none => exact h
  | some t =>
      refine ⟨h.room, fun _ hnone => absurd hnone (by simp), fun hstrict => ?_⟩
      have hsaved := h.saved hstrict
      rw [Device.filesBefore, htask] at hsaved
      rcases (h.task t htask).2 with ⟨-, hruns⟩ | ⟨-, hidles⟩
      · intro id hid cap hcap hnow
        rcases hruns.files id hid cap hcap hnow with hold | ⟨rfl, byUser, hconsent, huser⟩
        · exact hsaved.mono _ id hid cap hcap hold
        · obtain rfl := huser hstrict
          exact ⟨(t.dir, d.state.events), List.mem_append_right _ (List.mem_singleton.mpr rfl),
            rfl, hconsent⟩
      · intro id hid cap hcap hnow
        have hbefore : grantIsPersisted d.state.files id cap = true := hnow
        rw [hidles.files] at hbefore
        exact hsaved.mono _ id hid cap hcap hbefore

theorem Device.Sound.launch (h : d.Sound strict) {l : Launch} (bgTask : Option CStr)
    (hnone : d.task = none)
    (hbind : l.starts = true → appIdIsValid l.dir = true ∨ d.state.ctx.bound = false) :
    (launchAppFrom d l bgTask).2.Sound strict := by
  have hsaved := h.saved
  rw [Device.filesBefore, hnone] at hsaved
  cases hlaunch : launchAppFrom d l bgTask with
  | mk started d' =>
      cases started with
      | false =>
          obtain ⟨htask, hpast, hfiles⟩ := launchAppFrom_failed hlaunch
          rw [hnone] at htask
          refine ⟨launchAppFrom_room h.room hlaunch,
            fun t ht => absurd (htask.symm.trans ht) (by simp), fun hstrict => ?_⟩
          rw [Device.filesBefore, htask, hpast]
          simp only
          rw [hfiles]
          exact hsaved hstrict
      | true =>
          obtain ⟨json, -, hstarts, -⟩ := launchAppFrom_started hlaunch
          obtain ⟨t, htask, -, hfiles, hdeclared, hsound, hpast⟩ :=
            launch_sound hlaunch (hbind hstarts) h.room strict
          refine ⟨hsound.room, fun t' ht' => ?_, fun hstrict => ?_⟩
          · obtain rfl : t = t' := Option.some.inj (htask.symm.trans ht')
            exact ⟨hdeclared, hsound⟩
          · rw [Device.filesBefore, htask, hpast]
            simp only
            rw [hfiles]
            exact hsaved hstrict

/-- A change of the app's side that keeps the task in order. -/
theorem Device.Sound.change (h : d.Sound strict) {t t' : Task} (htask : d.task = some t)
    {state : SdkState} (hsound : t.Sound strict d.state → t'.Sound strict state)
    (hsame : t'.dir = t.dir ∧ t'.declared = t.declared ∧ t'.atBind = t.atBind ∧
      t'.pending = t.pending ∧ t'.files = t.files) :
    Device.Sound strict { d with state := state, task := some t' } := by
  obtain ⟨hdir, hdeclared, hatBind, hpending, hfiles⟩ := hsame
  obtain ⟨hdecl, htsound⟩ := h.task t htask
  refine ⟨(hsound htsound).room, fun t'' ht'' => ?_, fun hstrict => ?_⟩
  · obtain rfl := Option.some.inj ht''
    refine ⟨⟨?_, ?_⟩, hsound htsound⟩
    · rw [hatBind, hdeclared, hfiles, hdir]
      exact hdecl.atBind
    · rw [hpending, hdeclared]
      exact hdecl.pending
  · have hsaved := h.saved hstrict
    rw [Device.filesBefore, htask] at hsaved
    change Saved t'.files d.past
    rwa [hfiles]

theorem Task.Sound.call {t : Task} {m : SdkState} (h : t.Sound strict m) (i : SdkInput)
    (hkeys : strict → i.call.mayAsk = true → UserKeys m) :
    t.Sound strict (exec (runCall i) m).2 := by
  rcases h with ⟨hok, hruns⟩ | ⟨hrefused, hidles⟩
  · have hin : (t.session strict).In (strict ∧ i.call.mayAsk = true) [] m :=
      ⟨hruns, fun hasks => hkeys hasks.1 hasks.2, by simp⟩
    exact Or.inl ⟨hok, (Triple.final (runCall_keeps (t.session strict) i) hin).1⟩
  · refine Or.inr ⟨hrefused, ?_⟩
    rcases runCall_unbound hidles.bound i with hsame | ⟨queue, hqueue⟩
    · rwa [hsame]
    · rw [hqueue]
      exact { hidles with }

theorem Task.Sound.key {t : Task} {m : SdkState} (h : t.Sound strict m)
    (queue : Option (List QueuedKey)) :
    t.Sound strict { m with ctx := { m.ctx with keyQueue := queue } } := by
  rcases h with ⟨hok, hruns⟩ | ⟨hrefused, hidles⟩
  · exact Or.inl ⟨hok, SameRights.runs hruns ⟨rfl, rfl, rfl, rfl, rfl, rfl⟩⟩
  · exact Or.inr ⟨hrefused, { hidles with }⟩

theorem Task.Sound.finish {t : Task} {m : SdkState} (h : t.Sound strict m) :
    t.Sound strict m.closed := by
  rcases h with ⟨hok, hruns⟩ | ⟨hrefused, hidles⟩
  · exact Or.inl ⟨hok, hruns.closed⟩
  · exact Or.inr ⟨hrefused, { hidles with events := hidles.events.append trivial }⟩

theorem deviceStep_sound (h : d.Sound strict) (step : Step) (hstep : Orderly strict d step) :
    (deviceStep d step).1.Sound strict := by
  cases step with
  | launch l =>
      simp only [deviceStep, launchSdApp]
      split
      · exact h
      · rename_i hnone
        rw [Option.not_isSome_iff_eq_none] at hnone
        exact h.launch none hnone (hstep (by simp [hnone]))
  | bgLaunch l taskName =>
      simp only [deviceStep, appBgLaunch]
      split
      · exact h
      · rename_i hidle
        have hnone : d.task = none := by
          rw [← Option.not_isSome_iff_eq_none]
          exact fun hsome => hidle (by simp [hsome])
        have hlaunch := h.launch (some taskName) hnone (hstep (by simp [hnone]))
        cases hresult : launchAppFrom d l (some taskName) with
        | mk started d' =>
            rw [hresult] at hlaunch
            cases started with
            | true => exact hlaunch
            | false =>
                have htask := (launchAppFrom_failed hresult).1.trans hnone
                refine ⟨hlaunch.room, fun t ht => absurd (htask.symm.trans ht) (by simp),
                  fun hstrict => ?_⟩
                have hsaved := hlaunch.saved hstrict
                simp only [Device.filesBefore, htask] at hsaved
                simpa [Device.filesBefore, htask] using hsaved
  | call i =>
      simp only [deviceStep, appCall]
      split
      · exact h
      · rename_i t htask
        split
        · exact h
        · refine h.change htask (fun hsound => ?_) ⟨rfl, rfl, rfl, rfl, rfl⟩
          exact hsound.call i fun hstrict hasks => hstep hstrict (by simp [htask]) hasks
  | key key =>
      simp only [deviceStep, keypadPushAppKey]
      split
      · exact h
      · rename_i hkey
        cases htask : d.task with
        | none => exact absurd (Or.inr (by simp [htask])) hkey
        | some t =>
            exact h.change htask (fun hsound => hsound.key
              (pushToQueue d.state.ctx.keyQueue ⟨key, false⟩)) ⟨rfl, rfl, rfl, rfl, rfl⟩
  | finish =>
      simp only [deviceStep, appFinish]
      split
      · exact h
      · rename_i t htask
        split
        · exact h
        · exact h.change htask (fun hsound => hsound.finish) ⟨rfl, rfl, rfl, rfl, rfl⟩
  | teardown => exact h.close
  | bgTeardown =>
      have hclose := h.close
      have htask := closeSession_task d
      refine ⟨hclose.room, fun t ht => absurd (htask.symm.trans ht) (by simp),
        fun hstrict => ?_⟩
      have hsaved := hclose.saved hstrict
      simp only [Device.filesBefore, htask] at hsaved
      simpa [deviceStep, appBgTeardown, Device.filesBefore, htask] using hsaved
  | reboot =>
      have hclose := h.close
      have htask := closeSession_task d
      refine ⟨Nat.zero_le _, fun t ht => absurd ht (by simp [deviceStep, Device.boot]),
        fun hstrict => ?_⟩
      have hsaved := hclose.saved hstrict
      simp only [Device.filesBefore, htask] at hsaved
      simpa [deviceStep, Device.boot, Device.filesBefore] using hsaved

end Steps

/-- A device that is switched on for the first time is in order. -/
theorem boot_sound (strict : Prop) (services servicesV2 : List Callback) :
    (Device.boot services servicesV2 (fun _ => none) []).Sound strict := by
  refine ⟨Nat.zero_le _, fun t ht => absurd ht (by simp [Device.boot]), fun _ => ?_⟩
  intro id _ cap _ hsaved
  exact absurd hsaved (by simp [Device.boot, Device.filesBefore, grantIsPersisted])

end App
end JppDos
