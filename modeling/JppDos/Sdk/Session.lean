import JppDos.Sdk.Calls

/-!
# Sessions of an app

What holds from the moment an app is bound until its session ends, whatever calls it makes:
its capabilities are those it was bound with and those the user has granted since, its
services were reached with a capability that it held, and its paths lead below its own
directories.

Main fact:
* `runService_keeps`: a service that the app may reach keeps the session in order.
-/

namespace JppDos
namespace Sdk

open CText Paths Prog

/-- What is fixed while an app runs: its directory, the capabilities it was bound with, the
entries of its pending table, the grant files at its start, and whether a grant only counts
when the user has given it. -/
structure Session where
  dir : CStr
  atBind : List CStr
  pending : List (CStr × Nat)
  files : GrantFiles
  strict : Prop

/-- A dialog for a capability has been answered with a grant. -/
def Session.Answered (S : Session) (events : List SdkEvent) (cap : CStr) (tier : Nat) : Prop :=
  ∃ byUser, .consent cap tier true byUser ∈ events ∧ (S.strict → byUser = true)

/-- A pending capability has been granted. -/
def Session.Approved (S : Session) (events : List SdkEvent) (cap : CStr) : Prop :=
  ∃ tier, (cap, tier) ∈ S.pending ∧ S.Answered events cap tier

/-- The capability was granted when the app was bound, or has been granted since. -/
def Session.Holds (S : Session) (events : List SdkEvent) (cap : CStr) : Prop :=
  cap ∈ S.atBind ∨ S.Approved events cap

/-- The directory below which a call builds its path, and the path it was given. -/
def SdkCall.relative : SdkCall → Option (CStr × Option CStr)
  | .fileRead path | .fileWrite path _ | .moduleLoad path => some (appsRoot, path)
  | .fileList dir => some (appsRoot, orRoot dir)
  | .sharedRead path | .sharedWrite path _ => some (sharedRoot, path)
  | .sharedList dir => some (sharedRoot, orRoot dir)
  | _ => none

/-- A path that a call builds below a root leads to the app's directory there or below it,
and the path that the app gave stands in it as a whole. -/
def Inside (dir root : CStr) (relativePath : Option CStr) (path : Option (List UInt8)) : Prop :=
  ∃ p q, relativePath = some p ∧ path = some q ∧ Below (resolve root.val ++ [dir.val]) q ∧
    q = root.val ++ slash :: dir.val ++ slash :: p.val.dropWhile (· = slash) ∧
    q.length < sdkPathMax

/-- What may happen in a session after the given events. -/
def Session.Allows (S : Session) (before : List SdkEvent) : SdkEvent → Prop
  | .prompt cap tier => (cap, tier) ∈ S.pending
  | .consent cap tier _ _ => (cap, tier) ∈ S.pending
  | .service call _ path =>
      (call.gate = [] ∨ ∃ cap ∈ call.gate, S.Holds before cap) ∧
        ∀ r ∈ call.relative, Inside S.dir r.1 r.2 path
  | .close => True

/-- Everything that has happened was allowed when it happened. -/
def Session.Conforms (S : Session) (events : List SdkEvent) : Prop :=
  ∀ before e after, events = before ++ e :: after → S.Allows before e

theorem Session.conforms_nil (S : Session) : S.Conforms [] := by
  intro before e after h
  exact absurd h (by simp)

theorem Session.Conforms.append {S : Session} {events : List SdkEvent} (h : S.Conforms events)
    {e : SdkEvent} (he : S.Allows events e) : S.Conforms (events ++ [e]) := by
  intro before e' after heq
  rcases List.append_eq_append_iff.mp heq with ⟨mid, hbefore, hrest⟩ | ⟨mid, hevents, hrest⟩
  · cases mid with
    | nil =>
        rw [List.append_nil] at hbefore
        obtain ⟨rfl, -⟩ := List.cons.inj hrest
        rwa [hbefore]
    | cons first mid => exact absurd (congrArg List.length hrest) (by simp)
  · cases mid with
    | nil =>
        rw [List.append_nil] at hevents
        rw [List.nil_append] at hrest
        obtain ⟨rfl, -⟩ := List.cons.inj hrest
        rwa [← hevents]
    | cons first mid =>
        obtain ⟨rfl, -⟩ := List.cons.inj hrest
        exact h before e' mid hevents

theorem Session.Answered.mono {S : Session} {events : List SdkEvent} {cap : CStr} {tier : Nat}
    (h : S.Answered events cap tier) (more : List SdkEvent) :
    S.Answered (events ++ more) cap tier := by
  obtain ⟨byUser, hconsent, hstrict⟩ := h
  exact ⟨byUser, List.mem_append_left more hconsent, hstrict⟩

theorem Session.Approved.mono {S : Session} {events : List SdkEvent} {cap : CStr}
    (h : S.Approved events cap) (more : List SdkEvent) : S.Approved (events ++ more) cap := by
  obtain ⟨tier, hpending, hanswered⟩ := h
  exact ⟨tier, hpending, hanswered.mono more⟩

theorem Session.Holds.mono {S : Session} {events : List SdkEvent} {cap : CStr}
    (h : S.Holds events cap) (more : List SdkEvent) : S.Holds (events ++ more) cap :=
  h.imp id fun h => h.mono more

/-- No key that the app has pushed waits in its queue. -/
def UserKeys (m : SdkState) : Prop := ∀ k ∈ m.ctx.keyQueue.getD [], k.pushed = false

instance (m : SdkState) : Decidable (UserKeys m) := inferInstanceAs (Decidable (∀ k ∈ _, _))

/-- The context in the course of a session. -/
structure Session.Runs (S : Session) (m : SdkState) : Prop where
  dir : strNameValid S.dir = true ∧ S.dir.strlen < appIdMax
  appId : m.ctx.appId = S.dir
  bound : m.ctx.bound = true
  room : m.ctx.granted.length ≤ pendingCapMax
  held : ∀ cap ∈ m.grantedCaps, S.Holds m.events cap
  pending : m.pendingCaps = S.pending
  events : S.Conforms m.events
  close : m.ctx.closeRequested = true → .close ∈ m.events
  files : ∀ id : CStr, id.strlen < appIdMax → ∀ cap ∈ tier1Caps,
    grantIsPersisted m.files id cap = true →
      grantIsPersisted S.files id cap = true ∨ id = S.dir ∧ S.Answered m.events cap 1

/-- A session in an unbound context, through which nothing is reached. -/
structure Session.Idles (S : Session) (m : SdkState) : Prop where
  bound : m.ctx.bound = false
  room : m.ctx.granted.length ≤ pendingCapMax
  events : S.Conforms m.events
  files : m.files = S.files

/-- `Session.Runs` in the course of a call that holds some capabilities; a call that may ask
for one finds no key of the app in the queue. -/
def Session.In (S : Session) (asks : Prop) (caps : List CStr) (m : SdkState) : Prop :=
  S.Runs m ∧ (asks → UserKeys m) ∧ ∀ cap ∈ caps, S.Holds m.events cap

/-- A part of a call that keeps the session in order, whether it goes on or stops. -/
def Session.Keeps {α : Type} (S : Session) (asks : Prop) (caps : List CStr) (p : SdkProg α)
    (caps' : List CStr) : Prop :=
  Triple (S.In asks caps) p (fun _ => S.In asks caps') (fun _ => S.In asks [])

section Steps

variable {S : Session} {asks : Prop} {caps caps' caps'' : List CStr} {α β : Type}

theorem Session.In.drop {m : SdkState} (h : S.In asks caps m) : S.In asks [] m :=
  ⟨h.1, h.2.1, by simp⟩

theorem Session.Keeps.bind {p : SdkProg α} {k : α → SdkProg β} (hp : S.Keeps asks caps p caps')
    (hk : ∀ a, S.Keeps asks caps' (k a) caps'') : S.Keeps asks caps (p >>= k) caps'' :=
  Triple.bind hp hk

theorem Session.Keeps.pure (a : α) : S.Keeps asks caps (Pure.pure a : SdkProg α) caps :=
  Triple.pure fun _ h => h

theorem Session.Keeps.fail (status : SdkStatus) :
    S.Keeps asks caps (Sdk.fail status : SdkProg α) caps' := by
  intro m h
  exact h.drop

theorem Session.Keeps.read {k : SdkState → SdkProg α}
    (h : ∀ m, S.In asks caps m → S.Keeps asks caps (k m) caps') :
    S.Keeps asks caps (Prog.read >>= k) caps' :=
  Triple.read_then h

/-- Fewer capabilities are held behind a program than it brings. -/
theorem Session.Keeps.forget {p : SdkProg α} (h : S.Keeps asks caps p caps') :
    S.Keeps asks caps p [] :=
  Triple.conseq h (fun _ h => h) (fun _ _ h => h.drop) (fun _ _ h => h)

theorem Session.Keeps.ite {cond : Prop} [Decidable cond] {p q : SdkProg α}
    (hp : cond → S.Keeps asks caps p caps') (hq : ¬ cond → S.Keeps asks caps q caps') :
    S.Keeps asks caps (if cond then p else q) caps' := by
  split
  · exact hp ‹_›
  · exact hq ‹_›

theorem require_keeps (cond : Bool) (status : SdkStatus) :
    S.Keeps asks caps (require cond status) caps :=
  Triple.check (fun _ h _ => h) (fun _ h _ => h.drop)

theorem ensureBound_keeps : S.Keeps asks caps ensureBound caps :=
  Session.Keeps.read fun _ _ => require_keeps _ _

theorem needServices_keeps (callbacks : List Callback) :
    S.Keeps asks caps (needServices callbacks) caps :=
  Session.Keeps.read fun _ _ => require_keeps _ _

theorem needCallback_keeps (callback : Callback) :
    S.Keeps asks caps (needCallback callback) caps :=
  Session.Keeps.read fun _ _ => require_keeps _ _

theorem Session.In.emit {m : SdkState} (h : S.In asks caps m) {e : SdkEvent}
    (he : S.Allows m.events e) {locks : LockSet} :
    S.In asks caps { m with locks := locks, events := m.events ++ [e] } := by
  obtain ⟨hruns, hkeys, hcaps⟩ := h
  refine ⟨{ hruns with held := ?_, events := hruns.events.append he, close := ?_, files := ?_ },
    hkeys, fun cap hcap => (hcaps cap hcap).mono _⟩
  · exact fun cap hcap => (hruns.held cap hcap).mono _
  · exact fun hclose => List.mem_append_left _ (hruns.close hclose)
  · exact fun id hid cap hcap hsaved =>
      (hruns.files id hid cap hcap hsaved).imp (fun h => h)
        fun ⟨hdir, hanswered⟩ => ⟨hdir, hanswered.mono _⟩

theorem emit_keeps {e : SdkEvent} (he : ∀ m, S.In asks caps m → S.Allows m.events e) :
    S.Keeps asks caps (emit e) caps :=
  Triple.update fun m h => h.emit (he m h)

/-- The fields of the context that a session depends on. -/
structure SameRights (ctx ctx' : Context) : Prop where
  appId : ctx'.appId = ctx.appId
  bound : ctx'.bound = ctx.bound
  granted : ctx'.granted = ctx.granted
  table : ctx'.pendingTable = ctx.pendingTable
  count : ctx'.pendingCount = ctx.pendingCount
  close : ctx'.closeRequested = ctx.closeRequested

theorem SameRights.runs {m : SdkState} (h : S.Runs m) {ctx : Context}
    (hctx : SameRights m.ctx ctx) : S.Runs { m with ctx := ctx } := by
  have hpending : ({ m with ctx := ctx } : SdkState).pendingCaps = m.pendingCaps := by
    simp only [SdkState.pendingCaps, hctx.table, hctx.count]
  have hgranted : ({ m with ctx := ctx } : SdkState).grantedCaps = m.grantedCaps := by
    simp only [SdkState.grantedCaps, hctx.granted]
    refine List.map_congr_left fun p _ => ?_
    cases p with
    | manifest slot => rfl
    | pending slot => simp only [SdkState.deref, hctx.table]
  exact {
    dir := h.dir
    appId := hctx.appId.trans h.appId
    bound := hctx.bound.trans h.bound
    room := by rw [hctx.granted]; exact h.room
    held := by rw [hgranted]; exact h.held
    pending := hpending.trans h.pending
    events := h.events
    close := fun hclose => h.close (hctx.close ▸ hclose)
    files := h.files }

/-- A change of the context that leaves the rights and the queue of the app alone. -/
theorem setContext_keeps {f : Context → Context} (hf : ∀ ctx, SameRights ctx (f ctx))
    (hkeys : asks → ∀ m, UserKeys m → UserKeys { m with ctx := f m.ctx }) :
    S.Keeps asks caps (setContext f) caps :=
  Triple.update fun m h =>
    ⟨(hf m.ctx).runs h.1, fun hasks => hkeys hasks m (h.2.1 hasks), h.2.2⟩

/-- The context of a session that has asked for its end. -/
def SdkState.closed (m : SdkState) : SdkState :=
  { m with ctx := { m.ctx with closeRequested := true }, events := m.events ++ [.close] }

theorem Session.Runs.closed {m : SdkState} (h : S.Runs m) : S.Runs m.closed :=
  { h with
    held := fun cap hcap => (h.held cap hcap).mono _
    events := h.events.append trivial
    close := fun _ => List.mem_append_right _ (List.mem_singleton.mpr rfl)
    files := fun id hid cap hcap hsaved =>
      (h.files id hid cap hcap hsaved).imp (fun h => h)
        fun ⟨hdir, hanswered⟩ => ⟨hdir, hanswered.mono _⟩ }

/-- A dialog of a call that finds no key of the app in the queue is answered by the user. -/
theorem sdkConfirm_keeps (keys : List Key) :
    Triple (S.In asks caps) (sdkConfirm keys)
      (fun answer m => S.In asks caps m ∧ (asks → answer.2 = true))
      (fun _ => S.In asks []) := by
  refine Triple.read_then fun m hm => ?_
  rw [if_neg (by simp [hm.1.bound])]
  cases hqueue : m.ctx.keyQueue with
  | none =>
      intro m' hm'
      exact hm'.drop
  | some queued =>
      simp only
      have huser : asks → ∀ k ∈ queued ++ keys.map fun k => (⟨k, false⟩ : QueuedKey),
          k.pushed = false := by
        intro hasks k hk
        rcases List.mem_append.mp hk with hk | hk
        · exact hm.2.1 hasks k (by rwa [hqueue])
        · obtain ⟨key, -, rfl⟩ := List.mem_map.mp hk
          rfl
      have hsame : ∀ rest : List QueuedKey, ∀ ctx : Context,
          SameRights ctx { ctx with keyQueue := some rest } :=
        fun rest ctx => ⟨rfl, rfl, rfl, rfl, rfl, rfl⟩
      cases hloop : confirmLoop false true (queued ++ keys.map fun k => ⟨k, false⟩) with
      | none =>
          refine Triple.bind (setContext_keeps (hsame []) ?_) fun _ m' hm' => hm'.drop
          intro _ m' _ k hk
          exact absurd hk (by simp)
      | some answer =>
          obtain ⟨allow, byUser, rest⟩ := answer
          have hrest : asks → byUser = true ∧ ∀ k ∈ rest, k.pushed = false :=
            fun hasks => confirmLoop_byUser (huser hasks) false hloop
          refine Triple.bind (setContext_keeps (hsame (rest.take keyQueueCapacity)) ?_) fun _ =>
            Triple.pure fun m' hm' => ⟨hm', fun hasks => (hrest hasks).1⟩
          intro hasks m' _ k hk
          exact (hrest hasks).2 k (List.mem_of_mem_take hk)

/-- A grant that has been given is saved for the app only. -/
theorem grantPersist_in {m : SdkState} (h : S.In asks caps m) {cap : CStr}
    (hanswered : S.Answered m.events cap 1) :
    S.In asks caps { m with files := grantPersist m.files m.ctx.appId cap } := by
  obtain ⟨hruns, hkeys, hcaps⟩ := h
  refine ⟨{ hruns with files := ?_ }, hkeys, hcaps⟩
  intro id hid c hc hsaved
  have happ : m.ctx.appId.strlen < appIdMax := by rw [hruns.appId]; exact hruns.dir.2
  rcases (grantIsPersisted_grantPersist m.files happ hid cap hc).mp hsaved with hold | hnew
  · exact hruns.files id hid c hc hold
  · obtain ⟨rfl, rfl⟩ := hnew
    exact Or.inr ⟨hruns.appId, hanswered⟩

/-- Only the answer to its dialog grants a capability, and it is the user's where the queue
holds no key of the app. -/
theorem appConsentPrompt_keeps (hasks : S.strict → asks) (i : SdkInput) {cap : CStr} {tier : Nat}
    (hpending : (cap, tier) ∈ S.pending) :
    Triple (S.In asks caps) (appConsentPrompt i cap tier)
      (fun granted m => S.In asks caps m ∧ (granted = true → S.Answered m.events cap tier))
      (fun _ => S.In asks []) := by
  refine Triple.bind (emit_keeps fun _ _ => hpending) fun _ => Triple.read_then fun m _ => ?_
  split
  · refine Triple.bind (emit_keeps fun _ _ => hpending) fun _ => Triple.pure fun m' hm' => ?_
    exact ⟨hm', fun hfalse => absurd hfalse (by simp)⟩
  · refine Triple.bind (sdkConfirm_keeps i.capKeys) fun answer => ?_
    obtain ⟨granted, byUser⟩ := answer
    have hemit : Triple (fun m => S.In asks caps m ∧ (asks → byUser = true))
        (emit (.consent cap tier granted byUser))
        (fun _ m => S.In asks caps m ∧ (granted = true → S.Answered m.events cap tier))
        (fun _ => S.In asks []) := by
      have hallows : ∀ events, S.Allows events (.consent cap tier granted byUser) :=
        fun _ => hpending
      refine Triple.update fun m hm => ⟨hm.1.emit (hallows m.events), ?_⟩
      rintro rfl
      exact ⟨byUser, List.mem_append_right _ (List.mem_singleton.mpr rfl),
        fun hstrict => hm.2 (hasks hstrict)⟩
    refine Triple.bind hemit fun _ => ?_
    split
    · rename_i hsave
      obtain ⟨rfl, htier⟩ := Bool.and_eq_true_iff.mp hsave
      obtain rfl : tier = 1 := by simpa using htier
      refine Triple.bind (Q := fun _ m => S.In asks caps m ∧ S.Answered m.events cap 1)
        (Triple.update fun m hm => ?_) fun _ => ?_
      · exact ⟨grantPersist_in hm.1 (hm.2 rfl), hm.2 rfl⟩
      · exact Triple.pure fun m hm => ⟨hm.1, fun _ => hm.2⟩
    · exact Triple.pure fun m hm => hm

theorem askUser_keeps (hasks : S.strict → asks) (i : SdkInput) {cap : CStr} {tier : Nat}
    (hpending : (cap, tier) ∈ S.pending) :
    Triple (S.In asks caps) (askUser i cap tier)
      (fun granted m => S.In asks caps m ∧ (granted = true → S.Answered m.events cap tier))
      (fun _ => S.In asks []) := by
  refine Triple.read_then fun m _ => ?_
  split
  · exact appConsentPrompt_keeps hasks i hpending
  · exact Triple.pure fun m hm => ⟨hm, fun hfalse => absurd hfalse (by simp)⟩

/-- A granted capability is taken into the list, or the call stops. -/
theorem pushGranted_keeps {slot : Nat} {cap : CStr}
    (hslot : ∃ tier, S.pending[slot]? = some (cap, tier)) :
    Triple (fun m => S.In asks caps m ∧ S.Holds m.events cap) (pushGranted slot)
      (fun _ => S.In asks (cap :: caps)) (fun _ => S.In asks []) := by
  rintro m ⟨⟨hruns, hkeys, hcaps⟩, hholds⟩
  rw [pushGranted, exec_bind, exec_read]
  by_cases hroom : m.ctx.granted.length < pendingCapMax
  · simp only [hroom, if_true]
    obtain ⟨tier, hslot⟩ := hslot
    have hderef : m.deref (.pending slot) = cap := by
      rw [← hruns.pending, SdkState.pendingCaps] at hslot
      rw [List.getElem?_take] at hslot
      split at hslot
      · simp [SdkState.deref, hslot]
      · exact absurd hslot (by simp)
    refine ⟨{ hruns with room := ?_, held := ?_ }, hkeys, ?_⟩
    · rw [List.length_append]
      exact hroom
    · intro c hc
      simp only [SdkState.grantedCaps, List.map_append, List.mem_append] at hc
      rcases hc with hc | hc
      · exact hruns.held c hc
      · obtain rfl : c = cap := (List.mem_singleton.mp hc).trans hderef
        exact hholds
    · intro c hc
      rcases List.mem_cons.mp hc with rfl | hc
      · exact hholds
      · exact hcaps c hc
  · simp only [hroom, if_false]
    exact ⟨hruns, hkeys, by simp⟩

/-- Asking for a capability stops the call, or the app holds it behind. -/
theorem ensureCap_keeps (hasks : S.strict → asks) (i : SdkInput) (cap : CStr) :
    S.Keeps asks caps (ensureCap i cap) (cap :: caps) := by
  refine Triple.read_bind fun m hm => ?_
  by_cases hhas : m.hasCapability cap = true
  · rw [if_pos hhas]
    have hholds : S.Holds m.events cap :=
      hm.1.held cap (by simpa [SdkState.hasCapability] using hhas)
    rintro _ rfl
    exact ⟨hm.1, hm.2.1, List.forall_mem_cons.mpr ⟨hholds, hm.2.2⟩⟩
  rw [if_neg hhas]
  cases hslot : m.pendingSlot cap with
  | none =>
      rintro _ rfl
      exact hm.drop
  | some slot =>
      obtain ⟨hlt, htext, -⟩ := List.findIdx?_eq_some_iff_getElem.mp hslot
      have hget : m.pendingCaps.getD slot (lit "", 0) = m.pendingCaps[slot] := by
        rw [List.getD_eq_getElem?_getD, List.getElem?_eq_getElem hlt, Option.getD_some]
      have hcap : (m.pendingCaps[slot]).1 = cap := by simpa using htext
      have hentry : S.pending[slot]? = some (cap, (m.pendingCaps[slot]).2) := by
        rw [← hm.1.pending, List.getElem?_eq_getElem hlt, ← hcap]
      have hmem := List.mem_of_getElem? hentry
      simp only [hget]
      generalize (m.pendingCaps[slot]).2 = tier at hentry hmem ⊢
      refine Triple.conseq (P := S.In asks caps) ?_ (fun _ heq => heq ▸ hm) (fun _ _ h => h)
        fun _ _ h => h
      refine Triple.bind (askUser_keeps hasks i hmem) fun granted => ?_
      refine Triple.bind (Q := fun _ m' => S.In asks caps m' ∧ S.Holds m'.events cap)
        (Triple.check ?_ ?_) fun _ => pushGranted_keeps ⟨tier, hentry⟩
      · exact fun m' hm' hgranted => ⟨hm'.1, Or.inr ⟨tier, hmem, hm'.2 hgranted⟩⟩
      · exact fun m' hm' _ => hm'.1.drop

/-- A call that holds the given capabilities may reach its service with a path. -/
def Session.MayReach (S : Session) (caps : List CStr) (call : SdkCall)
    (path : Option (List UInt8)) : Prop :=
  (call.gate = [] ∨ ∃ cap ∈ call.gate, cap ∈ caps) ∧
    ∀ r ∈ call.relative, Inside S.dir r.1 r.2 path

theorem Session.MayReach.allows {call : SdkCall} {path : Option (List UInt8)}
    (h : S.MayReach caps call path) {m : SdkState} (hm : S.In asks caps m) (callback : Callback) :
    S.Allows m.events (.service call callback path) :=
  ⟨h.1.imp id fun ⟨cap, hgate, hcap⟩ => ⟨cap, hgate, hm.2.2 cap hcap⟩, h.2⟩

/-- A call that is not gated and builds no path may reach any service. -/
theorem Session.mayReach_of_free {call : SdkCall} (hgate : call.gate = [])
    (hrelative : call.relative = none) (path : Option (List UInt8)) :
    S.MayReach caps call path :=
  ⟨Or.inl hgate, by simp [hrelative]⟩

/-- A call that holds a capability of its gate and builds no path may reach any service. -/
theorem Session.mayReach_of_held {call : SdkCall} {cap : CStr} (hgate : cap ∈ call.gate)
    (hrelative : call.relative = none) (path : Option (List UInt8)) :
    S.MayReach (cap :: caps) call path :=
  ⟨Or.inr ⟨cap, hgate, List.mem_cons_self⟩, by simp [hrelative]⟩

theorem callService_keeps {i : SdkInput} {path : Option (List UInt8)}
    (h : S.MayReach caps i.call path) (callback : Callback) :
    S.Keeps asks caps (callService i callback path) caps :=
  emit_keeps fun _ hm => h.allows hm callback

theorem exclusive_keeps {i : SdkInput} {path : Option (List UInt8)}
    (h : S.MayReach caps i.call path) (n : Nat) (resource : String) (callback : Callback) :
    S.Keeps asks caps (exclusive i n resource callback path) caps := by
  refine Triple.read_bind fun _ hm => ?_
  rintro m rfl
  have hstate := runExclusive_state (fun s => s) resource
    (fun events => ((i.answer n).1, (i.answer n).2,
      events ++ [SdkEvent.service i.call callback path])) m.locks m.events
  generalize runExclusive (fun s => s) resource
    (fun events => ((i.answer n).1, (i.answer n).2,
      events ++ [SdkEvent.service i.call callback path])) m.locks m.events = done at hstate ⊢
  obtain ⟨status, result, locks, events⟩ := done
  simp only at hstate
  have hkept : S.In asks caps { m with locks := locks, events := events } := by
    rcases hstate with rfl | rfl
    · exact ⟨{ hm.1 with }, hm.2.1, hm.2.2⟩
    · exact hm.emit (h.allows hm callback)
  exact hkept

theorem runService_keeps {i : SdkInput} {path : Option (List UInt8)}
    (h : S.MayReach caps i.call path) (resource : String) (callback : Callback) :
    S.Keeps asks caps (runService i resource callback path) caps :=
  (exclusive_keeps h 0 resource callback).bind fun _ => require_keeps _ _

/-- The queue only loses keys, or takes one of the user. -/
theorem takeKey_keeps (arrived : Option Key) : S.Keeps asks caps (takeKey arrived) caps := by
  refine Session.Keeps.read fun m hm => ?_
  cases hqueue : m.ctx.keyQueue with
  | none => exact Session.Keeps.fail _
  | some queued =>
      refine setContext_keeps (fun ctx => ⟨rfl, rfl, rfl, rfl, rfl, rfl⟩) ?_
      intro hasks m' _ k hk
      rcases List.mem_append.mp (List.mem_of_mem_tail hk) with hk | hk
      · exact hm.2.1 hasks k (by rwa [hqueue])
      · obtain ⟨key, -, rfl⟩ : ∃ key, arrived = some key ∧ (⟨key, false⟩ : QueuedKey) = k := by
          simpa using hk
        rfl

/-- A change of the context that leaves the rights and the queue of the app alone. -/
theorem setFields_keeps {f : Context → Context} (hf : ∀ ctx, SameRights ctx (f ctx))
    (hqueue : ∀ ctx, (f ctx).keyQueue = ctx.keyQueue) : S.Keeps asks caps (setContext f) caps :=
  setContext_keeps hf fun _ m hm k hk => hm k (by rwa [← hqueue m.ctx])

end Steps

end Sdk
end JppDos
