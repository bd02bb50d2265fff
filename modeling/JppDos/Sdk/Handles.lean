import JppDos.Lib.Machine
import JppDos.Sdk.Calls

/-!
# File handles

An app that may use the whole card opens a path for reading or for writing.  The user is
shown the path and allows it or not; behind that the app works with a handle, a slot of a
small table that holds a copy of the path and the mode.  A slot is free again when its
handle is closed.

The desk of this module stands beside the context: for every handle it keeps what the user
was shown when the handle was opened.

Main fact:
* `handles_as_approved`: every operation through a handle is the approved one while the
  approved paths fit.
-/

namespace JppDos
namespace Sdk

open CText Prog Machine

/-- `jpp_sdk_file_open`, with the handle that it writes to `out_handle`. -/
def fileOpenHandle (i : SdkInput) (path : Option CStr) (mode : Option OpenMode) :
    SdkProg Nat := do
  ensureBound
  require i.given .invalidArgument
  require (fullPathIsValid path) .invalidArgument
  match path, mode with
  | some path, some mode => do
      needCallback .pathPrompt
      ensureCap i filesFull
      let m ← read
      match m.ctx.handles.findIdx? Option.isNone with
      | none => fail .handleLimit
      | some slot => do
          let allow ← sdPathPrompt i path
          require allow .accessDenied
          setContext fun ctx =>
            { ctx with handles := ctx.handles.set slot (some (path.strncpy sdkPathMax, mode)) }
          pure slot
  | _, _ => fail .invalidArgument

/-- The calls that open, use and close handles. -/
def SdkCall.onHandles : SdkCall → Bool
  | .fileOpen .. | .handleRead _ | .handleWrite .. | .handleList _ | .handleClose _ => true
  | _ => false

/-- Such a call with what the world answers while it runs. -/
abbrev HandleInput := { i : SdkInput // i.call.onHandles = true }

/-- A path and a mode that the user was asked for. -/
abbrev Approval := List UInt8 × OpenMode

/-- The context, and for every handle what the user approved when it was opened. -/
structure Desk where
  sdk : SdkState
  approved : List (Option Approval)

/-- The desk before the first open. -/
def Desk.clear (sdk : SdkState) : Desk := ⟨sdk, sdk.ctx.handles.map fun _ => none⟩

/-- What the user was shown by a call. -/
def prompted (events : List SdkEvent) : Option Approval :=
  events.findSome? fun
    | .service (.fileOpen _ (some mode)) .pathPrompt (some path) => some (path, mode)
    | _ => none

/-- One call: an open that returns a handle enters what the user was shown, a close takes
the entry out. -/
def deskStep (d : Desk) (i : HandleInput) : Desk × List SdkEvent :=
  let happened := fun sdk : SdkState => sdk.events.drop d.sdk.events.length
  match i.val.call with
  | .fileOpen path mode =>
      match exec (fileOpenHandle i.val path mode) d.sdk with
      | (.ok handle, sdk) => (⟨sdk, d.approved.set handle (prompted (happened sdk))⟩, happened sdk)
      | (.error _, sdk) => (⟨sdk, d.approved⟩, happened sdk)
  | .handleClose handle =>
      match exec (sdkHandleClose handle) d.sdk with
      | (.ok _, sdk) => (⟨sdk, d.approved.set handle none⟩, happened sdk)
      | (.error _, sdk) => (⟨sdk, d.approved⟩, happened sdk)
  | _ =>
      let sdk := (exec (runCall i.val) d.sdk).2
      (⟨sdk, d.approved⟩, happened sdk)

/-- The handle that a call works with, the mode that this takes and the service. -/
def SdkCall.use : SdkCall → Option (Nat × OpenMode × Callback)
  | .handleRead handle => some (handle, .read, .readFile)
  | .handleWrite handle _ => some (handle, .write, .writeFile)
  | .handleList handle => some (handle, .read, .listFiles)
  | _ => none

/-- What a call may reach: through a handle the approved path in the approved mode, and
without one only the question for a path. -/
def MayServe (approved : List (Option Approval)) (call : SdkCall) (callback : Callback)
    (path : Option (List UInt8)) : Prop :=
  match call.use with
  | some (handle, mode, service) =>
      callback = service ∧ ∃ p, path = some p ∧ approved[handle]? = some (some (p, mode))
  | none => callback = .pathPrompt

/-- A condition on the services among the events. -/
def SdkEvent.Serves (S : Callback → Option (List UInt8) → Prop) : SdkEvent → Prop
  | .service _ callback path => S callback path
  | _ => True

/-- All that a call does is what its handle was approved for. -/
def ActsAsApproved (d : Desk) (i : HandleInput) : Prop :=
  ∀ e ∈ (deskStep d i).2, e.Serves (MayServe d.approved i.val.call)

/-- The approved path of the handle that a call works with fits the table. -/
def ApprovedPathFits (d : Desk) (i : HandleInput) : Prop :=
  ∀ use ∈ i.val.call.use, ∀ approval ∈ (d.approved[use.1]?).join,
    approval.1.length < sdkPathMax

instance (d : Desk) (i : HandleInput) : Decidable (ApprovedPathFits d i) :=
  inferInstanceAs (Decidable (∀ use ∈ i.val.call.use, ∀ approval ∈ (d.approved[use.1]?).join, _))

theorem sdkFileOpen_eq (i : SdkInput) (path : Option CStr) (mode : Option OpenMode) :
    sdkFileOpen i path mode = (fun _ => ()) <$> fileOpenHandle i path mode := by
  unfold sdkFileOpen fileOpenHandle
  simp only [map_bind]
  refine bind_congr fun _ => bind_congr fun _ => bind_congr fun _ => ?_
  cases path with
  | none => simp [fail]
  | some path =>
      cases mode with
      | none => simp [fail]
      | some mode =>
          simp only [map_bind]
          refine bind_congr fun _ => bind_congr fun _ => bind_congr fun m => ?_
          cases m.ctx.handles.findIdx? Option.isNone with
          | none => simp [fail]
          | some slot => simp

/-- The handle table as it was, and behind the earlier events only services of a kind. -/
def Frame (table : List (Option (CStr × OpenMode))) (before : List SdkEvent)
    (S : Callback → Option (List UInt8) → Prop) (m : SdkState) : Prop :=
  m.ctx.handles = table ∧ ∃ new, m.events = before ++ new ∧ ∀ e ∈ new, e.Serves S

section Frames

variable {table : List (Option (CStr × OpenMode))} {before : List SdkEvent}
  {S : Callback → Option (List UInt8) → Prop} {α β : Type}

/-- A part of a call that stays in the frame, whether it goes on or stops. -/
def Framed (table : List (Option (CStr × OpenMode))) (before : List SdkEvent)
    (S : Callback → Option (List UInt8) → Prop) (p : SdkProg α) : Prop :=
  Triple (Frame table before S) p (fun _ => Frame table before S) fun _ => Frame table before S

theorem Frame.refl {m : SdkState} (h : m.ctx.handles = table) : Frame table m.events S m :=
  ⟨h, [], (List.append_nil _).symm, by simp⟩

theorem Frame.emit {m : SdkState} (h : Frame table before S m) {e : SdkEvent} (he : e.Serves S)
    {locks : LockSet} :
    Frame table before S { m with locks := locks, events := m.events ++ [e] } := by
  obtain ⟨htable, new, hnew, hserves⟩ := h
  refine ⟨htable, new ++ [e], by rw [hnew, List.append_assoc], ?_⟩
  simpa [or_imp, forall_and] using ⟨hserves, he⟩

theorem Framed.bind {p : SdkProg α} {k : α → SdkProg β} (hp : Framed table before S p)
    (hk : ∀ a, Framed table before S (k a)) : Framed table before S (p >>= k) :=
  Triple.bind hp hk

theorem Framed.pure (a : α) : Framed table before S (Pure.pure a : SdkProg α) :=
  Triple.pure fun _ h => h

theorem Framed.fail (status : SdkStatus) : Framed table before S (Sdk.fail status : SdkProg α) :=
  fun _ h => h

theorem Framed.throw (e : Stop) :
    Framed table before S (MonadExcept.throw e : SdkProg α) :=
  Triple.throw fun _ h => h

theorem Framed.read {k : SdkState → SdkProg α} (h : ∀ m, Framed table before S (k m)) :
    Framed table before S (Prog.read >>= k) :=
  Triple.read_then fun m _ => h m

theorem Framed.require (cond : Bool) (status : SdkStatus) :
    Framed table before S (Sdk.require cond status) :=
  Triple.check (fun _ h _ => h) (fun _ h _ => h)

theorem Framed.setContext {f : Context → Context} (hf : ∀ ctx, (f ctx).handles = ctx.handles) :
    Framed table before S (Sdk.setContext f) :=
  Triple.update fun m h => ⟨(hf m.ctx).trans h.1, h.2⟩

theorem emitPrompt_framed (cap : CStr) (tier : Nat) :
    Framed table before S (Sdk.emit (.prompt cap tier)) :=
  Triple.update fun _ h => h.emit (e := .prompt cap tier) trivial

theorem emitConsent_framed (cap : CStr) (tier : Nat) (granted byUser : Bool) :
    Framed table before S (Sdk.emit (.consent cap tier granted byUser)) :=
  Triple.update fun _ h => h.emit (e := .consent cap tier granted byUser) trivial

theorem ensureBound_framed : Framed table before S ensureBound :=
  Framed.read fun _ => Framed.require _ _

theorem needServices_framed (callbacks : List Callback) :
    Framed table before S (needServices callbacks) :=
  Framed.read fun _ => Framed.require _ _

theorem needCallback_framed (callback : Callback) :
    Framed table before S (needCallback callback) :=
  Framed.read fun _ => Framed.require _ _

theorem sdkConfirm_framed (keys : List Key) : Framed table before S (sdkConfirm keys) := by
  refine Framed.read fun m => ?_
  split
  · exact Framed.pure _
  · split
    · exact Framed.throw _
    · split
      · refine Framed.bind ?_ fun _ => Framed.throw _
        exact Framed.setContext fun _ => rfl
      · refine Framed.bind ?_ fun _ => Framed.pure _
        exact Framed.setContext fun _ => rfl

theorem askUser_framed (i : SdkInput) (cap : CStr) (tier : Nat) :
    Framed table before S (askUser i cap tier) := by
  refine Framed.read fun m => ?_
  split
  · refine (emitPrompt_framed _ _).bind fun _ => Framed.read fun m => ?_
    split
    · exact (emitConsent_framed _ _ _ _).bind fun _ => Framed.pure _
    · refine (sdkConfirm_framed _).bind fun answer =>
        (emitConsent_framed _ _ _ _).bind fun _ => ?_
      split
      · have hsave : Framed table before S
            (update fun m => { m with files := grantPersist m.files m.ctx.appId cap }) :=
          Triple.update fun _ h => h
        exact hsave.bind fun _ => Framed.pure _
      · exact Framed.pure _
  · exact Framed.pure _

theorem ensureCap_framed (i : SdkInput) (cap : CStr) :
    Framed table before S (ensureCap i cap) := by
  refine Framed.read fun m => ?_
  split
  · exact Framed.pure _
  · split
    · exact Framed.fail _
    · refine (askUser_framed i cap _).bind fun _ => (Framed.require _ _).bind fun _ =>
        Framed.read fun m => ?_
      split
      · exact Framed.setContext fun _ => rfl
      · exact Framed.fail _

theorem runService_framed {i : SdkInput} {callback : Callback} {path : Option (List UInt8)}
    (h : S callback path) (resource : String) :
    Framed table before S (runService i resource callback path) := by
  refine Framed.bind ?_ fun _ => Framed.require _ _
  refine Triple.read_bind fun _ hm => ?_
  rintro m rfl
  have hstate := runExclusive_state (fun s => s) resource
    (fun events => ((i.answer 0).1, (i.answer 0).2,
      events ++ [SdkEvent.service i.call callback path])) m.locks m.events
  generalize runExclusive (fun s => s) resource
    (fun events => ((i.answer 0).1, (i.answer 0).2,
      events ++ [SdkEvent.service i.call callback path])) m.locks m.events = done at hstate ⊢
  obtain ⟨status, result, locks, events⟩ := done
  simp only at hstate
  have hframe : Frame table before S { m with locks := locks, events := events } := by
    rcases hstate with rfl | rfl
    · exact hm
    · exact hm.emit (e := .service i.call callback path) h
  exact hframe

/-- A call on a handle reaches its service with the path of the table, and only in the mode
of the table. -/
theorem sdkHandle_framed {i : SdkInput} {argsGiven : Bool} {mode : OpenMode}
    {callback : Callback} {handle : Nat}
    (h : ∀ path : CStr, (table[handle]?).join = some (path, mode) →
      S callback (some path.val)) :
    Framed table before S (sdkHandle i argsGiven mode callback handle) := by
  refine ensureBound_framed.bind fun _ => Triple.read_then fun m hm => ?_
  rw [resolveHandle, hm.1]
  cases hentry : (table[handle]?).join with
  | none => exact Framed.fail _
  | some entry =>
      obtain ⟨path, opened⟩ := entry
      have hdo : opened = mode → Framed table before S
          (doFile i argsGiven (some filesFull) callback path.val) := by
        rintro rfl
        exact (Framed.require _ _).bind fun _ => (needServices_framed _).bind fun _ =>
          (ensureCap_framed _ _).bind fun _ => runService_framed (h path hentry) _
      by_cases hmode : opened = mode
      · exact (Framed.require _ _).bind fun _ => hdo hmode
      · dsimp only
        rw [decide_eq_false hmode]
        exact fun m hm => hm

theorem sdkHandleClose_spec (handle : Nat) :
    Triple (Frame table before S) (sdkHandleClose handle)
      (fun _ => Frame (table.set handle none) before S) fun _ => Frame table before S := by
  refine Triple.bind ensureBound_framed fun _ => Triple.read_then fun m _ =>
    Triple.bind (Framed.require _ _) fun _ => Triple.update fun m hm => ?_
  exact ⟨congrArg (·.set handle none) hm.1, hm.2⟩

/-- The only service that an open reaches is the question to the user. -/
def Asks (callback : Callback) (_path : Option (List UInt8)) : Prop := callback = .pathPrompt

/-- What an open leaves that returns a handle: the slot has the path, cut to the size of its
buffer, and the user was shown the whole path. -/
def Opened (table : List (Option (CStr × OpenMode))) (before : List SdkEvent) (path : CStr)
    (mode : OpenMode) (handle : Nat) (m : SdkState) : Prop :=
  m.ctx.handles = table.set handle (some (path.strncpy sdkPathMax, mode)) ∧
    ∃ new, m.events = before ++ new ∧ prompted new = some (path.val, mode) ∧
      ∀ e ∈ new, e.Serves Asks

theorem SdkEvent.Serves.mono {S S' : Callback → Option (List UInt8) → Prop} {e : SdkEvent}
    (h : e.Serves S) (hS : ∀ callback path, S callback path → S' callback path) : e.Serves S' := by
  cases e with
  | service call callback path => exact hS callback path h
  | prompt cap tier => trivial
  | consent cap tier granted byUser => trivial
  | close => trivial

theorem Frame.mono {S' : Callback → Option (List UInt8) → Prop} {m : SdkState}
    (h : Frame table before S m) (hS : ∀ callback path, S callback path → S' callback path) :
    Frame table before S' m := by
  obtain ⟨htable, new, hnew, hserves⟩ := h
  exact ⟨htable, new, hnew, fun e he => (hserves e he).mono hS⟩

theorem prompted_of_none {events : List SdkEvent}
    (h : ∀ e ∈ events, e.Serves fun _ _ => False) (rest : List SdkEvent) :
    prompted (events ++ rest) = prompted rest := by
  rw [prompted, List.findSome?_append, List.findSome?_eq_none_iff.mpr, Option.none_or]
  · rfl
  · intro e he
    have := h e he
    cases e with
    | service call callback path => exact this.elim
    | prompt cap tier => rfl
    | consent cap tier granted byUser => rfl
    | close => rfl

/-- An open asks the user for exactly the path and the mode that it was given. -/
theorem fileOpenHandle_spec {i : SdkInput} {path : Option CStr} {mode : Option OpenMode}
    (hcall : i.call = .fileOpen path mode) :
    Triple (Frame table before fun _ _ => False) (fileOpenHandle i path mode)
      (fun handle m => ∃ p mo, path = some p ∧ mode = some mo ∧ Opened table before p mo handle m)
      fun _ => Frame table before Asks := by
  have hnone : ∀ m, Frame table before (fun _ _ => False) m → Frame table before Asks m :=
    fun m hm => hm.mono fun _ _ => False.elim
  have hstep : ∀ {α : Type} {p : SdkProg α}, Framed table before (fun _ _ => False) p →
      Triple (Frame table before fun _ _ => False) p
        (fun _ => Frame table before fun _ _ => False) fun _ => Frame table before Asks :=
    fun hp => Triple.conseq hp (fun _ h => h) (fun _ _ h => h) fun _ m hm => hnone m hm
  unfold fileOpenHandle
  refine Triple.bind (hstep ensureBound_framed) fun _ =>
    Triple.bind (hstep (Framed.require _ _)) fun _ =>
    Triple.bind (hstep (Framed.require _ _)) fun _ => ?_
  cases path with
  | none => exact Triple.throw hnone
  | some path =>
  cases mode with
  | none => exact Triple.throw hnone
  | some mode =>
  refine Triple.bind (hstep (needCallback_framed _)) fun _ =>
    Triple.bind (hstep (ensureCap_framed _ _)) fun _ => Triple.read_bind fun m hm => ?_
  cases m.ctx.handles.findIdx? Option.isNone with
  | none => exact Triple.throw fun _ heq => heq ▸ hnone m hm
  | some slot =>
      obtain ⟨htable, asked, hasked, hserves⟩ := hm
      have hshown : ∀ m', Frame table
          (m.events ++ [.service i.call .pathPrompt (some path.val)]) (fun _ _ => False) m' →
          ∃ new, m'.events = before ++ new ∧ prompted new = some (path.val, mode) ∧
            ∀ e ∈ new, e.Serves Asks := by
        rintro m' ⟨-, more, hmore, hserves'⟩
        refine ⟨asked ++ .service i.call .pathPrompt (some path.val) :: more, ?_, ?_, ?_⟩
        · rw [hmore, hasked]
          simp
        · rw [prompted_of_none hserves, hcall]
          rfl
        · intro e he
          rcases List.mem_append.mp he with he | he
          · exact (hserves e he).mono fun _ _ => False.elim
          · rcases List.mem_cons.mp he with rfl | he
            · exact rfl
            · exact (hserves' e he).mono fun _ _ => False.elim
      have hprompt : Triple (· = m) (sdPathPrompt i path)
          (fun _ => Frame table (m.events ++ [.service i.call .pathPrompt (some path.val)])
            fun _ _ => False)
          (fun _ => Frame table before Asks) := by
        have hask : Triple (· = m) (callService i .pathPrompt (some path.val))
            (fun _ => Frame table (m.events ++ [.service i.call .pathPrompt (some path.val)])
              fun _ _ => False)
            (fun _ => Frame table before Asks) := by
          refine Triple.update fun m' hm' => ?_
          subst hm'
          exact ⟨htable, [], (List.append_nil _).symm, by simp⟩
        refine Triple.bind hask fun _ => Triple.bind ?_ fun _ => Triple.pure fun _ h => h
        refine Triple.conseq (sdkConfirm_framed _) (fun _ h => h) (fun _ _ h => h) ?_
        intro _ m' hm'
        obtain ⟨new, hnew, -, hasks⟩ := hshown m' hm'
        exact ⟨hm'.1, new, hnew, hasks⟩
      refine Triple.bind hprompt fun allow => Triple.bind (Q := fun _ => Frame table
        (m.events ++ [.service i.call .pathPrompt (some path.val)]) fun _ _ => False)
        (Triple.check (fun _ h _ => h) ?_) fun _ => Triple.bind
        (Q := fun _ => Opened table before path mode slot) (Triple.update ?_) fun _ =>
        Triple.pure fun _ h => ⟨path, mode, rfl, rfl, h⟩
      · intro m' hm' _
        obtain ⟨new, hnew, -, hasks⟩ := hshown m' hm'
        exact ⟨hm'.1, new, hnew, hasks⟩
      · intro m' hm'
        exact ⟨congrArg (·.set slot (some (path.strncpy sdkPathMax, mode))) hm'.1, hshown m' hm'⟩

end Frames

/-- The table holds what was approved, cut to the size of its buffers. -/
def Desk.Honest (d : Desk) : Prop :=
  d.sdk.ctx.handles.map (Option.map fun e => (e.1.val, e.2)) =
    d.approved.map (Option.map fun a => (a.1.take (sdkPathMax - 1), a.2))

theorem Desk.clear_honest {sdk : SdkState} (h : ∀ e ∈ sdk.ctx.handles, e = none) :
    (Desk.clear sdk).Honest := by
  simp only [Desk.Honest, Desk.clear, List.map_map]
  refine List.map_congr_left fun e he => ?_
  rw [h e he]
  rfl

/-- The entry of the table and the approval of a handle go together. -/
theorem Desk.Honest.entry {d : Desk} (h : d.Honest) (handle : Nat) :
    (d.sdk.ctx.handles[handle]?).join.map (fun e => (e.1.val, e.2)) =
      (d.approved[handle]?).join.map fun a => (a.1.take (sdkPathMax - 1), a.2) := by
  have hget := congrArg (·[handle]?) h
  simp only [List.getElem?_map] at hget
  rw [← Option.join_map_eq_map_join, hget, Option.join_map_eq_map_join]

theorem Desk.Honest.set {d : Desk} (h : d.Honest) {sdk : SdkState} {handle : Nat}
    {entry : Option (CStr × OpenMode)} {approval : Option Approval}
    (htable : sdk.ctx.handles = d.sdk.ctx.handles.set handle entry)
    (hentry : entry.map (fun e => (e.1.val, e.2)) =
      approval.map fun a => (a.1.take (sdkPathMax - 1), a.2)) :
    (⟨sdk, d.approved.set handle approval⟩ : Desk).Honest := by
  rw [Desk.Honest] at h ⊢
  simp only [htable, List.map_set, hentry, h]

/-- The calls on handles: an open, a close, or the use of a handle. -/
theorem HandleInput.kinds (i : HandleInput) :
    (∃ path mode, i.val.call = .fileOpen path mode) ∨ (∃ handle, i.val.call = .handleClose handle) ∨
      ∃ handle mode service argsGiven, i.val.call.use = some (handle, mode, service) ∧
        ∀ d, deskStep d i =
          (⟨(exec (sdkHandle i.val argsGiven mode service handle) d.sdk).2, d.approved⟩,
            (exec (sdkHandle i.val argsGiven mode service handle) d.sdk).2.events.drop
              d.sdk.events.length) := by
  obtain ⟨⟨call, given, givenBehind, capKeys, scopeKeys, originSaved, arrived, loaded, answers⟩,
    hi⟩ := i
  cases call with
  | fileOpen path mode => exact Or.inl ⟨path, mode, rfl⟩
  | handleClose handle => exact Or.inr (Or.inl ⟨handle, rfl⟩)
  | handleRead handle => exact Or.inr (Or.inr ⟨handle, _, _, _, rfl, fun _ => rfl⟩)
  | handleWrite handle text => exact Or.inr (Or.inr ⟨handle, _, _, _, rfl, fun _ => rfl⟩)
  | handleList handle => exact Or.inr (Or.inr ⟨handle, _, _, _, rfl, fun _ => rfl⟩)
  | _ => cases hi

/-- What a call may reach when the table holds cut paths. -/
def MayServeCut (approved : List (Option Approval)) (call : SdkCall) (callback : Callback)
    (path : Option (List UInt8)) : Prop :=
  match call.use with
  | some (handle, mode, service) =>
      callback = service ∧ ∃ p, path = some (p.take (sdkPathMax - 1)) ∧
        approved[handle]? = some (some (p, mode))
  | none => callback = .pathPrompt

theorem Frame.happened {table : List (Option (CStr × OpenMode))} {before : List SdkEvent}
    {S : Callback → Option (List UInt8) → Prop} {m : SdkState} (h : Frame table before S m) :
    ∀ e ∈ m.events.drop before.length, e.Serves S := by
  obtain ⟨-, new, hnew, hserves⟩ := h
  rwa [hnew, List.drop_left]

/-- A step keeps the desk honest, and it reaches the services with the paths of the table. -/
theorem deskStep_honest {d : Desk} (h : d.Honest) (i : HandleInput) :
    (deskStep d i).1.Honest ∧
      ∀ e ∈ (deskStep d i).2, e.Serves (MayServeCut d.approved i.val.call) := by
  have hrefl : ∀ S, Frame d.sdk.ctx.handles d.sdk.events S d.sdk := fun _ => Frame.refl rfl
  have hsame : ∀ {S} {m : SdkState}, Frame d.sdk.ctx.handles d.sdk.events S m →
      (⟨m, d.approved⟩ : Desk).Honest := fun hm => by rw [Desk.Honest, hm.1]; exact h
  rcases i.kinds with
    ⟨path, mode, hcall⟩ | ⟨handle, hcall⟩ | ⟨handle, mode, service, args, huse, hstep⟩
  · have hmay : MayServeCut d.approved i.val.call = Asks := by rw [hcall]; rfl
    have hopen := fileOpenHandle_spec hcall d.sdk (hrefl _)
    simp only [deskStep, hcall] at hopen ⊢
    rw [← hcall, hmay]
    cases hexec : exec (fileOpenHandle i.val path mode) d.sdk with
    | mk result sdk =>
        rw [hexec] at hopen
        cases result with
        | error e => exact ⟨hsame hopen, hopen.happened⟩
        | ok slot =>
            obtain ⟨p, mo, -, -, htable, new, hnew, hprompted, hserves⟩ := hopen
            simp only [hnew, List.drop_left]
            refine ⟨h.set htable ?_, hserves⟩
            rw [hprompted]
            rfl
  · have hmay : MayServeCut d.approved i.val.call = Asks := by rw [hcall]; rfl
    have hclose := sdkHandleClose_spec handle d.sdk (hrefl Asks)
    simp only [deskStep, hcall] at hclose ⊢
    rw [← hcall, hmay]
    cases hexec : exec (sdkHandleClose handle) d.sdk with
    | mk result sdk =>
        rw [hexec] at hclose
        cases result with
        | error e => exact ⟨hsame hclose, hclose.happened⟩
        | ok _ => exact ⟨h.set hclose.1 rfl, Frame.happened hclose⟩
  · have hframed : Framed d.sdk.ctx.handles d.sdk.events (MayServeCut d.approved i.val.call)
        (sdkHandle i.val args mode service handle) := by
      refine sdkHandle_framed fun path hpath => ?_
      have hentry := h.entry handle
      rw [hpath] at hentry
      obtain ⟨⟨p, mo⟩, hjoin, heq⟩ := Option.map_eq_some_iff.mp hentry.symm
      obtain ⟨hpathval, rfl⟩ := Prod.mk.inj heq
      simp only [MayServeCut, huse]
      exact ⟨trivial, p, congrArg some hpathval.symm, Option.join_eq_some_iff.mp hjoin⟩
    have hfinal := hframed.final (hrefl _)
    rw [hstep]
    exact ⟨hsame hfinal, hfinal.happened⟩

/-- A step of an honest desk acts as approved if and only if the approved path fits or the
step reaches no service. -/
theorem actsAsApproved_iff {d : Desk} (h : d.Honest) (i : HandleInput) :
    ActsAsApproved d i ↔
      ApprovedPathFits d i ∨ ∀ e ∈ (deskStep d i).2, e.Serves fun _ _ => False := by
  have hcut := (deskStep_honest h i).2
  constructor
  · intro hacts
    refine or_iff_not_imp_left.mpr fun hlong e he => ?_
    obtain ⟨use, huse, approval, happroval, hlen⟩ :
        ∃ use ∈ i.val.call.use, ∃ approval ∈ (d.approved[use.1]?).join,
          sdkPathMax ≤ approval.1.length := by simpa [ApprovedPathFits] using hlong
    have hserved := hcut e he
    have hexact := hacts e he
    cases e with
    | service call callback path =>
        simp only [SdkEvent.Serves, MayServeCut, MayServe, Option.mem_def.mp huse]
          at hserved hexact
        obtain ⟨-, p, hp, hget⟩ := hserved
        obtain ⟨-, q, hq, hget'⟩ := hexact
        have hpq : p = q := by
          rw [hget] at hget'
          exact (Prod.mk.inj (Option.some.inj (Option.some.inj hget'))).1
        have happr : (p, use.2.1) = approval := by
          rw [hget] at happroval
          exact Option.some.inj happroval
        have hlength := congrArg (Option.map List.length) (hp.symm.trans hq)
        rw [← happr] at hlen
        simp only [Option.map_some, Option.some.injEq, ← hpq, List.length_take] at hlength
        have hpos : 0 < sdkPathMax := by decide
        have hlen : sdkPathMax ≤ p.length := hlen
        omega
    | prompt cap tier => trivial
    | consent cap tier granted byUser => trivial
    | close => trivial
  · rintro (hfits | hnone) e he
    · refine (hcut e he).mono fun callback path hmay => ?_
      cases huse : i.val.call.use with
      | none =>
          simp only [MayServeCut, MayServe, huse] at hmay ⊢
          exact hmay
      | some use =>
          simp only [MayServeCut, MayServe, huse] at hmay ⊢
          obtain ⟨hservice, p, hp, hget⟩ := hmay
          have hlen := hfits use huse (p, use.2.1) (by rw [hget]; rfl)
          exact ⟨hservice, p, by rw [hp, List.take_of_length_le (Nat.le_sub_one_of_lt hlen)], hget⟩
    · exact (hnone e he).mono fun _ _ => False.elim

/-- From an empty handle table on, every operation through a handle has exactly the path and
the mode that the user approved when the handle was opened, and a handle that is closed or
was never opened reaches no service, as long as the approved paths of the handles that are
used fit the table. -/
theorem handles_as_approved {sdk : SdkState} (hfree : ∀ e ∈ sdk.ctx.handles, e = none)
    {inputs : List HandleInput} (hfits : Along deskStep ApprovedPathFits (Desk.clear sdk) inputs) :
    Along deskStep ActsAsApproved (Desk.clear sdk) inputs :=
  Along.of_invariant (I := Desk.Honest)
    (fun _ i hd hfit => ⟨(deskStep_honest hd i).1, (actsAsApproved_iff hd i).mpr (Or.inl hfit)⟩)
    hfits (Desk.clear_honest hfree)

/-- An app with the capability for the whole card. -/
def cardApp : SdkState where
  ctx :=
    { contextInit with
      bound := true
      granted := [.manifest 0]
      hasLocks := true
      services := [.pathPrompt, .readFile, .writeFile, .listFiles] }
  capStrs := [filesFull]
  bgRunActive := false
  files := fun _ => none
  locks := []
  events := []

/-- The path of a file in the root of the card whose name has `n` characters. -/
def cardPath (n : Nat) : CStr := CStr.ofBytes (ascii "/sd/" ++ List.replicate n 97)

/-- The app opens a file, and the user allows it. -/
def allowed (path : CStr) (mode : OpenMode) : HandleInput :=
  ⟨{ call := .fileOpen (some path) (some mode), scopeKeys := [.right, .ok] }, rfl⟩

/-- The app reads through a handle. -/
def readThrough (handle : Nat) : HandleInput := ⟨{ call := .handleRead handle }, rfl⟩

theorem handles_as_approved_open :
    Along deskStep ActsAsApproved (Desk.clear cardApp)
      [allowed (cardPath 3) .read, readThrough 0, ⟨{ call := .handleClose 0 }, rfl⟩,
        readThrough 0] :=
  handles_as_approved (by decide) (by decide)

/-- A name of 156 characters makes a path of 160, one more than the table holds: the file
that is read is not the one that the user was shown. -/
theorem not_handles_as_approved :
    ¬ ∀ sdk : SdkState, (∀ e ∈ sdk.ctx.handles, e = none) → ∀ inputs : List HandleInput,
      Along deskStep ActsAsApproved (Desk.clear sdk) inputs := by
  intro h
  obtain ⟨-, hread, -⟩ := h cardApp (by decide) [allowed (cardPath 156) .read, readThrough 0]
  have hserved := hread
    (.service (.handleRead 0) .readFile (some (ascii "/sd/" ++ List.replicate 155 97)))
    (by decide +kernel)
  obtain ⟨-, p, hp, happroved⟩ := hserved
  have hshown : (deskStep (Desk.clear cardApp) (allowed (cardPath 156) .read)).1.approved[0]? =
      some (some (ascii "/sd/" ++ List.replicate 156 97, .read)) := by decide
  rw [hshown] at happroved
  have hpath := (Prod.mk.inj (Option.some.inj (Option.some.inj happroved))).1
  rw [← hpath] at hp
  exact absurd (congrArg (Option.map List.length) hp) (by decide +kernel)

end Sdk
end JppDos
