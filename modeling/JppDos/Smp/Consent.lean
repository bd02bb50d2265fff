import JppDos.Smp.System

/-!
# The consent of the user

The receive task raises a dialog and waits for a token; the main loop gives the token when it
has stored the answer.  A key counts in the dialog that is open when it is handled, which may
be later than it arrived.

Main fact:
* `consent_safe`: sessions and backups only with the consent to their own dialog, and one token
  for each dialog, if no dialog is raised while a key is being handled.
-/

namespace JppDos
namespace Smp

open CText Serial Machine

/-- What has become of the dialog of the command that is being handled. -/
inductive Dialog
  | none
  -- whether the last key since then is OK
  | raised (kind : ConsentState) (pressed : Bool)
  -- whether OK was pressed in it with the cursor on Allow
  | answered (kind : ConsentState) (allowed : Bool)
deriving DecidableEq

/-- An action, with the variables before it. -/
def Dialog.next (d : Dialog) (v : Vars) : Act → Dialog
  | .receiveFrame _ => .none
  | .receiveKey action =>
      match d with
      | .raised kind _ => .raised kind (action = .ok)
      | d => d
  | .store (.consentState .idle) => d
  | .store (.consentState kind) => .raised kind false
  | .store (.consentAllowed allowed) =>
      match d with
      | .raised kind true => .answered kind (allowed && v.consentCursor = 1)
      | _ => .none
  | _ => d

/-- The kind of a dialog. -/
def Dialog.kind : Dialog → Option ConsentState
  | .none => Option.none
  | .raised kind _ | .answered kind _ => some kind

/-- What a log has come to: the dialog, and how many dialogs were raised, tokens given and tokens
taken. -/
structure Monitor where
  dialog : Dialog
  raises : Nat
  gives : Nat
  takes : Nat
deriving DecidableEq

/-- The log goes on. -/
def monitorStep (s : Monitor) (e : Act × Vars) : Monitor × List Empty :=
  ({ dialog := s.dialog.next e.2 e.1
     raises := s.raises + if e.1.area = .raise then 1 else 0
     gives := s.gives + if e.1 = .giveSem then 1 else 0
     takes := s.takes + if e.1 = .takeSem then 1 else 0 }, [])

/-- A session is opened and a backup applied with the consent to the dialog of that command.
When a dialog is raised, all earlier ones have taken their tokens and no token is left; a token
is given for the dialog, and then taken for it. -/
def admits (s : Monitor) (e : Act × Vars) : Bool :=
  match e.1 with
  | .store (.sessionActive true) => s.dialog = .answered .pending true
  | .applyBackup _ => s.dialog = .answered .backupPending true
  | .store (.consentState .pending) | .store (.consentState .backupPending) =>
      s.raises = s.takes ∧ s.gives = s.takes
  | .giveSem => s.raises = s.takes + 1 ∧ s.gives = s.takes
  | .takeSem => s.raises = s.takes + 1 ∧ s.gives = s.takes + 1
  | _ => true

/-- An empty log. -/
def Monitor.boot : Monitor := ⟨.none, 0, 0, 0⟩

/-- Every action is admitted by what comes before it. -/
structure ConsentSafe (log : List (Act × Vars)) : Prop where
  along : Along monitorStep (fun s e => admits s e = true) Monitor.boot log

instance (log : List (Act × Vars)) : Decidable (ConsentSafe log) :=
  decidable_of_iff _ ⟨ConsentSafe.mk, ConsentSafe.along⟩

/-- What the log of a state has come to. -/
def State.monitor (m : State) : Monitor := run monitorStep Monitor.boot m.log

theorem monitor_after (io : Io) (m : State) (a : Act) :
    (a.after io m).monitor = (monitorStep m.monitor (a, m.vars)).1 := by
  rw [State.monitor, Act.log_after, run_append]
  rfl

theorem ConsentSafe.snoc {io : Io} {m : State} {a : Act} (h : ConsentSafe m.log)
    (ha : admits m.monitor (a, m.vars) = true) : ConsentSafe (a.after io m).log := by
  rw [Act.log_after]
  exact ⟨along_append .. |>.mpr ⟨h.along, ha, trivial⟩⟩

/-- The areas of the actions that have nothing to do with dialogs, their cursor apart, nor with
what needs consent. -/
def Area.calm : Area → Bool
  | .frame | .key | .opening | .raise | .await | .answer | .backup => false
  | _ => true

/-- Nothing about the dialogs has changed. -/
structure SameConsent (m m' : State) : Prop where
  monitor : m'.monitor = m.monitor
  sem : m'.consentSem = m.consentSem
  state : m'.vars.consentState = m.vars.consentState
  allowed : m'.vars.consentAllowed = m.vars.consentAllowed

/-- The areas of the actions that the log says nothing new with. -/
def Area.silent : Area → Bool
  | .frame | .key | .raise | .await | .answer => false
  | _ => true

theorem sameConsent_after {a : Act} (ha : a.area.silent = true) (io : Io) (m : State) :
    SameConsent m (a.after io m) := by
  have hmonitor : (monitorStep m.monitor (a, m.vars)).1 = m.monitor := by
    cases a with
    | store s =>
        cases s with
        | sessionActive value => cases value <;> rfl
        | activeSdkContext value => cases value <;> rfl
        | consentState value => cases value <;> simp [Act.area, Area.silent] at ha
        | consentAllowed value => simp [Act.area, Area.silent] at ha
        | _ => rfl
    | fopen path write => cases write <;> rfl
    | _ => first | rfl | simp [Act.area, Area.silent] at ha
  rw [← monitor_after io] at hmonitor
  cases a with
  | store s =>
      cases s with
      | consentState value => cases value <;> simp [Act.area, Area.silent] at ha
      | consentAllowed value => simp [Act.area, Area.silent] at ha
      | _ => exact ⟨hmonitor, rfl, rfl, rfl⟩
  | fopen path write =>
      refine ⟨hmonitor, ?_, by rw [Act.vars_after], by rw [Act.vars_after]⟩
      simp only [Act.after, Act.effect]
      split <;> rfl
  | takeSem => simp [Act.area, Area.silent] at ha
  | giveSem => simp [Act.area, Area.silent] at ha
  | _ => exact ⟨hmonitor, rfl, rfl, rfl⟩

theorem admits_of_calm {a : Act} (ha : a.area.calm = true) (s : Monitor) (v : Vars) :
    admits s (a, v) = true := by
  cases a with
  | store t =>
      cases t with
      | sessionActive value =>
          cases value with
          | true => simp [Act.area, Area.calm] at ha
          | false => rfl
      | consentState value => cases value <;> simp [Act.area, Area.calm] at ha
      | _ => rfl
  | _ => first | rfl | simp [Act.area, Area.calm] at ha

theorem cursor_after {a : Act} (ha : a.area ≠ .cursor) (io : Io) (m : State) :
    (a.after io m).vars.consentCursor = m.vars.consentCursor := by
  rw [Act.vars_after]
  cases a with
  | store s =>
      cases s with
      | consentCursor value => exact absurd rfl ha
      | _ => rfl
  | _ => rfl

/-- Where a dialog stands between the two tasks. -/
inductive Stage
  | rest
  | raised (kind : ConsentState) (pressed : Bool)
  -- the answer is stored, the dialog lowered, the token given, and taken
  | answered (kind : ConsentState) (allowed : Bool)
  | lowered (kind : ConsentState) (allowed : Bool)
  | given (kind : ConsentState) (allowed : Bool)
  | taken (kind : ConsentState) (allowed : Bool)

namespace Stage

/-- The value of `s_consent_state`. -/
def state : Stage → ConsentState
  | raised kind _ | answered kind _ => kind
  | _ => .idle

/-- The dialog that has not yet taken its token. -/
def pending : Stage → Option ConsentState
  | raised kind _ | answered kind _ | lowered kind _ | given kind _ => some kind
  | _ => none

/-- The token is there. -/
def token : Stage → Bool
  | given .. => true
  | _ => false

/-- The main loop is about to answer. -/
def answering : Stage → Bool
  | raised .. | answered .. | lowered .. => true
  | _ => false

/-- What the log says. -/
def dialog : Stage → Option Dialog
  | rest => none
  | raised kind pressed => some (.raised kind pressed)
  | answered kind allowed | lowered kind allowed | given kind allowed | taken kind allowed =>
      some (.answered kind allowed)

/-- The value of `s_consent_allowed`, once it is the answer. -/
def answer : Stage → Option Bool
  | rest | raised .. => none
  | answered _ allowed | lowered _ allowed | given _ allowed | taken _ allowed => some allowed

end Stage

/-- A state in which the dialog is at a stage. -/
structure At (stage : Stage) (m : State) : Prop where
  state : m.vars.consentState = stage.state
  sem : m.consentSem = stage.token
  raises : m.monitor.raises = m.monitor.takes + if stage.pending.isSome then 1 else 0
  gives : m.monitor.gives = m.monitor.takes + if stage.token then 1 else 0
  dialog : ∀ d ∈ stage.dialog, m.monitor.dialog = d
  answer : ∀ allowed ∈ stage.answer, m.vars.consentAllowed = allowed
  kind : ∀ kind ∈ stage.pending, kind ≠ .idle

section Stages

variable {m m' : State} {kind : ConsentState} {pressed allowed : Bool}

theorem At.same {stage : Stage} (h : At stage m) (hsame : SameConsent m m') : At stage m' where
  state := hsame.state.trans h.state
  sem := hsame.sem.trans h.sem
  raises := by rw [hsame.monitor, h.raises]
  gives := by rw [hsame.monitor, h.gives]
  dialog := by rw [hsame.monitor]; exact h.dialog
  answer := by rw [hsame.allowed]; exact h.answer
  kind := h.kind

theorem At.rest (h : At (.taken kind allowed) m) : At .rest m :=
  ⟨h.state, h.sem, h.raises, h.gives, nofun, nofun, nofun⟩

/-- At any time either no dialog is pending, or one of a kind that the log says. -/
theorem At.pending_eq {stage stage' : Stage} (h : At stage m) (h' : At stage' m) :
    stage.pending = stage'.pending := by
  have hraises := h.raises.symm.trans h'.raises
  have hsome : stage.pending.isSome = stage'.pending.isSome := by
    cases hs : stage.pending.isSome <;> cases hs' : stage'.pending.isSome <;>
      simp [hs, hs'] at hraises ⊢
  have hkind : ∀ {stage : Stage} {kind}, At stage m → stage.pending = some kind →
      m.monitor.dialog.kind = some kind := by
    intro stage kind h hp
    cases stage with
    | rest | taken => cases hp
    | raised k p | answered k p | lowered k p | given k p =>
        rw [h.dialog _ rfl]
        exact hp
  cases hp : stage.pending with
  | none =>
      rw [hp] at hsome
      exact (Option.isNone_iff_eq_none.mp (by simpa using hsome.symm)).symm
  | some k =>
      rw [hp] at hsome
      obtain ⟨k', hp'⟩ := Option.isSome_iff_exists.mp hsome.symm
      rw [hp', ← hkind h hp, hkind h' hp']

theorem At.token_eq {stage stage' : Stage} (h : At stage m) (h' : At stage' m) :
    stage.token = stage'.token := h.sem.symm.trans h'.sem

/-- A frame: the log forgets the dialog of the last one. -/
theorem At.frame (h : At .rest m) (io : Io) (payload : List UInt8) :
    At .rest (Act.after io m (.receiveFrame payload)) := by
  have hmonitor := monitor_after io m (.receiveFrame payload)
  refine ⟨h.state, h.sem, ?_, ?_, nofun, nofun, nofun⟩
  · rw [hmonitor]
    exact h.raises
  · rw [hmonitor]
    exact h.gives

/-- The stage behind a key. -/
def Stage.press (action : Action) : Stage → Stage
  | .raised kind _ => .raised kind (action = .ok)
  | stage => stage

theorem At.press {stage : Stage} (h : At stage m) (io : Io) (action : Action) :
    At (stage.press action) (Act.after io m (.receiveKey action)) := by
  have hmonitor := monitor_after io m (.receiveKey action)
  have hdialog : ∀ d ∈ (stage.press action).dialog,
      m.monitor.dialog.next m.vars (.receiveKey action) = d := by
    cases stage with
    | rest => nofun
    | raised k p | answered k b | lowered k b | given k b | taken k b =>
        rintro d hd
        obtain rfl := Option.some.inj hd
        rw [h.dialog _ rfl]
        rfl
  have hsame : (stage.press action).pending = stage.pending ∧
      (stage.press action).token = stage.token ∧ (stage.press action).state = stage.state ∧
      (stage.press action).answer = stage.answer := by
    cases stage <;> exact ⟨rfl, rfl, rfl, rfl⟩
  obtain ⟨hpending, htoken, hstate, hanswer⟩ := hsame
  refine ⟨hstate ▸ h.state, htoken ▸ h.sem, ?_, ?_, ?_, ?_, ?_⟩
  · rw [hmonitor, hpending]
    exact h.raises
  · rw [hmonitor, htoken]
    exact h.gives
  · rw [hmonitor]
    exact hdialog
  · rw [hanswer]
    exact h.answer
  · rw [hpending]
    exact h.kind

theorem At.raise (h : At .rest m) (hkind : kind ≠ .idle) (io : Io) :
    At (.raised kind false) (Act.after io m (.store (.consentState kind))) ∧
      admits m.monitor (.store (.consentState kind), m.vars) = true := by
  have hmonitor := monitor_after io m (.store (.consentState kind))
  cases kind with
  | idle => exact absurd rfl hkind
  | pending | backupPending =>
      refine ⟨⟨rfl, h.sem, ?_, ?_, ?_, nofun, ?_⟩, decide_eq_true ⟨h.raises, h.gives⟩⟩
      · rw [hmonitor]
        exact congrArg (· + 1) h.raises
      · rw [hmonitor]
        exact h.gives
      · rintro d hd
        obtain rfl := Option.some.inj hd
        rw [hmonitor]
        rfl
      · rintro k hk
        obtain rfl := Option.some.inj hk
        exact hkind

theorem At.answered (h : At (.raised kind true) m)
    (hallowed : allowed = decide (m.vars.consentCursor = 1)) (io : Io) :
    At (.answered kind allowed) (Act.after io m (.store (.consentAllowed allowed))) := by
  have hmonitor := monitor_after io m (.store (.consentAllowed allowed))
  refine ⟨h.state, h.sem, ?_, ?_, ?_, ?_, h.kind⟩
  · rw [hmonitor]
    exact h.raises
  · rw [hmonitor]
    exact h.gives
  · rintro d hd
    obtain rfl := Option.some.inj hd
    rw [hmonitor]
    simp only [monitorStep, h.dialog _ rfl, Dialog.next, ← hallowed, Bool.and_self]
  · rintro b hb
    obtain rfl := Option.some.inj hb
    rfl

theorem At.lowered (h : At (.answered kind allowed) m) (io : Io) :
    At (.lowered kind allowed) (Act.after io m (.store (.consentState .idle))) := by
  have hmonitor := monitor_after io m (.store (.consentState .idle))
  refine ⟨rfl, h.sem, ?_, ?_, ?_, h.answer, h.kind⟩
  · rw [hmonitor]
    exact h.raises
  · rw [hmonitor]
    exact h.gives
  · rw [hmonitor]
    exact h.dialog

theorem At.given (h : At (.lowered kind allowed) m) (io : Io) :
    At (.given kind allowed) (Act.after io m .giveSem) ∧
      admits m.monitor (.giveSem, m.vars) = true := by
  have hmonitor := monitor_after io m .giveSem
  refine ⟨⟨h.state, rfl, ?_, ?_, ?_, h.answer, h.kind⟩, decide_eq_true ⟨h.raises, h.gives⟩⟩
  · rw [hmonitor]
    exact h.raises
  · rw [hmonitor]
    exact congrArg (· + 1) h.gives
  · rw [hmonitor]
    exact h.dialog

theorem At.taken (h : At (.given kind allowed) m) (io : Io) :
    At (.taken kind allowed) (Act.after io m .takeSem) ∧
      admits m.monitor (.takeSem, m.vars) = true := by
  have hmonitor := monitor_after io m .takeSem
  refine ⟨⟨h.state, rfl, ?_, ?_, ?_, h.answer, nofun⟩, decide_eq_true ⟨h.raises, h.gives⟩⟩
  · rw [hmonitor]
    exact h.raises
  · rw [hmonitor]
    exact h.gives
  · rw [hmonitor]
    exact h.dialog

end Stages

/-- A dialog of this kind waits for its token. -/
def Pending (kind : ConsentState) (m : State) : Prop :=
  ∃ stage : Stage, stage.pending = some kind ∧ At stage m

/-- There is nothing to answer. -/
def Idle (m : State) : Prop := At .rest m ∨ ∃ kind allowed, At (.given kind allowed) m

/-- The log stays as it should be. -/
def KeepsSafe (m m' : State) : Prop := ConsentSafe m.log → ConsentSafe m'.log

/-- What the receive task relies on: no other task raises a dialog or takes a token. -/
structure RxRelies (m m' : State) : Prop where
  rest : At .rest m → At .rest m'
  taken : ∀ kind allowed, At (.taken kind allowed) m → At (.taken kind allowed) m'
  pending : ∀ kind, Pending kind m → Pending kind m'

/-- What the main loop relies on: no other task answers, and while a dialog waits for the answer
it stays as it is. -/
structure MainRelies (m m' : State) : Prop where
  idle : Idle m → Idle m'
  answering : ∀ stage : Stage, stage.answering = true → At stage m →
    At stage m' ∧ m'.vars.consentCursor = m.vars.consentCursor

/-- What the receive task guarantees. -/
def RxKeeps (m m' : State) : Prop :=
  KeepsSafe m m' ∧ (MainRelies m m' ∨ At .rest m ∧ ∃ kind, At (.raised kind false) m')

/-- What the main loop guarantees. -/
def MainKeeps (m m' : State) : Prop := KeepsSafe m m' ∧ RxRelies m m'

section Relies

variable {m m' m'' : State}

theorem SameConsent.rxRelies (h : SameConsent m m') : RxRelies m m' :=
  ⟨fun hm => hm.same h, fun _ _ hm => hm.same h, fun _ ⟨stage, hp, hm⟩ => ⟨stage, hp, hm.same h⟩⟩

theorem SameConsent.mainRelies (h : SameConsent m m')
    (hcursor : m'.vars.consentCursor = m.vars.consentCursor) : MainRelies m m' :=
  ⟨Or.imp (·.same h) fun ⟨kind, allowed, hm⟩ => ⟨kind, allowed, hm.same h⟩,
    fun _ _ hm => ⟨hm.same h, hcursor⟩⟩

theorem RxRelies.refl (m : State) : RxRelies m m := ⟨id, fun _ _ => id, fun _ => id⟩

theorem MainRelies.refl (m : State) : MainRelies m m := ⟨id, fun _ _ hm => ⟨hm, rfl⟩⟩

theorem RxRelies.trans (h : RxRelies m m') (h' : RxRelies m' m'') : RxRelies m m'' :=
  ⟨h'.rest ∘ h.rest, fun k b => h'.taken k b ∘ h.taken k b, fun k => h'.pending k ∘ h.pending k⟩

theorem MainRelies.trans (h : MainRelies m m') (h' : MainRelies m' m'') : MainRelies m m'' := by
  refine ⟨h'.idle ∘ h.idle, fun stage hs hm => ?_⟩
  obtain ⟨hm', hcursor⟩ := h.answering stage hs hm
  obtain ⟨hm'', hcursor'⟩ := h'.answering stage hs hm'
  exact ⟨hm'', hcursor'.trans hcursor⟩

/-- While a dialog is pending, the main loop may take it further. -/
theorem rxRelies_of_pending {stage stage' : Stage} {kind : ConsentState} (h : At stage m)
    (hp : stage.pending = some kind) (h' : At stage' m') (hp' : stage'.pending = some kind) :
    RxRelies m m' := by
  refine ⟨fun hm => ?_, fun k b hm => ?_, fun k hk => ?_⟩
  · exact nomatch hp.symm.trans (h.pending_eq hm)
  · exact nomatch hp.symm.trans (h.pending_eq hm)
  · obtain ⟨stage₀, hp₀, hm⟩ := hk
    have hkind := (hp.symm.trans (h.pending_eq hm)).trans hp₀
    exact ⟨stage', hp'.trans hkind, h'⟩

/-- While there is nothing to answer, the receive task may do what keeps it so. -/
theorem mainRelies_of_idle (h : Idle m) (h' : Idle m') : MainRelies m m' := by
  refine ⟨fun _ => h', fun stage hs hm => ?_⟩
  rcases h with hrest | ⟨kind, allowed, hgiven⟩
  · have hp := hm.pending_eq hrest
    cases stage with
    | rest | given | taken => cases hs
    | raised | answered | lowered => cases hp
  · have ht := hm.token_eq hgiven
    cases stage with
    | rest | given | taken => cases hs
    | raised | answered | lowered => cases ht

end Relies

abbrev RunsRx {α : Type} (Q : α → State → Prop) (t : Code α) (m : State) : Prop :=
  Task.Runs Act.exec RxRelies RxKeeps Q t m

/-- A program that has nothing to do with dialogs. -/
abbrev Calm {α : Type} (t : Code α) : Prop := Uses (fun area => area.calm = true) t

/-- What the consent to a dialog is for. -/
def ConsentState.grants : ConsentState → Area
  | .idle => .look
  | .pending => .opening
  | .backupPending => .backup

/-- An action that is calm, or that the consent is for. -/
abbrev Granted (kind : ConsentState) (area : Area) : Prop :=
  area.calm = true ∨ area = kind.grants

section Rx

variable {α : Type} {m : State} {kind : ConsentState}

theorem Area.silent_of_calm {area : Area} (h : area.calm = true) : area.silent = true := by
  cases area <;> first | rfl | cases h

theorem rxKeeps_exec {a : Act} {io : Io} (ha : a.area.silent = true)
    (hadmits : admits m.monitor (a, m.vars) = true) (hm : At .rest m) :
    RxKeeps m (a.after io m) := by
  have hrest : At .rest (a.after io m) := hm.same (sameConsent_after ha io m)
  exact ⟨fun hsafe => hsafe.snoc hadmits, Or.inl (mainRelies_of_idle (Or.inl hm) (Or.inl hrest))⟩

theorem runs_calm {t : Code α} (ht : Calm t) (hm : At .rest m) :
    RunsRx (fun _ => At .rest) t m := by
  refine Task.Runs.of_all (fun _ _ hs hR => hR.rest hs) ?_ hm
  refine Task.All.mono (fun a ha s io b s' hs hexec => ?_) ht
  obtain ⟨-, -, -, rfl⟩ := Act.exec_eq_some.mp hexec
  have hsilent := Area.silent_of_calm ha
  exact ⟨rxKeeps_exec hsilent (admits_of_calm ha _ _) hs, hs.same (sameConsent_after hsilent io s)⟩

theorem admits_granted {a : Act} {s : Monitor} (ha : Granted kind a.area)
    (hs : s.dialog = .answered kind true) (v : Vars) : admits s (a, v) = true := by
  rcases ha with hcalm | hgrants
  · exact admits_of_calm hcalm s v
  cases kind with
  | idle => exact admits_of_calm (by rw [hgrants]; rfl) s v
  | pending =>
      cases a with
      | store t =>
          cases t with
          | sessionActive value =>
              cases value with
              | true => exact decide_eq_true hs
              | false => rfl
          | consentState value => cases value <;> cases hgrants
          | _ => rfl
      | takeSem | giveSem | applyBackup => cases hgrants
      | _ => rfl
  | backupPending =>
      cases a with
      | store t =>
          cases t with
          | sessionActive value => cases value <;> cases hgrants
          | consentState value => cases value <;> cases hgrants
          | _ => rfl
      | takeSem | giveSem => cases hgrants
      | applyBackup text => exact decide_eq_true hs
      | _ => rfl

/-- A program behind a dialog that the user has consented to. -/
theorem runs_granted {t : Code α} (ht : Uses (Granted kind) t) (hm : At (.taken kind true) m) :
    RunsRx (fun _ => At .rest) t m := by
  refine Task.Runs.conseq (Q := fun _ s => At (.taken kind true) s) ?_ (fun _ _ h => h)
    (fun _ _ h => h) fun _ _ h => h.rest
  refine Task.Runs.of_all (fun _ _ hs hR => hR.taken kind true hs) ?_ hm
  refine Task.All.mono (fun a ha s io b s' hs hexec => ?_) ht
  obtain ⟨-, -, -, rfl⟩ := Act.exec_eq_some.mp hexec
  have hsilent : a.area.silent = true := by
    rcases ha with hcalm | hgrants
    · exact Area.silent_of_calm hcalm
    · rw [hgrants]
      cases kind <;> rfl
  exact ⟨rxKeeps_exec hsilent (admits_granted ha (hs.dialog _ rfl) _) hs.rest,
    hs.same (sameConsent_after hsilent io s)⟩

/-- A dialog: when the answer is looked at, the token of the dialog has been taken. -/
theorem runs_askUser (hkind : kind ≠ .idle) (cursor : Nat) (hm : At .rest m) :
    RunsRx (fun allowed => At (.taken kind allowed)) (askUser kind cursor) m := by
  refine Task.Runs.act fun m₁ hR₁ io₁ _ m₂ hexec₁ => ?_
  obtain ⟨-, -, -, rfl⟩ := Act.exec_eq_some.mp hexec₁
  have h₁ : At .rest m₁ := hR₁.rest hm
  have h₂ := h₁.same (sameConsent_after (a := .store (.consentCursor cursor)) rfl io₁ m₁)
  refine ⟨rxKeeps_exec rfl rfl h₁, Task.Runs.act fun m₃ hR₂ io₂ _ m₄ hexec₂ => ?_⟩
  obtain ⟨-, -, -, rfl⟩ := Act.exec_eq_some.mp hexec₂
  have h₃ : At .rest m₃ := hR₂.rest h₂
  obtain ⟨h₄, hadmits₂⟩ := h₃.raise hkind io₂
  refine ⟨⟨fun hsafe => hsafe.snoc hadmits₂, Or.inr ⟨h₃, kind, h₄⟩⟩,
    Task.Runs.act fun m₅ hR₃ io₃ _ m₆ hexec₃ => ?_⟩
  obtain ⟨-, htoken, -, rfl⟩ := Act.exec_eq_some.mp hexec₃
  obtain ⟨stage, hpending, h₅⟩ := hR₃.pending kind ⟨_, rfl, h₄⟩
  -- only a given token can be taken
  have hgiven : ∃ allowed, stage = .given kind allowed := by
    have hsem : stage.token = true := h₅.sem.symm.trans htoken
    cases stage with
    | given k allowed =>
        obtain rfl := Option.some.inj hpending
        exact ⟨allowed, rfl⟩
    | rest | raised | answered | lowered | taken => cases hsem
  obtain ⟨allowed, rfl⟩ := hgiven
  obtain ⟨h₆, hadmits₃⟩ := h₅.taken io₃
  refine ⟨⟨fun hsafe => hsafe.snoc hadmits₃,
    Or.inl (mainRelies_of_idle (Or.inr ⟨kind, allowed, h₅⟩) (Or.inl h₆.rest))⟩,
    Task.Runs.act fun m₇ hR₄ io₄ v m₈ hexec₄ => ?_⟩
  obtain ⟨-, -, rfl, rfl⟩ := Act.exec_eq_some.mp hexec₄
  have h₇ := hR₄.taken kind allowed h₆
  have h₈ := h₇.same (sameConsent_after (a := .load) rfl io₄ m₇)
  refine ⟨rxKeeps_exec rfl rfl h₇.rest, Task.runs_done fun m₉ hR₅ => ?_⟩
  have hanswer : m₇.vars.consentAllowed = allowed := h₇.answer allowed rfl
  change At (.taken kind m₇.vars.consentAllowed) m₉
  rw [hanswer]
  exact hR₅.taken kind allowed h₈

/-- An action between two dialogs, and what follows it. -/
theorem runs_calm_act {Q : α → State → Prop} {a : Act} {k : a.Ans → Code α}
    (ha : a.area.calm = true) (hm : At .rest m)
    (hk : ∀ b m', At .rest m' → RunsRx Q (k b) m') : RunsRx Q (.act a k) m := by
  refine Task.Runs.act fun m₁ hR io b m₂ hexec => ?_
  obtain ⟨-, -, -, rfl⟩ := Act.exec_eq_some.mp hexec
  have hsilent := Area.silent_of_calm ha
  have h₁ : At .rest m₁ := hR.rest hm
  exact ⟨rxKeeps_exec hsilent (admits_of_calm ha _ _) h₁,
    hk b _ (h₁.same (sameConsent_after hsilent io m₁))⟩

/-- A dialog, what its consent allows, and what follows a refusal. -/
theorem runs_consent (hkind : kind ≠ .idle) (cursor : Nat) {yes no : Code Unit}
    (hyes : Uses (Granted kind) yes) (hno : Calm no) (hm : At .rest m) :
    RunsRx (fun _ => At .rest) (askUser kind cursor >>= fun allowed => if allowed then yes else no)
      m := by
  refine Task.Runs.bind RxRelies.refl (runs_askUser hkind cursor hm) fun allowed s hs => ?_
  cases allowed with
  | true => exact runs_granted hyes hs
  | false => exact runs_calm hno hs.rest

theorem runs_handleSessionStart (seq : UInt8) (body : List UInt8) (hm : At .rest m) :
    RunsRx (fun _ => At .rest) (handleSessionStart false seq body) m := by
  have herr : ∀ status m, At .rest m → RunsRx (fun _ => At .rest) (sendErr seq status) m :=
    fun status _ hm => runs_calm (uses_sendErr (S := fun area => area.calm = true) rfl seq status)
      hm
  refine runs_calm_act rfl hm fun v m₁ h₁ => ?_
  change RunsRx _ (ite _ _ _) _
  split
  · exact herr _ _ h₁
  refine runs_calm_act rfl h₁ fun v m₂ h₂ => ?_
  change RunsRx _ (ite _ _ (ite _ _ _)) _
  split_ifs
  · exact herr _ _ h₂
  · exact herr _ _ h₂
  · refine runs_consent (show ConsentState.pending ≠ .idle by decide) 1 ?_
      (uses_sendErr (S := fun area => area.calm = true) rfl seq _) h₂
    refine ⟨Or.inr rfl, fun _ => ?_⟩
    change Uses (Granted .pending) (resetSessionTimer >>= fun _ => _)
    exact uses_bind (uses_resetSessionTimer (Or.inl rfl)) fun _ =>
      uses_sendResponse (S := Granted .pending) (Or.inl rfl) ..

theorem runs_handleApplyBackup (seq : UInt8) (body : List UInt8) (hm : At .rest m) :
    RunsRx (fun _ => At .rest) (handleApplyBackup seq body) m := by
  have herr : ∀ status m, At .rest m → RunsRx (fun _ => At .rest) (sendErr seq status) m :=
    fun status _ hm => runs_calm (uses_sendErr (S := fun area => area.calm = true) rfl seq status)
      hm
  rw [handleApplyBackup]
  split
  · exact herr _ _ hm
  refine runs_calm_act rfl hm fun room m₁ h₁ => ?_
  change RunsRx _ (ite _ _ _) _
  split
  · exact herr _ _ h₁
  refine runs_calm_act rfl h₁ fun content m₂ h₂ => ?_
  rcases content with (_ | _) | text
  · exact herr _ _ h₂
  · exact herr _ _ h₂
  refine runs_calm_act rfl h₂ fun valid m₃ h₃ => ?_
  change RunsRx _ (ite _ _ _) _
  split
  · exact herr _ _ h₃
  refine runs_calm_act rfl h₃ fun _ m₄ h₄ => ?_
  refine runs_consent (show ConsentState.backupPending ≠ .idle by decide) 0
    ⟨Or.inr rfl, fun applied => ?_⟩ (uses_sendErr (S := fun area => area.calm = true) rfl seq _) h₄
  cases (show Bool from applied) with
  | false => exact uses_sendErr (S := Granted .backupPending) (Or.inl rfl) ..
  | true => exact ⟨Or.inl rfl, fun _ => ⟨Or.inl rfl, fun _ => trivial⟩⟩

theorem runs_handleCommand_consent (seq cmd : UInt8) (body : List UInt8) (hm : At .rest m) :
    RunsRx (fun _ => At .rest) (handleCommand false seq cmd body) m := by
  by_cases hstart : cmd = SmpCmd.sessionStart
  · subst hstart
    exact runs_handleSessionStart seq body hm
  by_cases hbackup : cmd = SmpCmd.applyBackup
  · subst hbackup
    exact runs_handleApplyBackup seq body hm
  · exact runs_calm (uses_handleCommand (S := fun area => area.calm = true) rfl
      (fun h => absurd h hstart) (fun _ => ⟨rfl, rfl, rfl⟩) (fun _ => rfl) (fun _ => rfl)
      (fun _ => rfl) (fun h => absurd h hbackup) seq body) hm

theorem runs_rxFrame_consent (payload : List UInt8) (hm : At .rest m) :
    RunsRx (fun _ => At .rest) (rxFrame false payload) m := by
  refine Task.Runs.act fun m₁ hR io _ m₂ hexec => ?_
  obtain ⟨-, -, -, rfl⟩ := Act.exec_eq_some.mp hexec
  have h₁ : At .rest m₁ := hR.rest hm
  have h₂ := h₁.frame io payload
  refine ⟨⟨fun hsafe => hsafe.snoc rfl, Or.inl (mainRelies_of_idle (Or.inl h₁) (Or.inl h₂))⟩, ?_⟩
  change RunsRx _ (dispatchCommand false payload) _
  match payload with
  | [] => exact runs_calm (uses_done _) h₂
  | [_] => exact runs_calm (uses_done _) h₂
  | [_, _] => exact runs_calm (uses_done _) h₂
  | seq :: cmd :: _ :: body =>
      refine runs_calm_act rfl h₂ fun v m₃ h₃ => ?_
      change RunsRx _ (ite _ _ _) _
      split
      · exact runs_calm (uses_sendErr (S := fun area => area.calm = true) rfl ..) h₃
      refine runs_calm_act rfl h₃ fun v m₄ h₄ => ?_
      change RunsRx _ (resetTimerIf _ >>= fun _ => _) _
      refine Task.Runs.bind RxRelies.refl
        (runs_calm (uses_resetTimerIf (S := fun area => area.calm = true) rfl _) h₄)
        fun _ m₅ h₅ => ?_
      exact runs_handleCommand_consent seq cmd body h₅

end Rx

/-- There is nothing to answer, or a dialog that nobody has begun to answer. -/
def Resting (m : State) : Prop := Idle m ∨ ∃ kind pressed, At (.raised kind pressed) m

/-- A key is being handled: if it is OK, it was pressed in the dialog that is open. -/
def Handling (action : Action) (m : State) : Prop :=
  Idle m ∨ ∃ kind pressed, At (.raised kind pressed) m ∧ (action = .ok → pressed = true)

abbrev RunsMain {α : Type} (Q : α → State → Prop) (t : Code α) (m : State) : Prop :=
  Task.Runs Act.exec MainRelies MainKeeps Q t m

section Main

variable {α : Type} {m m' : State} {action : Action}

theorem MainRelies.resting (h : MainRelies m m') (hm : Resting m) : Resting m' := by
  rcases hm with hidle | ⟨kind, pressed, hraised⟩
  · exact Or.inl (h.idle hidle)
  · exact Or.inr ⟨kind, pressed, (h.answering _ rfl hraised).1⟩

theorem MainRelies.handling (h : MainRelies m m') (hm : Handling action m) :
    Handling action m' := by
  rcases hm with hidle | ⟨kind, pressed, hraised, hok⟩
  · exact Or.inl (h.idle hidle)
  · exact Or.inr ⟨kind, pressed, (h.answering _ rfl hraised).1, hok⟩

theorem Handling.resting (h : Handling action m) : Resting m :=
  h.imp id fun ⟨kind, pressed, hraised, _⟩ => ⟨kind, pressed, hraised⟩

theorem Handling.same (h : Handling action m) (hsame : SameConsent m m') : Handling action m' := by
  rcases h with hidle | ⟨kind, pressed, hraised, hok⟩
  · exact Or.inl (hidle.imp (·.same hsame) fun ⟨kind, b, hm⟩ => ⟨kind, b, hm.same hsame⟩)
  · exact Or.inr ⟨kind, pressed, hraised.same hsame, hok⟩

theorem mainKeeps_exec {a : Act} (ha : a.area.calm = true) (io : Io) (m : State) :
    MainKeeps m (a.after io m) :=
  ⟨fun hsafe => hsafe.snoc (admits_of_calm ha _ _),
    (sameConsent_after (Area.silent_of_calm ha) io m).rxRelies⟩

/-- An action that does not answer, and what follows it. -/
theorem runs_handling_act {Q : α → State → Prop} {a : Act} {k : a.Ans → Code α}
    (ha : a.area.calm = true) (hm : Handling action m)
    (hk : ∀ b m', Handling action m' → RunsMain Q (k b) m') : RunsMain Q (.act a k) m := by
  refine Task.Runs.act fun m₁ hR io b m₂ hexec => ?_
  obtain ⟨-, -, -, rfl⟩ := Act.exec_eq_some.mp hexec
  refine ⟨mainKeeps_exec ha io m₁, hk b _ ?_⟩
  exact (hR.handling hm).same (sameConsent_after (Area.silent_of_calm ha) io m₁)

theorem runs_handling {t : Code α} (ht : Calm t) (hm : Handling action m) :
    RunsMain (fun _ => Handling action) t m := by
  refine Task.Runs.of_all (fun _ _ hs hR => hR.handling hs) ?_ hm
  refine Task.All.mono (fun a ha s io b s' hs hexec => ?_) ht
  obtain ⟨-, -, -, rfl⟩ := Act.exec_eq_some.mp hexec
  exact ⟨mainKeeps_exec ha io s, hs.same (sameConsent_after (Area.silent_of_calm ha) io s)⟩

theorem runs_unanswered {t : Code Unit} (ht : Calm t) (hm : Handling action m) :
    RunsMain (fun _ => Resting) t m :=
  (runs_handling ht hm).conseq (fun _ _ h => h) (fun _ _ h => h) fun _ _ h => h.resting

theorem runs_answer {kind : ConsentState} (hm : At (.raised kind true) m) :
    RunsMain (fun _ => Resting) (handleDialogKey .ok) m := by
  refine Task.Runs.act fun m₁ hR₁ io₁ v m₂ hexec₁ => ?_
  obtain ⟨-, -, rfl, rfl⟩ := Act.exec_eq_some.mp hexec₁
  have h₁ := (hR₁.answering _ rfl hm).1
  have h₂ := h₁.same (sameConsent_after (a := .load) rfl io₁ m₁)
  refine ⟨mainKeeps_exec rfl io₁ m₁, Task.Runs.act fun m₃ hR₂ io₂ _ m₄ hexec₂ => ?_⟩
  obtain ⟨-, -, -, rfl⟩ := Act.exec_eq_some.mp hexec₂
  obtain ⟨h₃, hcursor⟩ := hR₂.answering _ rfl h₂
  have hallowed : decide (m₁.vars.consentCursor = 1) = decide (m₃.vars.consentCursor = 1) := by
    rw [hcursor, cursor_after (a := .load) (by decide)]
  have h₄ := h₃.answered hallowed io₂
  refine ⟨⟨fun hsafe => hsafe.snoc rfl, rxRelies_of_pending h₃ rfl h₄ rfl⟩,
    Task.Runs.act fun m₅ hR₃ io₃ _ m₆ hexec₃ => ?_⟩
  obtain ⟨-, -, -, rfl⟩ := Act.exec_eq_some.mp hexec₃
  have h₅ := (hR₃.answering _ rfl h₄).1
  have h₆ := h₅.lowered io₃
  refine ⟨⟨fun hsafe => hsafe.snoc rfl, rxRelies_of_pending h₅ rfl h₆ rfl⟩,
    Task.Runs.act fun m₇ hR₄ io₄ _ m₈ hexec₄ => ?_⟩
  obtain ⟨-, -, -, rfl⟩ := Act.exec_eq_some.mp hexec₄
  have h₇ := (hR₄.answering _ rfl h₆).1
  obtain ⟨h₈, hadmits⟩ := h₇.given io₄
  refine ⟨⟨fun hsafe => hsafe.snoc hadmits, rxRelies_of_pending h₇ rfl h₈ rfl⟩,
    Task.runs_done fun m₉ hR₅ => ?_⟩
  exact hR₅.resting (Or.inl (Or.inr ⟨_, _, h₈⟩))

theorem runs_handleDialogKey {kind : ConsentState} {pressed : Bool}
    (hm : At (.raised kind pressed) m) (hok : action = .ok → pressed = true) :
    RunsMain (fun _ => Resting) (handleDialogKey action) m := by
  have hhandling : Handling action m := Or.inr ⟨kind, pressed, hm, hok⟩
  cases action with
  | ok => exact runs_answer (hok rfl ▸ hm)
  | left | right => exact runs_unanswered ⟨rfl, fun _ => trivial⟩ hhandling
  | none | up | down | back => exact runs_unanswered trivial hhandling

theorem runs_handleAction (hm : Handling action m) :
    RunsMain (fun _ => Resting) (handleAction action) m := by
  refine Task.Runs.act fun m₁ hR io v m₂ hexec => ?_
  obtain ⟨-, -, rfl, rfl⟩ := Act.exec_eq_some.mp hexec
  have h₁ : Handling action m₁ := hR.handling hm
  have hsame := sameConsent_after (a := .load) rfl io m₁
  refine ⟨mainKeeps_exec rfl io m₁, ?_⟩
  change RunsMain _ (ite (m₁.vars.consentState ≠ .idle) _ _) _
  split
  · rename_i hopen
    rcases h₁ with (hrest | ⟨kind, allowed, hgiven⟩) | ⟨kind, pressed, hraised, hok⟩
    · exact absurd hrest.state hopen
    · exact absurd hgiven.state hopen
    · exact runs_handleDialogKey (hraised.same hsame) hok
  · refine runs_unanswered ⟨rfl, fun v => ?_⟩ (h₁.same hsame)
    change Calm (ite _ (ite _ _ _) _)
    split_ifs
    · exact ⟨rfl, fun _ => uses_closeSession (S := fun area => area.calm = true) rfl rfl rfl rfl⟩
    · trivial
    · trivial

theorem press_keeps (hm : Resting m) (io : Io) (action : Action) :
    MainKeeps m (Act.after io m (.receiveKey action)) ∧
      Handling action (Act.after io m (.receiveKey action)) := by
  constructor
  · refine ⟨fun hsafe => hsafe.snoc rfl, fun h => h.press io action,
      fun _ _ h => h.press io action, fun kind ⟨stage, hp, h⟩ => ⟨_, ?_, h.press io action⟩⟩
    cases stage <;> exact hp
  · rcases hm with (hrest | ⟨kind, allowed, hgiven⟩) | ⟨kind, pressed, hraised⟩
    · exact Or.inl (Or.inl (hrest.press io action))
    · exact Or.inl (Or.inr ⟨kind, allowed, hgiven.press io action⟩)
    · exact Or.inr ⟨kind, _, hraised.press io action, decide_eq_true⟩

theorem runs_takeKey (action : Action) (hm : Resting m) :
    RunsMain (fun _ => Resting) (takeKey action) m := by
  refine Task.Runs.act fun m₁ hR io _ m₂ hexec => ?_
  obtain ⟨-, -, -, rfl⟩ := Act.exec_eq_some.mp hexec
  obtain ⟨hkeeps, h₂⟩ := press_keeps (hR.resting hm) io action
  refine ⟨hkeeps, runs_handling_act rfl h₂ fun v m₃ h₃ => ?_⟩
  change RunsMain _ (ite _ _ _) _
  split
  · exact runs_unanswered trivial h₃
  refine Task.Runs.bind MainRelies.refl
    (runs_handling (uses_needsRender (S := fun area => area.calm = true) rfl) h₃)
    fun needs m₄ h₄ => ?_
  split
  · exact runs_handleAction h₄
  · exact runs_unanswered trivial h₄

end Main

/-- The program gives no answer. -/
abbrev Unanswering (t : Code Unit) : Prop := Uses (· ≠ .answer) t

/-- When a dialog is raised, the main loop has not yet taken the key that it is about to handle
from its queue, or it gives no answer. -/
def RaisesBetweenKeys (d : System) : Step → Prop
  | .act .rx _ =>
      (∃ kind, kind ≠ .idle ∧ (d.code .rx).next = some (.store (.consentState kind))) →
        (∃ action, d.code .main = takeKey action) ∨ Unanswering (d.code .main)
  | _ => True

/-- The areas of the main loop. -/
def Area.ofMain : Area → Bool
  | .frame | .raise | .await | .opening | .backup => false
  | _ => true

/-- A program of the main loop. -/
abbrev OfMain (t : Code Unit) : Prop := Uses (fun area => area.ofMain = true) t

/-- The areas of the timer task. -/
abbrev Area.OfTimer (area : Area) : Prop := area.calm = true ∧ area ≠ .cursor

/-- What holds of each task. -/
def ConsentTask (who : Party) (t : Code Unit) (m : State) : Prop :=
  match who with
  | .rx => RunsRx (fun _ => At .rest) t m
  | .timer => Uses Area.OfTimer t
  | .main => OfMain t ∧
      (Resting m ∧ ((∃ action, t = takeKey action) ∨ Unanswering t) ∨
        RunsMain (fun _ => Resting) t m)

/-- What holds at any time in a build that is not for provisioning. -/
structure System.Consents (d : System) : Prop where
  production : d.provisioning = false
  holds : d.Holds (ConsentSafe ·.log) ConsentTask

theorem starts_consent {d : System} (h : d.Consents) {step : Step} {who : Party} {t : Code Unit}
    (hstarts : step.starts d = some (who, t)) (hdone : d.code who = .done ()) :
    ConsentTask who t d.state := by
  have hrx : d.code .rx = .done () → At .rest d.state := fun hdone => by
    have hcode := h.holds.code .rx
    rw [hdone] at hcode
    exact hcode d.state (RxRelies.refl _)
  have hmain : d.code .main = .done () → Resting d.state := fun hdone => by
    obtain ⟨-, ⟨hresting, -⟩ | hruns⟩ := hdone ▸ h.holds.code .main
    · exact hresting
    · exact hruns d.state (MainRelies.refl _)
  revert hdone
  refine Step.starts_cases
    (P := fun who t => d.code who = .done () → ConsentTask who t d.state) hstarts
    (fun payload hdone => ?_) (fun _ => ?_) (fun action hdone => ?_) fun screen hdone => ?_
  · rw [h.production]
    exact runs_rxFrame_consent payload (hrx hdone)
  · exact uses_call (S := Area.OfTimer) (by decide) fun _ =>
      uses_endSession (by decide) (by decide) (by decide)
  · exact ⟨uses_takeKey (S := fun area => area.ofMain = true) rfl rfl rfl rfl rfl rfl rfl action,
      Or.inl ⟨hmain hdone, Or.inl ⟨action, rfl⟩⟩⟩
  · have hunanswering : Unanswering (appTurn screen) :=
      uses_appTurn (by decide) (by decide) (by decide) (by decide) (by decide) screen
    exact ⟨uses_appTurn (S := fun area => area.ofMain = true) rfl rfl rfl rfl rfl screen,
      Or.inl ⟨hmain hdone, Or.inr hunanswering⟩⟩

theorem eq_of_raised {a : Act} {io : Io} {m : State} {kind : ConsentState} (hm : At .rest m)
    (h : At (.raised kind false) (a.after io m)) :
    kind ≠ .idle ∧ a = .store (.consentState kind) := by
  have hkind : kind ≠ .idle := h.kind kind rfl
  have hstate : (a.after io m).vars.consentState = kind := h.state
  refine ⟨hkind, ?_⟩
  rw [Act.vars_after] at hstate
  cases a with
  | store s =>
      cases s with
      | consentState value => rw [← hstate]; rfl
      | _ => exact absurd (hstate.symm.trans hm.state) hkind
  | _ => exact absurd (hstate.symm.trans hm.state) hkind

section Steps

variable {d : System} {io : Io} {a : Act} {k : a.Ans → Code Unit} {b : a.Ans} {m : State}

theorem System.Consents.rx (h : d.Consents) (hstep : RaisesBetweenKeys d (.act .rx io))
    (hcode : d.code .rx = .act a k) (hexec : a.exec io d.state = some (b, m)) :
    ConsentSafe m.log ∧ ConsentTask .rx (k b) m ∧ ConsentTask .main (d.code .main) m := by
  have hruns := h.holds.code .rx
  rw [hcode] at hruns
  obtain ⟨⟨hsafe, hmain⟩, hrest⟩ := hruns d.state (RxRelies.refl _) io b m hexec
  refine ⟨hsafe h.holds.state, hrest, ?_⟩
  obtain ⟨huses, hcases⟩ := h.holds.code .main
  refine ⟨huses, ?_⟩
  rcases hmain with hrelies | ⟨hidle, kind, hraised⟩
  · rcases hcases with ⟨hresting, hform⟩ | hruns
    · exact Or.inl ⟨hrelies.resting hresting, hform⟩
    · exact Or.inr (hruns.rely (fun _ _ _ => MainRelies.trans) hrelies)
  · refine Or.inl ⟨Or.inr ⟨kind, false, hraised⟩, hstep ⟨kind, ?_⟩⟩
    obtain ⟨-, -, -, rfl⟩ := Act.exec_eq_some.mp hexec
    obtain ⟨hkind, rfl⟩ := eq_of_raised hidle hraised
    exact ⟨hkind, by rw [hcode]; rfl⟩

theorem System.Consents.timer (h : d.Consents) (hcode : d.code .timer = .act a k)
    (hexec : a.exec io d.state = some (b, m)) :
    ConsentSafe m.log ∧ ConsentTask .timer (k b) m ∧ RxRelies d.state m ∧
      MainRelies d.state m := by
  have huses := h.holds.code .timer
  rw [hcode] at huses
  obtain ⟨⟨hcalm, hcursor⟩, hrest⟩ := huses
  obtain ⟨-, -, -, rfl⟩ := Act.exec_eq_some.mp hexec
  have hsame := sameConsent_after (Area.silent_of_calm hcalm) io d.state
  exact ⟨h.holds.state.snoc (admits_of_calm hcalm _ _), hrest b, hsame.rxRelies,
    hsame.mainRelies (cursor_after hcursor io d.state)⟩

theorem resting_exec (hm : Resting m) {m' : State} (hexec : a.exec io m = some (b, m'))
    (hmain : a.area.ofMain = true) (hanswer : a.area ≠ .answer) :
    MainKeeps m m' ∧ Resting m' := by
  have hany : Handling .none m :=
    hm.imp id fun ⟨kind, pressed, hraised⟩ => ⟨kind, pressed, hraised, nofun⟩
  by_cases hcalm : a.area.calm = true
  · obtain ⟨-, -, -, rfl⟩ := Act.exec_eq_some.mp hexec
    exact ⟨mainKeeps_exec hcalm io m,
      (hany.same (sameConsent_after (Area.silent_of_calm hcalm) io m)).resting⟩
  · cases a with
    | receiveKey action =>
        obtain ⟨-, -, -, rfl⟩ := Act.exec_eq_some.mp hexec
        obtain ⟨hkeeps, hhandling⟩ := press_keeps hm io action
        exact ⟨hkeeps, hhandling.resting⟩
    | store s =>
        cases s with
        | sessionActive value => cases value <;> simp [Act.area, Area.ofMain, Area.calm] at *
        | consentState value => cases value <;> simp [Act.area, Area.ofMain] at *
        | activeSdkContext value => cases value <;> simp [Act.area, Area.calm] at *
        | _ => simp [Act.area, Area.calm] at *
    | fopen path write => cases write <;> simp [Act.area, Area.calm] at hcalm
    | _ => simp [Act.area, Area.ofMain, Area.calm] at *

theorem System.Consents.main (h : d.Consents) (hcode : d.code .main = .act a k)
    (hexec : a.exec io d.state = some (b, m)) :
    ConsentSafe m.log ∧ ConsentTask .main (k b) m ∧ RxRelies d.state m := by
  have htask := h.holds.code .main
  rw [hcode] at htask
  obtain ⟨huses, hcases⟩ := htask
  have hruns : ∀ {t}, t = .act a k → RunsMain (fun _ => Resting) t d.state →
      MainKeeps d.state m ∧ RunsMain (fun _ => Resting) (k b) m := by
    rintro t rfl hruns
    exact hruns d.state (MainRelies.refl _) io b m hexec
  rcases hcases with ⟨hresting, ⟨action, htake⟩ | hunanswering⟩ | hmain
  · obtain ⟨⟨hsafe, hrelies⟩, hrest⟩ := hruns htake.symm (runs_takeKey action hresting)
    exact ⟨hsafe h.holds.state, ⟨huses.2 b, Or.inr hrest⟩, hrelies⟩
  · obtain ⟨⟨hsafe, hrelies⟩, hresting'⟩ := resting_exec hresting hexec huses.1 hunanswering.1
    exact ⟨hsafe h.holds.state, ⟨huses.2 b, Or.inl ⟨hresting', Or.inr (hunanswering.2 b)⟩⟩, hrelies⟩
  · obtain ⟨⟨hsafe, hrelies⟩, hrest⟩ := hruns rfl hmain
    exact ⟨hsafe h.holds.state, ⟨huses.2 b, Or.inr hrest⟩, hrelies⟩

end Steps

theorem systemStep_consents {d : System} (h : d.Consents) (step : Step)
    (hstep : RaisesBetweenKeys d step) : (systemStep d step).1.Consents := by
  have hproduction : (systemStep d step).1.provisioning = false := by
    rcases systemStep_cases d step with heq | ⟨who, t, -, -, heq⟩ |
      ⟨who, io, a, k, b, m, -, -, -, heq⟩ <;> rw [heq] <;> exact h.production
  refine ⟨hproduction, h.holds.step step (fun who t => starts_consent h) ?_⟩
  rintro who io a k b m rfl hcode hexec
  cases who with
  | rx =>
      obtain ⟨hsafe, hrx, hmain⟩ := h.rx hstep hcode hexec
      refine ⟨hsafe, hrx, fun other hother => ?_⟩
      cases other with
      | rx => exact absurd rfl hother
      | timer => exact h.holds.code .timer
      | main => exact hmain
  | timer =>
      obtain ⟨hsafe, htimer, hrx, hmain⟩ := h.timer hcode hexec
      refine ⟨hsafe, htimer, fun other hother => ?_⟩
      cases other with
      | rx => exact Task.Runs.rely (fun _ _ _ => RxRelies.trans) (h.holds.code .rx) hrx
      | timer => exact absurd rfl hother
      | main =>
          obtain ⟨huses, hcases⟩ := h.holds.code .main
          refine ⟨huses, hcases.imp (fun hrest => ⟨hmain.resting hrest.1, hrest.2⟩) fun hruns => ?_⟩
          exact hruns.rely (fun _ _ _ => MainRelies.trans) hmain
  | main =>
      obtain ⟨hsafe, hmain, hrx⟩ := h.main hcode hexec
      refine ⟨hsafe, hmain, fun other hother => ?_⟩
      cases other with
      | rx => exact Task.Runs.rely (fun _ _ _ => RxRelies.trans) (h.holds.code .rx) hrx
      | timer => exact h.holds.code .timer
      | main => exact absurd rfl hother

/-- In every run in which no dialog is raised while the main loop is handling a key, a session
is opened and a backup applied only with the consent to the dialog of that command, and every
dialog takes one token, which is given for it. -/
theorem consent_safe (steps : List Step)
    (h : Along systemStep RaisesBetweenKeys (System.boot false) steps) :
    ConsentSafe (run systemStep (System.boot false) steps).state.log := by
  have hrest : At .rest (System.boot false).state := ⟨rfl, rfl, rfl, rfl, nofun, nofun, nofun⟩
  have hboot : (System.boot false).Consents := by
    refine ⟨rfl, ⟨trivial⟩, fun who => ?_⟩
    cases who with
    | rx => exact fun m hR => RxRelies.rest hR hrest
    | timer => trivial
    | main => exact ⟨trivial, Or.inl ⟨Or.inl (Or.inl hrest), Or.inr trivial⟩⟩
  exact (h.invariant (fun d step hd hstep => systemStep_consents hd step hstep) hboot).holds.state

/-- Dialogs are raised while the main loop is at rest. -/
def raisesAtRest (d : System) : Step → Bool
  | .act .rx _ => (d.code .rx).next ∉ [some (.store (.consentState .pending)),
      some (.store (.consentState .backupPending))] || (d.code .main).isDone
  | _ => true

theorem raisesBetweenKeys_of_atRest (d : System) (step : Step) (h : raisesAtRest d step = true) :
    RaisesBetweenKeys d step := by
  cases step with
  | act who io =>
      cases who with
      | rx =>
          rintro ⟨kind, hkind, hnext⟩
          simp only [raisesAtRest, hnext, Bool.or_eq_true, decide_eq_true_eq, Task.isDone_iff] at h
          rcases h with hother | hdone
          · cases kind <;> simp at hother hkind
          · exact Or.inr (hdone ▸ trivial)
      | timer | main => trivial
  | _ => trivial

/-- A session is opened, and then a backup applied: RIGHT, and OK. -/
def backupSession : List Step :=
  openSession ++ [.frame ([1, SmpCmd.applyBackup, 0] ++ ascii "/sd/b" ++ [0])] ++ acts .rx 11 ++
    [.key .right] ++ acts .main 5 ++ [.key .ok] ++ acts .main 8 ++ acts .rx 5

theorem consent_safe_backupSession :
    ConsentSafe (run systemStep (System.boot false) backupSession).state.log := by
  have hrest : Along systemStep (fun d step => raisesAtRest d step = true)
      (System.boot false) backupSession := by decide
  exact consent_safe backupSession (hrest.mono raisesBetweenKeys_of_atRest)

/-- The main loop takes OK from its queue, a dialog is raised, and the key is handled. -/
def earlyKey : List Step :=
  [.key .ok] ++ acts .main 1 ++ [.frame [0, SmpCmd.sessionStart, 0, smpProtoVersion]] ++
    acts .rx 7 ++ acts .main 7 ++ acts .rx 3

theorem early_key_opens :
    (run systemStep (System.boot false) earlyKey).state.vars.sessionActive = true ∧
      ¬ ConsentSafe (run systemStep (System.boot false) earlyKey).state.log := by
  decide

end Smp
end JppDos
