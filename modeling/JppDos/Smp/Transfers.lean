import JppDos.Smp.Exclusion

/-!
# Transfers and sessions

The receive task begins and ends transfers; the end of a session, whoever ends it, ends its
transfer too.  Nothing keeps the end of a session out of a handler that is just opening a file.

Main fact:
* `transfers_safe`: no transfer outlives its session, and every FILE is closed once, if no end
  of a session overlaps with a command that moves the slot.
-/

namespace JppDos
namespace Smp

open CText Serial Machine

/-- A FILE that was opened for a transfer, and not closed. -/
def IsOpen (m : State) (n : FileNo) : Prop := n < m.opened ∧ some n ∉ m.closings

/-- A transfer is active only in a session, at most one FILE is open, and no FILE is closed
that is not open. -/
structure SlotSafe (m : State) : Prop where
  active_in_session : m.vars.xfer.active = true → m.vars.sessionActive = true
  one_open : ∀ n n', IsOpen m n → IsOpen m n' → n = n'
  closed_once : m.closings.Nodup
  closed_opened : ∀ c ∈ m.closings, ∃ n < m.opened, c = some n

/-- Moreover every session begins without a transfer. -/
structure TransferSafe (m : State) : Prop extends SlotSafe m where
  fresh : ∀ v, (Act.store (.sessionActive true), v) ∈ m.log → v.xfer.active = false

/-- Every FILE but that of the active transfer is closed. -/
def Leftless (m : State) : Prop :=
  ∀ n, IsOpen m n → m.vars.xfer.active = true ∧ m.vars.xfer.fp = some n

/-- The actions that open or close a FILE, give it to the slot or take it away, or end a
session. -/
def Act.moves : Act → Bool
  | .fopen .. | .fclose _ | .store (.xfer _) | .store .xferClosed | .store (.xferActive _)
  | .store (.sessionActive false) => true
  | _ => false

/-- The program does none of that any more. -/
abbrev Still {α : Type} (t : Code α) : Prop := t.All fun a => a.moves = false

/-- What comes next does. -/
def Ending (t : Code Unit) : Prop := ∃ a, t.next = some a ∧ a.moves = true

/-- The receive task has no command in hand that does: at most one that is about to arrive. -/
def EmptyHanded (t : Code Unit) : Prop := Still t ∨ ∃ payload, t.next = some (.receiveFrame payload)

/-- An end of a session begins only while no command is in hand that moves the slot, and while
nobody else ends the session; and until it is over no such command goes on. -/
def TransfersApart (d : System) : Step → Prop
  | .act .rx _ => Still (d.code .rx) ∨ ¬ Ending (d.code .timer) ∧ ¬ Ending (d.code .main)
  | .act .timer _ => d.code .timer = endSession → EmptyHanded (d.code .rx) ∧ ¬ Ending (d.code .main)
  | .act .main _ => d.code .main = endSession → EmptyHanded (d.code .rx) ∧ ¬ Ending (d.code .timer)
  | _ => True

/-- The slot keeps its FILE, no FILE is opened or closed, and a session goes on. -/
structure SameSlot (m m' : State) : Prop where
  active : m'.vars.xfer.active = m.vars.xfer.active
  fp : m'.vars.xfer.fp = m.vars.xfer.fp
  opened : m'.opened = m.opened
  closings : m'.closings = m.closings
  session : m.vars.sessionActive = true → m'.vars.sessionActive = true

/-- The stages of the slot.  In a session, a FILE is opened, given to the slot, closed, and
taken away. -/
inductive SlotStage
  | empty
  | entered
  | holding (n : FileNo)
  | active (n : FileNo)
  | dropped
deriving DecidableEq

namespace SlotStage

/-- The FILE that is open. -/
def file : SlotStage → Option FileNo
  | holding n | active n => some n
  | _ => none

/-- The slot is marked active. -/
def inUse : SlotStage → Bool
  | active _ | dropped => true
  | _ => false

/-- The stage is one of a session. -/
def inSession : SlotStage → Bool
  | empty => false
  | _ => true

end SlotStage

/-- The slot is at a stage, and every FILE but the one of the stage has been closed once. -/
structure SlotAt (stage : SlotStage) (m : State) : Prop where
  isOpen : ∀ n, IsOpen m n ↔ stage.file = some n
  inUse : m.vars.xfer.active = stage.inUse
  session : stage.inSession = true → m.vars.sessionActive = true
  fp : ∀ n, stage = .active n → m.vars.xfer.fp = some n
  closed_once : m.closings.Nodup
  closed_opened : ∀ c ∈ m.closings, ∃ n < m.opened, c = some n

/-- No transfer, or an active one in its session. -/
def Steady (m : State) : Prop := SlotAt .empty m ∨ ∃ n, SlotAt (.active n) m

section Slot

variable {m m' m'' : State} {stage : SlotStage} {n : FileNo}

theorem SameSlot.refl (m : State) : SameSlot m m := ⟨rfl, rfl, rfl, rfl, id⟩

theorem SameSlot.trans (h : SameSlot m m') (h' : SameSlot m' m'') : SameSlot m m'' :=
  ⟨h'.active.trans h.active, h'.fp.trans h.fp, h'.opened.trans h.opened,
    h'.closings.trans h.closings, h'.session ∘ h.session⟩

theorem sameSlot_after {a : Act} (ha : a.moves = false) (io : Io) (m : State) :
    SameSlot m (a.after io m) := by
  cases a with
  | store s =>
      cases s with
      | sessionActive value =>
          cases value with
          | true => exact ⟨rfl, rfl, rfl, rfl, fun _ => rfl⟩
          | false => cases ha
      | xfer | xferClosed | xferActive => cases ha
      | _ => exact ⟨rfl, rfl, rfl, rfl, id⟩
  | fopen path write => cases ha
  | fclose fp => cases ha
  | _ => exact ⟨rfl, rfl, rfl, rfl, id⟩

theorem SlotAt.same (h : SlotAt stage m) (hsame : SameSlot m m') : SlotAt stage m' where
  isOpen := by
    intro n
    rw [IsOpen, hsame.opened, hsame.closings]
    exact h.isOpen n
  inUse := hsame.active.trans h.inUse
  session hstage := hsame.session (h.session hstage)
  fp n hstage := hsame.fp.trans (h.fp n hstage)
  closed_once := by
    rw [hsame.closings]
    exact h.closed_once
  closed_opened := by
    rw [hsame.closings, hsame.opened]
    exact h.closed_opened

theorem SlotAt.safe (h : SlotAt stage m) : SlotSafe m where
  active_in_session hactive := by
    rw [h.inUse] at hactive
    refine h.session ?_
    cases stage with
    | empty => cases hactive
    | _ => rfl
  one_open n n' hn hn' :=
    Option.some.inj (((h.isOpen n).mp hn).symm.trans ((h.isOpen n').mp hn'))
  closed_once := h.closed_once
  closed_opened := h.closed_opened

/-- Outside the stages of a transfer, the stage of no transfer is reached by doing nothing. -/
theorem SlotAt.empty (h : SlotAt .entered m) : SlotAt .empty m :=
  ⟨h.isOpen, h.inUse, nofun, nofun, h.closed_once, h.closed_opened⟩

theorem Steady.same (h : Steady m) (hsame : SameSlot m m') : Steady m' :=
  h.imp (fun hempty => hempty.same hsame) fun ⟨n, hactive⟩ => ⟨n, hactive.same hsame⟩

theorem Steady.safe (h : Steady m) : SlotSafe m := by
  rcases h with hempty | ⟨n, hactive⟩
  · exact hempty.safe
  · exact hactive.safe

theorem Steady.leftless (h : Steady m) : Leftless m := by
  intro n hn
  rcases h with hempty | ⟨k, hactive⟩
  · exact absurd ((hempty.isOpen n).mp hn) nofun
  · cases (hactive.isOpen n).mp hn
    exact ⟨hactive.inUse, hactive.fp n rfl⟩

theorem Steady.of_inUse (h : Steady m) (hactive : m.vars.xfer.active = true) :
    ∃ n, SlotAt (.active n) m :=
  h.resolve_left fun hempty => absurd (hempty.inUse.symm.trans hactive) nofun

theorem Steady.of_free (h : Steady m) (hfree : m.vars.xfer.active = false) :
    SlotAt .empty m :=
  h.resolve_right fun ⟨_, hactive⟩ => absurd (hactive.inUse.symm.trans hfree) nofun

theorem Steady.entered (h : Steady m) (hsession : m.vars.sessionActive = true)
    (hfree : m.vars.xfer.active = false) : SlotAt .entered m :=
  have hempty := h.of_free hfree
  ⟨hempty.isOpen, hempty.inUse, fun _ => hsession, nofun, hempty.closed_once,
    hempty.closed_opened⟩

/-- `fopen` that succeeds. -/
theorem SlotAt.opened (h : SlotAt .entered m) {io : Io} (hio : io.errno = none) (path : Path)
    (write : Bool) : SlotAt (.holding m.opened) (Act.after io m (.fopen path write)) := by
  have heq : (Act.after io m (.fopen path write)).opened = m.opened + 1 ∧
      (Act.after io m (.fopen path write)).closings = m.closings ∧
      (Act.after io m (.fopen path write)).vars = m.vars := by
    simp [Act.after, Act.effect, hio]
  obtain ⟨hopened, hclosings, hvars⟩ := heq
  refine ⟨fun n => ?_, hvars ▸ h.inUse, fun _ => hvars ▸ h.session rfl,
    fun _ hstage => SlotStage.noConfusion hstage,
    hclosings ▸ h.closed_once, ?_⟩
  · rw [IsOpen, hopened, hclosings]
    have hnone := h.isOpen n
    simp only [IsOpen, SlotStage.file, reduceCtorEq, iff_false, not_and, not_not] at hnone
    simp only [SlotStage.file, Option.some.injEq]
    constructor
    · rintro ⟨hlt, hnot⟩
      by_contra hne
      exact hnot (hnone (Nat.lt_of_le_of_ne (Nat.le_of_lt_succ hlt) (Ne.symm hne)))
    · rintro rfl
      refine ⟨Nat.lt_succ_self _, fun hmem => ?_⟩
      obtain ⟨n, hn, heq⟩ := h.closed_opened _ hmem
      cases heq
      exact absurd hn (Nat.lt_irrefl _)
  · rw [hopened, hclosings]
    intro c hc
    obtain ⟨n, hn, rfl⟩ := h.closed_opened c hc
    exact ⟨n, by omega, rfl⟩

/-- `fopen` that fails. -/
theorem sameSlot_fopen {io : Io} {e : Errno} (hio : io.errno = some e) (path : Path)
    (write : Bool) (m : State) : SameSlot m (Act.after io m (.fopen path write)) := by
  constructor <;> simp [Act.after, Act.effect, hio]

theorem SlotAt.stored (h : SlotAt (.holding n) m) {x : Transfer} (hfp : x.fp = some n)
    (hactive : x.active = true) (io : Io) :
    SlotAt (.active n) (Act.after io m (.store (.xfer x))) where
  isOpen := h.isOpen
  inUse := hactive
  session _ := h.session rfl
  fp k hk := by
    cases hk
    exact hfp
  closed_once := h.closed_once
  closed_opened := h.closed_opened

theorem isOpen_fclose (h : ∀ k, IsOpen m k ↔ some n = some k) (io : Io) (k : FileNo) :
    ¬ IsOpen (Act.after io m (.fclose (some n))) k := by
  rintro ⟨hlt, hnot⟩
  have hopen : IsOpen m k := ⟨hlt, fun hmem => hnot (List.mem_append_left _ hmem)⟩
  exact hnot (List.mem_append_right _ (by rw [(h k).mp hopen]; exact List.mem_cons_self))

theorem nodup_fclose (h : SlotAt stage m) (hfile : stage.file = some n) (io : Io) :
    (Act.after io m (.fclose (some n))).closings.Nodup ∧
      ∀ c ∈ (Act.after io m (.fclose (some n))).closings,
        ∃ k < (Act.after io m (.fclose (some n))).opened, c = some k := by
  obtain ⟨hlt, hnot⟩ := (h.isOpen n).mpr hfile
  refine ⟨List.nodup_append.mpr ⟨h.closed_once, List.pairwise_singleton _ _, ?_⟩, fun c hc => ?_⟩
  · rintro c hc c' hc' rfl
    exact hnot (List.mem_singleton.mp hc' ▸ hc)
  · rcases List.mem_append.mp hc with hc | hc
    · exact h.closed_opened c hc
    · exact ⟨n, hlt, List.mem_singleton.mp hc⟩

theorem SlotAt.givenBack (h : SlotAt (.holding n) m) (io : Io) :
    SlotAt .entered (Act.after io m (.fclose (some n))) :=
  have hclosings := nodup_fclose h rfl io
  ⟨fun k => iff_of_false (isOpen_fclose h.isOpen io k) nofun, h.inUse, fun _ => h.session rfl,
    nofun, hclosings.1, hclosings.2⟩

theorem SlotAt.closed (h : SlotAt (.active n) m) (io : Io) :
    SlotAt .dropped (Act.after io m (.fclose (some n))) :=
  have hclosings := nodup_fclose h rfl io
  ⟨fun k => iff_of_false (isOpen_fclose h.isOpen io k) nofun, h.inUse, fun _ => h.session rfl,
    nofun, hclosings.1, hclosings.2⟩

/-- `s_xfer.fp = NULL`. -/
theorem SlotAt.cleared (h : SlotAt .dropped m) (io : Io) :
    SlotAt .dropped (Act.after io m (.store .xferClosed)) :=
  ⟨h.isOpen, h.inUse, fun _ => h.session rfl, nofun, h.closed_once, h.closed_opened⟩

/-- `s_xfer.active = false`. -/
theorem SlotAt.freed (h : SlotAt stage m) (hfile : stage.file = none) (io : Io) :
    SlotAt .empty (Act.after io m (.store (.xferActive false))) :=
  ⟨fun k => (h.isOpen k).trans (by rw [hfile]; exact iff_of_false nofun nofun), rfl, nofun,
    nofun, h.closed_once, h.closed_opened⟩

/-- `s_session_active = false`. -/
theorem SlotAt.ended (h : SlotAt .empty m) (io : Io) :
    SlotAt .empty (Act.after io m (.store (.sessionActive false))) :=
  ⟨h.isOpen, h.inUse, nofun, nofun, h.closed_once, h.closed_opened⟩

end Slot

/-- Others leave the condition alone, and under it the slot is as it should be. -/
structure Lasting (I : State → Prop) : Prop where
  same : ∀ m m', I m → SameSlot m m' → I m'
  safe : ∀ m, I m → SlotSafe m

theorem lasting_at (stage : SlotStage) : Lasting (SlotAt stage) :=
  ⟨fun _ _ h => h.same, fun _ h => h.safe⟩

theorem lasting_steady : Lasting Steady := ⟨fun _ _ h => h.same, fun _ h => h.safe⟩

theorem lasting_session (P : Prop) :
    Lasting fun m => Steady m ∧ (P → m.vars.sessionActive = true) where
  same _ _ h hsame := ⟨h.1.same hsame, fun hP => hsame.session (h.2 hP)⟩
  safe _ h := h.1.safe

abbrev RunsSlot {α : Type} (Q : α → State → Prop) (t : Code α) (m : State) : Prop :=
  Task.Runs Act.exec SameSlot (fun _ m' => SlotSafe m') Q t m

/-- The program leaves no transfer, or an active one in its session. -/
abbrev RunsSteady (t : Code Unit) (m : State) : Prop := RunsSlot (fun _ => Steady) t m

section Programs

variable {α : Type} {Q : α → State → Prop} {I : State → Prop} {m : State}
  {stage stage' : SlotStage} {n : FileNo}

theorem still_of_uses {t : Code α} (h : Uses (fun area => area ∉ [.slot, .create, .closing]) t) :
    Still t := by
  refine Task.All.mono (fun a ha => ?_) h
  cases a with
  | store s =>
      cases s with
      | sessionActive value =>
          cases value with
          | true => rfl
          | false => simp [Act.area] at ha
      | xfer | xferClosed | xferActive => simp [Act.area] at ha
      | _ => rfl
  | fopen path write => cases write <;> simp [Act.area] at ha
  | fclose fp => simp [Act.area] at ha
  | _ => rfl

theorem still_sendErr (seq status : UInt8) : Still (sendErr seq status) := ⟨rfl, fun _ => trivial⟩

theorem still_sendResponse (seq status : UInt8) (body : List UInt8) :
    Still (sendResponse seq status body) := ⟨rfl, fun _ => trivial⟩

theorem runs_still {t : Code α} (hI : Lasting I) (ht : Still t) (hm : I m) :
    RunsSlot (fun _ => I) t m := by
  refine Task.Runs.of_all hI.same (Task.All.mono (fun a ha s io b s' hs hexec => ?_) ht) hm
  obtain ⟨-, -, -, rfl⟩ := Act.exec_eq_some.mp hexec
  have hs' := hI.same s _ hs (sameSlot_after ha io s)
  exact ⟨hI.safe _ hs', hs'⟩

theorem runs_err (seq status : UInt8) (hm : Steady m) : RunsSteady (sendErr seq status) m :=
  runs_still lasting_steady (still_sendErr seq status) hm

/-- An action that leaves the slot alone, and what follows. -/
theorem runs_still_act {a : Act} {k : a.Ans → Code α} (hI : Lasting I) (ha : a.moves = false)
    (hm : I m) (hk : ∀ b m, I m → RunsSlot Q (k b) m) : RunsSlot Q (Task.act a k) m := by
  refine Task.Runs.act fun m₁ hR io b m₂ hexec => ?_
  obtain ⟨-, -, -, rfl⟩ := Act.exec_eq_some.mp hexec
  have hsame := sameSlot_after ha io m₁
  have h₂ := hI.same _ _ (hI.same _ _ hm hR) hsame
  exact ⟨hI.safe _ h₂, hk b _ h₂⟩

/-- The variables are read, and what follows is done with them. -/
theorem runs_load {f : Vars → Code α} (hI : Lasting I) (hm : I m)
    (hf : ∀ m, I m → RunsSlot Q (f m.vars) m) : RunsSlot Q (Task.act .load f) m := by
  refine Task.Runs.act fun m₁ hR io b m₂ hexec => ?_
  obtain ⟨-, -, rfl, rfl⟩ := Act.exec_eq_some.mp hexec
  have hsame : SameSlot m₁ (Act.after io m₁ .load) := sameSlot_after rfl io m₁
  have h₁ := hI.same _ _ hm hR
  exact ⟨hI.safe _ (hI.same _ _ h₁ hsame),
    (hf m₁ h₁).rely (fun _ _ _ => SameSlot.trans) hsame⟩

/-- An action that moves the slot to another stage, and what follows. -/
theorem runs_move {a : Act} {k : a.Ans → Code α} (hm : SlotAt stage m)
    (hstep : ∀ io m, SlotAt stage m → SlotAt stage' (a.after io m))
    (hk : ∀ b m, SlotAt stage' m → RunsSlot Q (k b) m) : RunsSlot Q (Task.act a k) m := by
  refine Task.Runs.act fun m₁ hR io b m₂ hexec => ?_
  obtain ⟨-, -, -, rfl⟩ := Act.exec_eq_some.mp hexec
  have h₂ := hstep io m₁ (hm.same hR)
  exact ⟨h₂.safe, hk b _ h₂⟩

/-- `fopen`, and what follows. -/
theorem runs_fopen {path : Path} {write : Bool} {k : Except Errno FileNo → Code α}
    (hm : SlotAt .entered m) (herror : ∀ e m, SlotAt .entered m → RunsSlot Q (k (.error e)) m)
    (hok : ∀ n m, SlotAt (.holding n) m → RunsSlot Q (k (.ok n)) m) :
    RunsSlot Q (Task.act (.fopen path write) k) m := by
  refine Task.Runs.act fun m₁ hR io b m₂ hexec => ?_
  obtain ⟨-, -, rfl, rfl⟩ := Act.exec_eq_some.mp hexec
  have h₁ := hm.same hR
  cases hio : io.errno with
  | none =>
      have h₂ := h₁.opened hio path write
      have hanswer : Act.answer io m₁ (.fopen path write) = Except.ok m₁.opened := by
        simp only [Act.answer, hio]
        rfl
      exact ⟨h₂.safe, hanswer ▸ hok _ _ h₂⟩
  | some e =>
      have h₂ := h₁.same (sameSlot_fopen hio path write m₁)
      have hanswer : Act.answer io m₁ (.fopen path write) = Except.error e := by
        simp only [Act.answer, hio]
        rfl
      exact ⟨h₂.safe, hanswer ▸ herror e _ h₂⟩

theorem runs_dropTransfer (hm : SlotAt (.active n) m) :
    RunsSlot (fun _ => SlotAt .empty) dropTransfer m := by
  refine runs_load (lasting_at _) hm fun m₁ h₁ => ?_
  change RunsSlot _ (Task.act (.fclose m₁.vars.xfer.fp) _) _
  rw [h₁.fp n rfl]
  refine runs_move h₁ (fun io _ h => h.closed io) fun _ m₂ h₂ => ?_
  refine runs_move h₂ (fun io _ h => h.cleared io) fun _ m₃ h₃ => ?_
  refine runs_move h₃ (fun io _ h => h.freed rfl io) fun _ m₄ h₄ => ?_
  exact Task.runs_done fun _ hR => h₄.same hR

theorem runs_drop_err (seq status : UInt8) (hm : SlotAt (.active n) m) :
    RunsSteady (do dropTransfer; sendErr seq status) m :=
  Task.Runs.bind SameSlot.refl (runs_dropTransfer hm) fun _ _ hs => runs_err seq status (Or.inl hs)

theorem runs_endSession (hm : Steady m) :
    RunsSlot (fun _ => SlotAt .empty) endSession m := by
  have hend : ∀ stage m, SlotAt stage m → stage.file = none → RunsSlot (fun _ => SlotAt .empty)
      (do store (.xferActive false); store (.sessionActive false)) m := by
    intro stage m h hfile
    refine runs_move h (fun io _ h => h.freed hfile io) fun _ m₁ h₁ => ?_
    refine runs_move h₁ (fun io _ h => h.ended io) fun _ m₂ h₂ => ?_
    exact Task.runs_done fun _ hR => h₂.same hR
  refine runs_load lasting_steady hm fun m₁ h₁ => ?_
  change RunsSlot _ (ite _ _ _) _
  split
  · rename_i hopen
    rw [Bool.and_eq_true] at hopen
    obtain ⟨n, hn⟩ := h₁.of_inUse hopen.1
    rw [hn.fp n rfl]
    refine runs_move hn (fun io _ h => h.closed io) fun _ m₂ h₂ => ?_
    refine runs_move h₂ (fun io _ h => h.cleared io) fun _ m₃ h₃ => ?_
    exact hend .dropped m₃ h₃ rfl
  · rename_i hclosed
    refine hend .empty m₁ (h₁.of_free (Bool.eq_false_iff.mpr fun hactive => ?_)) rfl
    obtain ⟨n, hn⟩ := h₁.of_inUse hactive
    exact hclosed (by rw [hactive, hn.fp n rfl]; rfl)

/-- Behind its first action, an end of a session only moves the slot. -/
theorem endSession_moves :
    ∃ k : Vars → Code Unit, endSession = .act .load k ∧
      ∀ v, (k v).All fun a => a.moves = true := by
  refine ⟨_, rfl, fun v => ?_⟩
  change Task.All _ (ite _ _ _)
  split
  · exact ⟨rfl, fun _ => ⟨rfl, fun _ => ⟨rfl, fun _ => ⟨rfl, fun _ => trivial⟩⟩⟩⟩
  · exact ⟨rfl, fun _ => ⟨rfl, fun _ => trivial⟩⟩

theorem runs_handleSessionEnd (seq : UInt8) (hm : Steady m) :
    RunsSteady (handleSessionEnd seq) m := by
  refine runs_still_act lasting_steady rfl hm fun _ m₁ h₁ => ?_
  exact Task.Runs.bind SameSlot.refl (runs_endSession h₁) fun _ _ hs => runs_err seq _ (Or.inl hs)

theorem runs_openUpload (seq : UInt8) (fileSize : UInt32) (path : Path)
    (hm : SlotAt .entered m) : RunsSteady (openUpload seq fileSize path) m := by
  have hdirs : Still (makeParentDirs path) :=
    Task.all_forM _ fun _ _ => ⟨rfl, fun _ => trivial⟩
  refine Task.Runs.bind SameSlot.refl (runs_still (lasting_at _) hdirs hm) fun _ m₁ h₁ => ?_
  refine runs_fopen h₁ (fun e m h => runs_err seq _ (Or.inl h.empty)) fun n m₂ h₂ => ?_
  refine runs_move h₂ (fun io _ h => h.stored rfl rfl io) fun _ m₃ h₃ => ?_
  exact runs_still lasting_steady (still_sendResponse ..) (Or.inr ⟨n, h₃⟩)

theorem runs_handleFsUploadBegin (seq : UInt8) (body : List UInt8) (hm : Steady m)
    (hsession : m.vars.sessionActive = true) : RunsSteady (handleFsUploadBegin seq body) m := by
  refine runs_load (lasting_session True) ⟨hm, fun _ => hsession⟩ fun m₁ ⟨h₁, hs₁⟩ => ?_
  change RunsSlot _ (ite (m₁.vars.xfer.active = true) _ (beginUpload seq body)) _
  split
  · exact runs_err seq _ h₁
  · rename_i hfree
    rw [beginUpload]
    split
    · exact runs_err seq _ h₁
    · split
      · exact runs_err seq _ h₁
      · exact runs_openUpload _ _ _ (h₁.entered (hs₁ trivial) (Bool.eq_false_iff.mpr hfree))

theorem runs_writeChunk (seq idx0 idx1 : UInt8) (data : List UInt8)
    (hm : SlotAt (.active n) m) : RunsSteady (writeChunk seq idx0 idx1 data) m := by
  refine runs_load (lasting_at _) hm fun m₁ h₁ => ?_
  refine runs_still_act (lasting_at _) rfl h₁ fun (took : Nat) m₂ h₂ => ?_
  change RunsSlot _ (ite _ _ _) _
  split
  · exact runs_drop_err seq _ h₂
  · exact runs_still lasting_steady
      ⟨rfl, fun _ => ⟨rfl, fun _ => ⟨rfl, fun _ => ⟨rfl, fun _ => still_sendResponse ..⟩⟩⟩⟩
      (Or.inr ⟨n, h₂⟩)

theorem runs_handleFsUploadChunk (seq : UInt8) (body : List UInt8) (hm : Steady m) :
    RunsSteady (handleFsUploadChunk seq body) m := by
  refine runs_load lasting_steady hm fun m₁ h₁ => ?_
  change RunsSlot _ (ite _ _ _) _
  split
  · exact runs_err seq _ h₁
  rename_i hactive
  obtain ⟨n, hn⟩ := h₁.of_inUse (by simp at hactive; exact hactive.1)
  split
  · refine runs_load (lasting_at _) hn fun m₂ h₂ => ?_
    change RunsSlot _ (ite _ _ _) _
    split
    · exact runs_err seq _ (Or.inr ⟨n, h₂⟩)
    refine runs_load (lasting_at _) h₂ fun m₃ h₃ => ?_
    change RunsSlot _ (ite _ (ite _ _ _) _) _
    split_ifs
    · exact runs_still lasting_steady (still_sendResponse ..) (Or.inr ⟨n, h₃⟩)
    · exact runs_drop_err seq _ h₃
    · exact runs_writeChunk _ _ _ _ h₃
  · exact runs_err seq _ h₁

theorem runs_handleFsUploadEnd (seq : UInt8) (body : List UInt8) (hm : Steady m) :
    RunsSteady (handleFsUploadEnd seq body) m := by
  refine runs_load lasting_steady hm fun m₁ h₁ => ?_
  change RunsSlot _ (ite _ _ _) _
  split
  · exact runs_err seq _ h₁
  rename_i hactive
  obtain ⟨n, hn⟩ := h₁.of_inUse (by simp at hactive; exact hactive.1)
  split
  · refine runs_load (lasting_at _) hn fun m₂ h₂ => ?_
    change RunsSlot _ (ite _ _ _) _
    split
    · exact runs_err seq _ (Or.inr ⟨n, h₂⟩)
    refine runs_load (lasting_at _) h₂ fun m₃ h₃ => ?_
    refine runs_still_act (lasting_at _) rfl h₃ fun _ m₄ h₄ => ?_
    change RunsSlot _ (dropTransfer >>= fun _ => _) _
    refine Task.Runs.bind SameSlot.refl (runs_dropTransfer h₄) fun _ m₅ h₅ => ?_
    refine runs_still lasting_steady ⟨rfl, fun v => ?_⟩ (Or.inl h₅)
    change Still (ite _ _ _)
    split
    · exact still_sendErr seq _
    · exact still_sendErr seq _
  · exact runs_err seq _ h₁

theorem runs_openDownload (seq : UInt8) (path : Path) (hm : SlotAt .entered m) :
    RunsSteady (openDownload seq path) m := by
  refine runs_fopen hm (fun e m₁ h₁ => ?_) fun n m₁ h₁ => ?_
  · cases e <;> exact runs_err seq _ (Or.inl h₁.empty)
  refine runs_still_act (lasting_at _) rfl h₁ fun size m₂ h₂ => ?_
  cases size with
  | none =>
      refine runs_move h₂ (fun io _ h => h.givenBack io) fun _ m₃ h₃ => ?_
      exact runs_err seq _ (Or.inl h₃.empty)
  | some sz =>
      refine runs_still_act (lasting_at _) rfl h₂ fun content m₃ h₃ => ?_
      refine runs_move h₃ (fun io _ h => h.stored rfl rfl io) fun _ m₄ h₄ => ?_
      exact runs_still lasting_steady (still_sendResponse ..) (Or.inr ⟨n, h₄⟩)

theorem runs_handleFsDlBegin (seq : UInt8) (body : List UInt8) (hm : Steady m)
    (hsession : m.vars.sessionActive = true) : RunsSteady (handleFsDlBegin seq body) m := by
  refine runs_load (lasting_session True) ⟨hm, fun _ => hsession⟩ fun m₁ ⟨h₁, hs₁⟩ => ?_
  change RunsSlot _ (ite (m₁.vars.xfer.active = true) _ (beginDownload seq body)) _
  split
  · exact runs_err seq _ h₁
  · rename_i hfree
    rw [beginDownload]
    split
    · exact runs_err seq _ h₁
    · exact runs_openDownload _ _ (h₁.entered (hs₁ trivial) (Bool.eq_false_iff.mpr hfree))

/-- DL_CHUNK reads from the FILE, and leaves it where it is. -/
theorem still_handleFsDlChunk (seq : UInt8) (body : List UInt8) :
    Still (handleFsDlChunk seq body) := by
  refine ⟨rfl, fun v => ?_⟩
  change Still (ite _ _ _)
  split
  · exact still_sendErr seq _
  split
  · refine ⟨rfl, fun v => ?_⟩
    change Still (ite _ _ _)
    split
    · exact still_sendErr seq _
    refine ⟨rfl, fun v => ?_⟩
    change Still (ite _ _ _)
    split
    · exact still_sendErr seq _
    refine ⟨rfl, fun v => ⟨rfl, fun found => ?_⟩⟩
    change Still (ite _ _ _)
    split
    · exact still_sendErr seq _
    refine ⟨rfl, fun v => ⟨rfl, fun data => ?_⟩⟩
    cases data with
    | none => exact still_sendErr seq _
    | some data => exact still_sendResponse seq ..
  · exact still_sendErr seq _

theorem runs_handleFsDlEnd (seq : UInt8) (body : List UInt8) (hm : Steady m) :
    RunsSteady (handleFsDlEnd seq body) m := by
  refine runs_load lasting_steady hm fun m₁ h₁ => ?_
  change RunsSlot _ (ite _ _ _) _
  split
  · exact runs_err seq _ h₁
  rename_i hactive
  obtain ⟨n, hn⟩ := h₁.of_inUse (by simp at hactive; exact hactive.1)
  refine runs_load (lasting_at _) hn fun m₂ h₂ => ?_
  change RunsSlot _ (ite _ _ _) _
  split
  · exact runs_err seq _ (Or.inr ⟨n, h₂⟩)
  · exact runs_drop_err seq _ h₂

theorem runs_handleCommand_slot (provisioning : Bool) (seq cmd : UInt8) (body : List UInt8)
    (hm : Steady m) (hsession : cmd ≠ SmpCmd.sessionStart → m.vars.sessionActive = true) :
    RunsSteady (handleCommand provisioning seq cmd body) m := by
  by_cases hend : cmd = SmpCmd.sessionEnd
  · subst hend
    exact runs_handleSessionEnd seq hm
  by_cases hcmd : cmd ∈ [SmpCmd.fsUploadBegin, SmpCmd.fsUploadChunk, SmpCmd.fsUploadEnd,
      SmpCmd.fsDlBegin, SmpCmd.fsDlChunk, SmpCmd.fsDlEnd]
  · simp only [List.mem_cons, List.not_mem_nil, or_false] at hcmd
    rcases hcmd with rfl | rfl | rfl | rfl | rfl | rfl
    · exact runs_handleFsUploadBegin seq body hm (hsession (by decide))
    · exact runs_handleFsUploadChunk seq body hm
    · exact runs_handleFsUploadEnd seq body hm
    · exact runs_handleFsDlBegin seq body hm (hsession (by decide))
    · exact runs_still lasting_steady (still_handleFsDlChunk seq body) hm
    · exact runs_handleFsDlEnd seq body hm
  · refine runs_still lasting_steady (still_of_uses (uses_handleCommand (by decide) ?_
      (fun h => absurd h hend) (fun _ => by decide) (fun h => absurd (by simp [h]) hcmd)
      (fun h => absurd h hcmd) (fun _ => by decide) seq body)) hm
    exact fun _ => ⟨by decide, by decide, by decide, by decide, by decide, fun _ => by decide⟩

theorem runs_dispatchCommand_slot (provisioning : Bool) (payload : List UInt8) (hm : Steady m) :
    RunsSteady (dispatchCommand provisioning payload) m := by
  match payload with
  | [] => exact runs_still lasting_steady trivial hm
  | [_] => exact runs_still lasting_steady trivial hm
  | [_, _] => exact runs_still lasting_steady trivial hm
  | seq :: cmd :: _ :: body =>
      refine runs_load lasting_steady hm fun m₁ h₁ => ?_
      change RunsSlot _ (ite _ _ _) _
      split
      · exact runs_err seq _ h₁
      rename_i hcheck
      have hsession : cmd ≠ SmpCmd.sessionStart → m₁.vars.sessionActive = true := by
        intro hcmd
        by_contra hno
        exact hcheck (by simp [hcmd, hno])
      refine runs_load (lasting_session (cmd ≠ SmpCmd.sessionStart)) ⟨h₁, hsession⟩
        fun m₂ h₂ => ?_
      change RunsSlot _ (resetTimerIf _ >>= fun _ => _) _
      have htimer : Still (resetTimerIf m₂.vars.sessionActive) :=
        still_of_uses (uses_resetTimerIf (by decide) _)
      refine Task.Runs.bind SameSlot.refl
        (runs_still (lasting_session (cmd ≠ SmpCmd.sessionStart)) htimer h₂) fun _ m₃ h₃ => ?_
      exact runs_handleCommand_slot provisioning seq cmd body h₃.1 h₃.2

end Programs

/-- What the receive task relies on: a session that is over stays so. -/
def NoSession (m m' : State) : Prop :=
  m.vars.sessionActive = false → m'.vars.sessionActive = false

/-- What it guarantees: a session begins only while there is none. -/
def BeginsFresh (m m' : State) : Prop :=
  ∀ v, m'.log = m.log ++ [(.store (.sessionActive true), v)] → v.sessionActive = false

abbrev RunsFresh {α : Type} (Q : α → State → Prop) (t : Code α) (m : State) : Prop :=
  Task.Runs Act.exec NoSession BeginsFresh Q t m

theorem beginsFresh_exec {a : Act} {io : Io} {m m' : State} {b : a.Ans}
    (hexec : a.exec io m = some (b, m'))
    (ha : a.area ≠ .opening ∨ m.vars.sessionActive = false) : BeginsFresh m m' := by
  obtain ⟨-, -, -, rfl⟩ := Act.exec_eq_some.mp hexec
  intro v hv
  obtain ⟨rfl, rfl⟩ := Prod.mk.inj (List.singleton_inj.mp (List.append_cancel_left hv))
  exact ha.resolve_left fun hnot => hnot rfl

theorem runs_unopening_fresh {t : Code Unit} (h : Unopening t) (m : State) :
    RunsFresh (fun _ _ => True) t m :=
  runs_of_unopening (fun hexec ha => beginsFresh_exec hexec (Or.inl ha)) h m

/-- Before the session begins, the receive task has found that there is none. -/
theorem runs_closed_fresh {α : Type} {t : Code α} (h : Uses (· ≠ .opening) t) {m : State}
    (hm : m.vars.sessionActive = false) :
    RunsFresh (fun _ m => m.vars.sessionActive = false) t m := by
  refine Task.Runs.of_all (fun s s' hs hR => hR hs) ?_ hm
  refine Task.All.mono (fun a ha s io b s' hs hexec => ?_) h
  refine ⟨beginsFresh_exec hexec (Or.inr hs), ?_⟩
  obtain ⟨-, -, -, rfl⟩ := Act.exec_eq_some.mp hexec
  exact sessionActive_stays ha io hs

theorem runs_handleSessionStart_fresh (provisioning : Bool) (seq : UInt8) (body : List UInt8)
    (m : State) : RunsFresh (fun _ _ => True) (handleSessionStart provisioning seq body) m := by
  refine Task.Runs.act fun m₁ _ io v m₂ hexec => ⟨beginsFresh_exec hexec (Or.inl nofun), ?_⟩
  obtain ⟨-, -, rfl, rfl⟩ := Act.exec_eq_some.mp hexec
  change RunsFresh _ (ite (m₁.vars.sessionActive = true) _ _) _
  split
  · exact runs_unopening_fresh (uses_sendErr (by decide) ..) _
  rename_i hnone
  -- behind this look nobody but the receive task opens a session
  refine Task.Runs.act fun m₃ hR io v m₄ hexec => ⟨beginsFresh_exec hexec (Or.inl nofun), ?_⟩
  obtain ⟨-, -, -, rfl⟩ := Act.exec_eq_some.mp hexec
  have h₃ : m₃.vars.sessionActive = false := hR (Bool.eq_false_iff.mpr hnone)
  change RunsFresh _ (ite _ _ (ite _ _ (sessionConsent provisioning >>= _))) _
  split
  · exact runs_unopening_fresh (uses_sendErr (by decide) ..) _
  split
  · exact runs_unopening_fresh (uses_sendErr (by decide) ..) _
  have hconsent : Uses (· ≠ .opening) (sessionConsent provisioning) :=
    uses_sessionConsent (by decide) (by decide) (by decide) (by decide) fun _ => by decide
  refine Task.Runs.bind (fun _ h => h) (runs_closed_fresh hconsent h₃) fun allowed m₅ h₅ => ?_
  split
  · refine Task.Runs.act fun m₆ hR io _ m₇ hexec => ⟨beginsFresh_exec hexec (Or.inr (hR h₅)), ?_⟩
    change RunsFresh _ (resetSessionTimer >>= fun _ => _) _
    exact runs_unopening_fresh (uses_bind (uses_resetSessionTimer (by decide)) fun _ =>
      uses_sendResponse (by decide) ..) _
  · exact runs_unopening_fresh (uses_sendErr (by decide) ..) _

/-- The program leaves the slot alone until it ends the session, if it ever does. -/
abbrev Waits (t : Code Unit) : Prop :=
  t.Until (fun a => a.moves = false) (· = endSession)

theorem waits_closeSession : Waits closeSession := Or.inr ⟨rfl, fun _ => Or.inl rfl⟩

theorem waits_timerFired : Waits timerFired := Or.inr ⟨rfl, fun _ => Or.inl rfl⟩

theorem waits_handleAction (action : Action) : Waits (handleAction action) := by
  refine Or.inr ⟨rfl, fun v => ?_⟩
  change Waits (ite _ _ _)
  split
  · exact Task.until_of_all (still_of_uses
      (uses_handleDialogKey (by decide) (by decide) (by decide) action))
  refine Or.inr ⟨rfl, fun v => ?_⟩
  change Waits (ite _ (ite _ _ _) _)
  split_ifs
  · exact Or.inr ⟨rfl, fun _ => waits_closeSession⟩
  · trivial
  · trivial

theorem waits_takeKey (action : Action) : Waits (takeKey action) := by
  refine Or.inr ⟨rfl, fun _ => Or.inr ⟨rfl, fun v => ?_⟩⟩
  change Waits (ite _ _ _)
  split
  · trivial
  refine Task.until_bind (still_of_uses (uses_needsRender (by decide))) fun needs => ?_
  split
  · exact waits_handleAction action
  · trivial

theorem waits_appTurn (screen : Screen) : Waits (appTurn screen) :=
  Task.until_of_all (still_of_uses
    (uses_appTurn (by decide) (by decide) (by decide) (by decide) (by decide) screen))

/-- The receive task has no command in hand, or one that has yet to arrive. -/
def Waiting (provisioning : Bool) (t : Code Unit) : Prop :=
  Still t ∨ ∃ payload, t = rxFrame provisioning payload

/-- Nobody ends the session.  No transfer is being begun or ended, or a command is in hand that
will see to it. -/
structure System.Between (d : System) : Prop where
  waits : ∀ who, who ≠ .rx → Waits (d.code who)
  rx : Steady d.state ∧ Waiting d.provisioning (d.code .rx) ∨
    RunsSteady (d.code .rx) d.state ∧ Uses (· ≠ .frame) (d.code .rx)

/-- A task ends the session, and nobody else is concerned with it or with a transfer. -/
structure System.EndedBy (d : System) (who : Party) : Prop where
  runs : RunsSteady (d.code who) d.state
  moves : (d.code who).All fun a => a.moves = true
  waits : ∀ other, other ≠ .rx → other ≠ who → Waits (d.code other)
  rx : Waiting d.provisioning (d.code .rx)

/-- What holds at any time. -/
structure System.Transfers (d : System) : Prop where
  safe : TransferSafe d.state
  fresh : Unopening (d.code .rx) ∨ RunsFresh (fun _ _ => True) (d.code .rx) d.state
  unopening : ∀ who, who ≠ .rx → Unopening (d.code who)
  slot : d.Between ∨ ∃ who, who ≠ .rx ∧ d.EndedBy who

section Steps

variable {d : System} {who : Party} {m m' : State} {t : Code Unit}

theorem SlotSafe.same (h : SlotSafe m) (hsame : SameSlot m m') : SlotSafe m' := by
  have hopen : ∀ n, IsOpen m' n ↔ IsOpen m n := fun n => by
    rw [IsOpen, IsOpen, hsame.opened, hsame.closings]
  refine ⟨fun hactive => ?_, fun n n' hn hn' => ?_, hsame.closings ▸ h.closed_once, ?_⟩
  · exact hsame.session (h.active_in_session (hsame.active ▸ hactive))
  · exact h.one_open n n' ((hopen n).mp hn) ((hopen n').mp hn')
  · rw [hsame.closings, hsame.opened]
    exact h.closed_opened

/-- What is steady now was so before the slot was left alone. -/
theorem Steady.of_same (h : Steady m') (hsame : SameSlot m m') (hm : SlotSafe m) : Steady m := by
  have hback : ∀ stage, (stage.inSession = true → m.vars.sessionActive = true) →
      SlotAt stage m' → SlotAt stage m := by
    intro stage hsession h
    refine ⟨fun n => ?_, hsame.active ▸ h.inUse, hsession, fun n hn => hsame.fp ▸ h.fp n hn,
      hm.closed_once, hm.closed_opened⟩
    rw [← h.isOpen n, IsOpen, IsOpen, hsame.opened, hsame.closings]
  refine h.imp (hback _ nofun) fun ⟨n, hn⟩ => ⟨n, hback _ (fun _ => ?_) hn⟩
  exact hm.active_in_session (hsame.active ▸ hn.inUse)

/-- A program that leaves the slot alone finds it steady if it is to leave it so. -/
theorem steady_of_runs (ht : Still t) (h : RunsSteady t m) (hm : SlotSafe m) : Steady m := by
  induction t generalizing m with
  | done _ => exact h m (SameSlot.refl m)
  | act a k ih =>
      -- the others may give the token that the program waits for
      let m₁ : State := { m with consentSem := true, halted := false }
      have hsame : SameSlot m m₁ := ⟨rfl, rfl, rfl, rfl, id⟩
      have hready : a.ready m₁ = true := by cases a <;> rfl
      have hexec : a.exec {} m₁ = some (a.answer {} m₁, a.after {} m₁) :=
        Act.exec_eq_some.mpr ⟨rfl, hready, rfl, rfl⟩
      obtain ⟨hsafe, hrest⟩ := h m₁ hsame {} _ _ hexec
      have hsteady := ih _ (ht.2 _) hrest hsafe
      exact hsteady.of_same (hsame.trans (sameSlot_after ht.1 {} m₁)) hm

/-- The end of a session is over when nothing more is to be moved. -/
theorem System.EndedBy.between (h : d.EndedBy who) (hover : ¬ Ending (d.code who)) :
    d.Between := by
  have hdone : d.code who = .done () := by
    cases hcode : d.code who with
    | done _ => rfl
    | act a k =>
        have hmoves := h.moves
        rw [hcode] at hmoves
        exact absurd ⟨a, by rw [hcode]; rfl, hmoves.1⟩ hover
  have hsteady : Steady d.state := by
    have hruns := h.runs
    rw [hdone] at hruns
    exact hruns d.state (SameSlot.refl _)
  refine ⟨fun other hother => ?_, Or.inl ⟨hsteady, h.rx⟩⟩
  by_cases heq : other = who
  · rw [heq, hdone]
    trivial
  · exact h.waits other hother heq

/-- A session may be ended when no command is in hand that moves the slot. -/
theorem System.Between.steady (h : d.Between) (hsafe : SlotSafe d.state)
    (hempty : EmptyHanded (d.code .rx)) :
    Steady d.state ∧ Waiting d.provisioning (d.code .rx) := by
  rcases h.rx with hsteady | ⟨hruns, hframe⟩
  · exact hsteady
  · have hstill : Still (d.code .rx) := by
      refine hempty.resolve_right ?_
      rintro ⟨payload, hnext⟩
      cases hcode : d.code .rx with
      | done _ =>
          rw [hcode] at hnext
          cases hnext
      | act a k =>
          rw [hcode] at hnext hframe
          cases hnext
          exact hframe.1 rfl
    exact ⟨steady_of_runs hstill hruns hsafe, Or.inl hstill⟩

/-- An action, as far as the beginnings of sessions are concerned. -/
theorem TransferSafe.exec (h : TransferSafe m) {a : Act} {io : Io} {b : a.Ans}
    (hexec : a.exec io m = some (b, m')) (hslot : SlotSafe m') (hfresh : BeginsFresh m m') :
    TransferSafe m' := by
  obtain ⟨-, -, -, rfl⟩ := Act.exec_eq_some.mp hexec
  refine ⟨hslot, fun v hv => ?_⟩
  rcases List.mem_append.mp hv with hv | hv
  · exact h.fresh v hv
  · obtain ⟨rfl, rfl⟩ := Prod.mk.inj (List.mem_singleton.mp hv)
    have hnone : m.vars.sessionActive = false := hfresh m.vars rfl
    refine Bool.eq_false_iff.mpr fun hactive => ?_
    exact absurd ((h.active_in_session hactive).symm.trans hnone) nofun

end Steps

/-- The system behind a step of a task. -/
abbrev System.next (d : System) (who : Party) (m : State) (t : Code Unit) : System :=
  { d with state := m, code := Function.update d.code who t }

section Acts

variable {d : System} {who : Party} {io : Io} {a : Act} {k : a.Ans → Code Unit} {b : a.Ans}
  {m : State}

theorem System.next_self (d : System) (who : Party) (m : State) (t : Code Unit) :
    (d.next who m t).code who = t := Function.update_self ..

theorem System.next_of_ne (d : System) {who other : Party} (h : other ≠ who) (m : State)
    (t : Code Unit) : (d.next who m t).code other = d.code other := Function.update_of_ne h ..

theorem sameSlot_exec (hexec : a.exec io d.state = some (b, m)) (ha : a.moves = false) :
    SameSlot d.state m := by
  obtain ⟨-, -, -, rfl⟩ := Act.exec_eq_some.mp hexec
  exact sameSlot_after ha io d.state

/-- The receive task goes on while nobody ends the session. -/
theorem System.Between.rx_act (h : d.Between) (hcode : d.code .rx = .act a k)
    (hexec : a.exec io d.state = some (b, m)) :
    SlotSafe m ∧ (d.next .rx m (k b)).Between := by
  have hwaits : ∀ who, who ≠ .rx → Waits ((d.next .rx m (k b)).code who) := by
    intro who hwho
    rw [d.next_of_ne hwho]
    exact h.waits who hwho
  rcases h.rx with ⟨hsteady, hstill | ⟨payload, hpayload⟩⟩ | ⟨hruns, hframe⟩
  · rw [hcode] at hstill
    have hm := hsteady.same (sameSlot_exec hexec hstill.1)
    refine ⟨hm.safe, hwaits, Or.inl ⟨hm, Or.inl ?_⟩⟩
    rw [d.next_self]
    exact hstill.2 b
  · cases hcode.symm.trans hpayload
    have hm := hsteady.same (sameSlot_exec hexec rfl)
    refine ⟨hm.safe, hwaits, Or.inr ?_⟩
    rw [d.next_self]
    refine ⟨runs_dispatchCommand_slot d.provisioning payload hm, ?_⟩
    refine uses_dispatchCommand (by decide) (by decide) fun seq cmd _ body _ => ?_
    refine uses_handleCommand (by decide) (fun _ => ?_) (fun _ => by decide) (fun _ => by decide)
      (fun _ => by decide) (fun _ => by decide) (fun _ => by decide) seq body
    exact ⟨by decide, by decide, by decide, by decide, by decide, fun _ => by decide⟩
  · rw [hcode] at hruns hframe
    obtain ⟨hsafe, hrest⟩ := hruns d.state (SameSlot.refl _) io b m hexec
    refine ⟨hsafe, hwaits, Or.inr ?_⟩
    rw [d.next_self]
    exact ⟨hrest, hframe.2 b⟩

/-- Another task goes on while nobody ends the session, or begins to end it. -/
theorem System.Between.other_act (h : d.Between) (hwho : who ≠ .rx)
    (hcode : d.code who = .act a k) (hexec : a.exec io d.state = some (b, m))
    (hsafe : SlotSafe d.state) (hend : d.code who = endSession → EmptyHanded (d.code .rx)) :
    SlotSafe m ∧ ((d.next who m (k b)).Between ∨ (d.next who m (k b)).EndedBy who) := by
  have hwaits : ∀ other, other ≠ .rx → other ≠ who → Waits ((d.next who m (k b)).code other) := by
    intro other hrx hother
    rw [d.next_of_ne hother]
    exact h.waits other hrx
  have hrx : (d.next who m (k b)).code .rx = d.code .rx := d.next_of_ne hwho.symm m (k b)
  have hown : Waits (.act a k) := hcode ▸ h.waits who hwho
  rcases hown with hsession | ⟨hstill, hrest⟩
  · obtain ⟨hsteady, hwaiting⟩ := h.steady hsafe (hend (hcode.trans hsession))
    obtain ⟨k', hsession', hmoves⟩ := endSession_moves
    have hruns : RunsSteady endSession d.state :=
      Task.Runs.conseq (runs_endSession hsteady) (fun _ _ h => h) (fun _ _ h => h)
        fun _ _ h => Or.inl h
    rw [← hsession] at hruns hsession'
    cases hsession'
    obtain ⟨hm, hruns'⟩ := hruns d.state (SameSlot.refl _) io b m hexec
    refine ⟨hm, Or.inr ⟨?_, ?_, hwaits, by rw [hrx]; exact hwaiting⟩⟩
    · rw [d.next_self]
      exact hruns'
    · rw [d.next_self]
      exact hmoves b
  · have hsame := sameSlot_exec hexec hstill
    refine ⟨hsafe.same hsame, Or.inl ⟨fun other hother => ?_, ?_⟩⟩
    · by_cases heq : other = who
      · subst heq
        rw [d.next_self]
        exact hrest b
      · exact hwaits other hother heq
    · rw [hrx]
      refine h.rx.imp (fun hsteady => ⟨hsteady.1.same hsame, hsteady.2⟩) fun hruns => ?_
      exact ⟨hruns.1.rely (fun _ _ _ => SameSlot.trans) hsame, hruns.2⟩

theorem System.EndedBy.own_act (h : d.EndedBy who) (hwho : who ≠ .rx)
    (hcode : d.code who = .act a k) (hexec : a.exec io d.state = some (b, m)) :
    SlotSafe m ∧ (d.next who m (k b)).EndedBy who := by
  have hruns := h.runs
  have hmoves := h.moves
  rw [hcode] at hruns hmoves
  obtain ⟨hsafe, hrest⟩ := hruns d.state (SameSlot.refl _) io b m hexec
  refine ⟨hsafe, ?_, ?_, fun other hrx hother => ?_, ?_⟩
  · rw [d.next_self]
    exact hrest
  · rw [d.next_self]
    exact hmoves.2 b
  · rw [d.next_of_ne hother]
    exact h.waits other hrx hother
  · rw [d.next_of_ne hwho.symm]
    exact h.rx

/-- While a task ends the session, the others leave the slot alone. -/
theorem System.EndedBy.still_act (h : d.EndedBy who) {other : Party} (hother : other ≠ who)
    (hcode : d.code other = .act a k) (hexec : a.exec io d.state = some (b, m))
    (hsafe : SlotSafe d.state) (ha : a.moves = false)
    (hrest : if other = .rx then Still (k b) else Waits (k b)) :
    SlotSafe m ∧ (d.next other m (k b)).EndedBy who := by
  have hsame := sameSlot_exec hexec ha
  refine ⟨hsafe.same hsame, ?_, ?_, fun third hrx hthird => ?_, ?_⟩
  · rw [d.next_of_ne hother.symm]
    exact h.runs.rely (fun _ _ _ => SameSlot.trans) hsame
  · rw [d.next_of_ne hother.symm]
    exact h.moves
  · by_cases heq : third = other
    · subst heq
      rw [d.next_self]
      rwa [if_neg hrx] at hrest
    · rw [d.next_of_ne heq]
      exact h.waits third hrx hthird
  · by_cases heq : other = .rx
    · subst heq
      rw [if_pos rfl] at hrest
      rw [d.next_self]
      exact Or.inl hrest
    · rw [d.next_of_ne (Ne.symm heq)]
      exact h.rx

theorem TransfersApart.alone (h : TransfersApart d (.act who io)) (hwho : who ≠ .rx)
    (hend : d.code who = endSession) : EmptyHanded (d.code .rx) ∧
      ∀ other, other ≠ .rx → other ≠ who → ¬ Ending (d.code other) := by
  cases who with
  | rx => exact absurd rfl hwho
  | timer =>
      obtain ⟨hempty, hmain⟩ := h hend
      refine ⟨hempty, fun other hrx hother => ?_⟩
      cases other with
      | rx => exact absurd rfl hrx
      | timer => exact absurd rfl hother
      | main => exact hmain
  | main =>
      obtain ⟨hempty, htimer⟩ := h hend
      refine ⟨hempty, fun other hrx hother => ?_⟩
      cases other with
      | rx => exact absurd rfl hrx
      | timer => exact htimer
      | main => exact absurd rfl hother

theorem System.Transfers.rx_slot (h : d.Transfers) (hstep : TransfersApart d (.act .rx io))
    (hcode : d.code .rx = .act a k) (hexec : a.exec io d.state = some (b, m)) :
    SlotSafe m ∧ ((d.next .rx m (k b)).Between ∨
      ∃ who, who ≠ .rx ∧ (d.next .rx m (k b)).EndedBy who) := by
  have hbetween : d.Between → SlotSafe m ∧ ((d.next .rx m (k b)).Between ∨
      ∃ who, who ≠ .rx ∧ (d.next .rx m (k b)).EndedBy who) :=
    fun hbetween => (hbetween.rx_act hcode hexec).imp id Or.inl
  rcases h.slot with hslot | ⟨who, hwho, hended⟩
  · exact hbetween hslot
  · rcases hstep with hstill | ⟨htimer, hmain⟩
    · rw [hcode] at hstill
      have hrest : if Party.rx = .rx then Still (k b) else Waits (k b) := hstill.2 b
      obtain ⟨hm, hended'⟩ :=
        hended.still_act hwho.symm hcode hexec h.safe.toSlotSafe hstill.1 hrest
      exact ⟨hm, Or.inr ⟨who, hwho, hended'⟩⟩
    · refine hbetween (hended.between ?_)
      cases who with
      | rx => exact absurd rfl hwho
      | timer => exact htimer
      | main => exact hmain

theorem System.Transfers.other_slot (h : d.Transfers) (hwho : who ≠ .rx)
    (hstep : TransfersApart d (.act who io)) (hcode : d.code who = .act a k)
    (hexec : a.exec io d.state = some (b, m)) :
    SlotSafe m ∧ ((d.next who m (k b)).Between ∨
      ∃ ender, ender ≠ .rx ∧ (d.next who m (k b)).EndedBy ender) := by
  have hbetween : d.Between → SlotSafe m ∧ ((d.next who m (k b)).Between ∨
      ∃ ender, ender ≠ .rx ∧ (d.next who m (k b)).EndedBy ender) := by
    intro hbetween
    obtain ⟨hm, hslot⟩ := hbetween.other_act hwho hcode hexec h.safe.toSlotSafe
      fun hend => (hstep.alone hwho hend).1
    exact ⟨hm, hslot.imp id fun hended => ⟨who, hwho, hended⟩⟩
  rcases h.slot with hslot | ⟨ender, hender, hended⟩
  · exact hbetween hslot
  by_cases heq : who = ender
  · subst heq
    obtain ⟨hm, hended'⟩ := hended.own_act hwho hcode hexec
    exact ⟨hm, Or.inr ⟨who, hwho, hended'⟩⟩
  · have hown : Waits (.act a k) := hcode ▸ hended.waits who hwho heq
    rcases hown with hsession | ⟨hstill, hrest⟩
    · -- one end of a session waits for the other
      have hover := (hstep.alone hwho (hcode.trans hsession)).2 ender hender (Ne.symm heq)
      exact hbetween (hended.between hover)
    · have hrest' : if who = .rx then Still (k b) else Waits (k b) := by
        rw [if_neg hwho]
        exact hrest b
      obtain ⟨hm, hended'⟩ := hended.still_act heq hcode hexec h.safe.toSlotSafe hstill hrest'
      exact ⟨hm, Or.inr ⟨ender, hender, hended'⟩⟩

theorem System.Transfers.act (h : d.Transfers) (hstep : TransfersApart d (.act who io))
    (hcode : d.code who = .act a k) (hexec : a.exec io d.state = some (b, m)) :
    (d.next who m (k b)).Transfers := by
  by_cases hwho : who = .rx
  · subst hwho
    obtain ⟨hm, hslot⟩ := h.rx_slot hstep hcode hexec
    have hfresh : BeginsFresh d.state m ∧
        (Unopening (k b) ∨ RunsFresh (fun _ _ => True) (k b) m) := by
      rcases hcode ▸ h.fresh with hunopening | hruns
      · exact ⟨beginsFresh_exec hexec (Or.inl hunopening.1), Or.inl (hunopening.2 b)⟩
      · exact (hruns d.state (fun h => h) io b m hexec).imp id Or.inr
    refine ⟨h.safe.exec hexec hm hfresh.1, ?_, fun other hother => ?_, hslot⟩
    · rw [d.next_self]
      exact hfresh.2
    · rw [d.next_of_ne hother]
      exact h.unopening other hother
  · obtain ⟨hm, hslot⟩ := h.other_slot hwho hstep hcode hexec
    have hunopening : Unopening (.act a k) := hcode ▸ h.unopening who hwho
    have hnone : NoSession d.state m := by
      obtain ⟨-, -, -, rfl⟩ := Act.exec_eq_some.mp hexec
      exact sessionActive_stays hunopening.1 io
    refine ⟨h.safe.exec hexec hm (beginsFresh_exec hexec (Or.inl hunopening.1)), ?_,
      fun other hother => ?_, hslot⟩
    · rw [d.next_of_ne (Ne.symm hwho)]
      exact h.fresh.imp id fun hruns => hruns.rely (fun _ _ _ h₁ h₂ h => h₂ (h₁ h)) hnone
    · by_cases heq : other = who
      · subst heq
        rw [d.next_self]
        exact hunopening.2 b
      · rw [d.next_of_ne heq]
        exact h.unopening other hother

theorem System.Transfers.start (h : d.Transfers) {step : Step} {t : Code Unit}
    (hstarts : step.starts d = some (who, t)) (hdone : d.code who = .done ()) :
    (d.next who d.state t).Transfers := by
  have hbegin : (who = .rx ∧ (∃ payload, t = rxFrame d.provisioning payload)) ∨
      (who ≠ .rx ∧ Waits t ∧ Unopening t) := by
    refine Step.starts_cases (P := fun who t => (who = .rx ∧
      (∃ payload, t = rxFrame d.provisioning payload)) ∨ (who ≠ .rx ∧ Waits t ∧ Unopening t))
      hstarts (fun payload => ?_) ?_ (fun action => ?_) fun screen => ?_
    · exact Or.inl ⟨rfl, payload, rfl⟩
    · exact Or.inr ⟨nofun, waits_timerFired, uses_call (by decide) fun _ =>
        uses_endSession (by decide) (by decide) (by decide)⟩
    · exact Or.inr ⟨nofun, waits_takeKey action, uses_takeKey (S := (· ≠ .opening)) (by decide)
        (by decide) (by decide) (by decide) (by decide) (by decide) (by decide) action⟩
    · exact Or.inr ⟨nofun, waits_appTurn screen, uses_appTurn (S := (· ≠ .opening)) (by decide)
        (by decide) (by decide) (by decide) (by decide) screen⟩
  have hover : ¬ Ending (d.code who) := by
    rintro ⟨a, hnext, -⟩
    rw [hdone] at hnext
    cases hnext
  rcases hbegin with ⟨rfl, payload, rfl⟩ | ⟨hwho, hwaits, hunopening⟩
  · have hwaiting : Waiting d.provisioning
        ((d.next .rx d.state (rxFrame d.provisioning payload)).code .rx) := by
      rw [d.next_self]
      exact Or.inr ⟨payload, rfl⟩
    refine ⟨h.safe, Or.inr ?_, fun other hother => ?_, ?_⟩
    · rw [d.next_self]
      exact runs_rxFrame_of (fun hexec ha => beginsFresh_exec hexec (Or.inl ha)) (fun _ h => h)
        (runs_handleSessionStart_fresh d.provisioning) payload d.state
    · rw [d.next_of_ne hother]
      exact h.unopening other hother
    rcases h.slot with hbetween | ⟨who, hwho, hended⟩
    · obtain ⟨hsteady, -⟩ := hbetween.steady h.safe.toSlotSafe (Or.inl (hdone ▸ trivial))
      refine Or.inl ⟨fun other hother => ?_, Or.inl ⟨hsteady, hwaiting⟩⟩
      rw [d.next_of_ne hother]
      exact hbetween.waits other hother
    · refine Or.inr ⟨who, hwho, ?_, ?_, fun other hrx hother => ?_, hwaiting⟩
      · rw [d.next_of_ne hwho]
        exact hended.runs
      · rw [d.next_of_ne hwho]
        exact hended.moves
      · rw [d.next_of_ne hrx]
        exact hended.waits other hrx hother
  · have hrx : (d.next who d.state t).code .rx = d.code .rx := d.next_of_ne (Ne.symm hwho) ..
    have hbetween : d.Between → (d.next who d.state t).Between := by
      refine fun hbetween => ⟨fun other hother => ?_, by rw [hrx]; exact hbetween.rx⟩
      by_cases heq : other = who
      · subst heq
        rw [d.next_self]
        exact hwaits
      · rw [d.next_of_ne heq]
        exact hbetween.waits other hother
    refine ⟨h.safe, by rw [hrx]; exact h.fresh, fun other hother => ?_, ?_⟩
    · by_cases heq : other = who
      · subst heq
        rw [d.next_self]
        exact hunopening
      · rw [d.next_of_ne heq]
        exact h.unopening other hother
    rcases h.slot with hslot | ⟨ender, hender, hended⟩
    · exact Or.inl (hbetween hslot)
    by_cases heq : ender = who
    · subst heq
      exact Or.inl (hbetween (hended.between hover))
    · refine Or.inr ⟨ender, hender, ?_, ?_, fun other hrx' hother => ?_,
        by rw [hrx]; exact hended.rx⟩
      · rw [d.next_of_ne heq]
        exact hended.runs
      · rw [d.next_of_ne heq]
        exact hended.moves
      · by_cases hsame : other = who
        · subst hsame
          rw [d.next_self]
          exact hwaits
        · rw [d.next_of_ne hsame]
          exact hended.waits other hrx' hother

end Acts

theorem systemStep_transfers {d : System} (h : d.Transfers) (step : Step)
    (hstep : TransfersApart d step) : (systemStep d step).1.Transfers := by
  rcases systemStep_cases d step with heq | ⟨who, t, hstarts, hdone, heq⟩ |
    ⟨who, io, a, k, b, m, rfl, hcode, hexec, heq⟩
  · rwa [heq]
  · rw [heq]
    exact h.start hstarts hdone
  · rw [heq]
    exact h.act hstep hcode hexec

/-- When all tasks are at rest, every FILE but that of an active transfer has been closed. -/
theorem System.Transfers.leftless {d : System} (h : d.Transfers)
    (hrest : ∀ who, d.code who = .done ()) : Leftless d.state := by
  have hover : ∀ who, ¬ Ending (d.code who) := by
    rintro who ⟨a, hnext, -⟩
    rw [hrest who] at hnext
    cases hnext
  have hbetween : d.Between := by
    rcases h.slot with hbetween | ⟨who, -, hended⟩
    · exact hbetween
    · exact hended.between (hover who)
  have hempty : EmptyHanded (d.code .rx) := Or.inl (hrest .rx ▸ trivial)
  exact (hbetween.steady h.safe.toSlotSafe hempty).1.leftless

theorem System.boot_transfers (provisioning : Bool) : (System.boot provisioning).Transfers := by
  have hempty : SlotAt .empty (System.boot provisioning).state := by
    refine ⟨fun n => iff_of_false ?_ nofun, rfl, nofun, nofun, List.Pairwise.nil,
      fun c hc => absurd hc List.not_mem_nil⟩
    exact fun hopen => absurd hopen.1 (Nat.not_lt_zero n)
  refine ⟨⟨hempty.safe, fun v hv => absurd hv List.not_mem_nil⟩, Or.inl trivial,
    fun _ _ => trivial, Or.inl ?_⟩
  exact ⟨fun _ _ => trivial, Or.inl ⟨Or.inl hempty, Or.inl trivial⟩⟩

/-- In every run in which no end of a session overlaps with a command that moves the transfer
slot, a transfer is active only in its session, and its FILE is the only one that is open;
every FILE is closed at most once, and has been closed when everybody is at rest, unless it is
that of the active transfer. -/
theorem transfers_safe (provisioning : Bool) (steps : List Step)
    (h : Along systemStep TransfersApart (System.boot provisioning) steps) :
    TransferSafe (run systemStep (System.boot provisioning) steps).state ∧
      ((∀ who, (run systemStep (System.boot provisioning) steps).code who = .done ()) →
        Leftless (run systemStep (System.boot provisioning) steps).state) := by
  have hrun := h.invariant (fun d step hd hstep => systemStep_transfers hd step hstep)
    (System.boot_transfers provisioning)
  exact ⟨hrun.safe, hrun.leftless⟩

/-- Only one task has something to do. -/
def oneAtATime (d : System) : Step → Bool
  | .act who _ => [Party.rx, .timer, .main].all fun other => other = who || (d.code other).isDone
  | _ => true

theorem transfersApart_of_oneAtATime (d : System) (step : Step)
    (h : oneAtATime d step = true) : TransfersApart d step := by
  cases step with
  | act who io =>
      have hdone : ∀ other, other ≠ who → d.code other = .done () := by
        intro other hother
        simp only [oneAtATime, List.all_eq_true, Bool.or_eq_true, decide_eq_true_eq,
          Task.isDone_iff] at h
        exact (h other (by cases other <;> decide)).resolve_left hother
      have hover : ∀ other, other ≠ who → ¬ Ending (d.code other) := by
        rintro other hother ⟨a, hnext, -⟩
        rw [hdone other hother] at hnext
        cases hnext
      have hempty : .rx ≠ who → EmptyHanded (d.code .rx) := fun hrx =>
        Or.inl (hdone .rx hrx ▸ trivial)
      cases who with
      | rx => exact Or.inr ⟨hover .timer nofun, hover .main nofun⟩
      | timer => exact fun _ => ⟨hempty nofun, hover .main nofun⟩
      | main => exact fun _ => ⟨hempty nofun, hover .timer nofun⟩
  | _ => trivial

/-- `UPLOAD_BEGIN` for three bytes of `/sd/a`. -/
def uploadBegin : List UInt8 := [1, SmpCmd.fsUploadBegin, 0, 3, 0, 0, 0] ++ ascii "/sd/a" ++ [0]

/-- A session in which an upload is begun and its bytes are written, and that times out. -/
def uploadAndTimeout : List Step :=
  [.frame [0, SmpCmd.sessionStart, 0, smpProtoVersion]] ++ acts .rx 13 ++ [.frame uploadBegin] ++
    acts .rx 10 ++ [.frame [2, SmpCmd.fsUploadChunk, 0, 0, 0, 0, 1, 2, 3]] ++
    List.replicate 16 (.act .rx { took := 3 }) ++ [.fire] ++ acts .timer 7

theorem transfers_safe_uploadAndTimeout :
    TransferSafe (run systemStep (System.boot true) uploadAndTimeout).state ∧
      Leftless (run systemStep (System.boot true) uploadAndTimeout).state := by
  have halone : Along systemStep (fun d step => oneAtATime d step = true)
      (System.boot true) uploadAndTimeout := by decide
  have hrest : ∀ who, ((run systemStep (System.boot true) uploadAndTimeout).code who).isDone := by
    intro who
    cases who <;> decide
  have hsafe := transfers_safe true uploadAndTimeout (halone.mono transfersApart_of_oneAtATime)
  exact ⟨hsafe.1, hsafe.2 fun who => Task.isDone_iff.mp (hrest who)⟩

/-- A session times out while the file of an upload is about to be opened. -/
def timeoutInBegin : List Step :=
  openSession ++ [.frame uploadBegin] ++ acts .rx 7 ++ [.fire] ++ acts .timer 4 ++ acts .rx 3

/-- The next session, and its first upload. -/
def nextUpload : List Step := openSession ++ [.frame uploadBegin] ++ acts .rx 8

theorem transfer_outlives :
    ¬ TransferSafe (run systemStep (System.boot false) timeoutInBegin).state ∧
      (run systemStep (System.boot false) (timeoutInBegin ++ nextUpload)).state.log.getLast?.map
        Prod.fst = some (.send ⟨1, SmpSt.errTransfer, []⟩) := by
  constructor
  · intro h
    have hsession := h.active_in_session (by decide)
    exact absurd hsession (by decide)
  · decide

end Smp
end JppDos
