import JppDos.Lib.Paths
import JppDos.Lib.Tasks
import JppDos.Serial.Device

/-!
# The variables and the actions of the serial manager

The receive task, the session timer and the main loop share the variables of
`jpp_serial_mgr.c`.  What each of them does is a row of actions: it reads or sets variables,
waits at the semaphore of the dialogs, and calls the file system, which may take its time.

Main fact:
* `Act.log_after`, `Act.vars_after`: every action is logged, and only `store` sets variables.
-/

namespace JppDos
namespace Smp

open CText Serial

/-- `jpp_ui_action_t`. -/
inductive Action
  | none
  | up
  | down
  | left
  | right
  | ok
  | back
deriving DecidableEq

/-- `smp_consent_state_t`. -/
inductive ConsentState
  | idle
  | pending
  | backupPending
deriving DecidableEq

/-- The number of an opened FILE, in the order of opening. -/
abbrev FileNo := Nat

/-- `smp_transfer_t`. -/
structure Transfer where
  fp : Option FileNo
  fileSize : UInt32
  crc32 : UInt32
  chunkCount : UInt16
  nextChunk : UInt16
  id : UInt8
  isUpload : Bool
  active : Bool
deriving DecidableEq

/-- The variables of the module, and those of the launcher that it looks at.  Of the context
only counts whether there is one. -/
structure Vars where
  sessionActive : Bool
  consentState : ConsentState
  consentAllowed : Bool
  consentCursor : Nat
  backupConfirmName : List UInt8
  xfer : Transfer
  activeSdkContext : Bool
  sdTask : Bool
  bgRunActive : Bool
  firstSessionDone : Bool
deriving DecidableEq

/-- An assignment. -/
inductive Store
  | sessionActive (value : Bool)
  | consentState (value : ConsentState)
  | consentAllowed (value : Bool)
  | consentCursor (value : Nat)
  | backupConfirmName (value : List UInt8)
  | xfer (value : Transfer)
  | xferClosed
  | xferActive (value : Bool)
  | xferCrc32 (value : UInt32)
  | xferNextChunk (value : UInt16)
  | activeSdkContext (value : Bool)
  | sdTask (value : Bool)
  | bgRunActive (value : Bool)
  | firstSessionDone (value : Bool)
deriving DecidableEq

/-- What an assignment does to the variables. -/
def Store.apply (vars : Vars) : Store → Vars
  | .sessionActive value => { vars with sessionActive := value }
  | .consentState value => { vars with consentState := value }
  | .consentAllowed value => { vars with consentAllowed := value }
  | .consentCursor value => { vars with consentCursor := value }
  | .backupConfirmName value => { vars with backupConfirmName := value }
  | .xfer value => { vars with xfer := value }
  -- `s_xfer.fp = NULL`
  | .xferClosed => { vars with xfer := { vars.xfer with fp := none } }
  | .xferActive value => { vars with xfer := { vars.xfer with active := value } }
  | .xferCrc32 value => { vars with xfer := { vars.xfer with crc32 := value } }
  | .xferNextChunk value => { vars with xfer := { vars.xfer with nextChunk := value } }
  | .activeSdkContext value => { vars with activeSdkContext := value }
  | .sdTask value => { vars with sdTask := value }
  | .bgRunActive value => { vars with bgRunActive := value }
  | .firstSessionDone value => { vars with firstSessionDone := value }

/-- The values of `errno` that the handlers tell apart. -/
inductive Errno
  | noEnt
  | exist
  | other
deriving DecidableEq

/-- `JPP_READ_ERR_OPEN` and `JPP_READ_ERR_SIZE`. -/
inductive ReadError
  | open
  | size
deriving DecidableEq

/-- An entry of a directory, as `readdir` gives it. -/
structure Dirent where
  name : CStr
  isDir : Bool
  noSlash : Paths.slash ∉ name.val

/-- The actions of the tasks. -/
inductive Act
  | receiveFrame (payload : List UInt8)
  | receiveKey (action : Action)
  | load
  | store (s : Store)
  | takeSem
  | giveSem
  | stopTimer
  | startTimer
  | readDir (path : Path)
  | stat (path : Path)
  | mkdir (path : Path)
  | remove (path : Path)
  | rename (src dst : Path)
  | readFile (path : Path)
  | fopen (path : Path) (write : Bool)
  | fileSize (fp : Option FileNo)
  | readAll (fp : Option FileNo)
  | fseek (fp : Option FileNo) (offset : Nat)
  | fread (fp : Option FileNo) (count : Nat)
  | fwrite (fp : Option FileNo) (data : List UInt8)
  | fflush (fp : Option FileNo)
  | fclose (fp : Option FileNo)
  | malloc
  | checkBackup (text : List UInt8)
  | applyBackup (text : List UInt8)
  | restart
  | other (cmd : UInt8) (body : List UInt8)
  | send (reply : Reply)
  | launchApp
  | createTask
  | bgFinished
  | bgOverrun
  | bgDue
  | closeRequested
deriving DecidableEq

/-- What an action answers. -/
def Act.Ans : Act → Type
  | .load => Vars
  | .readDir _ => Option (List Dirent)
  | .stat _ | .fileSize _ => Option Nat
  | .mkdir _ | .remove _ | .rename .. => Option Errno
  | .readFile _ => Except ReadError (List UInt8)
  | .fopen .. => Except Errno FileNo
  | .readAll _ => List UInt8
  | .fread .. => Option (List UInt8)
  | .fwrite .. => Nat
  | .other .. => UInt8 × List UInt8
  | .fseek .. | .malloc | .checkBackup _ | .applyBackup _ | .launchApp | .createTask
  | .bgFinished | .bgOverrun | .bgDue | .closeRequested => Bool
  | .receiveFrame _ | .receiveKey _ | .store _ | .takeSem | .giveSem | .stopTimer
  | .startTimer | .fflush _ | .fclose _ | .restart | .send _ => Unit

/-- The paths that an action hands to the file system. -/
def Act.paths : Act → List Path
  | .readDir path | .stat path | .mkdir path | .remove path | .readFile path
  | .fopen path _ => [path]
  | .rename src dst => [src, dst]
  | _ => []

/-- What the surroundings say to one action: each action looks at one of the fields. -/
structure Io where
  entries : Option (List Dirent) := none
  size : Option Nat := none
  errno : Option Errno := none
  content : Except ReadError (List UInt8) := .ok []
  bytes : Option (List UInt8) := some []
  took : Nat := 0
  yes : Bool := true
  reply : UInt8 × List UInt8 := (SmpSt.ok, [])

/-- The state that the tasks share.  `opened` counts the FILEs that were opened for transfers,
`closings` are the arguments of the calls of `fclose`, and the log has every action with the
variables before it. -/
structure State where
  vars : Vars
  consentSem : Bool
  timerArmed : Bool
  halted : Bool
  opened : Nat
  closings : List (Option FileNo)
  log : List (Act × Vars)
deriving DecidableEq

/-- The answer to an action. -/
def Act.answer (io : Io) (m : State) : (a : Act) → a.Ans
  | .load => m.vars
  | .readDir _ => io.entries
  | .stat _ | .fileSize _ => io.size
  | .mkdir _ | .remove _ | .rename .. => io.errno
  | .readFile _ => io.content
  | .fopen .. =>
      match io.errno with
      | none => .ok m.opened
      | some e => .error e
  | .readAll _ => io.bytes.getD []
  | .fread .. => io.bytes
  | .fwrite .. => io.took
  | .other .. => io.reply
  | .fseek .. | .malloc | .checkBackup _ | .applyBackup _ | .launchApp | .createTask
  | .bgFinished | .bgOverrun | .bgDue | .closeRequested => io.yes
  | .receiveFrame _ | .receiveKey _ | .store _ | .takeSem | .giveSem | .stopTimer
  | .startTimer | .fflush _ | .fclose _ | .restart | .send _ => ()

/-- What an action does, its entry in the log apart. -/
def Act.effect (io : Io) (m : State) : Act → State
  | .store s => { m with vars := s.apply m.vars }
  | .takeSem => { m with consentSem := false }
  | .giveSem => { m with consentSem := true }
  | .stopTimer => { m with timerArmed := false }
  | .startTimer => { m with timerArmed := true }
  | .fopen .. => if io.errno.isNone then { m with opened := m.opened + 1 } else m
  | .fclose fp => { m with closings := m.closings ++ [fp] }
  | .restart => { m with halted := true }
  | _ => m

/-- The state behind an action. -/
def Act.after (io : Io) (m : State) (a : Act) : State :=
  { a.effect io m with log := m.log ++ [(a, m.vars)] }

/-- Whether an action can be performed: `xSemaphoreTake` waits for a token. -/
def Act.ready (m : State) : Act → Bool
  | .takeSem => m.consentSem
  | _ => true

/-- An action is performed.  After `esp_restart` there are none. -/
def Act.exec (a : Act) (io : Io) (m : State) : Option (a.Ans × State) :=
  if m.halted || !a.ready m then none else some (a.answer io m, a.after io m)

/-- What an action that is performed answers and leaves behind. -/
theorem Act.exec_eq_some {a : Act} {io : Io} {m m' : State} {b : a.Ans} :
    a.exec io m = some (b, m') ↔
      m.halted = false ∧ a.ready m = true ∧ b = a.answer io m ∧ m' = a.after io m := by
  rw [Act.exec]
  split
  · rename_i hstop
    simp only [reduceCtorEq, false_iff]
    rintro ⟨hhalted, hready, -, -⟩
    simp [hhalted, hready] at hstop
  · rename_i hgo
    simp only [Bool.or_eq_true, Bool.not_eq_true', not_or, Bool.not_eq_true,
      Bool.not_eq_false] at hgo
    constructor
    · intro h
      obtain ⟨hb, hm⟩ := Prod.mk.inj (Option.some.inj h)
      exact ⟨hgo.1, hgo.2, hb.symm, hm.symm⟩
    · rintro ⟨-, -, rfl, rfl⟩
      rfl

@[simp] theorem Act.log_after (io : Io) (m : State) (a : Act) :
    (a.after io m).log = m.log ++ [(a, m.vars)] := rfl

theorem Act.vars_after (io : Io) (m : State) (a : Act) :
    (a.after io m).vars = match a with
      | .store s => s.apply m.vars
      | _ => m.vars := by
  cases a with
  | fopen path write =>
      simp only [Act.after, Act.effect]
      split <;> rfl
  | _ => rfl

/-- The programs of the tasks. -/
abbrev Code (α : Type) := Task Act Act.Ans α

/-- One action as a program. -/
def call (a : Act) : Code a.Ans := Task.perform a

def load : Code Vars := call .load

def store (s : Store) : Code Unit := call (.store s)

/-- `send_response`, with nothing to follow. -/
def sendResponse (seq status : UInt8) (body : List UInt8) : Code Unit :=
  call (.send ⟨seq, status, body⟩)

/-- `send_err`. -/
def sendErr (seq status : UInt8) : Code Unit := sendResponse seq status []

end Smp
end JppDos
