import JppDos.Lib.Machine
import JppDos.Lib.Ring
import JppDos.Vm.Session

/-!
# The request queue

The tasks that queue requests for an app, the task that takes them out, and the one that
prepares and starts the next session, with every order of their steps.  A call checks its
arguments and the state, and only then enters the critical section that the other calls
enter too; the preparation of a session writes the context outside of it.

Main fact:
* `step_unchanged`: a call that is refused leaves the context as it was.
-/

namespace JppDos
namespace Vm

open CText Sdk

/-- `jpp_vm_request_targets_sd_app`. -/
def requestTargetsSdApp (request : Request) : Bool :=
  match request.kind with
  | .startup | .idle | .importModule | .action => vmAppIdIsValid request.appId
  | .none | .other _ => false

/-- `jpp_vm_request_is_valid`. -/
def requestIsValid (request : Request) : Bool :=
  if !requestTargetsSdApp request then false
  else if request.kind = .importModule then
    if request.moduleName.val = [] then false
    else
      match request.importSource with
      | .other _ => false
      | _ => true
  else true

/-- The part of `jpp_vm_schedule_request` in front of its critical section; `none` is the
null pointer. -/
def scheduleChecks (context : Context) (taskName : Option CStr) (request : Option Request) :
    Except VmStatus (CStr × Request) :=
  match taskName, request with
  | some taskName, some request =>
      if taskName.val = [] then .error .invalidArgument
      else if context.state ≠ .running then .error .invalidState
      else if !requestIsValid request then .error .appNotAllowed
      else .ok (taskName, request)
  | _, _ => .error .invalidArgument

/-- The slot that the next request goes to. -/
def Context.insertIndex (context : Context) : Nat :=
  (context.queueHead + context.queueCount) % context.queueCapacity

/-- What the queue keeps of a request. -/
def Request.stored (request : Request) (taskName : CStr) : Request :=
  { request with originTaskName := taskName.strncpy taskNameMax }

/-- The critical section of `jpp_vm_schedule_request`. -/
def scheduleCritical (context : Context) (taskName : CStr) (request : Request) :
    VmStatus × Context :=
  if context.queueCount ≥ context.queueCapacity then (.queueFull, context)
  else
    (.ok, { context with
      queue := context.queue.setIfInBounds context.insertIndex (request.stored taskName)
      queueCount := context.queueCount + 1 })

/-- The first checks of `jpp_vm_owner_dequeue_request`, whose callers pass the address of a
request. -/
def dequeueChecks (context : Context) (taskName : Option CStr) : Except VmStatus CStr :=
  match taskName with
  | none => .error .invalidArgument
  | some taskName =>
      if taskName.val = [] then .error .invalidArgument
      else if context.state ≠ .running then .error .invalidState
      else .ok taskName

/-- The critical section of `jpp_vm_owner_dequeue_request`. -/
def dequeueCritical (context : Context) : Option Request × Context :=
  if context.queueCount = 0 then (none, context)
  else
    (some (context.queue[context.queueHead]?.getD Request.zero),
      { context with
        queueHead := (context.queueHead + 1) % context.queueCapacity
        queueCount := context.queueCount - 1 })

/-- A write to the context outside the critical sections. -/
inductive Write
  | config (config : RuntimeConfig)
  | state (state : VmState)
  | queueCapacity (capacity : Nat)
  | queueHead (head : Nat)
  | queueCount (count : Nat)
  | queue (queue : Vector Request queueCapacityMax)

/-- The context after a write. -/
def Write.apply (context : Context) : Write → Context
  | .config value => { context with config := value }
  | .state value => { context with state := value }
  | .queueCapacity value => { context with queueCapacity := value }
  | .queueHead value => { context with queueHead := value }
  | .queueCount value => { context with queueCount := value }
  | .queue value => { context with queue := value }

/-- How many preparations are complete after a write. -/
def Write.sessions (session : Nat) : Write → Nat
  | .state .waitingForBoot => session + 1
  | _ => session

/-- The writes of `jpp_vm_context_init`: the cleared fields in the order of their addresses,
and the state. -/
def initWrites : List Write :=
  [.config RuntimeConfig.zero, .state .offline, .queueCapacity 0, .queueHead 0, .queueCount 0,
    .queue (Vector.replicate queueCapacityMax Request.zero), .state .offline]

/-- The writes of `jpp_vm_runtime_prepare` for a valid configuration. -/
def prepareWrites (config : RuntimeConfig) : List Write :=
  initWrites ++ [.config config, .queueCapacity config.memory.queueDepth, .state .waitingForBoot]

theorem foldl_initWrites (context : Context) :
    initWrites.foldl Write.apply context = contextInit := rfl

theorem foldl_prepareWrites (context : Context) (config : RuntimeConfig) :
    (prepareWrites config).foldl Write.apply context = prepared config := rfl

/-- A task that calls the queue. -/
abbrev Task := Nat

/-- Where a call stands that has begun and not returned. -/
inductive Stage
  /-- In front of the critical section of `jpp_vm_schedule_request`. -/
  | schedule (taskName : CStr) (request : Request)
  /-- In front of the check that the caller of `jpp_vm_owner_dequeue_request` is the owner. -/
  | owner (taskName : CStr)
  /-- In front of the critical section of `jpp_vm_owner_dequeue_request`. -/
  | dequeue (taskName : CStr)
  deriving DecidableEq

/-- A call in progress, with the session in which it found the runtime running. -/
structure Call where
  session : Nat
  stage : Stage
  deriving DecidableEq

/-- The context, and where the tasks stand. -/
structure System where
  context : Context
  /-- What is left of the preparation that is going on. -/
  writes : List Write
  calls : Task → Option Call
  /-- How many preparations are complete. -/
  session : Nat

/-- After power on. -/
def System.boot : System where
  context := contextInit
  writes := []
  calls := fun _ => none
  session := 0

/-- What the tasks do between two points at which they can be switched. -/
inductive Act
  | schedule (task : Task) (taskName : Option CStr) (request : Option Request)
  | dequeue (task : Task) (taskName : Option CStr)
  /-- The next part of the call that the task is in. -/
  | advance (task : Task)
  | init
  | prepare (config : Option RuntimeConfig)
  /-- The next write of the preparation. -/
  | write
  | start (boot : Option BootContext)

/-- One pass of a critical section that moves a request. -/
structure Transfer where
  /-- The session that the context is in. -/
  session : Nat
  /-- The session in which the call found the runtime running. -/
  called : Nat
  state : VmState
  /-- The slot that is read or written. -/
  index : Nat
  taskName : CStr
  /-- What the slot holds. -/
  request : Request

/-- What the calls do that can be seen outside. -/
inductive Event
  /-- `passed` is the request as the caller has it. -/
  | accepted (transfer : Transfer) (passed : Request)
  | handedOut (transfer : Transfer) (owner : Option CStr)
  | returned (task : Task) (status : VmStatus)

/-- The task's call goes on. -/
def System.enter (s : System) (task : Task) (call : Call) : System :=
  { s with calls := Function.update s.calls task (some call) }

/-- The task's call returns. -/
def System.leave (s : System) (task : Task) (context : Context) : System :=
  { s with context := context, calls := Function.update s.calls task none }

/-- The next part of a call. -/
def advanceCall (s : System) (task : Task) (call : Call) : System × List Event :=
  match call.stage with
  | .schedule taskName request =>
      match scheduleCritical s.context taskName request with
      | (.ok, context) =>
          (s.leave task context,
            [.accepted
              { session := s.session
                called := call.session
                state := s.context.state
                index := s.context.insertIndex
                taskName := taskName
                request := request.stored taskName } request,
             .returned task .ok])
      | (status, context) => (s.leave task context, [.returned task status])
  | .owner taskName =>
      if taskCanTouchPythonObjects s.context (some taskName) then
        (s.enter task { call with stage := .dequeue taskName }, [])
      else (s.leave task s.context, [.returned task .accessDenied])
  | .dequeue taskName =>
      match dequeueCritical s.context with
      | (some request, context) =>
          (s.leave task context,
            [.handedOut
              { session := s.session
                called := call.session
                state := s.context.state
                index := s.context.queueHead
                taskName := taskName
                request := request } s.context.config.ownerTaskName,
             .returned task .ok])
      | (none, context) => (s.leave task context, [.returned task .invalidState])

/-- One step of the tasks. A task that is in a call begins no other, and the preparing task
does one thing after the other. -/
def step (s : System) : Act → System × List Event
  | .schedule task taskName request =>
      match s.calls task with
      | some _ => (s, [])
      | none =>
          match scheduleChecks s.context taskName request with
          | .error status => (s, [.returned task status])
          | .ok (taskName, request) =>
              (s.enter task { session := s.session, stage := .schedule taskName request }, [])
  | .dequeue task taskName =>
      match s.calls task with
      | some _ => (s, [])
      | none =>
          match dequeueChecks s.context taskName with
          | .error status => (s, [.returned task status])
          | .ok taskName => (s.enter task { session := s.session, stage := .owner taskName }, [])
  | .advance task =>
      match s.calls task with
      | none => (s, [])
      | some call => advanceCall s task call
  | .init => if s.writes ≠ [] then (s, []) else ({ s with writes := initWrites }, [])
  | .prepare config =>
      if s.writes ≠ [] then (s, [])
      else
        match config with
        | none => (s, [])
        | some config =>
            if !runtimeConfigIsValid config then (s, [])
            else ({ s with writes := prepareWrites config }, [])
  | .write =>
      match s.writes with
      | [] => (s, [])
      | write :: writes =>
          ({ s with
              context := write.apply s.context
              writes := writes
              session := write.sessions s.session }, [])
  | .start boot =>
      if s.writes ≠ [] then (s, []) else ({ s with context := (runtimeStart s.context boot).2 }, [])

/-- The requests that a session has accepted, as its queue keeps them. -/
def accepted (session : Nat) (out : List Event) : List Request :=
  out.filterMap fun event =>
    match event with
    | .accepted transfer _ =>
        if transfer.session = session then some transfer.request else none
    | _ => none

/-- The requests that a session has handed out. -/
def handedOut (session : Nat) (out : List Event) : List Request :=
  out.filterMap fun event =>
    match event with
    | .handedOut transfer _ =>
        if transfer.session = session then some transfer.request else none
    | _ => none

/-- The session that found the runtime running moves the request, in a slot of the array: a
valid one with the cut name of its task goes in, and the owner takes it out. -/
def Event.Proper : Event → Prop
  | .accepted transfer passed =>
      transfer.called = transfer.session ∧ transfer.state = .running ∧
        transfer.index < queueCapacityMax ∧ requestIsValid passed = true ∧
        transfer.request = passed.stored transfer.taskName
  | .handedOut transfer owner =>
      transfer.called = transfer.session ∧ transfer.state = .running ∧
        transfer.index < queueCapacityMax ∧ owner = some transfer.taskName
  | .returned _ _ => True

/-- Every session hands out what it has accepted, once and in order. -/
structure Fifo (out : List Event) : Prop where
  proper : ∀ event ∈ out, event.Proper
  order : ∀ session, handedOut session out <+: accepted session out

/-- The head and the count of a queue. -/
structure Bounded (context : Context) : Prop where
  head : context.queueHead < context.queueCapacity
  count : context.queueCount ≤ context.queueCapacity
  capacity : context.queueCapacity ≤ queueCapacityMax

/-- From a preparation on, the head and the count stay within the configured depth. -/
structure Within (s : System) : Prop where
  bounded : s.context.state ≠ .offline → Bounded s.context
  depth : s.context.state ≠ .offline → s.writes = [] →
    s.context.queueCapacity = s.context.config.memory.queueDepth

/-- A step of a call. -/
def Act.OfCall : Act → Prop
  | .schedule _ _ _ | .dequeue _ _ | .advance _ => True
  | _ => False

/-- A step of a call that moves no request: it goes on, or it is refused. -/
def Refuses (s : System) (a : Act) : Prop :=
  a.OfCall ∧ ∀ event ∈ (step s a).2, ∃ task status,
    event = .returned task status ∧ status ≠ .ok

/-- No preparation writes while a call stands between its checks and its return. -/
def Quiet (s : System) (a : Act) : Prop :=
  match a with
  | .write => ∀ task, s.calls task = none
  | _ => True

/-- The requests in the queue, the next one first. -/
def Context.requests (context : Context) : List Request :=
  Ring.contents context.queue context.queueCapacity context.queueHead context.queueCount

theorem scheduleCritical_cases (context : Context) (taskName : CStr) (request : Request) :
    scheduleCritical context taskName request = (.queueFull, context) ∨
      (context.queueCount < context.queueCapacity ∧
        scheduleCritical context taskName request = (.ok, { context with
          queue := context.queue.setIfInBounds context.insertIndex (request.stored taskName)
          queueCount := context.queueCount + 1 })) := by
  rw [scheduleCritical]
  split
  · exact Or.inl rfl
  · rename_i h
    exact Or.inr ⟨by omega, rfl⟩

theorem dequeueCritical_cases (context : Context) :
    dequeueCritical context = (none, context) ∨
      (0 < context.queueCount ∧ dequeueCritical context =
        (some (context.queue[context.queueHead]?.getD Request.zero), { context with
          queueHead := (context.queueHead + 1) % context.queueCapacity
          queueCount := context.queueCount - 1 })) := by
  rw [dequeueCritical]
  split
  · exact Or.inl rfl
  · rename_i h
    exact Or.inr ⟨by omega, rfl⟩

theorem scheduleChecks_ok {context : Context} {taskName : Option CStr}
    {request : Option Request} {name : CStr} {r : Request}
    (h : scheduleChecks context taskName request = .ok (name, r)) :
    context.state = .running ∧ requestIsValid r = true := by
  unfold scheduleChecks at h
  split at h
  · split_ifs at h with hname hstate hvalid
    obtain ⟨-, rfl⟩ := Prod.mk.inj (Except.ok.inj h)
    exact ⟨by simpa using hstate, by simpa using hvalid⟩
  · exact absurd h (by simp)

theorem dequeueChecks_ok {context : Context} {taskName : Option CStr} {name : CStr}
    (h : dequeueChecks context taskName = .ok name) : context.state = .running := by
  unfold dequeueChecks at h
  split at h
  · exact absurd h (by simp)
  · split_ifs at h with hname hstate
    simpa using hstate

theorem taskCanTouchPythonObjects_owner {context : Context} {taskName : Option CStr}
    (h : taskCanTouchPythonObjects context taskName = true) :
    context.config.ownerTaskName = taskName := by
  rw [taskCanTouchPythonObjects] at h
  split_ifs at h
  exact taskNameMatches_eq h

section Ring

variable {context : Context} (h : Bounded context)
include h

theorem Bounded.insertIndex_lt : context.insertIndex < queueCapacityMax :=
  Nat.lt_of_lt_of_le (Nat.mod_lt _ (by have := h.head; omega)) h.capacity

/-- A request that is accepted is the last one in the queue. -/
theorem Bounded.scheduled (hcount : context.queueCount < context.queueCapacity) (r : Request) :
    Context.requests { context with
        queue := context.queue.setIfInBounds context.insertIndex r
        queueCount := context.queueCount + 1 } = context.requests ++ [r] ∧
      Bounded { context with
        queue := context.queue.setIfInBounds context.insertIndex r
        queueCount := context.queueCount + 1 } :=
  ⟨Ring.contents_push r h.capacity hcount, ⟨h.head, hcount, h.capacity⟩⟩

/-- A request that is handed out is the first one in the queue. -/
theorem Bounded.dequeued (hcount : 0 < context.queueCount) :
    context.requests = context.queue[context.queueHead]?.getD Request.zero ::
        Context.requests { context with
          queueHead := (context.queueHead + 1) % context.queueCapacity
          queueCount := context.queueCount - 1 } ∧
      Bounded { context with
        queueHead := (context.queueHead + 1) % context.queueCapacity
        queueCount := context.queueCount - 1 } := by
  have hlt : context.queueHead < queueCapacityMax := Nat.lt_of_lt_of_le h.head h.capacity
  have hfirst : context.queue[context.queueHead]? = some context.queue[context.queueHead] :=
    Vector.getElem?_eq_getElem hlt
  refine ⟨?_, ⟨Nat.mod_lt _ (by have := h.head; omega), by have := h.count; simp only; omega,
    h.capacity⟩⟩
  obtain ⟨count, hsucc⟩ := Nat.exists_eq_add_of_lt hcount
  rw [Context.requests, hsucc, Nat.zero_add, Ring.contents_pop hfirst h.head, hfirst]
  simp only [Context.requests, Nat.add_sub_cancel, Option.getD_some]

end Ring

/-- A call that is refused leaves the context as it was. -/
theorem step_unchanged {s : System} {a : Act} (h : Refuses s a) :
    (step s a).1.context = s.context := by
  obtain ⟨hcall, hevents⟩ := h
  cases a with
  | init | prepare | write | start => exact absurd hcall id
  | schedule task taskName request =>
      simp only [step]
      split
      · rfl
      · split <;> rfl
  | dequeue task taskName =>
      simp only [step]
      split
      · rfl
      · split <;> rfl
  | advance task =>
      simp only [step] at hevents ⊢
      split
      · rfl
      rename_i call hinside
      obtain ⟨session, stage⟩ := call
      simp only [hinside, advanceCall] at hevents ⊢
      cases stage with
      | owner taskName =>
          simp only
          split <;> rfl
      | schedule taskName request =>
          simp only at hevents ⊢
          rcases scheduleCritical_cases s.context taskName request with heq | ⟨-, heq⟩
          · rw [heq]
            rfl
          · rw [heq] at hevents
            obtain ⟨_, _, hbad, -⟩ := hevents _ List.mem_cons_self
            exact absurd hbad (by simp)
      | dequeue taskName =>
          simp only at hevents ⊢
          rcases dequeueCritical_cases s.context with heq | ⟨-, heq⟩
          · rw [heq]
            rfl
          · rw [heq] at hevents
            obtain ⟨_, _, hbad, -⟩ := hevents _ List.mem_cons_self
            exact absurd hbad (by simp)

end Vm
end JppDos
