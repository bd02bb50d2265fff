import JppDos.Vm.Queue
import Mathlib.Tactic.IntervalCases

/-!
# The request queue over sessions

Runs of the tasks at the request queue over any number of sessions, as long as no
preparation writes between the checks of a call and its critical section.

Main fact:
* `request_after_prepare`: a request of one session that the next one accepts before it is
  started.
-/

namespace JppDos
namespace Vm

open CText Sdk Machine

/-- What the preparing task does to the context. -/
inductive Plan
  | init
  | prepare (config : RuntimeConfig) (valid : runtimeConfigIsValid config = true)

/-- The writes of a plan. -/
def Plan.writes : Plan → List Write
  | .init => initWrites
  | .prepare config _ => prepareWrites config

/-- What a plan leads to. -/
def Plan.target : Plan → Context
  | .init => contextInit
  | .prepare config _ => prepared config

/-- How far a preparation is. Up to its write of the state the calls go on, without an owner
in the end; from then on they are refused. -/
inductive Launching : List Write → Context → Prop
  | idle {context : Context}
      (depth : context.state ≠ .offline →
        context.queueCapacity = context.config.memory.queueDepth) : Launching [] context
  | begun (plan : Plan) {context : Context} : Launching plan.writes context
  | disowned (plan : Plan) {context : Context} (config : context.config = RuntimeConfig.zero) :
      Launching (plan.writes.drop 1) context
  | closed (plan : Plan) {n : Nat} {context : Context} (first : 2 ≤ n)
      (last : n < plan.writes.length) (offline : context.state = .offline)
      (rest : (plan.writes.drop n).foldl Write.apply context = plan.target) :
      Launching (plan.writes.drop n) context

/-- What holds of a call in progress. -/
def Stage.Checked (context : Context) : Stage → Prop
  | .schedule _ request => requestIsValid request = true
  | .owner _ => True
  | .dequeue taskName => context.config.ownerTaskName = some taskName

/-- What every step keeps as long as no preparation writes while a call is in progress. -/
structure Kept (s : System) (out : List Event) : Prop where
  fifo : Fifo out
  launching : Launching s.writes s.context
  bounded : s.context.state ≠ .offline → Bounded s.context
  running : s.context.state = .running →
    accepted s.session out = handedOut s.session out ++ s.context.requests
  waiting : s.context.state = .waitingForBoot →
    accepted s.session out = [] ∧ handedOut s.session out = [] ∧ s.context.queueCount = 0
  later : ∀ session, s.session < session →
    accepted session out = [] ∧ handedOut session out = []
  call : ∀ task call, s.calls task = some call →
    s.context.state = .running ∧ call.session = s.session ∧ call.stage.Checked s.context

theorem Plan.drop_one_cons (plan : Plan) :
    plan.writes = .config RuntimeConfig.zero :: plan.writes.drop 1 := by
  cases plan <;> rfl

theorem Plan.drop_two_cons (plan : Plan) :
    plan.writes.drop 1 = .state .offline :: plan.writes.drop 2 := by
  cases plan <;> rfl

/-- Between its first write of the state and its last one a plan leaves the runtime offline,
and only the last write of a preparation begins a session. -/
theorem Plan.closed_write (plan : Plan) {n : Nat} (first : 2 ≤ n)
    (last : n + 1 < plan.writes.length) {context : Context} (offline : context.state = .offline) :
    (plan.writes[n].apply context).state = .offline ∧
      plan.writes[n] ≠ .state .waitingForBoot := by
  cases plan with
  | init =>
      have hn : n < 6 := Nat.lt_of_succ_lt_succ last
      simp only [Plan.writes]
      interval_cases n <;> simp [initWrites, Write.apply, offline]
  | prepare config valid =>
      have hn : n < 9 := Nat.lt_of_succ_lt_succ last
      simp only [Plan.writes]
      interval_cases n <;> simp [prepareWrites, initWrites, Write.apply, offline]

theorem bounded_prepared {config : RuntimeConfig} (valid : runtimeConfigIsValid config = true) :
    Bounded (prepared config) :=
  ⟨(runtimeConfigIsValid_depth valid).1, Nat.zero_le _, (runtimeConfigIsValid_depth valid).2⟩

/-- Calls that move requests leave a preparation where it is. -/
theorem Launching.moved {writes : List Write} {context context' : Context}
    (h : Launching writes context) (hstate : context.state = .running)
    (hconfig : context'.config = context.config)
    (hcapacity : context'.queueCapacity = context.queueCapacity) : Launching writes context' := by
  cases h with
  | idle depth =>
      exact .idle fun _ => by rw [hconfig, hcapacity, depth (by simp [hstate])]
  | begun plan => exact .begun plan
  | disowned plan config => exact .disowned plan (hconfig.trans config)
  | closed plan first last offline rest => simp [hstate] at offline

/-- With nothing left to write the queue has the configured depth. -/
theorem Launching.depth {context : Context} (h : Launching [] context)
    (hne : context.state ≠ .offline) :
    context.queueCapacity = context.config.memory.queueDepth := by
  generalize hnil : [] = writes at h
  cases h with
  | idle depth => exact depth hne
  | begun plan =>
      rw [plan.drop_one_cons] at hnil
      exact absurd hnil (by simp)
  | disowned plan config =>
      rw [plan.drop_two_cons] at hnil
      exact absurd hnil (by simp)
  | closed plan first last offline rest => exact absurd offline hne

theorem accepted_append (session : Nat) (out new : List Event) :
    accepted session (out ++ new) = accepted session out ++ accepted session new :=
  List.filterMap_append

theorem handedOut_append (session : Nat) (out new : List Event) :
    handedOut session (out ++ new) = handedOut session out ++ handedOut session new :=
  List.filterMap_append

/-- Events that move no request. -/
def Silent (new : List Event) : Prop := ∀ event ∈ new, ∃ task status, event = .returned task status

theorem Silent.moves {new : List Event} (h : Silent new) (session : Nat) :
    accepted session new = [] ∧ handedOut session new = [] := by
  constructor
  · refine List.filterMap_eq_nil_iff.mpr fun event hevent => ?_
    obtain ⟨task, status, rfl⟩ := h event hevent
    rfl
  · refine List.filterMap_eq_nil_iff.mpr fun event hevent => ?_
    obtain ⟨task, status, rfl⟩ := h event hevent
    rfl

theorem Silent.fifo {out new : List Event} (hnew : Silent new) (h : Fifo out) :
    Fifo (out ++ new) where
  proper event hevent := by
    rcases List.mem_append.mp hevent with hold | hevent
    · exact h.proper event hold
    · obtain ⟨task, status, rfl⟩ := hnew event hevent
      trivial
  order session := by
    obtain ⟨haccepted, hhanded⟩ := hnew.moves session
    rw [accepted_append, handedOut_append, haccepted, hhanded, List.append_nil, List.append_nil]
    exact h.order session

section Step

variable {s : System} {out : List Event}

/-- A call that goes on or returns, and moves no request. -/
theorem Kept.silent (h : Kept s out) {new : List Event} (hnew : Silent new)
    {calls : Task → Option Call}
    (hcalls : ∀ task call, calls task = some call →
      s.context.state = .running ∧ call.session = s.session ∧ call.stage.Checked s.context) :
    Kept { s with calls := calls } (out ++ new) where
  fifo := hnew.fifo h.fifo
  launching := h.launching
  bounded := h.bounded
  running hstate := by
    obtain ⟨haccepted, hhanded⟩ := hnew.moves s.session
    rw [accepted_append, handedOut_append, haccepted, hhanded, List.append_nil, List.append_nil]
    exact h.running hstate
  waiting hstate := by
    obtain ⟨haccepted, hhanded⟩ := hnew.moves s.session
    rw [accepted_append, handedOut_append, haccepted, hhanded, List.append_nil, List.append_nil]
    exact h.waiting hstate
  later session hsession := by
    obtain ⟨haccepted, hhanded⟩ := hnew.moves session
    rw [accepted_append, handedOut_append, haccepted, hhanded, List.append_nil, List.append_nil]
    exact h.later session hsession
  call := hcalls

theorem Kept.others (h : Kept s out) {task : Task} {other : Task} {call : Call}
    (hcall : Function.update s.calls task none other = some call) :
    s.context.state = .running ∧ call.session = s.session ∧ call.stage.Checked s.context := by
  by_cases heq : other = task
  · subst heq
    rw [Function.update_self] at hcall
    exact absurd hcall (by simp)
  · rw [Function.update_of_ne heq] at hcall
    exact h.call other call hcall

theorem Kept.leave (h : Kept s out) (task : Task) (status : VmStatus) :
    Kept (s.leave task s.context) (out ++ [.returned task status]) :=
  h.silent (fun _ hevent => ⟨task, status, List.mem_singleton.mp hevent⟩) fun _ _ => h.others

theorem Kept.enter (h : Kept s out) {task : Task} {call : Call}
    (hstate : s.context.state = .running) (hsession : call.session = s.session)
    (hchecked : call.stage.Checked s.context) : Kept (s.enter task call) (out ++ []) := by
  refine h.silent (fun _ hevent => absurd hevent List.not_mem_nil) fun other c hc => ?_
  by_cases heq : other = task
  · subst heq
    rw [Function.update_self] at hc
    obtain rfl := Option.some.inj hc
    exact ⟨hstate, hsession, hchecked⟩
  · rw [Function.update_of_ne heq] at hc
    exact h.call other c hc

theorem Kept.accept (h : Kept s out) {task : Task} {call : Call} {taskName : CStr}
    {request : Request} (hcall : s.calls task = some call)
    (hstage : call.stage = .schedule taskName request)
    (hcount : s.context.queueCount < s.context.queueCapacity) :
    Kept
      (s.leave task { s.context with
        queue := s.context.queue.setIfInBounds s.context.insertIndex (request.stored taskName)
        queueCount := s.context.queueCount + 1 })
      (out ++ [.accepted
        { session := s.session
          called := call.session
          state := s.context.state
          index := s.context.insertIndex
          taskName := taskName
          request := request.stored taskName } request, .returned task .ok]) := by
  obtain ⟨hstate, hsession, hchecked⟩ := h.call task call hcall
  rw [hstage] at hchecked
  have hbounded := h.bounded (by simp [hstate])
  obtain ⟨hrequests, hbounded'⟩ := hbounded.scheduled hcount (request.stored taskName)
  refine ⟨⟨?_, ?_⟩, h.launching.moved hstate rfl rfl, fun _ => hbounded', ?_, ?_, ?_, ?_⟩
  · intro event hevent
    rcases List.mem_append.mp hevent with hold | hevent
    · exact h.fifo.proper event hold
    rcases List.mem_cons.mp hevent with rfl | hevent
    · exact ⟨hsession, hstate, hbounded.insertIndex_lt, hchecked, rfl⟩
    · rw [List.mem_singleton.mp hevent]
      trivial
  · intro session
    rw [accepted_append, handedOut_append]
    refine List.IsPrefix.trans ?_ (List.prefix_append _ _)
    simpa [handedOut] using h.fifo.order session
  · intro _
    have haccepted := h.running hstate
    simp only [System.leave, accepted_append, handedOut_append, haccepted, hrequests]
    simp [accepted, handedOut]
  · intro hwaiting
    exact absurd (hstate.symm.trans hwaiting) (by simp)
  · intro session hlater
    obtain ⟨haccepted, hhanded⟩ := h.later session hlater
    have hne : s.session ≠ session := Nat.ne_of_lt hlater
    rw [accepted_append, handedOut_append, haccepted, hhanded]
    simp [accepted, handedOut, hne]
  · intro other c hc
    obtain ⟨hs, hsess, hcheck⟩ := h.others hc
    exact ⟨hs, hsess, by cases hst : c.stage <;> rw [hst] at hcheck <;> exact hcheck⟩

theorem Kept.handOut (h : Kept s out) {task : Task} {call : Call} {taskName : CStr}
    (hcall : s.calls task = some call) (hstage : call.stage = .dequeue taskName)
    (hcount : 0 < s.context.queueCount) :
    Kept
      (s.leave task { s.context with
        queueHead := (s.context.queueHead + 1) % s.context.queueCapacity
        queueCount := s.context.queueCount - 1 })
      (out ++ [.handedOut
        { session := s.session
          called := call.session
          state := s.context.state
          index := s.context.queueHead
          taskName := taskName
          request := s.context.queue[s.context.queueHead]?.getD Request.zero }
        s.context.config.ownerTaskName, .returned task .ok]) := by
  obtain ⟨hstate, hsession, hchecked⟩ := h.call task call hcall
  rw [hstage] at hchecked
  have hbounded := h.bounded (by simp [hstate])
  obtain ⟨hrequests, hbounded'⟩ := hbounded.dequeued hcount
  have haccepted := h.running hstate
  refine ⟨⟨?_, ?_⟩, h.launching.moved hstate rfl rfl, fun _ => hbounded', ?_, ?_, ?_, ?_⟩
  · intro event hevent
    rcases List.mem_append.mp hevent with hold | hevent
    · exact h.fifo.proper event hold
    rcases List.mem_cons.mp hevent with rfl | hevent
    · exact ⟨hsession, hstate, Nat.lt_of_lt_of_le hbounded.head hbounded.capacity, hchecked⟩
    · rw [List.mem_singleton.mp hevent]
      trivial
  · intro session
    rw [accepted_append, handedOut_append]
    by_cases hsame : s.session = session
    · subst hsame
      rw [haccepted, hrequests]
      simp [accepted, handedOut]
    · simpa [accepted, handedOut, hsame] using h.fifo.order session
  · intro _
    simp only [System.leave, accepted_append, handedOut_append, haccepted, hrequests]
    simp [accepted, handedOut]
  · intro hwaiting
    exact absurd (hstate.symm.trans hwaiting) (by simp)
  · intro session hlater
    obtain ⟨hnone, hhanded⟩ := h.later session hlater
    have hne : s.session ≠ session := Nat.ne_of_lt hlater
    rw [accepted_append, handedOut_append, hnone, hhanded]
    simp [accepted, handedOut, hne]
  · intro other c hc
    obtain ⟨hs, hsess, hcheck⟩ := h.others hc
    exact ⟨hs, hsess, by cases hst : c.stage <;> rw [hst] at hcheck <;> exact hcheck⟩

/-- A write of a preparation that leaves the runtime offline. -/
theorem Kept.offline (h : Kept s out) (hquiet : ∀ task, s.calls task = none)
    {writes : List Write} {context : Context} (hoffline : context.state = .offline)
    (hlaunching : Launching writes context) :
    Kept { s with context := context, writes := writes } (out ++ []) := by
  rw [List.append_nil]
  exact
    { fifo := h.fifo
      launching := hlaunching
      bounded := fun hne => absurd hoffline hne
      running := fun hstate => absurd (hoffline.symm.trans hstate) (by simp)
      waiting := fun hstate => absurd (hoffline.symm.trans hstate) (by simp)
      later := h.later
      call := fun task call hcall => absurd (hcall.symm.trans (hquiet task)) (by simp) }

theorem Kept.session (h : Kept s out) (hquiet : ∀ task, s.calls task = none)
    {config : RuntimeConfig} (valid : runtimeConfigIsValid config = true) :
    Kept { s with context := prepared config, writes := [], session := s.session + 1 }
      (out ++ []) := by
  obtain ⟨haccepted, hhanded⟩ := h.later (s.session + 1) (Nat.lt_succ_self _)
  rw [List.append_nil]
  exact
    { fifo := h.fifo
      launching := .idle fun _ => rfl
      bounded := fun _ => bounded_prepared valid
      running := fun hstate => absurd hstate (by simp [prepared])
      waiting := fun _ => ⟨haccepted, hhanded, rfl⟩
      later := fun session hsession => h.later session (Nat.lt_of_succ_lt hsession)
      call := fun task call hcall => absurd (hcall.symm.trans (hquiet task)) (by simp) }

theorem Kept.write (h : Kept s out) (hquiet : ∀ task, s.calls task = none) :
    Kept (step s .write).1 (out ++ (step s .write).2) := by
  cases hwrites : s.writes with
  | nil =>
      simp only [step, hwrites, List.append_nil]
      exact h
  | cons write rest =>
      simp only [step, hwrites]
      have hlaunching := h.launching
      rw [hwrites] at hlaunching
      generalize hplan : write :: rest = writes at hlaunching
      cases hlaunching with
      | idle depth => exact absurd hplan (by simp)
      | begun plan =>
          rw [plan.drop_one_cons] at hplan
          obtain ⟨rfl, rfl⟩ := List.cons.inj hplan
          rw [List.append_nil]
          exact
            { fifo := h.fifo
              launching := .disowned plan rfl
              bounded := fun hne => ⟨(h.bounded hne).head, (h.bounded hne).count,
                (h.bounded hne).capacity⟩
              running := h.running
              waiting := h.waiting
              later := h.later
              call := fun task call hcall => absurd (hcall.symm.trans (hquiet task)) (by simp) }
      | disowned plan config =>
          rw [plan.drop_two_cons] at hplan
          obtain ⟨rfl, rfl⟩ := List.cons.inj hplan
          refine h.offline hquiet rfl (.closed plan (Nat.le_refl 2) ?_ rfl ?_)
          · cases plan <;> simp [Plan.writes, prepareWrites, initWrites]
          · cases plan with
            | init =>
                simp only [Plan.writes, initWrites, Plan.target, contextInit, ← config]
                rfl
            | prepare config valid => rfl
      | @closed plan n context first last offline rest' =>
          rw [List.drop_eq_getElem_cons last] at hplan rest'
          obtain ⟨rfl, rfl⟩ := List.cons.inj hplan
          rw [List.foldl_cons] at rest'
          by_cases hmore : n + 1 < plan.writes.length
          · obtain ⟨hstate, hne⟩ := plan.closed_write first hmore offline
            rw [Write.sessions.eq_2 _ _ hne]
            exact h.offline hquiet hstate (.closed plan (by omega) hmore hstate rest')
          · rw [List.drop_eq_nil_of_le (by omega)] at rest' ⊢
            rw [List.foldl_nil] at rest'
            rw [rest']
            cases plan with
            | init =>
                obtain rfl : n = 6 := by simp [Plan.writes, initWrites] at last hmore; omega
                exact h.offline hquiet rfl (.idle fun hne => absurd rfl hne)
            | prepare config valid =>
                obtain rfl : n = 9 := by
                  simp [Plan.writes, prepareWrites, initWrites] at last hmore
                  omega
                exact h.session hquiet valid

theorem Kept.start (h : Kept s out) (boot : Option BootContext) :
    Kept (step s (.start boot)).1 (out ++ (step s (.start boot)).2) := by
  simp only [step]
  split
  · rwa [List.append_nil]
  rename_i hidle
  have hwrites : s.writes = [] := by simpa using hidle
  rw [List.append_nil]
  cases boot with
  | none => exact h
  | some boot =>
      simp only [runtimeStart]
      split_ifs with hstate hready
      · exact h
      · exact h
      · have hwaiting : s.context.state = .waitingForBoot := by simpa using hstate
        obtain ⟨haccepted, hhanded, hcount⟩ := h.waiting hwaiting
        have hne : s.context.state ≠ .offline := by simp [hwaiting]
        have hlaunching := h.launching
        rw [hwrites] at hlaunching
        exact
          { fifo := h.fifo
            launching := by
              rw [hwrites]
              exact .idle fun _ => hlaunching.depth hne
            bounded := fun _ => ⟨(h.bounded hne).head, (h.bounded hne).count,
              (h.bounded hne).capacity⟩
            running := fun _ => by
              rw [haccepted, hhanded]
              simp [Context.requests, hcount]
            waiting := fun hstate => absurd hstate (by simp)
            later := h.later
            call := fun task call hcall => by
              have := (h.call task call hcall).1
              simp [hwaiting] at this }

theorem Kept.begin (h : Kept s out) (task : Task) {stage : Stage}
    (hstate : s.context.state = .running) (hchecked : stage.Checked s.context) :
    Kept (s.enter task { session := s.session, stage := stage }) (out ++ []) :=
  h.enter hstate rfl hchecked

theorem Kept.refuse (h : Kept s out) (task : Task) (status : VmStatus) :
    Kept s (out ++ [.returned task status]) :=
  h.silent (fun _ hevent => ⟨task, status, List.mem_singleton.mp hevent⟩) h.call

theorem Kept.advance (h : Kept s out) {task : Task} {call : Call}
    (hcall : s.calls task = some call) :
    Kept (advanceCall s task call).1 (out ++ (advanceCall s task call).2) := by
  rw [advanceCall]
  cases hstage : call.stage with
  | schedule taskName request =>
      simp only
      rcases scheduleCritical_cases s.context taskName request with heq | ⟨hcount, heq⟩
      · rw [heq]
        exact h.leave task .queueFull
      · rw [heq]
        exact h.accept hcall hstage hcount
  | owner taskName =>
      obtain ⟨hstate, hsession, -⟩ := h.call task call hcall
      simp only
      split
      · rename_i howner
        exact h.enter hstate hsession (taskCanTouchPythonObjects_owner howner)
      · exact h.leave task .accessDenied
  | dequeue taskName =>
      simp only
      rcases dequeueCritical_cases s.context with heq | ⟨hcount, heq⟩
      · rw [heq]
        exact h.leave task .invalidState
      · rw [heq]
        exact h.handOut hcall hstage hcount

theorem Kept.plan (h : Kept s out) (plan : Plan) :
    Kept { s with writes := plan.writes } (out ++ []) := by
  rw [List.append_nil]
  exact
    { fifo := h.fifo
      launching := .begun plan
      bounded := h.bounded
      running := h.running
      waiting := h.waiting
      later := h.later
      call := h.call }

theorem Kept.step (h : Kept s out) (a : Act) (hquiet : Quiet s a) :
    Kept (step s a).1 (out ++ (Vm.step s a).2) := by
  have hsame : Kept s (out ++ []) := by rwa [List.append_nil]
  cases a with
  | schedule task taskName request =>
      simp only [Vm.step]
      split
      · exact hsame
      split
      · exact h.refuse task _
      · rename_i hchecks
        obtain ⟨hstate, hvalid⟩ := scheduleChecks_ok hchecks
        exact h.begin task hstate hvalid
  | dequeue task taskName =>
      simp only [Vm.step]
      split
      · exact hsame
      split
      · exact h.refuse task _
      · rename_i hchecks
        exact h.begin task (dequeueChecks_ok hchecks) trivial
  | advance task =>
      simp only [Vm.step]
      split
      · exact hsame
      · rename_i hcall
        exact h.advance hcall
  | init =>
      simp only [Vm.step]
      split
      · exact hsame
      · exact h.plan .init
  | prepare config =>
      simp only [Vm.step]
      split
      · exact hsame
      split
      · exact hsame
      split
      · exact hsame
      · rename_i hvalid
        exact h.plan (.prepare _ (by simpa using hvalid))
  | write => exact h.write hquiet
  | start boot => exact h.start boot

end Step

theorem kept_boot : Kept System.boot [] where
  fifo := ⟨fun event hevent => absurd hevent List.not_mem_nil, fun session => List.prefix_refl _⟩
  launching := .idle fun hne => absurd rfl hne
  bounded := fun hne => absurd rfl hne
  running := fun hstate => absurd hstate (by simp [System.boot, contextInit])
  waiting := fun hstate => absurd hstate (by simp [System.boot, contextInit])
  later := fun session _ => ⟨rfl, rfl⟩
  call := fun task call hcall => absurd hcall (by simp [System.boot])

theorem Kept.within {s : System} {out : List Event} (h : Kept s out) : Within s where
  bounded := h.bounded
  depth hne hwrites := by
    have hlaunching := h.launching
    rw [hwrites] at hlaunching
    exact hlaunching.depth hne

/-- In a run in which no preparation writes while a call stands between its checks and its
return, every session hands out the requests that it has accepted once, in order and to its
owner, a call that is refused leaves the context as it was, and the head and the count stay
within the configured depth. -/
theorem requests_fifo (acts : List Act) (h : Along step Quiet System.boot acts) :
    Fifo (outputs step System.boot acts) ∧ Within (run step System.boot acts) ∧
      Along step (fun s a => Refuses s a → (step s a).1.context = s.context)
        System.boot acts := by
  have hkept : Kept (run step System.boot acts) ([] ++ outputs step System.boot acts) :=
    Along.monitor (I := Kept) (fun s a out hk hq => hk.step a hq) h kept_boot
  rw [List.nil_append] at hkept
  exact ⟨hkept.fifo, hkept.within, Along.mono (fun s a _ => step_unchanged) h⟩

/-- A launch of the game. -/
def launchActs : List Act :=
  .prepare (some (launchConfig (CStr.ofBytes (ascii "/sd/apps/game")))) ::
    List.replicate 10 .write ++
    [.start (some ⟨true, true, true, true, true⟩)]

/-- A key for the game, from the keypad's task. -/
def keyAct : Act :=
  .schedule 1 (some (CStr.ofBytes (ascii "keypad")))
    (some { Request.zero with kind := .action, appId := CStr.ofBytes (ascii "game") })

/-- The app takes a request out. -/
def takeActs : List Act :=
  [.dequeue 0 (some (CStr.ofBytes (ascii "sd_app"))), .advance 0, .advance 0]

theorem step_calls {s : System} {a : Act} (h : ¬ a.OfCall) : (step s a).1.calls = s.calls := by
  cases a with
  | schedule | dequeue | advance => exact absurd trivial h
  | init => simp only [step]; split <;> rfl
  | prepare config => simp only [step]; split_ifs <;> [rfl; (split; rfl; split <;> rfl)]
  | write => simp only [step]; split <;> rfl
  | start boot => simp only [step]; split <;> rfl

theorem along_quiet {s : System} {acts : List Act} (hcalls : ∀ task, s.calls task = none)
    (hacts : ∀ a ∈ acts, ¬ a.OfCall) : Along step Quiet s acts := by
  induction acts generalizing s with
  | nil => trivial
  | cons a acts ih =>
      refine ⟨?_, ih ?_ fun b hb => hacts b (List.mem_cons_of_mem a hb)⟩
      · cases a with
        | write => exact hcalls
        | _ => trivial
      · rw [step_calls (hacts a List.mem_cons_self)]
        exact hcalls

/-- A key that the game takes. -/
theorem requests_fifo_key :
    Fifo (outputs step System.boot (launchActs ++ keyAct :: .advance 1 :: takeActs)) ∧
      Within (run step System.boot (launchActs ++ keyAct :: .advance 1 :: takeActs)) ∧
      Along step (fun s a => Refuses s a → (step s a).1.context = s.context)
        System.boot (launchActs ++ keyAct :: .advance 1 :: takeActs) := by
  refine requests_fifo _ ((along_append _ _ _).mpr ⟨along_quiet (fun _ => rfl) ?_, ?_⟩)
  · intro a ha
    simp only [launchActs, List.cons_append, List.mem_cons, List.mem_append, List.mem_replicate,
      List.not_mem_nil, or_false] at ha
    rcases ha with rfl | ⟨-, rfl⟩ | rfl <;> exact id
  · exact ⟨trivial, trivial, trivial, trivial, trivial, trivial⟩

/-- A request was accepted before the runtime was started. -/
def acceptedEarly : Event → Bool
  | .accepted transfer _ => transfer.state = .waitingForBoot
  | _ => false

/-- The key is on its way into the queue of one session when the next one is prepared: the
queue accepts it before that session is started, and hands it out there. -/
theorem request_after_prepare :
    ¬ ∀ acts : List Act,
      Fifo (outputs step System.boot acts) ∧ Within (run step System.boot acts) ∧
        Along step (fun s a => Refuses s a → (step s a).1.context = s.context)
          System.boot acts := by
  intro h
  obtain ⟨hfifo, -⟩ := h (launchActs ++ keyAct :: launchActs.take 11 ++ [.advance 1])
  have hbad : (outputs step System.boot
      (launchActs ++ keyAct :: launchActs.take 11 ++ [.advance 1])).any acceptedEarly = true := by
    decide
  obtain ⟨event, hmem, hevent⟩ := List.any_eq_true.mp hbad
  have hproper := hfifo.proper event hmem
  cases event with
  | accepted transfer passed =>
      have hstate : transfer.state = .waitingForBoot := by simpa [acceptedEarly] using hevent
      exact absurd (hproper.2.1.symm.trans hstate) (by simp)
  | handedOut transfer owner => exact absurd hevent (by simp [acceptedEarly])
  | returned task status => exact absurd hevent (by simp [acceptedEarly])

end Vm
end JppDos
