import JppDos.Lib.Machine

/-!
# The Wi-Fi station

`jpp_wifi_init.c`: the caller of `init_wifi`, `wifi_connect` and `wifi_disconnect`, the event task
that runs `wifi_event_handler`, and the driver.  The flags are shared without a lock, so every
access of one is a step of its own.  The driver posts its events in order; the event task takes
them off the queue whenever it runs.
-/

namespace JppDos
namespace Wifi

open Machine

/-- `WIFI_MAX_RECONNECT_ATTEMPTS`. -/
def maxReconnectAttempts : Nat := 10

/-- A station event; an address is noted with the number of connect attempts of `wifi_connect` that
had been started when it was obtained. -/
inductive StaEvent where
  | disconnected
  | gotIp (attempt : Nat)
deriving Repr, DecidableEq

/-- Where the event task is in `wifi_event_handler`: what it does next. -/
inductive Task where
  | idle
  | lostClearIp
  | lostReadConnecting
  | lostSetFail
  | lostReadReconnect
  | lostCount
  | lostReconnect
  | gotSetIp (attempt : Nat)
  | gotResetAttempts (attempt : Nat)
  | gotSetReconnect (attempt : Nat)
  | gotReadConnecting (attempt : Nat)
  | gotClearConnecting (attempt : Nat)
  | gotSetConnected (attempt : Nat)
deriving Repr, DecidableEq

/-- Where the caller is: what it does next. -/
inductive Caller where
  | ready
  | initResetAttempts
  | initSetReconnect
  | initConnect
  | connectClearReconnect
  | connectClearConnecting
  | connectResetAttempts
  | connectDisconnect
  | connectClearBits
  | connectSetConnecting
  | connectConnect
  | waiting
  | failClearConnecting (timedOut : Bool)
  | failClearReconnect (timedOut : Bool)
  | failDisconnect
  | leaveClearReconnect
  | leaveClearConnecting
  | leaveResetAttempts
  | leaveClearIp
  | leaveDisconnect
deriving Repr, DecidableEq

/-- What the driver is at: nothing, joining a network, or joined with an address. -/
inductive Link where
  | down
  | joining
  | up
deriving Repr, DecidableEq

/-- The statics, the event bits (`WIFI_CONNECTED_BIT` with the note of its address), the driver with
the DISCONNECTED events it still owes, the queue, and the two tasks.  `attempt` counts the connects
of `wifi_connect`; `quiet` says that the last request was to be disconnected, or failed. -/
structure Station where
  started : Bool
  shouldReconnect : Bool
  connecting : Bool
  reconnectAttempts : Nat
  hasIp : Bool
  connectedBit : Option Nat
  failBit : Bool
  link : Link
  owed : Nat
  queue : List StaEvent
  task : Task
  caller : Caller
  attempt : Nat
  quiet : Bool
deriving Repr, DecidableEq

/-- After the boot. -/
def Station.boot : Station :=
  ⟨false, false, false, 0, false, none, false, .down, 0, [], .idle, .ready, 0, false⟩

/-- What the caller is to do: start a call, find that Wi-Fi does not start, go on, or time out. -/
inductive CallerMove where
  | initWifi
  | wifiConnect
  | wifiDisconnect
  | startFails
  | go
  | timeout
deriving Repr, DecidableEq

/-- What the driver does on its own: it posts the DISCONNECTED it owes, gets an address, loses the
network or does not get in, or gets another address. -/
inductive RadioMove where
  | leave
  | join
  | drop
  | renew
deriving Repr, DecidableEq

inductive Act where
  | caller (move : CallerMove)
  | event
  | radio (move : RadioMove)
deriving Repr, DecidableEq

/-- What is seen of a step: a call of `esp_wifi_connect`, and what `wifi_connect` returns. -/
inductive Output where
  | espWifiConnect
  | connectReturns (ok : Bool)
deriving Repr, DecidableEq

namespace Station

/-- `esp_wifi_connect`. -/
def espConnect (s : Station) : Station :=
  { s with link := if s.link = .down then .joining else s.link }

/-- `esp_wifi_disconnect`. -/
def espDisconnect (s : Station) : Station :=
  { s with link := .down, owed := if s.link = .down then s.owed else s.owed + 1 }

/-- One access of `wifi_event_handler`. -/
def event (s : Station) : Station × List Output :=
  match s.task with
  | .idle =>
      match s.queue with
      | [] => (s, [])
      | .disconnected :: queue => ({ s with queue := queue, task := .lostClearIp }, [])
      | .gotIp n :: queue => ({ s with queue := queue, task := .gotSetIp n }, [])
  | .lostClearIp => ({ s with hasIp := false, task := .lostReadConnecting }, [])
  | .lostReadConnecting =>
      ({ s with task := if s.connecting then .lostSetFail else .lostReadReconnect }, [])
  | .lostSetFail => ({ s with failBit := true, task := .idle }, [])
  | .lostReadReconnect => ({ s with task := if s.shouldReconnect then .lostCount else .idle }, [])
  | .lostCount =>
      if s.reconnectAttempts + 1 ≥ maxReconnectAttempts then
        ({ s with shouldReconnect := false, reconnectAttempts := 0, task := .idle }, [])
      else ({ s with reconnectAttempts := s.reconnectAttempts + 1, task := .lostReconnect }, [])
  | .lostReconnect => ({ s.espConnect with task := .idle }, [.espWifiConnect])
  | .gotSetIp n => ({ s with hasIp := true, task := .gotResetAttempts n }, [])
  | .gotResetAttempts n => ({ s with reconnectAttempts := 0, task := .gotSetReconnect n }, [])
  | .gotSetReconnect n => ({ s with shouldReconnect := true, task := .gotReadConnecting n }, [])
  | .gotReadConnecting n =>
      ({ s with task := if s.connecting then .gotClearConnecting n else .idle }, [])
  | .gotClearConnecting n => ({ s with connecting := false, task := .gotSetConnected n }, [])
  | .gotSetConnected n => ({ s with connectedBit := some n, task := .idle }, [])

/-- The driver. -/
def radio (move : RadioMove) (s : Station) : Station :=
  match move with
  | .leave =>
      if s.owed = 0 then s
      else { s with owed := s.owed - 1, queue := s.queue ++ [.disconnected] }
  | .join =>
      if s.owed = 0 ∧ s.link = .joining then
        { s with link := .up, queue := s.queue ++ [.gotIp s.attempt] }
      else s
  | .drop =>
      if s.owed = 0 ∧ s.link ≠ .down then
        { s with link := .down, queue := s.queue ++ [.disconnected] }
      else s
  | .renew =>
      if s.owed = 0 ∧ s.link = .up then { s with queue := s.queue ++ [.gotIp s.attempt] } else s

/-- The caller goes on. -/
def go (s : Station) : Station × List Output :=
  match s.caller with
  | .ready => (s, [])
  | .initResetAttempts => ({ s with reconnectAttempts := 0, caller := .initSetReconnect }, [])
  | .initSetReconnect => ({ s with shouldReconnect := true, caller := .initConnect }, [])
  | .initConnect => ({ s.espConnect with caller := .ready }, [.espWifiConnect])
  | .connectClearReconnect =>
      ({ s with shouldReconnect := false, caller := .connectClearConnecting }, [])
  | .connectClearConnecting => ({ s with connecting := false, caller := .connectResetAttempts }, [])
  | .connectResetAttempts => ({ s with reconnectAttempts := 0, caller := .connectDisconnect }, [])
  | .connectDisconnect => ({ s.espDisconnect with caller := .connectClearBits }, [])
  | .connectClearBits =>
      ({ s with connectedBit := none, failBit := false, caller := .connectSetConnecting }, [])
  | .connectSetConnecting => ({ s with connecting := true, caller := .connectConnect }, [])
  | .connectConnect =>
      ({ s.espConnect with attempt := s.attempt + 1, caller := .waiting }, [.espWifiConnect])
  | .waiting =>
      -- a wait that goes on with no bit set has timed out
      if s.connectedBit ≠ none then ({ s with caller := .ready }, [.connectReturns true])
      else if s.failBit then ({ s with caller := .failClearConnecting false }, [])
      else (s, [])
  | .failClearConnecting timedOut =>
      ({ s with connecting := false, caller := .failClearReconnect timedOut }, [])
  | .failClearReconnect true => ({ s with shouldReconnect := false, caller := .failDisconnect }, [])
  | .failClearReconnect false =>
      ({ s with shouldReconnect := false, caller := .ready, quiet := true },
        [.connectReturns false])
  | .failDisconnect =>
      ({ s.espDisconnect with caller := .ready, quiet := true }, [.connectReturns false])
  | .leaveClearReconnect =>
      ({ s with shouldReconnect := false, caller := .leaveClearConnecting }, [])
  | .leaveClearConnecting => ({ s with connecting := false, caller := .leaveResetAttempts }, [])
  | .leaveResetAttempts => ({ s with reconnectAttempts := 0, caller := .leaveClearIp }, [])
  | .leaveClearIp => ({ s with hasIp := false, caller := .leaveDisconnect }, [])
  | .leaveDisconnect => ({ s.espDisconnect with caller := .ready, quiet := true }, [])

/-- The caller; calls are started one after the other. -/
def call (move : CallerMove) (s : Station) : Station × List Output :=
  match move with
  | .go => s.go
  | .timeout =>
      if s.caller = .waiting ∧ s.connectedBit = none ∧ s.failBit = false then
        ({ s with caller := .failClearConnecting true }, [])
      else (s, [])
  | .initWifi =>
      if s.caller = .ready then
        ({ s with started := true, caller := .initResetAttempts, quiet := false }, [])
      else (s, [])
  | .wifiConnect =>
      if s.caller = .ready then
        ({ s with started := true, caller := .connectClearReconnect, quiet := false }, [])
      else (s, [])
  | .wifiDisconnect =>
      if s.caller = .ready then
        ({ s with caller := .leaveClearReconnect }, [])
      else (s, [])
  | .startFails =>
      if s.caller = .ready ∧ s.started = false then
        ({ s with quiet := true }, [.connectReturns false])
      else (s, [])

end Station

/-- One step of the caller, the event task or the driver. -/
def step (s : Station) : Act → Station × List Output
  | .caller move => s.call move
  | .event => s.event
  | .radio move => (s.radio move, [])

/-- The event task has read no flag yet that it acts on, and handles no address. -/
def Task.harmless : Task → Bool
  | .idle | .lostClearIp | .lostReadConnecting | .lostReadReconnect => true
  | _ => false

/-- The event task is about to tell a waiting `wifi_connect`. -/
def Task.signals : Task → Bool
  | .lostSetFail | .gotClearConnecting _ | .gotSetConnected _ => true
  | _ => false

/-- No address waits to be handled. -/
def NoAddress (queue : List StaEvent) : Prop := ∀ e ∈ queue, e = .disconnected

instance (queue : List StaEvent) : Decidable (NoAddress queue) :=
  inferInstanceAs (Decidable (∀ e ∈ queue, e = .disconnected))

/-- Everything of the network before is over. -/
structure Settled (s : Station) : Prop where
  link : s.link = .down
  owed : s.owed = 0
  queue : s.queue = []
  task : s.task = .idle
  reconnect : s.shouldReconnect = false

instance (s : Station) : Decidable (Settled s) :=
  decidable_of_iff (s.link = .down ∧ s.owed = 0 ∧ s.queue = [] ∧ s.task = .idle ∧
      s.shouldReconnect = false)
    ⟨fun ⟨h₁, h₂, h₃, h₄, h₅⟩ => ⟨h₁, h₂, h₃, h₄, h₅⟩,
      fun h => ⟨h.link, h.owed, h.queue, h.task, h.reconnect⟩⟩

/-- The reconnecting has been called off, and `esp_wifi_disconnect` not yet called. -/
def Caller.clearing : Caller → Bool
  | .failDisconnect | .leaveClearConnecting | .leaveResetAttempts | .leaveClearIp
  | .leaveDisconnect => true
  | _ => false

/-- Reconnecting is called off next. -/
def Caller.callsOff : Caller → Bool
  | .leaveClearReconnect | .failClearReconnect _ => true
  | _ => false

/-- A step comes in time: when reconnecting is called off no address is handled or waits to be, nor
has a lost network been found to be joined again; until `esp_wifi_disconnect` none comes in; and
when a connect attempt is marked, everything before is over. -/
def Timely (s : Station) : Act → Prop
  | .caller .go =>
      (s.caller.callsOff = true → s.task.harmless = true ∧ NoAddress s.queue) ∧
        (s.caller = .connectSetConnecting → Settled s)
  | .caller _ => True
  | .event => True
  | .radio move => s.caller.clearing = true → NoAddress (s.radio move).queue

instance (s : Station) : ∀ a : Act, Decidable (Timely s a)
  | .caller .go => inferInstanceAs (Decidable ((_ → _ ∧ _) ∧ (_ → _)))
  | .caller .initWifi | .caller .wifiConnect | .caller .wifiDisconnect | .caller .startFails
  | .caller .timeout | .event => inferInstanceAs (Decidable True)
  | .radio _ => inferInstanceAs (Decidable (_ → _))

/-- A step follows the user's last request: after a disconnect or a failed connect it does not call
`esp_wifi_connect` and no address appears, and `wifi_connect` succeeds only with an address obtained
after its own `esp_wifi_connect`. -/
def FollowsUser (s : Station) (a : Act) : Prop :=
  (s.quiet = true → Output.espWifiConnect ∉ (step s a).2 ∧
    (s.hasIp = false → (step s a).1.hasIp = false)) ∧
  (Output.connectReturns true ∈ (step s a).2 → s.connectedBit = some s.attempt)

instance (s : Station) (a : Act) : Decidable (FollowsUser s a) :=
  inferInstanceAs (Decidable ((_ → _ ∧ (_ → _)) ∧ (_ → _)))

/-- Nothing that the event task still does brings the connection back. -/
structure Cleared (s : Station) : Prop where
  reconnect : s.shouldReconnect = false
  connecting : s.connecting = false
  task : s.task.harmless = true
  queue : NoAddress s.queue

/-- And the driver does nothing for it either. -/
structure Off (s : Station) : Prop extends Cleared s where
  link : s.link = .down

theorem NoAddress.snoc {queue : List StaEvent} (h : NoAddress queue) :
    NoAddress (queue ++ [.disconnected]) := by
  intro e he
  rcases List.mem_append.mp he with he | he
  · exact h e he
  · exact List.mem_singleton.mp he

section Event

variable {s : Station}

/-- The event task keeps it so, and connects to nothing. -/
theorem Cleared.event (h : Cleared s) :
    Cleared s.event.1 ∧ s.event.2 = [] ∧ (s.hasIp = false → s.event.1.hasIp = false) := by
  have htask := h.task
  unfold Station.event
  cases hs : s.task with
  | idle =>
      cases hqueue : s.queue with
      | nil => exact ⟨h, rfl, fun hip => hip⟩
      | cons e queue =>
          have hlost := h.queue
          rw [hqueue] at hlost
          obtain rfl := hlost e (List.mem_cons_self ..)
          exact ⟨⟨h.reconnect, h.connecting, rfl,
            fun e he => hlost e (List.mem_cons_of_mem _ he)⟩, rfl, fun hip => hip⟩
  | lostClearIp => exact ⟨⟨h.reconnect, h.connecting, rfl, h.queue⟩, rfl, fun _ => rfl⟩
  | lostReadConnecting =>
      simp only
      rw [if_neg (by simp [h.connecting])]
      exact ⟨⟨h.reconnect, h.connecting, rfl, h.queue⟩, trivial, fun hip => hip⟩
  | lostReadReconnect =>
      simp only
      rw [if_neg (by simp [h.reconnect])]
      exact ⟨⟨h.reconnect, h.connecting, rfl, h.queue⟩, trivial, fun hip => hip⟩
  | _ =>
      rw [hs] at htask
      cases htask

/-- Outside of reconnecting the event task leaves the driver alone. -/
theorem event_link (s : Station) (htask : s.task ≠ .lostReconnect) :
    s.event.1.link = s.link := by
  unfold Station.event
  cases hs : s.task with
  | lostReconnect => exact absurd hs htask
  | idle =>
      cases s.queue with
      | nil => rfl
      | cons e queue => cases e <;> rfl
  | lostCount =>
      simp only
      split_ifs <;> rfl
  | _ => rfl

theorem Off.event (h : Off s) : Off s.event.1 := by
  refine ⟨h.toCleared.event.1, (event_link s fun htask => ?_).trans h.link⟩
  have hharmless := h.task
  rw [htask] at hharmless
  cases hharmless

theorem event_same (s : Station) : s.event.1.started = s.started ∧ s.event.1.caller = s.caller ∧
    s.event.1.attempt = s.attempt ∧ s.event.1.quiet = s.quiet := by
  unfold Station.event
  cases s.task with
  | idle =>
      cases s.queue with
      | nil => exact ⟨rfl, rfl, rfl, rfl⟩
      | cons e queue => cases e <;> exact ⟨rfl, rfl, rfl, rfl⟩
  | lostCount =>
      simp only
      split_ifs <;> exact ⟨rfl, rfl, rfl, rfl⟩
  | _ => exact ⟨rfl, rfl, rfl, rfl⟩

/-- Only the caller sets `s_connecting`. -/
theorem event_connecting (h : s.connecting = false) : s.event.1.connecting = false := by
  unfold Station.event
  cases s.task with
  | idle =>
      cases s.queue with
      | nil => exact h
      | cons e queue => cases e <;> exact h
  | lostCount =>
      simp only
      split_ifs <;> exact h
  | gotClearConnecting n => rfl
  | _ => exact h

/-- A `wifi_connect` that does not wait is told nothing. -/
theorem event_signals (hconnecting : s.connecting = false) (hsignals : s.task.signals = false) :
    s.event.1.connecting = false ∧ s.event.1.task.signals = false ∧
      s.event.1.connectedBit = s.connectedBit ∧ s.event.1.failBit = s.failBit := by
  unfold Station.event
  cases hs : s.task with
  | idle =>
      cases s.queue with
      | nil => exact ⟨hconnecting, hsignals, rfl, rfl⟩
      | cons e queue => cases e <;> exact ⟨hconnecting, rfl, rfl, rfl⟩
  | lostReadConnecting =>
      simp only
      rw [if_neg (by simp [hconnecting])]
      exact ⟨hconnecting, rfl, trivial, trivial⟩
  | lostReadReconnect =>
      simp only
      split_ifs <;> exact ⟨hconnecting, rfl, trivial, trivial⟩
  | lostCount =>
      simp only
      split_ifs <;> exact ⟨hconnecting, rfl, rfl, rfl⟩
  | gotReadConnecting n =>
      simp only
      rw [if_neg (by simp [hconnecting])]
      exact ⟨hconnecting, rfl, trivial, trivial⟩
  | lostSetFail =>
      rw [hs] at hsignals
      cases hsignals
  | gotClearConnecting n =>
      rw [hs] at hsignals
      cases hsignals
  | gotSetConnected n =>
      rw [hs] at hsignals
      cases hsignals
  | _ => exact ⟨hconnecting, rfl, rfl, rfl⟩

end Event

/-- The driver touches its own state and the queue. -/
structure SameFlags (s s' : Station) : Prop where
  started : s'.started = s.started
  reconnect : s'.shouldReconnect = s.shouldReconnect
  connecting : s'.connecting = s.connecting
  hasIp : s'.hasIp = s.hasIp
  connectedBit : s'.connectedBit = s.connectedBit
  failBit : s'.failBit = s.failBit
  task : s'.task = s.task
  caller : s'.caller = s.caller
  attempt : s'.attempt = s.attempt
  quiet : s'.quiet = s.quiet

section Radio

variable {s : Station} (move : RadioMove)

theorem radio_sameFlags : SameFlags s (s.radio move) := by
  unfold Station.radio
  cases move <;> simp only <;> split_ifs <;>
    exact ⟨rfl, rfl, rfl, rfl, rfl, rfl, rfl, rfl, rfl, rfl⟩

theorem Cleared.radio (h : Cleared s) (hqueue : NoAddress (s.radio move).queue) :
    Cleared (s.radio move) := by
  have hsame : SameFlags s (s.radio move) := radio_sameFlags move
  exact ⟨hsame.reconnect.trans h.reconnect, hsame.connecting.trans h.connecting,
    hsame.task ▸ h.task, hqueue⟩

/-- A driver that is at nothing only posts what it owes. -/
theorem radio_down (h : s.link = .down) : (s.radio move).link = .down ∧
    ((s.radio move).queue = s.queue ∨
      s.owed ≠ 0 ∧ (s.radio move).queue = s.queue ++ [.disconnected]) := by
  unfold Station.radio
  cases move with
  | leave =>
      simp only
      split_ifs with howed
      · exact ⟨h, Or.inl rfl⟩
      · exact ⟨h, Or.inr ⟨howed, rfl⟩⟩
  | join =>
      simp only
      rw [if_neg (by simp [h])]
      exact ⟨h, Or.inl rfl⟩
  | drop =>
      simp only
      rw [if_neg (by simp [h])]
      exact ⟨h, Or.inl rfl⟩
  | renew =>
      simp only
      rw [if_neg (by simp [h])]
      exact ⟨h, Or.inl rfl⟩

theorem Off.radio (h : Off s) : Off (s.radio move) := by
  obtain ⟨hdown, hqueue⟩ := radio_down move h.link
  refine ⟨h.toCleared.radio move ?_, hdown⟩
  rcases hqueue with hqueue | ⟨-, hqueue⟩
  · rw [hqueue]
    exact h.queue
  · rw [hqueue]
    exact h.queue.snoc

theorem radio_settled (hlink : s.link = .down) (howed : s.owed = 0) : s.radio move = s := by
  unfold Station.radio
  cases move <;> simp [hlink, howed]

end Radio

/-- The attempt has been started, and nothing has come of it. -/
structure Joining (s : Station) : Prop where
  link : s.link = .joining
  owed : s.owed = 0
  queue : s.queue = []
  task : s.task = .idle
  connecting : s.connecting = true
  reconnect : s.shouldReconnect = false
  bits : s.connectedBit = none ∧ s.failBit = false

/-- The attempt has failed: its event waits, is handled, or has set the bit. -/
structure Failing (s : Station) : Prop where
  link : s.link = .down
  owed : s.owed = 0
  connecting : s.connecting = true
  reconnect : s.shouldReconnect = false
  connectedBit : s.connectedBit = none
  told : (s.queue = [.disconnected] ∧ s.task = .idle ∧ s.failBit = false) ∨
    (s.queue = [] ∧ (s.task = .lostClearIp ∨ s.task = .lostReadConnecting ∨ s.task = .lostSetFail) ∧
      s.failBit = false) ∨
    (s.queue = [] ∧ s.task = .idle ∧ s.failBit = true)

/-- The event task handles the address of the attempt `n`, and has not cleared `s_connecting`. -/
def Task.gets (n : Nat) : Task → Bool
  | .gotSetIp m | .gotResetAttempts m | .gotSetReconnect m | .gotReadConnecting m
  | .gotClearConnecting m => m == n
  | _ => false

/-- The attempt has been given an address: it waits first, is handled, or has set the bit. -/
structure Joined (s : Station) : Prop where
  failBit : s.failBit = false
  told : (s.connecting = true ∧ s.connectedBit = none ∧ s.task = .idle ∧
      ∃ queue, s.queue = .gotIp s.attempt :: queue) ∨
    (s.connecting = true ∧ s.connectedBit = none ∧ s.task.gets s.attempt = true) ∨
    (s.connecting = false ∧ s.connectedBit = none ∧ s.task = .gotSetConnected s.attempt) ∨
    (s.connecting = false ∧ s.connectedBit = some s.attempt ∧ s.task.signals = false)

/-- What `wifi_connect` waits for. -/
def Attempt (s : Station) : Prop := Joining s ∨ Failing s ∨ Joined s

section Attempt

variable {s : Station}

theorem Joining.event (h : Joining s) : s.event = (s, []) := by
  unfold Station.event
  simp only [h.task, h.queue]

theorem Failing.event (h : Failing s) : Failing s.event.1 := by
  obtain ⟨hlink, howed, hconnecting, hreconnect, hbit, htold⟩ := h
  rcases htold with ⟨hqueue, htask, hfail⟩ | ⟨hqueue, htask | htask | htask, hfail⟩ |
    ⟨hqueue, htask, hfail⟩
  · unfold Station.event
    simp only [htask, hqueue]
    exact ⟨hlink, howed, hconnecting, hreconnect, hbit, Or.inr (Or.inl ⟨rfl, Or.inl rfl, hfail⟩)⟩
  · unfold Station.event
    simp only [htask]
    exact ⟨hlink, howed, hconnecting, hreconnect, hbit,
      Or.inr (Or.inl ⟨hqueue, Or.inr (Or.inl rfl), hfail⟩)⟩
  · unfold Station.event
    simp only [htask]
    rw [if_pos hconnecting]
    exact ⟨hlink, howed, hconnecting, hreconnect, hbit,
      Or.inr (Or.inl ⟨hqueue, Or.inr (Or.inr rfl), hfail⟩)⟩
  · unfold Station.event
    simp only [htask]
    exact ⟨hlink, howed, hconnecting, hreconnect, hbit, Or.inr (Or.inr ⟨hqueue, rfl, rfl⟩)⟩
  · unfold Station.event
    simp only [htask, hqueue]
    exact ⟨hlink, howed, hconnecting, hreconnect, hbit, Or.inr (Or.inr ⟨hqueue, htask, hfail⟩)⟩

/-- An address that is handled while `wifi_connect` waits. -/
theorem gets_event {n : Nat} (hconnecting : s.connecting = true) (htask : s.task.gets n = true) :
    s.event.1.connectedBit = s.connectedBit ∧ s.event.1.failBit = s.failBit ∧
      s.event.1.attempt = s.attempt ∧
      (s.event.1.connecting = true ∧ s.event.1.task.gets n = true ∨
        s.event.1.connecting = false ∧ s.event.1.task = .gotSetConnected n) := by
  unfold Station.event
  cases hs : s.task with
  | gotSetIp m =>
      rw [hs] at htask
      exact ⟨rfl, rfl, rfl, Or.inl ⟨hconnecting, htask⟩⟩
  | gotResetAttempts m =>
      rw [hs] at htask
      exact ⟨rfl, rfl, rfl, Or.inl ⟨hconnecting, htask⟩⟩
  | gotSetReconnect m =>
      rw [hs] at htask
      exact ⟨rfl, rfl, rfl, Or.inl ⟨hconnecting, htask⟩⟩
  | gotReadConnecting m =>
      rw [hs] at htask
      simp only
      rw [if_pos hconnecting]
      exact ⟨trivial, trivial, trivial, Or.inl ⟨hconnecting, htask⟩⟩
  | gotClearConnecting m =>
      rw [hs] at htask
      exact ⟨rfl, rfl, rfl, Or.inr ⟨rfl, congrArg _ (beq_iff_eq.mp htask)⟩⟩
  | _ =>
      rw [hs] at htask
      cases htask

theorem Joined.event (h : Joined s) : Joined s.event.1 := by
  obtain ⟨hfail, ⟨hconnecting, hbit, htask, queue, hqueue⟩ | ⟨hconnecting, hbit, htask⟩ |
    ⟨hconnecting, hbit, htask⟩ | ⟨hconnecting, hbit, htask⟩⟩ := h
  · unfold Station.event
    simp only [htask, hqueue]
    exact ⟨hfail, Or.inr (Or.inl ⟨hconnecting, hbit, by simp [Task.gets]⟩)⟩
  · obtain ⟨hbit', hfail', hattempt, hnext⟩ := gets_event hconnecting htask
    rw [← hattempt] at hnext
    rcases hnext with ⟨hconnecting', htask'⟩ | ⟨hconnecting', htask'⟩
    · exact ⟨hfail'.trans hfail, Or.inr (Or.inl ⟨hconnecting', hbit'.trans hbit, htask'⟩)⟩
    · exact ⟨hfail'.trans hfail, Or.inr (Or.inr (Or.inl ⟨hconnecting', hbit'.trans hbit, htask'⟩))⟩
  · unfold Station.event
    simp only [htask]
    exact ⟨hfail, Or.inr (Or.inr (Or.inr ⟨hconnecting, rfl, rfl⟩))⟩
  · obtain ⟨hconnecting', htask', hbit', hfail'⟩ := event_signals hconnecting htask
    exact ⟨hfail'.trans hfail, Or.inr (Or.inr (Or.inr
      ⟨hconnecting', by rw [hbit', hbit, (event_same s).2.2.1], htask'⟩))⟩

theorem Attempt.event (h : Attempt s) : Attempt s.event.1 := by
  rcases h with h | h | h
  · rw [h.event]
    exact Or.inl h
  · exact Or.inr (Or.inl h.event)
  · exact Or.inr (Or.inr h.event)

theorem radio_queue (move : RadioMove) : ∃ posted, (s.radio move).queue = s.queue ++ posted := by
  unfold Station.radio
  cases move <;> simp only <;> split_ifs
  all_goals first
    | exact ⟨_, rfl⟩
    | exact ⟨[], (List.append_nil _).symm⟩

theorem Joined.radio (h : Joined s) (move : RadioMove) : Joined (s.radio move) := by
  have hsame : SameFlags s (s.radio move) := radio_sameFlags move
  obtain ⟨posted, hposted⟩ := radio_queue (s := s) move
  refine ⟨hsame.failBit.trans h.failBit, ?_⟩
  rw [hsame.connecting, hsame.connectedBit, hsame.task, hsame.attempt, hposted]
  rcases h.told with ⟨hconnecting, hbit, htask, queue, hqueue⟩ | htold
  · exact Or.inl ⟨hconnecting, hbit, htask, queue ++ posted, by rw [hqueue]; rfl⟩
  · exact Or.inr htold

theorem Attempt.radio (h : Attempt s) (move : RadioMove) : Attempt (s.radio move) := by
  rcases h with h | h | h
  · unfold Station.radio
    cases move with
    | leave =>
        simp only
        rw [if_pos h.owed]
        exact Or.inl h
    | join =>
        simp only
        rw [if_pos ⟨h.owed, h.link⟩]
        refine Or.inr (Or.inr ⟨h.bits.2, Or.inl ⟨h.connecting, h.bits.1, h.task, [], ?_⟩⟩)
        rw [h.queue]
        rfl
    | drop =>
        simp only
        rw [if_pos ⟨h.owed, by rw [h.link]; decide⟩]
        refine Or.inr (Or.inl ⟨rfl, h.owed, h.connecting, h.reconnect, h.bits.1,
          Or.inl ⟨?_, h.task, h.bits.2⟩⟩)
        rw [h.queue]
        rfl
    | renew =>
        simp only
        rw [if_neg (by simp [h.link])]
        exact Or.inl h
  · rw [radio_settled move h.link h.owed]
    exact Or.inr (Or.inl h)
  · exact Or.inr (Or.inr (h.radio move))

end Attempt

/-- No `wifi_connect` waits, and none will be told. -/
structure Untold (s : Station) : Prop where
  connecting : s.connecting = false
  signals : s.task.signals = false

/-- What holds where the caller is. -/
def AtCaller (s : Station) : Prop :=
  match s.caller with
  | .ready | .leaveClearReconnect => Untold s ∧ (s.quiet = true → Off s)
  | .initResetAttempts | .initSetReconnect | .initConnect | .connectClearReconnect
  | .connectClearConnecting | .connectResetAttempts | .connectDisconnect | .connectClearBits =>
      Untold s ∧ s.quiet = false
  | .connectSetConnecting =>
      Untold s ∧ s.quiet = false ∧ s.connectedBit = none ∧ s.failBit = false
  | .connectConnect =>
      Settled s ∧ s.connecting = true ∧ s.quiet = false ∧ s.connectedBit = none ∧ s.failBit = false
  | .waiting => Attempt s ∧ s.quiet = false
  | .failClearConnecting timedOut => (timedOut = false → Settled s) ∧ s.quiet = false
  | .failClearReconnect timedOut =>
      (timedOut = false → Settled s) ∧ s.connecting = false ∧ s.quiet = false
  | .failDisconnect => Cleared s ∧ s.quiet = false
  | .leaveClearConnecting | .leaveResetAttempts | .leaveClearIp | .leaveDisconnect =>
      Cleared s ∧ (s.quiet = true → Off s)

/-- The caller is where it can be before Wi-Fi was started. -/
def Caller.offline : Caller → Bool
  | .ready | .leaveClearReconnect | .leaveClearConnecting | .leaveResetAttempts | .leaveClearIp
  | .leaveDisconnect => true
  | _ => false

/-- What holds in every state: what the caller relies on, and that nothing happens before Wi-Fi is
started. -/
structure Inv (s : Station) : Prop where
  caller : AtCaller s
  unstarted : s.started = false → Settled s ∧ s.caller.offline = true

theorem Inv.boot : Inv .boot :=
  ⟨⟨⟨rfl, rfl⟩, fun h => (by cases h)⟩, fun _ => ⟨⟨rfl, rfl, rfl, rfl, rfl⟩, rfl⟩⟩

theorem Task.signals_of_harmless {t : Task} (h : t.harmless = true) : t.signals = false := by
  cases t <;> first | rfl | cases h

theorem Cleared.untold {s : Station} (h : Cleared s) : Untold s :=
  ⟨h.connecting, Task.signals_of_harmless h.task⟩

theorem Settled.off {s : Station} (h : Settled s) (hconnecting : s.connecting = false) : Off s where
  reconnect := h.reconnect
  connecting := hconnecting
  task := by rw [h.task]; rfl
  queue := by rw [h.queue]; exact fun e he => absurd he List.not_mem_nil
  link := h.link

section Steps

variable {s : Station}

theorem Settled.event (h : Settled s) : s.event = (s, []) := by
  unfold Station.event
  simp only [h.task, h.queue]

theorem Untold.event (h : Untold s) : Untold s.event.1 := by
  obtain ⟨hconnecting, hsignals, -⟩ := event_signals h.connecting h.signals
  exact ⟨hconnecting, hsignals⟩

theorem Untold.radio (h : Untold s) (move : RadioMove) : Untold (s.radio move) := by
  have hsame : SameFlags s (s.radio move) := radio_sameFlags move
  exact ⟨hsame.connecting.trans h.connecting, by rw [hsame.task]; exact h.signals⟩

theorem Inv.event (h : Inv s) : Inv s.event.1 := by
  obtain ⟨hstarted, hcaller, -, hquiet⟩ := event_same s
  refine ⟨?_, fun hoff => ?_⟩
  · have hat := h.caller
    unfold AtCaller at hat ⊢
    rw [hcaller, hquiet]
    cases hs : s.caller with
    | ready | leaveClearReconnect =>
        simp only [hs] at hat ⊢
        exact ⟨hat.1.event, fun hq => (hat.2 hq).event⟩
    | connectSetConnecting =>
        simp only [hs] at hat ⊢
        obtain ⟨-, -, hbit, hfail⟩ := event_signals hat.1.connecting hat.1.signals
        exact ⟨hat.1.event, hat.2.1, hbit.trans hat.2.2.1, hfail.trans hat.2.2.2⟩
    | connectConnect =>
        simp only [hs] at hat ⊢
        rw [hat.1.event]
        exact hat
    | waiting =>
        simp only [hs] at hat ⊢
        exact ⟨hat.1.event, hat.2⟩
    | failClearConnecting timedOut =>
        simp only [hs] at hat ⊢
        refine ⟨fun ht => ?_, hat.2⟩
        rw [(hat.1 ht).event]
        exact hat.1 ht
    | failClearReconnect timedOut =>
        simp only [hs] at hat ⊢
        refine ⟨fun ht => ?_, event_connecting hat.2.1, hat.2.2⟩
        rw [(hat.1 ht).event]
        exact hat.1 ht
    | failDisconnect =>
        simp only [hs] at hat ⊢
        exact ⟨hat.1.event.1, hat.2⟩
    | leaveClearConnecting | leaveResetAttempts | leaveClearIp | leaveDisconnect =>
        simp only [hs] at hat ⊢
        exact ⟨hat.1.event.1, fun hq => (hat.2 hq).event⟩
    | _ =>
        simp only [hs] at hat ⊢
        exact ⟨hat.1.event, hat.2⟩
  · obtain ⟨hsettled, hoffline⟩ := h.unstarted (hstarted.symm.trans hoff)
    rw [hsettled.event]
    exact ⟨hsettled, hoffline⟩

/-- A step of the driver; while reconnecting is called off it posts no address. -/
theorem Inv.radio (h : Inv s) {move : RadioMove} (htimely : Timely s (.radio move)) :
    Inv (s.radio move) := by
  have hsame : SameFlags s (s.radio move) := radio_sameFlags move
  refine ⟨?_, fun hoff => ?_⟩
  · have hat := h.caller
    unfold AtCaller at hat ⊢
    rw [hsame.caller, hsame.quiet]
    unfold Timely at htimely
    cases hs : s.caller with
    | ready | leaveClearReconnect =>
        simp only [hs] at hat ⊢
        exact ⟨hat.1.radio move, fun hq => (hat.2 hq).radio move⟩
    | connectSetConnecting =>
        simp only [hs] at hat ⊢
        exact ⟨hat.1.radio move, hat.2.1, hsame.connectedBit.trans hat.2.2.1,
          hsame.failBit.trans hat.2.2.2⟩
    | connectConnect =>
        simp only [hs] at hat ⊢
        rw [radio_settled move hat.1.link hat.1.owed]
        exact hat
    | waiting =>
        simp only [hs] at hat ⊢
        exact ⟨hat.1.radio move, hat.2⟩
    | failClearConnecting timedOut =>
        simp only [hs] at hat ⊢
        refine ⟨fun ht => ?_, hat.2⟩
        rw [radio_settled move (hat.1 ht).link (hat.1 ht).owed]
        exact hat.1 ht
    | failClearReconnect timedOut =>
        simp only [hs] at hat ⊢
        refine ⟨fun ht => ?_, hsame.connecting.trans hat.2.1, hat.2.2⟩
        rw [radio_settled move (hat.1 ht).link (hat.1 ht).owed]
        exact hat.1 ht
    | failDisconnect =>
        simp only [hs] at hat ⊢
        exact ⟨hat.1.radio move (htimely (by rw [hs]; rfl)), hat.2⟩
    | leaveClearConnecting | leaveResetAttempts | leaveClearIp | leaveDisconnect =>
        simp only [hs] at hat ⊢
        exact ⟨hat.1.radio move (htimely (by rw [hs]; rfl)), fun hq => (hat.2 hq).radio move⟩
    | _ =>
        simp only [hs] at hat ⊢
        exact ⟨hat.1.radio move, hat.2⟩
  · obtain ⟨hsettled, hoffline⟩ := h.unstarted (hsame.started.symm.trans hoff)
    rw [radio_settled move hsettled.link hsettled.owed]
    exact ⟨hsettled, hoffline⟩

/-- A quiet caller is between two calls, or in `wifi_disconnect`, and everything is off. -/
theorem Inv.off (h : Inv s) (hquiet : s.quiet = true) : Off s := by
  have hat := h.caller
  unfold AtCaller at hat
  cases hs : s.caller <;> simp only [hs, hquiet, Bool.true_eq_false, and_false, false_and] at hat
  all_goals exact hat.2 trivial

theorem Attempt.connected (h : Attempt s) (hbit : s.connectedBit ≠ none) :
    Untold s ∧ s.connectedBit = some s.attempt := by
  rcases h with h | h | h
  · exact absurd h.bits.1 hbit
  · exact absurd h.connectedBit hbit
  · rcases h.told with ⟨-, hnone, -⟩ | ⟨-, hnone, -⟩ | ⟨-, hnone, -⟩ | ⟨hconnecting, hset, hsignals⟩
    · exact absurd hnone hbit
    · exact absurd hnone hbit
    · exact absurd hnone hbit
    · exact ⟨⟨hconnecting, hsignals⟩, hset⟩

theorem Attempt.failed (h : Attempt s) (hbit : s.failBit = true) : Settled s := by
  rcases h with h | h | h
  · exact absurd (h.bits.2.symm.trans hbit) (by decide)
  · rcases h.told with ⟨-, -, hfalse⟩ | ⟨-, -, hfalse⟩ | ⟨hqueue, htask, -⟩
    · exact absurd (hfalse.symm.trans hbit) (by decide)
    · exact absurd (hfalse.symm.trans hbit) (by decide)
    · exact ⟨h.link, h.owed, hqueue, htask, h.reconnect⟩
  · exact absurd (h.failBit.symm.trans hbit) (by decide)

/-- `esp_wifi_disconnect` puts everything off. -/
theorem Cleared.disconnect (h : Cleared s) (caller : Caller) :
    Off { s.espDisconnect with caller := caller, quiet := true } :=
  ⟨⟨h.reconnect, h.connecting, h.task, h.queue⟩, rfl⟩

theorem AtCaller.go (h : AtCaller s) (htimely : Timely s (.caller .go)) : AtCaller s.go.1 := by
  have hat := h
  unfold AtCaller at hat
  unfold Timely at htimely
  unfold Station.go
  cases hs : s.caller with
  | ready => exact h
  | initResetAttempts | initSetReconnect =>
      simp only [hs] at hat
      exact ⟨⟨hat.1.connecting, hat.1.signals⟩, hat.2⟩
  | initConnect =>
      simp only [hs] at hat
      exact ⟨⟨hat.1.connecting, hat.1.signals⟩, fun hq => absurd (hat.2.symm.trans hq) (by decide)⟩
  | connectClearReconnect | connectResetAttempts | connectDisconnect =>
      simp only [hs] at hat
      exact ⟨⟨hat.1.connecting, hat.1.signals⟩, hat.2⟩
  | connectClearConnecting =>
      simp only [hs] at hat
      exact ⟨⟨rfl, hat.1.signals⟩, hat.2⟩
  | connectClearBits =>
      simp only [hs] at hat
      exact ⟨⟨hat.1.connecting, hat.1.signals⟩, hat.2, rfl, rfl⟩
  | connectSetConnecting =>
      simp only [hs] at hat
      have htimely := htimely.2 hs
      exact ⟨⟨htimely.link, htimely.owed, htimely.queue, htimely.task, htimely.reconnect⟩, rfl,
        hat.2.1, hat.2.2⟩
  | connectConnect =>
      simp only [hs] at hat
      obtain ⟨hsettled, hconnecting, hquiet, hbits⟩ := hat
      refine ⟨Or.inl ⟨if_pos hsettled.link, hsettled.owed, hsettled.queue, hsettled.task,
        hconnecting, hsettled.reconnect, hbits⟩, hquiet⟩
  | waiting =>
      simp only [hs] at hat
      simp only
      split_ifs with hconnected hfailed
      · obtain ⟨huntold, -⟩ := hat.1.connected hconnected
        exact ⟨⟨huntold.connecting, huntold.signals⟩,
          fun hq => absurd (hat.2.symm.trans hq) (by decide)⟩
      · have hsettled := hat.1.failed hfailed
        exact ⟨fun _ => ⟨hsettled.link, hsettled.owed, hsettled.queue, hsettled.task,
          hsettled.reconnect⟩, hat.2⟩
      · exact h
  | failClearConnecting timedOut =>
      simp only [hs] at hat
      refine ⟨fun ht => ?_, rfl, hat.2⟩
      obtain ⟨hlink, howed, hqueue, htask, hreconnect⟩ := hat.1 ht
      exact ⟨hlink, howed, hqueue, htask, hreconnect⟩
  | failClearReconnect timedOut =>
      simp only [hs] at hat
      have htimely := htimely.1 (by rw [hs]; rfl)
      cases timedOut with
      | true => exact ⟨⟨rfl, hat.2.1, htimely.1, htimely.2⟩, hat.2.2⟩
      | false =>
          have hoff := (hat.1 rfl).off hat.2.1
          exact ⟨⟨hoff.connecting, Task.signals_of_harmless hoff.task⟩,
            fun _ => ⟨⟨rfl, hoff.connecting, hoff.task, hoff.queue⟩, hoff.link⟩⟩
  | failDisconnect =>
      simp only [hs] at hat
      have hoff := hat.1.disconnect .ready
      exact ⟨hoff.toCleared.untold, fun _ => hoff⟩
  | leaveClearReconnect =>
      simp only [hs] at hat
      have htimely := htimely.1 (by rw [hs]; rfl)
      refine ⟨⟨rfl, hat.1.connecting, htimely.1, htimely.2⟩, fun hq => ?_⟩
      exact ⟨⟨rfl, hat.1.connecting, htimely.1, htimely.2⟩, (hat.2 hq).link⟩
  | leaveClearConnecting =>
      simp only [hs] at hat
      refine ⟨⟨hat.1.reconnect, rfl, hat.1.task, hat.1.queue⟩, fun hq => ?_⟩
      exact ⟨⟨hat.1.reconnect, rfl, hat.1.task, hat.1.queue⟩, (hat.2 hq).link⟩
  | leaveResetAttempts | leaveClearIp =>
      simp only [hs] at hat
      refine ⟨⟨hat.1.reconnect, hat.1.connecting, hat.1.task, hat.1.queue⟩, fun hq => ?_⟩
      exact ⟨⟨hat.1.reconnect, hat.1.connecting, hat.1.task, hat.1.queue⟩, (hat.2 hq).link⟩
  | leaveDisconnect =>
      simp only [hs] at hat
      have hoff := hat.1.disconnect .ready
      exact ⟨hoff.toCleared.untold, fun _ => hoff⟩

/-- Before Wi-Fi is started, the caller only finds flags that are off. -/
theorem Settled.go (h : Settled s) (hoffline : s.caller.offline = true)
    (hstarted : s.started = false) :
    s.go.1.started = false ∧ Settled s.go.1 ∧ s.go.1.caller.offline = true := by
  obtain ⟨hlink, howed, hqueue, htask, hreconnect⟩ := h
  have howed' : s.espDisconnect.owed = 0 := by
    rw [Station.espDisconnect]
    exact (if_pos hlink).trans howed
  unfold Station.go
  cases hs : s.caller with
  | ready =>
      exact ⟨hstarted, ⟨hlink, howed, hqueue, htask, hreconnect⟩, hoffline⟩
  | leaveClearReconnect => exact ⟨hstarted, ⟨hlink, howed, hqueue, htask, rfl⟩, rfl⟩
  | leaveClearConnecting | leaveResetAttempts | leaveClearIp =>
      exact ⟨hstarted, ⟨hlink, howed, hqueue, htask, hreconnect⟩, rfl⟩
  | leaveDisconnect => exact ⟨hstarted, ⟨rfl, howed', hqueue, htask, hreconnect⟩, rfl⟩
  | _ =>
      rw [hs] at hoffline
      cases hoffline

theorem go_started (s : Station) : s.go.1.started = s.started := by
  unfold Station.go
  cases s.caller with
  | waiting =>
      simp only
      split_ifs <;> rfl
  | failClearReconnect timedOut => cases timedOut <;> rfl
  | _ => rfl

theorem Inv.go (h : Inv s) (htimely : Timely s (.caller .go)) : Inv s.go.1 := by
  refine ⟨h.caller.go htimely, fun hoff => ?_⟩
  rw [go_started] at hoff
  obtain ⟨hsettled, hoffline⟩ := h.unstarted hoff
  exact (hsettled.go hoffline hoff).2

theorem Inv.call (h : Inv s) {move : CallerMove} (htimely : Timely s (.caller move)) :
    Inv (s.call move).1 := by
  have hat := h.caller
  unfold AtCaller at hat
  unfold Station.call
  cases move with
  | go => exact h.go htimely
  | timeout =>
      simp only
      split_ifs with hwait
      · simp only [hwait.1] at hat
        refine ⟨⟨fun ht => (by cases ht), hat.2⟩, fun hoff => ?_⟩
        have hoffline := (h.unstarted hoff).2
        rw [hwait.1] at hoffline
        cases hoffline
      · exact h
  | initWifi =>
      simp only
      split_ifs with hready
      · simp only [hready] at hat
        exact ⟨⟨⟨hat.1.connecting, hat.1.signals⟩, rfl⟩, fun hoff => (by cases hoff)⟩
      · exact h
  | wifiConnect =>
      simp only
      split_ifs with hready
      · simp only [hready] at hat
        exact ⟨⟨⟨hat.1.connecting, hat.1.signals⟩, rfl⟩, fun hoff => (by cases hoff)⟩
      · exact h
  | wifiDisconnect =>
      simp only
      split_ifs with hready
      · simp only [hready] at hat
        refine ⟨⟨⟨hat.1.connecting, hat.1.signals⟩, fun hq => ?_⟩, fun hoff => ?_⟩
        · obtain ⟨⟨hreconnect, hconnecting, htask, hqueue⟩, hlink⟩ := hat.2 hq
          exact ⟨⟨hreconnect, hconnecting, htask, hqueue⟩, hlink⟩
        · obtain ⟨hlink, howed, hqueue, htask, hreconnect⟩ := (h.unstarted hoff).1
          exact ⟨⟨hlink, howed, hqueue, htask, hreconnect⟩, rfl⟩
      · exact h
  | startFails =>
      simp only
      split_ifs with hready
      · simp only [hready.1] at hat
        have hsettled := (h.unstarted hready.2).1
        have hoff := hsettled.off hat.1.connecting
        obtain ⟨hlink, howed, hqueue, htask, hreconnect⟩ := hsettled
        refine ⟨?_, fun _ => ⟨⟨hlink, howed, hqueue, htask, hreconnect⟩, ?_⟩⟩
        · unfold AtCaller
          simp only [hready.1]
          exact ⟨⟨hat.1.connecting, hat.1.signals⟩,
            fun _ => ⟨⟨hreconnect, hoff.connecting, hoff.task, hoff.queue⟩, hlink⟩⟩
        · simp only [hready.1]
          rfl
      · exact h

theorem Inv.step (h : Inv s) {a : Act} (htimely : Timely s a) : Inv (step s a).1 := by
  cases a with
  | caller move => exact h.call htimely
  | event => exact h.event
  | radio move => exact h.radio htimely

theorem event_returns (s : Station) : Output.connectReturns true ∉ s.event.2 := by
  unfold Station.event
  cases s.task with
  | idle =>
      cases s.queue with
      | nil => simp
      | cons e queue => cases e <;> simp
  | lostCount =>
      simp only
      split_ifs <;> simp
  | _ => simp

/-- The caller after a disconnect: it connects to nothing unless it is asked to. -/
theorem go_follows (h : Inv s) : FollowsUser s (.caller .go) := by
  have hat := h.caller
  unfold AtCaller at hat
  unfold FollowsUser Wifi.step Station.call Station.go
  cases hs : s.caller with
  | waiting =>
      simp only [hs] at hat
      refine ⟨fun hq => absurd (hat.2.symm.trans hq) (by decide), fun hreturns => ?_⟩
      simp only at hreturns
      split_ifs at hreturns with hconnected hfailed
      · exact (hat.1.connected hconnected).2
      · exact absurd hreturns List.not_mem_nil
      · exact absurd hreturns List.not_mem_nil
  | initConnect =>
      simp only [hs] at hat
      exact ⟨fun hq => absurd (hat.2.symm.trans hq) (by decide), by simp⟩
  | connectConnect =>
      simp only [hs] at hat
      exact ⟨fun hq => absurd (hat.2.2.1.symm.trans hq) (by decide), by simp⟩
  | failClearReconnect timedOut => cases timedOut <;> simp
  | _ => simp [Station.espDisconnect]

theorem call_follows (h : Inv s) (move : CallerMove) : FollowsUser s (.caller move) := by
  cases move with
  | go => exact go_follows h
  | _ =>
      unfold FollowsUser Wifi.step Station.call
      simp only
      split_ifs <;> simp

/-- Every step from a state of the invariant follows the user's last request. -/
theorem Inv.follows (h : Inv s) (a : Act) : FollowsUser s a := by
  cases a with
  | caller move => exact call_follows h move
  | event =>
      refine ⟨fun hq => ?_, fun hreturns => absurd hreturns (event_returns s)⟩
      obtain ⟨-, hnone, hip⟩ := (h.off hq).toCleared.event
      refine ⟨?_, hip⟩
      change Output.espWifiConnect ∉ s.event.2
      rw [hnone]
      exact List.not_mem_nil
  | radio move =>
      have hsame : SameFlags s (s.radio move) := radio_sameFlags move
      exact ⟨fun _ => ⟨List.not_mem_nil, fun hip => hsame.hasIp.trans hip⟩,
        fun hreturns => absurd hreturns List.not_mem_nil⟩

end Steps

/-- Wi-Fi follows the user's last request in every run whose steps are timely. -/
theorem follows_user {acts : List Act} (h : Along step Timely .boot acts) :
    Along step FollowsUser .boot acts :=
  h.of_invariant (I := Inv) (fun _ a hinv htimely => ⟨hinv.step htimely, hinv.follows a⟩) .boot

/-- `n` steps of the caller. -/
def goes (n : Nat) : List Act := List.replicate n (.caller .go)

/-- `n` steps of the event task. -/
def events (n : Nat) : List Act := List.replicate n .event

/-- Wi-Fi is joined at the boot, and the user disconnects before the address is handled. -/
def lateAddress : List Act :=
  .caller .initWifi :: goes 3 ++ [.radio .join, .caller .wifiDisconnect] ++ goes 5 ++ events 2

/-- The address of the network that was left appears after the disconnect. -/
theorem not_follows_user : ¬ ∀ acts : List Act, Along step FollowsUser .boot acts := by
  intro hall
  exact absurd (hall lateAddress) (by decide)

/-- The user disconnects once the address has been handled, and the network then leaves. -/
def handledAddress : List Act :=
  .caller .initWifi :: goes 3 ++ .radio .join :: events 5 ++ .caller .wifiDisconnect :: goes 5 ++
    .radio .leave :: events 4

theorem follows_user_handledAddress : Along step FollowsUser .boot handledAddress :=
  follows_user (by decide)

end Wifi
end JppDos
