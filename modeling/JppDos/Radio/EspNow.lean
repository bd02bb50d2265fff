import JppDos.Lib.Machine
import JppDos.Sdk.Broker

/-!
# Sending ESP-NOW packets

The app's task hands a packet to the driver and waits on a binary semaphore; the driver's task
calls back once for each packet it took, writes the packet's status and gives the semaphore.
Neither the status nor the semaphore says which packet it is about, so the model notes by whose
callback a token was given; the code only sees whether there is one.
-/

namespace JppDos
namespace Radio

open Sdk

/-- `JPP_SDK_ESPNOW_DATA_MAX`. -/
def espnowDataMax : Nat := 250

/-- What `espnow_send_impl` returns: its status and what it wrote to `result`. -/
abbrev SendReturn : Type := BrokerStatus × Option (BrokerResult Empty)

/-- The arguments of `espnow_send_impl`; a missing one is a null pointer. -/
structure SendArgs where
  peerMac : Option (List UInt8)
  data : Option (List UInt8)
  hasResult : Bool
  deriving DecidableEq

/-- What the driver and the heap answer until the packet is handed over. -/
structure Driver where
  /-- `esp_wifi_start` succeeds. -/
  wifiStarts : Bool
  /-- `esp_now_init` succeeds. -/
  nowInits : Bool
  /-- The receive queue and the semaphore are allocated. -/
  allocates : Bool
  /-- `esp_now_is_peer_exist`. -/
  peerExists : Bool
  /-- `esp_now_add_peer` succeeds. -/
  peerAdds : Bool
  deriving DecidableEq

/-- Where the app's task stands in `espnow_send_impl`. -/
inductive SendStage
  | idle
  /-- The semaphore is drained and `esp_now_send` not called. -/
  | drained
  /-- In `xSemaphoreTake`, for the packet with this number. -/
  | waiting (packet : Nat)
  /-- The semaphore is taken and `s_last_send_status` not read. -/
  | woken (packet : Nat)
  deriving DecidableEq

/-- What the two tasks share, and where each of them stands. -/
structure EspNow where
  /-- `s_wifi_up`. -/
  wifiUp : Bool
  /-- `s_espnow_ready`. -/
  ready : Bool
  /-- `s_send_sem`: empty, or given by the callback of this packet. -/
  sendSem : Option Nat
  /-- `s_last_send_status == ESP_NOW_SEND_SUCCESS`. -/
  lastSendStatus : Bool
  stage : SendStage
  /-- The packets that the driver took and has not called back for. -/
  unanswered : List Nat
  /-- `espnow_send_cb` has written the status of this packet and not given the semaphore. -/
  inCallback : Option Nat
  /-- The number of the next packet that the driver takes. -/
  nextPacket : Nat
  /-- The callbacks so far: the packets with their statuses. -/
  called : List (Nat × Bool)
  /-- What the calls returned, with the packet if the driver took it. -/
  returned : List (Option Nat × SendReturn)
  deriving DecidableEq

/-- After power-up. -/
def EspNow.boot : EspNow where
  wifiUp := false
  ready := false
  sendSem := none
  lastSendStatus := false
  stage := .idle
  unanswered := []
  inCallback := none
  nextPacket := 0
  called := []
  returned := []

/-- `espnow_wifi_ensure_started`. -/
def espnowWifiEnsureStarted (d : Driver) (s : EspNow) : Bool × EspNow :=
  if s.wifiUp then (true, s)
  else if d.wifiStarts then (true, { s with wifiUp := true })
  else (false, s)

/-- `espnow_ensure_ready`; a new semaphore is empty. -/
def espnowEnsureReady (d : Driver) (s : EspNow) : Bool × EspNow :=
  if s.ready then (true, s)
  else
    let (started, s) := espnowWifiEnsureStarted d s
    if !started then (false, s)
    else if !d.nowInits then (false, s)
    else if !d.allocates then (false, s)
    else (true, { s with sendSem := none, ready := true })

/-- The call ends. -/
def EspNow.return (s : EspNow) (packet : Option Nat) (r : SendReturn) : EspNow :=
  { s with stage := .idle, returned := s.returned ++ [(packet, r)] }

/-- The call ends with an error. -/
def EspNow.fail (s : EspNow) (packet : Option Nat) (code : String) : EspNow :=
  s.return packet (.ok, some (errorResult code))

/-- `espnow_send_impl` up to the call of `esp_now_send`: the semaphore is drained last. -/
def espnowSendBegin (args : SendArgs) (d : Driver) (s : EspNow) : EspNow :=
  match args.peerMac, args.data, args.hasResult with
  | some _, some data, true =>
      if espnowDataMax < data.length then s.fail none "TOO_LARGE"
      else
        let (isReady, s) := espnowEnsureReady d s
        if !isReady then s.fail none "ESPNOW_INIT_FAILED"
        else if !d.peerExists && !d.peerAdds then s.fail none "ESPNOW_PEER_ADD_FAILED"
        else { s with sendSem := none, stage := .drained }
  | _, _, _ => s.return none (.invalidArgument, none)

/-- `esp_now_send` returns. -/
def espnowHandOver (accepted : Bool) (s : EspNow) : EspNow :=
  if accepted then
    { s with stage := .waiting s.nextPacket, unanswered := s.unanswered ++ [s.nextPacket],
             nextPacket := s.nextPacket + 1 }
  else s.fail none "ESPNOW_SEND_FAILED"

/-- The wait for the semaphore ends: it is taken, or a second has passed without it. -/
def espnowWait (packet : Nat) (s : EspNow) : EspNow :=
  match s.sendSem with
  | some _ => { s with sendSem := none, stage := .woken packet }
  | none => s.fail (some packet) "ESPNOW_SEND_TIMEOUT"

/-- The end of `espnow_send_impl`. -/
def espnowConclude (packet : Nat) (s : EspNow) : EspNow :=
  if s.lastSendStatus then s.return (some packet) (.ok, some okResult)
  else s.fail (some packet) "ESPNOW_SEND_FAILED"

/-- What the tasks do between two points at which they can be switched. -/
inductive SendStep
  /-- The app calls `espnow_send_impl`. -/
  | call (args : SendArgs) (driver : Driver)
  /-- `esp_now_send` takes the packet or refuses it. -/
  | handOver (accepted : Bool)
  /-- The wait ends. -/
  | wait
  /-- The status is read. -/
  | conclude
  /-- `espnow_send_cb` for one of the packets writes its status. -/
  | callback (packet : Nat) (success : Bool)
  /-- The callback gives the semaphore, which holds one token at most. -/
  | give
  /-- The app's task is deleted. -/
  | kill
  deriving DecidableEq

/-- The tasks of `espnow_send_impl` and `espnow_send_cb` take a step; a step that is not
possible now does nothing. -/
def sendStep (s : EspNow) : SendStep → EspNow × List Empty
  | .call args driver =>
      match s.stage with
      | .idle => (espnowSendBegin args driver s, [])
      | _ => (s, [])
  | .handOver accepted =>
      match s.stage with
      | .drained => (espnowHandOver accepted s, [])
      | _ => (s, [])
  | .wait =>
      match s.stage with
      | .waiting packet => (espnowWait packet s, [])
      | _ => (s, [])
  | .conclude =>
      match s.stage with
      | .woken packet => (espnowConclude packet s, [])
      | _ => (s, [])
  | .callback packet success =>
      if packet ∈ s.unanswered ∧ s.inCallback = none then
        ({ s with lastSendStatus := success, inCallback := some packet,
                  unanswered := s.unanswered.erase packet,
                  called := s.called ++ [(packet, success)] }, [])
      else (s, [])
  | .give =>
      match s.inCallback with
      | some packet =>
          ({ s with sendSem := some (s.sendSem.getD packet), inCallback := none }, [])
      | none => (s, [])
  | .kill => ({ s with stage := .idle }, [])

/-- A success is reported for a packet that the driver took, and its callback reported it. -/
def OwnStatus (s : EspNow) : Prop :=
  ∀ packet r, (packet, r) ∈ s.returned → r = (.ok, some okResult) →
    ∃ i, packet = some i ∧ (i, true) ∈ s.called

/-- A packet is taken fresh: no earlier packet waits for its callback, and none has left a
success behind together with a token that is not drained. -/
def Fresh (s : EspNow) : SendStep → Prop
  | .handOver true =>
      s.stage = .drained → s.unanswered = [] ∧
        (s.lastSendStatus = true → s.sendSem = none ∧ s.inCallback = none)
  | _ => True

theorem OwnStatus.of_same {s s' : EspNow} (h : OwnStatus s) (hreturned : s'.returned = s.returned)
    (hcalled : s.called ⊆ s'.called) : OwnStatus s' := by
  intro packet r hr hok
  rw [hreturned] at hr
  obtain ⟨i, hpacket, hi⟩ := h packet r hr hok
  exact ⟨i, hpacket, hcalled hi⟩

theorem OwnStatus.return {s : EspNow} (h : OwnStatus s) {packet : Option Nat} {r : SendReturn}
    (hr : r = (.ok, some okResult) → ∃ i, packet = some i ∧ (i, true) ∈ s.called) :
    OwnStatus (s.return packet r) := by
  intro packet' r' hmem hok
  rcases List.mem_append.mp hmem with hold | hnew
  · exact h packet' r' hold hok
  · obtain ⟨rfl, rfl⟩ := Prod.mk.inj (List.mem_singleton.mp hnew)
    exact hr hok

theorem OwnStatus.fail {s : EspNow} (h : OwnStatus s) (packet : Option Nat) (code : String) :
    OwnStatus (s.fail packet code) :=
  h.return fun herror => nomatch congrArg (fun r => r.2.map BrokerResult.ok) herror

/-- What holds of the status and the semaphore while a packet is on its way. -/
def StageSettled (s : EspNow) : SendStage → Prop
  | .idle | .drained => True
  | .waiting i =>
      (∀ j ∈ s.unanswered, j = i) ∧
        (s.lastSendStatus = true →
          (i, true) ∈ s.called ∨ (s.sendSem = none ∧ s.inCallback = none))
  | .woken i => (∀ j ∈ s.unanswered, j = i) ∧ (s.lastSendStatus = true → (i, true) ∈ s.called)

/-- The successes so far are the packets' own, and that of the packet on its way will be. -/
structure Settled (s : EspNow) : Prop where
  own : OwnStatus s
  stage : StageSettled s s.stage

theorem settled_boot : Settled .boot := ⟨nofun, trivial⟩

theorem OwnStatus.settled_return {s : EspNow} {packet : Option Nat} {r : SendReturn}
    (h : OwnStatus (s.return packet r)) : Settled (s.return packet r) := ⟨h, trivial⟩

theorem OwnStatus.settled_fail {s : EspNow} (h : OwnStatus s) (packet : Option Nat)
    (code : String) : Settled (s.fail packet code) := (h.fail packet code).settled_return

/-- Getting ready touches neither the packets nor what was reported. -/
theorem espnowEnsureReady_frame (d : Driver) (s : EspNow) :
    ∃ wifiUp ready sendSem, (espnowEnsureReady d s).2 =
      { s with wifiUp := wifiUp, ready := ready, sendSem := sendSem } := by
  unfold espnowEnsureReady espnowWifiEnsureStarted
  dsimp only
  repeat' split
  all_goals exact ⟨_, _, _, rfl⟩

/-- The call returns without a packet, or the semaphore is drained. -/
theorem espnowSendBegin_cases (args : SendArgs) (d : Driver) (s : EspNow) :
    ∃ wifiUp ready sendSem,
      (∃ r : SendReturn, r ≠ (.ok, some okResult) ∧ espnowSendBegin args d s =
        { s with wifiUp := wifiUp, ready := ready, sendSem := sendSem }.return none r) ∨
      espnowSendBegin args d s =
        { s with wifiUp := wifiUp, ready := ready, sendSem := none, stage := .drained } := by
  have herror : ∀ code, ((.ok, some (errorResult code)) : SendReturn) ≠ (.ok, some okResult) :=
    fun code h => nomatch congrArg (fun r : SendReturn => r.2.map BrokerResult.ok) h
  have hinvalid : ((.invalidArgument, none) : SendReturn) ≠ (.ok, some okResult) :=
    fun h => nomatch congrArg Prod.fst h
  obtain ⟨wifiUp, ready, sendSem, hframe⟩ := espnowEnsureReady_frame d s
  obtain ⟨peerMac, data, hasResult⟩ := args
  rw [espnowSendBegin]
  generalize espnowEnsureReady d s = p at hframe ⊢
  obtain ⟨isReady, s'⟩ := p
  obtain rfl : s' = _ := hframe
  split
  · dsimp only
    split_ifs
    · exact ⟨s.wifiUp, s.ready, s.sendSem, .inl ⟨_, herror _, rfl⟩⟩
    · exact ⟨_, _, _, .inl ⟨_, herror _, rfl⟩⟩
    · exact ⟨_, _, _, .inl ⟨_, herror _, rfl⟩⟩
    · exact ⟨_, _, sendSem, .inr rfl⟩
  · exact ⟨s.wifiUp, s.ready, s.sendSem, .inl ⟨_, hinvalid, rfl⟩⟩

theorem OwnStatus.begin {s : EspNow} (h : OwnStatus s) (args : SendArgs) (d : Driver) :
    Settled (espnowSendBegin args d s) := by
  obtain ⟨wifiUp, ready, sendSem, ⟨r, hr, heq⟩ | heq⟩ := espnowSendBegin_cases args d s
  · rw [heq]
    have hsame : OwnStatus { s with wifiUp := wifiUp, ready := ready, sendSem := sendSem } :=
      h.of_same rfl (List.Subset.refl _)
    exact (hsame.return fun hok => absurd hok hr).settled_return
  · rw [heq]
    exact ⟨h.of_same rfl (List.Subset.refl _), trivial⟩

/-- A fresh packet is the only one that is still to be called back for. -/
theorem Settled.handOver {s : EspNow} (h : Settled s) (hstage : s.stage = .drained)
    {accepted : Bool} (hfresh : Fresh s (.handOver accepted)) :
    Settled (espnowHandOver accepted s) := by
  cases accepted with
  | false => exact h.own.settled_fail _ _
  | true =>
      obtain ⟨hnone, hstatus⟩ := hfresh hstage
      refine ⟨h.own.of_same rfl (List.Subset.refl _), ?_, fun hlast => .inr (hstatus hlast)⟩
      intro j hj
      simpa [espnowHandOver, hnone] using hj

/-- A token that is there comes with the status of the packet that waits. -/
theorem Settled.wait {s : EspNow} (h : Settled s) {i : Nat} (hstage : s.stage = .waiting i) :
    Settled (espnowWait i s) := by
  obtain ⟨hown, hsettled⟩ := h
  rw [hstage] at hsettled
  obtain ⟨hothers, hstatus⟩ := hsettled
  rw [espnowWait]
  cases hsem : s.sendSem with
  | none => exact hown.settled_fail _ _
  | some j =>
      refine ⟨hown.of_same rfl (List.Subset.refl _), hothers, fun hlast => ?_⟩
      rcases hstatus hlast with hcalled | ⟨hnone, -⟩
      · exact hcalled
      · exact absurd hnone (by simp [hsem])

theorem Settled.conclude {s : EspNow} (h : Settled s) {i : Nat} (hstage : s.stage = .woken i) :
    Settled (espnowConclude i s) := by
  obtain ⟨hown, hsettled⟩ := h
  rw [hstage] at hsettled
  rw [espnowConclude]
  cases hlast : s.lastSendStatus with
  | false => exact hown.settled_fail _ _
  | true => exact (hown.return fun _ => ⟨i, rfl, hsettled.2 hlast⟩).settled_return

/-- A callback is that of the packet on its way, or no packet is. -/
theorem Settled.callback {s : EspNow} (h : Settled s) {j : Nat} (hj : j ∈ s.unanswered)
    (success : Bool) :
    Settled { s with lastSendStatus := success, inCallback := some j,
                     unanswered := s.unanswered.erase j,
                     called := s.called ++ [(j, success)] } := by
  obtain ⟨hown, hsettled⟩ := h
  refine ⟨hown.of_same rfl (List.subset_append_left _ _), ?_⟩
  have hnew : ∀ i, (∀ k ∈ s.unanswered, k = i) → success = true →
      (i, true) ∈ s.called ++ [(j, success)] := by
    rintro i hothers rfl
    rw [hothers j hj]
    exact List.mem_append_right _ List.mem_cons_self
  cases hstage : s.stage with
  | idle => trivial
  | drained => trivial
  | waiting i =>
      rw [hstage] at hsettled
      exact ⟨fun k hk => hsettled.1 k (List.mem_of_mem_erase hk),
        fun hlast => .inl (hnew i hsettled.1 hlast)⟩
  | woken i =>
      rw [hstage] at hsettled
      exact ⟨fun k hk => hsettled.1 k (List.mem_of_mem_erase hk), hnew i hsettled.1⟩

theorem Settled.give {s : EspNow} (h : Settled s) {j : Nat} (hj : s.inCallback = some j) :
    Settled { s with sendSem := some (s.sendSem.getD j), inCallback := none } := by
  obtain ⟨hown, hsettled⟩ := h
  refine ⟨hown.of_same rfl (List.Subset.refl _), ?_⟩
  cases hstage : s.stage with
  | idle => trivial
  | drained => trivial
  | waiting i =>
      rw [hstage] at hsettled
      refine ⟨hsettled.1, fun hlast => ?_⟩
      rcases hsettled.2 hlast with hcalled | ⟨-, hnone⟩
      · exact .inl hcalled
      · exact absurd hnone (by simp [hj])
  | woken i =>
      rw [hstage] at hsettled
      exact hsettled

/-- One step, if the packet that it hands over is fresh. -/
theorem Settled.step {s : EspNow} {step : SendStep} (h : Settled s) (hfresh : Fresh s step) :
    Settled (sendStep s step).1 := by
  cases step with
  | call args d =>
      rw [sendStep]
      split
      · exact h.own.begin args d
      · exact h
  | handOver accepted =>
      rw [sendStep]
      split
      · exact h.handOver ‹_› hfresh
      · exact h
  | wait =>
      rw [sendStep]
      split
      · exact h.wait ‹_›
      · exact h
  | conclude =>
      rw [sendStep]
      split
      · exact h.conclude ‹_›
      · exact h
  | callback j success =>
      rw [sendStep]
      split
      · exact h.callback (And.left ‹_›) success
      · exact h
  | give =>
      rw [sendStep]
      split
      · exact h.give ‹_›
      · exact h
  | kill => exact ⟨h.own.of_same rfl (List.Subset.refl _), trivial⟩

/-- The numbers of the packets so far. -/
structure Numbered (s : EspNow) : Prop where
  unanswered_lt : ∀ i ∈ s.unanswered, i < s.nextPacket
  called_lt : ∀ c ∈ s.called, c.1 < s.nextPacket

theorem numbered_boot : Numbered .boot := ⟨nofun, nofun⟩

theorem Numbered.of_same {s s' : EspNow} (h : Numbered s)
    (hunanswered : s'.unanswered = s.unanswered)
    (hcalled : s'.called = s.called) (hnext : s'.nextPacket = s.nextPacket) : Numbered s' := by
  constructor
  · rw [hunanswered, hnext]
    exact h.unanswered_lt
  · rw [hcalled, hnext]
    exact h.called_lt

theorem Numbered.handOver {s : EspNow} (h : Numbered s) (accepted : Bool) :
    Numbered (espnowHandOver accepted s) := by
  cases accepted with
  | false => exact h.of_same rfl rfl rfl
  | true =>
      constructor
      · intro i hi
        rcases List.mem_append.mp hi with hold | hnew
        · exact Nat.lt_succ_of_lt (h.unanswered_lt i hold)
        · obtain rfl := List.mem_singleton.mp hnew
          exact Nat.lt_succ_self _
      · exact fun c hc => Nat.lt_succ_of_lt (h.called_lt c hc)

theorem Numbered.callback {s : EspNow} (h : Numbered s) {j : Nat} (hj : j ∈ s.unanswered)
    (success : Bool) :
    Numbered { s with lastSendStatus := success, inCallback := some j,
                      unanswered := s.unanswered.erase j,
                      called := s.called ++ [(j, success)] } := by
  constructor
  · exact fun i hi => h.unanswered_lt i (List.mem_of_mem_erase hi)
  · intro c hc
    rcases List.mem_append.mp hc with hold | hnew
    · exact h.called_lt c hold
    · obtain rfl := List.mem_singleton.mp hnew
      exact h.unanswered_lt j hj

theorem Numbered.step {s : EspNow} (h : Numbered s) (step : SendStep) :
    Numbered (sendStep s step).1 := by
  cases step with
  | call args d =>
      rw [sendStep]
      split
      · obtain ⟨_, _, _, ⟨_, -, heq⟩ | heq⟩ := espnowSendBegin_cases args d s <;> rw [heq] <;>
          exact h.of_same rfl rfl rfl
      · exact h
  | handOver accepted =>
      rw [sendStep]
      split
      · exact h.handOver accepted
      · exact h
  | wait =>
      rw [sendStep]
      split
      · rw [espnowWait]
        split <;> exact h.of_same rfl rfl rfl
      · exact h
  | conclude =>
      rw [sendStep]
      split
      · rw [espnowConclude]
        split <;> exact h.of_same rfl rfl rfl
      · exact h
  | callback j success =>
      rw [sendStep]
      split
      · exact h.callback (And.left ‹_›) success
      · exact h
  | give =>
      rw [sendStep]
      split <;> exact h.of_same rfl rfl rfl
  | kill => exact h.of_same rfl rfl rfl

/-- A packet whose callback has not run is answered with a success. -/
theorem not_ownStatus {s : EspNow} {i : Nat} (hr : (some i, (.ok, some okResult)) ∈ s.returned)
    (hi : (i, true) ∉ s.called) : ¬ OwnStatus s := by
  intro hown
  obtain ⟨j, hj, hcalled⟩ := hown _ _ hr rfl
  obtain rfl := Option.some.inj hj
  exact hi hcalled

/-- The callback of an earlier packet that is still to run can answer for the next packet. -/
theorem unanswered_misleads {s : EspNow} (h : Numbered s) (hstage : s.stage = .drained) {j : Nat}
    (hj : j ∈ s.unanswered) :
    ¬ OwnStatus (Machine.run sendStep s
      [.handOver true, .give, .callback j true, .give, .wait, .conclude]) := by
  have hfresh : (s.nextPacket, true) ∉ s.called := fun hmem =>
    Nat.lt_irrefl _ (h.called_lt _ hmem)
  have hlt := h.unanswered_lt j hj
  have hcalled : (s.nextPacket, true) ∉ s.called ++ [(j, true)] := by
    simp [hfresh, Nat.ne_of_gt hlt]
  cases hin : s.inCallback <;>
    refine not_ownStatus (i := s.nextPacket) ?_ ?_ <;>
    simp [sendStep, hstage, espnowHandOver, hin, hj, espnowWait, espnowConclude,
      EspNow.return, hcalled]

/-- So can a success that an earlier packet has left behind with its token. -/
theorem leftover_misleads {s : EspNow} (h : Numbered s) (hstage : s.stage = .drained)
    (hlast : s.lastSendStatus = true) (hleft : s.sendSem ≠ none ∨ s.inCallback ≠ none) :
    ¬ OwnStatus (Machine.run sendStep s [.handOver true, .give, .wait, .conclude]) := by
  have hfresh : (s.nextPacket, true) ∉ s.called := fun hmem =>
    Nat.lt_irrefl _ (h.called_lt _ hmem)
  cases hin : s.inCallback <;> cases hsem : s.sendSem <;>
    refine not_ownStatus (i := s.nextPacket) ?_ ?_ <;>
    simp_all [sendStep, espnowHandOver, espnowWait, espnowConclude, EspNow.return]

/-- A packet that is not taken fresh can be answered with the success of another one. -/
theorem stale_misleads {s : EspNow} {step : SendStep} (h : Numbered s) (hstale : ¬ Fresh s step) :
    ∃ rest, ¬ OwnStatus (Machine.run sendStep s (step :: rest)) := by
  cases step with
  | handOver accepted =>
      cases accepted with
      | false => exact absurd trivial hstale
      | true =>
          obtain ⟨hstage, hnot⟩ := Classical.not_imp.mp hstale
          cases hunanswered : s.unanswered with
          | cons j rest =>
              exact ⟨_, unanswered_misleads h hstage (hunanswered ▸ List.mem_cons_self)⟩
          | nil =>
              have hleft : ¬ (s.lastSendStatus = true → s.sendSem = none ∧ s.inCallback = none) :=
                fun hstatus => hnot ⟨hunanswered, hstatus⟩
              obtain ⟨hlast, htoken⟩ := Classical.not_imp.mp hleft
              exact ⟨_, leftover_misleads h hstage hlast (not_and_or.mp htoken)⟩
  | _ => exact absurd trivial hstale

/-- In a run all of whose packets are taken fresh, a success that is reported for a packet was
reported by the packet's own callback; and a run up to a packet that is not taken fresh can
go on to a success that was not. -/
theorem sends_own_status (steps : List SendStep) :
    (Machine.Along sendStep Fresh .boot steps →
      ∀ n, OwnStatus (Machine.run sendStep .boot (steps.take n))) ∧
    ∀ step, ¬ Fresh (Machine.run sendStep .boot steps) step →
      ∃ rest, ¬ OwnStatus (Machine.run sendStep .boot (steps ++ step :: rest)) := by
  constructor
  · intro hfresh n
    have hcut : steps.take n ++ steps.drop n = steps := List.take_append_drop n steps
    rw [← hcut, Machine.along_append] at hfresh
    exact (Machine.Along.invariant (fun _ _ h hstep => h.step hstep) hfresh.1 settled_boot).own
  · intro step hstale
    have hnumbered : Numbered (Machine.run sendStep .boot steps) :=
      Machine.run_invariant (fun _ step h => h.step step) steps numbered_boot
    obtain ⟨rest, hrest⟩ := stale_misleads hnumbered hstale
    exact ⟨rest, by rwa [Machine.run_append]⟩

instance decidableFresh (s : EspNow) : ∀ step, Decidable (Fresh s step)
  | .handOver true => inferInstanceAs (Decidable (_ → _ ∧ (_ → _)))
  | .handOver false => inferInstanceAs (Decidable True)
  | .call _ _ => inferInstanceAs (Decidable True)
  | .wait => inferInstanceAs (Decidable True)
  | .conclude => inferInstanceAs (Decidable True)
  | .callback _ _ => inferInstanceAs (Decidable True)
  | .give => inferInstanceAs (Decidable True)
  | .kill => inferInstanceAs (Decidable True)

/-- A call of `espnow_send_impl` with one byte, and a driver that does all it is asked. -/
def plainCall : SendStep :=
  .call ⟨some [1, 2, 3, 4, 5, 6], some [42], true⟩ ⟨true, true, true, false, true⟩

/-- A packet whose callback comes in time. -/
theorem sends_own_status_in_time :
    OwnStatus (Machine.run sendStep .boot
      [plainCall, .handOver true, .callback 0 true, .give, .wait, .conclude]) :=
  (sends_own_status [plainCall, .handOver true, .callback 0 true, .give, .wait, .conclude]).1
    (by decide) 6

/-- The first packet times out; its callback comes after the second packet is handed over, and
the second packet's own callback reports a failure later. -/
def timedOutRun : List SendStep :=
  [plainCall, .handOver true, .wait, plainCall, .handOver true, .callback 0 true, .give, .wait,
    .conclude, .callback 1 false, .give]

/-- The second packet is reported as sent on the word of the first one's callback. -/
theorem success_of_timed_out :
    (Machine.run sendStep .boot timedOutRun).called = [(0, true), (1, false)] ∧
      (Machine.run sendStep .boot timedOutRun).returned =
        [(some 0, (.ok, some (errorResult "ESPNOW_SEND_TIMEOUT"))),
          (some 1, (.ok, some okResult))] ∧
      ¬ OwnStatus (Machine.run sendStep .boot timedOutRun) := by
  refine ⟨by decide, by decide, ?_⟩
  exact not_ownStatus (i := 1) (by decide) (by decide)

end Radio
end JppDos
