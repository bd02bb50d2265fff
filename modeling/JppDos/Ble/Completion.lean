import JppDos.Ble.Client

/-!
# Whose completion a client operation takes

One semaphore serves all operations of the client, and a flag tells the loss of a link that a
disconnect waits for from any other.
-/

namespace JppDos
namespace Ble

open Sdk

/-- The operation whose token the app's task waits for. -/
def ClientStage.awaited : ClientStage → Option Nat
  | .waiting _ op => some op
  | _ => none

/-- The operation, when it is a disconnect. -/
def ClientStage.awaitedDisc : ClientStage → Option Nat
  | .waiting (.terminate _ _) op => some op
  | _ => none

/-- A token is there only when an operation waits. -/
def NoTokenLeft (s : Client) : Prop := s.done ≠ none → s.stage.awaited ≠ none

/-- A token that an operation consumes was given for it. -/
def OwnToken (e : ClientEvent) : Prop := ∀ op token, e = .took op token → token = op

/-- A link whose loss is reported while `s_awaiting_disc` is set is the one that the waiting
disconnect terminates; the wait of a disconnect does not time out while a callback is about to
give the semaphore; and an app is not stopped while an operation waits or the flag is set. -/
def Orderly (s : Client) : ClientStep → Prop
  | .linkDown handle =>
      s.callback = none → s.awaitingDisc = true → ∀ l ∈ s.links, l.handle = handle →
        s.stage.awaitedDisc ≠ none ∧ l.terminating = s.stage.awaitedDisc
  | .endWait => s.stage.awaitedDisc ≠ none → s.done = none → s.callback = none
  | .restart => s.awaitingDisc = false ∧ s.stage.awaited = none
  | _ => True

/-- The task stands in a disconnect whose end is not reported yet. -/
def ClientStage.InDisconnect : ClientStage → Prop
  | .calling (.terminate _ _) | .waiting (.terminate _ _) _ | .timedOut _ _ => True
  | _ => False

/-- The host is done with everything, and so are its callbacks. -/
structure Quiet (s : Client) : Prop where
  done : s.done = none
  callback : s.callback = none
  requests : s.requests = []

/-- What the host still does and the token are for the operation that waits. -/
structure Matched (s : Client) : Prop where
  done : ∀ token, s.done = some token →
    s.callback = none ∧ s.requests = [] ∧ s.awaitingDisc = false ∧ s.stage.awaited = some token
  callback : ∀ op, s.callback = some op →
    s.done = none ∧ s.requests = [] ∧ s.awaitingDisc = false ∧ s.stage.awaited = some op
  requests : ∀ r ∈ s.requests,
    s.done = none ∧ s.callback = none ∧ s.stage = .waiting r.call r.op ∧
      ∀ conn slot, r.call ≠ .terminate conn slot
  awaiting : s.awaitingDisc = true → s.stage.InDisconnect

theorem Quiet.matched {s : Client} (h : Quiet s)
    (hawaiting : s.awaitingDisc = true → s.stage.InDisconnect) : Matched s where
  done := fun _ hdone => nomatch h.done.symm.trans hdone
  callback := fun _ hop => nomatch h.callback.symm.trans hop
  requests := fun _ hr => absurd (h.requests ▸ hr) List.not_mem_nil
  awaiting := hawaiting

theorem matched_boot : Matched .boot := Quiet.matched ⟨rfl, rfl, rfl⟩ nofun

theorem Quiet.matched_of_false {s : Client} (h : Quiet s) (hawaiting : s.awaitingDisc = false) :
    Matched s := h.matched fun hset => nomatch hawaiting.symm.trans hset

theorem Quiet.of_same {s s' : Client} (h : Quiet s) (hdone : s'.done = s.done)
    (hcallback : s'.callback = s.callback) (hrequests : s'.requests = s.requests) : Quiet s' :=
  ⟨hdone.trans h.done, hcallback.trans h.callback, hrequests.trans h.requests⟩

theorem Matched.noTokenLeft {s : Client} (h : Matched s) : NoTokenLeft s := by
  intro hdone
  obtain ⟨token, htoken⟩ := Option.ne_none_iff_exists'.mp hdone
  exact (h.done token htoken).2.2.2 ▸ Option.some_ne_none token

/-- Where no operation waits, the host has nothing to do. -/
theorem Matched.quiet {s : Client} (h : Matched s) (hstage : s.stage.awaited = none) :
    Quiet s := by
  constructor
  · by_contra hdone
    exact h.noTokenLeft hdone hstage
  · refine Option.eq_none_iff_forall_ne_some.mpr fun op hop => ?_
    exact nomatch hstage.symm.trans (h.callback op hop).2.2.2
  · refine List.eq_nil_iff_forall_not_mem.mpr fun r hr => ?_
    rw [(h.requests r hr).2.2.1] at hstage
    exact nomatch hstage

theorem Matched.awaiting_false {s : Client} (h : Matched s) (hstage : ¬ s.stage.InDisconnect) :
    s.awaitingDisc = false := by
  by_contra hawaiting
  exact hstage (h.awaiting (Bool.not_eq_false _ ▸ hawaiting))

theorem ownToken_of_onlyResults {events : List ClientEvent} (h : OnlyResults events) :
    ∀ e ∈ events, OwnToken e := by
  rintro e he op token rfl
  obtain ⟨_, hresult⟩ | ⟨_, hresult⟩ := h _ he <;> cases hresult

/-- A step after which the invariant holds and whose tokens match. -/
def KeepsMatched (p : Client × List ClientEvent) : Prop :=
  Matched p.1 ∧ ∀ e ∈ p.2, OwnToken e

theorem Matched.keeps_nil {s : Client} (h : Matched s) : KeepsMatched (s, []) := ⟨h, nofun⟩

theorem PlainEffect.keepsMatched {s : Client} {p : Client × List ClientEvent}
    (h : PlainEffect s p) (hquiet : Quiet s) (hawaiting : s.awaitingDisc = false) :
    KeepsMatched p := by
  cases h with
  | mk slots status io opInProgress clientLocked radioLocked stage events _ _ hevents =>
      exact ⟨Quiet.matched_of_false (hquiet.of_same rfl rfl rfl) hawaiting,
        ownToken_of_onlyResults hevents⟩

theorem BeginEffect.keepsMatched {s : Client} {address : Option CText.CStr}
    {p : Client × List ClientEvent} (h : BeginEffect s address p) (hs : Matched s)
    (hstage : s.stage = .idle) : KeepsMatched p := by
  have hquiet : Quiet s := hs.quiet (by rw [hstage]; rfl)
  have hawaiting : s.awaitingDisc = false := hs.awaiting_false (by rw [hstage]; exact id)
  cases h with
  | plain h => exact h.keepsMatched hquiet hawaiting
  | limit =>
      refine ⟨hs, fun e he op token heq => ?_⟩
      rw [List.mem_singleton.mp he] at heq
      cases heq
  | clears conn result =>
      exact ⟨Quiet.matched_of_false (hquiet.of_same rfl rfl rfl) hawaiting,
        ownToken_of_onlyResults (onlyResults_returned _)⟩
  | reboots => exact ⟨Quiet.matched ⟨rfl, rfl, rfl⟩ nofun, nofun⟩
  | connects =>
      exact Matched.keeps_nil (Quiet.matched_of_false (hquiet.of_same rfl rfl rfl) hawaiting)
  | terminates =>
      exact Matched.keeps_nil (Quiet.matched (hquiet.of_same rfl rfl rfl) fun _ => trivial)

theorem Quiet.endConnect {s : Client} (h : Quiet s) (hawaiting : s.awaitingDisc = false)
    (conn slot : Nat) (address : CText.CStr) : KeepsMatched (endConnect conn slot address s) := by
  refine ⟨Quiet.matched_of_false ?_ hawaiting, ownToken_of_onlyResults (onlyResults_returned _)⟩
  exact h.of_same rfl rfl rfl

theorem Quiet.endDisconnect {s : Client} (h : Quiet s) (hawaiting : s.awaitingDisc = false)
    (conn slot : Nat) : KeepsMatched (endDisconnect conn slot s) := by
  refine ⟨Quiet.matched_of_false ?_ hawaiting, ownToken_of_onlyResults (onlyResults_returned _)⟩
  exact h.of_same rfl rfl rfl

theorem Matched.accept {s : Client} (h : Matched s) {call : HostCall}
    (hstage : s.stage = .calling call) : Matched (accept call s) := by
  have hquiet : Quiet s := h.quiet (by rw [hstage]; rfl)
  have hadded : ∀ call : HostCall, (∀ conn slot, call ≠ .terminate conn slot) →
      ∀ r ∈ s.requests ++ [⟨s.nextOp, call, s.session⟩], r = ⟨s.nextOp, call, s.session⟩ := by
    intro call _ r hr
    rw [hquiet.requests] at hr
    exact List.mem_singleton.mp hr
  have hother : (∀ conn slot, call ≠ .terminate conn slot) →
      Matched { s with nextOp := s.nextOp + 1, stage := .waiting call s.nextOp,
                       requests := s.requests ++ [⟨s.nextOp, call, s.session⟩] } := by
    intro hcall
    constructor
    · exact fun _ htoken => nomatch hquiet.done.symm.trans htoken
    · exact fun _ hop => nomatch hquiet.callback.symm.trans hop
    · intro r hr
      obtain rfl := hadded call hcall r hr
      exact ⟨hquiet.done, hquiet.callback, rfl, hcall⟩
    · intro hset
      have hin := h.awaiting hset
      rw [hstage] at hin
      cases call with
      | terminate conn slot => exact absurd rfl (hcall conn slot)
      | _ => exact hin.elim
  cases call with
  | terminate conn slot =>
      exact Quiet.matched (hquiet.of_same rfl rfl rfl) fun _ => trivial
  | _ => exact hother nofun

theorem Matched.hostReturn {s : Client} (h : Matched s) {call : HostCall}
    (hstage : s.stage = .calling call) (rc : Int) (mtu : Nat) (hasMemory : Bool) :
    KeepsMatched (hostReturn rc mtu hasMemory call s) := by
  have hquiet : Quiet s := h.quiet (by rw [hstage]; rfl)
  have hawaiting : (∀ conn slot, call ≠ .terminate conn slot) → s.awaitingDisc = false := by
    refine fun hcall => h.awaiting_false fun hin => ?_
    rw [hstage] at hin
    cases call with
    | terminate conn slot => exact hcall conn slot rfl
    | _ => exact hin.elim
  rw [Ble.hostReturn]
  split_ifs with hmemory hrc
  · cases call with
    | write slot data => exact (endClient_effect s _).keepsMatched hquiet (hawaiting nofun)
    | _ => exact nomatch hmemory
  · exact (h.accept hstage).keeps_nil
  · cases call with
    | connect => exact (endClient_effect s _).keepsMatched hquiet (hawaiting nofun)
    | exchangeMtu conn slot address =>
        exact hquiet.endConnect (hawaiting nofun) conn slot address
    | terminate conn slot =>
        have hcleared : Quiet { s with awaitingDisc := false } := hquiet.of_same rfl rfl rfl
        exact hcleared.endDisconnect rfl conn slot
    | _ => exact PlainEffect.keepsMatched (decline_plain trivial) hquiet (hawaiting nofun)

theorem Matched.endWait {s : Client} (h : Matched s) {call : HostCall} {op : Nat}
    (hstage : s.stage = .waiting call op) (horderly : Orderly s .endWait) :
    KeepsMatched (endWait call op s) := by
  cases hdone : s.done with
  | some token =>
      obtain ⟨hcallback, hrequests, hawaiting, hawaited⟩ := h.done token hdone
      unfold Ble.endWait
      rw [hdone]
      refine ⟨Quiet.matched_of_false ⟨rfl, hcallback, hrequests⟩ hawaiting,
        fun e he op' token' heq => ?_⟩
      obtain ⟨rfl, rfl⟩ := ClientEvent.took.inj (heq.symm.trans (List.mem_singleton.mp he))
      rw [hstage] at hawaited
      exact (Option.some.inj hawaited).symm
  | none =>
      cases call with
      | terminate conn slot =>
          have hdisc : s.stage.awaitedDisc = some op := by rw [hstage]; rfl
          have hcallback : s.callback = none :=
            horderly (hdisc ▸ Option.some_ne_none op) hdone
          have hrequests : s.requests = [] := by
            refine List.eq_nil_iff_forall_not_mem.mpr fun r hr => ?_
            obtain ⟨-, -, hwaiting, hcall⟩ := h.requests r hr
            obtain ⟨hterminate, -⟩ := ClientStage.waiting.inj (hwaiting.symm.trans hstage)
            exact hcall conn slot hterminate
          unfold Ble.endWait
          rw [hdone]
          exact Matched.keeps_nil (Quiet.matched ⟨rfl, hcallback, hrequests⟩ fun _ => trivial)
      | _ =>
          unfold Ble.endWait
          rw [hdone]
          exact h.keeps_nil

theorem Matched.resume {s : Client} (h : Matched s) {call : HostCall}
    (hstage : s.stage = .woken call) : KeepsMatched (resume call s) := by
  have hquiet : Quiet s := h.quiet (by rw [hstage]; rfl)
  have hawaiting : s.awaitingDisc = false := h.awaiting_false (by rw [hstage]; exact id)
  cases call with
  | connect conn slot address peer =>
      rw [Ble.resume]
      split_ifs
      · exact (endClient_effect s _).keepsMatched hquiet hawaiting
      · exact Matched.keeps_nil (Quiet.matched_of_false (hquiet.of_same rfl rfl rfl) hawaiting)
  | exchangeMtu conn slot address =>
      exact hquiet.endConnect hawaiting conn slot address
  | terminate conn slot =>
      exact hquiet.endDisconnect hawaiting conn slot
  | _ => exact PlainEffect.keepsMatched (resume_plain trivial) hquiet hawaiting

theorem Matched.complete {s : Client} (h : Matched s) {r : Request} (hr : r ∈ s.requests)
    (status : Int) (handle : Nat) : Matched (complete r status handle s) := by
  obtain ⟨hdone, -, hstage, hcall⟩ := h.requests r hr
  have hawaiting : s.awaitingDisc = false := by
    refine h.awaiting_false fun hin => ?_
    rw [hstage] at hin
    obtain ⟨op, call, session⟩ := r
    cases call with
    | terminate conn slot => exact hcall conn slot rfl
    | _ => exact hin.elim
  have hrest : s.requests.filter (fun r' => r'.op ≠ r.op) = [] := by
    refine List.filter_eq_nil_iff.mpr fun r' hr' => ?_
    have hwaiting := (h.requests r' hr').2.2.1
    obtain ⟨-, hop⟩ := ClientStage.waiting.inj (hwaiting.symm.trans hstage)
    simp [hop]
  have hall : ∀ s' : Client, s'.done = s.done → s'.callback = some r.op →
      s'.requests = s.requests.filter (fun r' => r'.op ≠ r.op) →
      s'.awaitingDisc = s.awaitingDisc → s'.stage = s.stage → Matched s' := by
    intro s' hdone' hcallback' hrequests' hawaiting' hstage'
    have hnone : s'.done = none := hdone'.trans hdone
    have hempty : s'.requests = [] := hrequests'.trans hrest
    have hfalse : s'.awaitingDisc = false := hawaiting'.trans hawaiting
    constructor
    · exact fun _ htoken => nomatch hnone.symm.trans htoken
    · intro op hop
      obtain rfl := Option.some.inj (hcallback'.symm.trans hop)
      exact ⟨hnone, hempty, hfalse, by rw [hstage', hstage]; rfl⟩
    · exact fun _ hr' => absurd (hempty ▸ hr') List.not_mem_nil
    · exact fun hset => nomatch hfalse.symm.trans hset
  rw [Ble.complete]
  split
  · split_ifs
    · exact hall _ rfl rfl rfl rfl rfl
    · exact hall _ rfl rfl rfl rfl rfl
  · exact hall _ rfl rfl rfl rfl rfl

theorem Matched.linkDown {s : Client} (h : Matched s) {l : Link} (hl : l ∈ s.links)
    (hcallback : s.callback = none) (horderly : Orderly s (.linkDown l.handle)) :
    Matched (linkDown l s) := by
  cases hset : s.awaitingDisc with
  | false =>
      rw [Ble.linkDown, if_neg (by simp [hset])]
      exact ⟨h.done, h.callback, h.requests, h.awaiting⟩
  | true =>
      obtain ⟨hdisc, hterminating⟩ := horderly hcallback hset l hl rfl
      obtain ⟨op, hop⟩ := Option.ne_none_iff_exists'.mp hdisc
      have hstage : ∃ conn slot, s.stage = .waiting (.terminate conn slot) op := by
        cases hs : s.stage with
        | waiting call op' =>
            rw [hs] at hop
            cases call with
            | terminate conn slot =>
                obtain rfl := Option.some.inj hop
                exact ⟨conn, slot, rfl⟩
            | _ => exact nomatch hop
        | _ => rw [hs] at hop; exact nomatch hop
      obtain ⟨conn, slot, hstage⟩ := hstage
      have hdone : s.done = none := by
        refine Option.eq_none_iff_forall_ne_some.mpr fun token htoken => ?_
        exact nomatch hset.symm.trans (h.done token htoken).2.2.1
      have hrequests : s.requests = [] := by
        refine List.eq_nil_iff_forall_not_mem.mpr fun r hr => ?_
        obtain ⟨-, -, hwaiting, hcall⟩ := h.requests r hr
        obtain ⟨hterminate, -⟩ := ClientStage.waiting.inj (hwaiting.symm.trans hstage)
        exact hcall conn slot hterminate
      rw [Ble.linkDown, if_pos hset, hterminating, hop]
      constructor
      · exact fun _ htoken => nomatch hdone.symm.trans htoken
      · intro op' hop'
        obtain rfl := Option.some.inj hop'
        exact ⟨hdone, hrequests, rfl, by
          change s.stage.awaited = some op
          rw [hstage]
          rfl⟩
      · exact fun _ hr => absurd (hrequests ▸ hr) List.not_mem_nil
      · exact nofun

theorem Matched.give {s : Client} (h : Matched s) {op : Nat} (hop : s.callback = some op) :
    Matched { s with done := some (s.done.getD op), callback := none } := by
  obtain ⟨hdone, hrequests, hawaiting, hstage⟩ := h.callback op hop
  constructor
  · intro token htoken
    rw [hdone] at htoken
    obtain rfl := Option.some.inj htoken
    exact ⟨rfl, hrequests, hawaiting, hstage⟩
  · exact nofun
  · exact fun _ hr => absurd (hrequests ▸ hr) List.not_mem_nil
  · exact fun hset => nomatch hawaiting.symm.trans hset

theorem Matched.step {s : Client} (h : Matched s) {step : ClientStep} (horderly : Orderly s step) :
    KeepsMatched (clientStep s step) := by
  cases step with
  | scan durationMs maxResults =>
      rw [clientStep]
      split_ifs with hidle
      · exact (beginScan_effect hidle durationMs maxResults).keepsMatched h hidle
      · exact h.keeps_nil
  | connect address =>
      rw [clientStep]
      split_ifs with hidle
      · exact (beginConnect_effect hidle address).keepsMatched h hidle
      · exact h.keeps_nil
  | readChar conn charUuid =>
      rw [clientStep]
      split_ifs with hidle
      · exact (beginRead_effect hidle conn charUuid).keepsMatched h hidle
      · exact h.keeps_nil
  | writeChar conn charUuid text =>
      rw [clientStep]
      split_ifs with hidle
      · exact (beginWrite_effect hidle conn charUuid text).keepsMatched h hidle
      · exact h.keeps_nil
  | disconnect conn =>
      rw [clientStep]
      split_ifs with hidle
      · exact (beginDisconnect_effect hidle conn).keepsMatched h hidle
      · exact h.keeps_nil
  | hostReturn rc mtu hasMemory =>
      rw [clientStep]
      split
      · exact h.hostReturn ‹_› rc mtu hasMemory
      · exact h.keeps_nil
  | endWait =>
      rw [clientStep]
      split
      · exact h.endWait ‹_› horderly
      · exact h.keeps_nil
  | resume =>
      rw [clientStep]
      split
      · exact h.resume ‹_›
      · rename_i conn slot hstage
        have hquiet : Quiet s := h.quiet (by rw [hstage]; rfl)
        have hcleared : Quiet { s with awaitingDisc := false } := hquiet.of_same rfl rfl rfl
        exact hcleared.endDisconnect rfl conn slot
      · exact h.keeps_nil
  | scanEvent addr rssi name data =>
      rw [clientStep]
      split_ifs
      · exact Matched.keeps_nil ⟨h.done, h.callback, h.requests, h.awaiting⟩
      · exact h.keeps_nil
  | readFragment off frag =>
      rw [clientStep]
      split_ifs
      · exact Matched.keeps_nil ⟨h.done, h.callback, h.requests, h.awaiting⟩
      · exact h.keeps_nil
  | charFound handle =>
      rw [clientStep]
      split_ifs
      · exact Matched.keeps_nil ⟨h.done, h.callback, h.requests, h.awaiting⟩
      · exact h.keeps_nil
  | complete op status handle =>
      rw [clientStep]
      split
      · rename_i r hfind
        split_ifs
        · exact (h.complete (List.mem_of_find?_eq_some hfind) status handle).keeps_nil
        · exact h.keeps_nil
      · exact h.keeps_nil
  | linkDown handle =>
      rw [clientStep]
      split
      · rename_i l hfind
        have hhandle : l.handle = handle := by simpa using List.find?_some hfind
        subst hhandle
        split_ifs with hcallback
        · exact (h.linkDown (List.mem_of_find?_eq_some hfind) hcallback horderly).keeps_nil
        · exact h.keeps_nil
      · exact h.keeps_nil
  | give =>
      rw [clientStep]
      split
      · exact (h.give ‹_›).keeps_nil
      · exact h.keeps_nil
  | restart =>
      obtain ⟨hawaiting, hstage⟩ := horderly
      have hquiet := h.quiet hstage
      exact Matched.keeps_nil (Quiet.matched_of_false (hquiet.of_same rfl rfl rfl) hawaiting)

/-- In every orderly run of the app's and the host's steps, a token is there only when an
operation waits, and the tokens that the operations consume are their own. -/
theorem tokens_matched (steps : List ClientStep)
    (horderly : Machine.Along clientStep Orderly .boot steps) :
    (∀ n, NoTokenLeft (Machine.run clientStep .boot (steps.take n))) ∧
      ∀ e ∈ Machine.outputs clientStep .boot steps, OwnToken e := by
  constructor
  · intro n
    have hcut : steps.take n ++ steps.drop n = steps := List.take_append_drop n steps
    rw [← hcut, Machine.along_append] at horderly
    refine Matched.noTokenLeft (Machine.Along.invariant ?_ horderly.1 matched_boot)
    exact fun _ _ h hstep => (h.step hstep).1
  · let I : Client → List ClientEvent → Prop := fun s events =>
      Matched s ∧ ∀ e ∈ events, OwnToken e
    have hstart : I .boot [] := ⟨matched_boot, nofun⟩
    have hkeep : ∀ s step events, I s events → Orderly s step →
        I (clientStep s step).1 (events ++ (clientStep s step).2) := by
      rintro s step events ⟨hmatched, hevents⟩ hstep
      obtain ⟨hmatched', hown⟩ := hmatched.step hstep
      refine ⟨hmatched', fun e he => ?_⟩
      rcases List.mem_append.mp he with hold | hnew
      · exact hevents e hold
      · exact hown e hnew
    exact (Machine.Along.monitor hkeep horderly hstart).2

instance decidableOrderly (s : Client) : ∀ step, Decidable (Orderly s step)
  | .linkDown _ => inferInstanceAs (Decidable (_ → _ → ∀ l ∈ s.links, _ → _))
  | .endWait => inferInstanceAs (Decidable (_ → _ → _))
  | .restart => inferInstanceAs (Decidable (_ ∧ _))
  | .scan _ _ | .connect _ | .readChar _ _ | .writeChar _ _ _ | .disconnect _
  | .hostReturn _ _ _ | .resume | .scanEvent _ _ _ _ | .readFragment _ _ | .charFound _
  | .complete _ _ _ | .give => inferInstanceAs (Decidable True)

instance decidableNoTokenLeft (s : Client) : Decidable (NoTokenLeft s) :=
  inferInstanceAs (Decidable (_ → _))

/-- A connect with its exchange of the MTU, the operations `op` and `op + 1`. -/
def connectRun (address : String) (op handle : Nat) : List ClientStep :=
  [.connect (some (lit address)), .hostReturn 0 23 true, .complete op 0 handle, .give, .endWait,
    .resume, .hostReturn 0 23 true, .complete (op + 1) 0 0, .give, .endWait, .resume]

/-- An app connects to a peer and disconnects. -/
def plainSession : List ClientStep :=
  connectRun "AA:BB:CC:DD:EE:01" 0 1 ++
    [.disconnect 0, .hostReturn 0 23 true, .linkDown 1, .give, .endWait, .resume]

/-- The disconnect consumes the token of its own link's loss. -/
theorem tokens_matched_plainSession :
    (∀ n, NoTokenLeft (Machine.run clientStep .boot (plainSession.take n))) ∧
      ∀ e ∈ Machine.outputs clientStep .boot plainSession, OwnToken e :=
  tokens_matched plainSession (by decide)

/-- The wait of a disconnect times out, and its event comes before the flag is cleared. -/
def lateDisconnect : List ClientStep :=
  connectRun "AA:BB:CC:DD:EE:01" 0 1 ++
    [.disconnect 0, .hostReturn 0 23 true, .endWait, .linkDown 1, .give, .resume]

/-- The token of operation 2 is left when nothing waits; the scan after it, operation 3,
consumes it and ends before it has run. -/
theorem token_left_over :
    ¬ NoTokenLeft (Machine.run clientStep .boot lateDisconnect) ∧
      Machine.outputs clientStep (Machine.run clientStep .boot lateDisconnect)
        [.scan 5000 20, .hostReturn 0 23 true, .endWait, .resume] =
          [.took 3 2, .returned okResult] := by
  decide

end Ble
end JppDos
