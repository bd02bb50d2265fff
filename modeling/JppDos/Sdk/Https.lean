import JppDos.Sdk.Gating
import JppDos.Sdk.OriginGrants

/-!
# Web requests over TLS

The call `jpp_sdk_https_request` with the files of the approved origins and with the HTTP
client behind it, which follows the redirects of the servers it contacts.

The client is not part of the firmware's own sources.  `HttpClient` is what is known of it:
where an URL leads, where the `Location` of a reply leads, and how many of those it follows.

Main fact:
* `httpsRequest_triple`: a request contacts nothing, or the app holds the capability and the
  origin of the URL has been approved.
-/

namespace JppDos
namespace Sdk

open CText Url Prog

/-- Where a connection leads, and whether it is one over TLS. -/
structure Target where
  tls : Bool
  host : List UInt8
  port : Nat
  deriving DecidableEq

/-- The origin under which a target is approved. -/
def Target.origin (t : Target) : List UInt8 := Sdk.origin t.host t.port

/-- A reply of a server, as far as it decides where the client goes next. -/
structure Reply where
  status : Nat
  location : Option (List UInt8)
  deriving DecidableEq

/-- `esp_http_client`: where an URL leads, where a `Location` leads from a target, the status
codes for which it is followed, and how often by default. -/
structure HttpClient where
  target : List UInt8 → Option Target
  next : Target → List UInt8 → Option Target
  redirects : Nat → Bool
  maxRedirects : Nat
  /-- An URL leads to the host and the port that it denotes. -/
  target_https : ∀ url host port, Denotes url host port → target url = some ⟨true, host, port⟩

/-- The fields of `esp_http_client_config_t` that decide where the client connects and whom it
trusts, and the body that is posted. -/
structure ClientConfig where
  url : CStr
  crtBundleAttach : Bool
  disableAutoRedirect : Bool
  maxRedirectionCount : Nat
  post : Option CStr

/-- A connection that the client opens. -/
structure Connection where
  target : Target
  verified : Bool
  post : Option CStr
  deriving DecidableEq

section Client

variable (client : HttpClient)

/-- Where a reply leads the client from a target. -/
def HttpClient.follow (t : Target) (reply : Reply) : Option Target :=
  if client.redirects reply.status then reply.location.bind (client.next t) else none

/-- Where the replies lead from a target, one behind the other, within a limit. -/
def HttpClient.redirected : Nat → Target → List Reply → List Target
  | 0, _, _ => []
  | _, _, [] => []
  | limit + 1, t, reply :: replies =>
      match client.follow t reply with
      | none => []
      | some t' => t' :: redirected limit t' replies

/-- How many redirects the client follows. -/
def HttpClient.limit (cfg : ClientConfig) : Nat :=
  if cfg.disableAutoRedirect then 0
  else if cfg.maxRedirectionCount = 0 then client.maxRedirects
  else cfg.maxRedirectionCount

/-- The connections of `esp_http_client_perform`. -/
def HttpClient.perform (cfg : ClientConfig) (replies : List Reply) : List Connection :=
  match client.target cfg.url.val with
  | none => []
  | some t =>
      (t :: client.redirected (client.limit cfg) t replies).map fun t =>
        { target := t, verified := cfg.crtBundleAttach, post := cfg.post }

/-- Where the replies of the servers lead behind an URL. -/
def HttpClient.redirections (url : List UInt8) (replies : List Reply) : List Target :=
  match client.target url with
  | none => []
  | some t => client.redirected client.maxRedirects t replies

end Client

/-- How a request fails: before the first byte of a reply, or behind it. -/
inductive HttpError
  | connect
  | other
  deriving DecidableEq

/-- What the world answers while a request runs: whether the file of the origins can be opened
for writing, whether a client can be had, what the servers reply, and how it ends. -/
structure WebWorld where
  opens : Bool
  initialised : Bool
  replies : List Reply
  outcome : Except HttpError (Nat × String)

/-- The result of `sd_https_request_cb` behind `esp_http_client_perform`. -/
def httpsResult : Except HttpError (Nat × String) → BrokerResult String
  | .error .connect => errorResult "HTTPS_CONNECT_FAILED"
  | .error .other => errorResult "HTTPS_PERFORM_FAILED"
  | .ok (status, body) =>
      (resultPut (resultPut okResult "status_code" (toString status)).2 "body" body).2

/-- `sd_https_request_cb`, with the connections it opens. -/
def sdHttpsRequestCb (client : HttpClient) (world : WebWorld) (method url : CStr)
    (body : Option CStr) : Answer × List Connection :=
  if url.val.take 8 ≠ ascii "https://" then ((.ok, errorResult "NOT_HTTPS"), [])
  else if !world.initialised then ((.ok, errorResult "HTTPS_INIT_FAILED"), [])
  else
    let cfg : ClientConfig :=
      { url := url
        crtBundleAttach := true
        disableAutoRedirect := false
        maxRedirectionCount := 0
        post := if method = lit "POST" then body else none }
    ((.ok, httpsResult world.outcome), client.perform cfg world.replies)

/-- The app's side of the device with the files of the origins, the origins that have been
approved so far, and the connections that the call has opened. -/
structure WebState where
  sdk : SdkState
  origins : GrantFiles
  approved : List (CStr × List UInt8)
  opened : List Connection

/-- A part of a web request. -/
abbrev WebProg := Prog Stop WebState

/-- A part that only changes the SDK's side. -/
def onSdk {α : Type} (p : SdkProg α) : WebProg α :=
  zoom WebState.sdk (fun sdk w => { w with sdk := sdk }) p

/-- An origin has been approved in the dialog. -/
def WebState.approve (w : WebState) (origin : List UInt8) (opens : Bool) : WebState :=
  { w with
    origins := originPersist w.origins w.sdk.ctx.appId origin opens
    approved := w.approved ++ [(w.sdk.ctx.appId, origin)] }

/-- `jpp_app_origin_prompt` with the file of the app. -/
def webOriginPrompt (i : SdkInput) (world : WebWorld) (origin : List UInt8) : WebProg Bool := do
  let w ← read
  let saved := originIsPersisted w.origins w.sdk.ctx.appId origin
  let granted ← onSdk (appOriginPrompt { i with originSaved := saved } origin)
  if granted && !saved then update fun w => w.approve origin world.opens
  pure granted

/-- What `jpp_sdk_https_request` checks before it asks for the origin. -/
def httpsChecks (i : SdkInput) (method url body : Option CStr) : SdkProg Unit := do
  ensureBound
  require (i.given && textPresent url && methodIsAllowed method) .invalidArgument
  require (decide ((body.map CStr.strlen).getD 0 ≤ httpsBodyMax)) .invalidArgument
  needServices [.httpsRequest, .originPrompt]
  require ((httpsOrigin (url.getD (lit ""))).1 = .ok) (httpsOrigin (url.getD (lit ""))).1
  ensureCap i (lit "https.request")

/-- `jpp_broker_run_exclusive` around `sd_https_request_cb`. -/
def runRequest (client : HttpClient) (i : SdkInput) (world : WebWorld) (method url : CStr)
    (body : Option CStr) : WebProg BrokerStatus := do
  let w ← read
  let done := sdHttpsRequestCb client world method url body
  let (status, _, locks, events, opened) :=
    runExclusive (fun s : String => s) "http"
      (fun (events, opened) => (done.1.1, done.1.2,
        events ++ [SdkEvent.service i.call .httpsRequest none], opened ++ done.2))
      w.sdk.locks (w.sdk.events, w.opened)
  update fun w =>
    { w with sdk := { w.sdk with locks := locks, events := events }, opened := opened }
  pure status

/-- `jpp_sdk_https_request` with the client behind it. -/
def httpsRequest (client : HttpClient) (i : SdkInput) (world : WebWorld)
    (method url body : Option CStr) : WebProg Unit := do
  onSdk (httpsChecks i method url body)
  let allow ← webOriginPrompt i world (httpsOrigin (url.getD (lit ""))).2
  onSdk (require allow .accessDenied)
  let status ← runRequest client i world (method.getD (lit "")) (url.getD (lit "")) body
  onSdk (require (status = .ok) .brokerError)

theorem sdkHttpsRequest_eq (i : SdkInput) (method url body : Option CStr) :
    sdkHttpsRequest i method url body =
      httpsChecks i method url body >>= fun _ =>
        appOriginPrompt i (httpsOrigin (url.getD (lit ""))).2 >>= fun allow =>
          require allow .accessDenied >>= fun _ => runService i "http" .httpsRequest none := by
  simp only [sdkHttpsRequest, httpsChecks, bind_assoc]

theorem exec_onSdk {α : Type} (p : SdkProg α) (w : WebState) :
    exec (onSdk p) w = ((exec p w.sdk).1, { w with sdk := (exec p w.sdk).2 }) := rfl

/-- From a state on, a part of a request does on the SDK's side what another program does. -/
def WebRefines {α : Type} (q : WebProg α) (p : SdkProg α) (w : WebState) : Prop :=
  exec p w.sdk = ((exec q w).1, (exec q w).2.sdk)

theorem WebRefines.bind {α β : Type} {q : WebProg α} {p : SdkProg α} {w : WebState}
    {k : α → WebProg β} {k' : α → SdkProg β} (h : WebRefines q p w)
    (hk : ∀ a w', exec q w = (.ok a, w') → WebRefines (k a) (k' a) w') :
    WebRefines (q >>= k) (p >>= k') w := by
  unfold WebRefines at h hk ⊢
  rw [exec_bind, exec_bind, h]
  cases hexec : exec q w with
  | mk result w' =>
      cases result with
      | error e => rfl
      | ok a => exact hk a w' hexec

theorem webRefines_onSdk {α : Type} (p : SdkProg α) (w : WebState) : WebRefines (onSdk p) p w := rfl

/-- The prompt with the file of the app is the prompt that has been told what is saved. -/
theorem webOriginPrompt_refines (i : SdkInput) (world : WebWorld) (origin : List UInt8)
    (w : WebState) :
    WebRefines (webOriginPrompt i world origin)
      (appOriginPrompt
        { i with originSaved := originIsPersisted w.origins w.sdk.ctx.appId origin } origin) w := by
  simp only [WebRefines, webOriginPrompt, exec_bind, exec_read, exec_onSdk]
  generalize originIsPersisted w.origins w.sdk.ctx.appId origin = saved
  cases hexec : exec (appOriginPrompt { i with originSaved := saved } origin) w.sdk with
  | mk result sdk =>
      cases result with
      | error e => rfl
      | ok granted => cases granted <;> cases saved <;> rfl

/-- The request under its lock is a service that answers as the client does. -/
theorem runRequest_refines (client : HttpClient) (i : SdkInput) (world : WebWorld)
    (method url : CStr) (body : Option CStr) (w : WebState) :
    WebRefines
      (runRequest client i world method url body >>= fun status =>
        onSdk (require (status = .ok) .brokerError))
      (runService { i with answers := [(sdHttpsRequestCb client world method url body).1] } "http"
        .httpsRequest none) w := by
  simp only [WebRefines, runRequest, runService, exclusive, exec_bind, exec_read, runExclusive]
  cases findLock w.sdk.locks "http" with
  | none =>
      simp only
      split_ifs
      · rfl
      · rfl
  | some entry =>
      simp only
      split_ifs
      · rfl
      · rfl

/-- On the SDK's side the call is the entry point that has been told what the files hold and
what the service answers. -/
theorem httpsRequest_refines (client : HttpClient) (i : SdkInput) (world : WebWorld)
    (method url body : Option CStr) (w : WebState) :
    ∃ saved answer, WebRefines (httpsRequest client i world method url body)
      (sdkHttpsRequest { i with originSaved := saved, answers := [answer] } method url body) w := by
  set answer := (sdHttpsRequestCb client world (method.getD (lit "")) (url.getD (lit "")) body).1
  -- what is saved is looked up behind the checks, which may have changed the context
  let checked := (exec (httpsChecks i method url body) w.sdk).2
  refine ⟨originIsPersisted w.origins checked.ctx.appId (httpsOrigin (url.getD (lit ""))).2,
    answer, ?_⟩
  rw [sdkHttpsRequest_eq]
  refine WebRefines.bind (webRefines_onSdk _ w) fun _ w₁ hchecks => ?_
  obtain rfl : { w with sdk := checked } = w₁ := congrArg Prod.snd hchecks
  refine WebRefines.bind (webOriginPrompt_refines i world _ _) fun allow w₂ _ => ?_
  exact WebRefines.bind (webRefines_onSdk _ w₂) fun _ w₃ _ =>
    runRequest_refines client i world _ _ _ w₃

section Requests

variable {S : Session} {asks : Prop} {i : SdkInput} {before : List (CStr × List UInt8)}

/-- `https.request`. -/
def httpsCap : CStr := lit "https.request"

theorem onSdk_triple {α : Type} {p : SdkProg α} {P : SdkState → Prop} {Q : α → SdkState → Prop}
    {E : Stop → SdkState → Prop} {F : WebState → Prop} (h : Triple P p Q E)
    (hframe : ∀ sdk w, F w → F { w with sdk := sdk }) :
    Triple (fun w => P w.sdk ∧ F w) (onSdk p) (fun a w => Q a w.sdk ∧ F w)
      (fun e w => E e w.sdk ∧ F w) :=
  Triple.zoom h (fun _ _ => rfl) hframe

theorem httpsChecks_triple (hasks : S.strict → asks) (i : SdkInput)
    (method url body : Option CStr) :
    Triple (S.In asks []) (httpsChecks i method url body)
      (fun _ m => S.In asks [httpsCap] m ∧ (httpsOrigin (url.getD (lit ""))).1 = .ok)
      (fun _ => S.In asks []) := by
  by_cases hok : (httpsOrigin (url.getD (lit ""))).1 = .ok
  · refine Triple.conseq (P := S.In asks []) (Q := fun _ => S.In asks [httpsCap]) ?_
      (fun _ h => h) (fun _ _ h => ⟨h, hok⟩) fun _ _ h => h
    exact ensureBound_keeps.bind fun _ => Session.Keeps.require fun _ =>
      Session.Keeps.require fun _ => (needServices_keeps _).bind fun _ =>
      Session.Keeps.require fun _ => ensureCap_keeps hasks i _
  · refine Triple.bind ensureBound_keeps fun _ => Triple.bind (require_keeps _ _) fun _ =>
      Triple.bind (require_keeps _ _) fun _ => Triple.bind (needServices_keeps _) fun _ =>
      Triple.bind (Q := fun _ _ => False) ?_ fun _ _ hfalse => hfalse.elim
    exact Triple.check (fun _ _ htrue => hok (of_decide_eq_true htrue)) fun _ h _ => h

/-- What holds of the files and of the approvals while a request runs. -/
structure Progress (before : List (CStr × List UInt8)) (w : WebState) : Prop where
  recorded : Recorded w.origins w.approved
  kept : before ⊆ w.approved

theorem Progress.approve {w : WebState} (h : Progress before w)
    (happ : w.sdk.ctx.appId.strlen < appIdMax) {origin : List UInt8} (hline : IsLine origin)
    (opens : Bool) : Progress before (w.approve origin opens) := by
  refine ⟨?_, fun a ha => List.mem_append_left _ (h.kept ha)⟩
  exact (h.recorded.mono _).persist happ hline
    (List.mem_append_right _ (List.mem_singleton.mpr rfl)) opens

/-- A positive answer means that the user has approved the origin, now or earlier. -/
theorem webOriginPrompt_triple (hrelative : i.call.relative = none)
    (hgate : httpsCap ∈ i.call.gate) (world : WebWorld) {origin : List UInt8}
    (hline : IsLine origin) :
    Triple (fun w => S.In asks [httpsCap] w.sdk ∧ Progress before w ∧ w.opened = [])
      (webOriginPrompt i world origin)
      (fun granted w => S.In asks [httpsCap] w.sdk ∧ Progress before w ∧ w.opened = [] ∧
        (granted = true → (S.dir, origin) ∈ w.approved))
      (fun _ w => S.In asks [] w.sdk ∧ Progress before w ∧ w.opened = []) := by
  refine Triple.read_bind fun w₀ hw₀ => ?_
  obtain ⟨hin, hprogress, hopened⟩ := hw₀
  generalize hsaved : originIsPersisted w₀.origins w₀.sdk.ctx.appId origin = saved
  have happ : w₀.sdk.ctx.appId.strlen < appIdMax := by rw [hin.1.appId]; exact hin.1.dir.2
  have hfound : saved = true → (S.dir, origin) ∈ w₀.approved := by
    rintro rfl
    rw [← hin.1.appId]
    exact hprogress.recorded.found happ hsaved
  have hsdk : Triple
      (fun w : WebState => S.In asks [httpsCap] w.sdk ∧
        w.origins = w₀.origins ∧ w.approved = w₀.approved ∧ w.opened = [])
      (onSdk (appOriginPrompt { i with originSaved := saved } origin))
      (fun _ w => S.In asks [httpsCap] w.sdk ∧
        w.origins = w₀.origins ∧ w.approved = w₀.approved ∧ w.opened = [])
      (fun _ w => S.In asks [] w.sdk ∧
        w.origins = w₀.origins ∧ w.approved = w₀.approved ∧ w.opened = []) :=
    onSdk_triple
      (appOriginPrompt_keeps (i := { i with originSaved := saved }) hrelative hgate origin)
      fun _ _ h => h
  have hsame : ∀ w : WebState, w.origins = w₀.origins → w.approved = w₀.approved →
      Progress before w := by
    intro w horigins happroved
    exact ⟨by rw [horigins, happroved]; exact hprogress.recorded,
      by rw [happroved]; exact hprogress.kept⟩
  refine Triple.conseq (Q := fun granted w => S.In asks [httpsCap] w.sdk ∧
      Progress before w ∧ w.opened = [] ∧ (granted = true → (S.dir, origin) ∈ w.approved))
    (Triple.bind hsdk fun granted => ?_)
    (fun w hw => by rw [hw]; exact ⟨hin, rfl, rfl, hopened⟩) (fun _ _ h => h) fun _ w h =>
      ⟨h.1, hsame w h.2.1 h.2.2.1, h.2.2.2⟩
  cases granted with
  | false =>
      refine Triple.pure fun w h => ?_
      exact ⟨h.1, hsame w h.2.1 h.2.2.1, h.2.2.2, fun hfalse => absurd hfalse (by simp)⟩
  | true =>
  cases saved with
  | true =>
      refine Triple.pure fun w h => ⟨h.1, hsame w h.2.1 h.2.2.1, h.2.2.2, fun _ => ?_⟩
      rw [h.2.2.1]
      exact hfound rfl
  | false =>
      refine Triple.bind (Q := fun _ w => S.In asks [httpsCap] w.sdk ∧ Progress before w ∧
        w.opened = [] ∧ (S.dir, origin) ∈ w.approved) (Triple.update fun w h => ?_)
        fun _ => Triple.pure fun w h => ⟨h.1, h.2.1, h.2.2.1, fun _ => h.2.2.2⟩
      have hdir := h.1.1.appId
      have hshort : w.sdk.ctx.appId.strlen < appIdMax := by rw [hdir]; exact h.1.1.dir.2
      refine ⟨h.1, (hsame w h.2.1 h.2.2.1).approve hshort hline _, h.2.2.2, ?_⟩
      rw [← hdir]
      exact List.mem_append_right _ (List.mem_singleton.mpr rfl)

/-- What is contacted for an URL that has an origin: that origin first, over TLS and with the
certificates checked, and then what the replies lead to. -/
theorem sdHttpsRequestCb_opened (client : HttpClient) (world : WebWorld) (method : CStr)
    {url : CStr} (body : Option CStr) {origin : List UInt8} (h : httpsOrigin url = (.ok, origin))
    {c : Connection} (hc : c ∈ (sdHttpsRequestCb client world method url body).2) :
    c.verified = true ∧ (c.target.tls = true ∧ c.target.origin = origin ∨
      c.target ∈ client.redirections url.val world.replies) := by
  obtain ⟨host, port, hd, -, -, -, rfl⟩ := httpsOrigin_ok_iff.mp h
  have htarget := client.target_https url.val host port hd
  unfold sdHttpsRequestCb at hc
  split at hc
  · exact absurd hc List.not_mem_nil
  split at hc
  · exact absurd hc List.not_mem_nil
  · simp only [HttpClient.perform, HttpClient.limit, htarget, Bool.false_eq_true, if_false,
      if_true, List.mem_map] at hc
    obtain ⟨t, ht, rfl⟩ := hc
    refine ⟨rfl, ?_⟩
    rcases List.mem_cons.mp ht with rfl | ht
    · exact Or.inl ⟨rfl, rfl⟩
    · rw [HttpClient.redirections, htarget]
      exact Or.inr ht

/-- A connection that a request of a session may open. -/
structure Session.Reaches (S : Session) (client : HttpClient) (url : CStr) (replies : List Reply)
    (w : WebState) (c : Connection) : Prop where
  held : S.Holds w.sdk.events httpsCap
  verified : c.verified = true
  target : ∃ origin, httpsOrigin url = (.ok, origin) ∧ (S.dir, origin) ∈ w.approved ∧
    (c.target.tls = true ∧ c.target.origin = origin ∨
      c.target ∈ client.redirections url.val replies)

theorem runRequest_triple (hrelative : i.call.relative = none) (hgate : httpsCap ∈ i.call.gate)
    (client : HttpClient) (world : WebWorld) (method : CStr) {url : CStr} (body : Option CStr)
    {origin : List UInt8} (horigin : httpsOrigin url = (.ok, origin)) :
    Triple
      (fun w => S.In asks [httpsCap] w.sdk ∧ Progress before w ∧ w.opened = [] ∧
        (S.dir, origin) ∈ w.approved)
      (runRequest client i world method url body)
      (fun _ w => S.In asks [] w.sdk ∧ Progress before w ∧
        ∀ c ∈ w.opened, S.Reaches client url world.replies w c)
      (fun _ w => S.In asks [] w.sdk ∧ Progress before w ∧
        ∀ c ∈ w.opened, S.Reaches client url world.replies w c) := by
  refine Triple.read_bind fun _ hw => ?_
  rintro w rfl
  obtain ⟨hin, hprogress, hopened, happroved⟩ := hw
  have hheld : S.Holds w.sdk.events httpsCap := hin.2.2 httpsCap (List.mem_singleton.mpr rfl)
  have hreach : S.Allows w.sdk.events (.service i.call .httpsRequest none) :=
    (Session.mayReach_of_held hgate hrelative none).allows hin .httpsRequest
  have hstate := runExclusive_state (fun s : String => s) "http"
    (fun s : List SdkEvent × List Connection =>
      ((sdHttpsRequestCb client world method url body).1.1,
        (sdHttpsRequestCb client world method url body).1.2,
        s.1 ++ [SdkEvent.service i.call .httpsRequest none],
        s.2 ++ (sdHttpsRequestCb client world method url body).2))
    w.sdk.locks (w.sdk.events, w.opened)
  rw [exec_bind]
  generalize runExclusive (fun s : String => s) "http"
    (fun s : List SdkEvent × List Connection =>
      ((sdHttpsRequestCb client world method url body).1.1,
        (sdHttpsRequestCb client world method url body).1.2,
        s.1 ++ [SdkEvent.service i.call .httpsRequest none],
        s.2 ++ (sdHttpsRequestCb client world method url body).2))
    w.sdk.locks (w.sdk.events, w.opened) = done at hstate ⊢
  obtain ⟨status, result, locks, events, opened⟩ := done
  simp only [hopened, List.nil_append, Prod.mk.injEq] at hstate
  have hkept : S.In asks [] { w.sdk with locks := locks, events := events } ∧
      ∀ c ∈ opened, S.Reaches client url world.replies
        { w with sdk := { w.sdk with locks := locks, events := events }, opened := opened } c := by
    rcases hstate with ⟨rfl, rfl⟩ | ⟨rfl, rfl⟩
    · exact ⟨⟨{ hin.1 with }, hin.2.1, by simp⟩, by simp⟩
    · refine ⟨(hin.emit hreach).drop, fun c hc =>
        ⟨hheld.mono _, ?_, origin, horigin, happroved, ?_⟩⟩
      · exact (sdHttpsRequestCb_opened client world method body horigin hc).1
      · exact (sdHttpsRequestCb_opened client world method body horigin hc).2
  exact ⟨hkept.1, ⟨hprogress.recorded, hprogress.kept⟩, hkept.2⟩

/-- A request contacts nothing, or the app holds the capability, the origin of the URL has been
approved, and all that is contacted is that origin or where the replies lead. -/
theorem httpsRequest_triple (hasks : S.strict → asks) (hrelative : i.call.relative = none)
    (hgate : httpsCap ∈ i.call.gate) (client : HttpClient) (world : WebWorld)
    (method url body : Option CStr) :
    Triple
      (fun w => S.In asks [] w.sdk ∧ Progress before w ∧ w.opened = [])
      (httpsRequest client i world method url body)
      (fun _ w => S.In asks [] w.sdk ∧ Progress before w ∧
        ∀ c ∈ w.opened, S.Reaches client (url.getD (lit "")) world.replies w c)
      (fun _ w => S.In asks [] w.sdk ∧ Progress before w ∧
        ∀ c ∈ w.opened, S.Reaches client (url.getD (lit "")) world.replies w c) := by
  have hnone : ∀ w : WebState, w.opened = [] →
      ∀ c ∈ w.opened, S.Reaches client (url.getD (lit "")) world.replies w c := by
    intro w hopened c hc
    rw [hopened] at hc
    exact absurd hc List.not_mem_nil
  have hchecks := onSdk_triple (F := fun w => Progress before w ∧ w.opened = [])
    (httpsChecks_triple hasks i method url body)
    fun _ _ h => ⟨⟨h.1.recorded, h.1.kept⟩, h.2⟩
  refine Triple.bind (Triple.conseq hchecks (fun _ h => h) (fun _ _ h => h) fun _ w h =>
    ⟨h.1, h.2.1, hnone w h.2.2⟩) fun _ => ?_
  by_cases hok : (httpsOrigin (url.getD (lit ""))).1 = .ok
  swap
  · exact fun w hw => absurd hw.1.2 hok
  have horigin : httpsOrigin (url.getD (lit "")) = (.ok, (httpsOrigin (url.getD (lit ""))).2) := by
    rw [← hok]
  refine Triple.bind (Triple.conseq
    (webOriginPrompt_triple hrelative hgate world (isLine_of_httpsOrigin horigin))
    (fun w h => ⟨h.1.1, h.2.1, h.2.2⟩) (fun _ _ h => h) fun _ w h =>
      ⟨h.1, h.2.1, hnone w h.2.2⟩) fun allow => ?_
  refine Triple.bind (Q := fun _ w => S.In asks [httpsCap] w.sdk ∧ Progress before w ∧
    w.opened = [] ∧ (S.dir, (httpsOrigin (url.getD (lit ""))).2) ∈ w.approved) ?_ fun _ => ?_
  · rintro w ⟨hin, hprogress, hopened, happroved⟩
    cases allow with
    | true => exact ⟨hin, hprogress, hopened, happroved rfl⟩
    | false => exact ⟨hin.drop, hprogress, hnone w hopened⟩
  refine Triple.bind (runRequest_triple hrelative hgate client world _ body horigin)
    fun status => ?_
  rintro w ⟨hin, hprogress, hreaches⟩
  rw [exec_onSdk, require, exec_check]
  split_ifs
  · exact ⟨hin, hprogress, hreaches⟩
  · exact ⟨hin, hprogress, hreaches⟩

end Requests

end Sdk
end JppDos
