import JppDos.App.Rights
import JppDos.Sdk.Https

/-!
# What the web requests of an app contact

The runs of the device with the files of the approved origins and with the servers behind
`jpp_sdk_https_request`, whatever they reply.

Main fact:
* `requests_confined`: in a run whose redirects stay with approved origins, every connection
  does.
-/

namespace JppDos
namespace App

open CText Sdk Prog Machine

/-- The device with the files of the origins and the origins that have been approved in a
dialog, each for its app. -/
structure WebDevice where
  device : Device
  origins : GrantFiles
  approved : List (CStr × List UInt8)

/-- The device when it is switched on for the first time. -/
def freshWebDevice (services servicesV2 : List Callback) : WebDevice where
  device := freshDevice services servicesV2
  origins := fun _ => none
  approved := []

/-- A web request of the running app, with the connections it opens. -/
def webCall (client : HttpClient) (w : WebDevice) (i : SdkInput) (world : WebWorld)
    (method url body : Option CStr) : WebDevice × List Connection :=
  match w.device.task with
  | none => (w, [])
  | some task =>
      if task.waiting || task.finished then (w, [])
      else
        let (result, s) := exec (httpsRequest client i world method url body)
          { sdk := w.device.state, origins := w.origins, approved := w.approved, opened := [] }
        let waiting :=
          match result with
          | .error .blocked => true
          | _ => false
        ({ device := { w.device with state := s.sdk, task := some { task with waiting := waiting } }
           origins := s.origins
           approved := s.approved }, s.opened)

/-- A web request with its arguments. -/
structure WebRequest where
  input : SdkInput
  method : Option CStr
  url : Option CStr
  body : Option CStr

/-- The web request that a step is, if it is one. -/
def webRequest : Step → Option WebRequest
  | .call i =>
      match i.call with
      | .httpsRequest method url body => some ⟨i, method, url, body⟩
      | _ => none
  | _ => none

/-- One step of the device, with the connections it opens for web requests. -/
def webStep (client : HttpClient) (w : WebDevice) (x : Step × WebWorld) :
    WebDevice × List Connection :=
  match webRequest x.1 with
  | some r => webCall client w r.input x.2 r.method r.url r.body
  | none => ({ w with device := (deviceStep w.device x.1).1 }, [])

/-- Every connection that a step opens is one over TLS with the certificates checked, to an
origin that has been approved for the running app, and the app holds `https.request`. -/
def Confined (client : HttpClient) (w : WebDevice) (x : Step × WebWorld) : Prop :=
  ∀ c ∈ (webStep client w x).2, ∃ t, (webStep client w x).1.device.task = some t ∧
    c.target.tls = true ∧ c.verified = true ∧
    (t.dir, c.target.origin) ∈ (webStep client w x).1.approved ∧
    (t.session False).Holds (webStep client w x).1.device.state.events httpsCap

/-- Where the replies to a request lead, they lead over TLS to the origin of its URL or to one
that has been approved for the running app. -/
def StaysApproved (client : HttpClient) (w : WebDevice) (x : Step × WebWorld) : Prop :=
  ∀ r ∈ webRequest x.1, ∀ task ∈ w.device.task,
    ∀ t ∈ client.redirections (r.url.getD (lit "")).val x.2.replies, t.tls = true ∧
      (httpsOrigin (r.url.getD (lit "")) = (.ok, t.origin) ∨ (task.dir, t.origin) ∈ w.approved)

instance (client : HttpClient) (w : WebDevice) (x : Step × WebWorld) :
    Decidable (StaysApproved client w x) :=
  inferInstanceAs (Decidable (∀ r ∈ webRequest x.1, ∀ task ∈ w.device.task,
    ∀ t ∈ client.redirections (r.url.getD (lit "")).val x.2.replies, _ ∧ (_ ∨ _)))

/-- A step that is a web request is a call with its arguments. -/
theorem webRequest_eq {step : Step} {r : WebRequest} (h : webRequest step = some r) :
    step = .call r.input ∧ r.input.call = .httpsRequest r.method r.url r.body := by
  unfold webRequest at h
  split at h
  · split at h
    · rename_i hcall
      obtain rfl := Option.some.inj h
      exact ⟨rfl, hcall⟩
    · exact absurd h (by simp)
  · exact absurd h (by simp)

/-- The running app is in order, and every saved origin has been approved. -/
structure WebDevice.Sound (w : WebDevice) : Prop where
  device : w.device.Sound False
  recorded : Recorded w.origins w.approved

/-- On the launcher's side a web request is a call that has been told what the files hold and
what the service answers. -/
theorem webCall_device (client : HttpClient) (w : WebDevice) {i : SdkInput} (world : WebWorld)
    {method url body : Option CStr} (hcall : i.call = .httpsRequest method url body) :
    ∃ i', (webCall client w i world method url body).1.device =
      (deviceStep w.device (.call i')).1 := by
  obtain ⟨saved, answer, hrefines⟩ := httpsRequest_refines client i world method url body
    { sdk := w.device.state, origins := w.origins, approved := w.approved, opened := [] }
  refine ⟨{ i with originSaved := saved, answers := [answer] }, ?_⟩
  have hrun : runCall { i with originSaved := saved, answers := [answer] } =
      sdkHttpsRequest { i with originSaved := saved, answers := [answer] } method url body := by
    simp only [runCall, hcall]
  simp only [webCall, deviceStep, appCall, hrun]
  cases w.device.task with
  | none => rfl
  | some task =>
      simp only
      split_ifs
      · rfl
      · rw [WebRefines] at hrefines
        generalize exec (sdkHttpsRequest { i with originSaved := saved, answers := [answer] }
          method url body) w.device.state = done at hrefines ⊢
        subst hrefines
        rfl

/-- On the launcher's side every step is one of the device. -/
theorem webStep_device (client : HttpClient) {w : WebDevice} {x : Step × WebWorld}
    (horderly : Orderly False w.device x.1) :
    ∃ step, Orderly False w.device step ∧
      (webStep client w x).1.device = (deviceStep w.device step).1 := by
  rw [webStep]
  cases hrequest : webRequest x.1 with
  | none => exact ⟨x.1, horderly, rfl⟩
  | some r =>
      obtain ⟨i', hdevice⟩ := webCall_device client w x.2 (webRequest_eq hrequest).2
      exact ⟨.call i', fun hfalse => hfalse.elim, hdevice⟩

theorem httpsRequest_unbound (client : HttpClient) (i : SdkInput) (world : WebWorld)
    (method url body : Option CStr) {w : WebState} (h : w.sdk.ctx.bound = false) :
    (exec (httpsRequest client i world method url body) w).2 = w := by
  have hrefused : Refused (httpsChecks i method url body) := ensureBound_refused.bind _
  rw [httpsRequest, exec_bind, exec_onSdk, hrefused w.sdk h]

theorem WebDevice.Sound.request {w : WebDevice} (h : w.Sound) (client : HttpClient) {i : SdkInput}
    (world : WebWorld) {method url body : Option CStr}
    (hcall : i.call = .httpsRequest method url body) :
    let next := webCall client w i world method url body
    Recorded next.1.origins next.1.approved ∧ w.approved ⊆ next.1.approved ∧
      ∀ c ∈ next.2, ∃ t t', w.device.task = some t ∧ next.1.device.task = some t' ∧
        t'.dir = t.dir ∧
        (t'.session False).Holds next.1.device.state.events httpsCap ∧ c.verified = true ∧
        ∃ origin, httpsOrigin (url.getD (lit "")) = (.ok, origin) ∧
          (t.dir, origin) ∈ next.1.approved ∧
          (c.target.tls = true ∧ c.target.origin = origin ∨
            c.target ∈ client.redirections (url.getD (lit "")).val world.replies) := by
  have hidle : Recorded w.origins w.approved ∧ w.approved ⊆ w.approved :=
    ⟨h.recorded, List.Subset.refl _⟩
  simp only [webCall]
  cases htask : w.device.task with
  | none => exact ⟨hidle.1, hidle.2, by simp⟩
  | some task =>
      simp only
      split_ifs
      · exact ⟨hidle.1, hidle.2, by simp⟩
      rcases (h.device.task task htask).2 with ⟨-, hruns⟩ | ⟨-, hidles⟩
      · have hin : (task.session False).In False [] w.device.state :=
          ⟨hruns, fun hfalse => hfalse.elim, by simp⟩
        have hstart : Progress w.approved { sdk := w.device.state, origins := w.origins
                                            approved := w.approved, opened := [] } :=
          ⟨h.recorded, hidle.2⟩
        have hdone := (httpsRequest_triple id (by rw [hcall]; rfl)
          (by rw [hcall]; exact List.mem_singleton.mpr rfl) client world method url body).final
            ⟨hin, hstart, rfl⟩
        obtain ⟨-, hprogress, hreaches⟩ := hdone
        refine ⟨hprogress.recorded, hprogress.kept, fun c hc => ?_⟩
        exact ⟨task, _, rfl, rfl, rfl, (hreaches c hc).held, (hreaches c hc).verified,
          (hreaches c hc).target⟩
      · have hsame := httpsRequest_unbound client i world method url body
          (w := { sdk := w.device.state, origins := w.origins, approved := w.approved
                  opened := [] }) hidles.bound
        rw [hsame]
        exact ⟨hidle.1, hidle.2, by simp⟩

/-- Every step keeps the running app in order, and what it opens is approved if the replies
lead nowhere else. -/
theorem WebDevice.Sound.step {w : WebDevice} (h : w.Sound) (client : HttpClient)
    {x : Step × WebWorld} (horderly : Orderly False w.device x.1) :
    (webStep client w x).1.Sound ∧ (StaysApproved client w x → Confined client w x) := by
  have hdevice : (webStep client w x).1.device.Sound False := by
    obtain ⟨step, hstep, heq⟩ := webStep_device client horderly
    rw [heq]
    exact deviceStep_sound h.device step hstep
  cases hrequest : webRequest x.1 with
  | none =>
      have hstep : webStep client w x = ({ w with device := (deviceStep w.device x.1).1 }, []) := by
        rw [webStep, hrequest]
      refine ⟨⟨hdevice, by rw [hstep]; exact h.recorded⟩, fun _ c hc => ?_⟩
      rw [hstep] at hc
      exact absurd hc List.not_mem_nil
  | some r =>
      have hstep : webStep client w x = webCall client w r.input x.2 r.method r.url r.body := by
        rw [webStep, hrequest]
      obtain ⟨hrecorded, hkept, hopened⟩ := h.request client x.2 (webRequest_eq hrequest).2
      refine ⟨⟨hdevice, by rw [hstep]; exact hrecorded⟩, fun hstays c hc => ?_⟩
      rw [hstep] at hc ⊢
      obtain ⟨t, t', ht, ht', hdir, hheld, hverified, origin, horigin, happroved, htarget⟩ :=
        hopened c hc
      have hlead := hstays r hrequest t ht
      refine ⟨t', ht', ?_, hverified, ?_, hheld⟩
      · rcases htarget with ⟨htls, -⟩ | hredirected
        · exact htls
        · exact (hlead _ hredirected).1
      · rw [hdir]
        rcases htarget with ⟨-, hsame⟩ | hredirected
        · rwa [hsame]
        · rcases (hlead _ hredirected).2 with hown | hearlier
          · rw [horigin] at hown
            rwa [← (Prod.mk.inj hown).2]
          · exact hkept hearlier

/-- In a run whose launches have their binds accepted, or find the context unbound, and in which
no reply leads a request to a cleartext URL or to an origin that neither is its own nor has been
approved for the app, every connection goes over TLS to an origin that has been approved for the
app, which holds `https.request`. -/
theorem requests_confined (client : HttpClient) (services servicesV2 : List Callback)
    (steps : List (Step × WebWorld))
    (h : Along (webStep client) (fun w x => Orderly False w.device x.1 ∧ StaysApproved client w x)
      (freshWebDevice services servicesV2) steps) :
    Along (webStep client) (Confined client) (freshWebDevice services servicesV2) steps := by
  refine h.of_invariant (I := WebDevice.Sound) (fun w x hw hx => ?_) ?_
  · obtain ⟨hsound, hconfined⟩ := hw.step client hx.1
    exact ⟨hsound, hconfined hx.2⟩
  · exact ⟨boot_sound False services servicesV2, recorded_empty []⟩

/-- Where an URL leads as it is written: `https` to port 443 and over TLS, any other scheme to
port 80. -/
def writtenTarget (url : List UInt8) : Option Target :=
  match Url.splitScheme url with
  | none => none
  | some (scheme, rest) =>
      let tls := decide (scheme.map lower = ascii "https")
      (Url.effectivePort (if tls then 443 else 80) (Url.authority rest)).map fun port =>
        { tls := tls, host := Url.host (Url.authority rest), port := port }

/-- A client that follows redirects to absolute URLs, and to paths on the same server. -/
def plainClient : HttpClient where
  target := writtenTarget
  next t location := if location.head? = some Paths.slash then some t else writtenTarget location
  redirects status := decide (status ∈ [301, 302, 303, 307, 308])
  maxRedirects := 10
  target_https := by
    rintro url host port ⟨scheme, rest, hsplit, hname, -, rfl, hport⟩
    simp [writtenTarget, hsplit, hname, hport]

/-- The callbacks of the firmware that a web request needs. -/
def webCallbacks : List Callback := [.consentPrompt]

/-- An app asks a server that it is allowed to contact, and that sends it somewhere else. -/
def redirectedRun (location : String) : List (Step × WebWorld) :=
  let world : WebWorld :=
    { opens := true, initialised := true, replies := [⟨302, some (ascii location)⟩]
      outcome := .ok (200, "") }
  [(.launch (nativeLaunch (lit "weather") [httpsCap]), world),
    (.call
      { call := .httpsRequest (some (lit "GET")) (some (lit "https://api.example/now")) none
        capKeys := [.right, .ok], scopeKeys := [.right, .ok] }, world)]

theorem requests_confined_sameOrigin :
    Along (webStep plainClient) (Confined plainClient)
      (freshWebDevice webCallbacks [.httpsRequest, .originPrompt])
      (redirectedRun "https://api.example/v2/now") :=
  requests_confined plainClient webCallbacks [.httpsRequest, .originPrompt]
    (redirectedRun "https://api.example/v2/now") (by decide)

/-- A redirect leads the request in cleartext to a server that nobody has approved. -/
theorem redirect_leaves_origin :
    ¬ Along (webStep plainClient) (Confined plainClient)
      (freshWebDevice webCallbacks [.httpsRequest, .originPrompt])
      (redirectedRun "http://other.example/") := by
  intro h
  obtain ⟨t, -, htls, -⟩ :=
    h.2.1 { target := ⟨false, ascii "other.example", 80⟩, verified := true, post := none }
      (by decide)
  exact absurd htls (by decide)

end App
end JppDos
