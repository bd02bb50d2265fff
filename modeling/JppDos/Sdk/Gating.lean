import JppDos.Sdk.Session

/-!
# The calls keep the session in order

Every entry point of the SDK, taken by itself: what it asks for before it reaches a service,
and where the paths lead that it builds.
-/

namespace JppDos
namespace Sdk

open CText Paths Prog

section Calls

variable {S : Session} {asks : Prop} {caps caps' : List CStr} {i : SdkInput}

theorem Session.Keeps.require {α : Type} {cond : Bool} {status : SdkStatus} {k : SdkProg α}
    (h : cond = true → S.Keeps asks caps k caps') :
    S.Keeps asks caps (Sdk.require cond status >>= fun _ => k) caps' := by
  cases cond with
  | true => exact (require_keeps true status).bind fun _ => h rfl
  | false =>
      exact Triple.bind (Q := fun _ _ => False)
        (Triple.check (fun _ _ hfalse => absurd hfalse (by simp)) fun _ hm _ => hm.drop)
        fun _ _ hfalse => hfalse.elim

theorem sdkRequestClose_keeps : S.Keeps asks [] sdkRequestClose [] :=
  ensureBound_keeps.bind fun _ m hm => ⟨hm.1.closed, hm.2.1, by simp⟩

theorem sdkPollKey_keeps : S.Keeps asks [] (sdkPollKey i) [] :=
  ensureBound_keeps.bind fun _ => Session.Keeps.require fun _ => takeKey_keeps none

theorem sdkWaitKey_keeps : S.Keeps asks [] (sdkWaitKey i) [] :=
  ensureBound_keeps.bind fun _ => Session.Keeps.require fun _ => takeKey_keeps i.arrived

/-- A key that the app pushes itself only matters to a call that asks. -/
theorem sdkPushKey_keeps (key : Key) (hasks : ¬ asks) : S.Keeps asks [] (sdkPushKey key) [] :=
  setContext_keeps (fun _ => ⟨rfl, rfl, rfl, rfl, rfl, rfl⟩) fun h => absurd h hasks

section Free

variable (hgate : i.call.gate = []) (hrelative : i.call.relative = none)
include hgate hrelative

theorem sdkLog_keeps (eventName : Option CStr) : S.Keeps asks [] (sdkLog i eventName) [] := by
  refine ensureBound_keeps.bind fun _ => Session.Keeps.require fun _ =>
    Session.Keeps.read fun m _ => ?_
  exact Session.Keeps.ite
    (fun _ => callService_keeps (Session.mayReach_of_free hgate hrelative _) _)
    fun _ => Session.Keeps.pure _

theorem sdkUngated_keeps (resource : String) (callback : Callback) :
    S.Keeps asks [] (sdkUngated i resource callback) [] :=
  ensureBound_keeps.bind fun _ => Session.Keeps.require fun _ =>
    (needServices_keeps _).bind fun _ =>
      runService_keeps (Session.mayReach_of_free hgate hrelative _) _ _

theorem sdkKvGet_keeps (key : Option CStr) : S.Keeps asks [] (sdkKvGet i key) [] := by
  refine ensureBound_keeps.bind fun _ => Session.Keeps.require fun _ =>
    Session.Keeps.require fun _ => (needServices_keeps _).bind fun _ => ?_
  exact (exclusive_keeps (Session.mayReach_of_free hgate hrelative _) 0 _ _).bind fun _ =>
    Session.Keeps.require fun _ => require_keeps _ _

theorem sdkKvSet_keeps (key value : Option CStr) : S.Keeps asks [] (sdkKvSet i key value) [] :=
  ensureBound_keeps.bind fun _ => Session.Keeps.require fun _ => Session.Keeps.require fun _ =>
    (needServices_keeps _).bind fun _ =>
      runService_keeps (Session.mayReach_of_free hgate hrelative _) _ _

theorem sdkKvDelete_keeps (key : Option CStr) : S.Keeps asks [] (sdkKvDelete i key) [] :=
  ensureBound_keeps.bind fun _ => Session.Keeps.require fun _ =>
    (needServices_keeps _).bind fun _ =>
      runService_keeps (Session.mayReach_of_free hgate hrelative _) _ _

theorem sdkIpcSend_keeps (recipient payload : Option CStr) :
    S.Keeps asks [] (sdkIpcSend i recipient payload) [] := by
  refine ensureBound_keeps.bind fun _ => Session.Keeps.require fun _ =>
    Session.Keeps.require fun _ => Session.Keeps.require fun _ =>
    (needServices_keeps _).bind fun _ => Session.Keeps.read fun m _ => ?_
  exact Session.Keeps.require fun _ =>
    runService_keeps (Session.mayReach_of_free hgate hrelative _) _ _

theorem ipcStage_keeps (n : Nat) (callback : Callback) (status : SdkStatus) :
    S.Keeps asks [] (ipcStage i n callback status) [] :=
  (exclusive_keeps (Session.mayReach_of_free hgate hrelative _) n _ _).bind fun _ =>
    require_keeps _ _

theorem sdkIpcRecv_keeps : S.Keeps asks [] (sdkIpcRecv i) [] := by
  have hstage : ∀ n callback status, S.Keeps asks [] (ipcStage i n callback status) [] :=
    ipcStage_keeps hgate hrelative
  refine ensureBound_keeps.bind fun _ => Session.Keeps.require fun _ =>
    (needServices_keeps _).bind fun _ => (hstage 0 _ _).bind fun _ => (hstage 1 _ _).bind fun _ =>
    (hstage 2 _ _).bind fun _ => ?_
  exact (exclusive_keeps (Session.mayReach_of_free hgate hrelative _) 3 _ _).bind fun _ =>
    Session.Keeps.pure _

theorem sdkModule_keeps (callback : Callback) : S.Keeps asks [] (sdkModule i callback) [] :=
  ensureBound_keeps.bind fun _ => Session.Keeps.require fun _ =>
    (needCallback_keeps _).bind fun _ =>
      callService_keeps (Session.mayReach_of_free hgate hrelative _) _

end Free

theorem inside_of_build {dir root : CStr} (hdir : strNameValid dir = true)
    {relativePath : Option CStr} {path : List UInt8}
    (h : buildAppPath dir root relativePath = (.ok, path)) :
    Inside dir root relativePath (some path) := by
  have hbelow := buildAppPath_below hdir h
  obtain ⟨p, hp, -, hpath, hlen⟩ := buildAppPath_ok h
  exact ⟨p, path, hp, rfl, hbelow, hpath, hlen⟩

/-- A call reaches its service with the path that it has built from what it was given. -/
theorem Session.In.mayReach_built {m : SdkState} (h : S.In asks caps m) {call : SdkCall}
    (hgate : call.gate = []) {root : CStr} {relativePath : Option CStr}
    (hrelative : call.relative = some (root, relativePath)) {path : List UInt8}
    (hbuild : buildAppPath m.ctx.appId root relativePath = (.ok, path)) :
    S.MayReach caps call (some path) := by
  refine ⟨Or.inl hgate, ?_⟩
  rw [h.1.appId] at hbuild
  intro r hr
  rw [hrelative] at hr
  obtain rfl := Option.some.inj hr
  exact inside_of_build h.1.dir.1 hbuild

theorem doFile_keeps {cap : Option CStr} {path : List UInt8} (hasks : cap.isSome → S.strict → asks)
    (hreach : S.MayReach cap.toList i.call (some path)) (argsGiven : Bool) (callback : Callback) :
    S.Keeps asks [] (doFile i argsGiven cap callback path) [] := by
  refine Session.Keeps.require fun _ => (needServices_keeps _).bind fun _ => ?_
  cases cap with
  | none => exact (Session.Keeps.pure ()).bind fun _ => runService_keeps hreach _ _
  | some cap =>
      exact (ensureCap_keeps (hasks rfl) i cap).bind fun _ => (runService_keeps hreach _ _).forget

theorem sdkScoped_keeps (hgate : i.call.gate = []) {root : CStr} {relativePath : Option CStr}
    (hrelative : i.call.relative = some (root, relativePath)) (argsGiven : Bool)
    (callback : Callback) :
    S.Keeps asks []
      (sdkScoped i argsGiven (fun id p => buildAppPath id root p) callback relativePath) [] := by
  refine ensureBound_keeps.bind fun _ => Session.Keeps.read fun m hm => ?_
  dsimp only
  cases hbuild : buildAppPath m.ctx.appId root relativePath with
  | mk status path =>
      refine Session.Keeps.require fun hok => ?_
      obtain rfl : status = .ok := by simpa using hok
      exact doFile_keeps (by simp) (hm.mayReach_built hgate hrelative hbuild) _ _

theorem sdkModuleLoad_keeps (hgate : i.call.gate = []) {relativePath : Option CStr}
    (hrelative : i.call.relative = some (appsRoot, relativePath)) :
    S.Keeps asks [] (sdkModuleLoad i relativePath) [] := by
  refine ensureBound_keeps.bind fun _ => Session.Keeps.require fun _ =>
    (needCallback_keeps _).bind fun _ => Session.Keeps.read fun m hm => ?_
  cases hbuild : buildScopedPath m.ctx.appId relativePath with
  | mk status path =>
      refine Session.Keeps.require fun hok => ?_
      obtain rfl : status = .ok := by simpa using hok
      exact (callService_keeps (hm.mayReach_built hgate hrelative hbuild) _).bind fun _ =>
        require_keeps _ _

theorem sdkHandleClose_keeps (handle : Nat) : S.Keeps asks [] (sdkHandleClose handle) [] :=
  ensureBound_keeps.bind fun _ => Session.Keeps.read fun _ _ => Session.Keeps.require fun _ =>
    setFields_keeps (fun _ => ⟨rfl, rfl, rfl, rfl, rfl, rfl⟩) fun _ => rfl

theorem browse_keeps (hrelative : i.call.relative = none) (hgate : filesFull ∈ i.call.gate)
    (turns : Nat) :
    S.Keeps asks [filesFull] (browse i turns) [filesFull] := by
  have hlist : S.Keeps asks [filesFull] (callService i .dirList none) [filesFull] :=
    callService_keeps (Session.mayReach_of_held hgate hrelative none) .dirList
  induction turns with
  | zero => exact hlist
  | succ turns ih => exact hlist.bind fun _ => (takeKey_keeps i.arrived).bind fun _ => ih

theorem netEnsure_keeps (hasks : S.strict → asks) (cap : CStr) :
    S.Keeps asks [] (netEnsure i cap) [cap] :=
  (ensureBound_keeps.bind fun _ => Session.Keeps.require fun _ => needServices_keeps _).bind
    fun _ => ensureCap_keeps hasks i cap

theorem appOriginPrompt_keeps (hrelative : i.call.relative = none)
    (hgate : lit "https.request" ∈ i.call.gate) (origin : List UInt8) :
    S.Keeps asks [lit "https.request"] (appOriginPrompt i origin) [lit "https.request"] := by
  refine (callService_keeps (Session.mayReach_of_held hgate hrelative _) _).bind fun _ =>
    Session.Keeps.read fun m _ => ?_
  refine Session.Keeps.ite (fun _ => Session.Keeps.pure _) fun _ =>
    Session.Keeps.ite (fun _ => Session.Keeps.pure _) fun _ => ?_
  exact Triple.bind (sdkConfirm_keeps i.scopeKeys) fun _ => Triple.pure fun _ h => h.1

section Gated

variable (hasks : S.strict → asks) (hrelative : i.call.relative = none)
include hasks hrelative

theorem sdkFileOpen_keeps (hgate : filesFull ∈ i.call.gate) (path : Option CStr)
    (mode : Option OpenMode) : S.Keeps asks [] (sdkFileOpen i path mode) [] := by
  refine ensureBound_keeps.bind fun _ => Session.Keeps.require fun _ =>
    Session.Keeps.require fun _ => ?_
  cases path with
  | none => exact Session.Keeps.fail _
  | some path =>
  cases mode with
  | none => exact Session.Keeps.fail _
  | some mode =>
  refine (needCallback_keeps _).bind fun _ => (ensureCap_keeps hasks i _).bind fun _ =>
    Session.Keeps.read fun m _ => ?_
  split
  · exact Session.Keeps.fail _
  · have hprompt : S.Keeps asks [filesFull] (sdPathPrompt i path) [filesFull] := by
      refine (callService_keeps (Session.mayReach_of_held hgate hrelative _) _).bind fun _ => ?_
      exact Triple.bind (sdkConfirm_keeps i.scopeKeys) fun _ => Triple.pure fun _ h => h.1
    refine hprompt.bind fun _ => Session.Keeps.require fun _ => ?_
    refine Session.Keeps.forget (setFields_keeps ?_ ?_)
    · exact fun _ => ⟨rfl, rfl, rfl, rfl, rfl, rfl⟩
    · exact fun _ => rfl

theorem sdkHandle_keeps (hgate : filesFull ∈ i.call.gate) (argsGiven : Bool) (mode : OpenMode)
    (callback : Callback) (handle : Nat) :
    S.Keeps asks [] (sdkHandle i argsGiven mode callback handle) [] := by
  refine ensureBound_keeps.bind fun _ => Session.Keeps.read fun m _ => ?_
  split
  · exact Session.Keeps.fail _
  · exact Session.Keeps.require fun _ =>
      doFile_keeps (fun _ => hasks) (Session.mayReach_of_held hgate hrelative _) _ _

theorem sdkFilePick_keeps (hgate : filesFull ∈ i.call.gate) :
    S.Keeps asks [] (sdkFilePick i) [] :=
  ensureBound_keeps.bind fun _ => Session.Keeps.require fun _ =>
    (needCallback_keeps _).bind fun _ => (ensureCap_keeps hasks i _).bind fun _ =>
      (browse_keeps hrelative hgate _).forget

theorem sdkGated_keeps {cap : CStr} (hgate : cap ∈ i.call.gate) (argsValid : Bool)
    (resource : String) (callback : Callback) :
    S.Keeps asks [] (sdkGated i argsValid cap resource callback) [] :=
  ensureBound_keeps.bind fun _ => Session.Keeps.require fun _ =>
    (needServices_keeps _).bind fun _ => (ensureCap_keeps hasks i cap).bind fun _ =>
      (runService_keeps (Session.mayReach_of_held hgate hrelative _) _ _).forget

theorem sdkGatedDirect_keeps {cap : CStr} (hgate : cap ∈ i.call.gate) (callback : Callback) :
    S.Keeps asks [] (sdkGatedDirect i cap callback) [] :=
  ensureBound_keeps.bind fun _ => Session.Keeps.require fun _ =>
    (needCallback_keeps _).bind fun _ => (ensureCap_keeps hasks i cap).bind fun _ =>
      (callService_keeps (Session.mayReach_of_held hgate hrelative _) _).forget

theorem sdkBleConnect_keeps (hgate : lit "ble.connect" ∈ i.call.gate) (address : Option CStr) :
    S.Keeps asks [] (sdkBleConnect i address) [] := by
  refine ensureBound_keeps.bind fun _ => Session.Keeps.require fun _ =>
    (needServices_keeps _).bind fun _ => (ensureCap_keeps hasks i _).bind fun _ =>
    Session.Keeps.read fun m _ => ?_
  split
  · exact Session.Keeps.fail _
  · refine (exclusive_keeps (Session.mayReach_of_held hgate hrelative _) 0 _ _).bind fun _ =>
      Session.Keeps.require fun _ => Session.Keeps.forget (setFields_keeps ?_ ?_)
    · exact fun _ => ⟨rfl, rfl, rfl, rfl, rfl, rfl⟩
    · exact fun _ => rfl

theorem sdkBleChar_keeps (hgate : lit "ble.connect" ∈ i.call.gate) (callback : Callback)
    (conn : Nat) : S.Keeps asks [] (sdkBleChar i callback conn) [] :=
  ensureBound_keeps.bind fun _ => Session.Keeps.require fun _ => Session.Keeps.read fun _ _ =>
    Session.Keeps.require fun _ => (needServices_keeps _).bind fun _ =>
      (ensureCap_keeps hasks i _).bind fun _ =>
        (runService_keeps (Session.mayReach_of_held hgate hrelative _) _ _).forget

theorem sdkBleDisconnect_keeps (hgate : lit "ble.connect" ∈ i.call.gate) (conn : Nat) :
    S.Keeps asks [] (sdkBleDisconnect i conn) [] := by
  refine ensureBound_keeps.bind fun _ => Session.Keeps.read fun _ _ =>
    Session.Keeps.require fun _ => (needServices_keeps _).bind fun _ =>
    (ensureCap_keeps hasks i _).bind fun _ =>
    (exclusive_keeps (Session.mayReach_of_held hgate hrelative _) 0 _ _).bind fun _ => ?_
  refine Session.Keeps.bind (setFields_keeps ?_ ?_) fun _ => (require_keeps _ _).forget
  · exact fun _ => ⟨rfl, rfl, rfl, rfl, rfl, rfl⟩
  · exact fun _ => rfl

theorem sdkBleServiceRegister_keeps (hgate : lit "ble.host" ∈ i.call.gate)
    (svcUuid : Option CStr) : S.Keeps asks [] (sdkBleServiceRegister i svcUuid) [] := by
  refine ensureBound_keeps.bind fun _ => Session.Keeps.require fun _ =>
    (needServices_keeps _).bind fun _ => Session.Keeps.read fun _ _ =>
    Session.Keeps.require fun _ => (ensureCap_keeps hasks i _).bind fun _ =>
    (exclusive_keeps (Session.mayReach_of_held hgate hrelative _) 0 _ _).bind fun _ => ?_
  refine Session.Keeps.ite (fun _ => ?_) fun _ => (require_keeps _ _).forget
  refine Session.Keeps.bind (setFields_keeps ?_ ?_) fun _ => (require_keeps _ _).forget
  · exact fun _ => ⟨rfl, rfl, rfl, rfl, rfl, rfl⟩
  · exact fun _ => rfl

theorem sdkBleServiceUnregister_keeps (hgate : lit "ble.host" ∈ i.call.gate) :
    S.Keeps asks [] (sdkBleServiceUnregister i) [] := by
  refine ensureBound_keeps.bind fun _ => Session.Keeps.require fun _ =>
    (needServices_keeps _).bind fun _ => Session.Keeps.read fun _ _ =>
    Session.Keeps.require fun _ => (ensureCap_keeps hasks i _).bind fun _ =>
    (exclusive_keeps (Session.mayReach_of_held hgate hrelative _) 0 _ _).bind fun _ => ?_
  refine Session.Keeps.ite (fun _ => ?_) fun _ => (require_keeps _ _).forget
  refine Session.Keeps.bind (setFields_keeps ?_ ?_) fun _ => (require_keeps _ _).forget
  · exact fun _ => ⟨rfl, rfl, rfl, rfl, rfl, rfl⟩
  · exact fun _ => rfl

theorem sdkEspnowRecv_keeps (hgate : lit "esp_now" ∈ i.call.gate) :
    S.Keeps asks [] (sdkEspnowRecv i) [] := by
  refine ensureBound_keeps.bind fun _ => Session.Keeps.require fun _ =>
    (needServices_keeps _).bind fun _ => (ensureCap_keeps hasks i _).bind fun _ =>
    (exclusive_keeps (Session.mayReach_of_held hgate hrelative _) 0 _ _).bind fun _ => ?_
  exact Session.Keeps.require fun _ => Session.Keeps.require fun _ => (require_keeps _ _).forget

theorem sdkHttpsRequest_keeps (hgate : lit "https.request" ∈ i.call.gate)
    (method url body : Option CStr) :
    S.Keeps asks [] (sdkHttpsRequest i method url body) [] := by
  refine ensureBound_keeps.bind fun _ => Session.Keeps.require fun _ =>
    Session.Keeps.require fun _ => (needServices_keeps _).bind fun _ =>
    Session.Keeps.require fun _ => (ensureCap_keeps hasks i _).bind fun _ =>
    (appOriginPrompt_keeps hrelative hgate _).bind fun _ => Session.Keeps.require fun _ => ?_
  exact (runService_keeps (Session.mayReach_of_held hgate hrelative _) _ _).forget

theorem sdkNetBind_keeps (hgate : networkBind ∈ i.call.gate) (port : Nat) :
    S.Keeps asks [] (sdkNetBind i port) [] :=
  (netEnsure_keeps hasks networkBind).bind fun _ => Session.Keeps.require fun _ =>
    (runService_keeps (Session.mayReach_of_held hgate hrelative _) _ _).forget

theorem sdkNetAccept_keeps (hgate : networkBind ∈ i.call.gate) :
    S.Keeps asks [] (sdkNetAccept i) [] :=
  (netEnsure_keeps hasks networkBind).bind fun _ => Session.Keeps.require fun _ =>
    (runService_keeps (Session.mayReach_of_held hgate hrelative _) _ _).forget

theorem sdkNetConnect_keeps (hgate : networkConnect ∈ i.call.gate) (host : Option CStr)
    (port : Nat) : S.Keeps asks [] (sdkNetConnect i host port) [] :=
  (netEnsure_keeps hasks networkConnect).bind fun _ => Session.Keeps.require fun _ =>
    (needCallback_keeps _).bind fun _ =>
      (runService_keeps (Session.mayReach_of_held hgate hrelative _) _ _).forget

end Gated

/-- The calls on a socket do not ask: the app holds one of the two capabilities already. -/
theorem sdkNetShared_keeps (hrelative : i.call.relative = none)
    (hgate : i.call.gate = [networkBind, networkConnect]) (callback : Callback) :
    S.Keeps asks [] (sdkNetShared i callback) [] := by
  have hany : Triple (S.In asks []) (netEnsureAny i)
      (fun _ m => S.In asks [networkBind] m ∨ S.In asks [networkConnect] m)
      (fun _ => S.In asks []) := by
    refine Triple.bind (ensureBound_keeps.bind fun _ => Session.Keeps.require fun _ =>
      needServices_keeps _) fun _ => Triple.read_bind fun _ hm => Triple.check ?_ ?_
    · rintro m rfl hheld
      have hholds : ∀ cap, m.hasCapability cap = true → S.In asks [cap] m := fun cap hcap =>
        ⟨hm.1, hm.2.1, fun c hc => by
          rw [List.mem_singleton.mp hc]
          exact hm.1.held cap (by simpa [SdkState.hasCapability] using hcap)⟩
      exact (Bool.or_eq_true_iff.mp hheld).imp (hholds _) (hholds _)
    · rintro _ rfl -
      exact hm
  have hrun : ∀ cap ∈ i.call.gate, S.Keeps asks [cap]
      (require i.givenBehind .invalidArgument >>= fun _ => runService i "network" callback none)
      [] := fun cap hcap =>
    Session.Keeps.require fun _ =>
      (runService_keeps (Session.mayReach_of_held hcap hrelative _) _ _).forget
  refine Triple.bind hany fun _ m hm => ?_
  rcases hm with hm | hm
  · exact hrun networkBind (by simp [hgate]) m hm
  · exact hrun networkConnect (by simp [hgate]) m hm

/-- The calls that may open a dialog for a capability. -/
def SdkCall.mayAsk : SdkCall → Bool
  | .requestCap _ | .backgroundRegister => true
  | .netRecv | .netSend | .netClose => false
  | call => !call.gate.isEmpty

theorem sdkRequestCap_keeps (hasks : S.strict → asks) (cap : Option CStr) :
    S.Keeps asks [] (sdkRequestCap i cap) [] := by
  refine ensureBound_keeps.bind fun _ => ?_
  cases cap with
  | none => exact Session.Keeps.fail _
  | some cap => exact Session.Keeps.require fun _ => (ensureCap_keeps hasks i cap).forget

theorem sdkBackgroundRegister_keeps (hasks : S.strict → asks) :
    S.Keeps asks [] (sdkBackgroundRegister i) [] :=
  ensureBound_keeps.bind fun _ => Session.Keeps.require fun _ =>
    (ensureCap_keeps hasks i _).forget

/-- Every call keeps the session in order; where a grant has to be the user's, a call that
may ask has to find no key of the app in the queue. -/
theorem runCall_keeps (S : Session) (i : SdkInput) :
    S.Keeps (S.strict ∧ i.call.mayAsk = true) [] (runCall i) [] := by
  obtain ⟨call, given, givenBehind, capKeys, scopeKeys, originSaved, arrived, loaded, answers⟩ := i
  have hself : ∀ {cap : CStr} {rest : List CStr}, cap ∈ cap :: rest := List.mem_cons_self
  have hasks : S.strict → S.strict ∧ true = true := fun h => ⟨h, rfl⟩
  cases call with
  | requestClose => exact sdkRequestClose_keeps
  | requestCap cap => exact sdkRequestCap_keeps hasks cap
  | pollKey => exact sdkPollKey_keeps
  | waitKey => exact sdkWaitKey_keeps
  | pushKey key => exact sdkPushKey_keeps key (by simp [SdkCall.mayAsk, SdkCall.gate])
  | log eventName => exact sdkLog_keeps rfl rfl eventName
  | deviceStatus => exact sdkUngated_keeps rfl rfl _ _
  | getTime => exact sdkUngated_keeps rfl rfl _ _
  | kvGet key => exact sdkKvGet_keeps rfl rfl key
  | kvSet key value => exact sdkKvSet_keeps rfl rfl key value
  | kvDelete key => exact sdkKvDelete_keeps rfl rfl key
  | ipcSend recipient payload => exact sdkIpcSend_keeps rfl rfl recipient payload
  | ipcRecv => exact sdkIpcRecv_keeps rfl rfl
  | fileRead path => exact sdkScoped_keeps rfl rfl _ _
  | fileWrite path text => exact sdkScoped_keeps rfl rfl _ _
  | fileList dir => exact sdkScoped_keeps rfl rfl _ _
  | sharedRead path => exact sdkScoped_keeps rfl rfl _ _
  | sharedWrite path text => exact sdkScoped_keeps rfl rfl _ _
  | sharedList dir => exact sdkScoped_keeps rfl rfl _ _
  | fileOpen path mode => exact sdkFileOpen_keeps hasks rfl hself path mode
  | handleRead handle => exact sdkHandle_keeps hasks rfl hself _ _ _ handle
  | handleWrite handle text => exact sdkHandle_keeps hasks rfl hself _ _ _ handle
  | handleList handle => exact sdkHandle_keeps hasks rfl hself _ _ _ handle
  | handleClose handle => exact sdkHandleClose_keeps handle
  | filePick => exact sdkFilePick_keeps hasks rfl hself
  | backgroundRegister => exact sdkBackgroundRegister_keeps hasks
  | bleScan => exact sdkGated_keeps hasks rfl hself _ _ _
  | bleAdvertiseStart payloadLen => exact sdkGated_keeps hasks rfl hself _ _ _
  | bleAdvertiseStop => exact sdkGated_keeps hasks rfl hself _ _ _
  | bleSetConnectable => exact sdkGatedDirect_keeps hasks rfl hself _
  | bleConnect address => exact sdkBleConnect_keeps hasks rfl hself address
  | bleReadChar conn => exact sdkBleChar_keeps hasks rfl hself _ conn
  | bleWriteChar conn => exact sdkBleChar_keeps hasks rfl hself _ conn
  | bleDisconnect conn => exact sdkBleDisconnect_keeps hasks rfl hself conn
  | bleServiceRegister svcUuid => exact sdkBleServiceRegister_keeps hasks rfl hself svcUuid
  | bleServiceUnregister => exact sdkBleServiceUnregister_keeps hasks rfl hself
  | bleHostSetValue => exact sdkGatedDirect_keeps hasks rfl hself _
  | bleHostWaitWrite => exact sdkGatedDirect_keeps hasks rfl hself _
  | bleHostClear => exact sdkGatedDirect_keeps hasks rfl hself _
  | espnowSend dataLen => exact sdkGated_keeps hasks rfl hself _ _ _
  | espnowRecv => exact sdkEspnowRecv_keeps hasks rfl hself
  | httpRequest method url => exact sdkGated_keeps hasks rfl hself _ _ _
  | httpsRequest method url body => exact sdkHttpsRequest_keeps hasks rfl hself method url body
  | netBind port => exact sdkNetBind_keeps hasks rfl hself port
  | netAccept => exact sdkNetAccept_keeps hasks rfl hself
  | netConnect host port => exact sdkNetConnect_keeps hasks rfl hself host port
  | netRecv => exact sdkNetShared_keeps rfl rfl _
  | netSend => exact sdkNetShared_keeps rfl rfl _
  | netClose => exact sdkNetShared_keeps rfl rfl _
  | moduleLoad path => exact sdkModuleLoad_keeps rfl rfl
  | moduleRun => exact sdkModule_keeps rfl rfl _
  | moduleUnload => exact sdkModule_keeps rfl rfl _

/-- A program that an unbound context refuses at once. -/
def Refused {α : Type} (p : SdkProg α) : Prop :=
  ∀ m, m.ctx.bound = false → exec p m = (.error (.status .invalidState), m)

theorem ensureBound_refused : Refused ensureBound := by
  intro m hm
  rw [ensureBound, exec_bind, exec_read]
  simp [Sdk.require, exec_check, hm]

theorem Refused.bind {α β : Type} {p : SdkProg α} (h : Refused p) (k : α → SdkProg β) :
    Refused (p >>= k) := by
  intro m hm
  rw [exec_bind, h m hm]

/-- In an unbound context no call reaches anything; a key that is pushed waits in the
queue. -/
theorem runCall_unbound {m : SdkState} (hm : m.ctx.bound = false) (i : SdkInput) :
    (exec (runCall i) m).2 = m ∨
      ∃ queue, (exec (runCall i) m).2 = { m with ctx := { m.ctx with keyQueue := queue } } := by
  obtain ⟨call, given, givenBehind, capKeys, scopeKeys, originSaved, arrived, loaded, answers⟩ := i
  have hrefused : ∀ {p : SdkProg Unit}, Refused p → (exec p m).2 = m := fun h => by rw [h m hm]
  have hdirect : ∀ {k : Unit → SdkProg Unit}, Refused (ensureBound >>= k) :=
    fun {k} => ensureBound_refused.bind k
  cases call with
  | pushKey key => exact Or.inr ⟨_, rfl⟩
  | netBind | netAccept | netConnect =>
      exact Or.inl (hrefused (((ensureBound_refused.bind _).bind _).bind _))
  | netRecv | netSend | netClose =>
      exact Or.inl (hrefused (((ensureBound_refused.bind _).bind _).bind _))
  | _ => exact Or.inl (hrefused hdirect)

end Calls

end Sdk
end JppDos
