import LibShv.BrokerApp.ClientLogin
import LibShv.ClientConnectionOnBroker

/-!
# LibShv.ClientConnectionOnBroker.LoginAnswer

The answer to a login request: what the client is sent when its login was checked,
at once or later, and its device was mounted or could not be mounted.

The answer is sent before the device is mounted. What the mounting throws then
becomes a second answer if the login was checked at once, and no answer at all if
it was checked later.
-/

namespace LibShv

/-! ## mounting -/

def KEY_DEVICE : Bytes := ascii "device"
def KEY_DEVICE_ID : Bytes := ascii "deviceId"
def KEY_MOUT_POINT : Bytes := ascii "mountPoint"

/-- `BrokerApp::resolveMountPoint`: as it is defined for the device, or below `test`. -/
def AclManager.resolveMountPoint {B : AclBackend} (m : AclManager B) (device_opts : RpcMap) :
    Except String Bytes :=
  let device_id := device_opts.valueOr KEY_DEVICE_ID .invalid
  let defined :=
    if device_id.isValid then (m.mountDef device_id.asString).1.map (·.mountPoint) else .ok []
  defined.map fun mount_point =>
    if mount_point ≠ [] then mount_point
    else
      let mount_point := (device_opts.valueOr KEY_MOUT_POINT .invalid).toString
      match splitPath mount_point with
      | s :: _ => if s = ascii "test" then mount_point else []
      | [] => mount_point

namespace ClientLogin

variable {B : AclBackend} (names : ObjectNames) (st : MountState) (m : AclManager B)
  (connection_id : Int32) (connectionOptions : RpcMap)

/-- The mount point of a connection with these options; empty for one that is no device. -/
def mountPointOf : Except String Bytes :=
  let deviceOptions := connectionOptions.valueOr KEY_DEVICE .invalid
  if deviceOptions.isMap then m.resolveMountPoint deviceOptions.asMap else .ok []

/-- What `onClientLogin` throws for the connection. -/
def onClientLoginThrows : Except String Unit :=
  match mountPointOf m connectionOptions with
  | .ok mount_point => (onClientLogin names st connection_id mount_point).2
  | .error e =>
    -- the directory of the client is made before the mount point is looked for
    if (makeClientDir names st connection_id).2 then .error e
    else .error "Cannot mount connection subscription list"

/-- There is a node of a client where the path of the mount point ends, or it ends before its
last node, which can be made. -/
def HasPlace (t : ShvNodeTree) (mount_point : Bytes) : Prop :=
  let found := ShvNodeTree.cd names t [] (splitPath mount_point)
  ShvNodeTree.isClient t found.1 = true ∨
    StringViewList.join found.2 ≠ [] ∧
      (ShvNodeTree.mount names t (splitPath mount_point) (some [connection_id])).2.isSome = true

/-- The nodes of the client can be made, and its mount point can be told and has a place. -/
structure CanMount : Prop where
  clientDir : (makeClientDir names st connection_id).2 = true
  device : ∃ mount_point, mountPointOf m connectionOptions = .ok mount_point ∧
    (mount_point ≠ [] →
      HasPlace names connection_id (makeClientDir names st connection_id).1.nodes mount_point)

variable {names st m connection_id connectionOptions}

theorem mountDevice_ok_iff {t : ShvNodeTree} {mount_point : Bytes} :
    (∃ dirs, (mountDevice names t connection_id mount_point).2 = .ok dirs) ↔
      HasPlace names connection_id t mount_point := by
  unfold mountDevice HasPlace
  dsimp only
  split
  · rename_i hclient
    exact iff_of_true ⟨_, rfl⟩ (.inl hclient)
  · rename_i hclient
    split
    · rename_i hrest
      simp [hclient, hrest]
    · rename_i hrest
      cases hmount : (ShvNodeTree.mount names t (splitPath mount_point) (some [connection_id])).2 with
      | none => simp [hclient]
      | some dirs => simp [hrest]

theorem onClientLogin_ok_iff {mount_point : Bytes} :
    (onClientLogin names st connection_id mount_point).2 = .ok () ↔
      (makeClientDir names st connection_id).2 = true ∧
        (mount_point ≠ [] →
          HasPlace names connection_id (makeClientDir names st connection_id).1.nodes
            mount_point) := by
  unfold onClientLogin
  dsimp only
  cases hdir : (makeClientDir names st connection_id).2 with
  | false => simp
  | true =>
    by_cases hmount : mount_point = []
    · simp [hmount]
    · rw [← mountDevice_ok_iff]
      cases hdevice : (mountDevice names (makeClientDir names st connection_id).1.nodes
        connection_id mount_point).2 with
      | error msg => simp [hmount]
      | ok dirs => simp [hmount]

theorem onClientLoginThrows_ok_iff :
    onClientLoginThrows names st m connection_id connectionOptions = .ok () ↔
      CanMount names st m connection_id connectionOptions := by
  unfold onClientLoginThrows
  cases hmount : mountPointOf m connectionOptions with
  | ok mount_point =>
    constructor
    · intro h
      obtain ⟨hdir, hplace⟩ := onClientLogin_ok_iff.mp h
      exact ⟨hdir, mount_point, hmount, hplace⟩
    · rintro ⟨hdir, mount_point', hmount', hplace⟩
      obtain rfl := Except.ok.inj (hmount.symm.trans hmount')
      exact onClientLogin_ok_iff.mpr ⟨hdir, hplace⟩
  | error e =>
    refine iff_of_false ?_ ?_
    · dsimp only
      split
      · simp
      · simp
    · rintro ⟨-, mount_point, hmount', -⟩
      rw [hmount] at hmount'
      cases hmount'

end ClientLogin

/-- The broker with these nodes: what `onClientLogin` throws for the connection. -/
def LoginBroker.onNodes {B : AclBackend} (broker : LoginBroker B) (names : ObjectNames)
    (st : MountState) (connection_id : Int32) (connectionOptions : RpcMap) : LoginBroker B :=
  { broker with
    onClientLogin :=
      (ClientLogin.onClientLoginThrows names st broker.aclManager connection_id
        connectionOptions).mapError ascii }

/-! ## answers -/

theorem RpcMetaData.hasKey_setIValue_self {md : RpcMetaData} {key : Int32} {val : RpcValue}
    (h : val.isValid = true) : (md.setIValue key val).hasKey key = true := by
  simp [setIValue, hasKey, h]

theorem RpcMetaData.hasKey_setIValue_of_ne {md : RpcMetaData} {key key' : Int32} (h : key' ≠ key)
    (val : RpcValue) : (md.setIValue key val).hasKey key' = md.hasKey key' := by
  rw [setIValue]
  by_cases hv : val.isValid = true
  · simp [hv, hasKey, SortedMap.find?_insert_of_ne h]
  · simp [hv, hasKey, SortedMap.find?_erase_of_ne h]

/-- A response with the id of the request. -/
structure RpcMessage.AnswersTo (resp : RpcMessage) (id : RpcValue) : Prop where
  isResponse : resp.isResponse = true
  requestId : resp.requestId = id

/-- A response to the id that has neither a result nor an error yet. -/
structure RpcMessage.Blank (resp : RpcMessage) (id : RpcValue) : Prop where
  isResponse : resp.checkMetaValues.metaData.isResponse = true
  requestId : resp.checkMetaValues.metaData.requestId = id
  asIMap : resp.checkMetaValues.asIMap = []

namespace RpcMessage

variable {id : RpcValue}

theorem blank_setRequestId (h : id.isValid = true) : (empty.setRequestId id).Blank id where
  isResponse := by
    have hid : (empty.setRequestId id).checkMetaValues.metaData.hasRequestId = true :=
      RpcMetaData.hasKey_setIValue_self h
    have hmethod : (empty.setRequestId id).checkMetaValues.metaData.hasMethod = false :=
      RpcMetaData.hasKey_setIValue_of_ne (by decide) id
    rw [RpcMetaData.isResponse, hid, hmethod]
    rfl
  requestId := by
    have hsorted : SortedMap.Sorted [(Tag_MetaTypeId, RpcValue.ofVariant (.int 1))] := by simp
    have hvalue := @RpcMetaData.valueOf_setIValue_self
      (.mk [(Tag_MetaTypeId, .ofVariant (.int 1))] []) hsorted Tag_RequestId id
    rw [if_pos h] at hvalue
    exact hvalue
  asIMap := rfl

theorem Blank.setCallerIds {resp : RpcMessage} (h : resp.Blank id)
    (hvalid : resp.value.isValid = true) (callerIds : RpcValue) :
    (resp.setCallerIds callerIds).Blank id := by
  have hresp : resp.checkMetaValues = resp.value := if_pos hvalid
  have hvalid' : (resp.setCallerIds callerIds).value.isValid = true := by
    change resp.checkMetaValues.isValid = true
    rw [hresp]
    exact hvalid
  have hcheck : (resp.setCallerIds callerIds).checkMetaValues =
      resp.value.setMetaValue Tag_CallerIds callerIds := by
    rw [← hresp]
    exact if_pos hvalid'
  refine ⟨?_, ?_, ?_⟩
  · have hold := h.isResponse
    rw [hresp] at hold
    rw [hcheck]
    unfold RpcMetaData.isResponse RpcMetaData.hasRequestId RpcMetaData.hasMethod at hold ⊢
    have hid := @RpcMetaData.hasKey_setIValue_of_ne resp.value.metaData Tag_CallerIds Tag_RequestId
      (by decide) callerIds
    have hmethod := @RpcMetaData.hasKey_setIValue_of_ne resp.value.metaData Tag_CallerIds Tag_Method
      (by decide) callerIds
    change ((resp.value.metaData.setIValue Tag_CallerIds callerIds).hasKey Tag_RequestId &&
      !(resp.value.metaData.setIValue Tag_CallerIds callerIds).hasKey Tag_Method) = true
    rw [hid, hmethod]
    exact hold
  · have hold := h.requestId
    rw [hresp] at hold
    rw [hcheck]
    exact (RpcMetaData.valueOf_setIValue_of_ne (by decide) callerIds).trans hold
  · have hold := h.asIMap
    rw [hresp] at hold
    rw [hcheck]
    exact hold

theorem blank_forRequest {md : RpcMetaData} (h : md.requestId.isValid = true) :
    (forRequest md).Blank md.requestId := by
  unfold forRequest
  dsimp only
  rw [if_pos h]
  split
  · exact (blank_setRequestId h).setCallerIds rfl md.callerIds
  · exact blank_setRequestId h

theorem Blank.setResult {resp : RpcMessage} (h : resp.Blank id) (res : RpcValue) :
    (resp.setResult res).AnswersTo id := ⟨h.isResponse, h.requestId⟩

theorem Blank.setError {resp : RpcMessage} (h : resp.Blank id) (err : RpcError) :
    (resp.setError err).AnswersTo id := ⟨h.isResponse, h.requestId⟩

theorem Blank.isSuccess_setResult {resp : RpcMessage} (h : resp.Blank id) {res : RpcValue}
    (hres : res.isValid = true) : (resp.setResult res).isSuccess = .ok true := by
  have himap : (resp.setResult res).value.asIMap = [(Key_Result, res)] := by
    change (if res.isValid then SortedMap.insert Key_Result res resp.checkMetaValues.asIMap
      else SortedMap.erase Key_Result resp.checkMetaValues.asIMap) = _
    rw [if_pos hres, h.asIMap]
    rfl
  have hresult : (resp.setResult res).result = res := by rw [result, himap]; rfl
  have herror : (resp.setResult res).error.isValid = .ok false := by rw [error, himap]; rfl
  rw [isSuccess, hresult, herror, if_pos hres]
  rfl

theorem Blank.isSuccess_setError {resp : RpcMessage} (h : resp.Blank id) (err : RpcError) :
    (resp.setError err).isSuccess = .ok false := by
  have hresult : (resp.setError err).result = .invalid := by
    have himap : (resp.setError err).value.asIMap =
        if err.value.isValid then SortedMap.insert Key_Error err.value resp.checkMetaValues.asIMap
        else SortedMap.erase Key_Error resp.checkMetaValues.asIMap := rfl
    rw [result, himap, h.asIMap]
    split
    · rfl
    · rfl
  rw [isSuccess, hresult]
  rfl

end RpcMessage

/-! ## a login request -/

/-- What the client is sent. -/
def ConnectionOutput.sent (os : List ConnectionOutput) : List RpcMessage :=
  os.filterMap fun
    | .send msg => some msg
    | _ => none

open ConnectionOutput

@[simp] theorem sent_append (os os' : List ConnectionOutput) :
    sent (os ++ os') = sent os ++ sent os' := List.filterMap_append

namespace ClientConnectionOnBroker

variable {B : AclBackend} (sha1Hex : Bytes → Bytes) (broker : LoginBroker B)
  (conn : ClientConnectionOnBroker) (msg : RpcMessage)

/-- The connection takes up the request: it is a login, and the first one. -/
structure TakesUp : Prop where
  request : msg.isRequest = true
  login : msg.method.eqText METH_LOGIN = true
  id : msg.requestId.isValid = true
  received : conn.m_loginReceived = false
  loginOk : conn.m_loginOk = false
  pending : conn.loginPending = false

/-- The connection that has taken up the request. -/
def taken : ClientConnectionOnBroker :=
  { conn with
    m_loginReceived := true
    loginRequest := msg
    m_connectionOptions := msg.params.asMap.valueOr KEY_OPTIONS .invalid }

/-- The time without frames after which the client is dropped is an `int`. -/
def IdleTimeoutConverts : Prop :=
  ∃ t, (conn.connectionOptions.valueOr OPT_IDLE_WD_TIMEOUT (.ofInt32 180)).toInt = .ok t

/-- The check of the login, by the secret of the tunnel or as that of a user. -/
def verdict : Except LoginFault LoginCheck :=
  if conn.tunnelOptions.isMap then
    .ok (.called ⟨broker.checkTunnelSecret
      (conn.tunnelOptions.asMap.valueOr KEY_SECRET .invalid).asString, [], 0, none⟩)
  else broker.checkLogin sha1Hex conn.m_userLoginContext

/-- The login request, and the result if the check brings one later; `mid` are the frames that
come before it. -/
def login (mid : List (RpcFrame × LoginBroker B)) (later : UserLoginResult × LoginBroker B) :
    ClientConnectionOnBroker × List ConnectionOutput :=
  let r := conn.processLoginPhase sha1Hex broker msg
  if r.1.loginPending then
    let conn' := (Machine.run (step sha1Hex) r.1
      (mid.map fun e => ConnectionEvent.frameReceived e.1 e.2)).1
    let r' := conn'.step sha1Hex (.loginResult later.1 later.2)
    (r'.1, r.2 ++ r'.2)
  else r

end ClientConnectionOnBroker

/-- Whether the login is let in, now or by the result that comes later. -/
def letsIn (check : Except LoginFault LoginCheck) (later : UserLoginResult) : Bool :=
  match check with
  | .error _ => false
  | .ok (.called result) => result.passwordOk
  | .ok .pending => later.passwordOk

/-- What holds when the result of the login is set. -/
def atResult (check : Except LoginFault LoginCheck) (now later : Prop) : Prop :=
  match check with
  | .ok .pending => later
  | _ => now

/-- The client got one response, the one to its request; it is logged in exactly if that is the
success one, and then its device was mounted. -/
structure AnsweredOnce (msg : RpcMessage) (r : ClientConnectionOnBroker × List ConnectionOutput)
    (mounted : Prop) : Prop where
  answer : ∃ resp, sent r.2 = [resp] ∧ resp.AnswersTo msg.requestId ∧
    (r.1.m_loginOk = true ↔ resp.isSuccess = .ok true)
  mounted : r.1.m_loginOk = true → mounted

namespace ClientConnectionOnBroker

variable {B : AclBackend} {sha1Hex : Bytes → Bytes} {broker : LoginBroker B}
  {conn : ClientConnectionOnBroker} {msg : RpcMessage}

theorem requestId_of_isValid (h : msg.requestId.isValid = true) :
    msg.requestId = msg.value.metaData.requestId := by
  unfold RpcMessage.requestId at h ⊢
  by_cases hvalid : msg.value.isValid = true
  · rw [if_pos hvalid]
  · rw [if_neg hvalid] at h
    exact absurd h (by decide)

/-- The one answer to a login that was checked. -/
theorem setLoginResult_spec (hrequest : conn.loginRequest = msg)
    (hid : msg.requestId.isValid = true) (result : UserLoginResult) :
    (∃ resp, sent (conn.setLoginResult broker result).2.2 = [resp] ∧
      resp.AnswersTo msg.requestId ∧ resp.isSuccess = .ok result.passwordOk) ∧
    (conn.setLoginResult broker result).1 =
      if result.passwordOk then broker.onClientLogin.mapError .core else .ok () := by
  have hblank := @RpcMessage.blank_forRequest msg.value.metaData
    (by rw [← requestId_of_isValid hid]; exact hid)
  rw [← requestId_of_isValid hid] at hblank
  unfold setLoginResult
  rw [hrequest]
  cases hok : result.passwordOk with
  | true =>
    refine ⟨⟨_, rfl, hblank.setResult _, ?_⟩, rfl⟩
    exact hblank.isSuccess_setResult rfl
  | false => exact ⟨⟨_, rfl, hblank.setError _, hblank.isSuccess_setError _⟩, rfl⟩

theorem checkLogin_error {ctx : UserLoginContext} {e : LoginFault}
    (h : broker.checkLogin sha1Hex ctx = .error e) : ∃ text, e = .core text := by
  unfold LoginBroker.checkLogin at h
  dsimp only at h
  generalize (if ctx.userLogin.loginType = .Token then LoginType.AzureAccessToken
    else ctx.userLogin.loginType) = loginType at h
  split at h
  · cases h
  · split at h
    · cases h
    · split at h
      · exact ⟨_, (Except.error.inj h).symm⟩
      · split at h
        · exact ⟨_, (Except.error.inj h).symm⟩
        · split at h
          · cases h
          · split at h
            · split at h
              · cases h
              · cases h
            · cases h

theorem verdict_error {e : LoginFault} (h : conn.verdict sha1Hex broker = .error e) :
    ∃ text, e = .core text := by
  unfold verdict at h
  split at h
  · cases h
  · exact checkLogin_error h

/-- What `processLogin` does with the verdict, after nothing was sent. -/
theorem processLogin_spec (hidle : conn.IdleTimeoutConverts) :
    ∃ (conn' : ClientConnectionOnBroker) (os : List ConnectionOutput), sent os = [] ∧
      conn'.loginRequest = conn.loginRequest ∧ conn'.m_loginOk = conn.m_loginOk ∧
      conn'.m_loginReceived = conn.m_loginReceived ∧ conn'.loginPending = conn.loginPending ∧
      conn.processLogin sha1Hex broker =
        match conn.verdict sha1Hex broker with
        | .error e => (.error e, conn', os)
        | .ok .pending => (.ok (), { conn' with loginPending := true }, os)
        | .ok (.called result) =>
          ((conn'.setLoginResult broker result).1, (conn'.setLoginResult broker result).2.1,
            os ++ (conn'.setLoginResult broker result).2.2) := by
  obtain ⟨t, ht⟩ := hidle
  unfold processLogin verdict
  rw [ht]
  dsimp only
  split
  · exact ⟨conn, [.evaluate conn.m_userLoginContext true], rfl, rfl, rfl, rfl, rfl, rfl⟩
  · cases hcheck : broker.checkLogin sha1Hex conn.m_userLoginContext with
    | error e =>
      exact ⟨{ conn with m_userLogin := conn.m_userLoginContext.userLogin },
        [.evaluate conn.m_userLoginContext false], rfl, rfl, rfl, rfl, rfl, rfl⟩
    | ok check =>
      cases check with
      | pending =>
        exact ⟨{ conn with m_userLogin := conn.m_userLoginContext.userLogin },
          [.evaluate conn.m_userLoginContext false], rfl, rfl, rfl, rfl, rfl, rfl⟩
      | called result =>
        cases hname : result.userNameOverride with
        | none =>
          refine ⟨{ conn with m_userLogin := conn.m_userLoginContext.userLogin },
            [.evaluate conn.m_userLoginContext false], rfl, rfl, rfl, rfl, rfl, ?_⟩
          simp only [onLoginChecked, hname]
          rfl
        | some name =>
          refine ⟨{ conn with m_userLogin := { conn.m_userLoginContext.userLogin with user := name } },
            [.evaluate conn.m_userLoginContext false], rfl, rfl, rfl, rfl, rfl, ?_⟩
          simp only [onLoginChecked, hname]
          rfl

theorem eqText_of_eqText {v : RpcValue} {s s' : Bytes} (h : v.eqText s = true) (hne : s ≠ s') :
    v.eqText s' = false := by
  obtain ⟨md, x⟩ := v
  cases x with
  | string t =>
    obtain rfl : t = s := by simpa [RpcValue.eqText] using h
    simpa [RpcValue.eqText] using hne
  | _ => rfl

/-- An exception of the core becomes an answer. -/
def answerThrown (msg : RpcMessage) : Step → ClientConnectionOnBroker × List ConnectionOutput
  | (.error (.core e), conn, outputs) =>
    (conn, outputs ++
      [sendError msg.requestId (.create RpcError.MethodCallException e), .abort])
  | (_, conn, outputs) => (conn, outputs)

/-- The request is taken up. -/
theorem processLoginPhase_eq (h : conn.TakesUp msg) :
    conn.processLoginPhase sha1Hex broker msg =
      answerThrown msg ((conn.taken msg).processLogin sha1Hex broker) := by
  have hhello := eqText_of_eqText h.login (show METH_LOGIN ≠ METH_HELLO by decide)
  have hworkflows := eqText_of_eqText h.login (show METH_LOGIN ≠ METH_WORKFLOWS by decide)
  simp only [processLoginPhase, h.request, h.received, h.login, hhello, hworkflows, Bool.not_true,
    Bool.not_false, Bool.true_and, Bool.false_eq_true, if_false, if_true]
  rfl

/-- A frame that comes while the login is checked changes nothing. -/
theorem step_frameReceived_of_received (hreceived : conn.m_loginReceived = true)
    (hok : conn.m_loginOk = false) (frame : RpcFrame) :
    (conn.step sha1Hex (.frameReceived frame broker)).1 = conn := by
  have hphase : conn.isLoginPhase = true := by simp [isLoginPhase, hok]
  simp only [step, onRpcFrameReceived, hphase, if_true]
  split
  · rfl
  · simp only [processLoginPhase, hreceived, Bool.not_true, Bool.false_and, Bool.false_eq_true,
      if_false]
    split
    · rfl
    · rfl

theorem run_frames_of_received (hreceived : conn.m_loginReceived = true)
    (hok : conn.m_loginOk = false) (mid : List (RpcFrame × LoginBroker B)) :
    (Machine.run (step sha1Hex) conn
      (mid.map fun e => ConnectionEvent.frameReceived e.1 e.2)).1 = conn := by
  induction mid with
  | nil => rfl
  | cons e mid ih =>
    rw [List.map_cons, Machine.run_cons, step_frameReceived_of_received hreceived hok]
    exact ih

/-- A login that could not be checked is answered by what was thrown. -/
theorem answeredOnce_of_error (h : conn.TakesUp msg) {conn' : ClientConnectionOnBroker}
    {os : List ConnectionOutput} {text : Bytes} {mounted : Prop} (hos : sent os = [])
    (hok : conn'.m_loginOk = false) :
    AnsweredOnce msg (conn', os ++
      [sendError msg.requestId (.create RpcError.MethodCallException text), .abort]) mounted where
  answer := by
    have hblank := RpcMessage.blank_setRequestId h.id
    refine ⟨_, ?_, hblank.setError (.create RpcError.MethodCallException text), ?_⟩
    · rw [sent_append, hos]
      rfl
    · rw [hblank.isSuccess_setError]
      simp [hok]
  mounted hok' := by simp [hok] at hok'

/-- A login whose result is set, where nothing else is sent. -/
theorem answeredOnce_of_result {conn' : ClientConnectionOnBroker} {os : List ConnectionOutput}
    {resp : RpcMessage} {passwordOk : Bool} {mounted : Prop} (hos : sent os = [resp])
    (hanswers : resp.AnswersTo msg.requestId) (hsuccess : resp.isSuccess = .ok passwordOk)
    (hok : conn'.m_loginOk = passwordOk) :
    AnsweredOnce msg (conn', os) mounted ↔ (passwordOk = true → mounted) := by
  constructor
  · intro hanswered hpassword
    exact hanswered.mounted (hok.trans hpassword)
  · intro hmounted
    refine ⟨⟨resp, hos, hanswers, ?_⟩, fun hlogged => hmounted (hok.symm.trans hlogged)⟩
    rw [hsuccess]
    simp [hok]

/-- A success answer and an error behind it are no single answer. -/
theorem not_answeredOnce_of_two {conn' : ClientConnectionOnBroker} {os : List ConnectionOutput}
    {resp : RpcMessage} {mounted : Prop} (hos : sent os = [resp]) (request_id : RpcValue)
    (err : RpcError) : ¬ AnsweredOnce msg (conn', os ++ [sendError request_id err, .abort]) mounted := by
  rintro ⟨⟨resp', hsent, -⟩, -⟩
  have hlength := congrArg List.length hsent
  rw [sent_append, hos] at hlength
  simp [sent, sendError] at hlength

/-- The result brings another user name at most. -/
theorem onLoginChecked_eq (conn : ClientConnectionOnBroker) (broker : LoginBroker B)
    (result : UserLoginResult) : ∃ conn' : ClientConnectionOnBroker,
      conn'.loginRequest = conn.loginRequest ∧
        conn.onLoginChecked broker result = conn'.setLoginResult broker result := by
  unfold onLoginChecked
  cases result.userNameOverride with
  | none => exact ⟨conn, rfl, rfl⟩
  | some name =>
    exact ⟨{ conn with m_userLogin := { conn.m_userLogin with user := name } }, rfl, rfl⟩

/-- The result comes later, whatever frames come before it: what the mounting throws is lost. -/
theorem answeredOnce_later_iff (hrequest : conn.loginRequest = msg)
    (hid : msg.requestId.isValid = true) (hreceived : conn.m_loginReceived = true)
    (hok : conn.m_loginOk = false) (hpending : conn.loginPending = true)
    {os : List ConnectionOutput} (hos : sent os = []) (mid : List (RpcFrame × LoginBroker B))
    (later : UserLoginResult × LoginBroker B) {mounted : Prop} :
    let conn' := (Machine.run (step sha1Hex) conn
      (mid.map fun e => ConnectionEvent.frameReceived e.1 e.2)).1
    let r := conn'.step sha1Hex (.loginResult later.1 later.2)
    AnsweredOnce msg (r.1, os ++ r.2) mounted ↔ (later.1.passwordOk = true → mounted) := by
  dsimp only
  rw [run_frames_of_received hreceived hok, step, if_pos hpending]
  obtain ⟨conn', hrequest', hchecked⟩ := onLoginChecked_eq conn later.2 later.1
  rw [hchecked]
  obtain ⟨⟨resp, hsent, hanswers, hsuccess⟩, -⟩ :=
    @setLoginResult_spec B later.2 conn' msg (hrequest'.trans hrequest) hid later.1
  refine answeredOnce_of_result ?_ hanswers hsuccess (by rw [setLoginResult_conn])
  rw [sent_append, hos, hsent]
  rfl

/-- The result is there at once: what the mounting throws becomes a second answer. -/
theorem answeredOnce_called_iff (hrequest : conn.loginRequest = msg)
    (hid : msg.requestId.isValid = true) {os : List ConnectionOutput} (hos : sent os = [])
    (result : UserLoginResult) {mounted : Prop}
    (hmounted : broker.onClientLogin = .ok () ↔ mounted) :
    let r := conn.setLoginResult broker result
    let r' := answerThrown msg (r.1, r.2.1, os ++ r.2.2)
    r'.1.loginPending = conn.loginPending ∧
      (AnsweredOnce msg r' mounted ↔ (result.passwordOk = true → mounted)) := by
  obtain ⟨⟨resp, hsent, hanswers, hsuccess⟩, hthrown⟩ :=
    @setLoginResult_spec B broker conn msg hrequest hid result
  have hsent' : sent (os ++ (conn.setLoginResult broker result).2.2) = [resp] := by
    rw [sent_append, hos, hsent]
    rfl
  have hloginOk : (conn.setLoginResult broker result).2.1.m_loginOk = result.passwordOk := by
    rw [setLoginResult_conn]
  have hpending : (conn.setLoginResult broker result).2.1.loginPending = conn.loginPending := by
    rw [setLoginResult_conn]
  dsimp only
  rw [hthrown]
  cases hpassword : result.passwordOk with
  | false =>
    rw [hpassword] at hsuccess hloginOk
    exact ⟨hpending, answeredOnce_of_result hsent' hanswers hsuccess hloginOk⟩
  | true =>
    rw [hpassword] at hsuccess hloginOk
    cases hmount : broker.onClientLogin with
    | ok u => exact ⟨hpending, answeredOnce_of_result hsent' hanswers hsuccess hloginOk⟩
    | error text =>
      have hnot : ¬ mounted := by
        rw [← hmounted, hmount]
        simp
      exact ⟨hpending, iff_of_false (not_answeredOnce_of_two hsent' _ _) fun h => hnot (h rfl)⟩

/-- A login whose check is done ends with its request. -/
theorem login_of_done {r : ClientConnectionOnBroker × List ConnectionOutput}
    (hr : conn.processLoginPhase sha1Hex broker msg = r) (hdone : r.1.loginPending = false)
    (mid : List (RpcFrame × LoginBroker B)) (later : UserLoginResult × LoginBroker B) :
    conn.login sha1Hex broker msg mid later = r := by
  subst hr
  rw [login, if_neg (by simp [hdone])]

/-- The answer to a login, by what the mounting throws. -/
theorem answeredOnce_login_iff (h : conn.TakesUp msg) (mid : List (RpcFrame × LoginBroker B))
    (later : UserLoginResult × LoginBroker B) {mounted : Prop}
    (hmounted : atResult ((conn.taken msg).verdict sha1Hex broker) (broker.onClientLogin = .ok ())
      (later.2.onClientLogin = .ok ()) ↔ mounted) :
    AnsweredOnce msg (conn.login sha1Hex broker msg mid later) mounted ↔
      (conn.taken msg).IdleTimeoutConverts ∧
        (letsIn ((conn.taken msg).verdict sha1Hex broker) later.1 = true → mounted) := by
  have hphase := @processLoginPhase_eq B sha1Hex broker conn msg h
  by_cases hidle : (conn.taken msg).IdleTimeoutConverts
  · rw [and_iff_right hidle]
    obtain ⟨conn', os, hos, hrequest, hok, hreceived, hpending, hspec⟩ :=
      @processLogin_spec B sha1Hex broker _ hidle
    have hok' : conn'.m_loginOk = false := hok.trans h.loginOk
    have hpending' : conn'.loginPending = false := hpending.trans h.pending
    rw [hspec] at hphase
    cases hverdict : (conn.taken msg).verdict sha1Hex broker with
    | error e =>
      obtain ⟨text, rfl⟩ := verdict_error hverdict
      rw [hverdict] at hphase
      rw [login_of_done hphase hpending']
      refine iff_of_true (answeredOnce_of_error h hos hok') fun hletIn => ?_
      simp [letsIn] at hletIn
    | ok check =>
      rw [hverdict] at hmounted hphase
      cases check with
      | pending =>
        rw [login, hphase]
        exact @answeredOnce_later_iff B sha1Hex { conn' with loginPending := true } msg hrequest h.id
          hreceived hok' rfl os hos mid later mounted
      | called result =>
        obtain ⟨hdone, hiff⟩ :=
          @answeredOnce_called_iff B broker conn' msg hrequest h.id os hos result mounted hmounted
        rw [login_of_done hphase (hdone.trans hpending')]
        exact hiff
  · refine iff_of_false ?_ fun hboth => hidle hboth.1
    have herror : (conn.taken msg).processLogin sha1Hex broker = (.error .other, conn.taken msg, []) := by
      unfold processLogin
      split
      · rfl
      · rename_i t ht
        exact absurd ⟨t, ht⟩ hidle
    rw [herror] at hphase
    rw [login_of_done hphase h.pending]
    rintro ⟨⟨resp, hsent, -⟩, -⟩
    simp [sent, answerThrown] at hsent

/-- A login request is answered once, and the client logged in exactly by a success, if and only
if its time without frames converts to an `int`, and its device can be mounted if it is let in. -/
theorem loginAnswered_iff (names : ObjectNames) (st st' : MountState) (broker' : LoginBroker B)
    (result : UserLoginResult) (mid : List (RpcFrame × LoginBroker B)) (h : conn.TakesUp msg) :
    let taken := conn.taken msg
    let options := taken.connectionOptions
    let check := taken.verdict sha1Hex broker
    let mounted := atResult check
      (ClientLogin.CanMount names st broker.aclManager conn.connectionId options)
      (ClientLogin.CanMount names st' broker'.aclManager conn.connectionId options)
    AnsweredOnce msg
        (conn.login sha1Hex (broker.onNodes names st conn.connectionId options) msg mid
          (result, broker'.onNodes names st' conn.connectionId options)) mounted ↔
      taken.IdleTimeoutConverts ∧ (letsIn check result = true → mounted) := by
  have hnodes : ∀ (b : LoginBroker B) (nodes : MountState),
      (b.onNodes names nodes conn.connectionId (conn.taken msg).connectionOptions).onClientLogin =
          .ok () ↔
        ClientLogin.CanMount names nodes b.aclManager conn.connectionId
          (conn.taken msg).connectionOptions := by
    intro b nodes
    rw [← ClientLogin.onClientLoginThrows_ok_iff]
    unfold LoginBroker.onNodes
    cases ClientLogin.onClientLoginThrows names nodes b.aclManager conn.connectionId
      (conn.taken msg).connectionOptions with
    | ok u => exact iff_of_true rfl rfl
    | error e => exact iff_of_false (fun h => by cases h) (fun h => by cases h)
  refine answeredOnce_login_iff h mid _ ?_
  change atResult ((conn.taken msg).verdict sha1Hex broker) _ _ ↔ _
  cases (conn.taken msg).verdict sha1Hex broker with
  | error e => exact hnodes broker st
  | ok check =>
    cases check with
    | pending => exact hnodes broker' st'
    | called result => exact hnodes broker st

/-! ### a device -/

/-- The login of a device with a plain password. -/
def deviceLogin (mount_point : Bytes) : RpcMessage where
  value :=
    .mk (.mk [(Tag_MetaTypeId, .ofVariant (.int 1)), (Tag_RequestId, .ofVariant (.int 1)),
      (Tag_Method, .ofVariant (.string METH_LOGIN))] [])
      (.imap [(Key_Params, .ofVariant (.map
        [(KEY_LOGIN, .ofVariant (.map
            [(ascii "password", .ofVariant (.string (ascii "lub"))),
              (ascii "type", .ofVariant (.string (ascii "PLAIN"))),
              (ascii "user", .ofVariant (.string (ascii "iot")))])),
          (KEY_OPTIONS, .ofVariant (.map
            [(KEY_DEVICE, .ofVariant (.map
              [(KEY_MOUT_POINT, .ofVariant (.string mount_point))]))]))]))])
  shape := .inl rfl

/-- A broker that knows the password. -/
def lubBroker : LoginBroker .configFiles where
  aclManager := ⟨⟨[], [(ascii "iot", ⟨⟨ascii "lub", .Plain⟩, []⟩)], [], []⟩, .empty, [], []⟩
  azureConfig := false
  ldapConfig := false
  checkTunnelSecret _ := false
  rand := ascii "7"
  onClientLogin := .ok ()

/-- The second connection of a broker whose first one is a device at `test/a`. -/
def second : ClientConnectionOnBroker := new 2 (ascii "c") none

theorem takesUp_deviceLogin (mount_point : Bytes) : second.TakesUp (deviceLogin mount_point) :=
  ⟨rfl, rfl, rfl, rfl, rfl, rfl⟩

theorem loginAnswered_iff_device :
    let taken := second.taken (deviceLogin (ascii "test/b"))
    let options := taken.connectionOptions
    let check := taken.verdict id lubBroker
    let mounted := atResult check
      (ClientLogin.CanMount ClientLogin.asciiNames ClientLogin.oneDevice lubBroker.aclManager
        second.connectionId options)
      (ClientLogin.CanMount ClientLogin.asciiNames ClientLogin.noDevices lubBroker.aclManager
        second.connectionId options)
    AnsweredOnce (deviceLogin (ascii "test/b"))
        (second.login id
          (lubBroker.onNodes ClientLogin.asciiNames ClientLogin.oneDevice second.connectionId options)
          (deviceLogin (ascii "test/b")) []
          (.ok, lubBroker.onNodes ClientLogin.asciiNames ClientLogin.noDevices second.connectionId
            options)) mounted ↔
      taken.IdleTimeoutConverts ∧ (letsIn check .ok = true → mounted) :=
  loginAnswered_iff ClientLogin.asciiNames ClientLogin.oneDevice ClientLogin.noDevices lubBroker .ok
    [] (takesUp_deviceLogin (ascii "test/b"))

/-- A device that cannot be mounted gets a success and an error, and stays logged in. -/
theorem not_answeredOnce_notLeaf :
    let r := second.login id
      (lubBroker.onNodes ClientLogin.asciiNames ClientLogin.oneDevice 2
        (second.taken (deviceLogin (ascii "test"))).connectionOptions)
      (deviceLogin (ascii "test")) [] (.ok, lubBroker)
    (sent r.2).map (fun resp => (resp.requestId.toInt.toOption, resp.isSuccess.toOption)) =
        [(some 1, some true), (some 1, some false)] ∧
      r.1.m_loginOk = true := by
  decide

end ClientConnectionOnBroker

end LibShv
