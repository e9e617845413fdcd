import LibShv.AclManager.Password
import LibShv.BrokerApp
import LibShv.CponWriter
import LibShv.Lib.Machine
import LibShv.RpcFrame.RoundTrip
import LibShv.RpcFrame.Total
import LibShv.RpcMessage.CallerIds

/-!
# LibShv.ClientConnectionOnBroker

The login of a client (`serverconnection.cpp`, `clientconnectiononbroker.cpp`,
`BrokerApp::checkLogin`): frames go to the broker only after a login, which is
checked against the users of the broker at once, or by a server that answers
later. A client that makes a tunnel is let in by the secret of the tunnel.

The frames and the answers come in any order; an answer that nobody waits for is
dropped. Timers that close the connection are outputs, and frames may still come.
-/

namespace LibShv

/-! ## the login request -/

/-- `operator==` with a text on the right. -/
def RpcValue.eqText (v : RpcValue) (s : Bytes) : Bool :=
  match v.value with
  | .string t => t == s
  | _ => false

namespace RpcMessage

def isRequest (msg : RpcMessage) : Bool :=
  msg.value.metaData.hasRequestId && msg.value.metaData.hasMethod

def method (msg : RpcMessage) : RpcValue := msg.value.metaData.method

end RpcMessage

/-- `toupper`. -/
def toupper (c : UInt8) : UInt8 := if 97 ≤ c ∧ c ≤ 122 then c - 32 else c

/-- `str_eq`: the second text is in upper case. -/
def strEq : Bytes → Bytes → Bool
  | [], [] => true
  | c₁ :: s₁, c₂ :: s₂ => c₂ == toupper c₁ && strEq s₁ s₂
  | _, _ => false

/-- `UserLogin::loginTypeFromString`. -/
def LoginType.fromString (s : Bytes) : LoginType :=
  if strEq s (ascii "NONE") then .None
  else if strEq s (ascii "PLAIN") then .Plain
  else if strEq s (ascii "SHA1") then .Sha1
  else if strEq s (ascii "RSAOAEP") then .RsaOaep
  else if strEq s (ascii "AZURE") then .AzureAccessToken
  else if strEq s (ascii "TOKEN") then .Token
  else .Invalid

/-- `UserLogin::fromRpcValue`. The type is not set for a value that is no map. -/
def UserLogin.fromRpcValue (val : RpcValue) : UserLogin :=
  if val.isMap then
    let m := val.asMap
    let lts := (m.valueOr (ascii "type") .invalid).toString
    let loginType := if lts = [] then .Sha1 else LoginType.fromString lts
    { user := (m.valueOr (ascii "user") .invalid).toString
      password :=
        (m.valueOr (ascii (if loginType = .Token then "token" else "password")) .invalid).toString
      loginType }
  else ⟨[], [], .Invalid⟩

/-- `UserLoginResult::toRpcValue`. -/
def UserLoginResult.toRpcValue (result : UserLoginResult) : RpcValue :=
  .ofVariant (.map
    (if result.passwordOk ∧ 0 < result.clientId then [(ascii "clientId", .ofInt32 result.clientId)]
    else []))

/-- `AzureConfig`, as far as clients are told about it. -/
structure AzureConfig where
  clientId : Bytes
  authorizeUrl : Bytes
  tokenUrl : Bytes
  scopes : List Bytes

/-! ## the connection -/

def KEY_OPTIONS : Bytes := ascii "options"
def KEY_LOGIN : Bytes := ascii "login"
def KEY_TUNNEL : Bytes := ascii "tunnel"
def KEY_SECRET : Bytes := ascii "secret"
def OPT_IDLE_WD_TIMEOUT : Bytes := ascii "idleWatchDogTimeOut"
def METH_HELLO : Bytes := ascii "hello"
def METH_WORKFLOWS : Bytes := ascii "workflows"
def METH_LOGIN : Bytes := KEY_LOGIN
def AZURE_TOKEN_PREFIX : Bytes := ascii "oauth2-azure:"

/-- `ClientConnectionOnBroker`. The login request and the nonce are its `m_userLoginContext`;
`loginPending` says that the login is being checked elsewhere. -/
structure ClientConnectionOnBroker where
  connectionId : Int32
  connectionName : Bytes
  m_azureConfig : Option AzureConfig
  serverNounce : Option Bytes
  loginRequest : RpcMessage
  m_connectionOptions : RpcValue
  m_userLogin : UserLogin
  m_loginReceived : Bool
  m_loginOk : Bool
  loginPending : Bool

/-- What the connection asks the broker for while it takes an event: the users, which logins
are checked elsewhere, the secrets of the tunnels, a new nonce, and what `onClientLogin` throws. -/
structure LoginBroker (B : AclBackend) where
  aclManager : AclManager B
  azureConfig : Bool
  ldapConfig : Bool
  checkTunnelSecret : Bytes → Bool
  rand : Bytes
  onClientLogin : Except Bytes Unit

/-- What happens to a connection. -/
inductive ConnectionEvent (B : AclBackend) where
  | frameReceived (frame : RpcFrame) (broker : LoginBroker B)
  | loginResult (result : UserLoginResult) (broker : LoginBroker B)

/-- What a connection does: it has a login checked, by the secret of a tunnel or as that of a
user; it sets the result of a login, hands a frame to the broker under a user name, answers its
client, or sets a timer that drops the client. -/
inductive ConnectionOutput where
  | evaluate (ctx : UserLoginContext) (byTunnel : Bool)
  | setLoginResult (result : UserLoginResult)
  | toBroker (userName : Bytes) (frame : RpcFrame)
  | send (msg : RpcMessage)
  | close
  | abort

/-- What is thrown: a `shv::core::Exception` with its text, or another exception. -/
inductive LoginFault where
  | core (message : Bytes)
  | other

/-- `checkLogin` calls back at once, or later. -/
inductive LoginCheck where
  | called (result : UserLoginResult)
  | pending

/-- `RpcError::createMethodCallExceptionError`, of a text that is not empty. -/
def RpcError.createMethodCallExceptionError (msg : Bytes) : RpcError :=
  create MethodCallException msg

/-- The text of an exception in bytes. -/
def coreFault (e : String) : LoginFault := .core (ascii e)

/-- `BrokerApp::checkLogin`. -/
def LoginBroker.checkLogin {B : AclBackend} (sha1Hex : Bytes → Bytes) (broker : LoginBroker B)
    (ctx : UserLoginContext) : Except LoginFault LoginCheck :=
  let user_login := ctx.userLogin
  if user_login.loginType = .Token ∧ ¬ AZURE_TOKEN_PREFIX.isPrefixOf user_login.password then
    .ok (.called ⟨false, ascii "Unsupported token: '" ++ user_login.password ++ ascii "'", 0, none⟩)
  else
    let loginType :=
      if user_login.loginType = .Token then LoginType.AzureAccessToken else user_login.loginType
    if loginType = .AzureAccessToken ∧ broker.azureConfig then .ok .pending
    else
      match broker.aclManager.checkPassword sha1Hex ctx with
      | (.error e, _) => .error (coreFault e)
      | (.ok result, m) =>
        match m.user user_login.user with
        | (.error e, _) => .error (coreFault e)
        | (.ok acl_user, _) =>
          -- a user of the broker is not looked for elsewhere
          if acl_user.isValid then .ok (.called result)
          else if broker.ldapConfig then
            if loginType = .Plain then .ok .pending
            else
              .ok (.called
                { result with
                  loginError :=
                    result.loginError ++
                      ascii " Authentication over LDAP requires sending a plaintext password. Please use an SSL connection." })
          else .ok (.called result)

namespace ClientConnectionOnBroker

variable {B : AclBackend}

/-- A step of the connection that may throw: what it has done by then stays done. -/
abbrev Step := Except LoginFault Unit × ClientConnectionOnBroker × List ConnectionOutput

/-- A new connection. -/
def new (connectionId : Int32) (connectionName : Bytes) (azureConfig : Option AzureConfig) :
    ClientConnectionOnBroker where
  connectionId
  connectionName
  m_azureConfig := azureConfig
  serverNounce := none
  loginRequest := .empty
  m_connectionOptions := .invalid
  m_userLogin := ⟨[], [], .Invalid⟩
  m_loginReceived := false
  m_loginOk := false
  loginPending := false

variable (conn : ClientConnectionOnBroker)

def isLoginPhase : Bool := !conn.m_loginOk

def userName : Bytes := conn.m_userLogin.user

def connectionOptions : RpcMap := conn.m_connectionOptions.asMap

def tunnelOptions : RpcValue := conn.connectionOptions.valueOr KEY_TUNNEL .invalid

/-- `m_userLoginContext`, with its `userLogin()`. -/
def m_userLoginContext : UserLoginContext where
  serverNounce := conn.serverNounce
  userLogin := .fromRpcValue (conn.loginRequest.params.asMap.valueOr KEY_LOGIN .invalid)

/-- `sendResponse`. -/
def sendResponse (request_id result : RpcValue) : ConnectionOutput :=
  .send ((RpcMessage.empty.setRequestId request_id).setResult result)

/-- `sendError`. -/
def sendError (request_id : RpcValue) (error : RpcError) : ConnectionOutput :=
  .send ((RpcMessage.empty.setRequestId request_id).setError error)

/-- `setLoginResult`: an answer is sent, and the broker is told of a login. -/
def setLoginResult (broker : LoginBroker B) (result : UserLoginResult) : Step :=
  let login_result := { result with clientId := conn.connectionId }
  let conn' := { conn with m_loginOk := login_result.passwordOk }
  let resp := RpcMessage.forRequest conn.loginRequest.value.metaData
  if login_result.passwordOk then
    (broker.onClientLogin.mapError .core, conn',
      [.setLoginResult login_result, .send (resp.setResult login_result.toRpcValue)])
  else
    (.ok (), conn',
      [.setLoginResult login_result,
        .send (resp.setError (.createMethodCallExceptionError
          (ascii "Invalid authentication for user: " ++ conn.userName ++ ascii " reason: " ++
            login_result.loginError ++ ascii " at: " ++ conn.connectionName))),
        .close])

/-- What `checkLogin` calls back: the result may bring another user name. -/
def onLoginChecked (broker : LoginBroker B) (result : UserLoginResult) : Step :=
  let conn' :=
    match result.userNameOverride with
    | some name => { conn with m_userLogin := { conn.m_userLogin with user := name } }
    | none => conn
  conn'.setLoginResult broker result

/-- `processLoginPhase()`. -/
def processLogin (sha1Hex : Bytes → Bytes) (broker : LoginBroker B) : Step :=
  match (conn.connectionOptions.valueOr OPT_IDLE_WD_TIMEOUT (.ofInt32 180)).toInt with
  | .error _ => (.error .other, conn, [])
  | .ok _ =>
    let ctx := conn.m_userLoginContext
    if conn.tunnelOptions.isMap then
      let secret := (conn.tunnelOptions.asMap.valueOr KEY_SECRET .invalid).asString
      let r := conn.setLoginResult broker ⟨broker.checkTunnelSecret secret, [], 0, none⟩
      (r.1, r.2.1, .evaluate ctx true :: r.2.2)
    else
      let conn' := { conn with m_userLogin := ctx.userLogin }
      match broker.checkLogin sha1Hex ctx with
      | .error e => (.error e, conn', [.evaluate ctx false])
      | .ok .pending => (.ok (), { conn' with loginPending := true }, [.evaluate ctx false])
      | .ok (.called result) =>
        let r := conn'.onLoginChecked broker result
        (r.1, r.2.1, .evaluate ctx false :: r.2.2)

/-- The list of the `workflows` response. -/
def workflows : RpcValue :=
  let text (s : Bytes) : RpcValue := .ofVariant (.string s)
  .ofVariant (.list (
    [text (ascii "PLAIN"), text (ascii "SHA1")] ++
    (match conn.m_azureConfig with
    | none => []
    | some azure =>
      [.ofVariant (.map
        [(ascii "authorizeUrl", text azure.authorizeUrl), (ascii "clientId", text azure.clientId),
          (ascii "scopes", .ofVariant (.list (azure.scopes.map text))),
          (ascii "tokenUrl", text azure.tokenUrl), (ascii "type", text (ascii "oauth2-azure"))])])))

/-- `processLoginPhase(msg)`. Only a `shv::core::Exception` is answered; whatever else is thrown
leaves the function, and is logged. -/
def processLoginPhase (sha1Hex : Bytes → Bytes) (broker : LoginBroker B) (msg : RpcMessage) :
    ClientConnectionOnBroker × List ConnectionOutput :=
  let answer (e : Bytes) : ConnectionOutput :=
    sendError msg.requestId (.create RpcError.MethodCallException e)
  if !msg.isRequest then
    (conn,
      [answer (ascii "Initial message is not RPC request! Dropping client connection. " ++
        conn.connectionName ++ ascii " " ++ CponWriter.toCpon [] msg.value), .abort])
  else if !conn.m_loginReceived && msg.method.eqText METH_HELLO then
    ({ conn with serverNounce := some broker.rand },
      [sendResponse msg.requestId
        (.ofVariant (.map [(ascii "nonce", .ofVariant (.string broker.rand))]))])
  else if !conn.m_loginReceived && msg.method.eqText METH_WORKFLOWS then
    (conn, [sendResponse msg.requestId conn.workflows])
  else if !conn.m_loginReceived && msg.method.eqText METH_LOGIN then
    let conn' :=
      { conn with
        m_loginReceived := true
        loginRequest := msg
        m_connectionOptions := msg.params.asMap.valueOr KEY_OPTIONS .invalid }
    match conn'.processLogin sha1Hex broker with
    | (.error (.core e), conn'', outputs) => (conn'', outputs ++ [answer e, .abort])
    | (_, conn'', outputs) => (conn'', outputs)
  else (conn, [.abort])

/-- `onRpcFrameReceived`. -/
def onRpcFrameReceived (sha1Hex : Bytes → Bytes) (broker : LoginBroker B) (frame : RpcFrame) :
    ClientConnectionOnBroker × List ConnectionOutput :=
  if conn.isLoginPhase then
    match frame.toRpcMessageThrow with
    | .error _ => (conn, [])
    | .ok msg => conn.processLoginPhase sha1Hex broker msg
  else (conn, [.toBroker conn.userName frame])

/-- One event. -/
def step (sha1Hex : Bytes → Bytes) (conn : ClientConnectionOnBroker) :
    ConnectionEvent B → ClientConnectionOnBroker × List ConnectionOutput
  | .frameReceived frame broker => conn.onRpcFrameReceived sha1Hex broker frame
  | .loginResult result broker =>
    if conn.loginPending then (conn.onLoginChecked broker result).2 else (conn, [])

end ClientConnectionOnBroker

/-! ## who gets through -/

namespace ConnectionOutput

/-- The logins that were checked, and whether by the secret of a tunnel. -/
def evaluations (os : List ConnectionOutput) : List (UserLoginContext × Bool) :=
  os.filterMap fun
    | .evaluate ctx byTunnel => some (ctx, byTunnel)
    | _ => none

/-- The results that were set. -/
def results (os : List ConnectionOutput) : List UserLoginResult :=
  os.filterMap fun
    | .setLoginResult result => some result
    | _ => none

/-- The frame goes to no broker. -/
def isKept : ConnectionOutput → Bool
  | .toBroker _ _ => false
  | _ => true

@[simp] theorem evaluations_append (os os' : List ConnectionOutput) :
    evaluations (os ++ os') = evaluations os ++ evaluations os' := List.filterMap_append

@[simp] theorem results_append (os os' : List ConnectionOutput) :
    results (os ++ os') = results os ++ results os' := List.filterMap_append

@[simp] theorem evaluations_nil : evaluations [] = [] := rfl

@[simp] theorem results_nil : results [] = [] := rfl

@[simp] theorem evaluations_evaluate (ctx : UserLoginContext) (byTunnel : Bool)
    (os : List ConnectionOutput) :
    evaluations (.evaluate ctx byTunnel :: os) = (ctx, byTunnel) :: evaluations os := rfl

@[simp] theorem results_evaluate (ctx : UserLoginContext) (byTunnel : Bool)
    (os : List ConnectionOutput) : results (.evaluate ctx byTunnel :: os) = results os := rfl

end ConnectionOutput

open ConnectionOutput

/-- A user name after some results: each may bring another one. -/
def overridden (name : Bytes) (rs : List UserLoginResult) : Bytes :=
  rs.foldl (fun name result => result.userNameOverride.getD name) name

/-- After what a connection has done, its frames may go to the broker under the user name: a
right password was found, and one login was checked. Its user is the one whose name it is, or
nobody, where a tunnel was let in. -/
structure LetIn (os : List ConnectionOutput) (userName : Bytes) : Prop where
  passwordOk : ∃ result ∈ results os, result.passwordOk = true
  named : ∃ ctx byTunnel, evaluations os = [(ctx, byTunnel)] ∧
    userName = if byTunnel then [] else overridden ctx.userLogin.user (results os)

/-- Frames for the broker are asked for, and nothing else. -/
def Gate (os : List ConnectionOutput) : ConnectionOutput → Prop
  | .toBroker userName _ => LetIn os userName
  | _ => True

theorem gate_of_isKept {os : List ConnectionOutput} {o : ConnectionOutput} (h : o.isKept = true) :
    Gate os o := by
  cases o with
  | toBroker userName frame => simp [isKept] at h
  | _ => trivial

namespace ClientConnectionOnBroker

variable {B : AclBackend}

/-! ### how far a connection is -/

/-- Before the login request, and behind it with a login that was checked or was dropped before
it could be. -/
inductive Phase (os : List ConnectionOutput) (conn : ClientConnectionOnBroker) : Prop
  | waiting (received : conn.m_loginReceived = false) (evaluations : evaluations os = [])
      (results : results os = []) (ok : conn.m_loginOk = false)
      (pending : conn.loginPending = false) (userName : conn.userName = [])
  | dropped (received : conn.m_loginReceived = true) (evaluations : evaluations os = [])
      (ok : conn.m_loginOk = false) (pending : conn.loginPending = false)
  | evaluated (ctx : UserLoginContext) (byTunnel : Bool) (received : conn.m_loginReceived = true)
      (evaluations : evaluations os = [(ctx, byTunnel)])
      (pending : conn.loginPending = true → byTunnel = false)
      (ok : conn.m_loginOk = true → ∃ result ∈ results os, result.passwordOk = true)
      (userName : conn.userName =
        if byTunnel then [] else overridden ctx.userLogin.user (results os))

theorem Phase.letIn {os : List ConnectionOutput} {conn : ClientConnectionOnBroker}
    (h : Phase os conn) (hok : conn.m_loginOk = true) : LetIn os conn.userName := by
  cases h with
  | waiting _ _ _ ok => simp [ok] at hok
  | dropped _ _ ok => simp [ok] at hok
  | evaluated ctx byTunnel _ evaluations _ ok userName =>
    exact ⟨ok hok, ctx, byTunnel, evaluations, userName⟩

theorem Phase.evaluations_le {os : List ConnectionOutput} {conn : ClientConnectionOnBroker}
    (h : Phase os conn) : (evaluations os).length ≤ 1 := by
  cases h with
  | waiting _ evaluations => simp [evaluations]
  | dropped _ evaluations => simp [evaluations]
  | evaluated ctx byTunnel _ evaluations => simp [evaluations]

/-! ### results -/

section

variable (conn : ClientConnectionOnBroker) (broker : LoginBroker B) (result : UserLoginResult)

theorem setLoginResult_conn :
    (conn.setLoginResult broker result).2.1 = { conn with m_loginOk := result.passwordOk } := by
  unfold setLoginResult
  by_cases hok : result.passwordOk = true <;> simp [hok]

theorem setLoginResult_outputs :
    results (conn.setLoginResult broker result).2.2 =
        [{ result with clientId := conn.connectionId }] ∧
      evaluations (conn.setLoginResult broker result).2.2 = [] ∧
      ∀ o ∈ (conn.setLoginResult broker result).2.2, o.isKept = true := by
  unfold setLoginResult
  by_cases hok : result.passwordOk = true <;> simp [hok, results, evaluations, isKept]

theorem onLoginChecked_conn :
    (conn.onLoginChecked broker result).2.1 =
      { conn with
        m_loginOk := result.passwordOk
        m_userLogin :=
          { conn.m_userLogin with
            user := result.userNameOverride.getD conn.m_userLogin.user } } := by
  unfold onLoginChecked
  cases result.userNameOverride <;> simp [setLoginResult_conn]

theorem onLoginChecked_outputs :
    results (conn.onLoginChecked broker result).2.2 =
        [{ result with clientId := conn.connectionId }] ∧
      evaluations (conn.onLoginChecked broker result).2.2 = [] ∧
      ∀ o ∈ (conn.onLoginChecked broker result).2.2, o.isKept = true := by
  obtain ⟨passwordOk, loginError, clientId, userNameOverride⟩ := result
  cases userNameOverride with
  | none => exact setLoginResult_outputs conn broker _
  | some name =>
    exact setLoginResult_outputs { conn with m_userLogin := { conn.m_userLogin with user := name } }
      broker _

end

/-- One more result for a login that is checked as that of a user. -/
theorem Phase.onLoginChecked {os : List ConnectionOutput} {conn : ClientConnectionOnBroker}
    {ctx : UserLoginContext} (received : conn.m_loginReceived = true)
    (hevaluations : evaluations os = [(ctx, false)])
    (userName : conn.userName = overridden ctx.userLogin.user (results os))
    (broker : LoginBroker B) (result : UserLoginResult) :
    Phase (os ++ (conn.onLoginChecked broker result).2.2)
      (conn.onLoginChecked broker result).2.1 := by
  obtain ⟨hresults, hnone, -⟩ := onLoginChecked_outputs conn broker result
  rw [onLoginChecked_conn]
  refine .evaluated ctx false received (by simp [hevaluations, hnone]) (fun _ => rfl) ?_ ?_
  · intro hok
    exact ⟨{ result with clientId := conn.connectionId }, by simp [hresults], hok⟩
  · simp only [ClientConnectionOnBroker.userName] at userName
    simp [ClientConnectionOnBroker.userName, hresults, overridden, userName]

/-! ### frames before the login -/

section

variable {os : List ConnectionOutput} {conn : ClientConnectionOnBroker}

/-- The login request is checked, or dropped. -/
theorem Phase.processLogin (sha1Hex : Bytes → Bytes) (received : conn.m_loginReceived = true)
    (hevaluations : evaluations os = []) (hresults : results os = [])
    (ok : conn.m_loginOk = false) (pending : conn.loginPending = false)
    (userName : conn.userName = []) (broker : LoginBroker B) :
    Phase (os ++ (conn.processLogin sha1Hex broker).2.2) (conn.processLogin sha1Hex broker).2.1 ∧
      ∀ o ∈ (conn.processLogin sha1Hex broker).2.2, o.isKept = true := by
  unfold ClientConnectionOnBroker.processLogin
  cases htimeout : (conn.connectionOptions.valueOr OPT_IDLE_WD_TIMEOUT (.ofInt32 180)).toInt with
  | error e => exact ⟨.dropped received (by simpa using hevaluations) ok pending, by simp⟩
  | ok t =>
    simp only
    by_cases htunnel : conn.tunnelOptions.isMap = true
    · -- the secret decides, and no user name is set
      rw [if_pos htunnel]
      simp only
      generalize (UserLoginResult.mk (broker.checkTunnelSecret _) [] 0 none) = result
      obtain ⟨hset, hnone, hkept⟩ := setLoginResult_outputs conn broker result
      rw [setLoginResult_conn]
      refine ⟨?_, by simpa [isKept] using hkept⟩
      refine .evaluated conn.m_userLoginContext true received (by simp [hevaluations, hnone])
        (by simp [pending]) (fun hok => ?_) userName
      exact ⟨{ result with clientId := conn.connectionId }, by simp [hset], hok⟩
    · rw [if_neg htunnel]
      cases hcheck : broker.checkLogin sha1Hex conn.m_userLoginContext with
      | error e =>
        refine ⟨?_, by simp [isKept]⟩
        exact .evaluated conn.m_userLoginContext false received (by simp [hevaluations])
          (fun _ => rfl) (by simp [ok]) (by simp [hresults, overridden, ClientConnectionOnBroker.userName])
      | ok check =>
        cases check with
        | pending =>
          refine ⟨?_, by simp [isKept]⟩
          exact .evaluated conn.m_userLoginContext false received (by simp [hevaluations])
            (fun _ => rfl) (by simp [ok])
            (by simp [hresults, overridden, ClientConnectionOnBroker.userName])
        | called result =>
          have hkept := (onLoginChecked_outputs
            { conn with m_userLogin := conn.m_userLoginContext.userLogin } broker result).2.2
          refine ⟨?_, by simpa [isKept] using hkept⟩
          have hphase := @Phase.onLoginChecked B
            (os ++ [.evaluate conn.m_userLoginContext false])
            { conn with m_userLogin := conn.m_userLoginContext.userLogin }
            conn.m_userLoginContext received (by simp [hevaluations])
            (by simp [hresults, overridden, ClientConnectionOnBroker.userName]) broker result
          simpa using hphase

/-- What comes behind the check of a login changes nothing. -/
theorem Phase.append (h : Phase os conn) {os' : List ConnectionOutput}
    (hevaluations : evaluations os' = []) (hresults : results os' = []) :
    Phase (os ++ os') conn := by
  cases h with
  | waiting received evaluations results ok pending userName =>
    exact .waiting received (by simp [evaluations, hevaluations]) (by simp [results, hresults]) ok
      pending userName
  | dropped received evaluations ok pending =>
    exact .dropped received (by simp [evaluations, hevaluations]) ok pending
  | evaluated ctx byTunnel received evaluations pending ok userName =>
    exact .evaluated ctx byTunnel received (by simp [evaluations, hevaluations]) pending
      (by simpa [hresults] using ok) (by simpa [hresults] using userName)

/-- A message before the login. -/
theorem Phase.processLoginPhase (h : Phase os conn) (sha1Hex : Bytes → Bytes)
    (broker : LoginBroker B) (msg : RpcMessage) :
    Phase (os ++ (conn.processLoginPhase sha1Hex broker msg).2)
        (conn.processLoginPhase sha1Hex broker msg).1 ∧
      ∀ o ∈ (conn.processLoginPhase sha1Hex broker msg).2, o.isKept = true := by
  unfold ClientConnectionOnBroker.processLoginPhase
  simp only
  by_cases hrequest : (!msg.isRequest) = true
  · rw [if_pos hrequest]
    exact ⟨h.append rfl rfl, by simp [isKept, sendError]⟩
  rw [if_neg hrequest]
  by_cases hhello : (!conn.m_loginReceived && msg.method.eqText METH_HELLO) = true
  · rw [if_pos hhello]
    refine ⟨?_, by simp [isKept, sendResponse]⟩
    have happend : Phase (os ++ [sendResponse msg.requestId
        (.ofVariant (.map [(ascii "nonce", .ofVariant (.string broker.rand))]))]) conn :=
      h.append rfl rfl
    cases happend with
    | waiting received evaluations results ok pending userName =>
      exact .waiting received evaluations results ok pending userName
    | dropped received => simp [received] at hhello
    | evaluated ctx byTunnel received => simp [received] at hhello
  rw [if_neg hhello]
  by_cases hworkflows : (!conn.m_loginReceived && msg.method.eqText METH_WORKFLOWS) = true
  · rw [if_pos hworkflows]
    exact ⟨h.append rfl rfl, by simp [isKept, sendResponse]⟩
  rw [if_neg hworkflows]
  by_cases hlogin : (!conn.m_loginReceived && msg.method.eqText METH_LOGIN) = true
  · rw [if_pos hlogin]
    cases h with
    | dropped received => simp [received] at hlogin
    | evaluated ctx byTunnel received => simp [received] at hlogin
    | waiting received evaluations results ok pending userName =>
      obtain ⟨hphase, hkept⟩ := @Phase.processLogin B os
        { conn with
          m_loginReceived := true
          loginRequest := msg
          m_connectionOptions := msg.params.asMap.valueOr KEY_OPTIONS .invalid }
        sha1Hex rfl evaluations results ok pending userName broker
      revert hphase hkept
      generalize ClientConnectionOnBroker.processLogin _ sha1Hex broker = r
      obtain ⟨result, conn', os'⟩ := r
      intro hphase hkept
      cases result with
      | ok u => exact ⟨hphase, hkept⟩
      | error e =>
        cases e with
        | other => exact ⟨hphase, hkept⟩
        | core e =>
          have happend : Phase (os ++ os' ++ [sendError msg.requestId
            (.create RpcError.MethodCallException e), .abort]) conn' := hphase.append rfl rfl
          rw [List.append_assoc] at happend
          refine ⟨happend, fun o ho => ?_⟩
          obtain ho | ho := List.mem_append.mp ho
          · exact hkept o ho
          · simp only [List.mem_cons, List.not_mem_nil, or_false] at ho
            obtain rfl | rfl := ho <;> rfl
  · rw [if_neg hlogin]
    exact ⟨h.append rfl rfl, by simp [isKept]⟩

/-! ### one event, and any number of them -/

/-- What every event keeps. -/
structure Inv (os : List ConnectionOutput) (conn : ClientConnectionOnBroker) : Prop where
  phase : Phase os conn
  gate : Machine.EachAfter Gate os

theorem eachAfter_append_of_isKept {os' : List ConnectionOutput} (h : Machine.EachAfter Gate os)
    (hkept : ∀ o ∈ os', o.isKept = true) : Machine.EachAfter Gate (os ++ os') :=
  h.append (Machine.eachAfter_of_forall fun o ho _ => gate_of_isKept (hkept o ho))

theorem inv_new (connectionId : Int32) (connectionName : Bytes)
    (azureConfig : Option AzureConfig) : Inv [] (new connectionId connectionName azureConfig) where
  phase := .waiting rfl rfl rfl rfl rfl rfl
  gate := Machine.eachAfter_nil

theorem Inv.step (h : Inv os conn) (sha1Hex : Bytes → Bytes) (e : ConnectionEvent B) :
    Inv (os ++ (step sha1Hex conn e).2) (step sha1Hex conn e).1 := by
  cases e with
  | frameReceived frame broker =>
    simp only [ClientConnectionOnBroker.step, onRpcFrameReceived]
    by_cases hphase : conn.isLoginPhase = true
    · rw [if_pos hphase]
      cases hmsg : frame.toRpcMessageThrow with
      | error e => simpa using h
      | ok msg =>
        obtain ⟨hphase, hkept⟩ := h.phase.processLoginPhase sha1Hex broker msg
        exact ⟨hphase, eachAfter_append_of_isKept h.gate hkept⟩
    · -- the frame goes to the broker, under the name that the login left
      rw [if_neg hphase]
      have hok : conn.m_loginOk = true := by simpa [isLoginPhase] using hphase
      refine ⟨h.phase.append rfl rfl, h.gate.append ?_⟩
      intro pre o post heq
      cases pre with
      | nil =>
        obtain rfl := (List.cons.inj heq).1
        rw [List.append_nil]
        exact h.phase.letIn hok
      | cons o' pre => simp at heq
  | loginResult result broker =>
    simp only [ClientConnectionOnBroker.step]
    by_cases hpending : conn.loginPending = true
    · rw [if_pos hpending]
      obtain ⟨-, -, hkept⟩ := onLoginChecked_outputs conn broker result
      refine ⟨?_, eachAfter_append_of_isKept h.gate hkept⟩
      cases h.phase with
      | waiting _ _ _ _ pending => simp [pending] at hpending
      | dropped _ _ _ pending => simp [pending] at hpending
      | evaluated ctx byTunnel received evaluations pending ok userName =>
        obtain rfl := pending hpending
        exact Phase.onLoginChecked received evaluations userName broker result
    · rw [if_neg hpending]
      simpa using h

end

/-- Whatever frames and results come in whatever order: a frame goes to the broker only after a
result with a right password, one login at most is checked, and the frame goes under its user
name or the name that the results bring, or under the empty name if a tunnel was let in. -/
theorem loginGate (sha1Hex : Bytes → Bytes) (connectionId : Int32) (connectionName : Bytes)
    (azureConfig : Option AzureConfig) (events : List (ConnectionEvent B)) :
    let os := (Machine.run (step sha1Hex) (new connectionId connectionName azureConfig) events).2
    (∀ pre userName frame post, os = pre ++ .toBroker userName frame :: post →
      LetIn pre userName) ∧
    (evaluations os).length ≤ 1 := by
  have hinv := Machine.run_invariant_nil (step sha1Hex) (fun _ os conn => Inv os conn)
    (new connectionId connectionName azureConfig) events
    (inv_new connectionId connectionName azureConfig)
    (fun _ e _ _ _ _ h => h.step sha1Hex e)
  exact ⟨fun pre userName frame post heq => hinv.gate pre _ post heq, hinv.phase.evaluations_le⟩

/-! ### a tunnel -/

/-- The login of `u` with the secret of a tunnel. -/
def tunnelLogin : RpcMessage where
  value :=
    .mk (.mk [(Tag_MetaTypeId, .ofVariant (.int 1)), (Tag_RequestId, .ofVariant (.int 1)),
      (Tag_Method, .ofVariant (.string METH_LOGIN))] [])
      (.imap [(Key_Params, .ofVariant (.map
        [(KEY_LOGIN, .ofVariant (.map [(ascii "user", .ofVariant (.string (ascii "u")))])),
          (KEY_OPTIONS, .ofVariant (.map [(KEY_TUNNEL, .ofVariant (.map
            [(KEY_SECRET, .ofVariant (.string (ascii "s")))]))]))]))])
  shape := .inl rfl

theorem std_tunnelLogin : tunnelLogin.value.Std := by
  simp [tunnelLogin, RpcValue.Std, RpcValue.Each, RpcMetaData.Each, Variant.Each, eachMap, eachIMap,
    RpcValue.ofVariant, Variant.Std, RpcMetaData.Std]
  decide

theorem packable_tunnelLogin : tunnelLogin.value.Packable := by
  simp [tunnelLogin, RpcValue.Packable, RpcValue.Each, RpcMetaData.Each, Variant.Each, eachMap,
    eachIMap, RpcValue.ofVariant, Variant.Packable]
  decide

/-- A broker that knows the secret. -/
def secretBroker : LoginBroker .configFiles where
  aclManager := pubReaders
  azureConfig := false
  ldapConfig := false
  checkTunnelSecret := (· == ascii "s")
  rand := ascii "7"
  onClientLogin := .ok ()

/-- The frames of a tunnel come from nobody, although its login names a user. -/
theorem not_named_tunnel :
    ¬∀ (events : List (ConnectionEvent .configFiles)) pre userName frame post,
      (Machine.run (step id) (new 1 (ascii "c") none) events).2 =
        pre ++ .toBroker userName frame :: post →
      ∃ ctx byTunnel, (ctx, byTunnel) ∈ evaluations pre ∧
        (userName = ctx.userLogin.user ∨
          ∃ result ∈ results pre, result.userNameOverride = some userName) := by
  intro h
  obtain ⟨frame, -, -, -, hmsg⟩ :=
    RpcFrame.toRpcMessage_toRpcFrame rfl std_tunnelLogin packable_tunnelLogin
  have hthrow := RpcFrame.toRpcMessageThrow_of_toRpcMessage hmsg
  have hlogin : step id (new 1 (ascii "c") none) (.frameReceived frame secretBroker) =
      (new 1 (ascii "c") none).processLoginPhase id secretBroker tunnelLogin := by
    simp only [step, onRpcFrameReceived, isLoginPhase, new, Bool.not_false, if_true, hthrow]
  obtain ⟨conn, result, resp, hlet, hoverride, hok, hname⟩ : ∃ conn result resp,
      (new 1 (ascii "c") none).processLoginPhase id secretBroker tunnelLogin =
        (conn, [.evaluate ⟨none, ⟨ascii "u", [], .Sha1⟩⟩ true, .setLoginResult result, .send resp]) ∧
      result.userNameOverride = none ∧ conn.m_loginOk = true ∧ conn.userName = [] :=
    ⟨_, _, _, rfl, rfl, rfl, rfl⟩
  have hnext : step id conn (.frameReceived frame secretBroker) = (conn, [.toBroker [] frame]) := by
    simp [step, onRpcFrameReceived, isLoginPhase, hok, hname]
  have hrun : (Machine.run (step id) (new 1 (ascii "c") none)
      [.frameReceived frame secretBroker, .frameReceived frame secretBroker]).2 =
        [.evaluate ⟨none, ⟨ascii "u", [], .Sha1⟩⟩ true, .setLoginResult result, .send resp] ++
          .toBroker [] frame :: [] := by
    simp [Machine.run_cons, hlogin, hlet, hnext]
  obtain ⟨ctx, byTunnel, hctx, huser⟩ := h _ _ _ _ _ hrun
  obtain rfl : ctx = ⟨none, ⟨ascii "u", [], .Sha1⟩⟩ := by
    simp only [evaluations, List.filterMap_cons, List.filterMap_nil, List.mem_singleton] at hctx
    exact congrArg Prod.fst hctx
  obtain huser | ⟨r, hr, huser⟩ := huser
  · exact absurd huser (by decide)
  · simp only [results, List.filterMap_cons, List.filterMap_nil, List.mem_singleton] at hr
    rw [hr, hoverride] at huser
    contradiction

end ClientConnectionOnBroker

end LibShv
