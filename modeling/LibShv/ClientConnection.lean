import LibShv.AclManager.Password
import LibShv.RpcMessage
import LibShv.RpcValue.As

/-!
# LibShv.ClientConnection

The states of a client connection (`clientconnection.cpp`), in a build with OAuth2
logins: the user opens and closes it, sockets connect and disconnect, messages are
received and timers run out, in any order.

A write may find out that the socket is lost; it is closed then, before the write
is done. A socket that is closed with data still to be written disconnects later.
-/

namespace LibShv

/-! ## the connection -/

/-- `QAbstractSocket::SocketState`. -/
inductive SocketState where
  | Unconnected
  | Connecting
  | Connected
  | Closing
deriving DecidableEq

/-- `ClientConnection::State`. -/
inductive ClientState where
  | NotConnected
  | Connecting
  | SocketConnected
  | BrokerConnected
  | ConnectionError
deriving DecidableEq

/-- The signals of a connection. -/
inductive ClientSignal where
  | stateChanged (state : ClientState)
  | brokerConnectedChanged (is_connected : Bool)
  | brokerLoginError (err : RpcError)
  | rpcMessageReceived (msg : RpcMessage)

/-- `m_tokenPasswordCallback`: one of the application, or the one that starts an Azure login. -/
inductive TokenPasswordCallback where
  | application
  | azure
deriving DecidableEq

/-- `ClientConnection::ConnectionState`. -/
structure ConnectionState where
  state : ClientState
  helloRequestId : Int32
  loginRequestId : Int32
  workflowsRequestId : Int32
  pingRqId : Int32
  loginResult : RpcValue
  oAuth2WaitingForUser : Bool
  token : Option Bytes

/-- `ConnectionState()`. -/
def ConnectionState.new : ConnectionState := ⟨.NotConnected, 0, 0, 0, 0, .invalid, false, none⟩

/-- `ClientConnection`. There is one check timer for each `open` with an interval, of which
`hasCheckTimer` knows the last one. `tokenAsked` and `azureAuths` are what somebody else will
call back: the application with a token, and the Azure logins that were started.

`emitted` is what was emitted so far, with the state at that time. -/
structure ClientConnection where
  loginType : LoginType
  oauth2Azure : Bool
  tokenPasswordCallback : Option TokenPasswordCallback
  heartBeatInterval : Int32
  checkBrokerConnectedInterval : Int32
  m_connectionState : ConnectionState
  m_socket : Option SocketState
  hasCheckTimer : Bool
  checkTimers : Nat
  heartBeatActive : Bool
  loginTimers : Nat
  tokenAsked : Bool
  azureAuths : Nat
  lastRequestId : Int32
  emitted : List (ClientState × ClientSignal)

/-- What happens to a connection. `lost` says whether a write finds the socket lost, and `pending`
whether a socket that is closed still has data to write. -/
inductive ClientEvent where
  | open
  | close (lost pending : Bool)
  | abort
  | socketEncrypting
  | socketConnected (resetLost helloLost workflowsLost : Bool)
  | connectFailed
  | socketDisconnected
  | socketError (pending : Bool)
  | messageReceived (msg : RpcMessage) (lost pending : Bool)
  | requestSent (lost : Bool)
  | checkTimeout
  | heartBeat (lost pending : Bool)
  | loginTimeout (lost pending : Bool)
  | tokenPassword (lost : Bool)
  | azureGranted (token : Bytes) (lost : Bool)
  | azureFailed (err : Bytes)

/-- A text in a value. -/
def RpcValue.textOf (v : RpcValue) (key : String) : Bytes :=
  (v.asMap.valueOr (ascii key) .invalid).asString

namespace ClientConnection

/-- A new connection. -/
def new (loginType : LoginType) (oauth2Azure : Bool)
    (tokenPasswordCallback : Option TokenPasswordCallback)
    (heartBeatInterval checkBrokerConnectedInterval : Int32) : ClientConnection where
  loginType
  oauth2Azure
  tokenPasswordCallback
  heartBeatInterval
  checkBrokerConnectedInterval
  m_connectionState := .new
  m_socket := none
  hasCheckTimer := false
  checkTimers := 0
  heartBeatActive := false
  loginTimers := 0
  tokenAsked := false
  azureAuths := 0
  lastRequestId := 0
  emitted := []

variable (conn : ClientConnection)

def state : ClientState := conn.m_connectionState.state

def waiting : Bool := conn.m_connectionState.oAuth2WaitingForUser

/-- `Socket::isOpen`, and `isSocketConnected`. -/
def isOpen : Bool := conn.m_socket = some .Connected

/-- The socket will tell that it is disconnected. -/
def isLive : Bool := conn.m_socket = some .Connected ∨ conn.m_socket = some .Closing

def isBrokerConnected : Bool := conn.isOpen ∧ conn.state = .BrokerConnected

def isLoginPhase : Bool := conn.state = .SocketConnected

def isAutoConnect : Bool := 0 < conn.checkBrokerConnectedInterval

/-! ### states -/

def emit (signal : ClientSignal) : ClientConnection :=
  { conn with emitted := conn.emitted ++ [(conn.state, signal)] }

/-- `whenBrokerConnectedChanged`. -/
def whenBrokerConnectedChanged (b : Bool) : ClientConnection :=
  { conn with heartBeatActive := b && 0 < conn.heartBeatInterval }.emit (.brokerConnectedChanged b)

/-- `setState`. -/
def setState (state : ClientState) : ClientConnection :=
  if conn.state = state then conn
  else
    let old_state := conn.state
    let conn := { conn with m_connectionState := { conn.m_connectionState with state } }
    let conn := conn.emit (.stateChanged state)
    if old_state = .BrokerConnected then conn.whenBrokerConnectedChanged false
    else if state = .BrokerConnected then conn.whenBrokerConnectedChanged true
    else conn

/-! ### the socket -/

/-- `onSocketConnectedChanged(false)`. -/
def onSocketDisconnected : ClientConnection :=
  if conn.waiting then conn else conn.setState .NotConnected

/-- The socket is disconnected, and says so. -/
def socketLost : ClientConnection :=
  { conn with m_socket := some .Unconnected }.onSocketDisconnected

/-- Data is written to the socket. -/
def write (lost : Bool) : ClientConnection :=
  if lost ∧ conn.isLive then conn.socketLost else conn

/-- `closeSocket`. -/
def closeSocket (pending : Bool) : ClientConnection :=
  if conn.isLive then
    if pending then { conn with m_socket := some .Closing } else conn.socketLost
  else if conn.m_socket = some .Connecting ∧ !pending then
    { conn with m_socket := some .Unconnected }
  else conn

/-- `abortSocket`. -/
def abortSocket : ClientConnection :=
  if conn.isLive then conn.socketLost
  else if conn.m_socket = some .Connecting then { conn with m_socket := some .Unconnected }
  else conn

/-- `connectToHost`. -/
def connectToHost : ClientConnection :=
  if conn.m_socket = some .Unconnected then { conn with m_socket := some .Connecting } else conn

/-- `Socket::resetCommunication`: a serial line is told. -/
def resetCommunication (lost : Bool) : ClientConnection :=
  if conn.isOpen then conn.write lost else conn

/-- The last check timer is deleted. -/
def stopCheckTimer : ClientConnection :=
  if conn.hasCheckTimer then
    { conn with hasCheckTimer := false, checkTimers := conn.checkTimers - 1 }
  else conn

/-- `closeOrAbort`. -/
def closeOrAbort (is_abort lost pending : Bool) : ClientConnection :=
  let conn := conn.stopCheckTimer
  (if is_abort then conn.abortSocket
    else (conn.resetCommunication lost).closeSocket pending).setState .NotConnected

/-- `restartIfAutoConnect`. -/
def restartIfAutoConnect (lost pending : Bool) : ClientConnection :=
  if conn.isAutoConnect then conn.closeSocket pending else conn.closeOrAbort false lost pending

/-- `checkBrokerConnected`. -/
def checkBrokerConnected : ClientConnection :=
  if conn.waiting then conn
  else if conn.isBrokerConnected then conn
  else
    -- the state is set here, with no signal
    let conn := { conn.abortSocket with m_connectionState := .new }
    (conn.setState .Connecting).connectToHost

/-- `open`. -/
def openSocket : ClientConnection :=
  let conn := { conn.abortSocket with m_socket := some .Unconnected }
  let conn := conn.checkBrokerConnected
  if conn.isAutoConnect then
    { conn with hasCheckTimer := true, checkTimers := conn.checkTimers + 1 }
  else conn

/-! ### the login -/

/-- `callShvMethod`: the id of the request. -/
def callShvMethod (lost : Bool) : Int32 × ClientConnection :=
  (conn.lastRequestId + 1, { conn with lastRequestId := conn.lastRequestId + 1 }.write lost)

/-- `sendHello`. -/
def sendHello (lost : Bool) : ClientConnection :=
  let r := conn.callShvMethod lost
  { r.2 with m_connectionState := { r.2.m_connectionState with helloRequestId := r.1 } }

/-- The login parameters are there. -/
def onLoginParams (lost : Bool) : ClientConnection :=
  let r := conn.callShvMethod lost
  { r.2 with
    m_connectionState :=
      { r.2.m_connectionState with loginRequestId := r.1, oAuth2WaitingForUser := false } }

/-- `sendLogin`. Nothing comes of a token login without a callback: that is an exception. -/
def sendLogin (lost : Bool) : ClientConnection :=
  if conn.loginType = .AzureAccessToken ∨ conn.loginType = .Token then
    if conn.waiting ∧ conn.m_connectionState.token.isSome then conn.onLoginParams lost
    else
      match conn.tokenPasswordCallback with
      | none => conn
      | some .application => { conn with tokenAsked := true }
      | some .azure =>
        { conn with
          azureAuths := conn.azureAuths + 1
          m_connectionState := { conn.m_connectionState with oAuth2WaitingForUser := true } }
  else conn.onLoginParams lost

/-- The workflows of the broker are asked for, if there is an Azure login to make. -/
def askWorkflows (workflowsLost : Bool) : ClientConnection :=
  if conn.oauth2Azure ∧ !conn.waiting then
    let r := { conn with loginType := .Token }.callShvMethod workflowsLost
    { r.2 with m_connectionState := { r.2.m_connectionState with workflowsRequestId := r.1 } }
  else conn

/-- `onSocketConnectedChanged(true)`. -/
def onSocketConnected (resetLost helloLost workflowsLost : Bool) : ClientConnection :=
  let conn := (conn.setState .SocketConnected).resetCommunication resetLost
  if conn.loginType = .None then conn.setState .BrokerConnected
  else
    ({ conn with loginTimers := conn.loginTimers + 1 }.sendHello helloLost).askWorkflows
      workflowsLost

/-- `azure_unsupported`, or a login that failed. -/
def connectionError (err : RpcError) : ClientConnection :=
  (conn.setState .ConnectionError).emit (.brokerLoginError err)

def azureUnsupported (err : String) : ClientConnection :=
  conn.connectionError (.create 4 (ascii ("Azure login is not supported by the server: " ++ err)))

/-- What a broker with an Azure login must tell about it. -/
def azureFields : List String := ["clientId", "authorizeUrl", "tokenUrl", "scopes"]

/-- The answer to `workflows`. A workflow with a wrong type of scopes is used all the same. -/
def onWorkflows (result : RpcValue) (lost : Bool) : ClientConnection :=
  if !result.isList then conn
  else if !conn.oauth2Azure then conn
  else
    match result.asList.find? (·.textOf "type" = ascii "oauth2-azure") with
    | none => conn.azureUnsupported "no azure workflow"
    | some workflow =>
      if !workflow.isMap then conn.azureUnsupported "oauth2-azure workflow is not a map"
      else
        match azureFields.find? fun field =>
            (SortedMap.find? (ascii field) workflow.asMap).isNone with
        | some field => conn.azureUnsupported ("no " ++ field)
        | none =>
          let scopes := workflow.asMap.valueOr (ascii "scopes") .invalid
          let conn :=
            if scopes.isList ∨ scopes.isString then conn
            else conn.azureUnsupported "scopes wrong type"
          { conn with tokenPasswordCallback := some .azure }.sendLogin lost

/-- `processLoginPhase` of a response; a number that cannot be converted is an exception. -/
def processLoginPhase (msg : RpcMessage) (lost pending : Bool) : ClientConnection :=
  match msg.error.isValid with
  | .error _ => conn
  | .ok true => (conn.connectionError msg.error).restartIfAutoConnect lost pending
  | .ok false =>
    match msg.requestId.toInt with
    | .error _ => conn
    | .ok id =>
      if id = 0 then conn.restartIfAutoConnect lost pending
      else if conn.m_connectionState.helloRequestId = id then
        if conn.oauth2Azure ∧ conn.m_connectionState.token.isNone then conn else conn.sendLogin lost
      else if conn.m_connectionState.workflowsRequestId = id then conn.onWorkflows msg.result lost
      else if conn.m_connectionState.loginRequestId = id then
        { conn with
          m_connectionState :=
            { conn.m_connectionState with loginResult := msg.result } }.setState .BrokerConnected
      else conn.restartIfAutoConnect lost pending

/-- The answer to the last ping. -/
def isPong (msg : RpcMessage) : Bool :=
  msg.isResponse && msg.requestId.eqInt conn.m_connectionState.pingRqId

/-- `onRpcMessageReceived`. -/
def onRpcMessageReceived (msg : RpcMessage) (lost pending : Bool) : ClientConnection :=
  if conn.isLoginPhase then
    if msg.isResponse then conn.processLoginPhase msg lost pending else conn
  else if conn.isPong msg then
    { conn with m_connectionState := { conn.m_connectionState with pingRqId := 0 } }
  else conn.emit (.rpcMessageReceived msg)

/-! ### events -/

/-- The heart-beat timer runs out. -/
def onHeartBeat (lost pending : Bool) : ClientConnection :=
  if 0 < conn.m_connectionState.pingRqId then conn.restartIfAutoConnect lost pending
  else
    let r := conn.callShvMethod lost
    { r.2 with m_connectionState := { r.2.m_connectionState with pingRqId := r.1 } }

/-- The time for a login runs out. -/
def onLoginTimeout (lost pending : Bool) : ClientConnection :=
  let conn := { conn with loginTimers := conn.loginTimers - 1 }
  if conn.state = .BrokerConnected then conn else conn.restartIfAutoConnect lost pending

/-- An Azure login brings a token. -/
def onAzureGranted (token : Bytes) (lost : Bool) : ClientConnection :=
  let conn :=
    { conn with
      azureAuths := conn.azureAuths - 1
      m_connectionState := { conn.m_connectionState with token := some token } }
  if conn.isOpen then conn.onLoginParams lost else conn.connectToHost

/-- One event; those that cannot happen change nothing. -/
def step (conn : ClientConnection) : ClientEvent → ClientConnection
  | .open => conn.openSocket
  | .close lost pending => conn.closeOrAbort false lost pending
  | .abort => conn.closeOrAbort true false false
  | .socketEncrypting =>
    if conn.m_socket = some .Connecting then { conn with m_socket := some .Connected } else conn
  | .socketConnected resetLost helloLost workflowsLost =>
    if conn.m_socket = some .Connecting ∨ conn.m_socket = some .Connected then
      { conn with m_socket := some .Connected }.onSocketConnected resetLost helloLost workflowsLost
    else conn
  | .connectFailed =>
    if conn.m_socket = some .Connecting then { conn with m_socket := some .Unconnected } else conn
  | .socketDisconnected =>
    if conn.isLive ∨ conn.m_socket = some .Connecting then conn.socketLost else conn
  | .socketError pending => if conn.isOpen then conn.closeSocket pending else conn
  | .messageReceived msg lost pending =>
    if conn.m_socket.isSome then conn.onRpcMessageReceived msg lost pending else conn
  | .requestSent lost => (conn.callShvMethod lost).2
  | .checkTimeout => if 0 < conn.checkTimers then conn.checkBrokerConnected else conn
  | .heartBeat lost pending => if conn.heartBeatActive then conn.onHeartBeat lost pending else conn
  | .loginTimeout lost pending =>
    if 0 < conn.loginTimers then conn.onLoginTimeout lost pending else conn
  | .tokenPassword lost => if conn.tokenAsked then conn.onLoginParams lost else conn
  | .azureGranted token lost =>
    if 0 < conn.azureAuths then conn.onAzureGranted token lost else conn
  | .azureFailed err =>
    if 0 < conn.azureAuths then
      { conn with azureAuths := conn.azureAuths - 1 }.connectionError (.create 4 err)
    else conn

/-- A run of events. -/
def run (es : List ClientEvent) : ClientConnection := es.foldl step conn

end ClientConnection

end LibShv
