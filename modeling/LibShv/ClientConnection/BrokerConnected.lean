import LibShv.ClientConnection
import LibShv.Lib.Machine

/-!
# LibShv.ClientConnection.BrokerConnected

What the listeners of a client connection are told: messages while the broker is
connected, and changes of that.

Two things break it. A message that arrives in any state but the login phase is
passed on, also when there is no broker; and a connection that is opened again sets
its state back without a word.
-/

namespace LibShv

/-! ## values that alternate -/

/-- Every other value, the first one `true`. -/
def Alternates (bs : List Bool) : Prop := ∀ (i : Nat) (h : i < bs.length), bs[i] = decide (i % 2 = 0)

theorem alternates_nil : Alternates [] := by
  intro i h
  simp at h

theorem Alternates.concat {bs : List Bool} {b : Bool} (h : Alternates bs)
    (hb : b = decide (bs.length % 2 = 0)) : Alternates (bs ++ [b]) := by
  intro i hi
  by_cases hlt : i < bs.length
  · rw [List.getElem_append_left hlt]
    exact h i hlt
  · have hlast : i = bs.length := by simp at hi; omega
    subst hlast
    simpa using hb

/-- The last value tells how many there are. -/
theorem Alternates.getLast?_iff {bs : List Bool} (h : Alternates bs) :
    bs.getLast? = some true ↔ bs.length % 2 = 1 := by
  cases hbs : bs.length with
  | zero => simp [List.length_eq_zero_iff.mp hbs]
  | succ n =>
    have hlt : n < bs.length := by omega
    rw [List.getLast?_eq_getElem?, hbs, Nat.add_sub_cancel, List.getElem?_eq_getElem hlt, h n hlt]
    simp only [Option.some.injEq, decide_eq_true_eq]
    omega

/-! ## what listeners know -/

/-- The values of `brokerConnectedChanged`. -/
def brokerConnectedValues (emitted : List (ClientState × ClientSignal)) : List Bool :=
  emitted.filterMap fun e =>
    match e.2 with
    | .brokerConnectedChanged is_connected => some is_connected
    | _ => none

/-- Messages were passed on while the broker was connected, and the values of
`brokerConnectedChanged` alternate, so that the last one says whether the broker is connected. -/
structure Informed (emitted : List (ClientState × ClientSignal)) (state : ClientState) : Prop where
  passedOn : ∀ s msg, (s, .rpcMessageReceived msg) ∈ emitted → s = .BrokerConnected
  alternates : Alternates (brokerConnectedValues emitted)
  known : (brokerConnectedValues emitted).getLast? = some true ↔ state = .BrokerConnected

section

variable {emitted : List (ClientState × ClientSignal)} {state state' : ClientState}

@[simp] theorem brokerConnectedValues_append (emitted' : List (ClientState × ClientSignal)) :
    brokerConnectedValues (emitted ++ emitted') =
      brokerConnectedValues emitted ++ brokerConnectedValues emitted' := List.filterMap_append

/-- A signal that says nothing of the broker. -/
theorem Informed.concat (h : Informed emitted state) {s : ClientState} {signal : ClientSignal}
    (hvalue : brokerConnectedValues [(s, signal)] = [])
    (hmsg : ∀ msg, signal = .rpcMessageReceived msg → s = .BrokerConnected) :
    Informed (emitted ++ [(s, signal)]) state where
  passedOn s' msg hmem := by
    obtain hmem | hmem := List.mem_append.mp hmem
    · exact h.passedOn s' msg hmem
    · obtain ⟨rfl, rfl⟩ := Prod.mk.inj (List.mem_singleton.mp hmem)
      exact hmsg msg rfl
  alternates := by simpa [hvalue] using h.alternates
  known := by simpa [hvalue] using h.known

theorem Informed.stateChanged (h : Informed emitted state) (s s' : ClientState) :
    Informed (emitted ++ [(s, .stateChanged s')]) state :=
  h.concat rfl (fun _ hsignal => by cases hsignal)

/-- The broker is connected now, or no longer is. -/
theorem Informed.changed (h : Informed emitted state) {s : ClientState}
    (hchanged : state = .BrokerConnected ↔ state' ≠ .BrokerConnected) :
    Informed (emitted ++ [(s, .brokerConnectedChanged (decide (state' = .BrokerConnected)))])
      state' := by
  have hvalues : brokerConnectedValues
      (emitted ++ [(s, .brokerConnectedChanged (decide (state' = .BrokerConnected)))]) =
      brokerConnectedValues emitted ++ [decide (state' = .BrokerConnected)] := by
    rw [brokerConnectedValues_append]
    rfl
  have hodd := h.alternates.getLast?_iff.symm.trans h.known
  refine ⟨?_, ?_, ?_⟩
  · intro s' msg hmem
    obtain hmem | hmem := List.mem_append.mp hmem
    · exact h.passedOn s' msg hmem
    · cases (Prod.mk.inj (List.mem_singleton.mp hmem)).2
  · rw [hvalues]
    refine h.alternates.concat ?_
    rw [decide_eq_decide, ← not_iff_not, ← ne_eq, ← hchanged, ← hodd]
    omega
  · simp [hvalues]

/-- The state may change unseen where the broker is concerned in neither. -/
theorem Informed.of_ne (h : Informed emitted state) (hne : state ≠ .BrokerConnected)
    (hne' : state' ≠ .BrokerConnected) : Informed emitted state' :=
  ⟨h.passedOn, h.alternates, by simpa [hne, hne'] using h.known⟩

end

namespace ClientConnection

variable {conn : ClientConnection}

/-- What the listeners of the connection know is right. -/
def Sound (conn : ClientConnection) : Prop := Informed conn.emitted conn.state

/-! ## what changes the state -/

/-- The state is set; only the signals differ. -/
theorem setState_eq (conn : ClientConnection) {state : ClientState} (hne : conn.state ≠ state) :
    conn.setState state =
      let conn' := { conn with
        m_connectionState := { conn.m_connectionState with state } }.emit (.stateChanged state)
      if conn.state = .BrokerConnected then conn'.whenBrokerConnectedChanged false
      else if state = .BrokerConnected then conn'.whenBrokerConnectedChanged true
      else conn' := if_neg hne

theorem state_setState (conn : ClientConnection) (state : ClientState) :
    (conn.setState state).state = state := by
  by_cases hsame : conn.state = state
  · rw [setState, if_pos hsame, hsame]
  · rw [setState_eq conn hsame]
    dsimp only
    split
    · rfl
    · split
      · rfl
      · rfl

theorem waiting_setState (conn : ClientConnection) (state : ClientState) :
    (conn.setState state).waiting = conn.waiting := by
  by_cases hsame : conn.state = state
  · rw [setState, if_pos hsame]
  · rw [setState_eq conn hsame]
    dsimp only
    split
    · rfl
    · split
      · rfl
      · rfl

theorem sound_setState (h : conn.Sound) (state : ClientState) : (conn.setState state).Sound := by
  rw [Sound, state_setState]
  unfold setState
  by_cases hsame : conn.state = state
  · rw [if_pos hsame, ← hsame]
    exact h
  · rw [if_neg hsame]
    have hstate := Informed.stateChanged h state state
    by_cases hold : conn.state = .BrokerConnected
    · have hnew : state ≠ .BrokerConnected := fun hnew => hsame (hold.trans hnew.symm)
      have hchanged := @Informed.changed _ _ state hstate state (by simp [hold, hnew])
      rw [decide_eq_false hnew] at hchanged
      simp only [hold, if_true]
      exact hchanged
    · by_cases hnew : state = .BrokerConnected
      · have hchanged := @Informed.changed _ _ state hstate state (by simp [hold, hnew])
        rw [decide_eq_true hnew] at hchanged
        simp only [hold, if_false, if_pos hnew]
        exact hchanged
      · simp only [hold, if_false, if_neg hnew]
        exact hstate.of_ne hold hnew

theorem sound_onSocketDisconnected (h : conn.Sound) : conn.onSocketDisconnected.Sound := by
  unfold onSocketDisconnected
  split
  · exact h
  · exact sound_setState h .NotConnected

theorem sound_socketLost (h : conn.Sound) : conn.socketLost.Sound :=
  @sound_onSocketDisconnected { conn with m_socket := some .Unconnected } h

theorem sound_write (h : conn.Sound) (lost : Bool) : (conn.write lost).Sound := by
  unfold write
  split
  · exact sound_socketLost h
  · exact h

theorem sound_closeSocket (h : conn.Sound) (pending : Bool) : (conn.closeSocket pending).Sound := by
  unfold closeSocket
  split
  · split
    · exact h
    · exact sound_socketLost h
  · split
    · exact h
    · exact h

theorem sound_abortSocket (h : conn.Sound) : conn.abortSocket.Sound := by
  unfold abortSocket
  split
  · exact sound_socketLost h
  · split
    · exact h
    · exact h

theorem sound_connectToHost (h : conn.Sound) : conn.connectToHost.Sound := by
  unfold connectToHost
  split
  · exact h
  · exact h

theorem sound_resetCommunication (h : conn.Sound) (lost : Bool) :
    (conn.resetCommunication lost).Sound := by
  unfold resetCommunication
  split
  · exact sound_write h lost
  · exact h

theorem sound_stopCheckTimer (h : conn.Sound) : conn.stopCheckTimer.Sound := by
  unfold stopCheckTimer
  split
  · exact h
  · exact h

theorem sound_closeOrAbort (h : conn.Sound) (is_abort lost pending : Bool) :
    (conn.closeOrAbort is_abort lost pending).Sound := by
  have htimer := sound_stopCheckTimer h
  refine sound_setState ?_ .NotConnected
  split
  · exact sound_abortSocket htimer
  · exact sound_closeSocket (sound_resetCommunication htimer lost) pending

theorem sound_restartIfAutoConnect (h : conn.Sound) (lost pending : Bool) :
    (conn.restartIfAutoConnect lost pending).Sound := by
  unfold restartIfAutoConnect
  split
  · exact sound_closeSocket h pending
  · exact sound_closeOrAbort h false lost pending

/-! ## the login -/

theorem sound_callShvMethod (h : conn.Sound) (lost : Bool) : (conn.callShvMethod lost).2.Sound :=
  @sound_write { conn with lastRequestId := conn.lastRequestId + 1 } h lost

theorem sound_onLoginParams (h : conn.Sound) (lost : Bool) : (conn.onLoginParams lost).Sound :=
  sound_callShvMethod h lost

theorem sound_sendLogin (h : conn.Sound) (lost : Bool) : (conn.sendLogin lost).Sound := by
  unfold sendLogin
  split
  · split
    · exact sound_onLoginParams h lost
    · split
      · exact h
      · exact h
      · exact h
  · exact sound_onLoginParams h lost

theorem sound_sendHello (h : conn.Sound) (lost : Bool) : (conn.sendHello lost).Sound :=
  sound_callShvMethod h lost

theorem sound_askWorkflows (h : conn.Sound) (workflowsLost : Bool) :
    (conn.askWorkflows workflowsLost).Sound := by
  unfold askWorkflows
  split
  · exact @sound_callShvMethod { conn with loginType := .Token } h workflowsLost
  · exact h

theorem sound_onSocketConnected (h : conn.Sound) (resetLost helloLost workflowsLost : Bool) :
    (conn.onSocketConnected resetLost helloLost workflowsLost).Sound := by
  have hreset := sound_resetCommunication (sound_setState h .SocketConnected) resetLost
  unfold onSocketConnected
  dsimp only
  split
  · exact sound_setState hreset .BrokerConnected
  · refine sound_askWorkflows (sound_sendHello ?_ helloLost) workflowsLost
    exact hreset

theorem sound_connectionError (h : conn.Sound) (err : RpcError) : (conn.connectionError err).Sound :=
  Informed.concat (sound_setState h .ConnectionError) rfl (fun _ hsignal => by cases hsignal)

theorem sound_onWorkflows (h : conn.Sound) (result : RpcValue) (lost : Bool) :
    (conn.onWorkflows result lost).Sound := by
  unfold onWorkflows
  split
  · exact h
  · split
    · exact h
    · split
      · exact sound_connectionError h _
      · split
        · exact sound_connectionError h _
        · split
          · exact sound_connectionError h _
          · refine sound_sendLogin ?_ lost
            simp only [Sound]
            split
            · exact h
            · exact sound_connectionError h _

theorem sound_processLoginPhase (h : conn.Sound) (msg : RpcMessage) (lost pending : Bool) :
    (conn.processLoginPhase msg lost pending).Sound := by
  unfold processLoginPhase
  split
  · exact h
  · exact sound_restartIfAutoConnect (sound_connectionError h _) lost pending
  · split
    · exact h
    · split
      · exact sound_restartIfAutoConnect h lost pending
      · split
        · split
          · exact h
          · exact sound_sendLogin h lost
        · split
          · exact sound_onWorkflows h _ lost
          · split
            · exact @sound_setState { conn with
                m_connectionState :=
                  { conn.m_connectionState with loginResult := msg.result } } h .BrokerConnected
            · exact sound_restartIfAutoConnect h lost pending

theorem sound_onHeartBeat (h : conn.Sound) (lost pending : Bool) :
    (conn.onHeartBeat lost pending).Sound := by
  unfold onHeartBeat
  split
  · exact sound_restartIfAutoConnect h lost pending
  · exact sound_callShvMethod h lost

theorem sound_onLoginTimeout (h : conn.Sound) (lost pending : Bool) :
    (conn.onLoginTimeout lost pending).Sound := by
  unfold onLoginTimeout
  dsimp only
  split
  · exact h
  · exact @sound_restartIfAutoConnect { conn with loginTimers := conn.loginTimers - 1 } h lost pending

theorem sound_onAzureGranted (h : conn.Sound) (token : Bytes) (lost : Bool) :
    (conn.onAzureGranted token lost).Sound := by
  unfold onAzureGranted
  dsimp only
  split
  · exact @sound_onLoginParams { conn with
      azureAuths := conn.azureAuths - 1
      m_connectionState := { conn.m_connectionState with token := some token } } h lost
  · exact @sound_connectToHost { conn with
      azureAuths := conn.azureAuths - 1
      m_connectionState := { conn.m_connectionState with token := some token } } h

/-! ## opening again -/

/-- The state is going to be set back without a signal: the socket is gone, and nobody has said so. -/
def SetBackUnseen (conn : ClientConnection) : Prop :=
  conn.waiting = false ∧ conn.state = .BrokerConnected ∧ conn.isLive = false

theorem waiting_abortSocket (conn : ClientConnection) : conn.abortSocket.waiting = conn.waiting := by
  unfold abortSocket
  split
  · unfold socketLost onSocketDisconnected
    split
    · rfl
    · exact waiting_setState _ _
  · split
    · rfl
    · rfl

/-- A live socket says that it is disconnected. -/
theorem state_abortSocket_of_live (hwaiting : conn.waiting = false) (hlive : conn.isLive = true) :
    conn.abortSocket.state = .NotConnected := by
  have hlost : { conn with m_socket := some SocketState.Unconnected }.waiting = false := hwaiting
  rw [abortSocket, if_pos hlive, socketLost, onSocketDisconnected, if_neg (by simp [hlost])]
  exact state_setState _ _

theorem abortSocket_of_dead (hlive : conn.isLive = false) :
    conn.abortSocket.emitted = conn.emitted ∧ conn.abortSocket.state = conn.state := by
  rw [abortSocket, if_neg (by simp [hlive])]
  split
  · exact ⟨rfl, rfl⟩
  · exact ⟨rfl, rfl⟩

theorem state_abortSocket_ne (hwaiting : conn.waiting = false) (hseen : ¬ conn.SetBackUnseen) :
    conn.abortSocket.state ≠ .BrokerConnected := by
  cases hlive : conn.isLive with
  | true =>
    rw [state_abortSocket_of_live hwaiting hlive]
    decide
  | false =>
    rw [(abortSocket_of_dead hlive).2]
    exact fun hstate => hseen ⟨hwaiting, hstate, hlive⟩

theorem sound_checkBrokerConnected (h : conn.Sound) (hseen : ¬ conn.SetBackUnseen) :
    conn.checkBrokerConnected.Sound := by
  unfold checkBrokerConnected
  split
  · exact h
  · rename_i hwaiting
    split
    · exact h
    · have hne := state_abortSocket_ne (by simpa using hwaiting) hseen
      have hnew : ClientState.NotConnected ≠ .BrokerConnected := by decide
      have hback : { conn.abortSocket with m_connectionState := .new }.Sound :=
        Informed.of_ne (sound_abortSocket h) hne hnew
      exact sound_connectToHost (sound_setState hback .Connecting)

/-- What was known of the broker is wrong then. -/
theorem not_sound_checkBrokerConnected (h : conn.Sound) (hunseen : conn.SetBackUnseen) :
    ¬ conn.checkBrokerConnected.Sound := by
  obtain ⟨hwaiting, hstate, hlive⟩ := hunseen
  have hconnected : conn.isBrokerConnected = false := by
    have hopen : conn.isOpen = false := by
      simp only [isLive, decide_eq_false_iff_not, not_or] at hlive
      simpa [isOpen] using hlive.1
    simp [isBrokerConnected, hopen]
  have heq : conn.checkBrokerConnected =
      ({ conn.abortSocket with m_connectionState := .new }.setState .Connecting).connectToHost := by
    rw [checkBrokerConnected, if_neg (by simp [hwaiting]), if_neg (by simp [hconnected])]
  have hemitted : conn.checkBrokerConnected.emitted =
      conn.emitted ++ [(.Connecting, .stateChanged .Connecting)] := by
    rw [heq, ← (abortSocket_of_dead hlive).1]
    unfold connectToHost
    split
    · rfl
    · rfl
  have hnew : conn.checkBrokerConnected.state = .Connecting := by
    rw [heq]
    unfold connectToHost
    split
    · rfl
    · rfl
  intro hsound
  have hlast := h.known.mpr hstate
  have hknown := hsound.known
  rw [hnew, hemitted, brokerConnectedValues_append] at hknown
  have hvalue : brokerConnectedValues [(.Connecting, .stateChanged .Connecting)] = [] := rfl
  rw [hvalue, List.append_nil] at hknown
  exact absurd (hknown.mp hlast) (by decide)

theorem setBackUnseen_abortSocket :
    { conn.abortSocket with m_socket := some .Unconnected }.SetBackUnseen ↔ conn.SetBackUnseen := by
  have hwaiting : { conn.abortSocket with m_socket := some SocketState.Unconnected }.waiting =
      conn.waiting := waiting_abortSocket conn
  constructor
  · rintro ⟨hw, hstate, -⟩
    by_contra hseen
    exact state_abortSocket_ne (hwaiting.symm.trans hw) hseen hstate
  · rintro ⟨hw, hstate, hlive⟩
    exact ⟨hwaiting.trans hw, (abortSocket_of_dead hlive).2.trans hstate, rfl⟩

theorem sound_openSocket_iff (h : conn.Sound) : conn.openSocket.Sound ↔ ¬ conn.SetBackUnseen := by
  have habort : { conn.abortSocket with m_socket := some SocketState.Unconnected }.Sound :=
    sound_abortSocket h
  have hopen : conn.openSocket.Sound ↔
      { conn.abortSocket with m_socket := some SocketState.Unconnected }.checkBrokerConnected.Sound := by
    unfold openSocket
    dsimp only
    split
    · exact Iff.rfl
    · exact Iff.rfl
  rw [hopen, ← setBackUnseen_abortSocket]
  constructor
  · exact fun hsound hunseen => not_sound_checkBrokerConnected habort hunseen hsound
  · exact sound_checkBrokerConnected habort

/-! ## messages -/

/-- A message that is for the login, for the ping, or for a broker that is connected. -/
def ExpectsMessage (conn : ClientConnection) (msg : RpcMessage) : Prop :=
  conn.state = .SocketConnected ∨ conn.state = .BrokerConnected ∨ conn.isPong msg = true

theorem sound_onRpcMessageReceived_iff (h : conn.Sound) (msg : RpcMessage) (lost pending : Bool) :
    (conn.onRpcMessageReceived msg lost pending).Sound ↔ conn.ExpectsMessage msg := by
  by_cases hlogin : conn.state = .SocketConnected
  · refine iff_of_true ?_ (.inl hlogin)
    rw [onRpcMessageReceived, if_pos (by simp [isLoginPhase, hlogin])]
    split
    · exact sound_processLoginPhase h msg lost pending
    · exact h
  · rw [onRpcMessageReceived, if_neg (by simp [isLoginPhase, hlogin])]
    cases hpong : conn.isPong msg with
    | true => exact iff_of_true h (.inr (.inr hpong))
    | false =>
      simp only [Bool.false_eq_true, if_false, ExpectsMessage, hlogin, hpong, false_or, or_false]
      constructor
      · intro hsound
        exact hsound.passedOn conn.state msg (by simp [emit])
      · intro hstate
        exact Informed.concat h rfl fun _ _ => hstate

/-! ## runs -/

/-- The condition on an event. -/
def Meets (conn : ClientConnection) : ClientEvent → Prop
  | .open => ¬ conn.SetBackUnseen
  | .checkTimeout => 0 < conn.checkTimers → ¬ conn.SetBackUnseen
  | .messageReceived msg _ _ => conn.m_socket.isSome = true → conn.ExpectsMessage msg
  | _ => True

/-- Where a step with a condition of its own has to be taken. -/
theorem sound_ite_iff {p Q : Prop} [Decidable p] {conn' : ClientConnection} (h : conn.Sound)
    (h' : conn'.Sound ↔ Q) : (if p then conn' else conn).Sound ↔ (p → Q) := by
  by_cases hp : p
  · simp [hp, h']
  · simp [hp, h]

theorem sound_ite {p : Prop} [Decidable p] {conn' : ClientConnection} (h : conn.Sound)
    (h' : conn'.Sound) : (if p then conn' else conn).Sound :=
  (sound_ite_iff h (iff_of_true h' trivial)).mpr fun _ => trivial

theorem sound_step_iff (conn : ClientConnection) (e : ClientEvent) (h : conn.Sound) :
    (conn.step e).Sound ↔ conn.Meets e := by
  cases e with
  | «open» => exact sound_openSocket_iff h
  | checkTimeout =>
    exact sound_ite_iff h ⟨fun hsound hunseen => not_sound_checkBrokerConnected h hunseen hsound,
      sound_checkBrokerConnected h⟩
  | messageReceived msg lost pending =>
    exact sound_ite_iff h (sound_onRpcMessageReceived_iff h msg lost pending)
  | close lost pending => exact iff_of_true (sound_closeOrAbort h false lost pending) trivial
  | abort => exact iff_of_true (sound_closeOrAbort h true false false) trivial
  | socketEncrypting => exact iff_of_true (sound_ite h h) trivial
  | socketConnected resetLost helloLost workflowsLost =>
    exact iff_of_true (sound_ite h (@sound_onSocketConnected
      { conn with m_socket := some .Connected } h resetLost helloLost workflowsLost)) trivial
  | connectFailed => exact iff_of_true (sound_ite h h) trivial
  | socketDisconnected => exact iff_of_true (sound_ite h (sound_socketLost h)) trivial
  | socketError pending => exact iff_of_true (sound_ite h (sound_closeSocket h pending)) trivial
  | requestSent lost => exact iff_of_true (sound_callShvMethod h lost) trivial
  | heartBeat lost pending =>
    exact iff_of_true (sound_ite h (sound_onHeartBeat h lost pending)) trivial
  | loginTimeout lost pending =>
    exact iff_of_true (sound_ite h (sound_onLoginTimeout h lost pending)) trivial
  | tokenPassword lost => exact iff_of_true (sound_ite h (sound_onLoginParams h lost)) trivial
  | azureGranted token lost =>
    exact iff_of_true (sound_ite h (sound_onAzureGranted h token lost)) trivial
  | azureFailed err =>
    exact iff_of_true (sound_ite h (@sound_connectionError
      { conn with azureAuths := conn.azureAuths - 1 } h (.create 4 err))) trivial

theorem sound_new (loginType : LoginType) (oauth2Azure : Bool)
    (tokenPasswordCallback : Option TokenPasswordCallback)
    (heartBeatInterval checkBrokerConnectedInterval : Int32) :
    (new loginType oauth2Azure tokenPasswordCallback heartBeatInterval
      checkBrokerConnectedInterval).Sound where
  passedOn s msg hmem := by simp [new] at hmem
  alternates := alternates_nil
  known := by simp [new, brokerConnectedValues, state, ConnectionState.new]

/-- The listeners of a connection are told right in every state of a run exactly if every event of
it meets the condition. -/
theorem toldRight_iff (loginType : LoginType) (oauth2Azure : Bool)
    (tokenPasswordCallback : Option TokenPasswordCallback)
    (heartBeatInterval checkBrokerConnectedInterval : Int32) (es : List ClientEvent) :
    let conn := new loginType oauth2Azure tokenPasswordCallback heartBeatInterval
      checkBrokerConnectedInterval
    (∀ pre post, es = pre ++ post → (conn.run pre).Sound) ↔
      ∀ pre e post, es = pre ++ e :: post → (conn.run pre).Meets e :=
  Machine.foldl_invariant_iff sound_step_iff (sound_new loginType oauth2Azure
    tokenPasswordCallback heartBeatInterval checkBrokerConnectedInterval) es

/-- The answer of a broker that does not take the login, and a signal behind it. -/
def loginRefused : RpcMessage :=
  (RpcMessage.empty.setRequestId (.ofInt32 1)).setError
    (.create RpcError.MethodCallException (ascii "Invalid authentication"))

def valueChanged : RpcMessage where
  value := .mk (.mk [(Tag_Method, .ofVariant (.string (ascii "chng")))] []) (.imap [])
  shape := .inl rfl

/-- The signal is passed on though nobody is logged in. -/
def refusedRun : List ClientEvent :=
  [.open, .socketConnected false false false, .messageReceived loginRefused false false,
    .messageReceived valueChanged false false]

/-- A line without a login that is lost while it is reset, and is opened again. -/
def lostRun : List ClientEvent :=
  [.open, .socketConnected true false false, .checkTimeout, .socketConnected false false false]

theorem not_toldRight :
    (ClientState.NotConnected, ClientSignal.rpcMessageReceived valueChanged) ∈
        ((new .Plain false none 60 0).run refusedRun).emitted ∧
      brokerConnectedValues ((new .None false none 60 10).run lostRun).emitted = [true, true] ∧
      ¬ Alternates [true, true] := by
  refine ⟨?_, rfl, ?_⟩
  · have hlast : ((new .Plain false none 60 0).run refusedRun).emitted.getLast? =
        some (.NotConnected, .rpcMessageReceived valueChanged) := rfl
    exact List.mem_of_getLast? hlast
  · intro h
    have hsecond := h 1 (by decide)
    simp at hsecond

end ClientConnection

end LibShv
