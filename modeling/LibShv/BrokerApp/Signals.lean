import LibShv.BrokerApp.Subscriptions
import LibShv.RpcFrame

/-!
# LibShv.BrokerApp.Signals

How the broker hands a signal out to the connections that are subscribed to it
(`brokerapp.cpp`), as a frame that came in and as a signal of its own. Each
connection should get it under its own path.
-/

namespace LibShv

def Tag_Source : Int32 := 19

/-- `RpcMessage::source`. -/
def RpcMetaData.source (md : RpcMetaData) : Bytes := (md.valueOf Tag_Source).asString

namespace RpcMessage

/-- `setMetaValue`. -/
def setMetaValue (msg : RpcMessage) (key : Int32) (val : RpcValue) : RpcMessage where
  value := msg.checkMetaValues.setMetaValue key val
  shape := .inl msg.isIMap_checkMetaValues

def setShvPath (msg : RpcMessage) (path : Bytes) : RpcMessage :=
  msg.setMetaValue Tag_ShvPath (.ofVariant (.string path))

def setMethod (msg : RpcMessage) (method : Bytes) : RpcMessage :=
  msg.setMetaValue Tag_Method (.ofVariant (.string method))

/-- `RpcSignal::setSource`. -/
def setSource (msg : RpcMessage) (source : Bytes) : RpcMessage :=
  msg.setMetaValue Tag_Source (.ofVariant (.string source))

/-- `RpcRequest::setParams`. -/
def setParams (msg : RpcMessage) (params : RpcValue) : RpcMessage where
  value := msg.checkMetaValues.setKey Key_Params params
  shape := .inl rfl

end RpcMessage

/-! ## sending to the subscribers -/

namespace BrokerApp

/-- `sendNotifyToSubscribers` of a frame: whether it was sent, and the frames that were sent
with the ids of the connections. -/
def sendFrameToSubscribers (frame : RpcFrame) (conns : List CommonRpcClientHandle) :
    Bool × List (Int32 × RpcFrame) :=
  let sent := conns.filterMap fun conn =>
    if conn.isConnectedAndLoggedIn then
      let shv_path := frame.metaData.shvPath
      let method := frame.metaData.method
      let source := frame.metaData.source
      match conn.isSubscribed shv_path.toString method.asString source with
      | some _ =>
        let new_path := conn.conn.toSubscribedPath shv_path.asString
        some (conn.connectionId, { frame with metaData := frame.metaData.setShvPath new_path })
      | none => none
    else none
  (!sent.isEmpty, sent)

/-- The loop of `sendNotifyToSubscribers` with parameters. The signal is one object for all
the connections. -/
def sendSignal (shv_path method source : Bytes) :
    RpcMessage → List CommonRpcClientHandle → List (Int32 × RpcMessage)
  | _, [] => []
  | sig, conn :: conns =>
    if conn.isConnectedAndLoggedIn then
      match conn.isSubscribed shv_path method source with
      | some _ =>
        let new_path := conn.conn.toSubscribedPath shv_path
        let sig := if new_path ≠ shv_path then sig.setShvPath new_path else sig
        (conn.connectionId, sig) :: sendSignal shv_path method source sig conns
      | none => sendSignal shv_path method source sig conns
    else sendSignal shv_path method source sig conns

/-- The signal that `sendNotifyToSubscribers` makes of its parameters. -/
def newSignal (shv_path method source : Bytes) (params : RpcValue) : RpcMessage :=
  (((RpcMessage.empty.setShvPath shv_path).setMethod method).setParams params).setSource
    (if source ≠ [] then source else METH_GET)

/-- `sendNotifyToSubscribers` with parameters: the messages that were sent, with the ids of the
connections. -/
def sendSignalToSubscribers (shv_path method source : Bytes) (params : RpcValue)
    (conns : List CommonRpcClientHandle) : List (Int32 × RpcMessage) :=
  sendSignal shv_path method source (newSignal shv_path method source params) conns

/-! ## who is to get it, and under which path -/

/-- The connection is logged in and has subscribed to the signal. -/
def receives (shv_path method source : Bytes) (conn : CommonRpcClientHandle) : Bool :=
  conn.isConnectedAndLoggedIn && (conn.isSubscribed shv_path method source).isSome

/-- The connections that are to get a signal, each once and with its own path. -/
def receivers (shv_path method source : Bytes) (conns : List CommonRpcClientHandle) :
    List (Int32 × Bytes) :=
  (conns.filter (receives shv_path method source)).map fun conn =>
    (conn.connectionId, conn.conn.toSubscribedPath shv_path)

/-- No connection that gets the signal under its path in the tree stands behind one that gets
it under another path. -/
def UntranslatedFirst (shv_path method source : Bytes) (conns : List CommonRpcClientHandle) :
    Prop :=
  (conns.filter (receives shv_path method source)).Pairwise fun conn conn' =>
    conn'.conn.toSubscribedPath shv_path = shv_path → conn.conn.toSubscribedPath shv_path = shv_path

/-! ### frames -/

/-- A frame is sent to the receivers, to each with its own path and no other change. -/
theorem sendFrameToSubscribers_eq {frame : RpcFrame} {shv_path method source : Bytes}
    (hpath : frame.metaData.shvPath = .ofVariant (.string shv_path))
    (hmethod : frame.metaData.method.asString = method)
    (hsource : frame.metaData.source = source) (conns : List CommonRpcClientHandle) :
    (sendFrameToSubscribers frame conns).2 =
      (receivers shv_path method source conns).map fun r =>
        (r.1, { frame with metaData := frame.metaData.setShvPath r.2 }) := by
  have hasString : frame.metaData.shvPath.asString = shv_path := by rw [hpath]; rfl
  have htoString : frame.metaData.shvPath.toString = shv_path := by rw [hpath]; rfl
  simp only [sendFrameToSubscribers, receivers, hasString, htoString, hmethod, hsource]
  induction conns with
  | nil => rfl
  | cons conn conns ih =>
    rw [List.filterMap_cons, List.filter_cons]
    by_cases hlogin : conn.isConnectedAndLoggedIn = true
    · cases hsubs : conn.isSubscribed shv_path method source with
      | none => simpa [receives, hlogin, hsubs] using ih
      | some ix => simpa [receives, hlogin, hsubs] using ih
    · simpa [receives, hlogin] using ih

/-! ### signals -/

/-- A signal with a method, a source and parameters, whose metadata can be changed. -/
structure Signal (method source : Bytes) (params : RpcValue) (sig : RpcMessage) : Prop where
  valid : sig.value.isValid = true
  sorted : SortedMap.Sorted sig.value.metaData.iValues
  method : sig.value.metaData.method = .ofVariant (.string method)
  source : sig.value.metaData.source = source
  params : sig.params = params

section

variable {shv_path method source path : Bytes} {params : RpcValue} {sig : RpcMessage}

theorem checkMetaValues_of_valid (h : sig.value.isValid = true) : sig.checkMetaValues = sig.value := by
  rw [RpcMessage.checkMetaValues, if_pos h]

/-- Setting the path changes the path only. -/
theorem Signal.setShvPath (h : Signal method source params sig) (path : Bytes) :
    Signal method source params (sig.setShvPath path) ∧
      (sig.setShvPath path).value.metaData.shvPath = .ofVariant (.string path) := by
  have hvalue : (sig.setShvPath path).value =
      sig.value.setMetaData (sig.value.metaData.setIValue Tag_ShvPath (.ofVariant (.string path))) := by
    change sig.checkMetaValues.setMetaValue Tag_ShvPath _ = _
    rw [checkMetaValues_of_valid h.valid]
    rfl
  have hmeta : (sig.setShvPath path).value.metaData =
      sig.value.metaData.setIValue Tag_ShvPath (.ofVariant (.string path)) := by
    rw [hvalue]
    rfl
  refine ⟨⟨?_, ?_, ?_, ?_, ?_⟩, ?_⟩
  · rw [hvalue]
    exact h.valid
  · rw [hmeta]
    exact RpcMetaData.sorted_setIValue h.sorted _ _
  · rw [hmeta, RpcMetaData.method, RpcMetaData.valueOf_setIValue_of_ne (by decide)]
    exact h.method
  · rw [hmeta, RpcMetaData.source, RpcMetaData.valueOf_setIValue_of_ne (by decide)]
    exact h.source
  · rw [RpcMessage.params, hvalue]
    exact h.params
  · rw [hmeta, RpcMetaData.shvPath, RpcMetaData.valueOf_setIValue_self h.sorted]
    rfl

/-- The signal that is made first has the path in the tree. -/
theorem signal_newSignal (shv_path method source : Bytes) (params : RpcValue) :
    Signal method (if source ≠ [] then source else METH_GET)
        (if params.isValid then params else .invalid) (newSignal shv_path method source params) ∧
      (newSignal shv_path method source params).value.metaData.shvPath =
        .ofVariant (.string shv_path) := by
  refine ⟨⟨rfl, ?_, rfl, rfl, ?_⟩, rfl⟩
  · have hiValues : (newSignal shv_path method source params).value.metaData.iValues =
        [(Tag_MetaTypeId, .ofVariant (.int 1)), (Tag_ShvPath, .ofVariant (.string shv_path)),
          (Tag_Method, .ofVariant (.string method)),
          (Tag_Source, .ofVariant (.string (if source ≠ [] then source else METH_GET)))] := rfl
    rw [hiValues]
    simp only [SortedMap.sorted_cons, List.mem_cons, forall_eq_or_imp, List.not_mem_nil,
      false_imp_iff, implies_true, and_true, SortedMap.sorted_nil]
    decide
  · have himap : (newSignal shv_path method source params).value.asIMap =
        if params.isValid then [(Key_Params, params)] else [] := by rfl
    rw [RpcMessage.params, himap]
    by_cases hvalid : params.isValid = true
    · rw [if_pos hvalid, if_pos hvalid]
      rfl
    · rw [if_neg hvalid, if_neg hvalid]
      rfl

/-- Every message that is sent is the signal, under some path. -/
theorem sendSignal_signal (h : Signal method source params sig) (subs_source : Bytes)
    (conns : List CommonRpcClientHandle) :
    ∀ sent ∈ sendSignal shv_path method subs_source sig conns,
      Signal method source params sent.2 := by
  induction conns generalizing sig with
  | nil => simp [sendSignal]
  | cons conn conns ih =>
    rw [sendSignal]
    by_cases hlogin : conn.isConnectedAndLoggedIn = true
    · rw [if_pos hlogin]
      cases hsubs : conn.isSubscribed shv_path method subs_source with
      | none => exact ih h
      | some ix =>
        have hsig : Signal method source params
            (if conn.conn.toSubscribedPath shv_path ≠ shv_path then
              sig.setShvPath (conn.conn.toSubscribedPath shv_path) else sig) := by
          split
          · exact (h.setShvPath _).1
          · exact h
        intro sent hsent
        obtain rfl | hsent := List.mem_cons.mp hsent
        · exact hsig
        · exact ih hsig sent hsent
    · rw [if_neg hlogin]
      exact ih h

/-- The loop, with the signal under some path: the connections get their own paths exactly if
those that get the path in the tree come first, and the signal is still under it then. -/
theorem sendSignal_eq_receivers_iff (h : Signal method source params sig)
    (hpath : sig.value.metaData.shvPath = .ofVariant (.string path)) (subs_source : Bytes)
    (conns : List CommonRpcClientHandle) :
    (sendSignal shv_path method subs_source sig conns).map
        (fun sent => (sent.1, sent.2.value.metaData.shvPath.asString)) =
        receivers shv_path method subs_source conns ↔
      (∀ conn ∈ conns.filter (receives shv_path method subs_source),
        conn.conn.toSubscribedPath shv_path = shv_path → path = shv_path) ∧
      UntranslatedFirst shv_path method subs_source conns := by
  simp only [receivers, UntranslatedFirst]
  induction conns generalizing sig path with
  | nil => simp [sendSignal]
  | cons conn conns ih =>
    rw [sendSignal, List.filter_cons]
    by_cases hlogin : conn.isConnectedAndLoggedIn = true
    · cases hsubs : conn.isSubscribed shv_path method subs_source with
      | none => simpa [receives, hlogin, hsubs] using ih h hpath
      | some ix =>
        have hreceives : receives shv_path method subs_source conn = true := by
          simp [receives, hlogin, hsubs]
        rw [if_pos hlogin, if_pos hreceives]
        by_cases hown : conn.conn.toSubscribedPath shv_path = shv_path
        · -- the signal is sent as it is
          have hrest := ih h hpath
          have hasString : sig.value.metaData.shvPath.asString = path := by rw [hpath]; rfl
          simp only [hown, ne_eq, not_true, if_false, List.map_cons, List.cons.injEq,
            Prod.mk.injEq, true_and, List.pairwise_cons, List.mem_cons, forall_eq_or_imp,
            forall_const, hasString, hrest, implies_true]
          exact ⟨fun ⟨hcur, hall, hpair⟩ => ⟨⟨hcur, hall⟩, hpair⟩,
            fun ⟨⟨hcur, hall⟩, hpair⟩ => ⟨hcur, hall, hpair⟩⟩
        · -- from here on the signal has the path of this connection
          obtain ⟨hsig, hset⟩ := h.setShvPath (conn.conn.toSubscribedPath shv_path)
          have hrest := ih hsig hset
          have hasString : (sig.setShvPath
              (conn.conn.toSubscribedPath shv_path)).value.metaData.shvPath.asString =
                conn.conn.toSubscribedPath shv_path := by rw [hset]; rfl
          simp only [hown, ne_eq, not_false_eq_true, if_true, List.map_cons, List.cons.injEq,
            true_and, List.pairwise_cons, List.mem_cons, forall_eq_or_imp, hasString, hrest,
            false_imp_iff]
          constructor
          · rintro ⟨hall, hpair⟩
            exact ⟨fun c hc heq => (hall c hc heq).elim, hall, hpair⟩
          · rintro ⟨-, hall, hpair⟩
            exact ⟨hall, hpair⟩
    · simpa [receives, hlogin] using ih h hpath

end

/-! ## both ways -/

/-- A frame of the signal with a path, a method and a source. -/
structure SignalFrame (shv_path method source : Bytes) (frame : RpcFrame) : Prop where
  path : frame.metaData.shvPath = .ofVariant (.string shv_path)
  method : frame.metaData.method.asString = method
  source : frame.metaData.source = source

/-- The signal is sent to the receivers: as a frame that is changed in its path only, and as a
signal with the method, the source and the parameters, to each under its own path. -/
structure FansOut (shv_path method source : Bytes) (params : RpcValue) (frame : RpcFrame)
    (conns : List CommonRpcClientHandle) : Prop where
  frames : (sendFrameToSubscribers frame conns).2 =
    (receivers shv_path method source conns).map fun r =>
      (r.1, { frame with metaData := frame.metaData.setShvPath r.2 })
  signals : ∀ sent ∈ sendSignalToSubscribers shv_path method source params conns,
    Signal method (if source ≠ [] then source else METH_GET)
      (if params.isValid then params else .invalid) sent.2
  paths : (sendSignalToSubscribers shv_path method source params conns).map
      (fun sent => (sent.1, sent.2.value.metaData.shvPath.asString)) =
    receivers shv_path method source conns

/-- The signal is sent as it should be exactly if the connections that get it under its path in
the tree stand before those that get it under another path. -/
theorem fansOut_iff {shv_path method source : Bytes} {frame : RpcFrame} (params : RpcValue)
    (hframe : SignalFrame shv_path method source frame) (conns : List CommonRpcClientHandle) :
    FansOut shv_path method source params frame conns ↔
      UntranslatedFirst shv_path method source conns := by
  obtain ⟨hsignal, hset⟩ := signal_newSignal shv_path method source params
  have hpaths := @sendSignal_eq_receivers_iff shv_path _ _ _ _ _ hsignal hset source conns
  constructor
  · intro h
    exact (hpaths.mp h.paths).2
  · intro h
    exact ⟨sendFrameToSubscribers_eq hframe.path hframe.method hframe.source conns,
      sendSignal_signal hsignal source conns, hpaths.mpr ⟨fun _ _ _ => rfl, h⟩⟩

/-! ### two master brokers -/

/-- A master broker that sees the directory `site` and has subscribed to `dev` in it. -/
def devSubscriber : CommonRpcClientHandle :=
  ⟨1, .masterBroker (ascii "site"), [], true, [.new (ascii "site/dev") (ascii "chng") []]⟩

/-- A master broker that sees the whole tree. -/
def treeSubscriber : CommonRpcClientHandle :=
  ⟨2, .masterBroker [], [], true, [.new (ascii "site") (ascii "chng") []]⟩

def tempFrame : RpcFrame where
  protocol := .ChainPack
  metaData := .mk [(Tag_ShvPath, .ofVariant (.string (ascii "site/dev/temp"))),
    (Tag_Method, .ofVariant (.string (ascii "chng")))] []
  data := []

theorem fansOut_treeSubscriber_first :
    FansOut (ascii "site/dev/temp") (ascii "chng") [] (.ofVariant (.int 1)) tempFrame
      [treeSubscriber, devSubscriber] := by
  have hfilter : [treeSubscriber, devSubscriber].filter
      (receives (ascii "site/dev/temp") (ascii "chng") []) =
        [treeSubscriber, devSubscriber] := by rfl
  have hfirst : UntranslatedFirst (ascii "site/dev/temp") (ascii "chng") []
      [treeSubscriber, devSubscriber] := by
    rw [UntranslatedFirst, hfilter]
    simp only [List.pairwise_cons, List.mem_cons, forall_eq_or_imp, List.not_mem_nil,
      false_imp_iff, implies_true, and_true, List.Pairwise.nil]
    decide
  have hframe : SignalFrame (ascii "site/dev/temp") (ascii "chng") [] tempFrame := ⟨rfl, rfl, rfl⟩
  exact (fansOut_iff _ hframe _).mpr hfirst

/-- The path that was set for the first master broker is sent to the second one too. -/
theorem not_fansOut_devSubscriber_first :
    SignalFrame (ascii "site/dev/temp") (ascii "chng") [] tempFrame ∧
      receivers (ascii "site/dev/temp") (ascii "chng") [] [devSubscriber, treeSubscriber] =
        [(1, ascii "dev/temp"), (2, ascii "site/dev/temp")] ∧
      (sendSignalToSubscribers (ascii "site/dev/temp") (ascii "chng") [] (.ofVariant (.int 1))
          [devSubscriber, treeSubscriber]).map
            (fun sent => (sent.1, sent.2.value.metaData.shvPath.asString)) =
        [(1, ascii "dev/temp"), (2, ascii "dev/temp")] ∧
      ¬ FansOut (ascii "site/dev/temp") (ascii "chng") [] (.ofVariant (.int 1)) tempFrame
        [devSubscriber, treeSubscriber] := by
  have hsent : (sendSignalToSubscribers (ascii "site/dev/temp") (ascii "chng") []
      (.ofVariant (.int 1)) [devSubscriber, treeSubscriber]).map
        (fun sent => (sent.1, sent.2.value.metaData.shvPath.asString)) =
      [(1, ascii "dev/temp"), (2, ascii "dev/temp")] := by rfl
  have hreceivers : receivers (ascii "site/dev/temp") (ascii "chng") []
      [devSubscriber, treeSubscriber] =
        [(1, ascii "dev/temp"), (2, ascii "site/dev/temp")] := by rfl
  refine ⟨⟨rfl, rfl, rfl⟩, hreceivers, hsent, ?_⟩
  intro h
  have hpaths := h.paths
  rw [hsent, hreceivers] at hpaths
  exact absurd hpaths (by decide)

end BrokerApp

end LibShv
