import LibShv.BrokerApp

/-!
# LibShv.CommonRpcClientHandle

The subscriptions of a connection (`commonrpcclienthandle.cpp`), how each kind
of connection makes one, and the paths that the master broker uses
(`masterbrokerconnection.cpp`, `clientconnectiononbroker.cpp`).
-/

namespace LibShv

def METH_GET : Bytes := ascii "get"

/-! ## subscriptions -/

/-- `CommonRpcClientHandle::Subscription`. Its constructor leaves no slash in front. -/
@[ext]
structure Subscription where
  path : Bytes
  method : Bytes
  source : Bytes
  path_head : path.head? ≠ some SHV_PATH_DELIM
deriving DecidableEq

namespace Subscription

/-- `path.substr(ix1, len)`: the slashes in front are cut off, but the length is
counted from the start of the whole path up to the slashes at its end. -/
def trimPath (path : Bytes) : Bytes :=
  let len := (path.reverse.dropWhile (· = SHV_PATH_DELIM)).length
  (path.dropWhile (· = SHV_PATH_DELIM)).take len

theorem trimPath_head (path : Bytes) : (trimPath path).head? ≠ some SHV_PATH_DELIM := by
  intro h
  have hhead := List.head?_dropWhile_not (· = SHV_PATH_DELIM) path
  rw [trimPath, List.head?_take] at h
  by_cases hlen : (path.reverse.dropWhile (· = SHV_PATH_DELIM)).length = 0
  · simp [hlen] at h
  · simp only [hlen, if_false] at h
    rw [h] at hhead
    simp at hhead

/-- The constructor. -/
def new (path method source : Bytes) : Subscription :=
  ⟨trimPath path, method, source, trimPath_head path⟩

@[simp] theorem new_path (path method source : Bytes) :
    (new path method source).path = trimPath path := rfl
@[simp] theorem new_method (path method source : Bytes) :
    (new path method source).method = method := rfl
@[simp] theorem new_source (path method source : Bytes) :
    (new path method source).source = source := rfl

/-- `Subscription::cmpSubscribed`. -/
def cmpSubscribed (subs o : Subscription) : Bool :=
  subs.path = o.path ∧ subs.method = o.method ∧ subs.source = o.source

/-- `Subscription::match`. -/
def matchSignal (subs : Subscription) (signal_path signal_method signal_source : Bytes) : Bool :=
  if startsWithPath signal_path subs.path then
    let signal_source := if signal_source = [] then METH_GET else signal_source
    (subs.method = [] ∨ subs.method = signal_method) ∧
      (subs.source = [] ∨ subs.source = signal_source)
  else false

theorem cmpSubscribed_iff {subs o : Subscription} : subs.cmpSubscribed o = true ↔ subs = o := by
  simp [cmpSubscribed, Subscription.ext_iff]

/-- With no slash at the end the whole rest of the path is kept. -/
theorem trimPath_of_getLast? {path : Bytes} (h : path.getLast? ≠ some SHV_PATH_DELIM) :
    trimPath path = path.dropWhile (· = SHV_PATH_DELIM) := by
  have hrev : path.reverse.head? ≠ some SHV_PATH_DELIM := by
    rw [List.head?_reverse]
    exact h
  rw [trimPath, dropWhile_delim hrev, List.length_reverse]
  exact List.take_of_length_le (List.dropWhile_suffix _).length_le

/-- A path without slashes at its ends is kept by the constructor. -/
theorem trimPath_of_trimmed {path : Bytes} (h : TrimmedPath path) : trimPath path = path := by
  rw [trimPath_of_getLast? h.2, dropWhile_delim h.1]

theorem startsWithPath_of_matchSignal {subs : Subscription} {path method source : Bytes}
    (h : subs.matchSignal path method source = true) : startsWithPath path subs.path = true := by
  rw [matchSignal] at h
  by_cases hpath : startsWithPath path subs.path = true
  · exact hpath
  · rw [if_neg hpath] at h
    contradiction

theorem method_of_matchSignal {subs : Subscription} {path method source : Bytes}
    (h : subs.matchSignal path method source = true) :
    subs.method = [] ∨ subs.method = method := by
  rw [matchSignal, if_pos (startsWithPath_of_matchSignal h)] at h
  simp only [Bool.decide_and, Bool.and_eq_true, decide_eq_true_eq] at h
  exact h.1

end Subscription

/-! ## the handle of a connection -/

/-- `CommonRpcClientHandle`: what the broker keeps of a connection. Only a client
has a mount point. -/
structure CommonRpcClientHandle where
  connectionId : Int32
  conn : BrokerConnection
  mountPoint : Bytes
  isConnectedAndLoggedIn : Bool
  m_subscriptions : List Subscription

namespace CommonRpcClientHandle

/-- `CommonRpcClientHandle::addSubscription`, which returns the index. -/
def addSubscription (handle : CommonRpcClientHandle) (subs : Subscription) :
    UInt32 × CommonRpcClientHandle :=
  match handle.m_subscriptions.findIdx? subs.cmpSubscribed with
  | none => (.ofNat handle.m_subscriptions.length,
      { handle with m_subscriptions := handle.m_subscriptions ++ [subs] })
  | some ix => (.ofNat ix,
      { handle with m_subscriptions := handle.m_subscriptions.set ix subs })

/-- `CommonRpcClientHandle::removeSubscription`. -/
def removeSubscription (handle : CommonRpcClientHandle) (subs : Subscription) :
    Bool × CommonRpcClientHandle :=
  match handle.m_subscriptions.findIdx? subs.cmpSubscribed with
  | none => (false, handle)
  | some ix => (true, { handle with m_subscriptions := handle.m_subscriptions.eraseIdx ix })

/-- `CommonRpcClientHandle::isSubscribed`: the index of a subscription, none for -1. -/
def isSubscribed (handle : CommonRpcClientHandle) (shv_path method source : Bytes) : Option Nat :=
  handle.m_subscriptions.findIdx? (·.matchSignal shv_path method source)

end CommonRpcClientHandle

/-! ## kinds of connections -/

/-- `MasterBrokerConnection::localPathToMasterExported`. -/
def localPathToMasterExported (exportedShvPath local_path : Bytes) : Bytes :=
  if exportedShvPath = [] then local_path
  else
    match startsWithPathPos local_path exportedShvPath with
    | some pos => local_path.drop pos
    | none => local_path

namespace BrokerConnection

/-- `toSubscribedPath`: the path under which a connection gets a signal. -/
def toSubscribedPath : BrokerConnection → Bytes → Bytes
  | client _ _, signal_path => signal_path
  | masterBroker exportedShvPath, signal_path =>
    localPathToMasterExported exportedShvPath signal_path

/-- The text of the exception of `ClientConnectionOnBroker::createSubscription`. -/
def signalNotGranted (shv_path method user_name : Bytes) : Bytes :=
  ascii "Acces to shv signal '" ++ shv_path ++ ascii "/" ++ method ++
    ascii "()' not granted for user '" ++ user_name ++ ascii "'"

/-- `createSubscription`: a client needs a grant to read, and the path of the master
broker is made a local one. -/
def createSubscription {B : AclBackend} (m : AclManager B) (conn : BrokerConnection)
    (shv_path method source : Bytes) : Except Bytes Subscription × AclManager B :=
  match conn with
  | client _ userName =>
    match m.accessGrantForShvPath userName shv_path method false .none with
    | (.error e, m) => (.error (ascii e), m)
    | (.ok acg, m) =>
      if acg.accessLevel.toInt < AccessLevel.Read.toInt then
        (.error (signalNotGranted shv_path method userName), m)
      else (.ok (.new shv_path method source), m)
  | masterBroker exportedShvPath =>
    (.ok (.new (masterExportedToLocalPath exportedShvPath shv_path) method source), m)

end BrokerConnection

/-! ## the paths of the master broker -/

section

variable {exportedShvPath path : Bytes}

/-- Outside the directory `.broker` a path of the master broker is one below the exported
path. -/
theorem masterExportedToLocalPath_eq_join (hne : exportedShvPath ≠ [])
    (hexported : TrimmedPath exportedShvPath) (hpath : TrimmedPath path)
    (hbroker : startsWithPath path DIR_BROKER = false) :
    masterExportedToLocalPath exportedShvPath path =
      DirPath.join SHV_PATH_DELIM exportedShvPath path := by
  rw [masterExportedToLocalPath, if_neg hne, if_neg (by simp [hbroker]),
    joinPath_eq_join hexported.2 hpath.1]

theorem localPathToMasterExported_self (hne : exportedShvPath ≠ []) :
    localPathToMasterExported exportedShvPath exportedShvPath = [] := by
  simp only [localPathToMasterExported, if_neg hne, startsWithPathPos_self hne, List.drop_length]

theorem localPathToMasterExported_append_delim (hne : exportedShvPath ≠ []) (t : Bytes) :
    localPathToMasterExported exportedShvPath (exportedShvPath ++ SHV_PATH_DELIM :: t) = t := by
  simp only [localPathToMasterExported, if_neg hne, startsWithPathPos_append_delim hne]
  rw [List.append_cons, List.drop_left' (by simp)]

/-- The local path of the exported root and of what is below it leads back. -/
theorem localPathToMasterExported_join (hne : exportedShvPath ≠ []) (path : Bytes) :
    localPathToMasterExported exportedShvPath
      (DirPath.join SHV_PATH_DELIM exportedShvPath path) = path := by
  by_cases hpath : path = []
  · rw [hpath, DirPath.join_nil]
    exact localPathToMasterExported_self hne
  · rw [DirPath.join_of_ne_nil hne hpath]
    exact localPathToMasterExported_append_delim hne path

/-- Paths of the master broker outside the directory `.broker` are led back from the tree of
the broker, and the signals of a subscription are given paths that lie below what was
subscribed. -/
theorem masterBroker_subscription {B : AclBackend} (m : AclManager B)
    (hne : exportedShvPath ≠ []) (hexported : TrimmedPath exportedShvPath)
    (hpath : TrimmedPath path) (hbroker : startsWithPath path DIR_BROKER = false) :
    localPathToMasterExported exportedShvPath
        (masterExportedToLocalPath exportedShvPath path) = path ∧
      ∀ method source, ∃ subs,
        ((BrokerConnection.masterBroker exportedShvPath).createSubscription m path method source).1 =
            .ok subs ∧
          ∀ signal_path signal_method signal_source,
            subs.matchSignal signal_path signal_method signal_source = true →
              BelowPath path
                ((BrokerConnection.masterBroker exportedShvPath).toSubscribedPath signal_path) := by
  have hjoin := masterExportedToLocalPath_eq_join hne hexported hpath hbroker
  have htrim := hexported.join hpath
  rw [hjoin]
  refine ⟨localPathToMasterExported_join hne path, fun method source => ⟨_, rfl, ?_⟩⟩
  intro signal_path signal_method signal_source hmatch
  have hstarts := Subscription.startsWithPath_of_matchSignal hmatch
  rw [Subscription.new_path, hjoin, Subscription.trimPath_of_trimmed htrim,
    startsWithPath_iff_below htrim.2] at hstarts
  rw [BrokerConnection.toSubscribedPath]
  obtain ⟨rfl, rfl⟩ | ⟨t, rfl, ht⟩ := DirPath.below_join hne hstarts
  · exact .inl rfl
  · rw [localPathToMasterExported_append_delim hne]
    exact ht

end

/-- A device of the master broker whose signals come from below an exported directory. -/
theorem masterBroker_subscription_device :
    localPathToMasterExported (ascii "site")
        (masterExportedToLocalPath (ascii "site") (ascii "dev/temp")) = ascii "dev/temp" ∧
      BelowPath (ascii "dev/temp")
        ((BrokerConnection.masterBroker (ascii "site")).toSubscribedPath
          (ascii "site/dev/temp/inside")) := by
  let m : AclManager .configFiles := ⟨⟨[], [], [], []⟩, .empty, [], []⟩
  have h := @masterBroker_subscription (ascii "site") (ascii "dev/temp") _ m (by decide)
    ⟨by decide, by decide⟩ ⟨by decide, by decide⟩ (by decide)
  obtain ⟨subs, hsubs, hsignal⟩ := h.2 [] []
  obtain rfl := Except.ok.inj hsubs
  exact ⟨h.1, hsignal _ [] [] (by decide)⟩

end LibShv
