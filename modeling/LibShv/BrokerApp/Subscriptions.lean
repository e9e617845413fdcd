import LibShv.CommonRpcClientHandle
import Mathlib.Data.List.TakeWhile

/-!
# LibShv.BrokerApp.Subscriptions

The connections of the broker and their subscriptions (`brokerapp.cpp`):
subscribing and unsubscribing by the id of a connection, and what is passed on to
the slave brokers (`clientconnectiononbroker.cpp`).
-/

namespace LibShv

/-! ## slave brokers -/

/-- A call of `callMethodSubscribe` on the connection to a slave broker. -/
structure SubscribeCall where
  connectionId : Int32
  path : Bytes
  method : Bytes
deriving DecidableEq

/-- The path that `propagateSubscriptionToSlaveBroker` subscribes on a slave broker with a
mount point, if it subscribes one. -/
def slavePath (mount_point subs_path : Bytes) : Option Bytes :=
  if startsWithPath subs_path mount_point then
    match subs_path.drop mount_point.length with
    | [] => some []
    | c :: slave_path => if c = SHV_PATH_DELIM then some slave_path else none
  else if startsWithPath mount_point subs_path ∧
      (mount_point.length = subs_path.length ∨
        mount_point[subs_path.length]? = some SHV_PATH_DELIM) then some []
  else none

namespace CommonRpcClientHandle

def isSlaveBrokerConnection (handle : CommonRpcClientHandle) : Bool :=
  match handle.conn with
  | .client isSlave _ => isSlave
  | .masterBroker _ => false

/-- `ClientConnectionOnBroker::propagateSubscriptionToSlaveBroker`. -/
def propagateSubscriptionToSlaveBroker (handle : CommonRpcClientHandle) (subs : Subscription) :
    Option SubscribeCall :=
  if handle.isSlaveBrokerConnection then
    (slavePath handle.mountPoint subs.path).map (⟨handle.connectionId, ·, subs.method⟩)
  else none

end CommonRpcClientHandle

/-! ## the broker -/

/-- `BrokerApp`: the access control and the connections, in the order of
`allClientConnections`. -/
structure BrokerApp (B : AclBackend) where
  aclManager : AclManager B
  allClientConnections : List CommonRpcClientHandle

namespace BrokerApp

variable {B : AclBackend}

/-- `commonClientConnectionById`. -/
def commonClientConnectionById (app : BrokerApp B) (connection_id : Int32) :
    Option CommonRpcClientHandle :=
  app.allClientConnections.find? (·.connectionId = connection_id)

/-- The handle with the id, changed in its place. -/
def updateHandle (connection_id : Int32) (f : CommonRpcClientHandle → CommonRpcClientHandle) :
    List CommonRpcClientHandle → List CommonRpcClientHandle
  | [] => []
  | handle :: handles =>
    if handle.connectionId = connection_id then f handle :: handles
    else handle :: updateHandle connection_id f handles

/-- `BrokerApp::addSubscription`: the calls to the slave brokers, or the exception. -/
def addSubscription (app : BrokerApp B) (client_id : Int32) (shv_path method source : Bytes) :
    Except Bytes (List SubscribeCall) × BrokerApp B :=
  match app.commonClientConnectionById client_id with
  | none => (.error (ascii "Cannot create subscription, invalid connection ID."), app)
  | some connection_handle =>
    match connection_handle.conn.createSubscription app.aclManager shv_path method source with
    | (.error e, m) => (.error e, { app with aclManager := m })
    | (.ok subs, m) =>
      let handles :=
        updateHandle client_id (·.addSubscription subs |>.2) app.allClientConnections
      (.ok (handles.filterMap (·.propagateSubscriptionToSlaveBroker subs)),
        { aclManager := m, allClientConnections := handles })

/-- `BrokerApp::removeSubscription`. -/
def removeSubscription (app : BrokerApp B) (client_id : Int32) (shv_path method source : Bytes) :
    Except Bytes Bool × BrokerApp B :=
  match app.commonClientConnectionById client_id with
  | none => (.error (ascii "Connot remove subscription, client doesn't exist."), app)
  | some conn =>
    let subs := Subscription.new shv_path method source
    (.ok (conn.removeSubscription subs).1,
      { app with
        allClientConnections :=
          updateHandle client_id (·.removeSubscription subs |>.2) app.allClientConnections })

/-! ## the handle with an id -/

theorem mem_updateHandle {connection_id : Int32}
    {f : CommonRpcClientHandle → CommonRpcClientHandle} {handles : List CommonRpcClientHandle}
    {h : CommonRpcClientHandle} (hmem : h ∈ updateHandle connection_id f handles) :
    h ∈ handles ∨
      ∃ handle ∈ handles, handles.find? (·.connectionId = connection_id) = some handle ∧
        h = f handle := by
  induction handles with
  | nil => simp [updateHandle] at hmem
  | cons hd handles ih =>
    rw [updateHandle] at hmem
    by_cases hid : hd.connectionId = connection_id
    · rw [if_pos hid] at hmem
      rw [List.find?_cons_of_pos (by simpa using hid)]
      obtain rfl | hmem := List.mem_cons.mp hmem
      · exact .inr ⟨hd, List.mem_cons_self, rfl, rfl⟩
      · exact .inl (List.mem_cons_of_mem _ hmem)
    · rw [if_neg hid] at hmem
      rw [List.find?_cons_of_neg (by simpa using hid)]
      obtain rfl | hmem := List.mem_cons.mp hmem
      · exact .inl List.mem_cons_self
      · obtain hmem | ⟨handle, hhandle, hfind, rfl⟩ := ih hmem
        · exact .inl (List.mem_cons_of_mem _ hmem)
        · exact .inr ⟨handle, List.mem_cons_of_mem _ hhandle, hfind, rfl⟩

theorem map_connectionId_updateHandle {connection_id : Int32}
    {f : CommonRpcClientHandle → CommonRpcClientHandle}
    (hf : ∀ handle, (f handle).connectionId = handle.connectionId)
    (handles : List CommonRpcClientHandle) :
    (updateHandle connection_id f handles).map (·.connectionId) =
      handles.map (·.connectionId) := by
  induction handles with
  | nil => rfl
  | cons hd handles ih =>
    rw [updateHandle]
    by_cases hid : hd.connectionId = connection_id
    · simp [hid, hf]
    · simp [hid, ih]

/-- Erasing from a list with a new element at its end gives the list back exactly if the new
element is erased. -/
theorem erase_append_singleton_eq_iff {α : Type} [DecidableEq α] {x y : α} {xs : List α}
    (h : x ∉ xs) : y ∈ xs ++ [x] ∧ (xs ++ [x]).erase y = xs ↔ y = x := by
  constructor
  · rintro ⟨hy, herase⟩
    refine Decidable.byContradiction fun hne => ?_
    have hmem : y ∈ xs := by simpa [hne] using hy
    rw [List.erase_append_left _ hmem] at herase
    apply h
    rw [← herase]
    simp
  · rintro rfl
    simp [List.erase_append_right _ h]

theorem find?_updateHandle {connection_id : Int32} {handle : CommonRpcClientHandle}
    {f : CommonRpcClientHandle → CommonRpcClientHandle}
    (hf : (f handle).connectionId = handle.connectionId) {handles : List CommonRpcClientHandle}
    (h : handles.find? (·.connectionId = connection_id) = some handle) :
    (updateHandle connection_id f handles).find? (·.connectionId = connection_id) =
      some (f handle) := by
  induction handles with
  | nil => contradiction
  | cons hd handles ih =>
    rw [updateHandle]
    by_cases hid : hd.connectionId = connection_id
    · rw [List.find?_cons_of_pos (by simpa using hid)] at h
      obtain rfl := Option.some.inj h
      rw [if_pos hid, List.find?_cons_of_pos (by simpa [hf] using hid)]
    · rw [List.find?_cons_of_neg (by simpa using hid)] at h
      rw [if_neg hid, List.find?_cons_of_neg (by simpa using hid)]
      exact ih h

end BrokerApp

namespace CommonRpcClientHandle

variable {handle : CommonRpcClientHandle} {subs : Subscription}

theorem cmpSubscribed_eq_beq (subs : Subscription) : subs.cmpSubscribed = (subs == ·) := by
  funext o
  rw [Bool.eq_iff_iff, Subscription.cmpSubscribed_iff, beq_iff_eq]

/-- Adding a subscription changes the subscriptions only. -/
theorem addSubscription_eq (handle : CommonRpcClientHandle) (subs : Subscription) :
    ∃ m_subscriptions, (handle.addSubscription subs).2 = { handle with m_subscriptions } ∧
      ∀ o ∈ m_subscriptions, o ∈ handle.m_subscriptions ∨ o = subs := by
  rw [addSubscription]
  cases hidx : handle.m_subscriptions.findIdx? subs.cmpSubscribed with
  | none => exact ⟨_, rfl, by simp⟩
  | some ix => exact ⟨_, rfl, fun o ho => List.mem_or_eq_of_mem_set ho⟩

/-- A subscription that is not there is added at the end. -/
theorem addSubscription_of_notMem (h : subs ∉ handle.m_subscriptions) :
    (handle.addSubscription subs).2 =
      { handle with m_subscriptions := handle.m_subscriptions ++ [subs] } := by
  have hidx : handle.m_subscriptions.findIdx? subs.cmpSubscribed = none := by
    rw [List.findIdx?_eq_none_iff]
    intro o ho
    rw [cmpSubscribed_eq_beq, beq_eq_false_iff_ne]
    exact fun heq => h (heq ▸ ho)
  rw [addSubscription, hidx]

/-- The first subscription that is the same is removed. -/
theorem removeSubscription_eq (handle : CommonRpcClientHandle) (subs : Subscription) :
    handle.removeSubscription subs =
      (decide (subs ∈ handle.m_subscriptions),
        { handle with m_subscriptions := handle.m_subscriptions.erase subs }) := by
  have herase : handle.m_subscriptions.erase subs =
      handle.m_subscriptions.eraseP subs.cmpSubscribed := by
    rw [List.erase_eq_eraseP, cmpSubscribed_eq_beq]
  rw [removeSubscription, herase, List.eraseP_eq_eraseIdx]
  cases hidx : handle.m_subscriptions.findIdx? subs.cmpSubscribed with
  | none =>
    rw [cmpSubscribed_eq_beq, List.findIdx?_eq_none_iff] at hidx
    have hnot : subs ∉ handle.m_subscriptions := fun hmem => by simpa using hidx subs hmem
    simp [hnot]
  | some ix =>
    obtain ⟨hlt, hcmp, -⟩ := List.findIdx?_eq_some_iff_getElem.mp hidx
    have hmem : subs ∈ handle.m_subscriptions := by
      rw [Subscription.cmpSubscribed_iff.mp hcmp]
      exact List.getElem_mem hlt
    simp [hmem]

end CommonRpcClientHandle

/-! ## unsubscribing -/

namespace BrokerConnection

/-- The local path of a subscription. -/
def subscriptionPath : BrokerConnection → Bytes → Bytes
  | client _ _, shv_path => shv_path
  | masterBroker exportedShvPath, shv_path => masterExportedToLocalPath exportedShvPath shv_path

/-- The subscription that the connection makes, if it makes one. -/
def subscriptionFor (conn : BrokerConnection) (shv_path method source : Bytes) : Subscription :=
  .new (conn.subscriptionPath shv_path) method source

theorem createSubscription_ok {B : AclBackend} {m m' : AclManager B} {conn : BrokerConnection}
    {shv_path method source : Bytes} {subs : Subscription}
    (h : conn.createSubscription m shv_path method source = (.ok subs, m')) :
    subs = conn.subscriptionFor shv_path method source := by
  cases conn with
  | masterBroker exportedShvPath => exact (Except.ok.inj (congrArg Prod.fst h)).symm
  | client isSlave userName =>
    rw [createSubscription] at h
    cases hacl : m.accessGrantForShvPath userName shv_path method false .none with
    | mk r m₁ =>
      rw [hacl] at h
      cases r with
      | error e => simp at h
      | ok acg =>
        simp only at h
        by_cases hlevel : acg.accessLevel.toInt < AccessLevel.Read.toInt
        · simp [hlevel] at h
        · rw [if_neg hlevel] at h
          exact (Except.ok.inj (congrArg Prod.fst h)).symm

/-- The connection subscribes a path as it is given: it is not that of a master broker with an
exported path, or the path is one of the broker itself. -/
def KeepsPath (conn : BrokerConnection) (shv_path : Bytes) : Prop :=
  match conn with
  | client _ _ => True
  | masterBroker exportedShvPath =>
    (∀ c ∈ exportedShvPath, c = SHV_PATH_DELIM) ∨ startsWithPath shv_path DIR_BROKER = true

end BrokerConnection

namespace Subscription

/-- Behind a directory with a name in it a path is longer than before. -/
theorem length_trimPath_joinPath {dir path : Bytes} (hdir : ¬ ∀ c ∈ dir, c = SHV_PATH_DELIM)
    (hpath : TrimmedPath path) : path.length < (trimPath (joinPath dir path)).length := by
  let p : UInt8 → Bool := (· = SHV_PATH_DELIM)
  generalize hsv : (dir.reverse.dropWhile p).reverse = sv
  have hlast : sv.getLast? ≠ some SHV_PATH_DELIM := by
    rw [← hsv, List.getLast?_reverse]
    intro h
    have hhead := List.head?_dropWhile_not p dir.reverse
    rw [h] at hhead
    simp [p] at hhead
  have hname : sv.dropWhile p ≠ [] := by
    intro hnil
    apply hdir
    have hall : ∀ c ∈ sv, p c = true := List.dropWhile_eq_nil_iff.mp hnil
    cases hdrop : dir.reverse.dropWhile p with
    | nil =>
      intro c hc
      simpa [p] using List.dropWhile_eq_nil_iff.mp hdrop c (List.mem_reverse.mpr hc)
    | cons x xs =>
      have hhead := List.head?_dropWhile_not p dir.reverse
      have hx : p x = true := hall x (by rw [← hsv, hdrop]; simp)
      rw [hdrop] at hhead
      simp only [List.head?_cons] at hhead
      rw [hx] at hhead
      contradiction
  have hne : sv ≠ [] := by
    rintro rfl
    exact hname rfl
  have hjoin : joinPath dir path = DirPath.join SHV_PATH_DELIM sv path := by
    rw [joinPath, dropWhile_delim hpath.1, ← hsv]
    rfl
  rw [hjoin]
  by_cases hnil : path = []
  · rw [hnil, DirPath.join_nil, trimPath_of_getLast? hlast]
    exact List.length_pos_iff.mpr hname
  · have hlast' : (sv ++ SHV_PATH_DELIM :: path).getLast? ≠ some SHV_PATH_DELIM := by
      rw [List.getLast?_append, List.getLast?_cons]
      cases hg : path.getLast? with
      | none => simp [List.getLast?_eq_none_iff.mp hg] at hnil
      | some c =>
        have hc := hpath.2
        rw [hg] at hc
        simpa using hc
    rw [DirPath.join_of_ne_nil hne hnil, trimPath_of_getLast? hlast', List.dropWhile_append]
    have hempty : (sv.dropWhile p).isEmpty = false := by simpa using hname
    rw [hempty]
    simp
    omega

/-- The subscription that is made has the path it was asked for exactly if the connection
keeps paths. -/
theorem subscriptionFor_eq_new_iff {conn : BrokerConnection} {shv_path : Bytes}
    (hpath : TrimmedPath shv_path) (method source : Bytes) :
    new shv_path method source = conn.subscriptionFor shv_path method source ↔
      conn.KeepsPath shv_path := by
  have hiff : new shv_path method source = conn.subscriptionFor shv_path method source ↔
      shv_path = trimPath (conn.subscriptionPath shv_path) := by
    rw [Subscription.ext_iff]
    simp [BrokerConnection.subscriptionFor, trimPath_of_trimmed hpath]
  rw [hiff]
  cases conn with
  | client isSlave userName =>
    simp [BrokerConnection.subscriptionPath, BrokerConnection.KeepsPath, trimPath_of_trimmed hpath]
  | masterBroker exported =>
    rw [BrokerConnection.subscriptionPath, BrokerConnection.KeepsPath, masterExportedToLocalPath]
    by_cases hnil : exported = []
    · simp [hnil, trimPath_of_trimmed hpath]
    · rw [if_neg hnil]
      by_cases hbroker : startsWithPath shv_path DIR_BROKER = true
      · simp [hbroker, trimPath_of_trimmed hpath]
      · rw [if_neg hbroker]
        by_cases hslash : ∀ c ∈ exported, c = SHV_PATH_DELIM
        · have hjoin : joinPath exported shv_path = shv_path := by
            have hsv : exported.reverse.dropWhile (· = SHV_PATH_DELIM) = [] := by
              rw [List.dropWhile_eq_nil_iff]
              simpa using hslash
            rw [joinPath, hsv, dropWhile_delim hpath.1]
            by_cases hempty : shv_path = []
            · simp [hempty]
            · simp [hempty]
          simp only [hjoin, trimPath_of_trimmed hpath, true_iff]
          exact .inl hslash
        · have hlen := length_trimPath_joinPath hslash hpath
          constructor
          · intro heq
            rw [← heq] at hlen
            exact absurd hlen (Nat.lt_irrefl _)
          · rintro (h | h)
            · contradiction
            · contradiction

end Subscription

namespace BrokerApp

variable {B : AclBackend}

/-- A subscription that was added leaves the rest of the connection as it was. -/
theorem addSubscription_ok {app : BrokerApp B} {client_id : Int32} {shv_path method source : Bytes}
    {handle : CommonRpcClientHandle} {calls : List SubscribeCall}
    (hhandle : app.commonClientConnectionById client_id = some handle)
    (h : (app.addSubscription client_id shv_path method source).1 = .ok calls) :
    (app.addSubscription client_id shv_path method source).2.commonClientConnectionById client_id =
      some (handle.addSubscription (handle.conn.subscriptionFor shv_path method source)).2 := by
  rw [addSubscription, hhandle] at h ⊢
  simp only at h ⊢
  cases hcreate : handle.conn.createSubscription app.aclManager shv_path method source with
  | mk r m =>
    rw [hcreate] at h
    cases r with
    | error e => contradiction
    | ok subs =>
      obtain rfl := BrokerConnection.createSubscription_ok hcreate
      refine find?_updateHandle ?_ hhandle
      obtain ⟨m_subscriptions, heq, -⟩ := handle.addSubscription_eq
        (handle.conn.subscriptionFor shv_path method source)
      rw [heq]

/-- What a subscription made for some arguments is undone by, with the same arguments:
removal succeeds and the subscriptions of the connection are as they were. -/
def Undone (app : BrokerApp B) (client_id : Int32) (shv_path method source : Bytes)
    (handle : CommonRpcClientHandle) : Prop :=
  let added := (app.addSubscription client_id shv_path method source).2
  let removed := added.removeSubscription client_id shv_path method source
  removed.1 = .ok true ∧
    (removed.2.commonClientConnectionById client_id).map (·.m_subscriptions) =
      some handle.m_subscriptions

/-- A new subscription is undone by unsubscribing exactly if the connection subscribes paths as
they are given. -/
theorem undone_iff_keepsPath {app : BrokerApp B} {client_id : Int32}
    {shv_path method source : Bytes} {handle : CommonRpcClientHandle} {calls : List SubscribeCall}
    (hhandle : app.commonClientConnectionById client_id = some handle)
    (hadded : (app.addSubscription client_id shv_path method source).1 = .ok calls)
    (hpath : TrimmedPath shv_path)
    (hnew : handle.conn.subscriptionFor shv_path method source ∉ handle.m_subscriptions) :
    Undone app client_id shv_path method source handle ↔ handle.conn.KeepsPath shv_path := by
  rw [← Subscription.subscriptionFor_eq_new_iff hpath method source, Undone]
  generalize hsubs : handle.conn.subscriptionFor shv_path method source = subs at hnew
  have hfind := addSubscription_ok hhandle hadded
  rw [hsubs, CommonRpcClientHandle.addSubscription_of_notMem hnew] at hfind
  simp only [removeSubscription, hfind, CommonRpcClientHandle.removeSubscription_eq]
  have hfind' := find?_updateHandle
    (f := (·.removeSubscription (.new shv_path method source) |>.2)) (by
      rw [CommonRpcClientHandle.removeSubscription_eq]) hfind
  simp only [CommonRpcClientHandle.removeSubscription_eq] at hfind'
  rw [commonClientConnectionById, hfind']
  simp only [Except.ok.injEq, decide_eq_true_eq, Option.map_some, Option.some.injEq]
  exact erase_append_singleton_eq_iff hnew

/-! ### a master broker with an exported path -/

/-- A connection to a master broker that sees the directory `site`. -/
def siteMaster : CommonRpcClientHandle := ⟨1, .masterBroker (ascii "site"), [], true, []⟩

def siteBroker : BrokerApp .configFiles where
  aclManager := ⟨⟨[], [], [], []⟩, .empty, [], []⟩
  allClientConnections := [siteMaster]

/-- A subscription to a path of the broker itself is undone. -/
theorem undone_siteBroker :
    Undone siteBroker 1 (ascii ".broker/app") (ascii "chng") [] siteMaster :=
  (@undone_iff_keepsPath _ siteBroker 1 _ _ [] siteMaster [] rfl rfl ⟨by decide, by decide⟩ (by decide)).mpr
    (.inr (by decide))

/-- The subscription to `dev` is kept for `site/dev`, and `dev` is what is looked for. -/
theorem not_undone_siteBroker :
    siteBroker.commonClientConnectionById 1 = some siteMaster ∧
      (siteBroker.addSubscription 1 (ascii "dev") (ascii "chng") []).1 = .ok [] ∧
      TrimmedPath (ascii "dev") ∧ siteMaster.m_subscriptions = [] ∧
      ((siteBroker.addSubscription 1 (ascii "dev") (ascii "chng") []).2.removeSubscription 1
        (ascii "dev") (ascii "chng") []).1 = .ok false ∧
      ¬ Undone siteBroker 1 (ascii "dev") (ascii "chng") [] siteMaster := by
  refine ⟨rfl, rfl, ⟨by decide, by decide⟩, rfl, rfl, ?_⟩
  intro h
  have hfalse : Except.ok false = (Except.ok true : Except Bytes Bool) := h.1
  simp at hfalse

end BrokerApp

end LibShv
