import LibShv.AclManager.Access
import LibShv.RpcMessage.CallerIds
import LibShv.RpcValue.As

/-!
# LibShv.BrokerApp

How the broker passes on a request (`brokerapp.cpp`): the path and the metadata
are prepared for the kind of connection, the grant is computed, and the request
goes to the tree of nodes with the grant in its metadata. The exception that is
turned into an error response is the error of the result.
-/

namespace LibShv

def Tag_ShvPath : Int32 := 9
def Tag_UserId : Int32 := 16

namespace RpcMetaData

/-- `RpcMessage::shvPath`. -/
def shvPath (md : RpcMetaData) : RpcValue := md.valueOf Tag_ShvPath

/-- `RpcMessage::setShvPath`. -/
def setShvPath (md : RpcMetaData) (path : Bytes) : RpcMetaData :=
  md.setIValue Tag_ShvPath (.ofVariant (.string path))

/-- `RpcMessage::method`. -/
def method (md : RpcMetaData) : RpcValue := md.valueOf Tag_Method

/-- `RpcMessage::userId`. -/
def userId (md : RpcMetaData) : RpcValue := md.valueOf Tag_UserId

/-- `RpcMessage::setUserId`. -/
def setUserId (md : RpcMetaData) (user_id : RpcValue) : RpcMetaData :=
  md.setIValue Tag_UserId user_id

/-- The path under which `ShvNode::handleRpcFrame` looks for a node. -/
def dispatchPath (md : RpcMetaData) : Bytes := md.shvPath.asString

/-- The method which `ShvNode::handleRpcFrame` looks for. -/
def dispatchMethod (md : RpcMetaData) : Bytes := md.method.toString

end RpcMetaData

/-! ## connections -/

def DIR_BROKER : Bytes := ascii ".broker"
def LOCAL_NODE_HACK : Bytes := ascii ".local"
def ADD_LOCAL_TO_LS_RESULT_HACK_META_KEY : Bytes := ascii "__add_local_to_ls_hack"
def KEY_SHV_USER : Bytes := ascii "shvUser"
def KEY_BROKER_ID : Bytes := ascii "brokerId"

/-- A connection of the broker, to a client (which may be a slave broker) or to
the master broker. -/
inductive BrokerConnection where
  | client (isSlaveBrokerConnection : Bool) (userName : Bytes)
  | masterBroker (exportedShvPath : Bytes)

namespace BrokerConnection

/-- `loggedUserName`: nobody on the connection to the master broker. -/
def loggedUserName : BrokerConnection → Bytes
  | client _ userName => userName
  | masterBroker _ => []

def isMasterBrokerConnection : BrokerConnection → Bool
  | client _ _ => false
  | masterBroker _ => true

end BrokerConnection

/-- `MasterBrokerConnection::masterExportedToLocalPath`. -/
def masterExportedToLocalPath (exportedShvPath master_path : Bytes) : Bytes :=
  if exportedShvPath = [] then master_path
  else if startsWithPath master_path DIR_BROKER then master_path
  else joinPath exportedShvPath master_path

/-- The lambda `has_dot_local_access`. -/
def hasDotLocalAccess (md : RpcMetaData) : Except String Bool := do
  let access_grant ← md.accessGrant
  if access_grant.accessLevel.toInt < AccessLevel.SuperService.toInt then
    return (splitComma access_grant.access).contains (ascii "dot_local")
  else return true

/-- Whether the listing of the exported root gets a directory `.local`. -/
def addLocalToLsResult (shv_path : Bytes) (md : RpcMetaData) : Except String Bool :=
  if shv_path = [] ∧ md.method.isString ∧ md.method.asString = ascii "ls" then hasDotLocalAccess md
  else .ok false

/-! ## requests -/

/-- The metadata of a request as they are authorised: a client gives its name and
no grant, and the paths of the master broker are turned into local ones. -/
def BrokerConnection.prepare (conn : BrokerConnection) (brokerId shv_path : Bytes) (md : RpcMetaData) :
    Except String RpcMetaData :=
  match conn with
  | client false userName => do
    let ag ← md.accessGrant
    let md := if AccessLevel.None.toInt < ag.accessLevel.toInt then md.setAccessGrant .none else md
    let m := SortedMap.insert KEY_SHV_USER (.ofVariant (.string userName)) md.userId.asMap
    let m := SortedMap.insert KEY_BROKER_ID (.ofVariant (.string brokerId)) m
    return md.setUserId (.ofVariant (.map m))
  | client true _ => return md
  | masterBroker exportedShvPath => do
    if startsWithPath shv_path LOCAL_NODE_HACK then
      if ← hasDotLocalAccess md then return md.setShvPath (takeFirsDir shv_path)
      else throw "Insufficient access rights to make call on node: .local"
    else
      let md := if ← addLocalToLsResult shv_path md then
          md.setSValue ADD_LOCAL_TO_LS_RESULT_HACK_META_KEY (.ofVariant (.bool true))
        else md
      return md.setShvPath (masterExportedToLocalPath exportedShvPath shv_path)

/-- The id of the connection is registered for a way back, if the request asks for it. -/
def RpcMetaData.registerRevCallerId (md : RpcMetaData) (connection_id : Int32) :
    Except String RpcMetaData :=
  if md.hasKey Tag_RevCallerIds then md.pushRevCallerId connection_id else .ok md

/-- A request on its way to the tree of nodes: the path and the method for which
it was authorised, the grant, and its metadata. -/
structure Dispatched where
  shv_path : Bytes
  method : Bytes
  acg : AccessGrant
  md : RpcMetaData

/-- The text of the exception when the access level of the grant is `None`. -/
def notGranted (shv_path user_name : Bytes) : Bytes :=
  ascii "Acces to shv path '" ++ shv_path ++ ascii "' not granted for user '" ++ user_name ++
    ascii "'"

/-- `BrokerApp::onRpcFrameReceived` for a request on a connection that exists; the
error is the text of the exception. -/
def onRpcRequestReceived {B : AclBackend} (brokerId : Bytes) (m : AclManager B)
    (connection_id : Int32) (conn : BrokerConnection) (md : RpcMetaData) :
    Except Bytes Dispatched × AclManager B :=
  let prepared : Except String (RpcMetaData × Bytes × Bytes × AccessGrant) := do
    let md ← md.registerRevCallerId connection_id
    let shv_path := md.shvPath.toString
    let md ← conn.prepare brokerId shv_path md
    let method := md.method.asString
    return (md, shv_path, method, ← md.accessGrant)
  match prepared with
  | .error e => (.error (ascii e), m)
  | .ok (md, shv_path, method, access_grant) =>
    match m.accessGrantForShvPath conn.loggedUserName shv_path method
        conn.isMasterBrokerConnection access_grant with
    | (.error e, m) => (.error (ascii e), m)
    | (.ok acg, m) =>
      if AccessLevel.None.toInt < acg.accessLevel.toInt then
        let md := if acg.accessLevel.toInt < AccessLevel.Write.toInt then md.setUserId .invalid
          else md
        match (md.setAccessGrant acg).pushCallerId connection_id with
        | .error e => (.error (ascii e), m)
        | .ok md => (.ok ⟨shv_path, method, acg, md⟩, m)
      else (.error (notGranted shv_path conn.loggedUserName), m)

/-! ## what the steps change -/

namespace RpcMetaData

variable {md md' : RpcMetaData}

/-- The grant is read from two values. -/
theorem accessGrant_congr (haccess : md'.valueOf Tag_Access = md.valueOf Tag_Access)
    (hlevel : md'.valueOf Tag_AccessLevel = md.valueOf Tag_AccessLevel) :
    md'.accessGrant = md.accessGrant := by
  rw [accessGrant, accessGrant, access, access, accessLevel, accessLevel, haccess, hlevel]

theorem valueOf_setAccessGrant_of_ne {key : Int32} (haccess : key ≠ Tag_Access)
    (hlevel : key ≠ Tag_AccessLevel) (ag : AccessGrant) :
    (md.setAccessGrant ag).valueOf key = md.valueOf key := by
  rw [setAccessGrant, setAccess, valueOf_setIValue_of_ne haccess, setAccessLevel,
    valueOf_setIValue_of_ne hlevel]

theorem sorted_setAccessGrant (h : SortedMap.Sorted md.iValues) (ag : AccessGrant) :
    SortedMap.Sorted (md.setAccessGrant ag).iValues :=
  sorted_setIValue (sorted_setIValue h _ _) _ _

end RpcMetaData

namespace BrokerConnection

/-- The path of a request in the tree of the broker. -/
def localPath : BrokerConnection → Bytes → Bytes
  | client _ _, shv_path => shv_path
  | masterBroker exportedShvPath, shv_path =>
    if startsWithPath shv_path LOCAL_NODE_HACK then takeFirsDir shv_path
    else masterExportedToLocalPath exportedShvPath shv_path

/-- Preparing a request of a client leaves its path and its method alone. -/
theorem prepare_client {isSlave : Bool} {userName brokerId shv_path : Bytes}
    {md md' : RpcMetaData} (hsort : SortedMap.Sorted md.iValues)
    (h : (client isSlave userName).prepare brokerId shv_path md = .ok md') :
    SortedMap.Sorted md'.iValues ∧ md'.shvPath = md.shvPath ∧ md'.method = md.method := by
  cases isSlave with
  | true =>
    obtain rfl := Except.ok.inj h
    exact ⟨hsort, rfl, rfl⟩
  | false =>
    rw [prepare] at h
    cases hag : md.accessGrant with
    | error e =>
      rw [hag] at h
      contradiction
    | ok ag =>
      rw [hag] at h
      obtain rfl := Except.ok.inj h
      rw [RpcMetaData.shvPath, RpcMetaData.method, RpcMetaData.setUserId,
        RpcMetaData.valueOf_setIValue_of_ne (by decide),
        RpcMetaData.valueOf_setIValue_of_ne (by decide)]
      by_cases hlevel : AccessLevel.None.toInt < ag.accessLevel.toInt
      · rw [if_pos hlevel]
        exact ⟨RpcMetaData.sorted_setIValue (RpcMetaData.sorted_setAccessGrant hsort _) _ _,
          RpcMetaData.valueOf_setAccessGrant_of_ne (by decide) (by decide) _,
          RpcMetaData.valueOf_setAccessGrant_of_ne (by decide) (by decide) _⟩
      · rw [if_neg hlevel]
        exact ⟨RpcMetaData.sorted_setIValue hsort _ _, rfl, rfl⟩

/-- Preparing a request of the master broker sets the local path and nothing else that is
looked at. -/
theorem prepare_masterBroker {exportedShvPath brokerId shv_path : Bytes} {md md' : RpcMetaData}
    (hsort : SortedMap.Sorted md.iValues)
    (h : (masterBroker exportedShvPath).prepare brokerId shv_path md = .ok md') :
    SortedMap.Sorted md'.iValues ∧
      md'.dispatchPath = (masterBroker exportedShvPath).localPath shv_path ∧
      md'.method = md.method ∧ md'.accessGrant = md.accessGrant := by
  have hset : ∀ (md₁ : RpcMetaData) (path : Bytes), md₁.iValues = md.iValues →
      SortedMap.Sorted (md₁.setShvPath path).iValues ∧
        (md₁.setShvPath path).dispatchPath = path ∧
        (md₁.setShvPath path).method = md.method ∧
        (md₁.setShvPath path).accessGrant = md.accessGrant := by
    intro md₁ path hmd₁
    have hsort₁ : SortedMap.Sorted md₁.iValues := by rw [hmd₁]; exact hsort
    have hval : ∀ key, md₁.valueOf key = md.valueOf key := by
      intro key
      rw [RpcMetaData.valueOf, hmd₁]
      rfl
    refine ⟨RpcMetaData.sorted_setIValue hsort₁ _ _, ?_, ?_, ?_⟩
    · rw [RpcMetaData.dispatchPath, RpcMetaData.shvPath, RpcMetaData.setShvPath,
        RpcMetaData.valueOf_setIValue_self hsort₁]
      rfl
    · exact (RpcMetaData.valueOf_setIValue_of_ne (by decide) _).trans (hval _)
    · exact RpcMetaData.accessGrant_congr
        ((RpcMetaData.valueOf_setIValue_of_ne (by decide) _).trans (hval _))
        ((RpcMetaData.valueOf_setIValue_of_ne (by decide) _).trans (hval _))
  rw [prepare] at h
  rw [localPath]
  by_cases hlocal : startsWithPath shv_path LOCAL_NODE_HACK = true
  · rw [if_pos hlocal] at h ⊢
    cases hdot : hasDotLocalAccess md with
    | error e => simp [hdot, bind, Except.bind] at h
    | ok b =>
      cases b with
      | false => simp [hdot, bind, Except.bind, throw, throwThe, MonadExceptOf.throw] at h
      | true =>
        rw [hdot] at h
        obtain rfl := Except.ok.inj h
        exact hset md _ rfl
  · rw [if_neg hlocal] at h ⊢
    cases hls : addLocalToLsResult shv_path md with
    | error e => simp [hls, bind, Except.bind] at h
    | ok b =>
      rw [hls] at h
      obtain rfl := Except.ok.inj h
      cases b with
      | true => exact hset _ _ rfl
      | false => exact hset md _ rfl

end BrokerConnection

/-! ## where a request goes -/

/-- What a request that is passed on went through. -/
structure Passed {B : AclBackend} (brokerId : Bytes) (m : AclManager B) (conn : BrokerConnection)
    (md : RpcMetaData) (d : Dispatched) (md₁ md₂ : RpcMetaData) (grant : AccessGrant) : Prop where
  registered : md₁ = md ∨ ∃ v, md₁ = md.setIValue Tag_RevCallerIds v
  prepared : conn.prepare brokerId md₁.shvPath.toString md₁ = .ok md₂
  access_grant : md₂.accessGrant = .ok grant
  shv_path : d.shv_path = md₁.shvPath.toString
  method : d.method = md₂.method.asString
  acg : (m.accessGrantForShvPath conn.loggedUserName d.shv_path d.method
    conn.isMasterBrokerConnection grant).1 = .ok d.acg
  granted : AccessLevel.None.toInt < d.acg.accessLevel.toInt
  written : ∃ md₃ v, (md₃ = md₂ ∨ md₃ = md₂.setUserId .invalid) ∧
    d.md = (md₃.setAccessGrant d.acg).setIValue Tag_CallerIds v

theorem onRpcRequestReceived_passed {B : AclBackend} {brokerId : Bytes} {m : AclManager B}
    {connection_id : Int32} {conn : BrokerConnection} {md : RpcMetaData} {d : Dispatched}
    (h : (onRpcRequestReceived brokerId m connection_id conn md).1 = .ok d) :
    ∃ md₁ md₂ grant, Passed brokerId m conn md d md₁ md₂ grant := by
  rw [onRpcRequestReceived] at h
  cases hreg : md.registerRevCallerId connection_id with
  | error e => simp [hreg, bind, Except.bind] at h
  | ok md₁ =>
    have hregistered : md₁ = md ∨ ∃ v, md₁ = md.setIValue Tag_RevCallerIds v := by
      rw [RpcMetaData.registerRevCallerId] at hreg
      by_cases hk : md.hasKey Tag_RevCallerIds = true
      · rw [if_pos hk] at hreg
        exact .inr (RpcMetaData.pushId_eq hreg)
      · rw [if_neg hk] at hreg
        exact .inl (Except.ok.inj hreg).symm
    cases hprep : conn.prepare brokerId md₁.shvPath.toString md₁ with
    | error e => simp [hreg, hprep, bind, Except.bind] at h
    | ok md₂ =>
      cases hgrant : md₂.accessGrant with
      | error e => simp [hreg, hprep, hgrant, bind, Except.bind] at h
      | ok grant =>
        simp only [hreg, hprep, hgrant, bind, Except.bind, pure, Except.pure] at h
        cases hacl : m.accessGrantForShvPath conn.loggedUserName md₁.shvPath.toString
            md₂.method.asString conn.isMasterBrokerConnection grant with
        | mk r m' =>
          rw [hacl] at h
          cases r with
          | error e => contradiction
          | ok acg =>
            simp only at h
            by_cases hlevel : AccessLevel.None.toInt < acg.accessLevel.toInt
            · rw [if_pos hlevel] at h
              generalize hmd₃ : (if acg.accessLevel.toInt < AccessLevel.Write.toInt then
                md₂.setUserId .invalid else md₂) = md₃ at h
              cases hpush : (md₃.setAccessGrant acg).pushCallerId connection_id with
              | error e =>
                rw [hpush] at h
                contradiction
              | ok md₄ =>
                rw [hpush] at h
                obtain rfl := Except.ok.inj h
                obtain ⟨v, hv⟩ := RpcMetaData.pushId_eq hpush
                refine ⟨md₁, md₂, grant, hregistered, hprep, hgrant, rfl, rfl,
                  congrArg Prod.fst hacl, hlevel, md₃, v, ?_, hv⟩
                rw [← hmd₃]
                by_cases hread : acg.accessLevel.toInt < AccessLevel.Write.toInt
                · rw [if_pos hread]
                  exact .inr rfl
                · rw [if_neg hread]
                  exact .inl rfl
            · rw [if_neg hlevel] at h
              contradiction

/-- The access written by `setAccessGrant` does not depend on what was there. -/
theorem RpcMetaData.valueOf_setAccessGrant {md md' : RpcMetaData}
    (h : SortedMap.Sorted md.iValues) (h' : SortedMap.Sorted md'.iValues) (ag : AccessGrant) :
    (md.setAccessGrant ag).valueOf Tag_Access = (md'.setAccessGrant ag).valueOf Tag_Access ∧
      (md.setAccessGrant ag).valueOf Tag_AccessLevel =
        (md'.setAccessGrant ag).valueOf Tag_AccessLevel := by
  have hsort : SortedMap.Sorted (md.setAccessLevel ag.accessLevel).iValues :=
    sorted_setIValue h _ _
  have hsort' : SortedMap.Sorted (md'.setAccessLevel ag.accessLevel).iValues :=
    sorted_setIValue h' _ _
  constructor
  · rw [setAccessGrant, setAccessGrant, setAccess, setAccess, valueOf_setIValue_self hsort,
      valueOf_setIValue_self hsort']
  · rw [setAccessGrant, setAccessGrant, setAccess, setAccess,
      valueOf_setIValue_of_ne (by decide), valueOf_setIValue_of_ne (by decide), setAccessLevel,
      setAccessLevel, valueOf_setIValue_self h, valueOf_setIValue_self h']

namespace Passed

variable {B : AclBackend} {brokerId : Bytes} {m : AclManager B} {conn : BrokerConnection}
  {md md₁ md₂ : RpcMetaData} {d : Dispatched} {grant : AccessGrant}

theorem valueOf_registered (h : Passed brokerId m conn md d md₁ md₂ grant) {key : Int32}
    (hkey : key ≠ Tag_RevCallerIds) : md₁.valueOf key = md.valueOf key := by
  obtain rfl | ⟨v, rfl⟩ := h.registered
  · rfl
  · exact RpcMetaData.valueOf_setIValue_of_ne hkey v

theorem sorted_registered (h : Passed brokerId m conn md d md₁ md₂ grant)
    (hsort : SortedMap.Sorted md.iValues) : SortedMap.Sorted md₁.iValues := by
  obtain rfl | ⟨v, rfl⟩ := h.registered
  · exact hsort
  · exact RpcMetaData.sorted_setIValue hsort _ v

/-- The metadata a request is passed on with hold the path and the method of the prepared
request, and the grant as it is written. -/
theorem written_values (h : Passed brokerId m conn md d md₁ md₂ grant)
    (hsort : SortedMap.Sorted md₂.iValues) :
    d.md.dispatchPath = md₂.dispatchPath ∧ d.md.dispatchMethod = md₂.dispatchMethod ∧
      d.md.accessGrant = .ok (.fromShv2Access d.acg.toShv2Access d.acg.accessLevel.toInt) := by
  obtain ⟨md₃, v, hmd₃, hd⟩ := h.written
  have hval : ∀ key, key ≠ Tag_UserId → md₃.valueOf key = md₂.valueOf key := by
    intro key hkey
    obtain rfl | rfl := hmd₃
    · rfl
    · exact RpcMetaData.valueOf_setIValue_of_ne hkey _
  have hsort₃ : SortedMap.Sorted md₃.iValues := by
    obtain rfl | rfl := hmd₃
    · exact hsort
    · exact RpcMetaData.sorted_setIValue hsort _ _
  rw [hd]
  refine ⟨?_, ?_, ?_⟩
  · rw [RpcMetaData.dispatchPath, RpcMetaData.shvPath,
      RpcMetaData.valueOf_setIValue_of_ne (by decide),
      RpcMetaData.valueOf_setAccessGrant_of_ne (by decide) (by decide), hval _ (by decide)]
    rfl
  · rw [RpcMetaData.dispatchMethod, RpcMetaData.method,
      RpcMetaData.valueOf_setIValue_of_ne (by decide),
      RpcMetaData.valueOf_setAccessGrant_of_ne (by decide) (by decide), hval _ (by decide)]
    rfl
  · rw [← accessGrant_setAccessGrant hsort₃]
    exact RpcMetaData.accessGrant_congr (RpcMetaData.valueOf_setIValue_of_ne (by decide) _)
      (RpcMetaData.valueOf_setIValue_of_ne (by decide) _)

/-- The access a request is passed on with is that of its grant. -/
theorem written_access (h : Passed brokerId m conn md d md₁ md₂ grant)
    (hsort : SortedMap.Sorted md₂.iValues) {md' : RpcMetaData}
    (hsort' : SortedMap.Sorted md'.iValues) :
    d.md.valueOf Tag_Access = (md'.setAccessGrant d.acg).valueOf Tag_Access ∧
      d.md.valueOf Tag_AccessLevel = (md'.setAccessGrant d.acg).valueOf Tag_AccessLevel := by
  obtain ⟨md₃, v, hmd₃, hd⟩ := h.written
  have hsort₃ : SortedMap.Sorted md₃.iValues := by
    obtain rfl | rfl := hmd₃
    · exact hsort
    · exact RpcMetaData.sorted_setIValue hsort _ _
  rw [hd, RpcMetaData.valueOf_setIValue_of_ne (by decide),
    RpcMetaData.valueOf_setIValue_of_ne (by decide)]
  exact RpcMetaData.valueOf_setAccessGrant hsort₃ hsort' d.acg

/-- What a client connection asks the access control for. -/
theorem acg_client (h : Passed brokerId m conn md d md₁ md₂ grant)
    (hsort : SortedMap.Sorted md.iValues) (hconn : conn.isMasterBrokerConnection = false) :
    SortedMap.Sorted md₂.iValues ∧
      (m.accessGrantForShvPath conn.loggedUserName md.shvPath.toString md.method.asString false
        .none).1 = .ok d.acg := by
  cases conn with
  | masterBroker exportedShvPath => contradiction
  | client isSlave userName =>
    obtain ⟨hsort₂, -, hmethod₂⟩ :=
      BrokerConnection.prepare_client (h.sorted_registered hsort) h.prepared
    have hpath₁ : md₁.shvPath = md.shvPath := h.valueOf_registered (by decide)
    have hmethod₁ : md₁.method = md.method := h.valueOf_registered (by decide)
    refine ⟨hsort₂, ?_⟩
    rw [← hpath₁, ← hmethod₁, ← hmethod₂, ← h.shv_path, ← h.method]
    exact h.acg

end Passed

/-- A request goes where it was authorised to go, and it carries the grant it was given. -/
def Dispatched.Authorised (d : Dispatched) : Prop :=
  d.md.dispatchPath = d.shv_path ∧ d.md.dispatchMethod = d.method ∧ d.md.accessGrant = .ok d.acg

/-- The requests for which the broker authorises what it passes on: the path and the
method are no blobs, the path of the master broker is the local one, and a grant
of the master broker is one that is kept. -/
def BrokerConnection.Authorises (conn : BrokerConnection) (md : RpcMetaData) : Prop :=
  md.method.toString = md.method.asString ∧
    match conn with
    | client _ _ => md.shvPath.asString = md.shvPath.toString
    | masterBroker _ => conn.localPath md.shvPath.toString = md.shvPath.toString ∧
      ∀ ag, md.accessGrant = .ok ag → AccessLevel.None.toInt < ag.accessLevel.toInt → ag.Kept

/-- What the broker authorises is what it passes on, exactly for these requests. -/
theorem dispatched_authorised_iff {B : AclBackend} {brokerId : Bytes} {m : AclManager B}
    {connection_id : Int32} {conn : BrokerConnection} {md : RpcMetaData} {d : Dispatched}
    (hsort : SortedMap.Sorted md.iValues)
    (h : (onRpcRequestReceived brokerId m connection_id conn md).1 = .ok d) :
    d.Authorised ↔ conn.Authorises md := by
  obtain ⟨md₁, md₂, grant, hp⟩ := onRpcRequestReceived_passed h
  have hpath₁ : md₁.shvPath = md.shvPath := hp.valueOf_registered (by decide)
  have hmethod₁ : md₁.method = md.method := hp.valueOf_registered (by decide)
  have hsort₁ := hp.sorted_registered hsort
  have hcases := AclManager.accessGrantForShvPath_cases m hp.acg
  cases conn with
  | client isSlave userName =>
    obtain ⟨hsort₂, hpath₂, hmethod₂⟩ := BrokerConnection.prepare_client hsort₁ hp.prepared
    obtain ⟨hpath, hmethod, hgrant⟩ := hp.written_values hsort₂
    have hown : AclManager.OwnGrant d.acg := hcases
    have hkept : d.md.accessGrant = .ok d.acg := by
      rw [hgrant, (AccessGrant.fromShv2Access_toShv2Access_iff _).mpr (hown.kept hp.granted)]
    rw [Dispatched.Authorised, BrokerConnection.Authorises, hpath, hmethod, hp.shv_path, hp.method,
      RpcMetaData.dispatchPath, RpcMetaData.dispatchMethod, hpath₂, hmethod₂, hpath₁, hmethod₁]
    exact ⟨fun hd => ⟨hd.2.1, hd.1⟩, fun hc => ⟨hc.2, hc.1, hkept⟩⟩
  | masterBroker exportedShvPath =>
    obtain ⟨hsort₂, hpath₂, hmethod₂, haccess₂⟩ :=
      BrokerConnection.prepare_masterBroker hsort₁ hp.prepared
    obtain ⟨hpath, hmethod, hgrant⟩ := hp.written_values hsort₂
    have hmd : md.accessGrant = .ok grant := by
      rw [← hp.access_grant, haccess₂]
      exact (RpcMetaData.accessGrant_congr (hp.valueOf_registered (by decide))
        (hp.valueOf_registered (by decide))).symm
    have hkept : d.md.accessGrant = .ok d.acg ↔
        ∀ ag, md.accessGrant = .ok ag → AccessLevel.None.toInt < ag.accessLevel.toInt → ag.Kept := by
      rw [hgrant, Except.ok.injEq, AccessGrant.fromShv2Access_toShv2Access_iff, hmd]
      by_cases hlevel : AccessLevel.None.toInt < grant.accessLevel.toInt
      · obtain hacg : d.acg = grant := by
          rw [if_pos ⟨rfl, hlevel⟩] at hcases
          exact hcases
        rw [hacg]
        constructor
        · rintro hk ag hag -
          rwa [← Except.ok.inj hag]
        · exact fun hk => hk grant rfl hlevel
      · rw [if_neg (fun hc => hlevel hc.2)] at hcases
        refine ⟨fun _ ag hag hl => ?_, fun _ => hcases.kept hp.granted⟩
        rw [← Except.ok.inj hag] at hl
        exact absurd hl hlevel
    rw [Dispatched.Authorised, BrokerConnection.Authorises, hpath, hmethod, hp.shv_path, hp.method,
      hpath₂, RpcMetaData.dispatchMethod, hmethod₂, hpath₁, hmethod₁, hkept]
    exact ⟨fun hd => ⟨hd.2.1, hd.1, hd.2.2⟩, fun hc => ⟨hc.2.1, hc.1, hc.2.2⟩⟩

/-- The access that a client writes into a request is not looked at. -/
theorem access_of_client_ignored {B : AclBackend} {brokerId : Bytes} {m : AclManager B}
    {connection_id : Int32} {conn : BrokerConnection} {md : RpcMetaData} {d d' : Dispatched}
    (hsort : SortedMap.Sorted md.iValues) (hconn : conn.isMasterBrokerConnection = false)
    (access accessLevel : RpcValue)
    (h : (onRpcRequestReceived brokerId m connection_id conn md).1 = .ok d)
    (h' : (onRpcRequestReceived brokerId m connection_id conn
      ((md.setIValue Tag_Access access).setIValue Tag_AccessLevel accessLevel)).1 = .ok d') :
    d.md.valueOf Tag_Access = d'.md.valueOf Tag_Access ∧
      d.md.valueOf Tag_AccessLevel = d'.md.valueOf Tag_AccessLevel := by
  obtain ⟨md₁, md₂, grant, hp⟩ := onRpcRequestReceived_passed h
  obtain ⟨md₁', md₂', grant', hp'⟩ := onRpcRequestReceived_passed h'
  have hset := RpcMetaData.sorted_setIValue (RpcMetaData.sorted_setIValue hsort Tag_Access access)
    Tag_AccessLevel accessLevel
  obtain ⟨hsort₂, hacg⟩ := hp.acg_client hsort hconn
  obtain ⟨hsort₂', hacg'⟩ := hp'.acg_client hset hconn
  rw [RpcMetaData.shvPath, RpcMetaData.method, RpcMetaData.valueOf_setIValue_of_ne (by decide),
    RpcMetaData.valueOf_setIValue_of_ne (by decide),
    RpcMetaData.valueOf_setIValue_of_ne (by decide),
    RpcMetaData.valueOf_setIValue_of_ne (by decide)] at hacg'
  have heq : d.acg = d'.acg := Except.ok.inj (hacg.symm.trans hacg')
  obtain ⟨haccess, hlevel⟩ := hp.written_access hsort₂ hsort
  obtain ⟨haccess', hlevel'⟩ := hp'.written_access hsort₂' hsort
  exact ⟨by rw [haccess, haccess', heq], by rw [hlevel, hlevel', heq]⟩

/-- A user and the master broker may read the node `pub`, whatever the method. -/
def pubReaders : AclManager .configFiles where
  data :=
    { mounts := []
      users := [(ascii "u", ⟨⟨ascii "p", .Plain⟩, [ascii "r"]⟩)]
      roles := []
      rules := [(ascii "masterBroker", [⟨ascii "pub/**", [], ascii "rd"⟩]),
        (ascii "r", [⟨ascii "pub", ascii "set", ascii "bws"⟩, ⟨ascii "pub/**", [], ascii "wr"⟩])] }
  m_cache := .empty
  m_azureUserGroups := []
  m_ldapUserGroups := []

/-- The metadata of a request. -/
def requestMeta (path : Bytes) (method : Variant) : RpcMetaData :=
  .mk [(Tag_RequestId, .ofVariant (.int 1)), (Tag_ShvPath, .ofVariant (.string path)),
    (Tag_Method, .ofVariant method)] []

end LibShv
