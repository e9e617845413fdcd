import LibShv.BrokerApp.Signals
import LibShv.CponWriter
import LibShv.RpcFrame
import LibShv.RpcMessage.CallerIds

/-!
# LibShv.ShvNode

Nodes of a tree and how a request finds its way to one of them (`shvnode.cpp`): as
a frame, which each node hands on to a child, and as a message. A node takes the
first directory off the path, and joins the others again for the child.

A node is what it knows of itself: its methods for a path, what they do, and its
children. Ids are compared as bytes. The root node sends the responses; the log of
user commands is left out.
-/

namespace LibShv

/-! ## methods -/

/-- What `processRpcRequest` looks at in a `MetaMethod`. -/
structure MetaMethod where
  name : Bytes
  accessLevel : AccessLevel
  userIDRequired : Bool

/-- What a node throws: a `RpcException`, another `chainpack::Exception`, or any other
`std::exception`. -/
inductive NodeFault where
  | rpc (errorCode : Int32) (message : Bytes)
  | chainpack (message : Bytes) (data : RpcValue)
  | std (what : Bytes)

/-- `ShvNode`. The methods depend on the rest of the path, as does what they do with the name of
the method, the parameters and the user id. -/
inductive ShvNode where
  | mk (nodeId : Bytes) (metaMethods : List Bytes → Except NodeFault (List MetaMethod))
      (callMethod : List Bytes → Bytes → RpcValue → RpcValue → Except NodeFault RpcValue)
      (children : List ShvNode)

namespace ShvNode

def nodeId : ShvNode → Bytes
  | mk nodeId _ _ _ => nodeId

def metaMethods : ShvNode → List Bytes → Except NodeFault (List MetaMethod)
  | mk _ metaMethods _ _ => metaMethods

def callMethod : ShvNode → List Bytes → Bytes → RpcValue → RpcValue → Except NodeFault RpcValue
  | mk _ _ callMethod _ => callMethod

def children : ShvNode → List ShvNode
  | mk _ _ _ children => children

/-- `childNode`. -/
def childNode (nd : ShvNode) (name : Bytes) : Option ShvNode :=
  nd.children.find? (·.nodeId = name)

theorem sizeOf_childNode {nd child : ShvNode} {name : Bytes} (h : nd.childNode name = some child) :
    sizeOf child < sizeOf nd := by
  have hmem := List.sizeOf_lt_of_mem (List.mem_of_find?_eq_some h)
  cases nd with
  | mk nodeId metaMethods callMethod children =>
    rw [ShvNode.children] at hmem
    rw [mk.sizeOf_spec]
    omega

/-- `metaMethod` with a name. -/
def metaMethod (nd : ShvNode) (shv_path : List Bytes) (name : Bytes) :
    Except NodeFault (Option MetaMethod) :=
  (nd.metaMethods shv_path).map (·.find? (·.name = name))

/-- `shvPath` of the node that the ids lead to from the root. -/
def shvPath (dirs : List Bytes) : Bytes :=
  dirs.foldr (fun nodeId ret => nodeId ++ if ret ≠ [] then SHV_PATH_DELIM :: ret else ret) []

end ShvNode

/-- `AccessGrant::toPrettyString`. -/
def AccessGrant.toPrettyString (ag : AccessGrant) : Bytes :=
  let s := accessLevelToAccessString ag.accessLevel
  let s := if s = [] then ascii "(" ++ Decimal.intDigits ag.accessLevel.toInt.toInt ++ ascii ")" else s
  if ag.access ≠ [] then s ++ ascii "," ++ ag.access else s

namespace RpcError

def InvalidRequest : Int32 := 1
def MethodNotFound : Int32 := 2

/-- `setData`. -/
def setData (e : RpcError) (data : RpcValue) : RpcError := ⟨e.value.setKey 3 data⟩

end RpcError

/-- `RpcResponse::hasResult`. -/
def RpcMessage.hasResult (resp : RpcMessage) : Except String Bool := do
  return (← resp.error.isValid) || resp.result.isValid

/-! ## one node -/

/-- A request that is processed: the path and the method that `callMethod` is called with, if it
is, and what comes of it. -/
structure Processed where
  call : Option (List Bytes × Bytes)
  result : Except NodeFault RpcValue

/-- A request that was handed to a node: the ids that lead to it, the rest of the path that it
looks for a method with, the call, and what is sent. -/
structure Dispatch where
  dirs : List Bytes
  shv_path : List Bytes
  call : Option (List Bytes × Bytes)
  responses : List RpcMessage

namespace ShvNode

/-- The user id of a request as a text. -/
def userIdStr (md : RpcMetaData) : Bytes :=
  if md.userId.isValid then
    if md.userId.isString then md.userId.asString else CponWriter.toCpon [] md.userId
  else []

/-- `processRpcRequest` on the node that the ids lead to. -/
def processRpcRequest (nd : ShvNode) (dirs : List Bytes) (rq : RpcMessage) : Processed :=
  let md := rq.value.metaData
  let shv_path := splitPath md.shvPath.asString
  let method := md.method.asString
  let path := joinPath (shvPath dirs) md.shvPath.toString
  match nd.metaMethod shv_path method with
  | .error e => ⟨none, .error e⟩
  | .ok none =>
    ⟨none, .error (.rpc RpcError.MethodNotFound
      (ascii "Method: '" ++ method ++ ascii "' on path '" ++ path ++ ascii "' doesn't exist"))⟩
  | .ok (some mm) =>
    match md.accessGrant with
    | .error e => ⟨none, .error (.std (ascii e))⟩
    | .ok rq_grant =>
      if rq_grant.accessLevel.toInt < mm.accessLevel.toInt then
        ⟨none, .error (.std (ascii "Call method: '" ++ method ++ ascii "' on path '" ++ path ++
          ascii "' permission denied, grant: " ++ rq_grant.toPrettyString ++ ascii " required: " ++
          accessLevelToAccessString mm.accessLevel))⟩
      else
        if mm.userIDRequired ∧ userIdStr md = [] then
          ⟨none, .error (.std (ascii "Call method: '" ++ method ++ ascii "' on path '" ++ path ++
            ascii "' user id required."))⟩
        else
          -- `callMethodRq` splits the path once more
          ⟨some (shv_path, method), nd.callMethod shv_path method rq.params md.userId⟩

/-- `emitSendRpcMessage` of the root: nothing is sent for the request id 0. -/
def emitSendRpcMessage (msg : RpcMessage) : List RpcMessage :=
  if msg.isResponse then
    match msg.requestId.toInt with
    | .error _ => []
    | .ok id => if id = 0 then [] else [msg]
  else [msg]

/-- The response with a result or an error, and nothing without either of them. -/
def respond (md : RpcMetaData) (toError : NodeFault → RpcError) (hook : RpcMessage → RpcMessage)
    (result : Except NodeFault RpcValue) : List RpcMessage :=
  let resp := RpcMessage.forRequest md
  let resp :=
    match result with
    | .ok ret_val => if ret_val.isValid then resp.setResult ret_val else resp
    | .error e => resp.setError (toError e)
  match resp.hasResult with
  | .ok true => emitSendRpcMessage (hook resp)
  | _ => []

/-! ### as a frame -/

/-- The errors of `handleRpcFrame`. -/
def frameError (method shv_path_str : Bytes) : NodeFault → RpcError
  | .rpc errorCode message => .create errorCode message
  | .chainpack message _ => .create RpcError.InvalidRequest message
  | .std what =>
    .create RpcError.MethodCallException
      (ascii "method: " ++ method ++ ascii " path: " ++ shv_path_str ++ ascii " what: " ++ what)

/-- What escapes from `toRpcMessage` as an exception; anything else ends the program. -/
def frameFault : Fault → Option NodeFault
  | .runtime message =>
    -- metadata for an invalid value is refused by a `chainpack::Exception`
    if message = "Cannot set valid meta data to invalid ChainPack value!" then
      some (.chainpack (ascii message) .invalid)
    else some (.std (ascii message))
  | .parse errNo message => some (.chainpack (ascii (RpcFrame.what (.parse errNo message))) .invalid)
  | _ => none

/-- The result of `ls` with the local node in front. -/
def addLocalNode (resp : RpcMessage) : RpcMessage :=
  match resp.isSuccess with
  | .ok true =>
    let local_node : RpcValue := .ofVariant (.string LOCAL_NODE_HACK)
    let res_list := resp.result.asList
    let first :=
      if res_list ≠ [] ∧ !(res_list.headD .invalid).isList then local_node
      else .ofVariant (.list [local_node, .ofVariant (.bool true)])
    resp.setResult (.ofVariant (.list (first :: res_list)))
  | _ => resp

/-- `handleRpcFrame` where no child is found. -/
def answerFrame (nd : ShvNode) (dirs : List Bytes) (frame : RpcFrame) : Dispatch :=
  let md := frame.metaData
  let method := md.method.toString
  let shv_path_str := md.shvPath.toString
  let shv_path := splitPath md.shvPath.asString
  let ls_hook := (SortedMap.find? ADD_LOCAL_TO_LS_RESULT_HACK_META_KEY md.sValues).isSome
  let finish (p : Processed) : Dispatch :=
    ⟨dirs, shv_path, p.call,
      respond md (frameError method shv_path_str) (if ls_hook then addLocalNode else id) p.result⟩
  match nd.metaMethod shv_path method with
  | .error e => finish ⟨none, .error e⟩
  | .ok none =>
    finish ⟨none, .error (.rpc RpcError.MethodNotFound
      (ascii "Method: '" ++ method ++ ascii "' on path '" ++
        joinPath (shvPath dirs) shv_path_str ++ ascii "' doesn't exist"))⟩
  | .ok (some _) =>
    match frame.toRpcMessage with
    | .ok (rpc_msg, errmsg) =>
      if errmsg ≠ "" then
        finish ⟨none, .error (.chainpack (ascii "Decode RPC frame error: " ++ ascii errmsg) .invalid)⟩
      else finish (nd.processRpcRequest dirs rpc_msg)
    | .error e =>
      match frameFault e with
      | some e => finish ⟨none, .error e⟩
      | none => ⟨dirs, shv_path, none, []⟩

/-- `handleRpcFrame`, called on the root without ids. -/
def handleRpcFrame (nd : ShvNode) (dirs : List Bytes) (frame : RpcFrame) : Dispatch :=
  match splitPath frame.metaData.shvPath.asString with
  | [] => nd.answerFrame dirs frame
  | first :: rest =>
    match _h : nd.childNode first with
    | none => nd.answerFrame dirs frame
    | some child =>
      child.handleRpcFrame (dirs ++ [first])
        { frame with metaData := frame.metaData.setShvPath (joinDirs rest) }
termination_by sizeOf nd
decreasing_by exact sizeOf_childNode ‹_›

/-! ### as a message -/

/-- `handleRpcRequestImpl`: the node that processes the request, the rest of the path, and what
it does. -/
def handleRpcRequestImpl (nd : ShvNode) (dirs : List Bytes) (rq : RpcMessage) :
    List Bytes × List Bytes × Processed :=
  match splitPath rq.value.metaData.shvPath.asString with
  | [] => (dirs, [], nd.processRpcRequest dirs rq)
  | first :: rest =>
    match _h : nd.childNode first with
    | none => (dirs, first :: rest, nd.processRpcRequest dirs rq)
    | some child => child.handleRpcRequestImpl (dirs ++ [first]) (rq.setShvPath (joinDirs rest))
termination_by sizeOf nd
decreasing_by exact sizeOf_childNode ‹_›

/-- The errors of `handleRpcRequest`. -/
def requestError : NodeFault → RpcError
  | .rpc errorCode message => .create errorCode message
  | .chainpack message data => (RpcError.create RpcError.MethodCallException message).setData data
  | .std what => .create RpcError.MethodCallException what

/-- `handleRpcRequest`. -/
def handleRpcRequest (nd : ShvNode) (rq : RpcMessage) : Dispatch :=
  let r := nd.handleRpcRequestImpl [] rq
  ⟨r.1, r.2.1, r.2.2.call, respond rq.value.metaData requestError id r.2.2.result⟩

end ShvNode

end LibShv
