import LibShv.RpcValue

/-!
# LibShv.RpcMessage

RPC messages (`rpcmessage.cpp`): an imap whose metadata says what kind of
message it is. Only what the frame readers and the call-backs look at, and what
they put into the responses they make up.
-/

namespace LibShv

/-! ## tags and keys -/

def Tag_MetaTypeId : Int32 := 1
def Tag_RequestId : Int32 := 8
def Tag_Method : Int32 := 10
def Tag_CallerIds : Int32 := 11
def Tag_RevCallerIds : Int32 := 13

def Key_Params : Int32 := 1
def Key_Result : Int32 := 2
def Key_Error : Int32 := 3
def Key_Delay : Int32 := 4

namespace RpcMetaData

/-- `RpcMessage::hasRequestId`. -/
def hasRequestId (md : RpcMetaData) : Bool := md.hasKey Tag_RequestId

/-- `RpcMessage::hasMethod`. -/
def hasMethod (md : RpcMetaData) : Bool := md.hasKey Tag_Method

/-- `RpcMessage::isResponse`. -/
def isResponse (md : RpcMetaData) : Bool := md.hasRequestId && !md.hasMethod

/-- `RpcMessage::requestId`. -/
def requestId (md : RpcMetaData) : RpcValue := md.valueOf Tag_RequestId

/-- `RpcMessage::peekCallerId`: the last of the caller ids, 0 without any. -/
def peekCallerId (md : RpcMetaData) : Except String Int32 :=
  let callerIds := md.valueOf Tag_CallerIds
  match callerIds.value with
  | .list [] => .ok 0
  | .list (v :: vs) => ((v :: vs).getLast (by simp)).toInt
  | _ => callerIds.toInt

end RpcMetaData

namespace RpcValue

/-- `asIMap`: empty for every other type. -/
def asIMap (v : RpcValue) : RpcIMap :=
  match v.value with
  | .imap m => m
  | _ => []

/-- `isList`. -/
def isList (v : RpcValue) : Bool :=
  match v.value with
  | .list _ => true
  | _ => false

/-- `asList`: empty for every other type. -/
def asList (v : RpcValue) : RpcList :=
  match v.value with
  | .list vs => vs
  | _ => []

/-- `isInt() || isUInt()`. -/
def isIntOrUInt (v : RpcValue) : Bool :=
  match v.value with
  | .int _ => true
  | .uint _ => true
  | _ => false

/-- An `int` as a value. -/
def ofInt32 (n : Int32) : RpcValue := .ofVariant (.int n.toInt64)

@[simp] theorem toInt_ofInt32 (n : Int32) : (ofInt32 n).toInt = .ok n := by
  change Except.ok n.toInt64.toInt32 = Except.ok n
  rw [Int32.toInt32_toInt64]

/-- `isIMap`. -/
def isIMap (v : RpcValue) : Bool :=
  match v.value with
  | .imap _ => true
  | _ => false

/-- `set` of an imap: an invalid value removes the key. -/
def setKey (v : RpcValue) (key : Int32) (val : RpcValue) : RpcValue :=
  let m := if val.isValid then SortedMap.insert key val v.asIMap else SortedMap.erase key v.asIMap
  .mk v.metaData (.imap m)

/-- `setMetaValue`. -/
def setMetaValue (v : RpcValue) (key : Int32) (val : RpcValue) : RpcValue :=
  v.setMetaData (v.metaData.setIValue key val)

/-- `operator==` with an `int` on the right. -/
def eqInt (v : RpcValue) (n : Int32) : Bool :=
  match v.value with
  | .int m => m == n.toInt64
  | .uint m => decide (m.toNat < 2 ^ 63) && m.toInt64 == n.toInt64
  | .double bits => Float.ofBits bits == n.toFloat
  | .bool b => b == decide (n ≠ 0)
  | _ => false

@[simp] theorem isIMap_setKey (v : RpcValue) (key : Int32) (val : RpcValue) :
    (v.setKey key val).isIMap = true := rfl

end RpcValue

/-! ## errors -/

/-- `RpcError`: the imap of code, message and data. -/
structure RpcError where
  value : RpcValue

namespace RpcError

/-! The error codes. -/

def MethodCallTimeout : Int32 := 6
def MethodCallCancelled : Int32 := 7
def MethodCallException : Int32 := 8
def Unknown : Int32 := 9

/-- `RpcError::create`; data that is not valid is left out. -/
def create (code : Int32) (message : Bytes) : RpcError where
  value := ((RpcValue.ofVariant (.imap [])).setKey 1 (.ofVariant (.int code.toInt64))).setKey 2
    (.ofVariant (.string message))

/-- `RpcError::fromRpcValue`. -/
def fromRpcValue (v : RpcValue) : RpcError := ⟨if v.isIMap then v else .invalid⟩

/-- `code`. -/
def code (e : RpcError) : Except String Int32 :=
  ((SortedMap.find? 1 e.value.asIMap).getD .invalid).toInt

/-- `RpcError::isValid`: the code is not `NoError`. -/
def isValid (e : RpcError) : Except String Bool := (decide <| · ≠ 0) <$> e.code

end RpcError

/-! ## messages -/

/-- `RpcMessage`: an imap, or the invalid value of a message not filled in yet. -/
structure RpcMessage where
  value : RpcValue
  shape : value.isIMap = true ∨ value.isValid = false

namespace RpcMessage

/-- An empty message, as the default constructor makes it. -/
def empty : RpcMessage := ⟨.invalid, .inr rfl⟩

/-- `checkMetaValues`: the value a message is filled in from. -/
def checkMetaValues (msg : RpcMessage) : RpcValue :=
  if msg.value.isValid then msg.value
  else (RpcValue.ofVariant (.imap [])).setMetaValue Tag_MetaTypeId (.ofVariant (.int 1))

theorem isIMap_checkMetaValues (msg : RpcMessage) : msg.checkMetaValues.isIMap = true := by
  rw [checkMetaValues]
  by_cases h : msg.value.isValid = true
  · rw [if_pos h]
    exact msg.shape.resolve_right (by simp [h])
  · rw [if_neg h]
    rfl

/-- `setRequestId`. -/
def setRequestId (msg : RpcMessage) (id : RpcValue) : RpcMessage where
  value := msg.checkMetaValues.setMetaValue Tag_RequestId id
  shape := .inl msg.isIMap_checkMetaValues

/-- `RpcResponse::setError`. -/
def setError (msg : RpcMessage) (err : RpcError) : RpcMessage where
  value := msg.checkMetaValues.setKey Key_Error err.value
  shape := .inl rfl

def isResponse (msg : RpcMessage) : Bool := msg.value.metaData.isResponse

/-- `requestId`: an invalid value for an invalid message. -/
def requestId (msg : RpcMessage) : RpcValue :=
  if msg.value.isValid then msg.value.metaData.requestId else .invalid

def peekCallerId (msg : RpcMessage) : Except String Int32 := msg.value.metaData.peekCallerId

/-- `RpcRequest::params`. -/
def params (msg : RpcMessage) : RpcValue := (SortedMap.find? Key_Params msg.value.asIMap).getD .invalid

/-- `delay().has_value()`. -/
def hasDelay (msg : RpcMessage) : Bool := (SortedMap.find? Key_Delay msg.value.asIMap).isSome

/-- `RpcResponse::result`. -/
def result (msg : RpcMessage) : RpcValue := (SortedMap.find? Key_Result msg.value.asIMap).getD .invalid

/-- `RpcResponse::error`. -/
def error (msg : RpcMessage) : RpcError :=
  .fromRpcValue ((SortedMap.find? Key_Error msg.value.asIMap).getD .invalid)

/-- `RpcResponse::isSuccess`. -/
def isSuccess (msg : RpcMessage) : Except String Bool := do
  if msg.result.isValid then return !(← msg.error.isValid)
  else return false

end RpcMessage

end LibShv
