import LibShv.RpcValue

/-!
# LibShv.RpcValue.As

Values read as one of their types (`rpcvalue.cpp`); a value of another type is
read as an empty one.
-/

namespace LibShv

/-- `RpcValue::toString`: the text of a string or of a blob. -/
def RpcValue.toString (v : RpcValue) : Bytes :=
  match v.value with
  | .string s => s
  | .blob s => s
  | _ => []

/-- `asMap`: empty for every other type. -/
def RpcValue.asMap (v : RpcValue) : RpcMap :=
  match v.value with
  | .map m => m
  | _ => []

/-- `RpcValue::isMap`. -/
def RpcValue.isMap (v : RpcValue) : Bool :=
  match v.value with
  | .map _ => true
  | _ => false

/-- `RpcMap::value`. -/
def RpcMap.valueOr (m : RpcMap) (key : Bytes) (default_val : RpcValue) : RpcValue :=
  (SortedMap.find? key m).getD default_val

end LibShv
