import LibShv.CCpon
import LibShv.AbstractStreamReader

/-!
# LibShv.CponReader

`CponReader` (`cponreader.cpp`): metadata is looked for past insignificant
characters, and the byte found is put back even if there was none. A parse error
repeats the message of the context.
-/

namespace LibShv.CponReader

open ByteReader

/-- The text of `throwParseException`: the message of the context and its own. -/
def parseMessage (errMsg msg : String) : String :=
  if errMsg ≠ "" ∧ msg ≠ "" then errMsg ++ " - " ++ msg else errMsg ++ msg

/-- `unpackNext` passes the message of the context to `throwParseException`. -/
def repeatMessage : Fault → Fault
  | .parse errNo errMsg => .parse errNo (parseMessage errMsg errMsg)
  | e => e

/-- `unpackNext`. -/
def unpackNext : Unpack CCpcpItem := do
  mapError repeatMessage CCpon.unpackNext
  getItem

/-- The start of `read(RpcValue::MetaData &)`: metadata if the next significant
byte starts some. That byte is put back, or the one before the end of the input. -/
def metaDataBegin : Unpack Bool := do
  let c ← CCpon.skipInsignificant
  unget
  if c = some CCpon.C_META_BEGIN then
    CCpon.unpackNext
    return true
  else return false

/-- The reader of CPON. -/
def reader : AbstractStreamReader where
  unpackNext := unpackNext
  metaDataBegin := metaDataBegin
  parseException ctx msg := .parse ctx.errNo (parseMessage ctx.errMsg msg)
  unfinishedString := "Unfinished string key"
  unfinishedBlob := "Unfinished blob key"
  invalidMetaData errMsg := "Attempt to set metadata to invalid RPC value. error - " ++ errMsg

/-- `read(RpcValue &)`. -/
abbrev read : Nat → Unpack RpcValue := reader.read

/-- `read(RpcValue::MetaData &)`. -/
abbrev readMetaData : Nat → Unpack RpcMetaData := reader.readMetaData

/-- `CponReader rd(in); rd.read(val)` on a fresh stream. -/
abbrev readFrom : Bytes → EStateM.Result Fault (Cursor UnpackContext) RpcValue := reader.readFrom

end LibShv.CponReader
