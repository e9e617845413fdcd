import LibShv.CChainPack
import LibShv.AbstractStreamReader

/-!
# LibShv.ChainPackReader

`ChainPackReader` (`chainpackreader.cpp`): metadata is announced by the next
byte, which is looked at without being taken.
-/

namespace LibShv.ChainPackReader

open ByteReader

/-- `unpackNext`. -/
def unpackNext : Unpack CCpcpItem := do
  cchainpackUnpackNext
  getItem

/-- The start of `read(RpcValue::MetaData &)`: metadata if the next byte starts some. -/
def metaDataBegin : Unpack Bool := do
  match ← unpackPeekByte? with
  | some b =>
    if b = CP_MetaMap then
      cchainpackUnpackNext
      return true
    else return false
  | none => return false

/-- The reader of ChainPack. -/
def reader : AbstractStreamReader where
  unpackNext := unpackNext
  metaDataBegin := metaDataBegin
  parseException ctx msg := .parse ctx.errNo msg
  unfinishedString := "Unfinished string"
  unfinishedBlob := "Unfinished blob"
  invalidMetaData _ := "Attempt to set metadata to invalid RPC value."

/-- `read(RpcValue &)`. -/
abbrev read : Nat → Unpack RpcValue := reader.read

/-- `read(RpcValue::MetaData &)`. -/
abbrev readMetaData : Nat → Unpack RpcMetaData := reader.readMetaData

/-- `ChainPackReader rd(in); rd.read(val)` on a fresh stream. -/
abbrev readFrom : Bytes → EStateM.Result Fault (Cursor UnpackContext) RpcValue := reader.readFrom

end LibShv.ChainPackReader
