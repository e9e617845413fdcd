import LibShv.ChainPackReader
import LibShv.ChainPackWriter
import LibShv.CponReader
import LibShv.CponWriter
import LibShv.RpcMessage

/-!
# LibShv.RpcFrame

`RpcFrame` (`rpcmessage.cpp`): a message with its metadata taken off, so that it
can be passed on without its data being decoded. On the wire a frame is a byte for
the protocol, the metadata, and the data.
-/

namespace LibShv

open ByteReader

/-- `Rpc::ProtocolType`; every other number is none of them either. -/
inductive ProtocolType where
  | Invalid
  | ChainPack
  | Cpon
deriving DecidableEq

namespace ProtocolType

/-- The cast of a byte. -/
def ofByte (b : UInt8) : ProtocolType :=
  if b = 1 then ChainPack else if b = 2 then Cpon else Invalid

/-- The cast to a byte. -/
def toByte : ProtocolType → UInt8
  | Invalid => 0
  | ChainPack => 1
  | Cpon => 2

/-- The reader of a protocol. -/
def reader? : ProtocolType → Option AbstractStreamReader
  | Invalid => none
  | ChainPack => some ChainPackReader.reader
  | Cpon => some CponReader.reader

/-- Metadata as the writer of a protocol writes it. -/
def writeMetaData? (md : RpcMetaData) : ProtocolType → Option Bytes
  | Invalid => none
  | ChainPack => some (ChainPackWriter.writeMetaData md)
  | Cpon => some (CponWriter.writeMetaData [] 0 md)

/-- A value as the writer of a protocol writes it. -/
def write? (v : RpcValue) : ProtocolType → Option Bytes
  | Invalid => none
  | ChainPack => some (ChainPackWriter.write v)
  | Cpon => some (CponWriter.toCpon [] v)

end ProtocolType

/-- `RpcFrame`. -/
structure RpcFrame where
  protocol : ProtocolType
  metaData : RpcMetaData
  data : Bytes

/-- What is thrown for a protocol that is none. -/
def invalidProtocol : Fault := .runtime "Invalid protocol type"

/-- `RpcMessage::toRpcFrame`. -/
def RpcMessage.toRpcFrame (msg : RpcMessage) (protocol : ProtocolType) : Except Fault RpcFrame :=
  match protocol.write? (.ofVariant msg.value.value) with
  | some data => .ok ⟨protocol, msg.value.metaData, data⟩
  | none => .error invalidProtocol

namespace RpcFrame

/-! ## frames as bytes -/

/-- `toFrameHead`. -/
def toFrameHead (frame : RpcFrame) : Except Fault Bytes :=
  match frame.protocol.writeMetaData? frame.metaData with
  | some bytes => .ok (frame.protocol.toByte :: bytes)
  | none => .error invalidProtocol

/-- `toFrameData`. -/
def toFrameData (frame : RpcFrame) : Except Fault Bytes := do
  return (← frame.toFrameHead) ++ frame.data

/-- What is thrown when there is no metadata, or it ends at the end of the stream only. -/
def metadataMissing : Fault := .parse .malformedInput "Metadata missing"

/-- `fromFrameData`. After the end of the stream `readCount` is negative. -/
def fromFrameData : Bytes → Except Fault RpcFrame
  | [] => .error invalidProtocol
  | b :: input =>
    match (ProtocolType.ofByte b).reader? with
    | none => .error invalidProtocol
    | some rd =>
      match rd.readMetaData (AbstractStreamReader.fuelFor input.length) (openStream input) with
      | .error e _ => .error e
      | .ok md c =>
        if md.isEmpty ∨ c.atEnd then .error metadataMissing
        else .ok ⟨.ofByte b, md, c.input⟩

/-! ## frames as messages -/

/-- `what()` of an exception; of a parse error the position and the dump of the input are
left out. -/
def what : Fault → String
  | .parse _ msg => "Parse error: " ++ msg
  | .runtime msg => msg
  | _ => ""

/-- `RpcValue::setMetaData`. -/
def setMetaData (val : RpcValue) (md : RpcMetaData) : Except Fault RpcValue :=
  if val.isValid then .ok (val.setMetaData md)
  else .error (.runtime "Cannot set valid meta data to invalid ChainPack value!")

/-- `RpcMessage(const RpcValue &)`. -/
def makeRpcMessage (val : RpcValue) : Except Fault RpcMessage :=
  if h : val.isIMap = true then .ok ⟨val, .inl h⟩ else .error (.runtime "Value is not IMap")

/-- `RpcValue::fromChainPack` or `RpcValue::fromCpon` of the data, without an `err`. -/
def decodeData (rd : AbstractStreamReader) (data : Bytes) : Except Fault RpcValue :=
  match rd.readFrom data with
  | .ok val _ => .ok val
  | .error e _ => .error e

/-- The same with an `err`: only a `ParseException` is caught, and an invalid value returned. -/
def decodeDataErr (rd : AbstractStreamReader) (data : Bytes) : Except Fault (RpcValue × String) :=
  match decodeData rd data with
  | .ok val => .ok (val, "")
  | .error (.parse errNo msg) => .ok (.invalid, what (.parse errNo msg))
  | .error e => .error e

/-- `toRpcMessage` with an `errmsg`: the message and the text in `errmsg`, unless an
exception escapes. -/
def toRpcMessage (frame : RpcFrame) : Except Fault (RpcMessage × String) :=
  match frame.protocol.reader? with
  | none => .ok (.empty, what invalidProtocol)
  | some rd => do
    let (val, errmsg) ← decodeDataErr rd frame.data
    if errmsg = "" then
      match makeRpcMessage (← setMetaData val frame.metaData) with
      | .ok msg => return (msg, "")
      | .error e => return (.empty, what e)
    else return (.empty, errmsg)

/-- `toRpcMessage` without an `errmsg`: everything but a value that is no message is thrown. -/
def toRpcMessageThrow (frame : RpcFrame) : Except Fault RpcMessage :=
  match frame.protocol.reader? with
  | none => .error invalidProtocol
  | some rd => do
    let val ← decodeData rd frame.data
    match makeRpcMessage (← setMetaData val frame.metaData) with
    | .ok msg => return msg
    | .error _ => return .empty

end RpcFrame

end LibShv
