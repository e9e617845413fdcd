import LibShv.CChainPack

/-!
# LibShv.ChainPackWriter

`ChainPackWriter::write` (`chainpackwriter.cpp`): metadata first, then the
value. A container is its begin byte, its elements and `CP_TERM`; map keys are
written as values.
-/

namespace LibShv.ChainPackWriter

/-- `writeMapKey`. -/
def writeMapKey (key : Bytes) : Bytes := packString key

/-- `writeIMapKey`. -/
def writeIMapKey (key : Int32) : Bytes := packInt key.toInt64

mutual

/-- `write(const RpcValue &)`. -/
def write : RpcValue → Bytes
  | .mk md v => writeMetaData md ++ writeVariant v

/-- `write(const RpcValue::MetaData &)`: nothing for empty metadata. -/
def writeMetaData : RpcMetaData → Bytes
  | .mk im sm =>
    if im.length + sm.length == 0 then []
    else CP_MetaMap :: (writeIMapElements im ++ writeMapElements sm ++ [CP_TERM])

/-- The overloads of `write_p`; an invalid value is written as null (`WRITE_INVALID_AS_NULL`). -/
def writeVariant : Variant → Bytes
  | .invalid => [CP_Null]
  | .null => [CP_Null]
  | .uint n => packUint n
  | .int n => packInt n
  | .double bits => packDouble bits
  | .bool b => packBoolean b
  | .blob bytes => packBlob bytes
  | .string bytes => packString bytes
  | .dateTime dt => packDateTime dt.msecsSinceEpoch dt.utcOffsetMin
  | .decimal d => packDecimal d.mantissa d.exponent
  | .list vs => CP_List :: (writeListElements vs ++ [CP_TERM])
  | .map m => CP_Map :: (writeMapElements m ++ [CP_TERM])
  | .imap m => CP_IMap :: (writeIMapElements m ++ [CP_TERM])

def writeListElements : List RpcValue → Bytes
  | [] => []
  | v :: vs => write v ++ writeListElements vs

def writeMapElements : List (Bytes × RpcValue) → Bytes
  | [] => []
  | (k, v) :: m => writeMapKey k ++ (write v ++ writeMapElements m)

def writeIMapElements : List (Int32 × RpcValue) → Bytes
  | [] => []
  | (k, v) :: m => writeIMapKey k ++ (write v ++ writeIMapElements m)

end

end LibShv.ChainPackWriter
