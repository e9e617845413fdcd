import LibShv.CCpon

/-!
# LibShv.CponWriter

`CponWriter::write` (`cponwriter.cpp`), with ids not translated and CPON rather
than JSON output. A container is written on one line if it is short and holds no
container; otherwise every element starts a line of its own, if there is an
indent string at all.

`nestCount` is the nesting of the pack context. Which element is the first of
its container is passed along the elements (`ContainerState::elementCount`).
-/

namespace LibShv.CponWriter

open CCpon

/-- The types that keep their container off a single line. -/
def isContainer (v : RpcValue) : Bool :=
  match v.value with
  | .map _ => true
  | .imap _ => true
  | .list _ => true
  | _ => false

/-- `is_oneline_list`. -/
def isOnelineList (lst : RpcList) : Bool :=
  if lst.length > 10 then false else lst.all fun it => !isContainer it

/-- `is_oneline_map`. -/
def isOnelineMap {κ : Type} (map : List (κ × RpcValue)) : Bool :=
  if map.length > 5 then false else map.all fun kv => !isContainer kv.2

/-- `is_oneline_meta`. -/
def isOnelineMeta (md : RpcMetaData) : Bool :=
  if md.iValues.length + md.sValues.length > 5 then false
  else (md.iValues.all fun kv => !isContainer kv.2) && md.sValues.all fun kv => !isContainer kv.2

section

variable (indent : Bytes)

/-- `writeMapKey`. -/
def writeMapKey (nestCount : Nat) (isOneliner isFirst : Bool) (key : Bytes) : Bytes :=
  packFieldDelim indent nestCount isFirst isOneliner ++ CCpon.packString key ++ [C_KEY_DELIM]

/-- `writeIMapKey`. -/
def writeIMapKey (nestCount : Nat) (isOneliner isFirst : Bool) (key : Int32) : Bytes :=
  packFieldDelim indent nestCount isFirst isOneliner ++ CCpon.packInt key.toInt64 ++ [C_KEY_DELIM]

/-- The end of a container: the block is closed, then the bracket. -/
def writeContainerEnd (nestCount : Nat) (isOneliner : Bool) (bracket : UInt8) : Bytes :=
  endBlock indent nestCount isOneliner ++ [bracket]

mutual

/-- `write(const RpcValue &)`. -/
def write (nestCount : Nat) : RpcValue → Bytes
  | .mk md v => writeMetaData nestCount md ++ writeVariant nestCount v

/-- `write(const RpcValue::MetaData &)`: nothing for empty metadata. -/
def writeMetaData (nestCount : Nat) : RpcMetaData → Bytes
  | .mk im sm =>
    if im.length + sm.length == 0 then []
    else
      let isOneliner := isOnelineMeta (.mk im sm)
      C_META_BEGIN :: (writeIMapElements (nestCount + 1) isOneliner true im ++
        writeMapElements (nestCount + 1) isOneliner im.isEmpty sm ++
        writeContainerEnd indent nestCount isOneliner C_META_END)

/-- The overloads of `write_p`; an invalid value is written as null (`WRITE_INVALID_AS_NULL`). -/
def writeVariant (nestCount : Nat) : Variant → Bytes
  | .invalid => packNull
  | .null => packNull
  | .uint n => CCpon.packUint n
  | .int n => CCpon.packInt n
  | .double bits => CCpon.packDouble bits
  | .bool b => CCpon.packBoolean b
  | .blob bytes => CCpon.packBlob bytes
  | .string bytes => CCpon.packString bytes
  | .dateTime dt => CCpon.packDateTime dt.msecsSinceEpoch dt.utcOffsetMin
  | .decimal d => CCpon.packDecimal d.mantissa d.exponent
  | .list vs =>
    let isOneliner := isOnelineList vs
    C_LIST_BEGIN :: (writeListElements (nestCount + 1) isOneliner true vs ++
      writeContainerEnd indent nestCount isOneliner C_LIST_END)
  | .map m =>
    let isOneliner := isOnelineMap m
    C_MAP_BEGIN :: (writeMapElements (nestCount + 1) isOneliner true m ++
      writeContainerEnd indent nestCount isOneliner C_MAP_END)
  | .imap m =>
    let isOneliner := isOnelineMap m
    ascii "i" ++ C_MAP_BEGIN :: (writeIMapElements (nestCount + 1) isOneliner true m ++
      writeContainerEnd indent nestCount isOneliner C_MAP_END)

/-- The elements of a list; `isFirst` tells whether the first one is the first of its container. -/
def writeListElements (nestCount : Nat) (isOneliner isFirst : Bool) : List RpcValue → Bytes
  | [] => []
  | v :: vs =>
    packFieldDelim indent nestCount isFirst isOneliner ++
      (write nestCount v ++ writeListElements nestCount isOneliner false vs)

def writeMapElements (nestCount : Nat) (isOneliner isFirst : Bool) :
    List (Bytes × RpcValue) → Bytes
  | [] => []
  | (k, v) :: m =>
    writeMapKey indent nestCount isOneliner isFirst k ++
      (write nestCount v ++ writeMapElements nestCount isOneliner false m)

def writeIMapElements (nestCount : Nat) (isOneliner isFirst : Bool) :
    List (Int32 × RpcValue) → Bytes
  | [] => []
  | (k, v) :: m =>
    writeIMapKey indent nestCount isOneliner isFirst k ++
      (write nestCount v ++ writeIMapElements nestCount isOneliner false m)

end

end

/-- `RpcValue::toCpon`. -/
def toCpon (indent : Bytes) (v : RpcValue) : Bytes := write indent 0 v

end LibShv.CponWriter
