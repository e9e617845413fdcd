import LibShv.RpcValue
import LibShv.Lib.ByteReader

/-!
# LibShv.DChainPack

ChainPack in D (`d/shv/chainpack.d`, with the values of `d/shv/rpcvalue.d`), written apart
from the C and C++ code: the format is all they share.

An associative array is the list of its entries in the order of `byKey`, which D leaves
open. What `write` emits therefore depends on that order, and what a value means does not.
-/

namespace LibShv.D

open ByteReader

/-! ## values -/

/-- `RpcValue.Meta.Key`: no text stands for an integer key. Its constructors set one field. -/
structure Key where
  skey : Bytes
  ikey : Int32
  single : skey = [] ∨ ikey = 0
deriving DecidableEq

namespace Key

/-- `this(int i)`. -/
def ofInt (i : Int32) : Key := ⟨[], i, .inl rfl⟩

/-- `this(string s)`. -/
def ofString (s : Bytes) : Key := ⟨s, 0, .inr rfl⟩

def isIntKey (k : Key) : Bool := k.skey.length == 0

end Key

/-- `epoch_hnsec`: the `stdTime` of 1970, in units of 100 ns. -/
def epochHnsec : Int64 := 621355968000000000

/-- `RpcValue.DateTime`. -/
structure DateTime where
  hnsec : Int64
  tz : Int16
deriving DecidableEq

namespace DateTime

/-- `this(long epoch_msec, int utc_offset_min)`. -/
def ofEpochMsec (epochMsec : Int64) (utcOffsetMin : Int32) : DateTime where
  hnsec := epochMsec * 10000 + epochHnsec
  tz := utcOffsetMin.toInt16

def msecsSinceEpoch (dt : DateTime) : Int64 := (dt.hnsec - epochHnsec) / 10000

def utcOffsetMin (dt : DateTime) : Int32 := dt.tz.toInt32

end DateTime

mutual

/-- A value and its metadata. -/
inductive RpcValue where
  | mk (m_meta : List (Key × RpcValue)) (store : Store)

/-- The types of a value, with what `store` holds for each. -/
inductive Store where
  | invalid
  | null
  | bool (b : Bool)
  | integer (n : Int64)
  | uinteger (n : UInt64)
  | float (bits : UInt64)
  | decimal (mantisa : Int64) (exponent : Int32)
  | dateTime (dt : DateTime)
  | string (s : Bytes)
  | list (vs : List RpcValue)
  | map (m : List (Bytes × RpcValue))
  | imap (m : List (Int32 × RpcValue))

end

def RpcValue.store : RpcValue → Store
  | .mk _ store => store

/-! ## packing schema -/

namespace PackingSchema

def Null : UInt8 := 128
def UInt : UInt8 := 129
def Int : UInt8 := 130
def Double : UInt8 := 131
def String : UInt8 := 134
def List : UInt8 := 136
def Map : UInt8 := 137
def IMap : UInt8 := 138
def MetaMap : UInt8 := 139
def Decimal : UInt8 := 140
def DateTime : UInt8 := 141
def CString : UInt8 := 142
def FALSE : UInt8 := 253
def TRUE : UInt8 := 254
def TERM : UInt8 := 255

end PackingSchema

def SHV_EPOCH_MSEC : Int64 := 1517529600000

/-! ## packing integers -/

def sigTable4bit : List Nat := [0, 1, 2, 2, 3, 3, 3, 3, 4, 4, 4, 4, 4, 4, 4, 4]

/-- One test of `significant_bits_part_length`: the upper half of what is left. -/
def upperHalf (mask : UInt64) (shift : Nat) (s : Nat × UInt64) : Nat × UInt64 :=
  if s.2 &&& mask ≠ 0 then (s.1 + shift, s.2 >>> UInt64.ofNat shift) else s

/-- `significant_bits_part_length`. -/
def significantBitsPartLength (n : UInt64) : Nat :=
  let s := upperHalf 0xFFFFFFFF00000000 32 (0, n)
  let s := upperHalf 0xFFFF0000 16 s
  let s := upperHalf 0xFF00 8 s
  let s := upperHalf 0xF0 4 s
  s.1 + sigTable4bit.getD s.2.toNat 0

/-- `bytes_needed`; the division of D rounds `(0 - 1) / 7` to zero. -/
def bytesNeeded (bitLen : Nat) : Nat :=
  if bitLen ≤ 28 then (bitLen - 1) / 7 + 1 else (bitLen - 1) / 8 + 2

/-- The loop of `pack_uint_data_helper` that fills `bytes`, the last byte first. -/
def fillBytes : Nat → UInt64 → Bytes → Bytes
  | 0, _, bytes => bytes
  | i + 1, num, bytes => fillBytes i (num >>> 8) ((num &&& 255).toUInt8 :: bytes)

/-- `pack_uint_data_helper`. A number and its sign take 65 bits at most, far from the limit of
32 bytes. -/
def packUintDataHelper (num : UInt64) (bitLen : Nat) : Bytes :=
  let byteCnt := bytesNeeded bitLen
  match fillBytes byteCnt num [] with
  | [] => []
  | head :: tail =>
    if bitLen ≤ 28 then
      let mask : UInt8 := UInt8.ofNat (0xf0 <<< (4 - byteCnt))
      ((head &&& ~~~mask) ||| (mask <<< 1)) :: tail
    else UInt8.ofNat (0xf0 ||| (byteCnt - 5)) :: tail

/-- `pack_uint_data`. -/
def packUintData (num : UInt64) : Bytes :=
  packUintDataHelper num (significantBitsPartLength num)

/-- `expand_bit_len`. -/
def expandBitLen (bitLen : Nat) : Nat :=
  let byteCnt := bytesNeeded bitLen
  if bitLen ≤ 28 then byteCnt * (8 - 1) - 1 else (byteCnt - 1) * 8 - 1

/-- `pack_int_data`. -/
def packIntData (snum : Int64) : Bytes :=
  let num := (if snum < 0 then -snum else snum).toUInt64
  let neg := snum < 0
  let bitlen := significantBitsPartLength num + 1
  if neg then
    let signBitMask : UInt64 := 1 <<< UInt64.ofNat (expandBitLen bitlen)
    packUintDataHelper (num ||| signBitMask) bitlen
  else packUintDataHelper num bitlen

/-- `pack_uint`. -/
def packUint (i : UInt64) : Bytes :=
  if i < 64 then [(i % 64).toUInt8] else PackingSchema.UInt :: packUintData i

/-- `pack_int`. -/
def packInt (i : Int64) : Bytes :=
  if 0 ≤ i ∧ i < 64 then [(i % 64 + 64).toUInt64.toUInt8]
  else PackingSchema.Int :: packIntData i

/-! ## writing -/

/-- The bytes a `double` has in memory, as a union shows them. -/
def doubleBytes : Nat → UInt64 → Bytes
  | 0, _ => []
  | len + 1, bits => bits.toUInt8 :: doubleBytes len (bits >>> 8)

/-- `write_double`. -/
def writeDouble (bits : UInt64) : Bytes := PackingSchema.Double :: doubleBytes 8 bits

/-- `write_decimal`. -/
def writeDecimal (mantisa : Int64) (exponent : Int32) : Bytes :=
  PackingSchema.Decimal :: (packIntData mantisa ++ packIntData exponent.toInt64)

/-- The integer of `write_datetime`. -/
def packedDateTime (dt : DateTime) : Int64 :=
  let msecs := dt.msecsSinceEpoch - SHV_EPOCH_MSEC
  let offset : Int64 := ((dt.utcOffsetMin / 15) &&& 0x7F).toInt64
  let ms := msecs % 1000
  let msecs := if ms = 0 then msecs / 1000 else msecs
  let msecs := if offset ≠ 0 then (msecs <<< 7) ||| offset else msecs
  let msecs := msecs <<< 2
  let msecs := if offset ≠ 0 then msecs ||| 1 else msecs
  if ms = 0 then msecs ||| 2 else msecs

/-- `write_datetime`. -/
def writeDateTime (dt : DateTime) : Bytes :=
  PackingSchema.DateTime :: packIntData (packedDateTime dt)

/-- `write_string`. -/
def writeString (str : Bytes) : Bytes :=
  PackingSchema.String :: (packUintData (UInt64.ofNat str.length) ++ str)

/-- The key of an entry of `write_meta`. -/
def writeMetaKey (k : Key) : Bytes :=
  if k.isIntKey then packInt k.ikey.toInt64 else writeString k.skey

mutual

/-- `write`, which is its `write_rpcval`. -/
def write : RpcValue → Bytes
  | .mk m store =>
    if m.length > 0 then
      PackingSchema.MetaMap :: (writeMetaEntries m ++ [PackingSchema.TERM]) ++ writeStore store
    else writeStore store

/-- The `switch` of `write_rpcval`; `writeInvalidAsNull` is on. -/
def writeStore : Store → Bytes
  | .invalid => [PackingSchema.Null]
  | .null => [PackingSchema.Null]
  | .bool b => [if b then PackingSchema.TRUE else PackingSchema.FALSE]
  | .integer n => packInt n
  | .uinteger n => packUint n
  | .float bits => writeDouble bits
  | .decimal mantisa exponent => writeDecimal mantisa exponent
  | .dateTime dt => writeDateTime dt
  | .string s => writeString s
  | .list vs => PackingSchema.List :: (writeElements vs ++ [PackingSchema.TERM])
  | .map m => PackingSchema.Map :: (writeMapEntries m ++ [PackingSchema.TERM])
  | .imap m => PackingSchema.IMap :: (writeIMapEntries m ++ [PackingSchema.TERM])

def writeElements : List RpcValue → Bytes
  | [] => []
  | v :: vs => write v ++ writeElements vs

def writeMapEntries : List (Bytes × RpcValue) → Bytes
  | [] => []
  | (k, v) :: m => writeString k ++ (write v ++ writeMapEntries m)

def writeIMapEntries : List (Int32 × RpcValue) → Bytes
  | [] => []
  | (k, v) :: m => packInt k.toInt64 ++ (write v ++ writeIMapEntries m)

def writeMetaEntries : List (Key × RpcValue) → Bytes
  | [] => []
  | (k, v) :: m => writeMetaKey k ++ (write v ++ writeMetaEntries m)

end

/-! ## reading -/

/-- What reading throws. -/
inductive ReadError where
  | outOfFuel
  /-- `front` of an empty range. -/
  | emptyRange
  /-- `ChainPackReadException`. -/
  | chainPack (msg : String) (pos : Nat)
  /-- `RpcException`. -/
  | rpc (msg : String)
  /-- The schema byte of `Exception("Invalid packing schema: ..")`. -/
  | invalidSchema (b : UInt8)

/-- `Reader`: the input range, and the count of the bytes taken from it. -/
abbrev Read := Parser ReadError Nat

/-- `peek_byte`; `none` is `NO_BYTE`. -/
def peekByte : Read (Option UInt8) := peek?

/-- `get_byte`. -/
def getByte : Read UInt8 := do
  match ← take? with
  | some ret =>
    modifyReg (· + 1)
    return ret
  | none => throw .emptyRange

/-- The bytes after the head of an integer. -/
def unpackUintBytes : Nat → UInt64 → Read UInt64
  | 0, num => return num
  | cnt + 1, num => do
    let r ← getByte
    unpackUintBytes cnt ((num <<< 8) + r.toUInt64)

/-- The head of an integer: number of bytes to read, bits in the head, bit length. -/
def unpackUintHead (head : UInt8) : Nat × UInt64 × Nat :=
  if head &&& 128 = 0 then (0, (head &&& 127).toUInt64, 7)
  else if head &&& 64 = 0 then (1, (head &&& 63).toUInt64, 6 + 8)
  else if head &&& 32 = 0 then (2, (head &&& 31).toUInt64, 5 + 2 * 8)
  else if head &&& 16 = 0 then (3, (head &&& 15).toUInt64, 4 + 3 * 8)
  else
    let bytesToReadCnt := (head &&& 0xf).toNat + 4
    (bytesToReadCnt, 0, bytesToReadCnt * 8)

/-- `unpack_uint_data_helper`: the number and its bit length, which is not limited to 64. -/
def unpackUintDataHelper : Read (UInt64 × Nat) := do
  let head ← getByte
  let num ← unpackUintBytes (unpackUintHead head).1 (unpackUintHead head).2.1
  return (num, (unpackUintHead head).2.2)

/-- `unpack_uint_data`. -/
def unpackUintData : Read UInt64 := do return (← unpackUintDataHelper).1

/-- The number of `unpack_int_data`. -/
def signedNum (num : UInt64) (bitlen : Nat) : Int64 :=
  let signBitMask : UInt64 := 1 <<< UInt64.ofNat (bitlen - 1)
  let neg := num &&& signBitMask ≠ 0
  let snum := num.toInt64
  if neg then -(snum &&& ~~~signBitMask.toInt64) else snum

/-- `unpack_int_data`. -/
def unpackIntData : Read Int64 := do
  let r ← unpackUintDataHelper
  return signedNum r.1 r.2

/-- `unpack_uint`. -/
def unpackUint : Read UInt64 := do
  let b ← getByte
  if b = PackingSchema.UInt then unpackUintData
  else throw (.chainPack "Data type must be UInt" (← getReg))

/-- `unpack_int`. -/
def unpackInt : Read Int64 := do
  let b ← getByte
  if b = PackingSchema.Int then unpackIntData
  else throw (.chainPack "Data type must be Int" (← getReg))

/-- `len` bytes. -/
def readBytes : Nat → Bytes → Read Bytes
  | 0, str => return str
  | len + 1, str => do
    let b ← getByte
    readBytes len (str ++ [b])

/-- The loop over a string that ends with a zero byte. -/
def readCString : Nat → Bytes → Read Bytes
  | 0, _ => throw .outOfFuel
  | n + 1, str => do
    let b ← getByte
    if b = 0 then return str
    else if b = 0x5c then
      let b ← getByte
      if b = 0x30 then readCString n (str ++ [0])
      else readCString n (str ++ [b])
    else readCString n (str ++ [b])

/-- The `double` that has these bytes in memory. -/
def doubleOfBytes : Bytes → UInt64
  | [] => 0
  | b :: bs => b.toUInt64 + 256 * doubleOfBytes bs

/-- The date-time of an unpacked integer. -/
def unpackedDateTime (d : Int64) : DateTime :=
  let hasTzOffset := d &&& 1 ≠ 0
  let hasNotMsec := d &&& 2 ≠ 0
  let d := d >>> 2
  -- shifted up and down again, for the sign
  let offset : Int8 := if hasTzOffset then ((d &&& 0x7F).toInt8 <<< 1) >>> 1 else 0
  let d := if hasTzOffset then d >>> 7 else d
  let d := if hasNotMsec then d * 1000 else d
  .ofEpochMsec (d + SHV_EPOCH_MSEC) (offset.toInt32 * 15)

/-- `map[k] = v`: a new key is put at the end. -/
def setEntry {κ : Type} [DecidableEq κ] (k : κ) (v : RpcValue) :
    List (κ × RpcValue) → List (κ × RpcValue)
  | [] => [(k, v)]
  | (k', v') :: m => if k = k' then (k, v) :: m else (k', v') :: setEntry k v m

/-- `RpcValue.str`. -/
def RpcValue.str (v : RpcValue) : Read Bytes :=
  match v.store with
  | .string s => return s
  | _ => throw (.rpc "RpcValue is not a string")

/-- `RpcValue.integer`. -/
def RpcValue.integer (v : RpcValue) : Read Int64 :=
  match v.store with
  | .integer n => return n
  | .uinteger n =>
    if n.toNat < 2 ^ 63 then return n.toInt64
    else throw (.rpc "UInt too big to be converted to Int")
  | _ => throw (.rpc "RpcValue is not an integer")

/-- The key of an integer map: an `int`. -/
def RpcValue.imapKey (k : RpcValue) : Read Int32 := do return (← k.integer).toInt32

/-- The key of metadata: a string, or an `int`. -/
def RpcValue.metaKey (k : RpcValue) : Read Key :=
  match k.store with
  | .string s => return .ofString s
  | _ => do return .ofInt (← k.integer).toInt32

section Loops

-- `read_val`, for the values inside
variable (readVal : Read RpcValue)

/-- The loop over a list. -/
def readList : Nat → List RpcValue → Read (List RpcValue)
  | 0, _ => throw .outOfFuel
  | n + 1, lst => do
    if (← peekByte) = some PackingSchema.TERM then
      let _ ← getByte
      return lst
    else
      let v ← readVal
      readList n (lst ++ [v])

/-- The loop over a map, an integer map or metadata; `key` makes the key of a value. -/
def readEntries {κ : Type} [DecidableEq κ] (key : RpcValue → Read κ) :
    Nat → List (κ × RpcValue) → Read (List (κ × RpcValue))
  | 0, _ => throw .outOfFuel
  | n + 1, map => do
    if (← peekByte) = some PackingSchema.TERM then
      let _ ← getByte
      return map
    else
      let k ← readVal
      let v ← readVal
      let k ← key k
      readEntries key n (setEntry k v map)

/-- The `switch` of `read_val` over the next byte, which is not taken yet; `n` bounds the loops. -/
def readSchema (n : Nat) (b : UInt8) : Read Store := do
  if b < 128 then
    let _ ← getByte
    if b &&& 64 ≠ 0 then return .integer (b &&& 63).toUInt64.toInt64
    else return .uinteger (b &&& 63).toUInt64
  else if b = PackingSchema.List then
    let _ ← getByte
    return .list (← readList readVal n [])
  else if b = PackingSchema.Map then
    let _ ← getByte
    return .map (← readEntries readVal RpcValue.str n [])
  else if b = PackingSchema.IMap then
    let _ ← getByte
    return .imap (← readEntries readVal RpcValue.imapKey n [])
  else if b = PackingSchema.Null then
    let _ ← getByte
    return .null
  else if b = PackingSchema.String then
    let _ ← getByte
    let len ← unpackUintData
    return .string (← readBytes len.toNat [])
  else if b = PackingSchema.CString then
    let _ ← getByte
    return .string (← readCString n [])
  else if b = PackingSchema.TRUE then
    let _ ← getByte
    return .bool true
  else if b = PackingSchema.FALSE then
    let _ ← getByte
    return .bool false
  else if b = PackingSchema.Int then return .integer (← unpackInt)
  else if b = PackingSchema.UInt then return .uinteger (← unpackUint)
  else if b = PackingSchema.Decimal then
    let _ ← getByte
    let mant ← unpackIntData
    let exp ← unpackIntData
    return .decimal mant exp.toInt32
  else if b = PackingSchema.Double then
    let _ ← getByte
    return .float (doubleOfBytes (← readBytes 8 []))
  else if b = PackingSchema.DateTime then
    let _ ← getByte
    return .dateTime (unpackedDateTime (← unpackIntData))
  else throw (.invalidSchema b)

/-- The value behind the metadata. `NO_BYTE` is less than 128, so a byte is taken. -/
def readStore (n : Nat) : Read Store := do
  match ← peekByte with
  | some b => readSchema readVal n b
  | none =>
    let _ ← getByte
    return .invalid

/-- The metadata in front of a value. -/
def readMeta (n : Nat) : Read (List (Key × RpcValue)) := do
  if (← peekByte) = some PackingSchema.MetaMap then
    let _ ← getByte
    readEntries readVal RpcValue.metaKey n []
  else return []

end Loops

/-- `read_val`. Its counter `depth` is not looked at for a `max_depth` of -1. -/
def readVal : Nat → Read RpcValue
  | 0 => throw .outOfFuel
  | n + 1 => do
    let m ← readMeta (readVal n) n
    let store ← readStore (readVal n) n
    return .mk m store

/-- `read` on an array of bytes: the value, and what is left of the array. -/
def read (input : Bytes) : Except ReadError (RpcValue × Bytes) :=
  match readVal input.length { input, last := 0, atEnd := false, reg := 0 } with
  | .ok v c => .ok (v, c.input)
  | .error e _ => .error e

end LibShv.D
