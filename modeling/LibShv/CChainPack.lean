import LibShv.CCpcp

/-!
# LibShv.CChainPack

ChainPack packing and unpacking of single items (`cchainpack.c`).

Packing is a function to bytes. Unpacking is split as in the source: the variable-length
integers, the string chunks, and `cchainpack_unpack_next`, which
continues an unfinished string or starts the next item.
-/

namespace LibShv

open ByteReader

/-! ## packing schema -/

def CP_Null : UInt8 := 128
def CP_UInt : UInt8 := 129
def CP_Int : UInt8 := 130
def CP_Double : UInt8 := 131
def CP_Bool : UInt8 := 132
def CP_Blob : UInt8 := 133
def CP_String : UInt8 := 134
def CP_List : UInt8 := 136
def CP_Map : UInt8 := 137
def CP_IMap : UInt8 := 138
def CP_MetaMap : UInt8 := 139
def CP_Decimal : UInt8 := 140
def CP_DateTime : UInt8 := 141
def CP_CString : UInt8 := 142
def CP_FALSE : UInt8 := 253
def CP_TRUE : UInt8 := 254
def CP_TERM : UInt8 := 255

/-- 2018-02-02, in milliseconds. -/
def SHV_EPOCH_MSEC : Int64 := 1517529600000

/-! ## packing integers -/

/-- `significant_bits_part_length`. -/
def significantBitsPartLength (n : UInt64) : Nat :=
  if n = 0 then 0 else n.toNat.log2 + 1

/-- `bytes_needed`: number of bytes needed to encode `bitLen`. C's division
rounds `(0 - 1) / 7` to zero. -/
def bytesNeeded (bitLen : Nat) : Nat :=
  if bitLen ≤ 28 then (bitLen - 1) / 7 + 1 else (bitLen - 1) / 8 + 2

/-- The `cnt` low bytes of `num`, most significant first. -/
def bigEndian : Nat → UInt64 → Bytes
  | 0, _ => []
  | cnt + 1, num => bigEndian cnt (num >>> 8) ++ [num.toUInt8]

/-- `pack_uint_data_helper`: the low bytes of `num` with the length in the head. -/
def packUintDataHelper (num : UInt64) (bitLen : Nat) : Bytes :=
  let byteCnt := bytesNeeded bitLen
  match bigEndian byteCnt num with
  | [] => []
  | head :: tail =>
    if bitLen ≤ 28 then
      let mask : UInt8 := UInt8.ofNat (0xf0 <<< (4 - byteCnt))
      ((head &&& ~~~mask) ||| (mask <<< 1)) :: tail
    else
      (0xf0 ||| UInt8.ofNat (byteCnt - 5)) :: tail

/-- `cchainpack_pack_uint_data`. -/
def packUintData (num : UInt64) : Bytes :=
  packUintDataHelper num (significantBitsPartLength num)

/-- `expand_bit_len`: the position of the sign bit. -/
def expandBitLen (bitLen : Nat) : Nat :=
  let byteCnt := bytesNeeded bitLen
  if bitLen ≤ 28 then byteCnt * (8 - 1) - 1 else (byteCnt - 1) * 8 - 1

/-- `cchainpack_pack_int_data`: absolute value and sign bit. -/
def packIntData (snum : Int64) : Bytes :=
  let neg := snum < 0
  let num := (if neg then -snum else snum).toUInt64
  let bitlen := significantBitsPartLength num + 1
  let num := if neg then num ||| (1 <<< UInt64.ofNat (expandBitLen bitlen)) else num
  packUintDataHelper num bitlen

/-! ## packing items -/

/-- `cchainpack_pack_uint`. -/
def packUint (i : UInt64) : Bytes :=
  if i < 64 then [(i % 64).toUInt8] else CP_UInt :: packUintData i

/-- `cchainpack_pack_int`. -/
def packInt (i : Int64) : Bytes :=
  if 0 ≤ i ∧ i < 64 then [(i % 64 + 64).toUInt64.toUInt8] else CP_Int :: packIntData i

/-- `cchainpack_pack_decimal`. -/
def packDecimal (i : Int64) (exponent : Int32) : Bytes :=
  CP_Decimal :: (packIntData i ++ packIntData exponent.toInt64)

/-- The `len` bytes of a value, least significant first. -/
def littleEndian : Nat → UInt64 → Bytes
  | 0, _ => []
  | len + 1, n => n.toUInt8 :: littleEndian len (n >>> 8)

/-- `cchainpack_pack_double`. -/
def packDouble (bits : UInt64) : Bytes := CP_Double :: littleEndian 8 bits

/-- The integer of `cchainpack_pack_date_time`: msecs (or secs), offset and the two flags. -/
def packedDateTime (epochMsecs : Int64) (minFromUtc : Int) : Int64 :=
  let msecs := epochMsecs - SHV_EPOCH_MSEC
  let offset : Int64 := Int64.ofInt (minFromUtc.tdiv 15) &&& 0x7F
  let ms := msecs % 1000
  let msecs := if ms = 0 then msecs / 1000 else msecs
  let msecs := if offset ≠ 0 then (msecs * 128) ||| offset else msecs
  let msecs := msecs * 4
  let msecs := if offset ≠ 0 then msecs ||| 1 else msecs
  if ms = 0 then msecs ||| 2 else msecs

/-- `cchainpack_pack_date_time`. -/
def packDateTime (epochMsecs : Int64) (minFromUtc : Int) : Bytes :=
  CP_DateTime :: packIntData (packedDateTime epochMsecs minFromUtc)

/-- `cchainpack_pack_boolean`. -/
def packBoolean (b : Bool) : Bytes := [if b then CP_TRUE else CP_FALSE]

/-- `cchainpack_pack_blob`. -/
def packBlob (bytes : Bytes) : Bytes :=
  CP_Blob :: (packUintData (UInt64.ofNat bytes.length) ++ bytes)

/-- `cchainpack_pack_string`. -/
def packString (bytes : Bytes) : Bytes :=
  CP_String :: (packUintData (UInt64.ofNat bytes.length) ++ bytes)

/-! ## unpacking integers -/

/-- The bytes after the head of an integer, shifted into `num`. -/
def unpackUintBytes : Nat → UInt64 → Unpack UInt64
  | 0, num => return num
  | cnt + 1, num => do
    let r ← unpackTakeByte
    unpackUintBytes cnt ((num <<< 8) + r.toUInt64)

/-- The head of an integer: number of bytes to read, bits in the head, bit length. -/
def unpackUintHead (head : UInt8) : Nat × UInt64 × Nat :=
  if head &&& 128 = 0 then (0, (head &&& 127).toUInt64, 7)
  else if head &&& 64 = 0 then (1, (head &&& 63).toUInt64, 6 + 8)
  else if head &&& 32 = 0 then (2, (head &&& 31).toUInt64, 5 + 2 * 8)
  else if head &&& 16 = 0 then (3, (head &&& 15).toUInt64, 4 + 3 * 8)
  else
    let cnt := (head &&& 0xf).toNat + 4
    (cnt, 0, cnt * 8)

/-- `unpack_uint`: the number and its bit length. Numbers greater than 64 bits
are returned as `UINT64_MAX`. -/
def unpackUint : Unpack (UInt64 × Nat) := do
  let head ← unpackTakeByte
  let (cnt, num, bitlen) := unpackUintHead head
  let num ← unpackUintBytes cnt num
  return (if bitlen > 64 then 0xFFFFFFFFFFFFFFFF else num, bitlen)

/-- The value of `unpack_int`: the sign bit is the highest of `bitlen` bits. -/
def signedValue (num : UInt64) (bitlen : Nat) : Int64 :=
  if bitlen > 64 then Int64.maxValue
  else
    let signBitMask : UInt64 := 1 <<< UInt64.ofNat (bitlen - 1)
    if num &&& signBitMask ≠ 0 then -((num &&& ~~~signBitMask).toInt64) else num.toInt64

/-- `unpack_int`. -/
def unpackInt : Unpack Int64 := do
  let (num, bitlen) ← unpackUint
  return signedValue num bitlen

/-! ## unpacking strings -/

/-- The chunk of a C string: up to `room` bytes, an escaped one ends the chunk.
Returns the chunk and whether the terminator was reached. -/
def unpackCStringChunk : Nat → Bytes → Unpack (Bytes × Bool)
  | 0, chunk => return (chunk, false)
  | room + 1, chunk => do
    let p ← unpackTakeByte
    if p = 0x5c then
      let q ← unpackTakeByte
      if q = 0x30 then return (chunk ++ [0], false)
      else return (chunk ++ [q], false)
    else if p = 0 then return (chunk, true)
    else unpackCStringChunk room (chunk ++ [p])

/-- The chunk of a string of known size: up to `room` of the bytes to load.
Returns the chunk and what is left to load. -/
def unpackSizedChunk : Nat → Int64 → Bytes → Unpack (Bytes × Int64)
  | 0, sizeToLoad, chunk => return (chunk, sizeToLoad)
  | room + 1, sizeToLoad, chunk => do
    if sizeToLoad > 0 then
      let p ← unpackTakeByte
      unpackSizedChunk room (sizeToLoad - 1) (chunk ++ [p])
    else return (chunk, sizeToLoad)

/-- `unpack_string`: the next chunk. -/
def unpackString (it : CCpcpString) : Unpack CCpcpString := do
  if it.stringSize < 0 then
    let (chunk, last) ← unpackCStringChunk stringChunkBuffLen []
    return { it with chunk, lastChunk := it.lastChunk || last, chunkCnt := it.chunkCnt + 1 }
  else
    let (chunk, sizeToLoad) ← unpackSizedChunk stringChunkBuffLen it.sizeToLoad []
    return { it with
      chunk, sizeToLoad, lastChunk := sizeToLoad == 0, chunkCnt := it.chunkCnt + 1 }

/-! ## unpacking items -/

/-- The date-time of an unpacked integer; a failed multiplication is `none`. -/
def unpackedDateTime (d : Int64) : Option (Int64 × Int) :=
  let hasTzOffset := d &&& 1 ≠ 0
  let hasNotMsec := d &&& 2 ≠ 0
  let d := d >>> 2
  let offset : Int := if hasTzOffset then (BitVec.ofInt 7 d.toInt).toInt else 0
  let d := if hasTzOffset then d >>> 7 else d
  let msecs : Option Int64 :=
    if hasNotMsec then
      let p := d.toInt * 1000
      if -2 ^ 63 ≤ p ∧ p < 2 ^ 63 then some (Int64.ofInt p) else none
    else some d
  msecs.map fun msecs => (msecs + SHV_EPOCH_MSEC, offset * 15)

/-- The eight bytes of a `double`, `shift` bits up. -/
def unpackDoubleBytes : Nat → UInt64 → UInt64 → Unpack UInt64
  | 0, _, bits => return bits
  | len + 1, shift, bits => do
    let b ← unpackTakeByte
    unpackDoubleBytes len (shift + 8) (bits ||| (b.toUInt64 <<< shift))

/-- A string or blob whose size is packed in front of it. -/
def unpackSizedString : Unpack CCpcpString := do
  let (size, _) ← unpackUint
  unpackString { CCpcpString.init with stringSize := size.toInt64, sizeToLoad := size.toInt64 }

/-- The item that starts with `packingSchema`. -/
def unpackItem (packingSchema : UInt8) : Unpack CCpcpItem := do
  if packingSchema < 128 then
    if packingSchema &&& 64 ≠ 0 then return .int (packingSchema &&& 63).toUInt64.toInt64
    else return .uint (packingSchema &&& 63).toUInt64
  else if packingSchema = CP_Null then return .null
  else if packingSchema = CP_TRUE then return .boolean true
  else if packingSchema = CP_FALSE then return .boolean false
  else if packingSchema = CP_Int then return .int (← unpackInt)
  else if packingSchema = CP_UInt then return .uint (← unpackUint).1
  else if packingSchema = CP_Double then return .double (← unpackDoubleBytes 8 0 0)
  else if packingSchema = CP_Decimal then
    let mant ← unpackInt
    let exp ← unpackInt
    return .decimal mant exp.toInt32
  else if packingSchema = CP_DateTime then
    match unpackedDateTime (← unpackInt) with
    | some (msecs, offset) => return .dateTime msecs offset
    | none => unpackError .malformedInput "DateTime msec value overflow."
  else if packingSchema = CP_MetaMap then return .metaMap
  else if packingSchema = CP_Map then return .map
  else if packingSchema = CP_IMap then return .imap
  else if packingSchema = CP_List then return .list
  else if packingSchema = CP_TERM then return .containerEnd
  else if packingSchema = CP_Blob then return .blob (← unpackSizedString)
  else if packingSchema = CP_String then return .string (← unpackSizedString)
  else if packingSchema = CP_CString then return .string (← unpackString .init)
  else unpackError .malformedInput "Invalid type info."

/-- `cchainpack_unpack_next`: continue an unfinished string or blob, or start
the next item. The context has no container stack under a C++ reader. -/
def cchainpackUnpackNext : Unpack Unit := do
  checkErrNo
  match ← getItem with
  | .string it =>
    if it.lastChunk then setItem (← unpackItem (← unpackTakeByte))
    else setItem (.string (← unpackString it))
  | .blob it =>
    if it.lastChunk then setItem (← unpackItem (← unpackTakeByte))
    else setItem (.blob (← unpackString it))
  | _ => setItem (← unpackItem (← unpackTakeByte))

end LibShv
