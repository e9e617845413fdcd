import LibShv.CCpcp

/-!
# LibShv.AbstractStreamReader

What `ChainPackReader` and `CponReader` have in common. Both read values,
metadata and the four container loops in the same way, mutually recursive over
the shared context; they differ in how the next item is unpacked, in how
metadata is looked for, and in the texts of their exceptions.

The recursion is bounded by a counter. `fuelFor` gives a bound that is never
reached (`LibShv.AbstractStreamReader.read_ne_outOfFuel`).
-/

namespace LibShv

open ByteReader

/-- The parts in which the two readers differ. -/
structure AbstractStreamReader where
  /-- `unpackNext`. -/
  unpackNext : Unpack CCpcpItem
  /-- The start of `read(RpcValue::MetaData &)`: is there metadata? Its first byte is taken. -/
  metaDataBegin : Unpack Bool
  /-- What `throwParseException` throws. -/
  parseException : UnpackContext → String → Fault
  /-- The message for a string that breaks off. -/
  unfinishedString : String
  /-- The message for a blob that breaks off. -/
  unfinishedBlob : String
  /-- The message for metadata on an invalid value, made from `err_msg`. -/
  invalidMetaData : String → String

namespace AbstractStreamReader

variable (rd : AbstractStreamReader)

/-- `throwParseException`. -/
def throwParseException {α : Type} (msg : String) : Unpack α := do
  throw (rd.parseException (← getReg) msg)

/-- The loop over the chunks of a string or blob in `read`, the chunk `it` being
unpacked already. `select` tests for the item type, `msg` is thrown for another one. -/
def readChunks (select : CCpcpItem → Option CCpcpString) (msg : String) :
    Nat → Bytes → CCpcpString → Unpack Bytes
  | 0, _, _ => throw .outOfFuel
  | n + 1, str, it => do
    let str := str ++ it.chunk
    if it.lastChunk then return str
    else
      match select (← rd.unpackNext) with
      | some it => readChunks select msg n str it
      | none => rd.throwParseException msg

/-- The end of every container loop: `item.type` is cleared. -/
def endContainer : Unpack Unit := setItem .invalid

/-- The end of `read`: metadata cannot be set to an invalid value. -/
def attachMetaData (md : RpcMetaData) (val : RpcValue) : Unpack RpcValue := do
  if md.isEmpty then return val
  else if val.isValid then return val.setMetaData md
  else rd.throwParseException (rd.invalidMetaData (← getReg).errMsg)

mutual

/-- `read(RpcValue &)`. -/
def read : Nat → Unpack RpcValue
  | 0 => throw .outOfFuel
  | n + 1 => do
    let md ← readMetaData n
    let item ← rd.unpackNext
    let val ← readItem n item
    rd.attachMetaData md val

/-- The `switch` of `read` over the item type. -/
def readItem : Nat → CCpcpItem → Unpack RpcValue
  | 0, _ => throw .outOfFuel
  | n + 1, item => do
    match item with
    | .invalid => return .invalid
    | .list => return .ofVariant (.list (← parseList n []))
    | .map => return .ofVariant (.map (← parseMap n []))
    | .imap => return .ofVariant (.imap (← parseIMap n []))
    | .containerEnd => return .invalid
    | .null => return .ofVariant .null
    | .string it =>
      return .ofVariant (.string (← rd.readChunks CCpcpItem.string? rd.unfinishedString n [] it))
    | .blob it => return .ofVariant (.blob (← rd.readChunks CCpcpItem.blob? rd.unfinishedBlob n [] it))
    | .boolean b => return .ofVariant (.bool b)
    | .int i => return .ofVariant (.int i)
    | .uint u => return .ofVariant (.uint u)
    | .decimal mantisa exponent => return .ofVariant (.decimal ⟨mantisa, exponent⟩)
    | .double bits => return .ofVariant (.double bits)
    | .dateTime msecs minutes =>
      return .ofVariant (.dateTime (.fromMSecsSinceEpoch msecs minutes))
    | .metaMap => rd.throwParseException "Invalid type."

/-- `read(RpcValue::MetaData &)`. -/
def readMetaData : Nat → Unpack RpcMetaData
  | 0 => throw .outOfFuel
  | n + 1 => do
    if ← rd.metaDataBegin then parseMetaData n .empty
    else return .empty

def parseList : Nat → RpcList → Unpack RpcList
  | 0, _ => throw .outOfFuel
  | n + 1, lst => do
    let v ← read n
    if (← getItem) = .containerEnd then
      endContainer
      return lst
    else parseList n (lst ++ [v])

def parseMetaData : Nat → RpcMetaData → Unpack RpcMetaData
  | 0, _ => throw .outOfFuel
  | n + 1, md => do
    let key ← read n
    if (← getItem) = .containerEnd then
      endContainer
      return md
    else
      let val ← read n
      if key.isString then parseMetaData n (md.setSValue key.asString val)
      else
        let key ← liftRuntime key.toInt
        parseMetaData n (md.setIValue key val)

def parseMap : Nat → RpcMap → Unpack RpcMap
  | 0, _ => throw .outOfFuel
  | n + 1, map => do
    let key ← read n
    if (← getItem) = .containerEnd then
      endContainer
      return map
    else
      let val ← read n
      parseMap n (SortedMap.insert key.asString val map)

def parseIMap : Nat → RpcIMap → Unpack RpcIMap
  | 0, _ => throw .outOfFuel
  | n + 1, map => do
    let key ← read n
    if (← getItem) = .containerEnd then
      endContainer
      return map
    else
      let val ← read n
      let key ← liftRuntime key.toInt
      parseIMap n (SortedMap.insert key val map)

end

/-- A recursion bound for `len` bytes of input. -/
def fuelFor (len : Nat) : Nat := 3 * len + 4

/-- `rd.read(val)` on a fresh stream. -/
def readFrom (input : Bytes) : EStateM.Result Fault (Cursor UnpackContext) RpcValue :=
  rd.read (fuelFor input.length) (openStream input)

end AbstractStreamReader

end LibShv
