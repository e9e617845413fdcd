import LibShv.QString
import LibShv.RpcValue

/-!
# LibShv.CoreQt

Values in variants of Qt and back (`coreqt/rpc.cpp`).

Qt keeps what is put into it. A `QMap` is the list of its entries in the order in which their
keys came; no function here looks at the order of a `QMap`. `QVariant::isNull` is the one
of Qt 6, which is true of no text and no byte array.
-/

namespace LibShv

/-! ## texts -/

namespace QString

/-- `QString::toStdString`. -/
def toStdString (s : QString) : Bytes := s.flatMap String.utf8EncodeChar

end QString

/-- `QString::fromStdString`; what is made of bytes that are no UTF-8 is left open. -/
structure QtTexts where
  fromStdString : Bytes → QString
  fromStdString_toStdString : ∀ s : QString, fromStdString s.toStdString = s

/-- The bytes are valid UTF-8. -/
def ValidUtf8 (bs : Bytes) : Prop := ∃ s : QString, bs = s.toStdString

/-! ## variants -/

/-- `QDateTime`: a time, and the offset that it is shown with. -/
structure QDateTime where
  msecsSinceEpoch : Int64
  offsetFromUtc : Int
deriving DecidableEq

/-- `QVariant`, by the `userType`; a `QDateTime` may be null. -/
inductive QVariant where
  | invalid
  | nullptr
  | uchar (n : UInt8)
  | ushort (n : UInt16)
  | uint (n : UInt32)
  | ulonglong (n : UInt64)
  | char (n : Int8)
  | schar (n : Int8)
  | short (n : Int16)
  | int (n : Int32)
  | longlong (n : Int64)
  | float (bits : UInt32)
  | double (bits : UInt64)
  | bool (b : Bool)
  | string (s : QString)
  | byteArray (ba : Bytes)
  | dateTime (dt : Option QDateTime)
  | stringList (l : List QString)
  | list (l : List QVariant)
  | map (m : List (QString × QVariant))
  /-- `std::map<int, RpcValue>`. -/
  | rpcIMap (m : RpcIMap)
  /-- A type that is not converted, with what `toString` makes of it. -/
  | other (text : QString)

abbrev QVariantList := List QVariant
abbrev QVariantMap := List (QString × QVariant)

namespace QVariantMap

/-- `map[key] = value`. -/
def set (key : QString) (value : QVariant) : QVariantMap → QVariantMap
  | [] => [(key, value)]
  | e :: m => if e.1 = key then (key, value) :: m else e :: set key value m

/-- `map.value(key)`: an invalid variant for a key that is not there. -/
def value (m : QVariantMap) (key : QString) : QVariant :=
  ((m.find? fun e => e.1 = key).map (·.2)).getD .invalid

end QVariantMap

/-! ## values in variants -/

section Conversion

variable (qt : QtTexts)

mutual

/-- `rpcValueToQVariant`; every type is converted, so that `ok` stays true. -/
def rpcValueToQVariant : RpcValue → QVariant
  | .mk _ v => variantToQVariant v

/-- The `switch` of `rpcValueToQVariant`. -/
def variantToQVariant : Variant → QVariant
  | .invalid => .invalid
  | .null => .nullptr
  | .uint n => .uint n.toUInt32
  | .int n => .int n.toInt32
  | .double bits => .double bits
  | .bool b => .bool b
  | .string s => .string (qt.fromStdString s)
  | .blob bytes => .byteArray bytes
  | .dateTime dt => .dateTime (some ⟨dt.msecsSinceEpoch, dt.utcOffsetMin * 60⟩)
  | .list vs => .list (toQVariantList vs)
  | .map m => .map (toQVariantMap [] m)
  | .imap m => .rpcIMap (SortedMap.insertAll [] m)
  | .decimal d => .double d.toDouble.toBits

def toQVariantList : List RpcValue → QVariantList
  | [] => []
  | v :: vs => rpcValueToQVariant v :: toQVariantList vs

/-- The loop over a map, from the entries made so far. -/
def toQVariantMap (map : QVariantMap) : List (Bytes × RpcValue) → QVariantMap
  | [] => map
  | (k, v) :: m => toQVariantMap (map.set (qt.fromStdString k) (rpcValueToQVariant v)) m

end

end Conversion

/-- `setUtcOffsetMin`. -/
def RpcDateTime.setUtcOffsetMin (dt : RpcDateTime) (utc_offset_min : Int) : RpcDateTime :=
  { dt with tz := BitVec.ofInt 7 (utc_offset_min.tdiv 15) }

/-- The date-time of a `QDateTime`. -/
def ofQDateTime : Option QDateTime → RpcDateTime
  | none => ⟨0, 0⟩
  | some qdt => (RpcDateTime.fromMSecsSinceEpoch qdt.msecsSinceEpoch 0).setUtcOffsetMin
      (qdt.offsetFromUtc.tdiv 60)

mutual

/-- `qVariantToRpcValue` without `ok`. -/
def qVariantToRpcValue : QVariant → RpcValue
  | .invalid => .invalid
  | .nullptr => .ofVariant .null
  | .rpcIMap m => .ofVariant (.imap (SortedMap.insertAll [] m))
  | .uchar n => .ofVariant (.uint n.toUInt64)
  | .ushort n => .ofVariant (.uint n.toUInt64)
  | .uint n => .ofVariant (.uint n.toUInt64)
  | .ulonglong n => .ofVariant (.uint n)
  | .char n => .ofVariant (.int n.toInt64)
  | .schar n => .ofVariant (.int n.toInt64)
  | .short n => .ofVariant (.int n.toInt64)
  | .int n => .ofVariant (.int n.toInt64)
  | .longlong n => .ofVariant (.int n)
  | .float bits => .ofVariant (.double (Float32.ofBits bits).toFloat.toBits)
  | .double bits => .ofVariant (.double bits)
  | .bool b => .ofVariant (.bool b)
  | .string s => .ofVariant (.string s.toStdString)
  | .byteArray ba => .ofVariant (.blob ba)
  | .dateTime dt => .ofVariant (.dateTime (ofQDateTime dt))
  | .stringList l => .ofVariant (.list (l.map fun s => .ofVariant (.string s.toStdString)))
  | .list l => .ofVariant (.list (toRpcList l))
  | .map m => .ofVariant (.map (toRpcMap [] m))
  | .other text => .ofVariant (.string text.toStdString)

def toRpcList : QVariantList → RpcList
  | [] => []
  | v :: l => qVariantToRpcValue v :: toRpcList l

/-- The loop over a `QVariantMap`, from the entries made so far. -/
def toRpcMap (map : RpcMap) : QVariantMap → RpcMap
  | [] => map
  | (k, v) :: m => toRpcMap (SortedMap.insert k.toStdString (qVariantToRpcValue v) map) m

end

/-- `qVariantToRpcValue` with `ok`: what it is set to, and the value. -/
def qVariantToRpcValueOk (v : QVariant) : Bool × RpcValue :=
  match v with
  | .other _ => (false, .invalid)
  | _ => (true, qVariantToRpcValue v)

end LibShv
