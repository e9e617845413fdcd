import LibShv.CoreQt.JsonText
import LibShv.CoreQt.RoundTrip
import LibShv.CponWriter.PlainText

/-!
# LibShv.CoreQt.Json

Values as JSON (`coreqt/utils.cpp`). Arrays and objects are written by `QJsonDocument`, the
other values by hand.
-/

namespace LibShv

open CCpon JsonText

/-! ## texts -/

namespace QString

/-- `QString::fromLatin1`. -/
def fromLatin1 (bs : Bytes) : QString := bs.map fun b => Char.ofNat b.toNat

/-- `QString::toLatin1`: a question mark for every code unit that is no Latin-1. -/
def toLatin1 (s : QString) : Bytes :=
  s.flatMap fun c =>
    if c.toNat < 0x100 then [UInt8.ofNat c.toNat]
    else if c.toNat < 0x10000 then [0x3f]
    else [0x3f, 0x3f]

end QString

/-- A digit of base64. -/
def base64Char (n : Nat) : UInt8 :=
  (ascii "ABCDEFGHIJKLMNOPQRSTUVWXYZabcdefghijklmnopqrstuvwxyz0123456789+/").getD (n % 64) 0

/-- `QByteArray::toBase64`. -/
def toBase64 : Bytes → Bytes
  | [] => []
  | [a] =>
    let n := a.toNat * 16
    [base64Char (n / 64), base64Char n, 0x3d, 0x3d]
  | [a, b] =>
    let n := (a.toNat * 256 + b.toNat) * 4
    [base64Char (n / 4096), base64Char (n / 64), base64Char n, 0x3d]
  | a :: b :: c :: bs =>
    let n := (a.toNat * 256 + b.toNat) * 256 + c.toNat
    base64Char (n / 262144) :: base64Char (n / 4096) :: base64Char (n / 64) :: base64Char n ::
      toBase64 bs

/-- `toIsoString(MsecPolicy::Always, true)`, into a buffer of 32 bytes. -/
def RpcDateTime.toIsoStringAlways (dt : RpcDateTime) : Bytes :=
  let tm := gmtime (dt.msecsSinceEpoch / 1000 + Int64.ofInt (dt.utcOffsetMin * 60))
  let str := dateField (tm.tm_year + 1900) ++ minus :: dateField (tm.tm_mon + 1) ++
    minus :: dateField tm.tm_mday ++ 0x54 :: dateField tm.tm_hour ++
    C_KEY_DELIM :: dateField tm.tm_min ++ C_KEY_DELIM :: dateField tm.tm_sec
  let msec := (dt.msecsSinceEpoch % 1000).toInt32.toUInt32.toUInt64
  let absMin := Int32.ofNat dt.utcOffsetMin.natAbs
  let tz :=
    if dt.utcOffsetMin = 0 then [0x5a]
    else (if dt.utcOffsetMin < 0 then minus else 0x2b) ::
      (dateField (absMin / 60) ++ (if absMin % 60 ≠ 0 then dateField (absMin % 60) else []))
  (str ++ dot :: uintToStrLpad str msec 3 0x30 ++ tz).take 32

/-! ## JSON -/

/-- The number that a `double` is. -/
def QDouble.ofBits (bits : UInt64) : QDouble :=
  let sign : ℚ := if bits.toNat / 2 ^ 63 = 1 then -1 else 1
  let ex : ℕ := bits.toNat / 2 ^ 52 % 2048
  let fr : ℕ := bits.toNat % 2 ^ 52
  if ex = 2047 then .nonFinite bits
  else if ex = 0 then .finite (sign * fr / 2 ^ 1074)
  else .finite (sign * (2 ^ 52 + fr) * 2 ^ ((ex : ℤ) - 1075))

/-- What is used of Qt: how a `double` is written, and `QJsonDocument::toJson`. -/
structure QtJson extends QtTexts where
  number : QDouble → Bytes
  toJson : QJsonValue → Bytes

section Json

variable (qt : QtTexts) (toInt : Int → Int)

mutual

/-- `rpcValueToJson`; an integer becomes what `toInt` makes of it. -/
def jsonOf : RpcValue → QJsonValue
  | .mk _ v => variantToJson v

/-- The `switch` of `rpcValueToJson`. -/
def variantToJson : Variant → QJsonValue
  | .invalid => .null
  | .null => .null
  | .uint n => .double (.finite (toInt n.toNat))
  | .int n => .double (.finite (toInt n.toInt))
  | .double bits => .double (.ofBits bits)
  | .decimal d => .double (.ofBits d.toDouble.toBits)
  | .bool b => .bool b
  | .string s => .string (qt.fromStdString s)
  | .blob bytes => .string (QString.fromLatin1 (toBase64 bytes))
  | .dateTime dt => .string (qt.fromStdString dt.toIsoStringAlways)
  | .list vs => .array (listToJson vs)
  | .map m => .object (mapToJson [] m)
  | .imap m => .object (imapToJson [] m)

def listToJson : List RpcValue → List QJsonValue
  | [] => []
  | v :: vs => jsonOf v :: listToJson vs

/-- The loop over a map, from the members made so far. -/
def mapToJson (object : List (QString × QJsonValue)) :
    List (Bytes × RpcValue) → List (QString × QJsonValue)
  | [] => object
  | (key, val) :: m =>
    mapToJson (SortedMap.insert (qt.fromStdString key) (jsonOf val) object) m

/-- The loop over an `IMap`; its keys are written by `QString::number`. -/
def imapToJson (object : List (QString × QJsonValue)) :
    List (Int32 × RpcValue) → List (QString × QJsonValue)
  | [] => object
  | (key, val) :: m => imapToJson
      (SortedMap.insert (QString.fromLatin1 (Decimal.intDigits key.toInt)) (jsonOf val) object) m

end

end Json

/-- `RpcValue::toInt` of an integer. -/
def cutToInt (n : Int) : Int := (Int32.ofInt n).toInt

/-- `utils::rpcValueToJson`. -/
def rpcValueToJson (qt : QtTexts) (v : RpcValue) : QJsonValue := jsonOf qt cutToInt v

/-- `utils::jsonValueToByteArray`. -/
def jsonValueToByteArray (qt : QtJson) : QJsonValue → Bytes
  | .object m => qt.toJson (.object m)
  | .array vs => qt.toJson (.array vs)
  | .null => ascii "null"
  | .bool b => if b then ascii "true" else ascii "false"
  | .double x => qt.number x
  | .string s => QString.toLatin1 ('"' :: (s ++ ['"']))
  | .undefined => ascii "undefined"

end LibShv
