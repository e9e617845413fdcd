import LibShv.CCpcp
import LibShv.Lib.Decimal

/-!
# LibShv.CCpon

CPON packing and unpacking of single items (`ccpon.c`, and the decimal printing
of `ccpcp.c`).

Packing is a function to bytes. Unpacking follows the source: the skipper of
insignificant characters and the number reader are scans, strings and blobs come
in chunks, and `unpackNext` continues an unfinished string or starts the next item.
-/

namespace LibShv.CCpon

open ByteReader Decimal

/-! ## characters -/

def C_KEY_DELIM : UInt8 := 0x3a
def C_FIELD_DELIM : UInt8 := 0x2c
def C_LIST_BEGIN : UInt8 := 0x5b
def C_LIST_END : UInt8 := 0x5d
def C_MAP_BEGIN : UInt8 := 0x7b
def C_MAP_END : UInt8 := 0x7d
def C_META_BEGIN : UInt8 := 0x3c
def C_META_END : UInt8 := 0x3e
def C_UNSIGNED_END : UInt8 := 0x75

def quote : UInt8 := 0x22
def backslash : UInt8 := 0x5c
def space : UInt8 := 0x20
def newline : UInt8 := 0x0a
def minus : UInt8 := 0x2d
def dot : UInt8 := 0x2e

/-- `hexify`. -/
def hexify (b : UInt8) : UInt8 :=
  if b ≤ 9 then b + 0x30
  else if 10 ≤ b ∧ b ≤ 15 then b - 10 + 0x61
  else 0x3f

/-- `unhex`: `none` stands for -1. -/
def unhex (b : UInt8) : Option UInt8 :=
  if 0x30 ≤ b ∧ b ≤ 0x39 then some (b - 0x30)
  else if 0x61 ≤ b ∧ b ≤ 0x66 then some (b - 0x61 + 10)
  else if 0x41 ≤ b ∧ b ≤ 0x46 then some (b - 0x41 + 10)
  else none

/-! ## numbers to text -/

/-- `uint_to_str`. -/
def uintToStr (n : UInt64) : Bytes := digits n.toNat

/-- `int_to_str`. -/
def intToStr (n : Int64) : Bytes :=
  if n < 0 then minus :: uintToStr (-n).toUInt64 else uintToStr n.toUInt64

/-- `ccpon_pack_uint`. -/
def packUint (i : UInt64) : Bytes := uintToStr i ++ [C_UNSIGNED_END]

/-- `ccpon_pack_int`. -/
def packInt (i : Int64) : Bytes := intToStr i

/-- The digits of `int_to_str` in `ccpcp.c`, last one first. The least
64-bit integer stays negative there, and so do its remainders. -/
def decimalDigits : Nat → Int64 → Bytes
  | 0, _ => []
  | n + 1, val => if val = 0 then [] else (0x30 + (val % 10).toUInt64.toUInt8) :: decimalDigits n (val / 10)

/-- `int_to_str` of `ccpcp.c`. No number has more than 20 digits. -/
def decimalToStr (val : Int64) : Bytes :=
  let abs := if val < 0 then -val else val
  let str := if abs = 0 then [0x30] else (decimalDigits 20 abs).reverse
  if val < 0 then minus :: str else str

/-- `ccpcp_decimal_to_string`. -/
def decimalToString (mantisa : Int64) (exponent : Int32) : Bytes :=
  let neg := mantisa < 0
  let str := decimalToStr (if neg then -mantisa else mantisa)
  let decPlaces := (-exponent.toInt).toNat
  let text :=
    if 0 < decPlaces ∧ decPlaces < str.length then
      let dotIx := str.length - decPlaces
      str.take dotIx ++ dot :: str.drop dotIx
    else if 0 < decPlaces ∧ decPlaces ≤ 3 then
      0x30 :: dot :: (List.replicate (decPlaces - str.length) 0x30 ++ str)
    else if 0 < exponent ∧ str.length + exponent.toInt.toNat ≤ 9 then
      str ++ List.replicate exponent.toInt.toNat 0x30 ++ [dot]
    else if exponent = 0 then str ++ [dot]
    else str ++ ascii "e" ++ decimalToStr exponent.toInt64
  if neg then minus :: text else text

/-- `ccpon_pack_decimal`. -/
def packDecimal (mantisa : Int64) (exponent : Int32) : Bytes := decimalToString mantisa exponent

/-! ## doubles to text -/

/-- `uint_dot_uint_to_str`: the zeros at the end of the second number are removed. -/
def uintDotUintToStr (n1 n2 : UInt32) : Bytes :=
  uintToStr n1.toUInt64 ++ dot ::
    (if n2 > 0 then ((uintToStr n2.toUInt64).reverse.dropWhile (· = 0x30)).reverse else [])

/-- Divide by ten while the number is ten or more, counting the divisions. A finite
double takes at most 308; the source does not terminate on an infinity. -/
def scaleDown : Nat → Float → Nat → Float × Nat
  | 0, d, cnt => (d, cnt)
  | n + 1, d, cnt => if d ≥ 10 then scaleDown n (d / 10) (cnt + 1) else (d, cnt)

/-- Multiply by ten while the number is less than one. -/
def scaleUp : Nat → Float → Nat → Float × Nat
  | 0, d, cnt => (d, cnt)
  | n + 1, d, cnt => if d < 1 then scaleUp n (d * 10) (cnt + 1) else (d, cnt)

/-- The exponential notation of `double_to_str`: six decimal places and the exponent. -/
def exponentialToStr (d : Float) (exp : Int64) : Bytes :=
  let ud := (Nat.repeat (· * 10) 6 d).toUInt32
  let str := uintDotUintToStr (ud / 1000000) (ud % 1000000)
  let str := if str.getLast? = some dot then str.dropLast else str
  str ++ ascii "e" ++ intToStr exp

/-- `double_to_str` for a positive number. -/
def positiveToStr (d : Float) : Bytes :=
  if d < 1e7 ∧ d ≥ 0.1 then
    if d < 1 then uintDotUintToStr 0 (Nat.repeat (· * 10) 6 d).toUInt32
    else
      let (d, cnt) := scaleDown 7 d 0
      let myprec := Nat.repeat (· * 10) 6 (Nat.repeat (· / 10) cnt 1.0)
      let ud := (Nat.repeat (· * 10) 6 d).toUInt32
      uintDotUintToStr (ud / myprec.toUInt32) (ud % myprec.toUInt32)
  else if d < 1 then
    let (d, cnt) := scaleUp 400 d 0
    exponentialToStr d (-Int64.ofNat cnt)
  else
    let (d, cnt) := scaleDown 400 d 0
    exponentialToStr d (Int64.ofNat cnt)

/-- `double_to_str`. -/
def doubleToStr (d : Float) : Bytes :=
  if d == 0 then ascii "0."
  else if d < 0 then minus :: positiveToStr (-d)
  else positiveToStr d

/-- `ccpon_pack_double`. -/
def packDouble (bits : UInt64) : Bytes := doubleToStr (Float.ofBits bits)

/-! ## date-times to text -/

/-- `struct tm` as far as it is used. -/
structure Tm where
  tm_year : Int32
  tm_mon : Int32
  tm_mday : Int32
  tm_hour : Int32
  tm_min : Int32
  tm_sec : Int32
deriving DecidableEq

/-- `civil_from_days`: year, month from 0 and day. -/
def civilFromDays (z : Int) : Int × Int × Int :=
  let z := z + 719468
  let era := (if z ≥ 0 then z else z - 146096).tdiv 146097
  let doe := z - era * 146097
  let yoe := (doe - doe.tdiv 1460 + doe.tdiv 36524 - doe.tdiv 146096).tdiv 365
  let y := yoe + era * 400
  let doy := doe - (365 * yoe + yoe.tdiv 4 - yoe.tdiv 100)
  let mp := (5 * doy + 2).tdiv 153
  let d := doy - (153 * mp + 2).tdiv 5 + 1
  let m := if mp < 10 then mp + 3 else mp - 9
  (if m ≤ 2 then y + 1 else y, m - 1, d)

/-- `ccpon_gmtime`. -/
def gmtime (epochSec : Int64) : Tm :=
  let secondsInDay : Int := 3600 * 24
  let daysSinceEpoch := epochSec.toInt.tdiv secondsInDay
  let hms := epochSec.toInt - secondsInDay * daysSinceEpoch
  let daysSinceEpoch := if hms < 0 then daysSinceEpoch - 1 else daysSinceEpoch
  let hms := if hms < 0 then secondsInDay + hms else hms
  let (y, m, d) := civilFromDays daysSinceEpoch
  let ms := hms.tmod 3600
  { tm_year := Int32.ofInt (y - 1900)
    tm_mon := Int32.ofInt m
    tm_mday := Int32.ofInt d
    tm_hour := Int32.ofInt (hms.tdiv 3600)
    tm_min := Int32.ofInt (ms.tdiv 60)
    tm_sec := Int32.ofInt (ms.tmod 60) }

/-- One round of the padding loop: a digit goes to its place, the pad where it was. -/
def padStep (len width : Nat) (padChar : UInt8) (buff : Bytes) (i : Nat) : Bytes :=
  (buff.set (width - i - 1) (buff.getD (len - i - 1) 0)).set (len - i - 1) padChar

/-- `uint_to_str_lpad` over what `buff` holds already: with two bytes or more
to pad, the bytes between the pad and the digits keep their old content. -/
def uintToStrLpad (buff : Bytes) (n : UInt64) (width : Nat) (padChar : UInt8) : Bytes :=
  let str := uintToStr n
  let len := str.length
  if len < width ∧ width ≤ buff.length then
    ((List.range len).foldl (padStep len width padChar) (str ++ buff.drop len)).take width
  else str

/-- A field of the date, two digits wide. -/
def dateField (n : Int32) : Bytes :=
  uintToStrLpad (List.replicate 2 0) n.toUInt32.toUInt64 2 0x30

/-- `ccpon_pack_date_time_str` as `ccpon_pack_date_time` calls it. -/
def packDateTimeStr (epochMsecs : Int64) (minFromUtc : Int) : Bytes :=
  let tm := gmtime (epochMsecs / 1000 + Int64.ofInt (minFromUtc * 60))
  let str := dateField (tm.tm_year + 1900) ++ minus :: dateField (tm.tm_mon + 1) ++
    minus :: dateField tm.tm_mday ++ 0x54 :: dateField tm.tm_hour ++
    C_KEY_DELIM :: dateField tm.tm_min ++ C_KEY_DELIM :: dateField tm.tm_sec
  let msec := epochMsecs % 1000
  let msecs := if msec > 0 then dot :: uintToStrLpad str msec.toUInt64 3 0x30 else []
  let absMin := Int32.ofNat minFromUtc.natAbs
  let tz :=
    if minFromUtc = 0 then [0x5a]
    else (if minFromUtc < 0 then minus else 0x2b) ::
      (dateField (absMin / 60) ++ (if absMin % 60 ≠ 0 then dateField (absMin % 60) else []))
  str ++ msecs ++ tz

/-- `ccpon_pack_date_time`. -/
def packDateTime (epochMsecs : Int64) (minFromUtc : Int) : Bytes :=
  ascii "d" ++ quote :: (packDateTimeStr epochMsecs minFromUtc ++ [quote])

/-! ## packing literals, strings and blobs -/

/-- `ccpon_pack_null`. -/
def packNull : Bytes := ascii "null"

/-- `ccpon_pack_boolean`. -/
def packBoolean (b : Bool) : Bytes := if b then ascii "true" else ascii "false"

/-- A byte as `copy_data_escaped` copies it. -/
def escapedChar (ch : UInt8) : Bytes :=
  if ch = 0 then [backslash, 0x30]
  else if ch = backslash then [backslash, backslash]
  else if ch = 0x09 then [backslash, 0x74]
  else if ch = 0x08 then [backslash, 0x62]
  else if ch = 0x0d then [backslash, 0x72]
  else if ch = newline then [backslash, 0x6e]
  else if ch = quote then [backslash, quote]
  else [ch]

/-- A byte as `copy_blob_escaped` copies it. -/
def escapedBlobChar (ch : UInt8) : Bytes :=
  if ch = backslash then [backslash, backslash]
  else if ch = 0x09 then [backslash, 0x74]
  else if ch = 0x0d then [backslash, 0x72]
  else if ch = newline then [backslash, 0x6e]
  else if ch = quote then [backslash, quote]
  else if ch < 32 ∨ 127 ≤ ch then [backslash, hexify (ch / 16), hexify (ch % 16)]
  else [ch]

/-- `copy_data_escaped`. -/
def copyDataEscaped (str : Bytes) : Bytes := str.flatMap escapedChar

/-- `copy_blob_escaped`. -/
def copyBlobEscaped (str : Bytes) : Bytes := str.flatMap escapedBlobChar

/-- `ccpon_pack_string`. -/
def packString (s : Bytes) : Bytes := quote :: (copyDataEscaped s ++ [quote])

/-- What `ccpon_pack_blob` packs of a blob: its size is cut to an `unsigned int`. -/
def blobPart (buff : Bytes) : Bytes := buff.take (buff.length % 2 ^ 32)

/-- `ccpon_pack_blob`. -/
def packBlob (buff : Bytes) : Bytes :=
  0x62 :: quote :: (copyBlobEscaped (blobPart buff) ++ [quote])

/-! ## packing containers -/

/-- A C string ends at its first zero byte. -/
def cString (s : Bytes) : Bytes := s.takeWhile (· ≠ 0)

/-- `indent_element`; an empty indent string is a null pointer in the options. -/
def indentElement (indent : Bytes) (nestCount : Nat) (isOneliner isFirstField : Bool) : Bytes :=
  if indent.isEmpty then []
  else if isOneliner then (if isFirstField then [] else [space])
  else newline :: (List.replicate nestCount (cString indent)).flatten

/-- `ccpon_pack_field_delim`. -/
def packFieldDelim (indent : Bytes) (nestCount : Nat) (isFirstField isOneliner : Bool) : Bytes :=
  (if isFirstField then [] else [C_FIELD_DELIM]) ++
    indentElement indent nestCount isOneliner isFirstField

/-- `end_block`, the nesting being decremented already. -/
def endBlock (indent : Bytes) (nestCount : Nat) (isOneliner : Bool) : Bytes :=
  indentElement indent nestCount isOneliner true

/-! ## insignificant characters -/

/-- Where `ccpon_unpack_skip_insignificant` is: in the text, after a slash, in a
block comment, after an asterisk in it, or in a comment to the end of the line. -/
inductive SkipMode where
  | text
  | slash
  | block
  | star
  | line
deriving DecidableEq

/-- One byte of the skipper. The byte after an asterisk is taken without being
looked at for another asterisk. A lone slash ends the skipping with no byte. -/
def skipStep : SkipMode → UInt8 → ScanStep SkipMode (Option UInt8)
  | .text, p =>
    if p = 0 then .more .text
    else if 0x80 ≤ p then .more .text
    else if p > space then
      if p = 0x2f then .more .slash
      else if p = C_KEY_DELIM ∨ p = C_FIELD_DELIM then .more .text
      else .done (some p)
    else .more .text
  | .slash, p =>
    if p = 0x2a then .more .block
    else if p = 0x2f then .more .line
    else .done none
  | .block, p => if p = 0x2a then .more .star else .more .block
  | .star, p => if p = 0x2f then .more .text else .more .block
  | .line, p => if p = newline then .more .text else .more .line

/-- `ccpon_unpack_skip_insignificant`. After an asterisk the next byte is looked
at without testing that there is one. -/
def skipInsignificant : Unpack (Option UInt8) := do
  match ← scan skipStep .text with
  | .inr p => return p
  | .inl .star => throw .nullDeref
  | .inl .slash =>
    setError .malformedInput "Unfinished comment"
    setErrNo .bufferUnderflow
    return none
  | .inl _ =>
    setErrNo .bufferUnderflow
    return none

/-! ## reading numbers -/

/-- An `int64_t`, unless the computation overflows. -/
def checkedInt64 (z : Int) : Option Int64 :=
  if -2 ^ 63 ≤ z ∧ z < 2 ^ 63 then some (Int64.ofInt z) else none

/-- The variables of `unpack_int_to_result`. -/
structure ReadInt where
  value : Int64
  digitCnt : Int32
  neg : Bool
  isOverflow : Bool
  base : Int
  n : Nat
  startsWithSignum : Bool
deriving DecidableEq

def ReadInt.init (value : Int64) : ReadInt where
  value := value
  digitCnt := 0
  neg := false
  isOverflow := false
  base := 10
  n := 0
  startsWithSignum := false

/-- `result->signum`. -/
def ReadInt.signum (s : ReadInt) : Int64 := if s.neg then -1 else 1

/-- The digit a byte stands for in the base of the number. -/
def ReadInt.digit? (s : ReadInt) (b : UInt8) : Option Int :=
  if 0x30 ≤ b ∧ b ≤ 0x39 then some (b.toNat - 0x30)
  else if 0x61 ≤ b ∧ b ≤ 0x66 ∧ s.base = 16 then some (b.toNat - 0x61 + 10)
  else if 0x41 ≤ b ∧ b ≤ 0x46 ∧ s.base = 16 then some (b.toNat - 0x41 + 10)
  else none

/-- A digit is added unless the number overflows. -/
def ReadInt.addDigit (s : ReadInt) (digit : Int) : ReadInt :=
  match checkedInt64 (s.value.toInt * s.base) with
  | none => { s with isOverflow := true }
  | some value =>
    match checkedInt64 (value.toInt + digit) with
    | none => { s with isOverflow := true }
    | some value => { s with value := value, digitCnt := s.digitCnt + 1 }

/-- One byte of `unpack_int_to_result`; the byte that ends it is put back. -/
def ReadInt.step (s : ReadInt) (b : UInt8) : ScanStep ReadInt ReadInt :=
  if b = 0x2b ∨ b = minus then
    if s.n ≠ 0 then .done s
    else .more { s with startsWithSignum := true, neg := s.neg || b == minus, n := s.n + 1 }
  else if b = 0x78 then
    if s.n = 1 + (if s.startsWithSignum then 1 else 0) ∧ s.value = 0 then
      .more { s with base := 16, digitCnt := 0, n := s.n + 1 }
    else .done s
  else
    match s.digit? b with
    | none => .done s
    | some digit => .more { s.addDigit digit with n := s.n + 1 }

/-- `unpack_int_to_result`. -/
def unpackIntToResult (initValue : Int64) : Unpack ReadInt := do
  match ← scan ReadInt.step (.init initValue) with
  | .inl s =>
    setErrNo .bufferUnderflow
    return s
  | .inr s =>
    unget
    return s

/-- `unpack_int`: the value and the number of bytes taken. -/
def unpackInt : Unpack (Int64 × Nat) := do
  let res ← unpackIntToResult 0
  return (res.value * res.signum, res.n)

/-- The number of `ccpon_unpack_next`. -/
structure ReadNumber where
  mantissa : Int64
  exponent : Int64
  decCnt : Int32
  isDecimal : Bool
  isUint : Bool
  isNeg : Bool
  isOverflow : Bool
deriving DecidableEq

/-- The item a number becomes. -/
def ReadNumber.item (r : ReadNumber) : CCpcpItem :=
  if r.isDecimal then
    if r.isOverflow ∧ r.decCnt = 0 then
      .decimal (if r.isNeg then Int64.minValue else Int64.maxValue) 0
    else
      .decimal (if r.isNeg then -r.mantissa else r.mantissa)
        (r.exponent - r.decCnt.toInt64).toInt32
  else if r.isUint then .uint (if r.isOverflow then Int64.maxValue else r.mantissa).toUInt64
  else
    .int (if r.isOverflow then (if r.isNeg then Int64.minValue else Int64.maxValue)
      else if r.isNeg then -r.mantissa else r.mantissa)

/-- The exponent, if `p` starts one; another byte than a dot is put back. -/
def unpackExponent (r : ReadNumber) (p : UInt8) : Unpack ReadNumber := do
  if p = 0x65 ∨ p = 0x45 then
    let result ← unpackIntToResult 0
    if result.digitCnt = 0 then
      unpackError .malformedInput "Malformed number exponetional part."
    else
      return { r with
        isDecimal := true
        isOverflow := r.isOverflow || result.isOverflow
        exponent := result.value * result.signum }
  else if p ≠ dot then
    unget
    return r
  else return r

/-- What follows the integer part of a number: its suffix, decimals, exponent. -/
def unpackNumberTail (r : ReadNumber) (p : UInt8) : Unpack ReadNumber := do
  if p = C_UNSIGNED_END then return { r with isUint := true }
  else if p = dot then
    let result ← unpackIntToResult r.mantissa
    let r := { r with
      isDecimal := true
      mantissa := result.value
      isOverflow := r.isOverflow || result.isOverflow
      decCnt := result.digitCnt }
    match ← unpackTakeByte? with
    | none => return r
    | some p => unpackExponent r p
  else unpackExponent r p

/-- A number, from its first byte. Reaching the end of the input is no error. -/
def unpackNumber : Unpack CCpcpItem := do
  let result ← unpackIntToResult 0
  if result.digitCnt = 0 then unpackError .malformedInput "Malformed number."
  else
    let r : ReadNumber := {
      mantissa := result.value
      exponent := 0
      decCnt := 0
      isDecimal := false
      isUint := false
      isNeg := result.signum == -1
      isOverflow := result.isOverflow }
    let r ← (do
      match ← unpackTakeByte? with
      | none => return r
      | some p => unpackNumberTail r p)
    setErrNo .ok
    return r.item

/-! ## reading date-times -/

/-- `is_leap`. -/
def isLeap (y : Int32) : Bool := y % 4 == 0 && (y % 100 != 0 || y % 400 == 0)

/-- `days_from_0`. -/
def daysFrom0 (year : Int32) : Int32 :=
  let year := year - 1
  365 * year + (year / 400) - (year / 100) + (year / 4)

/-- `days_from_1970`. -/
def daysFrom1970 (year : Int32) : Int32 := daysFrom0 year - daysFrom0 1970

/-- The days before each month. -/
def daysBeforeMonth (leap : Bool) : List Int32 :=
  if leap then [0, 31, 60, 91, 121, 152, 182, 213, 244, 274, 305, 335]
  else [0, 31, 59, 90, 120, 151, 181, 212, 243, 273, 304, 334]

/-- `days_from_1jan`: `none` where the month is outside the table. -/
def daysFrom1jan (year month mday : Int32) : Option Int32 :=
  if 0 ≤ month then
    (daysBeforeMonth (isLeap year))[month.toInt.toNat]?.map fun days => days + mday - 1
  else none

/-- `ccpon_timegm`. -/
def timegm (tm : Tm) : Option Int64 :=
  let year := tm.tm_year + 1900
  (daysFrom1jan year tm.tm_mon tm.tm_mday).map fun days =>
    let res := (daysFrom1970 year).toInt64 + days.toInt64
    ((res * 24 + tm.tm_hour.toInt64) * 60 + tm.tm_min.toInt64) * 60 + tm.tm_sec.toInt64

/-- `p`, and `f` unless `p` returned early. -/
def orReturn (p : Unpack (Option α)) (f : α → Unpack (Option β)) : Unpack (Option β) := do
  match ← p with
  | none => return none
  | some a => f a

/-- A number of a date-time; without one the error is set. -/
def unpackDateField (errMsg : String) : Unpack (Option Int32) := do
  let (val, n) ← unpackInt
  if n = 0 then
    setError .malformedInput errMsg
    return none
  else return some val.toInt32

/-- A separator of a date-time that is tested. -/
def unpackDateSeparator (allowed : Bytes) (errMsg : String) : Unpack (Option Unit) := do
  let p ← unpackTakeByte
  if p ∈ allowed then return some ()
  else
    setError .malformedInput errMsg
    return none

/-- The time of day. The separators are not tested. -/
def unpackTime : Unpack (Option (Int32 × Int32 × Int32)) :=
  orReturn (unpackDateField "Malformed hour in DateTime") fun hour => do
    let _ ← unpackTakeByte
    orReturn (unpackDateField "Malformed minutes in DateTime") fun min => do
      let _ ← unpackTakeByte
      orReturn (unpackDateField "Malformed seconds in DateTime") fun sec =>
        return some (hour, min, sec)

/-- The fields of a date-time up to the seconds. -/
def unpackTm : Unpack (Option Tm) :=
  orReturn (unpackDateField "Malformed year in DateTime") fun year =>
  orReturn (unpackDateSeparator [minus] "Malformed year-month separator in DateTime") fun _ =>
  orReturn (unpackDateField "Malformed month in DateTime") fun month =>
  orReturn (unpackDateSeparator [minus] "Malformed month-day separator in DateTime") fun _ =>
  orReturn (unpackDateField "Malformed day in DateTime") fun mday =>
  orReturn (unpackDateSeparator [0x54, space] "Malformed date-time separator in DateTime") fun _ =>
  orReturn unpackTime fun (hour, min, sec) =>
    return some {
      tm_year := year - 1900
      tm_mon := month - 1
      tm_mday := mday
      tm_hour := hour
      tm_min := min
      tm_sec := sec }

/-- The time zone, if `p` starts one: the offset in minutes. -/
def unpackUtcOffset (p : UInt8) : Unpack (Option Int64) := do
  if p = 0x5a then return some 0
  else if p = 0x2b ∨ p = minus then
    let (val, n) ← unpackInt
    if n = 2 ∨ n = 4 then
      let offset := if n = 2 then 60 * val else 60 * (val / 100) + val % 100
      return some (if p = minus then -offset else offset)
    else
      setError .malformedInput "Malformed TS offset in DateTime."
      return none
  else
    unget
    return some 0

/-- What follows the seconds: milliseconds, and the offset. Where there are no
digits after the dot the source returns early without an error. -/
def unpackMsecAndOffset : Unpack (Option (Int32 × Int64)) := do
  match ← unpackTakeByte? with
  | none => return some (0, 0)
  | some p =>
    if p = dot then
      let (val, n) ← unpackInt
      if n = 0 then return none
      else
        match ← unpackTakeByte? with
        | none => return some (val.toInt32, 0)
        | some p => orReturn (unpackUtcOffset p) fun offset => return some (val.toInt32, offset)
    else orReturn (unpackUtcOffset p) fun offset => return some (0, offset)

/-- The item of a date-time. -/
def dateTimeItem (tm : Tm) (msec : Int32) (offset : Int64) : Unpack CCpcpItem :=
  match timegm tm with
  | none => throw .outOfBounds
  | some epochSec =>
    return .dateTime ((epochSec - offset * 60) * 1000 + msec.toInt64) offset.toInt

/-- `ccpon_unpack_date_time`. Where it returns early the item stays invalid. -/
def unpackDateTime : Unpack CCpcpItem := do
  let item? ← orReturn unpackTm fun tm =>
    orReturn unpackMsecAndOffset fun (msec, offset) => do
      setErrNo .ok
      return some (← dateTimeItem tm msec offset)
  return item?.getD .invalid

/-! ## reading strings and blobs -/

/-- The byte an escape sequence in a string stands for. -/
def unescapedChar (p : UInt8) : UInt8 :=
  if p = 0x62 then 0x08
  else if p = 0x66 then 0x0c
  else if p = 0x6e then newline
  else if p = 0x72 then 0x0d
  else if p = 0x74 then 0x09
  else if p = 0x30 then 0
  else p

/-- The chunk of a string: up to `room` bytes. Returns the chunk and whether
the closing quote was reached. -/
def unpackStringChunk : Nat → Bytes → Unpack (Bytes × Bool)
  | 0, chunk => return (chunk, false)
  | room + 1, chunk => do
    let p ← unpackTakeByte
    if p = backslash then
      let p ← unpackTakeByte
      unpackStringChunk room (chunk ++ [unescapedChar p])
    else if p = quote then return (chunk, true)
    else unpackStringChunk room (chunk ++ [p])

/-- The byte of an escape sequence in a blob. -/
def unpackBlobEscape (p : UInt8) : Unpack UInt8 := do
  if p = 0x74 then return 0x09
  else if p = 0x72 then return 0x0d
  else if p = 0x6e then return newline
  else if p = quote then return quote
  else if p = backslash then return backslash
  else
    match unhex p with
    | none => unpackError .malformedInput "Invalid HEX char."
    | some hi =>
      match unhex (← unpackTakeByte) with
      | none => unpackError .malformedInput "Invalid HEX char."
      | some lo => return 16 * hi + lo

/-- The chunk of an escaped blob. -/
def unpackBlobEscChunk : Nat → Bytes → Unpack (Bytes × Bool)
  | 0, chunk => return (chunk, false)
  | room + 1, chunk => do
    let b ← unpackTakeByte
    if b = quote then return (chunk, true)
    else if b = backslash then
      let b ← unpackBlobEscape (← unpackTakeByte)
      unpackBlobEscChunk room (chunk ++ [b])
    else if b < 128 then unpackBlobEscChunk room (chunk ++ [b])
    else unpackError .malformedInput "Invalid blob char, code >= 128."

/-- One byte of the loop over blanks in a hexadecimal blob; `char` is signed. -/
def hexBlankStep (_ : Unit) (p : UInt8) : ScanStep Unit UInt8 :=
  if p ≤ space ∨ 0x80 ≤ p then .more () else .done p

/-- The next byte of a hexadecimal blob that is not blank. -/
def unpackHexByte : Unpack UInt8 := do
  match ← scan hexBlankStep () with
  | .inl _ => unpackError .bufferUnderflow ""
  | .inr p => return p

/-- The chunk of a hexadecimal blob. -/
def unpackBlobHexChunk : Nat → Bytes → Unpack (Bytes × Bool)
  | 0, chunk => return (chunk, false)
  | room + 1, chunk => do
    let p ← unpackHexByte
    if p = quote then return (chunk, true)
    else
      match unhex p with
      | none => unpackError .malformedInput "Invalid HEX char, first digit."
      | some b1 =>
        match unhex (← unpackTakeByte) with
        | none => unpackError .malformedInput "Invalid HEX char, second digit."
        | some b2 => unpackBlobHexChunk room (chunk ++ [16 * b1 + b2])

/-- What the three chunk functions share: the first chunk starts at the opening
quote. `chunk_cnt` is an `unsigned`. -/
def unpackChunk (chunk : Nat → Bytes → Unpack (Bytes × Bool)) (errMsg : String)
    (it : CCpcpString) : Unpack CCpcpString := do
  if it.chunkCnt = 0 then
    let p ← unpackTakeByte
    if p ≠ quote then unpackError .malformedInput errMsg
  let (bytes, last) ← chunk stringChunkBuffLen []
  return { it with
    chunk := bytes, lastChunk := it.lastChunk || last, chunkCnt := it.chunkCnt + 1 }

/-- `ccpon_unpack_string`. -/
def unpackString : CCpcpString → Unpack CCpcpString :=
  unpackChunk unpackStringChunk "String should start with '\"' character."

/-- `ccpon_unpack_blob_esc`. -/
def unpackBlobEsc : CCpcpString → Unpack CCpcpString :=
  unpackChunk unpackBlobEscChunk "Blob should start with 'b\"' ."

/-- `ccpon_unpack_blob_hex`. -/
def unpackBlobHex : CCpcpString → Unpack CCpcpString :=
  unpackChunk unpackBlobHexChunk "Blob should start with 'x\"' ."

/-! ## reading items -/

/-- A byte that has to follow. -/
def expectByte (b : UInt8) (errMsg : String) : Unpack Unit := do
  if (← unpackTakeByte) = b then return () else unpackError .malformedInput errMsg

/-- The rest of a literal, byte by byte. -/
def expectLiteral (errMsg : String) : Bytes → Unpack Unit
  | [] => return ()
  | b :: bs => do
    expectByte b errMsg
    expectLiteral errMsg bs

/-- The closing quote of a date-time, and the error that may be pending there. -/
def unpackDateTimeEnd : Unpack Unit := do
  match ← unpackTakeByte? with
  | none => checkErrNo
  | some p =>
    if p = quote then checkErrNo
    else unpackError .malformedInput "DateTime should start with 'd\"'."

/-- The item that starts with `p`. -/
def unpackItem (p : UInt8) : Unpack CCpcpItem := do
  if p = C_LIST_END ∨ p = C_MAP_END ∨ p = C_META_END then return .containerEnd
  else if p = C_META_BEGIN then return .metaMap
  else if p = C_MAP_BEGIN then return .map
  else if p = C_LIST_BEGIN then return .list
  else if p = 0x69 then
    expectByte C_MAP_BEGIN "IMap should start with '\x7b'."
    return .imap
  else if p = 0x61 then
    expectByte C_LIST_BEGIN "List should start with '['."
    return .list
  else if p = 0x64 then
    expectByte quote "DateTime should start with 'd'."
    let item ← unpackDateTime
    unpackDateTimeEnd
    return item
  else if p = 0x6e then
    expectLiteral "Malformed 'null' literal." (ascii "ull")
    return .null
  else if p = 0x66 then
    expectLiteral "Malformed 'false' literal." (ascii "alse")
    return .boolean false
  else if p = 0x74 then
    expectLiteral "Malformed 'true' literal." (ascii "rue")
    return .boolean true
  else if p = 0x78 then
    expectByte quote "HEX string should start with 'x\"'."
    unget
    return .blob (← unpackBlobHex { CCpcpString.init with blobHex := true })
  else if p = 0x62 then
    expectByte quote "BLOB string should start with 'b\"'."
    unget
    return .blob (← unpackBlobEsc .init)
  else if p = quote then
    unget
    return .string (← unpackString .init)
  else if 0x30 ≤ p ∧ p ≤ 0x39 ∨ p = 0x2b ∨ p = minus then
    unget
    unpackNumber
  else unpackError .malformedInput "Invalid character."

/-- Start the next item. Where the skipper stops without a byte and without an
error, the item stays invalid. -/
def startItem : Unpack Unit := do
  setItem .invalid
  match ← skipInsignificant with
  | none => checkErrNo
  | some p => setItem (← unpackItem p)

/-- `ccpon_unpack_next`: continue an unfinished string or blob, or start the
next item. The context has no container stack under a C++ reader. -/
def unpackNext : Unpack Unit := do
  checkErrNo
  match ← getItem with
  | .string it =>
    if it.lastChunk then startItem else setItem (.string (← unpackString it))
  | .blob it =>
    if it.lastChunk then startItem
    else setItem (.blob (← if it.blobHex then unpackBlobHex it else unpackBlobEsc it))
  | _ => startItem

end LibShv.CCpon
