import LibShv.DChainPack
import LibShv.Lib.CallTree

/-!
# LibShv.DCpon

The reader of CPON in D (`d/shv/cpon.d`). It returns the values of `d/shv/rpcvalue.d` that
the reader of ChainPack returns.

The nested calls of `read_val` are marked in its body; `read` runs it with a `max_depth` or
without.
-/

namespace LibShv.D.Cpon

open ByteReader CallTree

/-! ## the input -/

/-- `line` and `pos` of `read`. -/
structure Place where
  line : Nat
  pos : Nat

/-- What reading throws. -/
inductive ReadError where
  | outOfFuel
  /-- `front` of an empty range. -/
  | emptyRange
  /-- `CponReadException` of `error`: the message, and the characters near. -/
  | cpon (msg : String) (near : Bytes) (place : Place)
  /-- The same of a key, whose text stands behind the message. -/
  | key (msg : String) (key : RpcValue) (near : Bytes) (place : Place)
  /-- `SysTime.fromISOExtString` does not take the text. -/
  | sysTime (text : Bytes)

abbrev Read := Parser ReadError Place

/-- `peek_char`; `none` is `NO_CHAR`. -/
def peekChar : Read (Option UInt8) := peek?

/-- `get_char`. -/
def getChar : Read UInt8 := do
  match ← take? with
  | some ret =>
    modifyReg fun p => if ret = 0x0a then ⟨p.line + 1, 0⟩ else ⟨p.line, p.pos + 1⟩
    return ret
  | none => throw .emptyRange

/-- The loop of `error`: up to `n` characters more. -/
def nearChars : Nat → Bytes → Read Bytes
  | 0, near => return near
  | n + 1, near => do
    match ← peekChar with
    | none => return near
    | some _ => nearChars n (near ++ [← getChar])

/-- `error`. -/
def error {α : Type} (msg : String) : Read α := do
  let near ← nearChars 100 []
  throw (.cpon msg near (← getReg))

/-- `error(msg ~ key.toCpon())`. -/
def keyError {α : Type} (msg : String) (key : RpcValue) : Read α := do
  let near ← nearChars 100 []
  throw (.key msg key near (← getReg))

/-- `get_token`: `cs` is what is left of `s`. -/
def getToken (s : String) : List UInt8 → Read Unit
  | [] => return ()
  | c :: cs => do
    if c ≠ (← getChar) then error s!"Token '{s}' expected." else getToken s cs

/-! ## white space -/

/-- The loop to the end of a comment of several lines. -/
def skipMultiline : Nat → Read Unit
  | 0 => throw .outOfFuel
  | n + 1 => do
    if (← getChar) = 0x2a then
      if (← getChar) = 0x2f then return () else skipMultiline n
    else skipMultiline n

/-- The loop to the end of a line. -/
def skipLine : Nat → Read Unit
  | 0 => throw .outOfFuel
  | n + 1 => do
    if (← getChar) = 0x0a then return () else skipLine n

/-- `skip_white_insignificant`: white space, colons, commas and comments. -/
def skipWhiteInsignificant : Nat → Read Unit
  | 0 => throw .outOfFuel
  | n + 1 => do
    match ← peekChar with
    | none => return ()
    | some b =>
      if b > 0x20 then
        if b = 0x2f then
          let _ ← getChar
          let b ← getChar
          if b = 0x2a then skipMultiline n
          else if b = 0x2f then skipLine n
          else error "Malformed comment"
          skipWhiteInsignificant n
        else if b = 0x3a ∨ b = 0x2c then
          let _ ← getChar
          skipWhiteInsignificant n
        else return ()
      else
        let _ ← getChar
        skipWhiteInsignificant n

/-! ## numbers -/

/-- The locals of `read_int`. -/
structure IntState where
  base : Int64
  val : Int64
  neg : Bool
  n : Nat
  digitCnt : Int32

def IntState.start : IntState := ⟨10, 0, false, 0, 0⟩

/-- A digit of this value. -/
def IntState.digit (s : IntState) (d : Int64) : IntState :=
  { s with val := s.val * s.base + d, digitCnt := s.digitCnt + 1, n := s.n + 1 }

/-- One turn of `read_int`: `none` is its `break`, before the character is taken. -/
def IntState.next (s : IntState) (b : UInt8) : Option IntState :=
  let code := b.toUInt64.toInt64
  if b = 0x2b ∨ b = 0x2d then
    if s.n ≠ 0 then none else some { s with neg := s.neg || b == 0x2d, n := s.n + 1 }
  else if b = 0x78 then
    if s.n = 1 ∧ s.val ≠ 0 then none
    else if s.n ≠ 1 then none
    else some { s with base := 16, n := s.n + 1 }
  else if 0x30 ≤ b ∧ b ≤ 0x39 then some (s.digit (code - 48))
  else if 0x41 ≤ b ∧ b ≤ 0x46 then
    if s.base ≠ 16 then none else some (s.digit (code - 65 + 10))
  else if 0x61 ≤ b ∧ b ≤ 0x66 then
    if s.base ≠ 16 then none else some (s.digit (code - 97 + 10))
  else none

def readIntLoop : Nat → IntState → Read IntState
  | 0, _ => throw .outOfFuel
  | n + 1, s => do
    match ← peekChar with
    | none => return s
    | some b =>
      match s.next b with
      | none => return s
      | some s =>
        let _ ← getChar
        readIntLoop n s

/-- `read_int`: the number and its count of digits. -/
def readInt (n : Nat) : Read (Int64 × Int32) := do
  let s ← readIntLoop n .start
  return (if s.neg then -s.val else s.val, s.digitCnt)

/-- `mantisa *= 10` for each of the decimals. -/
def shiftMantisa : Nat → Int64 → Int64
  | 0, mantisa => mantisa
  | cnt + 1, mantisa => shiftMantisa cnt (mantisa * 10)

/-- The sign of `read_number`: whether it is a minus. -/
def readSign : Read Bool := do
  match ← peekChar with
  | some 0x2b =>
    let _ ← getChar
    return false
  | some 0x2d =>
    let _ ← getChar
    return true
  | _ => return false

/-- The decimals of `read_number` and their count. A string that ends right behind them has
no exponent either. -/
def readDecimals (n : Nat) : Read (Option (Int32 × Int32)) := do
  if (← peekChar) = some 0x2e then
    let _ ← getChar
    let (decimals, decCnt) ← readInt n
    return some (decimals.toInt32, decCnt)
  else return none

/-- The exponent of `read_number`. -/
def readExponent (n : Nat) : Read (Option Int32) := do
  let b ← peekChar
  if b = some 0x65 ∨ b = some 0x45 then
    let _ ← getChar
    let (exponent, digitCnt) ← readInt n
    if digitCnt = 0 then error "Malformed number exponetional part."
    else return some exponent.toInt32
  else return none

/-- `read_number`. Its loop is left at the end of every turn. -/
def readNumber (n : Nat) : Read Store := do
  let isNeg ← readSign
  let (mantisa, _) ← readInt n
  if (← peekChar) = some 0x75 then
    let _ ← getChar
    return .uinteger mantisa.toUInt64
  else
    let decimals ← readDecimals n
    let exponent ← readExponent n
    if decimals.isSome ∨ exponent.isSome then
      let (decimals, decCnt) := decimals.getD (0, 0)
      let mantisa := shiftMantisa decCnt.toInt.toNat mantisa + decimals.toInt64
      return .decimal (if isNeg then -mantisa else mantisa) (exponent.getD 0 - decCnt)
    else return .integer (if isNeg then -mantisa else mantisa)

/-! ## strings -/

/-- `put(cast(dchar) b)`: the UTF-8 of the character with this code. -/
def putDchar (b : UInt8) : Bytes :=
  if b < 0x80 then [b] else [(0xc0 : UInt8) ||| (b >>> 6), (0x80 : UInt8) ||| (b &&& 0x3f)]

/-- What the character behind a backslash stands for. -/
def unescaped (b : UInt8) : Bytes :=
  if b = 0x5c then [0x5c]
  else if b = 0x22 then [0x22]
  else if b = 0x62 then [0x08]
  else if b = 0x66 then [0x0c]
  else if b = 0x6e then [0x0a]
  else if b = 0x72 then [0x0d]
  else if b = 0x74 then [0x09]
  else if b = 0x30 then [0x00]
  else putDchar b

def readCStringLoop : Nat → Bytes → Read Bytes
  | 0, _ => throw .outOfFuel
  | n + 1, app => do
    let b ← getChar
    if b = 0x5c then readCStringLoop n (app ++ unescaped (← getChar))
    else if b = 0x22 then return app
    else readCStringLoop n (app ++ putDchar b)

/-- `read_cstring`. -/
def readCString (n : Nat) : Read Store := do
  let _ ← getChar
  return .string (← readCStringLoop n [])

/-! ## date-times -/

/-- The index of the last `+` or `-`. -/
def lastIndexOfSign (s : Bytes) : Option Nat :=
  (List.range s.length).reverse.find? fun i => s[i]? = some 0x2b ∨ s[i]? = some 0x2d

/-- The text that `fromISOExtString` gives to `SysTime`: an offset of two or four digits gets
its colon, and its minutes. -/
def colonOffset (s : Bytes) : Bytes :=
  match lastIndexOfSign s with
  | none => s
  | some ix =>
    if 19 ≤ ix then
      let tzs := s.drop (ix + 1)
      if tzs.length = 4 then s.take (ix + 1) ++ tzs.take 2 ++ [0x3a] ++ tzs.drop 2
      else if tzs.length = 2 then s ++ [0x3a, 0x30, 0x30]
      else s
    else s

/-- The loop of `read_datetime` over its text. -/
def readQuoted : Nat → Bytes → Read Bytes
  | 0, _ => throw .outOfFuel
  | n + 1, s => do
    let c ← getChar
    if c = 0x22 then return s else readQuoted n (s ++ [c])

section Value

/-! ## values -/

-- `fromSysTime(SysTime.fromISOExtString(..))`, of the library of D
variable (sysTime : Bytes → Option DateTime)

/-- `read_datetime`. -/
def readDatetime (n : Nat) : Read Store := do
  let _ ← getChar
  let s ← readQuoted n []
  match sysTime (colonOffset s) with
  | some dt => return .dateTime dt
  | none => throw (.sysTime (colonOffset s))

/-- A part of the body of `read_val`. -/
abbrev Body := Prog ReadError Place RpcValue

/-- The key of metadata. -/
def metaKey (key : RpcValue) : Read Key :=
  match key.store with
  | .string s => return .ofString s
  | .integer n => return .ofInt n.toInt32
  | .uinteger n => return .ofInt n.toInt64.toInt32
  | _ => keyError "Malformed meta, invalid key: " key

/-- The key of a map. -/
def mapKey (key : RpcValue) : Read Bytes :=
  match key.store with
  | .string s => return s
  | _ => keyError "Malformed map, invalid key: " key

/-- The key of an integer map. -/
def imapKey (key : RpcValue) : Read Int32 :=
  match key.store with
  | .integer n => return n.toInt32
  | .uinteger n => return n.toInt64.toInt32
  | _ => keyError "Malformed imap, invalid key: " key

/-- The loop over the entries of metadata, a map or an integer map, which `close` ends. The key
is looked at after its value is read. -/
def readEntries {κ : Type} [DecidableEq κ] (close : UInt8) (key : RpcValue → Read κ) :
    Nat → List (κ × RpcValue) → Body (List (κ × RpcValue))
  | 0, _ => liftM (throw .outOfFuel : Read _)
  | n + 1, map => do
    skipWhiteInsignificant n
    if (← peekChar) = some close then
      let _ ← getChar
      return map
    else
      let k ← Prog.callV
      skipWhiteInsignificant n
      let v ← Prog.callV
      let k ← key k
      readEntries close key n (setEntry k v map)

/-- The loop over a list. -/
def readList : Nat → List RpcValue → Body (List RpcValue)
  | 0, _ => liftM (throw .outOfFuel : Read _)
  | n + 1, lst => do
    skipWhiteInsignificant n
    if (← peekChar) = some 0x5d then
      let _ ← getChar
      return lst
    else
      let v ← Prog.callV
      readList n (lst ++ [v])

/-- The metadata in front of a value. -/
def readMeta (n : Nat) : Body (List (Key × RpcValue)) := do
  if (← peekChar) = some 0x3c then
    let _ ← getChar
    readEntries 0x3e metaKey n []
  else return []

/-- Whether a number begins with `b`. -/
def beginsNumber (b : UInt8) : Prop := (0x30 ≤ b ∧ b ≤ 0x39) ∨ b = 0x2b ∨ b = 0x2d

instance : DecidablePred beginsNumber := fun _ => inferInstanceAs (Decidable (_ ∨ _))

/-- The `switch` of `read_val` over the next character, which is not taken yet. -/
def readStore (n : Nat) (b : UInt8) : Body Store := do
  if beginsNumber b then readNumber n
  else if b = 0x22 then readCString n
  else if b = 0x5b then
    let _ ← getChar
    return .list (← readList n [])
  else if b = 0x7b then
    let _ ← getChar
    return .map (← readEntries 0x7d mapKey n [])
  else if b = 0x69 then
    let _ ← getChar
    if (← peekChar) = some 0x7b then
      let _ ← getChar
      return .imap (← readEntries 0x7d imapKey n [])
    else liftM (error "Invalid IMap prefix." : Read _)
  else if b = 0x64 then
    let _ ← getChar
    if (← peekChar) = some 0x22 then readDatetime sysTime n
    else liftM (error "Invalid DateTime prefix." : Read _)
  else if b = 0x74 then
    getToken "true" [0x74, 0x72, 0x75, 0x65]
    return .bool true
  else if b = 0x66 then
    getToken "false" [0x66, 0x61, 0x6c, 0x73, 0x65]
    return .bool false
  else if b = 0x6e then
    getToken "null" [0x6e, 0x75, 0x6c, 0x6c]
    return .null
  else liftM (error "Malformed Cpon input." : Read _)

/-- `read_val`, between `depth++` and `depth--`. -/
def valBody (n : Nat) : Body RpcValue := do
  skipWhiteInsignificant n
  let m ← readMeta n
  skipWhiteInsignificant n
  match ← peekChar with
  | some b => return .mk m (← readStore sysTime n b)
  | none => liftM (error "Malformed Cpon input." : Read _)

/-! ## reading -/

/-- `read` of a range with no `max_depth`; `n` bounds the loops and how deep the calls are
nested. -/
def readVal (n : Nat) : Read RpcValue := CallTree.read (valBody sysTime) .outOfFuel n

/-- The same with the calls of `read_val`; those for the items of a container or of metadata are
made by the call for the value that has them. -/
def readTree (n : Nat) : Read (RpcValue × Tree) :=
  CallTree.readTree (valBody sysTime) .outOfFuel n

/-- `error("Max depth: " ~ to!string(max_depth) ~ " exceeded.")`. -/
def maxDepthExceeded {α : Type} (maxDepth : Int32) : Read α :=
  error s!"Max depth: {maxDepth} exceeded."

/-- `read` of a range with a `max_depth`. -/
def readMaxDepth (maxDepth : Int32) (n : Nat) : Read RpcValue :=
  readLimited (valBody sysTime) .outOfFuel true maxDepth (maxDepthExceeded maxDepth) n

/-- The range that a string is. -/
def ofString (cpon : Bytes) : Cursor Place :=
  { input := cpon, last := 0, atEnd := false, reg := ⟨1, 0⟩ }

/-- `read(string cpon, out size_t read_len)`: what the range is left with tells `read_len`. -/
def readWithLength (maxDepth : Int32) (n : Nat) (cpon : Bytes) :
    EStateM.Result ReadError (Cursor Place) RpcValue :=
  readMaxDepth sysTime maxDepth n (ofString cpon)

/-- `read(string cpon)`. It calls the overload above without its own `max_depth`, so that the
default of it is in force. -/
def readString (_maxDepth : Int32) (n : Nat) (cpon : Bytes) :
    EStateM.Result ReadError (Cursor Place) RpcValue :=
  readWithLength sysTime (-1) n cpon

end Value

end LibShv.D.Cpon
