import LibShv.RpcValue
import LibShv.Lib.ByteReader

/-!
# LibShv.CCpcp

The unpack context shared by the two formats (`ccpcp.h`): the item unpacked
last, the error number, and the one-byte buffer over the stream.

`ctx.item.type` is a register. It carries the kind of the last item out of the
C functions, and the readers also look at it to find out whether a nested read
stopped at the end of its container.

A C function that sets `err_no` returns at once, its callers return as well and
`unpackNext` throws: the model throws where the error is set. The functions
that go on after an error (or clear it) keep it in the context as the source does.
-/

namespace LibShv

open ByteReader

/-- `CCPCP_RC_*`. -/
inductive ErrNo where
  | ok
  | bufferUnderflow
  | malformedInput
  | logicalError
deriving DecidableEq

/-- How a read can fail. -/
inductive Fault where
  /-- `ParseException`, which the frame readers and `read(std::string*)` catch. -/
  | parse (errNo : ErrNo) (msg : String)
  /-- `std::runtime_error`, which they do not catch. -/
  | runtime (msg : String)
  /-- A byte is read through a null pointer. -/
  | nullDeref
  /-- An array is read outside its bounds. -/
  | outOfBounds
  /-- The model's recursion bound was too small; never the case for the bounds used. -/
  | outOfFuel
deriving DecidableEq

/-- What the frame readers catch. -/
def Fault.IsParse : Fault → Prop
  | .parse _ _ => True
  | _ => False

/-- `ccpcp_string`: a string or a blob unpacked in chunks. `chunk` holds the
`chunk_size` bytes of the chunk buffer. -/
structure CCpcpString where
  stringSize : Int64
  sizeToLoad : Int64
  chunk : Bytes
  chunkCnt : UInt32
  lastChunk : Bool
  blobHex : Bool
deriving DecidableEq

/-- `CCPCP_STRING_CHUNK_BUFF_LEN`, the chunk buffer of every C++ reader. -/
def stringChunkBuffLen : Nat := 256

/-- `ccpcp_string_init`. -/
def CCpcpString.init : CCpcpString where
  stringSize := -1
  sizeToLoad := -1
  chunk := []
  chunkCnt := 0
  lastChunk := false
  blobHex := false

/-- `ccpcp_item`: the type tag together with the member of the union it selects. -/
inductive CCpcpItem where
  | invalid
  | null
  | boolean (b : Bool)
  | int (n : Int64)
  | uint (n : UInt64)
  | double (bits : UInt64)
  | decimal (mantisa : Int64) (exponent : Int32)
  | blob (it : CCpcpString)
  | string (it : CCpcpString)
  | dateTime (msecsSinceEpoch : Int64) (minutesFromUtc : Int)
  | list
  | map
  | imap
  | metaMap
  | containerEnd
deriving DecidableEq

/-- The part of `ccpcp_unpack_context` that outlives a call. -/
structure UnpackContext where
  item : CCpcpItem
  errNo : ErrNo
  errMsg : String

/-- `ccpcp_unpack_context_init`. -/
def UnpackContext.init : UnpackContext := ⟨.invalid, .ok, ""⟩

/-- A computation over the unpack context and the stream below it. -/
abbrev Unpack := Parser Fault UnpackContext

/-- The stream at its start. -/
def openStream (input : Bytes) : Cursor UnpackContext := ⟨input, 0, false, .init⟩

/-! ## the context -/

def setItem (item : CCpcpItem) : Unpack Unit := modifyReg ({ · with item })

def setErrNo (errNo : ErrNo) : Unpack Unit := modifyReg ({ · with errNo })

/-- `err_no` and `err_msg` set by a function that goes on. -/
def setError (errNo : ErrNo) (errMsg : String) : Unpack Unit := modifyReg ({ · with errNo, errMsg })

def getItem : Unpack CCpcpItem := do return (← getReg).item

/-- `ccpcp_unpack_take_byte`. -/
def unpackTakeByte? : Unpack (Option UInt8) := do
  match ← take? with
  | some b => return some b
  | none =>
    setErrNo .bufferUnderflow
    return none

/-- `ccpcp_unpack_peek_byte`. -/
def unpackPeekByte? : Unpack (Option UInt8) := do
  match ← peek? with
  | some b => return some b
  | none =>
    setErrNo .bufferUnderflow
    return none

/-- `UNPACK_ERROR`. -/
def unpackError (errNo : ErrNo) (msg : String) : Unpack α := throw (.parse errNo msg)

/-- `UNPACK_TAKE_BYTE`. -/
def unpackTakeByte : Unpack UInt8 := do
  match ← take? with
  | some b => return b
  | none => unpackError .bufferUnderflow ""

/-- The early return of the C functions on a pending error, and the throw of
`unpackNext` that follows it. -/
def checkErrNo : Unpack Unit := do
  let ctx ← getReg
  if ctx.errNo = .ok then return ()
  else throw (.parse ctx.errNo ctx.errMsg)

/-- A conversion that may throw `std::runtime_error`. -/
def liftRuntime : Except String α → Unpack α
  | .ok a => return a
  | .error msg => throw (.runtime msg)

/-! ## strings in chunks -/

def CCpcpItem.string? : CCpcpItem → Option CCpcpString
  | .string it => some it
  | _ => none

def CCpcpItem.blob? : CCpcpItem → Option CCpcpString
  | .blob it => some it
  | _ => none

/-! ## rules -/

/-- A string item that has delivered its last chunk, or any other item. -/
def CCpcpItem.Finished : CCpcpItem → Prop
  | .string it => it.lastChunk = true
  | .blob it => it.lastChunk = true
  | _ => True

/-- A string that is complete or has bytes to come. -/
def CCpcpString.Live (it : CCpcpString) : Prop :=
  it.lastChunk = true ∨ it.stringSize < 0 ∨ 0 < it.sizeToLoad

/-- No item is unpacked after this one without taking a byte. -/
def CCpcpItem.Live : CCpcpItem → Prop
  | .string it => it.Live
  | .blob it => it.Live
  | _ => True

theorem CCpcpItem.Finished.live {item : CCpcpItem} (h : item.Finished) : item.Live := by
  cases item with
  | string it => exact .inl h
  | blob it => exact .inl h
  | _ => exact trivial

/-- The context between two items: no error is pending, no string is unfinished. -/
structure UnpackContext.Ready (ctx : UnpackContext) : Prop where
  errNo : ctx.errNo = .ok
  finished : ctx.item.Finished

/-- Failures that say the input is bad; the recursion bound is kept apart and
never runs out. -/
def Fault.Benign (e : Fault) : Prop := e.IsParse ∨ e = .outOfFuel

/-- The stream has ended, with nothing to unpack without a byte or with an error
pending. The byte in the buffer may have been put back. -/
structure Dead (c : Cursor UnpackContext) : Prop where
  atEnd : c.atEnd = true
  short : c.input.length ≤ 1
  ended : c.reg.errNo = .ok → c.input = [] ∧ c.reg.item.Live

theorem dead_of_live {c : Cursor UnpackContext} (he : c.atEnd = true) (hi : c.input = [])
    (hl : c.reg.item.Live) : Dead c :=
  ⟨he, by rw [hi]; exact Nat.zero_le 1, fun _ => ⟨hi, hl⟩⟩

theorem dead_of_errNo {c : Cursor UnpackContext} (he : c.atEnd = true) (hi : c.input.length ≤ 1)
    (herr : c.reg.errNo ≠ .ok) : Dead c :=
  ⟨he, hi, fun h => absurd h herr⟩

/-- `p` reads exactly `bs`, from and to the contexts given. -/
abbrev Unpacks (p : Unpack α) (bs : Bytes) (F : UInt8 → Prop) (P : UnpackContext → Prop)
    (Q : α → UnpackContext → Prop) : Prop :=
  Reads Dead Fault.Benign p bs F P Q

theorem Fault.IsParse.benign {e : Fault} (h : e.IsParse) : e.Benign := .inl h

/-- A C function: it fails with a parse error only, and returns with no error pending. -/
abbrev UnpackSolid (p : Unpack α) : Prop := Solid (fun ctx => ctx.errNo = .ok) Fault.IsParse p

theorem isParse_parse (errNo : ErrNo) (msg : String) : (Fault.parse errNo msg).IsParse := trivial

theorem UnpackSolid.benign {p : Unpack α} (h : UnpackSolid p) :
    Solid (fun ctx => ctx.errNo = .ok) Fault.Benign p :=
  h.imp fun _ => Fault.IsParse.benign

theorem benign_parse (errNo : ErrNo) (msg : String) : (Fault.parse errNo msg).Benign :=
  .inl trivial

theorem benign_outOfFuel : Fault.outOfFuel.Benign := .inr rfl

theorem solid_unpackTakeByte : UnpackSolid unpackTakeByte :=
  Solid.take?_or (isParse_parse _ _) rfl

theorem solid_unpackError (errNo : ErrNo) (msg : String) :
    UnpackSolid (unpackError errNo msg : Unpack α) :=
  Solid.throw (isParse_parse _ _)

theorem solid_setItem (item : CCpcpItem) : UnpackSolid (setItem item) :=
  Solid.modifyReg fun _ h => h

theorem solid_getItem : UnpackSolid getItem :=
  Solid.getReg.bind fun _ => Solid.pure _

theorem solid_checkErrNo : UnpackSolid checkErrNo := by
  refine Solid.getReg.bind fun ctx => ?_
  by_cases h : ctx.errNo = .ok
  · rw [if_pos h]; exact Solid.pure _
  · rw [if_neg h]; exact Solid.throw (isParse_parse _ _)

/-- The next byte is there to be taken. -/
theorem unpackTakeByte_cons {c : Cursor UnpackContext} {b : UInt8} {bs : Bytes}
    (h : c.input = b :: bs) :
    unpackTakeByte c = .ok b { c with input := bs, last := b } := by
  rw [unpackTakeByte, bind_of_ok (take?_cons h)]
  rfl

theorem unpackTakeByte_nil {c : Cursor UnpackContext} (h : c.input = []) :
    unpackTakeByte c = .error (.parse .bufferUnderflow "") { c with atEnd := true } := by
  rw [unpackTakeByte, bind_of_ok (take?_nil h)]
  rfl

theorem unpackPeekByte?_nil {c : Cursor UnpackContext} (h : c.input = []) :
    unpackPeekByte? c = .ok none
      { c with atEnd := true, reg := { c.reg with errNo := .bufferUnderflow } } := by
  rw [unpackPeekByte?, bind_of_ok (peek?_nil h)]
  rfl

theorem unpackPeekByte?_cons {c : Cursor UnpackContext} {b : UInt8} {bs : Bytes}
    (h : c.input = b :: bs) : unpackPeekByte? c = .ok (some b) { c with last := b } := by
  rw [unpackPeekByte?, bind_of_ok (peek?_cons h)]
  rfl

theorem consumes_unpackTakeByte {b : UInt8} {F : UInt8 → Prop} {P : UnpackContext → Prop} :
    Consumes unpackTakeByte [b] F P fun a ctx => a = b ∧ P ctx := by
  intro c rest hc _ hP
  exact ⟨b, _, unpackTakeByte_cons hc, rfl, .inl rfl, rfl, hP⟩

/-- Taking a byte and going on with it. -/
theorem consumes_takeByte_bind {f : UInt8 → Unpack α} {b : UInt8} {bs : Bytes}
    {F : UInt8 → Prop} {P : UnpackContext → Prop} {R : α → UnpackContext → Prop}
    (h : Consumes (f b) bs F P R) : Consumes (unpackTakeByte >>= f) (b :: bs) F P R :=
  Consumes.bind_value consumes_unpackTakeByte h

theorem consumes_setItem {item : CCpcpItem} {F : UInt8 → Prop}
    {P : UnpackContext → Prop} {Q : Unit → UnpackContext → Prop}
    (h : ∀ ctx, P ctx → Q () { ctx with item }) : Consumes (setItem item) [] F P Q :=
  Consumes.modifyReg h

theorem getItem_apply (c : Cursor UnpackContext) : getItem c = .ok c.reg.item c := rfl

theorem setItem_apply (item : CCpcpItem) (c : Cursor UnpackContext) :
    setItem item c = .ok () { c with reg := { c.reg with item } } := rfl

theorem checkErrNo_of_ok {c : Cursor UnpackContext} (h : c.reg.errNo = .ok) :
    checkErrNo c = .ok () c := by
  rw [checkErrNo, bind_of_ok (getReg_apply c), if_pos h]
  rfl

theorem checkErrNo_of_ne {c : Cursor UnpackContext} (h : c.reg.errNo ≠ .ok) :
    checkErrNo c = .error (.parse c.reg.errNo c.reg.errMsg) c := by
  rw [checkErrNo, bind_of_ok (getReg_apply c), if_neg h]
  rfl

end LibShv
