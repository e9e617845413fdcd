import LibShv.Lib.Memory
import LibShv.RpcValue

/-!
# LibShv.CCpcp.PackContext

The pack context (`ccpcp.c`) and the writer over a stream (`abstractstreamwriter.cpp`):
bytes are copied behind `current`, and where there is no room for them the overflow
handler is called. Every pack function of the two formats comes down to a sequence of
`copy_byte` and `copy_bytes`.

Pointers are addresses of a memory, and `NULL` is the address zero. The overflow handler is
a parameter; it is `none` where the context has none.
-/

namespace LibShv

open Memory

/-- The error codes `CCPCP_RC_*` that packing may set. -/
inductive PackErrNo where
  | ok
  | bufferOverflow
deriving DecidableEq

/-- `ccpcp_pack_context` with the memory its pointers point to and with `m_out`, the stream behind
its `custom_context`. -/
structure PackContext where
  start : Nat
  current : Nat
  end_ : Nat
  errNo : PackErrNo
  bytesWritten : UInt64
  mem : Nat → UInt8
  out : Bytes

/-- `ccpcp_pack_overflow_handler`: it gets the context and the size hint. -/
abbrev PackOverflowHandler := PackContext → Nat → PackContext

namespace PackContext

/-- `ccpcp_pack_context_init`. -/
def init (mem : Nat → UInt8) (data length : Nat) : PackContext where
  start := data
  current := data
  end_ := data + length
  errNo := .ok
  bytesWritten := 0
  mem := mem
  out := []

/-- `ccpcp_pack_context_dry_run_init`; the handler is `none`. -/
def dryRunInit (mem : Nat → UInt8) : PackContext := init mem 0 0

/-- Bytes are counted before there is any room for them. -/
def countBytes (ctx : PackContext) (len : Nat) : PackContext :=
  { ctx with bytesWritten := ctx.bytesWritten + UInt64.ofNat len }

section Calls

variable (handlePackOverflow : Option PackOverflowHandler)

/-- `is_dry_run`. -/
def isDryRun (ctx : PackContext) : Bool :=
  handlePackOverflow.isNone && ctx.start == 0 && ctx.end_ == 0 && ctx.current == 0

/-- `ccpcp_pack_make_space`: the free space of the buffer, or zero on an error. -/
def makeSpace (ctx : PackContext) (sizeHint : Nat) : PackContext × Nat :=
  if ctx.errNo ≠ .ok then (ctx, 0)
  else
    let freeSpace := ctx.end_ - ctx.current
    if freeSpace < sizeHint then
      match handlePackOverflow with
      | none => ({ ctx with errNo := .bufferOverflow }, 0)
      | some handle =>
        let ctx := handle ctx sizeHint
        let freeSpace := ctx.end_ - ctx.current
        if freeSpace < 1 then ({ ctx with errNo := .bufferOverflow }, 0) else (ctx, freeSpace)
    else (ctx, freeSpace)

/-- `ccpcp_pack_reserve_space`: the address of the bytes that are taken. -/
def reserveSpace (ctx : PackContext) (more : Nat) : PackContext × Option Nat :=
  if ctx.errNo ≠ .ok then (ctx, none)
  else
    let (ctx, freeSpace) := ctx.makeSpace handlePackOverflow more
    if freeSpace < more then ({ ctx with errNo := .bufferOverflow }, none)
    else ({ ctx with current := ctx.current + more }, some ctx.current)

/-- `ccpcp_pack_copy_byte`. -/
def copyByte (ctx : PackContext) (b : UInt8) : PackContext × Nat :=
  let ctx := ctx.countBytes 1
  if ctx.isDryRun handlePackOverflow then (ctx, 1)
  else
    match ctx.reserveSpace handlePackOverflow 1 with
    | (ctx, none) => (ctx, 0)
    | (ctx, some p) => ({ ctx with mem := writeAt ctx.mem p [b] }, 1)

/-- `memcpy` to `current`, which moves behind the bytes. -/
def copyCurrent (ctx : PackContext) (bs : Bytes) : PackContext :=
  { ctx with mem := writeAt ctx.mem ctx.current bs, current := ctx.current + bs.length }

/-- The loop of `ccpcp_pack_copy_bytes`. -/
def copyLoop (str : Bytes) (copied : Nat) (ctx : PackContext) : PackContext × Nat :=
  if _h : ctx.errNo = .ok ∧ copied < str.length then
    let r := ctx.makeSpace handlePackOverflow str.length
    if _h0 : r.2 = 0 then ({ r.1 with errNo := .bufferOverflow }, 0)
    else
      let rest := min (str.length - copied) r.2
      copyLoop str (copied + rest) (r.1.copyCurrent ((str.drop copied).take rest))
  else (ctx, copied)
termination_by str.length - copied
decreasing_by
  have _hlt := _h.2
  have hpos : 0 < (makeSpace handlePackOverflow ctx str.length).2 := Nat.pos_of_ne_zero _h0
  omega

/-- `ccpcp_pack_copy_bytes`. -/
def copyBytes (ctx : PackContext) (str : Bytes) : PackContext × Nat :=
  let ctx := ctx.countBytes str.length
  if ctx.isDryRun handlePackOverflow then (ctx, str.length)
  else copyLoop handlePackOverflow str 0 ctx

end Calls

end PackContext

/-- A call of one of the two functions every byte is packed with. -/
inductive PackCall where
  | copyByte (b : UInt8)
  | copyBytes (str : Bytes)

/-- The bytes a call packs. -/
def PackCall.output : PackCall → Bytes
  | .copyByte b => [b]
  | .copyBytes str => str

/-- The bytes a sequence of calls packs. -/
def packOutput (calls : List PackCall) : Bytes := calls.flatMap PackCall.output

namespace PackContext

variable (handlePackOverflow : Option PackOverflowHandler)

def call (ctx : PackContext) : PackCall → PackContext
  | .copyByte b => (ctx.copyByte handlePackOverflow b).1
  | .copyBytes str => (ctx.copyBytes handlePackOverflow str).1

/-- The context after a sequence of calls. -/
def run (ctx : PackContext) (calls : List PackCall) : PackContext :=
  calls.foldl (call handlePackOverflow) ctx

/-- `AbstractStreamWriter::flush`, which the destructor calls, too. -/
def flush (ctx : PackContext) : PackContext :=
  match handlePackOverflow with
  | none => ctx
  | some handle => handle ctx 0

end PackContext

/-- `pack_overflow_handler` of a writer with `m_packBuff` at `buff`: the bytes from `start` to
`current` go to the stream, and the buffer is empty again. -/
def streamPackOverflowHandler (buff : Nat) : PackOverflowHandler := fun ctx _ =>
  { ctx with
    out := ctx.out ++ readAt ctx.mem ctx.start (ctx.current - ctx.start)
    start := buff
    current := buff }

/-! ## one call -/

namespace PackContext

variable {handlePackOverflow : Option PackOverflowHandler} {ctx : PackContext}

theorem makeSpace_of_room {n : Nat} (hok : ctx.errNo = .ok) (hroom : n ≤ ctx.end_ - ctx.current) :
    ctx.makeSpace handlePackOverflow n = (ctx, ctx.end_ - ctx.current) := by
  unfold makeSpace
  rw [if_neg (not_not_intro hok)]
  exact if_neg (Nat.not_lt.mpr hroom)

theorem makeSpace_of_full {n : Nat} (hok : ctx.errNo = .ok) (hfull : ctx.end_ - ctx.current < n) :
    ctx.makeSpace none n = ({ ctx with errNo := .bufferOverflow }, 0) := by
  unfold makeSpace
  rw [if_neg (not_not_intro hok)]
  exact if_pos hfull

theorem makeSpace_of_handled {handle : PackOverflowHandler} {n : Nat} (hok : ctx.errNo = .ok)
    (hfull : ctx.end_ - ctx.current < n) (hroom : 1 ≤ (handle ctx n).end_ - (handle ctx n).current) :
    ctx.makeSpace (some handle) n =
      (handle ctx n, (handle ctx n).end_ - (handle ctx n).current) := by
  unfold makeSpace
  rw [if_neg (not_not_intro hok)]
  simp only [if_pos hfull, if_neg (Nat.not_lt.mpr hroom)]

theorem isDryRun_of_start (h : ctx.start ≠ 0) : ctx.isDryRun handlePackOverflow = false := by
  simp [isDryRun, h]

theorem isDryRun_some {handle : PackOverflowHandler} : ctx.isDryRun (some handle) = false := rfl

theorem copyBytes_of_wet (str : Bytes) (h : ctx.isDryRun handlePackOverflow = false) :
    ctx.copyBytes handlePackOverflow str =
      copyLoop handlePackOverflow str 0 (ctx.countBytes str.length) := by
  have h' : (ctx.countBytes str.length).isDryRun handlePackOverflow = false := h
  simp only [copyBytes, h', Bool.false_eq_true, if_false]

/-- A single byte is copied as a run of one. -/
theorem copyByte_eq (b : UInt8) :
    ctx.copyByte handlePackOverflow b = ctx.copyBytes handlePackOverflow [b] := by
  rw [copyByte, copyBytes]
  congr 1
  change _ = copyLoop handlePackOverflow [b] 0 (ctx.countBytes 1)
  generalize ctx.countBytes 1 = ctx
  rw [copyLoop]
  by_cases hok : ctx.errNo = .ok
  · simp only [reserveSpace, hok, ne_eq, not_true_eq_false, if_false, List.length_singleton]
    by_cases hfree : (ctx.makeSpace handlePackOverflow 1).2 = 0
    · simp [hfree]
    · have hpos : ¬ (ctx.makeSpace handlePackOverflow 1).2 < 1 := by omega
      have hmin : min 1 (ctx.makeSpace handlePackOverflow 1).2 = 1 := by omega
      simp only [hpos, hfree, if_false]
      rw [copyLoop]
      simp [hmin, copyCurrent]
  · simp [reserveSpace, hok]

end PackContext

end LibShv
