import LibShv.CponReader
import LibShv.AbstractStreamReader.Total

/-!
# LibShv.CponReader.Stable

What the CPON reader returns without having touched the end of the stream does
not depend on what follows: one lemma for each function of the unpacker.
-/

namespace LibShv.CCpon

open ByteReader AbstractStreamReader

theorem extends_setError (errNo : ErrNo) (errMsg : String) :
    Extends (setError errNo errMsg) (setError errNo errMsg) := Extends.modifyReg _

theorem extends_setErrNo (errNo : ErrNo) : Extends (setErrNo errNo) (setErrNo errNo) :=
  Extends.modifyReg _

theorem extends_unpackError {α : Type} (errNo : ErrNo) (msg : String) :
    Extends (unpackError errNo msg : Unpack α) (unpackError errNo msg) := Extends.throw _ _

theorem extends_unpackTakeByte : Extends unpackTakeByte unpackTakeByte := solid_unpackTakeByte.ext

theorem extends_unpackTakeByte? : Extends unpackTakeByte? unpackTakeByte? := by
  refine Extends.take?.bind fun o => ?_
  cases o with
  | some b => exact Extends.pure _
  | none => exact (extends_setErrNo _).bind fun _ => Extends.pure _

theorem extends_skipInsignificant : Extends skipInsignificant skipInsignificant := by
  refine (Extends.scan _ _).bind fun r => ?_
  cases r with
  | inr p => exact Extends.pure _
  | inl mode =>
    cases mode with
    | star => exact Extends.throw _ _
    | slash => exact (extends_setError _ _).bind fun _ => (extends_setErrNo _).bind fun _ =>
        Extends.pure _
    | _ => exact (extends_setErrNo _).bind fun _ => Extends.pure _

/-! ## numbers -/

theorem extends_unpackIntToResult (initValue : Int64) :
    Extends (unpackIntToResult initValue) (unpackIntToResult initValue) := by
  refine (Extends.scan _ _).bind fun r => ?_
  cases r with
  | inl s => exact (extends_setErrNo _).bind fun _ => Extends.pure _
  | inr s => exact Extends.unget.bind fun _ => Extends.pure _

theorem extends_unpackInt : Extends unpackInt unpackInt :=
  (extends_unpackIntToResult 0).bind fun _ => Extends.pure _

theorem extends_unpackExponent (r : ReadNumber) (p : UInt8) :
    Extends (unpackExponent r p) (unpackExponent r p) :=
  Extends.ite
    ((extends_unpackIntToResult 0).bind fun _ =>
      Extends.ite (extends_unpackError _ _) (Extends.pure _))
    (Extends.ite (Extends.unget.bind fun _ => Extends.pure _) (Extends.pure _))

theorem extends_unpackNumberTail (r : ReadNumber) (p : UInt8) :
    Extends (unpackNumberTail r p) (unpackNumberTail r p) := by
  refine Extends.ite (Extends.pure _) (Extends.ite ?_ (extends_unpackExponent r p))
  refine (extends_unpackIntToResult _).bind fun _ => extends_unpackTakeByte?.bind fun o => ?_
  cases o with
  | none => exact Extends.pure _
  | some p => exact extends_unpackExponent _ p

theorem extends_unpackNumber : Extends unpackNumber unpackNumber := by
  refine (extends_unpackIntToResult 0).bind fun result => Extends.ite (extends_unpackError _ _) ?_
  refine Extends.bind ?_ fun _ => (extends_setErrNo _).bind fun _ => Extends.pure _
  refine extends_unpackTakeByte?.bind fun o => ?_
  cases o with
  | none => exact Extends.pure _
  | some p => exact extends_unpackNumberTail _ p

/-! ## date-times -/

theorem extends_orReturn {α β : Type} {p : Unpack (Option α)} {f : α → Unpack (Option β)}
    (hp : Extends p p) (hf : ∀ a, Extends (f a) (f a)) :
    Extends (orReturn p f) (orReturn p f) := by
  refine hp.bind fun o => ?_
  cases o with
  | none => exact Extends.pure _
  | some a => exact hf a

theorem extends_unpackDateField (errMsg : String) :
    Extends (unpackDateField errMsg) (unpackDateField errMsg) :=
  extends_unpackInt.bind fun _ => Extends.ite
    ((extends_setError _ _).bind fun _ => Extends.pure _) (Extends.pure _)

theorem extends_unpackDateSeparator (allowed : Bytes) (errMsg : String) :
    Extends (unpackDateSeparator allowed errMsg) (unpackDateSeparator allowed errMsg) :=
  extends_unpackTakeByte.bind fun _ => Extends.ite (Extends.pure _)
    ((extends_setError _ _).bind fun _ => Extends.pure _)

theorem extends_unpackTime : Extends unpackTime unpackTime :=
  extends_orReturn (extends_unpackDateField _) fun _ => extends_unpackTakeByte.bind fun _ =>
    extends_orReturn (extends_unpackDateField _) fun _ => extends_unpackTakeByte.bind fun _ =>
      extends_orReturn (extends_unpackDateField _) fun _ => Extends.pure _

theorem extends_unpackTm : Extends unpackTm unpackTm :=
  extends_orReturn (extends_unpackDateField _) fun _ =>
    extends_orReturn (extends_unpackDateSeparator _ _) fun _ =>
      extends_orReturn (extends_unpackDateField _) fun _ =>
        extends_orReturn (extends_unpackDateSeparator _ _) fun _ =>
          extends_orReturn (extends_unpackDateField _) fun _ =>
            extends_orReturn (extends_unpackDateSeparator _ _) fun _ =>
              extends_orReturn extends_unpackTime fun _ => Extends.pure _

theorem extends_unpackUtcOffset (p : UInt8) :
    Extends (unpackUtcOffset p) (unpackUtcOffset p) :=
  Extends.ite (Extends.pure _)
    (Extends.ite
      (extends_unpackInt.bind fun _ => Extends.ite (Extends.pure _)
        ((extends_setError _ _).bind fun _ => Extends.pure _))
      (Extends.unget.bind fun _ => Extends.pure _))

theorem extends_unpackMsecAndOffset : Extends unpackMsecAndOffset unpackMsecAndOffset := by
  refine extends_unpackTakeByte?.bind fun o => ?_
  cases o with
  | none => exact Extends.pure _
  | some p =>
    refine Extends.ite ?_ (extends_orReturn (extends_unpackUtcOffset p) fun _ => Extends.pure _)
    refine extends_unpackInt.bind fun _ => Extends.ite (Extends.pure _) ?_
    refine extends_unpackTakeByte?.bind fun o => ?_
    cases o with
    | none => exact Extends.pure _
    | some p => exact extends_orReturn (extends_unpackUtcOffset p) fun _ => Extends.pure _

theorem extends_dateTimeItem (tm : Tm) (msec : Int32) (offset : Int64) :
    Extends (dateTimeItem tm msec offset) (dateTimeItem tm msec offset) := by
  rw [dateTimeItem]
  cases timegm tm with
  | none => exact Extends.throw _ _
  | some epochSec => exact Extends.pure _

theorem extends_unpackDateTime : Extends unpackDateTime unpackDateTime := by
  refine Extends.bind ?_ fun _ => Extends.pure _
  exact extends_orReturn extends_unpackTm fun _ =>
    extends_orReturn extends_unpackMsecAndOffset fun _ =>
      (extends_setErrNo _).bind fun _ => (extends_dateTimeItem _ _ _).bind fun _ => Extends.pure _

/-! ## strings and blobs -/

theorem extends_unpackStringChunk (room : Nat) (chunk : Bytes) :
    Extends (unpackStringChunk room chunk) (unpackStringChunk room chunk) := by
  induction room generalizing chunk with
  | zero => exact Extends.pure _
  | succ room ih =>
    refine extends_unpackTakeByte.bind fun p => Extends.ite ?_ (Extends.ite (Extends.pure _) (ih _))
    exact extends_unpackTakeByte.bind fun _ => ih _

theorem extends_unpackBlobEscape (p : UInt8) :
    Extends (unpackBlobEscape p) (unpackBlobEscape p) := by
  refine Extends.ite (Extends.pure _) (Extends.ite (Extends.pure _) (Extends.ite (Extends.pure _)
    (Extends.ite (Extends.pure _) (Extends.ite (Extends.pure _) ?_))))
  cases unhex p with
  | none => exact extends_unpackError _ _
  | some hi =>
    refine extends_unpackTakeByte.bind fun q => ?_
    cases unhex q with
    | none => exact extends_unpackError _ _
    | some lo => exact Extends.pure _

theorem extends_unpackBlobEscChunk (room : Nat) (chunk : Bytes) :
    Extends (unpackBlobEscChunk room chunk) (unpackBlobEscChunk room chunk) := by
  induction room generalizing chunk with
  | zero => exact Extends.pure _
  | succ room ih =>
    refine extends_unpackTakeByte.bind fun b => Extends.ite (Extends.pure _) (Extends.ite ?_
      (Extends.ite (ih _) (extends_unpackError _ _)))
    exact extends_unpackTakeByte.bind fun p => (extends_unpackBlobEscape p).bind fun _ => ih _

theorem extends_unpackHexByte : Extends unpackHexByte unpackHexByte := by
  refine (Extends.scan _ _).bind fun r => ?_
  cases r with
  | inl _ => exact extends_unpackError _ _
  | inr p => exact Extends.pure _

theorem extends_unpackBlobHexChunk (room : Nat) (chunk : Bytes) :
    Extends (unpackBlobHexChunk room chunk) (unpackBlobHexChunk room chunk) := by
  induction room generalizing chunk with
  | zero => exact Extends.pure _
  | succ room ih =>
    refine extends_unpackHexByte.bind fun p => Extends.ite (Extends.pure _) ?_
    cases unhex p with
    | none => exact extends_unpackError _ _
    | some b1 =>
      refine extends_unpackTakeByte.bind fun q => ?_
      cases unhex q with
      | none => exact extends_unpackError _ _
      | some b2 => exact ih _

theorem extends_unpackChunk {chunk : Nat → Bytes → Unpack (Bytes × Bool)} (errMsg : String)
    (hchunk : ∀ room bytes, Extends (chunk room bytes) (chunk room bytes)) (it : CCpcpString) :
    Extends (unpackChunk chunk errMsg it) (unpackChunk chunk errMsg it) := by
  have hrest : ∀ u : Unit, Extends (do
      let r ← chunk stringChunkBuffLen []
      return { it with
        chunk := r.1, lastChunk := it.lastChunk || r.2, chunkCnt := it.chunkCnt + 1 })
      (do
      let r ← chunk stringChunkBuffLen []
      return { it with
        chunk := r.1, lastChunk := it.lastChunk || r.2, chunkCnt := it.chunkCnt + 1 }) :=
    fun _ => (hchunk stringChunkBuffLen []).bind fun _ => Extends.pure _
  refine Extends.ite (extends_unpackTakeByte.bind fun p => ?_) (hrest ())
  exact Extends.ite ((extends_unpackError _ _).bind hrest) (hrest ())

/-! ## items -/

theorem extends_expectByte (b : UInt8) (errMsg : String) :
    Extends (expectByte b errMsg) (expectByte b errMsg) :=
  extends_unpackTakeByte.bind fun _ => Extends.ite (Extends.pure _) (extends_unpackError _ _)

theorem extends_expectLiteral (errMsg : String) (bs : Bytes) :
    Extends (expectLiteral errMsg bs) (expectLiteral errMsg bs) := by
  induction bs with
  | nil => exact Extends.pure _
  | cons b bs ih => exact (extends_expectByte b errMsg).bind fun _ => ih

theorem extends_unpackDateTimeEnd : Extends unpackDateTimeEnd unpackDateTimeEnd := by
  refine extends_unpackTakeByte?.bind fun o => ?_
  cases o with
  | none => exact solid_checkErrNo.ext
  | some p => exact Extends.ite solid_checkErrNo.ext (extends_unpackError _ _)

theorem extends_unpackItem (p : UInt8) : Extends (unpackItem p) (unpackItem p) := by
  have hstring := extends_unpackChunk "String should start with '\"' character."
    extends_unpackStringChunk
  have hblob := extends_unpackChunk "Blob should start with 'b\"' ." extends_unpackBlobEscChunk
  have hhex := extends_unpackChunk "Blob should start with 'x\"' ." extends_unpackBlobHexChunk
  unfold unpackItem
  repeat' apply Extends.ite
  all_goals first
    | exact Extends.pure _
    | exact extends_unpackError _ _
    | exact (extends_expectByte _ _).bind fun _ => Extends.pure _
    | exact (extends_expectLiteral _ _).bind fun _ => Extends.pure _
    | exact (extends_expectByte _ _).bind fun _ => extends_unpackDateTime.bind fun _ =>
        extends_unpackDateTimeEnd.bind fun _ => Extends.pure _
    | exact (extends_expectByte _ _).bind fun _ => Extends.unget.bind fun _ =>
        (hhex _).bind fun _ => Extends.pure _
    | exact (extends_expectByte _ _).bind fun _ => Extends.unget.bind fun _ =>
        (hblob _).bind fun _ => Extends.pure _
    | exact Extends.unget.bind fun _ => (hstring _).bind fun _ => Extends.pure _
    | exact Extends.unget.bind fun _ => extends_unpackNumber

theorem extends_startItem : Extends startItem startItem := by
  refine (solid_setItem _).ext.bind fun _ => extends_skipInsignificant.bind fun o => ?_
  cases o with
  | none => exact solid_checkErrNo.ext
  | some p => exact (extends_unpackItem p).bind fun _ => (solid_setItem _).ext

theorem extends_unpackNext : Extends unpackNext unpackNext := by
  refine solid_checkErrNo.ext.bind fun _ => solid_getItem.ext.bind fun item => ?_
  cases item with
  | string it =>
    exact Extends.ite extends_startItem
      ((extends_unpackChunk _ extends_unpackStringChunk it).bind fun _ => (solid_setItem _).ext)
  | blob it =>
    refine Extends.ite extends_startItem ?_
    exact Extends.ite
      ((extends_unpackChunk _ extends_unpackBlobHexChunk it).bind fun _ => (solid_setItem _).ext)
      ((extends_unpackChunk _ extends_unpackBlobEscChunk it).bind fun _ => (solid_setItem _).ext)
  | _ => exact extends_startItem

end LibShv.CCpon

namespace LibShv.CponReader

open ByteReader AbstractStreamReader

theorem extends_metaDataBegin : Extends metaDataBegin metaDataBegin :=
  CCpon.extends_skipInsignificant.bind fun _ => Extends.unget.bind fun _ =>
    Extends.ite (CCpon.extends_unpackNext.bind fun _ => Extends.pure _) (Extends.pure _)

theorem stable : Stable reader where
  unpackNext := (CCpon.extends_unpackNext.mapError repeatMessage).bind fun _ => solid_getItem.ext
  metaDataBegin := extends_metaDataBegin

end LibShv.CponReader
