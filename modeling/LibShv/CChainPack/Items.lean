import LibShv.CChainPack.Integers
import LibShv.CChainPack.DateTime

/-!
# LibShv.CChainPack.Items

`cchainpack_unpack_next` on the bytes of a packed item: it consumes exactly
these bytes and leaves the item in the context. A string or blob is delivered
in chunks of `stringChunkBuffLen` bytes.
-/

namespace LibShv

open ByteReader

/-! ## unpacking is solid -/

theorem solid_unpackCStringChunk (room : Nat) (chunk : Bytes) :
    UnpackSolid (unpackCStringChunk room chunk) := by
  induction room generalizing chunk with
  | zero => exact Solid.pure _
  | succ room ih =>
    rw [unpackCStringChunk]
    refine solid_unpackTakeByte.bind fun p => ?_
    split
    · refine solid_unpackTakeByte.bind fun q => ?_
      split
      · exact Solid.pure _
      · exact Solid.pure _
    · split
      · exact Solid.pure _
      · exact ih _

theorem solid_unpackSizedChunk (room : Nat) (sizeToLoad : Int64) (chunk : Bytes) :
    UnpackSolid (unpackSizedChunk room sizeToLoad chunk) := by
  induction room generalizing sizeToLoad chunk with
  | zero => exact Solid.pure _
  | succ room ih =>
    rw [unpackSizedChunk]
    split
    · exact solid_unpackTakeByte.bind fun _ => ih _ _
    · exact Solid.pure _

theorem solid_unpackString (it : CCpcpString) : UnpackSolid (unpackString it) := by
  rw [unpackString]
  split
  · exact (solid_unpackCStringChunk _ _).bind fun _ => Solid.pure _
  · exact (solid_unpackSizedChunk _ _ _).bind fun _ => Solid.pure _

theorem solid_unpackDoubleBytes (len : Nat) (shift bits : UInt64) :
    UnpackSolid (unpackDoubleBytes len shift bits) := by
  induction len generalizing shift bits with
  | zero => exact Solid.pure _
  | succ len ih => exact solid_unpackTakeByte.bind fun _ => ih _ _

theorem solid_unpackSizedString : UnpackSolid unpackSizedString :=
  solid_unpackUint.bind fun _ => solid_unpackString _

/-- The item of the integer that a date and time is packed in. -/
def packedDateTimeItem (d : Int64) : Unpack CCpcpItem :=
  match unpackedDateTime d with
  | some (msecs, offset) => return .dateTime msecs offset
  | none => unpackError .malformedInput "DateTime msec value overflow."

theorem solid_unpackItem (packingSchema : UInt8) :
    UnpackSolid (unpackItem packingSchema) := by
  have hdate : UnpackSolid (do packedDateTimeItem (← unpackInt)) := by
    refine solid_unpackInt.bind fun d => ?_
    rw [packedDateTimeItem]
    cases unpackedDateTime d with
    | none => exact solid_unpackError _ _
    | some x => exact Solid.pure _
  unfold unpackItem
  repeat' apply Solid.ite
  all_goals first
    | exact Solid.pure _
    | exact solid_unpackInt.bind fun _ => Solid.pure _
    | exact solid_unpackUint.bind fun _ => Solid.pure _
    | exact (solid_unpackDoubleBytes _ _ _).bind fun _ => Solid.pure _
    | exact solid_unpackInt.bind fun _ => solid_unpackInt.bind fun _ => Solid.pure _
    | exact hdate
    | exact solid_unpackSizedString.bind fun _ => Solid.pure _
    | exact (solid_unpackString _).bind fun _ => Solid.pure _
    | exact solid_unpackError _ _

theorem solid_cchainpackUnpackNext : UnpackSolid cchainpackUnpackNext := by
  have hitem : UnpackSolid (do setItem (← unpackItem (← unpackTakeByte))) :=
    solid_unpackTakeByte.bind fun b => (solid_unpackItem b).bind fun _ => solid_setItem _
  refine solid_checkErrNo.bind fun _ => solid_getItem.bind fun item => ?_
  split
  · split
    · exact hitem
    · exact (solid_unpackString _).bind fun _ => solid_setItem _
  · split
    · exact hitem
    · exact (solid_unpackString _).bind fun _ => solid_setItem _
  · exact hitem

/-! ## strings and blobs -/

theorem toInt_ofNat_of_lt {k : Nat} (h : k < 2 ^ 63) : (Int64.ofNat k).toInt = k := by
  rw [← Int64.ofInt_eq_ofNat, Int64.toInt_ofInt_of_le (by omega) (by omega)]

theorem consumes_unpackSizedChunk {F : UInt8 → Prop} {P : UnpackContext → Prop} (room : Nat)
    (s chunk : Bytes) (hs : s.length < 2 ^ 63) :
    Consumes (unpackSizedChunk room (Int64.ofNat s.length) chunk) (s.take room) F P
      fun a ctx => a = (chunk ++ s.take room, Int64.ofNat (s.length - room)) ∧ P ctx := by
  induction room generalizing s chunk with
  | zero => exact Consumes.pure fun _ h => ⟨by simp, h⟩
  | succ room ih =>
    cases s with
    | nil =>
      simp only [unpackSizedChunk]
      exact Consumes.pure fun _ h => ⟨by simp, h⟩
    | cons b s =>
      have hpos : Int64.ofNat (b :: s).length > 0 := by
        apply Int64.lt_iff_toInt_lt.mpr
        rw [toInt_ofNat_of_lt hs]
        simp
      have hpred : Int64.ofNat (b :: s).length - 1 = Int64.ofNat s.length := by
        simp [Int64.ofNat_add]
      rw [unpackSizedChunk, if_pos hpos]
      have hs' : s.length < 2 ^ 63 := Nat.lt_of_succ_lt hs
      refine consumes_takeByte_bind ?_
      rw [hpred]
      refine (ih s (chunk ++ [b]) hs').imp (fun _ h => h) (fun _ h => h) fun a ctx h => ?_
      simpa using h

/-- `it` when it has delivered the next chunk of `s`; the rest of `s` is to be loaded. -/
def CCpcpString.deliver (it : CCpcpString) (s : Bytes) : CCpcpString :=
  { it with
    chunk := s.take stringChunkBuffLen
    sizeToLoad := Int64.ofNat (s.length - stringChunkBuffLen)
    lastChunk := decide (s.length ≤ stringChunkBuffLen)
    chunkCnt := it.chunkCnt + 1 }

theorem CCpcpString.stringSize_deliver (it : CCpcpString) (s : Bytes) :
    (it.deliver s).stringSize = it.stringSize := by
  rw [deliver]

/-- A string of known size, before its first chunk. -/
def CCpcpString.sized (s : Bytes) : CCpcpString :=
  { CCpcpString.init with
    stringSize := Int64.ofNat s.length
    sizeToLoad := Int64.ofNat s.length }

theorem CCpcpString.live_deliver {it : CCpcpString} {s : Bytes} (hs : s.length < 2 ^ 63) :
    (it.deliver s).Live := by
  by_cases hle : s.length ≤ stringChunkBuffLen
  · exact .inl (decide_eq_true hle)
  · refine .inr (.inr (Int64.lt_iff_toInt_lt.mpr ?_))
    rw [deliver, toInt_ofNat_of_lt (by omega)]
    change (0 : Int) < _
    omega

theorem CCpcpString.sized_nonneg {s : Bytes} (hs : s.length < 2 ^ 63) :
    ¬ (CCpcpString.sized s).stringSize < 0 := by
  rw [sized, Int64.lt_iff_toInt_lt, toInt_ofNat_of_lt hs]
  change ¬ (s.length : Int) < 0
  omega

theorem consumes_unpackString {F : UInt8 → Prop} {P : UnpackContext → Prop} {it : CCpcpString}
    {s : Bytes} (hs : s.length < 2 ^ 63) (hsize : ¬ it.stringSize < 0)
    (hload : it.sizeToLoad = Int64.ofNat s.length) :
    Consumes (unpackString it) (s.take stringChunkBuffLen) F P fun a ctx =>
      a = it.deliver s ∧ P ctx := by
  rw [unpackString, if_neg hsize, hload, ← List.append_nil (s.take _)]
  refine Consumes.bind_value (consumes_unpackSizedChunk _ s [] hs) (Consumes.pure fun ctx h => ?_)
  have hlen : s.length - stringChunkBuffLen < 2 ^ 63 := by omega
  have hzero : (Int64.ofNat (s.length - stringChunkBuffLen) == 0) =
      decide (s.length ≤ stringChunkBuffLen) := by
    rw [Bool.eq_iff_iff, beq_iff_eq, decide_eq_true_iff, ← Int64.toInt_inj,
      toInt_ofNat_of_lt hlen]
    change ((s.length - stringChunkBuffLen : Nat) : Int) = 0 ↔ _
    omega
  exact ⟨by rw [CCpcpString.deliver, ← hzero]; rfl, h⟩

theorem consumes_unpackSizedString {F : UInt8 → Prop} {P : UnpackContext → Prop} {s : Bytes}
    (hs : s.length < 2 ^ 63) :
    Consumes unpackSizedString
      (packUintData (UInt64.ofNat s.length) ++ s.take stringChunkBuffLen) F P
      fun a ctx => a = (CCpcpString.sized s).deliver s ∧ P ctx :=
  Consumes.bind_value (consumes_packUintData _)
    (consumes_unpackString hs (CCpcpString.sized_nonneg hs) rfl)

/-! ## the eight bytes of a double -/

theorem testBit_toNat_shiftLeft {x : UInt64} {s i : Nat} (hs : s < 64) (hi : i < 64) :
    (x <<< UInt64.ofNat s).toNat.testBit i = (decide (s ≤ i) && x.toNat.testBit (i - s)) := by
  have hs' : s % 2 ^ 64 % 64 = s := by omega
  rw [UInt64.toNat_shiftLeft, UInt64.toNat_ofNat', hs', Nat.testBit_mod_two_pow,
    Nat.testBit_shiftLeft]
  simp [hi]

/-- Bit by bit, what the loop over `len` bytes adds to `acc` at position `s`. -/
theorem consumes_unpackDoubleBytes_bits {F : UInt8 → Prop} {P : UnpackContext → Prop} (len s : Nat)
    (acc n : UInt64) (hs : s + 8 * len ≤ 64) :
    Consumes (unpackDoubleBytes len (UInt64.ofNat s) acc) (littleEndian len n) F P fun a ctx =>
      (∀ i < 64, a.toNat.testBit i =
        (acc.toNat.testBit i || decide (s ≤ i ∧ i < s + 8 * len) && n.toNat.testBit (i - s))) ∧
      P ctx := by
  induction len generalizing s acc n with
  | zero =>
    refine Consumes.pure fun ctx h => ⟨fun i _ => ?_, h⟩
    have : ¬ (s ≤ i ∧ i < s + 8 * 0) := by omega
    rw [decide_eq_false this, Bool.false_and, Bool.or_false]
  | succ len ih =>
    have hshift : UInt64.ofNat s + 8 = UInt64.ofNat (s + 8) := by rw [UInt64.ofNat_add]; rfl
    have hnext : (n >>> 8).toNat = n.toNat / 2 ^ 8 := by
      simp [UInt64.toNat_shiftRight, Nat.shiftRight_eq_div_pow]
    refine consumes_takeByte_bind ?_
    rw [hshift]
    refine (ih (s + 8) _ (n >>> 8) (by omega)).imp (fun _ h => h) (fun _ h => h) ?_
    intro a ctx ⟨ha, hP⟩
    refine ⟨fun i hi => ?_, hP⟩
    have hbyte : n.toUInt8.toUInt64.toNat = n.toNat % 2 ^ 8 := by simp
    rw [ha i hi, UInt64.toNat_or, Nat.testBit_or, testBit_toNat_shiftLeft (by omega) hi, hbyte,
      Nat.testBit_mod_two_pow, hnext, Nat.testBit_div_two_pow]
    by_cases hlo : s ≤ i
    · by_cases hmid : i < s + 8
      · have h₁ : ¬ (s + 8 ≤ i ∧ i < s + 8 + 8 * len) := by omega
        have h₂ : s ≤ i ∧ i < s + 8 * (len + 1) := by omega
        have h₃ : i - s < 8 := by omega
        simp only [decide_eq_true hlo, decide_eq_false h₁, decide_eq_true h₂, decide_eq_true h₃,
          Bool.true_and, Bool.false_and, Bool.or_false]
      · have h₁ : (s + 8 ≤ i ∧ i < s + 8 + 8 * len) ↔ (s ≤ i ∧ i < s + 8 * (len + 1)) := by omega
        have h₂ : ¬ i - s < 8 := by omega
        have h₃ : i - (s + 8) + 8 = i - s := by omega
        simp only [h₁, h₂, h₃, decide_false, Bool.false_and, Bool.and_false, Bool.or_false]
    · have h₁ : ¬ (s + 8 ≤ i ∧ i < s + 8 + 8 * len) := by omega
      simp [hlo, h₁]

theorem consumes_unpackDoubleBytes {F : UInt8 → Prop} {P : UnpackContext → Prop} (bits : UInt64) :
    Consumes (unpackDoubleBytes 8 0 0) (littleEndian 8 bits) F P
      fun a ctx => a = bits ∧ P ctx := by
  refine (consumes_unpackDoubleBytes_bits 8 0 0 bits (by omega)).imp (fun _ h => h)
    (fun _ h => h) ?_
  intro a ctx ⟨ha, hP⟩
  refine ⟨UInt64.toNat_inj.mp (Nat.eq_of_testBit_eq fun i => ?_), hP⟩
  by_cases hi : i < 64
  · rw [ha i hi]
    simp [hi]
  · have hlt : ∀ x : UInt64, x.toNat < 2 ^ i := fun x =>
      Nat.lt_of_lt_of_le x.toNat_lt (Nat.pow_le_pow_right (by decide) (by omega))
    rw [Nat.testBit_lt_two_pow (hlt a), Nat.testBit_lt_two_pow (hlt bits)]

/-! ## the next item -/

theorem cchainpackUnpackNext_of_errNo {c : Cursor UnpackContext} (h : c.reg.errNo ≠ .ok) :
    cchainpackUnpackNext c = .error (.parse c.reg.errNo c.reg.errMsg) c := by
  rw [cchainpackUnpackNext, bind_of_error (checkErrNo_of_ne h)]

theorem unpackNext_of_ready {c : Cursor UnpackContext} (h : c.reg.Ready) :
    cchainpackUnpackNext c = (do setItem (← unpackItem (← unpackTakeByte)) : Unpack Unit) c := by
  have hfin := h.finished
  rw [cchainpackUnpackNext, bind_of_ok (checkErrNo_of_ok h.errNo), bind_of_ok (getItem_apply c)]
  cases hi : c.reg.item with
  | string it =>
    rw [hi] at hfin
    simp only [show it.lastChunk = true from hfin, if_true]
  | blob it =>
    rw [hi] at hfin
    simp only [show it.lastChunk = true from hfin, if_true]
  | _ => rfl

/-- A fresh item is unpacked by `unpackItem` and left in the context. -/
theorem consumes_cchainpackUnpackNext {F : UInt8 → Prop} {schema : UInt8} {bs : Bytes}
    {Q : CCpcpItem → Prop}
    (h : Consumes (unpackItem schema) bs F (fun ctx => ctx.errNo = .ok)
      fun a ctx => Q a ∧ ctx.errNo = .ok) :
    Consumes cchainpackUnpackNext (schema :: bs) F UnpackContext.Ready
      fun _ ctx => Q ctx.item ∧ ctx.errNo = .ok := by
  intro c rest hc hrest hP
  rw [unpackNext_of_ready hP]
  have hseq : Consumes (do setItem (← unpackItem (← unpackTakeByte)) : Unpack Unit)
      ([schema] ++ (bs ++ [])) F (fun ctx => ctx.errNo = .ok)
      fun _ ctx => Q ctx.item ∧ ctx.errNo = .ok := by
    refine Consumes.bind_value consumes_unpackTakeByte (Consumes.bind h (fun a => ?_)
      (Follows.nil F) fun _ _ h => h)
    exact consumes_setItem fun ctx h => h
  exact hseq c rest (by simpa using hc) hrest hP.errNo

/-- The item left by `cchainpack_unpack_next`. -/
abbrev Leaves (item : CCpcpItem) (_ : Unit) (ctx : UnpackContext) : Prop :=
  ctx.item = item ∧ ctx.errNo = .ok

section Next

variable {F : UInt8 → Prop}

/-- An item without bytes behind its schema. -/
theorem consumes_next_schema {schema : UInt8} {item : CCpcpItem}
    (h : unpackItem schema = return item) :
    Consumes cchainpackUnpackNext [schema] F UnpackContext.Ready (Leaves item) := by
  refine consumes_cchainpackUnpackNext (Q := (· = item)) ?_
  rw [h]
  exact Consumes.pure fun _ he => ⟨rfl, he⟩

/-- An item that is a function of one thing unpacked behind its schema. -/
theorem consumes_next_map {α : Type} {schema : UInt8} {bs : Bytes} {p : Unpack α} {a : α}
    {f : α → CCpcpItem} (h : unpackItem schema = do return f (← p))
    (hp : Consumes p bs (fun _ => True) (fun ctx => ctx.errNo = .ok)
      fun a' ctx => a' = a ∧ ctx.errNo = .ok) :
    Consumes cchainpackUnpackNext (schema :: bs) F UnpackContext.Ready (Leaves (f a)) := by
  refine consumes_cchainpackUnpackNext (Q := (· = f a)) ?_
  rw [h]
  exact hp.map_value fun _ he => ⟨rfl, he⟩

theorem consumes_next_null :
    Consumes cchainpackUnpackNext [CP_Null] F UnpackContext.Ready (Leaves .null) :=
  consumes_next_schema rfl

theorem consumes_next_containerEnd :
    Consumes cchainpackUnpackNext [CP_TERM] F UnpackContext.Ready (Leaves .containerEnd) :=
  consumes_next_schema rfl

theorem consumes_next_packBoolean (b : Bool) :
    Consumes cchainpackUnpackNext (packBoolean b) F UnpackContext.Ready (Leaves (.boolean b)) := by
  cases b with
  | false => exact consumes_next_schema rfl
  | true => exact consumes_next_schema rfl

/-- The schema byte of a small unsigned integer is the integer. -/
theorem tinyUInt {k : Nat} (h : k < 64) :
    (UInt64.ofNat k % 64).toUInt8 < 128 ∧ (UInt64.ofNat k % 64).toUInt8 &&& 64 = 0 ∧
      ((UInt64.ofNat k % 64).toUInt8 &&& 63).toUInt64 = UInt64.ofNat k := by
  have hall : ∀ k < 64, (UInt64.ofNat k % 64).toUInt8 < 128 ∧
      (UInt64.ofNat k % 64).toUInt8 &&& 64 = 0 ∧
      ((UInt64.ofNat k % 64).toUInt8 &&& 63).toUInt64 = UInt64.ofNat k := by decide
  exact hall k h

/-- The schema byte of a small signed integer is the integer with bit 6 set. -/
theorem tinyInt {k : Nat} (h : k < 64) :
    (Int64.ofNat k % 64 + 64).toUInt64.toUInt8 < 128 ∧
      (Int64.ofNat k % 64 + 64).toUInt64.toUInt8 &&& 64 ≠ 0 ∧
      ((Int64.ofNat k % 64 + 64).toUInt64.toUInt8 &&& 63).toUInt64.toInt64 = Int64.ofNat k := by
  have hall : ∀ k < 64, (Int64.ofNat k % 64 + 64).toUInt64.toUInt8 < 128 ∧
      (Int64.ofNat k % 64 + 64).toUInt64.toUInt8 &&& 64 ≠ 0 ∧
      ((Int64.ofNat k % 64 + 64).toUInt64.toUInt8 &&& 63).toUInt64.toInt64 = Int64.ofNat k := by
    decide
  exact hall k h

theorem consumes_next_packUint (n : UInt64) :
    Consumes cchainpackUnpackNext (packUint n) F UnpackContext.Ready (Leaves (.uint n)) := by
  by_cases h : n < 64
  · have hk : n.toNat < 64 := UInt64.lt_iff_toNat_lt.mp h
    obtain ⟨h₁, h₂, h₃⟩ := tinyUInt hk
    rw [UInt64.ofNat_toNat] at h₁ h₂ h₃
    rw [packUint, if_pos h]
    refine consumes_next_schema ?_
    rw [unpackItem, if_pos h₁, if_neg (not_not_intro h₂), h₃]
  · rw [packUint, if_neg h]
    exact @consumes_next_map F _ CP_UInt _ _ _ (fun x => .uint x.1) rfl (consumes_packUintData n)

theorem consumes_next_packInt (n : Int64) :
    Consumes cchainpackUnpackNext (packInt n) F UnpackContext.Ready
      (Leaves (.int (unpackedInt n))) := by
  by_cases h : 0 ≤ n ∧ n < 64
  · have hlo : 0 ≤ n.toInt := Int64.le_iff_toInt_le.mp h.1
    have hhi : n.toInt < 64 := Int64.lt_iff_toInt_lt.mp h.2
    have hn : Int64.ofNat n.toInt.toNat = n := by
      apply Int64.toInt_inj.mp
      rw [toInt_ofNat_of_lt (by omega), Int.toNat_of_nonneg hlo]
    obtain ⟨h₁, h₂, h₃⟩ := tinyInt (k := n.toInt.toNat) (by omega)
    rw [hn] at h₁ h₂ h₃
    have hne : n ≠ Int64.minValue := by
      intro he
      rw [he] at hlo
      exact absurd hlo (by decide)
    rw [packInt, if_pos h, unpackedInt, if_neg hne]
    refine consumes_next_schema ?_
    rw [unpackItem, if_pos h₁, if_pos h₂, h₃]
  · rw [packInt, if_neg h]
    exact consumes_next_map rfl (consumes_packIntData n)

theorem consumes_next_packDouble (bits : UInt64) :
    Consumes cchainpackUnpackNext (packDouble bits) F UnpackContext.Ready
      (Leaves (.double bits)) :=
  consumes_next_map rfl (consumes_unpackDoubleBytes bits)

theorem toInt32_unpackedInt_toInt64 (e : Int32) : (unpackedInt e.toInt64).toInt32 = e := by
  have hne : e.toInt64 ≠ Int64.minValue := e.toInt64_ne_minValue
  rw [unpackedInt, if_neg hne, Int32.toInt32_toInt64]

theorem consumes_next_packDecimal (m : Int64) (e : Int32) :
    Consumes cchainpackUnpackNext (packDecimal m e) F UnpackContext.Ready
      (Leaves (.decimal (unpackedInt m) e)) := by
  refine consumes_cchainpackUnpackNext (Q := (· = .decimal (unpackedInt m) e)) ?_
  have hitem : unpackItem CP_Decimal = (do
      let mant ← unpackInt
      let exp ← unpackInt
      return .decimal mant exp.toInt32) := rfl
  rw [hitem]
  refine Consumes.bind_value (consumes_packIntData m) ?_
  refine (consumes_packIntData _).map_value fun _ he => ⟨?_, he⟩
  rw [toInt32_unpackedInt_toInt64]

theorem consumes_next_packDateTime (dt : RpcDateTime) {msecs : Int64} {offset : Int}
    (h : dt.unpacked = some (msecs, offset)) :
    Consumes cchainpackUnpackNext (packDateTime dt.msecsSinceEpoch dt.utcOffsetMin) F
      UnpackContext.Ready (Leaves (.dateTime msecs offset)) := by
  refine consumes_cchainpackUnpackNext (Q := (· = .dateTime msecs offset)) ?_
  have hitem : unpackItem CP_DateTime = (do packedDateTimeItem (← unpackInt)) := rfl
  rw [hitem, ← List.append_nil (packIntData _)]
  refine Consumes.bind_value (consumes_packIntData _) ?_
  rw [RpcDateTime.unpacked] at h
  rw [packedDateTimeItem, h]
  exact Consumes.pure fun _ he => ⟨rfl, he⟩

/-- The first chunk of a packed string. -/
theorem consumes_next_packString {s : Bytes} (hs : s.length < 2 ^ 63) :
    Consumes cchainpackUnpackNext
      (CP_String :: (packUintData (UInt64.ofNat s.length) ++ s.take stringChunkBuffLen)) F
      UnpackContext.Ready (Leaves (.string ((CCpcpString.sized s).deliver s))) :=
  consumes_next_map rfl (consumes_unpackSizedString hs)

/-- The first chunk of a packed blob. -/
theorem consumes_next_packBlob {s : Bytes} (hs : s.length < 2 ^ 63) :
    Consumes cchainpackUnpackNext
      (CP_Blob :: (packUintData (UInt64.ofNat s.length) ++ s.take stringChunkBuffLen)) F
      UnpackContext.Ready (Leaves (.blob ((CCpcpString.sized s).deliver s))) :=
  consumes_next_map rfl (consumes_unpackSizedString hs)

end Next

end LibShv
