import LibShv.DChainPack.Packing

/-!
# LibShv.DChainPack.Values

The values of the two libraries side by side. `valueOf` is the C++ value of a D value, `ofValue`
the D value of a C++ one. The order of `byKey` has no part in `valueOf`: a `std::map` sorts its
entries.
-/

namespace LibShv.DChainPack

open AbstractStreamReader

/-! ## date-times -/

/-- The C++ date-time of a D one. -/
def dateTimeOf (dt : D.DateTime) : RpcDateTime :=
  .fromMSecsSinceEpoch dt.msecsSinceEpoch dt.utcOffsetMin.toInt

/-- The D date-time of a C++ one. -/
def ofDateTime (dt : RpcDateTime) : D.DateTime :=
  .ofEpochMsec dt.msecsSinceEpoch (Int32.ofInt dt.utcOffsetMin)

/-- Counted in units of 100 ns from 1970, the time fits into 64 bits. -/
def TicksFit (dt : RpcDateTime) : Prop :=
  -2 ^ 63 ≤ dt.msec.toInt * 10000 ∧ dt.msec.toInt * 10000 < 2 ^ 63

instance (dt : RpcDateTime) : Decidable (TicksFit dt) := inferInstanceAs (Decidable (_ ∧ _))

theorem msecsSinceEpoch_ofDateTime {dt : RpcDateTime} (h : TicksFit dt) :
    (ofDateTime dt).msecsSinceEpoch = dt.msecsSinceEpoch := by
  have hm := dt.toInt_msecsSinceEpoch
  have hmul : (dt.msecsSinceEpoch * 10000).toInt = dt.msec.toInt * 10000 := by
    have h10 : (10000 : Int64).toInt = 10000 := by decide
    rw [Int64.toInt_mul, hm, h10]
    exact Int.bmod_eq_of_le (by have := h.1; omega) (by have := h.2; omega)
  rw [ofDateTime, D.DateTime.msecsSinceEpoch, D.DateTime.ofEpochMsec, Int64.add_sub_cancel]
  apply Int64.toInt_inj.mp
  rw [Int64.toInt_div_of_ne_right _ _ (by decide), hmul, hm]
  exact Int.mul_tdiv_cancel _ (by decide)

/-- Every offset of seven bits of quarter hours, by its number. -/
theorem exists_offset (dt : RpcDateTime) : ∃ k < 128, dt.tz.toInt = ((k : Nat) : Int) - 64 := by
  obtain ⟨hlo, hhi⟩ := dt.toInt_tz_bounds
  exact ⟨(dt.tz.toInt + 64).toNat, by omega, by omega⟩

theorem utcOffsetMin_ofDateTime (dt : RpcDateTime) :
    (ofDateTime dt).utcOffsetMin = Int32.ofInt dt.utcOffsetMin := by
  obtain ⟨k, hk, htz⟩ := exists_offset dt
  have h : ∀ k < 128, (Int32.ofInt ((((k : Nat) : Int) - 64) * 15)).toInt16.toInt32 =
      Int32.ofInt ((((k : Nat) : Int) - 64) * 15) := by decide
  have := h k hk
  rw [← htz] at this
  exact this

theorem dateTimeOf_ofDateTime {dt : RpcDateTime} (h : TicksFit dt) :
    dateTimeOf (ofDateTime dt) = dt := by
  have hoffset : (Int32.ofInt dt.utcOffsetMin).toInt = dt.utcOffsetMin := by
    have := dt.toInt_tz_bounds
    rw [RpcDateTime.utcOffsetMin]
    exact Int32.toInt_ofInt_of_le (by omega) (by omega)
  rw [dateTimeOf, msecsSinceEpoch_ofDateTime h, utcOffsetMin_ofDateTime, hoffset,
    RpcDateTime.fromMSecsSinceEpoch_self]

/-! ## packing date-times -/

theorem shiftLeft_seven (x : Int64) : x <<< 7 = x * 128 := by
  have h7 : (BitVec.smod (Int64.toBitVec 7) 64).toNat = 7 := by decide
  apply Int64.toBitVec_inj.mp
  rw [Int64.toBitVec_shiftLeft, Int64.toBitVec_mul, BitVec.shiftLeft_eq', h7,
    BitVec.shiftLeft_eq_mul_twoPow]
  rfl

theorem shiftLeft_two (x : Int64) : x <<< 2 = x * 4 := by
  have h2 : (BitVec.smod (Int64.toBitVec 2) 64).toNat = 2 := by decide
  apply Int64.toBitVec_inj.mp
  rw [Int64.toBitVec_shiftLeft, Int64.toBitVec_mul, BitVec.shiftLeft_eq', h2,
    BitVec.shiftLeft_eq_mul_twoPow]
  rfl

/-- A date-time that D can count is packed as in C. -/
theorem packedDateTime_eq {dt : RpcDateTime} (h : TicksFit dt) :
    D.packedDateTime (ofDateTime dt) =
      LibShv.packedDateTime dt.msecsSinceEpoch dt.utcOffsetMin := by
  obtain ⟨k, hk, htz⟩ := exists_offset dt
  have hoffsets : ∀ k < 128,
      ((Int32.ofInt ((((k : Nat) : Int) - 64) * 15) / 15) &&& 0x7F).toInt64 =
        Int64.ofInt (((((k : Nat) : Int) - 64) * 15).tdiv 15) &&& 0x7F := by decide +kernel
  have hoffset := hoffsets k hk
  rw [← htz] at hoffset
  simp only [D.packedDateTime, LibShv.packedDateTime, msecsSinceEpoch_ofDateTime h,
    utcOffsetMin_ofDateTime, shiftLeft_two, shiftLeft_seven]
  rw [RpcDateTime.utcOffsetMin, hoffset]
  rfl

/-- The offset, shifted up and down for its sign. -/
theorem signedOffset_eq (x : Int64) :
    ((((x &&& 0x7F).toInt8 <<< 1) >>> 1 : Int8).toInt32 * 15 : Int32) =
      Int32.ofInt ((BitVec.ofInt 7 x.toInt).toInt * 15) := by
  have h : ∀ k < 128,
      ((((Int64.ofInt ((k : Nat) : Int)).toInt8 <<< 1) >>> 1 : Int8).toInt32 * 15 : Int32) =
        Int32.ofInt ((BitVec.ofInt 7 ((k : Nat) : Int)).toInt * 15) := by decide +kernel
  obtain ⟨k, hk⟩ : ∃ k : Nat, (k : Int) = x.toInt % 128 := ⟨(x.toInt % 128).toNat, by omega⟩
  have hand : x &&& 0x7F = Int64.ofInt k := by
    rw [hk, ← offset_eq, Int64.ofInt_toInt]
  have hbits : BitVec.ofInt 7 x.toInt = BitVec.ofInt 7 k := by
    apply BitVec.eq_of_toNat_eq
    rw [BitVec.toNat_ofInt, BitVec.toNat_ofInt, hk]
    exact congrArg Int.toNat (Int.emod_emod _ _).symm
  rw [hand, hbits]
  exact h k (by omega)

/-- Where C unpacks a date-time, D makes the same one. -/
theorem unpackedDateTime_eq {d m : Int64} {o : Int} (h : LibShv.unpackedDateTime d = some (m, o)) :
    D.unpackedDateTime d = .ofEpochMsec m (Int32.ofInt o) := by
  simp only [LibShv.unpackedDateTime, Option.map_eq_some_iff, Prod.mk.injEq] at h
  obtain ⟨msecs, hmsecs, rfl, rfl⟩ := h
  have hoffset : ((if d &&& 1 ≠ 0 then (((d >>> 2) &&& 0x7F).toInt8 <<< 1) >>> 1
      else 0 : Int8).toInt32 * 15 : Int32) =
      Int32.ofInt ((if d &&& 1 ≠ 0 then (BitVec.ofInt 7 (d >>> 2).toInt).toInt else 0) * 15) := by
    by_cases htz : d &&& 1 ≠ 0
    · rw [if_pos htz, if_pos htz, signedOffset_eq]
    · rw [if_neg htz, if_neg htz]
      rfl
  have htime : (if d &&& 2 ≠ 0 then (if d &&& 1 ≠ 0 then (d >>> 2) >>> 7 else d >>> 2) * 1000
      else if d &&& 1 ≠ 0 then (d >>> 2) >>> 7 else d >>> 2) = msecs := by
    generalize (if d &&& 1 ≠ 0 then (d >>> 2) >>> 7 else d >>> 2) = t at *
    by_cases hms : d &&& 2 ≠ 0
    · rw [if_pos hms] at hmsecs ⊢
      obtain ⟨-, heq⟩ := Option.ite_none_right_eq_some.mp hmsecs
      rw [← Option.some.inj heq, Int64.ofInt_mul, Int64.ofInt_toInt]
      rfl
    · rw [if_neg hms] at hmsecs ⊢
      exact Option.some.inj hmsecs
  simp only [D.unpackedDateTime]
  rw [hoffset, htime]
  rfl

/-! ## D values as C++ values -/

/-- The key in the C++ metadata. -/
def metaKeyOf (k : D.Key) : MetaKey := if k.isIntKey then .inl k.ikey else .inr k.skey

mutual

/-- The C++ value of a D value. -/
def valueOf : D.RpcValue → RpcValue
  | .mk m store => .mk (setMetaValues .empty (metaValuesOf m)) (variantOf store)

def variantOf : D.Store → Variant
  | .invalid => .invalid
  | .null => .null
  | .bool b => .bool b
  | .integer n => .int n
  | .uinteger n => .uint n
  | .float bits => .double bits
  | .decimal mantisa exponent => .decimal ⟨mantisa, exponent⟩
  | .dateTime dt => .dateTime (dateTimeOf dt)
  | .string s => .string s
  | .list vs => .list (listOf vs)
  | .map m => .map (SortedMap.insertAll [] (mapOf m))
  | .imap m => .imap (SortedMap.insertAll [] (imapOf m))

def listOf : List D.RpcValue → RpcList
  | [] => []
  | v :: vs => valueOf v :: listOf vs

def mapOf : List (Bytes × D.RpcValue) → List (Bytes × RpcValue)
  | [] => []
  | (k, v) :: m => (k, valueOf v) :: mapOf m

def imapOf : List (Int32 × D.RpcValue) → List (Int32 × RpcValue)
  | [] => []
  | (k, v) :: m => (k, valueOf v) :: imapOf m

def metaValuesOf : List (D.Key × D.RpcValue) → List (MetaKey × RpcValue)
  | [] => []
  | (k, v) :: m => (metaKeyOf k, valueOf v) :: metaValuesOf m

end

/-! ## C++ values as D values -/

mutual

/-- The D value of a C++ value. A blob has none. -/
def ofValue : RpcValue → D.RpcValue
  | .mk md v => .mk (ofMetaData md) (ofVariant v)

def ofMetaData : RpcMetaData → List (D.Key × D.RpcValue)
  | .mk im sm =>
    (ofIMap im).map (fun e => (.ofInt e.1, e.2)) ++ (ofMap sm).map fun e => (.ofString e.1, e.2)

def ofVariant : Variant → D.Store
  | .invalid => .invalid
  | .null => .null
  | .uint n => .uinteger n
  | .int n => .integer n
  | .double bits => .float bits
  | .bool b => .bool b
  | .blob _ => .invalid
  | .string s => .string s
  | .dateTime dt => .dateTime (ofDateTime dt)
  | .list vs => .list (ofList vs)
  | .map m => .map (ofMap m)
  | .imap m => .imap (ofIMap m)
  | .decimal d => .decimal d.mantissa d.exponent

def ofList : List RpcValue → List D.RpcValue
  | [] => []
  | v :: vs => ofValue v :: ofList vs

def ofMap : List (Bytes × RpcValue) → List (Bytes × D.RpcValue)
  | [] => []
  | (k, v) :: m => (k, ofValue v) :: ofMap m

def ofIMap : List (Int32 × RpcValue) → List (Int32 × D.RpcValue)
  | [] => []
  | (k, v) :: m => (k, ofValue v) :: ofIMap m

end

/-! ## what both carry -/

/-- A variant of a type that both libraries have: no blob, no invalid value, not the least
integer, and a date-time whose packed integer fits. -/
def CommonType : Variant → Prop
  | .invalid => False
  | .blob _ => False
  | .int n => n ≠ Int64.minValue
  | .decimal d => d.mantissa ≠ Int64.minValue
  | .dateTime dt => dt.PackFits
  | _ => True

/-- In addition, a date-time is one D can count. -/
def Common : Variant → Prop
  | .dateTime dt => dt.PackFits ∧ TicksFit dt
  | v => CommonType v

/-- Metadata without the empty string as a key, which D takes for the integer key 0. -/
def CommonMeta (md : RpcMetaData) : Prop := ∀ e ∈ md.sValues, e.1 ≠ []

/-- Every node of the tree is common to both libraries. -/
abbrev CommonValue (v : RpcValue) : Prop := v.Each Common CommonMeta

/-- The value is held without loss by C++: the date-time is that of its C++ date-time, and
packs. -/
def DateTimeCommon (dt : D.DateTime) : Prop :=
  dt = ofDateTime (dateTimeOf dt) ∧ (dateTimeOf dt).PackFits ∧ TicksFit (dateTimeOf dt)

instance (dt : D.DateTime) : Decidable (DateTimeCommon dt) :=
  inferInstanceAs (Decidable (_ ∧ _ ∧ _))

mutual

/-- Every node of a D tree is common to both libraries. -/
def DCommon : D.RpcValue → Prop
  | .mk m store => MetaDCommon m ∧ StoreDCommon store

def StoreDCommon : D.Store → Prop
  | .invalid => False
  | .integer n => n ≠ Int64.minValue
  | .decimal mantisa _ => mantisa ≠ Int64.minValue
  | .dateTime dt => DateTimeCommon dt
  | .string s => s.length < maxSize
  | .list vs => ListDCommon vs
  | .map m => MapDCommon m
  | .imap m => IMapDCommon m
  | _ => True

def ListDCommon : List D.RpcValue → Prop
  | [] => True
  | v :: vs => DCommon v ∧ ListDCommon vs

def MapDCommon : List (Bytes × D.RpcValue) → Prop
  | [] => True
  | (k, v) :: m => k.length < maxSize ∧ DCommon v ∧ MapDCommon m

def IMapDCommon : List (Int32 × D.RpcValue) → Prop
  | [] => True
  | (_, v) :: m => DCommon v ∧ IMapDCommon m

def MetaDCommon : List (D.Key × D.RpcValue) → Prop
  | [] => True
  | (k, v) :: m => k.skey.length < maxSize ∧ DCommon v ∧ MetaDCommon m

end

/-! ## there and back -/

theorem isValid_of_commonType {v : Variant} (h : CommonType v) : v.isValid = true := by
  cases v <;> first | rfl | exact h.elim

theorem Common.commonType {v : Variant} (h : Common v) : CommonType v := by
  cases v <;> first | exact h | exact h.1

theorem isValid_of_common {v : RpcValue} {M : RpcMetaData → Prop} (h : v.Each Common M) :
    v.isValid = true := by
  obtain ⟨md, v⟩ := v
  exact isValid_of_commonType h.2.2.1.commonType

theorem metaKeyOf_ofString {k : Bytes} (h : k ≠ []) : metaKeyOf (.ofString k) = .inr k := by
  cases k with
  | nil => exact absurd rfl h
  | cons b k => rfl

theorem metaValuesOf_append (m m' : List (D.Key × D.RpcValue)) :
    metaValuesOf (m ++ m') = metaValuesOf m ++ metaValuesOf m' := by
  induction m with
  | nil => rfl
  | cons e m ih =>
    rw [List.cons_append, metaValuesOf, metaValuesOf, ih]
    rfl

theorem metaValuesOf_ofInt (m : List (Int32 × D.RpcValue)) :
    metaValuesOf (m.map fun e => (.ofInt e.1, e.2)) = (imapOf m).map fun e => (.inl e.1, e.2) := by
  induction m with
  | nil => rfl
  | cons e m ih =>
    rw [List.map_cons, metaValuesOf, ih]
    rfl

theorem metaValuesOf_ofString {m : List (Bytes × D.RpcValue)} (h : ∀ e ∈ mapOf m, e.1 ≠ []) :
    metaValuesOf (m.map fun e => (.ofString e.1, e.2)) = (mapOf m).map fun e => (.inr e.1, e.2) := by
  induction m with
  | nil => rfl
  | cons e m ih =>
    rw [List.map_cons, metaValuesOf, ih fun e he => h e (List.mem_cons_of_mem _ he),
      metaKeyOf_ofString (h _ List.mem_cons_self)]
    rfl

mutual

/-- Going to D and back loses nothing of a common value. -/
theorem valueOf_ofValue : (v : RpcValue) → v.Std → CommonValue v → valueOf (ofValue v) = v
  | .mk md v, ⟨hmd, hmds, hv, hvs⟩, ⟨hcmd, hcmds, hcv, hcvs⟩ => by
    rw [ofValue, valueOf, setMetaValues_ofMetaData md hmd hmds hcmd hcmds,
      variantOf_ofVariant v hv hvs hcv hcvs]

theorem setMetaValues_ofMetaData : (md : RpcMetaData) → md.Std →
    md.Each Variant.Std RpcMetaData.Std → CommonMeta md → md.Each Common CommonMeta →
    setMetaValues .empty (metaValuesOf (ofMetaData md)) = md
  | .mk im sm, ⟨him, hsm, _⟩, ⟨hims, hsms⟩, hkeys, ⟨hcim, hcsm⟩ => by
    have hi := imapOf_ofIMap im hims hcim
    have hs := mapOf_ofMap sm hsms hcsm
    rw [ofMetaData, metaValuesOf_append, metaValuesOf_ofInt, hi,
      metaValuesOf_ofString (fun e he => hkeys e (hs ▸ he)), hs]
    exact setMetaValues_sorted (fun e he => isValid_of_common (eachIMap_iff.mp hcim e he))
      (fun e he => isValid_of_common (eachMap_iff.mp hcsm e he)) him hsm

theorem variantOf_ofVariant : (v : Variant) → v.Std → v.Each Variant.Std RpcMetaData.Std →
    Common v → v.Each Common CommonMeta → variantOf (ofVariant v) = v
  | .null, _, _, _, _ => rfl
  | .uint _, _, _, _, _ => rfl
  | .int _, _, _, _, _ => rfl
  | .double _, _, _, _, _ => rfl
  | .bool _, _, _, _, _ => rfl
  | .string _, _, _, _, _ => rfl
  | .decimal _, _, _, _, _ => rfl
  | .dateTime dt, _, _, h, _ => congrArg Variant.dateTime (dateTimeOf_ofDateTime h.2)
  | .list vs, _, hs, _, h => congrArg Variant.list (listOf_ofList vs hs h)
  | .map m, ⟨hsort, _⟩, hs, _, h => by
    rw [ofVariant, variantOf, mapOf_ofMap m hs h]
    exact congrArg Variant.map (SortedMap.Sorted.insertAll (m := []) hsort)
  | .imap m, hsort, hs, _, h => by
    rw [ofVariant, variantOf, imapOf_ofIMap m hs h]
    exact congrArg Variant.imap (SortedMap.Sorted.insertAll (m := []) hsort)
  | .invalid, _, _, h, _ => h.elim
  | .blob _, _, _, h, _ => h.elim

theorem listOf_ofList : (vs : List RpcValue) → eachList Variant.Std RpcMetaData.Std vs →
    eachList Common CommonMeta vs → listOf (ofList vs) = vs
  | [], _, _ => rfl
  | v :: vs, ⟨hv, hvs⟩, ⟨hcv, hcvs⟩ => by
    rw [ofList, listOf, valueOf_ofValue v hv hcv, listOf_ofList vs hvs hcvs]

theorem mapOf_ofMap : (m : List (Bytes × RpcValue)) → eachMap Variant.Std RpcMetaData.Std m →
    eachMap Common CommonMeta m → mapOf (ofMap m) = m
  | [], _, _ => rfl
  | (k, v) :: m, ⟨hv, hm⟩, ⟨hcv, hcm⟩ => by
    rw [ofMap, mapOf, valueOf_ofValue v hv hcv, mapOf_ofMap m hm hcm]

theorem imapOf_ofIMap : (m : List (Int32 × RpcValue)) → eachIMap Variant.Std RpcMetaData.Std m →
    eachIMap Common CommonMeta m → imapOf (ofIMap m) = m
  | [], _, _ => rfl
  | (k, v) :: m, ⟨hv, hm⟩, ⟨hcv, hcm⟩ => by
    rw [ofIMap, imapOf, valueOf_ofValue v hv hcv, imapOf_ofIMap m hm hcm]

end

end LibShv.DChainPack
