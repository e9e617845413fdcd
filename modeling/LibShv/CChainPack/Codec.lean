import LibShv.CChainPack.Items

/-!
# LibShv.CChainPack.Codec

Integers and date-times packed and unpacked again: which come back as they were, and
what is computed on the way.
-/

namespace LibShv

open ByteReader

/-! ## decoding -/

/-- The next item is `item`, it takes exactly `bytes`, and nothing behind them is looked at. -/
def Decodes (bytes : Bytes) (item : CCpcpItem) : Prop :=
  ∀ rest, ∃ c, cchainpackUnpackNext (openStream (bytes ++ rest)) = .ok () c ∧ c.reg.item = item ∧
    c.reg.errNo = .ok ∧ c.input = rest ∧ c.atEnd = false

theorem ready_init : UnpackContext.init.Ready := ⟨rfl, trivial⟩

theorem decodes_of_consumes {bytes : Bytes} {item : CCpcpItem}
    (h : Consumes cchainpackUnpackNext bytes (fun _ => True) UnpackContext.Ready (Leaves item)) :
    Decodes bytes item := by
  intro rest
  obtain ⟨_, c, hrun, hinput, -, hitem, herr⟩ :=
    h (openStream (bytes ++ rest)) rest rfl (fun _ _ => trivial) ready_init
  have hsafe := solid_cchainpackUnpackNext.safe (openStream (bytes ++ rest))
  rw [hrun] at hsafe
  exact ⟨c, hrun, hitem, herr, hinput, hsafe.1⟩

theorem Decodes.unique {bytes : Bytes} {item item' : CCpcpItem} (h : Decodes bytes item)
    (h' : Decodes bytes item') : item = item' := by
  obtain ⟨c, hrun, hitem, -⟩ := h []
  obtain ⟨c', hrun', hitem', -⟩ := h' []
  rw [hrun] at hrun'
  obtain rfl : c = c' := by injection hrun'
  exact hitem.symm.trans hitem'

/-! ## integers -/

/-- The shift of the mask in `pack_uint_data_helper`. -/
def headShifts (bitLen : Nat) : List Nat := if bitLen ≤ 28 then [4 - bytesNeeded bitLen] else []

/-- The shift of the sign bit in `cchainpack_pack_int_data`. -/
def signShifts (snum : Int64) (bitLen : Nat) : List Nat :=
  if snum < 0 then [expandBitLen bitLen] else []

/-- The computed shifts of `cchainpack_pack_uint`. -/
def packUintShifts (i : UInt64) : List Nat :=
  if i < 64 then [] else headShifts (significantBitsPartLength i)

/-- The computed shifts of `cchainpack_pack_int`. -/
def packIntShifts (i : Int64) : List Nat :=
  if 0 ≤ i ∧ i < 64 then []
  else
    let bitLen := significantBitsPartLength (absInt i).toUInt64 + 1
    signShifts i bitLen ++ headShifts bitLen

/-- The computed shift of `unpack_int` behind a number of this length. -/
def unpackIntShifts (bitlen : Nat) : List Nat := if bitlen > 64 then [] else [bitlen - 1]

/-- An unsigned integer comes back, and no shift is too long. -/
structure UintSound (u : UInt64) : Prop where
  decodes : Decodes (packUint u) (.uint u)
  shifts : ∀ s ∈ packUintShifts u, s < 64

/-- An integer comes back, and no shift is too long. -/
structure IntSound (i : Int64) : Prop where
  decodes : Decodes (packInt i) (.int i)
  packShifts : ∀ s ∈ packIntShifts i, s < 64
  unpackShifts : ∀ rest num bitlen c,
    unpackUint (openStream (packIntData i ++ rest)) = .ok (num, bitlen) c →
    ∀ s ∈ unpackIntShifts bitlen, s < 64

theorem headShifts_lt {bitLen s : Nat} (h : s ∈ headShifts bitLen) : s < 64 := by
  rw [headShifts] at h
  split at h
  · rw [List.mem_singleton] at h
    omega
  · exact absurd h List.not_mem_nil

theorem uintSound (u : UInt64) : UintSound u where
  decodes := decodes_of_consumes (consumes_next_packUint u)
  shifts s hs := by
    rw [packUintShifts] at hs
    split at hs
    · exact absurd hs List.not_mem_nil
    · exact headShifts_lt hs

/-- The sign bit has its place in 64 bits, the least integer excepted. -/
theorem signShifts_lt {i : Int64} (h : i ≠ Int64.minValue) {s : Nat}
    (hs : s ∈ signShifts i (significantBitsPartLength (absInt i).toUInt64 + 1)) : s < 64 := by
  have hbits : significantBitsPartLength (absInt i).toUInt64 ≤ 63 :=
    significantBits_le_of_lt (toNat_absInt_lt h)
  rw [signShifts] at hs
  split at hs
  · rw [List.mem_singleton] at hs
    rw [hs]
    generalize significantBitsPartLength (absInt i).toUInt64 = bits at hbits
    rw [expandBitLen, bytesNeeded]
    split <;> omega
  · exact absurd hs List.not_mem_nil

theorem packIntShifts_minValue : packIntShifts Int64.minValue = [71] := by
  have hneg : ¬ (0 ≤ Int64.minValue ∧ Int64.minValue < 64) := by decide
  rw [packIntShifts, if_neg hneg, significantBits_absInt_minValue]
  decide

theorem intSound_iff (i : Int64) : IntSound i ↔ i ≠ Int64.minValue := by
  have hdecodes : Decodes (packInt i) (.int (unpackedInt i)) :=
    decodes_of_consumes (consumes_next_packInt i)
  constructor
  · rintro h rfl
    have hlt := h.packShifts 71 (by rw [packIntShifts_minValue]; exact List.mem_cons_self)
    exact absurd hlt (by decide)
  · intro h
    rw [unpackedInt, if_neg h] at hdecodes
    refine ⟨hdecodes, fun s hs => ?_, fun _ _ bitlen _ _ s hs => ?_⟩
    · rw [packIntShifts] at hs
      split at hs
      · exact absurd hs List.not_mem_nil
      · rcases List.mem_append.mp hs with hs | hs
        · exact signShifts_lt h hs
        · exact headShifts_lt hs
    · rw [unpackIntShifts] at hs
      split at hs
      · exact absurd hs List.not_mem_nil
      · rw [List.mem_singleton] at hs
        omega

/-- Every unsigned integer goes through ChainPack, and every signed one but the least. -/
theorem integersSound_iff (i : Int64) (u : UInt64) :
    UintSound u ∧ (IntSound i ↔ i ≠ Int64.minValue) :=
  ⟨uintSound u, intSound_iff i⟩

/-- The least integer is packed by a shift over 71 bits, and comes back as the greatest one. -/
theorem not_intSound_minValue : ¬ IntSound Int64.minValue ∧
    Decodes (packInt Int64.minValue) (.int Int64.maxValue) ∧ packIntShifts Int64.minValue = [71] :=
  ⟨fun h => (intSound_iff _).mp h rfl, decodes_of_consumes (consumes_next_packInt _),
    packIntShifts_minValue⟩

/-! ## date-times -/

namespace RpcDateTime

variable (dt : RpcDateTime)

/-- The milliseconds from the epoch of the format, or seconds if these are all. -/
def shvUnits : Int := if dt.shvMsecs.tmod 1000 = 0 then dt.shvMsecs.tdiv 1000 else dt.shvMsecs

/-- What `cchainpack_pack_date_time` computes before it sets bits: the rebased time, and it
shifted for the offset and for the flags. -/
def packSteps : List Int :=
  if dt.tz = 0 then [dt.shvMsecs, dt.shvUnits * 4]
  else [dt.shvMsecs, dt.shvUnits * 128, (dt.shvUnits * 128 + dt.tz.toInt % 128) * 4]

/-- What unpacking computes: the milliseconds, and the time based on 1970 again. -/
def unpackSteps : List Int := [dt.shvMsecs, dt.shvMsecs + SHV_EPOCH_MSEC.toInt]

/-- A date-time comes back, and every step fits into 64 bits. -/
structure Sound : Prop where
  decodes : Decodes (packDateTime dt.msecsSinceEpoch dt.utcOffsetMin)
    (.dateTime dt.msecsSinceEpoch dt.utcOffsetMin)
  fits : ∀ z ∈ dt.packSteps ++ dt.unpackSteps, -2 ^ 63 ≤ z ∧ z < 2 ^ 63

/-- There is no offset, or there are whole seconds only, or the time is within 2^54 ms
from the epoch of the format. -/
def Packable : Prop :=
  dt.tz = 0 ∨ dt.shvMsecs.tmod 1000 = 0 ∨ (-2 ^ 54 ≤ dt.shvMsecs ∧ dt.shvMsecs < 2 ^ 54)

instance : Decidable dt.Packable := inferInstanceAs (Decidable (_ ∨ _ ∨ _))

theorem tz_toInt_emod_eq_zero : dt.tz.toInt % 128 = 0 ↔ dt.tz = 0 := by
  obtain ⟨hlo, hhi⟩ := dt.toInt_tz_bounds
  rw [← BitVec.toInt_inj]
  change _ ↔ dt.tz.toInt = 0
  omega

theorem packFits_iff : dt.PackFits ↔ dt.Packable := by
  have hb := dt.shvMsecs_bounds
  have htdiv : dt.shvMsecs.tdiv 1000 * 1000 + dt.shvMsecs.tmod 1000 = dt.shvMsecs :=
    Int.tdiv_mul_add_tmod _ _
  have hz := Int.emod_lt_of_pos dt.tz.toInt (show (0 : Int) < 128 by decide)
  have hz' := Int.emod_nonneg dt.tz.toInt (show (128 : Int) ≠ 0 by decide)
  rw [PackFits, Packable, packedDateTimeInt, ← tz_toInt_emod_eq_zero]
  generalize dt.shvMsecs.tdiv 1000 = seconds at *
  generalize dt.shvMsecs.tmod 1000 = ms at *
  generalize dt.tz.toInt % 128 = offset at *
  split_ifs <;> omega

theorem fits_iff : (∀ z ∈ dt.packSteps ++ dt.unpackSteps, -2 ^ 63 ≤ z ∧ z < 2 ^ 63) ↔ dt.Packable := by
  have hb := dt.shvMsecs_bounds
  have hm := dt.toInt_msec_bounds
  have hback : dt.shvMsecs + SHV_EPOCH_MSEC.toInt = dt.msec.toInt := Int.sub_add_cancel _ _
  have htdiv : dt.shvMsecs.tdiv 1000 * 1000 + dt.shvMsecs.tmod 1000 = dt.shvMsecs :=
    Int.tdiv_mul_add_tmod _ _
  have hz := Int.emod_lt_of_pos dt.tz.toInt (show (0 : Int) < 128 by decide)
  have hz' := Int.emod_nonneg dt.tz.toInt (show (128 : Int) ≠ 0 by decide)
  have hmod := dt.tz_toInt_emod_eq_zero
  rw [List.forall_mem_append, packSteps, unpackSteps, shvUnits, Packable, hback]
  generalize dt.shvMsecs.tdiv 1000 = seconds at *
  generalize dt.shvMsecs.tmod 1000 = ms at *
  generalize dt.tz.toInt % 128 = offset at *
  by_cases htz : dt.tz = 0
  · rw [if_pos htz]
    simp only [htz, true_or, iff_true, List.forall_mem_cons, List.not_mem_nil, false_implies,
      implies_true, and_true]
    split_ifs <;> omega
  · have hoffset := mt hmod.mp htz
    rw [if_neg htz]
    simp only [htz, false_or, List.forall_mem_cons, List.not_mem_nil, false_implies, implies_true,
      and_true]
    split_ifs <;> omega

/-- A date-time goes through ChainPack just if it is packable. -/
theorem sound_iff : dt.Sound ↔ dt.Packable := by
  constructor
  · exact fun h => dt.fits_iff.mp h.fits
  · intro h
    have hunpacked := dt.unpacked_of_packFits (dt.packFits_iff.mpr h)
    exact ⟨decodes_of_consumes (consumes_next_packDateTime dt hunpacked), dt.fits_iff.mpr h⟩

/-- The last minute of the range but a millisecond, an hour from UTC. -/
def lastMinute : RpcDateTime := ⟨4, BitVec.ofNat 57 72057594037867935⟩

/-- It comes back as another time. -/
theorem not_sound_lastMinute : ¬ lastMinute.Sound ∧
    lastMinute.unpacked ≠ some (lastMinute.msecsSinceEpoch, lastMinute.utcOffsetMin) := by
  have hpackable : ¬ lastMinute.Packable := by decide
  exact ⟨fun h => hpackable (lastMinute.fits_iff.mp h.fits), by decide⟩

end RpcDateTime

end LibShv
