import LibShv.CChainPack.Integers

/-!
# LibShv.CChainPack.DateTime

The integer of a packed date-time read back. Packing multiplies and sets low
bits, which is arithmetic as long as nothing overflows: `packedDateTime` is
compared with the same computation in `Int`, and unpacking divides it again.
-/

namespace LibShv

/-! ## bit operations as arithmetic -/

theorem toNat_toUInt64_emod (x : Int64) : (x.toUInt64.toNat : Int) = x.toInt % 2 ^ 64 := by
  have h : x.toUInt64.toNat = x.toBitVec.toNat := rfl
  rw [h, ← Int64.toInt_toBitVec, BitVec.toInt_eq_toNat_bmod]
  have := x.toBitVec.isLt
  rw [Int.bmod_def]
  split <;> omega

/-- Setting bits below the low zero bits of `x` is adding them. -/
theorem or_eq_add {x k : Int64} (j : Nat) (hx : x.toUInt64.toNat % 2 ^ j = 0)
    (hk : k.toUInt64.toNat < 2 ^ j) : x ||| k = x + k := by
  have hmul : x.toUInt64.toNat = 2 ^ j * (x.toUInt64.toNat / 2 ^ j) := by
    rw [Nat.mul_div_cancel' (Nat.dvd_of_mod_eq_zero hx)]
  have hor : (x ||| k).toUInt64.toNat = x.toUInt64.toNat + k.toUInt64.toNat := by
    rw [Int64.toUInt64_or, UInt64.toNat_or, hmul, ← Nat.two_pow_add_eq_or_of_lt hk]
  have hlt := (x ||| k).toUInt64.toNat_lt
  have hadd : (x + k).toUInt64.toNat = x.toUInt64.toNat + k.toUInt64.toNat := by
    rw [Int64.toUInt64_add, UInt64.toNat_add, Nat.mod_eq_of_lt (hor ▸ hlt)]
  have : (x ||| k).toUInt64 = (x + k).toUInt64 := UInt64.toNat_inj.mp (hor.trans hadd.symm)
  rw [← Int64.toInt64_toUInt64 (x ||| k), this, Int64.toInt64_toUInt64]

theorem low_bits_mul (x : Int64) (j : Nat) (hj : j ≤ 64) (k : Int64)
    (hk : k.toUInt64.toNat = 2 ^ j) : (x * k).toUInt64.toNat % 2 ^ j = 0 := by
  rw [Int64.toUInt64_mul, UInt64.toNat_mul, hk,
    Nat.mod_mod_of_dvd _ (Nat.pow_dvd_pow 2 hj), Nat.mul_mod_left]

theorem eq_zero_iff_toNat (x : Int64) : x = 0 ↔ x.toUInt64.toNat = 0 := by
  rw [← Int64.toInt64_toUInt64 x]
  constructor
  · intro h
    rw [h]
    rfl
  · intro h
    have h' : x.toUInt64 = 0 := UInt64.toNat_inj.mp (by simpa using h)
    rw [h']
    rfl

/-- The flag bits of `x` as digits of its value. -/
theorem and_two_pow_ne_zero_iff (x : Int64) {j : Nat} (hj : j = 0 ∨ j = 1) {k : Int64}
    (hk : k.toUInt64.toNat = 2 ^ j) : x &&& k ≠ 0 ↔ x.toInt / 2 ^ j % 2 = 1 := by
  have hu := toNat_toUInt64_emod x
  have hand : (x &&& k).toUInt64.toNat = 0 ↔ x.toUInt64.toNat.testBit j = false := by
    rw [Int64.toUInt64_and, UInt64.toNat_and, hk]
    constructor
    · intro h
      have := congrArg (Nat.testBit · j) h
      simpa [Nat.testBit_and, Nat.testBit_two_pow_self] using this
    · intro h
      refine Nat.eq_of_testBit_eq fun i => ?_
      rw [Nat.testBit_and, Nat.testBit_two_pow, Nat.zero_testBit]
      by_cases hi : j = i
      · rw [← hi, h]; rfl
      · simp [hi]
  rw [ne_eq, eq_zero_iff_toNat, hand, Nat.testBit_eq_decide_div_mod_eq, decide_eq_false_iff_not,
    Decidable.not_not]
  cases hj with
  | inl h => subst h; omega
  | inr h => subst h; omega

theorem toInt_shiftRight_two (x : Int64) : (x >>> 2).toInt = x.toInt / 4 := by
  have h2 : (BitVec.smod (Int64.toBitVec 2) 64).toNat = 2 := by decide
  rw [← Int64.toInt_toBitVec, Int64.toBitVec_shiftRight, BitVec.toInt_sshiftRight', h2,
    Int64.toInt_toBitVec, Int.shiftRight_eq_div_pow]
  rfl

theorem toInt_shiftRight_seven (x : Int64) : (x >>> 7).toInt = x.toInt / 128 := by
  have h7 : (BitVec.smod (Int64.toBitVec 7) 64).toNat = 7 := by decide
  rw [← Int64.toInt_toBitVec, Int64.toBitVec_shiftRight, BitVec.toInt_sshiftRight', h7,
    Int64.toInt_toBitVec, Int.shiftRight_eq_div_pow]
  rfl

/-! ## packing without overflow -/

/-- The integer of a date-time before it is cut to 64 bits: `msecs` from the
epoch of the format (whole seconds if there are no milliseconds), the offset
in quarters of an hour, two flags. -/
def packedDateTimeInt (msecs quarters : Int) : Int :=
  let offset := quarters % 128
  let q := if msecs.tmod 1000 = 0 then msecs.tdiv 1000 else msecs
  (if offset ≠ 0 then (q * 128 + offset) * 4 + 1 else q * 4) +
    (if msecs.tmod 1000 = 0 then 2 else 0)

theorem toNat_ofInt_emod (z : Int) : ((Int64.ofInt z).toUInt64.toNat : Int) = z % 2 ^ 64 := by
  rw [toNat_toUInt64_emod, Int64.toInt_ofInt]
  exact Int.bmod_emod

theorem offset_eq (z : Int) : Int64.ofInt z &&& 0x7F = Int64.ofInt (z % 128) := by
  have hu := toNat_ofInt_emod z
  have hv := toNat_ofInt_emod (z % 128)
  have hand : (Int64.ofInt z &&& 0x7F).toUInt64.toNat = (Int64.ofInt z).toUInt64.toNat % 128 := by
    rw [Int64.toUInt64_and, UInt64.toNat_and]
    exact Nat.and_two_pow_sub_one_eq_mod _ 7
  have : (Int64.ofInt z &&& 0x7F).toUInt64 = (Int64.ofInt (z % 128)).toUInt64 := by
    apply UInt64.toNat_inj.mp
    rw [hand]
    omega
  rw [← Int64.toInt64_toUInt64 (_ &&& _), this, Int64.toInt64_toUInt64]

theorem mul_four_or (x k : Int64) (hk : k.toUInt64.toNat < 2 ^ 2) : x * 4 ||| k = x * 4 + k :=
  or_eq_add 2 (low_bits_mul x 2 (by decide) 4 rfl) hk

theorem mul_128_or (x : Int64) {z : Int} (h₀ : 0 ≤ z) (h₁ : z < 128) :
    x * 128 ||| Int64.ofInt z = x * 128 + Int64.ofInt z := by
  refine or_eq_add 7 (low_bits_mul x 7 (by decide) 128 rfl) ?_
  have hv := toNat_ofInt_emod z
  omega

/-- The packed integer is the one computed in `Int`, cut to 64 bits. -/
theorem packedDateTime_eq {m : Int64} {z : Int} (hlo : -2 ^ 60 ≤ m.toInt) (hhi : m.toInt < 2 ^ 60) :
    packedDateTime m (z * 15) =
      Int64.ofInt (packedDateTimeInt (m.toInt - SHV_EPOCH_MSEC.toInt) z) := by
  obtain ⟨M, hM⟩ : ∃ M, M = m.toInt - SHV_EPOCH_MSEC.toInt := ⟨_, rfl⟩
  rw [← hM]
  have hE : SHV_EPOCH_MSEC.toInt = 1517529600000 := by decide
  have hdiff : (m - SHV_EPOCH_MSEC).toInt = M := by
    rw [Int64.toInt_sub, Int.bmod_eq_of_le (by omega) (by omega), hM]
  have hmod : (m - SHV_EPOCH_MSEC) % 1000 = 0 ↔ M.tmod 1000 = 0 := by
    rw [← Int64.toInt_inj, Int64.toInt_mod, hdiff]
    rfl
  have hmsecs : m - SHV_EPOCH_MSEC = Int64.ofInt M := by
    rw [← hdiff, Int64.ofInt_toInt]
  have hdiv : (m - SHV_EPOCH_MSEC) / 1000 = Int64.ofInt (M.tdiv 1000) := by
    rw [← hdiff, ← Int64.ofInt_toInt (_ / _), Int64.toInt_div_of_ne_right _ _ (by decide)]
    rfl
  have hq : (z * 15).tdiv 15 = z := Int.mul_tdiv_cancel _ (by decide)
  have hoff : Int64.ofInt (z % 128) ≠ 0 ↔ z % 128 ≠ 0 := by
    rw [ne_eq, ne_eq, ← Int64.toInt_inj, Int64.toInt_ofInt_of_le (by omega) (by omega)]
    exact Iff.rfl
  have h₀ : 0 ≤ z % 128 := Int.emod_nonneg _ (by decide)
  have h₁ : z % 128 < 128 := Int.emod_lt_of_pos _ (by decide)
  simp only [packedDateTime, packedDateTimeInt, hq, offset_eq, hoff, hmod, hdiv]
  rw [hmsecs]
  by_cases hz : z % 128 = 0
  · by_cases hm : M.tmod 1000 = 0
    · simp only [hz, hm, ne_eq, not_true_eq_false, if_false, if_true]
      rw [mul_four_or _ 2 (by decide)]
      simp only [Int64.ofInt_add, Int64.ofInt_mul]
      rfl
    · simp only [hz, hm, ne_eq, not_true_eq_false, if_false]
      rw [Int.add_zero, Int64.ofInt_mul]
      rfl
  · by_cases hm : M.tmod 1000 = 0
    · simp only [hz, hm, ne_eq, not_false_eq_true, if_true]
      rw [mul_128_or _ h₀ h₁, Int64.or_assoc, mul_four_or _ _ (by decide), Int.add_assoc]
      simp only [Int64.ofInt_add, Int64.ofInt_mul]
      rfl
    · simp only [hz, hm, ne_eq, not_false_eq_true, if_true, if_false]
      rw [mul_128_or _ h₀ h₁, mul_four_or _ _ (by decide), Int.add_zero]
      simp only [Int64.ofInt_add, Int64.ofInt_mul]
      rfl

/-! ## unpacking -/

theorem toInt_ofInt_seven {z x : Int} (hlo : -64 ≤ z) (hhi : z < 64) (h : x % 128 = z % 128) :
    (BitVec.ofInt 7 x).toInt = z := by
  rw [BitVec.toInt_ofInt, ← Int.emod_bmod]
  change Int.bmod (x % 128) 128 = z
  rw [h, Int.bmod_def]
  split <;> omega

/-- Unpacking divides what packing has multiplied. -/
theorem unpackedDateTime_packed {M z : Int} (hzlo : -64 ≤ z) (hzhi : z < 64)
    (hlo : -2 ^ 63 ≤ packedDateTimeInt M z) (hhi : packedDateTimeInt M z < 2 ^ 63)
    (hMlo : -2 ^ 62 ≤ M) (hMhi : M < 2 ^ 62) :
    unpackedDateTime (Int64.ofInt (packedDateTimeInt M z)) =
      some (Int64.ofInt M + SHV_EPOCH_MSEC, z * 15) := by
  obtain ⟨q, hq⟩ : ∃ q, q = if M.tmod 1000 = 0 then M.tdiv 1000 else M := ⟨_, rfl⟩
  obtain ⟨P, hP⟩ : ∃ P, P = packedDateTimeInt M z := ⟨_, rfl⟩
  rw [← hP] at hlo hhi ⊢
  have hd : (Int64.ofInt P).toInt = P := Int64.toInt_ofInt_of_le hlo hhi
  have htz := and_two_pow_ne_zero_iff (Int64.ofInt P) (.inl rfl) (k := 1) rfl
  have hms := and_two_pow_ne_zero_iff (Int64.ofInt P) (.inr rfl) (k := 2) rfl
  have hmod : M = 1000 * M.tdiv 1000 + M.tmod 1000 := (Int.mul_tdiv_add_tmod M 1000).symm
  have h₀ : 0 ≤ z % 128 := Int.emod_nonneg _ (by decide)
  have h₁ : z % 128 < 128 := Int.emod_lt_of_pos _ (by decide)
  have hval : P = (if z % 128 ≠ 0 then (q * 128 + z % 128) * 4 + 1 else q * 4) +
      (if M.tmod 1000 = 0 then 2 else 0) := by rw [hP, hq]; rfl
  rw [hd] at htz hms
  have hlast : (if M.tmod 1000 = 0 then (if -2 ^ 63 ≤ q * 1000 ∧ q * 1000 < 2 ^ 63 then
      some (Int64.ofInt (q * 1000)) else none) else some (Int64.ofInt q)) =
      some (Int64.ofInt M) := by
    by_cases hm : M.tmod 1000 = 0
    · rw [if_pos hm] at hq ⊢
      have hback : q * 1000 = M := by omega
      rw [hback, if_pos ⟨by omega, by omega⟩]
    · rw [if_neg hm] at hq ⊢
      rw [hq]
  have hflag : (P / 2 ^ 1 % 2 = 1) ↔ M.tmod 1000 = 0 := by
    by_cases hz : z % 128 = 0 <;> by_cases hm : M.tmod 1000 = 0 <;>
      simp only [hz, hm, ne_eq, not_true_eq_false, not_false_eq_true, if_true, if_false] at hval <;>
      omega
  by_cases hz : z % 128 = 0
  · have hz0 : z = 0 := by omega
    simp only [hz, ne_eq, not_true_eq_false, if_false] at hval
    have hodd : ¬ P / 2 ^ 0 % 2 = 1 := by split at hval <;> omega
    have hqi : (Int64.ofInt q).toInt = q := by
      rw [Int64.toInt_ofInt_of_le] <;> split at hval <;> omega
    have hshift : Int64.ofInt P >>> 2 = Int64.ofInt q := by
      apply Int64.toInt_inj.mp
      rw [toInt_shiftRight_two, hd, hqi]
      split at hval <;> omega
    simp only [unpackedDateTime, htz, hms, hodd, if_false, hshift, hqi, hflag, hlast, hz0]
    rfl
  · simp only [hz, ne_eq, not_false_eq_true, if_true] at hval
    have hodd : P / 2 ^ 0 % 2 = 1 := by split at hval <;> omega
    have hshift : (Int64.ofInt P >>> 2).toInt = q * 128 + z % 128 := by
      rw [toInt_shiftRight_two, hd]
      split at hval <;> omega
    have htzval : (BitVec.ofInt 7 (q * 128 + z % 128)).toInt = z :=
      toInt_ofInt_seven hzlo hzhi (by omega)
    have hqi : (Int64.ofInt q).toInt = q := by
      rw [Int64.toInt_ofInt_of_le] <;> split at hval <;> omega
    have hshift7 : Int64.ofInt P >>> 2 >>> 7 = Int64.ofInt q := by
      apply Int64.toInt_inj.mp
      rw [toInt_shiftRight_seven, hshift, hqi]
      omega
    simp only [unpackedDateTime, htz, hms, hodd, if_true, hshift, htzval, hshift7, hqi, hflag,
      hlast]
    rfl

/-! ## date-times -/

/-- Milliseconds from the epoch of the format. -/
def RpcDateTime.shvMsecs (dt : RpcDateTime) : Int := dt.msec.toInt - SHV_EPOCH_MSEC.toInt

/-- The packed integer fits into 64 bits. -/
def RpcDateTime.PackFits (dt : RpcDateTime) : Prop :=
  -2 ^ 63 ≤ packedDateTimeInt dt.shvMsecs dt.tz.toInt ∧
    packedDateTimeInt dt.shvMsecs dt.tz.toInt < 2 ^ 63

instance (dt : RpcDateTime) : Decidable dt.PackFits := inferInstanceAs (Decidable (_ ∧ _))

/-- What unpacking makes of a packed date-time. -/
def RpcDateTime.unpacked (dt : RpcDateTime) : Option (Int64 × Int) :=
  unpackedDateTime (unpackedInt (packedDateTime dt.msecsSinceEpoch dt.utcOffsetMin))

namespace RpcDateTime

variable (dt : RpcDateTime)

theorem toInt_msec_bounds : -2 ^ 56 ≤ dt.msec.toInt ∧ dt.msec.toInt < 2 ^ 56 :=
  ⟨BitVec.le_toInt dt.msec, BitVec.toInt_lt⟩

theorem toInt_tz_bounds : -64 ≤ dt.tz.toInt ∧ dt.tz.toInt < 64 :=
  ⟨BitVec.le_toInt dt.tz, BitVec.toInt_lt⟩

theorem toInt_msecsSinceEpoch : dt.msecsSinceEpoch.toInt = dt.msec.toInt := by
  have := dt.toInt_msec_bounds
  rw [msecsSinceEpoch, Int64.toInt_ofInt_of_le (by omega) (by omega)]

theorem toInt_epoch : SHV_EPOCH_MSEC.toInt = 1517529600000 := by decide

theorem shvMsecs_bounds : -2 ^ 57 ≤ dt.shvMsecs ∧ dt.shvMsecs < 2 ^ 57 := by
  have := dt.toInt_msec_bounds
  rw [shvMsecs, toInt_epoch]
  omega

theorem packedDateTime_eq_ofInt :
    packedDateTime dt.msecsSinceEpoch dt.utcOffsetMin =
      Int64.ofInt (packedDateTimeInt dt.shvMsecs dt.tz.toInt) := by
  have := dt.toInt_msec_bounds
  have hm := dt.toInt_msecsSinceEpoch
  rw [utcOffsetMin, packedDateTime_eq (by omega) (by omega), hm]
  rfl

/-- A packed date-time is never the integer that does not survive packing. -/
theorem unpackedInt_packedDateTime :
    unpackedInt (packedDateTime dt.msecsSinceEpoch dt.utcOffsetMin) =
      packedDateTime dt.msecsSinceEpoch dt.utcOffsetMin := by
  refine if_neg fun h => ?_
  have hb := dt.shvMsecs_bounds
  have htdiv : dt.shvMsecs.tdiv 1000 * 1000 + dt.shvMsecs.tmod 1000 = dt.shvMsecs :=
    Int.tdiv_mul_add_tmod _ _
  have hlow : (packedDateTimeInt dt.shvMsecs dt.tz.toInt) % 2 ^ 64 = 2 ^ 63 := by
    rw [← toNat_ofInt_emod, ← dt.packedDateTime_eq_ofInt, h]
    decide
  simp only [packedDateTimeInt] at hlow
  repeat' split at hlow
  all_goals omega

/-- Unpacking gives the date-time back if its integer fits. -/
theorem unpacked_of_packFits (h : dt.PackFits) :
    dt.unpacked = some (dt.msecsSinceEpoch, dt.utcOffsetMin) := by
  obtain ⟨hzlo, hzhi⟩ := dt.toInt_tz_bounds
  obtain ⟨hmlo, hmhi⟩ := dt.shvMsecs_bounds
  rw [unpacked, unpackedInt_packedDateTime, packedDateTime_eq_ofInt,
    unpackedDateTime_packed hzlo hzhi h.1 h.2 (by omega) (by omega)]
  have hback : Int64.ofInt dt.shvMsecs + SHV_EPOCH_MSEC = dt.msecsSinceEpoch := by
    rw [shvMsecs, Int64.ofInt_sub, Int64.ofInt_toInt, Int64.sub_add_cancel, msecsSinceEpoch]
  rw [hback, utcOffsetMin]

/-- Whole seconds always fit, and other date-times are not multiplied back. -/
theorem unpacked_isSome : dt.unpacked.isSome = true := by
  have hb := dt.shvMsecs_bounds
  by_cases hm : dt.shvMsecs.tmod 1000 = 0
  · have hfit : dt.PackFits := by
      have hz := Int.emod_lt_of_pos dt.tz.toInt (show (0 : Int) < 128 by decide)
      have hz' := Int.emod_nonneg dt.tz.toInt (show (128 : Int) ≠ 0 by decide)
      have htdiv : dt.shvMsecs.tdiv 1000 * 1000 + dt.shvMsecs.tmod 1000 = dt.shvMsecs :=
        Int.tdiv_mul_add_tmod _ _
      simp only [PackFits, packedDateTimeInt, hm, if_true]
      split <;> omega
    rw [dt.unpacked_of_packFits hfit]
    rfl
  · obtain ⟨P, hP⟩ : ∃ P, P = packedDateTimeInt dt.shvMsecs dt.tz.toInt := ⟨_, rfl⟩
    have hflag : ¬ (Int64.ofInt P).toInt / 2 ^ 1 % 2 = 1 := by
      have hu := toNat_ofInt_emod P
      rw [toNat_toUInt64_emod] at hu
      simp only [packedDateTimeInt, hm, if_false] at hP
      split at hP <;> omega
    rw [unpacked, unpackedInt_packedDateTime, packedDateTime_eq_ofInt, ← hP]
    simp only [unpackedDateTime, and_two_pow_ne_zero_iff _ (.inr rfl) (k := 2) rfl, hflag,
      if_false]
    rfl

theorem fromMSecsSinceEpoch_self :
    fromMSecsSinceEpoch dt.msecsSinceEpoch dt.utcOffsetMin = dt := by
  rw [fromMSecsSinceEpoch, toInt_msecsSinceEpoch, utcOffsetMin, Int.mul_tdiv_cancel _ (by decide),
    BitVec.ofInt_toInt, BitVec.ofInt_toInt]

end RpcDateTime

end LibShv
