import LibShv.CChainPack

/-!
# LibShv.CChainPack.Integers

The variable-length integers read back: `unpack_uint` on the bytes of
`cchainpack_pack_uint_data`, `unpack_int` on those of `cchainpack_pack_int_data`,
followed by anything.

The head byte is treated by cases on the number of bytes, the bytes behind it
by one induction over `Nat` values.
-/

namespace LibShv

open ByteReader

/-! ## unpacking is solid -/

/-- The failure of a reader that ran out of bytes. -/
abbrev Underflow (e : Fault) : Prop := e = .parse .bufferUnderflow ""

/-- Running out of bytes is the only way an unsigned integer is not read. -/
theorem underflow_unpackUint : Solid (fun ctx => ctx.errNo = .ok) Underflow unpackUint := by
  have hbyte : Solid (fun ctx => ctx.errNo = .ok) Underflow unpackTakeByte :=
    Solid.take?_or rfl rfl
  have hbytes : ∀ cnt num, Solid (fun ctx => ctx.errNo = .ok) Underflow (unpackUintBytes cnt num) := by
    intro cnt
    induction cnt with
    | zero => exact fun num => Solid.pure _
    | succ cnt ih => exact fun num => hbyte.bind fun _ => ih _
  exact hbyte.bind fun _ => (hbytes _ _).bind fun _ => Solid.pure _

theorem solid_unpackUint : UnpackSolid unpackUint :=
  underflow_unpackUint.imp fun _ h => h ▸ isParse_parse _ _

theorem solid_unpackInt : UnpackSolid unpackInt :=
  solid_unpackUint.bind fun _ => Solid.pure _

/-! ## the bytes behind the head -/

/-- Shifting the bytes `bs` into `num`. -/
def shiftIn (num : UInt64) (bs : Bytes) : UInt64 :=
  bs.foldl (fun n b => (n <<< 8) + b.toUInt64) num

theorem consumes_unpackUintBytes {F : UInt8 → Prop} {P : UnpackContext → Prop} (bs : Bytes)
    (num : UInt64) :
    Consumes (unpackUintBytes bs.length num) bs F P fun a ctx => a = shiftIn num bs ∧ P ctx := by
  induction bs generalizing num with
  | nil => exact Consumes.pure fun _ h => ⟨rfl, h⟩
  | cons b bs ih =>
    exact consumes_takeByte_bind (ih ((num <<< 8) + b.toUInt64))

theorem toNat_shiftIn_bigEndian (cnt : Nat) (num acc : UInt64) :
    (shiftIn acc (bigEndian cnt num)).toNat =
      (acc.toNat * 256 ^ cnt + num.toNat % 256 ^ cnt) % 2 ^ 64 := by
  induction cnt generalizing num with
  | zero =>
    have := acc.toNat_lt
    simp [shiftIn, bigEndian, Nat.mod_one]
  | succ cnt ih =>
    have hshift : (num >>> 8).toNat = num.toNat / 256 := by
      simp [UInt64.toNat_shiftRight, Nat.shiftRight_eq_div_pow]
    have hsplit : num.toNat % 256 ^ (cnt + 1) =
        num.toNat / 256 % 256 ^ cnt * 256 + num.toNat % 256 := by
      rw [Nat.pow_succ', Nat.mod_mul]
      omega
    have ih' := ih (num >>> 8)
    rw [hshift] at ih'
    simp only [shiftIn] at ih'
    simp only [shiftIn, bigEndian, List.foldl_append, List.foldl_cons, List.foldl_nil,
      UInt64.toNat_add, UInt64.toNat_shiftLeft, ih']
    have hpow : acc.toNat * 256 ^ (cnt + 1) = acc.toNat * 256 ^ cnt * 256 := by
      rw [Nat.pow_succ, Nat.mul_assoc]
    have hb : num.toUInt8.toUInt64.toNat = num.toNat % 256 := by simp
    have h8 : (8 : UInt64).toNat % 64 = 8 := by decide
    rw [hb, h8, Nat.shiftLeft_eq, hsplit, hpow]
    omega

theorem length_bigEndian (cnt : Nat) (num : UInt64) : (bigEndian cnt num).length = cnt := by
  induction cnt generalizing num with
  | zero => rfl
  | succ cnt ih => simp [bigEndian, ih]

theorem bigEndian_succ (cnt : Nat) (num : UInt64) :
    bigEndian (cnt + 1) num = UInt8.ofNat (num.toNat / 256 ^ cnt) :: bigEndian cnt num := by
  induction cnt generalizing num with
  | zero => simp [bigEndian]
  | succ cnt ih =>
    have hshift : (num >>> 8).toNat = num.toNat / 256 := by
      simp [UInt64.toNat_shiftRight, Nat.shiftRight_eq_div_pow]
    rw [bigEndian, ih, hshift, Nat.div_div_eq_div_mul, ← Nat.pow_succ']
    rfl

/-! ## the head -/

/-- A head of up to four bytes gives its low bits back. -/
theorem unpackUintHead_small {k : Nat} {b : Nat} (hk : k < 4) (hb : b < 2 ^ (7 - k)) :
    unpackUintHead ((UInt8.ofNat b &&& ~~~UInt8.ofNat (0xf0 <<< (3 - k))) |||
        (UInt8.ofNat (0xf0 <<< (3 - k)) <<< 1)) =
      (k, UInt64.ofNat b, 7 * (k + 1)) := by
  have h : ∀ k < 4, ∀ b < 2 ^ (7 - k),
      unpackUintHead ((UInt8.ofNat b &&& ~~~UInt8.ofNat (0xf0 <<< (3 - k))) |||
        (UInt8.ofNat (0xf0 <<< (3 - k)) <<< 1)) = (k, UInt64.ofNat b, 7 * (k + 1)) := by
    decide
  exact h k hk b hb

/-- A head of five bytes and more only counts them. -/
theorem unpackUintHead_large {k : Nat} (hk : k < 16) :
    unpackUintHead (0xf0 ||| UInt8.ofNat k) = (k + 4, 0, (k + 4) * 8) := by
  have h : ∀ k < 16, unpackUintHead (0xf0 ||| UInt8.ofNat k) = (k + 4, 0, (k + 4) * 8) := by
    decide
  exact h k hk

theorem consumes_unpackUint_of_head {F : UInt8 → Prop} {P : UnpackContext → Prop}
    {head : UInt8} {bs : Bytes} {num : UInt64} {bitlen : Nat}
    (h : unpackUintHead head = (bs.length, num, bitlen)) :
    Consumes unpackUint (head :: bs) F P fun a ctx =>
      a = (if bitlen > 64 then 0xFFFFFFFFFFFFFFFF else shiftIn num bs, bitlen) ∧ P ctx := by
  refine consumes_takeByte_bind ?_
  rw [h]
  exact (consumes_unpackUintBytes bs num).map_value fun _ hP => ⟨rfl, hP⟩

/-! ## unsigned integers -/

/-- The number of bits the bytes for `bitLen` bits have room for. -/
def bitCapacity (bitLen : Nat) : Nat := expandBitLen bitLen + 1

theorem bitCapacity_small {bitLen : Nat} (h : bitLen ≤ 28) :
    bitCapacity bitLen = 7 * ((bitLen - 1) / 7 + 1) := by
  simp only [bitCapacity, expandBitLen, bytesNeeded, if_pos h]
  omega

theorem bitCapacity_large {bitLen : Nat} (h : ¬ bitLen ≤ 28) :
    bitCapacity bitLen = 8 * ((bitLen - 1) / 8 + 1) := by
  simp only [bitCapacity, expandBitLen, bytesNeeded, if_neg h]
  omega

theorem le_bitCapacity (bitLen : Nat) : bitLen ≤ bitCapacity bitLen := by
  by_cases h : bitLen ≤ 28
  · rw [bitCapacity_small h]; omega
  · rw [bitCapacity_large h]; omega

/-- The value shifted in behind a head that carries the high bits. -/
theorem shiftIn_bigEndian {k : Nat} {num : UInt64} :
    shiftIn (UInt64.ofNat (num.toNat / 256 ^ k)) (bigEndian k num) = num := by
  apply UInt64.toNat_inj.mp
  have hlt := num.toNat_lt
  have hdiv : num.toNat / 256 ^ k < 2 ^ 64 := Nat.lt_of_le_of_lt (Nat.div_le_self _ _) hlt
  rw [toNat_shiftIn_bigEndian, UInt64.toNat_ofNat_of_lt' hdiv, Nat.mul_comm, Nat.div_add_mod,
    Nat.mod_eq_of_lt hlt]

theorem shiftIn_zero_bigEndian {k : Nat} {num : UInt64} (h : num.toNat < 256 ^ k) :
    shiftIn 0 (bigEndian k num) = num := by
  have hz : UInt64.ofNat (num.toNat / 256 ^ k) = 0 := by rw [Nat.div_eq_of_lt h]; rfl
  rw [← hz, shiftIn_bigEndian]

/-- What `unpack_uint` makes of the bytes of `num`: the number if the room it was packed in is
at most 64 bits, and that room. -/
def unpackedUint (num : UInt64) (bitLen : Nat) : UInt64 × Nat :=
  (if bitCapacity bitLen > 64 then 0xFFFFFFFFFFFFFFFF else num, bitCapacity bitLen)

/-- The bytes of `pack_uint_data_helper`: the head counts those behind it, and shifting these in
gives the number. -/
theorem packUintDataHelper_spec {num : UInt64} {bitLen : Nat}
    (hnum : num.toNat < 2 ^ bitCapacity bitLen) (hlen : bitLen ≤ 128) :
    ∃ head tail acc, packUintDataHelper num bitLen = head :: tail ∧
      unpackUintHead head = (tail.length, acc, bitCapacity bitLen) ∧ shiftIn acc tail = num := by
  by_cases h : bitLen ≤ 28
  · obtain ⟨k, hk⟩ : ∃ k, k = (bitLen - 1) / 7 := ⟨_, rfl⟩
    have hk4 : k < 4 := by omega
    have hcap : bitCapacity bitLen = 7 * (k + 1) := by rw [bitCapacity_small h, hk]
    have hcnt : bytesNeeded bitLen = k + 1 := by simp only [bytesNeeded, if_pos h, hk]
    have hhead : num.toNat / 256 ^ k < 2 ^ (7 - k) := by
      rw [Nat.div_lt_iff_lt_mul (Nat.pow_pos (by decide))]
      calc num.toNat < 2 ^ (7 * (k + 1)) := hcap ▸ hnum
        _ = 2 ^ (7 - k) * 256 ^ k := by
          rw [show (256 : Nat) = 2 ^ 8 from rfl, ← Nat.pow_mul, ← Nat.pow_add]
          congr 1
          omega
    have hbytes : packUintDataHelper num bitLen =
        ((UInt8.ofNat (num.toNat / 256 ^ k) &&& ~~~UInt8.ofNat (0xf0 <<< (3 - k))) |||
          (UInt8.ofNat (0xf0 <<< (3 - k)) <<< 1)) :: bigEndian k num := by
      have h3 : 4 - (k + 1) = 3 - k := by omega
      simp only [packUintDataHelper, hcnt, bigEndian_succ, if_pos h, h3]
    refine ⟨_, _, _, hbytes, ?_, shiftIn_bigEndian⟩
    rw [length_bigEndian, hcap]
    exact unpackUintHead_small hk4 hhead
  · obtain ⟨k, hk⟩ : ∃ k, k = (bitLen - 1) / 8 - 3 := ⟨_, rfl⟩
    have hk16 : k < 16 := by omega
    have hcap : bitCapacity bitLen = (k + 4) * 8 := by rw [bitCapacity_large h]; omega
    have hcnt : bytesNeeded bitLen = k + 4 + 1 := by simp only [bytesNeeded, if_neg h]; omega
    have hbytes : packUintDataHelper num bitLen =
        (0xf0 ||| UInt8.ofNat k) :: bigEndian (k + 4) num := by
      have h5 : k + 4 + 1 - 5 = k := by omega
      simp only [packUintDataHelper, hcnt, bigEndian_succ (k + 4), if_neg h, h5]
    have hroom : num.toNat < 256 ^ (k + 4) := by
      calc num.toNat < 2 ^ ((k + 4) * 8) := hcap ▸ hnum
        _ = 256 ^ (k + 4) := by rw [show (256 : Nat) = 2 ^ 8 from rfl, ← Nat.pow_mul, Nat.mul_comm]
    refine ⟨_, _, _, hbytes, ?_, shiftIn_zero_bigEndian hroom⟩
    rw [length_bigEndian, hcap]
    exact unpackUintHead_large hk16

/-- `unpack_uint` undoes `pack_uint_data_helper`. -/
theorem consumes_unpackUint {F : UInt8 → Prop} {P : UnpackContext → Prop} {num : UInt64}
    {bitLen : Nat} (hnum : num.toNat < 2 ^ bitCapacity bitLen) (hlen : bitLen ≤ 128) :
    Consumes unpackUint (packUintDataHelper num bitLen) F P fun a ctx =>
      a = unpackedUint num bitLen ∧ P ctx := by
  obtain ⟨head, tail, acc, hbytes, hhead, hshift⟩ := packUintDataHelper_spec hnum hlen
  have h := consumes_unpackUint_of_head (F := F) (P := P) hhead
  rw [hshift] at h
  rw [hbytes]
  exact h

theorem toNat_lt_significantBits (n : UInt64) :
    n.toNat < 2 ^ significantBitsPartLength n := by
  by_cases h : n = 0
  · rw [h]; decide
  · have hne : n.toNat ≠ 0 := fun hz => h (UInt64.toNat_inj.mp hz)
    rw [significantBitsPartLength, if_neg h]
    exact Nat.lt_log2_self

theorem significantBits_le_of_lt {n : UInt64} {k : Nat} (h : n.toNat < 2 ^ k) :
    significantBitsPartLength n ≤ k := by
  by_cases hz : n = 0
  · rw [hz]; simp [significantBitsPartLength]
  · have hne : n.toNat ≠ 0 := fun h => hz (UInt64.toNat_inj.mp h)
    rw [significantBitsPartLength, if_neg hz]
    exact (Nat.log2_lt hne).mpr h

theorem significantBits_le (n : UInt64) : significantBitsPartLength n ≤ 64 :=
  significantBits_le_of_lt n.toNat_lt

/-- `unpack_uint` undoes `cchainpack_pack_uint_data`. -/
theorem consumes_packUintData {F : UInt8 → Prop} {P : UnpackContext → Prop} (num : UInt64) :
    Consumes unpackUint (packUintData num) F P fun a ctx =>
      a = (num, bitCapacity (significantBitsPartLength num)) ∧ P ctx := by
  have hle := significantBits_le num
  have hcap : ¬ bitCapacity (significantBitsPartLength num) > 64 := by
    by_cases h : significantBitsPartLength num ≤ 28
    · rw [bitCapacity_small h]; omega
    · rw [bitCapacity_large h]; omega
  have hlt : num.toNat < 2 ^ bitCapacity (significantBitsPartLength num) :=
    Nat.lt_of_lt_of_le (toNat_lt_significantBits num)
      (Nat.pow_le_pow_right (by decide) (le_bitCapacity _))
  refine (consumes_unpackUint hlt (by omega)).imp (fun _ h => h) (fun _ h => h) ?_
  intro a ctx ⟨ha, hP⟩
  rw [unpackedUint, if_neg hcap] at ha
  exact ⟨ha, hP⟩

/-! ## the sign bit -/

theorem toNat_mask {j : Nat} (hj : j < 64) : ((1 : UInt64) <<< UInt64.ofNat j).toNat = 2 ^ j := by
  have hj' : j % 2 ^ 64 % 64 = j := by omega
  have hlt : 2 ^ j < 2 ^ 64 := Nat.pow_lt_pow_right (by decide) hj
  rw [UInt64.toNat_shiftLeft, UInt64.toNat_ofNat', hj']
  simp only [UInt64.toNat_one, Nat.one_shiftLeft]
  exact Nat.mod_eq_of_lt hlt

theorem getLsbD_mask {j i : Nat} (hj : j < 64) :
    ((1 : UInt64) <<< UInt64.ofNat j).toBitVec.getLsbD i = decide (j = i) := by
  rw [BitVec.getLsbD, UInt64.toNat_toBitVec, toNat_mask hj, Nat.testBit_two_pow]

theorem getLsbD_eq_false {m : UInt64} {j i : Nat} (hm : m.toNat < 2 ^ j) (hi : j ≤ i) :
    m.toBitVec.getLsbD i = false := by
  have : m.toBitVec.toNat < 2 ^ i := Nat.lt_of_lt_of_le hm (Nat.pow_le_pow_right (by decide) hi)
  rw [BitVec.getLsbD, Nat.testBit_lt_two_pow this]

theorem and_mask_eq_zero {m : UInt64} {j : Nat} (hj : j < 64) (hm : m.toNat < 2 ^ j) :
    m &&& (1 <<< UInt64.ofNat j) = 0 := by
  apply UInt64.toBitVec_inj.mp
  apply BitVec.eq_of_getLsbD_eq
  intro i hi
  rw [UInt64.toBitVec_and, BitVec.getLsbD_and, getLsbD_mask hj]
  by_cases h : j ≤ i
  · simp [getLsbD_eq_false hm h]
  · have : j ≠ i := by omega
    simp [this]

theorem or_mask_and_mask_ne_zero {m : UInt64} {j : Nat} (hj : j < 64) :
    (m ||| (1 <<< UInt64.ofNat j)) &&& (1 <<< UInt64.ofNat j) ≠ 0 := by
  intro h
  have hb := congrArg (fun x : UInt64 => x.toBitVec.getLsbD j) h
  simp only [UInt64.toBitVec_and, UInt64.toBitVec_or, BitVec.getLsbD_and, BitVec.getLsbD_or,
    getLsbD_mask hj] at hb
  simp at hb

theorem or_mask_and_not_mask {m : UInt64} {j : Nat} (hj : j < 64) (hm : m.toNat < 2 ^ j) :
    (m ||| (1 <<< UInt64.ofNat j)) &&& ~~~(1 <<< UInt64.ofNat j) = m := by
  apply UInt64.toBitVec_inj.mp
  apply BitVec.eq_of_getLsbD_eq
  intro i hi
  rw [UInt64.toBitVec_and, UInt64.toBitVec_or, UInt64.toBitVec_not, BitVec.getLsbD_and,
    BitVec.getLsbD_or, BitVec.getLsbD_not, getLsbD_mask hj]
  by_cases h : j = i
  · subst h
    simp [getLsbD_eq_false hm (Nat.le_refl _)]
  · simp [h, hi]

theorem toNat_or_mask_lt {m : UInt64} {j : Nat} (hj : j < 64) (hm : m.toNat < 2 ^ j) :
    (m ||| (1 <<< UInt64.ofNat j)).toNat < 2 ^ (j + 1) := by
  rw [UInt64.toNat_or, toNat_mask hj]
  exact Nat.or_lt_two_pow (Nat.lt_of_lt_of_le hm (Nat.pow_le_pow_right (by decide) (by omega)))
    (Nat.pow_lt_pow_right (by decide) (by omega))
/-! ## signed integers -/

/-- What `unpack_int` makes of the bytes of `n`. The absolute value of the least
integer and its sign take 65 bits, which are read as more than fit. -/
def unpackedInt (n : Int64) : Int64 :=
  if n = Int64.minValue then Int64.maxValue else n

/-- The absolute value taken by `cchainpack_pack_int_data`. -/
def absInt (n : Int64) : Int64 := if n < 0 then -n else n

theorem toNat_absInt_lt {n : Int64} (h : n ≠ Int64.minValue) :
    (absInt n).toUInt64.toNat < 2 ^ 63 := by
  have hmin : n.toInt ≠ -2 ^ 63 := by
    intro he
    exact h (Int64.toInt_inj.mp he)
  have hlo := n.le_toInt
  have hhi := n.toInt_lt
  have habs : 0 ≤ (absInt n).toInt ∧ (absInt n).toInt < 2 ^ 63 := by
    by_cases hn : n < 0
    · have hneg : n.toInt < 0 := Int64.lt_iff_toInt_lt.mp hn
      rw [absInt, if_pos hn, Int64.toInt_neg, Int.bmod_eq_of_le (by omega) (by omega)]
      omega
    · have hpos : 0 ≤ n.toInt := Int.not_lt.mp fun hlt => hn (Int64.lt_iff_toInt_lt.mpr hlt)
      rw [absInt, if_neg hn]
      omega
  rw [Int64.toNat_toUInt64_of_le (Int64.le_iff_toInt_le.mpr habs.1)]
  change (absInt n).toInt.toNat < 2 ^ 63
  omega

/-- The number packed for `n`: the absolute value, with the sign bit for a negative `n`. -/
theorem packIntData_eq (n : Int64) :
    packIntData n = packUintDataHelper
      (if n < 0 then (absInt n).toUInt64 ||| (1 <<< UInt64.ofNat
        (expandBitLen (significantBitsPartLength (absInt n).toUInt64 + 1)))
        else (absInt n).toUInt64)
      (significantBitsPartLength (absInt n).toUInt64 + 1) := rfl

theorem significantBits_absInt_minValue :
    significantBitsPartLength (absInt Int64.minValue).toUInt64 = 64 := by
  have h : (absInt Int64.minValue).toUInt64.toNat = 2 ^ 63 := by decide
  have hne : (absInt Int64.minValue).toUInt64 ≠ 0 := by decide
  rw [significantBitsPartLength, if_neg hne, h, Nat.log2_two_pow]

theorem signedValue_large {bitlen : Nat} (num : UInt64) (h : bitlen > 64) :
    signedValue num bitlen = Int64.maxValue := if_pos h

theorem signedValue_nonneg {m : UInt64} {j : Nat} (hj : j < 64) (hm : m.toNat < 2 ^ j) :
    signedValue m (j + 1) = m.toInt64 := by
  have hle : ¬ j + 1 > 64 := by omega
  simp only [signedValue, if_neg hle, Nat.add_sub_cancel, and_mask_eq_zero hj hm, ne_eq,
    not_true_eq_false, if_false]

theorem signedValue_neg {m : UInt64} {j : Nat} (hj : j < 64) (hm : m.toNat < 2 ^ j) :
    signedValue (m ||| (1 <<< UInt64.ofNat j)) (j + 1) = -m.toInt64 := by
  have hle : ¬ j + 1 > 64 := by omega
  simp only [signedValue, if_neg hle, Nat.add_sub_cancel, if_pos (or_mask_and_mask_ne_zero hj),
    or_mask_and_not_mask hj hm]

/-- `unpack_int` behind `unpack_uint`. -/
theorem consumes_unpackInt {F : UInt8 → Prop} {P : UnpackContext → Prop} {num : UInt64}
    {bitLen : Nat} {n : Int64} (hnum : num.toNat < 2 ^ bitCapacity bitLen) (hlen : bitLen ≤ 128)
    (h : signedValue (unpackedUint num bitLen).1 (bitCapacity bitLen) = n) :
    Consumes unpackInt (packUintDataHelper num bitLen) F P fun a ctx => a = n ∧ P ctx := by
  exact (consumes_unpackUint hnum hlen).map_value fun _ hP => ⟨h, hP⟩

/-- The bytes of `cchainpack_pack_int_data`: a number of 64 bits at most that has the value with
its sign, the least integer excepted. -/
theorem packIntData_spec {n : Int64} (hmin : n ≠ Int64.minValue) :
    ∃ num bitLen, packIntData n = packUintDataHelper num bitLen ∧
      num.toNat < 2 ^ bitCapacity bitLen ∧ bitLen ≤ 128 ∧ bitCapacity bitLen ≤ 64 ∧
      signedValue num (bitCapacity bitLen) = n := by
  obtain ⟨m, hm⟩ : ∃ m, m = (absInt n).toUInt64 := ⟨_, rfl⟩
  obtain ⟨bitlen, hbl⟩ : ∃ bitlen, bitlen = significantBitsPartLength m + 1 := ⟨_, rfl⟩
  obtain ⟨j, hj⟩ : ∃ j, j = expandBitLen bitlen := ⟨_, rfl⟩
  have hm63 : m.toNat < 2 ^ 63 := hm ▸ toNat_absInt_lt hmin
  have hbits : significantBitsPartLength m ≤ 63 := significantBits_le_of_lt hm63
  have hcap : bitCapacity bitlen = j + 1 := by rw [bitCapacity, hj]
  have hj64 : j < 64 := by
    by_cases h : bitlen ≤ 28
    · have := bitCapacity_small h; omega
    · have := bitCapacity_large h; omega
  have hmj : m.toNat < 2 ^ j := by
    have := le_bitCapacity bitlen
    exact Nat.lt_of_lt_of_le (toNat_lt_significantBits m)
      (Nat.pow_le_pow_right (by decide) (by omega))
  have hback : m.toInt64 = absInt n := by rw [hm, Int64.toInt64_toUInt64]
  refine ⟨_, _, packIntData_eq n, ?_⟩
  rw [← hm, ← hbl, ← hj, hcap]
  by_cases hn : n < 0
  · rw [if_pos hn]
    refine ⟨toNat_or_mask_lt hj64 hmj, by omega, by omega, ?_⟩
    rw [signedValue_neg hj64 hmj, hback, absInt, if_pos hn, Int64.neg_neg]
  · rw [if_neg hn]
    have hlt : m.toNat < 2 ^ (j + 1) :=
      Nat.lt_of_lt_of_le hmj (Nat.pow_le_pow_right (by decide) (by omega))
    refine ⟨hlt, by omega, by omega, ?_⟩
    rw [signedValue_nonneg hj64 hmj, hback, absInt, if_neg hn]

/-- `unpack_int` undoes `cchainpack_pack_int_data`, the least integer excepted. -/
theorem consumes_packIntData {F : UInt8 → Prop} {P : UnpackContext → Prop} (n : Int64) :
    Consumes unpackInt (packIntData n) F P fun a ctx => a = unpackedInt n ∧ P ctx := by
  by_cases hmin : n = Int64.minValue
  · subst hmin
    rw [packIntData_eq, significantBits_absInt_minValue]
    have hcap : bitCapacity 65 = 72 := by decide
    refine consumes_unpackInt ?_ (by decide) ?_
    · rw [hcap]
      exact Nat.lt_of_lt_of_le (UInt64.toNat_lt _) (by decide)
    · rw [hcap, signedValue_large _ (by decide)]
      rfl
  · obtain ⟨num, bitLen, hbytes, hnum, hlen, hcap, hvalue⟩ := packIntData_spec hmin
    have hun : unpackedInt n = n := if_neg hmin
    rw [hbytes, hun]
    refine consumes_unpackInt hnum hlen ?_
    rw [unpackedUint, if_neg (Nat.not_lt.mpr hcap), hvalue]

/-! ## a length in front of a frame -/

/-- A length is read from a stream that starts with it. -/
theorem unpackUint_whole (num : UInt64) (rest : Bytes) :
    ∃ bitlen c, unpackUint (openStream (packUintData num ++ rest)) = .ok (num, bitlen) c ∧
      c.input = rest := by
  obtain ⟨a, c, h, hi, -, rfl, -⟩ := consumes_packUintData (F := fun _ => True)
    (P := fun _ => True) num (openStream (packUintData num ++ rest)) rest rfl
    (fun _ _ => trivial) trivial
  exact ⟨_, c, h, hi⟩

theorem packUintData_ne_nil (num : UInt64) : packUintData num ≠ [] := by
  intro h
  obtain ⟨bitlen, c, hc, -⟩ := unpackUint_whole num []
  rw [h, unpackUint, bind_of_error (unpackTakeByte_nil rfl)] at hc
  contradiction

/-- A length takes a head byte and eight bytes at most. -/
theorem length_packUintData_le (num : UInt64) : (packUintData num).length ≤ 9 := by
  have hle := significantBits_le num
  have hlen := length_bigEndian (bytesNeeded (significantBitsPartLength num)) num
  have hneeded : bytesNeeded (significantBitsPartLength num) ≤ 9 := by
    rw [bytesNeeded]
    split <;> omega
  rw [packUintData, packUintDataHelper]
  cases h : bigEndian (bytesNeeded (significantBitsPartLength num)) num with
  | nil => simp
  | cons head tail =>
    rw [h, List.length_cons] at hlen
    simp only
    split <;> rw [List.length_cons] <;> omega

/-- A length that has not arrived completely. -/
theorem unpackUint_part {num : UInt64} {bs ys : Bytes} (h : packUintData num = bs ++ ys)
    (hys : ys ≠ []) : ∃ c, unpackUint (openStream bs) = .error (.parse .bufferUnderflow "") c := by
  obtain ⟨e, c, he, rfl⟩ := Reads.error_of_solid underflow_unpackUint
    (consumes_packUintData (F := fun _ => True) (P := fun _ => True) num)
    (c := openStream bs) h hys rfl trivial
  exact ⟨c, he⟩

end LibShv
