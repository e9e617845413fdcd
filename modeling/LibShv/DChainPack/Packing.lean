import LibShv.DChainPack
import LibShv.ChainPackReader.RoundTrip

/-!
# LibShv.DChainPack.Packing

The D functions that pack integers, numbers and date-times make the bytes of the C functions.
-/

namespace LibShv.DChainPack

/-! ## the number of bits -/

/-- `s` has narrowed `n` down: the bits found, and what is left above them. -/
structure Narrowed (n : UInt64) (width : Nat) (s : Nat × UInt64) : Prop where
  lt : s.2.toNat < 2 ^ width
  size : s.1 + s.2.toNat.size = n.toNat.size

theorem and_upper_eq_zero_iff {x mask : UInt64} {k : Nat} (hmask : mask.toNat = (2 ^ k - 1) <<< k)
    (hx : x.toNat < 2 ^ (k + k)) : x &&& mask = 0 ↔ x.toNat < 2 ^ k := by
  have hand : (x &&& mask).toNat = (x.toNat / 2 ^ k % 2 ^ k) <<< k := by
    rw [UInt64.toNat_and, hmask, ← Nat.and_two_pow_sub_one_eq_mod, ← Nat.shiftRight_eq_div_pow]
    apply Nat.eq_of_testBit_eq
    intro i
    simp only [Nat.testBit_and, Nat.testBit_shiftLeft, Nat.testBit_shiftRight]
    by_cases hi : k ≤ i
    · simp [hi]
    · simp [hi]
  have hdiv : x.toNat / 2 ^ k < 2 ^ k := by
    rw [Nat.div_lt_iff_lt_mul (Nat.two_pow_pos k), ← Nat.pow_add]
    exact hx
  rw [← UInt64.toNat_inj, hand, Nat.mod_eq_of_lt hdiv, Nat.shiftLeft_eq]
  change _ * _ = 0 ↔ _
  rw [Nat.mul_eq_zero, Nat.div_eq_zero_iff]
  have := Nat.two_pow_pos k
  omega

/-- A test halves the width. -/
theorem Narrowed.upperHalf {n mask : UInt64} {k : Nat} {s : Nat × UInt64}
    (h : Narrowed n (k + k) s) (hk : k < 64) (hmask : mask.toNat = (2 ^ k - 1) <<< k) :
    Narrowed n k (D.upperHalf mask k s) := by
  have hiff := and_upper_eq_zero_iff hmask h.lt
  rw [D.upperHalf]
  by_cases hlt : s.2.toNat < 2 ^ k
  · rw [if_neg (not_not_intro (hiff.mpr hlt))]
    exact ⟨hlt, h.size⟩
  · have hshift : (s.2 >>> UInt64.ofNat k).toNat = s.2.toNat / 2 ^ k := by
      have hk64 : k % 2 ^ 64 % 64 = k := by omega
      rw [UInt64.toNat_shiftRight, UInt64.toNat_ofNat', hk64, Nat.shiftRight_eq_div_pow]
    rw [if_pos (mt hiff.mp hlt)]
    refine ⟨?_, ?_⟩
    · change (s.2 >>> UInt64.ofNat k).toNat < 2 ^ k
      rw [hshift, Nat.div_lt_iff_lt_mul (Nat.two_pow_pos k), ← Nat.pow_add]
      exact h.lt
    · change s.1 + k + (s.2 >>> UInt64.ofNat k).toNat.size = n.toNat.size
      have hge : k < s.2.toNat.size := Nat.lt_size.mpr (Nat.not_lt.mp hlt)
      have hsize : (s.2.toNat / 2 ^ k).size = s.2.toNat.size - k := by
        refine Nat.le_antisymm (Nat.size_le.mpr ?_) ?_
        · rw [Nat.div_lt_iff_lt_mul (Nat.two_pow_pos k), ← Nat.pow_add, Nat.sub_add_cancel hge.le]
          exact Nat.lt_size_self _
        · have hle : s.2.toNat.size ≤ (s.2.toNat / 2 ^ k).size + k := by
            refine Nat.size_le.mpr ?_
            rw [Nat.pow_add, ← Nat.div_lt_iff_lt_mul (Nat.two_pow_pos k)]
            exact Nat.lt_size_self _
          omega
      rw [hshift, hsize, ← h.size]
      omega

theorem significantBitsPartLength_eq_size (n : UInt64) :
    LibShv.significantBitsPartLength n = n.toNat.size := by
  rw [significantBitsPartLength]
  by_cases h : n = 0
  · rw [h]
    rfl
  · have hne : n.toNat ≠ 0 := fun hz => h (UInt64.toNat_inj.mp hz)
    rw [if_neg h]
    refine Nat.le_antisymm ?_ ?_
    · exact Nat.lt_size.mpr (Nat.log2_self_le hne)
    · exact Nat.size_le.mpr Nat.lt_log2_self

theorem significantBitsPartLength_eq (n : UInt64) :
    D.significantBitsPartLength n = LibShv.significantBitsPartLength n := by
  have h₀ : Narrowed n (32 + 32) (0, n) := ⟨n.toNat_lt, Nat.zero_add _⟩
  have h32 : (0xFFFFFFFF00000000 : UInt64).toNat = (2 ^ 32 - 1) <<< 32 := by decide
  have h16 : (0xFFFF0000 : UInt64).toNat = (2 ^ 16 - 1) <<< 16 := by decide
  have h8 : (0xFF00 : UInt64).toNat = (2 ^ 8 - 1) <<< 8 := by decide
  have h4 : (0xF0 : UInt64).toNat = (2 ^ 4 - 1) <<< 4 := by decide
  have h := (((h₀.upperHalf (by decide) h32).upperHalf (k := 16) (by decide) h16).upperHalf (k := 8)
    (by decide) h8).upperHalf (k := 4) (by decide) h4
  have htable : ∀ x < 2 ^ 4, D.sigTable4bit.getD x 0 = x.size := by decide
  rw [significantBitsPartLength_eq_size, ← h.size, ← htable _ h.lt]
  rfl

/-! ## integers -/

theorem fillBytes_eq (cnt : Nat) (num : UInt64) (bytes : Bytes) :
    D.fillBytes cnt num bytes = bigEndian cnt num ++ bytes := by
  induction cnt generalizing num bytes with
  | zero => rfl
  | succ cnt ih =>
    have hbyte : (num &&& 255).toUInt8 = num.toUInt8 := by
      apply UInt8.toNat_inj.mp
      have hand := Nat.and_two_pow_sub_one_eq_mod num.toNat 8
      simp only [UInt64.toNat_toUInt8, UInt64.toNat_and]
      change (num.toNat &&& (2 ^ 8 - 1)) % 2 ^ 8 = num.toNat % 2 ^ 8
      rw [hand, Nat.mod_mod]
    rw [D.fillBytes, ih, bigEndian, hbyte, List.append_assoc]
    rfl

theorem packUintDataHelper_eq {bitLen : Nat} (num : UInt64) (h : bitLen ≤ 65) :
    D.packUintDataHelper num bitLen = LibShv.packUintDataHelper num bitLen := by
  have hhead : ∀ k ≤ 5, UInt8.ofNat (0xf0 ||| k) = 0xf0 ||| UInt8.ofNat k := by decide
  have hcnt : LibShv.bytesNeeded bitLen - 5 ≤ 5 := by
    rw [LibShv.bytesNeeded]
    split <;> omega
  have hneeded : D.bytesNeeded bitLen = LibShv.bytesNeeded bitLen := rfl
  cases hbytes : bigEndian (LibShv.bytesNeeded bitLen) num with
  | nil =>
    simp only [D.packUintDataHelper, LibShv.packUintDataHelper, fillBytes_eq, List.append_nil,
      hneeded, hbytes]
  | cons head tail =>
    simp only [D.packUintDataHelper, LibShv.packUintDataHelper, fillBytes_eq, List.append_nil,
      hneeded, hbytes, hhead _ hcnt]

theorem packUintData_eq (num : UInt64) : D.packUintData num = LibShv.packUintData num := by
  have hle := significantBits_le num
  rw [D.packUintData, significantBitsPartLength_eq, packUintDataHelper_eq num (by omega)]
  rfl

theorem packIntData_eq (snum : Int64) : D.packIntData snum = LibShv.packIntData snum := by
  have hle := significantBits_le (absInt snum).toUInt64
  have hexpand : ∀ bitLen, D.expandBitLen bitLen = LibShv.expandBitLen bitLen := fun _ => rfl
  rw [LibShv.packIntData_eq, D.packIntData]
  change (if snum < 0 then D.packUintDataHelper ((absInt snum).toUInt64 ||| 1 <<< UInt64.ofNat
    (D.expandBitLen (D.significantBitsPartLength (absInt snum).toUInt64 + 1)))
    (D.significantBitsPartLength (absInt snum).toUInt64 + 1)
    else D.packUintDataHelper (absInt snum).toUInt64
      (D.significantBitsPartLength (absInt snum).toUInt64 + 1)) = _
  rw [significantBitsPartLength_eq, hexpand]
  by_cases h : snum < 0
  · rw [if_pos h, if_pos h, packUintDataHelper_eq _ (by omega)]
  · rw [if_neg h, if_neg h, packUintDataHelper_eq _ (by omega)]

theorem packUint_eq (i : UInt64) : D.packUint i = LibShv.packUint i := by
  rw [D.packUint, packUintData_eq]
  rfl

theorem packInt_eq (i : Int64) : D.packInt i = LibShv.packInt i := by
  rw [D.packInt, DChainPack.packIntData_eq]
  rfl

/-! ## other values -/

theorem writeString_eq (s : Bytes) : D.writeString s = packString s := by
  rw [D.writeString, packUintData_eq]
  rfl

theorem writeDecimal_eq (mantisa : Int64) (exponent : Int32) :
    D.writeDecimal mantisa exponent = packDecimal mantisa exponent := by
  rw [D.writeDecimal, DChainPack.packIntData_eq, DChainPack.packIntData_eq]
  rfl

theorem doubleBytes_eq (len : Nat) (bits : UInt64) :
    D.doubleBytes len bits = littleEndian len bits := by
  induction len generalizing bits with
  | zero => rfl
  | succ len ih => rw [D.doubleBytes, ih, littleEndian]

theorem writeDouble_eq (bits : UInt64) : D.writeDouble bits = packDouble bits := by
  rw [D.writeDouble, doubleBytes_eq]
  rfl

end LibShv.DChainPack
