import Mathlib
import LibShv.ShvTypeInfo

/-!
# LibShv.ShvTypeInfo.Bitfield

A field of some bits of a number: `bitfieldValue` takes it out and `setBitfieldValue` puts it in.
The language gives a shift a result only when it is by fewer bits than the number has; here any
other shift is an error.
-/

namespace LibShv

/-! ## shifts -/

namespace UInt64Shift

/-- `x << n` of an `uint64_t`. -/
def shl (x : UInt64) (n : UInt32) : Except String UInt64 :=
  if n < 64 then .ok (x <<< n.toUInt64) else .error "shift count too large"

/-- `x >> n` of an `uint64_t`. -/
def shr (x : UInt64) (n : UInt32) : Except String UInt64 :=
  if n < 64 then .ok (x >>> n.toUInt64) else .error "shift count too large"

theorem shl_of_lt (x : UInt64) {n : UInt32} (h : n < 64) : shl x n = .ok (x <<< n.toUInt64) :=
  if_pos h

theorem shr_of_lt (x : UInt64) {n : UInt32} (h : n < 64) : shr x n = .ok (x >>> n.toUInt64) :=
  if_pos h

theorem toNat_lt_of_lt {n : UInt32} (h : n < 64) : n.toNat < 64 := UInt32.lt_iff_toNat_lt.1 h

theorem testBit_shl (x : UInt64) {n : UInt32} (h : n < 64) (i : ℕ) :
    (x <<< n.toUInt64).toNat.testBit i =
      (decide (i < 64) && (decide (n.toNat ≤ i) && x.toNat.testBit (i - n.toNat))) := by
  rw [UInt64.toNat_shiftLeft, UInt32.toNat_toUInt64, Nat.mod_eq_of_lt (toNat_lt_of_lt h),
    Nat.testBit_mod_two_pow, Nat.testBit_shiftLeft]

theorem testBit_shr (x : UInt64) {n : UInt32} (h : n < 64) (i : ℕ) :
    (x >>> n.toUInt64).toNat.testBit i = x.toNat.testBit (n.toNat + i) := by
  rw [UInt64.toNat_shiftRight, UInt32.toNat_toUInt64, Nat.mod_eq_of_lt (toNat_lt_of_lt h),
    Nat.testBit_shiftRight]

theorem testBit_not (x : UInt64) {i : ℕ} (h : i < 64) :
    (~~~ x).toNat.testBit i = !x.toNat.testBit i := by
  have hlt := x.toNat_lt
  rw [UInt64.toNat_not, show UInt64.size - 1 - x.toNat = 2 ^ 64 - (x.toNat + 1) by
    rw [show UInt64.size = 2 ^ 64 from rfl]; omega, Nat.testBit_two_pow_sub_succ hlt,
    decide_eq_true h, Bool.true_and]

/-- `~((~0) << n)`: the lowest `n` bits. -/
theorem testBit_mask {n : UInt32} (h : n < 64) {i : ℕ} (hi : i < 64) :
    (~~~ ((~~~ (0 : UInt64)) <<< n.toUInt64)).toNat.testBit i = decide (i < n.toNat) := by
  rw [testBit_not _ hi, testBit_shl _ h, decide_eq_true hi, Bool.true_and]
  by_cases hn : n.toNat ≤ i
  · rw [decide_eq_true hn, Bool.true_and, testBit_not _ (by omega), UInt64.toNat_zero,
      Nat.zero_testBit, decide_eq_false (by omega)]
    rfl
  · rw [decide_eq_false hn, decide_eq_true (by omega)]
    rfl

end UInt64Shift

open UInt64Shift

namespace ShvDescr

/-! ## the two functions -/

/-- `bitfieldValue`, whose shifts have to be by fewer than 64 bits. -/
def bitfieldValueShifted (d : ShvDescr) (uval : UInt64) : Except String RpcValue :=
  if d.isValid then do
    let (bit_no1, bit_no2) ← d.bitRangePair
    let mask ← (~~~ ·) <$> shl (~~~ (0 : UInt64)) (bit_no2 + 1)
    let uval ← shr (uval &&& mask) bit_no1
    pure (.ofVariant (if bit_no1 = bit_no2 then .bool (uval ≠ 0) else .uint uval))
  else pure .invalid

/-- `setBitfieldValue`, with the same shifts. -/
def setBitfieldValue (d : ShvDescr) (bitfield uval : UInt64) : Except String UInt64 :=
  if d.isValid then do
    let (bit_no1, bit_no2) ← d.bitRangePair
    let mask ← (~~~ ·) <$> shl (~~~ (0 : UInt64)) (bit_no2 - bit_no1 + 1)
    let uval := uval &&& mask
    let mask ← shl mask bit_no1
    let uval ← shl uval bit_no1
    pure ((bitfield &&& ~~~ mask) ||| uval)
  else pure uval

/-- Where its shifts have a result, `bitfieldValue` has that one. -/
theorem bitfieldValue_of_shifted {d : ShvDescr} {uval : UInt64} {v : RpcValue}
    (h : d.bitfieldValueShifted uval = .ok v) : d.bitfieldValue uval = .ok v := by
  unfold bitfieldValueShifted at h
  unfold bitfieldValue
  split at h
  · next hvalid =>
    rw [if_pos hvalid]
    cases hrange : d.bitRangePair with
    | error e =>
      rw [hrange] at h
      cases h
    | ok r =>
      rw [hrange] at h
      simp only [bind, Except.bind, shl, shr] at h ⊢
      by_cases h₂ : r.2 + 1 < 64
      · by_cases h₁ : r.1 < 64
        · rw [if_pos h₂] at h
          simp only [Functor.map, Except.map, if_pos h₁] at h
          exact h
        · rw [if_pos h₂] at h
          simp only [Functor.map, Except.map, if_neg h₁] at h
          cases h
      · rw [if_neg h₂] at h
        cases h
  · next hvalid =>
    rw [if_neg hvalid]
    exact h

/-- The first bit is never behind the last. -/
theorem bitRangePair_le {d : ShvDescr} {b₁ b₂ : UInt32} (h : d.bitRangePair = .ok (b₁, b₂)) :
    b₁ ≤ b₂ := by
  unfold bitRangePair at h
  split at h
  · cases h₁ : ((d.bitRange.asList[0]?).getD RpcValue.invalid).toUInt with
    | error e =>
      rw [h₁] at h
      cases h
    | ok n₁ =>
      cases h₂ : ((d.bitRange.asList[1]?).getD RpcValue.invalid).toUInt with
      | error e =>
        rw [h₁, h₂] at h
        cases h
      | ok n₂ =>
        rw [h₁, h₂] at h
        injection h with h
        injection h with hfst hsnd
        subst hfst hsnd
        split
        · exact UInt32.le_refl _
        · next hlt => exact UInt32.not_lt.1 hlt
  · cases h₁ : d.bitRange.toUInt with
    | error e =>
      rw [h₁] at h
      cases h
    | ok n =>
      rw [h₁] at h
      injection h with h
      injection h with hfst hsnd
      subst hfst hsnd
      exact UInt32.le_refl _

/-! ## a field below the top bit -/

/-- `setBitfieldValue` changes the bits of the field only, and stores the low bits there. -/
theorem setBitfieldValue_ok {d : ShvDescr} {b₁ b₂ : UInt32} (hvalid : d.isValid = true)
    (hrange : d.bitRangePair = .ok (b₁, b₂)) (hlt : b₂.toNat < 63) (bitfield u : UInt64) :
    ∃ r, d.setBitfieldValue bitfield u = .ok r ∧ ∀ i < 64, r.toNat.testBit i =
      if b₁.toNat ≤ i ∧ i ≤ b₂.toNat then u.toNat.testBit (i - b₁.toNat)
      else bitfield.toNat.testBit i := by
  have hle := UInt32.le_iff_toNat_le.1 (bitRangePair_le hrange)
  have hwidth : (b₂ - b₁ + 1).toNat = b₂.toNat - b₁.toNat + 1 := by
    rw [UInt32.toNat_add, UInt32.toNat_sub_of_le _ _ (bitRangePair_le hrange), UInt32.toNat_one]
    omega
  have hshift : b₂ - b₁ + 1 < 64 := by
    rw [UInt32.lt_iff_toNat_lt, hwidth, show (64 : UInt32).toNat = 64 from rfl]
    omega
  have hshift₁ : b₁ < 64 := by
    rw [UInt32.lt_iff_toNat_lt, show (64 : UInt32).toNat = 64 from rfl]
    omega
  have hset : d.setBitfieldValue bitfield u =
      .ok ((bitfield &&& ~~~ ((~~~ ((~~~ (0 : UInt64)) <<< (b₂ - b₁ + 1).toUInt64)) <<<
        b₁.toUInt64)) |||
        ((u &&& ~~~ ((~~~ (0 : UInt64)) <<< (b₂ - b₁ + 1).toUInt64)) <<< b₁.toUInt64)) := by
    rw [setBitfieldValue, if_pos hvalid, hrange]
    simp only [bind, Except.bind, Functor.map, Except.map, shl_of_lt _ hshift,
      shl_of_lt _ hshift₁]
    rfl
  refine ⟨_, hset, fun i hi => ?_⟩
  rw [UInt64.toNat_or, Nat.testBit_or, UInt64.toNat_and, Nat.testBit_and, testBit_not _ hi,
    testBit_shl _ hshift₁, testBit_shl _ hshift₁, testBit_mask hshift (by omega),
    UInt64.toNat_and, Nat.testBit_and, testBit_mask hshift (by omega), hwidth]
  by_cases h₁ : b₁.toNat ≤ i
  · by_cases h₂ : i ≤ b₂.toNat
    · simp [hi, h₁, h₂, show i - b₁.toNat < b₂.toNat - b₁.toNat + 1 by omega]
    · simp [hi, h₁, h₂, show ¬ i - b₁.toNat < b₂.toNat - b₁.toNat + 1 by omega]
  · simp [h₁]

/-- `bitfieldValue` gives back the bits of the field. -/
theorem bitfieldValueShifted_ok {d : ShvDescr} {b₁ b₂ : UInt32} (hvalid : d.isValid = true)
    (hrange : d.bitRangePair = .ok (b₁, b₂)) (hlt : b₂.toNat < 63) {r u : UInt64}
    (hr : ∀ i, b₁.toNat ≤ i → i ≤ b₂.toNat →
      r.toNat.testBit i = u.toNat.testBit (i - b₁.toNat)) :
    d.bitfieldValueShifted r = .ok (.ofVariant
      (if b₁ = b₂ then .bool (u.toNat % 2 ^ (b₂.toNat - b₁.toNat + 1) ≠ 0)
        else .uint (UInt64.ofNat (u.toNat % 2 ^ (b₂.toNat - b₁.toNat + 1))))) := by
  have hle := UInt32.le_iff_toNat_le.1 (bitRangePair_le hrange)
  have hnext : (b₂ + 1).toNat = b₂.toNat + 1 := by
    rw [UInt32.toNat_add, UInt32.toNat_one]
    omega
  have hshift : b₂ + 1 < 64 := by
    rw [UInt32.lt_iff_toNat_lt, hnext, show (64 : UInt32).toNat = 64 from rfl]
    omega
  have hshift₁ : b₁ < 64 := by
    rw [UInt32.lt_iff_toNat_lt, show (64 : UInt32).toNat = 64 from rfl]
    omega
  have hfield : ((r &&& ~~~ ((~~~ (0 : UInt64)) <<< (b₂ + 1).toUInt64)) >>> b₁.toUInt64).toNat =
      u.toNat % 2 ^ (b₂.toNat - b₁.toNat + 1) := by
    apply Nat.eq_of_testBit_eq
    intro i
    rw [testBit_shr _ hshift₁, UInt64.toNat_and, Nat.testBit_and, Nat.testBit_mod_two_pow]
    by_cases hi : b₁.toNat + i < 64
    · rw [testBit_mask hshift hi, hnext]
      by_cases hin : b₁.toNat + i ≤ b₂.toNat
      · rw [hr _ (Nat.le_add_right _ _) hin, Nat.add_sub_cancel_left,
          decide_eq_true (by omega), decide_eq_true (by omega), Bool.and_true, Bool.true_and]
      · rw [decide_eq_false (by omega), decide_eq_false (by omega), Bool.and_false,
          Bool.false_and]
    · rw [Nat.testBit_lt_two_pow (lt_of_lt_of_le r.toNat_lt
        (Nat.pow_le_pow_right (by decide) (Nat.not_lt.1 hi))), Bool.false_and,
        decide_eq_false (by omega), Bool.false_and]
  rw [bitfieldValueShifted, if_pos hvalid, hrange]
  simp only [bind, Except.bind, Functor.map, Except.map, shl_of_lt _ hshift,
    shr_of_lt _ hshift₁]
  rw [← hfield, UInt64.ofNat_toNat]
  simp only [ne_eq, ← UInt64.toNat_inj, UInt64.toNat_zero]
  rfl

/-- Setting a field and reading it back work exactly for the fields below the top bit: with the
top bit in it `bitfieldValue` shifts by 64. -/
theorem bitfield_round_trip_iff (d : ShvDescr) (b₁ b₂ : UInt32) (hvalid : d.isValid = true)
    (hrange : d.bitRangePair = .ok (b₁, b₂)) (hb₂ : b₂.toNat ≤ 63) :
    (∀ bitfield u : UInt64, ∃ r, d.setBitfieldValue bitfield u = .ok r ∧
      (∀ i < 64, r.toNat.testBit i =
        if b₁.toNat ≤ i ∧ i ≤ b₂.toNat then u.toNat.testBit (i - b₁.toNat)
        else bitfield.toNat.testBit i) ∧
      d.bitfieldValueShifted r = .ok (.ofVariant
        (if b₁ = b₂ then .bool (u.toNat % 2 ^ (b₂.toNat - b₁.toNat + 1) ≠ 0)
          else .uint (UInt64.ofNat (u.toNat % 2 ^ (b₂.toNat - b₁.toNat + 1)))))) ↔
    b₂.toNat < 63 := by
  constructor
  · intro h
    by_contra hge
    have htop : b₂ = 63 := UInt32.toNat.inj (by rw [show (63 : UInt32).toNat = 63 from rfl]; omega)
    obtain ⟨r, -, -, hget⟩ := h 0 0
    rw [bitfieldValueShifted, if_pos hvalid, hrange, htop] at hget
    cases hget
  · intro hlt bitfield u
    obtain ⟨r, hset, hbits⟩ := setBitfieldValue_ok hvalid hrange hlt bitfield u
    refine ⟨r, hset, hbits, bitfieldValueShifted_ok hvalid hrange hlt fun i h₁ h₂ => ?_⟩
    rw [hbits i (by omega), if_pos ⟨h₁, h₂⟩]

/-- The description of a field with its bit or its two bits. -/
def ofBitRange (value : RpcValue) : ShvDescr := ⟨.ofVariant (.map [(ascii "value", value)])⟩

theorem bitfield_round_trip_nibble :
    ∃ r, (ofBitRange (.ofVariant (.list [.ofVariant (.uint 4), .ofVariant (.uint 7)]))).setBitfieldValue
        0xFFF 0x25 = .ok r ∧
      (∀ i < 64, r.toNat.testBit i =
        if (4 : UInt32).toNat ≤ i ∧ i ≤ (7 : UInt32).toNat
        then (0x25 : UInt64).toNat.testBit (i - (4 : UInt32).toNat)
        else (0xFFF : UInt64).toNat.testBit i) ∧
      (ofBitRange (.ofVariant (.list [.ofVariant (.uint 4), .ofVariant (.uint 7)]))).bitfieldValueShifted
        r = .ok (.ofVariant (if (4 : UInt32) = 7
          then .bool ((0x25 : UInt64).toNat % 2 ^ ((7 : UInt32).toNat - (4 : UInt32).toNat + 1) ≠ 0)
          else .uint (UInt64.ofNat
            ((0x25 : UInt64).toNat % 2 ^ ((7 : UInt32).toNat - (4 : UInt32).toNat + 1))))) :=
  (bitfield_round_trip_iff
    (ofBitRange (.ofVariant (.list [.ofVariant (.uint 4), .ofVariant (.uint 7)]))) 4 7 rfl rfl
    (by decide)).2 (by decide) 0xFFF 0x25

/-- A flag at the top bit is set as it should be, but `bitfieldValue` has no result for it. -/
theorem bitfieldValue_top_bit :
    (ofBitRange (.ofVariant (.uint 63))).bitRangePair = .ok (63, 63) ∧
      (ofBitRange (.ofVariant (.uint 63))).setBitfieldValue 0 1 = .ok 0x8000000000000000 ∧
      (ofBitRange (.ofVariant (.uint 63))).bitfieldValueShifted 0x8000000000000000 ≠
        .ok (.ofVariant (.bool true)) := by
  refine ⟨rfl, rfl, fun h => ?_⟩
  rw [show (ofBitRange (.ofVariant (.uint 63))).bitfieldValueShifted 0x8000000000000000 =
    .error "shift count too large" from rfl] at h
  cases h

end ShvDescr

end LibShv
