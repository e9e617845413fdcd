import LibShv.RpcValue

/-!
# LibShv.Utils

`Utils::getIntLE` (`utils.h`): an integer of any type read from its first bytes in
little-endian order.
-/

namespace LibShv.Utils

/-- An integer type `T`: its size in bytes and its sign. -/
structure IntType where
  size : Nat
  isSigned : Bool

/-- The number that the bits of a `T` stand for. -/
def IntType.value (T : IntType) (bits : BitVec (8 * T.size)) : Int :=
  if T.isSigned then bits.toInt else bits.toNat

/-! ## the code -/

/-- The loop of `getIntLE` over the bytes, from byte `i - 1` down. -/
def accumulateLE {w : Nat} (buff : Bytes) : Nat → BitVec w → BitVec w
  | 0, val => val
  | i + 1, val => accumulateLE buff i (val * 256 + BitVec.ofNat w (buff.getD i 0).toNat)

/-- The loop of `getIntLE` that shifts the mask. -/
def shiftMask {w : Nat} : Nat → BitVec w → BitVec w
  | 0, mask => mask
  | n + 1, mask => shiftMask n (mask <<< 8)

/-- `getIntLE<T>`. -/
def getIntLE (T : IntType) (buff : Bytes) (len : Nat) : BitVec (8 * T.size) :=
  let val := accumulateLE buff len 0
  if T.isSigned ∧ len < T.size then val ||| shiftMask len (~~~0) else val

/-! ## what bytes denote -/

/-- The number of bytes in little-endian order. -/
def leNat : Bytes → Nat
  | [] => 0
  | b :: bs => b.toNat + 256 * leNat bs

/-- The integer that bytes denote, in two's complement if it is signed. -/
def denoted (isSigned : Bool) (bs : Bytes) : Int :=
  if isSigned then (BitVec.ofNat (8 * bs.length) (leNat bs)).toInt else leNat bs

theorem leNat_append (bs bs' : Bytes) :
    leNat (bs ++ bs') = leNat bs + 2 ^ (8 * bs.length) * leNat bs' := by
  induction bs with
  | nil => simp [leNat]
  | cons b bs ih =>
    have hpow : 2 ^ (8 * (b :: bs).length) = 256 * 2 ^ (8 * bs.length) := by
      rw [List.length_cons, Nat.mul_succ, Nat.pow_add, Nat.mul_comm]
    rw [List.cons_append, leNat, leNat, ih, hpow]
    ring

theorem leNat_lt (bs : Bytes) : leNat bs < 2 ^ (8 * bs.length) := by
  induction bs with
  | nil => exact Nat.one_pos
  | cons b bs ih =>
    have hb := b.toNat_lt
    rw [List.length_cons, Nat.mul_succ, Nat.pow_add, leNat]
    omega

/-- The last byte decides about the upper half. -/
theorem half_le_leNat_concat_iff (bs : Bytes) (b : UInt8) :
    2 ^ (8 * (bs ++ [b]).length) ≤ 2 * leNat (bs ++ [b]) ↔ 128 ≤ b.toNat := by
  have hlt := leNat_lt bs
  have hlen : 2 ^ (8 * (bs ++ [b]).length) = 2 ^ (8 * bs.length) * 256 := by
    rw [List.length_append, List.length_singleton, Nat.mul_succ, Nat.pow_add]
  rw [hlen, leNat_append, leNat, leNat, Nat.mul_zero, Nat.add_zero]
  constructor
  · intro h
    by_contra hb
    have := Nat.mul_le_mul_left (2 ^ (8 * bs.length)) (show b.toNat ≤ 127 by omega)
    omega
  · intro hb
    have := Nat.mul_le_mul_left (2 ^ (8 * bs.length)) hb
    omega

/-! ## what is read -/

theorem accumulateLE_eq {w : Nat} (bs rest : Bytes) (val : BitVec w) :
    accumulateLE (bs ++ rest) bs.length val =
      val * BitVec.ofNat w (2 ^ (8 * bs.length)) + BitVec.ofNat w (leNat bs) := by
  induction bs using List.reverseRecOn generalizing rest val with
  | nil => simp [accumulateLE, leNat]
  | append_singleton bs b ih =>
    have hget : ((bs ++ [b]) ++ rest).getD bs.length 0 = b := by simp
    have hpow : 2 ^ (8 * (bs ++ [b]).length) = 256 * 2 ^ (8 * bs.length) := by
      rw [List.length_append, List.length_singleton, Nat.mul_succ, Nat.pow_add, Nat.mul_comm]
    have hk : (256 : BitVec w) = BitVec.ofNat w 256 := rfl
    have hlen : (bs ++ [b]).length = bs.length + 1 := by simp
    conv_lhs => rw [hlen]
    rw [accumulateLE, hget, List.append_assoc, ih, hpow, leNat_append, leNat, leNat, hk]
    simp only [BitVec.ofNat_add, BitVec.ofNat_mul, Nat.mul_zero, Nat.add_zero]
    ring

theorem toNat_accumulateLE {bs : Bytes} {size : Nat} (h : bs.length ≤ size) :
    (accumulateLE bs bs.length (0 : BitVec (8 * size))).toNat = leNat bs := by
  have hrun := accumulateLE_eq bs [] (0 : BitVec (8 * size))
  rw [List.append_nil, zero_mul, zero_add] at hrun
  rw [hrun, BitVec.toNat_ofNat]
  exact Nat.mod_eq_of_lt
    (Nat.lt_of_lt_of_le (leNat_lt bs) (Nat.pow_le_pow_right (by decide) (by omega)))

theorem shiftMask_eq {w : Nat} (n : Nat) (mask : BitVec w) : shiftMask n mask = mask <<< (8 * n) := by
  induction n generalizing mask with
  | zero => simp [shiftMask]
  | succ n ih => rw [shiftMask, ih, ← BitVec.shiftLeft_add, Nat.mul_succ, Nat.add_comm]

theorem all_ones_mod {k j : Nat} : (2 ^ k * 2 ^ j - 1) % 2 ^ j = 2 ^ j - 1 := by
  obtain ⟨a, ha⟩ := Nat.exists_eq_add_of_lt (Nat.two_pow_pos k)
  have hj := Nat.two_pow_pos j
  have hsplit : 2 ^ k * 2 ^ j - 1 = 2 ^ j * a + (2 ^ j - 1) := by
    rw [ha, Nat.zero_add, Nat.add_mul, Nat.one_mul, Nat.mul_comm a]
    omega
  rw [hsplit, Nat.mul_add_mod_self_left, Nat.mod_eq_of_lt (by omega)]

/-- The mask has all bits from a bit on. -/
theorem toNat_shiftMask {size n : Nat} (h : n ≤ size) :
    (shiftMask n (~~~0 : BitVec (8 * size))).toNat =
      2 ^ (8 * n) * (2 ^ (8 * (size - n)) - 1) := by
  have hsplit : 2 ^ (8 * size) = 2 ^ (8 * n) * 2 ^ (8 * (size - n)) := by
    rw [← Nat.pow_add]
    congr 1
    omega
  have hones : (~~~0 : BitVec (8 * size)).toNat = 2 ^ (8 * size) - 1 := by
    rw [BitVec.toNat_not]
    rfl
  rw [shiftMask_eq, BitVec.toNat_shiftLeft, hones, Nat.shiftLeft_eq, Nat.mul_comm, hsplit,
    Nat.mul_mod_mul_left, all_ones_mod]

/-- With the mask a number is taken for a negative one. -/
theorem toInt_or_shiftMask {size n : Nat} {val : BitVec (8 * size)} (hn : n < size)
    (hval : val.toNat < 2 ^ (8 * n)) :
    (val ||| shiftMask n (~~~0)).toInt = (val.toNat : Int) - (2 ^ (8 * n) : Nat) := by
  have hsplit : 2 ^ (8 * size) = 2 ^ (8 * n) * 2 ^ (8 * (size - n)) := by
    rw [← Nat.pow_add]
    congr 1
    omega
  have hbig : 2 ^ 1 ≤ 2 ^ (8 * (size - n)) := Nat.pow_le_pow_right (by decide) (by omega)
  have hor : (val ||| shiftMask n (~~~0)).toNat + 2 ^ (8 * n) = 2 ^ (8 * size) + val.toNat := by
    rw [BitVec.toNat_or, toNat_shiftMask (Nat.le_of_lt hn), Nat.or_comm,
      ← Nat.two_pow_add_eq_or_of_lt hval, hsplit, Nat.mul_sub_one]
    have := Nat.mul_le_mul_left (2 ^ (8 * n)) hbig
    omega
  have hhalf : ¬ 2 * (val ||| shiftMask n (~~~0)).toNat < 2 ^ (8 * size) := by
    have := Nat.mul_le_mul_left (2 ^ (8 * n)) hbig
    rw [← hsplit] at this
    omega
  rw [BitVec.toInt_eq_toNat_cond, if_neg hhalf]
  omega

/-! ## the integer that is returned -/

/-- In two's complement the last byte has the sign. -/
theorem denoted_signed_concat (bs : Bytes) (b : UInt8) :
    denoted true (bs ++ [b]) =
      if 128 ≤ b.toNat then (leNat (bs ++ [b]) : Int) - (2 ^ (8 * (bs ++ [b]).length) : Nat)
      else leNat (bs ++ [b]) := by
  have hnat : (BitVec.ofNat (8 * (bs ++ [b]).length) (leNat (bs ++ [b]))).toNat =
      leNat (bs ++ [b]) := by
    rw [BitVec.toNat_ofNat]
    exact Nat.mod_eq_of_lt (leNat_lt _)
  rw [denoted, if_pos rfl, BitVec.toInt_eq_toNat_cond, hnat]
  by_cases hb : 128 ≤ b.toNat
  · rw [if_pos hb, if_neg (Nat.not_lt.mpr ((half_le_leNat_concat_iff bs b).mpr hb))]
  · rw [if_neg hb, if_pos (Nat.not_le.mp fun h => hb ((half_le_leNat_concat_iff bs b).mp h))]

/-- The last byte has its top bit set. -/
def TopBit (bs : Bytes) : Prop := ∃ b, bs.getLast? = some b ∧ 128 ≤ b.toNat

/-- Bytes that fill a signed type are read as what they denote. -/
theorem value_getIntLE_whole {size : Nat} {bs : Bytes} {b : UInt8}
    (hlen : (bs ++ [b]).length = size) :
    (⟨size, true⟩ : IntType).value (getIntLE ⟨size, true⟩ (bs ++ [b]) (bs ++ [b]).length) =
      denoted true (bs ++ [b]) := by
  have hcond : ¬ (true = true ∧ (bs ++ [b]).length < size) := fun h => Nat.ne_of_lt h.2 hlen
  have hval := toNat_accumulateLE hlen.le
  have hhalf := half_le_leNat_concat_iff bs b
  rw [denoted_signed_concat, IntType.value, if_pos rfl, getIntLE, if_neg hcond,
    BitVec.toInt_eq_toNat_cond, hval]
  rw [hlen] at hhalf ⊢
  by_cases hb : 128 ≤ b.toNat
  · rw [if_neg (Nat.not_lt.mpr (hhalf.mpr hb)), if_pos hb]
  · rw [if_pos (Nat.not_le.mp fun h => hb (hhalf.mp h)), if_neg hb]

/-- Fewer bytes are read as a negative integer. -/
theorem value_getIntLE_part {size : Nat} {buff : Bytes} (hlt : buff.length < size) :
    (⟨size, true⟩ : IntType).value (getIntLE ⟨size, true⟩ buff buff.length) =
      (leNat buff : Int) - (2 ^ (8 * buff.length) : Nat) := by
  have hval := toNat_accumulateLE hlt.le
  have hmask := toInt_or_shiftMask hlt (hval.trans_lt (leNat_lt _))
  rw [IntType.value, if_pos rfl, getIntLE, if_pos ⟨rfl, hlt⟩, hmask, hval]

/-- The bytes are read as what they denote, if the type has no sign, if they fill it, or if they
denote a negative integer. -/
theorem getIntLE_eq_denoted_iff (T : IntType) {buff : Bytes} (hpos : 1 ≤ buff.length)
    (hle : buff.length ≤ T.size) :
    T.value (getIntLE T buff buff.length) = denoted T.isSigned buff ↔
      T.isSigned = false ∨ buff.length = T.size ∨ TopBit buff := by
  obtain ⟨size, isSigned⟩ := T
  cases isSigned with
  | false =>
    refine iff_of_true ?_ (.inl rfl)
    simp only [IntType.value, getIntLE, denoted, Bool.false_eq_true, false_and, if_false]
    exact congrArg Int.ofNat (toNat_accumulateLE hle)
  | true =>
    obtain ⟨bs, b, rfl⟩ : ∃ bs b, buff = bs ++ [b] :=
      ⟨_, _, (List.dropLast_concat_getLast (List.ne_nil_of_length_pos hpos)).symm⟩
    have htop : TopBit (bs ++ [b]) ↔ 128 ≤ b.toNat := by simp [TopBit]
    rw [htop]
    by_cases hlen : (bs ++ [b]).length = size
    · exact iff_of_true (value_getIntLE_whole hlen) (.inr (.inl hlen))
    · have hlt : (bs ++ [b]).length < size := Nat.lt_of_le_of_ne hle hlen
      have hpow := Nat.two_pow_pos (8 * (bs ++ [b]).length)
      rw [value_getIntLE_part hlt, denoted_signed_concat]
      by_cases hb : 128 ≤ b.toNat
      · rw [if_pos hb]
        exact iff_of_true rfl (.inr (.inr hb))
      · rw [if_neg hb]
        refine iff_of_false (by omega) ?_
        rintro (h | h | h)
        · cases h
        · exact hlen h
        · exact hb h

/-- A whole `int16_t`, and a negative one in a byte. -/
theorem getIntLE_eq_denoted_int16 :
    (⟨2, true⟩ : IntType).value (getIntLE ⟨2, true⟩ [0x01, 0x00] 2) = 1 ∧
      (⟨2, true⟩ : IntType).value (getIntLE ⟨2, true⟩ [0xff] 1) = -1 :=
  ⟨(getIntLE_eq_denoted_iff ⟨2, true⟩ (by decide) (by decide)).mpr (.inr (.inl rfl)),
    (getIntLE_eq_denoted_iff ⟨2, true⟩ (by decide) (by decide)).mpr
      (.inr (.inr ⟨0xff, rfl, by decide⟩))⟩

/-- The byte 1 is read as -255. -/
theorem not_getIntLE_eq_denoted : ¬ ∀ (T : IntType) (buff : Bytes), 1 ≤ buff.length →
    buff.length ≤ T.size → T.value (getIntLE T buff buff.length) = denoted T.isSigned buff := by
  intro h
  exact absurd (h ⟨2, true⟩ [0x01] (by decide) (by decide)) (by decide)

end LibShv.Utils
