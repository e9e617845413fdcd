import LibShv.Crc32
import LibShv.Lib.ReflectedCrc

/-!
# LibShv.Crc32.Polynomial

The CRC of the serial frames (`crc32.h`) and the one of gzip trailers (`crc32_checksum`)
are the remainder of a polynomial division.
-/

namespace LibShv

open Polynomial ReflectedCrc

/-! ## the bits of bytes -/

/-- The bits of a byte as they go over the line, the lowest first. -/
def byteBits (b : UInt8) : List Bool := lowBits b.toBitVec 8

/-- The CRC-32 by its definition: the remainder of the bits in the division by the polynomial, from
ones on and with the complement at the end. -/
noncomputable def standardCrc32 (data : List UInt8) : UInt32 :=
  .ofBitVec (crc CRC_POSIX_POLY_REV.toBitVec (BitVec.allOnes 32) (BitVec.allOnes 32)
    (data.flatMap byteBits))

/-! ## the table -/

theorem and_one_ne_zero_iff (r : UInt32) : r &&& 1 ≠ 0 ↔ r.toBitVec.getLsbD 0 = true := by
  have hbit : (r &&& 1).toBitVec = (BitVec.ofBool (r.toBitVec.getLsbD 0)).setWidth 32 := by
    rw [UInt32.toBitVec_and]
    exact BitVec.and_one_eq_setWidth_ofBool_getLsbD
  rw [← not_iff_not, not_not, ← UInt32.toBitVec_inj, hbit]
  cases r.toBitVec.getLsbD 0 <;> decide

theorem toBitVec_shiftRight_one (r : UInt32) : (r >>> 1).toBitVec = r.toBitVec >>> 1 := rfl

/-- A round for a table entry is a step with no bit of the message. -/
theorem toBitVec_crc32Round (r : Crc32T) :
    (crc32Round r).toBitVec = addBit CRC_POSIX_POLY_REV.toBitVec r.toBitVec false := by
  rw [crc32Round, addBit, Bool.xor_false]
  by_cases hbit : r.toBitVec.getLsbD 0 = true
  · rw [if_pos ((and_one_ne_zero_iff r).mpr hbit), if_pos hbit, UInt32.toBitVec_xor,
      toBitVec_shiftRight_one]
  · rw [if_neg fun h => hbit ((and_one_ne_zero_iff r).mp h), if_neg hbit, toBitVec_shiftRight_one]

theorem toBitVec_repeat_crc32Round (n : ℕ) (r : Crc32T) :
    (Nat.repeat crc32Round n r).toBitVec =
      addBits CRC_POSIX_POLY_REV.toBitVec r.toBitVec (List.replicate n false) := by
  induction n with
  | zero => rfl
  | succ n ih =>
    rw [List.replicate_succ', addBits_append, ← ih]
    exact toBitVec_crc32Round _

namespace Crc32

/-- A byte goes into the register as its bits do. -/
theorem toBitVec_add (c : Crc32) (b : UInt8) :
    (c.add b).remainder.toBitVec =
      addBits CRC_POSIX_POLY_REV.toBitVec c.remainder.toBitVec (byteBits b) := by
  have hlow (i : ℕ) : (c.remainder ^^^ b.toUInt32).toUInt8.toUInt32.toBitVec.getLsbD i =
      (decide (i < 8) &&
        (c.remainder.toBitVec ^^^ b.toBitVec.setWidth 32).getLsbD i) := by
    rw [UInt8.toBitVec_toUInt32, UInt32.toBitVec_toUInt8, UInt32.toBitVec_xor,
      UInt8.toBitVec_toUInt32, BitVec.getLsbD_setWidth, BitVec.getLsbD_setWidth]
    by_cases hi : i < 8
    · have hlt : i < 32 := by omega
      simp [hi, hlt]
    · simp [hi]
  rw [byteBits, addBits_lowBits (by decide) (by decide) _ _ hlow, ← toBitVec_repeat_crc32Round]
  rfl

theorem toBitVec_addAll (c : Crc32) (data : List UInt8) :
    (c.addAll data).remainder.toBitVec =
      addBits CRC_POSIX_POLY_REV.toBitVec c.remainder.toBitVec (data.flatMap byteBits) := by
  induction data generalizing c with
  | nil => rfl
  | cons b data ih =>
    rw [List.flatMap_cons, addBits_append, ← toBitVec_add]
    exact ih (c.add b)

/-- The parts of a message one after another. -/
theorem addAll_append (c : Crc32) (data rest : List UInt8) :
    c.addAll (data ++ rest) = (c.addAll data).addAll rest :=
  List.foldl_append

end Crc32

/-! ## bit by bit -/

/-- The inner loop of `crc32_checksum`: the register, and what is left of the byte. -/
def checksumBit (s : UInt32 × UInt8) : UInt32 × UInt8 :=
  let bit := (s.2.toUInt32 ^^^ s.1) &&& 1
  let crc := s.1 >>> 1
  (if bit ≠ 0 then crc ^^^ 0xEDB88320 else crc, s.2 >>> 1)

/-- The outer loop of `crc32_checksum`. -/
def checksumByte (crc : UInt32) (byte : UInt8) : UInt32 := (Nat.repeat checksumBit 8 (crc, byte)).1

/-- `crc32_checksum`; a negative size is none. -/
def crc32Checksum (data : List UInt8) (size : Int32) : UInt32 :=
  ~~~(data.take size.toInt.toNat).foldl checksumByte 0xFFFFFFFF

/-- A step takes the lowest bit of the byte. -/
theorem toBitVec_checksumBit (s : UInt32 × UInt8) :
    (checksumBit s).1.toBitVec =
      addBit CRC_POSIX_POLY_REV.toBitVec s.1.toBitVec (s.2.toBitVec.getLsbD 0) := by
  have hbit : (s.2.toUInt32 ^^^ s.1).toBitVec.getLsbD 0 =
      (s.1.toBitVec.getLsbD 0 ^^ s.2.toBitVec.getLsbD 0) := by
    rw [UInt32.toBitVec_xor, BitVec.getLsbD_xor, UInt8.toBitVec_toUInt32, BitVec.getLsbD_setWidth,
      Bool.xor_comm]
    simp
  rw [addBit, ← hbit]
  change (if (s.2.toUInt32 ^^^ s.1) &&& 1 ≠ 0 then (s.1 >>> 1) ^^^ 0xEDB88320
    else s.1 >>> 1).toBitVec = _
  by_cases h : (s.2.toUInt32 ^^^ s.1).toBitVec.getLsbD 0 = true
  · rw [if_pos h, if_pos ((and_one_ne_zero_iff _).mpr h)]
    rfl
  · rw [if_neg h, if_neg fun hne => h ((and_one_ne_zero_iff _).mp hne)]
    rfl

theorem repeat_checksumBit (crc : UInt32) (byte : UInt8) (n : ℕ) :
    (Nat.repeat checksumBit n (crc, byte)).1.toBitVec =
        addBits CRC_POSIX_POLY_REV.toBitVec crc.toBitVec (lowBits byte.toBitVec n) ∧
      (Nat.repeat checksumBit n (crc, byte)).2.toBitVec = byte.toBitVec >>> n := by
  induction n with
  | zero => exact ⟨rfl, (BitVec.ushiftRight_zero _).symm⟩
  | succ n ih =>
    obtain ⟨hcrc, hbyte⟩ := ih
    constructor
    · change (checksumBit (Nat.repeat checksumBit n (crc, byte))).1.toBitVec = _
      rw [toBitVec_checksumBit, hcrc, hbyte, lowBits_succ, addBits_append,
        BitVec.getLsbD_ushiftRight, Nat.add_zero]
      rfl
    · change ((Nat.repeat checksumBit n (crc, byte)).2 >>> 1).toBitVec = _
      rw [BitVec.shiftRight_add, ← hbyte]
      rfl

theorem toBitVec_checksumBytes (crc : UInt32) (data : List UInt8) :
    (data.foldl checksumByte crc).toBitVec =
      addBits CRC_POSIX_POLY_REV.toBitVec crc.toBitVec (data.flatMap byteBits) := by
  induction data generalizing crc with
  | nil => rfl
  | cons b data ih =>
    have hbyte := (repeat_checksumBit crc b 8).1
    rw [List.flatMap_cons, addBits_append, List.foldl_cons, ih]
    congr 1

/-! ## one CRC -/

/-- What both compute, before the complement. -/
theorem result_eq (data : List UInt8) :
    (Crc32.init.addAll data).result = ~~~data.foldl checksumByte 0xFFFFFFFF := by
  have hsame : (Crc32.init.addAll data).remainder = data.foldl checksumByte 0xFFFFFFFF := by
    apply UInt32.toBitVec_inj.mp
    rw [Crc32.toBitVec_addAll, toBitVec_checksumBytes]
    rfl
  rw [Crc32.result, hsame]
  apply UInt32.toBitVec_inj.mp
  rw [UInt32.toBitVec_xor, UInt32.toBitVec_not]
  exact BitVec.xor_allOnes

theorem result_eq_standardCrc32 (data : List UInt8) :
    (Crc32.init.addAll data).result = standardCrc32 data := by
  apply UInt32.toBitVec_inj.mp
  rw [Crc32.result, UInt32.toBitVec_xor, Crc32.toBitVec_addAll]
  exact addBits_xor_eq_crc (by decide) _ _ _

/-- The polynomial of the standard. -/
theorem generator_posix :
    generator CRC_POSIX_POLY_REV.toBitVec =
      X ^ 32 + X ^ 26 + X ^ 23 + X ^ 22 + X ^ 16 + X ^ 12 + X ^ 11 + X ^ 10 + X ^ 8 + X ^ 7 +
        X ^ 5 + X ^ 4 + X ^ 2 + X + 1 := by
  have hbits (i : ℕ) : CRC_POSIX_POLY_REV.toBitVec.getLsbD i = (0xEDB88320#32).getLsbD i := rfl
  rw [generator, toPoly]
  simp only [hbits, Finset.sum_range_succ]
  simp
  ring

theorem crc32Checksum_eq (data : List UInt8) (size : Int32) :
    crc32Checksum data size = (Crc32.init.addAll (data.take size.toInt.toNat)).result := by
  rw [result_eq, crc32Checksum]

theorem foldl_addAll (c : Crc32) (parts : List (List UInt8)) :
    parts.foldl Crc32.addAll c = c.addAll parts.flatten := by
  induction parts generalizing c with
  | nil => rfl
  | cons part parts ih => rw [List.foldl_cons, ih, List.flatten_cons, Crc32.addAll_append]

/-- The CRC of the frames is the standard one. The checksum of the trailers is the same of as many
bytes as its size says, which are all of them below two to the power of 31. Parts may be added one
after another. -/
theorem crc32_standard :
    (∀ data, (Crc32.init.addAll data).result = standardCrc32 data) ∧
    generator CRC_POSIX_POLY_REV.toBitVec =
      X ^ 32 + X ^ 26 + X ^ 23 + X ^ 22 + X ^ 16 + X ^ 12 + X ^ 11 + X ^ 10 + X ^ 8 + X ^ 7 +
        X ^ 5 + X ^ 4 + X ^ 2 + X + 1 ∧
    (∀ data size, crc32Checksum data size =
      (Crc32.init.addAll (data.take size.toInt.toNat)).result) ∧
    (∀ data : List UInt8, data.length < 2 ^ 31 →
      crc32Checksum data (Int32.ofNat data.length) = (Crc32.init.addAll data).result) ∧
    ∀ (c : Crc32) (parts : List (List UInt8)),
      parts.foldl Crc32.addAll c = c.addAll parts.flatten := by
  refine ⟨result_eq_standardCrc32, generator_posix, crc32Checksum_eq, ?_, foldl_addAll⟩
  intro data hlength
  rw [crc32Checksum_eq, Int32.toInt_ofNat_of_lt hlength, Int.toNat_natCast, List.take_length]

/-! ## errors on the line -/

/-- Bytes damaged by a burst of errors: they differ in no more than `n` bits in a row, as they go
over the line. -/
def Burst (n : ℕ) (data data' : List UInt8) : Prop :=
  ∃ pre mid mid' post, data.flatMap byteBits = pre ++ (mid ++ post) ∧
    data'.flatMap byteBits = pre ++ (mid' ++ post) ∧ mid.length = mid'.length ∧
    mid.length ≤ n ∧ mid ≠ mid'

theorem result_ne_of_burst {data data' : List UInt8} (h : Burst 32 data data') :
    (Crc32.init.addAll data).result ≠ (Crc32.init.addAll data').result := by
  obtain ⟨pre, mid, mid', post, hdata, hdata', hlen, hle, hne⟩ := h
  intro hresult
  rw [Crc32.result, Crc32.result, UInt32.xor_left_inj, ← UInt32.toBitVec_inj,
    Crc32.toBitVec_addAll, Crc32.toBitVec_addAll, hdata, hdata'] at hresult
  exact addBits_burst_ne (by decide) (by decide) _ hlen hle hne pre post hresult

/-- The last bit of the last byte matters. -/
theorem result_append_ne (data : List UInt8) :
    (Crc32.init.addAll (data ++ [0])).result ≠ (Crc32.init.addAll (data ++ [0x80])).result := by
  intro h
  rw [Crc32.result, Crc32.result, UInt32.xor_left_inj, ← UInt32.toBitVec_inj, Crc32.addAll_append,
    Crc32.addAll_append] at h
  generalize Crc32.init.addAll data = c at h
  have hzero := Crc32.toBitVec_add c 0
  have hhigh := Crc32.toBitVec_add c 0x80
  have hbits : byteBits 0 = List.replicate 7 false ++ [false] := by decide
  have hbits' : byteBits 0x80 = List.replicate 7 false ++ [true] := by decide
  rw [hbits, addBits_append] at hzero
  rw [hbits', addBits_append] at hhigh
  exact addBit_false_ne_true (by decide) _ (hzero.symm.trans (h.trans hhigh))

/-- The size of this many bytes is a negative `int`. -/
theorem crc32Checksum_of_length {data : List UInt8} (h : data.length = 2 ^ 31) :
    crc32Checksum data (Int32.ofNat data.length) = 0 := by
  have hsize : (Int32.ofNat (2 ^ 31)).toInt.toNat = 0 := by decide
  rw [h, crc32Checksum, hsize, List.take_zero, List.foldl_nil]
  decide

/-- Of so many bytes none is read: the checksum is the same for all of them. -/
theorem not_crc32Checksum :
    ¬∀ data : List UInt8,
      crc32Checksum data (Int32.ofNat data.length) = (Crc32.init.addAll data).result := by
  intro h
  have hexists (n : ℕ) : ∃ data : List UInt8, data.length = n :=
    ⟨List.replicate n 0, List.length_replicate⟩
  obtain ⟨data, hlength⟩ := hexists (2 ^ 31 - 1)
  have hlast (b : UInt8) : (Crc32.init.addAll (data ++ [b])).result = 0 := by
    rw [← h]
    refine crc32Checksum_of_length ?_
    rw [List.length_append, List.length_singleton, hlength]
    norm_num
  exact result_append_ne data ((hlast 0).trans (hlast 0x80).symm)

end LibShv
