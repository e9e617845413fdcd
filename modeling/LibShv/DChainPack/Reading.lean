import LibShv.DChainPack.Values

/-!
# LibShv.DChainPack.Reading

The D reader on single items as `cchainpack.c` packs them, followed by anything.
-/

namespace LibShv.DChainPack

open ByteReader

/-! ## reading known bytes -/

/-- The D reader `p` takes exactly `bs` and returns `a`, whatever follows. -/
abbrev Yields {α : Type} (p : D.Read α) (bs : Bytes) (a : α) : Prop :=
  Consumes p bs (fun _ => True) (fun _ => True) fun a' _ => a' = a ∧ True

section Rules

variable {α β : Type} {p : D.Read α} {f : α → D.Read β} {bs bs' : Bytes} {a : α} {b : β}

theorem yields_pure (a : α) : Yields (return a) [] a := Consumes.pure fun _ _ => ⟨rfl, trivial⟩

theorem Yields.bind (hp : Yields p bs a) (hf : Yields (f a) bs' b) :
    Yields (p >>= f) (bs ++ bs') b :=
  hp.bind_value hf

theorem Yields.map {g : α → β} (hp : Yields p bs a) : Yields (do return g (← p)) bs (g a) :=
  hp.map_value fun _ _ => ⟨rfl, trivial⟩

theorem yields_getByte_bind {x : UInt8} {f : UInt8 → D.Read β} (h : Yields (f x) bs b) :
    Yields (D.getByte >>= f) (x :: bs) b := by
  intro c rest hc hrest hP
  obtain ⟨a, c', hrun, hi, he, ha⟩ :=
    h { c with input := bs ++ rest, last := x, reg := c.reg + 1 } rest rfl hrest trivial
  refine ⟨a, c', ?_, hi, he, ha⟩
  rw [← hrun]
  refine bind_of_ok ?_
  rw [D.getByte, bind_of_ok (take?_cons (by simpa using hc))]
  rfl

/-- The next byte is looked at and left. -/
theorem yields_peekByte_bind {x : UInt8} {f : Option UInt8 → D.Read β}
    (h : Yields (f (some x)) (x :: bs) b) : Yields (D.peekByte >>= f) (x :: bs) b := by
  intro c rest hc hrest hP
  obtain ⟨a, c', hrun, hi, he, ha⟩ := h { c with last := x } rest hc hrest trivial
  exact ⟨a, c', by rw [D.peekByte, bind_of_ok (peek?_cons (by simpa using hc)), hrun], hi, he, ha⟩

end Rules

/-! ## integers -/

theorem yields_unpackUintBytes (bs : Bytes) (num : UInt64) :
    Yields (D.unpackUintBytes bs.length num) bs (shiftIn num bs) := by
  induction bs generalizing num with
  | nil => exact yields_pure num
  | cons b bs ih => exact yields_getByte_bind (ih _)

theorem yields_unpackUintDataHelper {num : UInt64} {bitLen : Nat}
    (hnum : num.toNat < 2 ^ bitCapacity bitLen) (hlen : bitLen ≤ 128) :
    Yields D.unpackUintDataHelper (packUintDataHelper num bitLen) (num, bitCapacity bitLen) := by
  obtain ⟨head, tail, acc, hbytes, hhead, hshift⟩ := packUintDataHelper_spec hnum hlen
  have hhead' : D.unpackUintHead head = (tail.length, acc, bitCapacity bitLen) := hhead
  rw [hbytes, ← hshift]
  refine yields_getByte_bind ?_
  rw [hhead']
  exact (yields_unpackUintBytes tail acc).map

theorem yields_unpackUintData (num : UInt64) :
    Yields D.unpackUintData (packUintData num) num := by
  have hle := significantBits_le num
  have hlt : num.toNat < 2 ^ bitCapacity (significantBitsPartLength num) :=
    Nat.lt_of_lt_of_le (toNat_lt_significantBits num)
      (Nat.pow_le_pow_right (by decide) (le_bitCapacity _))
  exact (yields_unpackUintDataHelper hlt (by omega)).map

/-- Up to 64 bits the sign is taken off as in C. -/
theorem signedNum_eq {bitlen : Nat} (num : UInt64) (h : bitlen ≤ 64) :
    D.signedNum num bitlen = signedValue num bitlen := by
  simp only [D.signedNum, signedValue, if_neg (Nat.not_lt.mpr h), UInt64.toInt64_and,
    UInt64.toInt64_not]

theorem yields_unpackIntData {n : Int64} (h : n ≠ Int64.minValue) :
    Yields D.unpackIntData (packIntData n) n := by
  obtain ⟨num, bitLen, hbytes, hnum, hlen, hcap, hvalue⟩ := packIntData_spec h
  have hread := (yields_unpackUintDataHelper hnum hlen).map (g := fun r => D.signedNum r.1 r.2)
  rw [signedNum_eq num hcap, hvalue, ← hbytes] at hread
  exact hread

/-! ## the next value -/

section Store

variable {rv : D.Read D.RpcValue} {n : Nat} {b : UInt8} {bs : Bytes} {s : D.Store}

theorem yields_readStore (h : Yields (D.readSchema rv n b) (b :: bs) s) :
    Yields (D.readStore rv n) (b :: bs) s :=
  yields_peekByte_bind h

/-- A schema byte, and what its case reads. -/
theorem yields_readStore_of {p : D.Read D.Store}
    (hcase : D.readSchema rv n b = D.getByte >>= fun _ => p) (h : Yields p bs s) :
    Yields (D.readStore rv n) (b :: bs) s := by
  refine yields_readStore ?_
  rw [hcase]
  exact yields_getByte_bind h

theorem yields_packUint (u : UInt64) : Yields (D.readStore rv n) (packUint u) (.uinteger u) := by
  by_cases h : u < 64
  · have hk : u.toNat < 64 := UInt64.lt_iff_toNat_lt.mp h
    obtain ⟨h₁, h₂, h₃⟩ := tinyUInt hk
    rw [UInt64.ofNat_toNat] at h₁ h₂ h₃
    rw [packUint, if_pos h]
    refine yields_readStore_of (p := return .uinteger u) ?_ (yields_pure _)
    rw [D.readSchema, if_pos h₁, if_neg (not_not_intro h₂), h₃]
  · rw [packUint, if_neg h]
    refine yields_readStore (Yields.map (g := D.Store.uinteger) (p := D.unpackUint) ?_)
    exact yields_getByte_bind (yields_unpackUintData u)

theorem yields_packInt {i : Int64} (hi : i ≠ Int64.minValue) :
    Yields (D.readStore rv n) (packInt i) (.integer i) := by
  by_cases h : 0 ≤ i ∧ i < 64
  · have hlo : 0 ≤ i.toInt := Int64.le_iff_toInt_le.mp h.1
    have hhi : i.toInt < 64 := Int64.lt_iff_toInt_lt.mp h.2
    have hn : Int64.ofNat i.toInt.toNat = i := by
      apply Int64.toInt_inj.mp
      rw [LibShv.toInt_ofNat_of_lt (by omega), Int.toNat_of_nonneg hlo]
    obtain ⟨h₁, h₂, h₃⟩ := tinyInt (k := i.toInt.toNat) (by omega)
    rw [hn] at h₁ h₂ h₃
    rw [packInt, if_pos h]
    refine yields_readStore_of (p := return .integer i) ?_ (yields_pure _)
    rw [D.readSchema, if_pos h₁, if_pos h₂, h₃]
  · rw [packInt, if_neg h]
    refine yields_readStore (Yields.map (g := D.Store.integer) (p := D.unpackInt) ?_)
    exact yields_getByte_bind (yields_unpackIntData hi)

theorem yields_readBytes (s str : Bytes) : Yields (D.readBytes s.length str) s (str ++ s) := by
  induction s generalizing str with
  | nil =>
    rw [List.append_nil]
    exact yields_pure str
  | cons b s ih =>
    have h := ih (str ++ [b])
    rw [List.append_assoc] at h
    exact yields_getByte_bind h

theorem yields_packString {s : Bytes} (hs : s.length < maxSize) :
    Yields (D.readStore rv n) (packString s) (.string s) := by
  have hlen : (UInt64.ofNat s.length).toNat = s.length :=
    UInt64.toNat_ofNat_of_lt' (Nat.lt_trans hs (by decide))
  refine yields_readStore_of (b := CP_String) rfl
    ((yields_unpackUintData _).bind (Yields.map (g := D.Store.string) ?_))
  rw [hlen]
  exact yields_readBytes s []

theorem yields_packDecimal {mantissa : Int64} (h : mantissa ≠ Int64.minValue) (exponent : Int32) :
    Yields (D.readStore rv n) (packDecimal mantissa exponent) (.decimal mantissa exponent) := by
  have hexp := (yields_unpackIntData exponent.toInt64_ne_minValue).map
    (g := fun x => D.Store.decimal mantissa x.toInt32)
  rw [Int32.toInt32_toInt64] at hexp
  exact yields_readStore_of (b := CP_Decimal) rfl ((yields_unpackIntData h).bind hexp)

theorem toNat_doubleOfBytes {len : Nat} (h : len ≤ 8) (bits : UInt64) :
    (D.doubleOfBytes (littleEndian len bits)).toNat = bits.toNat % 256 ^ len := by
  induction len generalizing bits with
  | zero => rw [Nat.pow_zero, Nat.mod_one]; rfl
  | succ len ih =>
    have hshift : (bits >>> 8).toNat = bits.toNat / 256 := by
      simp [UInt64.toNat_shiftRight, Nat.shiftRight_eq_div_pow]
    have hlow : bits.toUInt8.toUInt64.toNat = bits.toNat % 256 := by simp
    have h256 : (256 : UInt64).toNat = 256 := by decide
    have hpow : 256 ^ len ≤ 256 ^ 7 := Nat.pow_le_pow_right (by decide) (by omega)
    have hlt := Nat.mod_lt (bits.toNat / 256) (Nat.pow_pos (a := 256) (n := len) (by decide))
    have hsplit : bits.toNat % 256 ^ (len + 1) =
        bits.toNat % 256 + 256 * (bits.toNat / 256 % 256 ^ len) := by
      rw [Nat.pow_succ', Nat.mod_mul]
    rw [littleEndian, D.doubleOfBytes, UInt64.toNat_add, UInt64.toNat_mul, ih (by omega), hshift,
      hlow, h256, hsplit]
    omega

theorem doubleOfBytes_littleEndian (bits : UInt64) :
    D.doubleOfBytes (littleEndian 8 bits) = bits :=
  UInt64.toNat_inj.mp
    ((toNat_doubleOfBytes (Nat.le_refl 8) bits).trans (Nat.mod_eq_of_lt bits.toNat_lt))

theorem yields_packDouble (bits : UInt64) :
    Yields (D.readStore rv n) (packDouble bits) (.float bits) := by
  have h := (yields_readBytes (littleEndian 8 bits) []).map
    (g := fun bs => D.Store.float (D.doubleOfBytes bs))
  rw [List.nil_append, doubleOfBytes_littleEndian] at h
  exact yields_readStore_of (b := CP_Double) rfl h

theorem yields_packDateTime {dt : RpcDateTime} (h : dt.PackFits) :
    Yields (D.readStore rv n) (packDateTime dt.msecsSinceEpoch dt.utcOffsetMin)
      (.dateTime (ofDateTime dt)) := by
  have hun := dt.unpackedInt_packedDateTime
  have hne : LibShv.packedDateTime dt.msecsSinceEpoch dt.utcOffsetMin ≠ Int64.minValue := by
    intro he
    rw [he] at hun
    exact absurd hun (by decide)
  have hread := (yields_unpackIntData hne).map
    (g := fun d => D.Store.dateTime (D.unpackedDateTime d))
  have hback := dt.unpacked_of_packFits h
  rw [RpcDateTime.unpacked, hun] at hback
  rw [unpackedDateTime_eq hback] at hread
  exact yields_readStore_of (b := CP_DateTime) rfl hread

theorem yields_packBoolean (x : Bool) : Yields (D.readStore rv n) (packBoolean x) (.bool x) := by
  cases x with
  | true => exact yields_readStore_of (b := CP_TRUE) rfl (yields_pure _)
  | false => exact yields_readStore_of (b := CP_FALSE) rfl (yields_pure _)

end Store

end LibShv.DChainPack
