import LibShv.CCpon.Literals
import LibShv.CponWriter.PlainText

/-!
# LibShv.CCpon.DecimalText

What `ccpon_pack_decimal` prints: the digits of the mantissa with a point among, before or behind
them, or with an exponent. The text is read back as the same number, but for the least mantissa,
whose negation overflows.
-/

namespace LibShv.CCpon

open ByteReader Decimal

/-! ## digits -/

theorem digits_of_lt {n : Nat} (h : n < 10) : digits n = [UInt8.ofNat (48 + n)] := by
  revert n
  decide

theorem digits_of_ge {n : Nat} (h : 10 ≤ n) : digits n = digits (n / 10) ++ digits (n % 10) := by
  rw [digits, digits, digits, ← List.map_append]
  congr 1
  rw [Nat.toDigits_append_toDigits (by decide) (by omega) (Nat.mod_lt _ (by decide)),
    Nat.div_add_mod]

/-- The digits of a positive number, last one first. -/
theorem reverse_decimalDigits {k n : Nat} (hpos : 0 < n) (hlt : n < 10 ^ k) {v : Int64}
    (hv : v.toInt = n) : (decimalDigits k v).reverse = digits n := by
  induction k generalizing n v with
  | zero => omega
  | succ k ih =>
    have hne : v ≠ 0 := by
      rintro rfl
      change (0 : Int) = n at hv
      omega
    have hmod : (v % 10).toInt = (n % 10 : Nat) := by
      rw [Int64.toInt_mod, hv]
      rfl
    have hdiv : (v / 10).toInt = (n / 10 : Nat) := by
      rw [Int64.toInt_div_of_ne_right _ _ (by decide), hv]
      rfl
    have hbyte : 0x30 + (v % 10).toUInt64.toUInt8 = UInt8.ofNat (48 + n % 10) := by
      have hval : v % 10 = Int64.ofNat (n % 10) := by
        apply Int64.toInt_inj.mp
        rw [hmod, Int64.toInt_ofNat_of_lt (by omega)]
      rw [hval]
      have hmod10 : n % 10 < 10 := Nat.mod_lt _ (by decide)
      generalize n % 10 = r at hmod10
      revert r
      decide
    rw [decimalDigits, if_neg hne, List.reverse_cons, hbyte, ← digits_of_lt (Nat.mod_lt n (by decide))]
    by_cases hten : n < 10
    · have hzero : v / 10 = 0 := by
        apply Int64.toInt_inj.mp
        rw [hdiv, Nat.div_eq_of_lt hten]
        rfl
      have hnil : decimalDigits k (v / 10) = [] := by
        rw [hzero]
        cases k <;> rfl
      rw [hnil, Nat.mod_eq_of_lt hten]
      rfl
    · rw [Nat.pow_succ] at hlt
      rw [ih (by omega) (by omega) hdiv, ← digits_of_ge (Nat.le_of_not_lt hten)]

/-- A value that has an absolute value is printed as by the other `int_to_str`. -/
theorem decimalToStr_eq {v : Int64} (hmin : v ≠ Int64.minValue) :
    decimalToStr v = (if v < 0 then [minus] else []) ++ digits v.toInt.natAbs := by
  have hlt := natAbs_toInt_lt hmin
  have habs : (if v < 0 then -v else v).toInt = v.toInt.natAbs := by
    split
    · next h =>
      exact toInt_neg_of_neg hmin h
    · next h =>
      have hpos := toInt_nonneg h
      omega
  have hstr : (if (if v < 0 then -v else v) = 0 then [0x30]
      else (decimalDigits 20 (if v < 0 then -v else v)).reverse) = digits v.toInt.natAbs := by
    generalize (if v < 0 then -v else v) = abs at habs
    split
    · next h =>
      rw [h] at habs
      have hzero : v.toInt.natAbs = 0 := by
        change (0 : Int) = _ at habs
        omega
      rw [hzero]
      rfl
    · next h =>
      have hne : abs.toInt ≠ 0 := fun he => h (Int64.toInt_inj.mp he)
      exact reverse_decimalDigits (by omega) (by omega) habs
  unfold decimalToStr
  dsimp only
  rw [hstr]
  split <;> rfl

theorem intToStr_eq {v : Int64} (hmin : v ≠ Int64.minValue) : decimalToStr v = intToStr v := by
  rw [decimalToStr_eq hmin]
  by_cases h : v < 0
  · rw [if_pos h, intToStr_of_neg hmin h]
    rfl
  · rw [if_neg h, intToStr_of_nonneg h]
    rfl

theorem length_decimalDigits (k : Nat) (v : Int64) : (decimalDigits k v).length ≤ k := by
  induction k generalizing v with
  | zero => exact Nat.le_refl 0
  | succ k ih =>
    rw [decimalDigits]
    split
    · exact Nat.zero_le _
    · exact Nat.succ_le_succ (ih _)

theorem length_decimalToStr (v : Int64) : (decimalToStr v).length ≤ 21 := by
  have hstr : ∀ abs : Int64,
      (if abs = 0 then [0x30] else (decimalDigits 20 abs).reverse).length ≤ 20 := by
    intro abs
    split
    · decide
    · rw [List.length_reverse]
      exact length_decimalDigits 20 abs
  rw [decimalToStr]
  split
  · exact Nat.succ_le_succ (hstr _)
  · exact Nat.le_succ_of_le (hstr _)

/-! ## the buffer -/

/-- `int_to_str` with the length of its buffer: nothing if the digits do not fit. -/
def decimalToStrIn (buffLen : Nat) (val : Int64) : Option Bytes :=
  if (decimalToStr val).length ≤ buffLen then some (decimalToStr val) else none

/-- `ccpcp_decimal_to_string` with the length of its buffer. -/
def decimalToStringIn (buffLen : Nat) (mantisa : Int64) (exponent : Int32) : Option Bytes :=
  let neg := mantisa < 0
  let room := if neg then buffLen - 1 else buffLen
  (decimalToStrIn room (if neg then -mantisa else mantisa)).bind fun str =>
    let decPlaces := (-exponent.toInt).toNat
    let text :=
      if 0 < decPlaces ∧ decPlaces < str.length then
        let dotIx := str.length - decPlaces
        some (str.take dotIx ++ dot :: str.drop dotIx)
      else if 0 < decPlaces ∧ decPlaces ≤ 3 then
        some (0x30 :: dot :: (List.replicate (decPlaces - str.length) 0x30 ++ str))
      else if 0 < exponent ∧ str.length + exponent.toInt.toNat ≤ 9 then
        some (str ++ List.replicate exponent.toInt.toNat 0x30 ++ [dot])
      else if exponent = 0 then some (str ++ [dot])
      else (decimalToStrIn (room - (str.length + 1)) exponent.toInt64).map (str ++ ascii "e" ++ ·)
    text.map fun text => if neg then minus :: text else text

/-- `DECIMAL_STRING_LEN`. -/
def decimalStringLen : Nat := 64

/-- The text of the digits and the exponent, without the sign. -/
def decimalLayout (str : Bytes) (exponent : Int32) : Bytes :=
  let decPlaces := (-exponent.toInt).toNat
  if 0 < decPlaces ∧ decPlaces < str.length then
    let dotIx := str.length - decPlaces
    str.take dotIx ++ dot :: str.drop dotIx
  else if 0 < decPlaces ∧ decPlaces ≤ 3 then
    0x30 :: dot :: (List.replicate (decPlaces - str.length) 0x30 ++ str)
  else if 0 < exponent ∧ str.length + exponent.toInt.toNat ≤ 9 then
    str ++ List.replicate exponent.toInt.toNat 0x30 ++ [dot]
  else if exponent = 0 then str ++ [dot]
  else str ++ ascii "e" ++ decimalToStr exponent.toInt64

theorem packDecimal_eq (m : Int64) (e : Int32) : packDecimal m e =
    if m < 0 then minus :: decimalLayout (decimalToStr (-m)) e
    else decimalLayout (decimalToStr m) e := by
  rw [packDecimal, decimalToString]
  by_cases h : m < 0
  · simp only [h, if_true]
    rfl
  · simp only [h, if_false]
    rfl

theorem length_decimalLayout {str : Bytes} (h : str.length ≤ 21) (e : Int32) :
    (decimalLayout str e).length ≤ 43 := by
  have hexp := length_decimalToStr e.toInt64
  have he : (ascii "e").length = 1 := rfl
  unfold decimalLayout
  extract_lets decPlaces dotIx
  split_ifs with h1 h2 h3 h4
  · simp only [List.length_append, List.length_cons, List.length_take, List.length_drop]
    omega
  · simp only [List.length_append, List.length_cons, List.length_replicate]
    omega
  · simp only [List.length_append, List.length_singleton, List.length_replicate]
    omega
  · simp only [List.length_append, List.length_singleton]
    omega
  · simp only [List.length_append, he]
    omega

theorem length_packDecimal (m : Int64) (e : Int32) : (packDecimal m e).length ≤ 44 := by
  rw [packDecimal_eq]
  split
  · exact Nat.succ_le_succ (length_decimalLayout (length_decimalToStr _) e)
  · exact Nat.le_succ_of_le (length_decimalLayout (length_decimalToStr _) e)

/-- Nothing is missing for want of room. -/
theorem decimalToStringIn_eq (m : Int64) (e : Int32) :
    decimalToStringIn decimalStringLen m e = some (packDecimal m e) := by
  have hlen := length_decimalToStr (if m < 0 then -m else m)
  have hexp := length_decimalToStr e.toInt64
  have hroom : 63 ≤ if m < 0 then decimalStringLen - 1 else decimalStringLen := by
    split <;> decide
  rw [decimalToStringIn, packDecimal, decimalToString]
  dsimp only
  generalize (if m < 0 then decimalStringLen - 1 else decimalStringLen) = room at hroom
  generalize (if m < 0 then -m else m) = abs at hlen
  have hin : decimalToStrIn (room - ((decimalToStr abs).length + 1)) e.toInt64 =
      some (decimalToStr e.toInt64) := if_pos (by omega)
  rw [decimalToStrIn, if_pos (by omega), Option.bind_some, hin]
  split_ifs <;> rfl

/-! ## reading the text back -/

/-- The sign that is printed. -/
def signOf (m : Int64) : Option Bool := if m < 0 then some true else none

theorem signed_signOf (m : Int64) : signed (signOf m) m.toInt.natAbs = m.toInt := by
  rw [signed, signOf]
  by_cases h : m < 0
  · have hneg : m.toInt < 0 := Int64.lt_iff_toInt_lt.mp h
    rw [if_pos h, if_pos rfl]
    omega
  · have hpos := toInt_nonneg h
    rw [if_neg h, if_neg (by simp)]
    omega

theorem packDecimal_of_ne_min {m : Int64} (hmin : m ≠ Int64.minValue) (e : Int32) :
    packDecimal m e = signBytes (signOf m) ++ decimalLayout (digits m.toInt.natAbs) e := by
  rw [packDecimal_eq, signOf]
  by_cases h : m < 0
  · have hval := toInt_neg_of_neg hmin h
    have hne : -m ≠ Int64.minValue := by
      intro he
      have := congrArg Int64.toInt he
      rw [hval] at this
      change (_ : Int) = -2 ^ 63 at this
      omega
    have hpos : ¬ -m < 0 := by
      rw [Int64.lt_iff_toInt_lt, hval]
      change ¬ (_ : Int) < 0
      omega
    rw [if_pos h, if_pos h, decimalToStr_eq hne, if_neg hpos, hval]
    rfl
  · rw [if_neg h, if_neg h, decimalToStr_eq hmin, if_neg h]
    rfl

/-- A number with decimals whose digits fit the accumulator. -/
theorem readsAs_point (sign : Option Bool) (digits : Digits .decimal)
    (fraction : Option (Digits .decimal)) {n k : Nat} (hlen : digits.bytes.length < 2 ^ 32)
    (hvalue : Radix.decimal.value 0 (digits.bytes ++ fractionBytes fraction) = n) (hn : n < 2 ^ 63)
    (hk : (fractionBytes fraction).length = k) (hk' : k ≤ 2 ^ 31) :
    ReadsAs (NumberLiteral.decimal sign digits fraction).text
      (.decimal (Int64.ofInt (signed sign n)) (Int32.ofInt (-k))) := by
  have hsigned : -2 ^ 63 ≤ signed sign n ∧ signed sign n < 2 ^ 63 := by
    rw [signed]
    split <;> omega
  have hint : Radix.decimal.value 0 digits.bytes < 2 ^ 63 := by
    have hle := @le_value .decimal (Radix.decimal.value 0 digits.bytes) (fractionBytes fraction)
    rw [← value_append, hvalue] at hle
    omega
  have hpos := List.length_pos_of_ne_nil digits.ne_nil
  refine (readsAs_decimal digits fraction ?_).mpr ⟨?_, ?_⟩
  · simp only [NumberLiteral.item?, hvalue, hk]
    rw [if_pos ⟨hsigned.1, hsigned.2, hk'⟩]
  · rw [hvalue]
    exact fun h => by omega
  · rw [NumberLiteral.counted, if_neg (by omega), Nat.sub_zero]
    intro hdvd
    have := Nat.le_of_dvd hpos hdvd
    omega

/-- The exponent with its sign. -/
theorem value_mul_signum {v : Int64} (hmin : v ≠ Int64.minValue) {k : Nat} {u : ReadInt}
    (hu : Reading (decide (v < 0)) k v.toInt.natAbs u) : u.value * u.signum = v := by
  have hlt := natAbs_toInt_lt hmin
  have hval := hu.value
  rw [ReadInt.signum, hu.neg]
  by_cases h : v < 0
  · have hneg : v.toInt < 0 := Int64.lt_iff_toInt_lt.mp h
    rw [if_pos (decide_eq_true h), Int64.mul_neg, Int64.mul_one]
    apply Int64.toInt_inj.mp
    rw [Int64.toInt_neg, hval, Int.bmod_eq_of_le (by omega) (by omega)]
    omega
  · have hpos := toInt_nonneg h
    rw [if_neg (by simpa using h), Int64.mul_one]
    apply Int64.toInt_inj.mp
    omega

/-- The exponent of a number, up to the end of the text. -/
theorem unpackNumberTail_exponent {v : Int64} (hmin : v ≠ Int64.minValue) (r : ReadNumber)
    {c : Cursor UnpackContext} (hc : c.input = decimalToStr v) :
    ∃ c', unpackNumberTail r 0x65 c = .ok { r with isDecimal := true, exponent := v } c' ∧
      c'.input = [] := by
  obtain ⟨u, k, hscan, hu, hk⟩ := scans_intToStr hmin
  rw [← intToStr_eq hmin, ← hc] at hscan
  obtain ⟨last, hint⟩ := unpackIntToResult_end hscan
  refine ⟨{ c with input := [], last := last, atEnd := true,
                   reg := { c.reg with errNo := .bufferUnderflow } }, ?_, rfl⟩
  rw [unpackNumberTail, if_neg (by decide), if_neg (by decide), unpackExponent, if_pos (.inl rfl),
    bind_of_ok hint, if_neg (hu.digitCnt_ne_zero hk), value_mul_signum hmin hu, hu.isOverflow,
    Bool.or_false]
  rfl

/-- A number with an exponent. -/
theorem readsAs_exponent {n : Nat} (hn : n < 2 ^ 63) (sign : Option Bool) (e : Int32) :
    ReadsAs (signBytes sign ++ (digits n ++ ascii "e" ++ decimalToStr e.toInt64))
      (.decimal (Int64.ofInt (signed sign n)) e) := by
  have hemin : e.toInt64 ≠ Int64.minValue := by
    intro he
    have hlo := e.le_toInt
    have := congrArg Int64.toInt he
    rw [Int32.toInt_toInt64] at this
    change e.toInt = -2 ^ 63 at this
    omega
  obtain ⟨t, hscan, ht, hmin⟩ := scans_number sign (digitsOf n)
  rw [value_digitsOf] at ht hmin
  obtain ⟨hflag, hval, hcnt⟩ := ht.fits hn
  have hk : t.digitCnt ≠ 0 := by
    have hdvd := not_dvd_counted (n := n) (by omega)
    rw [NumberLiteral.counted, value_digitsOf, if_neg (by omega), Nat.sub_zero] at hdvd
    rw [hcnt, Ne, ofNat_eq_zero_iff]
    exact hdvd
  obtain ⟨b, bs, htext, hb⟩ := numberStart_text sign (digitsOf n) (ascii "e" ++ decimalToStr e.toInt64)
  have hshape : signBytes sign ++ (digits n ++ ascii "e" ++ decimalToStr e.toInt64) = b :: bs := by
    rw [List.append_assoc]
    exact htext
  obtain ⟨c, hc, hiff⟩ := readsAs_iff hb bs (.decimal (Int64.ofInt (signed sign n)) e)
  rw [hshape, hiff]
  rw [← hshape, List.append_assoc, ← List.append_assoc] at hc
  have hstop : t.step 0x65 = .done t := step_of_digit_none ht.base rfl (by decide) (by decide)
  obtain ⟨c', htail, hrest⟩ := unpackNumberTail_exponent hemin t.number
    (c := { c with input := decimalToStr e.toInt64, last := 0x65 }) rfl
  refine (unpackNumber_iff_tail hscan hc hstop htail hrest).mpr ⟨hk, ?_⟩
  have hexp : (e.toInt64 - (0 : Int32).toInt64).toInt32 = e := by
    change (e.toInt64 - 0).toInt32 = e
    rw [Int64.sub_zero, Int32.toInt32_toInt64]
  simp only [ReadNumber.item, ReadInt.number, signum_eq ht.neg, hflag, if_true, Bool.false_eq_true,
    false_and, if_false, decide_eq_true_eq, hexp, signed_value hval hn]

/-! ## the round trip -/

/-- The rational number of a decimal. -/
def decimalValue (m : Int64) (e : Int32) : ℚ := m.toInt * 10 ^ e.toInt

/-- The text is read as a decimal of this value. -/
def ReadsValue (text : Bytes) (v : ℚ) : Prop :=
  ∃ m e, ReadsAs text (.decimal m e) ∧ decimalValue m e = v

theorem value_zeros (k : Nat) (bs : Bytes) :
    Radix.decimal.value 0 (List.replicate k 0x30 ++ bs) = Radix.decimal.value 0 bs := by
  induction k with
  | zero => rfl
  | succ k ih => exact ih

theorem value_append_zeros (v k : Nat) (bs : Bytes) :
    Radix.decimal.value v (bs ++ List.replicate k 0x30) = Radix.decimal.value v bs * 10 ^ k := by
  rw [value_append]
  generalize Radix.decimal.value v bs = w
  induction k generalizing w with
  | zero => exact (Nat.mul_one w).symm
  | succ k ih =>
    rw [List.replicate_succ, value_cons]
    refine (ih _).trans ?_
    have hzero : (Radix.decimal.digit 0x30).getD 0 = 0 := rfl
    have hten : Radix.decimal.base = 10 := rfl
    rw [hzero, hten, Nat.add_zero, Nat.pow_succ', Nat.mul_assoc]

theorem isSome_digit_digits {n : Nat} {b : UInt8} (hb : b ∈ digits n) :
    (Radix.decimal.digit b).isSome := (digitsOf n).digits b hb

theorem isSome_digit_zeros {k : Nat} {b : UInt8} (hb : b ∈ List.replicate k (0x30 : UInt8)) :
    (Radix.decimal.digit b).isSome := by
  rw [List.eq_of_mem_replicate hb]
  rfl

section Layouts

variable {m : Int64} {e : Int32} {k : Nat}

theorem ofInt_signed (m : Int64) : Int64.ofInt (signed (signOf m) m.toInt.natAbs) = m := by
  rw [signed_signOf, Int64.ofInt_toInt]

theorem ofInt_neg_decPlaces (h : 0 < (-e.toInt).toNat) :
    Int32.ofInt (-((-e.toInt).toNat : Int)) = e := by
  have he : -((-e.toInt).toNat : Int) = e.toInt := by omega
  rw [he, Int32.ofInt_toInt]

/-- The point among the digits. -/
theorem readsAs_among (hmin : m ≠ Int64.minValue) (hpos : 0 < (-e.toInt).toNat)
    (hlt : (-e.toInt).toNat < (digits m.toInt.natAbs).length) :
    ReadsAs (signBytes (signOf m) ++
      ((digits m.toInt.natAbs).take ((digits m.toInt.natAbs).length - (-e.toInt).toNat) ++
        dot :: (digits m.toInt.natAbs).drop ((digits m.toInt.natAbs).length - (-e.toInt).toNat)))
      (.decimal m e) := by
  have hn := natAbs_toInt_lt hmin
  have hlen := length_digits_le (n := m.toInt.natAbs) (by omega)
  generalize hstr : digits m.toInt.natAbs = str at hlt hlen ⊢
  have hmem : ∀ b ∈ str, (Radix.decimal.digit b).isSome := fun b hb => isSome_digit_digits (hstr ▸ hb)
  have hint : (str.take (str.length - (-e.toInt).toNat)).length = str.length - (-e.toInt).toNat := by
    rw [List.length_take]
    omega
  have hfrac : (str.drop (str.length - (-e.toInt).toNat)).length = (-e.toInt).toNat := by
    rw [List.length_drop]
    omega
  have h := readsAs_point (signOf m)
    ⟨str.take (str.length - (-e.toInt).toNat), List.ne_nil_of_length_pos (by omega),
      fun b hb => hmem b (List.mem_of_mem_take hb)⟩
    (some ⟨str.drop (str.length - (-e.toInt).toNat), List.ne_nil_of_length_pos (by omega),
      fun b hb => hmem b (List.mem_of_mem_drop hb)⟩)
    (lt_of_eq_of_lt hint (by omega))
    (by
      change Radix.decimal.value 0 (_ ++ List.drop _ str) = m.toInt.natAbs
      rw [List.take_append_drop, ← hstr]
      exact value_digitsOf _)
    hn hfrac (by omega)
  rw [ofInt_signed, ofInt_neg_decPlaces hpos] at h
  exact h

/-- The point before the digits. -/
theorem readsAs_before (hmin : m ≠ Int64.minValue) (hpos : 0 < (-e.toInt).toNat)
    (hle : (digits m.toInt.natAbs).length ≤ (-e.toInt).toNat) (hthree : (-e.toInt).toNat ≤ 3) :
    ReadsAs (signBytes (signOf m) ++
      (0x30 :: dot :: (List.replicate ((-e.toInt).toNat - (digits m.toInt.natAbs).length) 0x30 ++
        digits m.toInt.natAbs))) (.decimal m e) := by
  have hlenpos := List.length_pos_of_ne_nil (digits_ne_nil m.toInt.natAbs)
  have h := readsAs_point (signOf m) ⟨[0x30], List.cons_ne_nil _ _,
      fun b hb => @isSome_digit_zeros 1 b hb⟩
    (some ⟨List.replicate ((-e.toInt).toNat - (digits m.toInt.natAbs).length) 0x30 ++
        digits m.toInt.natAbs, List.append_ne_nil_of_right_ne_nil _ (digits_ne_nil _), by
      intro b hb
      rcases List.mem_append.mp hb with hb | hb
      · exact isSome_digit_zeros hb
      · exact isSome_digit_digits hb⟩)
    (by change 1 < _; decide)
    ((value_zeros _ _).trans (value_digitsOf _)) (natAbs_toInt_lt hmin)
    (k := (-e.toInt).toNat)
    (by
      change List.length (_ ++ _) = _
      rw [List.length_append, List.length_replicate]
      omega)
    (by omega)
  rw [ofInt_signed, ofInt_neg_decPlaces hpos] at h
  exact h

/-- The point behind the digits and the zeros of a positive exponent. -/
theorem readsAs_behind (m : Int64) {k : Nat}
    (hlen : (digits m.toInt.natAbs).length + k ≤ 20) (hfits : m.toInt.natAbs * 10 ^ k < 2 ^ 63) :
    ReadsAs (signBytes (signOf m) ++ (digits m.toInt.natAbs ++ List.replicate k 0x30 ++ [dot]))
      (.decimal (Int64.ofInt (signed (signOf m) (m.toInt.natAbs * 10 ^ k))) 0) := by
  have h := readsAs_point (signOf m)
    ⟨digits m.toInt.natAbs ++ List.replicate k 0x30,
      List.append_ne_nil_of_left_ne_nil (digits_ne_nil _) _, by
      intro b hb
      rcases List.mem_append.mp hb with hb | hb
      · exact isSome_digit_digits hb
      · exact isSome_digit_zeros hb⟩
    none
    (by
      change List.length (_ ++ _) < _
      rw [List.length_append, List.length_replicate]
      omega)
    (by
      change Radix.decimal.value 0 (_ ++ []) = _
      rw [List.append_nil, value_append_zeros]
      exact congrArg (· * 10 ^ k) (value_digitsOf _))
    hfits (k := 0) rfl (Nat.zero_le _)
  exact h

/-- Whatever the layout, the number is read back. -/
theorem readsValue_packDecimal (hmin : m ≠ Int64.minValue) (e : Int32) :
    ReadsValue (packDecimal m e) (decimalValue m e) := by
  rw [packDecimal_of_ne_min hmin]
  have hn := natAbs_toInt_lt hmin
  unfold decimalLayout
  extract_lets decPlaces dotIx
  split_ifs with hamong hbefore hbehind hzero
  · exact ⟨m, e, readsAs_among hmin hamong.1 hamong.2, rfl⟩
  · exact ⟨m, e, readsAs_before hmin hbefore.1 (by omega) hbefore.2, rfl⟩
  · obtain ⟨hexp, hnine⟩ := hbehind
    have hepos : 0 < e.toInt := Int32.lt_iff_toInt_lt.mp hexp
    have hdigits : m.toInt.natAbs < 10 ^ (digits m.toInt.natAbs).length := by
      have hpos := List.length_pos_of_ne_nil (digits_ne_nil m.toInt.natAbs)
      have hlen : (Nat.toDigits 10 m.toInt.natAbs).length ≤ (digits m.toInt.natAbs).length := by
        rw [digits, List.length_map]
      exact (Nat.length_toDigits_le_iff (by decide) hpos).mp hlen
    have hfits : m.toInt.natAbs * 10 ^ e.toInt.toNat < 10 ^ 9 := by
      calc m.toInt.natAbs * 10 ^ e.toInt.toNat
          < 10 ^ (digits m.toInt.natAbs).length * 10 ^ e.toInt.toNat :=
            Nat.mul_lt_mul_of_pos_right hdigits (by positivity)
        _ = 10 ^ ((digits m.toInt.natAbs).length + e.toInt.toNat) := (Nat.pow_add _ _ _).symm
        _ ≤ 10 ^ 9 := Nat.pow_le_pow_right (by decide) hnine
    refine ⟨_, _, readsAs_behind m (by omega) (by omega), ?_⟩
    have hval : (Int64.ofInt (signed (signOf m) (m.toInt.natAbs * 10 ^ e.toInt.toNat))).toInt =
        m.toInt * 10 ^ e.toInt.toNat := by
      have hsigned : signed (signOf m) (m.toInt.natAbs * 10 ^ e.toInt.toNat) =
          signed (signOf m) m.toInt.natAbs * 10 ^ e.toInt.toNat := by
        unfold signed
        split <;> push_cast <;> ring
      have hbound : -2 ^ 63 ≤ signed (signOf m) (m.toInt.natAbs * 10 ^ e.toInt.toNat) ∧
          signed (signOf m) (m.toInt.natAbs * 10 ^ e.toInt.toNat) < 2 ^ 63 := by
        unfold signed
        split <;> omega
      rw [Int64.toInt_ofInt_of_le hbound.1 hbound.2, hsigned, signed_signOf]
    rw [decimalValue, decimalValue, hval]
    have hcast : (10 : ℚ) ^ e.toInt = 10 ^ e.toInt.toNat := by
      rw [← zpow_natCast, Int.toNat_of_nonneg (Int.le_of_lt hepos)]
    have hz : (0 : Int32).toInt = 0 := rfl
    rw [hcast, hz, zpow_zero, mul_one]
    push_cast
    ring
  · have h := readsAs_behind m (k := 0) (length_digits_le (by omega)) (by omega)
    rw [List.replicate_zero, List.append_nil, Nat.pow_zero, Nat.mul_one, ofInt_signed] at h
    exact ⟨m, 0, h, by rw [hzero]⟩
  · have h := readsAs_exponent hn (signOf m) e
    rw [ofInt_signed] at h
    exact ⟨m, e, h, rfl⟩

/-- Two signs are printed before the least mantissa. -/
theorem packDecimal_minValue (e : Int32) :
    ∃ rest, packDecimal Int64.minValue e = minus :: minus :: rest := by
  have hstr : ∃ ds : Bytes, decimalToStr (-Int64.minValue) = minus :: ds ∧ ds.length = 19 :=
    ⟨_, rfl, by decide⟩
  obtain ⟨ds, hds, hlen⟩ := hstr
  rw [packDecimal_eq, if_pos (by decide), hds]
  unfold decimalLayout
  extract_lets decPlaces dotIx
  have hlen' : (minus :: ds).length = 20 := by rw [List.length_cons, hlen]
  split_ifs with hamong hbefore
  · obtain ⟨k, hk⟩ : ∃ k, dotIx = k + 1 := ⟨dotIx - 1, by omega⟩
    rw [hk, List.take_succ_cons]
    exact ⟨_, rfl⟩
  · omega
  · exact ⟨_, rfl⟩
  · exact ⟨_, rfl⟩
  · exact ⟨_, rfl⟩

theorem not_readsAs_signs (rest : Bytes) (item : CCpcpItem) :
    ¬ ReadsAs (minus :: minus :: rest) item := by
  have hminus : NumberStart minus := ⟨rfl, rfl⟩
  obtain ⟨c, hc, hiff⟩ := readsAs_iff hminus (minus :: rest) item
  rw [hiff]
  obtain ⟨t, hscan, hcnt, hstop⟩ : ∃ t, Scans ReadInt.step (.init 0) [minus] t ∧
      t.digitCnt = 0 ∧ t.step minus = .done t := ⟨_, .cons rfl (.nil _), rfl, rfl⟩
  rintro ⟨c', h, -⟩
  rw [unpackNumber_eq, bind_of_ok (unpackIntToResult_stop hscan hc hstop), if_pos hcnt] at h
  cases h

/-- A decimal is printed within its buffer and read back as the same number, unless its mantissa is
the least one. -/
theorem decimal_roundTrip_iff (m : Int64) (e : Int32) :
    (decimalToStringIn decimalStringLen m e = some (packDecimal m e) ∧
      (packDecimal m e).length ≤ decimalStringLen ∧
      ReadsValue (packDecimal m e) (decimalValue m e)) ↔ m ≠ Int64.minValue := by
  constructor
  · rintro ⟨-, -, m', e', hreads, -⟩ rfl
    obtain ⟨rest, htext⟩ := packDecimal_minValue e
    rw [htext] at hreads
    exact not_readsAs_signs rest _ hreads
  · intro hmin
    have hlen := length_packDecimal m e
    have hmax : decimalStringLen = 64 := rfl
    exact ⟨decimalToStringIn_eq m e, by omega, readsValue_packDecimal hmin e⟩

/-- The least mantissa is printed with two signs, and no number starts so. -/
theorem not_decimal_roundTrip :
    ¬ ReadsValue (packDecimal Int64.minValue 0) (decimalValue Int64.minValue 0) := by
  rintro ⟨m', e', hreads, -⟩
  obtain ⟨rest, htext⟩ := packDecimal_minValue 0
  rw [htext] at hreads
  exact not_readsAs_signs rest _ hreads

end Layouts

end LibShv.CCpon
