import LibShv.CCpon.Accumulator

/-!
# LibShv.CCpon.Overlong

Numbers with more digits than the accumulator holds. An integer part that does not fit saturates,
and decimals that do not fit are dropped; but a digit that is added after one that was not gets the
wrong place, and a number that loses all of its decimals is taken for one that overflows.
-/

namespace LibShv.CCpon

open ByteReader

/-! ## what is read -/

/-- The state of the parser that the accumulator stands for. -/
structure Accumulator.Holds (neg : Bool) (a : Accumulator) (s : ReadInt) : Prop where
  base : s.base = Radix.decimal.base
  neg : s.neg = neg
  value : s.value.toInt = a.value
  count : s.digitCnt = Int32.ofNat a.count
  isOverflow : s.isOverflow = a.isOverflow

section Holds

variable {neg : Bool} {a : Accumulator} {s : ReadInt}

theorem Accumulator.Holds.value_lt (h : a.Holds neg s) : a.value < 2 ^ 63 := by
  have hlt := s.value.toInt_lt
  have hval := h.value
  omega

theorem Accumulator.Holds.step (h : a.Holds neg s) {b : UInt8}
    (hb : (Radix.decimal.digit b).isSome) :
    ∃ t, s.step b = .more t ∧ (a.add b).Holds neg t := by
  obtain ⟨d, hd⟩ := Option.isSome_iff_exists.mp hb
  have hdigit : digitValue b = d := by rw [digitValue, hd, Option.getD_some]
  refine ⟨_, step_of_digit h.base hd, ?_⟩
  have hbase : Radix.decimal.base = 10 := rfl
  by_cases hfits : a.value * 10 + digitValue b < 2 ^ 63
  · rw [Accumulator.add_of_fits hfits, addDigit_fits h.value h.base (by rw [hbase, ← hdigit]; exact hfits)]
    refine ⟨h.base, h.neg, ?_, ?_, h.isOverflow⟩
    · rw [hbase, ← hdigit]
      exact (checkedInt64_ofNat hfits).2
    · change s.digitCnt + 1 = _
      rw [h.count, Int32.ofNat_add]
      rfl
  · rw [Accumulator.add_of_not_fits hfits,
      addDigit_over h.value h.base (by rw [hbase, ← hdigit]; exact hfits)]
    exact ⟨h.base, h.neg, h.value, h.count, rfl⟩

theorem Accumulator.Holds.run (h : a.Holds neg s) {ds : Bytes}
    (hds : ∀ b ∈ ds, (Radix.decimal.digit b).isSome) :
    ∃ t, Scans ReadInt.step s ds t ∧ (a.run ds).Holds neg t := by
  induction ds generalizing a s with
  | nil => exact ⟨s, .nil s, h⟩
  | cons b ds ih =>
    obtain ⟨s', hstep, hs'⟩ := h.step (hds b List.mem_cons_self)
    obtain ⟨t, hscan, ht⟩ := ih hs' fun c hc => hds c (List.mem_cons_of_mem _ hc)
    exact ⟨t, .cons hstep hscan, ht⟩

end Holds

/-- The accumulator after the integer part. -/
def integerPart (digits : Digits .decimal) : Accumulator := (⟨0, 0, false⟩ : Accumulator).run digits.bytes

/-- The accumulator after the decimals, which are counted on their own. -/
def decimalPart (digits : Digits .decimal) (fraction : Option (Digits .decimal)) : Accumulator :=
  (⟨(integerPart digits).value, 0, false⟩ : Accumulator).run (fractionBytes fraction)

/-- The greatest or the least mantissa. -/
def saturated (sign : Option Bool) : CCpcpItem :=
  .decimal (if sign = some true then Int64.minValue else Int64.maxValue) 0

/-- What is made of the two parts. -/
def decimalItem (sign : Option Bool) (i f : Accumulator) : CCpcpItem :=
  if (i.isOverflow || f.isOverflow) = true ∧ 2 ^ 32 ∣ f.count then saturated sign
  else .decimal (Int64.ofInt (signed sign f.value)) (Int32.ofInt (-f.count))

theorem holds_integerPart (sign : Option Bool) (digits : Digits .decimal) :
    ∃ t, Scans ReadInt.step (.init 0) (signBytes sign ++ (Radix.decimal.start ++ digits.bytes)) t ∧
      (integerPart digits).Holds (decide (sign = some true)) t := by
  obtain ⟨s, hstart, hs⟩ := scans_start sign .decimal
  obtain ⟨hflag, hval, hcnt⟩ := hs.fits (by decide)
  have hinit : (⟨0, 0, false⟩ : Accumulator).Holds (decide (sign = some true)) s :=
    ⟨hs.base, hs.neg, hval, hcnt, hflag⟩
  obtain ⟨t, hscan, ht⟩ := hinit.run digits.digits
  rw [← List.append_assoc]
  exact ⟨t, hstart.append hscan, ht⟩

/-- Digits without a point are an integer. -/
theorem readsAs_integerItem (sign : Option Bool) (digits : Digits .decimal) (item : CCpcpItem) :
    ReadsAs (NumberLiteral.int sign .decimal digits false).text item ↔
      ¬ 2 ^ 32 ∣ (integerPart digits).count ∧
        .int (if (integerPart digits).isOverflow = true then
            (if sign = some true then Int64.minValue else Int64.maxValue)
          else Int64.ofInt (signed sign (integerPart digits).value)) = item := by
  obtain ⟨t, hscan, ht⟩ := holds_integerPart sign digits
  obtain ⟨b, bs, htext, hb⟩ := numberStart_text sign digits []
  rw [List.append_nil] at htext
  obtain ⟨c, hc, hiff⟩ := readsAs_iff hb bs item
  have hshape : (NumberLiteral.int sign .decimal digits false).text = b :: bs := by
    rw [NumberLiteral.text, if_neg Bool.false_ne_true, List.append_nil]
    exact htext
  rw [hshape, hiff, unpackNumber_iff_end (hc ▸ htext ▸ hscan), ht.count, Ne, ofNat_eq_zero_iff]
  simp only [ReadNumber.item, ReadInt.number, signum_eq ht.neg, ht.isOverflow, Bool.false_eq_true,
    if_false, decide_eq_true_eq, signed_value ht.value ht.value_lt]

theorem readsAs_decimalItem (sign : Option Bool) (digits : Digits .decimal)
    (fraction : Option (Digits .decimal)) (item : CCpcpItem) :
    ReadsAs (NumberLiteral.decimal sign digits fraction).text item ↔
      ¬ 2 ^ 32 ∣ (integerPart digits).count ∧
        decimalItem sign (integerPart digits) (decimalPart digits fraction) = item := by
  obtain ⟨t, hscan, ht⟩ := holds_integerPart sign digits
  have hinit' : (⟨(integerPart digits).value, 0, false⟩ : Accumulator).Holds false (.init t.value) :=
    ⟨rfl, rfl, ht.value, rfl, rfl⟩
  obtain ⟨t', hscan', ht'⟩ := hinit'.run (digits_fractionBytes fraction)
  change (decimalPart digits fraction).Holds _ t' at ht'
  obtain ⟨b, bs, htext, hb⟩ := numberStart_text sign digits (dot :: fractionBytes fraction)
  obtain ⟨c, hc, hiff⟩ := readsAs_iff hb bs item
  have hshape : (NumberLiteral.decimal sign digits fraction).text = b :: bs := htext
  rw [hshape, hiff]
  rw [← htext, ← List.append_assoc Radix.decimal.start, ← List.append_assoc] at hc
  have hstop : t.step dot = .done t := step_of_digit_none ht.base rfl (by decide) (by decide)
  obtain ⟨c', htail, hrest⟩ := unpackNumberTail_dot (r := t.number)
    (c := { c with input := fractionBytes fraction, last := dot }) hscan'
  rw [unpackNumber_iff_tail hscan hc hstop htail hrest]
  have hlt := ht'.value_lt
  have hitem : (t.decimal t').item =
      decimalItem sign (integerPart digits) (decimalPart digits fraction) := by
    simp only [ReadNumber.item, ReadInt.decimal, ReadInt.number, signum_eq ht.neg, if_true,
      ht.isOverflow, ht'.isOverflow, ht'.count, ofNat_eq_zero_iff, decide_eq_true_eq,
      signed_value ht'.value hlt, toInt32_sub_digitCnt, decimalItem, saturated]
  rw [← hitem, ht.count, Ne, ofNat_eq_zero_iff]
  rfl

/-! ## digits that are dropped -/

section Prefixes

variable {v : Nat} {ds : Bytes}

theorem decimalNumber_append (v : Nat) (ds es : Bytes) :
    decimalNumber v (ds ++ es) = decimalNumber (decimalNumber v ds) es := value_append _ v ds es

theorem mul_pow_le_decimalNumber (v : Nat) (ds : Bytes) : v * 10 ^ ds.length ≤ decimalNumber v ds := by
  induction ds generalizing v with
  | nil => exact Nat.le_of_eq (Nat.mul_one v)
  | cons b ds ih =>
    rw [decimalNumber_cons, List.length_cons, Nat.pow_succ', ← Nat.mul_assoc]
    exact Nat.le_trans (Nat.mul_le_mul_right _ (Nat.le_add_right _ _)) (ih _)

theorem decimalNumber_lt (v : Nat) (ds : Bytes) : decimalNumber v ds < (v + 1) * 10 ^ ds.length := by
  induction ds generalizing v with
  | nil => exact Nat.lt_of_lt_of_eq (Nat.lt_succ_self v) (Nat.mul_one _).symm
  | cons b ds ih =>
    have hb := digitValue_le b
    rw [decimalNumber_cons, List.length_cons, Nat.pow_succ', ← Nat.mul_assoc]
    exact Nat.lt_of_lt_of_le (ih _) (Nat.mul_le_mul_right _ (by omega))

/-- More digits make a number ten times as large at least. -/
theorem decimalNumber_take_lt {i j : Nat} (hij : i < j) (hj : j ≤ ds.length) :
    decimalNumber v (ds.take i) * 10 ≤ decimalNumber v (ds.take j) := by
  have hsplit : ds.take j = ds.take i ++ (ds.drop i).take (j - i) := by
    rw [← List.take_add, Nat.add_sub_cancel' (Nat.le_of_lt hij)]
  have hlen : ((ds.drop i).take (j - i)).length = j - i := by
    rw [List.length_take, List.length_drop]
    omega
  rw [hsplit, decimalNumber_append]
  refine Nat.le_trans (Nat.mul_le_mul_left _ ?_) (mul_pow_le_decimalNumber _ _)
  rw [hlen]
  exact Nat.le_self_pow (by omega) 10

theorem fitting_eq_length_iff (hv : v < 2 ^ 63) :
    fitting v ds = ds.length ↔ decimalNumber v ds < 2 ^ 63 := by
  induction ds generalizing v with
  | nil => exact iff_of_true rfl hv
  | cons b ds ih =>
    rw [fitting, decimalNumber_cons]
    split
    · next hb => rw [List.length_cons, Nat.add_right_cancel_iff, ih hb]
    · next hb =>
      have hle := le_decimalNumber (v * 10 + digitValue b) ds
      exact iff_of_false (Nat.succ_ne_zero _).symm (by omega)

theorem fitting_take (v : Nat) (ds : Bytes) (j : Nat) :
    fitting v (ds.take j) = min j (fitting v ds) := by
  induction ds generalizing v j with
  | nil => simp [fitting]
  | cons b ds ih =>
    cases j with
    | zero => simp [fitting]
    | succ j =>
      rw [List.take_succ_cons, fitting, fitting]
      split
      · rw [ih, Nat.succ_min_succ]
      · rw [Nat.min_zero]

/-- The first digits fit as long as they are among those that do. -/
theorem decimalNumber_take_fits_iff (hv : v < 2 ^ 63) {j : Nat} (hj : j ≤ ds.length) :
    decimalNumber v (ds.take j) < 2 ^ 63 ↔ j ≤ fitting v ds := by
  rw [← fitting_eq_length_iff hv, fitting_take, List.length_take_of_le hj]
  omega

theorem not_recovers_of_fits (h : decimalNumber v ds < 2 ^ 63) : ¬ Recovers v ds := by
  rintro ⟨p, b, q, rfl, hroom, hb, -⟩
  have hval := lastRoom_eq
  rw [decimalNumber_append, decimalNumber_cons, hroom] at h
  have hle := le_decimalNumber (lastRoom * 10 + digitValue b) q
  omega

end Prefixes

/-- The number fits `int64_t`. -/
def FitsInt64 (z : Int) : Prop := -2 ^ 63 ≤ z ∧ z < 2 ^ 63

theorem fitsInt64_signed_iff (sign : Option Bool) (n : Nat) :
    FitsInt64 (signed sign n) ↔ n < 2 ^ 63 ∨ sign = some true ∧ n = 2 ^ 63 := by
  rw [FitsInt64, signed]
  by_cases h : sign = some true
  · rw [if_pos h]
    simp only [h, true_and]
    omega
  · rw [if_neg h]
    simp only [h, false_and, or_false]
    omega

theorem signed_inj {sign : Option Bool} {m n : Nat} (h : signed sign m = signed sign n) : m = n := by
  unfold signed at h
  split at h <;> omega

section Literal

variable (sign : Option Bool) (digits : Digits .decimal) (fraction : Option (Digits .decimal))

/-- The number of the integer part. -/
def integerNumber : Nat := decimalNumber 0 digits.bytes

/-- The number of all digits. -/
def wholeNumber : Nat := decimalNumber (integerNumber digits) (fractionBytes fraction)

/-- The number of the digits up to the `j`th decimal. -/
def keptNumber (j : Nat) : Nat :=
  decimalNumber (integerNumber digits) ((fractionBytes fraction).take j)

/-- The rational number of the literal. -/
def literalValue : ℚ := signed sign (wholeNumber digits fraction) / 10 ^ (fractionBytes fraction).length

/-- The literal is read without the decimals behind the `j`th, and so as a number within one unit of
the last place that is kept. -/
def ReadsTruncated : Prop :=
  ∃ j ≤ (fractionBytes fraction).length, ∃ m e,
    ReadsAs (NumberLiteral.decimal sign digits fraction).text (.decimal m e) ∧
      m.toInt = signed sign (keptNumber digits fraction j) ∧ e.toInt = -j ∧
      |literalValue sign digits fraction - decimalValue m e| < 10 ^ e.toInt

/-- An integer part that does not fit saturates, and decimals that do not fit are dropped. -/
def Graceful : Prop :=
  (¬ FitsInt64 (signed sign (integerNumber digits)) →
    ReadsAs (NumberLiteral.decimal sign digits fraction).text (saturated sign)) ∧
  (FitsInt64 (signed sign (integerNumber digits)) →
    ¬ FitsInt64 (signed sign (wholeNumber digits fraction)) →
      ReadsTruncated sign digits fraction)

/-- Without a point, too, digits that do not fit saturate. -/
def SaturatesInteger : Prop :=
  ¬ FitsInt64 (signed sign (integerNumber digits)) →
    ReadsAs (NumberLiteral.int sign .decimal digits false).text
      (.int (if sign = some true then Int64.minValue else Int64.maxValue))

variable {sign digits fraction}

theorem abs_signed_sub_lt {k w p : Nat} (hlo : k * p ≤ w) (hhi : w < (k + 1) * p) (sign : Option Bool) :
    |signed sign w - signed sign k * p| < p := by
  have hcast : (k : Int) * p = (k * p : Nat) := by push_cast; rfl
  rw [Nat.succ_mul] at hhi
  rw [signed, signed, abs_lt]
  split
  · rw [neg_mul, hcast]
    omega
  · rw [hcast]
    omega

/-- What is dropped is less than one unit of the last place that is kept. -/
theorem truncated_close {j : Nat} (hj : j ≤ (fractionBytes fraction).length) {m : Int64} {e : Int32}
    (hm : m.toInt = signed sign (keptNumber digits fraction j)) (he : e.toInt = -j) :
    |literalValue sign digits fraction - decimalValue m e| < 10 ^ e.toInt := by
  have hdrop : ((fractionBytes fraction).drop j).length = (fractionBytes fraction).length - j :=
    List.length_drop
  have hwhole : wholeNumber digits fraction =
      decimalNumber (keptNumber digits fraction j) ((fractionBytes fraction).drop j) := by
    rw [wholeNumber, keptNumber, ← decimalNumber_append, List.take_append_drop]
  have hlo := mul_pow_le_decimalNumber (keptNumber digits fraction j) ((fractionBytes fraction).drop j)
  have hhi := decimalNumber_lt (keptNumber digits fraction j) ((fractionBytes fraction).drop j)
  rw [← hwhole, hdrop] at hlo hhi
  have hint := abs_signed_sub_lt hlo hhi sign
  have hpow : (10 : ℚ) ^ (fractionBytes fraction).length =
      10 ^ j * 10 ^ ((fractionBytes fraction).length - j) := by
    rw [← pow_add, Nat.add_sub_cancel' hj]
  rw [literalValue, decimalValue, hm, he, hpow, zpow_neg, zpow_natCast]
  generalize signed sign (wholeNumber digits fraction) = w at hint ⊢
  generalize signed sign (keptNumber digits fraction j) = k at hint ⊢
  generalize (fractionBytes fraction).length - j = r at hint ⊢
  have hrat : |(w : ℚ) - k * 10 ^ r| < 10 ^ r := by exact_mod_cast hint
  have hj10 : (0 : ℚ) < 10 ^ j := by positivity
  have hr10 : (0 : ℚ) < 10 ^ r := by positivity
  have hdiff : (w : ℚ) / (10 ^ j * 10 ^ r) - k * (10 ^ j)⁻¹ =
      (w - k * 10 ^ r) / 10 ^ r * (10 ^ j)⁻¹ := by
    field_simp
  rw [hdiff, abs_mul, abs_div, abs_of_pos hr10, abs_of_pos (inv_pos.mpr hj10)]
  calc |(w : ℚ) - k * 10 ^ r| / 10 ^ r * (10 ^ j)⁻¹
      < 1 * (10 ^ j)⁻¹ := by
        exact mul_lt_mul_of_pos_right ((div_lt_one hr10).mpr hrat) (inv_pos.mpr hj10)
    _ = (10 ^ j)⁻¹ := one_mul _

/-! ## the two parts -/

/-- The count of the digits that are added does not come back to zero. -/
def Counted (digits : Digits .decimal) : Prop :=
  (Recovers 0 digits.bytes → ¬ 2 ^ 32 ∣ fitting 0 digits.bytes + 1) ∧
    (¬ Recovers 0 digits.bytes → ¬ 2 ^ 32 ∣ fitting 0 digits.bytes)

/-- The integer part leaves room for a digit up to seven, and there is one behind the point. -/
def RecoversBehind (digits : Digits .decimal) (fraction : Option (Digits .decimal)) : Prop :=
  decimalNumber 0 (digits.bytes.take (fitting 0 digits.bytes)) = lastRoom ∧
    ¬ Recovers 0 digits.bytes ∧ ∃ c ∈ fractionBytes fraction, digitValue c ≤ 7

theorem integerPart_of_fits (h : integerNumber digits < 2 ^ 63) :
    integerPart digits = ⟨integerNumber digits, digits.bytes.length, false⟩ := by
  have hrun := Accumulator.run_of_fitting (a := ⟨0, 0, false⟩)
    ((fitting_eq_length_iff (by decide)).mpr h)
  rw [Nat.zero_add] at hrun
  exact hrun

theorem counted_iff : ¬ 2 ^ 32 ∣ (integerPart digits).count ↔ Counted digits := by
  by_cases h : fitting 0 digits.bytes = digits.bytes.length
  · have hfits : integerNumber digits < 2 ^ 63 := (fitting_eq_length_iff (by decide)).mp h
    have hres := not_recovers_of_fits hfits
    rw [integerPart_of_fits hfits, Counted, h]
    exact ⟨fun hc => ⟨fun hr => absurd hr hres, fun _ => hc⟩, fun hc => hc.2 hres⟩
  · obtain ⟨-, hyes, hno⟩ := Accumulator.run_of_over (a := ⟨0, 0, false⟩) h
    rw [Counted]
    by_cases hres : Recovers 0 digits.bytes
    · have hcnt := (hyes hres).2.2.2
      change (integerPart digits).count = 0 + _ at hcnt
      rw [hcnt, Nat.zero_add]
      exact ⟨fun hc => ⟨fun _ => hc, fun hr => absurd hres hr⟩, fun hc => hc.1 hres⟩
    · have hcnt := (hno hres).2
      change (integerPart digits).count = 0 + _ at hcnt
      rw [hcnt, Nat.zero_add]
      exact ⟨fun hc => ⟨fun hr => absurd hr hres, fun _ => hc⟩, fun hc => hc.2 hres⟩

/-- Behind an integer part that does not fit, one digit is added at most. -/
theorem decimalPart_of_over (fraction : Option (Digits .decimal))
    (h : ¬ integerNumber digits < 2 ^ 63) :
    (integerPart digits).isOverflow = true ∧
      (¬ RecoversBehind digits fraction → (decimalPart digits fraction).count = 0) ∧
      (RecoversBehind digits fraction → (decimalPart digits fraction).count = 1 ∧
        (decimalPart digits fraction).value < 2 ^ 63) := by
  have hlen : fitting 0 digits.bytes ≠ digits.bytes.length :=
    fun he => h ((fitting_eq_length_iff (by decide)).mp he)
  have hval := lastRoom_eq
  obtain ⟨hover, hyes, hno⟩ := Accumulator.run_of_over (a := ⟨0, 0, false⟩) hlen
  refine ⟨hover, ?_⟩
  by_cases hres : Recovers 0 digits.bytes
  · obtain ⟨hlo, -⟩ := hyes hres
    change lastRoom * 10 ≤ (integerPart digits).value at hlo
    have hfull := (Accumulator.run_of_full (fractionBytes fraction)
      (a := ⟨(integerPart digits).value, 0, false⟩) (by dsimp only; omega)).2.1
    exact ⟨fun _ => hfull, fun hb => absurd hres hb.2.1⟩
  · have hvalue := (hno hres).1
    change (integerPart digits).value = decimalNumber 0 _ at hvalue
    obtain ⟨-, hnext⟩ := decimalNumber_take_fitting digits.bytes (v := 0) (by decide)
    obtain ⟨b, -, hb⟩ := hnext.resolve_left hlen
    rw [← hvalue] at hb
    by_cases hroom : (integerPart digits).value = lastRoom
    · by_cases hseven : ∃ c ∈ fractionBytes fraction, digitValue c ≤ 7
      · obtain ⟨-, hhi, hcnt⟩ := Accumulator.run_lastRoom
          (a := ⟨(integerPart digits).value, 0, false⟩) hroom hseven
        refine ⟨fun hn => absurd ⟨hvalue ▸ hroom, hres, hseven⟩ hn, fun _ => ⟨hcnt, ?_⟩⟩
        change (decimalPart digits fraction).value < lastRoom * 10 + 8 at hhi
        omega
      · have hnone := (Accumulator.run_of_no_room (fractionBytes fraction)
          (a := ⟨(integerPart digits).value, 0, false⟩) (by
            intro c hc
            have hle : ¬ digitValue c ≤ 7 := fun hle => hseven ⟨c, hc, hle⟩
            dsimp only
            omega)).2.1
        exact ⟨fun _ => hnone, fun hb => absurd hb.2.2 hseven⟩
    · have hbig : 2 ^ 63 ≤ (integerPart digits).value * 10 :=
        (no_room_cases hb).resolve_right fun hr => hroom hr.1
      have hfull := (Accumulator.run_of_full (fractionBytes fraction)
        (a := ⟨(integerPart digits).value, 0, false⟩) hbig).2.1
      exact ⟨fun _ => hfull, fun hb => absurd (hvalue.trans hb.1) hroom⟩

/-- The item is the literal without the decimals behind the `j`th, for some `j`. -/
def IsTruncated (sign : Option Bool) (digits : Digits .decimal) (fraction : Option (Digits .decimal))
    (item : CCpcpItem) : Prop :=
  ∃ j ≤ (fractionBytes fraction).length, ∃ m e, item = .decimal m e ∧
    m.toInt = signed sign (keptNumber digits fraction j) ∧ e.toInt = -j

theorem readsTruncated_iff : ReadsTruncated sign digits fraction ↔ Counted digits ∧
    IsTruncated sign digits fraction
      (decimalItem sign (integerPart digits) (decimalPart digits fraction)) := by
  simp only [ReadsTruncated, readsAs_decimalItem, counted_iff]
  constructor
  · rintro ⟨j, hj, m, e, ⟨hc, hitem⟩, hm, he, -⟩
    exact ⟨hc, j, hj, m, e, hitem, hm, he⟩
  · rintro ⟨hc, j, hj, m, e, hitem, hm, he⟩
    exact ⟨j, hj, m, e, ⟨hc, hitem⟩, hm, he, truncated_close hj hm he⟩

/-- The number of digits whose decimals start where `int64_t` ends. -/
theorem toInt_ofInt_signed {n : Nat} (h : n < 2 ^ 63) (sign : Option Bool) :
    (Int64.ofInt (signed sign n)).toInt = signed sign n := by
  have hfits := (fitsInt64_signed_iff sign n).mpr (.inl h)
  exact Int64.toInt_ofInt_of_le hfits.1 hfits.2

/-- What a saturated mantissa is the signed number of. -/
theorem saturated_eq_iff {m : Int64} {e : Int32} {n : Nat} :
    (saturated sign = .decimal m e ∧ m.toInt = signed sign n) ↔
      e = 0 ∧ m = (if sign = some true then Int64.minValue else Int64.maxValue) ∧
        n = if sign = some true then 2 ^ 63 else 2 ^ 63 - 1 := by
  have hmin : Int64.minValue.toInt = -2 ^ 63 := rfl
  have hmax : Int64.maxValue.toInt = 2 ^ 63 - 1 := rfl
  rw [saturated, CCpcpItem.decimal.injEq, signed]
  by_cases hs : sign = some true
  · simp only [hs, if_true]
    constructor
    · rintro ⟨⟨rfl, rfl⟩, hm⟩
      exact ⟨rfl, rfl, by omega⟩
    · rintro ⟨rfl, rfl, rfl⟩
      exact ⟨⟨rfl, rfl⟩, by omega⟩
  · simp only [hs, if_false]
    constructor
    · rintro ⟨⟨rfl, rfl⟩, hm⟩
      exact ⟨rfl, rfl, by omega⟩
    · rintro ⟨rfl, rfl, rfl⟩
      exact ⟨⟨rfl, rfl⟩, by omega⟩

/-- A saturated mantissa is what is left of the literal if it is the one of its integer part. -/
theorem isTruncated_saturated :
    IsTruncated sign digits fraction (saturated sign) ↔
      integerNumber digits = if sign = some true then 2 ^ 63 else 2 ^ 63 - 1 := by
  constructor
  · rintro ⟨j, -, m, e, hsat, hm, he⟩
    obtain ⟨rfl, -, hn⟩ := saturated_eq_iff.mp ⟨hsat, hm⟩
    have hzero : j = 0 := by
      change (0 : Int) = -j at he
      omega
    rw [hzero] at hn
    exact hn
  · intro hn
    obtain ⟨hsat, hm⟩ := saturated_eq_iff.mpr ⟨rfl, rfl, hn⟩
    exact ⟨0, Nat.zero_le _, _, _, hsat, hm, rfl⟩

theorem isTruncated_decimal {v : Nat} (hv : v < 2 ^ 63) (e : Int32) :
    IsTruncated sign digits fraction (.decimal (Int64.ofInt (signed sign v)) e) ↔
      ∃ j ≤ (fractionBytes fraction).length, keptNumber digits fraction j = v ∧ e.toInt = -j := by
  constructor
  · rintro ⟨j, hj, m, e', hitem, hm, he⟩
    injection hitem with hmant hexp
    rw [← hmant, toInt_ofInt_signed hv] at hm
    exact ⟨j, hj, (signed_inj hm).symm, hexp ▸ he⟩
  · rintro ⟨j, hj, hkept, he⟩
    exact ⟨j, hj, _, _, rfl, by rw [toInt_ofInt_signed hv, hkept], he⟩

theorem decimalPart_of_fits (hN : integerNumber digits < 2 ^ 63) :
    decimalPart digits fraction =
      (⟨integerNumber digits, 0, false⟩ : Accumulator).run (fractionBytes fraction) := by
  rw [decimalPart, integerPart_of_fits hN]

section Fits

variable (hN : integerNumber digits < 2 ^ 63) (hW : ¬ wholeNumber digits fraction < 2 ^ 63)

include hN hW

theorem fitting_ne_length :
    fitting (integerNumber digits) (fractionBytes fraction) ≠ (fractionBytes fraction).length :=
  mt (fitting_eq_length_iff hN).mp hW

/-- The digits that fit make the greatest number that does, with the next one left out. -/
theorem keptNumber_fitting :
    keptNumber digits fraction (fitting (integerNumber digits) (fractionBytes fraction)) < 2 ^ 63 ∧
      2 ^ 63 ≤
        keptNumber digits fraction (fitting (integerNumber digits) (fractionBytes fraction)) * 10 + 9 := by
  obtain ⟨hlt, hnext⟩ := decimalNumber_take_fitting (fractionBytes fraction) hN
  obtain ⟨b, -, hb⟩ := hnext.resolve_left (fitting_ne_length hN hW)
  have hnine := digitValue_le b
  rw [keptNumber]
  exact ⟨hlt, by omega⟩

/-- Fewer digits make a smaller number. -/
theorem eq_fitting_of_keptNumber_eq {j : Nat} (hj : j ≤ (fractionBytes fraction).length)
    (h : keptNumber digits fraction j =
      keptNumber digits fraction (fitting (integerNumber digits) (fractionBytes fraction))) :
    j = fitting (integerNumber digits) (fractionBytes fraction) := by
  obtain ⟨hlt, hnext⟩ := keptNumber_fitting hN hW
  have hfits : keptNumber digits fraction j < 2 ^ 63 := h ▸ hlt
  have hle := (decimalNumber_take_fits_iff hN hj).mp hfits
  rcases Nat.lt_or_eq_of_le hle with hless | heq
  · have hten : keptNumber digits fraction j * 10 ≤ keptNumber digits fraction _ :=
      decimalNumber_take_lt hless (fitting_le _ _)
    omega
  · exact heq

/-- A digit that is added too late is in no place of the literal. -/
theorem not_isTruncated_of_recovers
    (hres : Recovers (integerNumber digits) (fractionBytes fraction)) :
    ¬ IsTruncated sign digits fraction
      (decimalItem sign (integerPart digits) (decimalPart digits fraction)) := by
  have hval := lastRoom_eq
  obtain ⟨-, hyes, -⟩ := Accumulator.run_of_over (a := ⟨integerNumber digits, 0, false⟩)
    (fitting_ne_length hN hW)
  obtain ⟨hlo, hhi, hroom, -⟩ := hyes hres
  rw [← decimalPart_of_fits hN] at hlo hhi
  rw [decimalItem]
  split
  · have hsmall : integerNumber digits ≤ lastRoom := hroom ▸ le_decimalNumber _ _
    rw [isTruncated_saturated]
    split <;> omega
  · rw [isTruncated_decimal hhi]
    rintro ⟨j, hj, hkept, -⟩
    have hfits : keptNumber digits fraction j < 2 ^ 63 := hkept ▸ hhi
    have hle := (decimalNumber_take_fits_iff hN hj).mp hfits
    have hlast : keptNumber digits fraction
        (fitting (integerNumber digits) (fractionBytes fraction)) = lastRoom := hroom
    rcases Nat.lt_or_eq_of_le hle with hlt | rfl
    · have hten : keptNumber digits fraction j * 10 ≤ keptNumber digits fraction _ :=
        decimalNumber_take_lt hlt (fitting_le _ _)
      omega
    · omega

/-- Decimals that are dropped: they must leave one that is kept, or a number that saturates as
what it is. -/
theorem truncated_iff_of_fits :
    IsTruncated sign digits fraction
      (decimalItem sign (integerPart digits) (decimalPart digits fraction)) ↔
    integerNumber digits = 2 ^ 63 - 1 ∧ sign ≠ some true ∨
      ¬ Recovers (integerNumber digits) (fractionBytes fraction) ∧
        1 ≤ fitting (integerNumber digits) (fractionBytes fraction) ∧
        fitting (integerNumber digits) (fractionBytes fraction) ≤ 2 ^ 31 := by
  by_cases hres : Recovers (integerNumber digits) (fractionBytes fraction)
  · refine iff_of_false (not_isTruncated_of_recovers hN hW hres) ?_
    rintro (⟨hmax, -⟩ | ⟨hno, -⟩)
    · obtain ⟨p, b, q, hds, hroom, -⟩ := hres
      have hle := le_decimalNumber (integerNumber digits) p
      have hval := lastRoom_eq
      omega
    · exact hno hres
  · obtain ⟨hover, -, hno⟩ := Accumulator.run_of_over (a := ⟨integerNumber digits, 0, false⟩)
      (fitting_ne_length hN hW)
    obtain ⟨hvalue, hcount⟩ := hno hres
    rw [← decimalPart_of_fits hN] at hover hvalue hcount
    rw [Nat.zero_add] at hcount
    change _ = keptNumber digits fraction _ at hvalue
    obtain ⟨hkept, -⟩ := keptNumber_fitting hN hW
    have hle := fitting_le (integerNumber digits) (fractionBytes fraction)
    have huniq := @eq_fitting_of_keptNumber_eq digits fraction hN hW
    -- the greatest integer part has no room for a decimal
    have hmax : integerNumber digits = 2 ^ 63 - 1 →
        fitting (integerNumber digits) (fractionBytes fraction) = 0 := by
      intro hmax
      by_contra hpos
      have hten : integerNumber digits * 10 ≤ keptNumber digits fraction _ :=
        decimalNumber_take_lt (Nat.pos_of_ne_zero hpos) hle
      omega
    rw [and_iff_right hres, decimalItem, hover, Bool.or_true, hcount, hvalue]
    generalize fitting (integerNumber digits) (fractionBytes fraction) = jf at *
    by_cases hdvd : 2 ^ 32 ∣ jf
    · have hsmall : ¬ (1 ≤ jf ∧ jf ≤ 2 ^ 31) := by
        rintro ⟨hlo, hhi⟩
        have := Nat.le_of_dvd hlo hdvd
        omega
      rw [if_pos ⟨rfl, hdvd⟩, isTruncated_saturated, or_iff_left hsmall]
      split
      · next hs => exact iff_of_false (by omega) fun h => h.2 hs
      · next hs => rw [and_iff_left hs]
    · have hpos : 1 ≤ jf := Nat.pos_of_ne_zero fun h => hdvd (h ▸ Nat.dvd_zero _)
      have hne : ¬ (integerNumber digits = 2 ^ 63 - 1 ∧ sign ≠ some true) :=
        fun h => Nat.ne_of_gt hpos (hmax h.1)
      rw [if_neg fun h => hdvd h.2, isTruncated_decimal hkept, or_iff_right hne, and_iff_right hpos]
      constructor
      · rintro ⟨j, hj, heq, he⟩
        have hlo := (Int32.ofInt (-jf)).le_toInt
        have hjf := huniq hj heq
        omega
      · exact fun hhi => ⟨jf, hle, rfl, Int32.toInt_ofInt_of_le (by omega) (by omega)⟩

end Fits

/-- Behind an integer part that does not fit, saturation is reported if no decimal is added. -/
theorem decimalItem_of_over (sign : Option Bool) (fraction : Option (Digits .decimal))
    (h : ¬ integerNumber digits < 2 ^ 63) :
    (¬ RecoversBehind digits fraction →
      decimalItem sign (integerPart digits) (decimalPart digits fraction) = saturated sign) ∧
    (RecoversBehind digits fraction → ∃ m,
      decimalItem sign (integerPart digits) (decimalPart digits fraction) = .decimal m (-1) ∧
        ∀ n, m.toInt = signed sign n → n < 2 ^ 63) := by
  obtain ⟨hover, hno, hyes⟩ := decimalPart_of_over fraction h
  refine ⟨fun hb => ?_, fun hb => ?_⟩
  · rw [decimalItem, hover, Bool.true_or, hno hb, if_pos ⟨rfl, Nat.dvd_zero _⟩]
  · obtain ⟨hcount, hlt⟩ := hyes hb
    refine ⟨Int64.ofInt (signed sign (decimalPart digits fraction).value), ?_, fun n hn => ?_⟩
    · rw [decimalItem, hcount, if_neg fun hc => absurd hc.2 (by decide)]
      rfl
    · rw [toInt_ofInt_signed hlt] at hn
      exact signed_inj hn ▸ hlt

theorem integerNumber_le : integerNumber digits ≤ wholeNumber digits fraction :=
  le_decimalNumber (integerNumber digits) (fractionBytes fraction)

/-- When a literal is read as it should: its digits fit; or all of it is counted and

* its integer part is the greatest number, or no digit is added after one that was not, and there
  are decimals that fit, 2^31 of them at most,
* or its integer part does not fit, and no decimal is added to what is kept of it. -/
def GracefulWhen (sign : Option Bool) (digits : Digits .decimal)
    (fraction : Option (Digits .decimal)) : Prop :=
  FitsInt64 (signed sign (wholeNumber digits fraction)) ∨
    Counted digits ∧
      (integerNumber digits < 2 ^ 63 →
        integerNumber digits = 2 ^ 63 - 1 ∧ sign ≠ some true ∨
          ¬ Recovers (integerNumber digits) (fractionBytes fraction) ∧
            1 ≤ fitting (integerNumber digits) (fractionBytes fraction) ∧
            fitting (integerNumber digits) (fractionBytes fraction) ≤ 2 ^ 31) ∧
      (¬ integerNumber digits < 2 ^ 63 → ¬ RecoversBehind digits fraction)

theorem graceful_of_fits (hN : integerNumber digits < 2 ^ 63)
    (hW : ¬ FitsInt64 (signed sign (wholeNumber digits fraction))) :
    Graceful sign digits fraction ↔ ReadsTruncated sign digits fraction := by
  have hfits := (fitsInt64_signed_iff sign _).mpr (.inl hN)
  exact ⟨fun h => h.2 hfits hW, fun h => ⟨fun hn => absurd hfits hn, fun _ _ => h⟩⟩

theorem graceful_of_over (hN : ¬ integerNumber digits < 2 ^ 63)
    (hW : ¬ FitsInt64 (signed sign (wholeNumber digits fraction))) :
    Graceful sign digits fraction ↔ Counted digits ∧ ¬ RecoversBehind digits fraction := by
  obtain ⟨hsat, hadded⟩ := decimalItem_of_over sign fraction hN
  by_cases hfits : FitsInt64 (signed sign (integerNumber digits))
  · obtain ⟨hs, hleast⟩ := ((fitsInt64_signed_iff sign _).mp hfits).resolve_left hN
    have hgraceful : Graceful sign digits fraction ↔ ReadsTruncated sign digits fraction :=
      ⟨fun h => h.2 hfits hW, fun h => ⟨fun hn => absurd hfits hn, fun _ _ => h⟩⟩
    rw [hgraceful, readsTruncated_iff]
    refine and_congr_right fun _ => ⟨?_, fun hb => ?_⟩
    · rintro ⟨j, hj, m, e, hitem, hm, -⟩ hb
      obtain ⟨m', hitem', hlt⟩ := hadded hb
      rw [hitem', CCpcpItem.decimal.injEq] at hitem
      obtain ⟨rfl, -⟩ := hitem
      have hle : integerNumber digits ≤ keptNumber digits fraction j := le_decimalNumber _ _
      have hkept := hlt _ hm
      omega
    · rw [hsat hb, isTruncated_saturated, if_pos hs]
      exact hleast
  · have hgraceful : Graceful sign digits fraction ↔
        ReadsAs (NumberLiteral.decimal sign digits fraction).text (saturated sign) :=
      ⟨fun h => h.1 hfits, fun h => ⟨fun _ => h, fun hn => absurd hn hfits⟩⟩
    rw [hgraceful, readsAs_decimalItem, counted_iff]
    refine and_congr_right fun _ => ⟨fun hitem hb => ?_, hsat⟩
    obtain ⟨m, hitem', -⟩ := hadded hb
    rw [hitem', saturated] at hitem
    injection hitem with _ hexp
    exact absurd hexp (by decide)

theorem graceful_decimal_iff (sign : Option Bool) (digits : Digits .decimal)
    (fraction : Option (Digits .decimal)) :
    Graceful sign digits fraction ↔ GracefulWhen sign digits fraction := by
  by_cases hW : FitsInt64 (signed sign (wholeNumber digits fraction))
  · refine iff_of_true ⟨fun hn => absurd ?_ hn, fun _ hn => absurd hW hn⟩ (.inl hW)
    have hle := @integerNumber_le digits fraction
    rw [fitsInt64_signed_iff] at hW ⊢
    rcases hW with hlt | ⟨hs, heq⟩
    · exact .inl (by omega)
    · by_cases hlt : integerNumber digits < 2 ^ 63
      · exact .inl hlt
      · exact .inr ⟨hs, by omega⟩
  · rw [GracefulWhen, or_iff_right hW]
    by_cases hN : integerNumber digits < 2 ^ 63
    · have hover : ¬ wholeNumber digits fraction < 2 ^ 63 :=
        fun h => hW ((fitsInt64_signed_iff sign _).mpr (.inl h))
      rw [graceful_of_fits hN hW, readsTruncated_iff, truncated_iff_of_fits hN hover]
      exact and_congr_right fun _ => ⟨fun h => ⟨fun _ => h, fun hn => absurd hN hn⟩, fun h => h.1 hN⟩
    · rw [graceful_of_over hN hW]
      exact and_congr_right fun _ => ⟨fun h => ⟨fun hn => absurd hn hN, fun _ => h⟩, fun h => h.2 hN⟩

theorem saturatesInteger_iff (sign : Option Bool) (digits : Digits .decimal) :
    SaturatesInteger sign digits ↔ FitsInt64 (signed sign (integerNumber digits)) ∨ Counted digits := by
  by_cases hfits : FitsInt64 (signed sign (integerNumber digits))
  · exact iff_of_true (fun hn => absurd hfits hn) (.inl hfits)
  · have hN : ¬ integerNumber digits < 2 ^ 63 :=
      fun h => hfits ((fitsInt64_signed_iff sign _).mpr (.inl h))
    have hover := (decimalPart_of_over none hN).1
    rw [or_iff_right hfits, SaturatesInteger, readsAs_integerItem, counted_iff, if_pos hover]
    exact ⟨fun h => (h hfits).1, fun h _ => ⟨h, rfl⟩⟩

/-- Which overlong numbers degrade gracefully. -/
theorem graceful_iff (sign : Option Bool) (digits : Digits .decimal)
    (fraction : Option (Digits .decimal)) :
    (Graceful sign digits fraction ↔ GracefulWhen sign digits fraction) ∧
      (SaturatesInteger sign digits ↔
        FitsInt64 (signed sign (integerNumber digits)) ∨ Counted digits) :=
  ⟨graceful_decimal_iff sign digits fraction, saturatesInteger_iff sign digits⟩

end Literal

/-- One decimal behind an integer part that fits, but leaves no room for it: the number is read as
INT64_MAX. -/
theorem not_graceful :
    ¬ Graceful none (digitsOf 1234567890123456789) (some (digitsOf 5)) := by
  have hN : integerNumber (digitsOf 1234567890123456789) = 1234567890123456789 := value_digitsOf _
  have hF : fractionBytes (some (digitsOf 5)) = [0x35] := by decide
  have hlt : integerNumber (digitsOf 1234567890123456789) < 2 ^ 63 := by
    rw [hN]
    decide
  have hover : ¬ wholeNumber (digitsOf 1234567890123456789) (some (digitsOf 5)) < 2 ^ 63 := by
    rw [wholeNumber, hN, hF]
    decide
  have hW : ¬ FitsInt64
      (signed none (wholeNumber (digitsOf 1234567890123456789) (some (digitsOf 5)))) := by
    rw [fitsInt64_signed_iff]
    rintro (h | ⟨h, -⟩)
    · exact hover h
    · cases h
  rw [graceful_of_fits hlt hW, readsTruncated_iff, truncated_iff_of_fits hlt hover, hN, hF]
  rintro ⟨-, ⟨h, -⟩ | ⟨-, h, -⟩⟩
  · exact absurd h (by decide)
  · exact absurd h (by decide)

end LibShv.CCpon
