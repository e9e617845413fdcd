import LibShv.RpcValue.Compare

/-!
# LibShv.RpcValue.Decimals

The normal form of a decimal, and when two of them are compared without doubles.
-/

namespace LibShv.RpcDecimal

theorem mod_ten_eq_zero_iff (m : Int64) : m % 10 = 0 ↔ (10 : Int) ∣ m.toInt := by
  rw [← Int64.toInt_inj, Int64.toInt_mod]
  exact Int.dvd_iff_tmod_eq_zero.symm

theorem toInt_div_ten {m : Int64} (h : (10 : Int) ∣ m.toInt) :
    (m / 10).toInt * 10 = m.toInt := by
  rw [Int64.toInt_div_of_ne_right _ _ (by decide)]
  exact Int.tdiv_mul_cancel h

/-- The zeros that are dropped go to the exponent. -/
theorem dropZeros_spec (n : Nat) (m : Int64) (e : Int32) :
    ∃ k ≤ n, m.toInt = (dropZeros n m e).mantissa.toInt * 10 ^ k ∧
      (dropZeros n m e).exponent = e + Int32.ofNat k := by
  induction n generalizing m e with
  | zero => exact ⟨0, Nat.le_refl 0, by simp [dropZeros], by simp [dropZeros]⟩
  | succ n ih =>
    rw [dropZeros]
    by_cases h : m ≠ 0 ∧ m % 10 = 0
    · rw [if_pos h]
      obtain ⟨k, hk, hm, he⟩ := ih (m / 10) (e + 1)
      have hten := toInt_div_ten ((mod_ten_eq_zero_iff m).mp h.2)
      refine ⟨k + 1, Nat.succ_le_succ hk, ?_, ?_⟩
      · rw [← hten, hm, Int.pow_succ, Int.mul_assoc]
      · rw [he, Int32.ofNat_add, Int32.add_assoc, Int32.add_comm (Int32.ofNat k)]
        rfl
    · rw [if_neg h]
      exact ⟨0, Nat.zero_le _, by simp, by simp⟩

/-- Enough rounds leave no zero at the end. -/
theorem not_dvd_dropZeros {n : Nat} {m : Int64} (hm : m.toInt ≠ 0) (hn : m.toInt.natAbs < 10 ^ n)
    (e : Int32) : ¬ (10 : Int) ∣ (dropZeros n m e).mantissa.toInt := by
  induction n generalizing m e with
  | zero => omega
  | succ n ih =>
    rw [dropZeros]
    by_cases h : m ≠ 0 ∧ m % 10 = 0
    · rw [if_pos h]
      have hten := toInt_div_ten ((mod_ten_eq_zero_iff m).mp h.2)
      rw [Nat.pow_succ] at hn
      exact ih (by omega) (by omega) _
    · rw [if_neg h, ← mod_ten_eq_zero_iff]
      exact fun hzero => h ⟨fun he => hm (by rw [he]; rfl), hzero⟩

variable (d : RpcDecimal)

/-- The normal form: the same number, with no zero at the end of its mantissa. The zeros may
carry the exponent past the greatest integer. -/
theorem normalize_spec :
    ∃ k ≤ 19, d.mantissa.toInt = d.normalize.mantissa.toInt * 10 ^ k ∧
      (d.mantissa ≠ 0 → d.normalize.exponent = d.exponent + Int32.ofNat k) := by
  unfold normalize
  by_cases h : d.mantissa = 0
  · rw [if_pos h, h]
    exact ⟨0, by decide, rfl, fun hne => absurd rfl hne⟩
  · rw [if_neg h]
    obtain ⟨k, hk, hm, he⟩ := dropZeros_spec 19 d.mantissa d.exponent
    exact ⟨k, hk, hm, fun _ => he⟩

theorem normalize_of_zero (h : d.mantissa = 0) : d.normalize = ⟨0, 0⟩ := by
  rw [normalize, if_pos h]

theorem not_dvd_normalize (h : d.mantissa ≠ 0) : ¬ (10 : Int) ∣ d.normalize.mantissa.toInt := by
  have hlo := d.mantissa.le_toInt
  have hhi := d.mantissa.toInt_lt
  have hne : d.mantissa.toInt ≠ 0 := fun he => h (Int64.toInt_inj.mp he)
  rw [normalize, if_neg h]
  exact not_dvd_dropZeros hne (by omega) _

/-- Only zero has a mantissa that ends with a zero, and its exponent is zero. -/
theorem normalize_cases :
    d.normalize = ⟨0, 0⟩ ∨ ¬ (10 : Int) ∣ d.normalize.mantissa.toInt := by
  by_cases h : d.mantissa = 0
  · exact .inl (d.normalize_of_zero h)
  · exact .inr (d.not_dvd_normalize h)

/-! ## scaling -/

/-- The mantissa of the higher exponent, scaled to the lower one, if the power is known and the
product fits. -/
def scaled? (a b : RpcDecimal) : Option Int64 :=
  let to_scale := if b.exponent < a.exponent then a else b
  let diff := a.exponent - b.exponent
  let exponent_diff := if diff < 0 then -diff else diff
  (pow10 exponent_diff.toUInt32).bind (safeMul to_scale.mantissa)

/-- Two normal forms are compared by their mantissas. -/
def Direct (x y : RpcDecimal) : Prop :=
  x.normalize.exponent = y.normalize.exponent ∨ (scaled? x.normalize y.normalize).isSome

theorem pow10_spec {n : UInt32} {p : Int64} (h : pow10 n = some p) :
    n.toNat ≤ 8 ∧ p.toInt = 10 ^ n.toNat := by
  rw [pow10] at h
  split at h
  · next hle =>
    injection h with h
    have hn : n.toNat ≤ 8 := UInt32.le_iff_toNat_le.mp hle
    have hpow : (10 : Int) ^ n.toNat ≤ 10 ^ 8 := pow_le_pow_right₀ (by decide) hn
    have hpos : (0 : Int) < 10 ^ n.toNat := by positivity
    rw [← h, Int64.toInt_ofInt_of_le (by omega) (by omega)]
    exact ⟨hn, rfl⟩
  · cases h

theorem safeMul_spec {a b r : Int64} (h : safeMul a b = some r) : r.toInt = a.toInt * b.toInt := by
  rw [safeMul] at h
  split at h
  · next hle =>
    injection h with h
    rw [← h, Int64.toInt_ofInt_of_le hle.1 hle.2]
  · cases h

/-- The distance of two exponents, as far as the source computes it. -/
def exponentDiff (a b : RpcDecimal) : UInt32 :=
  (if a.exponent - b.exponent < 0 then -(a.exponent - b.exponent)
    else a.exponent - b.exponent).toUInt32

theorem scaled?_spec {a b : RpcDecimal} {m : Int64} (h : scaled? a b = some m) :
    (exponentDiff a b).toNat ≤ 8 ∧
      m.toInt = (if b.exponent < a.exponent then a else b).mantissa.toInt *
        10 ^ (exponentDiff a b).toNat := by
  obtain ⟨p, hp, hmul⟩ := Option.bind_eq_some_iff.mp h
  obtain ⟨hle, hval⟩ := pow10_spec hp
  exact ⟨hle, by rw [safeMul_spec hmul, hval]; rfl⟩

theorem exponentDiff_ne_zero {a b : RpcDecimal} (h : a.exponent ≠ b.exponent) :
    (exponentDiff a b).toNat ≠ 0 := by
  intro hzero
  have hdiff : exponentDiff a b = 0 := UInt32.toNat_inj.mp hzero
  unfold exponentDiff at hdiff
  have hz : ∀ x : Int32, x.toUInt32 = 0 → x = 0 := by
    intro x hx
    apply Int32.toBitVec_inj.mp
    exact congrArg UInt32.toBitVec hx
  have hsub : a.exponent - b.exponent = 0 := by
    split at hdiff
    · have := hz _ hdiff
      rw [← @Int32.neg_neg (a.exponent - b.exponent), this]
      rfl
    · exact hz _ hdiff
  exact h (by rw [← Int32.sub_add_cancel a.exponent b.exponent, hsub, Int32.zero_add])

theorem exponentDiff_comm (a b : RpcDecimal) : exponentDiff a b = exponentDiff b a := by
  have hneg : b.exponent - a.exponent = -(a.exponent - b.exponent) := by rw [Int32.neg_sub]
  unfold exponentDiff
  rw [hneg]
  generalize a.exponent - b.exponent = x
  by_cases hmin : x = Int32.minValue
  · rw [hmin]
    rfl
  · by_cases hx : x = 0
    · rw [hx]
      rfl
    · have hlo := x.le_toInt
      have hhi := x.toInt_lt
      have hne : x.toInt ≠ 0 := fun h => hx (Int32.toInt_inj.mp h)
      have hne' : x.toInt ≠ -2 ^ 31 := fun h => hmin (Int32.toInt_inj.mp h)
      have hval : (-x).toInt = -x.toInt := by
        rw [Int32.toInt_neg, Int.bmod_eq_of_le (by omega) (by omega)]
      have hlt : x < 0 ↔ x.toInt < 0 := Int32.lt_iff_toInt_lt
      have hlt' : -x < 0 ↔ 0 < x.toInt := by
        rw [Int32.lt_iff_toInt_lt, hval]
        change -x.toInt < 0 ↔ _
        omega
      simp only [hlt, hlt', Int32.neg_neg]
      split_ifs <;> first | rfl | omega

theorem scaled?_comm {a b : RpcDecimal} (h : a.exponent ≠ b.exponent) :
    scaled? a b = scaled? b a := by
  change (pow10 (exponentDiff a b)).bind _ = (pow10 (exponentDiff b a)).bind _
  rw [exponentDiff_comm]
  rcases Int32.lt_or_lt_of_ne h with hlt | hlt
  · rw [if_neg (Int32.lt_asymm hlt), if_pos hlt]
  · rw [if_neg (Int32.lt_asymm hlt), if_pos hlt]

/-! ## equality -/

/-- The doubles of the two numbers are neither below nor above one another. -/
def sameDouble (a b : RpcDecimal) : Bool :=
  !(decide (a.toDouble < b.toDouble) || decide (b.toDouble < a.toDouble))

theorem sameDouble_comm (a b : RpcDecimal) : sameDouble a b = sameDouble b a := by
  rw [sameDouble, Bool.or_comm, ← sameDouble]

/-- The comparison of two normal forms of different exponents. -/
def eqScaled (a b : RpcDecimal) : Option Int64 → Bool
  | some m => if b.exponent < a.exponent then m == b.mantissa else a.mantissa == m
  | none => sameDouble a b

theorem eq_eq_eqScaled (x y : RpcDecimal) : x.eq y =
    if x.normalize.exponent = y.normalize.exponent then x.normalize.mantissa == y.normalize.mantissa
    else eqScaled x.normalize y.normalize (scaled? x.normalize y.normalize) := rfl

/-- A scaled mantissa ends with a zero, and the other one does not. -/
theorem scaled_ne {a b : RpcDecimal} {m : Int64} (hne : a.exponent ≠ b.exponent)
    (ha : a = ⟨0, 0⟩ ∨ ¬ (10 : Int) ∣ a.mantissa.toInt)
    (hb : b = ⟨0, 0⟩ ∨ ¬ (10 : Int) ∣ b.mantissa.toInt) (h : scaled? a b = some m) :
    eqScaled a b (some m) = false := by
  rw [eqScaled]
  obtain ⟨-, hm⟩ := scaled?_spec h
  have hpow : (10 : Int) ∣ 10 ^ (exponentDiff a b).toNat :=
    dvd_pow_self 10 (exponentDiff_ne_zero hne)
  have hdvd : (10 : Int) ∣ m.toInt := hm ▸ Dvd.dvd.mul_left hpow _
  have hpos : (10 : Int) ^ (exponentDiff a b).toNat ≠ 0 := by positivity
  split_ifs at hm ⊢ with hlt
  · rw [beq_eq_false_iff_ne]
    rintro rfl
    rcases hb with rfl | hb
    · have hzero := (mul_eq_zero.mp hm.symm).resolve_right hpos
      rcases ha with rfl | ha
      · exact hne rfl
      · exact ha ⟨0, hzero⟩
    · exact hb hdvd
  · rw [beq_eq_false_iff_ne]
    rintro rfl
    rcases ha with rfl | ha
    · have hzero := (mul_eq_zero.mp hm.symm).resolve_right hpos
      rcases hb with rfl | hb
      · exact hne rfl
      · exact hb ⟨0, hzero⟩
    · exact ha hdvd

/-- Two decimals are equal if they have one normal form, or if nothing but doubles is left to
compare and these do not differ. -/
theorem eq_iff (x y : RpcDecimal) :
    x.eq y = true ↔
      x.normalize = y.normalize ∨
        ¬ Direct x y ∧ sameDouble x.normalize y.normalize = true := by
  have hx := x.normalize_cases
  have hy := y.normalize_cases
  rw [eq_eq_eqScaled]
  unfold Direct
  generalize x.normalize = a at hx ⊢
  generalize y.normalize = b at hy ⊢
  by_cases hexp : a.exponent = b.exponent
  · rw [if_pos hexp]
    simp only [beq_iff_eq, hexp, true_or, not_true, false_and, or_false]
    obtain ⟨am, ae⟩ := a
    obtain ⟨bm, be⟩ := b
    simp only [RpcDecimal.mk.injEq]
    exact ⟨fun h => ⟨h, hexp⟩, fun h => h.1⟩
  · have hne : a ≠ b := fun h => hexp (h ▸ rfl)
    rw [if_neg hexp]
    simp only [hexp, hne, false_or]
    cases hs : scaled? a b with
    | none => simp [eqScaled]
    | some m => simp [scaled_ne hexp hx hy hs]

theorem direct_comm (x y : RpcDecimal) : Direct x y ↔ Direct y x := by
  unfold Direct
  by_cases hexp : x.normalize.exponent = y.normalize.exponent
  · simp only [hexp, true_or]
  · have hexp' : ¬ y.normalize.exponent = x.normalize.exponent := fun h => hexp h.symm
    simp only [hexp, hexp', false_or, scaled?_comm hexp]

theorem eq_refl (x : RpcDecimal) : x.eq x = true := (eq_iff x x).mpr (.inl rfl)

theorem eq_symm (x y : RpcDecimal) : x.eq y = y.eq x := by
  rw [Bool.eq_iff_iff, eq_iff, eq_iff, direct_comm, sameDouble_comm]
  exact or_congr_left ⟨Eq.symm, Eq.symm⟩

end LibShv.RpcDecimal
