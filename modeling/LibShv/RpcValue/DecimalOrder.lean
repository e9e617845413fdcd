import LibShv.Lib.Binary64
import LibShv.RpcValue.Decimals

/-!
# LibShv.RpcValue.DecimalOrder

`operator<=>` of decimals and the order of the rational numbers they stand for. Where the mantissas
can be brought to one exponent the two are the same; elsewhere the operator compares doubles.
-/

namespace LibShv.RpcDecimal

/-! ## the operator -/

section Operator

variable {F : Type} [LT F] [DecidableLT F] (toDouble : RpcDecimal → F)

/-- `operator<=>`, over the doubles it falls back on. -/
def cmpBy (x y : RpcDecimal) : Ordering :=
  let a := x.normalize
  let b := y.normalize
  if a.exponent = b.exponent then cmp a.mantissa.toInt b.mantissa.toInt
  else
    match scaled? a b with
    | some m =>
      if b.exponent < a.exponent then cmp m.toInt b.mantissa.toInt else cmp a.mantissa.toInt m.toInt
    | none =>
      if toDouble a < toDouble b then .lt else if toDouble b < toDouble a then .gt else .eq

end Operator

/-- `toDouble`: the mantissa scaled by ten, step by step. -/
def toBinary64 (d : RpcDecimal) : Binary64 :=
  let ret := Binary64.ofInt d.mantissa.toInt
  if 0 < d.exponent.toInt then d.exponent.toInt.toNat.repeat (·.scale 10) ret
  else (-d.exponent.toInt).toNat.repeat (·.scale (1 / 10)) ret

/-- `operator<=>`. -/
def compareTo (x y : RpcDecimal) : Ordering := cmpBy toBinary64 x y

/-- `operator==`. -/
def equals (x y : RpcDecimal) : Bool := x.compareTo y == .eq

/-- The same operator over the doubles of the machine. -/
theorem eq_eq_cmpBy (x y : RpcDecimal) : x.eq y = (cmpBy toDouble x y == .eq) := by
  have hcmp : ∀ m n : Int64, (m == n) = (cmp m.toInt n.toInt == .eq) := by
    intro m n
    rw [Bool.eq_iff_iff, beq_iff_eq, beq_iff_eq, cmp_eq_eq_iff, Int64.toInt_inj]
  rw [eq_eq_eqScaled]
  unfold cmpBy
  generalize x.normalize = a
  generalize y.normalize = b
  by_cases hexp : a.exponent = b.exponent
  · simp only [if_pos hexp]
    exact hcmp _ _
  · simp only [if_neg hexp]
    cases scaled? a b with
    | none =>
      rw [eqScaled, sameDouble]
      by_cases hlt : a.toDouble < b.toDouble
      · simp [hlt]
      · by_cases hgt : b.toDouble < a.toDouble <;> simp [hlt, hgt]
    | some m =>
      rw [eqScaled]
      split
      · exact hcmp _ _
      · exact hcmp _ _

/-! ## the numbers -/

/-- The rational number of a decimal. -/
def value (d : RpcDecimal) : ℚ := d.mantissa.toInt * 10 ^ d.exponent.toInt

/-- The zeros at the end of the mantissa do not carry the exponent past the greatest `int`. -/
def FitsExponent (d : RpcDecimal) : Prop :=
  d.mantissa ≠ 0 → ∀ k : Nat, (10 : Int) ^ k ∣ d.mantissa.toInt → d.exponent.toInt + k < 2 ^ 31

/-- No exponent overflows while the two are compared. -/
def InRange (x y : RpcDecimal) : Prop :=
  FitsExponent x ∧ FitsExponent y ∧
    (x.normalize.exponent.toInt - y.normalize.exponent.toInt).natAbs < 2 ^ 31

theorem fitsExponent_of_le {d : RpcDecimal} (h : d.exponent.toInt < 2 ^ 31 - 19) : FitsExponent d := by
  intro hne k hk
  have hlo := d.mantissa.le_toInt
  have hhi := d.mantissa.toInt_lt
  have hm : d.mantissa.toInt ≠ 0 := fun he => hne (Int64.toInt_inj.mp he)
  have hle : 10 ^ k ≤ d.mantissa.toInt.natAbs := by
    have := Nat.le_of_dvd (Int.natAbs_pos.mpr hm) (Int.natAbs_dvd_natAbs.mpr hk)
    rwa [Int.natAbs_pow] at this
  have hk19 : k < 19 := by
    by_contra hge
    have hpow : 10 ^ 19 ≤ 10 ^ k := Nat.pow_le_pow_right (by decide) (Nat.le_of_not_lt hge)
    omega
  omega

theorem value_normalize {d : RpcDecimal} (h : FitsExponent d) : d.normalize.value = d.value := by
  by_cases hzero : d.mantissa = 0
  · rw [normalize_of_zero d hzero, value, value, hzero]
    simp
  · obtain ⟨k, hk, hm, he⟩ := d.normalize_spec
    have hlt := h hzero k ⟨_, hm.trans (Int.mul_comm _ _)⟩
    have hexp : d.normalize.exponent.toInt = d.exponent.toInt + k := by
      have hlo := d.exponent.le_toInt
      rw [he hzero, Int32.toInt_add, Int32.toInt_ofNat_of_lt (by omega),
        Int.bmod_eq_of_le (by omega) (by omega)]
    rw [value, value, hexp, hm, zpow_add₀ (by norm_num), zpow_natCast]
    push_cast
    ring

/-- Numbers of one exponent are in the order of their mantissas. -/
theorem cmp_mul_zpow (m n e : Int) :
    cmp ((m : ℚ) * 10 ^ e) ((n : ℚ) * 10 ^ e) = cmp m n := by
  have hpos : (0 : ℚ) < 10 ^ e := by positivity
  rw [cmp_mul_pos_right hpos]
  exact (Int.cast_strictMono (R := ℚ)).cmp_map_eq m n

theorem exponentDiff_eq {a b : RpcDecimal}
    (h : (a.exponent.toInt - b.exponent.toInt).natAbs < 2 ^ 31) :
    (exponentDiff a b).toNat = (a.exponent.toInt - b.exponent.toInt).natAbs := by
  have hdiff : (a.exponent - b.exponent).toInt = a.exponent.toInt - b.exponent.toInt := by
    rw [Int32.toInt_sub, Int.bmod_eq_of_le (by omega) (by omega)]
  have hnat : ∀ x : Int32, 0 ≤ x.toInt → x.toUInt32.toNat = x.toInt.natAbs := by
    intro x hx
    rw [Int32.toNat_toUInt32_of_le (Int32.le_iff_toInt_le.mpr hx)]
    change x.toInt.toNat = _
    omega
  have hlt : a.exponent - b.exponent < 0 ↔ a.exponent.toInt - b.exponent.toInt < 0 := by
    rw [Int32.lt_iff_toInt_lt, hdiff]
    rfl
  rw [exponentDiff]
  split
  · next hneg =>
    have hneg' := hlt.mp hneg
    have hval : (-(a.exponent - b.exponent)).toInt = -(a.exponent.toInt - b.exponent.toInt) := by
      rw [Int32.toInt_neg, hdiff, Int.bmod_eq_of_le (by omega) (by omega)]
    rw [hnat _ (by omega), hval]
    omega
  · next hpos =>
    have hpos' := mt hlt.mpr hpos
    rw [hnat _ (by omega), hdiff]

/-- A scaled mantissa stands for the same number at the lower exponent. -/
theorem value_of_scaled {a b : RpcDecimal} {m : Int64}
    (hnear : (a.exponent.toInt - b.exponent.toInt).natAbs < 2 ^ 31) (h : scaled? a b = some m) :
    (if b.exponent < a.exponent then a.value = m.toInt * 10 ^ b.exponent.toInt
      else b.exponent ≠ a.exponent → b.value = m.toInt * 10 ^ a.exponent.toInt) := by
  obtain ⟨-, hm⟩ := scaled?_spec h
  rw [exponentDiff_eq hnear] at hm
  split_ifs at hm ⊢ with hlt
  · have hlt' := Int32.lt_iff_toInt_lt.mp hlt
    have hexp : a.exponent.toInt =
        b.exponent.toInt + ((a.exponent.toInt - b.exponent.toInt).natAbs : Nat) := by omega
    rw [value, hm]
    conv_lhs => rw [hexp, zpow_add₀ (by norm_num), zpow_natCast]
    push_cast
    ring
  · intro hne
    have hne' : b.exponent.toInt ≠ a.exponent.toInt := fun he => hne (Int32.toInt_inj.mp he)
    have hge := mt Int32.lt_iff_toInt_lt.mpr hlt
    have hexp : b.exponent.toInt =
        a.exponent.toInt + ((a.exponent.toInt - b.exponent.toInt).natAbs : Nat) := by omega
    rw [value, hm]
    conv_lhs => rw [hexp, zpow_add₀ (by norm_num), zpow_natCast]
    push_cast
    ring

/-! ## the order -/

section Order

variable {F : Type} [LT F] [DecidableLT F] {toDouble : RpcDecimal → F}

/-- The order of the doubles of two normal forms. -/
def doubleOrder (toDouble : RpcDecimal → F) (x y : RpcDecimal) : Ordering :=
  if toDouble x.normalize < toDouble y.normalize then .lt
  else if toDouble y.normalize < toDouble x.normalize then .gt
  else .eq

theorem cmpBy_of_not_direct {x y : RpcDecimal} (h : ¬ Direct x y) :
    cmpBy toDouble x y = doubleOrder toDouble x y := by
  obtain ⟨hexp, hscaled⟩ := not_or.mp h
  have hnone : scaled? x.normalize y.normalize = none := by
    simpa using hscaled
  rw [cmpBy, doubleOrder]
  simp only [if_neg hexp, hnone]

/-- Mantissas of one exponent compare as the numbers do. -/
theorem cmpBy_of_direct {x y : RpcDecimal} (hrange : InRange x y) (h : Direct x y) :
    cmpBy toDouble x y = cmp x.value y.value := by
  obtain ⟨hx, hy, hnear⟩ := hrange
  rw [← value_normalize hx, ← value_normalize hy, cmpBy]
  unfold Direct at h
  generalize x.normalize = a at hnear h ⊢
  generalize y.normalize = b at hnear h ⊢
  by_cases hexp : a.exponent = b.exponent
  · simp only [if_pos hexp]
    rw [value, value, hexp, cmp_mul_zpow]
  · obtain ⟨m, hm⟩ := Option.isSome_iff_exists.mp (h.resolve_left hexp)
    have hval := value_of_scaled hnear hm
    simp only [if_neg hexp, hm]
    split_ifs at hval ⊢ with hlt
    · rw [hval, value, cmp_mul_zpow]
    · rw [hval fun he => hexp he.symm, value, cmp_mul_zpow]

/-- The other way round, the order is the opposite one. -/
theorem cmpBy_swap (hasymm : ∀ p q : F, p < q → ¬ q < p) (x y : RpcDecimal) :
    cmpBy toDouble y x = (cmpBy toDouble x y).swap := by
  unfold cmpBy
  generalize x.normalize = a
  generalize y.normalize = b
  by_cases hexp : a.exponent = b.exponent
  · simp only [hexp, if_true, cmp_swap]
  · have hexp' : ¬ b.exponent = a.exponent := fun h => hexp h.symm
    simp only [if_neg hexp, if_neg hexp', scaled?_comm hexp']
    cases scaled? a b with
    | none =>
      by_cases hlt : toDouble a < toDouble b
      · simp [hlt, hasymm _ _ hlt]
      · by_cases hgt : toDouble b < toDouble a <;> simp [hlt, hgt]
    | some m =>
      rcases Int32.lt_or_lt_of_ne hexp with h | h
      · simp only [if_neg (Int32.lt_asymm h), if_pos h, cmp_swap]
      · simp only [if_neg (Int32.lt_asymm h), if_pos h, cmp_swap]

end Order

/-- Decimals are in the order of their numbers where their mantissas are compared, and where they are
not, just if their doubles are in that order. Either way, the order of two decimals is the opposite
of their order the other way round. -/
theorem compareTo_iff (x y : RpcDecimal) (hrange : InRange x y) :
    (x.compareTo y = cmp x.value y.value ↔
      Direct x y ∨ doubleOrder toBinary64 x y = cmp x.value y.value) ∧
    (Direct x y → (x.equals y = true ↔ x.value = y.value)) ∧
    y.compareTo x = (x.compareTo y).swap := by
  have hdirect : Direct x y → x.compareTo y = cmp x.value y.value := cmpBy_of_direct hrange
  refine ⟨?_, fun h => ?_, cmpBy_swap (fun _ _ => Binary64.lt_asymm) x y⟩
  · by_cases h : Direct x y
    · exact iff_of_true (hdirect h) (.inl h)
    · have hnot : x.compareTo y = doubleOrder toBinary64 x y := cmpBy_of_not_direct h
      rw [hnot, or_iff_right h]
  · rw [equals, hdirect h, beq_iff_eq, cmp_eq_eq_iff]

/-- Six, with zeros at the end of its mantissa. -/
theorem compareTo_sixes :
    (⟨6000, -3⟩ : RpcDecimal).equals ⟨60, -1⟩ = true ↔
      (⟨6000, -3⟩ : RpcDecimal).value = (⟨60, -1⟩ : RpcDecimal).value :=
  (compareTo_iff ⟨6000, -3⟩ ⟨60, -1⟩
    ⟨fitsExponent_of_le (by decide), fitsExponent_of_le (by decide), by decide⟩).2.1
    (.inl (by decide))

/-- Below and above one the exponents decide. -/
theorem value_lt_value {a b : RpcDecimal} (ha : 1 < a.mantissa.toInt) (hea : 0 ≤ a.exponent.toInt)
    (hb : b.mantissa.toInt = 1) (heb : b.exponent.toInt ≤ 0) : b.value < a.value := by
  have hsmall : (10 : ℚ) ^ b.exponent.toInt ≤ 1 := zpow_le_one_of_nonpos₀ (by norm_num) heb
  have hbig : (1 : ℚ) ≤ 10 ^ a.exponent.toInt := one_le_zpow₀ (by norm_num) hea
  have hmant : (1 : ℚ) < a.mantissa.toInt := by exact_mod_cast ha
  rw [value, value, hb, Int.cast_one, one_mul]
  calc (10 : ℚ) ^ b.exponent.toInt ≤ 1 := hsmall
    _ < a.mantissa.toInt := hmant
    _ ≤ a.mantissa.toInt * 10 ^ a.exponent.toInt :=
      le_mul_of_one_le_right (le_of_lt (lt_trans one_pos hmant)) hbig

/-- One more than 10^18 is no power of ten, but its double is. And the zero of a ten carries the
greatest exponent to the least one. -/
theorem not_compareTo :
    (⟨1000000000000000001, 0⟩ : RpcDecimal).compareTo ⟨1, 18⟩ ≠
        cmp (⟨1000000000000000001, 0⟩ : RpcDecimal).value (⟨1, 18⟩ : RpcDecimal).value ∧
      (⟨10, 2147483647⟩ : RpcDecimal).compareTo ⟨1, -2147483648⟩ ≠
        cmp (⟨10, 2147483647⟩ : RpcDecimal).value (⟨1, -2147483648⟩ : RpcDecimal).value := by
  constructor
  · have heq : (⟨1000000000000000001, 0⟩ : RpcDecimal).compareTo ⟨1, 18⟩ = .eq := by decide +kernel
    have hm : (1000000000000000001 : Int64).toInt = 1000000000000000001 := rfl
    have hone : (1 : Int64).toInt = 1 := rfl
    have hzero : (0 : Int32).toInt = 0 := rfl
    have hexp : (18 : Int32).toInt = 18 := rfl
    rw [heq, ne_comm, Ne, cmp_eq_eq_iff, value, value, hm, hone, hzero, hexp]
    norm_num
  · have heq : (⟨10, 2147483647⟩ : RpcDecimal).compareTo ⟨1, -2147483648⟩ = .eq := by decide
    rw [heq, ne_comm, Ne, cmp_eq_eq_iff]
    exact ne_of_gt (value_lt_value (by decide) (by decide) rfl (by decide))

end LibShv.RpcDecimal
