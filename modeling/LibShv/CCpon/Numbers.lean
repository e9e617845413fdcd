import LibShv.CCpon

/-!
# LibShv.CCpon.Numbers

The decimal integers read back: `ccpon_unpack_next` on the bytes of
`ccpon_pack_int` and `ccpon_pack_uint`.

A number has no end of its own. It is read up to a byte that cannot belong to
it, or up to the end of the stream, so it matters what follows.
-/

namespace LibShv.CCpon

open ByteReader Decimal

/-- The context in which an item is unpacked: no error, and no item yet. -/
structure Fresh (ctx : UnpackContext) : Prop where
  errNo : ctx.errNo = .ok
  item : ctx.item = .invalid

/-- The bytes that end every item: blanks, delimiters and closing brackets. -/
def Delim (b : UInt8) : Prop :=
  b ≤ space ∨ b = C_KEY_DELIM ∨ b = C_FIELD_DELIM ∨ b = C_LIST_END ∨ b = C_MAP_END ∨ b = C_META_END

instance (b : UInt8) : Decidable (Delim b) := inferInstanceAs (Decidable (_ ∨ _))

/-- `item` is left, and no error. -/
abbrev Yields (item a : CCpcpItem) (ctx : UnpackContext) : Prop := a = item ∧ ctx.errNo = .ok

/-! ## digits -/

/-- The state of a decimal number after `k` digits that stand for `v`. -/
structure Reading (neg : Bool) (k v : Nat) (s : ReadInt) : Prop where
  value : s.value.toInt = v
  digitCnt : s.digitCnt.toInt = k
  neg : s.neg = neg
  isOverflow : s.isOverflow = false
  base : s.base = 10

theorem reading_init : Reading false 0 0 (.init 0) := ⟨rfl, rfl, rfl, rfl, rfl⟩

theorem checkedInt64_ofNat {v : Nat} (h : v < 2 ^ 63) :
    checkedInt64 v = some (Int64.ofInt v) ∧ (Int64.ofInt v).toInt = v := by
  constructor
  · rw [checkedInt64, if_pos (by omega)]
  · rw [Int64.toInt_ofInt_of_le (by omega) (by omega)]

theorem digit?_of_isDigit {s : ReadInt} {b : UInt8} (hb : IsDigit b) :
    s.digit? b = some ((b.toNat - 48 : Nat) : Int) := by
  obtain ⟨hlo, hhi⟩ := hb
  have hle : 0x30 ≤ b ∧ b ≤ 0x39 :=
    ⟨UInt8.le_iff_toNat_le.mpr hlo, UInt8.le_iff_toNat_le.mpr hhi⟩
  rw [ReadInt.digit?, if_pos hle, Option.some.injEq]
  omega

theorem ne_of_isDigit {b b' : UInt8} (hb : IsDigit b) (hb' : ¬ IsDigit b') : b ≠ b' := by
  rintro rfl
  exact hb' hb

theorem addDigit_of_reading {s : ReadInt} {neg : Bool} {k v d : Nat} (h : Reading neg k v s)
    (hv : v * 10 + d < 2 ^ 63) (hk : k + 1 < 2 ^ 31) :
    Reading neg (k + 1) (v * 10 + d) (s.addDigit d) := by
  obtain ⟨hmul, hmul'⟩ := @checkedInt64_ofNat (v * 10) (by omega)
  obtain ⟨hadd, hadd'⟩ := checkedInt64_ofNat hv
  have hcnt : (s.digitCnt + 1).toInt = (k + 1 : Nat) := by
    rw [Int32.toInt_add, h.digitCnt]
    have hone : (1 : Int32).toInt = 1 := rfl
    rw [hone, Int.bmod_eq_of_le (by omega) (by omega)]
    omega
  have hs : s.addDigit d =
      { s with value := Int64.ofInt (v * 10 + d : Nat), digitCnt := s.digitCnt + 1 } := by
    have hcast : s.value.toInt * s.base = (v * 10 : Nat) := by
      rw [h.value, h.base]
      omega
    have hcast' : ((v * 10 : Nat) : Int) + (d : Int) = (v * 10 + d : Nat) := by omega
    rw [ReadInt.addDigit, hcast, hmul]
    simp only
    rw [hmul', hcast', hadd]
  rw [hs]
  exact ⟨hadd', hcnt, h.neg, h.isOverflow, h.base⟩

/-- A digit is added to the number. -/
theorem step_of_isDigit {s : ReadInt} {neg : Bool} {k v : Nat} {b : UInt8} (h : Reading neg k v s)
    (hb : IsDigit b) (hv : v * 10 + (b.toNat - 48) < 2 ^ 63) (hk : k + 1 < 2 ^ 31) :
    ∃ t, s.step b = .more t ∧ Reading neg (k + 1) (v * 10 + (b.toNat - 48)) t := by
  have hsign : ¬ (b = 0x2b ∨ b = minus) := by
    rintro (he | he)
    · exact ne_of_isDigit hb (by decide) he
    · exact ne_of_isDigit hb (by decide) he
  have hx : b ≠ 0x78 := ne_of_isDigit hb (by decide)
  have hadd := addDigit_of_reading h hv hk
  refine ⟨{ s.addDigit (b.toNat - 48 : Nat) with n := s.n + 1 }, ?_,
    hadd.value, hadd.digitCnt, hadd.neg, hadd.isOverflow, hadd.base⟩
  rw [ReadInt.step, if_neg hsign, if_neg hx, digit?_of_isDigit hb]

theorem scans_digits {neg : Bool} {bs : Bytes} (hbs : ∀ b ∈ bs, IsDigit b) {s : ReadInt}
    {k v : Nat} (h : Reading neg k v s) (hv : value v bs < 2 ^ 63) (hk : k + bs.length < 2 ^ 31) :
    ∃ t, Scans ReadInt.step s bs t ∧ Reading neg (k + bs.length) (value v bs) t := by
  induction bs generalizing s k v with
  | nil => exact ⟨s, .nil s, h⟩
  | cons b bs ih =>
    rw [value_cons] at hv ⊢
    rw [List.length_cons] at hk
    have hle := le_value (v * 10 + (b.toNat - 48)) bs
    obtain ⟨s', hstep, hs'⟩ :=
      step_of_isDigit h (hbs b List.mem_cons_self) (by omega) (by omega)
    obtain ⟨t, hscan, ht⟩ := ih (fun b hb => hbs b (List.mem_cons_of_mem _ hb)) hs' hv (by omega)
    refine ⟨t, .cons hstep hscan, ?_⟩
    rw [List.length_cons, Nat.add_comm bs.length, ← Nat.add_assoc]
    exact ht

/-- The digits of a number are read as the number. -/
theorem scans_digits_nat {neg : Bool} {s : ReadInt} (h : Reading neg 0 0 s) {m : Nat}
    (hm : m < 2 ^ 63) :
    ∃ t k, Scans ReadInt.step s (digits m) t ∧ Reading neg k m t ∧ 0 < k := by
  have hlen := length_digits_le (n := m) (by omega)
  have hdigits : ∀ b ∈ digits m, IsDigit b := fun _ => isDigit_of_mem_digits
  obtain ⟨t, hscan, ht⟩ := scans_digits hdigits h (by rwa [value_digits]) (by omega)
  rw [value_digits] at ht
  have hpos := List.length_pos_iff.mpr (digits_ne_nil m)
  exact ⟨t, _, hscan, ht, by omega⟩

/-! ## signed numbers -/

theorem natAbs_toInt_lt {n : Int64} (h : n ≠ Int64.minValue) : n.toInt.natAbs < 2 ^ 63 := by
  have hmin : n.toInt ≠ -2 ^ 63 := fun he => h (Int64.toInt_inj.mp he)
  have hlo := n.le_toInt
  have hhi := n.toInt_lt
  omega

theorem toInt_nonneg {n : Int64} (hn : ¬ n < 0) : 0 ≤ n.toInt :=
  Int.not_lt.mp fun hlt => hn (Int64.lt_iff_toInt_lt.mpr hlt)

/-- The negation of a number that has one. -/
theorem toInt_neg_of_neg {n : Int64} (hmin : n ≠ Int64.minValue) (hn : n < 0) :
    (-n).toInt = n.toInt.natAbs := by
  have hneg : n.toInt < 0 := Int64.lt_iff_toInt_lt.mp hn
  have hlt := natAbs_toInt_lt hmin
  rw [Int64.toInt_neg, Int.bmod_eq_of_le (by omega) (by omega)]
  omega

theorem intToStr_of_neg {n : Int64} (hmin : n ≠ Int64.minValue) (hn : n < 0) :
    intToStr n = minus :: digits n.toInt.natAbs := by
  have hval := toInt_neg_of_neg hmin hn
  have hpos : 0 ≤ -n := Int64.le_iff_toInt_le.mpr (by rw [hval]; exact Int.natCast_nonneg _)
  have hnat : (-n).toUInt64.toNat = n.toInt.natAbs := by
    rw [Int64.toNat_toUInt64_of_le hpos]
    change (-n).toInt.toNat = n.toInt.natAbs
    rw [hval, Int.toNat_natCast]
  rw [intToStr, if_pos hn, uintToStr, hnat]

theorem intToStr_of_nonneg {n : Int64} (hn : ¬ n < 0) : intToStr n = digits n.toInt.natAbs := by
  have hpos := toInt_nonneg hn
  have hnat : n.toUInt64.toNat = n.toInt.natAbs := by
    rw [Int64.toNat_toUInt64_of_le (Int64.le_iff_toInt_le.mpr hpos)]
    change n.toInt.toNat = n.toInt.natAbs
    omega
  rw [intToStr, if_neg hn, uintToStr, hnat]

theorem scans_intToStr {n : Int64} (hmin : n ≠ Int64.minValue) :
    ∃ t k, Scans ReadInt.step (.init 0) (intToStr n) t ∧
      Reading (decide (n < 0)) k n.toInt.natAbs t ∧ 0 < k := by
  have hlt := natAbs_toInt_lt hmin
  by_cases hn : n < 0
  · have hminus : Reading true 0 0 { ReadInt.init 0 with startsWithSignum := true, neg := true, n := 1 } :=
      ⟨rfl, rfl, rfl, rfl, rfl⟩
    obtain ⟨t, k, hscan, ht, hk⟩ := scans_digits_nat hminus hlt
    rw [intToStr_of_neg hmin hn, decide_eq_true hn]
    exact ⟨t, k, .cons rfl hscan, ht, hk⟩
  · rw [intToStr_of_nonneg hn, decide_eq_false hn]
    exact scans_digits_nat reading_init hlt

/-! ## the end of a number -/

theorem Delim.not_mem {b : UInt8} (h : Delim b) {b' : UInt8} (hb' : ¬ Delim b') : b ≠ b' := by
  rintro rfl
  exact hb' h

theorem Delim.not_isDigit {b : UInt8} (h : Delim b) : ¬ IsDigit b := by
  rintro ⟨hlo, hhi⟩
  rcases h with h | rfl | rfl | rfl | rfl | rfl
  · have : b.toNat ≤ 32 := UInt8.le_iff_toNat_le.mp h
    omega
  all_goals first
    | exact absurd hhi (by decide)
    | exact absurd hlo (by decide)

/-- A byte that is no digit, no sign and no `x` ends a decimal number. -/
theorem step_of_not_isDigit {s : ReadInt} {b : UInt8} (hbase : s.base = 10) (hb : ¬ IsDigit b)
    (hsign : b ≠ 0x2b ∧ b ≠ minus) (hx : b ≠ 0x78) : s.step b = .done s := by
  have hdigit : s.digit? b = none := by
    have hle : ¬ (0x30 ≤ b ∧ b ≤ 0x39) := fun h =>
      hb ⟨UInt8.le_iff_toNat_le.mp h.1, UInt8.le_iff_toNat_le.mp h.2⟩
    rw [ReadInt.digit?, if_neg hle, hbase]
    simp
  rw [ReadInt.step, if_neg (not_or.mpr hsign), if_neg hx, hdigit]

theorem step_of_delim {s : ReadInt} {b : UInt8} (hbase : s.base = 10) (hb : Delim b) :
    s.step b = .done s :=
  step_of_not_isDigit hbase hb.not_isDigit
    ⟨hb.not_mem (by decide), hb.not_mem (by decide)⟩ (hb.not_mem (by decide))

/-! ## unpacking a number -/

section Unpack

variable {c : Cursor UnpackContext} {v : Int64} {bs rest : Bytes} {b : UInt8} {t : ReadInt}

theorem unpackIntToResult_end (h : Scans ReadInt.step (.init v) c.input t) :
    ∃ last, unpackIntToResult v c = .ok t
      { c with input := [], last := last, atEnd := true,
               reg := { c.reg with errNo := .bufferUnderflow } } := by
  obtain ⟨last, hscan⟩ := scan_of_scans Fault h (List.append_nil _).symm
  refine ⟨last, ?_⟩
  rw [unpackIntToResult, bind_of_ok (hscan.trans (scan_nil rfl))]
  rfl

/-- The byte that ends the number is put back. -/
theorem unpackIntToResult_stop (h : Scans ReadInt.step (.init v) bs t)
    (hc : c.input = bs ++ b :: rest) (hb : t.step b = .done t) :
    unpackIntToResult v c = .ok t { c with input := b :: rest, last := b } := by
  obtain ⟨last, hscan⟩ := scan_of_scans Fault h hc
  rw [unpackIntToResult, bind_of_ok (hscan.trans (scan_done rfl hb))]
  rfl

/-- The number after its integer part. -/
def ReadInt.number (t : ReadInt) : ReadNumber where
  mantissa := t.value
  exponent := 0
  decCnt := 0
  isDecimal := false
  isUint := false
  isNeg := t.signum == -1
  isOverflow := t.isOverflow

theorem unpackNumber_eq : unpackNumber = (do
    let result ← unpackIntToResult 0
    if result.digitCnt = 0 then unpackError .malformedInput "Malformed number."
    else
      let r ← (do
        match ← unpackTakeByte? with
        | none => return result.number
        | some p => unpackNumberTail result.number p)
      setErrNo .ok
      return r.item) := rfl

theorem unpackTakeByte?_nil (h : c.input = []) :
    unpackTakeByte? c = .ok none
      { c with atEnd := true, reg := { c.reg with errNo := .bufferUnderflow } } := by
  rw [unpackTakeByte?, bind_of_ok (take?_nil h)]
  rfl

theorem unpackTakeByte?_cons (h : c.input = b :: rest) :
    unpackTakeByte? c = .ok (some b) { c with input := rest, last := b } := by
  rw [unpackTakeByte?, bind_of_ok (take?_cons h)]
  rfl

/-- The end of the stream ends a number that has a digit. -/
theorem unpackNumber_end (h : Scans ReadInt.step (.init 0) c.input t) (hk : t.digitCnt ≠ 0) :
    ∃ last, unpackNumber c = .ok t.number.item
      { c with input := [], last := last, atEnd := true, reg := { c.reg with errNo := .ok } } := by
  obtain ⟨last, hint⟩ := unpackIntToResult_end h
  refine ⟨last, ?_⟩
  rw [unpackNumber_eq, bind_of_ok hint, if_neg hk]
  simp only [bind_assoc]
  rw [bind_of_ok (unpackTakeByte?_nil rfl)]
  rfl

/-- On digits that break off the number is cut, or missing. -/
theorem starved_unpackNumber (h : Scans ReadInt.step (.init 0) c.input t)
    (hitem : c.reg.item = .invalid) : Starved Dead Fault.Benign (unpackNumber c) := by
  by_cases hk : t.digitCnt = 0
  · obtain ⟨last, hint⟩ := unpackIntToResult_end h
    rw [unpackNumber_eq, bind_of_ok hint, if_pos hk]
    exact benign_parse _ _
  · obtain ⟨last, hnum⟩ := unpackNumber_end h hk
    rw [hnum]
    exact dead_of_live rfl rfl (by simp only [hitem]; exact trivial)

/-- A number that goes on at `b`. -/
theorem unpackNumber_stop (h : Scans ReadInt.step (.init 0) bs t) (hk : t.digitCnt ≠ 0)
    (hc : c.input = bs ++ b :: rest) (hb : t.step b = .done t) :
    unpackNumber c = (do
      let r ← unpackNumberTail t.number b
      setErrNo .ok
      return r.item : Unpack CCpcpItem) { c with input := rest, last := b } := by
  rw [unpackNumber_eq, bind_of_ok (unpackIntToResult_stop h hc hb), if_neg hk]
  simp only [bind_assoc]
  rw [bind_of_ok (unpackTakeByte?_cons rfl)]

theorem unpackNumberTail_of_delim (hb : Delim b) (r : ReadNumber)
    (c : Cursor UnpackContext) :
    unpackNumberTail r b c = .ok r { c with input := c.last :: c.input } := by
  have hdot : b ≠ dot := hb.not_mem (by decide)
  have hexp : ¬ (b = 0x65 ∨ b = 0x45) := not_or.mpr ⟨hb.not_mem (by decide), hb.not_mem (by decide)⟩
  rw [unpackNumberTail, if_neg (hb.not_mem (by decide)), if_neg hdot, unpackExponent, if_neg hexp,
    if_pos hdot]
  rfl

end Unpack

theorem Reading.digitCnt_ne_zero {neg : Bool} {k v : Nat} {t : ReadInt} (h : Reading neg k v t)
    (hk : 0 < k) : t.digitCnt ≠ 0 := by
  intro he
  have := h.digitCnt
  rw [he] at this
  have hzero : (0 : Int32).toInt = 0 := rfl
  omega

/-- A signed number is read up to a delimiter or the end of the stream. -/
theorem reads_packInt {n : Int64} (hmin : n ≠ Int64.minValue) :
    Unpacks unpackNumber (packInt n) Delim Fresh (Yields (.int n)) := by
  obtain ⟨t, k, hscan, ht, hk⟩ := scans_intToStr hmin
  rw [← packInt] at hscan
  have hcnt := ht.digitCnt_ne_zero hk
  have hitem : t.number.item = .int n := by
    have hlt := natAbs_toInt_lt hmin
    have hval := ht.value
    rw [ReadInt.number, ReadNumber.item, ReadInt.signum, ht.neg, ht.isOverflow]
    simp only [Bool.false_eq_true, if_false, CCpcpItem.int.injEq, decide_eq_true_eq]
    by_cases hn : n < 0
    · have hneg : n.toInt < 0 := Int64.lt_iff_toInt_lt.mp hn
      rw [if_pos hn]
      simp only [beq_self_eq_true, if_true]
      apply Int64.toInt_inj.mp
      rw [Int64.toInt_neg, hval, Int.bmod_eq_of_le (by omega) (by omega)]
      omega
    · have hpos : 0 ≤ n.toInt := Int.not_lt.mp fun hlt => hn (Int64.lt_iff_toInt_lt.mpr hlt)
      have hone : ((1 : Int64) == -1) = false := by decide
      rw [if_neg hn, hone]
      apply Int64.toInt_inj.mp
      simp only [Bool.false_eq_true, if_false]
      omega
  constructor
  · intro c rest hc hrest hP
    cases rest with
    | nil =>
      rw [List.append_nil] at hc
      obtain ⟨last, hnum⟩ := unpackNumber_end (hc ▸ hscan) hcnt
      exact ⟨_, _, hnum, rfl, .inr rfl, hitem, rfl⟩
    | cons b rest =>
      have hb : Delim b := hrest b rfl
      refine ⟨t.number.item, { c with input := b :: rest, last := b, reg := { c.reg with errNo := .ok } },
        ?_, rfl, .inl rfl, hitem, rfl⟩
      rw [unpackNumber_stop hscan hcnt hc (step_of_delim ht.base hb),
        bind_of_ok (unpackNumberTail_of_delim hb _ _)]
      rfl
  · intro c ys hc hys he hP
    rw [hc] at hscan
    obtain ⟨u, hu, -⟩ := hscan.split
    exact starved_unpackNumber hu hP.item

/-- An unsigned number ends with its suffix. -/
theorem reads_packUint {n : UInt64} (hn : n.toNat < 2 ^ 63) :
    Unpacks unpackNumber (packUint n) (fun _ => True) Fresh (Yields (.uint n)) := by
  obtain ⟨t, k, hscan, ht, hk⟩ := scans_digits_nat reading_init hn
  have hcnt := ht.digitCnt_ne_zero hk
  have hstop : t.step C_UNSIGNED_END = .done t :=
    step_of_not_isDigit ht.base (by decide) ⟨by decide, by decide⟩ (by decide)
  have hitem : { t.number with isUint := true }.item = .uint n := by
    have hval := ht.value
    have hpos : 0 ≤ t.value := Int64.le_iff_toInt_le.mpr (by rw [hval]; exact Int.natCast_nonneg _)
    rw [ReadInt.number, ReadNumber.item, ht.isOverflow]
    simp only [Bool.false_eq_true, if_false, if_true, CCpcpItem.uint.injEq]
    apply UInt64.toNat_inj.mp
    rw [Int64.toNat_toUInt64_of_le hpos]
    change t.value.toInt.toNat = n.toNat
    rw [hval, Int.toNat_natCast]
  constructor
  · intro c rest hc _ hP
    rw [packUint, List.append_assoc] at hc
    refine ⟨{ t.number with isUint := true }.item,
      { c with input := rest, last := C_UNSIGNED_END, reg := { c.reg with errNo := .ok } },
      ?_, rfl, .inl rfl, hitem, rfl⟩
    rw [unpackNumber_stop hscan hcnt hc hstop]
    rfl
  · intro c ys hc hys he hP
    -- the suffix is missing at least
    have hpre : ∃ zs, digits n.toNat = c.input ++ zs := by
      obtain ⟨zs, y, rfl⟩ : ∃ zs y, ys = zs ++ [y] :=
        ⟨ys.dropLast, ys.getLast hys, (List.dropLast_concat_getLast hys).symm⟩
      rw [packUint, ← List.append_assoc] at hc
      exact ⟨zs, (List.append_inj' hc rfl).1⟩
    obtain ⟨zs, hzs⟩ := hpre
    rw [hzs] at hscan
    obtain ⟨u, hu, -⟩ := hscan.split
    exact starved_unpackNumber hu hP.item

end LibShv.CCpon
