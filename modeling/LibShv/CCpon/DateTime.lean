import LibShv.CCpon.Calendar
import LibShv.CCpon.Literals

/-!
# LibShv.CCpon.DateTime

Date-times as text: `ccpon_unpack_next` on what `ccpon_pack_date_time` writes.

The fields are read as numbers of any width. What does not come back is a fraction of a
second before 1970, a number of milliseconds below 10 behind a year whose second digit
is not zero, and an offset of a hundred hours or more.
-/

namespace LibShv.CCpon

open ByteReader Decimal Calendar

/-! ## fields -/

/-- The text is a number: its digits, and it fits the accumulator. -/
structure IsField (bs : Bytes) (v : Nat) : Prop where
  digits : ∀ b ∈ bs, IsDigit b
  ne_nil : bs ≠ []
  value : Decimal.value 0 bs = v
  length : bs.length < 2 ^ 31
  fits : v < 2 ^ 63

/-- The byte ends a number that has begun. -/
abbrev EndsField (b : UInt8) : Prop := ¬ IsDigit b ∧ b ≠ 0x78

section Fields

variable {c : Cursor UnpackContext} {bs rest : Bytes} {b : UInt8} {v : Nat} {s t : ReadInt}

/-- Every byte that is scanned is counted. -/
theorem step_n (h : s.step b = .more t) : t.n = s.n + 1 := by
  rw [ReadInt.step] at h
  by_cases hsign : b = 0x2b ∨ b = minus
  · rw [if_pos hsign] at h
    split at h
    · cases h
    · injection h with h
      rw [← h]
  · rw [if_neg hsign] at h
    by_cases hx : b = 0x78
    · rw [if_pos hx] at h
      by_cases hfirst : s.n = 1 + (if s.startsWithSignum then 1 else 0) ∧ s.value = 0
      · rw [if_pos hfirst] at h
        injection h with h
        rw [← h]
      · rw [if_neg hfirst] at h
        cases h
    · rw [if_neg hx] at h
      split at h
      · cases h
      · injection h with h
        rw [← h]

theorem scans_n (h : Scans ReadInt.step s bs t) : t.n = s.n + bs.length := by
  induction h with
  | nil => rfl
  | cons hs _ ih => rw [ih, step_n hs, List.length_cons, Nat.add_right_comm, Nat.add_assoc]

theorem step_of_endsField (hbase : s.base = 10) (hn : s.n ≠ 0) (hb : EndsField b) :
    s.step b = .done s := by
  by_cases hsign : b = 0x2b ∨ b = minus
  · rw [ReadInt.step, if_pos hsign, if_pos hn]
  · exact step_of_not_isDigit hbase hb.1 (not_or.mp hsign) hb.2

/-- A number is read up to the byte that ends it, with the count of its digits. -/
theorem unpackInt_field (h : IsField bs v) (hb : EndsField b) (hc : c.input = bs ++ b :: rest) :
    unpackInt c = .ok (Int64.ofNat v, bs.length) { c with input := b :: rest, last := b } := by
  have hfits := h.fits
  have hlen := h.length
  obtain ⟨t, hscan, ht⟩ := scans_digits h.digits reading_init (by rw [h.value]; omega) (by omega)
  rw [h.value] at ht
  have hn : t.n = bs.length := (scans_n hscan).trans (Nat.zero_add _)
  have hpos := List.length_pos_of_ne_nil h.ne_nil
  have hval : t.value * t.signum = Int64.ofNat v := by
    rw [ReadInt.signum, ht.neg, if_neg Bool.false_ne_true, Int64.mul_one]
    apply Int64.toInt_inj.mp
    rw [ht.value, ← Int64.ofInt_eq_ofNat, Int64.toInt_ofInt_of_le (by omega) (by omega)]
  rw [unpackInt, bind_of_ok
    (unpackIntToResult_stop hscan hc (step_of_endsField ht.base (by omega) hb)), hval, hn]
  rfl

theorem unpackDateField_field (h : IsField bs v) (hb : EndsField b) (hc : c.input = bs ++ b :: rest)
    (errMsg : String) :
    unpackDateField errMsg c = .ok (some (Int32.ofNat v)) { c with input := b :: rest, last := b } := by
  have hpos := List.length_pos_of_ne_nil h.ne_nil
  have hval : (Int64.ofNat v).toInt32 = Int32.ofNat v := by
    apply Int32.toInt_inj.mp
    rw [← Int64.ofInt_eq_ofNat, ← Int32.ofInt_eq_ofNat, Int64.toInt32_ofInt]
  rw [unpackDateField, bind_of_ok (unpackInt_field h hb hc)]
  simp only [Nat.ne_of_gt hpos, if_false, hval]
  rfl

theorem unpackDateSeparator_cons {allowed : Bytes} (hb : b ∈ allowed) (hc : c.input = b :: rest)
    (errMsg : String) :
    unpackDateSeparator allowed errMsg c = .ok (some ()) { c with input := rest, last := b } := by
  rw [unpackDateSeparator, bind_of_ok (unpackTakeByte_cons hc), if_pos hb]
  rfl

theorem orReturn_some {α β : Type} {p : Unpack (Option α)} {f : α → Unpack (Option β)} {a : α}
    {c' : Cursor UnpackContext} (h : p c = .ok (some a) c') : orReturn p f c = f a c' := by
  rw [orReturn, bind_of_ok h]

theorem orReturn_none {α β : Type} {p : Unpack (Option α)} {f : α → Unpack (Option β)}
    {c' : Cursor UnpackContext} (h : p c = .ok none c') : orReturn p f c = .ok none c' := by
  rw [orReturn, bind_of_ok h]
  rfl

/-- A date and a time of day, field by field. -/
theorem unpackTm_fields {y mo d h mi s : Bytes} {vy vmo vd vh vmi vs : Nat} (hy : IsField y vy)
    (hmo : IsField mo vmo) (hd : IsField d vd) (hh : IsField h vh) (hmi : IsField mi vmi)
    (hs : IsField s vs) (hb : EndsField b)
    (hc : c.input = y ++ minus :: (mo ++ minus :: (d ++ 0x54 :: (h ++ C_KEY_DELIM ::
      (mi ++ C_KEY_DELIM :: (s ++ b :: rest)))))) :
    unpackTm c = .ok (some {
      tm_year := Int32.ofNat vy - 1900
      tm_mon := Int32.ofNat vmo - 1
      tm_mday := Int32.ofNat vd
      tm_hour := Int32.ofNat vh
      tm_min := Int32.ofNat vmi
      tm_sec := Int32.ofNat vs }) { c with input := b :: rest, last := b } := by
  have hminus : EndsField minus := by decide
  have hcolon : EndsField C_KEY_DELIM := by decide
  have ht : EndsField 0x54 := by decide
  have htime : ∀ c' : Cursor UnpackContext, c'.input = h ++ C_KEY_DELIM :: (mi ++ C_KEY_DELIM :: (s ++ b :: rest)) →
      unpackTime c' = .ok (some (Int32.ofNat vh, Int32.ofNat vmi, Int32.ofNat vs))
        { c' with input := b :: rest, last := b } := by
    intro c' hc'
    rw [unpackTime, orReturn_some (unpackDateField_field hh hcolon hc' _),
      bind_of_ok (unpackTakeByte_cons rfl), orReturn_some (unpackDateField_field hmi hcolon rfl _),
      bind_of_ok (unpackTakeByte_cons rfl), orReturn_some (unpackDateField_field hs hb rfl _)]
    rfl
  rw [unpackTm, orReturn_some (unpackDateField_field hy hminus hc _),
    orReturn_some (unpackDateSeparator_cons (by simp) rfl _),
    orReturn_some (unpackDateField_field hmo hminus rfl _),
    orReturn_some (unpackDateSeparator_cons (by simp) rfl _),
    orReturn_some (unpackDateField_field hd ht rfl _),
    orReturn_some (unpackDateSeparator_cons (by simp) rfl _), orReturn_some (htime _ rfl)]
  rfl

end Fields

/-! ## the padding -/

theorem digits_of_lt_ten {n : Nat} (h : n < 10) : digits n = [UInt8.ofNat (48 + n)] := by
  revert n
  decide

theorem length_digits_eq {n k : Nat} (hlo : 10 ^ k ≤ n) (hhi : n < 10 ^ (k + 1)) :
    (digits n).length = k + 1 := by
  have hle : (digits n).length ≤ k + 1 := by
    rw [digits, List.length_map]
    exact (Nat.length_toDigits_le_iff (by decide) (by omega)).mpr hhi
  have hlt : ¬ (digits n).length ≤ k := by
    intro h
    rcases Nat.eq_zero_or_pos k with rfl | hk
    · exact digits_ne_nil n (List.eq_nil_of_length_eq_zero (by omega))
    · rw [digits, List.length_map, Nat.length_toDigits_le_iff (by decide) hk] at h
      omega
  omega

theorem isField_digits {n : Nat} (h : n < 2 ^ 63) : IsField (digits n) n where
  digits _ hb := isDigit_of_mem_digits hb
  ne_nil := digits_ne_nil n
  value := value_digits n
  length := by
    have := length_digits_le (n := n) (by omega)
    omega
  fits := h

theorem isField_zero_cons {bs : Bytes} {v : Nat} (h : IsField bs v) (hlen : bs.length + 1 < 2 ^ 31) :
    IsField (0x30 :: bs) v where
  digits b hb := by
    rcases List.mem_cons.mp hb with rfl | hb
    · decide
    · exact h.digits b hb
  ne_nil := List.cons_ne_nil _ _
  value := h.value
  length := hlen
  fits := h.fits

/-- Digits that fill the width, or all but one place of it. -/
theorem uintToStrLpad_full {buff : Bytes} {n : UInt64} {width : Nat} (h : width ≤ (digits n.toNat).length)
    (pad : UInt8) : uintToStrLpad buff n width pad = digits n.toNat := by
  rw [uintToStrLpad, uintToStr]
  exact if_neg (by omega)

theorem uintToStrLpad_one_of_two {buff : Bytes} {n : UInt64} (hlen : 2 ≤ buff.length)
    (h : n.toNat < 10) (pad : UInt8) : uintToStrLpad buff n 2 pad = pad :: digits n.toNat := by
  obtain ⟨x, y, bs, rfl⟩ : ∃ x y bs, buff = x :: y :: bs := by
    rcases buff with _ | ⟨x, _ | ⟨y, bs⟩⟩
    · simp at hlen
    · simp at hlen
    · exact ⟨x, y, bs, rfl⟩
  rw [uintToStrLpad, uintToStr, digits_of_lt_ten h]
  simp [List.range_succ, padStep]

/-- Two places left to pad: what stood in the second one stays. -/
theorem uintToStrLpad_one_of_three {buff : Bytes} {n : UInt64} (hlen : 3 ≤ buff.length)
    (h : n.toNat < 10) (pad : UInt8) :
    uintToStrLpad buff n 3 pad = pad :: buff.getD 1 0 :: digits n.toNat := by
  obtain ⟨x, y, z, bs, rfl⟩ : ∃ x y z bs, buff = x :: y :: z :: bs := by
    rcases buff with _ | ⟨x, _ | ⟨y, _ | ⟨z, bs⟩⟩⟩
    · simp at hlen
    · simp at hlen
    · simp at hlen
    · exact ⟨x, y, z, bs, rfl⟩
  rw [uintToStrLpad, uintToStr, digits_of_lt_ten h]
  simp [List.range_succ, padStep]

theorem uintToStrLpad_two_of_three {buff : Bytes} {n : UInt64} (hlen : 3 ≤ buff.length)
    (hlo : 10 ≤ n.toNat) (hhi : n.toNat < 100) (pad : UInt8) :
    uintToStrLpad buff n 3 pad = pad :: digits n.toNat := by
  obtain ⟨x, y, z, bs, rfl⟩ : ∃ x y z bs, buff = x :: y :: z :: bs := by
    rcases buff with _ | ⟨x, _ | ⟨y, _ | ⟨z, bs⟩⟩⟩
    · simp at hlen
    · simp at hlen
    · simp at hlen
    · exact ⟨x, y, z, bs, rfl⟩
  obtain ⟨d, e, hde⟩ : ∃ d e, digits n.toNat = [d, e] :=
    List.length_eq_two.mp (length_digits_eq (k := 1) hlo hhi)
  rw [uintToStrLpad, uintToStr, hde]
  simp [List.range_succ, padStep]

/-! ## the text of a date -/

/-- A number in two digits, or more. -/
def padTwo (n : Nat) : Bytes := if n < 10 then 0x30 :: digits n else digits n

theorem isField_padTwo {n : Nat} (h : n < 2 ^ 63) : IsField (padTwo n) n := by
  have hlen := length_digits_le (n := n) (by omega)
  unfold padTwo
  split
  · exact isField_zero_cons (isField_digits h) (by omega)
  · exact isField_digits h

theorem length_padTwo_le {n : Nat} (h : n < 2 ^ 64) : (padTwo n).length ≤ 21 := by
  have hlen := length_digits_le h
  unfold padTwo
  split
  · rw [List.length_cons]
    omega
  · omega

theorem length_padTwo {n : Nat} (h : n < 100) : (padTwo n).length = 2 := by
  unfold padTwo
  split
  · next hlt => rw [digits_of_lt_ten hlt]; rfl
  · exact length_digits_eq (k := 1) (by omega) h

theorem three_le_length_padTwo {n : Nat} (h : 100 ≤ n) (hn : n < 2 ^ 31) : 3 ≤ (padTwo n).length := by
  rw [padTwo, if_neg (by omega)]
  by_contra hlt
  have hle : (digits n).length ≤ 2 := by omega
  rw [digits, List.length_map, Nat.length_toDigits_le_iff (by decide) (by decide)] at hle
  omega

theorem dateField_eq {n : Int32} {k : Nat} (h : n.toInt = k) : dateField n = padTwo k := by
  have hnat : n.toUInt32.toUInt64.toNat = k := by
    have hpos : 0 ≤ n := Int32.le_iff_toInt_le.mpr (by rw [h]; exact Int.natCast_nonneg k)
    rw [UInt32.toNat_toUInt64, Int32.toNat_toUInt32_of_le hpos]
    change n.toInt.toNat = k
    rw [h, Int.toNat_natCast]
  unfold dateField padTwo
  split
  · next hlt => rw [uintToStrLpad_one_of_two (by simp) (by rwa [hnat]), hnat]
  · next hge =>
    rw [uintToStrLpad_full, hnat]
    rw [hnat]
    by_contra hlt
    have hone : (digits k).length ≤ 1 := by omega
    rw [digits, List.length_map, Nat.length_toDigits_le_iff (by decide) (by decide)] at hone
    omega

/-- The fields of a civil time as text. -/
def civilText (c : Civil) : Bytes :=
  padTwo c.year.toNat ++ minus :: (padTwo (c.month + 1) ++ minus :: (padTwo c.day ++ 0x54 ::
    (padTwo c.hour ++ C_KEY_DELIM :: (padTwo c.minute ++ C_KEY_DELIM :: padTwo c.second))))

/-- What `ccpon_pack_date_time_str` writes of the milliseconds, over the date. -/
def msecText (str : Bytes) (msec : Int64) : Bytes :=
  if msec > 0 then dot :: uintToStrLpad str msec.toUInt64 3 0x30 else []

/-- The sign of an offset. -/
def offsetSign (minFromUtc : Int) : UInt8 :=
  if minFromUtc = 0 then 0x5a else if minFromUtc < 0 then minus else 0x2b

/-- The hours of an offset, and the minutes if there are some. -/
def offsetDigits (minFromUtc : Int) : Bytes :=
  if minFromUtc = 0 then []
  else padTwo (minFromUtc.natAbs / 60) ++
    if minFromUtc.natAbs % 60 ≠ 0 then padTwo (minFromUtc.natAbs % 60) else []

theorem offset_eq {off : Int} (h : off.natAbs < 2 ^ 31) (k : Nat) (hk : 0 < k) (hk' : k < 2 ^ 31) :
    (Int32.ofNat off.natAbs / Int32.ofNat k).toInt = (off.natAbs / k : Nat) ∧
      (Int32.ofNat off.natAbs % Int32.ofNat k).toInt = (off.natAbs % k : Nat) := by
  have hoff : (Int32.ofNat off.natAbs).toInt = off.natAbs := by
    rw [← Int32.ofInt_eq_ofNat, Int32.toInt_ofInt_of_le (by omega) (by omega)]
  have hkk : (Int32.ofNat k).toInt = k := by
    rw [← Int32.ofInt_eq_ofNat, Int32.toInt_ofInt_of_le (by omega) (by omega)]
  constructor
  · rw [Int32.toInt_div_of_ne_right, hoff, hkk, Int.tdiv_eq_ediv_of_nonneg (by omega)]
    · rfl
    · intro he
      rw [he] at hkk
      have hone : (-1 : Int32).toInt = -1 := rfl
      omega
  · rw [Int32.toInt_mod, hoff, hkk, Int.tmod_eq_emod_of_nonneg (by omega)]
    rfl

theorem packDateTimeStr_eq {e : Int64} {off : Int} {c : Civil} (hoff : off.natAbs < 2 ^ 31)
    (hc : c.seconds = (e / 1000 + Int64.ofInt (off * 60)).toInt) (hlo : 0 ≤ c.year)
    (hhi : c.year < 2 ^ 31) :
    packDateTimeStr e off = civilText c ++ (msecText (civilText c) (e % 1000) ++
      offsetSign off :: offsetDigits off) := by
  have hshows := civilTm_shows (c := c) ⟨by omega, by omega⟩
  have hday : c.day ≤ 31 := Nat.le_trans c.day_le (monthLength_le _ _)
  have hmonth := c.month_lt
  have hyear : ((civilTm c).tm_year + 1900).toInt = c.year.toNat := by
    have hk : (1900 : Int32).toInt = 1900 := rfl
    rw [Int32.toInt_add, hk, hshows.year, Int.bmod_eq_of_le (by omega) (by omega)]
    omega
  have hmon : ((civilTm c).tm_mon + 1).toInt = (c.month + 1 : Nat) := by
    have hk : (1 : Int32).toInt = 1 := rfl
    rw [Int32.toInt_add, hk, hshows.month, Int.bmod_eq_of_le (by omega) (by omega)]
    omega
  have htext : dateField ((civilTm c).tm_year + 1900) ++ minus :: dateField ((civilTm c).tm_mon + 1) ++
      minus :: dateField (civilTm c).tm_mday ++ 0x54 :: dateField (civilTm c).tm_hour ++
      C_KEY_DELIM :: dateField (civilTm c).tm_min ++ C_KEY_DELIM :: dateField (civilTm c).tm_sec =
      civilText c := by
    rw [dateField_eq hyear, dateField_eq hmon, dateField_eq hshows.day, dateField_eq hshows.hour,
      dateField_eq hshows.minute, dateField_eq hshows.second]
    simp [civilText]
  obtain ⟨hdiv, hmod⟩ := offset_eq hoff 60 (by decide) (by decide)
  have hrest : Int32.ofNat off.natAbs % 60 ≠ 0 ↔ off.natAbs % 60 ≠ 0 := by
    rw [ne_eq, ← Int32.toInt_inj]
    have hzero : (0 : Int32).toInt = 0 := rfl
    have hmod' : (Int32.ofNat off.natAbs % 60).toInt = (off.natAbs % 60 : Nat) := hmod
    rw [hmod', hzero]
    omega
  have htz : (if off = 0 then [0x5a]
      else (if off < 0 then minus else 0x2b) :: (dateField (Int32.ofNat off.natAbs / 60) ++
        (if Int32.ofNat off.natAbs % 60 ≠ 0 then dateField (Int32.ofNat off.natAbs % 60) else []))) =
      offsetSign off :: offsetDigits off := by
    simp only [hrest, dateField_eq (n := Int32.ofNat off.natAbs / 60) hdiv,
      dateField_eq (n := Int32.ofNat off.natAbs % 60) hmod, offsetSign, offsetDigits]
    split <;> rfl
  simp only [packDateTimeStr, gmtime_eq hc]
  rw [htext, htz, List.append_assoc]
  rfl

/-! ## reading the text -/

section Reading

variable {c : Cursor UnpackContext} {rest : Bytes} {b : UInt8}

theorem unpackTm_civilText {d : Civil} (hlo : 0 ≤ d.year) (hhi : d.year < 2 ^ 31)
    (hb : EndsField b) (hc : c.input = civilText d ++ b :: rest) :
    unpackTm c = .ok (some (civilTm d)) { c with input := b :: rest, last := b } := by
  have hday : d.day ≤ 31 := Nat.le_trans d.day_le (monthLength_le _ _)
  have hmonth := d.month_lt
  have hhour := d.hour_lt
  have hmin := d.minute_lt
  have hsec := d.second_lt
  have hyear : Int32.ofNat d.year.toNat - 1900 = Int32.ofInt (d.year - 1900) := by
    have hk : (1900 : Int32) = Int32.ofInt 1900 := rfl
    rw [hk, ← Int32.ofInt_eq_ofNat, ← Int32.ofInt_sub, Int.toNat_of_nonneg hlo]
  have hmon : Int32.ofNat (d.month + 1) - 1 = Int32.ofInt d.month := by
    have hk : (1 : Int32) = Int32.ofInt 1 := rfl
    rw [hk, ← Int32.ofInt_eq_ofNat, ← Int32.ofInt_sub]
    congr 1
    omega
  have hinput : c.input = padTwo d.year.toNat ++ minus :: (padTwo (d.month + 1) ++ minus ::
      (padTwo d.day ++ 0x54 :: (padTwo d.hour ++ C_KEY_DELIM :: (padTwo d.minute ++ C_KEY_DELIM ::
        (padTwo d.second ++ b :: rest))))) := hc.trans (by simp [civilText])
  rw [unpackTm_fields (isField_padTwo (n := d.year.toNat) (by omega))
    (isField_padTwo (n := d.month + 1) (by omega)) (isField_padTwo (n := d.day) (by omega))
    (isField_padTwo (n := d.hour) (by omega)) (isField_padTwo (n := d.minute) (by omega))
    (isField_padTwo (n := d.second) (by omega)) hb hinput, hyear, hmon]
  simp only [civilTm, Int32.ofInt_eq_ofNat]

/-- What the digits of an offset stand for, by their count. -/
def offsetValue (n v : Nat) : Nat := if n = 2 then 60 * v else 60 * (v / 100) + v % 100

/-- From a hundred hours on the hours are too few when the last two digits are taken for minutes. -/
theorem offsetValue_lt {n v : Nat} (hn : n ≠ 2) (hv : 100 ≤ v) : offsetValue n v < 60 * v := by
  rw [offsetValue, if_neg hn]
  omega

theorem toInt_offset {n v : Nat} (h : v < 2 ^ 63) :
    (if n = 2 then 60 * Int64.ofNat v else 60 * (Int64.ofNat v / 100) + Int64.ofNat v % 100) =
      Int64.ofInt (offsetValue n v) := by
  have hv : (Int64.ofNat v).toInt = v := by
    rw [← Int64.ofInt_eq_ofNat, Int64.toInt_ofInt_of_le (by omega) (by omega)]
  have hk : (100 : Int64).toInt = 100 := rfl
  have hdiv : Int64.ofNat v / 100 = Int64.ofInt (v / 100 : Nat) := by
    rw [← Int64.ofInt_toInt (Int64.ofNat v / 100), Int64.toInt_div_of_ne_right _ _ (by decide), hv, hk,
      Int.tdiv_eq_ediv_of_nonneg (by omega)]
    rfl
  have hmod : Int64.ofNat v % 100 = Int64.ofInt (v % 100 : Nat) := by
    rw [← Int64.ofInt_toInt (Int64.ofNat v % 100), Int64.toInt_mod, hv, hk,
      Int.tmod_eq_emod_of_nonneg (by omega)]
    rfl
  have hsixty : (60 : Int64) = Int64.ofInt 60 := rfl
  rw [hdiv, hmod, offsetValue, hsixty, ← Int64.ofInt_eq_ofNat]
  split
  · rw [← Int64.ofInt_mul]
    rfl
  · rw [← Int64.ofInt_mul, ← Int64.ofInt_add]
    rfl

/-- An offset is two or four digits behind its sign. -/
theorem unpackUtcOffset_sign {p : UInt8} (hp : p = 0x2b ∨ p = minus) {bs : Bytes} {v : Nat}
    (h : IsField bs v) (hb : EndsField b) (hc : c.input = bs ++ b :: rest) :
    (bs.length = 2 ∨ bs.length = 4 → unpackUtcOffset p c =
      .ok (some (Int64.ofInt (if p = minus then -offsetValue bs.length v else offsetValue bs.length v)))
        { c with input := b :: rest, last := b }) ∧
    (¬ (bs.length = 2 ∨ bs.length = 4) → ∃ c', unpackUtcOffset p c = .ok none c') := by
  have hz : p ≠ 0x5a := by
    rcases hp with rfl | rfl <;> decide
  have hrun := unpackInt_field h hb hc
  constructor
  · intro hn
    rw [unpackUtcOffset, if_neg hz, if_pos hp, bind_of_ok hrun]
    simp only [hn, if_true, toInt_offset h.fits]
    by_cases hminus : p = minus
    · rw [if_pos hminus, if_pos hminus, Int64.ofInt_neg]
      rfl
    · rw [if_neg hminus, if_neg hminus]
      rfl
  · intro hn
    have herr : unpackUtcOffset p c = (do
        setError .malformedInput "Malformed TS offset in DateTime."
        return none : Unpack (Option Int64)) { c with input := b :: rest, last := b } := by
      rw [unpackUtcOffset, if_neg hz, if_pos hp, bind_of_ok hrun]
      simp only [hn, if_false]
    exact ⟨_, herr.trans rfl⟩

/-- The digits of an offset below a hundred hours. -/
theorem value_append_padTwo {h m : Nat} (hh : h < 2 ^ 63) (hm : m < 100) :
    Decimal.value 0 (padTwo h ++ padTwo m) = 100 * h + m := by
  have hm' := (isField_padTwo (n := m) (by omega)).value
  have hh' := (isField_padTwo hh).value
  obtain ⟨x, y, hxy⟩ := List.length_eq_two.mp (length_padTwo hm)
  unfold Decimal.value at *
  rw [hxy] at hm' ⊢
  rw [List.foldl_append, hh']
  simp only [List.foldl_cons, List.foldl_nil] at hm' ⊢
  omega

theorem offsetSign_eq {off : Int} (h : off ≠ 0) :
    (offsetSign off = 0x2b ∨ offsetSign off = minus) ∧ (offsetSign off = minus ↔ off < 0) := by
  rw [offsetSign, if_neg h]
  split
  · next hneg => exact ⟨.inr rfl, iff_of_true rfl hneg⟩
  · next hneg => exact ⟨.inl rfl, iff_of_false (by decide) hneg⟩

theorem isField_offsetDigits {off : Int} (h : off ≠ 0) (hoff : off.natAbs < 2 ^ 31) :
    IsField (offsetDigits off) (if off.natAbs % 60 ≠ 0 then 100 * (off.natAbs / 60) + off.natAbs % 60
      else off.natAbs / 60) := by
  have hhours := isField_padTwo (n := off.natAbs / 60) (by omega)
  have hmin := isField_padTwo (n := off.natAbs % 60) (by omega)
  rw [offsetDigits, if_neg h]
  by_cases hm : off.natAbs % 60 ≠ 0
  · rw [if_pos hm, if_pos hm]
    have hlen := length_padTwo_le (n := off.natAbs / 60) (by omega)
    have hlen' := length_padTwo_le (n := off.natAbs % 60) (by omega)
    refine ⟨?_, ?_, value_append_padTwo (by omega) (by omega), ?_, by omega⟩
    · intro b hb
      rcases List.mem_append.mp hb with hb | hb
      · exact hhours.digits b hb
      · exact hmin.digits b hb
    · exact List.append_ne_nil_of_left_ne_nil hhours.ne_nil _
    · rw [List.length_append]
      omega
  · rw [if_neg hm, if_neg hm, List.append_nil]
    exact hhours

/-- An offset below a hundred hours is read back. -/
theorem unpackUtcOffset_text {off : Int} (h : off.natAbs < 6000)
    (hc : c.input = offsetDigits off ++ quote :: rest) :
    ∃ last, unpackUtcOffset (offsetSign off) c =
      .ok (some (Int64.ofInt off)) { c with input := quote :: rest, last := last } := by
  by_cases hzero : off = 0
  · subst hzero
    refine ⟨c.last, ?_⟩
    have hc' : c.input = quote :: rest := hc
    rw [← hc']
    rfl
  · obtain ⟨hsign, hneg⟩ := offsetSign_eq hzero
    have hfield := isField_offsetDigits hzero (by omega)
    have hlen : (offsetDigits off).length = if off.natAbs % 60 ≠ 0 then 4 else 2 := by
      rw [offsetDigits, if_neg hzero, List.length_append, length_padTwo (by omega)]
      split
      · rw [length_padTwo (by omega)]
      · rfl
    refine ⟨quote, ?_⟩
    rw [(unpackUtcOffset_sign hsign hfield (by decide) hc).1 (by rw [hlen]; split <;> simp), hlen]
    simp only [hneg, offsetValue]
    congr 3
    split_ifs <;> omega

/-- An offset of a hundred hours or more is not: it is malformed or becomes another one. -/
theorem unpackUtcOffset_far {off : Int} (h : 6000 ≤ off.natAbs) (hoff : off.natAbs < 2 ^ 31)
    (hc : c.input = offsetDigits off ++ quote :: rest) :
    (∃ c', unpackUtcOffset (offsetSign off) c = .ok none c') ∨
    ∃ o : Int, o ≠ off ∧ o.natAbs < 2 ^ 31 ∧ unpackUtcOffset (offsetSign off) c =
      .ok (some (Int64.ofInt o)) { c with input := quote :: rest, last := quote } := by
  have hzero : off ≠ 0 := by omega
  obtain ⟨hsign, hneg⟩ := offsetSign_eq hzero
  have hfield := isField_offsetDigits hzero hoff
  obtain ⟨hok, hnone⟩ := unpackUtcOffset_sign hsign hfield (b := quote) (by decide) hc
  by_cases hlen : (offsetDigits off).length = 2 ∨ (offsetDigits off).length = 4
  · have hthree := three_le_length_padTwo (n := off.natAbs / 60) (by omega) (by omega)
    have hmin : ¬ off.natAbs % 60 ≠ 0 := by
      intro hm
      rw [offsetDigits, if_neg hzero, if_pos hm, List.length_append,
        length_padTwo (n := off.natAbs % 60) (by omega)] at hlen
      omega
    have hfour : (offsetDigits off).length ≠ 2 := by
      rw [offsetDigits, if_neg hzero, if_neg hmin, List.append_nil]
      omega
    rw [if_neg hmin] at hok
    have hlt := offsetValue_lt hfour (v := off.natAbs / 60) (by omega)
    have hwhole : 60 * (off.natAbs / 60) = off.natAbs := by omega
    refine .inr ⟨_, ?_, ?_, hok hlen⟩
    · split <;> omega
    · split <;> omega
  · exact .inl (hnone hlen)

/-- The milliseconds as they are read: below ten the second byte of the date is in them. -/
def msecRead (str : Bytes) (msec : Nat) : Nat :=
  if 10 ≤ msec then msec else 10 * ((str.getD 1 0).toNat - 48) + msec

theorem isField_msec {str : Bytes} (hstr : 3 ≤ str.length) (hdigit : IsDigit (str.getD 1 0))
    {m : UInt64} (hpos : 0 < m.toNat) (hlt : m.toNat < 1000) :
    IsField (uintToStrLpad str m 3 0x30) (msecRead str m.toNat) := by
  have hfield := isField_digits (n := m.toNat) (by omega)
  have hlen := length_digits_le (n := m.toNat) (by omega)
  unfold msecRead
  by_cases h : 10 ≤ m.toNat
  · rw [if_pos h]
    by_cases h' : 100 ≤ m.toNat
    · rw [uintToStrLpad_full (Nat.le_of_eq (length_digits_eq (k := 2) h' hlt).symm)]
      exact hfield
    · rw [uintToStrLpad_two_of_three hstr h (by omega)]
      exact isField_zero_cons hfield (by omega)
  · rw [if_neg h, uintToStrLpad_one_of_three hstr (by omega)]
    obtain ⟨hlo, hhi⟩ := hdigit
    have hvalue : Decimal.value 0 (str.getD 1 0 :: digits m.toNat) =
        10 * ((str.getD 1 0).toNat - 48) + m.toNat := by
      rw [digits_of_lt_ten (by omega), Decimal.value_cons, Decimal.value_cons, Decimal.value_nil]
      have hnat : (UInt8.ofNat (48 + m.toNat)).toNat = 48 + m.toNat := by
        rw [UInt8.toNat_ofNat']
        omega
      omega
    refine isField_zero_cons ⟨?_, List.cons_ne_nil _ _, hvalue, ?_, by omega⟩ ?_
    · intro b hb
      rcases List.mem_cons.mp hb with rfl | hb
      · exact ⟨hlo, hhi⟩
      · exact hfield.digits b hb
    · rw [List.length_cons]
      omega
    · rw [List.length_cons]
      omega

/-- The second byte of a date is a digit of its year. -/
theorem civilText_second (d : Civil) (hlo : 0 ≤ d.year) (hhi : d.year < 2 ^ 31) :
    3 ≤ (civilText d).length ∧ (civilText d).getD 1 0 = (padTwo d.year.toNat).getD 1 0 ∧
      IsDigit ((civilText d).getD 1 0) := by
  have hfield := isField_padTwo (n := d.year.toNat) (by omega)
  have hlen : 2 ≤ (padTwo d.year.toNat).length := by
    by_cases h : d.year.toNat < 100
    · rw [length_padTwo h]
    · exact Nat.le_trans (by decide) (three_le_length_padTwo (by omega) (by omega))
  have hget : (civilText d).getD 1 0 = (padTwo d.year.toNat).getD 1 0 := by
    rw [civilText, List.getD_append _ _ _ _ (by omega)]
  refine ⟨?_, hget, ?_⟩
  · rw [civilText, List.length_append, List.length_cons]
    omega
  · rw [hget, List.getD_eq_getElem _ _ (by omega)]
    exact hfield.digits _ (List.getElem_mem _)

/-- The milliseconds are read, if there are some, and the offset stays to be read. -/
theorem unpackMsecAndOffset_text {str : Bytes} (hstr : 3 ≤ str.length)
    (hdigit : IsDigit (str.getD 1 0)) {m : Int64} (hlt : m.toInt < 1000) {off : Int}
    (hc : c.input = msecText str m ++ (offsetSign off :: (offsetDigits off ++ quote :: rest))) :
    ∃ last, unpackMsecAndOffset c = orReturn (unpackUtcOffset (offsetSign off))
        (fun offset => pure (some
          (if 0 < m then Int32.ofNat (msecRead str m.toInt.toNat) else 0, offset)))
        { c with input := offsetDigits off ++ quote :: rest, last := last } := by
  have hsign : offsetSign off ≠ dot ∧ EndsField (offsetSign off) := by
    unfold offsetSign
    split_ifs <;> decide
  by_cases hpos : 0 < m
  · have hpos' : 0 < m.toInt := Int64.lt_iff_toInt_lt.mp hpos
    have hnat : m.toUInt64.toNat = m.toInt.toNat := by
      rw [Int64.toNat_toUInt64_of_le (Int64.le_of_lt hpos)]
      rfl
    have hfield := isField_msec hstr hdigit (m := m.toUInt64) (by omega) (by omega)
    rw [msecText, if_pos hpos] at hc
    refine ⟨offsetSign off, ?_⟩
    have hne := Nat.ne_of_gt (List.length_pos_of_ne_nil hfield.ne_nil)
    have hval : (Int64.ofNat (msecRead str m.toUInt64.toNat)).toInt32 =
        Int32.ofNat (msecRead str m.toInt.toNat) := by
      rw [hnat, ← Int64.ofInt_eq_ofNat, ← Int32.ofInt_eq_ofNat, Int64.toInt32_ofInt]
    rw [unpackMsecAndOffset, bind_of_ok (unpackTakeByte?_cons hc)]
    simp only [if_true]
    rw [bind_of_ok (unpackInt_field hfield hsign.2 rfl)]
    simp only [hne, if_false, hval]
    rw [bind_of_ok (unpackTakeByte?_cons rfl), if_pos hpos]
  · rw [msecText, if_neg hpos, List.nil_append] at hc
    refine ⟨offsetSign off, ?_⟩
    rw [unpackMsecAndOffset, bind_of_ok (unpackTakeByte?_cons hc)]
    simp only [hsign.1, if_false, if_neg hpos]

/-- A date-time that has been read: its fields, its milliseconds and its offset. -/
theorem unpackDateTime_some {tm : Tm} {msec : Int32} {offset epochSec : Int64}
    {c₁ c₂ : Cursor UnpackContext} (htm : unpackTm c = .ok (some tm) c₁)
    (hmsec : unpackMsecAndOffset c₁ = .ok (some (msec, offset)) c₂)
    (hsec : timegm tm = some epochSec) :
    unpackDateTime c = .ok
      (.dateTime ((epochSec - offset * 60) * 1000 + msec.toInt64) offset.toInt)
      { c₂ with reg := { c₂.reg with errNo := .ok } } := by
  have hitem : (do
      setErrNo .ok
      return some (← dateTimeItem tm msec offset) : Unpack (Option CCpcpItem)) c₂ =
      .ok (some (.dateTime ((epochSec - offset * 60) * 1000 + msec.toInt64) offset.toInt))
        { c₂ with reg := { c₂.reg with errNo := .ok } } := by
    rw [dateTimeItem, hsec]
    rfl
  rw [unpackDateTime, bind_of_ok ((orReturn_some htm).trans ((orReturn_some hmsec).trans hitem))]
  rfl

theorem unpackDateTime_none {tm : Tm} {c₁ c₂ : Cursor UnpackContext}
    (htm : unpackTm c = .ok (some tm) c₁) (hmsec : unpackMsecAndOffset c₁ = .ok none c₂) :
    unpackDateTime c = .ok .invalid c₂ := by
  rw [unpackDateTime, bind_of_ok ((orReturn_some htm).trans (orReturn_none hmsec))]
  rfl

/-- The item behind `d"`. -/
theorem unpackNext_dateTime (body : Bytes) :
    unpackNext (openStream (0x64 :: quote :: body)) = (do
      let item ← unpackDateTime
      unpackDateTimeEnd
      setItem item : Unpack Unit) { openStream body with last := quote } := by
  have hskip : skipInsignificant (openStream (0x64 :: quote :: body)) =
      .ok (some 0x64) { openStream (quote :: body) with last := 0x64 } := by
    rw [skipInsignificant, bind_of_ok (scan_done (a := some 0x64) rfl rfl)]
    rfl
  have hreset : setItem .invalid (openStream (0x64 :: quote :: body)) =
      .ok () (openStream (0x64 :: quote :: body)) := rfl
  rw [unpackNext, bind_of_ok (checkErrNo_of_ok rfl), bind_of_ok (getItem_apply _)]
  refine (bind_of_ok hreset).trans ((bind_of_ok hskip).trans ?_)
  have hitem : CCpon.unpackItem 0x64 = (do
      expectByte quote "DateTime should start with 'd'."
      let item ← unpackDateTime
      unpackDateTimeEnd
      return item) := rfl
  dsimp only
  rw [hitem, bind_assoc, bind_of_ok (expectByte_cons rfl)]
  simp only [bind_assoc, pure_bind]
  rfl

/-- A date-time that is read leaves its item, and nothing else is left of it. -/
theorem readsAs_iff_of_some {body : Bytes} {m : Int64} {off : Int} {c₂ : Cursor UnpackContext}
    (h : unpackDateTime { openStream body with last := quote } = .ok (.dateTime m off) c₂)
    (hinput : c₂.input = [quote]) (herr : c₂.reg.errNo = .ok) (item : CCpcpItem) :
    ReadsAs (0x64 :: quote :: body) item ↔ item = .dateTime m off := by
  have hend : unpackDateTimeEnd c₂ = .ok () { c₂ with input := [], last := quote } := by
    rw [unpackDateTimeEnd, bind_of_ok (unpackTakeByte?_cons hinput)]
    simp only [if_true]
    exact checkErrNo_of_ok herr
  have hrun : unpackNext (openStream (0x64 :: quote :: body)) = .ok ()
      { c₂ with input := [], last := quote, reg := { c₂.reg with item := .dateTime m off } } := by
    rw [unpackNext_dateTime, bind_of_ok h, bind_of_ok hend]
    rfl
  rw [ReadsAs, hrun]
  constructor
  · rintro ⟨c', hok, hitem, -⟩
    injection hok with _ hc'
    rw [← hc'] at hitem
    exact hitem.symm
  · rintro rfl
    exact ⟨_, rfl, rfl, rfl⟩

theorem not_readsAs_of_none {body : Bytes} {m : Int64} {off : Int} {c₂ : Cursor UnpackContext}
    (h : unpackDateTime { openStream body with last := quote } = .ok .invalid c₂) :
    ¬ ReadsAs (0x64 :: quote :: body) (.dateTime m off) := by
  rintro ⟨c', hok, hitem, -⟩
  rw [unpackNext_dateTime, bind_of_ok h] at hok
  obtain ⟨-, c₃, -, hset⟩ := bind_eq_ok.mp hok
  injection hset with _ hc'
  rw [← hc'] at hitem
  cases hitem

end Reading

/-! ## the round trip -/

theorem seconds_bounds {d : Civil} (hlo : 1 ≤ d.year) (hhi : d.year ≤ 10000) :
    -62135596800 ≤ d.seconds ∧ d.seconds < 253433923200 := by
  have hfirst := d.daysToYear_le
  have hlast := d.dayNumber_lt
  have hsec := d.secondOfDay_lt
  unfold Civil.seconds
  unfold daysToYear daysBeforeYear at *
  omega

theorem year_of_seconds {d : Civil} (hlo : -62135596800 ≤ d.seconds)
    (hhi : d.seconds ≤ 253402300800) : 1 ≤ d.year ∧ d.year ≤ 10000 := by
  have hfirst := d.daysToYear_le
  have hlast := d.dayNumber_lt
  have hsec := d.secondOfDay_lt
  unfold Civil.seconds at *
  unfold daysToYear daysBeforeYear at *
  omega

theorem daysRight_of_bounds {y : Int} (hlo : 1 ≤ y) (hhi : y ≤ 10000) : DaysRight y := by
  refine ⟨.inl hlo, ?_⟩
  unfold daysToYear daysBeforeYear
  omega

theorem toInt_ediv_emod (e : Int64) :
    (e / 1000).toInt = e.toInt.tdiv 1000 ∧ (e % 1000).toInt = e.toInt.tmod 1000 :=
  ⟨Int64.toInt_div_of_ne_right _ _ (by decide), Int64.toInt_mod _ _⟩

/-- The milliseconds that come back. -/
def msecBack (e : Int64) (d : Civil) : Int :=
  if 0 < e % 1000 then msecRead (civilText d) (e % 1000).toInt.toNat else 0

theorem msecBack_bounds (e : Int64) {d : Civil} (hlo : 0 ≤ d.year) (hhi : d.year < 2 ^ 31) :
    0 ≤ msecBack e d ∧ msecBack e d < 2000 := by
  obtain ⟨-, -, hdigit⟩ := civilText_second d hlo hhi
  obtain ⟨-, hmod⟩ := toInt_ediv_emod e
  have hlt := Int.tmod_lt_of_pos e.toInt (b := 1000) (by decide)
  have hdig := hdigit.2
  unfold msecBack msecRead
  rw [hmod]
  split_ifs <;> omega

theorem toInt64_msecBack (e : Int64) {d : Civil} (hlo : 0 ≤ d.year) (hhi : d.year < 2 ^ 31) :
    (if 0 < e % 1000 then Int32.ofNat (msecRead (civilText d) (e % 1000).toInt.toNat) else 0).toInt64 =
      Int64.ofInt (msecBack e d) := by
  have hlt := (msecBack_bounds e hlo hhi).2
  unfold msecBack at *
  split
  · next hpos =>
    rw [if_pos hpos] at hlt
    rw [toInt64_eq, ← Int32.ofInt_eq_ofNat, Int32.toInt_ofInt_of_le (by omega) (by omega)]
  · rfl

/-- The sum of what is read, of seconds, minutes and milliseconds. -/
theorem ofInt_epochMsec (s o ms : Int) :
    (Int64.ofInt s - Int64.ofInt o * 60) * 1000 + Int64.ofInt ms =
      Int64.ofInt ((s - o * 60) * 1000 + ms) := by
  have hk : (60 : Int64) = Int64.ofInt 60 := rfl
  have hk' : (1000 : Int64) = Int64.ofInt 1000 := rfl
  rw [hk, hk', ← Int64.ofInt_mul, ← Int64.ofInt_sub, ← Int64.ofInt_mul, ← Int64.ofInt_add]

/-- What follows the seconds ends them. -/
theorem endsField_msecText (ds : Bytes) (m : Int64) (off : Int) (tail : Bytes) :
    ∃ b rest, EndsField b ∧ msecText ds m ++ (offsetSign off :: tail) = b :: rest := by
  unfold msecText
  split
  · exact ⟨dot, _, by decide, rfl⟩
  · refine ⟨offsetSign off, _, ?_, rfl⟩
    unfold offsetSign
    split_ifs <;> decide

/-- Up to the milliseconds and the offset everything is read back. -/
theorem readsAs_packDateTime {e : Int64} {off : Int} {d : Civil} (hoff : off.natAbs < 2 ^ 31)
    (hcv : d.seconds = e.toInt.tdiv 1000 + 60 * off) (hlo : 1 ≤ d.year) (hhi : d.year ≤ 10000) :
    ReadsAs (packDateTime e off) (.dateTime e off) ↔
      off.natAbs < 6000 ∧ msecBack e d = e.toInt.tmod 1000 := by
  obtain ⟨hslo, hshi⟩ := seconds_bounds hlo hhi
  obtain ⟨hdiv, hmod⟩ := toInt_ediv_emod e
  obtain ⟨hlen, -, hdigit⟩ := civilText_second d (by omega) (by omega)
  obtain ⟨hmlo, hmhi⟩ := msecBack_bounds e (d := d) (by omega) (by omega)
  have hlt := Int.tmod_lt_of_pos e.toInt (b := 1000) (by decide)
  have hsum : (e / 1000 + Int64.ofInt (off * 60)) = Int64.ofInt d.seconds := by
    rw [hcv, Int64.ofInt_add, ← hdiv, Int64.ofInt_toInt, Int.mul_comm]
  have hsec : d.seconds = (e / 1000 + Int64.ofInt (off * 60)).toInt := by
    rw [hsum, Int64.toInt_ofInt_of_le (by omega) (by omega)]
  have htimegm : timegm (civilTm d) = some (e / 1000 + Int64.ofInt (off * 60)) :=
    (timegm_civilTm_iff hsec ⟨by omega, by omega⟩).mpr (daysRight_of_bounds hlo hhi)
  have htext : packDateTime e off = 0x64 :: quote :: (civilText d ++
      (msecText (civilText d) (e % 1000) ++ (offsetSign off :: (offsetDigits off ++ [quote])))) := by
    rw [packDateTime, packDateTimeStr_eq hoff hsec (by omega) (by omega)]
    simp [ascii]
  rw [htext]
  obtain ⟨b, rest, hb, heq⟩ :=
    endsField_msecText (civilText d) (e % 1000) off (offsetDigits off ++ [quote])
  rw [heq]
  have htm := unpackTm_civilText (d := d) (by omega) (by omega) hb
    (c := { openStream (civilText d ++ b :: rest) with last := quote }) rfl
  obtain ⟨last, hmsec⟩ := unpackMsecAndOffset_text hlen hdigit (m := e % 1000)
    (by rw [hmod]; exact hlt) (c := ⟨b :: rest, b, false, .init⟩) heq.symm
  have hback := toInt64_msecBack e (d := d) (by omega) (by omega)
  by_cases hnear : off.natAbs < 6000
  · obtain ⟨last', hoffset⟩ := unpackUtcOffset_text hnear
      (c := ⟨offsetDigits off ++ [quote], last, false, .init⟩) rfl
    rw [orReturn_some hoffset] at hmsec
    have hrun := unpackDateTime_some htm hmsec htimegm
    rw [hback, hsum, ofInt_epochMsec, Int64.toInt_ofInt_of_le (by omega) (by omega)] at hrun
    rw [readsAs_iff_of_some hrun rfl rfl, and_iff_right hnear, CCpcpItem.dateTime.injEq,
      and_iff_left rfl, ← Int64.toInt_inj, Int64.toInt_ofInt_of_le (by omega) (by omega)]
    have hparts := Int.mul_tdiv_add_tmod e.toInt 1000
    omega
  · refine iff_of_false ?_ fun h => hnear h.1
    rcases unpackUtcOffset_far (Nat.le_of_not_lt hnear) hoff
      (c := ⟨offsetDigits off ++ [quote], last, false, .init⟩) rfl with ⟨c', hnone⟩ | ⟨o, hne, ho, hsome⟩
    · rw [orReturn_none hnone] at hmsec
      exact not_readsAs_of_none (unpackDateTime_none htm hmsec)
    · rw [orReturn_some hsome] at hmsec
      have hrun := unpackDateTime_some htm hmsec htimegm
      rw [hback, hsum, ofInt_epochMsec, Int64.toInt_ofInt_of_le (by omega) (by omega)] at hrun
      rw [readsAs_iff_of_some hrun rfl rfl, CCpcpItem.dateTime.injEq]
      exact fun h => hne h.2.symm

/-- A civil time of the years that have four digits at most. -/
def FourDigits (c : Civil) : Prop := 1 ≤ c.year ∧ c.year ≤ 9999

instance (c : Civil) : Decidable (FourDigits c) := inferInstanceAs (Decidable (_ ∧ _))

/-- The date-times that are to come back: their time in UTC and their local time are
of the years 1 to 9999, and the offset is in quarters of an hour. -/
structure Representable (e : Int64) (off : Int32) : Prop where
  utc : FourDigits (civil (e.toInt / 1000))
  shifted : FourDigits (civil (e.toInt / 1000 + 60 * off.toInt))
  quarters : 15 ∣ off.toInt

/-- The date-times that do come back. Before 1970 there must be no fraction of a second; one to
nine milliseconds need a zero for the second digit of the local year; and the offset is below a
hundred hours. -/
def ComesBack (e : Int64) (off : Int32) : Prop :=
  (0 ≤ e.toInt ∨ 1000 ∣ e.toInt) ∧
    (0 < e.toInt % 1000 → e.toInt % 1000 < 10 →
      (padTwo (civil (e.toInt / 1000 + 60 * off.toInt)).year.toNat).getD 1 0 = 0x30) ∧
    off.toInt.natAbs < 6000

theorem msecRead_eq_iff {d : Civil} (hlo : 0 ≤ d.year) (hhi : d.year < 2 ^ 31) (m : Nat) :
    msecRead (civilText d) m = m ↔ (m < 10 → (padTwo d.year.toNat).getD 1 0 = 0x30) := by
  obtain ⟨-, hget, hdigit⟩ := civilText_second d hlo hhi
  have hdig := hdigit.1
  have hzero : (padTwo d.year.toNat).getD 1 0 = 0x30 ↔ ((civilText d).getD 1 0).toNat = 48 := by
    rw [hget, ← UInt8.toNat_inj]
    rfl
  rw [hzero, msecRead]
  split <;> omega

/-- A date-time comes back from its text in these cases and no others. -/
theorem readsAs_packDateTime_iff (e : Int64) (off : Int32) (h : Representable e off) :
    ReadsAs (packDateTime e off.toInt) (.dateTime e off.toInt) ↔ ComesBack e off := by
  obtain ⟨⟨hulo, huhi⟩, ⟨hllo, hlhi⟩, hquarters⟩ := h
  have hoff : off.toInt.natAbs < 2 ^ 31 := by
    have hlo := off.le_toInt
    have hhi := off.toInt_lt
    omega
  have hlocal := seconds_bounds hllo (by omega)
  have hlast : (civil (e.toInt / 1000 + 60 * off.toInt)).seconds < 253402300800 := by
    have hday := (civil (e.toInt / 1000 + 60 * off.toInt)).dayNumber_lt
    have hsec := (civil (e.toInt / 1000 + 60 * off.toInt)).secondOfDay_lt
    unfold Civil.seconds
    unfold daysToYear daysBeforeYear at hday
    omega
  rw [seconds_civil] at hlocal hlast
  have hparts := Int.mul_tdiv_add_tmod e.toInt 1000
  have hfloor := Int.mul_ediv_add_emod e.toInt 1000
  have hlt := Int.tmod_lt_of_pos e.toInt (b := 1000) (by decide)
  have hgt := Int.lt_tmod_of_pos e.toInt (b := 1000) (by decide)
  have hrem := Int.emod_lt_of_pos e.toInt (b := 1000) (by decide)
  have hrem' := Int.emod_nonneg e.toInt (b := 1000) (by decide)
  have hcv := seconds_civil (e.toInt.tdiv 1000 + 60 * off.toInt)
  obtain ⟨hyear, hyear'⟩ := year_of_seconds (d := civil (e.toInt.tdiv 1000 + 60 * off.toInt))
    (by omega) (by omega)
  obtain ⟨hdiv, hmod⟩ := toInt_ediv_emod e
  have hpos : 0 < e % 1000 ↔ 0 < e.toInt.tmod 1000 := by
    rw [← hmod]
    exact Int64.lt_iff_toInt_lt
  rw [readsAs_packDateTime hoff hcv hyear hyear', ComesBack, msecBack]
  by_cases hneg : 0 ≤ e.toInt ∨ 1000 ∣ e.toInt
  · have htdiv : e.toInt.tdiv 1000 = e.toInt / 1000 := by
      rw [tdiv_eq e.toInt (by decide), if_pos hneg, Int.add_zero]
    have htmod : e.toInt.tmod 1000 = e.toInt % 1000 := by omega
    rw [htdiv] at hyear hyear' ⊢
    have hread := msecRead_eq_iff (d := civil (e.toInt / 1000 + 60 * off.toInt)) (by omega) (by omega)
      (e.toInt % 1000).toNat
    simp only [hpos, hmod, htmod]
    split
    · next hm =>
      rw [and_iff_right hneg]
      constructor
      · rintro ⟨hnear, hback⟩
        exact ⟨fun _ hten => hread.mp (by omega) (by omega), hnear⟩
      · rintro ⟨hback, hnear⟩
        have := hread.mpr fun hten => hback hm (by omega)
        exact ⟨hnear, by omega⟩
    · next hm =>
      constructor
      · rintro ⟨hnear, -⟩
        exact ⟨hneg, fun hm' => absurd hm' hm, hnear⟩
      · rintro ⟨-, -, hnear⟩
        exact ⟨hnear, by omega⟩
  · refine iff_of_false (fun hback => ?_) fun hback => hneg hback.1
    have htdiv := tdiv_eq e.toInt (k := 1000) (by decide)
    rw [if_neg hneg] at htdiv
    have hback' := hback.2
    rw [if_neg (by rw [hpos]; omega)] at hback'
    omega

/-- The first millisecond of the year 2000, an hour east. -/
theorem readsAs_packDateTime_2000 :
    ReadsAs (packDateTime 946684800001 (60 : Int32).toInt) (.dateTime 946684800001 (60 : Int32).toInt) := by
  have hutc : civil ((946684800001 : Int64).toInt / 1000) = firstOfYear 2000 :=
    (civil_eq_iff _ _).mpr (by decide)
  have hlocal : civil ((946684800001 : Int64).toInt / 1000 + 60 * (60 : Int32).toInt) =
      { firstOfYear 2000 with hour := 1, hour_lt := by decide } :=
    (civil_eq_iff _ _).mpr (by decide)
  refine (readsAs_packDateTime_iff 946684800001 60 ⟨?_, ?_, by decide⟩).mpr ⟨by decide, ?_, by decide⟩
  · rw [hutc]
    decide
  · rw [hlocal]
    decide
  · rw [hlocal]
    decide

/-- The first millisecond of 1970 comes back as the 91st. -/
theorem not_readsAs_packDateTime : ¬ ∀ (e : Int64) (off : Int32), Representable e off →
    ReadsAs (packDateTime e off.toInt) (.dateTime e off.toInt) := by
  intro h
  have hcivil : civil ((1 : Int64).toInt / 1000) = firstOfYear 1970 :=
    (civil_eq_iff _ _).mpr (by decide)
  have hlocal : civil ((1 : Int64).toInt / 1000 + 60 * (0 : Int32).toInt) = firstOfYear 1970 :=
    (civil_eq_iff _ _).mpr (by decide)
  have hback := h 1 0 ⟨by rw [hcivil]; decide, by rw [hlocal]; decide, by decide⟩
  rw [readsAs_packDateTime (d := firstOfYear 1970) (by decide) (by decide) (by decide) (by decide)] at hback
  exact absurd hback.2 (by decide)

end LibShv.CCpon
