import LibShv.CCpon
import LibShv.Lib.Calendar

/-!
# LibShv.CCpon.Calendar

`ccpon_gmtime` and `ccpon_timegm` against the Gregorian calendar. The first is right
for every second whose year fits the field; the second counts the leap days before
the year 1 with divisions that round to zero.
-/

namespace LibShv.CCpon

open Calendar

/-! ## days to dates -/

/-- The days of an era before a year of it. Eras and their years start in March. -/
def eraDays (y : Int) : Int := 365 * y + y / 4 - y / 100 + y / 400

/-- The days before a year that is given by its century, its four years and its place there. -/
theorem eraDays_of {c q j : Int} (hc : 0 ≤ c ∧ c ≤ 3) (hq : 0 ≤ q ∧ q ≤ 24) (hj : 0 ≤ j ∧ j ≤ 3) :
    eraDays (100 * c + 4 * q + j) = 36524 * c + 1461 * q + 365 * j := by
  have h₄ : (100 * c + 4 * q + j) / 4 = 25 * c + q := by omega
  have h₁₀₀ : (100 * c + 4 * q + j) / 100 = c := by omega
  have h₄₀₀ : (100 * c + 4 * q + j) / 400 = 0 := by omega
  rw [eraDays, h₄, h₁₀₀, h₄₀₀]
  omega

/-- A day of the era by its century, its four years, its year there and its place in the
year: only the last year of four years and of a century may have 366 days. -/
structure EraDay (doe c q j doy : Int) : Prop where
  century : 0 ≤ c ∧ c ≤ 3
  four : 0 ≤ q ∧ q ≤ 24
  place : 0 ≤ j ∧ j ≤ 3
  nonneg : 0 ≤ doy
  lt : doy < 365 ∨ doy = 365 ∧ j = 3 ∧ (q = 24 → c = 3)
  eq : doe = 36524 * c + 1461 * q + 365 * j + doy

theorem exists_eraDay {n : Int} (h₀ : 0 ≤ n) (h₁ : n < 146097) :
    ∃ c q j doy, EraDay n c q j doy := by
  obtain ⟨c, r, hc₀, hc₁, hr, hr₁, rfl⟩ : ∃ c r : Int, 0 ≤ c ∧ c ≤ 3 ∧ 0 ≤ r ∧
      (r < 36524 ∨ c = 3 ∧ r = 36524) ∧ n = 36524 * c + r := by
    by_cases h : n = 146096
    · exact ⟨3, 36524, by omega⟩
    · exact ⟨n / 36524, n % 36524, by omega⟩
  obtain ⟨j, doy, hj₀, hj₁, hd₀, hd, heq⟩ : ∃ j doy : Int, 0 ≤ j ∧ j ≤ 3 ∧ 0 ≤ doy ∧
      (doy < 365 ∨ j = 3 ∧ doy = 365 ∧ r % 1461 = 1460) ∧ r % 1461 = 365 * j + doy := by
    by_cases h : r % 1461 = 1460
    · exact ⟨3, 365, by omega⟩
    · exact ⟨r % 1461 / 365, r % 1461 % 365, by omega⟩
  exact ⟨c, r / 1461, j, doy, ⟨hc₀, hc₁⟩, by omega, ⟨hj₀, hj₁⟩, hd₀, by omega, by omega⟩

namespace EraDay

variable {doe c q j doy : Int} (e : EraDay doe c q j doy)

include e

/-- The year of the era as the source computes it. -/
theorem yoe_eq :
    (doe - doe / 1460 + doe / 36524 - doe / 146096) / 365 = 100 * c + 4 * q + j := by
  obtain ⟨⟨hc₀, hc₁⟩, ⟨hq₀, hq₁⟩, ⟨hj₀, hj₁⟩, hd₀, hd, rfl⟩ := e
  have hcentury : (36524 * c + 1461 * q + 365 * j + doy) / 36524 -
      (36524 * c + 1461 * q + 365 * j + doy) / 146096 = c := by
    obtain ⟨r, hr⟩ : ∃ r, r = 1461 * q + 365 * j + doy := ⟨_, rfl⟩
    have hr₁ : 0 ≤ r ∧ (r < 36524 ∨ r = 36524 ∧ c = 3) := by omega
    have hsum : 36524 * c + 1461 * q + 365 * j + doy = 36524 * c + r := by omega
    rw [hsum]
    omega
  have hfour : (36524 * c + 1461 * q + 365 * j + doy) / 1460 =
      25 * c + q + (24 * c + q + 365 * j + doy) / 1460 := by omega
  generalize (36524 * c + 1461 * q + 365 * j + doy) / 36524 = k at *
  generalize (36524 * c + 1461 * q + 365 * j + doy) / 146096 = l at *
  rw [hfour]
  have hone : (24 * c + q + 365 * j + doy) / 1460 = 0 ∨
      (24 * c + q + 365 * j + doy) / 1460 = 1 ∧ 1364 ≤ 365 * j + doy := by omega
  have hlast : doy = 365 → (24 * c + q + 365 * j + doy) / 1460 = 1 := by omega
  generalize (24 * c + q + 365 * j + doy) / 1460 = ε at *
  omega

/-- A 366th day comes only before a leap year's March. -/
theorem isLeap_succ (era : Int) (h : doy = 365) :
    IsLeap (100 * c + 4 * q + j + era * 400 + 1) := by
  obtain ⟨⟨hc₀, hc₁⟩, ⟨hq₀, hq₁⟩, ⟨hj₀, hj₁⟩, hd₀, hd, -⟩ := e
  unfold IsLeap
  omega

end EraDay

theorem eraDays_add_mul (y era : Int) : eraDays (y + era * 400) = eraDays y + 146097 * era := by
  unfold eraDays
  omega

/-- A year from its first of March: the leap day is the last one before. -/
theorem daysToYear_march (y : Int) :
    daysToYear y + (if IsLeap y then 60 else 59) = eraDays y - 719468 := by
  unfold daysToYear daysBeforeYear eraDays
  by_cases h : IsLeap y
  · rw [if_pos h]
    unfold IsLeap at h
    omega
  · rw [if_neg h]
    unfold IsLeap at h
    omega

theorem daysToYear_succ_march (y : Int) : daysToYear (y + 1) = eraDays y - 719468 + 306 := by
  unfold daysToYear daysBeforeYear eraDays
  omega

/-- The days before a month; from March on they are those of `(153 * mp + 2) / 5`. -/
theorem daysBeforeMonth_eq (y : Int) {m : Nat} (hm : m < 12) :
    Calendar.daysBeforeMonth y m =
      if m < 2 then 31 * m
      else (if IsLeap y then 60 else 59) + (153 * (m - 2) + 2) / 5 := by
  unfold Calendar.daysBeforeMonth monthLength
  by_cases h : IsLeap y
  · simp only [if_pos h]
    revert m
    decide
  · simp only [if_neg h]
    revert m
    decide

/-- The era of a day is the floor of the division, which the source writes out. -/
theorem era_eq (z : Int) :
    (if z ≥ 0 then z else z - 146096).tdiv 146097 = z / 146097 := by
  split
  · rw [Int.tdiv_eq_ediv_of_nonneg (by omega)]
  · have hneg := Int.neg_tdiv (a := z - 146096) (b := 146097)
    rw [Int.tdiv_eq_ediv_of_nonneg (by omega)] at hneg
    omega

/-- The year and the month of a March year. -/
theorem civilFromDays_eq {z c q j doy : Int}
    (e : EraDay (z + 719468 - (z + 719468) / 146097 * 146097) c q j doy) :
    civilFromDays z =
      (100 * c + 4 * q + j + (z + 719468) / 146097 * 400 + (if doy < 306 then 0 else 1),
        (if doy < 306 then (5 * doy + 2) / 153 + 2 else (5 * doy + 2) / 153 - 10),
        doy - (153 * ((5 * doy + 2) / 153) + 2) / 5 + 1) := by
  have hyoe := e.yoe_eq
  have hdays := eraDays_of e.century e.four e.place
  obtain ⟨⟨hc₀, hc₁⟩, ⟨hq₀, hq₁⟩, ⟨hj₀, hj₁⟩, hd₀, hd, heq⟩ := e
  obtain ⟨yoe, hy⟩ : ∃ yoe, yoe = 100 * c + 4 * q + j := ⟨_, rfl⟩
  obtain ⟨doe, hdoe⟩ : ∃ doe, doe = z + 719468 - (z + 719468) / 146097 * 146097 := ⟨_, rfl⟩
  rw [← hy] at hyoe hdays ⊢
  rw [← hdoe] at hyoe heq
  have hdoy : doe - (365 * yoe + yoe / 4 - yoe / 100) = doy := by
    unfold eraDays at hdays
    omega
  have hpos : 0 ≤ doe - doe / 1460 + doe / 36524 - doe / 146096 := by
    have := Int.ediv_nonneg_iff_of_pos (a := doe - doe / 1460 + doe / 36524 - doe / 146096)
      (b := 365) (by decide)
    omega
  unfold civilFromDays
  simp only [era_eq, ← hdoe]
  simp only [Int.tdiv_eq_ediv_of_nonneg (show 0 ≤ doe by omega),
    Int.tdiv_eq_ediv_of_nonneg hpos, hyoe]
  simp only [Int.tdiv_eq_ediv_of_nonneg (show 0 ≤ yoe by omega), hdoy]
  simp only [Int.tdiv_eq_ediv_of_nonneg (show 0 ≤ 5 * doy + 2 by omega)]
  rw [Int.tdiv_eq_ediv_of_nonneg (show 0 ≤ 153 * ((5 * doy + 2) / 153) + 2 by omega)]
  have hdoy₁ : doy ≤ 365 := by omega
  clear hyoe hdays heq hdoe hdoy hpos hd
  refine Prod.ext ?_ (Prod.ext ?_ rfl)
  · simp only
    split_ifs <;> omega
  · simp only
    split_ifs <;> omega

/-- `civil_from_days` gives the date of every day. -/
theorem civilFromDays_spec (z : Int) :
    ∃ d : Date, civilFromDays z = (d.year, (d.month : Int), (d.day : Int)) ∧ d.dayNumber = z := by
  obtain ⟨c, q, j, doy, e⟩ := exists_eraDay
    (n := z + 719468 - (z + 719468) / 146097 * 146097) (by omega) (by omega)
  have hcivil := civilFromDays_eq e
  have hleap := e.isLeap_succ ((z + 719468) / 146097)
  have hdays := eraDays_of e.century e.four e.place
  obtain ⟨-, -, ⟨hj₀, hj₁⟩, hd₀, hd, heq⟩ := e
  generalize (z + 719468) / 146097 = era at *
  obtain ⟨y, hy⟩ : ∃ y, y = 100 * c + 4 * q + j + era * 400 := ⟨_, rfl⟩
  rw [← hy] at hcivil hleap
  have hera := eraDays_add_mul (100 * c + 4 * q + j) era
  rw [← hy, hdays] at hera
  have hz : z = eraDays y - 719468 + doy := by omega
  have hdoy₁ : doy ≤ 365 := by omega
  clear hdays hera heq hd hy
  obtain ⟨mp, hmp⟩ : ∃ mp : Nat, mp = (5 * doy + 2) / 153 := ⟨_, Int.toNat_of_nonneg (by omega)⟩
  rw [← hmp] at hcivil
  obtain ⟨day, hday⟩ : ∃ day : Nat, day = doy - (153 * mp + 2) / 5 + 1 :=
    ⟨_, Int.toNat_of_nonneg (by omega)⟩
  rw [← hday] at hcivil
  by_cases h : doy < 306
  · have hmarch := daysToYear_march y
    rw [if_pos h, if_pos h, Int.add_zero] at hcivil
    have hbefore := daysBeforeMonth_eq y (m := mp + 2) (by omega)
    rw [if_neg (by omega), Nat.add_sub_cancel] at hbefore
    refine ⟨⟨y, mp + 2, day, by omega, by omega, ?_⟩, ?_, ?_⟩
    · unfold monthLength
      rw [if_neg (by omega)]
      split <;> omega
    · exact_mod_cast hcivil
    · simp only [Date.dayNumber]
      by_cases hl : IsLeap y
      · rw [if_pos hl] at hmarch hbefore
        omega
      · rw [if_neg hl] at hmarch hbefore
        omega
  · have hmarch := daysToYear_succ_march y
    rw [if_neg h, if_neg h] at hcivil
    obtain ⟨m, rfl⟩ : ∃ m, mp = m + 10 := ⟨mp - 10, by omega⟩
    have hbefore := daysBeforeMonth_eq (y + 1) (m := m) (by omega)
    rw [if_pos (by omega)] at hbefore
    refine ⟨⟨y + 1, m, day, by omega, by omega, ?_⟩, ?_, ?_⟩
    · unfold monthLength
      by_cases hl : IsLeap (y + 1)
      · rw [if_pos hl]
        split_ifs <;> omega
      · rw [if_neg hl]
        have := mt hleap hl
        split_ifs <;> omega
    · rw [hcivil]
      refine Prod.ext rfl (Prod.ext ?_ rfl)
      simp
    · simp only [Date.dayNumber]
      omega

theorem civilFromDays_dayNumber (d : Date) :
    civilFromDays d.dayNumber = (d.year, (d.month : Int), (d.day : Int)) := by
  obtain ⟨e, he, hday⟩ := civilFromDays_spec d.dayNumber
  rw [he, dayNumber_injective hday]

/-! ## `ccpon_gmtime` -/

/-- The fields of a civil time. -/
def civilTm (c : Civil) : Tm where
  tm_year := Int32.ofInt (c.year - 1900)
  tm_mon := Int32.ofInt c.month
  tm_mday := Int32.ofInt c.day
  tm_hour := Int32.ofInt c.hour
  tm_min := Int32.ofInt c.minute
  tm_sec := Int32.ofInt c.second

/-- The day and the second of it, from divisions that round to zero. -/
theorem day_and_second (c : Civil) :
    let days := c.seconds.tdiv 86400
    let hms := c.seconds - 86400 * days
    (if hms < 0 then days - 1 else days) = c.dayNumber ∧
      (if hms < 0 then 86400 + hms else hms) = c.secondOfDay := by
  have hday := c.seconds_ediv
  have hsec := c.seconds_emod
  have hdiv : c.seconds.tdiv 86400 =
      if 0 ≤ c.seconds then c.seconds / 86400 else -(-c.seconds / 86400) := by
    split
    · exact Int.tdiv_eq_ediv_of_nonneg ‹_›
    · have hneg := Int.neg_tdiv (a := c.seconds) (b := 86400)
      rw [Int.tdiv_eq_ediv_of_nonneg (by omega)] at hneg
      omega
  simp only [hdiv]
  split_ifs <;> omega

theorem gmtime_eq {t : Int64} {c : Civil} (ht : c.seconds = t.toInt) : gmtime t = civilTm c := by
  obtain ⟨hdays, hhms⟩ := day_and_second c
  have hh := c.hour_lt
  have hm := c.minute_lt
  have hs := c.second_lt
  have hhour : (c.secondOfDay : Int).tdiv 3600 = c.hour := by
    rw [Int.tdiv_eq_ediv_of_nonneg (by omega)]
    unfold Civil.secondOfDay
    omega
  have hrest : (c.secondOfDay : Int).tmod 3600 = (60 * c.minute + c.second : Nat) := by
    rw [Int.tmod_eq_emod_of_nonneg (by omega)]
    unfold Civil.secondOfDay
    omega
  have hmin : ((60 * c.minute + c.second : Nat) : Int).tdiv 60 = c.minute := by
    rw [Int.tdiv_eq_ediv_of_nonneg (by omega)]
    omega
  have hsec : ((60 * c.minute + c.second : Nat) : Int).tmod 60 = c.second := by
    rw [Int.tmod_eq_emod_of_nonneg (by omega)]
    omega
  simp only [gmtime, ← ht, show (3600 * 24 : Int) = 86400 by decide, hdays, hhms,
    civilFromDays_dayNumber, hhour, hrest, hmin, hsec, civilTm]

/-- A `struct tm` shows a civil time: its fields are the fields of the time. -/
structure Tm.Shows (tm : Tm) (c : Civil) : Prop where
  year : tm.tm_year.toInt + 1900 = c.year
  month : tm.tm_mon.toInt = c.month
  day : tm.tm_mday.toInt = c.day
  hour : tm.tm_hour.toInt = c.hour
  minute : tm.tm_min.toInt = c.minute
  second : tm.tm_sec.toInt = c.second

/-- The year of a civil time fits the field `tm_year`. -/
def YearFits (y : Int) : Prop := -2 ^ 31 ≤ y - 1900 ∧ y - 1900 < 2 ^ 31

instance (y : Int) : Decidable (YearFits y) := inferInstanceAs (Decidable (_ ∧ _))

theorem civilTm_shows {c : Civil} (h : YearFits c.year) : (civilTm c).Shows c := by
  have hday : c.day ≤ 31 := Nat.le_trans c.day_le (monthLength_le _ _)
  have := c.month_lt
  have := c.hour_lt
  have := c.minute_lt
  have := c.second_lt
  obtain ⟨hlo, hhi⟩ := h
  constructor <;> simp only [civilTm] <;>
    rw [Int32.toInt_ofInt_of_le (by omega) (by omega)]
  omega

/-! ## `ccpon_timegm` -/

theorem isLeap_eq (y : Int32) : isLeap y = decide (IsLeap y.toInt) := by
  have hmod : ∀ k : Int32, (y % k == 0) = decide (k.toInt ∣ y.toInt) := by
    intro k
    rw [beq_eq_decide, decide_eq_decide, ← Int32.toInt_inj, Int32.toInt_mod]
    exact Int.dvd_iff_tmod_eq_zero.symm
  rw [isLeap, hmod, hmod, bne, hmod, Bool.eq_iff_iff, decide_eq_true_iff]
  simp [IsLeap]

/-- The table of the source holds the days before each month. -/
theorem getElem?_daysBeforeMonth (y : Int) {m : Nat} (hm : m < 12) :
    (daysBeforeMonth (decide (IsLeap y)))[m]? = some (Int32.ofNat (Calendar.daysBeforeMonth y m)) := by
  rw [daysBeforeMonth_eq y hm]
  by_cases h : IsLeap y
  · simp only [if_pos h, decide_eq_true h]
    revert m
    decide
  · simp only [if_neg h, decide_eq_false h]
    revert m
    decide

theorem daysFrom1jan_eq {year month mday : Int32} {m : Nat} (hm : m < 12) (hmon : month.toInt = m) :
    daysFrom1jan year month mday =
      some (Int32.ofNat (Calendar.daysBeforeMonth year.toInt m) + mday - 1) := by
  have hpos : 0 ≤ month := by
    rw [Int32.le_iff_toInt_le, hmon]
    exact Int.natCast_nonneg m
  rw [daysFrom1jan, if_pos hpos, isLeap_eq, hmon, Int.toNat_natCast, getElem?_daysBeforeMonth _ hm]
  rfl

theorem toInt64_eq (x : Int32) : x.toInt64 = Int64.ofInt x.toInt := by
  rw [← Int32.toInt_toInt64, Int64.ofInt_toInt]

theorem daysBeforeMonth_lt (y : Int) {m : Nat} (hm : m < 12) :
    Calendar.daysBeforeMonth y m < 367 := by
  have h := daysBeforeMonth_monotone y hm.le
  rw [daysBeforeMonth_twelve] at h
  unfold yearLength at h
  split at h <;> omega

/-- The seconds of the fields; the month has to be one. -/
theorem timegm_eq {tm : Tm} {m : Nat} (hm : m < 12) (hmon : tm.tm_mon.toInt = m)
    (hlo : 1 ≤ tm.tm_mday.toInt) (hhi : tm.tm_mday.toInt ≤ 31) :
    timegm tm = some (Int64.ofInt (86400 * ((daysFrom1970 (tm.tm_year + 1900)).toInt +
      Calendar.daysBeforeMonth (tm.tm_year + 1900).toInt m + (tm.tm_mday.toInt - 1)) +
      (3600 * tm.tm_hour.toInt + 60 * tm.tm_min.toInt + tm.tm_sec.toInt))) := by
  have hlt := daysBeforeMonth_lt (tm.tm_year + 1900).toInt hm
  have hday : ∀ n : Nat, n < 367 →
      (Int32.ofNat n + tm.tm_mday - 1).toInt = n + (tm.tm_mday.toInt - 1) := by
    intro n hn
    have hone : (1 : Int32).toInt = 1 := rfl
    rw [Int32.toInt_sub, Int32.toInt_add, ← Int32.ofInt_eq_ofNat,
      Int32.toInt_ofInt_of_le (by omega) (by omega), hone,
      Int.bmod_eq_of_le (n := n + tm.tm_mday.toInt) (by omega) (by omega),
      Int.bmod_eq_of_le (by omega) (by omega)]
    omega
  replace hday := hday _ hlt
  rw [timegm, daysFrom1jan_eq hm hmon, Option.map_some]
  simp only [toInt64_eq, hday]
  simp only [← Int64.ofInt_add, ← Int64.ofInt_mul, show (24 : Int64) = Int64.ofInt 24 by rfl,
    show (60 : Int64) = Int64.ofInt 60 by rfl]
  congr 2
  ring

/-- The days before the year after `n`, by divisions that round to zero. -/
def truncDays (n : Int) : Int := 365 * n + n.tdiv 400 - n.tdiv 100 + n.tdiv 4

theorem tdiv_eq (n : Int) {k : Int} (hk : 0 < k) :
    n.tdiv k = n / k + if 0 ≤ n ∨ k ∣ n then 0 else 1 := by
  rw [Int.tdiv_eq_ediv, Int.sign_eq_one_of_pos hk]

/-- Before the year 1 the sum is right in the leap years, and one too much elsewhere. -/
theorem truncDays_eq (n : Int) :
    truncDays n = daysBeforeYear (n + 1) + if 0 ≤ n ∨ IsLeap n then 0 else 1 := by
  unfold truncDays daysBeforeYear IsLeap
  rw [tdiv_eq n (by decide), tdiv_eq n (by decide), tdiv_eq n (by decide)]
  split_ifs <;> omega

theorem daysFrom0_eq (y : Int32) : daysFrom0 y = Int32.ofInt (truncDays (y - 1).toInt) := by
  have hdiv : ∀ k : Int32, k ≠ -1 →
      (y - 1) / k = Int32.ofInt ((y - 1).toInt.tdiv k.toInt) := by
    intro k hk
    rw [← Int32.toInt_div_of_ne_right _ _ hk, Int32.ofInt_toInt]
  simp only [daysFrom0, truncDays, Int32.ofInt_add, Int32.ofInt_sub, Int32.ofInt_mul,
    Int32.ofInt_toInt]
  rw [hdiv 400 (by decide), hdiv 100 (by decide), hdiv 4 (by decide)]
  rfl

theorem daysFrom1970_eq (y : Int32) :
    daysFrom1970 y = Int32.ofInt (truncDays (y - 1).toInt - daysBeforeYear 1970) := by
  rw [daysFrom1970, daysFrom0_eq, Int32.ofInt_sub]
  rfl

/-- `days_from_1970` is right for a year. -/
def DaysRight (y : Int) : Prop :=
  (1 ≤ y ∨ IsLeap (y - 1)) ∧ -2 ^ 31 ≤ daysToYear y ∧ daysToYear y < 2 ^ 31

instance (y : Int) : Decidable (DaysRight y) := inferInstanceAs (Decidable (_ ∧ _ ∧ _))

theorem truncDays_sub (y : Int) :
    truncDays (y - 1) - daysBeforeYear 1970 =
      daysToYear y + if 1 ≤ y ∨ IsLeap (y - 1) then 0 else 1 := by
  have hyear : 0 ≤ y - 1 ↔ 1 ≤ y := by omega
  rw [truncDays_eq, daysToYear, Int.sub_add_cancel]
  simp only [hyear]
  omega

/-- The years that are near enough for 32 bits of days. -/
theorem year_bounds {y : Int} (hlo : -2 ^ 31 ≤ daysToYear y) (hhi : daysToYear y < 2 ^ 31) :
    -5877640 ≤ y ∧ y ≤ 5881580 := by
  unfold daysToYear daysBeforeYear at *
  omega

theorem toInt_yearOf {y : Int} (h : YearFits y) (hhi : y < 2 ^ 31) :
    (Int32.ofInt (y - 1900) + 1900).toInt = y := by
  obtain ⟨hlo, -⟩ := h
  have hk : (1900 : Int32) = Int32.ofInt 1900 := rfl
  rw [hk, ← Int32.ofInt_add, Int32.toInt_ofInt_of_le (by omega) (by omega)]
  omega

theorem toInt_daysFrom1970 {y : Int} (h : YearFits y) (hhi : y < 2 ^ 31) :
    (daysFrom1970 (Int32.ofInt (y - 1900) + 1900)).toInt =
      (daysToYear y + if 1 ≤ y ∨ IsLeap (y - 1) then 0 else 1).bmod (2 ^ 32) := by
  have hone : (1 : Int32).toInt = 1 := rfl
  have hprev : (Int32.ofInt (y - 1900) + 1900 - 1).toInt = y - 1 := by
    rw [Int32.toInt_sub, toInt_yearOf h hhi, hone]
    obtain ⟨hlo, -⟩ := h
    exact Int.bmod_eq_of_le (by omega) (by omega)
  rw [daysFrom1970_eq, hprev, truncDays_sub, Int32.toInt_ofInt]
  rfl

theorem daysFrom1970_eq_iff {y : Int} (h : YearFits y) :
    (daysFrom1970 (Int32.ofInt (y - 1900) + 1900)).toInt = daysToYear y ↔ DaysRight y := by
  constructor
  · intro heq
    have hlo := Int32.le_toInt (daysFrom1970 (Int32.ofInt (y - 1900) + 1900))
    have hhi := Int32.toInt_lt (daysFrom1970 (Int32.ofInt (y - 1900) + 1900))
    rw [heq] at hlo hhi
    refine ⟨?_, hlo, hhi⟩
    rw [toInt_daysFrom1970 h (by have := year_bounds hlo hhi; omega)] at heq
    by_contra hno
    rw [if_neg hno, Int.bmod_def] at heq
    omega
  · rintro ⟨hyear, hlo, hhi⟩
    rw [toInt_daysFrom1970 h (by have := year_bounds hlo hhi; omega), if_pos hyear, Int.add_zero]
    exact Int.bmod_eq_of_le (by omega) (by omega)

/-- `ccpon_timegm` takes the fields of a civil time back to its seconds. -/
theorem timegm_civilTm_iff {t : Int64} {c : Civil} (ht : c.seconds = t.toInt)
    (h : YearFits c.year) : timegm (civilTm c) = some t ↔ DaysRight c.year := by
  have hs := civilTm_shows h
  have hday : c.day ≤ 31 := Nat.le_trans c.day_le (monthLength_le _ _)
  have hpos := c.day_pos
  have hsec : 3600 * c.hour + 60 * c.minute + c.second < 86400 := c.secondOfDay_lt
  rw [timegm_eq c.month_lt hs.month (by rw [hs.day]; omega) (by rw [hs.day]; omega), hs.day, hs.hour,
    hs.minute, hs.second, Option.some_inj]
  have hyear : (civilTm c).tm_year = Int32.ofInt (c.year - 1900) := rfl
  rw [hyear, ← daysFrom1970_eq_iff h]
  have hlo := Int32.le_toInt (daysFrom1970 (Int32.ofInt (c.year - 1900) + 1900))
  have hhi := Int32.toInt_lt (daysFrom1970 (Int32.ofInt (c.year - 1900) + 1900))
  have hlt := daysBeforeMonth_lt (Int32.ofInt (c.year - 1900) + 1900).toInt c.month_lt
  have hlt' := daysBeforeMonth_lt c.year c.month_lt
  rw [← Int64.toInt_inj, Int64.toInt_ofInt_of_le (by omega) (by omega), ← ht]
  unfold Civil.seconds Date.dayNumber Civil.secondOfDay
  by_cases hbig : c.year < 2 ^ 31
  · rw [toInt_yearOf h hbig]
    constructor <;> intro heq <;> omega
  · have hfar : 2 ^ 39 < daysToYear c.year := by
      unfold daysToYear daysBeforeYear
      omega
    constructor <;> intro heq <;> omega

/-- For every second whose year fits, the fields are those of the second, and the way
back is right just where the days before the year are: they have to fit 32 bits, and
from the year 0 down the year before has to be a leap year. -/
theorem timegm_gmtime_iff (t : Int64) (h : YearFits (civil t.toInt).year) :
    ((gmtime t).Shows (civil t.toInt) ∧ timegm (gmtime t) = some t) ↔
      DaysRight (civil t.toInt).year := by
  have ht := seconds_civil t.toInt
  rw [gmtime_eq ht, timegm_civilTm_iff ht h, and_iff_right (civilTm_shows h)]

/-- The first second of a year. -/
def firstOfYear (y : Int) : Civil where
  year := y
  month := 0
  day := 1
  hour := 0
  minute := 0
  second := 0
  month_lt := by decide
  day_pos := by decide
  day_le := one_le_monthLength y 0
  hour_lt := by decide
  minute_lt := by decide
  second_lt := by decide

theorem civil_epoch : civil (0 : Int64).toInt = firstOfYear 1970 :=
  (civil_eq_iff _ _).mpr (by decide)

theorem timegm_gmtime_epoch :
    (gmtime 0).Shows (civil (0 : Int64).toInt) ∧ timegm (gmtime 0) = some 0 :=
  (timegm_gmtime_iff 0 (by rw [civil_epoch]; decide)).mpr (by rw [civil_epoch]; decide)

/-- The first second of the year 0 comes back a day late. -/
theorem not_timegm_gmtime : ¬ ∀ t : Int64, YearFits (civil t.toInt).year →
    (gmtime t).Shows (civil t.toInt) ∧ timegm (gmtime t) = some t := by
  intro h
  have hcivil : civil (-62167219200 : Int64).toInt = firstOfYear 0 :=
    (civil_eq_iff _ _).mpr (by decide)
  have hback : timegm (gmtime (-62167219200)) = some (-62167132800) := by decide
  have heq := (h (-62167219200) (by rw [hcivil]; decide)).2
  rw [hback] at heq
  exact absurd heq (by decide)

end LibShv.CCpon
