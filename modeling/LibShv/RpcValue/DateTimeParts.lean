import LibShv.CChainPack.DateTime
import LibShv.CCpon.Calendar

/-!
# LibShv.RpcValue.DateTimeParts

`RpcDateTime::Parts`: a date-time taken apart into its local fields, and made of fields.

Each field is tested on its own, so that fields are accepted that are no date and no
time of day. The offset is applied on the way to the fields and not on the way back.
-/

namespace LibShv.RpcDateTime

open CCpon Calendar

/-- `RpcDateTime::Parts`. -/
structure Parts where
  year : Int32
  month : Int32
  day : Int32
  hour : Int32
  min : Int32
  sec : Int32
  msec : Int32
deriving DecidableEq

namespace Parts

/-- `Parts::isValid`. -/
def isValid (p : Parts) : Bool :=
  1970 ≤ p.year && (1 ≤ p.month && p.month ≤ 12) && (1 ≤ p.day && p.day ≤ 31) &&
    (0 ≤ p.hour && p.hour ≤ 59) && (0 ≤ p.min && p.min ≤ 59) && (0 ≤ p.sec && p.sec ≤ 59) &&
    (0 ≤ p.msec && p.msec ≤ 999)

/-- The fields that `fromParts` converts. -/
def tm (p : Parts) : Tm where
  tm_year := p.year - 1900
  tm_mon := p.month - 1
  tm_mday := p.day
  tm_hour := p.hour
  tm_min := p.min
  tm_sec := p.sec

end Parts

/-- `toParts`. -/
def toParts (dt : RpcDateTime) : Parts :=
  let tm := gmtime (dt.msecsSinceEpoch / 1000 + Int64.ofInt (dt.utcOffsetMin * 60))
  { year := tm.tm_year + 1900
    month := tm.tm_mon + 1
    day := tm.tm_mday
    hour := tm.tm_hour
    min := tm.tm_min
    sec := tm.tm_sec
    msec := (dt.msecsSinceEpoch % 1000).toInt32 }

/-- `fromParts`; `none` stands for a month outside the table, which valid parts do not have. -/
def fromParts (parts : Parts) : Option RpcDateTime :=
  if parts.isValid then
    (timegm parts.tm).map fun sec => fromMSecsSinceEpoch (sec * 1000 + parts.msec.toInt64) 0
  else some ⟨0, 0⟩

/-! ## parts and civil times -/

/-- The parts show a civil time. -/
structure Parts.Shows (p : Parts) (c : Civil) : Prop where
  year : p.year.toInt = c.year
  month : p.month.toInt = c.month + 1
  day : p.day.toInt = c.day
  hour : p.hour.toInt = c.hour
  min : p.min.toInt = c.minute
  sec : p.sec.toInt = c.second

/-- The parts with the fields of a civil time. -/
def civilParts (c : Civil) (msec : Int32) : Parts where
  year := Int32.ofInt c.year
  month := Int32.ofInt (c.month + 1)
  day := Int32.ofInt c.day
  hour := Int32.ofInt c.hour
  min := Int32.ofInt c.minute
  sec := Int32.ofInt c.second
  msec := msec

theorem Parts.Shows.eq_civilParts {p : Parts} {c : Civil} (h : p.Shows c) :
    p = civilParts c p.msec := by
  simp only [civilParts, ← h.year, ← h.month, ← h.day, ← h.hour, ← h.min, ← h.sec, Int32.ofInt_toInt]

theorem civilParts_shows {c : Civil} (hlo : -2 ^ 31 ≤ c.year) (hhi : c.year < 2 ^ 31) (msec : Int32) :
    (civilParts c msec).Shows c := by
  have hday : c.day ≤ 31 := Nat.le_trans c.day_le (monthLength_le _ _)
  have := c.month_lt
  have := c.hour_lt
  have := c.minute_lt
  have := c.second_lt
  constructor <;> exact Int32.toInt_ofInt_of_le (by omega) (by omega)

theorem tm_civilParts (c : Civil) (msec : Int32) : (civilParts c msec).tm = civilTm c := by
  have hk : (1900 : Int32) = Int32.ofInt 1900 := rfl
  have hk' : (1 : Int32) = Int32.ofInt 1 := rfl
  simp only [Parts.tm, civilParts, civilTm, hk, hk', ← Int32.ofInt_sub, Int.add_sub_cancel]

theorem isValid_iff (p : Parts) : p.isValid = true ↔
    1970 ≤ p.year.toInt ∧ (1 ≤ p.month.toInt ∧ p.month.toInt ≤ 12) ∧
    (1 ≤ p.day.toInt ∧ p.day.toInt ≤ 31) ∧ (0 ≤ p.hour.toInt ∧ p.hour.toInt ≤ 59) ∧
    (0 ≤ p.min.toInt ∧ p.min.toInt ≤ 59) ∧ (0 ≤ p.sec.toInt ∧ p.sec.toInt ≤ 59) ∧
    (0 ≤ p.msec.toInt ∧ p.msec.toInt ≤ 999) := by
  simp only [Parts.isValid, Bool.and_eq_true, decide_eq_true_eq, Int32.le_iff_toInt_le, and_assoc]
  rfl

/-- The fields of a civil time are valid from 1970 on, with milliseconds that are not negative. -/
theorem isValid_civilParts_iff {c : Civil} (hlo : 1970 ≤ c.year) (hhi : c.year < 2 ^ 31) {msec : Int32}
    (hm : msec.toInt < 1000) : (civilParts c msec).isValid = true ↔ 0 ≤ msec.toInt := by
  have hs := civilParts_shows (c := c) (by omega) hhi msec
  have hday : c.day ≤ 31 := Nat.le_trans c.day_le (monthLength_le _ _)
  have hpos := c.day_pos
  have := c.month_lt
  have := c.hour_lt
  have := c.minute_lt
  have := c.second_lt
  rw [isValid_iff, hs.year, hs.month, hs.day, hs.hour, hs.min, hs.sec]
  change _ ∧ _ ∧ _ ∧ _ ∧ _ ∧ _ ∧ (0 ≤ msec.toInt ∧ msec.toInt ≤ 999) ↔ _
  omega

/-! ## the conversions -/

theorem toParts_eq {dt : RpcDateTime} {c : Civil}
    (hc : c.seconds = dt.msec.toInt.tdiv 1000 + 60 * dt.utcOffsetMin) :
    dt.toParts = civilParts c (Int32.ofInt (dt.msec.toInt.tmod 1000)) := by
  obtain ⟨hmlo, hmhi⟩ := dt.toInt_msec_bounds
  obtain ⟨hzlo, hzhi⟩ := dt.toInt_tz_bounds
  have hM := dt.toInt_msecsSinceEpoch
  have hdiv : (dt.msecsSinceEpoch / 1000).toInt = dt.msec.toInt.tdiv 1000 := by
    rw [Int64.toInt_div_of_ne_right _ _ (by decide), hM]
    rfl
  have hmod : (dt.msecsSinceEpoch % 1000).toInt = dt.msec.toInt.tmod 1000 := by
    rw [Int64.toInt_mod, hM]
    rfl
  have hparts := Int.mul_tdiv_add_tmod dt.msec.toInt 1000
  have hlt := Int.tmod_lt_of_pos dt.msec.toInt (b := 1000) (by decide)
  have hgt := Int.lt_tmod_of_pos dt.msec.toInt (b := 1000) (by decide)
  have hsec : c.seconds = (dt.msecsSinceEpoch / 1000 + Int64.ofInt (dt.utcOffsetMin * 60)).toInt := by
    have hsum : dt.msecsSinceEpoch / 1000 + Int64.ofInt (dt.utcOffsetMin * 60) =
        Int64.ofInt c.seconds := by
      rw [hc, Int64.ofInt_add, ← hdiv, Int64.ofInt_toInt, Int.mul_comm]
    unfold utcOffsetMin at *
    rw [hsum, Int64.toInt_ofInt_of_le (by omega) (by omega)]
  have hk : (1900 : Int32) = Int32.ofInt 1900 := rfl
  have hk' : (1 : Int32) = Int32.ofInt 1 := rfl
  have hmsec : (dt.msecsSinceEpoch % 1000).toInt32 = Int32.ofInt (dt.msec.toInt.tmod 1000) := by
    rw [← hmod, ← Int64.toInt32_ofInt, Int64.ofInt_toInt]
  simp only [toParts, gmtime_eq hsec, hmsec, civilTm, civilParts, hk, hk', ← Int32.ofInt_add,
    Int.sub_add_cancel]

/-- The milliseconds of a civil time are kept in 57 bits. -/
theorem fromParts_civilParts {c : Civil} (hlo : 1970 ≤ c.year) (hright : DaysRight c.year)
    {msec : Int32} (hm : 0 ≤ msec.toInt ∧ msec.toInt < 1000) :
    fromParts (civilParts c msec) =
      some ⟨0, BitVec.ofInt 57 (c.seconds * 1000 + msec.toInt)⟩ := by
  have hyear := year_bounds hright.2.1 hright.2.2
  have hday := c.daysToYear_le
  have hday' := c.dayNumber_lt
  have hsec := c.secondOfDay_lt
  have hsecs : 0 ≤ c.seconds ∧ c.seconds < 2 ^ 50 := by
    unfold Civil.seconds
    unfold daysToYear daysBeforeYear at hday hday'
    omega
  have ht : c.seconds = (Int64.ofInt c.seconds).toInt := by
    rw [Int64.toInt_ofInt_of_le (by omega) (by omega)]
  have hk : (1000 : Int64) = Int64.ofInt 1000 := rfl
  rw [fromParts, if_pos ((isValid_civilParts_iff hlo (by omega) hm.2).mpr hm.1), tm_civilParts,
    (timegm_civilTm_iff ht ⟨by omega, by omega⟩).mpr hright, Option.map_some, fromMSecsSinceEpoch]
  change some (RpcDateTime.mk _ (BitVec.ofInt 57 (Int64.ofInt c.seconds * 1000 + msec.toInt64).toInt)) = _
  rw [toInt64_eq, hk, ← Int64.ofInt_mul, ← Int64.ofInt_add,
    Int64.toInt_ofInt_of_le (by omega) (by omega)]
  rfl

/-! ## the two round trips -/

/-- The years that 57 bits of milliseconds reach. -/
theorem year_of_msec {c : Civil} (hlo : -2 ^ 57 ≤ c.seconds * 1000) (hhi : c.seconds * 1000 < 2 ^ 57) :
    -4570000 ≤ c.year ∧ c.year ≤ 4570000 := by
  have hday := c.daysToYear_le
  have hday' := c.dayNumber_lt
  have hsec := c.secondOfDay_lt
  unfold Civil.seconds at *
  unfold daysToYear daysBeforeYear at *
  omega

theorem daysRight_of_msec {c : Civil} (hyear : 1 ≤ c.year) (hhi : c.seconds * 1000 < 2 ^ 57) :
    DaysRight c.year := by
  have hday := c.daysToYear_le
  have hsec := c.secondOfDay_lt
  refine ⟨.inl hyear, ?_⟩
  unfold Civil.seconds at hhi
  unfold daysToYear daysBeforeYear at *
  omega

/-- From 1970 on the seconds are not negative, and only then. -/
theorem le_year_iff (c : Civil) : 1970 ≤ c.year ↔ 0 ≤ c.seconds := by
  have hday := c.daysToYear_le
  have hday' := c.dayNumber_lt
  have hsec := c.secondOfDay_lt
  unfold Civil.seconds
  unfold daysToYear daysBeforeYear at *
  omega

/-- The parts are a date and a time of day, and their milliseconds fit 57 bits. -/
def Parts.Exist (p : Parts) : Prop := ∃ c : Civil, p.Shows c ∧ c.seconds * 1000 + p.msec.toInt < 2 ^ 56

/-- What `toParts` gives shows a civil time of 57 bits. -/
theorem exist_toParts {dt : RpcDateTime} (htz : dt.tz = 0) : dt.toParts.Exist := by
  have hoff : dt.utcOffsetMin = 0 := by
    rw [utcOffsetMin, htz]
    rfl
  obtain ⟨hmlo, hmhi⟩ := dt.toInt_msec_bounds
  have hc := seconds_civil (dt.msec.toInt.tdiv 1000 + 60 * dt.utcOffsetMin)
  have hparts := Int.mul_tdiv_add_tmod dt.msec.toInt 1000
  have hlt := Int.tmod_lt_of_pos dt.msec.toInt (b := 1000) (by decide)
  have hgt := Int.lt_tmod_of_pos dt.msec.toInt (b := 1000) (by decide)
  have hyear := year_of_msec (c := civil (dt.msec.toInt.tdiv 1000 + 60 * dt.utcOffsetMin))
    (by omega) (by omega)
  refine ⟨_, toParts_eq hc ▸ civilParts_shows (by omega) (by omega) _, ?_⟩
  rw [toParts_eq hc]
  change _ * 1000 + (Int32.ofInt (dt.msec.toInt.tmod 1000)).toInt < _
  rw [Int32.toInt_ofInt_of_le (by omega) (by omega)]
  omega

/-- Valid parts come back if and only if they are a date and a time of day. -/
theorem toParts_fromParts_iff {p : Parts} (h : p.isValid = true) :
    (fromParts p).map toParts = some p ↔ p.Exist := by
  constructor
  · intro hback
    obtain ⟨dt, hdt, rfl⟩ := Option.map_eq_some_iff.mp hback
    rw [fromParts, if_pos h] at hdt
    obtain ⟨sec, -, hsec⟩ := Option.map_eq_some_iff.mp hdt
    exact exist_toParts (by rw [← hsec]; rfl)
  · rintro ⟨c, hshows, hfits⟩
    have hp := hshows.eq_civilParts
    obtain ⟨hyear, -, -, -, -, -, hm, hm'⟩ := (isValid_iff p).mp h
    rw [hshows.year] at hyear
    have hpos := (le_year_iff c).mp hyear
    have hmsec : (BitVec.ofInt 57 (c.seconds * 1000 + p.msec.toInt)).toInt =
        c.seconds * 1000 + p.msec.toInt := by
      rw [BitVec.toInt_ofInt, Int.bmod_eq_of_le (by omega) (by omega)]
    have hdiv : (c.seconds * 1000 + p.msec.toInt).tdiv 1000 = c.seconds := by
      rw [Int.tdiv_eq_ediv_of_nonneg (by omega)]
      omega
    have hmod : (c.seconds * 1000 + p.msec.toInt).tmod 1000 = p.msec.toInt := by
      rw [Int.tmod_eq_emod_of_nonneg (by omega)]
      omega
    conv_lhs => rw [hp]
    rw [fromParts_civilParts hyear (daysRight_of_msec (by omega) (by omega)) ⟨hm, by omega⟩,
      Option.map_some, toParts_eq (c := c), hmsec, hmod, Int32.ofInt_toInt, ← hp]
    change c.seconds = (BitVec.ofInt 57 (c.seconds * 1000 + p.msec.toInt)).toInt.tdiv 1000 + 60 * (0 * 15)
    rw [hmsec, hdiv]
    omega

/-- The local time of a date-time, in seconds. -/
def localSeconds (dt : RpcDateTime) : Int := dt.msecsSinceEpoch.toInt / 1000 + 60 * dt.utcOffsetMin

/-- A shift by an offset is not lost in 57 bits. -/
theorem bmod_shift_iff {m z : Int} (hm : -2 ^ 56 ≤ m ∧ m < 2 ^ 56) (hz : -64 ≤ z ∧ z < 64) :
    (m + 60000 * (z * 15)).bmod (2 ^ 57) = m ↔ z * 15 = 0 := by
  have hself : (m + 0).bmod (2 ^ 57) = m := by
    rw [Int.add_zero]
    exact Int.bmod_eq_of_le (by omega) (by omega)
  have hshift : (60000 * (z * 15)).bmod (2 ^ 57) = 60000 * (z * 15) :=
    Int.bmod_eq_of_le (by omega) (by omega)
  -- both sides are reduced, and the time is cancelled
  calc (m + 60000 * (z * 15)).bmod (2 ^ 57) = m
      ↔ (m + 60000 * (z * 15)).bmod (2 ^ 57) = (m + 0).bmod (2 ^ 57) := by rw [hself]
    _ ↔ 60000 * (z * 15) = 0 := by rw [Int.bmod_add_cancel_left, hshift, Int.zero_bmod]
    _ ↔ z * 15 = 0 := by omega

/-- From 1970 on a date-time comes back from its parts if and only if it has no offset. -/
theorem fromParts_toParts_iff {dt : RpcDateTime} (h : 1970 ≤ (civil dt.localSeconds).year) :
    (fromParts dt.toParts).map msecsSinceEpoch = some dt.msecsSinceEpoch ↔ dt.utcOffsetMin = 0 := by
  obtain ⟨hmlo, hmhi⟩ := dt.toInt_msec_bounds
  obtain ⟨hzlo, hzhi⟩ := dt.toInt_tz_bounds
  have hparts := Int.mul_tdiv_add_tmod dt.msec.toInt 1000
  have hlt := Int.tmod_lt_of_pos dt.msec.toInt (b := 1000) (by decide)
  have hgt := Int.lt_tmod_of_pos dt.msec.toInt (b := 1000) (by decide)
  rw [le_year_iff, seconds_civil, localSeconds, toInt_msecsSinceEpoch] at h
  have hc := seconds_civil (dt.msec.toInt.tdiv 1000 + 60 * dt.utcOffsetMin)
  have hyear : 1970 ≤ (civil (dt.msec.toInt.tdiv 1000 + 60 * dt.utcOffsetMin)).year := by
    rw [le_year_iff]
    omega
  have hyear' := year_of_msec (c := civil (dt.msec.toInt.tdiv 1000 + 60 * dt.utcOffsetMin))
    (by omega) (by unfold utcOffsetMin at *; omega)
  have hms : (Int32.ofInt (dt.msec.toInt.tmod 1000)).toInt = dt.msec.toInt.tmod 1000 :=
    Int32.toInt_ofInt_of_le (by omega) (by omega)
  rw [toParts_eq hc]
  by_cases hneg : dt.msec.toInt.tmod 1000 < 0
  · -- the milliseconds are not valid, and the result is the epoch
    have hinvalid : ¬ (civilParts (civil (dt.msec.toInt.tdiv 1000 + 60 * dt.utcOffsetMin))
        (Int32.ofInt (dt.msec.toInt.tmod 1000))).isValid = true := by
      rw [isValid_civilParts_iff hyear (by omega) (by omega)]
      omega
    have hbefore : dt.msec.toInt < 0 := by
      by_contra hpos
      have := Int.tmod_nonneg 1000 (Int.not_lt.mp hpos)
      omega
    rw [fromParts, if_neg hinvalid]
    refine iff_of_false (fun hback => ?_) fun hoff => by omega
    have hzero := congrArg Int64.toInt (Option.some.inj hback)
    rw [toInt_msecsSinceEpoch, toInt_msecsSinceEpoch] at hzero
    change 0 = _ at hzero
    omega
  · have hright := daysRight_of_msec (c := civil (dt.msec.toInt.tdiv 1000 + 60 * dt.utcOffsetMin))
      (by omega) (by unfold utcOffsetMin at *; omega)
    have hsum : (civil (dt.msec.toInt.tdiv 1000 + 60 * dt.utcOffsetMin)).seconds * 1000 +
        dt.msec.toInt.tmod 1000 = dt.msec.toInt + 60000 * dt.utcOffsetMin := by omega
    rw [fromParts_civilParts hyear hright ⟨by omega, by omega⟩, hms, hsum, Option.map_some,
      Option.some_inj, ← Int64.toInt_inj, toInt_msecsSinceEpoch, toInt_msecsSinceEpoch]
    change (BitVec.ofInt 57 (dt.msec.toInt + 60000 * dt.utcOffsetMin)).toInt = _ ↔ _
    rw [BitVec.toInt_ofInt]
    exact bmod_shift_iff ⟨hmlo, hmhi⟩ ⟨hzlo, hzhi⟩

/-- Parts come back that are a date and a time of day, and date-times that have no offset. -/
theorem parts_roundTrip_iff {p : Parts} (hp : p.isValid = true) {dt : RpcDateTime}
    (hdt : 1970 ≤ (civil dt.localSeconds).year) :
    ((fromParts p).map toParts = some p ↔ p.Exist) ∧
      ((fromParts dt.toParts).map msecsSinceEpoch = some dt.msecsSinceEpoch ↔ dt.utcOffsetMin = 0) :=
  ⟨toParts_fromParts_iff hp, fromParts_toParts_iff hdt⟩

/-- A leap day, and the epoch. -/
theorem parts_roundTrip_leapDay :
    (fromParts ⟨2024, 2, 29, 1, 2, 3, 4⟩).map toParts = some ⟨2024, 2, 29, 1, 2, 3, 4⟩ ∧
      (fromParts (toParts ⟨0, 0⟩)).map msecsSinceEpoch = some (msecsSinceEpoch ⟨0, 0⟩) := by
  have hdt : 1970 ≤ (civil (localSeconds ⟨0, 0⟩)).year := by
    have hcivil : civil (localSeconds ⟨0, 0⟩) = firstOfYear 1970 := (civil_eq_iff _ _).mpr (by decide)
    rw [hcivil]
    decide
  have hround := parts_roundTrip_iff (p := ⟨2024, 2, 29, 1, 2, 3, 4⟩) (by decide) hdt
  refine ⟨hround.1.mpr ⟨⟨⟨2024, 1, 29, by decide, by decide, by decide⟩, 1, 2, 3, by decide, by decide,
    by decide⟩, ⟨rfl, rfl, rfl, rfl, rfl, rfl⟩, by decide⟩, hround.2.mpr (by decide)⟩

/-- The hour 24 is accepted and becomes the next day. -/
theorem not_parts_roundTrip : ¬ ((∀ p : Parts, p.isValid = true → (fromParts p).map toParts = some p) ∧
    ∀ dt : RpcDateTime, 1970 ≤ (civil dt.localSeconds).year →
      (fromParts dt.toParts).map msecsSinceEpoch = some dt.msecsSinceEpoch) := by
  intro h
  have hback := h.1 ⟨2000, 1, 1, 24, 0, 0, 0⟩ (by decide)
  have hnext : (fromParts ⟨2000, 1, 1, 24, 0, 0, 0⟩).map toParts = some ⟨2000, 1, 2, 0, 0, 0, 0⟩ := by
    decide
  rw [hnext] at hback
  exact absurd hback (by decide)

end LibShv.RpcDateTime
