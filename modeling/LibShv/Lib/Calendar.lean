import Mathlib

/-!
# LibShv.Lib.Calendar

The proleptic Gregorian calendar: leap years, the lengths of its months and years,
and the count of days and seconds from the first day of 1970. Every day has exactly
one date, and every second exactly one civil time.
-/

namespace LibShv.Calendar

/-! ## places in an increasing sequence -/

/-- A number from `f 0` on and below `f n` lies between two neighbours. -/
theorem exists_le_lt_succ {f : Nat → Int} {d : Int} {n : Nat} (h₀ : f 0 ≤ d) (hn : d < f n) :
    ∃ m < n, f m ≤ d ∧ d < f (m + 1) := by
  induction n with
  | zero => omega
  | succ n ih =>
    by_cases h : d < f n
    · obtain ⟨m, hm, hle, hlt⟩ := ih h
      exact ⟨m, by omega, hle, hlt⟩
    · exact ⟨n, by omega, by omega, hn⟩

/-- Two neighbours of an increasing sequence enclose a number in one place only. -/
theorem eq_of_le_of_lt_succ {ι : Type*} [LinearOrder ι] [SuccOrder ι] {f : ι → Int}
    (hf : Monotone f) {i j : ι} {d : Int} (hi : f i ≤ d) (hi' : d < f (Order.succ i))
    (hj : f j ≤ d) (hj' : d < f (Order.succ j)) : i = j := by
  rcases lt_trichotomy i j with h | h | h
  · have := hf (Order.succ_le_of_lt h)
    omega
  · exact h
  · have := hf (Order.succ_le_of_lt h)
    omega

/-! ## years -/

/-- A leap year. -/
def IsLeap (y : Int) : Prop := 4 ∣ y ∧ (¬ 100 ∣ y ∨ 400 ∣ y)

instance (y : Int) : Decidable (IsLeap y) := inferInstanceAs (Decidable (_ ∧ _))

/-- The days of a year. -/
def yearLength (y : Int) : Nat := if IsLeap y then 366 else 365

/-- The days from the first day of the year 1 to that of `y`. -/
def daysBeforeYear (y : Int) : Int :=
  365 * (y - 1) + (y - 1) / 4 - (y - 1) / 100 + (y - 1) / 400

theorem daysBeforeYear_succ (y : Int) :
    daysBeforeYear (y + 1) = daysBeforeYear y + yearLength y := by
  unfold daysBeforeYear yearLength
  by_cases h : IsLeap y
  · rw [if_pos h]
    unfold IsLeap at h
    omega
  · rw [if_neg h]
    unfold IsLeap at h
    omega

theorem daysBeforeYear_strictMono : StrictMono daysBeforeYear := by
  refine strictMono_int_of_lt_succ fun y => ?_
  rw [daysBeforeYear_succ]
  unfold yearLength
  split <;> omega

/-- Every day lies in a year. -/
theorem exists_year (d : Int) : ∃ y, daysBeforeYear y ≤ d ∧ d < daysBeforeYear (y + 1) := by
  have h₀ : daysBeforeYear (1 - d.natAbs + (0 : Nat)) ≤ d := by unfold daysBeforeYear; omega
  have hn : d < daysBeforeYear (1 - d.natAbs + ((2 * d.natAbs + 1 : Nat) : Int)) := by
    unfold daysBeforeYear
    omega
  obtain ⟨m, -, hle, hlt⟩ :=
    exists_le_lt_succ (f := fun i => daysBeforeYear (1 - d.natAbs + (i : Int))) h₀ hn
  refine ⟨1 - d.natAbs + m, hle, ?_⟩
  rw [Int.add_assoc]
  exact_mod_cast hlt

/-! ## months -/

/-- The days of a month. Months count from zero. -/
def monthLength (y : Int) (m : Nat) : Nat :=
  if m = 1 then (if IsLeap y then 29 else 28)
  else if m = 3 ∨ m = 5 ∨ m = 8 ∨ m = 10 then 30
  else 31

/-- The days of a year before a month of it. -/
def daysBeforeMonth (y : Int) (m : Nat) : Nat := ∑ i ∈ Finset.range m, monthLength y i

theorem daysBeforeMonth_zero (y : Int) : daysBeforeMonth y 0 = 0 := rfl

theorem daysBeforeMonth_succ (y : Int) (m : Nat) :
    daysBeforeMonth y (m + 1) = daysBeforeMonth y m + monthLength y m :=
  Finset.sum_range_succ _ _

theorem daysBeforeMonth_monotone (y : Int) : Monotone (daysBeforeMonth y) := by
  refine monotone_nat_of_le_succ fun m => ?_
  rw [daysBeforeMonth_succ]
  omega

/-- The months of a year make up the year. -/
theorem daysBeforeMonth_twelve (y : Int) : daysBeforeMonth y 12 = yearLength y := by
  unfold daysBeforeMonth monthLength yearLength
  split <;> decide

theorem one_le_monthLength (y : Int) (m : Nat) : 1 ≤ monthLength y m := by
  unfold monthLength
  split_ifs <;> omega

theorem monthLength_le (y : Int) (m : Nat) : monthLength y m ≤ 31 := by
  unfold monthLength
  split_ifs <;> omega

/-! ## dates -/

/-- A date of the calendar: its month counts from zero, its day from one. -/
@[ext] structure Date where
  year : Int
  month : Nat
  day : Nat
  month_lt : month < 12
  day_pos : 1 ≤ day
  day_le : day ≤ monthLength year month
deriving DecidableEq

/-- The days from the first day of 1970 to that of `y`. -/
def daysToYear (y : Int) : Int := daysBeforeYear y - daysBeforeYear 1970

namespace Date

/-- The days from the first day of 1970 to the date. -/
def dayNumber (d : Date) : Int :=
  daysToYear d.year + daysBeforeMonth d.year d.month + (d.day - 1 : Nat)

variable (d : Date)

theorem day_lt_succ : daysBeforeMonth d.year d.month + (d.day - 1) <
    daysBeforeMonth d.year (d.month + 1) := by
  have := d.day_pos
  have := d.day_le
  rw [daysBeforeMonth_succ]
  omega

theorem day_lt_yearLength :
    daysBeforeMonth d.year d.month + (d.day - 1) < yearLength d.year := by
  have h := daysBeforeMonth_monotone d.year (Nat.succ_le_of_lt d.month_lt)
  rw [daysBeforeMonth_twelve] at h
  exact Nat.lt_of_lt_of_le d.day_lt_succ h

/-- A date lies in its year. -/
theorem daysToYear_le : daysToYear d.year ≤ d.dayNumber := by
  unfold dayNumber
  omega

theorem dayNumber_lt : d.dayNumber < daysToYear (d.year + 1) := by
  have := d.day_lt_yearLength
  unfold dayNumber daysToYear
  rw [daysBeforeYear_succ]
  omega

end Date

/-- Two dates are not on one day. -/
theorem dayNumber_injective : Function.Injective Date.dayNumber := by
  intro d e h
  have hyear : d.year = e.year := by
    have hd := d.daysToYear_le
    have hd' := d.dayNumber_lt
    have he := e.daysToYear_le
    have he' := e.dayNumber_lt
    rw [h] at hd hd'
    exact eq_of_le_of_lt_succ (f := daysToYear)
      (fun _ _ hle => Int.sub_le_sub_right (daysBeforeYear_strictMono.monotone hle) _) hd hd' he he'
  have hin : daysBeforeMonth d.year d.month + (d.day - 1) =
      daysBeforeMonth d.year e.month + (e.day - 1) := by
    unfold Date.dayNumber at h
    rw [← hyear] at h
    omega
  have hmonth : d.month = e.month := by
    have hd := d.day_lt_succ
    have he := e.day_lt_succ
    rw [← hyear] at he
    refine eq_of_le_of_lt_succ (f := fun m => (daysBeforeMonth d.year m : Int))
      (d := (daysBeforeMonth d.year d.month + (d.day - 1) : Nat)) ?_ ?_ ?_ ?_ ?_
    · exact fun _ _ hle => Int.ofNat_le.mpr (daysBeforeMonth_monotone d.year hle)
    · omega
    · exact Int.ofNat_lt.mpr hd
    · omega
    · rw [hin]
      exact Int.ofNat_lt.mpr he
  have hd := d.day_pos
  have he := e.day_pos
  rw [hmonth] at hin
  exact Date.ext hyear hmonth (by omega)

/-- Every day has a date. -/
theorem dayNumber_surjective : Function.Surjective Date.dayNumber := by
  intro n
  obtain ⟨y, hle, hlt⟩ := exists_year (n + daysBeforeYear 1970)
  rw [daysBeforeYear_succ] at hlt
  have hlast : n + daysBeforeYear 1970 - daysBeforeYear y < (daysBeforeMonth y 12 : Int) := by
    rw [daysBeforeMonth_twelve]
    omega
  obtain ⟨m, hm, hmle, hmlt⟩ := exists_le_lt_succ (f := fun m => (daysBeforeMonth y m : Int))
    (d := n + daysBeforeYear 1970 - daysBeforeYear y) (by simp [daysBeforeMonth_zero]; omega) hlast
  rw [daysBeforeMonth_succ] at hmlt
  let day := (n + daysBeforeYear 1970 - daysBeforeYear y - daysBeforeMonth y m).toNat + 1
  have hday : day ≤ monthLength y m := by omega
  refine ⟨⟨y, m, day, hm, by omega, hday⟩, ?_⟩
  simp only [Date.dayNumber, daysToYear]
  omega

/-! ## civil times -/

/-- A date and a time of the day, without leap seconds. -/
@[ext] structure Civil extends Date where
  hour : Nat
  minute : Nat
  second : Nat
  hour_lt : hour < 24
  minute_lt : minute < 60
  second_lt : second < 60
deriving DecidableEq

namespace Civil

/-- The seconds of the day. -/
def secondOfDay (c : Civil) : Nat := 3600 * c.hour + 60 * c.minute + c.second

/-- The seconds from the first of 1970. -/
def seconds (c : Civil) : Int := 86400 * c.dayNumber + c.secondOfDay

variable (c : Civil)

theorem secondOfDay_lt : c.secondOfDay < 86400 := by
  have := c.hour_lt
  have := c.minute_lt
  have := c.second_lt
  unfold secondOfDay
  omega

theorem seconds_ediv : c.seconds / 86400 = c.dayNumber := by
  have := c.secondOfDay_lt
  unfold seconds
  omega

theorem seconds_emod : c.seconds % 86400 = c.secondOfDay := by
  have := c.secondOfDay_lt
  unfold seconds
  omega

end Civil

theorem seconds_injective : Function.Injective Civil.seconds := by
  intro c e h
  have hday : c.dayNumber = e.dayNumber := by rw [← c.seconds_ediv, ← e.seconds_ediv, h]
  have hsec : c.secondOfDay = e.secondOfDay := by
    have := c.seconds_emod
    have := e.seconds_emod
    rw [h] at *
    omega
  have hdate := dayNumber_injective hday
  have := c.minute_lt
  have := c.second_lt
  have := e.minute_lt
  have := e.second_lt
  unfold Civil.secondOfDay at hsec
  rw [Date.ext_iff] at hdate
  exact Civil.ext hdate.1 hdate.2.1 hdate.2.2 (by omega) (by omega) (by omega)

theorem seconds_surjective : Function.Surjective Civil.seconds := by
  intro t
  obtain ⟨d, hd⟩ := dayNumber_surjective (t / 86400)
  let s := (t % 86400).toNat
  refine ⟨⟨d, s / 3600, s / 60 % 60, s % 60, by omega, by omega, by omega⟩, ?_⟩
  simp only [Civil.seconds, Civil.secondOfDay, hd]
  omega

/-- The civil time of a count of seconds. -/
noncomputable def civil (t : Int) : Civil := Function.surjInv seconds_surjective t

@[simp] theorem seconds_civil (t : Int) : (civil t).seconds = t :=
  Function.surjInv_eq seconds_surjective t

@[simp] theorem civil_seconds (c : Civil) : civil c.seconds = c :=
  seconds_injective (seconds_civil c.seconds)

theorem civil_eq_iff (t : Int) (c : Civil) : civil t = c ↔ c.seconds = t := by
  constructor
  · rintro rfl
    exact seconds_civil t
  · rintro rfl
    exact civil_seconds c

end LibShv.Calendar
