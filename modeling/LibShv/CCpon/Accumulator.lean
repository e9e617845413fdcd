import LibShv.CCpon.DecimalText

/-!
# LibShv.CCpon.Accumulator

The signed accumulator of `unpack_int`: a digit that does not fit is passed over, and the ones
behind it are tried all the same.
-/

namespace LibShv.CCpon

open ByteReader

/-- The value of a decimal digit. -/
def digitValue (b : UInt8) : Nat := (Radix.decimal.digit b).getD 0

/-- What the accumulator holds, the number of digits it has got, and whether one did not fit. -/
structure Accumulator where
  value : Nat
  count : Nat
  isOverflow : Bool

namespace Accumulator

def add (a : Accumulator) (b : UInt8) : Accumulator :=
  if a.value * 10 + digitValue b < 2 ^ 63 then
    { a with value := a.value * 10 + digitValue b, count := a.count + 1 }
  else { a with isOverflow := true }

def run (a : Accumulator) (ds : Bytes) : Accumulator := ds.foldl add a

@[simp] theorem run_nil (a : Accumulator) : a.run [] = a := rfl

@[simp] theorem run_cons (a : Accumulator) (b : UInt8) (ds : Bytes) :
    a.run (b :: ds) = (a.add b).run ds := rfl

end Accumulator

/-! ## the digits that fit -/

/-- The value of decimal digits behind a number. -/
abbrev decimalNumber (v : Nat) (ds : Bytes) : Nat := Radix.decimal.value v ds

theorem decimalNumber_cons (v : Nat) (b : UInt8) (ds : Bytes) :
    decimalNumber v (b :: ds) = decimalNumber (v * 10 + digitValue b) ds := rfl

theorem le_decimalNumber (v : Nat) (ds : Bytes) : v ≤ decimalNumber v ds := le_value v ds

/-- The number of digits that fit before the first one that does not. -/
def fitting : Nat → Bytes → Nat
  | _, [] => 0
  | v, b :: ds =>
    if v * 10 + digitValue b < 2 ^ 63 then fitting (v * 10 + digitValue b) ds + 1 else 0

/-- The one number that takes a digit up to seven, but no eight and no nine. -/
def lastRoom : Nat := 922337203685477580

theorem lastRoom_eq : lastRoom = 922337203685477580 := rfl

/-- An eight or a nine does not fit, and a digit behind it does. -/
def Recovers (v : Nat) (ds : Bytes) : Prop :=
  ∃ p b q, ds = p ++ b :: q ∧ decimalNumber v p = lastRoom ∧ 8 ≤ digitValue b ∧
    ∃ c ∈ q, digitValue c ≤ 7

theorem fitting_le (v : Nat) (ds : Bytes) : fitting v ds ≤ ds.length := by
  induction ds generalizing v with
  | nil => exact Nat.le_refl 0
  | cons b ds ih =>
    rw [fitting]
    split
    · exact Nat.succ_le_succ (ih _)
    · exact Nat.zero_le _

theorem digitValue_le (b : UInt8) : digitValue b ≤ 9 := by
  rw [digitValue, Radix.digit]
  split
  · next h =>
    have hlo := UInt8.le_iff_toNat_le.mp h.1
    have hhi := UInt8.le_iff_toNat_le.mp h.2
    change b.toNat - 0x30 ≤ 9
    change 0x30 ≤ b.toNat at hlo
    change b.toNat ≤ 0x39 at hhi
    omega
  · exact Nat.zero_le 9

/-- A digit fits, or the number has no room for any, or it is the last one with room. -/
theorem no_room_cases {v : Nat} {b : UInt8} (h : ¬ v * 10 + digitValue b < 2 ^ 63) :
    2 ^ 63 ≤ v * 10 ∨ v = lastRoom ∧ 8 ≤ digitValue b := by
  have hb := digitValue_le b
  have hroom := lastRoom_eq
  omega

namespace Accumulator

variable {a : Accumulator} {ds : Bytes}

theorem add_of_fits {b : UInt8} (h : a.value * 10 + digitValue b < 2 ^ 63) :
    a.add b = ⟨a.value * 10 + digitValue b, a.count + 1, a.isOverflow⟩ := if_pos h

theorem add_of_not_fits {b : UInt8} (h : ¬ a.value * 10 + digitValue b < 2 ^ 63) :
    a.add b = ⟨a.value, a.count, true⟩ := if_neg h

/-- Nothing is added where there is no room. -/
theorem run_of_no_room (ds : Bytes) (h : ∀ b ∈ ds, ¬ a.value * 10 + digitValue b < 2 ^ 63) :
    (a.run ds).value = a.value ∧ (a.run ds).count = a.count ∧
      (a.run ds).isOverflow = (a.isOverflow || decide (ds ≠ [])) := by
  induction ds generalizing a with
  | nil => exact ⟨rfl, rfl, by simp⟩
  | cons b ds ih =>
    rw [run_cons, add_of_not_fits (h b List.mem_cons_self)]
    obtain ⟨hv, hc, ho⟩ := ih (a := ⟨a.value, a.count, true⟩)
      fun c hc => h c (List.mem_cons_of_mem _ hc)
    exact ⟨hv, hc, by rw [ho]; simp⟩

theorem run_of_full (ds : Bytes) (h : 2 ^ 63 ≤ a.value * 10) :
    (a.run ds).value = a.value ∧ (a.run ds).count = a.count ∧
      (a.run ds).isOverflow = (a.isOverflow || decide (ds ≠ [])) :=
  run_of_no_room ds fun _ _ => by omega

/-- The first digit up to seven is the last one that is added to the last number with room. -/
theorem run_lastRoom (hv : a.value = lastRoom) (h : ∃ c ∈ ds, digitValue c ≤ 7) :
    lastRoom * 10 ≤ (a.run ds).value ∧ (a.run ds).value < lastRoom * 10 + 8 ∧
      (a.run ds).count = a.count + 1 := by
  have hroom := lastRoom_eq
  induction ds generalizing a with
  | nil => simp at h
  | cons b ds ih =>
    rw [run_cons]
    by_cases hb : digitValue b ≤ 7
    · rw [add_of_fits (by omega)]
      obtain ⟨hval, hcnt, -⟩ := run_of_full ds
        (a := ⟨a.value * 10 + digitValue b, a.count + 1, a.isOverflow⟩)
        (by change 2 ^ 63 ≤ (a.value * 10 + digitValue b) * 10; omega)
      rw [hval, hcnt, hv]
      exact ⟨by simp, by change lastRoom * 10 + digitValue b < _; omega, rfl⟩
    · rw [add_of_not_fits (by omega)]
      obtain ⟨c, hc, hle⟩ := h
      have hmem : c ∈ ds := by
        rcases List.mem_cons.mp hc with rfl | hc
        · exact absurd hle hb
        · exact hc
      exact ih hv ⟨c, hmem, hle⟩

theorem isOverflow_run (h : a.isOverflow = true) : (a.run ds).isOverflow = true := by
  induction ds generalizing a with
  | nil => exact h
  | cons b ds ih =>
    rw [run_cons]
    by_cases hb : a.value * 10 + digitValue b < 2 ^ 63
    · rw [add_of_fits hb]
      exact ih h
    · rw [add_of_not_fits hb]
      exact ih rfl

/-- All digits fit. -/
theorem run_of_fitting (h : fitting a.value ds = ds.length) :
    a.run ds = ⟨decimalNumber a.value ds, a.count + ds.length, a.isOverflow⟩ := by
  induction ds generalizing a with
  | nil => rfl
  | cons b ds ih =>
    rw [fitting] at h
    split at h
    · next hb =>
      rw [List.length_cons, Nat.add_right_cancel_iff] at h
      rw [run_cons, add_of_fits hb, ih h, List.length_cons, Nat.add_comm ds.length, ← Nat.add_assoc]
      rfl
    · cases h

end Accumulator

/-- The digits that fit make a number that fits, and with the next one it does not. -/
theorem decimalNumber_take_fitting {v : Nat} (ds : Bytes) (hv : v < 2 ^ 63) :
    decimalNumber v (ds.take (fitting v ds)) < 2 ^ 63 ∧
      (fitting v ds = ds.length ∨ ∃ b, ds[fitting v ds]? = some b ∧
        ¬ decimalNumber v (ds.take (fitting v ds)) * 10 + digitValue b < 2 ^ 63) := by
  induction ds generalizing v with
  | nil => exact ⟨hv, .inl rfl⟩
  | cons b ds ih =>
    rw [fitting]
    split
    · next hb =>
      obtain ⟨hlt, hnext⟩ := ih hb
      refine ⟨hlt, hnext.imp (congrArg Nat.succ) fun ⟨c, hc, hover⟩ => ⟨c, hc, hover⟩⟩
    · next hb => exact ⟨hv, .inr ⟨b, rfl, hb⟩⟩

theorem recovers_cons {v : Nat} {b : UInt8} {ds : Bytes} (h : v * 10 + digitValue b < 2 ^ 63) :
    Recovers v (b :: ds) ↔ Recovers (v * 10 + digitValue b) ds := by
  constructor
  · rintro ⟨p, c, q, hds, hroom, hc, hq⟩
    cases p with
    | nil =>
      injection hds with hb hds
      subst hb
      have hv : v = lastRoom := hroom
      have hval := lastRoom_eq
      omega
    | cons x p =>
      injection hds with hb hds
      subst hb
      exact ⟨p, c, q, hds, hroom, hc, hq⟩
  · rintro ⟨p, c, q, rfl, hroom, hc, hq⟩
    exact ⟨b :: p, c, q, rfl, hroom, hc, hq⟩

/-- At a digit that does not fit, only the last number with room goes on. -/
theorem recovers_cons_of_not_fits {v : Nat} {b : UInt8} {ds : Bytes}
    (h : ¬ v * 10 + digitValue b < 2 ^ 63) :
    Recovers v (b :: ds) ↔ v = lastRoom ∧ ∃ c ∈ ds, digitValue c ≤ 7 := by
  have hval := lastRoom_eq
  have hb := digitValue_le b
  constructor
  · rintro ⟨p, c, q, hds, hroom, hc, hq⟩
    cases p with
    | nil =>
      injection hds with _ hds
      subst hds
      exact ⟨hroom, hq⟩
    | cons x p =>
      injection hds with hx hds
      subst hx
      rw [decimalNumber_cons] at hroom
      have hle := le_decimalNumber (v * 10 + digitValue b) p
      omega
  · rintro ⟨rfl, hq⟩
    exact ⟨[], b, ds, rfl, rfl, by omega, hq⟩

/-- A number without room for the digit, but for the one that goes on, keeps what it is. -/
theorem Accumulator.run_of_not_fits {a : Accumulator} {b : UInt8} {ds : Bytes}
    (h : ¬ a.value * 10 + digitValue b < 2 ^ 63) (hres : ¬ Recovers a.value (b :: ds)) :
    (a.run (b :: ds)).value = a.value ∧ (a.run (b :: ds)).count = a.count ∧
      (a.run (b :: ds)).isOverflow = true := by
  rw [recovers_cons_of_not_fits h] at hres
  have hall : ∀ c ∈ b :: ds, ¬ a.value * 10 + digitValue c < 2 ^ 63 := by
    intro c hc
    rcases List.mem_cons.mp hc with rfl | hc
    · exact h
    · rcases no_room_cases h with hfull | ⟨hroom, -⟩
      · omega
      · have hseven : ¬ digitValue c ≤ 7 := fun hle => hres ⟨hroom, c, hc, hle⟩
        have hval := lastRoom_eq
        omega
  obtain ⟨hv, hc, ho⟩ := run_of_no_room _ hall
  exact ⟨hv, hc, by rw [ho]; simp⟩

/-- Digits that do not all fit: those before the first one that does not are added, and one more if
they resume. -/
theorem Accumulator.run_of_over {a : Accumulator} {ds : Bytes} (h : fitting a.value ds ≠ ds.length) :
    (a.run ds).isOverflow = true ∧
    (Recovers a.value ds →
      lastRoom * 10 ≤ (a.run ds).value ∧ (a.run ds).value < 2 ^ 63 ∧
        decimalNumber a.value (ds.take (fitting a.value ds)) = lastRoom ∧
        (a.run ds).count = a.count + (fitting a.value ds + 1)) ∧
    (¬ Recovers a.value ds →
      (a.run ds).value = decimalNumber a.value (ds.take (fitting a.value ds)) ∧
        (a.run ds).count = a.count + fitting a.value ds) := by
  induction ds generalizing a with
  | nil => exact absurd rfl h
  | cons b ds ih =>
    rw [fitting] at h ⊢
    by_cases hb : a.value * 10 + digitValue b < 2 ^ 63
    · rw [if_pos hb] at h ⊢
      rw [run_cons, add_of_fits hb, recovers_cons hb]
      obtain ⟨ho, hyes, hno⟩ := ih (a := ⟨a.value * 10 + digitValue b, a.count + 1, a.isOverflow⟩)
        fun he => h (congrArg Nat.succ he)
      refine ⟨ho, fun hres => ?_, fun hres => ?_⟩
      · obtain ⟨hlo, hhi, hroom, hcnt⟩ := hyes hres
        exact ⟨hlo, hhi, hroom, by rw [hcnt]; dsimp only; omega⟩
      · obtain ⟨hval, hcnt⟩ := hno hres
        exact ⟨hval, by rw [hcnt]; dsimp only; omega⟩
    · rw [if_neg hb]
      refine ⟨?_, fun hres => ?_, fun hres => ?_⟩
      · rw [run_cons, add_of_not_fits hb]
        exact isOverflow_run rfl
      · obtain ⟨hroom, hq⟩ := (recovers_cons_of_not_fits hb).mp hres
        obtain ⟨hlo, hhi, hcnt⟩ := run_lastRoom (a := ⟨a.value, a.count, true⟩) hroom hq
        have hval := lastRoom_eq
        rw [run_cons, add_of_not_fits hb]
        exact ⟨hlo, by omega, hroom, hcnt⟩
      · obtain ⟨hval, hcnt, -⟩ := run_of_not_fits hb hres
        exact ⟨hval, hcnt⟩

end LibShv.CCpon
