import Mathlib

/-!
# LibShv.Lib.Decimal

Decimal numbers as bytes: the digits of a natural number, its value read back
byte by byte, and the signed form. Distinct numbers have distinct digits.
-/

namespace LibShv.Decimal

/-- The decimal digits of `n`, without leading zeros. -/
def digits (n : Nat) : List UInt8 := (Nat.toDigits 10 n).map fun c => UInt8.ofNat c.toNat

/-- A decimal digit. -/
def IsDigit (b : UInt8) : Prop := 48 ≤ b.toNat ∧ b.toNat ≤ 57

instance (b : UInt8) : Decidable (IsDigit b) := inferInstanceAs (Decidable (_ ∧ _))

/-- The number a list of digits stands for, read from the left. -/
def value (acc : Nat) (bs : List UInt8) : Nat :=
  bs.foldl (fun acc b => acc * 10 + (b.toNat - 48)) acc

@[simp] theorem value_nil (acc : Nat) : value acc [] = acc := rfl

@[simp] theorem value_cons (acc : Nat) (b : UInt8) (bs : List UInt8) :
    value acc (b :: bs) = value (acc * 10 + (b.toNat - 48)) bs := by
  rw [value, List.foldl_cons, value]

theorem toNat_of_isDigit {c : Char} (h : c.isDigit = true) :
    (UInt8.ofNat c.toNat).toNat = c.toNat := by
  have hc : c.toNat ≤ 57 := (Char.isDigit_iff_toNat.mp h).2
  rw [UInt8.toNat_ofNat']
  omega

/-- Reading characters and reading their bytes agree on digits. -/
theorem value_map {cs : List Char} (h : ∀ c ∈ cs, c.isDigit = true) (acc : Nat) :
    value acc (cs.map fun c => UInt8.ofNat c.toNat) = Nat.ofDigitChars 10 cs acc := by
  induction cs generalizing acc with
  | nil => rw [Nat.ofDigitChars_nil]; rfl
  | cons c cs ih =>
    have hc := toNat_of_isDigit (h c List.mem_cons_self)
    have hzero : '0'.toNat = 48 := rfl
    rw [List.map_cons, value_cons, hc, ih fun x hx => h x (List.mem_cons_of_mem c hx),
      Nat.ofDigitChars_cons, hzero, Nat.mul_comm]

theorem isDigit_of_mem_toDigits {n : Nat} {c : Char} (h : c ∈ Nat.toDigits 10 n) :
    c.isDigit = true :=
  Nat.isDigit_of_mem_toDigits (by decide) (by decide) h

/-- Reading the digits of a number gives the number. -/
@[simp] theorem value_digits (n : Nat) : value 0 (digits n) = n := by
  rw [digits, value_map (fun _ => isDigit_of_mem_toDigits), Nat.ofDigitChars_ten_toDigits]

theorem isDigit_of_mem_digits {n : Nat} {b : UInt8} (h : b ∈ digits n) : IsDigit b := by
  obtain ⟨c, hc, rfl⟩ := List.mem_map.mp h
  have hd := isDigit_of_mem_toDigits hc
  rw [IsDigit, toNat_of_isDigit hd]
  exact Char.isDigit_iff_toNat.mp hd

theorem digits_ne_nil (n : Nat) : digits n ≠ [] := by
  rw [digits, ne_eq, List.map_eq_nil_iff]
  exact Nat.toDigits_ne_nil

/-- Reading more digits does not make a number smaller. -/
theorem le_value (acc : Nat) (bs : List UInt8) : acc ≤ value acc bs := by
  induction bs generalizing acc with
  | nil => exact Nat.le_refl _
  | cons b bs ih =>
    rw [value_cons]
    have := ih (acc * 10 + (b.toNat - 48))
    omega

/-- A 64-bit number has 20 digits at most. -/
theorem length_digits_le {n : Nat} (h : n < 2 ^ 64) : (digits n).length ≤ 20 := by
  rw [digits, List.length_map]
  exact (Nat.length_toDigits_le_iff (by decide) (by decide)).mpr (by omega)

theorem digits_inj {n m : Nat} (h : digits n = digits m) : n = m := by
  rw [← value_digits n, h, value_digits]

/-! ## signed numbers -/

/-- The digits of `z`, after a minus sign if it is negative. -/
def intDigits (z : Int) : List UInt8 :=
  if z < 0 then 45 :: digits z.natAbs else digits z.natAbs

theorem intDigits_ofNat (n : Nat) : intDigits n = digits n := by
  have h : ¬ (n : Int) < 0 := by omega
  rw [intDigits, if_neg h, Int.natAbs_natCast]

theorem digits_ne_minus {n : Nat} {bs : List UInt8} : digits n ≠ 45 :: bs := by
  intro h
  have hm : (45 : UInt8) ∈ digits n := by rw [h]; exact List.mem_cons_self
  exact absurd (isDigit_of_mem_digits hm) (by decide)

theorem intDigits_inj {y z : Int} (h : intDigits y = intDigits z) : y = z := by
  unfold intDigits at h
  by_cases hy : y < 0
  · by_cases hz : z < 0
    · rw [if_pos hy, if_pos hz] at h
      have := digits_inj (List.cons.inj h).2
      omega
    · rw [if_pos hy, if_neg hz] at h
      exact absurd h.symm digits_ne_minus
  · by_cases hz : z < 0
    · rw [if_neg hy, if_pos hz] at h
      exact absurd h digits_ne_minus
    · rw [if_neg hy, if_neg hz] at h
      have := digits_inj h
      omega

end LibShv.Decimal
