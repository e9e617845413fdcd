import Mathlib

/-!
# LibShv.Lib.Binary64

Doubles as the numbers they stand for: a finite one is a rational number with a significand of 53
bits, and every operation rounds its exact result to the nearest of them, to an even significand
where two are as near. The two zeros are one number here, as they are for a comparison.
-/

namespace LibShv

/-- A binary64 number. -/
inductive Binary64 where
  | nan
  | inf (neg : Bool)
  | finite (q : ℚ)
deriving DecidableEq

namespace Binary64

/-! ## rounding -/

/-- The nearest integer, the even one of two. -/
def roundEven (n d : Nat) : Nat :=
  if 2 * (n % d) < d ∨ 2 * (n % d) = d ∧ (n / d) % 2 = 0 then n / d else n / d + 1

/-- The exponent of two of the last bit that a positive number `n / d` keeps. -/
def lastBit (n d : Nat) : Int :=
  let e : Int := n.log2 - d.log2
  -- the number is below `2 ^ (e + 1)`, and either its first bit is that of `2 ^ e` or the next one
  let first := if n * 2 ^ (-e).toNat < d * 2 ^ e.toNat then e - 1 else e
  max (first - 52) (-1074)

/-- A positive number `n / d`, rounded. -/
def roundNat (n d : Nat) : ℚ :=
  let u := lastBit n d
  (roundEven (n * 2 ^ (-u).toNat) (d * 2 ^ u.toNat) : ℚ) * (2 : ℚ) ^ u

/-- The double nearest to a number; an infinity from 2^1024 on. -/
def ofRat (q : ℚ) : Binary64 :=
  if q = 0 then finite 0
  else
    let r := roundNat q.num.natAbs q.den
    if (2 : ℚ) ^ 1024 ≤ r then inf (decide (q < 0)) else finite (if q < 0 then -r else r)

/-- The conversion of an integer. -/
def ofInt (z : Int) : Binary64 := ofRat z

/-! ## arithmetic -/

/-- Multiplication by a positive finite number. -/
def scale (x : Binary64) (q : ℚ) : Binary64 :=
  match x with
  | nan => nan
  | inf neg => inf neg
  | finite p => ofRat (p * q)

/-! ## order -/

/-- Nothing is below or above a NaN. -/
def lt : Binary64 → Binary64 → Bool
  | finite p, finite q => decide (p < q)
  | finite _, inf neg => !neg
  | inf neg, finite _ => neg
  | inf neg, inf neg' => neg && !neg'
  | _, _ => false

instance : LT Binary64 := ⟨fun x y => x.lt y = true⟩

instance : DecidableLT Binary64 := fun x y => inferInstanceAs (Decidable (x.lt y = true))

theorem lt_asymm {x y : Binary64} (h : x < y) : ¬ y < x := by
  intro h'
  change x.lt y = true at h
  change y.lt x = true at h'
  cases x <;> cases y <;> simp_all [lt]
  exact absurd h (not_lt_of_gt h')

/-- Ties go to the even neighbour, and a tenth is no binary fraction. -/
example : ofInt (2 ^ 53 + 1) = finite (2 ^ 53) ∧ ofInt (2 ^ 53 + 3) = finite (2 ^ 53 + 4) ∧
    ofRat (1 / 10) = finite (3602879701896397 / 2 ^ 55) := by decide +kernel

end Binary64

end LibShv
