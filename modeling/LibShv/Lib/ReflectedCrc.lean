import Mathlib

/-!
# LibShv.Lib.ReflectedCrc

Cyclic redundancy checks whose register is reflected: the lowest bit of the register is the
highest coefficient of the remainder, and the bits of a message come lowest first.

A register of `w` bits is a polynomial over the integers modulo 2 of a degree below `w`. A
step of the register multiplies it by `X` modulo the generator, so that the register after a
message is the remainder of the message in the division by the generator.
-/

namespace LibShv.ReflectedCrc

open Polynomial

variable {w : ℕ}

/-! ## registers -/

/-- A step of the register with the next bit of the message. -/
def addBit (poly r : BitVec w) (b : Bool) : BitVec w :=
  if r.getLsbD 0 ^^ b then (r >>> 1) ^^^ poly else r >>> 1

/-- The register after some bits. -/
def addBits (poly r : BitVec w) (bits : List Bool) : BitVec w := bits.foldl (addBit poly) r

/-- The low bits of a register, lowest first. -/
def lowBits (x : BitVec w) (n : ℕ) : List Bool := (List.range n).map x.getLsbD

theorem addBits_append (poly r : BitVec w) (bits bits' : List Bool) :
    addBits poly r (bits ++ bits') = addBits poly (addBits poly r bits) bits' :=
  List.foldl_append

theorem lowBits_succ (x : BitVec w) (n : ℕ) : lowBits x (n + 1) = lowBits x n ++ [x.getLsbD n] := by
  simp [lowBits, List.range_succ]

/-- The last bit matters. -/
theorem addBit_false_ne_true {poly : BitVec w} (hpoly : poly ≠ 0#w) (r : BitVec w) :
    addBit poly r false ≠ addBit poly r true := by
  intro h
  have hxor : (r >>> 1) ^^^ poly = r >>> 1 := by
    rw [addBit, addBit] at h
    cases hbit : r.getLsbD 0 with
    | false => simpa [hbit] using h.symm
    | true => simpa [hbit] using h
  have hzero := congrArg ((r >>> 1) ^^^ ·) hxor
  rw [BitVec.xor_self, ← BitVec.xor_assoc, BitVec.xor_self, BitVec.zero_xor] at hzero
  exact hpoly hzero

/-! ## registers as polynomials -/

/-- The polynomial of a register. -/
noncomputable def toPoly (x : BitVec w) : (ZMod 2)[X] :=
  ∑ i ∈ Finset.range w, if x.getLsbD i then X ^ (w - 1 - i) else 0

/-- The register of a polynomial. -/
noncomputable def ofPoly (w : ℕ) (p : (ZMod 2)[X]) : BitVec w :=
  BitVec.ofFnLE fun i => decide (p.coeff (w - 1 - i) = 1)

/-- What a register is divided by; the highest coefficient is not in `poly`. -/
noncomputable def generator (poly : BitVec w) : (ZMod 2)[X] := X ^ w + toPoly poly

/-- The polynomial of a message, the first bit highest. -/
noncomputable def message (bits : List Bool) : (ZMod 2)[X] :=
  bits.foldl (fun p b => p * X + if b then 1 else 0) 0

/-- The remainder of a message, with `init` in front of it. -/
noncomputable def remainder (poly init : BitVec w) (bits : List Bool) : (ZMod 2)[X] :=
  (message bits * X ^ w + toPoly init * X ^ bits.length) %ₘ generator poly

/-- The check of a message. -/
noncomputable def crc (poly init xorOut : BitVec w) (bits : List Bool) : BitVec w :=
  ofPoly w (remainder poly init bits) ^^^ xorOut

theorem coeff_toPoly (x : BitVec w) (k : ℕ) :
    (toPoly x).coeff k = if k < w ∧ x.getLsbD (w - 1 - k) = true then 1 else 0 := by
  have hterm (i : ℕ) : (if x.getLsbD i then (X : (ZMod 2)[X]) ^ (w - 1 - i) else 0).coeff k =
      if k = w - 1 - i ∧ x.getLsbD i = true then 1 else 0 := by
    by_cases hbit : x.getLsbD i = true <;> simp [hbit, coeff_X_pow]
  rw [toPoly, finsetSum_coeff]
  simp only [hterm]
  by_cases hk : k < w
  · rw [Finset.sum_eq_single (w - 1 - k)]
    · have hback : w - 1 - (w - 1 - k) = k := by omega
      simp [hback, hk]
    · intro i hi hne
      rw [Finset.mem_range] at hi
      rw [if_neg]
      rintro ⟨hki, -⟩
      omega
    · intro hout
      rw [Finset.mem_range] at hout
      omega
  · rw [if_neg fun h => hk h.1]
    refine Finset.sum_eq_zero fun i hi => ?_
    rw [Finset.mem_range] at hi
    rw [if_neg]
    rintro ⟨hki, -⟩
    omega

theorem degree_toPoly (x : BitVec w) : (toPoly x).degree < w := by
  rw [degree_lt_iff_coeff_zero]
  intro k hk
  rw [coeff_toPoly, if_neg]
  rintro ⟨hlt, -⟩
  exact absurd hlt (Nat.not_lt.mpr hk)

theorem ofPoly_toPoly (x : BitVec w) : ofPoly w (toPoly x) = x := by
  apply BitVec.eq_of_getLsbD_eq
  intro i hi
  have hlt : w - 1 - i < w := by omega
  have hback : w - 1 - (w - 1 - i) = i := by omega
  rw [ofPoly, BitVec.getLsbD_ofFnLE]
  simp [coeff_toPoly, hi, hlt, hback]

theorem toPoly_injective : Function.Injective (toPoly : BitVec w → (ZMod 2)[X]) :=
  Function.LeftInverse.injective ofPoly_toPoly

/-- Exclusive or is addition. -/
theorem toPoly_xor (x y : BitVec w) : toPoly (x ^^^ y) = toPoly x + toPoly y := by
  ext k
  rw [coeff_add, coeff_toPoly, coeff_toPoly, coeff_toPoly]
  by_cases hk : k < w
  · rw [BitVec.getLsbD_xor]
    cases x.getLsbD (w - 1 - k) <;> cases y.getLsbD (w - 1 - k) <;> simp [hk]
    decide
  · simp [hk]

/-- Multiplication by `X ^ n` shifts the register, except for the `n` bits that fall out. -/
theorem X_pow_mul_toPoly {x low : BitVec w} {n : ℕ}
    (hlow : ∀ i, low.getLsbD i = (decide (i < n) && x.getLsbD i)) :
    X ^ n * toPoly x = toPoly (x >>> n) + X ^ n * toPoly low := by
  ext k
  rw [coeff_add, coeff_X_pow_mul', coeff_X_pow_mul', coeff_toPoly, coeff_toPoly, coeff_toPoly,
    hlow, BitVec.getLsbD_ushiftRight]
  by_cases hk : n ≤ k
  · by_cases hw : k < w
    · -- the coefficient of a bit that stays
      have hstay : n + (w - 1 - k) = w - 1 - (k - n) := by omega
      have hin : k - n < w := by omega
      have hout : ¬w - 1 - (k - n) < n := by omega
      simp [hk, hw, hin, hstay, hout]
    · by_cases hin : k - n < w
      · -- the coefficient of a bit that falls out
        have hout : w - 1 - (k - n) < n := by omega
        simp [hk, hw, hin, hout]
      · simp [hk, hw, hin]
  · have hbeyond : w ≤ n + (w - 1 - k) := by omega
    simp [hk, BitVec.getLsbD_of_ge _ _ hbeyond]

theorem generator_monic (poly : BitVec w) : (generator poly).Monic :=
  monic_X_pow_add (degree_toPoly poly)

theorem degree_generator (poly : BitVec w) : (generator poly).degree = w := by
  have hlt : (toPoly poly).degree < (X ^ w : (ZMod 2)[X]).degree := by
    rw [degree_X_pow]
    exact degree_toPoly poly
  rw [generator, degree_add_eq_left_of_degree_lt hlt, degree_X_pow]

/-! ## modulo the generator -/

/-- The residue of a register. -/
noncomputable def residue (poly x : BitVec w) : AdjoinRoot (generator poly) :=
  AdjoinRoot.mk (generator poly) (toPoly x)

section Residues

variable {poly : BitVec w}

theorem residue_xor (x y : BitVec w) : residue poly (x ^^^ y) = residue poly x + residue poly y := by
  rw [residue, toPoly_xor, map_add]
  rfl

/-- A residue determines the polynomial below the generator. -/
theorem eq_of_mk_eq {p q : (ZMod 2)[X]} (hp : p.degree < w) (hq : q.degree < w)
    (h : AdjoinRoot.mk (generator poly) p = AdjoinRoot.mk (generator poly) q) : p = q := by
  rw [AdjoinRoot.mk_eq_mk] at h
  refine sub_eq_zero.mp (eq_zero_of_dvd_of_degree_lt h ?_)
  rw [degree_generator]
  exact lt_of_le_of_lt (degree_sub_le p q) (max_lt hp hq)

theorem residue_injective : Function.Injective (residue poly) := fun x y h =>
  toPoly_injective (eq_of_mk_eq (degree_toPoly x) (degree_toPoly y) h)

/-- Twice the same is nothing. -/
theorem add_self_residue (a : AdjoinRoot (generator poly)) : a + a = 0 := by
  obtain ⟨p, rfl⟩ := AdjoinRoot.mk_surjective a
  rw [← map_add, CharTwo.add_self_eq_zero, map_zero]

/-- The highest power of the generator is as much as the rest of it. -/
theorem residue_poly : residue poly poly = AdjoinRoot.mk (generator poly) (X ^ w) := by
  have hrest : toPoly poly = X ^ w + generator poly := by
    rw [generator, ← add_assoc, CharTwo.add_self_eq_zero, zero_add]
  rw [residue, hrest, map_add, AdjoinRoot.mk_self, add_zero]

/-- The bit that falls out of a register. -/
theorem X_mul_toPoly (hw : 0 < w) (x : BitVec w) :
    X * toPoly x = toPoly (x >>> 1) + if x.getLsbD 0 then X ^ w else 0 := by
  ext k
  rw [coeff_add, coeff_toPoly, BitVec.getLsbD_ushiftRight]
  cases k with
  | zero =>
    have hbeyond : w ≤ 1 + (w - 1 - 0) := by omega
    have hpow : (if x.getLsbD 0 then (X : (ZMod 2)[X]) ^ w else 0).coeff 0 = 0 := by
      split
      · rw [coeff_X_pow, if_neg hw.ne]
      · exact coeff_zero 0
    rw [coeff_X_mul_zero, hpow, BitVec.getLsbD_of_ge _ _ hbeyond]
    simp
  | succ k =>
    rw [coeff_X_mul, coeff_toPoly]
    have hpow : (if x.getLsbD 0 then (X : (ZMod 2)[X]) ^ w else 0).coeff (k + 1) =
        if k + 1 = w ∧ x.getLsbD 0 = true then 1 else 0 := by
      cases x.getLsbD 0 <;> simp [coeff_X_pow]
    rw [hpow]
    by_cases hlast : k + 1 = w
    · have hzero : w - 1 - k = 0 := by omega
      have hlt : k < w := by omega
      simp [hlast, hzero, hlt]
    · by_cases hlt : k + 1 < w
      · have hstay : 1 + (w - 1 - (k + 1)) = w - 1 - k := by omega
        have hlt' : k < w := by omega
        simp [hlast, hlt, hlt', hstay]
      · have hlt' : ¬k < w := by omega
        simp [hlast, hlt, hlt']

/-- A step of the register. -/
theorem residue_addBit (hw : 0 < w) (x : BitVec w) (b : Bool) :
    residue poly (addBit poly x b) =
      AdjoinRoot.mk (generator poly) (X * toPoly x + if b then X ^ w else 0) := by
  have hshift : AdjoinRoot.mk (generator poly) (X * toPoly x) =
      residue poly (x >>> 1) +
        AdjoinRoot.mk (generator poly) (if x.getLsbD 0 then X ^ w else 0) := by
    rw [X_mul_toPoly hw, map_add]
    rfl
  rw [map_add, hshift, addBit]
  cases x.getLsbD 0 <;> cases b
  · simp
  · simp [residue_xor, residue_poly]
  · simp [residue_xor, residue_poly]
  · simp [add_assoc, add_self_residue]

/-- The register after a message is the message, behind what was in the register. -/
theorem residue_addBits (hw : 0 < w) (x : BitVec w) (bits : List Bool) :
    residue poly (addBits poly x bits) =
      AdjoinRoot.mk (generator poly) (message bits * X ^ w + toPoly x * X ^ bits.length) := by
  induction bits using List.reverseRecOn with
  | nil => simp [addBits, message, residue]
  | append_singleton bits b ih =>
    have hmessage : message (bits ++ [b]) = message bits * X + if b then 1 else 0 := by
      rw [message, List.foldl_append]
      rfl
    have hnext : X * (message bits * X ^ w + toPoly x * X ^ bits.length) +
          (if b then X ^ w else 0) =
        (message bits * X + if b then 1 else 0) * X ^ w + toPoly x * X ^ (bits ++ [b]).length := by
      rw [List.length_append, List.length_singleton]
      cases b <;> simp <;> ring
    rw [addBits_append, hmessage, ← hnext, map_add, map_mul, ← ih]
    change residue poly (addBit poly (addBits poly x bits) b) = _
    rw [residue_addBit hw, map_add, map_mul]
    rfl

/-- The register is the remainder of the division. -/
theorem toPoly_addBits (hw : 0 < w) (init : BitVec w) (bits : List Bool) :
    toPoly (addBits poly init bits) = remainder poly init bits := by
  refine @eq_of_mk_eq w poly _ _ (degree_toPoly _) ?_ ?_
  · rw [← degree_generator poly]
    exact degree_modByMonic_lt _ (generator_monic poly)
  · rw [remainder, modByMonic_eq_sub_mul_div, map_sub, map_mul, AdjoinRoot.mk_self, zero_mul,
      sub_zero]
    exact residue_addBits hw init bits

/-- A register of which the bits go in and the complement comes out computes the check. -/
theorem addBits_xor_eq_crc (hw : 0 < w) (init xorOut : BitVec w) (bits : List Bool) :
    addBits poly init bits ^^^ xorOut = crc poly init xorOut bits := by
  rw [crc, ← toPoly_addBits hw, ofPoly_toPoly]

end Residues

/-! ## several bits at once -/

/-- The message of a list of bits. -/
theorem message_map_range (f : ℕ → Bool) (n : ℕ) :
    message ((List.range n).map f) =
      ∑ i ∈ Finset.range n, if f i then X ^ (n - 1 - i) else 0 := by
  induction n with
  | zero => rfl
  | succ n ih =>
    have hterm : (∑ i ∈ Finset.range n, if f i then (X : (ZMod 2)[X]) ^ (n - 1 - i) else 0) * X =
        ∑ i ∈ Finset.range n, if f i then X ^ (n + 1 - 1 - i) else 0 := by
      rw [Finset.sum_mul]
      refine Finset.sum_congr rfl fun i hi => ?_
      rw [Finset.mem_range] at hi
      have hexp : n + 1 - 1 - i = n - 1 - i + 1 := by omega
      rw [hexp, ite_mul, zero_mul, pow_succ]
    rw [List.range_succ, List.map_append, message, List.foldl_append]
    change message ((List.range n).map f) * X + (if f n then 1 else 0) = _
    rw [ih, hterm, Finset.sum_range_succ]
    simp

/-- All bits of a register, as a message. -/
theorem message_lowBits (x : BitVec w) : message (lowBits x w) = toPoly x :=
  message_map_range x.getLsbD w

theorem message_replicate_false (n : ℕ) : message (List.replicate n false) = 0 := by
  induction n with
  | zero => rfl
  | succ n ih =>
    rw [List.replicate_succ', message, List.foldl_append]
    change message (List.replicate n false) * X + 0 = 0
    rw [ih, zero_mul, add_zero]

/-- A short register at the low end of a long one. -/
theorem toPoly_setWidth {n : ℕ} (hn : n ≤ w) (x : BitVec n) :
    toPoly (x.setWidth w) = X ^ (w - n) * toPoly x := by
  ext k
  rw [coeff_toPoly, coeff_X_pow_mul', coeff_toPoly, BitVec.getLsbD_setWidth]
  by_cases hk : k < w
  · by_cases hlow : w - n ≤ k
    · have hin : k - (w - n) < n := by omega
      have hback : n - 1 - (k - (w - n)) = w - 1 - k := by omega
      have hlt : w - 1 - k < w := by omega
      simp [hk, hlow, hin, hback, hlt]
    · have hbeyond : n ≤ w - 1 - k := by omega
      simp [hlow, BitVec.getLsbD_of_ge _ _ hbeyond]
  · have hout : ¬k - (w - n) < n := by omega
    simp [hk, hout]

/-- The bits of a short register at once: they are added to the low end, the bits that fall out are
looked up, and the others are shifted. -/
theorem addBits_lowBits {poly : BitVec w} (hw : 0 < w) {n : ℕ} (hn : n ≤ w) (r : BitVec w)
    (x : BitVec n) {low : BitVec w}
    (hlow : ∀ i, low.getLsbD i = (decide (i < n) && (r ^^^ x.setWidth w).getLsbD i)) :
    addBits poly r (lowBits x n) = addBits poly low (List.replicate n false) ^^^ (r >>> n) := by
  have hshift := X_pow_mul_toPoly hlow
  have hrest : (r ^^^ x.setWidth w) >>> n = r >>> n := by
    apply BitVec.eq_of_getLsbD_eq
    intro i _
    simp
  rw [hrest, toPoly_xor, toPoly_setWidth hn, mul_add] at hshift
  have hmessage : message (lowBits x n) * X ^ w = X ^ n * (X ^ (w - n) * toPoly x) := by
    rw [message_lowBits, ← mul_assoc, ← pow_add, Nat.add_sub_cancel' hn, mul_comm]
  refine @residue_injective w poly _ _ ?_
  rw [residue_xor, residue_addBits hw, residue_addBits hw, message_replicate_false, zero_mul,
    zero_add, List.length_replicate, hmessage, lowBits, List.length_map, List.length_range]
  change _ = AdjoinRoot.mk (generator poly) _ + AdjoinRoot.mk (generator poly) (toPoly (r >>> n))
  rw [← map_add]
  congr 1
  rw [mul_comm (toPoly low), add_comm _ (toPoly (r >>> n)), ← hshift]
  ring

/-! ## errors that are found -/

section Bursts

variable {poly : BitVec w}

/-- A message is the polynomial of a register of its length. -/
theorem message_eq_toPoly (bits : List Bool) : message bits = toPoly (BitVec.ofBoolListLE bits) := by
  rw [← message_lowBits]
  congr 1
  refine List.ext_getElem (by simp [lowBits]) fun i hi _ => ?_
  simp only [lowBits, List.getElem_map, List.getElem_range, BitVec.getLsbD_ofBoolListLE]
  exact (List.getD_eq_getElem _ _ hi).symm

theorem degree_message (bits : List Bool) : (message bits).degree < bits.length := by
  rw [message_eq_toPoly]
  exact degree_toPoly _

/-- Messages of one length are told apart by their polynomials. -/
theorem message_injective {bits bits' : List Bool} (hlen : bits.length = bits'.length)
    (h : message bits = message bits') : bits = bits' := by
  have hcoeff (l : List Bool) {i : ℕ} (hi : i < l.length) :
      (message l).coeff (l.length - 1 - i) = if l[i] = true then 1 else 0 := by
    have hlt : l.length - 1 - i < l.length := by omega
    have hback : l.length - 1 - (l.length - 1 - i) = i := by omega
    rw [message_eq_toPoly, coeff_toPoly, hback, BitVec.getLsbD_ofBoolListLE]
    simp [hlt, hi]
  refine List.ext_getElem hlen fun i hi hi' => ?_
  have hbit := hcoeff bits hi
  rw [h, hlen, hcoeff bits' hi'] at hbit
  cases hb : bits[i] <;> cases hb' : bits'[i] <;> simp [hb, hb'] at hbit ⊢

variable (hw : 0 < w) (htop : poly.getLsbD (w - 1) = true)

include hw htop

/-- A generator with a constant term has no factor `X`. -/
theorem isCoprime_X_generator : IsCoprime X (generator poly) := by
  have hconst : (generator poly - 1).coeff 0 = 0 := by
    rw [coeff_sub, generator, coeff_add, coeff_X_pow, if_neg hw.ne, coeff_toPoly, Nat.sub_zero,
      if_pos ⟨hw, htop⟩, coeff_one_zero, zero_add, sub_self]
  obtain ⟨q, hq⟩ := X_dvd_iff.mpr hconst
  have hone : generator poly = X * q + 1 := sub_eq_iff_eq_add.mp hq
  exact ⟨-q, 1, by rw [hone]; ring⟩

/-- What is multiplied by a power of `X` keeps its residue. -/
theorem mk_eq_of_mul_X_pow {p q : (ZMod 2)[X]} {n : ℕ}
    (h : AdjoinRoot.mk (generator poly) (p * X ^ n) = AdjoinRoot.mk (generator poly) (q * X ^ n)) :
    AdjoinRoot.mk (generator poly) p = AdjoinRoot.mk (generator poly) q := by
  rw [AdjoinRoot.mk_eq_mk, ← sub_mul] at h
  rw [AdjoinRoot.mk_eq_mk]
  exact (isCoprime_X_generator hw htop).pow_left.symm.dvd_of_dvd_mul_right h

/-- A difference between two registers stays, whatever bits follow. -/
theorem addBits_left_injective (bits : List Bool) :
    Function.Injective fun r => addBits poly r bits := by
  intro r r' h
  have hresidue := congrArg (residue poly) h
  simp only [residue_addBits hw, map_add, add_right_inj] at hresidue
  exact residue_injective (mk_eq_of_mul_X_pow hw htop hresidue)

/-- As many bits as the register has make a difference to it. -/
theorem addBits_right_injective (r : BitVec w) {bits bits' : List Bool}
    (hlen : bits.length = bits'.length) (hle : bits.length ≤ w)
    (h : addBits poly r bits = addBits poly r bits') : bits = bits' := by
  have hresidue := congrArg (residue poly) h
  simp only [residue_addBits hw, map_add, hlen, add_left_inj] at hresidue
  refine message_injective hlen (eq_of_mk_eq ?_ ?_ (mk_eq_of_mul_X_pow hw htop hresidue))
  · exact lt_of_lt_of_le (degree_message bits) (Nat.cast_le.mpr hle)
  · exact lt_of_lt_of_le (degree_message bits') (Nat.cast_le.mpr (hlen ▸ hle))

/-- A burst of errors, not longer than the register, is found. -/
theorem addBits_burst_ne (r : BitVec w) {mid mid' : List Bool} (hlen : mid.length = mid'.length)
    (hle : mid.length ≤ w) (hne : mid ≠ mid') (pre post : List Bool) :
    addBits poly r (pre ++ (mid ++ post)) ≠ addBits poly r (pre ++ (mid' ++ post)) := by
  intro h
  rw [addBits_append, addBits_append, addBits_append, addBits_append] at h
  exact hne (addBits_right_injective hw htop _ hlen hle (addBits_left_injective hw htop post h))

end Bursts

end LibShv.ReflectedCrc
