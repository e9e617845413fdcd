import LibShv.DCpon
import LibShv.DChainPack.Depth

/-!
# LibShv.DCpon.Depth

What `max_depth` limits in the readers of D. In CPON `depth` is put down again when `read_val`
returns and counts how deep the values are nested. In ChainPack it is not, and the limit is one
of the number of values and keys.
-/

namespace LibShv.D

open ByteReader CallTree

/-! ## CPON -/

namespace Cpon

section

variable (sysTime : Bytes → Option DateTime)

theorem readVal_eq_ok_iff (n : Nat) (c : Cursor Place) (v : RpcValue) (c' : Cursor Place) :
    readVal sysTime n c = .ok v c' ↔ ∃ t, readTree sysTime n c = .ok (v, t) c' :=
  read_eq_ok_iff n c v c'

end

/-- Looking for the characters near an error does not fail. -/
theorem nearChars_ok (n : Nat) (near : Bytes) (c : Cursor Place) :
    ∃ near' c', nearChars n near c = .ok near' c' := by
  induction n generalizing near c with
  | zero => exact ⟨near, c, rfl⟩
  | succ n ih =>
    obtain ⟨input, last, atEnd, reg⟩ := c
    cases input with
    | nil => exact ⟨near, _, rfl⟩
    | cons b bs => exact ih (near ++ [b]) _

theorem error_error {α : Type} (msg : String) (c : Cursor Place) :
    ∃ e c', (error msg : Read α) c = .error e c' := by
  obtain ⟨near, c', h⟩ := nearChars_ok 100 [] c
  exact ⟨_, c', bind_of_ok h⟩

variable {sysTime : Bytes → Option DateTime} {maxDepth : Int32} {n : Nat} {c c' : Cursor Place}
  {v : RpcValue} {t : Tree}

theorem readMaxDepth_limitsDepth_iff (hpos : 0 < maxDepth)
    (ht : readTree sysTime n c = .ok (v, t) c') :
    LimitsDepth maxDepth (maxDepthExceeded maxDepth) t v c' (readMaxDepth sysTime maxDepth n c) ↔
      maxDepth.toInt < 2 ^ 31 - 1 ∨ t.depth ≤ maxDepth.toInt :=
  limitsDepth_back_iff (error_error _) hpos ht

/-- A `max_depth` of -1 is none. -/
theorem not_exceeded_default (d : Int32) : ¬ ((0 : Int32) < -1 ∧ -1 < d) := by
  rintro ⟨h, -⟩
  exact absurd h (by decide)

theorem readString_limitsDepth_iff {cpon : Bytes}
    (ht : readTree sysTime n (ofString cpon) = .ok (v, t) c') :
    LimitsDepth maxDepth (maxDepthExceeded maxDepth) t v c'
        (readString sysTime maxDepth n cpon) ↔
      t.depth ≤ maxDepth.toInt :=
  limitsDepth_iff_of_ok (readLimited_unlimited not_exceeded_default ht)

end Cpon

/-! ## ChainPack -/

theorem readMaxDepth_limitsDepth_iff {maxDepth : Int32} {n : Nat} {c c' : Cursor Nat}
    {v : RpcValue} {t : Tree} (hpos : 0 < maxDepth) (ht : readTree n c = .ok (v, t) c') :
    LimitsDepth maxDepth (maxDepthExceeded maxDepth) t v c' (readMaxDepth maxDepth n c) ↔
      (maxDepth.toInt < 2 ^ 31 - 1 ∧
          (t.size ≤ maxDepth.toInt + 1 ∨ maxDepth.toInt < t.depth)) ∨
        (¬ maxDepth.toInt < 2 ^ 31 - 1 ∧ t.depth ≤ maxDepth.toInt) :=
  limitsDepth_forth_iff (maxDepthExceeded_error _) hpos ht

/-! ## both -/

/-- For which documents `max_depth` limits how deep the values and keys are nested: in ChainPack
where there are at most `max_depth + 1` of them, or they are nested too deep anyway; in CPON
always, unless it is read by the overload that has the string only. No `int` exceeds the largest
one. -/
theorem max_depth_limits_nesting_iff (maxDepth : Int32) (hpos : 0 < maxDepth) (n : Nat) :
    (∀ c v c', readVal n c = .ok v c' → ∃ t, readTree n c = .ok (v, t) c' ∧
      (LimitsDepth maxDepth (maxDepthExceeded maxDepth) t v c' (readMaxDepth maxDepth n c) ↔
        (maxDepth.toInt < 2 ^ 31 - 1 ∧
            (t.size ≤ maxDepth.toInt + 1 ∨ maxDepth.toInt < t.depth)) ∨
          (¬ maxDepth.toInt < 2 ^ 31 - 1 ∧ t.depth ≤ maxDepth.toInt))) ∧
    (∀ sysTime c v c', Cpon.readVal sysTime n c = .ok v c' →
      ∃ t, Cpon.readTree sysTime n c = .ok (v, t) c' ∧
        (LimitsDepth maxDepth (Cpon.maxDepthExceeded maxDepth) t v c'
            (Cpon.readMaxDepth sysTime maxDepth n c) ↔
          maxDepth.toInt < 2 ^ 31 - 1 ∨ t.depth ≤ maxDepth.toInt)) ∧
    (∀ sysTime cpon v c', Cpon.readVal sysTime n (Cpon.ofString cpon) = .ok v c' →
      ∃ t, Cpon.readTree sysTime n (Cpon.ofString cpon) = .ok (v, t) c' ∧
        (LimitsDepth maxDepth (Cpon.maxDepthExceeded maxDepth) t v c'
            (Cpon.readString sysTime maxDepth n cpon) ↔
          t.depth ≤ maxDepth.toInt)) := by
  refine ⟨fun c v c' hv => ?_, fun sysTime c v c' hv => ?_, fun sysTime cpon v c' hv => ?_⟩
  · obtain ⟨t, ht⟩ := (readVal_eq_ok_iff n c v c').mp hv
    exact ⟨t, ht, readMaxDepth_limitsDepth_iff hpos ht⟩
  · obtain ⟨t, ht⟩ := (Cpon.readVal_eq_ok_iff sysTime n c v c').mp hv
    exact ⟨t, ht, Cpon.readMaxDepth_limitsDepth_iff hpos ht⟩
  · obtain ⟨t, ht⟩ := (Cpon.readVal_eq_ok_iff sysTime n _ v c').mp hv
    exact ⟨t, ht, Cpon.readString_limitsDepth_iff ht⟩

/-- The run returns something for which `p` holds. -/
def returns {ε σ α : Type} (p : α → Bool) : EStateM.Result ε σ α → Bool
  | .ok a _ => p a
  | .error _ _ => false

theorem exists_of_returns {ε σ α : Type} {p : α → Bool} {run : EStateM.Result ε σ α}
    (h : returns p run = true) : ∃ a c, run = .ok a c ∧ p a = true := by
  cases run with
  | ok a c => exact ⟨a, c, rfl, h⟩
  | error e c => exact absurd h Bool.false_ne_true

/-- The list of two small integers in ChainPack. -/
def flatList : Cursor Nat := { input := [136, 65, 66, 255], last := 0, atEnd := false, reg := 0 }

theorem flatList_tree :
    ∃ v t c', readTree 4 flatList = .ok (v, t) c' ∧ t.depth = 1 ∧ t.size = 3 := by
  have h : returns (fun vt => vt.2.depth == 1 && vt.2.size == 3) (readTree 4 flatList) = true := by
    decide +kernel
  obtain ⟨⟨v, t⟩, c', ht, hp⟩ := exists_of_returns h
  exact ⟨v, t, c', ht, by simpa using hp⟩

/-- The list of the list of 1 in CPON. -/
def nestedList : Bytes := [0x5b, 0x5b, 0x31, 0x5d, 0x5d]

theorem nestedList_tree : ∃ v t c',
    Cpon.readTree (fun _ => none) 6 (Cpon.ofString nestedList) = .ok (v, t) c' ∧ t.depth = 2 := by
  have h : returns (fun vt => vt.2.depth == 2)
      (Cpon.readTree (fun _ => none) 6 (Cpon.ofString nestedList)) = true := by decide +kernel
  obtain ⟨⟨v, t⟩, c', ht, hp⟩ := exists_of_returns h
  exact ⟨v, t, c', ht, by simpa using hp⟩

/-- The limit is one of nesting where three values are not too many, and in CPON. -/
theorem max_depth_limits_nesting_two :
    (∃ v t c', readTree 4 flatList = .ok (v, t) c' ∧
      LimitsDepth 2 (maxDepthExceeded 2) t v c' (readMaxDepth 2 4 flatList)) ∧
    ∃ v t c', Cpon.readTree (fun _ => none) 6 (Cpon.ofString nestedList) = .ok (v, t) c' ∧
      LimitsDepth 2 (Cpon.maxDepthExceeded 2) t v c'
        (Cpon.readMaxDepth (fun _ => none) 2 6 (Cpon.ofString nestedList)) ∧
      LimitsDepth 2 (Cpon.maxDepthExceeded 2) t v c'
        (Cpon.readString (fun _ => none) 2 6 nestedList) := by
  have htwo : (2 : Int32).toInt = 2 := rfl
  constructor
  · obtain ⟨v, t, c', ht, hdepth, hsize⟩ := flatList_tree
    obtain ⟨t', ht', hiff⟩ := (max_depth_limits_nesting_iff 2 (by decide) 4).1 flatList v c'
      ((readVal_eq_ok_iff 4 flatList v c').mpr ⟨t, ht⟩)
    obtain rfl : t = t' := by simpa [ht] using ht'
    exact ⟨v, t, c', ht, hiff.mpr (.inl ⟨by decide, .inl (by omega)⟩)⟩
  · obtain ⟨v, t, c', ht, hdepth⟩ := nestedList_tree
    have hv := (Cpon.readVal_eq_ok_iff _ 6 _ v c').mpr ⟨t, ht⟩
    have hall := max_depth_limits_nesting_iff 2 (by decide) 6
    obtain ⟨t₁, ht₁, hiff⟩ := hall.2.1 _ _ v c' hv
    obtain ⟨t₂, ht₂, hiffString⟩ := hall.2.2 _ nestedList v c' hv
    obtain rfl : t = t₁ := by simpa [ht] using ht₁
    obtain rfl : t = t₂ := by simpa [ht] using ht₂
    exact ⟨v, t, c', ht, hiff.mpr (.inl (by decide)), hiffString.mpr (by omega)⟩

/-- Nothing in a list of two integers is inside of more than one container, and it is not read
with a `max_depth` of 1. In a list of a list something is, and the overload that has the string
only reads it. -/
theorem not_max_depth_limits_nesting :
    (∃ v t c', readVal 4 flatList = .ok v c' ∧ readTree 4 flatList = .ok (v, t) c' ∧
      t.depth ≤ 1 ∧
      FailsBy (maxDepthExceeded 1 : Read (RpcValue × Int32)) (readMaxDepth 1 4 flatList)) ∧
    ∃ v t c', Cpon.readVal (fun _ => none) 6 (Cpon.ofString nestedList) = .ok v c' ∧
      Cpon.readTree (fun _ => none) 6 (Cpon.ofString nestedList) = .ok (v, t) c' ∧
      1 < t.depth ∧ Cpon.readString (fun _ => none) 1 6 nestedList = .ok v c' := by
  constructor
  · obtain ⟨v, t, c', ht, hdepth, hsize⟩ := flatList_tree
    have hneed := need_false t
    have hone : (1 : Int32).toInt = 1 := rfl
    have hfails : FailsBy (maxDepthExceeded 1 : Read (RpcValue × Int32))
        (readMaxDepth 1 4 flatList) :=
      readLimited_beyond (maxDepthExceeded_error 1) (by decide) (by decide) ht (by omega)
    exact ⟨v, t, c', (readVal_eq_ok_iff 4 flatList v c').mpr ⟨t, ht⟩, ht, by omega, hfails⟩
  · obtain ⟨v, t, c', ht, hdepth⟩ := nestedList_tree
    exact ⟨v, t, c', (Cpon.readVal_eq_ok_iff _ 6 _ v c').mpr ⟨t, ht⟩, ht, by omega,
      readLimited_unlimited Cpon.not_exceeded_default ht⟩

end LibShv.D
