import LibShv.Lib.UpperBound

/-!
# LibShv.Lib.SortedSearch

The place of a key in a list that is sorted by it: the lower and the upper bound as indexes,
and the first and the last element with a property as functions of them.
-/

namespace LibShv.SortedSearch

open UpperBound

variable {α κ : Type*} [LinearOrder κ] {key : α → κ} {l : List α} {k : κ}

/-- The index of the first element whose key is not under `k`. -/
def lowerBound (key : α → κ) (l : List α) (k : κ) : Nat := l.findIdx fun a => ¬ key a < k

/-- The index of the first element whose key is over `k`. -/
def upperBound (key : α → κ) (l : List α) (k : κ) : Nat := l.findIdx fun a => k < key a

/-- `r` is the first index of an element with `P`, if there is one. -/
def IsFirst (P : α → Prop) (l : List α) : Option Nat → Prop
  | some i => (∃ a, l[i]? = some a ∧ P a) ∧ ∀ j < i, ∀ a, l[j]? = some a → ¬ P a
  | none => ∀ a ∈ l, ¬ P a

/-- `r` is the last index of an element with `P`, if there is one. -/
def IsLast (P : α → Prop) (l : List α) : Option Nat → Prop
  | some i => (∃ a, l[i]? = some a ∧ P a) ∧ ∀ j, i < j → ∀ a, l[j]? = some a → ¬ P a
  | none => ∀ a ∈ l, ¬ P a

/-! ## the two bounds -/

theorem le_of_sorted (h : Sorted key l) {i j : Nat} {a b : α} (hij : i ≤ j)
    (ha : l[i]? = some a) (hb : l[j]? = some b) : key a ≤ key b := by
  obtain ⟨hi, rfl⟩ := List.getElem?_eq_some_iff.mp ha
  obtain ⟨hj, rfl⟩ := List.getElem?_eq_some_iff.mp hb
  obtain rfl | hlt := Nat.eq_or_lt_of_le hij
  · exact le_refl _
  · exact List.pairwise_iff_getElem.mp h i j hi hj hlt

theorem lowerBound_le_length : lowerBound key l k ≤ l.length := List.findIdx_le_length

theorem upperBound_le_length : upperBound key l k ≤ l.length := List.findIdx_le_length

/-- In front of the lower bound, and nowhere else, are the keys under `k`. -/
theorem lt_lowerBound_iff (h : Sorted key l) {i : Nat} {a : α} (ha : l[i]? = some a) :
    i < lowerBound key l k ↔ key a < k := by
  obtain ⟨hi, rfl⟩ := List.getElem?_eq_some_iff.mp ha
  constructor
  · intro hlt
    simpa using List.not_of_lt_findIdx hlt
  · intro hk
    by_contra hge
    have hlen : lowerBound key l k < l.length := Nat.lt_of_le_of_lt (Nat.not_lt.mp hge) hi
    have hfirst : ¬ key l[lowerBound key l k] < k :=
      of_decide_eq_true (List.findIdx_getElem (w := hlen))
    exact hfirst ((le_of_sorted h (Nat.not_lt.mp hge) (List.getElem?_eq_getElem hlen) ha).trans_lt hk)

/-- In front of the upper bound, and nowhere else, are the keys up to `k`. -/
theorem lt_upperBound_iff (h : Sorted key l) {i : Nat} {a : α} (ha : l[i]? = some a) :
    i < upperBound key l k ↔ key a ≤ k := by
  obtain ⟨hi, rfl⟩ := List.getElem?_eq_some_iff.mp ha
  constructor
  · intro hlt
    simpa using List.not_of_lt_findIdx hlt
  · intro hk
    by_contra hge
    have hlen : upperBound key l k < l.length := Nat.lt_of_le_of_lt (Nat.not_lt.mp hge) hi
    have hfirst : k < key l[upperBound key l k] :=
      of_decide_eq_true (List.findIdx_getElem (w := hlen))
    exact absurd (hfirst.trans_le
      (le_of_sorted h (Nat.not_lt.mp hge) (List.getElem?_eq_getElem hlen) ha)) (not_lt.mpr hk)

theorem lowerBound_le_upperBound (h : Sorted key l) : lowerBound key l k ≤ upperBound key l k := by
  by_contra hlt
  have hlen : upperBound key l k < l.length :=
    Nat.lt_of_lt_of_le (Nat.not_le.mp hlt) lowerBound_le_length
  have ha := List.getElem?_eq_getElem hlen
  have hkey := (lt_lowerBound_iff (k := k) h ha).mp (Nat.not_le.mp hlt)
  exact Nat.lt_irrefl _ ((lt_upperBound_iff h ha).mpr hkey.le)

/-- Between the bounds are the elements with the key `k`. -/
theorem key_eq_iff (h : Sorted key l) {i : Nat} {a : α} (ha : l[i]? = some a) :
    key a = k ↔ lowerBound key l k ≤ i ∧ i < upperBound key l k := by
  rw [← Nat.not_lt, lt_lowerBound_iff h ha, lt_upperBound_iff h ha, not_lt, and_comm]
  exact le_antisymm_iff

/-! ## first and last elements -/

theorem forall_mem_iff_getElem? {P : α → Prop} :
    (∀ a ∈ l, ¬ P a) ↔ ∀ (i : Nat) a, l[i]? = some a → ¬ P a := by
  constructor
  · intro h i a ha
    exact h a (List.mem_of_getElem? ha)
  · intro h a ha
    obtain ⟨i, hi⟩ := List.getElem?_of_mem ha
    exact h i a hi

/-- The first element with a property that holds from `n` on. -/
theorem isFirst_iff_of_le {P : α → Prop} {n : Nat}
    (hP : ∀ i a, l[i]? = some a → (P a ↔ n ≤ i)) (r : Option Nat) :
    IsFirst P l r ↔ r = if n < l.length then some n else none := by
  cases r with
  | none =>
    rw [IsFirst, forall_mem_iff_getElem?]
    by_cases hn : n < l.length
    · rw [if_pos hn]
      refine iff_of_false (fun h => ?_) (by simp)
      exact h n _ (List.getElem?_eq_getElem hn) ((hP n _ (List.getElem?_eq_getElem hn)).mpr le_rfl)
    · rw [if_neg hn]
      refine iff_of_true (fun i a ha hPa => ?_) rfl
      have hi := (List.getElem?_eq_some_iff.mp ha).1
      have hle := (hP i a ha).mp hPa
      omega
  | some i =>
    constructor
    · rintro ⟨⟨a, ha, hPa⟩, hfirst⟩
      have hi := (List.getElem?_eq_some_iff.mp ha).1
      have hle := (hP i a ha).mp hPa
      have hn : n < l.length := by omega
      have hnot : ¬ n < i := fun hlt => hfirst n hlt _ (List.getElem?_eq_getElem hn)
        ((hP n _ (List.getElem?_eq_getElem hn)).mpr le_rfl)
      rw [if_pos hn]
      congr 1
      omega
    · intro h
      by_cases hn : n < l.length
      · rw [if_pos hn] at h
        obtain rfl := Option.some.inj h
        have ha := List.getElem?_eq_getElem hn
        refine ⟨⟨_, ha, (hP i _ ha).mpr le_rfl⟩, fun j hj a ha' hPa => ?_⟩
        have hle := (hP j a ha').mp hPa
        omega
      · rw [if_neg hn] at h
        cases h

/-- The last element with a property that holds before `n`. -/
theorem isLast_iff_of_lt {P : α → Prop} {n : Nat} (hn : n ≤ l.length)
    (hP : ∀ i a, l[i]? = some a → (P a ↔ i < n)) (r : Option Nat) :
    IsLast P l r ↔ r = if 0 < n then some (n - 1) else none := by
  have hlast : 0 < n → ∃ a, l[n - 1]? = some a ∧ P a := fun hpos => by
    have ha := List.getElem?_eq_getElem (show n - 1 < l.length by omega)
    exact ⟨_, ha, (hP _ _ ha).mpr (by omega)⟩
  cases r with
  | none =>
    rw [IsLast, forall_mem_iff_getElem?]
    by_cases hpos : 0 < n
    · rw [if_pos hpos]
      obtain ⟨a, ha, hPa⟩ := hlast hpos
      exact iff_of_false (fun h => h _ a ha hPa) (by simp)
    · rw [if_neg hpos]
      refine iff_of_true (fun i a ha hPa => ?_) rfl
      have hlt := (hP i a ha).mp hPa
      omega
  | some i =>
    constructor
    · rintro ⟨⟨a, ha, hPa⟩, hrest⟩
      have hlt := (hP i a ha).mp hPa
      have hpos : 0 < n := by omega
      obtain ⟨b, hb, hPb⟩ := hlast hpos
      have hnot : ¬ i < n - 1 := fun h => hrest _ h b hb hPb
      rw [if_pos hpos]
      congr 1
      omega
    · intro h
      by_cases hpos : 0 < n
      · rw [if_pos hpos] at h
        obtain rfl := Option.some.inj h
        refine ⟨hlast hpos, fun j hj a ha hPa => ?_⟩
        have hlt := (hP j a ha).mp hPa
        omega
      · rw [if_neg hpos] at h
        cases h

end LibShv.SortedSearch
