import Mathlib.Data.List.TakeWhile
import Mathlib.Order.Lattice

/-!
# LibShv.Lib.UpperBound

Insertion into a list that is sorted by a key. The place, the upper bound of some key, can be
looked up with another key than the one of the inserted element; when the list is still sorted
is said here.
-/

namespace LibShv.UpperBound

variable {α κ : Type*} [LinearOrder κ] {key : α → κ}

/-- The keys do not decrease. -/
def Sorted (key : α → κ) (l : List α) : Prop := l.Pairwise fun a b => key a ≤ key b

/-- `e` in front of the first element with a key over `k`. -/
def insertAt (key : α → κ) (k : κ) (e : α) (l : List α) : List α :=
  l.takeWhile (fun o => key o ≤ k) ++ e :: l.dropWhile (fun o => key o ≤ k)

theorem sorted_cons {a : α} {l : List α} :
    Sorted key (a :: l) ↔ (∀ b ∈ l, key a ≤ key b) ∧ Sorted key l := List.pairwise_cons

/-- In front of the upper bound there are the keys up to `k`. -/
theorem mem_takeWhile_iff {l : List α} (h : Sorted key l) {k : κ} {o : α} :
    o ∈ l.takeWhile (fun o => key o ≤ k) ↔ o ∈ l ∧ key o ≤ k := by
  induction l with
  | nil => simp
  | cons a l ih =>
    obtain ⟨hfirst, hrest⟩ := sorted_cons.mp h
    by_cases ha : key a ≤ k
    · rw [List.takeWhile_cons_of_pos (by simpa using ha), List.mem_cons, ih hrest, List.mem_cons]
      constructor
      · rintro (rfl | ⟨ho, hk⟩)
        · exact ⟨.inl rfl, ha⟩
        · exact ⟨.inr ho, hk⟩
      · rintro ⟨rfl | ho, hk⟩
        · exact .inl rfl
        · exact .inr ⟨ho, hk⟩
    · rw [List.takeWhile_cons_of_neg (by simpa using ha)]
      simp only [List.not_mem_nil, List.mem_cons, false_iff, not_and, not_le]
      rintro (rfl | ho)
      · exact not_le.mp ha
      · exact (not_le.mp ha).trans_le (hfirst o ho)

/-- Behind the upper bound there are the keys over `k`. -/
theorem mem_dropWhile_iff {l : List α} (h : Sorted key l) {k : κ} {o : α} :
    o ∈ l.dropWhile (fun o => key o ≤ k) ↔ o ∈ l ∧ k < key o := by
  induction l with
  | nil => simp
  | cons a l ih =>
    obtain ⟨hfirst, hrest⟩ := sorted_cons.mp h
    by_cases ha : key a ≤ k
    · rw [List.dropWhile_cons_of_pos (by simpa using ha), ih hrest, List.mem_cons]
      refine ⟨fun ⟨ho, hk⟩ => ⟨.inr ho, hk⟩, ?_⟩
      rintro ⟨rfl | ho, hk⟩
      · exact absurd hk (not_lt.mpr ha)
      · exact ⟨ho, hk⟩
    · rw [List.dropWhile_cons_of_neg (by simpa using ha)]
      refine ⟨fun ho => ⟨ho, ?_⟩, And.left⟩
      rcases List.mem_cons.mp ho with rfl | ho
      · exact not_le.mp ha
      · exact (not_le.mp ha).trans_le (hfirst o ho)

/-- The list is still sorted iff no key lies between the one that the place was looked up with
and the one of the new element. -/
theorem sorted_insertAt_iff {l : List α} (h : Sorted key l) {k : κ} {e : α} :
    Sorted key (insertAt key k e l) ↔
      ∀ o ∈ l, ¬(key e < key o ∧ key o ≤ k) ∧ ¬(k < key o ∧ key o < key e) := by
  have hsub : (l.takeWhile fun o => key o ≤ k) ++ l.dropWhile (fun o => key o ≤ k) = l :=
    List.takeWhile_append_dropWhile
  have hl := h
  rw [← hsub] at hl
  obtain ⟨hbelow, habove, hcross⟩ := List.pairwise_append.mp hl
  constructor
  · intro hs o ho
    obtain ⟨-, hrest, hleft⟩ := List.pairwise_append.mp hs
    constructor
    · rintro ⟨hlt, hle⟩
      exact not_le.mpr hlt (hleft o ((mem_takeWhile_iff h).mpr ⟨ho, hle⟩) e List.mem_cons_self)
    · rintro ⟨hk, hlt⟩
      exact not_le.mpr hlt ((sorted_cons.mp hrest).1 o ((mem_dropWhile_iff h).mpr ⟨ho, hk⟩))
  · intro hbetween
    refine List.pairwise_append.mpr ⟨hbelow, sorted_cons.mpr ⟨fun o ho => ?_, habove⟩,
      fun a ha b hb => ?_⟩
    · obtain ⟨hmem, hk⟩ := (mem_dropWhile_iff h).mp ho
      exact not_lt.mp fun hlt => (hbetween o hmem).2 ⟨hk, hlt⟩
    · rcases List.mem_cons.mp hb with rfl | hb
      · obtain ⟨hmem, hk⟩ := (mem_takeWhile_iff h).mp ha
        exact not_lt.mp fun hlt => (hbetween a hmem).1 ⟨hlt, hk⟩
      · exact hcross a ha b hb

/-- No key of a sorted list is over the last one. -/
theorem Sorted.le_getLast {l : List α} (h : Sorted key l) {last o : α}
    (hlast : l.getLast? = some last) (ho : o ∈ l) : key o ≤ key last := by
  obtain ⟨front, rfl⟩ := List.getLast?_eq_some_iff.mp hlast
  rcases List.mem_append.mp ho with ho | ho
  · exact (List.pairwise_append.mp h).2.2 o ho last (List.mem_singleton_self last)
  · rw [List.mem_singleton.mp ho]

/-- Behind the last element a key that is not under the last one keeps the order. -/
theorem Sorted.concat {l : List α} (h : Sorted key l) {e : α} (he : ∀ o ∈ l, key o ≤ key e) :
    Sorted key (l ++ [e]) := by
  refine List.pairwise_append.mpr ⟨h, List.pairwise_singleton _ _, fun a ha b hb => ?_⟩
  rw [List.mem_singleton.mp hb]
  exact he a ha

end LibShv.UpperBound
