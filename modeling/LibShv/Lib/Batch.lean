import Mathlib

/-!
# LibShv.Lib.Batch

A batch of a list that may be cut between two keys only: items are taken until
one is over the limit and its key is not the key of the item before it. A run of
items with one key is never torn.

* `take_append_rest` — the batch and the rest are the list;
* `rest_eq_nil_iff`, `take_eq_take_iff` — what a batch is depends on the limit at
  the places of `stops` alone;
* `filter_append_of_sorted` — a sorted list is cut in two at a threshold.
-/

namespace LibShv

namespace Batch

section
variable {α κ : Type*} [DecidableEq κ] (key : α → κ)

/-- Does the key change from the last item, if there is one? -/
def changed : Option α → α → Bool
  | some last, a => key a ≠ key last
  | none, _ => false

/-- The items of the batch; `n` is the number of items before. -/
def take (full : Nat → Bool) : Nat → Option α → List α → List α
  | _, _, [] => []
  | n, last, a :: as =>
    if full (n + 1) && changed key last a then [] else a :: take full (n + 1) (some a) as

/-- The items after the batch. -/
def rest (full : Nat → Bool) : Nat → Option α → List α → List α
  | _, _, [] => []
  | n, last, a :: as =>
    if full (n + 1) && changed key last a then a :: as else rest full (n + 1) (some a) as

/-- The numbers of items at which the key changes, each with the item counted. -/
def stops : Nat → Option α → List α → List Nat
  | _, _, [] => []
  | n, last, a :: as =>
    if changed key last a then (n + 1) :: stops (n + 1) (some a) as
    else stops (n + 1) (some a) as

variable {key} {full full' : Nat → Bool} {n : Nat} {last : Option α} {l : List α}

theorem take_append_rest : take key full n last l ++ rest key full n last l = l := by
  induction l generalizing n last with
  | nil => rfl
  | cons a as ih =>
    rw [take, rest]
    split
    · rfl
    · rw [List.cons_append, ih]

theorem take_isPrefix : take key full n last l <+: l := ⟨_, take_append_rest⟩

theorem lt_of_mem_stops {m : Nat} (h : m ∈ stops key n last l) : n < m := by
  induction l generalizing n last with
  | nil => simp [stops] at h
  | cons a as ih =>
    rw [stops] at h
    split at h
    · rcases List.mem_cons.mp h with rfl | h
      · exact Nat.lt_succ_self n
      · exact Nat.lt_of_succ_lt (ih h)
    · exact Nat.lt_of_succ_lt (ih h)

/-- Nothing is cut off when the limit holds wherever the batch may end. -/
theorem le_of_mem_stops {m : Nat} (h : m ∈ stops key n last l) : m ≤ n + l.length := by
  induction l generalizing n last with
  | nil => simp [stops] at h
  | cons a l ih =>
    rw [List.length_cons]
    rw [stops] at h
    split at h
    · rcases List.mem_cons.mp h with rfl | h
      · omega
      · have := ih h
        omega
    · have := ih h
      omega

theorem rest_eq_nil_iff :
    rest key full n last l = [] ↔ ∀ m ∈ stops key n last l, full m = false := by
  induction l generalizing n last with
  | nil => simp [rest, stops]
  | cons a as ih =>
    rw [rest, stops]
    cases changed key last a with
    | false => simpa using ih
    | true =>
      cases hfull : full (n + 1) with
      | false => simpa [hfull] using ih
      | true => simp [hfull]

theorem take_eq_self (h : rest key full n last l = []) : take key full n last l = l := by
  calc take key full n last l = take key full n last l ++ rest key full n last l := by simp [h]
    _ = l := take_append_rest

/-- Two limits that only ever grow give the same batch when they agree wherever it may
end. -/
theorem take_eq_take_iff (hmono : ∀ i j, i ≤ j → full i = true → full j = true)
    (hmono' : ∀ i j, i ≤ j → full' i = true → full' j = true) :
    take key full n last l = take key full' n last l ↔
      ∀ m ∈ stops key n last l, full m = full' m := by
  induction l generalizing n last with
  | nil => simp [take, stops]
  | cons a as ih =>
    rw [take, take, stops]
    cases changed key last a with
    | false => simpa using ih
    | true =>
      simp only [Bool.and_true, if_true, List.forall_mem_cons]
      cases hfull : full (n + 1) with
      | false =>
        cases hfull' : full' (n + 1) with
        | false => simpa using ih
        | true => simp
      | true =>
        cases hfull' : full' (n + 1) with
        | false => simp
        | true =>
          -- both batches end here, and both limits are exceeded from here on
          simp only [if_true, true_and, true_iff]
          intro m hm
          have hle := Nat.le_of_lt (lt_of_mem_stops hm)
          rw [hmono _ m hle hfull, hmono' _ m hle hfull']

end

/-! ## thresholds -/

section
variable {α : Type*} {r : α → α → Prop}

/-- The items of a sorted list that a threshold lets through come first. -/
theorem filter_append_of_sorted {l : List α} (hl : l.Pairwise r) (p : α → Bool)
    (hp : ∀ a b, r a b → p b = true → p a = true) :
    l.filter p ++ l.filter (fun a => !p a) = l := by
  induction hl with
  | nil => rfl
  | @cons a as ha _ ih =>
    cases hpa : p a with
    | true => simpa [List.filter_cons, hpa] using ih
    | false =>
      have hnone : ∀ b ∈ as, p b = false := by
        intro b hb
        by_contra hpb
        rw [hp a b (ha b hb) (by simpa using hpb)] at hpa
        contradiction
      have hfilter : as.filter p = [] := by
        rw [List.filter_eq_nil_iff]
        intro b hb
        simp [hnone b hb]
      rw [hfilter, List.nil_append] at ih
      simp [hpa, hfilter, ih]

end

end Batch

end LibShv
