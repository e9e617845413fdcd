import Mathlib

/-!
# LibShv.Lib.DirPath

Directory paths as texts over any alphabet with a delimiter between the
segments: which path lies at or below which, and how this goes with joining a
directory and a path.
-/

namespace LibShv.DirPath

variable {α : Type _} {d : α} {p q r m s : List α}

/-- No delimiter at either end. -/
def Trimmed (d : α) (p : List α) : Prop := p.head? ≠ some d ∧ p.getLast? ≠ some d

/-- The path `q` is `p` or lies below it. Everything lies below the empty path. -/
def Below (d : α) (p q : List α) : Prop := p = [] ∨ q = p ∨ ∃ r, q = p ++ d :: r

/-- A directory and a path, joined by a delimiter if neither is empty. -/
def join (d : α) (p q : List α) : List α :=
  if q = [] then p else if p = [] then q else p ++ d :: q

@[simp] theorem join_nil : join d p [] = p := by simp [join]

theorem join_of_ne_nil (hp : p ≠ []) (hq : q ≠ []) : join d p q = p ++ d :: q := by
  simp [join, hp, hq]

theorem below_refl (d : α) (p : List α) : Below d p p := .inr (.inl rfl)

theorem below_append (d : α) (p r : List α) : Below d p (p ++ d :: r) := .inr (.inr ⟨r, rfl⟩)

/-- A path below a directory joined with `p` is seen from the directory as one below `p`. -/
theorem below_join (hm : m ≠ []) (h : Below d (join d m p) q) :
    (q = m ∧ p = []) ∨ ∃ t, q = m ++ d :: t ∧ Below d p t := by
  by_cases hp : p = []
  · subst hp
    rw [join_nil] at h
    obtain hnil | rfl | ⟨t, rfl⟩ := h
    · contradiction
    · exact .inl ⟨rfl, rfl⟩
    · exact .inr ⟨t, rfl, .inl rfl⟩
  · rw [join_of_ne_nil hm hp] at h
    obtain hnil | rfl | ⟨t, rfl⟩ := h
    · simp at hnil
    · exact .inr ⟨p, rfl, below_refl d p⟩
    · exact .inr ⟨p ++ d :: t, by simp, below_append d p t⟩

theorem Trimmed.append_cons (hp : Trimmed d p) (hq : Trimmed d q) (hne : p ≠ []) (hqne : q ≠ []) :
    Trimmed d (p ++ d :: q) := by
  constructor
  · cases p with
    | nil => contradiction
    | cons c cs => exact hp.1
  · cases q with
    | nil => contradiction
    | cons c cs =>
      have hlast : (p ++ d :: c :: cs).getLast? = (c :: cs).getLast? := by
        simp [List.getLast?_append, List.getLast?_cons]
      rw [hlast]
      exact hq.2

theorem Trimmed.join (hp : Trimmed d p) (hq : Trimmed d q) : Trimmed d (join d p q) := by
  rw [DirPath.join]
  by_cases hqne : q = []
  · rw [if_pos hqne]
    exact hp
  · rw [if_neg hqne]
    by_cases hpne : p = []
    · rw [if_pos hpne]
      exact hq
    · rw [if_neg hpne]
      exact hp.append_cons hq hpne hqne

end LibShv.DirPath
