import Mathlib

/-!
# LibShv.Lib.Fueled

Computations that may throw and that have fuel: a result, an exception, or nothing
yet. A computation is done if it has one of the first two, and returns if it has the
first.
-/

namespace LibShv

/-- A result, an exception, or no result with this fuel. -/
abbrev Fueled (ε : Type u) (α : Type u) := ExceptT ε Option α

namespace Fueled

variable {ε α β σ : Type u}

def ofExcept (x : Except ε α) : Fueled ε α := ExceptT.mk (some x)

/-- No result yet. -/
def more : Fueled ε α := ExceptT.mk none

/-- A result or an exception. -/
def Done (x : Fueled ε α) : Prop := x.run.isSome = true

/-- A result. -/
def Returns (x : Fueled ε α) (a : α) : Prop := x.run = some (.ok a)

theorem not_done_more : ¬ Done (more : Fueled ε α) := Bool.false_ne_true

theorem not_returns_more {a : α} : ¬ Returns (more : Fueled ε α) a := by simp [Returns, more]

theorem Returns.done {x : Fueled ε α} {a : α} (h : Returns x a) : Done x := by
  rw [Done, h]
  rfl

theorem done_ofExcept (x : Except ε α) : Done (ofExcept x) := rfl

theorem returns_ofExcept {x : Except ε α} {a : α} (h : Returns (ofExcept x) a) : x = .ok a :=
  Option.some.inj h

theorem done_pure (a : α) : Done (pure a : Fueled ε α) := rfl

theorem done_bind {x : Fueled ε α} {f : α → Fueled ε β} (hx : Done x)
    (hf : ∀ a, Returns x a → Done (f a)) : Done (x >>= f) := by
  rw [Done, ExceptT.run_bind]
  obtain ⟨r, hr⟩ := Option.isSome_iff_exists.mp hx
  rw [hr]
  cases r with
  | error e => rfl
  | ok a => exact hf a hr

theorem Done.of_bind {x : Fueled ε α} {f : α → Fueled ε β} (h : Done (x >>= f)) : Done x := by
  rw [Done, ExceptT.run_bind] at h
  cases hx : x.run with
  | none =>
    rw [hx] at h
    exact absurd h Bool.false_ne_true
  | some r =>
    rw [Done, hx]
    rfl

theorem Done.bind_of_returns {x : Fueled ε α} {f : α → Fueled ε β} (h : Done (x >>= f)) {a : α}
    (ha : Returns x a) : Done (f a) := by
  rwa [Done, ExceptT.run_bind, ha] at h

theorem returns_bind {x : Fueled ε α} {f : α → Fueled ε β} {b : β} (h : Returns (x >>= f) b) :
    ∃ a, Returns x a ∧ Returns (f a) b := by
  rw [Returns, ExceptT.run_bind] at h
  cases hx : x.run with
  | none =>
    rw [hx] at h
    cases h
  | some r =>
    rw [hx] at h
    cases r with
    | error e => cases h
    | ok a => exact ⟨a, hx, h⟩

/-- A loop is done if each of its rounds is. -/
theorem done_foldlM {f : σ → α → Fueled ε σ} {l : List α} (h : ∀ x ∈ l, ∀ s, Done (f s x)) (s : σ) :
    Done (l.foldlM f s) := by
  induction l generalizing s with
  | nil => exact done_pure s
  | cons x l ih =>
    obtain ⟨hx, hl⟩ := List.forall_mem_cons.mp h
    rw [List.foldlM_cons]
    exact done_bind (hx s) fun s' _ => ih hl s'

/-- A loop that returns has returned from each of its rounds. -/
theorem returns_foldlM {f : σ → α → Fueled ε σ} {l : List α} {s s' : σ}
    (h : Returns (l.foldlM f s) s') : ∀ x ∈ l, ∃ s₁ s₂, Returns (f s₁ x) s₂ := by
  induction l generalizing s with
  | nil => exact fun x hx => absurd hx List.not_mem_nil
  | cons x l ih =>
    rw [List.foldlM_cons] at h
    obtain ⟨s₁, hs₁, hrest⟩ := returns_bind h
    exact List.forall_mem_cons.mpr ⟨⟨s, s₁, hs₁⟩, ih hrest⟩

end Fueled

end LibShv
