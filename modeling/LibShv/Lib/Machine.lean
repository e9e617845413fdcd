import Mathlib

/-!
# LibShv.Lib.Machine

Machines that take one event after another and put out something for each.

An invariant of a machine relates its state to what it has taken and put out so
far. What one step keeps, every run keeps.
-/

namespace LibShv.Machine

variable {σ ε ω : Type}

/-- Take the events in order: the last state, and everything put out. -/
def run (step : σ → ε → σ × List ω) : σ → List ε → σ × List ω
  | s, [] => (s, [])
  | s, e :: es =>
    let (s₁, os₁) := step s e
    let (s₂, os₂) := run step s₁ es
    (s₂, os₁ ++ os₂)

@[simp] theorem run_nil (step : σ → ε → σ × List ω) (s : σ) : run step s [] = (s, []) := rfl

theorem run_cons (step : σ → ε → σ × List ω) (s : σ) (e : ε) (es : List ε) :
    run step s (e :: es) =
      ((run step (step s e).1 es).1, (step s e).2 ++ (run step (step s e).1 es).2) := rfl

/-- Events taken in two parts. -/
theorem run_append (step : σ → ε → σ × List ω) (s : σ) (es es' : List ε) :
    run step s (es ++ es') =
      ((run step (run step s es).1 es').1,
        (run step s es).2 ++ (run step (run step s es).1 es').2) := by
  induction es generalizing s with
  | nil => simp
  | cons e es ih => rw [List.cons_append, run_cons, ih, run_cons, List.append_assoc]

/-- What every step keeps is kept by a run. `Inv es os s` speaks of the events
taken, the outputs and the state. -/
theorem run_invariant (step : σ → ε → σ × List ω) (Inv : List ε → List ω → σ → Prop)
    (es : List ε) {es₀ : List ε} {os₀ : List ω} {s : σ} (h₀ : Inv es₀ os₀ s)
    (hstep : ∀ pre e post os s, es₀ ++ es = pre ++ e :: post → Inv pre os s →
      Inv (pre ++ [e]) (os ++ (step s e).2) (step s e).1) :
    Inv (es₀ ++ es) (os₀ ++ (run step s es).2) (run step s es).1 := by
  induction es generalizing es₀ os₀ s with
  | nil => simpa using h₀
  | cons e es ih =>
    have h₁ := hstep es₀ e es os₀ s rfl h₀
    have h₂ := ih h₁ (by simpa using hstep)
    rw [run_cons]
    simpa using h₂

/-- The same for a run from the start. -/
theorem run_invariant_nil (step : σ → ε → σ × List ω) (Inv : List ε → List ω → σ → Prop)
    (s : σ) (es : List ε) (h₀ : Inv [] [] s)
    (hstep : ∀ pre e post os s, es = pre ++ e :: post → Inv pre os s →
      Inv (pre ++ [e]) (os ++ (step s e).2) (step s e).1) :
    Inv es (run step s es).2 (run step s es).1 := by
  have h := run_invariant step Inv es h₀ (by simpa using hstep)
  simpa using h

/-! ## two machines -/

/-- A machine simulates another one when every step does, for related states and events: what they
put out is related too. -/
theorem run_simulates {σ' ε' ω' : Type} {step : σ → ε → σ × List ω} {step' : σ' → ε' → σ' × List ω'}
    {R : σ → σ' → Prop} {E : ε → ε' → Prop} {O : ω → ω' → Prop}
    (hstep : ∀ {s s' e e'}, R s s' → E e e' →
      R (step s e).1 (step' s' e').1 ∧ List.Forall₂ O (step s e).2 (step' s' e').2)
    {es : List ε} {es' : List ε'} (hes : List.Forall₂ E es es') {s : σ} {s' : σ'} (hs : R s s') :
    R (run step s es).1 (run step' s' es').1 ∧
      List.Forall₂ O (run step s es).2 (run step' s' es').2 := by
  induction hes generalizing s s' with
  | nil => exact ⟨hs, .nil⟩
  | cons he _ ih =>
    obtain ⟨hs₁, hos₁⟩ := hstep hs he
    obtain ⟨hs₂, hos₂⟩ := ih hs₁
    exact ⟨hs₂, List.rel_append hos₁ hos₂⟩

/-! ## outputs and what came before them -/

/-- Each output satisfies `P` together with what was put out before it. -/
def EachAfter (P : List ω → ω → Prop) (os : List ω) : Prop :=
  ∀ pre o post, os = pre ++ o :: post → P pre o

variable {P : List ω → ω → Prop} {os os' : List ω}

theorem eachAfter_nil : EachAfter P [] := by
  intro pre o post h
  simp at h

/-- More outputs, each of which satisfies `P` with what it comes after. -/
theorem EachAfter.append (h : EachAfter P os) (h' : EachAfter (fun pre => P (os ++ pre)) os') :
    EachAfter P (os ++ os') := by
  intro pre o post heq
  obtain ⟨rest, rfl, hrest⟩ | ⟨rest, rfl, hrest⟩ := List.append_eq_append_iff.mp heq
  · exact h' rest o post hrest
  · cases rest with
    | nil => simpa using h' [] o post hrest.symm
    | cons o' rest =>
      obtain ⟨rfl, -⟩ := List.cons.inj hrest
      exact h pre o rest rfl

/-- Outputs of which `P` asks nothing. -/
theorem eachAfter_of_forall (h : ∀ o ∈ os, ∀ pre, P pre o) : EachAfter P os := by
  intro pre o post heq
  exact h o (by simp [heq]) pre

/-! ## machines without outputs -/

/-- Where a step keeps an invariant exactly under a condition on the state before it, every state
of a run has the invariant exactly if every step meets the condition. -/
theorem foldl_invariant_iff {σ ε : Type} {step : σ → ε → σ} {Inv : σ → Prop} {Ok : σ → ε → Prop}
    (hstep : ∀ s e, Inv s → (Inv (step s e) ↔ Ok s e)) {s : σ} (h : Inv s) (es : List ε) :
    (∀ pre post, es = pre ++ post → Inv (pre.foldl step s)) ↔
      ∀ pre e post, es = pre ++ e :: post → Ok (pre.foldl step s) e := by
  constructor
  · intro hinv pre e post heq
    have hpre := hinv pre (e :: post) heq
    have hnext := hinv (pre ++ [e]) post (by simp [heq])
    rw [List.foldl_append] at hnext
    exact (hstep _ e hpre).mp hnext
  · intro hok pre
    induction pre using List.reverseRecOn with
    | nil => exact fun _ _ => h
    | append_singleton pre e ih =>
      intro post heq
      have hpre := ih (e :: post) (by simp [heq])
      rw [List.foldl_append]
      exact (hstep _ e hpre).mpr (hok pre e post (by simp [heq]))

end LibShv.Machine
