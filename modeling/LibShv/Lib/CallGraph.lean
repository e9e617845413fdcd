import Mathlib

/-!
# LibShv.Lib.CallGraph

Recursion through names: a procedure that calls itself on a list of arguments, which
need not be smaller than its own. It comes to an end if the calls do not go round in
a circle, when only finitely many arguments can come up.
-/

namespace LibShv.CallGraph

variable {α : Type u} (calls : α → List α)

/-- An argument is called from another one. -/
def Calls (x y : α) : Prop := y ∈ calls x

/-- The calls nest less than `n` deep. -/
def Depth : Nat → α → Prop
  | 0, _ => False
  | n + 1, x => ∀ y ∈ calls x, Depth n y

/-- The calls from an argument come to an end. -/
def Ends (x : α) : Prop := ∃ n, Depth calls n x

/-- No argument that is called from this one is called from itself. -/
def Acyclic (x : α) : Prop :=
  ∀ y, Relation.ReflTransGen (Calls calls) x y → ¬ Relation.TransGen (Calls calls) y y

variable {calls} {x : α} {n m : Nat}

theorem Depth.mono (h : Depth calls n x) (hle : n ≤ m) : Depth calls m x := by
  induction n generalizing x m with
  | zero => exact absurd h id
  | succ n ih =>
    cases m with
    | zero => omega
    | succ m => exact fun y hy => ih (h y hy) (Nat.le_of_succ_le_succ hle)

/-- One bound does for finitely many arguments. -/
theorem exists_depth {l : List α} (h : ∀ x ∈ l, Ends calls x) : ∃ n, ∀ x ∈ l, Depth calls n x := by
  induction l with
  | nil => exact ⟨0, List.forall_mem_nil _⟩
  | cons x l ih =>
    obtain ⟨hx, hl⟩ := List.forall_mem_cons.mp h
    obtain ⟨n, hn⟩ := hx
    obtain ⟨m, hm⟩ := ih hl
    refine ⟨max n m, List.forall_mem_cons.mpr ⟨hn.mono (Nat.le_max_left n m), fun y hy => ?_⟩⟩
    exact (hm y hy).mono (Nat.le_max_right n m)

theorem ends_of_calls (h : ∀ y ∈ calls x, Ends calls y) : Ends calls x := by
  obtain ⟨n, hn⟩ := exists_depth h
  exact ⟨n + 1, hn⟩

theorem Ends.of_calls {y : α} (h : Ends calls x) (hy : y ∈ calls x) : Ends calls y := by
  obtain ⟨n, hn⟩ := h
  cases n with
  | zero => exact absurd hn id
  | succ n => exact ⟨n, hn y hy⟩

theorem not_depth_of_transGen (h : Relation.TransGen (Calls calls) x x) : ¬ Depth calls n x := by
  have hdown : ∀ {y : α} {n : Nat}, Relation.TransGen (Calls calls) x y → Depth calls n x →
      ∃ m < n, Depth calls m y := by
    intro y n hxy hn
    induction hxy with
    | single hy =>
      cases n with
      | zero => exact absurd hn id
      | succ n => exact ⟨n, Nat.lt_succ_self n, hn _ hy⟩
    | tail _ hz ih =>
      obtain ⟨m, hm, hdepth⟩ := ih
      cases m with
      | zero => exact absurd hdepth id
      | succ m => exact ⟨m, by omega, hdepth _ hz⟩
  induction n using Nat.strong_induction_on with
  | _ n ih =>
    intro hn
    obtain ⟨m, hm, hdepth⟩ := hdown h hn
    exact ih m hm hdepth

theorem Ends.of_reachable (h : Ends calls x) {y : α}
    (hxy : Relation.ReflTransGen (Calls calls) x y) : Ends calls y := by
  induction hxy with
  | refl => exact h
  | tail _ hz ih => exact ih.of_calls hz

theorem Ends.acyclic (h : Ends calls x) : Acyclic calls x := by
  intro y hxy hcycle
  obtain ⟨n, hn⟩ := h.of_reachable hxy
  exact not_depth_of_transGen hcycle hn

/-- Calls that come to an end are of finitely many arguments. -/
theorem Ends.exists_list (h : Ends calls x) :
    ∃ l : List α, ∀ y, Relation.ReflTransGen (Calls calls) x y → y ∈ l := by
  obtain ⟨n, hn⟩ := h
  induction n generalizing x with
  | zero => exact absurd hn id
  | succ n ih =>
    have hall : ∀ xs : List α, (∀ y ∈ xs, Depth calls n y) →
        ∃ l : List α, ∀ y ∈ xs, ∀ z, Relation.ReflTransGen (Calls calls) y z → z ∈ l := by
      intro xs hxs
      induction xs with
      | nil => exact ⟨[], List.forall_mem_nil _⟩
      | cons y ys ihs =>
        obtain ⟨hy, hys⟩ := List.forall_mem_cons.mp hxs
        obtain ⟨l, hl⟩ := ih hy
        obtain ⟨l', hl'⟩ := ihs hys
        refine ⟨l ++ l', List.forall_mem_cons.mpr ⟨fun z hz => ?_, fun w hw z hz => ?_⟩⟩
        · exact List.mem_append_left _ (hl z hz)
        · exact List.mem_append_right _ (hl' w hw z hz)
    obtain ⟨l, hl⟩ := hall (calls x) hn
    refine ⟨x :: l, fun y hy => ?_⟩
    obtain rfl | ⟨z, hz, hzy⟩ := Relation.ReflTransGen.cases_head hy
    · exact List.mem_cons_self
    · exact List.mem_cons_of_mem _ (hl z hz y hzy)

/-- Among finitely many arguments only a circle of calls goes on for ever. -/
theorem Acyclic.ends (h : Acyclic calls x) {l : List α}
    (hl : ∀ y, Relation.ReflTransGen (Calls calls) x y → y ∈ l) : Ends calls x := by
  let Reached := { y // Relation.ReflTransGen (Calls calls) x y }
  let Below : Reached → Reached → Prop := fun a b => Relation.TransGen (Calls calls) b.1 a.1
  have hfinite : Finite Reached := Set.Finite.subset (List.finite_toSet l) hl
  have htrans : IsTrans Reached Below := ⟨fun _ _ _ hab hbc => hbc.trans hab⟩
  have hirrefl : Std.Irrefl Below := ⟨fun a => h a.1 a.2⟩
  have hwf : WellFounded Below := Finite.wellFounded_of_trans_of_irrefl Below
  have hends : ∀ a : Reached, Ends calls a.1 := fun a => by
    induction a using hwf.induction with
    | _ a ih =>
      refine ends_of_calls fun y hy => ?_
      exact ih ⟨y, a.2.tail hy⟩ (Relation.TransGen.single hy)
  exact hends ⟨x, Relation.ReflTransGen.refl⟩

end LibShv.CallGraph
