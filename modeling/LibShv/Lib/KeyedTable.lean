import Mathlib

/-!
# LibShv.Lib.KeyedTable

A table whose rows have a unique key, and rows that are inserted one after
another until one is refused.
-/

namespace LibShv.KeyedTable

variable {ρ : Type u} {κ : Type v} [DecidableEq κ] (accepts : ρ → Bool) (key : ρ → κ)

/-- The rows before the first one that is refused, when some keys are taken. -/
def taken (seen : List κ) : List ρ → List ρ
  | [] => []
  | row :: rows =>
    if accepts row = true ∧ key row ∉ seen then row :: taken (seen ++ [key row]) rows else []

variable {accepts key} {seen : List κ} {rows : List ρ}

/-- Every row is taken if all are accepted and no key is taken twice. -/
theorem taken_eq_self_iff : taken accepts key seen rows = rows ↔
    (∀ row ∈ rows, accepts row = true ∧ key row ∉ seen) ∧ (rows.map key).Nodup := by
  induction rows generalizing seen with
  | nil => simp [taken]
  | cons row rows ih =>
    rw [taken, List.forall_mem_cons, List.map_cons, List.nodup_cons]
    by_cases h : accepts row = true ∧ key row ∉ seen
    · rw [if_pos h, List.cons.injEq, eq_self, true_and, ih]
      constructor
      · rintro ⟨hall, hnodup⟩
        refine ⟨⟨h, fun x hx => ⟨(hall x hx).1, fun hs => (hall x hx).2 ?_⟩⟩, ?_, hnodup⟩
        · exact List.mem_append_left _ hs
        · intro hmem
          obtain ⟨x, hx, heq⟩ := List.mem_map.mp hmem
          exact (hall x hx).2 (heq ▸ List.mem_append_right _ List.mem_cons_self)
      · rintro ⟨⟨-, hall⟩, hne, hnodup⟩
        refine ⟨fun x hx => ⟨(hall x hx).1, fun hs => ?_⟩, hnodup⟩
        obtain hs | hs := List.mem_append.mp hs
        · exact (hall x hx).2 hs
        · exact hne (List.mem_singleton.mp hs ▸ List.mem_map_of_mem hx)
    · rw [if_neg h]
      exact iff_of_false (by simp) fun hall => h hall.1.1

omit [DecidableEq κ] in
/-- A list of rows with different keys is known from its rows and the order of its keys. -/
theorem eq_of_perm_of_map_eq {l : List ρ} (hperm : l.Perm rows) (hmap : l.map key = rows.map key)
    (hnodup : (rows.map key).Nodup) : l = rows := by
  refine List.ext_getElem hperm.length_eq fun i hi hi' => ?_
  refine List.inj_on_of_nodup_map hnodup (hperm.mem_iff.mp (List.getElem_mem hi))
    (List.getElem_mem hi') ?_
  have hkeys : (l.map key)[i]? = (rows.map key)[i]? := by rw [hmap]
  rw [List.getElem?_map, List.getElem?_map, List.getElem?_eq_getElem hi,
    List.getElem?_eq_getElem hi'] at hkeys
  exact Option.some.inj hkeys

end LibShv.KeyedTable
