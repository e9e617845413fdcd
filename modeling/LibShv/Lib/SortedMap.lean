import Mathlib

/-!
# LibShv.Lib.SortedMap

An ordered map as an association list with strictly increasing keys, the shape
in which a tree map is iterated. The order is any lawful `compare`.

Insertion and erasure keep the keys increasing, and inserting the entries of a
sorted list one by one at the end rebuilds the list. The last fact is what a
reader of a serialized map needs.
-/

namespace LibShv.SortedMap

variable {κ : Type u} {β : Type v} [Ord κ]

/-! ## operations -/

/-- Set the value of `k`, keeping the entries ordered. -/
def insert (k : κ) (v : β) : List (κ × β) → List (κ × β)
  | [] => [(k, v)]
  | (k', v') :: m =>
    match compare k k' with
    | .lt => (k, v) :: (k', v') :: m
    | .eq => (k', v) :: m
    | .gt => (k', v') :: insert k v m

/-- Remove the entry of `k`, if there is one. -/
def erase (k : κ) : List (κ × β) → List (κ × β)
  | [] => []
  | (k', v') :: m =>
    match compare k k' with
    | .eq => m
    | _ => (k', v') :: erase k m

/-- The value stored for `k`. -/
def find? (k : κ) : List (κ × β) → Option β
  | [] => none
  | (k', v') :: m => if compare k k' = .eq then some v' else find? k m

/-- The keys are strictly increasing. -/
def Sorted (m : List (κ × β)) : Prop :=
  m.Pairwise fun a b => compare a.1 b.1 = .lt

instance (m : List (κ × β)) : Decidable (Sorted m) :=
  inferInstanceAs (Decidable (m.Pairwise _))

@[simp] theorem sorted_nil : Sorted ([] : List (κ × β)) := List.Pairwise.nil

@[simp] theorem sorted_cons {e : κ × β} {m : List (κ × β)} :
    Sorted (e :: m) ↔ (∀ x ∈ m, compare e.1 x.1 = .lt) ∧ Sorted m :=
  List.pairwise_cons

theorem Sorted.tail {e : κ × β} {m : List (κ × β)} (h : Sorted (e :: m)) : Sorted m :=
  (sorted_cons.mp h).2

/-! ## entries and values -/

/-- An entry of `insert k v m` is the new one or one of `m`'s, up to the value. -/
theorem mem_insert {k : κ} {v : β} {m : List (κ × β)} {e : κ × β} (h : e ∈ insert k v m) :
    e.2 = v ∨ e ∈ m := by
  induction m with
  | nil =>
    rw [insert, List.mem_singleton] at h
    exact .inl (by rw [h])
  | cons x m ih =>
    rw [insert] at h
    split at h
    · rcases List.mem_cons.mp h with h | h
      · exact .inl (by rw [h])
      · exact .inr h
    · rcases List.mem_cons.mp h with h | h
      · exact .inl (by rw [h])
      · exact .inr (List.mem_cons_of_mem _ h)
    · rcases List.mem_cons.mp h with h | h
      · exact .inr (by rw [h]; exact List.mem_cons_self)
      · exact (ih h).imp_right (List.mem_cons_of_mem _)

theorem mem_of_mem_erase {k : κ} {m : List (κ × β)} {e : κ × β} (h : e ∈ erase k m) :
    e ∈ m := by
  induction m with
  | nil => exact h
  | cons x m ih =>
    rw [erase] at h
    split at h
    · exact List.mem_cons_of_mem _ h
    · rcases List.mem_cons.mp h with h | h
      · exact h ▸ List.mem_cons_self
      · exact List.mem_cons_of_mem _ (ih h)

/-! ## sortedness -/

theorem compare_key_mem_insert {k k' : κ} {v : β} {m : List (κ × β)}
    (hk : compare k' k = .lt) (hm : ∀ x ∈ m, compare k' x.1 = .lt) :
    ∀ x ∈ insert k v m, compare k' x.1 = .lt := by
  induction m with
  | nil => simpa [insert] using hk
  | cons y m ih =>
    have hy := hm y List.mem_cons_self
    have ih' := ih fun x hx => hm x (List.mem_cons_of_mem _ hx)
    rw [insert]
    split
    · intro x hx
      rcases List.mem_cons.mp hx with rfl | hx
      · exact hk
      · exact hm x hx
    · intro x hx
      rcases List.mem_cons.mp hx with rfl | hx
      · exact hy
      · exact hm x (List.mem_cons_of_mem _ hx)
    · intro x hx
      rcases List.mem_cons.mp hx with rfl | hx
      · exact hy
      · exact ih' x hx

theorem insert_insert [Std.ReflOrd κ] (k : κ) (v : β) (m : List (κ × β)) :
    insert k v (insert k v m) = insert k v m := by
  induction m with
  | nil => simp [insert, Std.ReflOrd.compare_self]
  | cons e m ih =>
    obtain ⟨k', v'⟩ := e
    rw [insert]
    cases h : compare k k' with
    | lt => simp [insert, Std.ReflOrd.compare_self]
    | eq => simp [insert, h]
    | gt => simp [insert, h, ih]

theorem insert_ne_nil (k : κ) (v : β) (m : List (κ × β)) : insert k v m ≠ [] := by
  cases m with
  | nil => exact List.cons_ne_nil _ _
  | cons e m =>
    obtain ⟨k', v'⟩ := e
    rw [insert]
    cases compare k k' <;> exact List.cons_ne_nil _ _

theorem sorted_insert [Std.TransOrd κ] {k : κ} {v : β} {m : List (κ × β)} (h : Sorted m) :
    Sorted (insert k v m) := by
  induction m with
  | nil => exact List.pairwise_singleton _ _
  | cons y m ih =>
    obtain ⟨hy, hm⟩ := sorted_cons.mp h
    rw [insert]
    split
    · next hlt =>
      refine sorted_cons.mpr ⟨fun x hx => ?_, h⟩
      rcases List.mem_cons.mp hx with rfl | hx
      · exact hlt
      · exact Std.TransCmp.lt_trans hlt (hy x hx)
    · exact sorted_cons.mpr ⟨hy, hm⟩
    · next hgt =>
      have hlt : compare y.1 k = .lt := Std.OrientedCmp.lt_of_gt hgt
      exact sorted_cons.mpr ⟨compare_key_mem_insert hlt hy, ih hm⟩

theorem sorted_erase {k : κ} {m : List (κ × β)} (h : Sorted m) : Sorted (erase k m) := by
  induction m with
  | nil => exact h
  | cons y m ih =>
    obtain ⟨hy, hm⟩ := sorted_cons.mp h
    rw [erase]
    split
    · exact hm
    · exact sorted_cons.mpr ⟨fun x hx => hy x (mem_of_mem_erase hx), ih hm⟩

/-! ## rebuilding a sorted list -/

/-- A key above every key of `m` is appended. -/
theorem insert_append [Std.TransOrd κ] {k : κ} {v : β} {m : List (κ × β)}
    (h : ∀ x ∈ m, compare x.1 k = .lt) : insert k v m = m ++ [(k, v)] := by
  induction m with
  | nil => rfl
  | cons y m ih =>
    have hgt : compare k y.1 = .gt := Std.OrientedCmp.gt_of_lt (h y List.mem_cons_self)
    rw [insert, hgt]
    simp only [List.cons_append]
    rw [ih fun x hx => h x (List.mem_cons_of_mem _ hx)]

/-- The first entry of the part still to come belongs at the end of the part already built. -/
theorem Sorted.insert_next [Std.TransOrd κ] {m es : List (κ × β)} {k : κ} {v : β}
    (h : Sorted (m ++ (k, v) :: es)) : insert k v m = m ++ [(k, v)] :=
  insert_append fun x hx =>
    (List.pairwise_append.mp h).2.2 x hx (k, v) List.mem_cons_self

/-- Insert entries one after another. -/
def insertAll (m es : List (κ × β)) : List (κ × β) :=
  es.foldl (fun m e => insert e.1 e.2 m) m

/-- Entries in key order end up behind those already there. -/
theorem Sorted.insertAll [Std.TransOrd κ] {m es : List (κ × β)} (h : Sorted (m ++ es)) :
    insertAll m es = m ++ es := by
  induction es generalizing m with
  | nil => exact (List.append_nil m).symm
  | cons e es ih =>
    change SortedMap.insertAll (SortedMap.insert e.1 e.2 m) es = _
    rw [h.insert_next, ih (by simpa using h), List.append_assoc]
    rfl

/-! ## looking up what was stored -/

@[simp] theorem find?_insert_self [Std.ReflOrd κ] (k : κ) (v : β) (m : List (κ × β)) :
    find? k (insert k v m) = some v := by
  induction m with
  | nil => simp [insert, find?, Std.ReflOrd.compare_self]
  | cons e m ih =>
    obtain ⟨k', v'⟩ := e
    rw [insert]
    cases h : compare k k' with
    | lt => simp [find?, Std.ReflOrd.compare_self]
    | eq => simp [find?, h]
    | gt => simpa [find?, h] using ih

theorem key_mem_of_find? [Std.LawfulEqOrd κ] {k : κ} {v : β} {m : List (κ × β)}
    (h : find? k m = some v) : k ∈ m.map (·.1) := by
  induction m with
  | nil => contradiction
  | cons e m ih =>
    obtain ⟨k', v'⟩ := e
    rw [find?] at h
    by_cases hk : compare k k' = .eq
    · rw [Std.LawfulEqOrd.eq_of_compare hk]
      exact List.mem_cons_self
    · rw [if_neg hk] at h
      exact List.mem_cons_of_mem _ (ih h)

theorem find?_insert_of_ne [Std.LawfulEqOrd κ] {k k' : κ} (h : k' ≠ k) (v : β)
    (m : List (κ × β)) : find? k' (insert k v m) = find? k' m := by
  have hcmp : compare k' k ≠ .eq := fun he => h (Std.LawfulEqOrd.eq_of_compare he)
  induction m with
  | nil => simp [insert, find?, hcmp]
  | cons e m ih =>
    obtain ⟨k'', v''⟩ := e
    rw [insert]
    cases hk : compare k k'' with
    | lt => simp [find?, hcmp]
    | eq =>
      obtain rfl := Std.LawfulEqOrd.eq_of_compare hk
      simp [find?, hcmp]
    | gt => simp [find?, ih]

theorem mem_of_find? [Std.LawfulEqOrd κ] {k : κ} {v : β} {m : List (κ × β)}
    (h : find? k m = some v) : (k, v) ∈ m := by
  induction m with
  | nil => contradiction
  | cons e m ih =>
    obtain ⟨k', v'⟩ := e
    rw [find?] at h
    by_cases hk : compare k k' = .eq
    · rw [if_pos hk, Option.some.injEq] at h
      rw [Std.LawfulEqOrd.eq_of_compare hk, h]
      exact List.mem_cons_self
    · rw [if_neg hk] at h
      exact List.mem_cons_of_mem _ (ih h)

/-- With the keys distinct an entry is what its key finds. -/
theorem find?_of_mem [Std.LawfulEqOrd κ] {k : κ} {v : β} {m : List (κ × β)}
    (hnodup : (m.map (·.1)).Nodup) (h : (k, v) ∈ m) : find? k m = some v := by
  induction m with
  | nil => contradiction
  | cons e m ih =>
    obtain ⟨k', v'⟩ := e
    rw [find?]
    rw [List.map_cons, List.nodup_cons] at hnodup
    by_cases hk : compare k k' = .eq
    · rw [if_pos hk]
      obtain rfl := Std.LawfulEqOrd.eq_of_compare hk
      rcases List.mem_cons.mp h with h | h
      · rw [(Prod.mk.inj h).2]
      · exact absurd (List.mem_map_of_mem h) hnodup.1
    · rw [if_neg hk]
      rcases List.mem_cons.mp h with h | h
      · rw [(Prod.mk.inj h).1] at hk
        exact absurd Std.ReflOrd.compare_self hk
      · exact ih hnodup.2 h

/-- Inserting a new key adds an entry. -/
theorem insert_perm {k : κ} (v : β) {m : List (κ × β)} (h : find? k m = none) :
    (insert k v m).Perm ((k, v) :: m) := by
  induction m with
  | nil => exact List.Perm.refl _
  | cons e m ih =>
    obtain ⟨k', v'⟩ := e
    rw [find?] at h
    rw [insert]
    cases hk : compare k k' with
    | eq =>
      rw [if_pos hk] at h
      contradiction
    | lt => exact List.Perm.refl _
    | gt =>
      rw [if_neg (by rw [hk]; simp)] at h
      exact ((ih h).cons _).trans (List.Perm.swap _ _ _)

theorem length_insert_le (k : κ) (v : β) (m : List (κ × β)) :
    (insert k v m).length ≤ m.length + 1 := by
  induction m with
  | nil => exact Nat.le_refl _
  | cons e m ih =>
    obtain ⟨k', v'⟩ := e
    rw [insert]
    cases compare k k' with
    | lt => exact Nat.le_refl _
    | eq => exact Nat.le_succ _
    | gt => exact Nat.succ_le_succ ih

/-- What is found after some entries are inserted whose values agree on the key. -/
theorem find?_foldl_insert_of_mem [Std.LawfulEqOrd κ] {γ : Type w} (f : γ → κ) (g : γ → β)
    {xs : List γ} {x : γ} (hx : x ∈ xs) (hagree : ∀ y ∈ xs, f y = f x → g y = g x)
    (m : List (κ × β)) :
    find? (f x) (xs.foldl (fun m y => insert (f y) (g y) m) m) = some (g x) := by
  -- a later entry with the same key puts the same value there
  have hkeep : ∀ (ys : List γ) (m : List (κ × β)), (∀ y ∈ ys, f y = f x → g y = g x) →
      find? (f x) m = some (g x) →
      find? (f x) (ys.foldl (fun m y => insert (f y) (g y) m) m) = some (g x) := by
    intro ys
    induction ys with
    | nil => exact fun m _ hm => hm
    | cons y ys ih =>
      intro m hy hm
      refine ih _ (fun z hz => hy z (List.mem_cons_of_mem _ hz)) ?_
      simp only
      by_cases hyx : f y = f x
      · rw [hyx, find?_insert_self, hy y List.mem_cons_self hyx]
      · rw [find?_insert_of_ne (Ne.symm hyx), hm]
  induction xs generalizing m with
  | nil => contradiction
  | cons y ys ih =>
    rw [List.foldl_cons]
    rcases List.mem_cons.mp hx with rfl | hx
    · exact hkeep ys _ (fun z hz => hagree z (List.mem_cons_of_mem _ hz))
        (find?_insert_self (f x) (g x) m)
    · exact ih hx (fun z hz => hagree z (List.mem_cons_of_mem _ hz)) _

/-- What is found was inserted or there before. -/
theorem find?_foldl_insert_eq_some [Std.LawfulEqOrd κ] {γ : Type w} (f : γ → κ) (g : γ → β)
    {xs : List γ} {k : κ} {v : β} {m : List (κ × β)}
    (h : find? k (xs.foldl (fun m y => insert (f y) (g y) m) m) = some v) :
    (∃ y ∈ xs, f y = k ∧ g y = v) ∨ find? k m = some v := by
  induction xs generalizing m with
  | nil => exact .inr h
  | cons y ys ih =>
    rcases ih h with ⟨z, hz, hkv⟩ | hm
    · exact .inl ⟨z, List.mem_cons_of_mem _ hz, hkv⟩
    · by_cases hk : k = f y
      · rw [hk, find?_insert_self] at hm
        exact .inl ⟨y, List.mem_cons_self, hk.symm, Option.some.inj hm⟩
      · rw [find?_insert_of_ne hk] at hm
        exact .inr hm

theorem isSome_find?_foldl_insert [Std.LawfulEqOrd κ] {γ : Type w} (f : γ → κ) (g : γ → β)
    {xs : List γ} {k : κ} {m : List (κ × β)}
    (h : (∃ y ∈ xs, f y = k) ∨ (find? k m).isSome = true) :
    (find? k (xs.foldl (fun m y => insert (f y) (g y) m) m)).isSome = true := by
  induction xs generalizing m with
  | nil => simpa using h
  | cons y ys ih =>
    refine ih ?_
    by_cases hk : k = f y
    · rw [hk, find?_insert_self]
      exact .inr rfl
    · rw [find?_insert_of_ne hk]
      rcases h with ⟨z, hz, hzk⟩ | hm
      · rcases List.mem_cons.mp hz with rfl | hz
        · exact absurd hzk.symm hk
        · exact .inl ⟨z, hz, hzk⟩
      · exact .inr hm

theorem find?_eq_none_of_lt {k : κ} {m : List (κ × β)} (h : ∀ x ∈ m, compare k x.1 = .lt) :
    find? k m = none := by
  induction m with
  | nil => rfl
  | cons e m ih =>
    have he := h e List.mem_cons_self
    simp [find?, he, ih fun x hx => h x (List.mem_cons_of_mem _ hx)]

theorem find?_erase_self [Std.LawfulEqOrd κ] {k : κ} {m : List (κ × β)} (h : Sorted m) :
    find? k (erase k m) = none := by
  induction m with
  | nil => rfl
  | cons e m ih =>
    obtain ⟨k', v'⟩ := e
    rw [erase]
    cases hk : compare k k' with
    | eq =>
      obtain rfl := Std.LawfulEqOrd.eq_of_compare hk
      exact find?_eq_none_of_lt (sorted_cons.mp h).1
    | lt => simp [find?, hk, ih h.tail]
    | gt => simp [find?, hk, ih h.tail]

theorem find?_erase_of_ne [Std.LawfulEqOrd κ] {k k' : κ} (h : k' ≠ k) (m : List (κ × β)) :
    find? k' (erase k m) = find? k' m := by
  have hcmp : compare k' k ≠ .eq := fun he => h (Std.LawfulEqOrd.eq_of_compare he)
  induction m with
  | nil => rfl
  | cons e m ih =>
    obtain ⟨k'', v''⟩ := e
    rw [erase]
    cases hk : compare k k'' with
    | eq =>
      obtain rfl := Std.LawfulEqOrd.eq_of_compare hk
      simp [find?, hcmp]
    | lt => simp [find?, ih]
    | gt => simp [find?, ih]

/-! ## entries of a sorted map -/

theorem Sorted.ne_of_mem [Std.LawfulEqOrd κ] {e : κ × β} {m : List (κ × β)} (h : Sorted (e :: m))
    {x : κ × β} (hx : x ∈ m) : x.1 ≠ e.1 := by
  intro heq
  have hlt := (sorted_cons.mp h).1 x hx
  rw [heq, Std.LawfulEqOrd.compare_eq_iff_eq.mpr rfl] at hlt
  contradiction

/-- A sorted map is determined by its entries. -/
theorem Sorted.eq_of_mem_iff [Std.TransOrd κ] {m m' : List (κ × β)} (h : Sorted m)
    (h' : Sorted m') (hmem : ∀ x, x ∈ m ↔ x ∈ m') : m = m' := by
  have hirrefl : ∀ x : κ × β, compare x.1 x.1 ≠ .lt := fun x hlt => by
    rw [@Std.ReflCmp.compare_self κ compare _ x.1] at hlt
    contradiction
  induction m generalizing m' with
  | nil => exact (List.eq_nil_iff_forall_not_mem.mpr fun x hx => nomatch (hmem x).mpr hx).symm
  | cons x m ih =>
    cases m' with
    | nil => exact nomatch (hmem x).mp List.mem_cons_self
    | cons y m' =>
      have hx := (sorted_cons.mp h).1
      have hy := (sorted_cons.mp h').1
      have hxy : x = y := by
        rcases List.mem_cons.mp ((hmem x).mp List.mem_cons_self) with heq | hx'
        · exact heq
        · rcases List.mem_cons.mp ((hmem y).mpr List.mem_cons_self) with heq | hy'
          · exact heq.symm
          · exact absurd (Std.TransCmp.lt_trans (hx y hy') (hy x hx')) (hirrefl x)
      subst hxy
      rw [ih h.tail h'.tail fun z => ?_]
      constructor
      · intro hz
        rcases List.mem_cons.mp ((hmem z).mp (List.mem_cons_of_mem _ hz)) with rfl | hz'
        · exact absurd (hx z hz) (hirrefl z)
        · exact hz'
      · intro hz
        rcases List.mem_cons.mp ((hmem z).mpr (List.mem_cons_of_mem _ hz)) with rfl | hz'
        · exact absurd (hy z hz) (hirrefl z)
        · exact hz'

theorem Sorted.keys_nodup [Std.LawfulEqOrd κ] {m : List (κ × β)} (h : Sorted m) :
    (m.map (·.1)).Nodup := by
  induction m with
  | nil => exact List.nodup_nil
  | cons e m ih =>
    rw [List.map_cons, List.nodup_cons]
    refine ⟨fun hmem => ?_, ih h.tail⟩
    obtain ⟨x, hx, heq⟩ := List.mem_map.mp hmem
    exact h.ne_of_mem hx heq

theorem Sorted.insertAll_of_sorted [Std.TransOrd κ] {m : List (κ × β)} (h : Sorted m)
    (es : List (κ × β)) : Sorted (SortedMap.insertAll m es) := by
  induction es generalizing m with
  | nil => exact h
  | cons e es ih => exact ih (sorted_insert h)

/-- Entries put over others leave themselves alone when they have every key of the others. -/
theorem insertAll_eq_iff [Std.LawfulEqOrd κ] [Std.TransOrd κ] {m es : List (κ × β)}
    (hm : Sorted m) (hes : Sorted es) :
    insertAll m es = es ↔ ∀ x ∈ m, (find? x.1 es).isSome = true := by
  have hnodup := hes.keys_nodup
  have hover : ∀ k v, find? k es = some v → find? k (insertAll m es) = some v := by
    intro k v hk
    have hmem : (k, v) ∈ es := mem_of_find? hk
    refine find?_foldl_insert_of_mem Prod.fst Prod.snd hmem ?_ m
    intro y hy hkey
    have hval : find? y.1 es = some y.2 := find?_of_mem hnodup hy
    rw [hkey, hk, Option.some.injEq] at hval
    exact hval.symm
  constructor
  · intro heq x hx
    rw [← heq]
    refine isSome_find?_foldl_insert Prod.fst Prod.snd (.inr ?_)
    rw [find?_of_mem hm.keys_nodup hx]
    rfl
  · intro hkeys
    refine (hm.insertAll_of_sorted es).eq_of_mem_iff hes ?_
    intro x
    constructor
    · intro hx
      have hfound : find? x.1 (insertAll m es) = some x.2 :=
        find?_of_mem (hm.insertAll_of_sorted es).keys_nodup hx
      rcases find?_foldl_insert_eq_some Prod.fst Prod.snd hfound with ⟨y, hy, hkey, hval⟩ | hold
      · exact (Prod.ext hkey hval : y = x) ▸ hy
      · obtain ⟨v, hv⟩ := Option.isSome_iff_exists.mp (hkeys x (mem_of_find? hold))
        have hnew := hover x.1 v hv
        rw [hfound, Option.some.injEq] at hnew
        rw [← hnew] at hv
        exact mem_of_find? hv
    · intro hx
      exact mem_of_find? (hover x.1 x.2 (find?_of_mem hnodup hx))
/-- The entries of `insert k v m` are the new one and those under the other keys. -/
theorem mem_insert_iff [Std.LawfulEqOrd κ] [Std.TransOrd κ] {k : κ} {v : β} {m : List (κ × β)}
    (h : Sorted m) (x : κ × β) : x ∈ insert k v m ↔ x = (k, v) ∨ x ∈ m ∧ x.1 ≠ k := by
  induction m with
  | nil => simp [insert]
  | cons y m ih =>
    have hy := (sorted_cons.mp h).1
    have hkeep : ∀ z ∈ y :: m, compare k z.1 = .lt → z.1 ≠ k := by
      rintro z - hlt rfl
      rw [Std.LawfulEqOrd.compare_eq_iff_eq.mpr rfl] at hlt
      contradiction
    rw [insert]
    split
    · next hlt =>
      have hall : ∀ z ∈ y :: m, z.1 ≠ k := by
        intro z hz
        refine hkeep z hz ?_
        rcases List.mem_cons.mp hz with rfl | hz
        · exact hlt
        · exact Std.TransCmp.lt_trans hlt (hy z hz)
      rw [List.mem_cons]
      exact or_congr_right ⟨fun hx => ⟨hx, hall x hx⟩, And.left⟩
    · next heq =>
      obtain rfl := Std.LawfulEqOrd.eq_of_compare heq
      rw [List.mem_cons, List.mem_cons]
      refine or_congr_right ⟨fun hx => ⟨.inr hx, h.ne_of_mem hx⟩, ?_⟩
      rintro ⟨rfl | hx, hne⟩
      · exact absurd rfl hne
      · exact hx
    · next hgt =>
      have hyk : y.1 ≠ k := by
        rintro rfl
        rw [Std.LawfulEqOrd.compare_eq_iff_eq.mpr rfl] at hgt
        contradiction
      rw [List.mem_cons, ih h.tail, List.mem_cons]
      constructor
      · rintro (rfl | rfl | ⟨hx, hne⟩)
        · exact .inr ⟨.inl rfl, hyk⟩
        · exact .inl rfl
        · exact .inr ⟨.inr hx, hne⟩
      · rintro (rfl | ⟨rfl | hx, hne⟩)
        · exact .inr (.inl rfl)
        · exact .inl rfl
        · exact .inr (.inr ⟨hx, hne⟩)

/-- A value may be replaced by one that is mapped to the same. -/
theorem map_insert_of_mem [Std.LawfulEqOrd κ] [Std.OrientedOrd κ] {γ : Type w} {k : κ} {v v' : β}
    {m : List (κ × β)} (h : Sorted m) (hmem : (k, v) ∈ m) (f : β → γ) (hf : f v = f v') :
    (insert k v' m).map (fun x => f x.2) = m.map fun x => f x.2 := by
  induction m with
  | nil => contradiction
  | cons y m ih =>
    rcases List.mem_cons.mp hmem with rfl | hmem
    · simp only [insert, Std.LawfulEqOrd.compare_eq_iff_eq.mpr, List.map_cons, hf]
    · have hgt : compare k y.1 = .gt :=
        Std.OrientedCmp.gt_of_lt ((sorted_cons.mp h).1 _ hmem)
      simp only [insert, hgt, List.map_cons, ih h.tail hmem]

end LibShv.SortedMap
