import LibShv.Lib.SortedMap
import LibShv.Lib.Worklist

/-!
# LibShv.Lib.CowHeap

Maps that are shared by reference and copied when they are written to. A
variable holds a value of its own or refers to a map on the heap; the use count
of a map is the number of references to it that can still be reached.

Copying on write is invisible: a write through one variable never changes what
another variable holds (`Holds.write`).
-/

namespace LibShv.CowHeap

open Worklist

/-- What a variable or an entry of a map holds: a value of its own, or a
reference to a shared map with data beside it. -/
inductive Handle (α : Type u) (μ : Type v) where
  | own (x : α)
  | ref (md : μ) (address : Nat)

/-- The shared maps by their addresses. -/
abbrev Heap (κ : Type w) (α : Type u) (μ : Type v) := List (List (κ × Handle α μ))

variable {κ : Type w} {α : Type u} {μ : Type v} {τ : Type z}

def Handle.address? : Handle α μ → Option Nat
  | .own _ => none
  | .ref _ a => some a

/-- The addresses some variables refer to. -/
def addresses (hs : List (Handle α μ)) : List Nat := hs.filterMap Handle.address?

/-- The addresses the map at `a` refers to. -/
def edges (heap : Heap κ α μ) (a : Nat) : List Nat := addresses ((heap[a]?.getD []).map (·.2))

/-! ## use counts -/

/-- All references there are. -/
def allAddresses (heap : Heap κ α μ) (roots : List (Handle α μ)) : List Nat :=
  addresses roots ++ heap.flatMap fun m => addresses (m.map (·.2))

/-- The maps that can be reached from some variables. -/
def live (heap : Heap κ α μ) (roots : List (Handle α μ)) : List Nat :=
  match search (fun a => (.ok (edges heap a) : Except Empty (List Nat)))
    (allAddresses heap roots).length (addresses roots) with
  | some (_, seen) => seen
  | none => []

/-- The number of references to a map, from variables and from maps that are live. -/
def useCount (heap : Heap κ α μ) (roots : List (Handle α μ)) (a : Nat) : Nat :=
  (addresses roots).count a + ((live heap roots).flatMap (edges heap)).count a

theorem mem_live {heap : Heap κ α μ} {roots : List (Handle α μ)} {a : Nat} :
    a ∈ live heap roots ↔ Reachable (edges heap) (addresses roots) a := by
  have hclosed : Closed (fun a => (.ok (edges heap a) : Except Empty (List Nat)))
      (addresses roots) (allAddresses heap roots) := by
    constructor
    · intro x hx
      exact List.mem_append_left _ hx
    · intro x _ ys hys y hy
      obtain rfl := Except.ok.inj hys
      rw [edges] at hy
      cases hm : heap[x]? with
      | none =>
        rw [hm] at hy
        exact absurd hy List.not_mem_nil
      | some m =>
        rw [hm, Option.getD_some] at hy
        exact List.mem_append_right _ (List.mem_flatMap.mpr ⟨m, List.mem_of_getElem? hm, hy⟩)
  obtain ⟨r, hr⟩ := Option.isSome_iff_exists.mp (search_isSome hclosed)
  have hlive : live heap roots = r.2 := by rw [live, hr]
  rw [hlive]
  exact (search_breadthFirst (fun _ _ => rfl) hr).2.mem_iff a

theorem reachable_mono {heap : Heap κ α μ} {start start' : List Nat} (h : ∀ x ∈ start, x ∈ start')
    {a : Nat} (ha : Reachable (edges heap) start a) : Reachable (edges heap) start' a := by
  obtain ⟨n, hn⟩ := ha
  refine ⟨n, ?_⟩
  induction n generalizing a with
  | zero => exact h a hn
  | succ n ih =>
    obtain hn | ⟨y, hy, hay⟩ := hn
    · exact .inl (ih hn)
    · exact .inr ⟨y, ih hy, hay⟩

/-- A map that another variable reaches is used more than once. -/
theorem one_lt_useCount {heap : Heap κ α μ} {others : List (Handle α μ)} {md : μ} {a : Nat}
    (h : Reachable (edges heap) (addresses others) a) :
    1 < useCount heap (.ref md a :: others) a := by
  have hself : addresses (.ref md a :: others) = a :: addresses others := rfl
  obtain ⟨n, hn⟩ := h
  rw [useCount, hself, List.count_cons_self]
  induction n with
  | zero =>
    have hcount := List.count_pos_iff.mpr hn
    omega
  | succ n ih =>
    obtain hn | ⟨y, hy, hay⟩ := hn
    · exact ih hn
    · have hlive : y ∈ live heap (.ref md a :: others) :=
        mem_live.mpr (reachable_mono (fun x hx => List.mem_cons_of_mem _ hx) ⟨n, hy⟩)
      have hcount := List.count_pos_iff.mpr (List.mem_flatMap.mpr ⟨y, hlive, hay⟩)
      omega

/-! ## writing -/

/-- The map at `a` for the variable that refers to it, as a map that no other
variable refers to. -/
def detach (heap : Heap κ α μ) (others : List (Handle α μ)) (md : μ) (a : Nat) :
    Heap κ α μ × Nat :=
  if useCount heap (.ref md a :: others) a = 1 then (heap, a)
  else (heap ++ [heap[a]?.getD []], heap.length)

/-- Change the map a variable refers to; `others` are all the other variables. -/
def write (heap : Heap κ α μ) (others : List (Handle α μ)) (h : Handle α μ)
    (f : List (κ × Handle α μ) → List (κ × Handle α μ)) : Heap κ α μ × Handle α μ :=
  match h with
  | .own x => (heap, .own x)
  | .ref md a =>
    ((detach heap others md a).1.modify (detach heap others md a).2 f,
      .ref md (detach heap others md a).2)

/-! ## the tree a handle holds -/

section

variable (leaf : α → τ) (node : μ → List (κ × τ) → τ)

/-- Following the references at most `n` deep gives a tree. -/
def HoldsWithin (heap : Heap κ α μ) : Nat → Handle α μ → τ → Prop
  | 0, _, _ => False
  | _ + 1, .own x, t => t = leaf x
  | n + 1, .ref md a, t => ∃ m ts, heap[a]? = some m ∧ t = node md ts ∧
      List.Forall₂ (fun e e' => e.1 = e'.1 ∧ HoldsWithin heap n e.2 e'.2) m ts

/-- Following the references gives a tree. -/
def Holds (heap : Heap κ α μ) (h : Handle α μ) (t : τ) : Prop := ∃ n, HoldsWithin leaf node heap n h t

end

variable {leaf : α → τ} {node : μ → List (κ × τ) → τ} {heap : Heap κ α μ} {h h' : Handle α μ}
  {t t' : τ}

theorem holds_own (x : α) : Holds leaf node heap (.own x) (leaf x) := ⟨1, rfl⟩

theorem Holds.unique (ht : Holds leaf node heap h t) (ht' : Holds leaf node heap h t') : t = t' := by
  obtain ⟨n, hn⟩ := ht
  obtain ⟨k, hk⟩ := ht'
  induction n generalizing h t t' k with
  | zero => exact hn.elim
  | succ n ih =>
    cases k with
    | zero => exact hk.elim
    | succ k =>
      cases h with
      | own x => exact Eq.trans hn (Eq.symm hk)
      | ref md a =>
        obtain ⟨m, ts, hm, rfl, hall⟩ := hn
        obtain ⟨m', ts', hm', rfl, hall'⟩ := hk
        obtain rfl := Option.some.inj (hm.symm.trans hm')
        congr 1
        clear hm hm'
        induction hall generalizing ts' with
        | nil =>
          cases hall'
          rfl
        | cons hd _ ihall =>
          obtain _ | ⟨hd', hall'⟩ := hall'
          rw [ihall _ hall', Prod.ext (hd.1.symm.trans hd'.1) (ih hd.2 k hd'.2)]

/-- The tree does not depend on maps that the handle does not reach. -/
theorem Holds.of_agree {heap' : Heap κ α μ} (ht : Holds leaf node heap h t)
    (hagree : ∀ a, Reachable (edges heap) (addresses [h]) a → ∀ m, heap[a]? = some m →
      heap'[a]? = some m) : Holds leaf node heap' h t := by
  obtain ⟨n, hn⟩ := ht
  refine ⟨n, ?_⟩
  induction n generalizing h t with
  | zero => exact hn
  | succ n ih =>
    cases h with
    | own x => exact hn
    | ref md a =>
      obtain ⟨m, ts, hm, rfl, hall⟩ := hn
      have ha : Within (edges heap) [a] 0 a := List.mem_singleton_self a
      have hedges : edges heap a = addresses (m.map (·.2)) := by rw [edges, hm, Option.getD_some]
      refine ⟨m, ts, hagree a ⟨0, ha⟩ m hm, rfl, ?_⟩
      refine List.forall₂_iff_get.mpr ⟨hall.length_eq, fun i hi hi' => ?_⟩
      obtain ⟨hkey, hholds⟩ := (List.forall₂_iff_get.mp hall).2 i hi hi'
      refine ⟨hkey, ih (fun b hb => hagree b ?_) hholds⟩
      -- what the entry reaches is one edge farther from the map
      obtain ⟨k, hk⟩ := hb
      induction k generalizing b with
      | zero =>
        obtain ⟨h, hh, hb⟩ := List.mem_filterMap.mp hk
        obtain rfl := List.mem_singleton.mp hh
        refine ⟨1, .inr ⟨a, ha, hedges ▸ List.mem_filterMap.mpr ⟨_, ?_, hb⟩⟩⟩
        exact List.mem_map_of_mem (List.get_mem m ⟨i, hi⟩)
      | succ k ihk =>
        obtain hk | ⟨y, hy, hby⟩ := hk
        · exact ihk b hk
        · obtain ⟨j, hj⟩ := ihk y hy
          exact ⟨j + 1, .inr ⟨y, hj, hby⟩⟩

/-- A write through one variable does not change what another one holds. -/
theorem Holds.write {others : List (Handle α μ)} (ht : Holds leaf node heap h' t)
    (hmem : h' ∈ others) (h : Handle α μ) (f : List (κ × Handle α μ) → List (κ × Handle α μ)) :
    Holds leaf node (write heap others h f).1 h' t := by
  cases h with
  | own x => exact ht
  | ref md a =>
    refine ht.of_agree fun b hb m hm => ?_
    have hlt : b < heap.length := (List.getElem?_eq_some_iff.mp hm).1
    rw [CowHeap.write, detach]
    by_cases hone : useCount heap (.ref md a :: others) a = 1
    · -- nobody else reaches the map that is changed in place
      have hb' : Reachable (edges heap) (addresses others) b := by
        refine reachable_mono (fun x hx => ?_) hb
        obtain ⟨h'', hh'', hx'⟩ := List.mem_filterMap.mp hx
        exact List.mem_filterMap.mpr ⟨h'', List.mem_singleton.mp hh'' ▸ hmem, hx'⟩
      have hne : a ≠ b := by
        rintro rfl
        have hlt := @one_lt_useCount _ _ _ heap others md a hb'
        omega
      rw [if_pos hone]
      exact (List.getElem?_modify_ne _ _ hne).trans hm
    · have hne : heap.length ≠ b := by omega
      rw [if_neg hone]
      exact (List.getElem?_modify_ne _ _ hne).trans ((List.getElem?_append_left hlt).trans hm)

/-- What a map holds under a key. -/
theorem Holds.find? [Ord κ] {md : μ} {a : Nat} (ht : Holds leaf node heap (.ref md a) t) :
    ∃ m ts, heap[a]? = some m ∧ t = node md ts ∧ ∀ key : κ,
      (SortedMap.find? key m = none ∧ SortedMap.find? key ts = none) ∨
        ∃ h t, SortedMap.find? key m = some h ∧ SortedMap.find? key ts = some t ∧
          Holds leaf node heap h t := by
  obtain ⟨n, hn⟩ := ht
  cases n with
  | zero => exact hn.elim
  | succ n =>
    obtain ⟨m, ts, hm, rfl, hall⟩ := hn
    refine ⟨m, ts, hm, rfl, fun key => ?_⟩
    clear hm
    induction hall with
    | nil => exact .inl ⟨rfl, rfl⟩
    | @cons e e' m ts hd _ ih =>
      obtain ⟨k, h⟩ := e
      obtain ⟨k', t⟩ := e'
      obtain ⟨hk, hholds⟩ := hd
      obtain rfl : k = k' := hk
      by_cases heq : compare key k = .eq
      · exact .inr ⟨h, t, by rw [SortedMap.find?, if_pos heq], by rw [SortedMap.find?, if_pos heq],
          n, hholds⟩
      · rw [SortedMap.find?, SortedMap.find?, if_neg heq, if_neg heq]
        exact ih

end LibShv.CowHeap
