import Mathlib

/-!
# LibShv.Lib.Worklist

Breadth-first search of a graph, with a queue of the nodes that are found and
not yet visited. The successors of a node come from a function that may fail.

On a finite part of a graph that its edges do not leave, the search ends, and
what it has visited are the reachable nodes, once each and the nearest first.
-/

namespace LibShv.Worklist

variable {α : Type u} {ε : Type v} [DecidableEq α]

/-! ## the search -/

/-- Put a node at the end of the queue, unless it is visited or queued already. -/
def enqueue (seen queue : List α) (x : α) : List α :=
  if x ∈ seen ∨ x ∈ queue then queue else queue ++ [x]

/-- Visit the nodes of the queue, in at most as many steps as given. The result
are the visited nodes and the error that ended the search, if one did. -/
def walk (next : α → Except ε (List α)) : Nat → List α → List α → Option (Option ε × List α)
  | _, seen, [] => some (none, seen)
  | 0, _, _ :: _ => none
  | n + 1, seen, x :: queue =>
    match next x with
    | .error e => some (some e, seen ++ [x])
    | .ok ys => walk next n (seen ++ [x]) (ys.foldl (enqueue (seen ++ [x])) queue)

@[simp] theorem walk_nil (next : α → Except ε (List α)) (n : Nat) (seen : List α) :
    walk next n seen [] = some (none, seen) := by
  cases n <;> rfl

/-- The search from some nodes. -/
def search (next : α → Except ε (List α)) (fuel : Nat) (start : List α) :
    Option (Option ε × List α) :=
  walk next fuel [] (start.foldl (enqueue []) [])

/-! ## what is queued -/

theorem nodup_eraseDups : (l : List α) → l.eraseDups.Nodup
  | [] => List.nodup_nil
  | a :: as => by
    rw [List.eraseDups_cons]
    exact List.nodup_cons.mpr ⟨by simp, nodup_eraseDups _⟩
termination_by l => l.length
decreasing_by
  have := List.length_filter_le (fun b => !b == a) as
  simp only [List.length_cons]
  omega

/-- The nodes of a list that are not known, in the order they come, once each. -/
def fresh (known ys : List α) : List α := (ys.removeAll known).eraseDups

theorem mem_fresh {known ys : List α} {z : α} : z ∈ fresh known ys ↔ z ∈ ys ∧ z ∉ known := by
  simp [fresh, List.removeAll]

theorem fresh_cons_of_mem {known : List α} {y : α} (h : y ∈ known) (ys : List α) :
    fresh known (y :: ys) = fresh known ys := by
  simp [fresh, List.cons_removeAll, h]

theorem fresh_cons_of_not_mem {known : List α} {y : α} (h : y ∉ known) (ys : List α) :
    fresh known (y :: ys) = y :: fresh (known ++ [y]) ys := by
  have hfilter : (ys.removeAll known).filter (fun z => !z == y) = ys.removeAll (known ++ [y]) := by
    simp only [List.removeAll, List.filter_filter]
    congr 1
    funext z
    by_cases hz : z = y <;> simp [hz]
  rw [fresh, List.cons_removeAll, if_pos (by simpa using h), List.eraseDups_cons, hfilter, fresh]

theorem foldl_enqueue (seen queue ys : List α) :
    ys.foldl (enqueue seen) queue = queue ++ fresh (seen ++ queue) ys := by
  induction ys generalizing queue with
  | nil => simp [fresh, List.removeAll]
  | cons y ys ih =>
    rw [List.foldl_cons, ih, enqueue]
    by_cases h : y ∈ seen ∨ y ∈ queue
    · rw [if_pos h, fresh_cons_of_mem (List.mem_append.mpr h)]
    · rw [if_neg h, fresh_cons_of_not_mem (fun hy => h (List.mem_append.mp hy))]
      simp

/-- If the nodes known so far are those of a list, queueing more nodes appends them to it. -/
theorem append_foldl_enqueue {seen queue zs : List α} (h : seen ++ queue = zs.eraseDups)
    (ys : List α) : seen ++ ys.foldl (enqueue seen) queue = (zs ++ ys).eraseDups := by
  rw [foldl_enqueue, ← List.append_assoc, List.eraseDups_append, h, fresh]
  congr 2
  simp only [List.removeAll]
  congr 1
  funext z
  simp

/-! ## distance -/

/-- A node is reached from the start along at most `n` edges. -/
def Within (adj : α → List α) (start : List α) : Nat → α → Prop
  | 0, x => x ∈ start
  | n + 1, x => Within adj start n x ∨ ∃ y, Within adj start n y ∧ x ∈ adj y

/-- A node is reached from the start. -/
def Reachable (adj : α → List α) (start : List α) (x : α) : Prop := ∃ n, Within adj start n x

omit [DecidableEq α] in
theorem Within.mono {adj : α → List α} {start : List α} {x : α} {m n : Nat}
    (h : Within adj start m x) (hle : m ≤ n) : Within adj start n x := by
  induction hle with
  | refl => exact h
  | step _ ih => exact .inl ih

/-- The nodes are those reached from the start, each once and the nearest first,
and equally near ones in the order in which they are met. -/
structure BreadthFirst (adj : α → List α) (start nodes : List α) : Prop where
  nodup : nodes.Nodup
  mem_iff : ∀ x, x ∈ nodes ↔ Reachable adj start x
  nearest : nodes.Pairwise fun x y => ∀ n, Within adj start n y → Within adj start n x
  met : nodes = (start ++ nodes.flatMap adj).eraseDups

/-! ## the invariant -/

/-- Up to some distance the nodes are all visited or at the front of the queue,
and the rest of the queue is one edge farther. -/
def Levels (adj : α → List α) (start seen queue : List α) : Prop :=
  ∃ k near far, queue = near ++ far ∧
    (∀ x, Within adj start k x ↔ x ∈ seen ++ near) ∧ ∀ x ∈ far, Within adj start (k + 1) x

/-- What holds whenever a node is taken from the queue. -/
structure Inv (adj : α → List α) (start seen queue : List α) : Prop where
  met : seen ++ queue = (start ++ seen.flatMap adj).eraseDups
  levels : Levels adj start seen queue
  nearest : (seen ++ queue).Pairwise fun x y => ∀ n, Within adj start n y → Within adj start n x

variable {adj : α → List α} {start seen queue : List α}

theorem Inv.nodup (h : Inv adj start seen queue) : (seen ++ queue).Nodup := by
  rw [h.met]
  exact nodup_eraseDups _

/-- The successors of a visited node are known. -/
theorem Inv.adj_mem (h : Inv adj start seen queue) {x y : α} (hx : x ∈ seen) (hy : y ∈ adj x) :
    y ∈ seen ++ queue := by
  rw [h.met, List.mem_eraseDups]
  exact List.mem_append_right _ (List.mem_flatMap.mpr ⟨x, hx, hy⟩)

theorem inv_start : Inv adj start [] (start.foldl (enqueue []) []) := by
  have hmet : [] ++ start.foldl (enqueue []) [] = (start ++ ([] : List α).flatMap adj).eraseDups := by
    have h : ([] : List α) ++ [] = ([] : List α).eraseDups := rfl
    rw [append_foldl_enqueue h]
    simp
  have hmem : ∀ x, x ∈ start.foldl (enqueue []) [] ↔ x ∈ start := by
    intro x
    rw [List.nil_append] at hmet
    rw [hmet]
    simp
  refine ⟨hmet, ⟨0, _, [], (List.append_nil _).symm, fun x => ?_, by simp⟩, ?_⟩
  · rw [List.nil_append, hmem]
    rfl
  · rw [List.nil_append]
    refine List.pairwise_of_forall_mem_list fun x hx y _ n _ => ?_
    have hx : Within adj start 0 x := (hmem x).mp hx
    exact hx.mono (Nat.zero_le n)

/-- When the front of the queue is used up, the rest of it is the next distance. -/
theorem Inv.near_ne_nil {x : α} (h : Inv adj start seen (x :: queue)) :
    ∃ k near far, queue = near ++ far ∧
      (∀ y, Within adj start k y ↔ y ∈ seen ++ x :: near) ∧
      ∀ y ∈ far, Within adj start (k + 1) y := by
  obtain ⟨k, near, far, hqueue, hnear, hfar⟩ := h.levels
  cases near with
  | cons z near =>
    obtain ⟨rfl, rfl⟩ := List.cons.inj hqueue
    exact ⟨k, near, far, rfl, hnear, hfar⟩
  | nil =>
    rw [List.append_nil] at hnear
    obtain rfl : x :: queue = far := hqueue
    refine ⟨k + 1, queue, [], (List.append_nil _).symm, fun y => ?_, by simp⟩
    constructor
    · rintro (hy | ⟨z, hz, hy⟩)
      · exact List.mem_append_left _ ((hnear y).mp hy)
      · exact h.adj_mem ((hnear z).mp hz) hy
    · intro hy
      rcases List.mem_append.mp hy with hy | hy
      · exact .inl ((hnear y).mpr hy)
      · exact hfar y hy

/-- Visiting a node keeps the invariant. -/
theorem Inv.step {x : α} (h : Inv adj start seen (x :: queue)) :
    Inv adj start (seen ++ [x]) ((adj x).foldl (enqueue (seen ++ [x])) queue) := by
  have hsplit : seen ++ x :: queue = (seen ++ [x]) ++ queue := by simp
  obtain ⟨k, near, far, rfl, hnear, hfar⟩ := h.near_ne_nil
  have hx : Within adj start k x := (hnear x).mpr (by simp)
  refine ⟨?_, ?_, ?_⟩
  · rw [append_foldl_enqueue (hsplit.symm.trans h.met)]
    simp
  · rw [foldl_enqueue, List.append_assoc]
    refine ⟨k, near, _, rfl, fun y => ?_, fun y hy => ?_⟩
    · rw [hnear y]
      simp
    · rcases List.mem_append.mp hy with hy | hy
      · exact hfar y hy
      · exact .inr ⟨x, hx, (mem_fresh.mp hy).1⟩
  · rw [foldl_enqueue, ← List.append_assoc, ← hsplit, List.pairwise_append]
    have hold : ∀ a ∈ seen ++ x :: (near ++ far), Within adj start (k + 1) a := by
      intro a ha
      rw [← List.cons_append, ← List.append_assoc] at ha
      rcases List.mem_append.mp ha with ha | ha
      · exact .inl ((hnear a).mpr ha)
      · exact hfar a ha
    -- a new node is farther than `k`, and every node so far is not
    have hnew : ∀ z ∈ fresh (seen ++ x :: (near ++ far)) (adj x), ∀ n, Within adj start n z →
        k + 1 ≤ n := by
      intro z hz n hn
      refine Nat.lt_of_not_le fun hle => (mem_fresh.mp hz).2 ?_
      rw [← List.cons_append, ← List.append_assoc]
      exact List.mem_append_left _ ((hnear z).mp (hn.mono hle))
    refine ⟨h.nearest, ?_, fun a ha z hz n hn => (hold a ha).mono (hnew z hz n hn)⟩
    refine List.pairwise_of_forall_mem_list fun y hy z hz n hn => ?_
    have hy : Within adj start (k + 1) y := .inr ⟨x, hx, (mem_fresh.mp hy).1⟩
    exact hy.mono (hnew z hz n hn)

/-- With the queue empty the search is done. -/
theorem Inv.breadthFirst (h : Inv adj start seen []) : BreadthFirst adj start seen := by
  have hnodup := h.nodup
  have hmet := h.met
  have hnearest := h.nearest
  have hadj : ∀ {x y : α}, x ∈ seen → y ∈ adj x → y ∈ seen ++ [] := h.adj_mem
  rw [List.append_nil] at hnodup hmet hnearest
  obtain ⟨k, near, far, hqueue, hnear, -⟩ := h.levels
  obtain ⟨rfl, rfl⟩ := List.append_eq_nil_iff.mp hqueue.symm
  refine ⟨hnodup, fun x => ⟨fun hx => ⟨k, (hnear x).mpr (by simpa using hx)⟩, ?_⟩, hnearest, hmet⟩
  rintro ⟨n, hn⟩
  induction n generalizing x with
  | zero => simpa using (hnear x).mp (hn.mono (Nat.zero_le k))
  | succ n ih =>
    rcases hn with hn | ⟨y, hy, hx⟩
    · exact ih x hn
    · simpa using hadj (ih y hy) hx

/-! ## the search ends -/

/-- A set of nodes that contains the start and that no edge leaves. -/
structure Closed (next : α → Except ε (List α)) (start nodes : List α) : Prop where
  start : ∀ x ∈ start, x ∈ nodes
  next : ∀ x ∈ nodes, ∀ ys, next x = .ok ys → ∀ y ∈ ys, y ∈ nodes

/-- As many steps as there are nodes are enough. -/
theorem walk_isSome {next : α → Except ε (List α)} {start nodes : List α}
    (hclosed : Closed next start nodes) (fuel : Nat) (hnodup : (seen ++ queue).Nodup)
    (hsub : ∀ x ∈ seen ++ queue, x ∈ nodes) (hfuel : nodes.length ≤ fuel + seen.length) :
    (walk next fuel seen queue).isSome := by
  induction fuel generalizing seen queue with
  | zero =>
    have hlen := hnodup.length_le_of_subset hsub
    cases queue with
    | nil => rfl
    | cons x queue =>
      simp only [List.length_append, List.length_cons] at hlen
      omega
  | succ n ih =>
    cases queue with
    | nil => rfl
    | cons x queue =>
      rw [walk]
      cases hx : next x with
      | error e => rfl
      | ok ys =>
        have hsplit : seen ++ x :: queue = (seen ++ [x]) ++ queue := by simp
        rw [hsplit] at hnodup hsub
        simp only [foldl_enqueue]
        have hxmem : x ∈ nodes := hsub x (by simp)
        refine ih ?_ ?_ (by simp; omega)
        · rw [← List.append_assoc, List.nodup_append]
          refine ⟨hnodup, nodup_eraseDups _, fun a ha b hb => ?_⟩
          rintro rfl
          exact (mem_fresh.mp hb).2 ha
        · intro y hy
          rw [← List.append_assoc] at hy
          rcases List.mem_append.mp hy with hy | hy
          · exact hsub y hy
          · exact hclosed.next x hxmem ys hx y (mem_fresh.mp hy).1

/-- A search in which no node fails visits what a breadth-first search visits. -/
theorem walk_breadthFirst {next : α → Except ε (List α)}
    (hnext : ∀ x, Reachable adj start x → next x = .ok (adj x))
    (fuel : Nat) (h : Inv adj start seen queue) {r : Option ε × List α}
    (hr : walk next fuel seen queue = some r) : r.1 = none ∧ BreadthFirst adj start r.2 := by
  induction fuel generalizing seen queue with
  | zero =>
    cases queue with
    | nil =>
      obtain rfl := Option.some.inj hr
      exact ⟨rfl, h.breadthFirst⟩
    | cons x queue => contradiction
  | succ n ih =>
    cases queue with
    | nil =>
      obtain rfl := Option.some.inj hr
      exact ⟨rfl, h.breadthFirst⟩
    | cons x queue =>
      obtain ⟨k, near, far, -, hnear, -⟩ := h.near_ne_nil
      rw [walk, hnext x ⟨k, (hnear x).mpr (by simp)⟩] at hr
      exact ih h.step hr

/-- The search from some nodes ends, whatever the graph is like inside the
closed part, cycles included. -/
theorem search_isSome {next : α → Except ε (List α)} {start nodes : List α}
    (hclosed : Closed next start nodes) : (search next nodes.length start).isSome := by
  rw [search, foldl_enqueue]
  refine walk_isSome hclosed _ ?_ ?_ (by simp)
  · exact nodup_eraseDups _
  · intro x hx
    exact hclosed.start x (mem_fresh.mp hx).1

theorem search_breadthFirst {next : α → Except ε (List α)} {start : List α}
    (hnext : ∀ x, Reachable adj start x → next x = .ok (adj x)) {fuel : Nat}
    {r : Option ε × List α} (hr : search next fuel start = some r) :
    r.1 = none ∧ BreadthFirst adj start r.2 :=
  walk_breadthFirst hnext fuel inv_start hr

end LibShv.Worklist
