import LibShv.Lib.DirPath
import Mathlib

/-!
# LibShv.Lib.PathTable

Tables whose keys are paths, looked up by the longest start of a path; and paths
written as texts, with a delimiter between the names.
-/

namespace LibShv.PathTable

variable {α σ β : Type _}

/-! ## the nearest entry -/

/-- The entry for the longest start of a path. -/
def nearest (f : List σ → Option β) (path : List σ) : Option (List σ × β) :=
  path.inits.reverse.findSome? fun p => (f p).map (p, ·)

variable {f : List σ → Option β} {path p : List σ} {x : σ} {b : β}

theorem nearest_nil : nearest f [] = (f []).map ([], ·) := by
  simp [nearest]

theorem nearest_concat : nearest f (path ++ [x]) =
    ((f (path ++ [x])).map (path ++ [x], ·)).or (nearest f path) := by
  have hinits : (path ++ [x]).inits.reverse = (path ++ [x]) :: path.inits.reverse := by
    simp [List.inits_append]
  rw [nearest, hinits, List.findSome?_cons, nearest]
  cases f (path ++ [x]) <;> rfl

theorem nearest_concat_of_some (h : f (path ++ [x]) = some b) :
    nearest f (path ++ [x]) = some (path ++ [x], b) := by
  rw [nearest_concat, h]
  rfl

theorem nearest_concat_of_none (h : f (path ++ [x]) = none) :
    nearest f (path ++ [x]) = nearest f path := by
  rw [nearest_concat, h]
  rfl

/-- A path that is in the table is its own nearest entry. -/
theorem nearest_self (h : f path = some b) : nearest f path = some (path, b) := by
  obtain rfl | ⟨path, x, rfl⟩ := List.eq_nil_or_concat path
  · rw [nearest_nil, h]
    rfl
  · rw [List.concat_eq_append] at h ⊢
    exact nearest_concat_of_some h

theorem nearest_append (h : f p = some b) {rest : List σ}
    (hnone : ∀ t, t <+: rest → t ≠ [] → f (p ++ t) = none) :
    nearest f (p ++ rest) = some (p, b) := by
  induction rest using List.reverseRecOn with
  | nil => rw [List.append_nil, nearest_self h]
  | append_singleton rest x ih =>
    rw [← List.append_assoc, nearest_concat_of_none, ih]
    · exact fun t ht => hnone t (ht.trans (List.prefix_append _ _))
    · rw [List.append_assoc]
      exact hnone _ (List.prefix_refl _) (by simp)

theorem nearest_eq_none (h : ∀ q, q <+: path → f q = none) : nearest f path = none := by
  rw [nearest, List.findSome?_eq_none_iff]
  intro q hq
  rw [h q ((List.mem_inits _ _).mp (List.mem_reverse.mp hq))]
  rfl

theorem eq_none_of_nearest (h : nearest f path = none) {q : List σ} (hq : q <+: path) : f q = none := by
  rw [nearest, List.findSome?_eq_none_iff] at h
  exact Option.map_eq_none_iff.mp (h q (List.mem_reverse.mpr ((List.mem_inits _ _).mpr hq)))

/-- What is found is an entry for a start of the path. -/
theorem nearest_eq_some {e : List σ × β} (h : nearest f path = some e) :
    e.1 <+: path ∧ f e.1 = some e.2 := by
  obtain ⟨q, hq, hfind⟩ := List.exists_of_findSome?_eq_some h
  obtain ⟨b, hb, rfl⟩ := Option.map_eq_some_iff.mp hfind
  exact ⟨(List.mem_inits _ _).mp (List.mem_reverse.mp hq), hb⟩

/-! ## paths as texts -/

section Render

variable (d : α)

/-- The names with delimiters between them. -/
def render (names : List (List α)) : List α := [d].intercalate names

/-- A name is not empty and has no delimiter in it. -/
def IsName (name : List α) : Prop := name ≠ [] ∧ d ∉ name

variable {d} {names names' : List (List α)} {name : List α}

@[simp] theorem render_nil : render d [] = [] := rfl

@[simp] theorem render_singleton : render d [name] = name := List.intercalate_singleton

theorem render_cons (h : names ≠ []) : render d (name :: names) = name ++ d :: render d names := by
  rw [render, List.intercalate_cons_of_ne_nil h, List.append_assoc, List.singleton_append]
  rfl

theorem render_ne_nil (h : ∀ name ∈ names, IsName d name) (hne : names ≠ []) : render d names ≠ [] := by
  cases names with
  | nil => exact absurd rfl hne
  | cons name names =>
    have hname := (h name List.mem_cons_self).1
    cases names with
    | nil => rwa [render_singleton]
    | cons name' names =>
      rw [render_cons (List.cons_ne_nil _ _)]
      exact List.append_ne_nil_of_left_ne_nil hname _

theorem render_append_of_ne (h : names ≠ []) (h' : names' ≠ []) :
    render d (names ++ names') = render d names ++ d :: render d names' := by
  induction names with
  | nil => exact absurd rfl h
  | cons name names ih =>
    cases names with
    | nil => rw [List.singleton_append, render_cons h', render_singleton]
    | cons name' names =>
      rw [List.cons_append, render_cons (List.append_ne_nil_of_left_ne_nil (List.cons_ne_nil _ _) _),
        ih (List.cons_ne_nil _ _), render_cons (List.cons_ne_nil _ _), List.append_assoc,
        List.cons_append]

/-- Appending paths is joining their texts. -/
theorem render_append (h : ∀ name ∈ names, IsName d name) (h' : ∀ name ∈ names', IsName d name) :
    render d (names ++ names') = DirPath.join d (render d names) (render d names') := by
  by_cases hnil : names' = []
  · rw [hnil, List.append_nil, render_nil, DirPath.join_nil]
  · have hne' := render_ne_nil h' hnil
    by_cases hnames : names = []
    · rw [hnames, List.nil_append, render_nil, DirPath.join, if_neg hne', if_pos rfl]
    · rw [render_append_of_ne hnames hnil, DirPath.join_of_ne_nil (render_ne_nil h hnames) hne']

theorem trimmed_name (h : IsName d name) : DirPath.Trimmed d name :=
  ⟨fun hd => h.2 (List.mem_of_mem_head? hd), fun hd => h.2 (List.mem_of_getLast? hd)⟩

theorem trimmed_render (h : ∀ name ∈ names, IsName d name) : DirPath.Trimmed d (render d names) := by
  induction names with
  | nil => exact ⟨by simp, by simp⟩
  | cons name names ih =>
    obtain ⟨hname, hnames⟩ := List.forall_mem_cons.mp h
    have happend := render_append (List.forall_mem_singleton.mpr hname) hnames
    rw [List.singleton_append, render_singleton] at happend
    rw [happend]
    exact (trimmed_name hname).join (ih hnames)

/-- Different paths are different texts. -/
theorem render_inj [DecidableEq α] (h : ∀ name ∈ names, IsName d name)
    (h' : ∀ name ∈ names', IsName d name) (heq : render d names = render d names') :
    names = names' := by
  by_cases hnil : names = []
  · by_contra hne
    rw [hnil, render_nil] at heq
    exact render_ne_nil h' (fun hnil' => hne (hnil.trans hnil'.symm)) heq.symm
  · have hnil' : names' ≠ [] := by
      rintro rfl
      exact render_ne_nil h hnil heq
    rw [← List.splitOn_intercalate d (fun name hname => (h name hname).2) hnil,
      ← List.splitOn_intercalate d (fun name hname => (h' name hname).2) hnil']
    exact congrArg (List.splitOn d) heq

/-- A path lies below another one in the texts if it does. -/
theorem below_render [DecidableEq α] (h : ∀ name ∈ names, IsName d name)
    (h' : ∀ name ∈ names', IsName d name) :
    DirPath.Below d (render d names) (render d names') ↔ names <+: names' := by
  constructor
  · rintro (hnil | heq | ⟨r, hr⟩)
    · by_cases hnames : names = []
      · rw [hnames]
        exact List.nil_prefix
      · exact absurd hnil (render_ne_nil h hnames)
    · rw [render_inj h' h heq]
    · by_cases hnames : names = []
      · rw [hnames]
        exact List.nil_prefix
      · have hnil' : names' ≠ [] := by
          rintro rfl
          simp at hr
        have hsplit : names' = names ++ r.splitOn d := by
          rw [← List.splitOn_intercalate d (fun name hname => (h' name hname).2) hnil',
            ← render, hr, List.splitOn_append_cons_self, render,
            List.splitOn_intercalate d (fun name hname => (h name hname).2) hnames]
        exact ⟨_, hsplit.symm⟩
  · rintro ⟨t, rfl⟩
    by_cases hnames : names = []
    · rw [hnames]
      exact .inl rfl
    · by_cases ht : t = []
      · rw [ht, List.append_nil]
        exact DirPath.below_refl d _
      · rw [render_append_of_ne hnames ht]
        exact DirPath.below_append d _ _

/-- The text without its last name. -/
theorem cutLast_render [DecidableEq α] (hname : IsName d name) :
    (((render d (names ++ [name])).reverse.dropWhile (· ≠ d)).drop 1).reverse = render d names := by
  have hcut : ∀ c ∈ name.reverse, decide (c ≠ d) = true := fun c hc => decide_eq_true fun hcd =>
    hname.2 (hcd ▸ List.mem_reverse.mp hc)
  by_cases hnil : names = []
  · rw [hnil, List.nil_append, render_singleton, List.dropWhile_eq_nil_iff.mpr hcut]
    rfl
  · rw [render_append_of_ne hnil (List.cons_ne_nil _ _), render_singleton, List.reverse_append,
      List.reverse_cons, List.append_assoc, List.dropWhile_append_of_pos hcut,
      List.singleton_append, List.dropWhile_cons_of_neg (by simp), List.drop_one, List.tail_cons,
      List.reverse_reverse]

theorem length_render_concat (hname : IsName d name) :
    (render d names).length < (render d (names ++ [name])).length := by
  have hpos := List.length_pos_of_ne_nil hname.1
  by_cases hnil : names = []
  · rw [hnil, List.nil_append, render_singleton]
    exact hpos
  · rw [render_append_of_ne hnil (List.cons_ne_nil _ _), render_singleton, List.length_append,
      List.length_cons]
    omega

theorem length_render_lt (h : ∀ name ∈ names', IsName d name) (hpre : names <+: names')
    (hne : names ≠ names') :
    (render d names).length < (render d names').length := by
  obtain ⟨t, rfl⟩ := hpre
  have ht : t ≠ [] := fun ht => hne (by rw [ht, List.append_nil])
  by_cases hnil : names = []
  · rw [hnil, List.nil_append, render_nil]
    exact List.length_pos_of_ne_nil
      (render_ne_nil (fun name hname => h name (List.mem_append_right _ hname)) ht)
  · rw [render_append_of_ne hnil ht, List.length_append, List.length_cons]
    omega

end Render

end LibShv.PathTable
