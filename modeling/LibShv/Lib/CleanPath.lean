import Mathlib

/-!
# LibShv.Lib.CleanPath

Absolute paths as texts and as lists of names: a dot is skipped, two dots leave
the directory above or stay if there is none. A cleaned text starts with the text
of a directory and a slash just if the names of the directory are its first ones.
-/

namespace LibShv.CleanPath

/-- A name, or one of the other texts between two slashes. -/
abbrev Component := List Char

def dot : Component := ['.']
def dotDot : Component := ['.', '.']

/-- The name of a file in a directory. -/
def IsName (name : Component) : Prop := name ≠ [] ∧ '/' ∉ name ∧ name ≠ dot ∧ name ≠ dotDot

instance (name : Component) : Decidable (IsName name) := inferInstanceAs (Decidable (_ ∧ _))

/-- What can stand between two slashes of a clean text. -/
def IsSegment (name : Component) : Prop := name ≠ [] ∧ '/' ∉ name

instance (name : Component) : Decidable (IsSegment name) := inferInstanceAs (Decidable (_ ∧ _))

theorem IsName.isSegment {name : Component} (h : IsName name) : IsSegment name := ⟨h.1, h.2.1⟩

/-- The texts between the slashes. -/
def components (path : List Char) : List Component := path.splitOn '/'

/-- One component further. -/
def step (dirs : List Component) (name : Component) : List Component :=
  if name = [] ∨ name = dot then dirs
  else if name = dotDot then
    (if dirs = [] ∨ dirs.getLast? = some dotDot then dirs ++ [dotDot] else dirs.dropLast)
  else dirs ++ [name]

/-- The components further. -/
def resolve (dirs names : List Component) : List Component := names.foldl step dirs

/-- An absolute path. -/
def render (dirs : List Component) : List Char := '/' :: ['/'].intercalate dirs

/-- An absolute path as text without dots, if they can be resolved, and without double slashes. -/
def cleanPath (path : List Char) : List Char := render (resolve [] (components path))

variable {dirs names root : List Component} {p q : List Char}

/-! ## components -/

@[simp] theorem components_nil : components [] = [[]] := rfl

theorem components_append (p q : List Char) :
    components (p ++ '/' :: q) = components p ++ components q :=
  List.splitOn_append_cons_self p q

theorem components_cons (q : List Char) : components ('/' :: q) = [] :: components q :=
  components_append [] q

theorem components_of_isSegment {name : Component} (h : IsSegment name) : components name = [name] :=
  List.splitOn_eq_singleton h.2

theorem components_intercalate (h : ∀ name ∈ dirs, IsSegment name) (hne : dirs ≠ []) :
    components (['/'].intercalate dirs) = dirs :=
  List.splitOn_intercalate '/' (fun name hname => (h name hname).2) hne

/-- There is no slash in a component. -/
theorem slash_not_mem_components {name : Component} (h : name ∈ components p) : '/' ∉ name := by
  induction p generalizing name with
  | nil =>
    rw [components_nil, List.mem_singleton] at h
    rw [h]
    exact List.not_mem_nil
  | cons c p ih =>
    by_cases hc : c = '/'
    · rw [hc, components_cons, List.mem_cons] at h
      obtain rfl | h := h
      · exact List.not_mem_nil
      · exact ih h
    · rw [components, List.splitOn_cons_eq_if_modifyHead, if_neg (by simpa using hc)] at h
      have hrest : ∀ x ∈ List.splitOn '/' p, '/' ∉ x := fun x hx => ih hx
      cases hsplit : List.splitOn '/' p with
      | nil => exact absurd hsplit (List.splitOn_ne_nil '/' p)
      | cons first rest =>
        rw [hsplit] at h hrest
        rw [List.modifyHead_cons, List.mem_cons] at h
        obtain rfl | h := h
        · intro hmem
          obtain heq | hmem := List.mem_cons.mp hmem
          · exact hc heq.symm
          · exact hrest first List.mem_cons_self hmem
        · exact hrest name (List.mem_cons_of_mem first h)

/-! ## resolving -/

@[simp] theorem resolve_nil (dirs : List Component) : resolve dirs [] = dirs := rfl

@[simp] theorem resolve_cons (dirs : List Component) (name : Component) (names : List Component) :
    resolve dirs (name :: names) = resolve (step dirs name) names := rfl

theorem resolve_append (dirs names names' : List Component) :
    resolve dirs (names ++ names') = resolve (resolve dirs names) names' := List.foldl_append

@[simp] theorem step_empty (dirs : List Component) : step dirs [] = dirs := if_pos (.inl rfl)

theorem step_of_isName {name : Component} (h : IsName name) (dirs : List Component) :
    step dirs name = dirs ++ [name] := by
  rw [step, if_neg (not_or.mpr ⟨h.1, h.2.2.1⟩), if_neg h.2.2.2]

theorem resolve_of_isName (h : ∀ name ∈ names, IsName name) (dirs : List Component) :
    resolve dirs names = dirs ++ names := by
  induction names generalizing dirs with
  | nil => exact (List.append_nil dirs).symm
  | cons name names ih =>
    obtain ⟨hname, hnames⟩ := List.forall_mem_cons.mp h
    rw [resolve_cons, step_of_isName hname, ih hnames, List.append_assoc, List.singleton_append]

/-- What is left can stand between slashes. -/
theorem isSegment_of_mem_step (h : ∀ x ∈ dirs, IsSegment x) {name : Component} (hname : '/' ∉ name) :
    ∀ x ∈ step dirs name, IsSegment x := by
  rw [step]
  split_ifs with hskip hup hstuck
  · exact h
  · exact List.forall_mem_append.mpr ⟨h, List.forall_mem_singleton.mpr (by decide)⟩
  · exact fun x hx => h x (List.mem_of_mem_dropLast hx)
  · refine List.forall_mem_append.mpr ⟨h, List.forall_mem_singleton.mpr ⟨?_, hname⟩⟩
    exact fun hnil => hskip (.inl hnil)

theorem isSegment_of_mem_resolve (h : ∀ x ∈ dirs, IsSegment x) (hnames : ∀ x ∈ names, '/' ∉ x) :
    ∀ x ∈ resolve dirs names, IsSegment x := by
  induction names generalizing dirs with
  | nil => exact h
  | cons name names ih =>
    obtain ⟨hname, hnames⟩ := List.forall_mem_cons.mp hnames
    exact ih (isSegment_of_mem_step h hname) hnames

/-! ## texts -/

theorem resolve_components_render (h : ∀ name ∈ root, IsName name) :
    resolve [] (components (render root)) = root := by
  rw [render, components_cons, resolve_cons, step_empty]
  cases root with
  | nil => rfl
  | cons name root =>
    have hsegment : ∀ x ∈ name :: root, IsSegment x := fun x hx => (h x hx).isSegment
    rw [components_intercalate hsegment (List.cons_ne_nil _ _), resolve_of_isName h, List.nil_append]

/-- A path below a directory is resolved from there. -/
theorem cleanPath_append (h : ∀ name ∈ root, IsName name) (q : List Char) :
    cleanPath (render root ++ '/' :: q) = render (resolve root (components q)) := by
  rw [cleanPath, components_append, resolve_append, resolve_components_render h]

theorem cleanPath_append_name {name : Component} (h : IsName name) (p : List Char) :
    cleanPath (p ++ '/' :: name) = render (resolve [] (components p) ++ [name]) := by
  rw [cleanPath, components_append, resolve_append, components_of_isSegment h.isSegment,
    resolve_of_isName (List.forall_mem_singleton.mpr h)]

theorem components_render (h : ∀ name ∈ dirs, IsSegment name) (hne : dirs ≠ []) :
    components (render dirs) = [] :: dirs := by
  rw [render, components_cons, components_intercalate h hne]

theorem components_render_nil : components (render []) = [[], []] := rfl

theorem intercalate_append (hdirs : dirs ≠ []) (hnames : names ≠ []) :
    ['/'].intercalate (dirs ++ names) = ['/'].intercalate dirs ++ '/' :: ['/'].intercalate names := by
  induction dirs with
  | nil => exact absurd rfl hdirs
  | cons d dirs ih =>
    cases dirs with
    | nil =>
      rw [List.singleton_append, List.intercalate_cons_of_ne_nil hnames, List.intercalate_singleton,
        List.append_assoc, List.singleton_append]
    | cons d' dirs =>
      have hih := ih (List.cons_ne_nil d' dirs)
      rw [List.cons_append] at hih
      rw [List.cons_append, List.cons_append, List.intercalate_cons_cons, hih,
        List.intercalate_cons_cons]
      simp

theorem render_append (hdirs : dirs ≠ []) (hnames : names ≠ []) :
    render (dirs ++ names) = render dirs ++ '/' :: ['/'].intercalate names := by
  rw [render, render, List.cons_append, intercalate_append hdirs hnames]

/-- The text of a directory with a slash behind it. -/
def renderSlash (dir : List Component) : List Char :=
  if dir = [] then render dir else render dir ++ ['/']

/-- The path is the directory or starts with it and a slash. -/
def Below (dir : List Component) (path : List Char) : Prop :=
  path = render dir ∨ renderSlash dir <+: path

instance (dir : List Component) (path : List Char) : Decidable (Below dir path) :=
  inferInstanceAs (Decidable (_ ∨ _))

/-- For clean texts this is a matter of the names. -/
theorem below_render_iff (hroot : ∀ name ∈ root, IsSegment name)
    (hdirs : ∀ name ∈ dirs, IsSegment name) : Below root (render dirs) ↔ root <+: dirs := by
  by_cases hne : root = []
  · subst hne
    exact iff_of_true (.inr ⟨_, rfl⟩) List.nil_prefix
  rw [Below, renderSlash, if_neg hne]
  constructor
  · intro hbelow
    -- the components of the directory and of what is behind it, if there is a slash
    have hsplit : ∃ rest, root ++ rest = (components (render dirs)).tail := by
      obtain heq | ⟨rest, hrest⟩ := hbelow
      · exact ⟨[], by rw [heq, components_render hroot hne, List.append_nil, List.tail_cons]⟩
      · refine ⟨components rest, ?_⟩
        rw [← hrest, List.append_assoc, List.singleton_append, components_append,
          components_render hroot hne, List.cons_append, List.tail_cons]
    obtain ⟨rest, hrest⟩ := hsplit
    by_cases hnil : dirs = []
    · obtain ⟨name, root, rfl⟩ := List.exists_cons_of_ne_nil hne
      rw [hnil, components_render_nil, List.cons_append] at hrest
      exact absurd (List.cons.inj hrest).1 (hroot name List.mem_cons_self).1
    · rw [components_render hdirs hnil, List.tail_cons] at hrest
      exact ⟨rest, hrest⟩
  · rintro ⟨names, rfl⟩
    cases names with
    | nil => exact .inl (by rw [List.append_nil])
    | cons name names =>
      right
      rw [render_append hne (List.cons_ne_nil _ _)]
      exact ⟨_, by rw [List.append_assoc, List.singleton_append]⟩

end LibShv.CleanPath
