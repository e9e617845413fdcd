import LibShv.LocalFSNode

/-!
# LibShv.LocalFSNode.Bounded

Which requests stay in the root directory: of each method, the condition on the
texts of the paths it is going to use. Only a few methods check them, and the check
looks at the start of the text only.
-/

namespace LibShv.LocalFSNode

open CleanPath

/-! ## paths -/

variable (nd : LocalFSNode)

/-- A path that is the root directory or lies below it once it is cleaned. -/
def Inside (path : QString) : Prop := Below nd.rootDirs (cleanPath path)

instance (path : QString) : Decidable (nd.Inside path) := inferInstanceAs (Decidable (Below _ _))

/-- A path below the root directory is resolved to the root directory or below it. -/
def Within (relative_path : QString) : Prop :=
  nd.rootDirs <+: resolve nd.rootDirs (components relative_path)

/-- The check lets the path pass. -/
def Admitted (relative_path : QString) : Prop :=
  nd.rootDir <+: cleanPath (nd.makeAbsolutePath relative_path)

variable {nd}

theorem isSegment_rootDirs : ∀ name ∈ nd.rootDirs, IsSegment name :=
  fun name h => (nd.isName name h).isSegment

theorem inside_makeAbsolutePath_iff (p : QString) :
    nd.Inside (nd.makeAbsolutePath p) ↔ nd.Within p := by
  have hsegments : ∀ name ∈ resolve nd.rootDirs (components p), IsSegment name :=
    isSegment_of_mem_resolve isSegment_rootDirs fun _ => slash_not_mem_components
  rw [Inside, makeAbsolutePath, rootDir, cleanPath_append nd.isName, Within,
    below_render_iff isSegment_rootDirs hsegments]

/-- What a directory lists lies where the directory lies. -/
theorem Inside.append_name {p : QString} (h : nd.Inside p) {name : Component} (hname : IsName name) :
    nd.Inside (p ++ '/' :: name) := by
  have hsegments : ∀ x ∈ resolve [] (components p), IsSegment x :=
    isSegment_of_mem_resolve (List.forall_mem_nil _) fun _ => slash_not_mem_components
  have hall : ∀ x ∈ resolve [] (components p) ++ [name], IsSegment x :=
    List.forall_mem_append.mpr ⟨hsegments, List.forall_mem_singleton.mpr hname.isSegment⟩
  rw [Inside, cleanPath, below_render_iff isSegment_rootDirs hsegments] at h
  rw [Inside, cleanPath_append_name hname, below_render_iff isSegment_rootDirs hall]
  exact h.trans (List.prefix_append _ _)

theorem dirName_append {x y : QString} (h : '/' ∈ y) : dirName (x ++ y) = x ++ dirName y := by
  have hne : y.reverse.dropWhile (· ≠ '/') ≠ [] := by
    intro hnil
    have hall := List.dropWhile_eq_nil_iff.mp hnil '/' (List.mem_reverse.mpr h)
    exact absurd rfl (of_decide_eq_true hall)
  have hpos : 1 ≤ (y.reverse.dropWhile (· ≠ '/')).length := List.length_pos_iff.mpr hne
  rw [dirName, dirName, List.reverse_append, List.dropWhile_append, if_neg (by simpa using hne),
    List.drop_append_of_le_length hpos, List.reverse_append, List.reverse_reverse]

theorem dirName_makeAbsolutePath {p : QString} (h : '/' ∈ p) :
    dirName (nd.makeAbsolutePath p) = nd.makeAbsolutePath (dirName p) := by
  rw [makeAbsolutePath, makeAbsolutePath, dirName_append (List.mem_cons_of_mem _ h)]
  exact congrArg (nd.rootDir ++ ·) (dirName_append (x := ['/']) h)

/-! ## computations -/

/-- The world after a computation, whether it returns or throws. -/
def worldAfter : EStateM.Result Bytes (World σ) α → World σ
  | .ok _ w => w
  | .error _ w => w

/-- Only paths inside the root directory have been touched. -/
def AllInside (nd : LocalFSNode) (w : World σ) : Prop := ∀ p ∈ w.touched, nd.Inside p

/-- The computation touches no path outside the root directory just if the condition
holds, and it does not return before it has touched one. -/
structure Confines (nd : LocalFSNode) (m : FsM σ α) (w : World σ) (C : Prop) : Prop where
  allInside : AllInside nd (worldAfter (m w)) ↔ AllInside nd w ∧ C
  touched : ∀ a w', m w = .ok a w' → w'.touched ≠ []

variable {w : World σ} {m m' : FsM σ α} {C C' : Prop} {p : QString}

theorem Confines.congr (h : Confines nd m w C) (hC : C ↔ C') : Confines nd m w C' :=
  ⟨h.allInside.trans (and_congr_right fun _ => hC), h.touched⟩

theorem allInside_append {s : σ} {l : List QString} :
    AllInside nd ⟨s, l ++ [p]⟩ ↔ (∀ q ∈ l, nd.Inside q) ∧ nd.Inside p := by
  rw [AllInside, List.forall_mem_append, List.forall_mem_singleton]

theorem confines_throw (e : Bytes) : Confines nd (throw e : FsM σ α) w True :=
  ⟨(and_iff_left trivial).symm, fun _ _ h => by cases h⟩

theorem confines_pure (a : α) (h : w.touched ≠ []) : Confines nd (pure a : FsM σ α) w True := by
  refine ⟨(and_iff_left trivial).symm, fun _ _ heq => ?_⟩
  cases heq
  exact h

theorem confines_ask {f : QString → σ → α} : Confines nd (ask p f) w (nd.Inside p) := by
  refine ⟨allInside_append, fun a w' heq => ?_⟩
  cases heq
  exact List.append_ne_nil_of_right_ne_nil _ (List.cons_ne_nil _ _)

theorem confines_change {f : QString → σ → α × σ} : Confines nd (change p f) w (nd.Inside p) := by
  refine ⟨allInside_append, fun a w' heq => ?_⟩
  cases heq
  exact List.append_ne_nil_of_right_ne_nil _ (List.cons_ne_nil _ _)

theorem bind_ok {f : α → FsM σ β} {a : α} {w' : World σ} (h : m w = .ok a w') :
    (m >>= f) w = f a w' := by
  change EStateM.bind m f w = _
  rw [EStateM.bind, h]

theorem bind_error {f : α → FsM σ β} {e : Bytes} {w' : World σ} (h : m w = .error e w') :
    (m >>= f) w = .error e w' := by
  change EStateM.bind m f w = _
  rw [EStateM.bind, h]

/-- A computation that returns, and what follows. -/
theorem Confines.seq {f : α → FsM σ β} {a : α} {w' : World σ} (h : Confines nd m w C)
    (hm : m w = .ok a w') (hf : Confines nd (f a) w' C') : Confines nd (m >>= f) w (C ∧ C') := by
  have hw' := h.allInside
  rw [hm] at hw'
  refine ⟨?_, fun b w'' => ?_⟩
  · rw [bind_ok hm, hf.allInside, ← and_assoc]
    exact and_congr_left fun _ => hw'
  · rw [bind_ok hm]
    exact hf.touched b w''

/-- A computation that is continued by one with a condition that follows from its own. -/
theorem Confines.bind {f : α → FsM σ β} (h : Confines nd m w C)
    (hf : ∀ a w', m w = .ok a w' → ∃ C', Confines nd (f a) w' C' ∧ (C → C')) :
    Confines nd (m >>= f) w C := by
  cases hm : m w with
  | ok a w' =>
    obtain ⟨C', hrest, hC⟩ := hf a w' hm
    exact (h.seq hm hrest).congr ⟨And.left, fun hc => ⟨hc, hC hc⟩⟩
  | error e w' =>
    have hw' := h.allInside
    rw [hm] at hw'
    refine ⟨?_, fun b w'' heq => ?_⟩
    · rw [bind_error hm]
      exact hw'
    · rw [bind_error hm] at heq
      cases heq

/-- A computation whose result is only converted. -/
theorem Confines.map {f : α → β} (h : Confines nd m w C) :
    Confines nd (m >>= fun a => pure (f a)) w C :=
  h.bind fun a w' hm => ⟨True, confines_pure (f a) (h.touched a w' hm), fun _ => trivial⟩

/-- A computation that depends on a flag. -/
theorem Confines.ite {c : Prop} [Decidable c] (h : c → Confines nd m w C)
    (h' : ¬ c → Confines nd m' w C') :
    Confines nd (if c then m else m') w ((c → C) ∧ (¬ c → C')) := by
  by_cases hc : c
  · rw [if_pos hc]
    exact (h hc).congr ⟨fun hC => ⟨fun _ => hC, fun hn => absurd hc hn⟩, fun hC => hC.1 hc⟩
  · rw [if_neg hc]
    exact (h' hc).congr ⟨fun hC => ⟨fun hn => absurd hn hc, fun _ => hC⟩, fun hC => hC.2 hc⟩

/-- Whichever way it goes, nothing more is touched. -/
theorem confines_pure_ite {c : Prop} [Decidable c] (a b : α) (h : w.touched ≠ []) :
    Confines nd (if c then pure a else pure b : FsM σ α) w True := by
  split
  · exact confines_pure a h
  · exact confines_pure b h

/-- A path is asked about, then it is gone on with the answer. -/
theorem confines_ask_bind {f : QString → σ → α} {g : α → FsM σ β}
    (h : Confines nd (g (f p w.files)) ⟨w.files, w.touched ++ [p]⟩ C) :
    Confines nd (ask p f >>= g) w (nd.Inside p ∧ C) := confines_ask.seq rfl h

theorem confines_change_bind {f : QString → σ → α × σ} {g : α → FsM σ β}
    (h : Confines nd (g (f p w.files).1) ⟨(f p w.files).2, w.touched ++ [p]⟩ C) :
    Confines nd (change p f >>= g) w (nd.Inside p ∧ C) := confines_change.seq rfl h

theorem confines_ofExcept_bind {r : Except String α} {f : α → FsM σ β}
    (h : ∀ a, r = .ok a → Confines nd (f a) w C) :
    Confines nd (FsM.ofExcept r >>= f) w (r.isOk = true → C) := by
  cases r with
  | ok a => exact (h a rfl).congr ⟨fun hC _ => hC, fun hC => hC rfl⟩
  | error msg => exact (confines_throw (ascii msg)).congr ⟨fun _ h => absurd h Bool.false_ne_true, fun _ => trivial⟩

variable (fs : FileSystem σ)

/-- A path is used only if the check lets it pass. -/
theorem confines_check_bind {f : Unit → FsM σ α} {q : QString} (h : Confines nd (f ()) w C) :
    Confines nd (checkPathIsBoundedToFsRoot fs nd (nd.makeAbsolutePath q) >>= f) w
      (nd.Admitted q → C) := by
  rw [checkPathIsBoundedToFsRoot, Admitted]
  by_cases hq : nd.rootDir <+: cleanPath (nd.makeAbsolutePath q)
  · rw [if_pos hq]
    exact h.congr ⟨fun hC _ => hC, fun hC => hC hq⟩
  · rw [if_neg hq]
    exact (confines_throw _).congr ⟨fun _ hn => absurd hn hq, fun _ => trivial⟩

/-! ## files -/

/-- Everything after the file was opened is done with the same path. -/
theorem confines_same {C' : Prop} (h : Confines nd m w (C ∧ C')) (hC : C → C') : Confines nd m w C :=
  h.congr ⟨And.left, fun hc => ⟨hc, hC hc⟩⟩

theorem confines_readOpened (offset size : Int64) :
    Confines nd (readOpened fs p offset size) w (nd.Inside p) := by
  refine confines_same (confines_ask_bind (Confines.ite (fun _ => confines_pure _ ?_)
    fun _ => confines_ask.map)) fun h => ⟨fun _ => trivial, fun _ => h⟩
  exact List.append_ne_nil_of_right_ne_nil _ (List.cons_ne_nil _ _)

theorem confines_writeOpened (open_mode : OpenMode) (content : Bytes) :
    Confines nd (writeOpened fs open_mode p content) w (nd.Inside p) := by
  refine confines_same (confines_change_bind (Confines.ite (fun _ => confines_change.map)
    fun _ => confines_throw _)) fun h => ⟨fun _ => h, fun _ => trivial⟩

theorem confines_ndSize (path : QString) : Confines nd (ndSize fs nd path) w (nd.Within path) :=
  Confines.congr confines_ask.map (inside_makeAbsolutePath_iff path)

theorem confines_ndRead (path : QString) (offset size : Int64) :
    Confines nd (ndRead fs nd path offset size) w (nd.Admitted path → nd.Within path) := by
  rw [← inside_makeAbsolutePath_iff]
  refine confines_check_bind fs (confines_same (confines_change_bind (Confines.ite
    (fun _ => confines_readOpened fs offset size) fun _ => confines_throw _)) ?_)
  exact fun h => ⟨fun _ => h, fun _ => trivial⟩

theorem confines_ndDelete (path : QString) :
    Confines nd (ndDelete fs nd path) w (nd.Admitted path → nd.Within path) := by
  rw [← inside_makeAbsolutePath_iff]
  exact confines_check_bind fs confines_change.map

theorem confines_ndRmdir (path : QString) (recursively : Bool) :
    Confines nd (ndRmdir fs nd path recursively) w
      (nd.Admitted path → path ≠ [] → nd.Within path) := by
  rw [← inside_makeAbsolutePath_iff]
  refine confines_check_bind fs (Confines.congr (Confines.ite (fun _ => confines_throw _)
    fun _ => confines_change.map) ?_)
  exact ⟨And.right, fun h => ⟨fun _ => trivial, h⟩⟩

theorem confines_ndMkdir (path : QString) (methods_params : RpcValue) :
    Confines nd (ndMkdir fs nd path methods_params) w (nd.Admitted path →
      methods_params.isString = true →
        nd.Within (path ++ '/' :: fs.fromStdString methods_params.asString)) := by
  rw [← inside_makeAbsolutePath_iff]
  refine confines_check_bind fs (Confines.congr (Confines.ite (fun _ => confines_change.map)
    fun _ => confines_throw _) ?_)
  exact ⟨And.left, fun h => ⟨h, fun _ => trivial⟩⟩

theorem confines_ndMkfileName (path : QString) (name : Bytes) :
    Confines nd (ndMkfileName fs nd path name) w
      (nd.Admitted (path ++ '/' :: fs.fromStdString name) →
        nd.Within (path ++ '/' :: fs.fromStdString name)) := by
  rw [← inside_makeAbsolutePath_iff]
  exact confines_check_bind fs confines_change.map

/-- The directory is made first; the file is used if there is a directory then. -/
theorem confines_ndMkfileContent (path : QString) (name content : Bytes) :
    Confines nd (ndMkfileContent fs nd path name content) w
      (nd.Within (dirName (path ++ '/' :: fs.fromStdString name)) ∧
        ((fs.mkpath (nd.makeAbsolutePath (dirName (path ++ '/' :: fs.fromStdString name)))
            w.files).1 = true →
          nd.Within (path ++ '/' :: fs.fromStdString name))) := by
  have hslash : '/' ∈ path ++ '/' :: fs.fromStdString name :=
    List.mem_append_right _ List.mem_cons_self
  rw [← inside_makeAbsolutePath_iff, ← inside_makeAbsolutePath_iff,
    ← dirName_makeAbsolutePath hslash]
  refine Confines.congr (confines_change_bind (Confines.ite
    (fun _ => confines_same (confines_ask_bind (Confines.ite (fun _ => confines_throw _)
      fun _ => confines_writeOpened fs .WriteOnly content))
      fun h => ⟨fun _ => trivial, fun _ => h⟩)
    fun _ => confines_throw _)) ?_
  exact and_congr_right fun _ => and_iff_left fun _ => trivial

theorem confines_ndWrite (path : QString) (methods_params : RpcValue) :
    Confines nd (ndWrite fs nd path methods_params) w
      ((methods_params.isString = true ∨ methods_params.asList.length = 2) → nd.Within path) := by
  rw [← inside_makeAbsolutePath_iff, ndWrite]
  split
  · rename_i hstring
    exact (confines_writeOpened fs _ _).congr ⟨fun h _ => h, fun h => h (.inl hstring)⟩
  · rename_i hstring
    split
    · rename_i content flags hlist
      have hlength : methods_params.asList.length = 2 := by rw [RpcValue.asList, hlist]; rfl
      exact (confines_writeOpened fs _ _).congr ⟨fun h _ => h, fun h => h (.inr hlength)⟩
    · rename_i vs hother hlist
      have hlength : methods_params.asList.length ≠ 2 := by
        rw [RpcValue.asList, hlist]
        intro h
        obtain ⟨content, flags, rfl⟩ := List.length_eq_two.mp h
        exact hother content flags rfl
      exact (confines_throw _).congr (iff_of_true trivial fun h => absurd h
        (not_or.mpr ⟨hstring, hlength⟩))
    · rename_i hother
      have hlength : methods_params.asList.length ≠ 2 := by
        rw [RpcValue.asList]
        split
        · rename_i vs hlist
          exact absurd hlist (hother vs)
        · exact Nat.zero_ne_add_one 1
      exact (confines_throw _).congr (iff_of_true trivial fun h => absurd h
        (not_or.mpr ⟨hstring, hlength⟩))

/-! ## listings -/

/-- Listed files lie in a directory inside. -/
theorem confines_mapM_entryRow (with_size with_ctime : Bool) (entries : List FileInfo)
    (h : w.touched ≠ []) : Confines nd (entries.mapM (entryRow fs with_size with_ctime p)) w
      (∀ fi ∈ entries, nd.Inside (p ++ '/' :: fi.fileName.text)) := by
  induction entries generalizing w with
  | nil => exact (confines_pure _ h).congr (iff_of_true trivial (List.forall_mem_nil _))
  | cons fi entries ih =>
    rw [List.mapM_cons]
    refine Confines.congr (Confines.seq confines_ask.map rfl (Confines.map (ih ?_))) ?_
    · exact List.append_ne_nil_of_right_ne_nil _ (List.cons_ne_nil _ _)
    · exact (List.forall_mem_cons
        (p := fun fi : FileInfo => nd.Inside (p ++ '/' :: fi.fileName.text))).symm

theorem confines_ndLsDir (path : QString) (methods_params : RpcValue) :
    Confines nd (ndLsDir fs nd path methods_params) w (nd.Within path) := by
  rw [← inside_makeAbsolutePath_iff]
  refine confines_same (confines_ask_bind (Confines.ite (fun _ => confines_ask_bind (Confines.ite
    (fun _ => confines_ask_bind (Confines.map (confines_mapM_entryRow fs _ _ _ ?_)))
    fun _ => confines_throw _)) fun _ => confines_pure _ ?_)) fun h => ?_
  · exact List.append_ne_nil_of_right_ne_nil _ (List.cons_ne_nil _ _)
  · exact List.append_ne_nil_of_right_ne_nil _ (List.cons_ne_nil _ _)
  · refine ⟨fun _ => ⟨h, fun _ => ⟨h, fun fi _ => ?_⟩, fun _ => trivial⟩, fun _ => trivial⟩
    exact h.append_name fi.fileName.isName

theorem confines_ls (shv_path : StringViewList) (methods_params : RpcValue) :
    Confines nd (ls fs nd shv_path methods_params) w
      (nd.Within (fs.fromStdString shv_path.join)) := by
  have hnames : Confines nd (childNames fs nd shv_path) w
      (nd.Within (fs.fromStdString shv_path.join)) := Confines.map (confines_ndLsDir fs _ _)
  refine hnames.bind fun names w' hm => ⟨True, ?_, fun _ => trivial⟩
  exact confines_pure_ite _ _ (hnames.touched names w' hm)

/-! ## methods of a path -/

/-- What is asked about when the methods of a path are looked up: the path, and the directory
above it if there is no such file. -/
def Asked (nd : LocalFSNode) (s : σ) (shv_path : StringViewList) : Prop :=
  nd.Within (fs.fromStdString shv_path.join) ∧
    (fs.fileExists (nd.makeAbsolutePath (fs.fromStdString shv_path.join)) s = false →
      shv_path ≠ [] → nd.Within (fs.fromStdString (StringViewList.join shv_path.dropLast)))

theorem asked_iff {s : σ} {shv_path : StringViewList} : Asked fs nd s shv_path ↔
    nd.Inside (nd.makeAbsolutePath (fs.fromStdString shv_path.join)) ∧
      (fs.fileExists (nd.makeAbsolutePath (fs.fromStdString shv_path.join)) s = false →
        shv_path ≠ [] → nd.Inside (nd.makeAbsolutePath
          (fs.fromStdString (StringViewList.join shv_path.dropLast)))) := by
  rw [Asked, inside_makeAbsolutePath_iff, inside_makeAbsolutePath_iff]

theorem confines_isDir (shv_path : StringViewList) : Confines nd (isDir fs nd shv_path) w
    (nd.Inside (nd.makeAbsolutePath (fs.fromStdString shv_path.join))) :=
  confines_same (confines_ask_bind confines_ask) id

theorem confines_methodCount (shv_path : StringViewList) :
    Confines nd (methodCount fs nd shv_path) w (Asked fs nd w.files shv_path) := by
  rw [asked_iff]
  refine Confines.congr (confines_ask_bind (Confines.ite (fun _ => Confines.bind
    (confines_isDir fs shv_path) fun _ w' hm => ⟨True, confines_pure_ite _ _ ?_, fun _ => trivial⟩)
    fun _ => Confines.ite (fun _ => confines_ask_bind (confines_pure_ite _ _ ?_))
      fun _ => confines_pure _ ?_)) ?_
  · exact (confines_isDir fs shv_path).touched _ w' hm
  · exact List.append_ne_nil_of_right_ne_nil _ (List.cons_ne_nil _ _)
  · exact List.append_ne_nil_of_right_ne_nil _ (List.cons_ne_nil _ _)
  · rw [Bool.not_eq_true]
    refine and_congr_right fun hinside => ⟨fun h he hne => ((h.2 he).1 hne).1, fun h => ?_⟩
    exact ⟨fun _ => hinside, fun he => ⟨fun hne => ⟨h he hne, trivial⟩, fun _ => trivial⟩⟩

/-- The lookup of a method in a list. -/
theorem confines_elim (methods : List FileMethod) (ix : Nat) (e : Bytes) (h : w.touched ≠ []) :
    Confines nd (methods[ix]?.elim (throw e) pure : FsM σ FileMethod) w True := by
  cases methods[ix]? with
  | none => exact confines_throw e
  | some mm => exact confines_pure mm h

theorem confines_metaMethod (shv_path : StringViewList) (ix : Nat) :
    Confines nd (metaMethod fs nd shv_path ix) w (Asked fs nd w.files shv_path) := by
  rw [asked_iff]
  refine Confines.congr (confines_ask_bind (Confines.ite
    (fun _ => confines_ask_bind (confines_elim _ ix _ ?_))
    fun _ => Confines.ite (fun _ => confines_ask_bind (confines_elim _ ix _ ?_))
      fun _ => confines_throw _)) ?_
  · exact List.append_ne_nil_of_right_ne_nil _ (List.cons_ne_nil _ _)
  · exact List.append_ne_nil_of_right_ne_nil _ (List.cons_ne_nil _ _)
  · rw [Bool.not_eq_true]
    refine and_congr_right fun hinside => ⟨fun h he hne => ((h.2 he).1 hne).1, fun h => ?_⟩
    exact ⟨fun _ => ⟨hinside, trivial⟩,
      fun he => ⟨fun hne => ⟨h he hne, trivial⟩, fun _ => trivial⟩⟩

/-- Asking does not change the files. -/
def Keeps (m : FsM σ α) : Prop := ∀ w a w', m w = .ok a w' → w'.files = w.files

theorem Keeps.bind {m : FsM σ α} {f : α → FsM σ β} (h : Keeps m) (hf : ∀ a, Keeps (f a)) :
    Keeps (m >>= f) := by
  intro w b w'' hrun
  cases hm : m w with
  | ok a w' =>
    rw [bind_ok hm] at hrun
    exact (hf a w' b w'' hrun).trans (h w a w' hm)
  | error e w' =>
    rw [bind_error hm] at hrun
    cases hrun

theorem keeps_pure (a : α) : Keeps (pure a : FsM σ α) := fun _ _ _ h => by cases h; rfl

theorem keeps_throw (e : Bytes) : Keeps (throw e : FsM σ α) := fun _ _ _ h => by cases h

theorem keeps_ask (p : QString) (f : QString → σ → α) : Keeps (ask p f) :=
  fun _ _ _ h => by cases h; rfl

theorem Keeps.ite {c : Prop} [Decidable c] {m m' : FsM σ α} (h : Keeps m) (h' : Keeps m') :
    Keeps (if c then m else m') := by
  split
  · exact h
  · exact h'

theorem keeps_elim (methods : List FileMethod) (ix : Nat) (e : Bytes) :
    Keeps (methods[ix]?.elim (throw e) pure : FsM σ FileMethod) := by
  cases methods[ix]? with
  | none => exact keeps_throw e
  | some mm => exact keeps_pure mm

theorem keeps_metaMethod (shv_path : StringViewList) (ix : Nat) :
    Keeps (metaMethod fs nd shv_path ix) :=
  (keeps_ask _ _).bind fun _ => Keeps.ite ((keeps_ask _ _).bind fun _ => keeps_elim _ ix _)
    (Keeps.ite ((keeps_ask _ _).bind fun _ => keeps_elim _ ix _) (keeps_throw _))

theorem keeps_methodCount (shv_path : StringViewList) : Keeps (methodCount fs nd shv_path) :=
  (keeps_ask _ _).bind fun _ => Keeps.ite
    (((keeps_ask _ _).bind fun _ => keeps_ask _ _).bind fun _ => (keeps_pure _).ite (keeps_pure _))
    (Keeps.ite ((keeps_ask _ _).bind fun _ => (keeps_pure _).ite (keeps_pure _)) (keeps_pure _))

/-- Looking up more methods asks about the same paths. -/
theorem confines_mapM_metaMethod (shv_path : StringViewList) (ixs : List Nat)
    (h : w.touched ≠ []) : Confines nd (ixs.mapM (metaMethod fs nd shv_path)) w
      (ixs ≠ [] → Asked fs nd w.files shv_path) := by
  induction ixs generalizing w with
  | nil => exact (confines_pure _ h).congr (iff_of_true trivial fun hne => absurd rfl hne)
  | cons ix ixs ih =>
    rw [List.mapM_cons]
    have hhead := @confines_metaMethod σ nd w fs shv_path ix
    refine (hhead.bind fun mm w' hm => ?_).congr
      ⟨fun hC _ => hC, fun hC => hC (List.cons_ne_nil _ _)⟩
    have hrest := ih (w := w') (hhead.touched mm w' hm)
    rw [keeps_metaMethod fs shv_path ix w mm w' hm] at hrest
    exact ⟨_, hrest.map, fun hC _ => hC⟩

theorem confines_findMethod (shv_path : StringViewList) (method_name : Bytes) (ixs : List Nat)
    (h : w.touched ≠ []) : Confines nd (findMethod fs nd shv_path method_name ixs) w
      (ixs ≠ [] → Asked fs nd w.files shv_path) := by
  induction ixs generalizing w with
  | nil => exact (confines_pure _ h).congr (iff_of_true trivial fun hne => absurd rfl hne)
  | cons ix ixs ih =>
    have hhead := @confines_metaMethod σ nd w fs shv_path ix
    refine (hhead.bind fun mm w' hm => ?_).congr
      ⟨fun hC _ => hC, fun hC => hC (List.cons_ne_nil _ _)⟩
    have hrest := ih (w := w') (hhead.touched mm w' hm)
    rw [keeps_metaMethod fs shv_path ix w mm w' hm] at hrest
    exact ⟨_, Confines.ite (fun _ => confines_pure _ (hhead.touched mm w' hm)) fun _ => hrest,
      fun hC => ⟨fun _ => trivial, fun _ _ => hC⟩⟩

theorem confines_dir (shv_path : StringViewList) (methods_params : RpcValue) :
    Confines nd (dir fs nd shv_path methods_params) w (Asked fs nd w.files shv_path) := by
  have hcount := @confines_methodCount σ nd w fs shv_path
  refine hcount.bind fun cnt w' hm => ?_
  have htouched := hcount.touched cnt w' hm
  rw [← keeps_methodCount fs shv_path w cnt w' hm]
  exact ⟨_, Confines.ite
    (fun _ => (confines_mapM_metaMethod fs shv_path (List.range cnt) htouched).map)
    fun _ => confines_findMethod fs shv_path _ (List.range cnt) htouched,
    fun hC => ⟨fun _ _ => hC, fun _ _ => hC⟩⟩

/-! ## requests -/

/-- The offset and the size of the parameters are numbers. -/
def ReadParams (params : RpcValue) : Prop :=
  (params.asMap.valueOr (ascii "offset") .invalid).toInt64.isOk = true ∧
    (params.asMap.valueOr (ascii "size") maxInt64).toInt64.isOk = true

theorem confines_readParams (shv_path : StringViewList) (params : RpcValue) :
    Confines nd (readParams fs nd shv_path params) w (ReadParams params →
      nd.Admitted (fs.fromStdString shv_path.join) →
        nd.Within (fs.fromStdString shv_path.join)) :=
  Confines.congr (confines_ofExcept_bind fun offset _ => confines_ofExcept_bind fun size _ =>
    Confines.map (confines_ndRead fs (fs.fromStdString shv_path.join) offset size)) and_imp.symm

theorem confines_read (shv_path : StringViewList) (params : RpcValue) :
    Confines nd (read fs nd shv_path params) w (ReadParams params →
      nd.Admitted (fs.fromStdString shv_path.join) →
        nd.Within (fs.fromStdString shv_path.join)) :=
  (confines_readParams fs shv_path params).map

/-- The compression type of the parameters is known. -/
def CompressionParams (params : RpcValue) : Prop :=
  (compressionTypeFromString
    (params.asMap.valueOr (ascii "compressionType") .invalid).toString).isSome = true

theorem confines_readFileCompressed (shv_path : StringViewList) (params : RpcValue) :
    Confines nd (readFileCompressed fs nd shv_path params) w (CompressionParams params →
      ReadParams params → nd.Admitted (fs.fromStdString shv_path.join) →
        nd.Within (fs.fromStdString shv_path.join)) := by
  rw [readFileCompressed, CompressionParams]
  split
  · rename_i hnone
    rw [hnone]
    exact (confines_throw _).congr (iff_of_true trivial fun h => absurd h Bool.false_ne_true)
  · rename_i hsome
    rw [hsome]
    exact (confines_readParams fs shv_path params).map.congr ⟨fun h _ => h, fun h => h rfl⟩

/-- The texts of the paths that a request is going to use lead to the root directory or below it,
as far as it comes to use them. -/
def Confined (nd : LocalFSNode) (s : σ) (shv_path : StringViewList) (method : Bytes)
    (params : RpcValue) : Prop :=
  let path := fs.fromStdString shv_path.join
  if shv_path.hasElement (ascii "..") then True
  else if method = M_WRITE then
    params.isString = true ∨ params.asList.length = 2 → nd.Within path
  else if method = M_DELETE then nd.Admitted path → nd.Within path
  else if method = M_MKFILE then
    (params.isString = true →
      nd.Admitted (path ++ '/' :: fs.fromStdString params.asString) →
        nd.Within (path ++ '/' :: fs.fromStdString params.asString)) ∧
    (∀ name content, params.value = .list [name, content] →
      nd.Within (dirName (path ++ '/' :: fs.fromStdString name.asString)) ∧
        ((fs.mkpath (nd.makeAbsolutePath
            (dirName (path ++ '/' :: fs.fromStdString name.asString))) s).1 = true →
          nd.Within (path ++ '/' :: fs.fromStdString name.asString)))
  else if method = M_MKDIR then
    nd.Admitted path → params.isString = true →
      nd.Within (path ++ '/' :: fs.fromStdString params.asString)
  else if method = M_RMDIR then nd.Admitted path → path ≠ [] → nd.Within path
  else if method = M_LS_FILES ∨ method = M_SIZE ∨ method = METH_LS then nd.Within path
  else if method = METH_DIR then Asked fs nd s shv_path
  else if method = M_READ ∨ method = M_HASH then
    ReadParams params → nd.Admitted path → nd.Within path
  else if method = M_READ_COMPRESSED ∨ method = M_SIZE_COMPRESSED then
    CompressionParams params → ReadParams params → nd.Admitted path → nd.Within path
  else True

theorem confines_ndMkfile (path : QString) (methods_params : RpcValue) :
    Confines nd (ndMkfile fs nd path methods_params) w
      ((methods_params.isString = true →
        nd.Admitted (path ++ '/' :: fs.fromStdString methods_params.asString) →
          nd.Within (path ++ '/' :: fs.fromStdString methods_params.asString)) ∧
      (∀ name content, methods_params.value = .list [name, content] →
        nd.Within (dirName (path ++ '/' :: fs.fromStdString name.asString)) ∧
          ((fs.mkpath (nd.makeAbsolutePath
              (dirName (path ++ '/' :: fs.fromStdString name.asString))) w.files).1 = true →
            nd.Within (path ++ '/' :: fs.fromStdString name.asString)))) := by
  rw [ndMkfile]
  by_cases hstring : methods_params.isString = true
  · rw [if_pos hstring]
    have hnot : ∀ name content, methods_params.value ≠ .list [name, content] := by
      intro name content hlist
      rw [RpcValue.isString, hlist] at hstring
      exact Bool.false_ne_true hstring
    exact (confines_ndMkfileName fs path _).congr ⟨fun h => ⟨fun _ => h, fun name content hlist =>
      absurd hlist (hnot name content)⟩, fun h => h.1 hstring⟩
  · rw [if_neg hstring]
    split
    · rename_i name content hlist
      refine (confines_ndMkfileContent fs path _ _).congr ⟨fun h => ⟨fun hs => absurd hs hstring,
        fun name' content' hlist' => ?_⟩, fun h => h.2 name content hlist⟩
      have heq := Variant.list.inj (hlist.symm.trans hlist')
      obtain rfl : name = name' := (List.cons.inj heq).1
      exact h
    · rename_i vs hother hlist
      refine (confines_throw _).congr (iff_of_true trivial ⟨fun hs => absurd hs hstring, ?_⟩)
      intro name content hlist'
      exact absurd (Variant.list.inj (hlist.symm.trans hlist')) (hother name content)
    · rename_i hother
      refine (confines_throw _).congr (iff_of_true trivial ⟨fun hs => absurd hs hstring, ?_⟩)
      exact fun name content hlist => absurd hlist (hother _)

theorem confines_callMethod (shv_path : StringViewList) (method : Bytes)
    (params user_id : RpcValue) : Confines nd (callMethod fs nd shv_path method params user_id) w
      (Confined fs nd w.files shv_path method params) := by
  rw [callMethod, Confined]
  by_cases hup : shv_path.hasElement (ascii "..") = true
  · rw [if_pos hup, if_pos hup]
    exact confines_throw _
  rw [if_neg hup, if_neg hup]
  by_cases hwrite : method = M_WRITE
  · rw [if_pos hwrite, if_pos hwrite]
    exact confines_ndWrite fs _ params
  rw [if_neg hwrite, if_neg hwrite]
  by_cases hdelete : method = M_DELETE
  · rw [if_pos hdelete, if_pos hdelete]
    exact confines_ndDelete fs _
  rw [if_neg hdelete, if_neg hdelete]
  by_cases hmkfile : method = M_MKFILE
  · rw [if_pos hmkfile, if_pos hmkfile]
    exact confines_ndMkfile fs _ params
  rw [if_neg hmkfile, if_neg hmkfile]
  by_cases hmkdir : method = M_MKDIR
  · rw [if_pos hmkdir, if_pos hmkdir]
    exact confines_ndMkdir fs _ params
  rw [if_neg hmkdir, if_neg hmkdir]
  by_cases hrmdir : method = M_RMDIR
  · rw [if_pos hrmdir, if_pos hrmdir]
    exact confines_ndRmdir fs _ _
  rw [if_neg hrmdir, if_neg hrmdir]
  by_cases hlsfiles : method = M_LS_FILES
  · rw [if_pos hlsfiles, if_pos (.inl hlsfiles)]
    exact confines_ndLsDir fs _ params
  rw [if_neg hlsfiles, fileNodeCallMethod]
  by_cases hread : method = M_READ
  · subst hread
    exact confines_read fs shv_path params
  rw [if_neg hread]
  by_cases hreadCompressed : method = M_READ_COMPRESSED
  · subst hreadCompressed
    exact confines_readFileCompressed fs shv_path params
  rw [if_neg hreadCompressed]
  by_cases hhash : method = M_HASH
  · subst hhash
    exact (confines_read fs shv_path params).map
  rw [if_neg hhash]
  by_cases hsize : method = M_SIZE
  · subst hsize
    exact confines_ndSize fs _
  rw [if_neg hsize]
  by_cases hsizeCompressed : method = M_SIZE_COMPRESSED
  · subst hsizeCompressed
    exact (confines_readFileCompressed fs shv_path params).map
  rw [if_neg hsizeCompressed, shvNodeCallMethod]
  by_cases hdir : method = METH_DIR
  · subst hdir
    exact confines_dir fs shv_path params
  rw [if_neg hdir]
  by_cases hls : method = METH_LS
  · subst hls
    exact confines_ls fs shv_path params
  rw [if_neg hls]
  have hlist : ¬ (method = M_LS_FILES ∨ method = M_SIZE ∨ method = METH_LS) :=
    not_or.mpr ⟨hlsfiles, not_or.mpr ⟨hsize, hls⟩⟩
  rw [if_neg hlist, if_neg hdir, if_neg (not_or.mpr ⟨hread, hhash⟩),
    if_neg (not_or.mpr ⟨hreadCompressed, hsizeCompressed⟩)]
  exact confines_throw _

/-- Every path that is touched lies inside the root directory; if there is none, the call fails. -/
def StaysInRoot (nd : LocalFSNode) : EStateM.Result Bytes (World σ) α → Prop
  | .ok _ w => w.touched ≠ [] ∧ AllInside nd w
  | .error _ w => AllInside nd w

/-- A request stays in the root directory just if the texts of its paths do. -/
theorem staysInRoot_iff (s : σ) (shv_path : StringViewList) (method : Bytes)
    (params user_id : RpcValue) :
    StaysInRoot nd (callMethod fs nd shv_path method params user_id ⟨s, []⟩) ↔
      Confined fs nd s shv_path method params := by
  have h := @confines_callMethod σ nd ⟨s, []⟩ fs shv_path method params user_id
  have hinside := h.allInside.trans (and_iff_right (List.forall_mem_nil _))
  cases hrun : callMethod fs nd shv_path method params user_id ⟨s, []⟩ with
  | ok a w =>
    rw [hrun] at hinside
    exact (and_iff_right (h.touched a w hrun)).trans hinside
  | error e w =>
    rw [hrun] at hinside
    exact hinside

/-! ## leaving the root directory -/

/-- A file system where everything can be opened and nothing is there. -/
def emptyFileSystem : FileSystem Unit where
  fromStdString s := s.map fun b => Char.ofNat b.toNat
  toStdString s := s.map fun c => UInt8.ofNat c.toNat
  fileExists _ _ := false
  isDir _ _ := false
  size _ _ := 0
  entryInfoList _ _ _ _ := []
  openFile _ _ s := (true, s)
  readAt _ _ _ _ := []
  write _ _ s := ((), s)
  remove _ s := (false, s)
  rmdir _ s := (false, s)
  removeRecursively _ s := (false, s)
  mkpath _ s := (true, s)
  sha1Hex _ := []
  qCompress s := s
  compressGZip s := s

/-- The node of `/srv`. -/
def srvNode : LocalFSNode where
  shvPath := ascii "files"
  rootPath := "/srv".toList
  rootDirs := ["srv".toList]
  isName := List.forall_mem_singleton.mpr (by decide)

/-- A file of another directory is written: the segment holds slashes. -/
theorem not_staysInRoot_write : ¬ StaysInRoot srvNode (callMethod emptyFileSystem srvNode
    [ascii "../etc/passwd"] M_WRITE (.ofVariant (.string (ascii "x"))) .invalid ⟨(), []⟩) := by
  rintro ⟨-, h⟩
  exact absurd (h "/srv/../etc/passwd".toList List.mem_cons_self) (by decide)

end LibShv.LocalFSNode
