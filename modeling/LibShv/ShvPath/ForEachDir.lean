import LibShv.GetLog.Snapshot
import LibShv.ShvPath

/-!
# LibShv.ShvPath.ForEachDir

The part of a map below a path (`shvpath.h`): `forEachDirAndSubdirs` calls a function for its
entries, and `forEachDirAndSubdirsDeleteIf` removes those that a predicate accepts.
-/

namespace LibShv

namespace ShvPath

variable {β : Type}

/-- The key of an entry is before the directory. -/
def isBefore (root_dir : Bytes) (kv : Bytes × β) : Bool := compare kv.1 root_dir = .lt

/-- `map.lower_bound(root_dir)`: the entries from there on. -/
def lowerBound (root_dir : Bytes) (map : List (Bytes × β)) : List (Bytes × β) :=
  map.dropWhile (isBefore root_dir)

/-- The test on a key that starts with the directory. -/
def isDirOrSubdir (root_dir key : Bytes) : Bool :=
  key.length = root_dir.length ∨ key[root_dir.length]? = some SHV_PATH_DELIM

/-- The entries that the loop of `forEachDirAndSubdirs` calls its function for. -/
def forEachFrom (root_dir : Bytes) : List (Bytes × β) → List (Bytes × β)
  | [] => []
  | (key, e) :: map =>
    if root_dir.isPrefixOf key then
      if isDirOrSubdir root_dir key then (key, e) :: forEachFrom root_dir map
      else forEachFrom root_dir map
    else []

/-- `forEachDirAndSubdirs`: the entries in the order of the calls. -/
def forEachDirAndSubdirs (root_dir : Bytes) (map : List (Bytes × β)) : List (Bytes × β) :=
  forEachFrom root_dir (lowerBound root_dir map)

/-- The loop of `forEachDirAndSubdirsDeleteIf`: what it leaves. -/
def deleteIfFrom (root_dir : Bytes) (fn : Bytes × β → Bool) : List (Bytes × β) → List (Bytes × β)
  | [] => []
  | (key, e) :: map =>
    if root_dir.isPrefixOf key then
      if isDirOrSubdir root_dir key then
        if fn (key, e) then deleteIfFrom root_dir fn map
        else (key, e) :: deleteIfFrom root_dir fn map
      else (key, e) :: deleteIfFrom root_dir fn map
    else (key, e) :: map

/-- `forEachDirAndSubdirsDeleteIf`. -/
def forEachDirAndSubdirsDeleteIf (root_dir : Bytes) (fn : Bytes × β → Bool)
    (map : List (Bytes × β)) : List (Bytes × β) :=
  map.takeWhile (isBefore root_dir) ++ deleteIfFrom root_dir fn (lowerBound root_dir map)

theorem isBefore_iff {root_dir : Bytes} {kv : Bytes × β} :
    isBefore root_dir kv = true ↔ compare kv.1 root_dir = .lt := decide_eq_true_iff

/-- The loop deletes every entry it comes across when a node is dropped. -/
theorem deleteDirAndSubdirs_eq (root_dir : Bytes) (snapshot : ShvSnapshot) :
    snapshot.deleteDirAndSubdirs root_dir =
      forEachDirAndSubdirsDeleteIf root_dir (fun _ => true) snapshot := by
  have hfrom : ∀ m : ShvSnapshot, ShvSnapshot.deleteFrom root_dir m =
      deleteIfFrom root_dir (fun _ => true) m := by
    intro m
    induction m with
    | nil => rfl
    | cons kv m ih =>
      obtain ⟨key, e⟩ := kv
      rw [ShvSnapshot.deleteFrom, deleteIfFrom, ih, if_pos rfl]
      exact if_congr Iff.rfl (if_congr decide_eq_true_iff.symm rfl rfl) rfl
  induction snapshot with
  | nil => rfl
  | cons kv m ih =>
    obtain ⟨key, e⟩ := kv
    rw [ShvSnapshot.deleteDirAndSubdirs, forEachDirAndSubdirsDeleteIf, lowerBound]
    by_cases hkey : compare key root_dir = .lt
    · rw [if_pos hkey, ih, List.takeWhile_cons_of_pos (isBefore_iff.2 hkey),
        List.dropWhile_cons_of_pos (isBefore_iff.2 hkey)]
      rfl
    · rw [if_neg hkey, hfrom, List.takeWhile_cons_of_neg (mt isBefore_iff.1 hkey),
        List.dropWhile_cons_of_neg (mt isBefore_iff.1 hkey), List.nil_append]

/-! ## the keys below a directory stand together -/

/-- A key that both loops treat as below the directory. -/
def below (root_dir key : Bytes) : Bool := root_dir.isPrefixOf key && isDirOrSubdir root_dir key

theorem not_lt_of_below {root_dir key : Bytes} (h : root_dir.isPrefixOf key = true) :
    ¬ compare key root_dir = .lt :=
  not_lt_of_isPrefix (List.isPrefixOf_iff_prefix.mp h)

/-- Behind a key that is not before the directory and does not start with it no key does. -/
theorem isPrefixOf_eq_false_of_mem {root_dir : Bytes} {kv : Bytes × β} {map : List (Bytes × β)}
    (hsorted : SortedMap.Sorted (kv :: map)) (hdir : ¬ compare kv.1 root_dir = .lt)
    (h : ¬ root_dir.isPrefixOf kv.1 = true) :
    ∀ x ∈ map, root_dir.isPrefixOf x.1 = false := by
  intro x hx
  refine Bool.eq_false_iff.2 fun hpre => h ?_
  exact List.isPrefixOf_iff_prefix.mpr (isPrefix_of_between hdir
    ((SortedMap.sorted_cons.mp hsorted).1 x hx) (List.isPrefixOf_iff_prefix.mp hpre))

theorem forEachFrom_eq {root_dir : Bytes} {map : List (Bytes × β)}
    (hsorted : SortedMap.Sorted map) (hdir : ∀ kv ∈ map, ¬ compare kv.1 root_dir = .lt) :
    forEachFrom root_dir map = map.filter fun kv => below root_dir kv.1 := by
  induction map with
  | nil => rfl
  | cons kv map ih =>
    obtain ⟨key, e⟩ := kv
    obtain ⟨hkey, hrest⟩ := List.forall_mem_cons.1 hdir
    have ih' := ih hsorted.tail hrest
    rw [forEachFrom]
    by_cases hpre : root_dir.isPrefixOf key = true
    · rw [if_pos hpre, ih', List.filter_cons, below, hpre, Bool.true_and]
    · rw [if_neg hpre]
      refine (List.filter_eq_nil_iff.2 fun x hx => ?_).symm
      rcases List.mem_cons.1 hx with rfl | hx
      · rw [below, Bool.eq_false_iff.2 hpre]
        exact Bool.false_ne_true
      · rw [below, isPrefixOf_eq_false_of_mem hsorted hkey hpre x hx]
        exact Bool.false_ne_true

theorem deleteIfFrom_eq {root_dir : Bytes} (fn : Bytes × β → Bool) {map : List (Bytes × β)}
    (hsorted : SortedMap.Sorted map) (hdir : ∀ kv ∈ map, ¬ compare kv.1 root_dir = .lt) :
    deleteIfFrom root_dir fn map = map.filter fun kv => !(below root_dir kv.1 && fn kv) := by
  induction map with
  | nil => rfl
  | cons kv map ih =>
    obtain ⟨key, e⟩ := kv
    obtain ⟨hkey, hrest⟩ := List.forall_mem_cons.1 hdir
    have ih' := ih hsorted.tail hrest
    rw [deleteIfFrom]
    by_cases hpre : root_dir.isPrefixOf key = true
    · rw [if_pos hpre, ih', List.filter_cons, below, hpre, Bool.true_and]
      cases isDirOrSubdir root_dir key <;> cases fn (key, e) <;> rfl
    · rw [if_neg hpre]
      refine (List.filter_eq_self.2 fun x hx => ?_).symm
      rcases List.mem_cons.1 hx with rfl | hx
      · rw [below, Bool.eq_false_iff.2 hpre]
        rfl
      · rw [below, isPrefixOf_eq_false_of_mem hsorted hkey hpre x hx]
        rfl

/-- From the lower bound on no key is before the directory. -/
theorem not_lt_of_mem_lowerBound {root_dir : Bytes} {map : List (Bytes × β)}
    (hsorted : SortedMap.Sorted map) :
    ∀ kv ∈ lowerBound root_dir map, ¬ compare kv.1 root_dir = .lt := by
  induction map with
  | nil => exact fun kv h => absurd h List.not_mem_nil
  | cons x map ih =>
    rw [lowerBound]
    by_cases hx : compare x.1 root_dir = .lt
    · rw [List.dropWhile_cons_of_pos (isBefore_iff.2 hx)]
      exact ih hsorted.tail
    · rw [List.dropWhile_cons_of_neg (mt isBefore_iff.1 hx)]
      intro kv hkv hlt
      rcases List.mem_cons.1 hkv with rfl | hkv
      · exact hx hlt
      · exact hx (Std.TransCmp.lt_trans ((SortedMap.sorted_cons.mp hsorted).1 kv hkv) hlt)

theorem sorted_lowerBound (root_dir : Bytes) {map : List (Bytes × β)}
    (hsorted : SortedMap.Sorted map) : SortedMap.Sorted (lowerBound root_dir map) :=
  List.Pairwise.sublist (List.dropWhile_sublist _) hsorted

theorem below_eq_false_of_mem_takeWhile {root_dir : Bytes} {map : List (Bytes × β)}
    {kv : Bytes × β} (hkv : kv ∈ map.takeWhile (isBefore root_dir)) :
    below root_dir kv.1 = false := by
  refine Bool.eq_false_iff.2 fun h => ?_
  exact not_lt_of_below (Bool.and_eq_true_iff.1 h).1
    (isBefore_iff.1 (List.all_eq_true.1 List.all_takeWhile kv hkv))

/-- The keys before the lower bound are none that the loops are about. -/
theorem takeWhile_append_lowerBound (root_dir : Bytes) (map : List (Bytes × β)) :
    map.takeWhile (isBefore root_dir) ++ lowerBound root_dir map = map :=
  List.takeWhile_append_dropWhile

theorem forEachDirAndSubdirs_eq (root_dir : Bytes) {map : List (Bytes × β)}
    (hsorted : SortedMap.Sorted map) :
    forEachDirAndSubdirs root_dir map = map.filter fun kv => below root_dir kv.1 := by
  have hnone : (map.takeWhile (isBefore root_dir)).filter (fun kv => below root_dir kv.1) = [] :=
    List.filter_eq_nil_iff.2 fun kv hkv =>
      Bool.eq_false_iff.1 (below_eq_false_of_mem_takeWhile hkv)
  calc forEachDirAndSubdirs root_dir map
      = (lowerBound root_dir map).filter fun kv => below root_dir kv.1 :=
        forEachFrom_eq (sorted_lowerBound root_dir hsorted) (not_lt_of_mem_lowerBound hsorted)
    _ = (map.takeWhile (isBefore root_dir) ++ lowerBound root_dir map).filter
          fun kv => below root_dir kv.1 := by
        rw [List.filter_append, hnone, List.nil_append]
    _ = map.filter fun kv => below root_dir kv.1 := by rw [takeWhile_append_lowerBound]

theorem forEachDirAndSubdirsDeleteIf_eq (root_dir : Bytes) (fn : Bytes × β → Bool)
    {map : List (Bytes × β)} (hsorted : SortedMap.Sorted map) :
    forEachDirAndSubdirsDeleteIf root_dir fn map =
      map.filter fun kv => !(below root_dir kv.1 && fn kv) := by
  have hall : (map.takeWhile (isBefore root_dir)).filter
      (fun kv => !(below root_dir kv.1 && fn kv)) = map.takeWhile (isBefore root_dir) :=
    List.filter_eq_self.2 fun kv hkv => by
      rw [below_eq_false_of_mem_takeWhile hkv]
      rfl
  calc forEachDirAndSubdirsDeleteIf root_dir fn map
      = map.takeWhile (isBefore root_dir) ++ (lowerBound root_dir map).filter
          fun kv => !(below root_dir kv.1 && fn kv) :=
        congrArg _ (deleteIfFrom_eq fn (sorted_lowerBound root_dir hsorted)
          (not_lt_of_mem_lowerBound hsorted))
    _ = (map.takeWhile (isBefore root_dir) ++ lowerBound root_dir map).filter
          fun kv => !(below root_dir kv.1 && fn kv) := by
        rw [List.filter_append, hall]
    _ = map.filter fun kv => !(below root_dir kv.1 && fn kv) := by
        rw [takeWhile_append_lowerBound]

/-! ## the keys that start with the path -/

/-- `startsWithPath` also takes a root that is empty, or that ends with a slash. -/
theorem startsWithPath_iff (root_dir key : Bytes) :
    startsWithPath key root_dir = true ↔ below root_dir key = true ∨
      (root_dir = [] ∨ root_dir.getLast? = some SHV_PATH_DELIM) ∧
        root_dir.isPrefixOf key = true := by
  rw [startsWithPath, below, Bool.and_eq_true, isDirOrSubdir, decide_eq_true_iff]
  by_cases hnil : root_dir = []
  · subst hnil
    simp
  · rw [if_neg hnil]
    by_cases hpre : root_dir.isPrefixOf key = true
    · rw [if_pos hpre, decide_eq_true_iff]
      tauto
    · rw [if_neg hpre]
      tauto

/-- The two functions treat exactly the keys with `startsWithPath`, if and only if a root that is
empty or ends with a slash has below it only keys that are the root or go on with a slash. -/
theorem forEachDir_startsWithPath_iff (root_dir : Bytes) (map : List (Bytes × β))
    (hsorted : SortedMap.Sorted map) :
    (forEachDirAndSubdirs root_dir map = map.filter (fun kv => startsWithPath kv.1 root_dir) ∧
      ∀ fn, forEachDirAndSubdirsDeleteIf root_dir fn map =
        map.filter fun kv => !(startsWithPath kv.1 root_dir && fn kv)) ↔
    (root_dir = [] ∨ root_dir.getLast? = some SHV_PATH_DELIM →
      ∀ kv ∈ map, root_dir.isPrefixOf kv.1 = true →
        kv.1.length = root_dir.length ∨ kv.1[root_dir.length]? = some SHV_PATH_DELIM) := by
  constructor
  · rintro ⟨hvisit, -⟩ hroot kv hkv hpre
    have hmem : kv ∈ map.filter fun kv => startsWithPath kv.1 root_dir :=
      List.mem_filter.2 ⟨hkv, (startsWithPath_iff root_dir kv.1).2 (Or.inr ⟨hroot, hpre⟩)⟩
    rw [← hvisit, forEachDirAndSubdirs_eq root_dir hsorted, List.mem_filter, below,
      Bool.and_eq_true, isDirOrSubdir, decide_eq_true_iff] at hmem
    exact hmem.2.2
  · intro h
    have heq : ∀ kv ∈ map, below root_dir kv.1 = startsWithPath kv.1 root_dir := fun kv hkv => by
      rw [Bool.eq_iff_iff, startsWithPath_iff]
      refine ⟨Or.inl, ?_⟩
      rintro (hbelow | ⟨hroot, hpre⟩)
      · exact hbelow
      · exact Bool.and_eq_true_iff.2 ⟨hpre, decide_eq_true (h hroot kv hkv hpre)⟩
    refine ⟨?_, fun fn => ?_⟩
    · rw [forEachDirAndSubdirs_eq root_dir hsorted]
      exact List.filter_congr heq
    · rw [forEachDirAndSubdirsDeleteIf_eq root_dir fn hsorted]
      exact List.filter_congr fun kv hkv => by rw [heq kv hkv]

/-- A root without a slash behind it. -/
theorem forEachDir_startsWithPath_plain :
    forEachDirAndSubdirs (ascii "a") [(ascii "a", 1), (ascii "a-b", 2), (ascii "a/b", 3)] =
      [(ascii "a", 1), (ascii "a-b", 2), (ascii "a/b", 3)].filter
        fun kv => startsWithPath kv.1 (ascii "a") :=
  ((forEachDir_startsWithPath_iff (ascii "a")
    [(ascii "a", 1), (ascii "a-b", 2), (ascii "a/b", 3)] (by decide)).2
    fun h => absurd h (by decide)).1

/-- With a slash behind the root the keys below it are passed over. -/
theorem forEachDir_trailing_slash :
    SortedMap.Sorted [(ascii "a/b", 1)] ∧ startsWithPath (ascii "a/b") (ascii "a/") = true ∧
      forEachDirAndSubdirs (ascii "a/") [(ascii "a/b", 1)] = [] ∧
      startsWithPath (ascii "a/b") [] = true ∧
      forEachDirAndSubdirs [] [(ascii "a/b", 1)] = [] := by decide

end ShvPath

end LibShv
