import LibShv.GetLog
import Mathlib.Data.List.Forall2

/-!
# LibShv.GetLog.Rows

The rows of a log as they are read back. With a dictionary of paths the path of
a row is a number; the numbers are given out in the order in which the paths
come up, and the dictionary turns every one of them back into its path.
-/

namespace LibShv.GetLog

/-! ## numbered paths -/

/-- The number of a path as a value. -/
def pathNumber (i : Nat) : RpcValue := .ofInt32 (Int32.ofNat i)

/-- The paths with their numbers. -/
def numbered (paths : List Bytes) : RpcMap := paths.mapIdx fun i p => (p, pathNumber i)

/-- The cache holds the paths, in the order of the keys. -/
structure IsPathCache (paths : List Bytes) (cache : RpcMap) : Prop where
  nodup : paths.Nodup
  perm : cache.Perm (numbered paths)

theorem isPathCache_nil : IsPathCache [] [] := ⟨List.nodup_nil, List.Perm.refl _⟩

theorem mem_numbered {paths : List Bytes} {kv : Bytes × RpcValue} :
    kv ∈ numbered paths ↔ ∃ i, ∃ h : i < paths.length, kv = (paths[i], pathNumber i) := by
  rw [numbered, List.mem_mapIdx]
  constructor
  · rintro ⟨i, h, rfl⟩
    exact ⟨i, h, rfl⟩
  · rintro ⟨i, h, rfl⟩
    exact ⟨i, h, rfl⟩

theorem keys_numbered (paths : List Bytes) : (numbered paths).map (·.1) = paths := by
  exact List.ext_getElem (by simp [numbered]) (by simp [numbered])

theorem numbered_append (paths : List Bytes) (p : Bytes) :
    numbered (paths ++ [p]) = numbered paths ++ [(p, pathNumber paths.length)] := by
  simp [numbered, List.mapIdx_append]

namespace IsPathCache

variable {paths : List Bytes} {cache : RpcMap}

theorem keys_nodup (h : IsPathCache paths cache) : (cache.map (·.1)).Nodup := by
  rw [(h.perm.map (·.1)).nodup_iff, keys_numbered]
  exact h.nodup

theorem length_eq (h : IsPathCache paths cache) : cache.length = paths.length := by
  rw [h.perm.length_eq, ← List.length_map (·.1), keys_numbered]

/-- Asking for the number of a path keeps the numbers given out before. -/
theorem asSharedPath (h : IsPathCache paths cache) (p : Bytes) :
    ∃ more, IsPathCache (paths ++ more) (asSharedPath cache p).2 ∧ p ∈ paths ++ more ∧
      (GetLog.asSharedPath cache p).1 = pathNumber ((paths ++ more).idxOf p) ∧
      more.length ≤ 1 := by
  rw [GetLog.asSharedPath]
  cases hf : SortedMap.find? p cache with
  | some v =>
    obtain ⟨i, hi, hkv⟩ := mem_numbered.mp (h.perm.mem_iff.mp (SortedMap.mem_of_find? hf))
    obtain ⟨rfl, hv⟩ := Prod.mk.inj hkv
    refine ⟨[], by simpa using h, by simp, ?_, by simp⟩
    rw [List.append_nil, h.nodup.idxOf_getElem]
    exact hv
  | none =>
    have hmem : p ∉ paths := by
      intro hp
      rw [← keys_numbered paths, ← (h.perm.map (·.1)).mem_iff] at hp
      obtain ⟨kv, hkv, rfl⟩ := List.mem_map.mp hp
      have := SortedMap.find?_of_mem h.keys_nodup hkv
      rw [hf] at this
      contradiction
    refine ⟨[p], ⟨?_, ?_⟩, by simp, ?_, by simp⟩
    · rw [List.nodup_append]
      refine ⟨h.nodup, by simp, ?_⟩
      rintro a ha b hb rfl
      exact hmem (by simpa using (List.mem_singleton.mp hb) ▸ ha)
    · rw [numbered_append]
      refine (SortedMap.insert_perm _ hf).trans ?_
      rw [h.length_eq]
      exact (h.perm.cons _).trans (List.perm_append_singleton _ _).symm
    · rw [h.length_eq, List.idxOf_append, if_neg hmem]
      simp [pathNumber]

/-! ### the dictionary -/

theorem ofNat_inj {i j : Nat} (hi : i < 2 ^ 31) (hj : j < 2 ^ 31)
    (h : Int32.ofNat i = Int32.ofNat j) : i = j := by
  have := congrArg Int32.toInt h
  rw [Int32.toInt_ofNat_of_lt hi, Int32.toInt_ofNat_of_lt hj] at this
  exact Int.ofNat.inj this

/-- The number in a value of the cache. -/
def numberOf (v : RpcValue) : Int32 :=
  match v.value with
  | .int n => n.toInt32
  | _ => 0

theorem numberOf_pathNumber (i : Nat) : numberOf (pathNumber i) = Int32.ofNat i :=
  Int32.toInt32_toInt64 _

theorem pathDict_eq (h : IsPathCache paths cache) :
    pathDict cache = .ok (cache.foldl (fun dict kv =>
      SortedMap.insert (numberOf kv.2) (.ofVariant (.string kv.1)) dict) []) := by
  have hfold : ∀ (m : RpcMap) (dict : RpcIMap), (∀ kv ∈ m, ∃ i, kv.2 = pathNumber i) →
      m.foldlM (fun dict kv => do
        return SortedMap.insert (← kv.2.toInt) (.ofVariant (.string kv.1)) dict) dict =
        (.ok (m.foldl (fun dict kv =>
          SortedMap.insert (numberOf kv.2) (.ofVariant (.string kv.1)) dict) dict) :
          Except String RpcIMap) := by
    intro m
    induction m with
    | nil => exact fun _ _ => rfl
    | cons kv m ih =>
      intro dict hm
      obtain ⟨i, hi⟩ := hm kv List.mem_cons_self
      rw [List.foldlM_cons, List.foldl_cons, hi, numberOf_pathNumber, pathNumber,
        RpcValue.toInt_ofInt32]
      exact ih _ fun kv' hkv' => hm kv' (List.mem_cons_of_mem _ hkv')
  refine hfold cache [] fun kv hkv => ?_
  obtain ⟨i, -, rfl⟩ := mem_numbered.mp (h.perm.mem_iff.mp hkv)
  exact ⟨i, rfl⟩

theorem unmapPath_of_find? {dict : RpcIMap} {n : Int32} {p : Bytes}
    (h : SortedMap.find? n dict = some (.ofVariant (.string p))) :
    unmapPath true dict (.ofInt32 n) = .ok p := by
  simp only [unmapPath, if_true, RpcValue.toInt_ofInt32, bind, Except.bind, h]
  rfl

/-- The dictionary gives back the path of every number. -/
theorem unmapPath_pathNumber (h : IsPathCache paths cache) (hlen : paths.length < 2 ^ 31)
    {dict : RpcIMap} (hdict : pathDict cache = .ok dict) {i : Nat} {p : Bytes}
    (hi : paths[i]? = some p) : unmapPath true dict (pathNumber i) = .ok p := by
  obtain ⟨hlt, hp⟩ := List.getElem?_eq_some_iff.mp hi
  rw [h.pathDict_eq] at hdict
  obtain rfl := Except.ok.inj hdict
  have hmem : (p, pathNumber i) ∈ cache :=
    h.perm.mem_iff.mpr (mem_numbered.mpr ⟨i, hlt, by rw [hp]⟩)
  have hinj : ∀ kv ∈ cache, numberOf kv.2 = numberOf (pathNumber i) → kv = (p, pathNumber i) := by
    -- the numbers are too small to fall together as integers of 32 bits
    intro kv hkv heq
    obtain ⟨j, hj, rfl⟩ := mem_numbered.mp (h.perm.mem_iff.mp hkv)
    rw [numberOf_pathNumber, numberOf_pathNumber] at heq
    obtain rfl : j = i := ofNat_inj (Nat.lt_trans hj hlen) (Nat.lt_trans hlt hlen) heq
    rw [hp]
  have hfind := SortedMap.find?_foldl_insert_of_mem (fun kv => numberOf kv.2)
    (fun kv : Bytes × RpcValue => RpcValue.ofVariant (.string kv.1)) hmem
    (fun kv hkv heq => by rw [hinj kv hkv heq]) ([] : RpcIMap)
  rw [numberOf_pathNumber] at hfind
  exact unmapPath_of_find? hfind

end IsPathCache

/-! ## rows -/

/-- The row of an entry, when the paths are numbered as given. -/
def rowIn (withPathsDict : Bool) (paths : List Bytes) (e : ShvJournalEntry) : RpcValue :=
  .ofVariant (.list (e.toRpcValueList
    (if withPathsDict then pathNumber (paths.idxOf e.path) else .ofVariant (.string e.path))))

theorem rowIn_append {withPathsDict : Bool} {paths : List Bytes} {e : ShvJournalEntry}
    (h : withPathsDict = true → e.path ∈ paths) (more : List Bytes) :
    rowIn withPathsDict (paths ++ more) e = rowIn withPathsDict paths e := by
  cases withPathsDict with
  | false => simp only [rowIn, Bool.false_eq_true, if_false]
  | true => simp only [rowIn, List.idxOf_append, if_pos (h rfl)]

/-- The paths of the rows are numbered behind the paths that are known. -/
theorem logRows_eq (withPathsDict : Bool) (es : List ShvJournalEntry) {paths : List Bytes}
    {cache : RpcMap} (h : IsPathCache paths cache) :
    ∃ more, IsPathCache (paths ++ more) (logRows withPathsDict cache es).2 ∧
      (withPathsDict = true → ∀ e ∈ es, e.path ∈ paths ++ more) ∧
      (logRows withPathsDict cache es).1 = es.map (rowIn withPathsDict (paths ++ more)) ∧
      more.length ≤ es.length := by
  induction es generalizing paths cache with
  | nil => exact ⟨[], by simpa [logRows] using h, by simp, rfl, by simp⟩
  | cons e es ih =>
    cases withPathsDict with
    | false =>
      obtain ⟨more, hcache, -, hrows, hlen⟩ := ih h
      refine ⟨more, hcache, by simp, ?_, by simp; omega⟩
      rw [logRows, List.map_cons, ← hrows]
      rfl
    | true =>
      obtain ⟨more, hcache, hmem, hnum, hone⟩ := h.asSharedPath e.path
      obtain ⟨more', hcache', hmem', hrows, hlen⟩ := ih hcache
      rw [List.append_assoc] at hcache' hmem' hrows
      have hpath : e.path ∈ paths ++ (more ++ more') := by
        rw [← List.append_assoc]
        exact List.mem_append_left _ hmem
      refine ⟨more ++ more', hcache', fun _ e' he' => ?_, ?_, ?_⟩
      · rcases List.mem_cons.mp he' with rfl | he'
        · exact hpath
        · exact hmem' rfl e' he'
      · have hrow : (logRow true cache e).1 = rowIn true (paths ++ (more ++ more')) e := by
          rw [← List.append_assoc, rowIn_append (fun _ => hmem), rowIn, if_pos rfl, ← hnum]
          rfl
        rw [logRows, List.map_cons, hrow]
        exact congrArg _ hrows
      · rw [List.length_append, List.length_cons]
        omega

/-- An entry as it is read back from its row. -/
def readBack (e : ShvJournalEntry) : ShvJournalEntry :=
  if e.path = [] then .empty
  else { e with
    epochMsec := e.dateTime.msecsSinceEpoch
    shortTime := if 0 ≤ e.shortTime then e.shortTime else ShvJournalEntry.NO_SHORT_TIME
    domain := if e.domain = [] ∨ e.domain = ascii "C" then ShvJournalEntry.DOMAIN_VAL_CHANGE
      else e.domain }

theorem shortTimeOf_orNull (n : Int32) :
    ShvJournalEntry.shortTimeOf (ShvJournalEntry.orNull (n = ShvJournalEntry.NO_SHORT_TIME)
      (.int n.toInt64)) = if 0 ≤ n then n else ShvJournalEntry.NO_SHORT_TIME := by
  by_cases hn : n = ShvJournalEntry.NO_SHORT_TIME
  · subst hn
    decide
  · rw [ShvJournalEntry.orNull, decide_eq_false hn]
    simp only [Bool.false_eq_true, if_false, ShvJournalEntry.shortTimeOf, RpcValue.ofVariant]
    rw [RpcValue.value]
    simp

theorem asString_orNull (b : Bool) (s : Bytes) :
    (ShvJournalEntry.orNull b (.string s)).asString = if b then [] else s := by
  cases b <;> rfl

theorem toInt64_uint (n : UInt64) : (RpcValue.ofVariant (.uint n)).toInt64 = .ok n.toInt64 := rfl

/-- The domain of a change of value is left out of the row. -/
theorem domain_orNull (d : Bytes) :
    (let s := (ShvJournalEntry.orNull (d = [] ∨ d = ShvJournalEntry.DOMAIN_VAL_CHANGE)
        (.string d)).asString
      if s = [] ∨ s = ascii "C" then ShvJournalEntry.DOMAIN_VAL_CHANGE else s) =
      if d = [] ∨ d = ascii "C" then ShvJournalEntry.DOMAIN_VAL_CHANGE else d := by
  simp only [asString_orNull, decide_eq_true_eq]
  by_cases hd : d = [] ∨ d = ShvJournalEntry.DOMAIN_VAL_CHANGE
  · rw [if_pos hd, if_pos (Or.inl rfl)]
    rcases hd with rfl | rfl
    · rfl
    · rw [ite_self]
  · rw [if_neg hd]

theorem userId_orNull (u : Bytes) :
    (ShvJournalEntry.orNull (u = []) (.string u)).asString = u := by
  rw [asString_orNull]
  by_cases hu : u = []
  · rw [hu, if_pos (by simp)]
  · rw [if_neg (by simpa using hu)]

/-- The entry is read back from its columns, when its path is. -/
theorem fromRpcValueList_toRpcValueList {e : ShvJournalEntry} {path : RpcValue}
    {unmap_path : RpcValue → Except String Bytes} (hpath : unmap_path path = .ok e.path) :
    ShvJournalEntry.fromRpcValueList (e.toRpcValueList path) unmap_path = .ok (readBack e) := by
  have hflags : e.valueFlags.toUInt64.toInt64.toUInt64.toUInt32 = e.valueFlags := by simp
  simp only [RpcValue.value_ofVariant, ShvJournalEntry.fromRpcValueList,
    ShvJournalEntry.toRpcValueList, RpcList.value, ShvJournalEntry.Timestamp,
    ShvJournalEntry.Path, ShvJournalEntry.Value, ShvJournalEntry.ShortTime,
    ShvJournalEntry.Domain, ShvJournalEntry.ValueFlags, ShvJournalEntry.UserId,
    List.getElem?_cons_zero, List.getElem?_cons_succ, Option.getD_some, hpath, bind, Except.bind,
    shortTimeOf_orNull, userId_orNull, toInt64_uint, pure, Except.pure, hflags]
  rw [readBack]
  by_cases hp : e.path = []
  · rw [if_pos hp, if_pos hp]
  · rw [if_neg hp, if_neg hp, ← domain_orNull]
    rfl

/-- The entry is read back from its row. -/
theorem rowEntry_rowIn {withPathsDict : Bool} {paths : List Bytes} {dict : RpcIMap}
    {e : ShvJournalEntry}
    (hpath : unmapPath withPathsDict dict (if withPathsDict then pathNumber (paths.idxOf e.path)
      else .ofVariant (.string e.path)) = .ok e.path) :
    rowEntry withPathsDict dict (rowIn withPathsDict paths e) = .ok (readBack e) :=
  fromRpcValueList_toRpcValueList hpath

/-! ## dictionaries -/

/-- Under the dictionary the numbered paths of the entries are read back. -/
def ReadsPaths (withPathsDict : Bool) (dict : RpcIMap) (paths : List Bytes)
    (es : List ShvJournalEntry) : Prop :=
  ∀ e ∈ es, unmapPath withPathsDict dict (if withPathsDict then pathNumber (paths.idxOf e.path)
    else .ofVariant (.string e.path)) = .ok e.path

theorem ReadsPaths.rowEntry {withPathsDict : Bool} {dict : RpcIMap} {paths : List Bytes}
    {es : List ShvJournalEntry} (h : ReadsPaths withPathsDict dict paths es)
    {e : ShvJournalEntry} (he : e ∈ es) :
    rowEntry withPathsDict dict (rowIn withPathsDict paths e) = .ok (readBack e) :=
  rowEntry_rowIn (h e he)

/-- The rows of the log and those of the snapshot after them, and the dictionary made then. -/
theorem exists_rows (withPathsDict : Bool) (es es' : List ShvJournalEntry)
    (hlen : es.length + es'.length < 2 ^ 31) :
    ∃ paths dict,
      headerPathDict withPathsDict (logRows withPathsDict (logRows withPathsDict [] es).2 es').2 =
        .ok dict ∧
      (logRows withPathsDict [] es).1 = es.map (rowIn withPathsDict paths) ∧
      (logRows withPathsDict (logRows withPathsDict [] es).2 es').1 =
        es'.map (rowIn withPathsDict paths) ∧
      ReadsPaths withPathsDict dict paths (es ++ es') := by
  obtain ⟨paths, hcache, hmem, hrows, hle⟩ := logRows_eq withPathsDict es isPathCache_nil
  rw [List.nil_append] at hcache hmem hrows
  obtain ⟨more, hcache', hmem', hrows', hle'⟩ := logRows_eq withPathsDict es' hcache
  have hrows_more : (logRows withPathsDict [] es).1 =
      es.map (rowIn withPathsDict (paths ++ more)) := by
    rw [hrows]
    exact List.map_congr_left fun e he => (rowIn_append (fun hd => hmem hd e he) more).symm
  cases withPathsDict with
  | false => exact ⟨paths ++ more, [], rfl, hrows_more, hrows', fun e _ => rfl⟩
  | true =>
    refine ⟨paths ++ more, _, hcache'.pathDict_eq, hrows_more, hrows', fun e he => ?_⟩
    have hin : e.path ∈ paths ++ more := by
      rcases List.mem_append.mp he with he | he
      · exact List.mem_append_left _ (hmem rfl e he)
      · exact hmem' rfl e he
    refine hcache'.unmapPath_pathNumber ?_ hcache'.pathDict_eq ?_
    · rw [List.length_append]
      exact Nat.lt_of_le_of_lt (Nat.add_le_add hle hle') hlen
    · rw [List.getElem?_eq_getElem (List.idxOf_lt_length_of_mem hin), List.getElem_idxOf]

/-- The rows of a result are those of the entries, and the paths are read back. -/
def HasRows (params : ShvGetLogParams) (r : GetLogResult) (snapshot log : List ShvJournalEntry) :
    Prop :=
  ∃ paths, r.snapshotEntries = snapshot.map (rowIn params.withPathsDict paths) ∧
    r.logEntries = log.map (rowIn params.withPathsDict paths) ∧
    ReadsPaths params.withPathsDict r.header.pathDict paths (log ++ snapshot)

/-- A row of a log that stands for an entry: its columns are those of the entry, and its
path is read back under the dictionary. -/
def IsRow (withPathsDict : Bool) (dict : RpcIMap) (row : RpcValue) (e : ShvJournalEntry) : Prop :=
  ∃ path, unmapPath withPathsDict dict path = .ok e.path ∧
    row = .ofVariant (.list (e.toRpcValueList path))

theorem ReadsPaths.isRow {withPathsDict : Bool} {dict : RpcIMap} {paths : List Bytes}
    {es es' : List ShvJournalEntry} (h : ReadsPaths withPathsDict dict paths es)
    (hsub : ∀ e ∈ es', e ∈ es) :
    List.Forall₂ (IsRow withPathsDict dict) (es'.map (rowIn withPathsDict paths)) es' := by
  rw [List.forall₂_map_left_iff, List.forall₂_same]
  exact fun e he => ⟨_, h e (hsub e he), rfl⟩

end LibShv.GetLog
