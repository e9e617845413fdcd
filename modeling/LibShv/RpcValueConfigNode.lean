import LibShv.RpcValue.As
import LibShv.RpcValue.Compare

/-!
# LibShv.RpcValueConfigNode

The configuration of a node (`shvnode.cpp`): what differs from a template is
saved (`diffMaps`), and what was saved is put over the template when it is loaded
(`mergeMaps`).

What is loaded is what was saved just if nothing that the difference leaves out
is lost: a part of the values that is the template's in the eyes of `operator==`
has to be the template's in every respect.
-/

namespace LibShv.RpcValueConfigNode

/-! ## merging and comparing -/

mutual

/-- `mergeMaps`. -/
def mergeMaps (template_val : RpcValue) : RpcValue → RpcValue
  | .mk md (.map user_map) =>
    match template_val.value with
    | .map template_map => .ofVariant (.map (mergeEntries template_map user_map))
    | _ => .mk md (.map user_map)
  | user_val => user_val

/-- The loop over the entries of `user_map`; a key that the template does not have
is skipped with a warning. -/
def mergeEntries (map : RpcMap) : RpcMap → RpcMap
  | [] => map
  | (key, val) :: user_map =>
    if (SortedMap.find? key map).isSome then
      mergeEntries (SortedMap.insert key (mergeMaps (map.valueOr key .invalid) val) map) user_map
    else mergeEntries map user_map

end

mutual

/-- `diffMaps`: an invalid value if nothing differs. -/
def diffMaps : RpcValue → RpcValue → RpcValue
  | .mk md (.map templ_map), vals =>
    match vals.value with
    | .map vals_map =>
      let map := diffEntries [] templ_map vals_map
      if map.isEmpty then .invalid else .ofVariant (.map map)
    | _ => if (RpcValue.mk md (.map templ_map)).eq vals then .invalid else vals
  | template_vals, vals => if template_vals.eq vals then .invalid else vals

/-- The loop over the entries of `templ_map`. -/
def diffEntries (map : RpcMap) : RpcMap → RpcMap → RpcMap
  | [], _ => map
  | (key, val) :: templ_map, vals_map =>
    let v := diffMaps val (vals_map.valueOr key .invalid)
    diffEntries (if v.isValid then SortedMap.insert key v map else map) templ_map vals_map

end

/-- The values that are loaded with the template after some values were saved; an
invalid difference stands for an empty map. -/
def loadSaved (template_vals vals : RpcValue) : RpcValue :=
  let saved := diffMaps template_vals vals
  mergeMaps template_vals (if saved.isValid then saved else .ofVariant (.map []))

/-! ## a template and values beside each other -/

mutual

/-- `L` holds where one of the two is no map, `M` where both are, down along the keys
of the template. -/
def Along (L M : RpcValue → RpcValue → Prop) : RpcValue → RpcValue → Prop
  | .mk md (.map templ_map), vals =>
    if vals.isMap then M (.mk md (.map templ_map)) vals ∧ AlongEntries L M templ_map vals.asMap
    else L (.mk md (.map templ_map)) vals
  | template_vals, vals => L template_vals vals

def AlongEntries (L M : RpcValue → RpcValue → Prop) : RpcMap → RpcMap → Prop
  | [], _ => True
  | (key, val) :: templ_map, vals_map =>
    Along L M val (vals_map.valueOr key .invalid) ∧ AlongEntries L M templ_map vals_map

end

/-- The same keys at every level where both are maps. -/
def SameKeys : RpcValue → RpcValue → Prop :=
  Along (fun _ _ => True) fun t v => t.asMap.map (·.1) = v.asMap.map (·.1)

/-- Nothing differs in the eyes of the comparison, or the values are invalid there. -/
def Unchanged : RpcValue → RpcValue → Prop :=
  Along (fun t v => t.eq v = true ∨ v.isValid = false) fun _ _ => True

/-- What is unchanged is the template's in every respect, and maps in which
something differs have no metadata. -/
def Faithful : RpcValue → RpcValue → Prop :=
  Along (fun t v => Unchanged t v → t = v)
    fun t v => (Unchanged t v → t = v) ∧ (¬ Unchanged t v → v.metaData = .empty)

/-- `std::map`s have increasing keys. -/
abbrev Ordered (v : RpcValue) : Prop :=
  v.Each (fun x => ∀ m, x = .map m → SortedMap.Sorted m) fun _ => True

/-! ## maps and leaves -/

theorem isMap_iff {v : RpcValue} : v.isMap = true ↔ v = .mk v.metaData (.map v.asMap) := by
  obtain ⟨md, x⟩ := v
  cases x <;> simp [RpcValue.isMap, RpcValue.asMap]

theorem asMap_ofVariant (m : RpcMap) : (RpcValue.ofVariant (.map m)).asMap = m := rfl

/-- Induction along the entries of maps. -/
theorem map_induction {P : RpcValue → Prop} (h : ∀ v, (∀ e ∈ v.asMap, P e.2) → P v)
    (v : RpcValue) : P v := by
  refine h v fun e he => ?_
  have hlt : sizeOf e.2 < sizeOf v := by
    obtain ⟨md, x⟩ := v
    cases x with
    | map m =>
      have hmem := List.sizeOf_lt_of_mem (show e ∈ m from he)
      obtain ⟨k, w⟩ := e
      simp only [Prod.mk.sizeOf_spec, RpcValue.mk.sizeOf_spec, Variant.map.sizeOf_spec] at hmem ⊢
      omega
    | _ => exact absurd he List.not_mem_nil
  exact map_induction h e.2
termination_by sizeOf v

theorem mergeMaps_of_isMap {t v : RpcValue} (ht : t.isMap = true) (hv : v.isMap = true) :
    mergeMaps t v = .ofVariant (.map (mergeEntries t.asMap v.asMap)) := by
  rw [isMap_iff.mp ht, isMap_iff.mp hv, mergeMaps]
  rfl

theorem mergeMaps_of_not {t v : RpcValue} (h : ¬ (t.isMap = true ∧ v.isMap = true)) :
    mergeMaps t v = v := by
  obtain ⟨md, x⟩ := v
  obtain ⟨md', y⟩ := t
  cases x with
  | map m =>
    cases y with
    | map m' => exact absurd ⟨rfl, rfl⟩ h
    | _ =>
      rw [mergeMaps]
      simp
  | _ => rw [mergeMaps]; simp

theorem diffMaps_of_isMap {t v : RpcValue} (ht : t.isMap = true) (hv : v.isMap = true) :
    diffMaps t v = if (diffEntries [] t.asMap v.asMap).isEmpty then .invalid
      else .ofVariant (.map (diffEntries [] t.asMap v.asMap)) := by
  rw [isMap_iff.mp ht, isMap_iff.mp hv, diffMaps]
  rfl

theorem diffMaps_of_not {t v : RpcValue} (h : ¬ (t.isMap = true ∧ v.isMap = true)) :
    diffMaps t v = if t.eq v then .invalid else v := by
  obtain ⟨md, x⟩ := v
  obtain ⟨md', y⟩ := t
  cases y with
  | map m =>
    cases x with
    | map m' => exact absurd ⟨rfl, rfl⟩ h
    | _ => rw [diffMaps]; simp
  | _ => rw [diffMaps]; simp

section

variable {L M : RpcValue → RpcValue → Prop}

theorem alongEntries_iff {ts vm : RpcMap} :
    AlongEntries L M ts vm ↔ ∀ e ∈ ts, Along L M e.2 (vm.valueOr e.1 .invalid) := by
  induction ts with
  | nil => simp [AlongEntries]
  | cons e ts ih => simp [AlongEntries, ih]

theorem along_of_isMap {t v : RpcValue} (ht : t.isMap = true) (hv : v.isMap = true) :
    Along L M t v ↔ M t v ∧ ∀ e ∈ t.asMap, Along L M e.2 (v.asMap.valueOr e.1 .invalid) := by
  rw [← alongEntries_iff]
  conv_lhs => rw [isMap_iff.mp ht, Along, if_pos hv, ← isMap_iff.mp ht]

theorem along_of_not {t v : RpcValue} (h : ¬ (t.isMap = true ∧ v.isMap = true)) :
    Along L M t v ↔ L t v := by
  obtain ⟨md, y⟩ := t
  cases y with
  | map m =>
    have hv : ¬ v.isMap = true := fun hv => h ⟨rfl, hv⟩
    rw [Along, if_neg hv]
  | _ => rw [Along]; simp

end

/-! ## looking up entries -/

theorem sorted_asMap {v : RpcValue} (h : Ordered v) : SortedMap.Sorted v.asMap := by
  obtain ⟨md, x⟩ := v
  obtain ⟨-, -, hx, -⟩ := h
  cases x with
  | map m => exact hx m rfl
  | _ => exact SortedMap.sorted_nil

theorem ordered_entry {v : RpcValue} (h : Ordered v) {e : Bytes × RpcValue} (he : e ∈ v.asMap) :
    Ordered e.2 := by
  obtain ⟨md, x⟩ := v
  obtain ⟨-, -, -, hx⟩ := h
  cases x with
  | map m => exact eachMap_iff.mp hx e he
  | _ => exact absurd he List.not_mem_nil

theorem sorted_diffEntries (ts vm : RpcMap) {map : RpcMap} (h : SortedMap.Sorted map) :
    SortedMap.Sorted (diffEntries map ts vm) := by
  induction ts generalizing map with
  | nil => exact h
  | cons e ts ih =>
    rw [diffEntries]
    by_cases hv : (diffMaps e.2 (vm.valueOr e.1 .invalid)).isValid = true
    · rw [if_pos hv]
      exact ih (SortedMap.sorted_insert h)
    · rw [if_neg hv]
      exact ih h

/-- The difference has the keys under which something differs. -/
theorem find?_diffEntries {ts vm map : RpcMap} (hts : SortedMap.Sorted ts) (key : Bytes) :
    SortedMap.find? key (diffEntries map ts vm) =
      match SortedMap.find? key ts with
      | some t =>
        if (diffMaps t (vm.valueOr key .invalid)).isValid then
          some (diffMaps t (vm.valueOr key .invalid))
        else SortedMap.find? key map
      | none => SortedMap.find? key map := by
  induction ts generalizing map with
  | nil => rfl
  | cons e ts ih =>
    obtain ⟨key', val⟩ := e
    rw [diffEntries, ih hts.tail, SortedMap.find?]
    by_cases heq : compare key key' = .eq
    · obtain rfl := Std.LawfulEqOrd.eq_of_compare heq
      rw [SortedMap.find?_eq_none_of_lt (SortedMap.sorted_cons.mp hts).1, if_pos heq]
      by_cases hv : (diffMaps val (vm.valueOr key .invalid)).isValid = true
      · simp only [hv, if_true, SortedMap.find?_insert_self]
      · simp only [hv, if_false, Bool.false_eq_true]
    · have hne : key ≠ key' := fun h => heq (h ▸ Std.LawfulEqOrd.compare_eq_iff_eq.mpr rfl)
      have hmap : SortedMap.find? key (if (diffMaps val (vm.valueOr key' .invalid)).isValid = true
          then SortedMap.insert key' (diffMaps val (vm.valueOr key' .invalid)) map else map) =
            SortedMap.find? key map := by
        split
        · exact SortedMap.find?_insert_of_ne hne _ _
        · rfl
      rw [if_neg heq, hmap]

theorem sorted_mergeEntries (us : RpcMap) {map : RpcMap} (h : SortedMap.Sorted map) :
    SortedMap.Sorted (mergeEntries map us) := by
  induction us generalizing map with
  | nil => exact h
  | cons e us ih =>
    rw [mergeEntries]
    split
    · exact ih (SortedMap.sorted_insert h)
    · exact ih h

/-- The entries of the template, with what the user has under the same keys. -/
theorem find?_mergeEntries {us map : RpcMap} (hus : SortedMap.Sorted us) (key : Bytes) :
    SortedMap.find? key (mergeEntries map us) =
      (SortedMap.find? key map).map fun t =>
        match SortedMap.find? key us with
        | some u => mergeMaps t u
        | none => t := by
  induction us generalizing map with
  | nil =>
    rw [mergeEntries]
    exact Option.map_id'.symm
  | cons e us ih =>
    obtain ⟨key', val⟩ := e
    rw [mergeEntries, SortedMap.find?]
    by_cases heq : compare key key' = .eq
    · obtain rfl := Std.LawfulEqOrd.eq_of_compare heq
      have hnone := SortedMap.find?_eq_none_of_lt (SortedMap.sorted_cons.mp hus).1
      rw [if_pos heq]
      cases hfind : SortedMap.find? key map with
      | none =>
        rw [if_neg (by simp), ih hus.tail, hnone, hfind]
        rfl
      | some t =>
        have hvalue : map.valueOr key .invalid = t := by rw [RpcMap.valueOr, hfind, Option.getD_some]
        rw [if_pos (by simp), ih hus.tail, hnone, SortedMap.find?_insert_self, hvalue]
        rfl
    · have hne : key ≠ key' := fun h => heq (h ▸ Std.LawfulEqOrd.compare_eq_iff_eq.mpr rfl)
      rw [if_neg heq]
      split
      · rw [ih hus.tail, SortedMap.find?_insert_of_ne hne]
      · rw [ih hus.tail]

theorem eq_of_find?_eq {m m' : RpcMap} (h : SortedMap.Sorted m) (h' : SortedMap.Sorted m')
    (hfind : ∀ key, SortedMap.find? key m = SortedMap.find? key m') : m = m' := by
  refine h.eq_of_mem_iff h' fun x => ⟨fun hx => ?_, fun hx => ?_⟩
  · exact SortedMap.mem_of_find? ((hfind x.1).symm.trans (SortedMap.find?_of_mem h.keys_nodup hx))
  · exact SortedMap.mem_of_find? ((hfind x.1).trans (SortedMap.find?_of_mem h'.keys_nodup hx))

/-- With the same keys, every entry of the template has one beside it. -/
theorem find?_of_sameKeys {ts vm : RpcMap} (hkeys : ts.map (·.1) = vm.map (·.1))
    (hvm : SortedMap.Sorted vm) {e : Bytes × RpcValue} (he : e ∈ ts) :
    SortedMap.find? e.1 vm = some (vm.valueOr e.1 .invalid) := by
  have hmem : e.1 ∈ vm.map (·.1) := hkeys ▸ List.mem_map_of_mem he
  obtain ⟨e', he', heq⟩ := List.mem_map.mp hmem
  have hfind := SortedMap.find?_of_mem hvm.keys_nodup he'
  rw [heq] at hfind
  rw [RpcMap.valueOr, hfind, Option.getD_some]

/-! ## what is saved is loaded -/

/-- The difference is invalid where nothing differs. -/
theorem diffMaps_isValid_iff {t v : RpcValue} (ht : Ordered t) :
    (diffMaps t v).isValid = true ↔ ¬ Unchanged t v := by
  induction t using map_induction generalizing v with
  | _ t ih =>
    by_cases hmaps : t.isMap = true ∧ v.isMap = true
    · have hiff := @along_of_isMap (fun t v => t.eq v = true ∨ v.isValid = false) (fun _ _ => True)
        t v hmaps.1 hmaps.2
      rw [diffMaps_of_isMap hmaps.1 hmaps.2, Unchanged, hiff]
      have hfind : ∀ e ∈ t.asMap,
          SortedMap.find? e.1 (diffEntries [] t.asMap v.asMap) =
            if (diffMaps e.2 (v.asMap.valueOr e.1 .invalid)).isValid then
              some (diffMaps e.2 (v.asMap.valueOr e.1 .invalid)) else none := by
        intro e he
        rw [find?_diffEntries (sorted_asMap ht), SortedMap.find?_of_mem (sorted_asMap ht).keys_nodup he]
        rfl
      cases hd : diffEntries [] t.asMap v.asMap with
      | nil =>
        rw [List.isEmpty_nil, if_pos rfl]
        refine iff_of_false Bool.false_ne_true (not_not_intro ⟨trivial, fun e he => ?_⟩)
        have hnone := hfind e he
        rw [hd] at hnone
        by_contra hchanged
        have hvalid := (ih e he (ordered_entry ht he)).mpr hchanged
        rw [if_pos hvalid] at hnone
        contradiction
      | cons x xs =>
        rw [List.isEmpty_cons, if_neg Bool.false_ne_true]
        refine iff_of_true rfl fun hun => ?_
        have hx := SortedMap.find?_of_mem
          (sorted_diffEntries t.asMap v.asMap SortedMap.sorted_nil).keys_nodup
          (hd ▸ List.mem_cons_self : x ∈ diffEntries [] t.asMap v.asMap)
        rw [find?_diffEntries (sorted_asMap ht)] at hx
        cases hkey : SortedMap.find? x.1 t.asMap with
        | none =>
          rw [hkey] at hx
          contradiction
        | some w =>
          have he := SortedMap.mem_of_find? hkey
          have hinvalid : ¬ (diffMaps w (v.asMap.valueOr x.1 .invalid)).isValid = true :=
            fun hvalid => (ih (x.1, w) he (ordered_entry ht he)).mp hvalid (hun.2 (x.1, w) he)
          rw [hkey] at hx
          simp only [hinvalid] at hx
          contradiction
    · rw [diffMaps_of_not hmaps, Unchanged, along_of_not hmaps]
      by_cases heq : t.eq v = true
      · rw [if_pos heq]
        exact iff_of_false Bool.false_ne_true (not_not_intro (.inl heq))
      · rw [if_neg heq]
        simp [heq]

theorem faithful_of_unchanged {t : RpcValue} (ht : Ordered t) (h : Unchanged t t) :
    Faithful t t := by
  induction t using map_induction with
  | _ t ih =>
    by_cases hmap : t.isMap = true
    · rw [Unchanged, along_of_isMap hmap hmap] at h
      rw [Faithful, along_of_isMap hmap hmap]
      refine ⟨⟨fun _ => rfl, fun hnot => ?_⟩, fun e he => ?_⟩
      · refine absurd ?_ hnot
        rw [Unchanged, along_of_isMap hmap hmap]
        exact h
      · have hvalue : t.asMap.valueOr e.1 .invalid = e.2 := by
          rw [RpcMap.valueOr, SortedMap.find?_of_mem (sorted_asMap ht).keys_nodup he, Option.getD_some]
        have hun := h.2 e he
        rw [hvalue] at hun ⊢
        exact ih e he (ordered_entry ht he) hun
    · have hnot : ¬ (t.isMap = true ∧ t.isMap = true) := fun h => hmap h.1
      rw [Faithful, along_of_not hnot]
      exact fun _ => rfl

theorem Faithful.eq {t v : RpcValue} (h : Faithful t v) (hun : Unchanged t v) : t = v := by
  by_cases hmaps : t.isMap = true ∧ v.isMap = true
  · rw [Faithful, along_of_isMap hmaps.1 hmaps.2] at h
    exact h.1.1 hun
  · rw [Faithful, along_of_not hmaps] at h
    exact h hun

/-- Where something differs, merging the difference gives the values back just if
nothing is lost. -/
theorem mergeMaps_diffMaps_iff {t v : RpcValue} (ht : Ordered t) (hv : Ordered v)
    (hkeys : SameKeys t v) (hchanged : ¬ Unchanged t v) :
    mergeMaps t (diffMaps t v) = v ↔ Faithful t v := by
  induction t using map_induction generalizing v with
  | _ t ih =>
    by_cases hmaps : t.isMap = true ∧ v.isMap = true
    · have hvalid := (diffMaps_isValid_iff ht).mpr hchanged
      rw [SameKeys, along_of_isMap hmaps.1 hmaps.2] at hkeys
      rw [diffMaps_of_isMap hmaps.1 hmaps.2] at hvalid ⊢
      by_cases hempty : (diffEntries [] t.asMap v.asMap).isEmpty = true
      · rw [if_pos hempty] at hvalid
        contradiction
      rw [if_neg hempty, mergeMaps_of_isMap hmaps.1 rfl, asMap_ofVariant, Faithful,
        along_of_isMap hmaps.1 hmaps.2]
      have hsorted := sorted_diffEntries t.asMap v.asMap SortedMap.sorted_nil
      -- an entry of the result, and when it is the entry of the values
      have hentry : ∀ e ∈ t.asMap,
          SortedMap.find? e.1 (mergeEntries t.asMap (diffEntries [] t.asMap v.asMap)) =
            some (v.asMap.valueOr e.1 .invalid) ↔
          Along (fun t v => Unchanged t v → t = v)
            (fun t v => (Unchanged t v → t = v) ∧ (¬ Unchanged t v → v.metaData = .empty)) e.2
            (v.asMap.valueOr e.1 .invalid) := by
        intro e he
        have hchild := hkeys.2 e he
        have hfind := find?_of_sameKeys hkeys.1 (sorted_asMap hv) he
        have hordered : Ordered (v.asMap.valueOr e.1 .invalid) :=
          ordered_entry hv (SortedMap.mem_of_find? hfind)
        rw [find?_mergeEntries hsorted, find?_diffEntries (sorted_asMap ht),
          SortedMap.find?_of_mem (sorted_asMap ht).keys_nodup he, Option.map_some, Option.some.injEq]
        by_cases hun : Unchanged e.2 (v.asMap.valueOr e.1 .invalid)
        · have hinvalid : ¬ (diffMaps e.2 (v.asMap.valueOr e.1 .invalid)).isValid = true :=
            fun h => (diffMaps_isValid_iff (ordered_entry ht he)).mp h hun
          simp only [hinvalid]
          refine ⟨fun heq => ?_, fun hf => Faithful.eq hf hun⟩
          have heq' : e.2 = v.asMap.valueOr e.1 .invalid := heq
          rw [← heq'] at hun ⊢
          exact faithful_of_unchanged (ordered_entry ht he) hun
        · have hvalid' := (diffMaps_isValid_iff (ordered_entry ht he)).mpr hun
          simp only [hvalid', if_true]
          exact ih e he (ordered_entry ht he) hordered hchild hun
      constructor
      · intro heq
        have hmd : v.metaData = .empty := by
          rw [← heq]
          rfl
        have hmap : mergeEntries t.asMap (diffEntries [] t.asMap v.asMap) = v.asMap := by
          conv_rhs => rw [← heq]
          rfl
        refine ⟨⟨fun hun => absurd hun hchanged, fun _ => hmd⟩, fun e he => (hentry e he).mp ?_⟩
        rw [hmap]
        exact find?_of_sameKeys hkeys.1 (sorted_asMap hv) he
      · rintro ⟨⟨-, hmd⟩, hentries⟩
        have hmap : mergeEntries t.asMap (diffEntries [] t.asMap v.asMap) = v.asMap := by
          refine eq_of_find?_eq (sorted_mergeEntries _ (sorted_asMap ht)) (sorted_asMap hv) ?_
          intro key
          by_cases hkey : key ∈ t.asMap.map (·.1)
          · obtain ⟨e, he, rfl⟩ := List.mem_map.mp hkey
            rw [(hentry e he).mpr (hentries e he), find?_of_sameKeys hkeys.1 (sorted_asMap hv) he]
          · have hnone : ∀ m : RpcMap, m.map (·.1) = t.asMap.map (·.1) →
                SortedMap.find? key m = none := by
              intro m hm
              cases hfind : SortedMap.find? key m with
              | none => rfl
              | some w => exact absurd (hm ▸ SortedMap.key_mem_of_find? hfind) hkey
            rw [find?_mergeEntries hsorted, hnone _ rfl, hnone _ hkeys.1.symm]
            rfl
        refine Eq.trans ?_ (isMap_iff.mp hmaps.2).symm
        rw [hmd hchanged, hmap]
        rfl
    · have heq : ¬ t.eq v = true := by
        intro heq
        refine hchanged ?_
        rw [Unchanged, along_of_not hmaps]
        exact .inl heq
      rw [diffMaps_of_not hmaps, if_neg heq, mergeMaps_of_not hmaps, Faithful, along_of_not hmaps]
      exact iff_of_true rfl fun hun => absurd hun hchanged

/-- Saved values are loaded back just if nothing that is left out is lost; where
nothing differs at all, the values have to be the map of the template. -/
theorem loadSaved_eq_iff {t v : RpcValue} (ht : Ordered t) (hv : Ordered v) (hkeys : SameKeys t v) :
    loadSaved t v = v ↔
      (Unchanged t v → v = .ofVariant (.map t.asMap)) ∧ (¬ Unchanged t v → Faithful t v) := by
  by_cases hun : Unchanged t v
  · have hinvalid : ¬ (diffMaps t v).isValid = true := fun h => (diffMaps_isValid_iff ht).mp h hun
    have hload : loadSaved t v = .ofVariant (.map t.asMap) := by
      rw [loadSaved, if_neg hinvalid]
      by_cases hmap : t.isMap = true
      · rw [mergeMaps_of_isMap hmap rfl]
        rfl
      · have hnil : t.asMap = [] := by
          obtain ⟨md, x⟩ := t
          cases x with
          | map m => exact absurd rfl hmap
          | _ => rfl
        rw [mergeMaps_of_not fun h => hmap h.1, hnil]
    rw [hload]
    exact ⟨fun h => ⟨fun _ => h.symm, fun hnot => absurd hun hnot⟩, fun h => (h.1 hun).symm⟩
  · have hvalid := (diffMaps_isValid_iff ht).mpr hun
    rw [loadSaved, if_pos hvalid, mergeMaps_diffMaps_iff ht hv hkeys hun]
    exact ⟨fun h => ⟨fun hun' => absurd hun' hun, fun _ => h⟩, fun h => h.2 hun⟩

/-- A configuration with one number. -/
def oneValue (x : Variant) : RpcValue := .ofVariant (.map [(ascii "a", .ofVariant x)])

theorem ordered_oneValue (x : Variant) (hx : Ordered (.ofVariant x)) : Ordered (oneValue x) := by
  refine ⟨trivial, ⟨trivial, trivial⟩, fun m hm => ?_, hx, trivial⟩
  rw [← Variant.map.inj hm]
  exact List.pairwise_singleton _ _

theorem sameKeys_oneValue {x y : Variant} (hx : ∀ m, x ≠ .map m) :
    SameKeys (oneValue x) (oneValue y) := by
  refine (along_of_isMap rfl rfl).mpr ⟨rfl, fun e he => ?_⟩
  obtain rfl := List.mem_singleton.mp he
  refine (along_of_not fun h => ?_).mpr trivial
  exact hx _ (congrArg RpcValue.value (isMap_iff.mp h.1))

theorem ordered_number {x : Variant} (hx : ∀ m, x ≠ .map m) (hleaf : ∀ P M, x.Each P M) :
    Ordered (.ofVariant x) :=
  ⟨trivial, ⟨trivial, trivial⟩, fun m hm => absurd hm (hx m), hleaf _ _⟩

theorem loadSaved_eq_iff_changed :
    loadSaved (oneValue (.int 1)) (oneValue (.int 2)) = oneValue (.int 2) ↔
      (Unchanged (oneValue (.int 1)) (oneValue (.int 2)) →
        oneValue (.int 2) = .ofVariant (.map (oneValue (.int 1)).asMap)) ∧
      (¬ Unchanged (oneValue (.int 1)) (oneValue (.int 2)) →
        Faithful (oneValue (.int 1)) (oneValue (.int 2))) :=
  loadSaved_eq_iff (ordered_oneValue _ (ordered_number (by simp) fun _ _ => trivial))
    (ordered_oneValue _ (ordered_number (by simp) fun _ _ => trivial))
    (sameKeys_oneValue (by simp))

/-- An `UInt` that equals the `Int` of the template comes back as an `Int`. -/
theorem not_loadSaved_uint :
    Ordered (oneValue (.int 1)) ∧ Ordered (oneValue (.uint 1)) ∧
      SameKeys (oneValue (.int 1)) (oneValue (.uint 1)) ∧
      loadSaved (oneValue (.int 1)) (oneValue (.uint 1)) ≠ oneValue (.uint 1) := by
  refine ⟨ordered_oneValue _ (ordered_number (by simp) fun _ _ => trivial),
    ordered_oneValue _ (ordered_number (by simp) fun _ _ => trivial),
    sameKeys_oneValue (by simp), fun h => ?_⟩
  have hload : loadSaved (oneValue (.int 1)) (oneValue (.uint 1)) = oneValue (.int 1) := rfl
  rw [hload] at h
  simp [oneValue, RpcValue.ofVariant] at h

end LibShv.RpcValueConfigNode
