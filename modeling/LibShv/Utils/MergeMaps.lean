import LibShv.RpcValue.As

/-!
# LibShv.Utils.MergeMaps

`Utils::mergeMaps` (`utils.cpp`): two values put over each other. Maps are merged entry by entry,
their metadata as well; of anything else the upper value is taken if it is a valid one.

What a merged value has at the end of a path is what the upper value has there, or what the lower
one has if the upper one says nothing on the whole way (`contentAt_mergeMaps`). Of values that are
merged in order the last one wins that says anything, path by path.
-/

namespace LibShv

/-- `impl_set`: the entries of a map after `RpcValue::set`. -/
def implSet {κ : Type} [Ord κ] (key : κ) (value : RpcValue) (m : List (κ × RpcValue)) :
    List (κ × RpcValue) :=
  if value.isValid then SortedMap.insert key value m else SortedMap.erase key m

namespace Utils

mutual

/-- `Utils::mergeMaps`. -/
def mergeMaps (value_base : RpcValue) : RpcValue → RpcValue
  | .mk (.mk iover sover) (.map map_over) =>
    match value_base.value with
    | .map map_base =>
      .mk (mergeSKeys value_base.metaData
          (mergeIKeys value_base.metaData value_base.metaData iover) sover)
        (.map (mergeEntries map_base map_over))
    | _ => .mk (.mk iover sover) (.map map_over)
  | value_over => if value_over.isValid then value_over else value_base
termination_by structural v => v

/-- The loop over `map_over`. -/
def mergeEntries (merged : RpcMap) : RpcMap → RpcMap
  | [] => merged
  | (key, val) :: map_over =>
    mergeEntries (implSet key (mergeMaps (merged.valueOr key .invalid) val) merged) map_over
termination_by structural m => m

/-- The loop over `meta_over.iKeys()`. -/
def mergeIKeys (meta_base merged : RpcMetaData) : RpcIMap → RpcMetaData
  | [] => merged
  | (k, val) :: meta_over =>
    mergeIKeys meta_base (merged.setIValue k (mergeMaps (meta_base.valueOf k) val)) meta_over
termination_by structural m => m

/-- The loop over `meta_over.sKeys()`. -/
def mergeSKeys (meta_base merged : RpcMetaData) : RpcMap → RpcMetaData
  | [] => merged
  | (k, val) :: meta_over =>
    mergeSKeys meta_base
      (merged.setSValue k (mergeMaps (meta_base.sValues.valueOr k .invalid) val)) meta_over
termination_by structural m => m

end

/-! ## paths -/

/-- A step down from a map: to an entry, or to a value of its metadata. -/
inductive Step where
  | entry (key : Bytes)
  | iMeta (key : Int32)
  | sMeta (key : Bytes)
deriving DecidableEq

/-- The value one step down; an invalid one where there is none. -/
def child (v : RpcValue) : Step → RpcValue
  | .entry key => v.asMap.valueOr key .invalid
  | .iMeta key => if v.isMap then v.metaData.valueOf key else .invalid
  | .sMeta key => if v.isMap then v.metaData.sValues.valueOr key .invalid else .invalid

/-- What there is at the end of a path. -/
inductive Content where
  | map
  | leaf (v : RpcValue)

def contentAt : RpcValue → List Step → Option Content
  | v, [] => if v.isMap then some .map else if v.isValid then some (.leaf v) else none
  | v, s :: path => contentAt (child v s) path

/-- Nothing at the end of a path, and nothing but maps on the way to it. -/
def silent : RpcValue → List Step → Bool
  | v, [] => !v.isValid
  | v, s :: path => (!v.isValid || v.isMap) && silent (child v s) path

/-! ## entries -/

section Entries

variable {κ : Type} [Ord κ]

/-- `value` of a map: an invalid one if the key is absent. -/
def lookup (k : κ) (m : List (κ × RpcValue)) : RpcValue := (SortedMap.find? k m).getD .invalid

/-- The same value, or none. -/
def Alike (v w : RpcValue) : Prop := v = w ∨ v.isValid = false ∧ w.isValid = false

theorem Alike.trans {u v w : RpcValue} (h : Alike u v) (h' : Alike v w) : Alike u w := by
  rcases h with rfl | ⟨hu, hv⟩
  · exact h'
  · rcases h' with rfl | ⟨-, hw⟩
    · exact .inr ⟨hu, hv⟩
    · exact .inr ⟨hu, hw⟩

theorem sorted_implSet [Std.TransOrd κ] {m : List (κ × RpcValue)} (h : SortedMap.Sorted m) (k : κ)
    (v : RpcValue) : SortedMap.Sorted (implSet k v m) := by
  rw [implSet]
  split
  · exact SortedMap.sorted_insert h
  · exact SortedMap.sorted_erase h

/-- The three loops: each value of `upper` is merged with the one that `base` has. -/
def mergeAll (base m upper : List (κ × RpcValue)) : List (κ × RpcValue) :=
  upper.foldl (fun m e => implSet e.1 (mergeMaps (lookup e.1 base) e.2) m) m

theorem mergeAll_cons (base m upper : List (κ × RpcValue)) (e : κ × RpcValue) :
    mergeAll base m (e :: upper) =
      mergeAll base (implSet e.1 (mergeMaps (lookup e.1 base) e.2) m) upper := rfl

variable [Std.LawfulEqOrd κ]

theorem lookup_implSet_self {m : List (κ × RpcValue)} (h : SortedMap.Sorted m) (k : κ)
    (v : RpcValue) : Alike (lookup k (implSet k v m)) v := by
  rw [lookup, implSet]
  by_cases hv : v.isValid = true
  · rw [if_pos hv, SortedMap.find?_insert_self]
    exact .inl rfl
  · rw [if_neg hv, SortedMap.find?_erase_self h]
    exact .inr ⟨rfl, Bool.eq_false_iff.mpr hv⟩

theorem lookup_implSet_of_ne {k k' : κ} (h : k' ≠ k) (v : RpcValue) (m : List (κ × RpcValue)) :
    lookup k' (implSet k v m) = lookup k' m := by
  rw [lookup, lookup, implSet]
  by_cases hv : v.isValid = true
  · rw [if_pos hv, SortedMap.find?_insert_of_ne h]
  · rw [if_neg hv, SortedMap.find?_erase_of_ne h]

/-- What a key has after the loop. -/
theorem lookup_mergeAll [Std.TransOrd κ] {base m upper : List (κ × RpcValue)}
    (hm : SortedMap.Sorted m) (hupper : SortedMap.Sorted upper) (k : κ)
    (hbase : lookup k m = lookup k base) :
    Alike (lookup k (mergeAll base m upper)) (mergeMaps (lookup k base) (lookup k upper)) := by
  have hrest : ∀ {m upper : List (κ × RpcValue)}, (∀ e ∈ upper, k ≠ e.1) →
      lookup k (mergeAll base m upper) = lookup k m := by
    intro m upper
    induction upper generalizing m with
    | nil => exact fun _ => rfl
    | cons e upper ih =>
      intro hne
      rw [mergeAll_cons, ih fun e' he' => hne e' (List.mem_cons_of_mem _ he'),
        lookup_implSet_of_ne (hne e List.mem_cons_self)]
  induction upper generalizing m with
  | nil => exact .inl hbase
  | cons e upper ih =>
    rw [mergeAll_cons]
    have hsorted := sorted_implSet hm e.1 (mergeMaps (lookup e.1 base) e.2)
    by_cases hk : k = e.1
    · subst hk
      rw [hrest fun e' he' => (hupper.ne_of_mem he').symm]
      have hfound : lookup e.1 (e :: upper) = e.2 := by
        rw [lookup, SortedMap.find?, if_pos (Std.LawfulEqOrd.compare_eq_iff_eq.mpr rfl)]
        rfl
      rw [hfound]
      exact lookup_implSet_self hm _ _
    · have hupper' : lookup k (e :: upper) = lookup k upper := by
        rw [lookup, SortedMap.find?, if_neg fun h => hk (Std.LawfulEqOrd.eq_of_compare h)]
        rfl
      rw [hupper']
      exact ih hsorted hupper.tail ((lookup_implSet_of_ne hk _ _).trans hbase)

end Entries

/-! ## keys in order -/

/-- `std::map`s have increasing keys, in values and in metadata. -/
abbrev Ordered (v : RpcValue) : Prop :=
  v.Each (fun x => ∀ m, x = .map m → SortedMap.Sorted m)
    fun md => SortedMap.Sorted md.iValues ∧ SortedMap.Sorted md.sValues

/-- A map whose values are ordered, too. -/
structure OrderedEntries {κ : Type} [Ord κ] (m : List (κ × RpcValue)) : Prop where
  sorted : SortedMap.Sorted m
  entries : ∀ e ∈ m, Ordered e.2

theorem ordered_invalid : Ordered .invalid :=
  ⟨⟨SortedMap.sorted_nil, SortedMap.sorted_nil⟩, ⟨trivial, trivial⟩, by nofun, trivial⟩

section OrderedEntries

variable {κ : Type} [Ord κ] {m : List (κ × RpcValue)}

theorem OrderedEntries.lookup [Std.LawfulEqOrd κ] (h : OrderedEntries m) (k : κ) : Ordered (lookup k m) := by
  rw [Utils.lookup]
  cases hfind : SortedMap.find? k m with
  | none => exact ordered_invalid
  | some v => exact h.entries _ (SortedMap.mem_of_find? hfind)

theorem OrderedEntries.implSet [Std.TransOrd κ] (h : OrderedEntries m) (k : κ) {v : RpcValue}
    (hv : Ordered v) : OrderedEntries (implSet k v m) where
  sorted := sorted_implSet h.sorted k v
  entries e he := by
    rw [LibShv.implSet] at he
    split at he
    · rcases SortedMap.mem_insert he with heq | he
      · exact heq ▸ hv
      · exact h.entries e he
    · exact h.entries e (SortedMap.mem_of_mem_erase he)

theorem OrderedEntries.mergeAll [Std.LawfulEqOrd κ] [Std.TransOrd κ] {base upper : List (κ × RpcValue)}
    (hbase : OrderedEntries base) (hm : OrderedEntries m)
    (h : ∀ e ∈ upper, ∀ b, Ordered b → Ordered (mergeMaps b e.2)) :
    OrderedEntries (mergeAll base m upper) := by
  induction upper generalizing m with
  | nil => exact hm
  | cons e upper ih =>
    rw [mergeAll_cons]
    exact ih (hm.implSet e.1 (h e List.mem_cons_self _ (hbase.lookup e.1)))
      fun e' he' => h e' (List.mem_cons_of_mem _ he')

end OrderedEntries

theorem isMap_iff {v : RpcValue} :
    v.isMap = true ↔ v = .mk (.mk v.metaData.iValues v.metaData.sValues) (.map v.asMap) := by
  obtain ⟨⟨im, sm⟩, x⟩ := v
  cases x <;> simp [RpcValue.isMap, RpcValue.asMap]

theorem isMap_of_isValid_eq_false {v : RpcValue} (h : v.isValid = false) : v.isMap = false := by
  obtain ⟨md, x⟩ := v
  cases x <;> first | rfl | contradiction

theorem ordered_iff_of_isMap {v : RpcValue} (h : v.isMap = true) :
    Ordered v ↔ OrderedEntries v.metaData.iValues ∧ OrderedEntries v.metaData.sValues ∧
      OrderedEntries v.asMap := by
  rw [isMap_iff.mp h]
  constructor
  · rintro ⟨⟨hi, hs⟩, ⟨hie, hse⟩, hm, hme⟩
    exact ⟨⟨hi, eachIMap_iff.mp hie⟩, ⟨hs, eachMap_iff.mp hse⟩, ⟨hm _ rfl, eachMap_iff.mp hme⟩⟩
  · rintro ⟨⟨hi, hie⟩, ⟨hs, hse⟩, ⟨hm, hme⟩⟩
    refine ⟨⟨hi, hs⟩, ⟨eachIMap_iff.mpr hie, eachMap_iff.mpr hse⟩, fun m heq => ?_,
      eachMap_iff.mpr hme⟩
    obtain rfl := Variant.map.inj heq
    exact hm

theorem Ordered.child {v : RpcValue} (h : Ordered v) (s : Step) : Ordered (child v s) := by
  by_cases hmap : v.isMap = true
  · obtain ⟨hi, hs, hm⟩ := (ordered_iff_of_isMap hmap).mp h
    cases s with
    | entry key => exact hm.lookup key
    | iMeta key =>
      rw [Utils.child, if_pos hmap]
      exact hi.lookup key
    | sMeta key =>
      rw [Utils.child, if_pos hmap]
      exact hs.lookup key
  · have hnone : Utils.child v s = .invalid := by
      obtain ⟨md, x⟩ := v
      cases x <;> cases s <;> first | rfl | exact absurd rfl hmap
    rw [hnone]
    exact ordered_invalid

/-! ## what is merged -/

/-- Anything but two maps. -/
theorem mergeMaps_of_not {b o : RpcValue} (h : ¬ (b.isMap = true ∧ o.isMap = true)) :
    mergeMaps b o = if o.isValid then o else b := by
  obtain ⟨⟨im, sm⟩, x⟩ := o
  obtain ⟨md, y⟩ := b
  cases x with
  | map m =>
    cases y with
    | map m' => exact absurd ⟨rfl, rfl⟩ h
    | _ => rw [mergeMaps]; rfl
  | _ => rw [mergeMaps]; simp

theorem mergeEntries_eq {merged base upper : RpcMap} (hupper : SortedMap.Sorted upper)
    (h : ∀ e ∈ upper, lookup e.1 merged = lookup e.1 base) :
    mergeEntries merged upper = mergeAll base merged upper := by
  induction upper generalizing merged with
  | nil => rw [mergeEntries, mergeAll, List.foldl_nil]
  | cons e upper ih =>
    have he : merged.valueOr e.1 .invalid = lookup e.1 base := h e List.mem_cons_self
    rw [mergeEntries, mergeAll_cons, he]
    refine ih hupper.tail fun e' he' => ?_
    rw [lookup_implSet_of_ne (hupper.ne_of_mem he')]
    exact h e' (List.mem_cons_of_mem _ he')

theorem mergeIKeys_eq (base merged : RpcMetaData) (upper : RpcIMap) :
    mergeIKeys base merged upper =
      .mk (mergeAll base.iValues merged.iValues upper) merged.sValues := by
  induction upper generalizing merged with
  | nil => rw [mergeIKeys]; obtain ⟨im, sm⟩ := merged; rfl
  | cons e upper ih =>
    have hset : ∀ (k : Int32) (v : RpcValue),
        merged.setIValue k v = .mk (implSet k v merged.iValues) merged.sValues := by
      intro k v
      rw [RpcMetaData.setIValue, implSet]
      split <;> rfl
    rw [mergeIKeys, ih, mergeAll_cons, hset]
    rfl

theorem mergeSKeys_eq (base merged : RpcMetaData) (upper : RpcMap) :
    mergeSKeys base merged upper =
      .mk merged.iValues (mergeAll base.sValues merged.sValues upper) := by
  induction upper generalizing merged with
  | nil => rw [mergeSKeys]; obtain ⟨im, sm⟩ := merged; rfl
  | cons e upper ih =>
    have hset : ∀ (k : Bytes) (v : RpcValue),
        merged.setSValue k v = .mk merged.iValues (implSet k v merged.sValues) := by
      intro k v
      rw [RpcMetaData.setSValue, implSet]
      split <;> rfl
    rw [mergeSKeys, ih, mergeAll_cons, hset]
    rfl

/-- Two maps are merged under every key, in the metadata as well. -/
theorem mergeMaps_of_isMap {b o : RpcValue} (hb : b.isMap = true) (ho : o.isMap = true)
    (hsorted : SortedMap.Sorted o.asMap) :
    mergeMaps b o =
      .mk (.mk (mergeAll b.metaData.iValues b.metaData.iValues o.metaData.iValues)
          (mergeAll b.metaData.sValues b.metaData.sValues o.metaData.sValues))
        (.map (mergeAll b.asMap b.asMap o.asMap)) := by
  have hvalue : b.value = .map b.asMap := by
    conv_lhs => rw [isMap_iff.mp hb]
    rfl
  conv_lhs => rw [isMap_iff.mp ho, mergeMaps, hvalue]
  simp only
  rw [mergeIKeys_eq, mergeSKeys_eq, mergeEntries_eq hsorted fun _ _ => rfl]
  rfl

/-- Induction along the entries of maps and the values of their metadata. -/
theorem map_induction {P : RpcValue → Prop}
    (h : ∀ v, (v.isMap = true → (∀ e ∈ v.metaData.iValues, P e.2) ∧
      (∀ e ∈ v.metaData.sValues, P e.2) ∧ ∀ e ∈ v.asMap, P e.2) → P v) (v : RpcValue) : P v := by
  refine h v fun hmap => ?_
  have hsize : sizeOf v = 1 + (1 + sizeOf v.metaData.iValues + sizeOf v.metaData.sValues) +
      (1 + sizeOf v.asMap) := by
    conv_lhs => rw [isMap_iff.mp hmap]
    simp only [RpcValue.mk.sizeOf_spec, RpcMetaData.mk.sizeOf_spec, Variant.map.sizeOf_spec]
  refine ⟨fun e he => ?_, fun e he => ?_, fun e he => ?_⟩
  all_goals
    have hmem := List.sizeOf_lt_of_mem he
    have hlt : sizeOf e.2 < sizeOf v := by
      obtain ⟨k, w⟩ := e
      simp only [Prod.mk.sizeOf_spec] at hmem ⊢
      omega
    exact map_induction h e.2
termination_by sizeOf v

/-- Merged values have their keys in order. -/
theorem Ordered.mergeMaps {b o : RpcValue} (hb : Ordered b) (ho : Ordered o) :
    Ordered (mergeMaps b o) := by
  induction o using map_induction generalizing b with
  | h o ih =>
    by_cases h : b.isMap = true ∧ o.isMap = true
    · obtain ⟨ihi, ihs, ihm⟩ := ih h.2
      obtain ⟨hi, hs, hm⟩ := (ordered_iff_of_isMap h.1).mp hb
      obtain ⟨hi', hs', hm'⟩ := (ordered_iff_of_isMap h.2).mp ho
      rw [mergeMaps_of_isMap h.1 h.2 hm'.sorted]
      refine (ordered_iff_of_isMap rfl).mpr ⟨?_, ?_, ?_⟩
      · exact hi.mergeAll hi fun e he _ hb => ihi e he hb (hi'.entries e he)
      · exact hs.mergeAll hs fun e he _ hb => ihs e he hb (hs'.entries e he)
      · exact hm.mergeAll hm fun e he _ hb => ihm e he hb (hm'.entries e he)
    · rw [mergeMaps_of_not h]
      split
      · exact ho
      · exact hb

/-- Under each step two maps are merged on their own. -/
theorem child_mergeMaps {b o : RpcValue} (hb : b.isMap = true) (ho : o.isMap = true)
    (hbo : Ordered b) (hoo : Ordered o) (s : Step) :
    Alike (child (mergeMaps b o) s) (mergeMaps (child b s) (child o s)) := by
  obtain ⟨hi, hs, hm⟩ := (ordered_iff_of_isMap hb).mp hbo
  obtain ⟨hi', hs', hm'⟩ := (ordered_iff_of_isMap ho).mp hoo
  rw [mergeMaps_of_isMap hb ho hm'.sorted]
  cases s with
  | entry key => exact lookup_mergeAll hm.sorted hm'.sorted key rfl
  | iMeta key =>
    simp only [child, hb, ho, if_true]
    exact lookup_mergeAll hi.sorted hi'.sorted key rfl
  | sMeta key =>
    simp only [child, hb, ho, if_true]
    exact lookup_mergeAll hs.sorted hs'.sorted key rfl

/-! ## what is at the end of a path -/

theorem child_of_not_isMap {v : RpcValue} (h : v.isMap = false) (s : Step) :
    child v s = .invalid := by
  obtain ⟨md, x⟩ := v
  cases x <;> cases s <;> first | rfl | contradiction

theorem contentAt_of_isValid_eq_false {v : RpcValue} (h : v.isValid = false) (path : List Step) :
    contentAt v path = none := by
  induction path generalizing v with
  | nil => simp [contentAt, h, isMap_of_isValid_eq_false h]
  | cons s path ih =>
    rw [contentAt, child_of_not_isMap (isMap_of_isValid_eq_false h)]
    exact ih rfl

theorem silent_of_isValid_eq_false {v : RpcValue} (h : v.isValid = false) (path : List Step) :
    silent v path = true := by
  induction path generalizing v with
  | nil => simp [silent, h]
  | cons s path ih =>
    rw [silent, child_of_not_isMap (isMap_of_isValid_eq_false h), ih rfl, h]
    rfl

theorem contentAt_of_silent {v : RpcValue} {path : List Step} (h : silent v path = true) :
    contentAt v path = none := by
  induction path generalizing v with
  | nil =>
    refine contentAt_of_isValid_eq_false ?_ []
    simpa [silent] using h
  | cons s path ih =>
    rw [silent, Bool.and_eq_true] at h
    exact ih h.2

theorem Alike.contentAt {v w : RpcValue} (h : Alike v w) (path : List Step) :
    contentAt v path = contentAt w path := by
  rcases h with rfl | ⟨hv, hw⟩
  · rfl
  · rw [contentAt_of_isValid_eq_false hv, contentAt_of_isValid_eq_false hw]

theorem contentAt_cons_of_not_isMap {v : RpcValue} (h : v.isMap = false) (s : Step)
    (path : List Step) : contentAt v (s :: path) = none := by
  rw [contentAt, child_of_not_isMap h]
  exact contentAt_of_isValid_eq_false rfl path

theorem contentAt_mergeMaps_of_not {b o : RpcValue} (h : ¬ (b.isMap = true ∧ o.isMap = true))
    (path : List Step) :
    contentAt (mergeMaps b o) path =
      (contentAt o path).or (if silent o path then contentAt b path else none) := by
  rw [mergeMaps_of_not h]
  by_cases hvalid : o.isValid = true
  · rw [if_pos hvalid]
    cases hcontent : contentAt o path with
    | some c => rfl
    | none =>
      rw [Option.none_or]
      split
      · next hsilent =>
        cases path with
        | nil => simp [silent, hvalid] at hsilent
        | cons s path =>
          -- the upper value is a map, and so the lower one is none
          simp only [silent, hvalid, Bool.not_true, Bool.false_or, Bool.and_eq_true] at hsilent
          have hb : b.isMap = false := Bool.eq_false_iff.mpr fun hb => h ⟨hb, hsilent.1⟩
          rw [contentAt_cons_of_not_isMap hb]
      · rfl
  · have hinvalid := Bool.eq_false_iff.mpr hvalid
    rw [if_neg hvalid, contentAt_of_isValid_eq_false hinvalid,
      silent_of_isValid_eq_false hinvalid, if_pos rfl, Option.none_or]

/-- At the end of every path a merged value has what the upper value has there, or else what the
lower one has if the upper one says nothing. -/
theorem contentAt_mergeMaps {b o : RpcValue} (hb : Ordered b) (ho : Ordered o)
    (path : List Step) :
    contentAt (mergeMaps b o) path =
      (contentAt o path).or (if silent o path then contentAt b path else none) := by
  induction path generalizing b o with
  | nil =>
    by_cases h : b.isMap = true ∧ o.isMap = true
    · have hsorted := ((ordered_iff_of_isMap h.2).mp ho).2.2.sorted
      rw [mergeMaps_of_isMap h.1 h.2 hsorted, contentAt, contentAt, if_pos h.2]
      rfl
    · exact contentAt_mergeMaps_of_not h []
  | cons s path ih =>
    by_cases h : b.isMap = true ∧ o.isMap = true
    · have hsilent : silent o (s :: path) = silent (child o s) path := by simp [silent, h.2]
      rw [contentAt, (child_mergeMaps h.1 h.2 hb ho s).contentAt, ih (hb.child s) (ho.child s),
        hsilent]
      rfl
    · exact contentAt_mergeMaps_of_not h (s :: path)

/-! ## one after the other -/

/-- Values put over each other in their order, beginning with an invalid one. -/
def mergeList (vs : List RpcValue) : RpcValue := vs.foldl mergeMaps .invalid

theorem mergeList_concat (vs : List RpcValue) (v : RpcValue) :
    mergeList (vs ++ [v]) = mergeMaps (mergeList vs) v := by
  rw [mergeList, List.foldl_append]
  rfl

theorem ordered_mergeList {vs : List RpcValue} (h : ∀ v ∈ vs, Ordered v) :
    Ordered (mergeList vs) := by
  induction vs using List.reverseRecOn with
  | nil => exact ordered_invalid
  | append_singleton vs v ih =>
    rw [mergeList_concat]
    exact (ih fun w hw => h w (List.mem_append_left _ hw)).mergeMaps
      (h v (List.mem_append_right _ List.mem_cons_self))

/-- The last one wins that says anything on the way to the end of the path. -/
theorem contentAt_mergeList {vs : List RpcValue} (h : ∀ v ∈ vs, Ordered v) {path : List Step}
    {c : Content} :
    contentAt (mergeList vs) path = some c ↔
      ∃ before v after, vs = before ++ v :: after ∧ contentAt v path = some c ∧
        ∀ w ∈ after, silent w path = true := by
  induction vs using List.reverseRecOn with
  | nil =>
    rw [mergeList, List.foldl_nil, contentAt_of_isValid_eq_false rfl]
    simp
  | append_singleton vs v ih =>
    have hvs : ∀ w ∈ vs, Ordered w := fun w hw => h w (List.mem_append_left _ hw)
    have hv : Ordered v := h v (List.mem_append_right _ List.mem_cons_self)
    rw [mergeList_concat, contentAt_mergeMaps (ordered_mergeList hvs) hv, Option.or_eq_some_iff]
    constructor
    · rintro (hc | ⟨-, hc⟩)
      · exact ⟨vs, v, [], rfl, hc, by nofun⟩
      · split at hc
        · next hsilent =>
          obtain ⟨before, w, after, rfl, hw, hafter⟩ := (ih hvs).mp hc
          refine ⟨before, w, after ++ [v], by simp, hw, fun x hx => ?_⟩
          rcases List.mem_append.mp hx with hx | hx
          · exact hafter x hx
          · rw [List.mem_singleton.mp hx]
            exact hsilent
        · contradiction
    · rintro ⟨before, w, after, heq, hw, hafter⟩
      induction after using List.reverseRecOn with
      | nil =>
        obtain ⟨-, rfl⟩ := List.append_singleton_inj.mp heq
        exact .inl hw
      | append_singleton after x _ =>
        rw [← List.cons_append, ← List.append_assoc] at heq
        obtain ⟨rfl, rfl⟩ := List.append_singleton_inj.mp heq
        have hsilent : silent v path = true :=
          hafter v (List.mem_append_right _ List.mem_cons_self)
        refine .inr ⟨?_, ?_⟩
        · exact contentAt_of_silent hsilent
        · rw [if_pos hsilent]
          exact (ih hvs).mpr ⟨before, w, after, rfl, hw,
            fun y hy => hafter y (List.mem_append_left _ hy)⟩

end Utils

end LibShv
