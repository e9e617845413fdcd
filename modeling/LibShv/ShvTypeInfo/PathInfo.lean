import LibShv.ShvTypeInfo.Layout

/-!
# LibShv.ShvTypeInfo.PathInfo

What the paths of a tree of nodes are read back with: every property with the description
that its node declares, unless a deviation lies above its path.
-/

namespace LibShv

namespace ShvTypeInfo

variable {α : Type} {names names' : List Bytes}

/-! ## looking up paths -/

theorem pathText_ne_nil (h : PlainPath names) (hne : names ≠ []) : pathText names ≠ [] :=
  PathTable.render_ne_nil h hne

/-- The search in a table finds the nearest entry. -/
theorem findLongestPrefix_pathText (map : List (Bytes × α)) (h : PlainPath names) {n : Nat}
    (hn : (pathText names).length < n) :
    findLongestPrefix map n (pathText names) =
      (PathTable.nearest (fun p => SortedMap.find? (pathText p) map) names).map
        fun e => (pathText e.1, e.2) := by
  induction names using List.reverseRecOn generalizing n with
  | nil =>
    obtain ⟨n, rfl⟩ := Nat.exists_eq_add_one_of_ne_zero (Nat.ne_of_gt (Nat.zero_lt_of_lt hn))
    rw [findLongestPrefix, PathTable.nearest_nil]
    cases SortedMap.find? (pathText []) map <;> rfl
  | append_singleton names name ih =>
    obtain ⟨n, rfl⟩ := Nat.exists_eq_add_one_of_ne_zero (Nat.ne_of_gt (Nat.zero_lt_of_lt hn))
    have hname : PathTable.IsName SHV_PATH_DELIM name :=
      h name (List.mem_append_right _ List.mem_cons_self)
    have hlen : (pathText names).length < (pathText (names ++ [name])).length :=
      PathTable.length_render_concat hname
    rw [findLongestPrefix]
    cases hfind : SortedMap.find? (pathText (names ++ [name])) map with
    | some x =>
      rw [PathTable.nearest_concat_of_some hfind]
      rfl
    | none =>
      have hcut : cutLastPart (pathText (names ++ [name])) = pathText names :=
        PathTable.cutLast_render hname
      rw [PathTable.nearest_concat_of_none hfind]
      dsimp only
      rw [if_neg (pathText_ne_nil h (by simp)), hcut]
      exact ih (h.of_start (List.prefix_append _ _)) (by omega)

theorem cutPrefix_pathText (h : PlainPath (names ++ names')) :
    cutPrefix (pathText (names ++ names')) (pathText names) = pathText names' := by
  by_cases hnil : names = []
  · rw [hnil]
    rfl
  · rw [cutPrefix, if_neg (pathText_ne_nil (h.of_start (List.prefix_append _ _)) hnil)]
    by_cases hnil' : names' = []
    · rw [hnil', List.append_nil, List.drop_eq_nil_of_le (by omega)]
      rfl
    · have happend : pathText (names ++ names') = pathText names ++ SHV_PATH_DELIM :: pathText names' :=
        PathTable.render_append_of_ne hnil hnil'
      rw [happend, ← List.drop_drop, List.drop_left]
      rfl

theorem startsWithPath_pathText (h : PlainPath names) (h' : PlainPath names') :
    startsWithPath (pathText names') (pathText names) = true ↔ names <+: names' :=
  (startsWithPath_iff_below (PathTable.trimmed_render h).2).trans (PathTable.below_render h h')

theorem findLongestPropertyPrefix_eq_some {d : ShvDeviceDescription} {name : Bytes} {x : ShvDescr}
    (hx : x ∈ d.properties) (hstart : startsWithPath name x.name = true)
    (hlonger : ∀ y ∈ d.properties, startsWithPath name y.name = true → y ≠ x →
      y.name.length < x.name.length) :
    d.findLongestPropertyPrefix name = some x := by
  have hloop : ∀ (l : List ShvDescr) (acc : Option ShvDescr),
      (∀ y ∈ l, startsWithPath name y.name = true → y ≠ x → y.name.length < x.name.length) →
      (∀ a, acc = some a → a = x ∨ a.name.length < x.name.length) → (x ∈ l ∨ acc = some x) →
      l.foldl (fun ret p =>
        if startsWithPath name p.name ∧ (ret.map (·.name.length)).getD 0 ≤ p.name.length then some p
        else ret) acc = some x := by
    intro l
    induction l with
    | nil => exact fun acc _ _ h => h.resolve_left List.not_mem_nil
    | cons y l ih =>
      intro acc hl hacc h
      obtain ⟨hy, hl⟩ := List.forall_mem_cons.mp hl
      rw [List.foldl_cons]
      by_cases hyx : y = x
      · have hle : (acc.map (·.name.length)).getD 0 ≤ y.name.length := by
          cases acc with
          | none => exact Nat.zero_le _
          | some a =>
            rcases hacc a rfl with rfl | hlt
            · rw [hyx]
              exact Nat.le_refl _
            · rw [hyx]
              exact Nat.le_of_lt hlt
        rw [if_pos ⟨by rw [hyx, hstart], hle⟩, hyx]
        exact ih _ hl (fun a ha => .inl (Option.some.inj ha).symm) (.inr rfl)
      · split
        · rename_i hcond
          have hlt := hy hcond.1 hyx
          refine ih _ hl (fun a ha => .inr (Option.some.inj ha ▸ hlt)) (.inl ?_)
          rcases h with hmem | hsome
          · exact List.mem_of_ne_of_mem (Ne.symm hyx) hmem
          · have hle := hcond.2
            rw [hsome] at hle
            exact absurd hle (Nat.not_le_of_lt hlt)
        · refine ih _ hl hacc ?_
          rcases h with hmem | hsome
          · exact .inl (List.mem_of_ne_of_mem (Ne.symm hyx) hmem)
          · exact .inr hsome
  exact hloop _ _ hlonger (fun a ha => by cases ha) (.inl hx)

theorem findLongestPropertyPrefix_eq_none {d : ShvDeviceDescription} {name : Bytes}
    (h : ∀ y ∈ d.properties, ¬ startsWithPath name y.name = true) :
    d.findLongestPropertyPrefix name = none := by
  rw [ShvDeviceDescription.findLongestPropertyPrefix]
  generalize d.properties = l at h
  induction l with
  | nil => rfl
  | cons y l ih =>
    obtain ⟨hy, hl⟩ := List.forall_mem_cons.mp h
    rw [List.foldl_cons, if_neg fun hcond => hy hcond.1]
    exact ih hl

/-! ## the tables of a tree -/

section Entered

variable {ds : List Device} {ti : ShvTypeInfo} {d f : Device} {p path : List Bytes}

theorem find?_devicePaths (hl : Layout ds) (he : Entered ds ti) (hd : d ∈ ds) :
    SortedMap.find? (pathText d.path) ti.devicePaths = some d.type := by
  rw [he.devicePaths]
  refine SortedMap.find?_foldl_insert_of_mem (fun d : Device => pathText d.path) Device.type hd
    (fun d' hd' hpath => ?_) []
  rw [hl.eq_of_path hd' hd ((pathText_eq_iff (hl.path d' hd') (hl.path d hd)).mp hpath)]

theorem find?_devicePaths_eq_none (hl : Layout ds) (he : Entered ds ti) (hpath : PlainPath path)
    (hnone : ∀ d ∈ ds, d.path ≠ path) : SortedMap.find? (pathText path) ti.devicePaths = none := by
  cases hfind : SortedMap.find? (pathText path) ti.devicePaths with
  | none => rfl
  | some type =>
    rw [he.devicePaths] at hfind
    rcases SortedMap.find?_foldl_insert_eq_some (fun d : Device => pathText d.path) Device.type hfind
      with ⟨d, hd, hkey, -⟩ | hnil
    · exact absurd ((pathText_eq_iff (hl.path d hd) hpath).mp hkey) (hnone d hd)
    · cases hnil

/-- A path belongs to the device that no other one lies between it and. -/
theorem findDeviceType_eq (hl : Layout ds) (he : Entered ds ti) (hd : d ∈ ds) (hp : PlainPath p)
    (hinner : ∀ d' ∈ ds, d'.path <+: d.path ++ p → d'.path <+: d.path) :
    ti.findDeviceType (pathText (d.path ++ p)) = (pathText d.path, d.type, pathText p) := by
  have hplain := (hl.path d hd).append hp
  have hnearest : PathTable.nearest (fun p => SortedMap.find? (pathText p) ti.devicePaths)
      (d.path ++ p) = some (d.path, d.type) := by
    refine PathTable.nearest_append (f := fun p => SortedMap.find? (pathText p) ti.devicePaths)
      (find?_devicePaths hl he hd) fun t ht hne => ?_
    have hpre : d.path ++ t <+: d.path ++ p := (List.prefix_append_right_inj _).mpr ht
    refine find?_devicePaths_eq_none hl he (hplain.of_start hpre) fun d' hd' hpath => ?_
    have hle := (hinner d' hd' (hpath ▸ hpre)).length_le
    rw [hpath, List.length_append] at hle
    have hpos := List.length_pos_of_ne_nil hne
    omega
  rw [findDeviceType, findLongestPrefix_pathText _ hplain (Nat.lt_succ_self _), hnearest, Option.map_some]
  dsimp only
  rw [cutPrefix_pathText hplain]

theorem plain_of_mem_deviations (hl : Layout ds) (hf : f ∈ ds) (hd : d ∈ ds)
    {x : List Bytes × ShvDescr} (hx : x ∈ deviations f d) : PlainPath x.1 := by
  rcases List.mem_append.mp hx with hx | hx
  · obtain ⟨q, hq, hqx⟩ := List.mem_filterMap.mp hx
    rw [deviationOf] at hqx
    have hkey : x.1 = q.1 := by
      split at hqx
      · rw [← Option.some.inj hqx]
      · split at hqx
        · cases hqx
        · rw [← Option.some.inj hqx]
    rw [hkey]
    exact (hl.named f hf q hq).1
  · exact (hl.named d hd x (List.mem_of_mem_filter hx)).1

/-- What a device has at a deviating path, or an invalid description if it has nothing. -/
theorem mem_deviations (hl : Layout ds) (hd : d ∈ ds) {x : List Bytes × ShvDescr}
    (hx : x ∈ deviations f d) : x.2 = (propertyAt d.properties x.1).getD ⟨.invalid⟩ := by
  rcases List.mem_append.mp hx with hx | hx
  · obtain ⟨q, hq, hqx⟩ := List.mem_filterMap.mp hx
    rw [deviationOf] at hqx
    split at hqx
    · rename_i hnone
      rw [← Option.some.inj hqx, hnone]
      rfl
    · rename_i q' hsome
      split at hqx
      · cases hqx
      · rw [← Option.some.inj hqx, hsome]
        rfl
  · rw [propertyAt_of_mem (hl.distinct d hd) (List.mem_of_mem_filter hx)]
    rfl

theorem find?_propertyDeviations_eq_some (hl : Layout ds) (he : Entered ds ti) (hpath : PlainPath path)
    {x : ShvDescr} (h : SortedMap.find? (pathText path) ti.propertyDeviations = some x) :
    ∃ d ∈ ds, ∃ p ∈ deviating ds d, path = d.path ++ p ∧
      x = (propertyAt d.properties p).getD ⟨.invalid⟩ := by
  obtain ⟨es, hes, hmem⟩ := he.propertyDeviations
  rw [hes] at h
  rcases SortedMap.find?_foldl_insert_eq_some (fun e : List Bytes × ShvDescr => pathText e.1)
    Prod.snd h with ⟨e, he, hkey, rfl⟩ | hnil
  · obtain ⟨d, hd, f, hf, x, hx, rfl⟩ := (hmem e).mp he
    have hplain := (hl.path d hd).append (plain_of_mem_deviations hl (mem_of_first hf) hd hx)
    refine ⟨d, hd, x.1, mem_deviating.mpr ⟨f, hf, List.mem_map_of_mem hx⟩, ?_, mem_deviations hl hd hx⟩
    exact ((pathText_eq_iff hplain hpath).mp hkey).symm
  · cases hnil

theorem isSome_find?_propertyDeviations (he : Entered ds ti) (hd : d ∈ ds) (h : p ∈ deviating ds d) :
    (SortedMap.find? (pathText (d.path ++ p)) ti.propertyDeviations).isSome = true := by
  obtain ⟨f, hf, hp⟩ := mem_deviating.mp h
  obtain ⟨x, hx, rfl⟩ := List.mem_map.mp hp
  obtain ⟨es, hes, hmem⟩ := he.propertyDeviations
  rw [hes]
  exact SortedMap.isSome_find?_foldl_insert (fun e : List Bytes × ShvDescr => pathText e.1) Prod.snd
    (.inl ⟨_, (hmem _).mpr ⟨d, hd, f, hf, x, hx, rfl⟩, rfl⟩)

/-- No deviation hides the description at a path of a device: the path deviates itself, and no
device around it has a deviation there, or no path above it deviates. -/
def Clear (ds : List Device) (d : Device) (p : List Bytes) : Prop :=
  ∀ d' ∈ ds, ∀ p' ∈ deviating ds d', d'.path ++ p' <+: d.path ++ p →
    (d'.path = d.path ∧ p' = p) ∨ (p ∈ deviating ds d ∧ d'.path ++ p' ≠ d.path ++ p)

theorem nearestDeviation (hpath : PlainPath path) :
    findLongestPrefix ti.propertyDeviations ((pathText path).length + 1) (pathText path) =
      (PathTable.nearest (fun p => SortedMap.find? (pathText p) ti.propertyDeviations) path).map
        fun e => (pathText e.1, e.2) :=
  findLongestPrefix_pathText _ hpath (Nat.lt_succ_self _)

theorem nearestDeviation_eq_none (hl : Layout ds) (he : Entered ds ti) (hpath : PlainPath path)
    (h : ∀ d' ∈ ds, ∀ p' ∈ deviating ds d', ¬ d'.path ++ p' <+: path) :
    PathTable.nearest (fun p => SortedMap.find? (pathText p) ti.propertyDeviations) path = none := by
  refine PathTable.nearest_eq_none fun k hk => ?_
  cases hfind : SortedMap.find? (pathText k) ti.propertyDeviations with
  | none => rfl
  | some x =>
    obtain ⟨d', hd', p', hdev, rfl, -⟩ :=
      find?_propertyDeviations_eq_some hl he (hpath.of_start hk) hfind
    exact absurd hk (h d' hd' p' hdev)

/-- The description of the type has a property that does not deviate. -/
theorem exists_of_not_deviates (hl : Layout ds) (hd : d ∈ ds) {q : List Bytes × ShvDescr}
    (hq : q ∈ d.properties) (hnot : q.1 ∉ deviating ds d) :
    ∃ f ∈ ds, ds.find? (·.type = d.type) = some f ∧ ∃ q' ∈ f.properties, q'.1 = q.1 ∧
      (q'.2 = q.2 ∨ q.2.m_data.eq q'.2.m_data = true) := by
  obtain ⟨f, hf⟩ := exists_find?_type hd
  have hfmem := List.mem_of_find?_eq_some hf
  refine ⟨f, hfmem, hf, ?_⟩
  by_cases hpath : f.path = d.path
  · rw [hl.eq_of_path hfmem hd hpath]
    exact ⟨q, hq, rfl, .inl rfl⟩
  · have hkey : q.1 ∉ (deviations f d).map (·.1) := fun hkey =>
      hnot (mem_deviating.mpr ⟨f, ⟨hf, hpath⟩, hkey⟩)
    by_cases hin : q.1 ∈ f.properties.map (·.1)
    · obtain ⟨q', hq', hq'q⟩ := List.mem_map.mp hin
      refine ⟨q', hq', hq'q, .inr ?_⟩
      by_contra hne
      refine hkey (List.mem_map.mpr ⟨(q'.1, q.2), List.mem_append_left _ ?_, hq'q⟩)
      refine List.mem_filterMap.mpr ⟨q', hq', ?_⟩
      rw [deviationOf, hq'q, propertyAt_of_mem (hl.distinct d hd) hq]
      exact if_neg hne
    · refine absurd (List.mem_map_of_mem (List.mem_append_right _ ?_)) hkey
      exact List.mem_filter.mpr ⟨hq, isNone_propertyAt.trans (decide_eq_true hin)⟩

theorem findPropertyDescription_eq (hl : Layout ds) (he : Entered ds ti) (hf : f ∈ ds) {type : Bytes}
    (hfind : ds.find? (·.type = type) = some f) {q : List Bytes × ShvDescr} (hq : q ∈ f.properties) :
    ti.findPropertyDescription type (pathText q.1) = (q.2, []) := by
  have hnamed := hl.named f hf
  have hlongest : f.description.findLongestPropertyPrefix (pathText q.1) = some q.2 := by
    refine findLongestPropertyPrefix_eq_some (List.mem_map_of_mem hq) ?_ ?_
    · rw [(hnamed q hq).2]
      exact (startsWithPath_pathText (hnamed q hq).1 (hnamed q hq).1).mpr (List.prefix_refl _)
    · intro y hy hstart hne
      obtain ⟨q', hq', rfl⟩ := List.mem_map.mp hy
      rw [(hnamed q' hq').2] at hstart ⊢
      rw [(hnamed q hq).2]
      have hpre := (startsWithPath_pathText (hnamed q' hq').1 (hnamed q hq).1).mp hstart
      refine PathTable.length_render_lt (hnamed q hq).1 hpre fun heq => hne ?_
      rw [List.inj_on_of_nodup_map (hl.distinct f hf) hq' hq heq]
  have hcut : cutPrefix (pathText q.1) (pathText q.1) = [] := by
    have hself := @cutPrefix_pathText q.1 []
    rw [List.append_nil] at hself
    exact hself (hnamed q hq).1
  rw [findPropertyDescription, he.deviceDescriptions, hfind, Option.map_some, Option.bind_some, hlongest]
  dsimp only
  rw [(hnamed q hq).2, hcut]

/-- A property is read back, unless a deviation hides it. -/
theorem pathInfo_of_property (hl : Layout ds) (he : Entered ds ti) (hd : d ∈ ds)
    {q : List Bytes × ShvDescr} (hq : q ∈ d.properties) (hclear : Clear ds d q.1) :
    ((ti.pathInfo (pathText (d.path ++ q.1))).propertyDescription = q.2 ∨
      q.2.m_data.eq (ti.pathInfo (pathText (d.path ++ q.1))).propertyDescription.m_data = true) ∧
    (ti.pathInfo (pathText (d.path ++ q.1))).fieldPath = [] := by
  have hplain := (hl.path d hd).append (hl.named d hd q hq).1
  have hdevice := findDeviceType_eq hl he hd (hl.named d hd q hq).1 (hl.inner d hd q hq)
  rw [pathInfo, hdevice, nearestDeviation hplain]
  by_cases hdev : q.1 ∈ deviating ds d
  · obtain ⟨x, hx⟩ := Option.isSome_iff_exists.mp (isSome_find?_propertyDeviations he hd hdev)
    obtain ⟨d', hd', p', hdev', hpath, hx'⟩ := find?_propertyDeviations_eq_some hl he hplain hx
    obtain ⟨hdpath, rfl⟩ : d'.path = d.path ∧ p' = q.1 := by
      refine (hclear d' hd' p' hdev' ?_).resolve_right fun h => h.2 hpath.symm
      rw [hpath]
    obtain rfl := hl.eq_of_path hd' hd hdpath
    obtain rfl : x = q.2 := by
      rw [hx', propertyAt_of_mem (hl.distinct d' hd') hq, Option.getD_some]
    obtain ⟨hvalid, hname⟩ := hl.described d' hd' q hq
    have hnil : cutPrefix (pathText (d'.path ++ q.1)) (pathText (d'.path ++ q.1)) = [] := by
      have hself := @cutPrefix_pathText (d'.path ++ q.1) []
      rw [List.append_nil] at hself
      exact hself hplain
    rw [PathTable.nearest_self (f := fun p => SortedMap.find? (pathText p) ti.propertyDeviations) hx,
      Option.map_some]
    dsimp only
    rw [hnil, if_pos hvalid, cutSufix, if_pos rfl, cutPrefix_pathText hplain]
    exact ⟨.inl hname, rfl⟩
  · obtain ⟨f, hf, hfind, q', hq', hkey, heq⟩ := exists_of_not_deviates hl hd hq hdev
    rw [nearestDeviation_eq_none hl he hplain fun d' hd' p' hdev' hpre => ?_, Option.map_none]
    · dsimp only
      rw [← hkey, findPropertyDescription_eq hl he hf hfind hq']
      dsimp only
      rw [if_pos (hl.described f hf q' hq').1]
      exact ⟨heq, rfl⟩
    · rcases hclear d' hd' p' hdev' hpre with ⟨hdpath, rfl⟩ | h
      · rw [hl.eq_of_path hd' hd hdpath] at hdev'
        exact hdev hdev'
      · exact hdev h.1

/-- Where a device has no property at a path and above it, there is none to be found, unless
the path belongs to a device in it or a deviation of a device around it lies above. -/
theorem pathInfo_of_lacking (hl : Layout ds) (he : Entered ds ti) (hd : d ∈ ds) (hp : PlainPath p)
    (hlacks : ∀ q ∈ d.properties, ¬ q.1 <+: p)
    (hinner : ∀ d' ∈ ds, d'.path <+: d.path ++ p → d'.path <+: d.path)
    (houter : ∀ d' ∈ ds, ∀ p' ∈ deviating ds d', d'.path ++ p' <+: d.path ++ p → d'.path = d.path) :
    (ti.pathInfo (pathText (d.path ++ p))).propertyDescription.isValid = false := by
  have hplain := (hl.path d hd).append hp
  rw [pathInfo, findDeviceType_eq hl he hd hp hinner, nearestDeviation hplain]
  cases hnearest : PathTable.nearest
      (fun p => SortedMap.find? (pathText p) ti.propertyDeviations) (d.path ++ p) with
  | some e =>
    obtain ⟨hpre, hfind⟩ := PathTable.nearest_eq_some hnearest
    obtain ⟨d', hd', p', hdev, hpath, hx⟩ :=
      find?_propertyDeviations_eq_some hl he (hplain.of_start hpre) hfind
    rw [hpath] at hpre
    have hdpath := houter d' hd' p' hdev hpre
    obtain rfl := hl.eq_of_path hd' hd hdpath
    have hnone : propertyAt d'.properties p' = none := propertyAt_eq_none.mpr fun q hq hqp =>
      hlacks q hq (hqp ▸ (List.prefix_append_right_inj _).mp hpre)
    have hinvalid : e.2.isValid = false := by
      rw [hx, hnone]
      rfl
    rw [Option.map_some]
    dsimp only
    rw [hinvalid]
    exact hinvalid
  | none =>
    obtain ⟨f, hf⟩ := exists_find?_type hd
    have hfmem := List.mem_of_find?_eq_some hf
    have hnone : f.description.findLongestPropertyPrefix (pathText p) = none := by
      refine findLongestPropertyPrefix_eq_none fun y hy hstart => ?_
      obtain ⟨q, hq, rfl⟩ := List.mem_map.mp hy
      obtain ⟨hqplain, hname⟩ := hl.named f hfmem q hq
      rw [hname] at hstart
      have hpre := (startsWithPath_pathText hqplain hp).mp hstart
      by_cases hpath : f.path = d.path
      · rw [hl.eq_of_path hfmem hd hpath] at hq
        exact hlacks q hq hpre
      · -- the first device has the property, so this one deviates
        have hat : propertyAt d.properties q.1 = none := propertyAt_eq_none.mpr fun q' hq' hqq =>
          hlacks q' hq' (hqq ▸ hpre)
        have hmem : (q.1, ⟨.invalid⟩) ∈ deviations f d := by
          refine List.mem_append_left _ (List.mem_filterMap.mpr ⟨q, hq, ?_⟩)
          rw [deviationOf, hat]
        have hsome := isSome_find?_propertyDeviations he hd
          (mem_deviating.mpr ⟨f, ⟨hf, hpath⟩, List.mem_map_of_mem hmem⟩)
        rw [PathTable.eq_none_of_nearest hnearest ((List.prefix_append_right_inj _).mpr hpre)] at hsome
        exact absurd hsome Bool.false_ne_true
    rw [Option.map_none]
    dsimp only
    rw [findPropertyDescription, he.deviceDescriptions, hf, Option.map_some, Option.bind_some, hnone]
    rfl

/-- A property that the first device of the type has and this one lacks is read back as removed. -/
theorem pathInfo_of_removed (hl : Layout ds) (he : Entered ds ti) (hd : d ∈ ds) (hp : PlainPath p)
    (hdeviates : p ∈ deviating ds d) (hlacks : ∀ q ∈ d.properties, q.1 ≠ p)
    (hinner : ∀ d' ∈ ds, d'.path <+: d.path ++ p → d'.path <+: d.path) :
    (ti.pathInfo (pathText (d.path ++ p))).propertyDescription.isValid = false := by
  have hplain := (hl.path d hd).append hp
  obtain ⟨x, hx⟩ := Option.isSome_iff_exists.mp (isSome_find?_propertyDeviations he hd hdeviates)
  obtain ⟨d', hd', p', -, hpath, hx'⟩ := find?_propertyDeviations_eq_some hl he hplain hx
  -- no device has a property there: around this device it would lie inside this one
  have hnone : propertyAt d'.properties p' = none := by
    refine propertyAt_eq_none.mpr fun q hq hqp => ?_
    have hpre : d'.path <+: d.path := hinner d' hd' (hpath ▸ List.prefix_append _ _)
    have hpre' : d.path <+: d'.path :=
      hl.inner d' hd' q hq d hd (by rw [hqp, ← hpath]; exact List.prefix_append _ _)
    have hdpath := hpre.eq_of_length (Nat.le_antisymm hpre.length_le hpre'.length_le)
    obtain rfl := hl.eq_of_path hd' hd hdpath
    exact hlacks q hq (hqp.trans (List.append_cancel_left hpath).symm)
  have hinvalid : x.isValid = false := by
    rw [hx', hnone]
    rfl
  rw [pathInfo, nearestDeviation hplain,
    PathTable.nearest_self (f := fun p => SortedMap.find? (pathText p) ti.propertyDeviations) hx,
    Option.map_some]
  dsimp only
  rw [hinvalid]
  exact hinvalid

end Entered

end ShvTypeInfo

end LibShv
