import LibShv.ShvTypeInfo.NodesTree

/-!
# LibShv.ShvTypeInfo.Deviations

What the tables hold when devices have been entered. The first device of a type gives
the description of the type; what others have otherwise are deviations, by their paths.
-/

namespace LibShv

namespace ShvTypeInfo

/-! ## the deviations of a device -/

/-- The description at a path of a device. -/
def propertyAt (ps : List (List Bytes × ShvDescr)) (p : List Bytes) : Option ShvDescr :=
  (ps.find? (·.1 = p)).map (·.2)

/-- A property of the first device that another one of the type lacks or has otherwise. -/
def deviationOf (ps : List (List Bytes × ShvDescr)) (p : List Bytes × ShvDescr) :
    Option (List Bytes × ShvDescr) :=
  match propertyAt ps p.1 with
  | none => some (p.1, ⟨.invalid⟩)
  | some q => if q.m_data.eq p.2.m_data then none else some (p.1, q)

/-- The deviations of a device from the first one of its type, by their paths in it. -/
def deviations (first d : Device) : List (List Bytes × ShvDescr) :=
  first.properties.filterMap (deviationOf d.properties) ++
    d.properties.filter fun q => (propertyAt first.properties q.1).isNone

/-- The properties of a device have plain paths, which are their names. -/
def Named (ps : List (List Bytes × ShvDescr)) : Prop :=
  ∀ q ∈ ps, PlainPath q.1 ∧ q.2.name = pathText q.1

variable {ps : List (List Bytes × ShvDescr)} {p : List Bytes}

theorem pathText_eq_iff {names names' : List Bytes} (h : PlainPath names) (h' : PlainPath names') :
    pathText names = pathText names' ↔ names = names' :=
  ⟨PathTable.render_inj h h', congrArg pathText⟩

theorem name_eq_iff (h : Named ps) {q : List Bytes × ShvDescr} (hq : q ∈ ps) (hp : PlainPath p) :
    q.2.name = pathText p ↔ q.1 = p := by
  rw [(h q hq).2]
  exact pathText_eq_iff (h q hq).1 hp

theorem find?_name (h : Named ps) (hp : PlainPath p) :
    (ps.map (·.2)).find? (·.name = pathText p) = propertyAt ps p := by
  rw [propertyAt, List.find?_map]
  refine congrArg _ (List.find?_congr fun q hq => ?_)
  exact decide_eq_decide.mpr (name_eq_iff h hq hp)

theorem propertyAt_eq_none : propertyAt ps p = none ↔ ∀ q ∈ ps, q.1 ≠ p := by
  rw [propertyAt, Option.map_eq_none_iff, List.find?_eq_none]
  simp

theorem isNone_propertyAt : (propertyAt ps p).isNone = decide (p ∉ ps.map (·.1)) := by
  rw [Bool.eq_iff_iff, Option.isNone_iff_eq_none, propertyAt_eq_none, decide_eq_true_iff, List.mem_map]
  constructor
  · rintro h ⟨q, hq, hqp⟩
    exact h q hq hqp
  · exact fun h q hq hqp => h ⟨q, hq, hqp⟩

theorem propertyAt_eq_some {q : ShvDescr} (h : propertyAt ps p = some q) : (p, q) ∈ ps := by
  obtain ⟨e, he, rfl⟩ := Option.map_eq_some_iff.mp h
  obtain rfl : e.1 = p := by simpa using List.find?_some he
  exact List.mem_of_find?_eq_some he

theorem propertyAt_of_mem (hdistinct : (ps.map (·.1)).Nodup) {q : List Bytes × ShvDescr} (hq : q ∈ ps) :
    propertyAt ps q.1 = some q.2 := by
  cases h : propertyAt ps q.1 with
  | none => exact absurd rfl (propertyAt_eq_none.mp h q hq)
  | some q' =>
    have hinj := List.inj_on_of_nodup_map hdistinct (propertyAt_eq_some h) hq rfl
    rw [← hinj]

theorem eraseP_name (h : Named ps) (hdistinct : (ps.map (·.1)).Nodup) (hp : PlainPath p) :
    (ps.map (·.2)).eraseP (·.name = pathText p) = (ps.filter (·.1 ≠ p)).map (·.2) := by
  induction ps with
  | nil => rfl
  | cons q ps ih =>
    obtain ⟨hq, hnodup⟩ := List.nodup_cons.mp hdistinct
    have hname := name_eq_iff h List.mem_cons_self hp
    by_cases hqp : q.1 = p
    · have hne : ∀ x ∈ ps, x.1 ≠ p := fun x hx hxp =>
        hq (List.mem_map.mpr ⟨x, hx, hxp.trans hqp.symm⟩)
      have hrest : ps.filter (·.1 ≠ p) = ps :=
        List.filter_eq_self.mpr fun x hx => decide_eq_true (hne x hx)
      rw [List.map_cons, List.eraseP_cons, decide_eq_true (hname.mpr hqp), cond_true,
        List.filter_cons_of_neg (by simpa using hqp), hrest]
    · rw [List.map_cons, List.eraseP_cons, decide_eq_false (fun hn => hqp (hname.mp hn)), cond_false,
        ih (fun x hx => h x (List.mem_cons_of_mem _ hx)) hnodup,
        List.filter_cons_of_pos (by simpa using hqp), List.map_cons]

/-! ## entering a device -/

variable {ti : ShvTypeInfo} {device_path : List Bytes}

/-- Deviations of a device are stored one after another. -/
def setDeviations (ti : ShvTypeInfo) (device_path : List Bytes) (es : List (List Bytes × ShvDescr)) :
    ShvTypeInfo :=
  es.foldl (fun ti e => ti.setPropertyDeviation (pathText (device_path ++ e.1)) e.2) ti

theorem setDeviations_append (ti : ShvTypeInfo) (es es' : List (List Bytes × ShvDescr)) :
    ti.setDeviations device_path (es ++ es') =
      (ti.setDeviations device_path es).setDeviations device_path es' :=
  List.foldl_append

theorem setDeviations_added (h : Named ps) (hdevice : PlainPath device_path) (ti : ShvTypeInfo) :
    (ps.map (·.2)).foldl
        (fun ti q => ti.setPropertyDeviation (joinPath (pathText device_path) q.name) q) ti =
      ti.setDeviations device_path ps := by
  induction ps generalizing ti with
  | nil => rfl
  | cons q ps ih =>
    obtain ⟨⟨hplain, hname⟩, hps⟩ := List.forall_mem_cons.mp h
    rw [List.map_cons, List.foldl_cons, hname, joinPath_pathText hdevice hplain, ih hps]
    rfl

/-- The loop over the properties of the first device of the type. -/
theorem addDeviations_loop {fs : List (List Bytes × ShvDescr)} (hfs : Named fs)
    (hfdistinct : (fs.map (·.1)).Nodup) (h : Named ps) (hdistinct : (ps.map (·.1)).Nodup)
    (hdevice : PlainPath device_path) (ti : ShvTypeInfo) (d : ShvDeviceDescription) :
    (fs.map (·.2)).foldl
        (fun (acc : ShvTypeInfo × ShvDeviceDescription) (p : ShvDescr) =>
          let shv_path := joinPath (pathText device_path) p.name
          match acc.2.findProperty p.name with
          | none => (acc.1.setPropertyDeviation shv_path ⟨.invalid⟩, acc.2)
          | some q =>
            (if q.m_data.eq p.m_data then acc.1 else acc.1.setPropertyDeviation shv_path q,
              { acc.2 with properties := acc.2.properties.eraseP (·.name = p.name) }))
        (ti, { d with properties := ps.map (·.2) }) =
      (ti.setDeviations device_path (fs.filterMap (deviationOf ps)),
        { d with properties := (ps.filter fun q => q.1 ∉ fs.map (·.1)).map (·.2) }) := by
  induction fs generalizing ti ps with
  | nil => simp [setDeviations]
  | cons p fs ih =>
    obtain ⟨⟨hplain, hname⟩, hfs⟩ := List.forall_mem_cons.mp hfs
    obtain ⟨hp, hfdistinct⟩ := List.nodup_cons.mp hfdistinct
    -- the property is gone from what is left of the new ones, if it was there
    have hsub : (ps.filter (·.1 ≠ p.1)).Sublist ps := List.filter_sublist
    have hrest := ih hfs hfdistinct (fun q hq => h q (hsub.subset hq))
      (hdistinct.sublist (hsub.map _))
    have hfilter : (ps.filter (·.1 ≠ p.1)).filter (fun q => q.1 ∉ fs.map (·.1)) =
        ps.filter fun q => q.1 ∉ (p :: fs).map (·.1) := by
      rw [List.filter_filter]
      refine List.filter_congr fun q _ => ?_
      rw [List.map_cons]
      by_cases hqp : q.1 = p.1
      · simp [hqp]
      · simp [hqp]
    have hdeviations : fs.filterMap (deviationOf (ps.filter (·.1 ≠ p.1))) =
        fs.filterMap (deviationOf ps) := by
      refine List.filterMap_congr fun p' hp' => ?_
      have hne : p'.1 ≠ p.1 := fun heq => hp (List.mem_map.mpr ⟨p', hp', heq⟩)
      have hat : propertyAt (ps.filter (·.1 ≠ p.1)) p'.1 = propertyAt ps p'.1 := by
        rw [propertyAt, propertyAt, List.find?_filter]
        refine congrArg _ (List.find?_congr fun q _ => ?_)
        by_cases hq : q.1 = p'.1
        · simp [hq, hne]
        · simp [hq]
      rw [deviationOf, hat, deviationOf]
    rw [hfilter, hdeviations] at hrest
    have hfind : ({ d with properties := ps.map (·.2) } : ShvDeviceDescription).findProperty p.2.name =
        propertyAt ps p.1 := by
      rw [ShvDeviceDescription.findProperty, hname]
      exact find?_name h hplain
    rw [List.map_cons, List.foldl_cons, List.filterMap_cons, deviationOf]
    dsimp only
    rw [hfind]
    cases hat : propertyAt ps p.1 with
    | none =>
      have hkeep : ps.filter (·.1 ≠ p.1) = ps :=
        List.filter_eq_self.mpr fun q hq => decide_eq_true (propertyAt_eq_none.mp hat q hq)
      rw [hkeep] at hrest
      dsimp only
      rw [hrest, hname, joinPath_pathText hdevice hplain]
      rfl
    | some q =>
      dsimp only
      have herase : (ps.map (·.2)).eraseP (fun x => decide (x.name = p.2.name)) =
          (ps.filter (·.1 ≠ p.1)).map (·.2) := by
        rw [hname]
        exact eraseP_name h hdistinct hplain
      rw [herase, hrest]
      by_cases heq : q.m_data.eq p.2.m_data = true
      · rw [if_pos heq, if_pos heq]
      · rw [if_neg heq, if_neg heq, hname, joinPath_pathText hdevice hplain]
        rfl

/-- A device of a known type stores its deviations. -/
theorem addDeviations_eq {f d : Device} (hf : Named f.properties)
    (hfdistinct : (f.properties.map (·.1)).Nodup) (hd : Named d.properties)
    (hdistinct : (d.properties.map (·.1)).Nodup) (hpath : PlainPath d.path) (ti : ShvTypeInfo) :
    ti.addDeviations (pathText d.path) f.description d.description =
      ti.setDeviations d.path (deviations f d) := by
  have hloop := addDeviations_loop hf hfdistinct hd hdistinct hpath ti d.description
  have hrest : Named (d.properties.filter fun q => q.1 ∉ f.properties.map (·.1)) :=
    fun q hq => hd q (List.mem_of_mem_filter hq)
  simp only [deviations, isNone_propertyAt]
  rw [setDeviations_append, ← setDeviations_added hrest hpath]
  exact congrArg (fun acc : ShvTypeInfo × ShvDeviceDescription => acc.2.properties.foldl
    (fun ti q => ti.setPropertyDeviation (joinPath (pathText d.path) q.name) q) acc.1) hloop

theorem devicePaths_setDeviations (es : List (List Bytes × ShvDescr)) :
    (ti.setDeviations device_path es).devicePaths = ti.devicePaths := by
  induction es generalizing ti with
  | nil => rfl
  | cons e es ih => exact ih

theorem deviceDescriptions_setDeviations (es : List (List Bytes × ShvDescr)) :
    (ti.setDeviations device_path es).deviceDescriptions = ti.deviceDescriptions := by
  induction es generalizing ti with
  | nil => rfl
  | cons e es ih => exact ih

/-- An entry of a table for its path. -/
def storeAt (m : List (Bytes × ShvDescr)) (e : List Bytes × ShvDescr) : List (Bytes × ShvDescr) :=
  SortedMap.insert (pathText e.1) e.2 m

theorem propertyDeviations_setDeviations (es : List (List Bytes × ShvDescr)) :
    (ti.setDeviations device_path es).propertyDeviations =
      (es.map fun e => (device_path ++ e.1, e.2)).foldl storeAt ti.propertyDeviations := by
  induction es generalizing ti with
  | nil => rfl
  | cons e es ih => exact ih

/-! ## devices of a tree -/

/-- Devices as a tree has them: they have paths of their own, their properties do, and no
device lies between a device and a property of it. -/
structure Layout (ds : List Device) : Prop where
  path : ∀ d ∈ ds, PlainPath d.path
  named : ∀ d ∈ ds, Named d.properties
  distinct : ∀ d ∈ ds, (d.properties.map (·.1)).Nodup
  described : ∀ d ∈ ds, ∀ q ∈ d.properties, q.2.isValid = true ∧ q.2.setName (pathText q.1) = q.2
  paths : (ds.map (·.path)).Nodup
  inner : ∀ d ∈ ds, ∀ q ∈ d.properties, ∀ d' ∈ ds, d'.path <+: d.path ++ q.1 → d'.path <+: d.path

/-- The first device of the type, being another one. -/
def First (ds : List Device) (d f : Device) : Prop :=
  ds.find? (·.type = d.type) = some f ∧ f.path ≠ d.path

/-- The paths at which a device has something else than the first one of its type. -/
def deviating (ds : List Device) (d : Device) : List (List Bytes) :=
  match ds.find? (·.type = d.type) with
  | none => []
  | some f => if f.path = d.path then [] else (deviations f d).map (·.1)

variable {ds : List Device} {d f : Device}

theorem Layout.sub {ds ds' : List Device} (h : Layout ds') (hsub : ds.Sublist ds') : Layout ds where
  path d hd := h.path d (hsub.subset hd)
  named d hd := h.named d (hsub.subset hd)
  distinct d hd := h.distinct d (hsub.subset hd)
  described d hd := h.described d (hsub.subset hd)
  paths := h.paths.sublist (hsub.map _)
  inner d hd q hq d' hd' := h.inner d (hsub.subset hd) q hq d' (hsub.subset hd')

theorem Layout.eq_of_path (h : Layout ds) {d d' : Device} (hd : d ∈ ds) (hd' : d' ∈ ds)
    (hpath : d.path = d'.path) : d = d' :=
  List.inj_on_of_nodup_map h.paths hd hd' hpath

theorem mem_deviating : p ∈ deviating ds d ↔ ∃ f, First ds d f ∧ p ∈ (deviations f d).map (·.1) := by
  constructor
  · intro hp
    rw [deviating] at hp
    split at hp
    · exact absurd hp List.not_mem_nil
    · rename_i f hfind
      split at hp
      · exact absurd hp List.not_mem_nil
      · rename_i hpath
        exact ⟨f, ⟨hfind, hpath⟩, hp⟩
  · rintro ⟨f, ⟨hfind, hpath⟩, hp⟩
    rw [deviating, hfind]
    dsimp only
    rwa [if_neg hpath]

theorem mem_of_first (h : First ds d f) : f ∈ ds := List.mem_of_find?_eq_some h.1

theorem exists_find?_type (hd : d ∈ ds) : ∃ f, ds.find? (·.type = d.type) = some f := by
  cases hfind : ds.find? (·.type = d.type) with
  | none => exact absurd (decide_eq_true rfl) (List.find?_eq_none.mp hfind d hd)
  | some f => exact ⟨f, rfl⟩

theorem first_append_of_mem (hd : d ∈ ds) (d' : Device) : First (ds ++ [d']) d f ↔ First ds d f := by
  obtain ⟨g, hg⟩ := exists_find?_type hd
  rw [First, First, List.find?_append, hg, Option.some_or]

theorem first_append_self (h : Layout (ds ++ [d])) :
    First (ds ++ [d]) d f ↔ ds.find? (·.type = d.type) = some f := by
  rw [First, List.find?_append]
  cases hfind : ds.find? (·.type = d.type) with
  | none =>
    constructor
    · rintro ⟨hself, hne⟩
      rw [Option.none_or, List.find?_cons_of_pos (by simp)] at hself
      exact absurd (congrArg Device.path (Option.some.inj hself)).symm hne
    · intro hnone
      cases hnone
  | some g =>
    rw [Option.some_or]
    refine ⟨And.left, fun hg => ⟨hg, fun hpath => ?_⟩⟩
    obtain rfl := Option.some.inj hg
    have hpaths := h.paths
    rw [List.map_append] at hpaths
    exact (List.nodup_append.mp hpaths).2.2 _ (List.mem_map_of_mem (List.mem_of_find?_eq_some hfind)) _
      List.mem_cons_self hpath

/-- What the tables hold. -/
structure Entered (ds : List Device) (ti : ShvTypeInfo) : Prop where
  devicePaths : ti.devicePaths = ds.foldl (fun m d => SortedMap.insert (pathText d.path) d.type m) []
  deviceDescriptions : ∀ type, SortedMap.find? type ti.deviceDescriptions =
    (ds.find? (·.type = type)).map Device.description
  propertyDeviations : ∃ es : List (List Bytes × ShvDescr), ti.propertyDeviations = es.foldl storeAt [] ∧
    ∀ e, e ∈ es ↔ ∃ d ∈ ds, ∃ f, First ds d f ∧ ∃ x ∈ deviations f d, e = (d.path ++ x.1, x.2)

theorem entered_enterDevices (h : Layout ds) : Entered ds (enterDevices {} ds) := by
  induction ds using List.reverseRecOn with
  | nil => exact ⟨rfl, fun _ => rfl, [], rfl, by simp⟩
  | append_singleton ds d ih =>
    have hds := h.sub (List.sublist_append_left ds [d])
    obtain ⟨hpaths, hdescriptions, es, hes, hmem⟩ := ih hds
    have hd : d ∈ ds ++ [d] := List.mem_append_right _ List.mem_cons_self
    rw [enterDevices_append, enterDevices, List.foldl_cons, List.foldl_nil, enterDevice]
    have hfirst : ∀ e, (∃ d' ∈ ds ++ [d], ∃ f, First (ds ++ [d]) d' f ∧
        ∃ x ∈ deviations f d', e = (d'.path ++ x.1, x.2)) ↔
        e ∈ es ∨ ∃ f, ds.find? (·.type = d.type) = some f ∧ ∃ x ∈ deviations f d,
          e = (d.path ++ x.1, x.2) := by
      intro e
      rw [hmem]
      constructor
      · rintro ⟨d', hd', f, hf, hx⟩
        rcases List.mem_append.mp hd' with hd' | hd'
        · exact .inl ⟨d', hd', f, (first_append_of_mem hd' d).mp hf, hx⟩
        · obtain rfl := List.mem_singleton.mp hd'
          exact .inr ⟨f, (first_append_self h).mp hf, hx⟩
      · rintro (⟨d', hd', f, hf, hx⟩ | ⟨f, hf, hx⟩)
        · exact ⟨d', List.mem_append_left _ hd', f, (first_append_of_mem hd' d).mpr hf, hx⟩
        · exact ⟨d, hd, f, (first_append_self h).mpr hf, hx⟩
    have hdevicePaths : SortedMap.insert (pathText d.path) d.type (enterDevices {} ds).devicePaths =
        (ds ++ [d]).foldl (fun m d => SortedMap.insert (pathText d.path) d.type m) [] := by
      rw [List.foldl_append, hpaths]
      rfl
    dsimp only
    rw [hdescriptions]
    cases hfind : ds.find? (·.type = d.type) with
    | none =>
      rw [Option.map_none]
      refine ⟨hdevicePaths, fun type => ?_, es, hes, fun e => ?_⟩
      · dsimp only
        by_cases htype : type = d.type
        · rw [htype, SortedMap.find?_insert_self, List.find?_append, hfind, Option.none_or,
            List.find?_cons_of_pos (by simp)]
          rfl
        · rw [SortedMap.find?_insert_of_ne htype, hdescriptions, List.find?_append,
            List.find?_cons_of_neg (by simpa using Ne.symm htype), List.find?_nil, Option.or_none]
      · rw [hfirst, hfind]
        simp
    | some f =>
      have hf : f ∈ ds ++ [d] := List.mem_append_left _ (List.mem_of_find?_eq_some hfind)
      rw [Option.map_some]
      dsimp only
      rw [addDeviations_eq (h.named f hf) (h.distinct f hf) (h.named d hd) (h.distinct d hd) (h.path d hd)]
      refine ⟨?_, fun type => ?_, es ++ (deviations f d).map fun x => (d.path ++ x.1, x.2), ?_, fun e => ?_⟩
      · rw [devicePaths_setDeviations, hdevicePaths]
      · rw [deviceDescriptions_setDeviations, hdescriptions, List.find?_append]
        by_cases htype : type = d.type
        · rw [htype, hfind, Option.some_or]
        · rw [List.find?_cons_of_neg (by simpa using Ne.symm htype), List.find?_nil, Option.or_none]
      · rw [propertyDeviations_setDeviations, hes, List.foldl_append]
      · rw [hfirst, hfind, List.mem_append, List.mem_map]
        simp [eq_comm]

end ShvTypeInfo

end LibShv
