import LibShv.ShvTypeInfo.Deviations

/-!
# LibShv.ShvTypeInfo.Layout

The devices that are collected from a tree of nodes have paths of their own, and so
have the properties of each.
-/

namespace LibShv

namespace ShvTypeInfo

/-! ## names of descriptions -/

theorem setName_eq {d : ShvDescr} (h : d.m_data.isMap = true) (n : Bytes) :
    d.setName n =
      ⟨.mk d.m_data.metaData (.map (SortedMap.insert (ascii "name") (text n) d.m_data.asMap))⟩ := by
  have hvalid : (text n).isValid = true := rfl
  rw [ShvDescr.setName, ShvDescr.setDataValue, if_pos h, RpcMap.setValue, if_pos hvalid]

theorem name_setName {d : ShvDescr} (h : d.m_data.isMap = true) (n : Bytes) : (d.setName n).name = n := by
  rw [setName_eq h, ShvDescr.name, ShvDescr.dataValue, RpcMap.get, RpcMap.valueOr]
  exact congrArg (fun o : Option RpcValue => (o.getD .invalid).asString)
    (SortedMap.find?_insert_self (ascii "name") (text n) d.m_data.asMap)

theorem isValid_setName {d : ShvDescr} (h : d.m_data.isMap = true) (n : Bytes) :
    (d.setName n).isValid = true := by
  rw [setName_eq h]
  exact decide_eq_true (SortedMap.insert_ne_nil _ _ _)

theorem setName_setName {d : ShvDescr} (h : d.m_data.isMap = true) (n : Bytes) :
    (d.setName n).setName n = d.setName n := by
  have hmap : (d.setName n).m_data.isMap = true := by
    rw [setName_eq h]
    rfl
  rw [setName_eq hmap, setName_eq h]
  exact congrArg (fun m => ShvDescr.mk (.mk d.m_data.metaData (.map m)))
    (SortedMap.insert_insert (ascii "name") (text n) d.m_data.asMap)

/-! ## parts of a tree -/

/-- Properties of a device, with devices that none of them belongs to. -/
structure Part (device_path : List Bytes) (r : List (List Bytes × ShvDescr) × List Device) : Prop where
  layout : Layout r.2
  named : Named r.1
  distinct : (r.1.map (·.1)).Nodup
  described : ∀ q ∈ r.1, q.2.isValid = true ∧ q.2.setName (pathText q.1) = q.2
  free : ∀ q ∈ r.1, ∀ d ∈ r.2, ¬ d.path <+: device_path ++ q.1

/-- The paths of all properties and devices. -/
def fullPaths (device_path : List Bytes) (r : List (List Bytes × ShvDescr) × List Device) :
    List (List Bytes) :=
  r.1.map (device_path ++ ·.1) ++ r.2.map (·.path)

variable {device_path property_path : List Bytes} {r r' : List (List Bytes × ShvDescr) × List Device}

theorem property_mem_fullPaths {q : List Bytes × ShvDescr} (h : q ∈ r.1) :
    device_path ++ q.1 ∈ fullPaths device_path r :=
  List.mem_append_left _ (List.mem_map.mpr ⟨q, h, rfl⟩)

theorem device_mem_fullPaths {d : Device} (h : d ∈ r.2) : d.path ∈ fullPaths device_path r :=
  List.mem_append_right _ (List.mem_map_of_mem h)

theorem layout_nil : Layout [] where
  path _ hd := absurd hd List.not_mem_nil
  named _ hd := absurd hd List.not_mem_nil
  distinct _ hd := absurd hd List.not_mem_nil
  described _ hd := absurd hd List.not_mem_nil
  paths := List.nodup_nil
  inner _ hd := absurd hd List.not_mem_nil

theorem part_nil : Part device_path ([], []) where
  layout := layout_nil
  named _ hq := absurd hq List.not_mem_nil
  distinct := List.nodup_nil
  described _ hq := absurd hq List.not_mem_nil
  free _ hq := absurd hq List.not_mem_nil

/-- Paths that nothing lies below both of. -/
def Apart (as bs : List (List Bytes)) : Prop := ∀ a ∈ as, ∀ b ∈ bs, ∀ l, a <+: l → ¬ b <+: l

theorem Layout.append {ds ds' : List Device} (h : Layout ds) (h' : Layout ds')
    (hapart : Apart (ds.map (·.path)) (ds'.map (·.path))) : Layout (ds ++ ds') where
  path := List.forall_mem_append.mpr ⟨h.path, h'.path⟩
  named := List.forall_mem_append.mpr ⟨h.named, h'.named⟩
  distinct := List.forall_mem_append.mpr ⟨h.distinct, h'.distinct⟩
  described := List.forall_mem_append.mpr ⟨h.described, h'.described⟩
  paths := by
    rw [List.map_append]
    refine List.nodup_append.mpr ⟨h.paths, h'.paths, fun a ha b hb hab => ?_⟩
    exact hapart a ha b hb a (List.prefix_refl a) (hab ▸ List.prefix_refl a)
  inner := by
    intro d hd q hq d' hd' hpre
    rcases List.mem_append.mp hd with hd | hd <;> rcases List.mem_append.mp hd' with hd' | hd'
    · exact h.inner d hd q hq d' hd' hpre
    · exact absurd hpre (hapart _ (List.mem_map_of_mem hd) _ (List.mem_map_of_mem hd') _
        (List.prefix_append _ _))
    · exact absurd (List.prefix_append _ _) (hapart _ (List.mem_map_of_mem hd') _
        (List.mem_map_of_mem hd) _ hpre)
    · exact h'.inner d hd q hq d' hd' hpre

theorem Part.append (h : Part device_path r) (h' : Part device_path r')
    (hapart : Apart (fullPaths device_path r) (fullPaths device_path r')) :
    Part device_path (r.1 ++ r'.1, r.2 ++ r'.2) where
  layout := h.layout.append h'.layout fun a ha b hb =>
    hapart a (List.mem_append_right _ ha) b (List.mem_append_right _ hb)
  named := List.forall_mem_append.mpr ⟨h.named, h'.named⟩
  distinct := by
    rw [List.map_append]
    refine List.nodup_append.mpr ⟨h.distinct, h'.distinct, fun a ha b hb hab => ?_⟩
    obtain ⟨q, hq, rfl⟩ := List.mem_map.mp ha
    obtain ⟨q', hq', rfl⟩ := List.mem_map.mp hb
    have hpaths := hapart _ (property_mem_fullPaths hq) _ (property_mem_fullPaths hq') _
      (List.prefix_refl _)
    rw [hab] at hpaths
    exact hpaths (List.prefix_refl _)
  described := List.forall_mem_append.mpr ⟨h.described, h'.described⟩
  free := by
    intro q hq d hd hpre
    rcases List.mem_append.mp hq with hq | hq <;> rcases List.mem_append.mp hd with hd | hd
    · exact h.free q hq d hd hpre
    · exact hapart _ (property_mem_fullPaths hq) _ (device_mem_fullPaths hd) _ (List.prefix_refl _) hpre
    · exact hapart _ (device_mem_fullPaths hd) _ (property_mem_fullPaths hq) _ hpre (List.prefix_refl _)
    · exact h'.free q hq d hd hpre

/-- Paths below different children of a node. -/
theorem apart_of_heads {base : List Bytes} {as bs : List (List Bytes)} {P Q : Bytes → Prop}
    (ha : ∀ a ∈ as, ∃ c, P c ∧ base ++ [c] <+: a) (hb : ∀ b ∈ bs, ∃ c, Q c ∧ base ++ [c] <+: b)
    (hne : ∀ c, P c → ¬ Q c) : Apart as bs := by
  intro a has b hbs l hal hbl
  obtain ⟨c, hc, hca⟩ := ha a has
  obtain ⟨c', hc', hcb⟩ := hb b hbs
  have hpre := List.prefix_of_prefix_length_le (hca.trans hal) (hcb.trans hbl) (by simp)
  have heq := hpre.eq_of_length (by simp)
  obtain rfl : c = c' := by simpa using heq
  exact hne c hc hc'

/-! ## what is collected -/

variable {node v : RpcValue} {base : List Bytes}

/-- Everything collected lies at or below `base`. -/
def Under (base : List Bytes) (paths : List (List Bytes)) : Prop := ∀ l ∈ paths, base <+: l

theorem isMap_declared (node : RpcValue) : (declared node).m_data.isMap = true := rfl

/-- The description that a node declares, as a part of its own. -/
theorem part_ownProperty (hproperty : PlainPath property_path) :
    Part device_path (ownProperty node property_path, []) := by
  have hmap := isMap_declared node
  have hown : ∀ q ∈ ownProperty node property_path,
      q = (property_path, (declared node).setName (pathText property_path)) := by
    intro q hq
    rw [ownProperty] at hq
    split at hq
    · exact List.mem_singleton.mp hq
    · exact absurd hq List.not_mem_nil
  refine ⟨layout_nil, fun q hq => ?_, ?_, fun q hq => ?_, fun _ _ _ hd => absurd hd List.not_mem_nil⟩
  · rw [hown q hq]
    exact ⟨hproperty, name_setName hmap _⟩
  · rw [ownProperty]
    split
    · exact List.nodup_singleton _
    · exact List.nodup_nil
  · rw [hown q hq]
    exact ⟨isValid_setName hmap _, setName_setName hmap _⟩

theorem ownProperty_path {q : List Bytes × ShvDescr} (h : q ∈ ownProperty node property_path) :
    q.1 = property_path := by
  rw [ownProperty] at h
  split at h
  · rw [List.mem_singleton.mp h]
  · exact absurd h List.not_mem_nil

/-- The own description of a node goes with what lies below its children. -/
theorem Part.cons_own (hproperty : PlainPath property_path) (h : Part device_path r)
    (hbelow : ∀ l ∈ fullPaths device_path r, ∃ c, device_path ++ property_path ++ [c] <+: l) :
    Part device_path (ownProperty node property_path ++ r.1, r.2) := by
  have hown : Part device_path (ownProperty node property_path, []) := part_ownProperty hproperty
  have hlonger : ∀ l ∈ fullPaths device_path r, ¬ l <+: device_path ++ property_path := by
    intro l hl hpre
    obtain ⟨c, hc⟩ := hbelow l hl
    have := (hc.trans hpre).length_le
    simp at this
  refine ⟨h.layout, List.forall_mem_append.mpr ⟨hown.named, h.named⟩, ?_,
    List.forall_mem_append.mpr ⟨hown.described, h.described⟩, fun q hq d hd => ?_⟩
  · rw [List.map_append]
    refine List.nodup_append.mpr ⟨hown.distinct, h.distinct, fun a ha b hb hab => ?_⟩
    obtain ⟨q, hq, rfl⟩ := List.mem_map.mp ha
    obtain ⟨q', hq', rfl⟩ := List.mem_map.mp hb
    have hmem : device_path ++ q'.1 ∈ fullPaths device_path r := property_mem_fullPaths hq'
    refine hlonger _ hmem ?_
    rw [← hab, ownProperty_path hq]
  · rcases List.mem_append.mp hq with hq | hq
    · rw [ownProperty_path hq]
      exact hlonger _ (device_mem_fullPaths hd)
    · exact h.free q hq d hd

/-- Children of different names, one after another. -/
theorem part_children {below : Bytes × RpcValue → List (List Bytes × ShvDescr) × List Device}
    {children : RpcMap} (hnames : (children.map (·.1)).Nodup)
    (hpart : ∀ child ∈ children, Part device_path (below child))
    (hunder : ∀ child ∈ children, Under (base ++ [child.1]) (fullPaths device_path (below child))) :
    Part device_path ((children.map below).flatMap (·.1), (children.map below).flatMap (·.2)) ∧
    ∀ l ∈ fullPaths device_path ((children.map below).flatMap (·.1), (children.map below).flatMap (·.2)),
      ∃ c ∈ children.map (·.1), base ++ [c] <+: l := by
  induction children with
  | nil => exact ⟨part_nil, fun l hl => absurd hl List.not_mem_nil⟩
  | cons child children ih =>
    obtain ⟨hchild, hrest⟩ := List.forall_mem_cons.mp hpart
    obtain ⟨huchild, hurest⟩ := List.forall_mem_cons.mp hunder
    obtain ⟨hnew, hnodup⟩ := List.nodup_cons.mp hnames
    obtain ⟨ihpart, ihbelow⟩ := ih hnodup hrest hurest
    have hhead : ∀ l ∈ fullPaths device_path (below child), ∃ c, c = child.1 ∧ base ++ [c] <+: l :=
      fun l hl => ⟨_, rfl, huchild l hl⟩
    have happart := apart_of_heads (Q := (· ∈ children.map (·.1))) hhead ihbelow
      fun c hc hmem => hnew (by rwa [hc] at hmem)
    refine ⟨hchild.append ihpart happart, fun l hl => ?_⟩
    rw [fullPaths] at hl
    rcases List.mem_append.mp hl with hl | hl
    · rw [List.map_cons, List.flatMap_cons, List.map_append] at hl
      rcases List.mem_append.mp hl with hl | hl
      · exact ⟨_, List.mem_cons_self, huchild l (List.mem_append_left _ hl)⟩
      · obtain ⟨c, hc, hpre⟩ := ihbelow l (List.mem_append_left _ hl)
        exact ⟨c, List.mem_cons_of_mem _ hc, hpre⟩
    · dsimp only at hl
      rw [List.map_cons, List.flatMap_cons, List.map_append] at hl
      rcases List.mem_append.mp hl with hl | hl
      · exact ⟨_, List.mem_cons_self, huchild l (List.mem_append_right _ hl)⟩
      · obtain ⟨c, hc, hpre⟩ := ihbelow l (List.mem_append_right _ hl)
        exact ⟨c, List.mem_cons_of_mem _ hc, hpre⟩

/-- What is collected to this depth from a tree is a part at and below its path. -/
def Collects (n : Nat) : Prop :=
  ∀ (node : RpcValue) (device_path property_path : List Bytes), PlainTree node →
    PlainPath device_path → PlainPath property_path →
    Part device_path (collect n node device_path property_path) ∧
      Under (device_path ++ property_path)
        (fullPaths device_path (collect n node device_path property_path))

theorem PlainTree.nodup_names (h : PlainTree node) : ((childNodes node).map (·.1)).Nodup := by
  have hsort := h.sorted node Relation.ReflTransGen.refl
  have hsub : (childNodes node).Sublist node.asMap := by
    rw [childNodes]
    refine List.filter_sublist.trans ?_
    split
    · exact List.Sublist.refl _
    · exact List.nil_sublist _
  refine List.pairwise_map.mpr ((hsort.sublist hsub).imp fun {a b} hlt he => ?_)
  rw [he, Std.ReflOrd.compare_self] at hlt
  contradiction

theorem part_nodeAndBelow {n : Nat} (hcollect : Collects n) (hplain : PlainTree node)
    (hdevice : PlainPath device_path) (hproperty : PlainPath property_path) :
    Part device_path (nodeAndBelow (collect n) node device_path property_path) ∧
      Under (device_path ++ property_path)
        (fullPaths device_path (nodeAndBelow (collect n) node device_path property_path)) ∧
      ∀ d ∈ (nodeAndBelow (collect n) node device_path property_path).2,
        ¬ d.path <+: device_path ++ property_path := by
  have hchild : ∀ child ∈ childNodes node,
      Part device_path (collect n child.2 device_path (property_path ++ [child.1])) ∧
        Under (device_path ++ property_path ++ [child.1])
          (fullPaths device_path (collect n child.2 device_path (property_path ++ [child.1]))) := by
    intro child hchild
    rw [List.append_assoc]
    exact hcollect _ _ _ (hplain.child hchild) hdevice (hproperty.concat (hplain.isName hchild))
  obtain ⟨hpart, hbelow⟩ := part_children hplain.nodup_names (fun child h => (hchild child h).1)
    fun child h => (hchild child h).2
  have hbelow' := fun l hl => (hbelow l hl).imp fun c h => h.2
  refine ⟨hpart.cons_own hproperty hbelow', fun l hl => ?_, fun d hd hpre => ?_⟩
  · rw [fullPaths, nodeAndBelow] at hl
    dsimp only at hl
    rw [List.map_append, List.append_assoc] at hl
    rcases List.mem_append.mp hl with hl | hl
    · obtain ⟨q, hq, rfl⟩ := List.mem_map.mp hl
      rw [ownProperty_path hq]
    · obtain ⟨c, hc⟩ := hbelow' l hl
      exact (List.prefix_append _ _).trans hc
  · obtain ⟨c, hc⟩ := hbelow' d.path (device_mem_fullPaths hd)
    have := (hc.trans hpre).length_le
    simp at this

/-- A device with the devices in it. -/
theorem layout_device (device_type : Bytes) (h : Part base r) (hbase : PlainPath base)
    (hunder : Under base (fullPaths base r)) (hbelow : ∀ d ∈ r.2, ¬ d.path <+: base) :
    Layout (r.2 ++ [⟨device_type, base, r.1⟩]) where
  path := List.forall_mem_append.mpr ⟨h.layout.path, List.forall_mem_singleton.mpr hbase⟩
  named := List.forall_mem_append.mpr ⟨h.layout.named, List.forall_mem_singleton.mpr h.named⟩
  distinct := List.forall_mem_append.mpr ⟨h.layout.distinct, List.forall_mem_singleton.mpr h.distinct⟩
  described := List.forall_mem_append.mpr ⟨h.layout.described, List.forall_mem_singleton.mpr h.described⟩
  paths := by
    rw [List.map_append]
    refine List.nodup_append.mpr ⟨h.layout.paths, List.nodup_singleton _, fun a ha b hb hab => ?_⟩
    obtain ⟨d, hd, rfl⟩ := List.mem_map.mp ha
    obtain rfl := List.mem_singleton.mp hb
    exact hbelow d hd (hab ▸ List.prefix_refl _)
  inner := by
    intro d hd q hq d' hd' hpre
    rcases List.mem_append.mp hd with hd | hd <;> rcases List.mem_append.mp hd' with hd' | hd'
    · exact h.layout.inner d hd q hq d' hd' hpre
    · rw [List.mem_singleton.mp hd']
      exact hunder _ (device_mem_fullPaths hd)
    · rw [List.mem_singleton.mp hd] at hq hpre
      exact absurd hpre (h.free q hq d' hd')
    · rw [List.mem_singleton.mp hd, List.mem_singleton.mp hd']

theorem collects (n : Nat) : Collects n := by
  induction n with
  | zero => exact fun _ _ _ _ _ _ => ⟨part_nil, fun l hl => absurd hl List.not_mem_nil⟩
  | succ n ih =>
    intro node device_path property_path hplain hdevice hproperty
    rw [collect]
    split
    · exact ⟨part_nil, fun l hl => absurd hl List.not_mem_nil⟩
    · split
      · obtain ⟨hpart, hunder, -⟩ := part_nodeAndBelow ih hplain hdevice hproperty
        exact ⟨hpart, hunder⟩
      · have hbase := hdevice.append hproperty
        have hnil : PlainPath [] := List.forall_mem_nil _
        obtain ⟨hpart, hunder, hbelow⟩ := part_nodeAndBelow ih hplain hbase hnil
        rw [List.append_nil] at hunder hbelow
        have hlayout := layout_device (deviceTag node) hpart hbase hunder hbelow
        dsimp only
        refine ⟨⟨hlayout, fun _ hq => absurd hq List.not_mem_nil, List.nodup_nil,
          fun _ hq => absurd hq List.not_mem_nil, fun _ hq => absurd hq List.not_mem_nil⟩,
          fun l hl => ?_⟩
        rw [fullPaths] at hl
        dsimp only at hl
        rw [List.map_nil, List.nil_append, List.map_append] at hl
        rcases List.mem_append.mp hl with hl | hl
        · exact hunder l (List.mem_append_right _ hl)
        · rw [List.mem_singleton.mp hl]

/-- The devices of a tree. -/
theorem layout_devices {n : Nat} (hplain : PlainTree v) : Layout (devices n v) := by
  cases n with
  | zero => exact layout_nil
  | succ n =>
    rw [devices]
    split
    · exact layout_nil
    · have hnil : PlainPath [] := List.forall_mem_nil _
      obtain ⟨hpart, hunder, hbelow⟩ := part_nodeAndBelow (collects n) hplain hnil hnil
      exact layout_device _ hpart hnil hunder hbelow

end ShvTypeInfo

end LibShv
