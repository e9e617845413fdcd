import LibShv.Lib.PathTable
import LibShv.ShvTypeInfo.Termination

/-!
# LibShv.ShvTypeInfo.NodesTree

The devices of a tree of nodes. A tree without references to node types is read by
entering its devices one after another, each after those in it.
-/

namespace LibShv

open CallGraph Fueled

namespace ShvTypeInfo

/-! ## the devices of a tree -/

/-- The names of a path with slashes between them. -/
abbrev pathText (names : List Bytes) : Bytes := PathTable.render SHV_PATH_DELIM names

/-- A path of names that are not empty and have no slash in them. -/
def PlainPath (names : List Bytes) : Prop := ∀ name ∈ names, PathTable.IsName SHV_PATH_DELIM name

/-- A device: its type, its path, and the descriptions of its properties with their
paths in it. -/
structure Device where
  type : Bytes
  path : List Bytes
  properties : List (List Bytes × ShvDescr)

/-- A method as a part of a description; `ls` and `dir` are none. -/
def declaredMethod (rv : RpcValue) : Option RpcValue :=
  match ShvMethodDescr.fromRpcValue rv with
  | .ok mm => if mm.name = METH_LS ∨ mm.name = METH_DIR then none else some mm.toRpcValue
  | .error _ => none

/-- The methods of a node that are part of its description. -/
def declaredMethods (node : RpcValue) : RpcList :=
  (node.metaValue (ascii "methods")).asList.filterMap declaredMethod

/-- The tags and methods of a node. -/
def declaredTags (node : RpcValue) : RpcMap :=
  let tags := SortedMap.erase (ascii "createFromTypeName") (nodeTags node)
  if declaredMethods node = [] then tags
  else SortedMap.insert (ascii "methods") (.ofVariant (.list (declaredMethods node))) tags

/-- The description that the tags and methods of a node declare. -/
def declared (node : RpcValue) : ShvDescr :=
  (ShvDescr.propertyFromRpcValue (.ofVariant (.map (declaredTags node)))).1

/-- The type of the device that a node is, or nothing. -/
def deviceTag (node : RpcValue) : Bytes := ((nodeTags node).get "deviceType").asString

/-- The children of a node that are read. -/
def childNodes (node : RpcValue) : RpcMap :=
  (if hasChildProperties node (typeNameTag node) then node.asMap else []).filter (·.1 ≠ [])

/-- The description that a node declares, named by its path in the device. -/
def ownProperty (node : RpcValue) (property_path : List Bytes) : List (List Bytes × ShvDescr) :=
  if (declared node).isValid then [(property_path, (declared node).setName (pathText property_path))]
  else []

/-- A node and what is below it, as properties of one device and as further devices. -/
def nodeAndBelow
    (below : RpcValue → List Bytes → List Bytes → List (List Bytes × ShvDescr) × List Device)
    (node : RpcValue) (device_path property_path : List Bytes) :
    List (List Bytes × ShvDescr) × List Device :=
  let children := (childNodes node).map fun child =>
    below child.2 device_path (property_path ++ [child.1])
  (ownProperty node property_path ++ children.flatMap (·.1), children.flatMap (·.2))

/-- What a node adds to the properties of the device around it, and the devices at and below
the node. -/
def collect : Nat → RpcValue → List Bytes → List Bytes → List (List Bytes × ShvDescr) × List Device
  | 0, _, _, _ => ([], [])
  | n + 1, node, device_path, property_path =>
    if node.isValid = false then ([], [])
    else if deviceTag node = [] then nodeAndBelow (collect n) node device_path property_path
    else
      let r := nodeAndBelow (collect n) node (device_path ++ property_path) []
      ([], r.2 ++ [⟨deviceTag node, device_path ++ property_path, r.1⟩])

/-- The devices of a tree of this depth, the root being one: each after those in it. -/
def devices : Nat → RpcValue → List Device
  | 0, _ => []
  | n + 1, v =>
    if v.isValid = false then []
    else
      let r := nodeAndBelow (collect n) v [] []
      r.2 ++ [⟨deviceTag v, [], r.1⟩]

/-! ## the nodes of a tree -/

/-- A node, the device it belongs to and its path in the device. -/
structure Place where
  node : RpcValue
  device_type : Bytes
  device_path : List Bytes
  property_path : List Bytes

namespace Place

/-- The root is a device, also if its type has no name. -/
def root (v : RpcValue) : Place := ⟨v, deviceTag v, [], []⟩

/-- A child is in the same device, or is one if it has a type of device. -/
def child (p : Place) (c : Bytes × RpcValue) : Place :=
  if deviceTag c.2 = [] then ⟨c.2, p.device_type, p.device_path, p.property_path ++ [c.1]⟩
  else ⟨c.2, deviceTag c.2, p.device_path ++ (p.property_path ++ [c.1]), []⟩

/-- A node and one of its children that are read. -/
def Step (p p' : Place) : Prop := ∃ c ∈ childNodes p.node, c.2.isValid = true ∧ p' = p.child c

/-- The path of the node. -/
def path (p : Place) : List Bytes := p.device_path ++ p.property_path

/-- The description that the node declares, named by its path in the device. -/
def description (p : Place) : ShvDescr := (declared p.node).setName (pathText p.property_path)

end Place

/-- A node of the tree that is read. -/
def NodeAt (v : RpcValue) (p : Place) : Prop :=
  v.isValid = true ∧ Relation.ReflTransGen Place.Step (Place.root v) p

/-! ## trees without references -/

/-- The nodes of a tree have no references to node types; keys of maps are sorted, and there
is no slash in the name of a node. -/
structure PlainTree (v : RpcValue) : Prop where
  nodeTypeRef : ∀ node, Relation.ReflTransGen (Calls mapValues) v node → nodeTypeRef node = []
  sorted : ∀ node, Relation.ReflTransGen (Calls mapValues) v node → SortedMap.Sorted node.asMap
  names : ∀ node, Relation.ReflTransGen (Calls mapValues) v node →
    ∀ e ∈ node.asMap, SHV_PATH_DELIM ∉ e.1

variable {v node : RpcValue}

theorem mem_asMap_of_childNodes {child : Bytes × RpcValue} (h : child ∈ childNodes node) :
    child ∈ node.asMap := by
  have hmem := List.mem_of_mem_filter h
  split at hmem
  · exact hmem
  · exact absurd hmem List.not_mem_nil

theorem PlainTree.child (h : PlainTree node) {child : Bytes × RpcValue} (hchild : child ∈ childNodes node) :
    PlainTree child.2 := by
  have hcall : Calls mapValues node child.2 := List.mem_map_of_mem (mem_asMap_of_childNodes hchild)
  exact ⟨fun x hx => h.nodeTypeRef x (hx.head hcall), fun x hx => h.sorted x (hx.head hcall),
    fun x hx => h.names x (hx.head hcall)⟩

theorem PlainTree.isName (h : PlainTree node) {child : Bytes × RpcValue}
    (hchild : child ∈ childNodes node) : PathTable.IsName SHV_PATH_DELIM child.1 := by
  refine ⟨?_, h.names node Relation.ReflTransGen.refl _ (mem_asMap_of_childNodes hchild)⟩
  simpa using List.of_mem_filter hchild

theorem nodeCalls_of_plain (h : PlainTree node) (hvalid : node.isValid = true) (node_types : RpcMap) :
    nodeCalls node_types node = (childNodes node).map (·.2) := by
  rw [nodeCalls, if_neg (by simp [hvalid]),
    if_neg (not_not.mpr (h.nodeTypeRef node Relation.ReflTransGen.refl)), childNodes]

theorem PlainTree.ends (h : PlainTree v) (node_types : RpcMap) : Ends (nodeCalls node_types) v := by
  induction hsize : sizeOf v using Nat.strong_induction_on generalizing v with
  | _ n ih =>
    refine ends_of_calls fun y hy => ?_
    by_cases hvalid : v.isValid = true
    · rw [nodeCalls_of_plain h hvalid] at hy
      obtain ⟨child, hchild, rfl⟩ := List.mem_map.mp hy
      exact ih _ (hsize ▸ sizeOf_lt_of_mem_asMap (mem_asMap_of_childNodes hchild)) (h.child hchild) rfl
    · rw [nodeCalls, if_pos (by simpa using hvalid)] at hy
      exact absurd hy List.not_mem_nil

theorem PlainPath.append {names names' : List Bytes} (h : PlainPath names) (h' : PlainPath names') :
    PlainPath (names ++ names') :=
  List.forall_mem_append.mpr ⟨h, h'⟩

theorem PlainPath.concat {names : List Bytes} (h : PlainPath names) {name : Bytes}
    (hname : PathTable.IsName SHV_PATH_DELIM name) : PlainPath (names ++ [name]) :=
  h.append (List.forall_mem_singleton.mpr hname)

theorem PlainPath.of_start {names names' : List Bytes} (h : PlainPath names') (hpre : names <+: names') :
    PlainPath names :=
  fun name hname => h name (hpre.subset hname)

theorem joinPath_pathText {names names' : List Bytes} (h : PlainPath names) (h' : PlainPath names') :
    joinPath (pathText names) (pathText names') = pathText (names ++ names') :=
  (joinPath_eq_join (PathTable.trimmed_render h).2 (PathTable.trimmed_render h').1).trans
    (PathTable.render_append h h').symm

theorem joinPath_name {names : List Bytes} (h : PlainPath names) {name : Bytes}
    (hname : PathTable.IsName SHV_PATH_DELIM name) :
    joinPath (pathText names) name = pathText (names ++ [name]) := by
  have hsingle : pathText [name] = name := PathTable.render_singleton
  have hjoin := joinPath_pathText h (List.forall_mem_singleton.mpr hname)
  rwa [hsingle] at hjoin

/-! ## the tables for devices -/

/-- The tables that a path is looked up in. -/
def tables (ti : ShvTypeInfo) : ShvTypeInfo where
  devicePaths := ti.devicePaths
  deviceDescriptions := ti.deviceDescriptions
  propertyDeviations := ti.propertyDeviations

def addProperties (d : ShvDeviceDescription) (properties : List ShvDescr) : ShvDeviceDescription :=
  { d with properties := d.properties ++ properties }

/-- The description that is stored for the type of a device. -/
def Device.description (d : Device) : ShvDeviceDescription := ⟨d.properties.map (·.2), [], false⟩

/-- Devices are entered one after another. -/
def enterDevices (ti : ShvTypeInfo) (ds : List Device) : ShvTypeInfo :=
  ds.foldl (fun ti d => ti.enterDevice d.type (pathText d.path) d.description) ti

variable {ti : ShvTypeInfo}

theorem enterDevices_append (ti : ShvTypeInfo) (ds ds' : List Device) :
    ti.enterDevices (ds ++ ds') = (ti.enterDevices ds).enterDevices ds' :=
  List.foldl_append

@[simp] theorem tables_setExtraTags (key : Bytes) (tags : RpcValue) :
    (ti.setExtraTags key tags).tables = ti.tables := rfl

@[simp] theorem tables_setBlacklist (key : Bytes) (blacklist : RpcValue) :
    (ti.setBlacklist key blacklist).tables = ti.tables := rfl

theorem tables_addDeviations (device_path : Bytes) (old new : ShvDeviceDescription) :
    (ti.addDeviations device_path old new).tables = ti.tables.addDeviations device_path old new := by
  have hrest : ∀ (properties : List ShvDescr) (ti : ShvTypeInfo),
      (properties.foldl (fun ti q => ti.setPropertyDeviation (joinPath device_path q.name) q) ti).tables =
        properties.foldl (fun ti q => ti.setPropertyDeviation (joinPath device_path q.name) q)
          ti.tables := by
    intro properties
    induction properties with
    | nil => exact fun ti => rfl
    | cons q properties ih => exact fun ti => ih _
  rw [addDeviations, addDeviations]
  generalize old.properties = properties
  induction properties generalizing ti new with
  | nil => exact hrest _ _
  | cons p properties ih =>
    rw [List.foldl_cons, List.foldl_cons]
    cases hfind : new.findProperty p.name with
    | none =>
      exact ih new
    | some q =>
      dsimp only
      split
      · exact ih _
      · exact ih _

theorem tables_enterDevice (device_type device_path : Bytes) (new : ShvDeviceDescription) :
    (ti.enterDevice device_type device_path new).tables =
      ti.tables.enterDevice device_type device_path new := by
  have hfind : ti.tables.deviceDescriptions = ti.deviceDescriptions := rfl
  rw [enterDevice, enterDevice, hfind]
  cases SortedMap.find? device_type ti.deviceDescriptions with
  | none => rfl
  | some old => exact tables_addDeviations _ _ _

/-! ## reading a tree -/

theorem takeMethods_spec {property_path : Bytes} {methods : RpcList} {r : ShvTypeInfo × RpcList}
    (h : ti.takeMethods property_path methods = .ok r) :
    r.1.tables = ti.tables ∧ r.2 = methods.filterMap declaredMethod := by
  have hloop : ∀ (methods : RpcList) (acc r : ShvTypeInfo × RpcList),
      methods.foldlM
        (fun acc rv => do
          let mm ← ShvMethodDescr.fromRpcValue rv
          if mm.name = METH_LS ∨ mm.name = METH_DIR then pure acc
          else
            let key := joinPath (joinPath property_path (ascii "method")) mm.name
            pure (if mm.extra = [] then acc.1 else acc.1.setExtraTags key (.ofVariant (.map mm.extra)),
              acc.2 ++ [mm.toRpcValue])) acc = (.ok r : Except String (ShvTypeInfo × RpcList)) →
      r.1.tables = acc.1.tables ∧ r.2 = acc.2 ++ methods.filterMap declaredMethod := by
    intro methods
    induction methods with
    | nil =>
      intro acc r h
      obtain rfl := Except.ok.inj h
      simp
    | cons rv methods ih =>
      intro acc r h
      rw [List.foldlM_cons] at h
      cases hmm : ShvMethodDescr.fromRpcValue rv with
      | error e =>
        rw [hmm] at h
        cases h
      | ok mm =>
        rw [hmm] at h
        by_cases hname : mm.name = METH_LS ∨ mm.name = METH_DIR
        · simp only [bind, Except.bind, if_pos hname] at h
          obtain ⟨hti, hms⟩ := ih acc r h
          refine ⟨hti, hms.trans ?_⟩
          simp [declaredMethod, hmm, hname]
        · simp only [bind, Except.bind, if_neg hname] at h
          obtain ⟨hti, hms⟩ := ih _ r h
          refine ⟨hti.trans ?_, hms.trans ?_⟩
          · dsimp only
            split <;> rfl
          · simp [declaredMethod, hmm, hname]
  have h' := hloop methods (ti, []) r h
  rwa [List.nil_append] at h'

theorem not_isValid_nil :
    (ShvDescr.propertyFromRpcValue (.ofVariant (.map []))).1.isValid = false := rfl

/-- The device that a node belongs to, with its description before the node, and the path
of the node in it. -/
def deviceOf (node : RpcValue) (device_type device_path property_path : Bytes)
    (d : ShvDeviceDescription) : Bytes × Bytes × Bytes × ShvDeviceDescription :=
  if deviceTag node = [] then (device_type, device_path, property_path, d)
  else (deviceTag node, joinPath device_path property_path, [], .empty)

/-- The description that a node declares, if it does. -/
def declaredProperty (node : RpcValue) (name : Bytes) : List ShvDescr :=
  if (declared node).isValid then [(declared node).setName name] else []

theorem visitNode_spec {device_type device_path property_path : Bytes} {d : ShvDeviceDescription}
    {visit : NodeVisit}
    (h : ti.visitNode node device_type device_path property_path d = .ok visit) :
    visit.ti.tables = ti.tables ∧
    (visit.device_type, visit.device_path, visit.property_path) =
      ((deviceOf node device_type device_path property_path d).1,
        (deviceOf node device_type device_path property_path d).2.1,
        (deviceOf node device_type device_path property_path d).2.2.1) ∧
    visit.device_description =
      addProperties (deviceOf node device_type device_path property_path d).2.2.2
        (declaredProperty node (deviceOf node device_type device_path property_path d).2.2.1) := by
  rw [visitNode] at h
  cases hmethods : ti.takeMethods property_path (node.metaValue (ascii "methods")).asList with
  | error e =>
    rw [hmethods] at h
    cases h
  | ok r =>
    obtain ⟨ti', property_methods⟩ := r
    obtain ⟨hti, hms⟩ := takeMethods_spec hmethods
    obtain rfl : property_methods = declaredMethods node := hms
    rw [hmethods] at h
    simp only [bind, Except.bind] at h
    have hdevice : (if ((nodeTags node).get "deviceType").asString = [] then
        (device_type, device_path, property_path, d)
      else (((nodeTags node).get "deviceType").asString, joinPath device_path property_path, [],
        ShvDeviceDescription.empty)) = deviceOf node device_type device_path property_path d := rfl
    have htags : (if declaredMethods node = [] then
        SortedMap.erase (ascii "createFromTypeName") (nodeTags node)
      else SortedMap.insert (ascii "methods") (RpcValue.ofVariant (.list (declaredMethods node)))
        (SortedMap.erase (ascii "createFromTypeName") (nodeTags node))) = declaredTags node := rfl
    rw [hdevice, htags] at h
    generalize deviceOf node device_type device_path property_path d = c at h ⊢
    have hdeclared : (ShvDescr.propertyFromRpcValue (.ofVariant (.map (declaredTags node)))).1 =
        declared node := rfl
    split at h
    · rename_i hnil
      obtain rfl := Except.ok.inj h
      have hvalid : (declared node).isValid = false := by
        rw [declared, hnil, not_isValid_nil]
      refine ⟨hti, rfl, ?_⟩
      rw [declaredProperty, hvalid, addProperties]
      simp
    · obtain rfl := Except.ok.inj h
      simp only [hdeclared]
      refine ⟨?_, trivial, ?_⟩
      · rw [← hti]
        split <;> split <;> split <;> rfl
      · rw [declaredProperty, addProperties]
        split
        · rfl
        · simp

theorem addProperties_append (d : ShvDeviceDescription) (ps ps' : List ShvDescr) :
    addProperties (addProperties d ps) ps' = addProperties d (ps ++ ps') := by
  rw [addProperties, addProperties, addProperties, List.append_assoc]

theorem map_ownProperty (property_path : List Bytes) :
    (ownProperty node property_path).map (·.2) = declaredProperty node (pathText property_path) := by
  rw [ownProperty, declaredProperty]
  split <;> rfl

/-- Within this depth a node is read as what is collected from it. -/
def ReadsAs (node_types : RpcMap) (n : Nat) : Prop :=
  ∀ (node : RpcValue) (ti : ShvTypeInfo) (device_type : Bytes) (device_path property_path : List Bytes)
    (d : ShvDeviceDescription) (r : ShvTypeInfo × Option ShvDeviceDescription),
    PlainTree node → PlainPath device_path → PlainPath property_path →
    Returns (fromNodesTreeHelper node_types n ti node device_type (pathText device_path)
      (pathText property_path) (some d)) r →
    r.1.tables = ti.tables.enterDevices (collect n node device_path property_path).2 ∧
    r.2 = some (addProperties d ((collect n node device_path property_path).1.map (·.2)))

/-- A round of the loop over the children of a node. -/
def readChild (node_types : RpcMap) (n : Nat) (device_type device_path property_path : Bytes)
    (acc : ShvTypeInfo × ShvDeviceDescription) (child : Bytes × RpcValue) :
    Fueled String (ShvTypeInfo × ShvDeviceDescription) := do
  let r ← fromNodesTreeHelper node_types n acc.1 child.2 device_type device_path
    (joinPath property_path child.1) (some acc.2)
  pure (r.1, r.2.getD acc.2)

section Loop

variable {node_types : RpcMap} {n : Nat} {device_type : Bytes} {device_path property_path : List Bytes}

theorem returns_children (hreads : ReadsAs node_types n) (hdevice : PlainPath device_path)
    (hproperty : PlainPath property_path) {children : RpcMap}
    (hchildren : ∀ child ∈ children, PlainTree child.2 ∧ PathTable.IsName SHV_PATH_DELIM child.1)
    {acc r : ShvTypeInfo × ShvDeviceDescription}
    (h : Returns (children.foldlM
      (readChild node_types n device_type (pathText device_path) (pathText property_path)) acc) r) :
    r.1.tables = acc.1.tables.enterDevices
      (children.flatMap fun child => (collect n child.2 device_path (property_path ++ [child.1])).2) ∧
    r.2 = addProperties acc.2 ((children.flatMap fun child =>
      (collect n child.2 device_path (property_path ++ [child.1])).1).map (·.2)) := by
  induction children generalizing acc with
  | nil =>
    obtain rfl : acc = r := Except.ok.inj (Option.some.inj h)
    refine ⟨rfl, ?_⟩
    simp [addProperties]
  | cons child children ih =>
    obtain ⟨⟨hplain, hname⟩, hchildren⟩ := List.forall_mem_cons.mp hchildren
    rw [List.foldlM_cons] at h
    obtain ⟨acc', hround, hrest⟩ := returns_bind h
    obtain ⟨r', hr', hacc'⟩ := returns_bind hround
    rw [joinPath_name hproperty hname] at hr'
    obtain ⟨htables, hdescr⟩ := hreads _ _ _ _ _ _ _ hplain hdevice (hproperty.concat hname) hr'
    obtain rfl : (r'.1, r'.2.getD acc.2) = acc' := Except.ok.inj (Option.some.inj hacc')
    obtain ⟨htables', hdescr'⟩ := ih hchildren hrest
    constructor
    · rw [htables', htables, List.flatMap_cons, enterDevices_append]
    · rw [hdescr', hdescr, Option.getD_some, addProperties_append, List.flatMap_cons, List.map_append]

/-- A node and what is below it, once the node belongs to a device. -/
theorem returns_nodeAndBelow (hreads : ReadsAs node_types n) (hdevice : PlainPath device_path)
    (hproperty : PlainPath property_path) (hplain : PlainTree node) {ti : ShvTypeInfo}
    {d : ShvDeviceDescription} {r : ShvTypeInfo × ShvDeviceDescription}
    (h : Returns ((childNodes node).foldlM
      (readChild node_types n device_type (pathText device_path) (pathText property_path))
      (ti, addProperties d (declaredProperty node (pathText property_path)))) r) :
    r.1.tables = ti.tables.enterDevices (nodeAndBelow (collect n) node device_path property_path).2 ∧
    r.2 = addProperties d ((nodeAndBelow (collect n) node device_path property_path).1.map (·.2)) := by
  obtain ⟨htables, hdescr⟩ := returns_children hreads hdevice hproperty
    (fun child hchild => ⟨hplain.child hchild, hplain.isName hchild⟩) h
  rw [nodeAndBelow]
  dsimp only
  rw [List.flatMap_map, List.flatMap_map, List.map_append, map_ownProperty, ← addProperties_append]
  exact ⟨htables, hdescr⟩

end Loop

theorem readsAs (node_types : RpcMap) (n : Nat) : ReadsAs node_types n := by
  induction n with
  | zero => exact fun _ _ _ _ _ _ _ _ _ _ h => absurd h not_returns_more
  | succ n ih =>
    intro node ti device_type device_path property_path d r hplain hdevice hproperty h
    rw [fromNodesTreeHelper] at h
    rw [collect]
    split at h
    · rename_i hvalid
      obtain rfl : (ti, some d) = r := Except.ok.inj (Option.some.inj h)
      rw [if_pos hvalid]
      refine ⟨rfl, ?_⟩
      simp [addProperties]
    · rename_i hvalid
      rw [if_neg hvalid]
      rw [if_neg (not_not.mpr (hplain.nodeTypeRef node Relation.ReflTransGen.refl))] at h
      obtain ⟨visit, hvisit, h⟩ := returns_bind h
      obtain ⟨name, hname, h⟩ := returns_bind h
      obtain rfl : typeNameTag node = name := Except.ok.inj
        ((typeName_of_visitNode (returns_ofExcept hvisit)).symm.trans (returns_ofExcept hname))
      obtain ⟨r', hloop, h⟩ := returns_bind h
      obtain ⟨hti, hctx, hdescr⟩ := visitNode_spec (returns_ofExcept hvisit)
      simp only [Prod.mk.injEq] at hctx
      obtain ⟨htype, hdpath, hppath⟩ := hctx
      rw [htype, hdpath, hppath, hdescr] at hloop
      by_cases htag : deviceTag node = []
      · rw [if_pos htag]
        rw [deviceOf, if_pos htag] at hloop
        obtain ⟨htables, hd⟩ := returns_nodeAndBelow ih hdevice hproperty hplain hloop
        have hcond : ¬ ((some d).isNone = true ∨ ((nodeTags node).get "deviceType").asString ≠ []) := by
          rw [← deviceTag]
          simp [htag]
        dsimp only at h
        rw [Option.getD_some] at hd
        rw [if_neg hcond] at h
        obtain rfl : (r'.1, some r'.2) = r := Except.ok.inj (Option.some.inj h)
        exact ⟨htables.trans (congrArg (enterDevices · _) hti), congrArg some hd⟩
      · rw [if_neg htag]
        rw [deviceOf, if_neg htag, joinPath_pathText hdevice hproperty] at hloop
        have hnil : PlainPath [] := List.forall_mem_nil _
        obtain ⟨htables, hd⟩ := returns_nodeAndBelow ih (hdevice.append hproperty) hnil hplain hloop
        dsimp only at h
        rw [if_pos (.inr htag)] at h
        obtain rfl : (_, some d) = r := Except.ok.inj (Option.some.inj h)
        dsimp only
        rw [tables_enterDevice, htables, hti, hd, htype, hdpath, deviceOf, if_neg htag,
          joinPath_pathText hdevice hproperty, enterDevices_append]
        refine ⟨rfl, ?_⟩
        simp [addProperties]

theorem returns_devices {node_types : RpcMap} {n : Nat} {r : ShvTypeInfo × Option ShvDeviceDescription}
    (hplain : PlainTree v)
    (h : Returns (fromNodesTreeHelper node_types n ti v [] [] [] none) r) :
    r.1.tables = ti.tables.enterDevices (devices n v) := by
  cases n with
  | zero => exact absurd h not_returns_more
  | succ n =>
    rw [fromNodesTreeHelper] at h
    rw [devices]
    split at h
    · rename_i hvalid
      obtain rfl : (ti, none) = r := Except.ok.inj (Option.some.inj h)
      rw [if_pos hvalid]
      rfl
    · rename_i hvalid
      rw [if_neg hvalid]
      rw [if_neg (not_not.mpr (hplain.nodeTypeRef v Relation.ReflTransGen.refl))] at h
      obtain ⟨visit, hvisit, h⟩ := returns_bind h
      obtain ⟨name, hname, h⟩ := returns_bind h
      obtain rfl : typeNameTag v = name := Except.ok.inj
        ((typeName_of_visitNode (returns_ofExcept hvisit)).symm.trans (returns_ofExcept hname))
      obtain ⟨r', hloop, h⟩ := returns_bind h
      obtain ⟨hti, hctx, hdescr⟩ := visitNode_spec (returns_ofExcept hvisit)
      -- the root is a device, also if its type has no name
      have hdevice : deviceOf v [] [] [] ShvDeviceDescription.empty =
          (deviceTag v, pathText [], pathText [], ShvDeviceDescription.empty) := by
        rw [deviceOf]
        split
        · rename_i hnil
          rw [hnil]
          rfl
        · rfl
      rw [Option.getD_none, hdevice] at hctx hdescr
      simp only [Prod.mk.injEq] at hctx
      obtain ⟨htype, hdpath, hppath⟩ := hctx
      rw [htype, hdpath, hppath, hdescr] at hloop
      have hnil : PlainPath [] := List.forall_mem_nil _
      obtain ⟨htables, hd⟩ := returns_nodeAndBelow (readsAs node_types n) hnil hnil hplain hloop
      dsimp only at h
      rw [if_pos (.inl rfl)] at h
      obtain rfl : (_, none) = r := Except.ok.inj (Option.some.inj h)
      dsimp only
      rw [tables_enterDevice, htables, hti, hd, htype, hdpath, enterDevices_append]
      rfl

/-- A document that is a tree of nodes is read from its root. -/
theorem returns_helper {n : Nat} (htree : IsNodesTree v) (h : Returns (fromRpcValue n v) ti) :
    ∃ types r, Returns (fromNodesTreeHelper (v.metaValue (ascii "nodeTypes")).asMap n
      { types := types } v [] [] [] none) r ∧ ti.tables = r.1.tables := by
  obtain ⟨version, hversion, hversions, hpaths⟩ := htree
  rw [fromRpcValue] at h
  obtain ⟨version', hversion', h⟩ := returns_bind h
  obtain rfl : version' = version :=
    Except.ok.inj ((returns_ofExcept hversion').symm.trans hversion)
  obtain ⟨ti', hti', h⟩ := returns_bind h
  rw [fromVersion, if_neg hversions, if_neg hpaths, fromNodesTree] at hti'
  obtain ⟨types, -, hti'⟩ := returns_bind hti'
  obtain ⟨r, hr, hti'⟩ := returns_bind hti'
  obtain rfl : r.1 = ti' := Except.ok.inj (Option.some.inj hti')
  refine ⟨types, r, hr, ?_⟩
  obtain rfl := Except.ok.inj (Option.some.inj h)
  split <;> rfl

/-- A tree without references is read by entering its devices. -/
theorem tables_fromRpcValue {n : Nat} (hplain : PlainTree v) (htree : IsNodesTree v)
    (h : Returns (fromRpcValue n v) ti) : ti.tables = enterDevices {} (devices n v) := by
  obtain ⟨types, r, hr, htables⟩ := returns_helper htree h
  rw [htables]
  exact returns_devices hplain hr

/-! ## what is read of a node -/

/-- The device that a place is in has its description. -/
def Place.In (p : Place) (d : Device) : Prop :=
  d.type = p.device_type ∧ d.path = p.device_path ∧ (p.property_path, p.description) ∈ d.properties

theorem node_child (p : Place) (c : Bytes × RpcValue) : (p.child c).node = c.2 := by
  rw [Place.child]
  split <;> rfl

/-- A node at or below another one is a property of the same device or of one that is further down. -/
theorem collected {p p' : Place} (hsteps : Relation.ReflTransGen Place.Step p p')
    (hplain : PlainTree p.node) (hvalid : p.node.isValid = true) {node_types : RpcMap} {n : Nat}
    (hdepth : Depth (nodeCalls node_types) (n + 1) p.node) (hdeclared : (declared p'.node).isValid = true) :
    (p'.device_type = p.device_type ∧ p'.device_path = p.device_path ∧
      (p'.property_path, p'.description) ∈
        (nodeAndBelow (collect n) p.node p.device_path p.property_path).1) ∨
    ∃ d ∈ (nodeAndBelow (collect n) p.node p.device_path p.property_path).2, p'.In d := by
  induction hsteps using Relation.ReflTransGen.head_induction_on generalizing n with
  | refl =>
    refine .inl ⟨rfl, rfl, List.mem_append_left _ ?_⟩
    rw [ownProperty, if_pos hdeclared]
    exact List.mem_cons_self
  | @head p p₁ hstep _ ih =>
    obtain ⟨c, hc, hcvalid, rfl⟩ := hstep
    rw [node_child] at ih
    have hcall : c.2 ∈ nodeCalls node_types p.node := by
      rw [nodeCalls_of_plain hplain hvalid]
      exact List.mem_map_of_mem hc
    have hcdepth := hdepth c.2 hcall
    cases n with
    | zero => exact absurd hcdepth id
    | succ n =>
      have hread := ih (hplain.child hc) hcvalid hcdepth
      have hmem : ∀ r, collect (n + 1) c.2 p.device_path (p.property_path ++ [c.1]) = r →
          (∀ q ∈ r.1, q ∈ (nodeAndBelow (collect (n + 1)) p.node p.device_path p.property_path).1) ∧
          ∀ d ∈ r.2, d ∈ (nodeAndBelow (collect (n + 1)) p.node p.device_path p.property_path).2 := by
        rintro _ rfl
        constructor
        · intro q hq
          exact List.mem_append_right _ (List.mem_flatMap.mpr ⟨_, List.mem_map_of_mem hc, hq⟩)
        · intro d hd
          exact List.mem_flatMap.mpr ⟨_, List.mem_map_of_mem hc, hd⟩
      rw [collect, if_neg (by simp [hcvalid])] at hmem
      by_cases htag : deviceTag c.2 = []
      · rw [if_pos htag] at hmem
        rw [Place.child, if_pos htag] at hread
        obtain ⟨hprops, hdevs⟩ := hmem _ rfl
        rcases hread with ⟨htype, hpath, hin⟩ | ⟨d, hd, hin⟩
        · exact .inl ⟨htype, hpath, hprops _ hin⟩
        · exact .inr ⟨d, hdevs _ hd, hin⟩
      · rw [if_neg htag] at hmem
        rw [Place.child, if_neg htag] at hread
        obtain ⟨-, hdevs⟩ := hmem _ rfl
        rcases hread with ⟨htype, hpath, hin⟩ | ⟨d, hd, hin⟩
        · exact .inr ⟨_, hdevs _ (List.mem_append_right _ List.mem_cons_self), htype.symm, hpath.symm, hin⟩
        · exact .inr ⟨d, hdevs _ (List.mem_append_left _ hd), hin⟩

/-- The devices of a tree have the descriptions that its nodes declare. -/
theorem exists_device {p : Place} (h : NodeAt v p) (hplain : PlainTree v) {node_types : RpcMap} {n : Nat}
    (hdepth : Depth (nodeCalls node_types) n v) (hdeclared : (declared p.node).isValid = true) :
    ∃ d ∈ devices n v, p.In d := by
  obtain ⟨hvalid, hsteps⟩ := h
  cases n with
  | zero => exact absurd hdepth id
  | succ n =>
    rw [devices, if_neg (by simp [hvalid])]
    rcases collected hsteps hplain hvalid hdepth hdeclared with ⟨htype, hpath, hin⟩ | ⟨d, hd, hin⟩
    · exact ⟨_, List.mem_append_right _ List.mem_cons_self, htype.symm, hpath.symm, hin⟩
    · exact ⟨d, List.mem_append_left _ hd, hin⟩

theorem pathInfo_tables (ti : ShvTypeInfo) (shv_path : Bytes) :
    ti.pathInfo shv_path = ti.tables.pathInfo shv_path := rfl

/-- The reading of such a tree ends. -/
theorem done_of_plain (hplain : PlainTree v) : ∃ n, Done (fromRpcValue n v) :=
  fromRpcValue_spec.1 fun _ => (hplain.ends _).acyclic

end ShvTypeInfo

end LibShv
