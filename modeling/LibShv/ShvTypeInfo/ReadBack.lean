import LibShv.ShvTypeInfo.PathInfo

/-!
# LibShv.ShvTypeInfo.ReadBack

A tree of nodes that is read, and the descriptions that are found at the paths of its
nodes.
-/

namespace LibShv

open CallGraph Fueled

namespace ShvTypeInfo

/-! ## the properties of a tree -/

/-- The description at a path is this one, and all of the path leads to it. -/
def ReadsBack (ti : ShvTypeInfo) (path : List Bytes) (d : ShvDescr) : Prop :=
  ((ti.pathInfo (pathText path)).propertyDescription = d ∨
    d.m_data.eq (ti.pathInfo (pathText path)).propertyDescription.m_data = true) ∧
  (ti.pathInfo (pathText path)).fieldPath = []

/-- A device shows that it lacks a property: the path is not in a device inside it, and the
first device of the type has the property, or there is nothing above the path, of this device or
of a deviation of another one. -/
def ShowsLack (ds : List Device) (d : Device) (p : List Bytes) : Prop :=
  (∀ d' ∈ ds, d'.path <+: d.path ++ p → d'.path <+: d.path) ∧
  (p ∈ deviating ds d ∨
    (∀ q ∈ d.properties, ¬ q.1 <+: p) ∧
      ∀ d' ∈ ds, ∀ p' ∈ deviating ds d', d'.path ++ p' <+: d.path ++ p → d'.path = d.path)

variable {v : RpcValue} {n : Nat} {ti : ShvTypeInfo}

theorem depth_of_returns (htree : IsNodesTree v) (h : Returns (fromRpcValue n v) ti) :
    Depth (nodeCalls (v.metaValue (ascii "nodeTypes")).asMap) n v := by
  obtain ⟨types, r, hr, -⟩ := returns_helper htree h
  exact depth_of_returns_helper hr

/-- The reading of a tree without references comes to an end. The nodes that are read have the
descriptions they declare, where no deviation hides them, and devices lack what they do not have. -/
theorem pathInfo_nodesTree (hplain : PlainTree v) (htree : IsNodesTree v) :
    (∃ n, Done (fromRpcValue n v)) ∧
    ∀ n ti, Returns (fromRpcValue n v) ti →
      (∀ p, NodeAt v p → (declared p.node).isValid = true → ∃ d ∈ devices n v, p.In d ∧
        (Clear (devices n v) d p.property_path → ti.ReadsBack p.path p.description)) ∧
      ∀ d ∈ devices n v, ∀ d' ∈ devices n v, d'.type = d.type → ∀ q ∈ d'.properties,
        (∀ q' ∈ d.properties, q'.1 ≠ q.1) → ShowsLack (devices n v) d q.1 →
        (ti.pathInfo (pathText (d.path ++ q.1))).propertyDescription.isValid = false := by
  refine ⟨done_of_plain hplain, fun n ti h => ?_⟩
  have hl : Layout (devices n v) := layout_devices hplain
  have he : Entered (devices n v) ti.tables := by
    rw [tables_fromRpcValue hplain htree h]
    exact entered_enterDevices hl
  constructor
  · intro p hp hdeclared
    obtain ⟨d, hd, hin⟩ := exists_device hp hplain (depth_of_returns htree h) hdeclared
    refine ⟨d, hd, hin, fun hclear => ?_⟩
    obtain ⟨-, hpath, hmem⟩ := hin
    have hread := pathInfo_of_property hl he hd hmem hclear
    rw [hpath] at hread
    exact hread
  · rintro d hd d' hd' - q hq hlacks ⟨hinner, hshows⟩
    rw [pathInfo_tables]
    have hplainq := (hl.named d' hd' q hq).1
    rcases hshows with hdev | ⟨habove, houter⟩
    · exact pathInfo_of_removed hl he hd hplainq hdev hlacks hinner
    · exact pathInfo_of_lacking hl he hd hplainq habove hinner houter

/-! ## trees that are written out -/

/-- What holds of a node and of what is below its children holds of all that is below it. -/
theorem each_of_children {P : RpcValue → Prop} {node : RpcValue} (h : P node)
    (hchildren : ∀ e ∈ node.asMap, ∀ x, Relation.ReflTransGen (Calls mapValues) e.2 x → P x) :
    ∀ x, Relation.ReflTransGen (Calls mapValues) node x → P x := by
  intro x hx
  rcases Relation.ReflTransGen.cases_head hx with rfl | ⟨c, hc, hcx⟩
  · exact h
  · obtain ⟨e, he, rfl⟩ := List.mem_map.mp hc
    exact hchildren e he x hcx

/-- A node with these tags and children. -/
def treeNode (tags : List (String × String)) (children : List (String × RpcValue)) : RpcValue :=
  .mk (.mk [] [(ascii "tags", .ofVariant (.map (tags.map fun e => (ascii e.1, text (ascii e.2)))))])
    (.map (children.map fun e => (ascii e.1, e.2)))

/-- A property with this label. -/
def labelled (label : String) : RpcValue := treeNode [("label", label)] []

variable {tags : List (String × String)} {children : List (String × RpcValue)}

theorem refs_treeNode
    (hchildren : ∀ e ∈ children, ∀ x, Relation.ReflTransGen (Calls mapValues) e.2 x → nodeTypeRef x = []) :
    ∀ x, Relation.ReflTransGen (Calls mapValues) (treeNode tags children) x → nodeTypeRef x = [] :=
  each_of_children rfl (List.forall_mem_map.mpr hchildren)

theorem plainTree_treeNode (hsorted : SortedMap.Sorted (treeNode tags children).asMap)
    (hnames : ∀ e ∈ children, SHV_PATH_DELIM ∉ ascii e.1) (hchildren : ∀ e ∈ children, PlainTree e.2) :
    PlainTree (treeNode tags children) where
  nodeTypeRef := refs_treeNode fun e he => (hchildren e he).nodeTypeRef
  sorted := each_of_children hsorted (List.forall_mem_map.mpr fun e he => (hchildren e he).sorted)
  names := each_of_children (List.forall_mem_map.mpr hnames)
    (List.forall_mem_map.mpr fun e he => (hchildren e he).names)

theorem returns_of_map {α : Type} {f : ShvTypeInfo → α} {x : α}
    (h : (fromRpcValue n v).run.map (·.map f) = some (.ok x)) :
    ∃ ti, Returns (fromRpcValue n v) ti ∧ f ti = x := by
  obtain ⟨r, hr, hx⟩ := Option.map_eq_some_iff.mp h
  cases r with
  | error e => cases hx
  | ok ti => exact ⟨ti, hr, Except.ok.inj hx⟩

/-- Two devices of one type, the second one without the property of the first. -/
def twoDevices : RpcValue :=
  treeNode [] [("a", treeNode [("deviceType", "T")] [("x", labelled "X")]),
    ("b", treeNode [("deviceType", "T")] [])]

/-- The property of the first device. -/
def firstX : Place :=
  ((Place.root twoDevices).child (ascii "a", treeNode [("deviceType", "T")] [("x", labelled "X")])).child
    (ascii "x", labelled "X")

theorem plainTree_twoDevices : PlainTree twoDevices := by
  have hleaf : PlainTree (labelled "X") :=
    plainTree_treeNode .nil (fun _ he => absurd he List.not_mem_nil) fun _ he => absurd he List.not_mem_nil
  have ha : PlainTree (treeNode [("deviceType", "T")] [("x", labelled "X")]) :=
    plainTree_treeNode (List.pairwise_singleton _ _) (by decide) (List.forall_mem_singleton.mpr hleaf)
  have hb : PlainTree (treeNode [("deviceType", "T")] []) :=
    plainTree_treeNode .nil (fun _ he => absurd he List.not_mem_nil) fun _ he => absurd he List.not_mem_nil
  refine plainTree_treeNode ?_ (by decide) (List.forall_mem_cons.mpr ⟨ha, List.forall_mem_singleton.mpr hb⟩)
  refine List.Pairwise.cons (List.forall_mem_singleton.mpr ?_) (List.pairwise_singleton _ _)
  decide

theorem nodeAt_firstX : NodeAt twoDevices firstX := by
  have ha : Place.Step (Place.root twoDevices)
      ((Place.root twoDevices).child (ascii "a", treeNode [("deviceType", "T")] [("x", labelled "X")])) :=
    ⟨_, List.mem_cons_self, rfl, rfl⟩
  refine ⟨rfl, (Relation.ReflTransGen.single ha).tail ?_⟩
  exact ⟨_, List.mem_cons_self, rfl, rfl⟩

theorem pathInfo_nodesTree_twoDevices :
    ∃ ti, Returns (fromRpcValue 4 twoDevices) ti ∧ ti.ReadsBack [ascii "a", ascii "x"] firstX.description ∧
      (ti.pathInfo (ascii "b/x")).propertyDescription.isValid = false := by
  have htree : IsNodesTree twoDevices := ⟨0, rfl, by decide, by decide⟩
  obtain ⟨ti, hti, -⟩ := returns_of_map (n := 4) (v := twoDevices) (f := fun _ => ()) (x := ()) (by decide +kernel)
  obtain ⟨hreads, hlacks⟩ := (pathInfo_nodesTree plainTree_twoDevices htree).2 4 ti hti
  refine ⟨ti, hti, ?_, ?_⟩
  · obtain ⟨d, hd, hin, hread⟩ := hreads firstX nodeAt_firstX (by decide +kernel)
    have hclear : ∀ d ∈ devices 4 twoDevices, d.path = [ascii "a"] →
        Clear (devices 4 twoDevices) d [ascii "x"] := by
      unfold Clear
      decide +kernel
    exact hread (hclear d hd hin.2.1)
  · have hshows : ∃ d ∈ devices 4 twoDevices, ∃ d' ∈ devices 4 twoDevices, d'.type = d.type ∧
        ∃ q ∈ d'.properties, (∀ q' ∈ d.properties, q'.1 ≠ q.1) ∧ ShowsLack (devices 4 twoDevices) d q.1 ∧
          pathText (d.path ++ q.1) = ascii "b/x" := by
      unfold ShowsLack
      decide +kernel
    obtain ⟨d, hd, d', hd', htype, q, hq, hlack, hshow, hpath⟩ := hshows
    rw [← hpath]
    exact hlacks d hd d' hd' htype q hq hlack hshow

/-! ## what is not read back -/

/-- A node of a tree, whether it is read or not. -/
def IsNode (v : RpcValue) : Place → Prop :=
  Relation.ReflTransGen (fun p p' => ∃ c ∈ p.node.asMap, p' = p.child c) (Place.root v)

/-- The second device has a description of its own other than the first one has. -/
def deviceB : RpcValue := treeNode [("deviceType", "T"), ("label", "B")] [("x", labelled "X")]

/-- A node without a description. -/
def groupC : RpcValue := treeNode [] [("d", labelled "D1")]

/-- A property that has a type. -/
def typedS : RpcValue := treeNode [("typeName", "Status")] [("f", labelled "F")]

/-- A tree where nodes lie below a deviation, beside a name with a slash, below a property that has
a type and under an empty name, and where devices have a device or a property above one they lack. -/
def awkwardTree : RpcValue :=
  treeNode [] [
    ("", labelled "N"),
    ("a", treeNode [("deviceType", "T"), ("label", "A")] [("x", labelled "X")]),
    ("b", deviceB),
    ("c", groupC),
    ("c/d", labelled "D2"),
    ("d", treeNode [("deviceType", "U")] [("s", treeNode [("deviceType", "V")] [("f", labelled "F")])]),
    ("e", treeNode [("deviceType", "U")] [("s", labelled "S")]),
    ("g", treeNode [("deviceType", "U")] [("s", treeNode [] [("f", labelled "F")])]),
    ("s", typedS)]

/-- A child of a child of the root. -/
def grandchild (v : RpcValue) (c c' : String × RpcValue) : Place :=
  ((Place.root v).child (ascii c.1, c.2)).child (ascii c'.1, c'.2)

theorem isNode_grandchild {v : RpcValue} {c c' : String × RpcValue} (h : (ascii c.1, c.2) ∈ v.asMap)
    (h' : (ascii c'.1, c'.2) ∈ c.2.asMap) : IsNode v (grandchild v c c') := by
  have hchild : IsNode v ((Place.root v).child (ascii c.1, c.2)) :=
    Relation.ReflTransGen.single ⟨_, h, rfl⟩
  refine hchild.tail ⟨_, ?_, rfl⟩
  rw [node_child]
  exact h'

/-- The description with this name and this label. -/
def labelledAt (path label : String) : ShvDescr := (declared (labelled label)).setName (ascii path)

theorem not_pathInfo_nodesTree :
    (∀ x, Relation.ReflTransGen (Calls mapValues) awkwardTree x → nodeTypeRef x = []) ∧
    IsNodesTree awkwardTree ∧
    ∃ ti, Returns (fromRpcValue 4 awkwardTree) ti ∧
      (∃ p, IsNode awkwardTree p ∧ (declared p.node).isValid = true ∧
        p.path = [ascii "b", ascii "x"] ∧ ¬ ti.ReadsBack p.path p.description) ∧
      (∃ p, IsNode awkwardTree p ∧ (declared p.node).isValid = true ∧
        p.path = [ascii "s", ascii "f"] ∧ ¬ ti.ReadsBack p.path p.description) ∧
      (∃ p, IsNode awkwardTree p ∧ (declared p.node).isValid = true ∧
        p.path = [ascii "c", ascii "d"] ∧ ¬ ti.ReadsBack p.path p.description) ∧
      (∃ p, IsNode awkwardTree p ∧ (declared p.node).isValid = true ∧
        p.path = [[]] ∧ ¬ ti.ReadsBack p.path p.description) ∧
      ∀ path ∈ [ascii "d/s/f", ascii "e/s/f"],
        ∃ d ∈ devices 4 awkwardTree, ∃ d' ∈ devices 4 awkwardTree, d'.type = d.type ∧
          ∃ q ∈ d'.properties, (∀ q' ∈ d.properties, q'.1 ≠ q.1) ∧ pathText (d.path ++ q.1) = path ∧
            (ti.pathInfo path).propertyDescription.isValid = true := by
  obtain ⟨ti, hti, hread⟩ := returns_of_map (n := 4) (v := awkwardTree)
    (f := fun ti => decide ((ti.pathInfo (ascii "b/x")).fieldPath = ascii "x" ∧
      (ti.pathInfo (ascii "s/f")).fieldPath = ascii "f" ∧
      (ti.pathInfo (ascii "c/d")).propertyDescription.label = ascii "D2" ∧
      (labelledAt "c/d" "D1").m_data.eq (ti.pathInfo (ascii "c/d")).propertyDescription.m_data = false ∧
      (ti.pathInfo []).propertyDescription.label = [] ∧
      (labelledAt "" "N").m_data.eq (ti.pathInfo []).propertyDescription.m_data = false ∧
      (ti.pathInfo (ascii "d/s/f")).propertyDescription.isValid = true ∧
      (ti.pathInfo (ascii "e/s/f")).propertyDescription.isValid = true)) (x := true) (by decide +kernel)
  obtain ⟨hx, hf, hlabel, hne, hlabel', hne', hdvalid, hevalid⟩ := of_decide_eq_true hread
  refine ⟨?_, ⟨0, rfl, by decide, by decide⟩, ti, hti,
    ⟨grandchild awkwardTree ("b", deviceB) ("x", labelled "X"), ?_, by decide +kernel, rfl, fun h => ?_⟩,
    ⟨grandchild awkwardTree ("s", typedS) ("f", labelled "F"), ?_, by decide +kernel, rfl, fun h => ?_⟩,
    ⟨grandchild awkwardTree ("c", groupC) ("d", labelled "D1"), ?_, by decide +kernel, rfl, fun h => ?_⟩,
    ⟨(Place.root awkwardTree).child ([], labelled "N"), ?_, by decide +kernel, rfl, fun h => ?_⟩, ?_⟩
  · have hleaf : ∀ label, ∀ x, Relation.ReflTransGen (Calls mapValues) (labelled label) x →
        nodeTypeRef x = [] := fun label => refs_treeNode fun _ he => absurd he List.not_mem_nil
    have hparent : ∀ tags name label, ∀ x,
        Relation.ReflTransGen (Calls mapValues) (treeNode tags [(name, labelled label)]) x →
          nodeTypeRef x = [] :=
      fun tags name label => refs_treeNode (List.forall_mem_singleton.mpr (hleaf label))
    have hgrandparent : ∀ tags tags' name name' label, ∀ x,
        Relation.ReflTransGen (Calls mapValues)
          (treeNode tags [(name, treeNode tags' [(name', labelled label)])]) x → nodeTypeRef x = [] :=
      fun tags tags' name name' label =>
        refs_treeNode (List.forall_mem_singleton.mpr (hparent tags' name' label))
    exact refs_treeNode (List.forall_mem_cons.mpr ⟨hleaf _, List.forall_mem_cons.mpr ⟨hparent _ _ _,
      List.forall_mem_cons.mpr ⟨hparent _ _ _, List.forall_mem_cons.mpr ⟨hparent _ _ _,
      List.forall_mem_cons.mpr ⟨hleaf _, List.forall_mem_cons.mpr ⟨hgrandparent _ _ _ _ _,
      List.forall_mem_cons.mpr ⟨hparent _ _ _, List.forall_mem_cons.mpr ⟨hgrandparent _ _ _ _ _,
      List.forall_mem_singleton.mpr (hparent _ _ _)⟩⟩⟩⟩⟩⟩⟩⟩)
  · exact isNode_grandchild (List.mem_of_getElem? (i := 2) rfl) List.mem_cons_self
  · exact absurd (hx.symm.trans h.2) (by decide)
  · exact isNode_grandchild (List.mem_of_getElem? (i := 8) rfl) List.mem_cons_self
  · exact absurd (hf.symm.trans h.2) (by decide)
  · exact isNode_grandchild (List.mem_of_getElem? (i := 3) rfl) List.mem_cons_self
  · rcases h.1 with heq | heq
    · exact absurd (hlabel.symm.trans (congrArg ShvDescr.label heq)) (by decide +kernel)
    · exact Bool.false_ne_true (hne.symm.trans heq)
  · exact Relation.ReflTransGen.single ⟨_, List.mem_cons_self, rfl⟩
  · rcases h.1 with heq | heq
    · exact absurd (hlabel'.symm.trans (congrArg ShvDescr.label heq)) (by decide +kernel)
    · exact Bool.false_ne_true (hne'.symm.trans heq)
  · have hlacks : ∀ path ∈ [ascii "d/s/f", ascii "e/s/f"],
        ∃ d ∈ devices 4 awkwardTree, ∃ d' ∈ devices 4 awkwardTree, d'.type = d.type ∧
          ∃ q ∈ d'.properties, (∀ q' ∈ d.properties, q'.1 ≠ q.1) ∧ pathText (d.path ++ q.1) = path := by
      decide +kernel
    have hvalid : ∀ path ∈ [ascii "d/s/f", ascii "e/s/f"],
        (ti.pathInfo path).propertyDescription.isValid = true :=
      List.forall_mem_cons.mpr ⟨hdvalid, List.forall_mem_singleton.mpr hevalid⟩
    intro path hpath
    obtain ⟨d, hd, d', hd', htype, q, hq, hlack, htext⟩ := hlacks path hpath
    exact ⟨d, hd, d', hd', htype, q, hq, hlack, htext, hvalid path hpath⟩

end ShvTypeInfo

end LibShv
