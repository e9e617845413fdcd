import LibShv.QString
import LibShv.ShvNode
import LibShv.StringViewList

/-!
# LibShv.ShvNodeTree

The nodes of a broker as they are found by path, made and removed
(`shvnodetree.cpp`), and which of them have connections (`clientshvnode.cpp`).

A node is known by the ids from the root to it; the root is not in the list. A
child is looked for by its object name, which Qt makes from the id.
-/

namespace LibShv

/-- A node: the ids above it, its id, the connections if it is a `ClientShvNode`, and
whether `deleteLater` was called. -/
structure TreeNode where
  parent : List Bytes
  nodeId : Bytes
  connections : Option (List Int32)
  deleteLater : Bool
deriving DecidableEq

/-- The ids from the root to the node. -/
def TreeNode.dirs (nd : TreeNode) : List Bytes := nd.parent ++ [nd.nodeId]

/-- `ShvNodeTree`. -/
abbrev ShvNodeTree := List TreeNode

/-- `QString::fromStdString`: a text with ASCII characters only is made from its bytes only. -/
structure ObjectNames where
  fromStdString : Bytes → QString
  eq_of_ascii : ∀ s s', (∀ b ∈ s, b < 128) → fromStdString s' = fromStdString s → s' = s

/-- No other id has the object name of this one. -/
def ObjectNames.Faithful (names : ObjectNames) (s : Bytes) : Prop :=
  ∀ s', names.fromStdString s' = names.fromStdString s → s' = s

namespace ShvNodeTree

variable (names : ObjectNames)

/-! ## finding and making nodes -/

/-- `childNode`. -/
def childNode (t : ShvNodeTree) (dirs : List Bytes) (name : Bytes) : Option TreeNode :=
  t.find? fun nd => nd.parent = dirs ∧ names.fromStdString nd.nodeId = names.fromStdString name

/-- `mdcd` without making nodes: the node it comes to, and the rest of the path. -/
def cd (t : ShvNodeTree) (dirs : List Bytes) : List Bytes → List Bytes × List Bytes
  | [] => (dirs, [])
  | s :: path =>
    match childNode names t dirs s with
    | some nd => cd t nd.dirs path
    | none => (dirs, s :: path)

/-- `mdcd` that makes the nodes that are missing. -/
def mkdir (t : ShvNodeTree) (dirs : List Bytes) : List Bytes → ShvNodeTree × List Bytes
  | [] => (t, dirs)
  | s :: path =>
    match childNode names t dirs s with
    | some nd => mkdir t nd.dirs path
    | none => mkdir (t ++ [⟨dirs, s, none, false⟩]) (dirs ++ [s]) path

/-- `mount` of a node with these connections: where it is then, unless there is a node already. -/
def mount (t : ShvNodeTree) (path : List Bytes) (connections : Option (List Int32)) :
    ShvNodeTree × Option (List Bytes) :=
  match path.getLast? with
  | none => (t, none)
  | some last_id =>
    let made := mkdir names t [] path.dropLast
    match childNode names made.1 made.2 last_id with
    | some _ => (made.1, none)
    | none => (made.1 ++ [⟨made.2, last_id, connections, false⟩], some (made.2 ++ [last_id]))

/-- The node that `mdcd` comes to is a `ClientShvNode`. -/
def isClient (t : ShvNodeTree) (dirs : List Bytes) : Bool :=
  (t.find? (·.dirs = dirs)).any (·.connections.isSome)

/-- `ownChildren`. -/
def children (t : ShvNodeTree) (dirs : List Bytes) : List TreeNode := t.filter (·.parent = dirs)

/-- A node is deleted with everything below it. -/
def delete (t : ShvNodeTree) (dirs : List Bytes) : ShvNodeTree := t.filter fun nd => ¬ dirs <+: nd.dirs

/-! ## connections of nodes -/

/-- `ClientShvNode::addConnection`. -/
def addConnection (t : ShvNodeTree) (dirs : List Bytes) (conn : Int32) : ShvNodeTree :=
  t.map fun nd => if nd.dirs = dirs then { nd with connections := nd.connections.map (conn :: ·) } else nd

/-- `ClientShvNode::removeConnection` for the node, as often as the connection was added. -/
def removeFrom (t : ShvNodeTree) (conn : Int32) (nd : TreeNode) : TreeNode :=
  match nd.connections with
  | none => nd
  | some conns =>
    if conn ∈ conns then
      { nd with
        connections := some (conns.filter (· ≠ conn))
        deleteLater := nd.deleteLater ||
          ((conns.filter (· ≠ conn)).isEmpty && (children t nd.dirs).isEmpty) }
    else nd

/-- A connection is destroyed: every node removes it. -/
def removeConnection (t : ShvNodeTree) (conn : Int32) : ShvNodeTree := t.map (removeFrom t conn)

/-- The frame of a request goes down the tree to the first `ClientShvNode` (`handleRpcFrame`),
which sends it to the first of its connections. -/
def handlingConnection (t : ShvNodeTree) (dirs : List Bytes) : List Bytes → Option Int32
  | [] => none
  | s :: path =>
    match childNode names t dirs s with
    | none => none
    | some nd =>
      match nd.connections with
      | some conns => conns.head?
      | none => handlingConnection t nd.dirs path

variable {names} {t : ShvNodeTree} {dirs path : List Bytes}

theorem childNode_eq_some {nd : TreeNode} {s : Bytes} (h : childNode names t dirs s = some nd) :
    nd ∈ t ∧ nd.parent = dirs ∧ names.fromStdString nd.nodeId = names.fromStdString s :=
  ⟨List.mem_of_find?_eq_some h, by simpa using List.find?_some h⟩

theorem dirs_of_childNode {nd : TreeNode} {s : Bytes} (h : childNode names t dirs s = some nd)
    (hs : names.Faithful s) : nd.dirs = dirs ++ [s] := by
  obtain ⟨-, hparent, hname⟩ := childNode_eq_some h
  rw [TreeNode.dirs, hparent, hs nd.nodeId hname]

/-- The path is what was gone and the rest. -/
theorem cd_append (h : ∀ s ∈ path, names.Faithful s) :
    (cd names t dirs path).1 ++ (cd names t dirs path).2 = dirs ++ path := by
  induction path generalizing dirs with
  | nil => rfl
  | cons s path ih =>
    obtain ⟨hs, hpath⟩ := List.forall_mem_cons.mp h
    rw [cd]
    cases hchild : childNode names t dirs s with
    | none => rfl
    | some nd =>
      refine (ih hpath).trans ?_
      rw [dirs_of_childNode hchild hs, List.append_assoc, List.singleton_append]

theorem mkdir_dirs (h : ∀ s ∈ path, names.Faithful s) : (mkdir names t dirs path).2 = dirs ++ path := by
  induction path generalizing t dirs with
  | nil => exact (List.append_nil dirs).symm
  | cons s path ih =>
    obtain ⟨hs, hpath⟩ := List.forall_mem_cons.mp h
    rw [mkdir]
    cases hchild : childNode names t dirs s with
    | none =>
      refine (ih hpath).trans ?_
      rw [List.append_assoc, List.singleton_append]
    | some nd =>
      refine (ih hpath).trans ?_
      rw [dirs_of_childNode hchild hs, List.append_assoc, List.singleton_append]

/-- Only plain nodes are made. -/
theorem mem_mkdir {nd : TreeNode} (h : nd ∈ (mkdir names t dirs path).1) :
    nd ∈ t ∨ nd.connections = none := by
  induction path generalizing t dirs with
  | nil => exact .inl h
  | cons s path ih =>
    rw [mkdir] at h
    cases hchild : childNode names t dirs s with
    | none =>
      rw [hchild] at h
      obtain hmem | hnone := ih h
      · obtain hmem | hmem := List.mem_append.mp hmem
        · exact .inl hmem
        · exact .inr (List.mem_singleton.mp hmem ▸ rfl)
      · exact .inr hnone
    | some child =>
      rw [hchild] at h
      exact ih h

/-- A mounted node is where it was mounted; all the others were there or are plain. -/
theorem mount_eq_some (h : ∀ s ∈ path, names.Faithful s) {connections : Option (List Int32)}
    {t' : ShvNodeTree} {dirs' : List Bytes} (hmount : mount names t path connections = (t', some dirs')) :
    dirs' = path ∧ (∃ nd ∈ t', nd.dirs = path ∧ nd.connections = connections) ∧
      ∀ nd ∈ t', nd ∈ t ∨ nd.connections = none ∨ (nd.dirs = path ∧ nd.connections = connections) := by
  rw [mount] at hmount
  cases hlast : path.getLast? with
  | none =>
    rw [hlast] at hmount
    cases hmount
  | some last_id =>
    have hpath : path.dropLast ++ [last_id] = path := List.dropLast_append_getLast? last_id hlast
    have hmade : (mkdir names t [] path.dropLast).2 = path.dropLast := by
      refine mkdir_dirs fun s hs => h s (List.mem_of_mem_dropLast hs)
    rw [hlast] at hmount
    simp only at hmount
    cases hchild : childNode names (mkdir names t [] path.dropLast).1
        (mkdir names t [] path.dropLast).2 last_id with
    | some nd =>
      rw [hchild] at hmount
      cases hmount
    | none =>
      rw [hchild] at hmount
      cases hmount
      rw [hmade, hpath]
      refine ⟨rfl, ⟨_, List.mem_append_right _ List.mem_cons_self, ?_, rfl⟩, fun nd hnd => ?_⟩
      · exact hpath
      · obtain hnd | hnd := List.mem_append.mp hnd
        · exact (mem_mkdir hnd).imp_right .inl
        · obtain rfl := List.mem_singleton.mp hnd
          exact .inr (.inr ⟨hpath, rfl⟩)

theorem mem_mount_of_none {connections : Option (List Int32)} {t' : ShvNodeTree}
    (hmount : mount names t path connections = (t', none)) {nd : TreeNode} (hnd : nd ∈ t') :
    nd ∈ t ∨ nd.connections = none := by
  rw [mount] at hmount
  cases hlast : path.getLast? with
  | none =>
    rw [hlast] at hmount
    cases hmount
    exact .inl hnd
  | some last_id =>
    rw [hlast] at hmount
    simp only at hmount
    cases hchild : childNode names (mkdir names t [] path.dropLast).1
        (mkdir names t [] path.dropLast).2 last_id with
    | some child =>
      rw [hchild] at hmount
      cases hmount
      exact mem_mkdir hnd
    | none =>
      rw [hchild] at hmount
      cases hmount

/-- Mounting a plain node makes plain nodes only. -/
theorem mem_mount_plain {nd : TreeNode} (hnd : nd ∈ (mount names t path none).1) :
    nd ∈ t ∨ nd.connections = none := by
  rw [mount] at hnd
  cases hlast : path.getLast? with
  | none =>
    rw [hlast] at hnd
    exact .inl hnd
  | some last_id =>
    rw [hlast] at hnd
    simp only at hnd
    cases hchild : childNode names (mkdir names t [] path.dropLast).1
        (mkdir names t [] path.dropLast).2 last_id with
    | some child =>
      rw [hchild] at hnd
      exact mem_mkdir hnd
    | none =>
      rw [hchild] at hnd
      obtain hnd | hnd := List.mem_append.mp hnd
      · exact mem_mkdir hnd
      · exact .inr (List.mem_singleton.mp hnd ▸ rfl)

theorem mem_of_isClient (h : isClient t dirs = true) : ∃ nd ∈ t, nd.dirs = dirs ∧ nd.connections.isSome := by
  rw [isClient, Option.any_eq_true] at h
  obtain ⟨nd, hfind, hsome⟩ := h
  exact ⟨nd, List.mem_of_find?_eq_some hfind, by simpa using List.find?_some hfind, hsome⟩

/-- The node that handles a request has the ids of the start of its path, as far as object
names tell. -/
theorem handlingConnection_eq_some {conn : Int32}
    (h : handlingConnection names t dirs path = some conn) :
    ∃ nd ∈ t, ∃ conns, nd.connections = some conns ∧ conn ∈ conns ∧
      ∃ ids, nd.dirs = dirs ++ ids ∧
        ids.map names.fromStdString <+: path.map names.fromStdString := by
  induction path generalizing dirs with
  | nil => cases h
  | cons s path ih =>
    rw [handlingConnection] at h
    cases hchild : childNode names t dirs s with
    | none =>
      rw [hchild] at h
      cases h
    | some nd =>
      rw [hchild] at h
      simp only at h
      obtain ⟨hmem, hparent, hname⟩ := childNode_eq_some hchild
      have hdirs : nd.dirs = dirs ++ [nd.nodeId] := by rw [TreeNode.dirs, hparent]
      cases hconns : nd.connections with
      | some conns =>
        rw [hconns] at h
        refine ⟨nd, hmem, conns, hconns, List.mem_of_head? h, [nd.nodeId], hdirs, ?_⟩
        rw [List.map_cons, List.map_cons, hname]
        exact List.cons_prefix_cons.mpr ⟨rfl, List.nil_prefix⟩
      | none =>
        rw [hconns] at h
        obtain ⟨nd', hmem', conns, hconns', hconn, ids, hids, hprefix⟩ := ih h
        refine ⟨nd', hmem', conns, hconns', hconn, nd.nodeId :: ids, ?_, ?_⟩
        · rw [hids, hdirs, List.append_assoc, List.singleton_append]
        · rw [List.map_cons, List.map_cons, hname]
          exact List.cons_prefix_cons.mpr ⟨rfl, hprefix⟩

/-- A node has no other connections than before, and the removed one no more. -/
theorem mem_removeConnection {nd : TreeNode} {conn : Int32} (h : nd ∈ removeConnection t conn) :
    ∃ nd' ∈ t, nd'.dirs = nd.dirs ∧ ∀ conns, nd.connections = some conns → ∀ c ∈ conns,
      c ≠ conn ∧ ∃ conns', nd'.connections = some conns' ∧ c ∈ conns' := by
  obtain ⟨nd', hnd', rfl⟩ := List.mem_map.mp h
  refine ⟨nd', hnd', ?_, ?_⟩
  · rw [removeFrom]
    split
    · rfl
    · split <;> rfl
  · intro conns hconns c hc
    rw [removeFrom] at hconns
    split at hconns
    · rename_i hnone
      rw [hnone] at hconns
      cases hconns
    · rename_i conns' hsome
      split at hconns
      · obtain rfl := Option.some.inj hconns
        obtain ⟨hmem, hne⟩ := List.mem_filter.mp hc
        exact ⟨of_decide_eq_true hne, conns', hsome, hmem⟩
      · rename_i hnot
        rw [hsome] at hconns
        obtain rfl := Option.some.inj hconns
        exact ⟨fun heq => hnot (heq ▸ hc), conns', hsome, hc⟩

end ShvNodeTree

end LibShv
