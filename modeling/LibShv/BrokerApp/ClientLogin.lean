import LibShv.BrokerApp
import LibShv.ShvNodeTree

/-!
# LibShv.BrokerApp.ClientLogin

Devices that log in to a broker and are mounted (`BrokerApp::onClientLogin`), and
what becomes of their nodes when they are gone.

A login, the end of a connection, a deferred delete and the look for emptied
directories are events that come in any order. The mount point of a login is the
resolved one; it is empty for a client that is no device.
-/

namespace LibShv

/-- A connection: the mount point resolved for it, and the one that is recorded. -/
structure DeviceConnection where
  connectionId : Int32
  resolved : Bytes
  mountPoint : Bytes
deriving DecidableEq

/-- The nodes, the connections that are logged in, and the queued calls of
`deleteIfEmptyWithParents`. -/
structure MountState where
  nodes : ShvNodeTree
  connections : List DeviceConnection
  emptied : List (List Bytes)
deriving DecidableEq

namespace ClientLogin

open ShvNodeTree

variable (names : ObjectNames)

/-! ## directories of clients -/

def clientId (connection_id : Int32) : Bytes := Decimal.intDigits connection_id.toInt

/-- `brokerClientDirPath`. -/
def brokerClientDirPath (connection_id : Int32) : Bytes :=
  DIR_BROKER ++ ascii "/clients/" ++ clientId connection_id

/-- The directory of all clients. -/
def clientsDirs : List Bytes := [DIR_BROKER, ascii "clients"]

def clientDirs (connection_id : Int32) : List Bytes := clientsDirs ++ [clientId connection_id]

/-- The node a client is reached by, also if it is no device. -/
def appDirs (connection_id : Int32) : List Bytes := clientDirs connection_id ++ [ascii "app"]

/-- A node is destroyed with everything below it; a connection belongs to its app node. The
directory above a mounted `ClientShvNode` is looked at later. -/
def destroyNode (st : MountState) (dirs : List Bytes) : MountState :=
  let gone := st.connections.filter fun conn => dirs <+: appDirs conn.connectionId
  let emptied := st.emptied.filter fun p => ¬ dirs <+: p
  { nodes := (gone.map (·.connectionId)).foldl removeConnection (st.nodes.delete dirs)
    connections := st.connections.filter fun conn => ¬ dirs <+: appDirs conn.connectionId
    emptied :=
      if isClient st.nodes dirs ∧ ¬ clientsDirs <+: dirs then emptied ++ [dirs.dropLast]
      else emptied }

/-! ## login -/

/-- The nodes of a client: its directory, which must not be there yet, the app node, and the
subscriptions; false if these cannot be mounted. -/
def makeClientDir (st : MountState) (connection_id : Int32) : MountState × Bool :=
  let dir := cd names st.nodes [] (splitPath (brokerClientDirPath connection_id))
  let st := if StringViewList.join dir.2 = [] then destroyNode st dir.1 else st
  let clients := mkdir names st.nodes [] (splitPath (DIR_BROKER ++ ascii "/clients/"))
  let client_id_node : TreeNode := ⟨clients.2, clientId connection_id, none, false⟩
  let client_app_node : TreeNode := ⟨client_id_node.dirs, ascii "app", some [connection_id], false⟩
  let mounted := mount names (clients.1 ++ [client_id_node, client_app_node])
    (splitPath (ShvNode.shvPath client_id_node.dirs ++ ascii "/subscriptions")) none
  ({ st with nodes := mounted.1 }, mounted.2.isSome)

/-- The device part: the node that the connection was added to. -/
def mountDevice (t : ShvNodeTree) (connection_id : Int32) (mount_point : Bytes) :
    ShvNodeTree × Except String (List Bytes) :=
  let found := cd names t [] (splitPath mount_point)
  if isClient t found.1 then (addConnection t found.1 connection_id, .ok found.1)
  else if StringViewList.join found.2 = [] then (t, .error "Cannot mount device to not-leaf node")
  else
    let mounted := mount names t (splitPath mount_point) (some [connection_id])
    match mounted.2 with
    | none => (mounted.1, .error "Cannot mount connection to device tree")
    | some dirs => (mounted.1, .ok dirs)

/-- `onClientLogin`. -/
def onClientLogin (st : MountState) (connection_id : Int32) (mount_point : Bytes) :
    MountState × Except String Unit :=
  let made := makeClientDir names st connection_id
  let login (nodes : ShvNodeTree) (recorded : Bytes) : MountState :=
    { made.1 with
      nodes := nodes
      connections := ⟨connection_id, mount_point, recorded⟩ :: made.1.connections }
  if made.2 = false then (login made.1.nodes [], .error "Cannot mount connection subscription list")
  else if mount_point = [] then (login made.1.nodes [], .ok ())
  else
    let mounted := mountDevice names made.1.nodes connection_id mount_point
    match mounted.2 with
    | .error msg => (login mounted.1 [], .error msg)
    | .ok dirs => (login mounted.1 (ShvNode.shvPath dirs), .ok ())

/-! ## the end of a connection -/

/-- `ClientConnectionOnBroker::destroyed`: the nodes remove the connection, and its directory
is going to be deleted. -/
def connectionDestroyed (st : MountState) (connection_id : Int32) : MountState :=
  { st with
    nodes := (removeConnection st.nodes connection_id).map fun nd =>
      if nd.dirs = clientDirs connection_id then { nd with deleteLater := true } else nd
    connections := st.connections.filter (·.connectionId ≠ connection_id) }

/-- The highest node above, from the last id on, that has no other child. -/
def lowestEmptyParent (t : ShvNodeTree) : List Bytes → List Bytes
  | [] => []
  | [nodeId] => [nodeId]
  | nodeId :: parent :: above =>
    if (children t (parent :: above).reverse).length = 1 then lowestEmptyParent t (parent :: above)
    else nodeId :: parent :: above

/-- `deleteIfEmptyWithParents` of a node that is still there. -/
def deleteIfEmptyWithParents (st : MountState) (dirs : List Bytes) : MountState :=
  if dirs ≠ [] ∧ st.nodes.any (·.dirs = dirs) ∧ (children st.nodes dirs).length = 0 then
    destroyNode st (lowestEmptyParent st.nodes dirs.reverse).reverse
  else st

/-! ## runs -/

/-- What happens at a broker. -/
inductive Event where
  | login (connection_id : Int32) (mount_point : Bytes)
  | destroyed (connection_id : Int32)
  | deferredDelete (dirs : List Bytes)
  | emptied (dirs : List Bytes)

/-- No connection with this id is logged in. -/
def Fresh (st : MountState) (connection_id : Int32) : Prop :=
  ∀ conn ∈ st.connections, conn.connectionId ≠ connection_id

instance (st : MountState) (connection_id : Int32) : Decidable (Fresh st connection_id) :=
  List.decidableBAll _ _

/-- The state after an event, if it can happen. -/
def step (st : MountState) : Event → Option MountState
  | .login connection_id mount_point =>
    if Fresh st connection_id then some (onClientLogin names st connection_id mount_point).1 else none
  | .destroyed connection_id =>
    if Fresh st connection_id then none else some (connectionDestroyed st connection_id)
  | .deferredDelete dirs =>
    if st.nodes.any fun nd => nd.dirs = dirs ∧ nd.deleteLater then some (destroyNode st dirs) else none
  | .emptied dirs =>
    if dirs ∈ st.emptied then
      some (deleteIfEmptyWithParents { st with emptied := st.emptied.erase dirs } dirs)
    else none

/-- A mount point whose segments no other ids look like, are told apart by slashes, and do not
lead to the directories of the clients; and no `ClientShvNode` is mounted above it. -/
structure Mountable (st : MountState) (mount_point : Bytes) : Prop where
  faithful : ∀ s ∈ splitPath mount_point, names.Faithful s
  splitPath_shvPath : splitPath (ShvNode.shvPath (splitPath mount_point)) = splitPath mount_point
  not_clients : ¬ clientsDirs <+: splitPath mount_point
  not_below : ∀ nd ∈ st.nodes, nd.connections.isSome = true → nd.dirs <+: splitPath mount_point →
    nd.dirs = splitPath mount_point

/-- The condition on an event. -/
def Allowed (st : MountState) : Event → Prop
  | .login _ mount_point => mount_point ≠ [] → Mountable names st mount_point
  | _ => True

/-- The states a broker comes to by allowed events, from a tree without connections. -/
inductive Run : MountState → Prop
  | start {t : ShvNodeTree} (h : ∀ nd ∈ t, nd.connections = none) : Run ⟨t, [], []⟩
  | step {st st' : MountState} {e : Event} (h : Run st) (hallowed : Allowed names st e)
      (hstep : step names st e = some st') : Run st'

/-! ## where devices are -/

/-- A connection on a node is logged in, and the node is its app node or is where its mount point
was resolved and recorded. -/
def WellPlaced (conns : List DeviceConnection) (nd : TreeNode) (c : Int32) : Prop :=
  ∃ conn ∈ conns, conn.connectionId = c ∧
    (nd.dirs = appDirs c ∨ (¬ clientsDirs <+: nd.dirs ∧ splitPath conn.resolved = nd.dirs ∧
      splitPath conn.mountPoint = nd.dirs ∧ ∀ s ∈ nd.dirs, names.Faithful s))

/-- All connections of the nodes are. -/
def Placed (conns : List DeviceConnection) (t : ShvNodeTree) : Prop :=
  ∀ nd ∈ t, ∀ cs, nd.connections = some cs → ∀ c ∈ cs, WellPlaced names conns nd c

structure Inv (st : MountState) : Prop where
  placed : Placed names st.connections st.nodes
  nodup : (st.connections.map (·.connectionId)).Nodup

variable {names} {conns conns' : List DeviceConnection} {t t' : ShvNodeTree} {st st' : MountState}

theorem Placed.subset (h : Placed names conns t) (ht : ∀ nd ∈ t', nd ∈ t ∨ nd.connections = none) :
    Placed names conns t' := by
  intro nd hnd cs hcs c hc
  obtain hmem | hnone := ht nd hnd
  · exact h nd hmem cs hcs c hc
  · rw [hnone] at hcs
    cases hcs

theorem WellPlaced.mono {nd : TreeNode} {c : Int32} (h : WellPlaced names conns nd c)
    (hsub : ∀ conn ∈ conns, conn.connectionId = c → conn ∈ conns') : WellPlaced names conns' nd c := by
  obtain ⟨conn, hconn, hid, hwhere⟩ := h
  exact ⟨conn, hsub conn hconn hid, hid, hwhere⟩

theorem Placed.cons (h : Placed names conns t) (conn : DeviceConnection) :
    Placed names (conn :: conns) t := fun nd hnd cs hcs c hc =>
  (h nd hnd cs hcs c hc).mono fun _ hmem _ => List.mem_cons_of_mem conn hmem

theorem placed_delete (h : Placed names conns t) (dirs : List Bytes) :
    Placed names conns (t.delete dirs) :=
  h.subset fun _ hnd => .inl (List.mem_of_mem_filter hnd)

/-- A removed connection may be forgotten. -/
theorem placed_removeConnection (h : Placed names conns t) (c : Int32) :
    Placed names (conns.filter (·.connectionId ≠ c)) (removeConnection t c) := by
  intro nd hnd cs hcs c' hc'
  obtain ⟨nd', hnd', hdirs, hconns⟩ := mem_removeConnection hnd
  obtain ⟨hne, cs', hcs', hmem⟩ := hconns cs hcs c' hc'
  obtain ⟨conn, hconn, hid, hwhere⟩ := h nd' hnd' cs' hcs' c' hmem
  rw [hdirs] at hwhere
  exact ⟨conn, List.mem_filter.mpr ⟨hconn, decide_eq_true (hid ▸ hne)⟩, hid, hwhere⟩

theorem placed_foldl_removeConnection (h : Placed names conns t) (cs : List Int32) :
    Placed names (conns.filter (·.connectionId ∉ cs)) (cs.foldl removeConnection t) := by
  induction cs generalizing conns t with
  | nil =>
    have hall : conns.filter (fun conn => conn.connectionId ∉ ([] : List Int32)) = conns :=
      List.filter_eq_self.mpr fun _ _ => decide_eq_true List.not_mem_nil
    rwa [hall]
  | cons c cs ih =>
    have hboth : conns.filter (fun conn => conn.connectionId ∉ c :: cs) =
        (conns.filter (·.connectionId ≠ c)).filter (·.connectionId ∉ cs) := by
      rw [List.filter_filter]
      exact List.filter_congr fun conn _ => by simp [Bool.and_comm]
    rw [hboth]
    exact ih (placed_removeConnection h c)

theorem inv_destroyNode (h : Inv names st) (dirs : List Bytes) : Inv names (destroyNode st dirs) where
  placed := by
    have hplaced := placed_foldl_removeConnection (placed_delete h.placed dirs)
      ((st.connections.filter fun conn => dirs <+: appDirs conn.connectionId).map (·.connectionId))
    refine fun nd hnd cs hcs c hc => (hplaced nd hnd cs hcs c hc).mono fun conn hconn _ => ?_
    obtain ⟨hmem, hnot⟩ := List.mem_filter.mp hconn
    refine List.mem_filter.mpr ⟨hmem, decide_eq_true fun hbelow => ?_⟩
    refine of_decide_eq_true hnot (List.mem_map.mpr ⟨conn, ?_, rfl⟩)
    exact List.mem_filter.mpr ⟨hmem, decide_eq_true hbelow⟩
  nodup := h.nodup.sublist (List.filter_sublist.map _)

theorem inv_connectionDestroyed (h : Inv names st) (c : Int32) :
    Inv names (connectionDestroyed st c) where
  placed := by
    intro nd hnd cs hcs c' hc'
    obtain ⟨nd', hnd', rfl⟩ := List.mem_map.mp hnd
    have hplaced := placed_removeConnection h.placed c nd' hnd'
    by_cases hdirs : nd'.dirs = clientDirs c
    · rw [if_pos hdirs] at hcs ⊢
      exact hplaced cs hcs c' hc'
    · rw [if_neg hdirs] at hcs ⊢
      exact hplaced cs hcs c' hc'
  nodup := h.nodup.sublist (List.filter_sublist.map _)

theorem inv_deleteIfEmptyWithParents (h : Inv names st) (dirs : List Bytes) :
    Inv names (deleteIfEmptyWithParents st dirs) := by
  rw [deleteIfEmptyWithParents]
  split
  · exact inv_destroyNode h _
  · exact h

/-! ## directories of clients are found -/

theorem faithful_of_ascii {s : Bytes} (h : s.all (· < 128) = true) : names.Faithful s := fun s' heq =>
  names.eq_of_ascii s s' (fun b hb => by simpa using List.all_eq_true.mp h b hb) heq

theorem faithful_clientsDirs : ∀ s ∈ clientsDirs, names.Faithful s := by
  intro s hs
  obtain rfl | hs := List.mem_cons.mp hs
  · exact faithful_of_ascii (by decide)
  · obtain rfl := List.mem_singleton.mp hs
    exact faithful_of_ascii (by decide)

theorem splitPath_clients : splitPath (DIR_BROKER ++ ascii "/clients/") = clientsDirs := by decide

theorem appDirs_inj {c c' : Int32} (h : appDirs c = appDirs c') : c = c' := by
  have hid : clientId c = clientId c' := by simpa [appDirs, clientDirs, clientsDirs] using h
  exact Int32.toInt.inj (Decimal.intDigits_inj hid)

theorem clientsDirs_isPrefix_appDirs (c : Int32) : clientsDirs <+: appDirs c := by
  rw [appDirs, clientDirs, List.append_assoc]
  exact List.prefix_append _ _

/-- Every `ClientShvNode` of the second tree was one of the first. -/
def Stems (t t' : ShvNodeTree) : Prop :=
  ∀ nd ∈ t', nd.connections.isSome = true → ∃ nd' ∈ t, nd'.dirs = nd.dirs ∧ nd'.connections.isSome = true

theorem stems_refl (t : ShvNodeTree) : Stems t t := fun nd hnd hsome => ⟨nd, hnd, rfl, hsome⟩

theorem Stems.trans {t'' : ShvNodeTree} (h : Stems t t') (h' : Stems t' t'') : Stems t t'' := by
  intro nd hnd hsome
  obtain ⟨nd', hnd', hdirs', hsome'⟩ := h' nd hnd hsome
  obtain ⟨nd'', hnd'', hdirs'', hsome''⟩ := h nd' hnd' hsome'
  exact ⟨nd'', hnd'', hdirs''.trans hdirs', hsome''⟩

theorem stems_foldl_removeConnection (t : ShvNodeTree) (cs : List Int32) :
    Stems t (cs.foldl removeConnection t) := by
  induction cs generalizing t with
  | nil => exact stems_refl t
  | cons c cs ih =>
    refine Stems.trans (fun nd hnd hsome => ?_) (ih (removeConnection t c))
    obtain ⟨nd', hnd', rfl⟩ := List.mem_map.mp hnd
    refine ⟨nd', hnd', ?_⟩
    rw [removeFrom] at hsome ⊢
    split at hsome
    · rename_i hnone
      rw [hnone] at hsome
      exact absurd hsome Bool.false_ne_true
    · rename_i conns hconns
      refine ⟨?_, by rw [hconns]; rfl⟩
      split <;> rfl

theorem stems_destroyNode (st : MountState) (dirs : List Bytes) :
    Stems st.nodes (destroyNode st dirs).nodes :=
  Stems.trans (fun nd hnd hsome => ⟨nd, List.mem_of_mem_filter hnd, rfl, hsome⟩)
    (stems_foldl_removeConnection _ _)

/-! ## a login -/

/-- A connection that is not logged in is on no node. -/
theorem Inv.not_mem (h : Inv names st) {c : Int32} (hfresh : Fresh st c) {nd : TreeNode}
    (hnd : nd ∈ st.nodes) {cs : List Int32} (hcs : nd.connections = some cs) : c ∉ cs := by
  intro hc
  obtain ⟨conn, hconn, hid, -⟩ := h.placed nd hnd cs hcs c hc
  exact hfresh conn hconn hid

/-- The nodes of a client in a tree: its directory, its app node, and below them directories
without a connection. -/
theorem mem_mount_client {c : Int32} {client_id_node nd : TreeNode} {subscriptions : List Bytes}
    (hid : client_id_node.dirs = clientDirs c) (hnone : client_id_node.connections = none)
    (hnd : nd ∈ (mount names ((mkdir names t [] clientsDirs).1 ++
      [client_id_node, ⟨client_id_node.dirs, ascii "app", some [c], false⟩])
      subscriptions none).1) :
    nd ∈ t ∨ nd.connections = none ∨ (nd.dirs = appDirs c ∧ nd.connections = some [c]) := by
  obtain hnd | hnone' := mem_mount_plain hnd
  · obtain hnd | hnd := List.mem_append.mp hnd
    · exact (mem_mkdir hnd).imp_right .inl
    · obtain rfl | hnd := List.mem_cons.mp hnd
      · exact .inr (.inl hnone)
      · obtain rfl := List.mem_singleton.mp hnd
        refine .inr (.inr ⟨?_, rfl⟩)
        rw [TreeNode.dirs, hid, appDirs]
  · exact .inr (.inl hnone')

/-- What is left of the old nodes of a client, when its directory is there. -/
theorem exists_destroyed (h : Inv names st) (dir : List Bytes × List Bytes) :
    ∃ st₁, (if StringViewList.join dir.2 = [] then destroyNode st dir.1 else st) = st₁ ∧
      Inv names st₁ ∧ (∀ conn ∈ st₁.connections, conn ∈ st.connections) ∧
      Stems st.nodes st₁.nodes := by
  refine ⟨_, rfl, ?_⟩
  split
  · exact ⟨inv_destroyNode h _, fun conn hconn => List.mem_of_mem_filter hconn,
      stems_destroyNode st _⟩
  · exact ⟨h, fun conn hconn => hconn, stems_refl _⟩

/-- The nodes of a client are made beside what is left of the old ones. -/
theorem makeClientDir_spec (h : Inv names st) (c : Int32) :
    ∃ st₁, Inv names st₁ ∧ (∀ conn ∈ st₁.connections, conn ∈ st.connections) ∧
      Stems st.nodes st₁.nodes ∧ (makeClientDir names st c).1.connections = st₁.connections ∧
      ∀ nd ∈ (makeClientDir names st c).1.nodes, nd ∈ st₁.nodes ∨ nd.connections = none ∨
        (nd.dirs = appDirs c ∧ nd.connections = some [c]) := by
  obtain ⟨st₁, hst₁, hinv, hsub, hstems⟩ :=
    exists_destroyed h (cd names st.nodes [] (splitPath (brokerClientDirPath c)))
  have hclients : (mkdir names st₁.nodes [] clientsDirs).2 = clientsDirs :=
    mkdir_dirs faithful_clientsDirs
  refine ⟨st₁, hinv, hsub, hstems, ?_, fun nd hnd => ?_⟩
  · rw [makeClientDir, hst₁]
  · simp only [makeClientDir, hst₁, splitPath_clients, hclients] at hnd
    exact mem_mount_client rfl rfl hnd

/-- A connection is on its app node only. -/
def OnlyApp (c : Int32) (t : ShvNodeTree) : Prop :=
  ∀ nd ∈ t, ∀ cs, nd.connections = some cs → c ∈ cs → nd.dirs = appDirs c

theorem OnlyApp.subset {c : Int32} (h : OnlyApp c t)
    (ht : ∀ nd ∈ t', nd ∈ t ∨ nd.connections = none) : OnlyApp c t' := by
  intro nd hnd cs hcs hc
  obtain hmem | hnone := ht nd hnd
  · exact h nd hmem cs hcs hc
  · rw [hnone] at hcs
    cases hcs

/-- The tree with the nodes of a client: all connections are well placed, whatever is recorded
for the new one. -/
theorem makeClientDir_placed (h : Inv names st) {c : Int32} (hfresh : Fresh st c)
    {conn : DeviceConnection} (hid : conn.connectionId = c) :
    Placed names (conn :: (makeClientDir names st c).1.connections)
        (makeClientDir names st c).1.nodes ∧
      OnlyApp c (makeClientDir names st c).1.nodes := by
  obtain ⟨st₁, hinv, hsub, -, hconns, hnodes⟩ := makeClientDir_spec h c
  have hfresh₁ : Fresh st₁ c := fun conn' hconn' => hfresh conn' (hsub conn' hconn')
  rw [hconns]
  constructor
  · intro nd hnd cs hcs c' hc'
    obtain hmem | hnone | ⟨hdirs, happ⟩ := hnodes nd hnd
    · exact (hinv.placed nd hmem cs hcs c' hc').mono fun _ hmem _ => List.mem_cons_of_mem conn hmem
    · rw [hnone] at hcs
      cases hcs
    · rw [happ] at hcs
      obtain rfl := Option.some.inj hcs
      obtain rfl := List.mem_singleton.mp hc'
      exact ⟨conn, List.mem_cons_self, hid, .inl hdirs⟩
  · intro nd hnd cs hcs hc
    obtain hmem | hnone | ⟨hdirs, happ⟩ := hnodes nd hnd
    · exact absurd hc (hinv.not_mem hfresh₁ hmem hcs)
    · rw [hnone] at hcs
      cases hcs
    · exact hdirs

/-- A mount point that is allowed before the nodes of the client are made is allowed then. -/
theorem not_below_makeClientDir (h : Inv names st) {c : Int32} {mount_point : Bytes}
    (hmountable : Mountable names st mount_point) :
    ∀ nd ∈ (makeClientDir names st c).1.nodes, nd.connections.isSome = true →
      nd.dirs <+: splitPath mount_point → nd.dirs = splitPath mount_point := by
  obtain ⟨st₁, -, -, hstems, -, hnodes⟩ := makeClientDir_spec h c
  intro nd hnd hsome hprefix
  obtain hmem | hnone | ⟨hdirs, -⟩ := hnodes nd hnd
  · obtain ⟨nd', hnd', hdirs, hsome'⟩ := hstems nd hmem hsome
    rw [← hdirs] at hprefix ⊢
    exact hmountable.not_below nd' hnd' hsome' hprefix
  · rw [hnone] at hsome
    exact absurd hsome Bool.false_ne_true
  · rw [hdirs] at hprefix
    exact absurd ((clientsDirs_isPrefix_appDirs c).trans hprefix) hmountable.not_clients

/-- A connection is on the node of the directories. -/
def IsAt (t : ShvNodeTree) (dirs : List Bytes) (c : Int32) : Prop :=
  ∃ nd ∈ t, nd.dirs = dirs ∧ ∃ cs, nd.connections = some cs ∧ c ∈ cs

/-- The device part adds the connection to the node at its mount point, or to no node. -/
theorem mountDevice_spec {c : Int32} {mount_point : Bytes}
    (hfaithful : ∀ s ∈ splitPath mount_point, names.Faithful s)
    (hbelow : ∀ nd ∈ t, nd.connections.isSome = true → nd.dirs <+: splitPath mount_point →
      nd.dirs = splitPath mount_point) :
    match (mountDevice names t c mount_point).2 with
    | .ok dirs => dirs = splitPath mount_point ∧
        IsAt (mountDevice names t c mount_point).1 (splitPath mount_point) c ∧
        ∀ nd ∈ (mountDevice names t c mount_point).1, ∀ cs, nd.connections = some cs → ∀ c' ∈ cs,
          (∃ nd' ∈ t, nd'.dirs = nd.dirs ∧ ∃ cs', nd'.connections = some cs' ∧ c' ∈ cs') ∨
            (nd.dirs = splitPath mount_point ∧ c' = c)
    | .error _ => ∀ nd ∈ (mountDevice names t c mount_point).1, nd ∈ t ∨ nd.connections = none := by
  have hpath := @cd_append names t [] _ hfaithful
  rw [List.nil_append] at hpath
  rw [mountDevice]
  by_cases hclient : isClient t (cd names t [] (splitPath mount_point)).1 = true
  · simp only [if_pos hclient]
    obtain ⟨nd, hnd, hdirs, hsome⟩ := mem_of_isClient hclient
    have hat : (cd names t [] (splitPath mount_point)).1 = splitPath mount_point := by
      rw [← hdirs]
      refine hbelow nd hnd hsome ?_
      rw [hdirs]
      exact ⟨_, hpath⟩
    rw [hat] at hdirs ⊢
    obtain ⟨cs, hcs⟩ := Option.isSome_iff_exists.mp hsome
    refine ⟨rfl, ⟨{ nd with connections := some (c :: cs) }, ?_, hdirs, c :: cs, rfl,
      List.mem_cons_self⟩, ?_⟩
    · refine List.mem_map.mpr ⟨nd, hnd, ?_⟩
      rw [if_pos hdirs, hcs]
      rfl
    · intro nd' hnd' cs' hcs' c' hc'
      obtain ⟨nd₀, hnd₀, rfl⟩ := List.mem_map.mp hnd'
      by_cases hdirs₀ : nd₀.dirs = splitPath mount_point
      · rw [if_pos hdirs₀] at hcs' ⊢
        obtain ⟨cs₀, hcs₀, rfl⟩ := Option.map_eq_some_iff.mp hcs'
        obtain rfl | hc' := List.mem_cons.mp hc'
        · exact .inr ⟨hdirs₀, rfl⟩
        · exact .inl ⟨nd₀, hnd₀, rfl, cs₀, hcs₀, hc'⟩
      · rw [if_neg hdirs₀] at hcs' ⊢
        exact .inl ⟨nd₀, hnd₀, rfl, cs', hcs', hc'⟩
  · simp only [if_neg hclient]
    by_cases hrest : StringViewList.join (cd names t [] (splitPath mount_point)).2 = []
    · simp only [if_pos hrest]
      exact fun nd hnd => .inl hnd
    · simp only [if_neg hrest]
      generalize hmount : mount names t (splitPath mount_point) (some [c]) = mounted
      obtain ⟨t', dirs⟩ := mounted
      cases dirs with
      | none => exact fun nd hnd => mem_mount_of_none hmount hnd
      | some dirs =>
        obtain ⟨hdirs, ⟨nd, hnd, hat, hcs⟩, hnodes⟩ := mount_eq_some hfaithful hmount
        refine ⟨hdirs, ⟨nd, hnd, hat, [c], hcs, List.mem_cons_self⟩, ?_⟩
        intro nd' hnd' cs' hcs' c' hc'
        obtain hmem | hnone | ⟨hat', hnew⟩ := hnodes nd' hnd'
        · exact .inl ⟨nd', hmem, rfl, cs', hcs', hc'⟩
        · rw [hnone] at hcs'
          cases hcs'
        · rw [hnew] at hcs'
          obtain rfl := Option.some.inj hcs'
          exact .inr ⟨hat', List.mem_singleton.mp hc'⟩

/-- What a login that is allowed comes to. -/
def LoginCorrect (st : MountState) (c : Int32) (mount_point : Bytes) :
    Except String Unit → Prop
  | .ok () => mount_point ≠ [] → IsAt st.nodes (splitPath mount_point) c ∧
      ∃ conn ∈ st.connections, conn.connectionId = c ∧ conn.resolved = mount_point ∧
        splitPath conn.mountPoint = splitPath mount_point
  | .error _ => OnlyApp c st.nodes

theorem Fresh.nodup (h : (conns.map (·.connectionId)).Nodup) {conn : DeviceConnection}
    (hfresh : ∀ conn' ∈ conns, conn'.connectionId ≠ conn.connectionId) :
    ((conn :: conns).map (·.connectionId)).Nodup := by
  refine List.nodup_cons.mpr ⟨fun hmem => ?_, h⟩
  obtain ⟨conn', hconn', heq⟩ := List.mem_map.mp hmem
  exact hfresh conn' hconn' heq

/-- A login keeps the connections well placed, and does what it promises. -/
theorem onClientLogin_spec (h : Inv names st) {c : Int32} (hfresh : Fresh st c) {mount_point : Bytes}
    (hmountable : mount_point ≠ [] → Mountable names st mount_point) :
    Inv names (onClientLogin names st c mount_point).1 ∧
      LoginCorrect (onClientLogin names st c mount_point).1 c mount_point
        (onClientLogin names st c mount_point).2 := by
  have hplaced := fun recorded =>
    @makeClientDir_placed names st h c hfresh ⟨c, mount_point, recorded⟩ rfl
  obtain ⟨st₁, hinv, hsub, -, hconns, -⟩ := makeClientDir_spec h c
  have hnodup : ∀ recorded, (((⟨c, mount_point, recorded⟩ : DeviceConnection) ::
      (makeClientDir names st c).1.connections).map (·.connectionId)).Nodup := fun recorded => by
    rw [hconns]
    exact Fresh.nodup hinv.nodup fun conn hconn => hfresh conn (hsub conn hconn)
  have hbelow := fun hne => not_below_makeClientDir h (c := c) (hmountable hne)
  rw [onClientLogin]
  generalize makeClientDir names st c = made at hplaced hnodup hbelow
  obtain ⟨made, ok⟩ := made
  by_cases hmade : ok = false
  · simp only [if_pos hmade]
    exact ⟨⟨(hplaced []).1, hnodup []⟩, (hplaced []).2⟩
  simp only [if_neg hmade]
  by_cases hnil : mount_point = []
  · simp only [if_pos hnil]
    exact ⟨⟨(hplaced []).1, hnodup []⟩, fun hne => absurd hnil hne⟩
  simp only [if_neg hnil]
  have hm := hmountable hnil
  have hspec := mountDevice_spec (c := c) hm.faithful (hbelow hnil)
  simp only at hspec
  generalize mountDevice names made.nodes c mount_point = mounted at hspec
  obtain ⟨t', result⟩ := mounted
  cases result with
  | error msg =>
    exact ⟨⟨(hplaced []).1.subset hspec, hnodup []⟩, (hplaced []).2.subset hspec⟩
  | ok dirs =>
    obtain ⟨rfl, hat, hnodes⟩ := hspec
    refine ⟨⟨fun nd hnd cs hcs c' hc' => ?_, hnodup _⟩, fun _ =>
      ⟨hat, _, List.mem_cons_self, rfl, rfl, hm.splitPath_shvPath⟩⟩
    obtain ⟨nd', hnd', hdirs, cs', hcs', hmem⟩ | ⟨hdirs, rfl⟩ := hnodes nd hnd cs hcs c' hc'
    · have hold := (hplaced (ShvNode.shvPath (splitPath mount_point))).1 nd' hnd' cs' hcs' c' hmem
      rw [WellPlaced, hdirs] at hold
      exact hold
    · refine ⟨_, List.mem_cons_self, rfl, .inr ?_⟩
      rw [hdirs]
      exact ⟨hm.not_clients, rfl, hm.splitPath_shvPath, hm.faithful⟩

/-! ## runs -/

theorem inv_step {e : Event} (h : Inv names st) (hallowed : Allowed names st e)
    (hstep : step names st e = some st') : Inv names st' := by
  cases e with
  | login c mount_point =>
    rw [step] at hstep
    split at hstep
    · rename_i hfresh
      obtain rfl := Option.some.inj hstep
      exact (onClientLogin_spec h hfresh hallowed).1
    · cases hstep
  | destroyed c =>
    rw [step] at hstep
    split at hstep
    · cases hstep
    · obtain rfl := Option.some.inj hstep
      exact inv_connectionDestroyed h c
  | deferredDelete dirs =>
    rw [step] at hstep
    split at hstep
    · obtain rfl := Option.some.inj hstep
      exact inv_destroyNode h dirs
    · cases hstep
  | emptied dirs =>
    rw [step] at hstep
    split at hstep
    · obtain rfl := Option.some.inj hstep
      have hinv : Inv names { st with emptied := st.emptied.erase dirs } := ⟨h.placed, h.nodup⟩
      exact inv_deleteIfEmptyWithParents hinv dirs
    · cases hstep

theorem Run.inv (h : Run names st) : Inv names st := by
  induction h with
  | start hplain =>
    refine ⟨fun nd hnd cs hcs => ?_, List.nodup_nil⟩
    rw [hplain nd hnd] at hcs
    cases hcs
  | step _ hallowed hstep ih => exact inv_step ih hallowed hstep

variable (names) in
/-- Two connections on one node have mount points of the same segments, and a request is handed to
a device that was mounted at the start of its path, unless it is for the nodes of the clients. -/
structure DevicesMounted (st : MountState) : Prop where
  shared : ∀ nd ∈ st.nodes, ∀ cs, nd.connections = some cs →
    ∀ conn ∈ st.connections, ∀ conn' ∈ st.connections, conn.connectionId ∈ cs →
      conn'.connectionId ∈ cs → splitPath conn.resolved = splitPath conn'.resolved
  handled : ∀ path c, handlingConnection names st.nodes [] path = some c →
    clientsDirs <+: path ∨
      ∃ conn ∈ st.connections, conn.connectionId = c ∧ splitPath conn.resolved <+: path

theorem eq_of_connectionId (h : (conns.map (·.connectionId)).Nodup) {conn conn' : DeviceConnection}
    (hconn : conn ∈ conns) (hconn' : conn' ∈ conns) (heq : conn.connectionId = conn'.connectionId) :
    conn = conn' := List.inj_on_of_nodup_map h hconn hconn' heq

/-- Names without look-alikes are the start of a path if their object names are. -/
theorem isPrefix_of_map {ids path : List Bytes} (hfaithful : ∀ s ∈ ids, names.Faithful s)
    (h : ids.map names.fromStdString <+: path.map names.fromStdString) : ids <+: path := by
  induction ids generalizing path with
  | nil => exact List.nil_prefix
  | cons id ids ih =>
    obtain ⟨hid, hids⟩ := List.forall_mem_cons.mp hfaithful
    cases path with
    | nil => exact absurd (List.prefix_nil.mp h) (List.cons_ne_nil _ _)
    | cons s path =>
      rw [List.map_cons, List.map_cons, List.cons_prefix_cons] at h
      exact List.cons_prefix_cons.mpr ⟨(hid s h.1.symm).symm, ih hids h.2⟩

theorem Inv.mounted (h : Inv names st) : DevicesMounted names st where
  shared := by
    intro nd hnd cs hcs conn hconn conn' hconn' hmem hmem'
    obtain ⟨d, hd, hid, hwhere⟩ := h.placed nd hnd cs hcs _ hmem
    obtain ⟨d', hd', hid', hwhere'⟩ := h.placed nd hnd cs hcs _ hmem'
    obtain rfl := eq_of_connectionId h.nodup hd hconn hid
    obtain rfl := eq_of_connectionId h.nodup hd' hconn' hid'
    obtain happ | ⟨hnot, hresolved, -⟩ := hwhere
    · obtain happ' | ⟨hnot', -⟩ := hwhere'
      · rw [eq_of_connectionId h.nodup hd hd' (appDirs_inj (happ.symm.trans happ'))]
      · exact absurd (happ ▸ clientsDirs_isPrefix_appDirs _) hnot'
    · obtain happ' | ⟨-, hresolved', -⟩ := hwhere'
      · exact absurd (happ' ▸ clientsDirs_isPrefix_appDirs _) hnot
      · exact hresolved.trans hresolved'.symm
  handled := by
    intro path c hhandled
    obtain ⟨nd, hnd, cs, hcs, hmem, ids, hdirs, hprefixMap⟩ := handlingConnection_eq_some hhandled
    rw [List.nil_append] at hdirs
    subst hdirs
    obtain ⟨conn, hconn, hid, happ | ⟨-, hresolved, -, hfaithful⟩⟩ := h.placed nd hnd cs hcs c hmem
    · left
      refine isPrefix_of_map faithful_clientsDirs (List.IsPrefix.trans ?_ hprefixMap)
      rw [happ]
      exact (clientsDirs_isPrefix_appDirs c).map _
    · exact .inr ⟨conn, hconn, hid, hresolved ▸ isPrefix_of_map hfaithful hprefixMap⟩

/-- Object names of texts with ASCII characters only. -/
def asciiNames : ObjectNames where
  fromStdString s := s.map fun b => Char.ofNat b.toNat
  eq_of_ascii s s' _ h := by
    refine List.map_injective_iff.mpr (fun b b' hb => ?_) h
    have hvalid : ∀ b : UInt8, b.toNat.isValidChar := fun b => .inl (by have := b.toNat_lt; omega)
    have hnat := congrArg Char.toNat hb
    rw [Char.toNat_ofNat, Char.toNat_ofNat, if_pos (hvalid b), if_pos (hvalid b')] at hnat
    exact UInt8.toNat.inj hnat

/-- A broker that nobody is logged in to. -/
def noDevices : MountState := ⟨[], [], []⟩

/-- The broker with a device. -/
def oneDevice : MountState := (onClientLogin asciiNames noDevices 1 (ascii "test/a")).1

/-- A second device is resolved to a place below the first one, and is added to its node. -/
def twoDevices : MountState := (onClientLogin asciiNames oneDevice 2 (ascii "test/a/b")).1

theorem run_noDevices : Run asciiNames noDevices :=
  .start fun _ h => absurd h List.not_mem_nil

theorem mountable_noDevices : Mountable asciiNames noDevices (ascii "test/a") where
  faithful := by
    have hsplit : splitPath (ascii "test/a") = [ascii "test", ascii "a"] := by decide
    rw [hsplit]
    intro s hs
    obtain rfl | hs := List.mem_cons.mp hs
    · exact faithful_of_ascii (by decide)
    · obtain rfl := List.mem_singleton.mp hs
      exact faithful_of_ascii (by decide)
  splitPath_shvPath := by decide
  not_clients := by decide
  not_below := List.forall_mem_nil _

theorem twoDevices_nowhere : ∀ nd ∈ twoDevices.nodes, nd.dirs ≠ splitPath (ascii "test/a/b") := by
  decide

end ClientLogin

end LibShv
