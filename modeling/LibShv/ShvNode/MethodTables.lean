import LibShv.RpcValueMapNode
import LibShv.ShvTypeInfo

/-!
# LibShv.ShvNode.MethodTables

The methods of the nodes that have tables of them (`shvnode.cpp`). A node says how many methods
it has on a path and hands out pointers into its tables; `dir` and the lookup of a method by its
name read through them.
-/

namespace LibShv

/-! ## the tables -/

/-- The tables, and the methods that were added to a node. -/
inductive MethodTable where
  | meta_methods | meta_methods_pn | extraMetaMethods
  | meta_methods_value_map_root_node | meta_methods_value_map_node
  | meta_methods_root_node | meta_methods_node
deriving DecidableEq

namespace MethodTable

def DIR : ShvMethodDescr where
  name := ascii "dir"
  paramType := ascii "DirParam"
  resultType := ascii "DirResult"
  accessLevel := .Browse

def LS : ShvMethodDescr where
  name := ascii "ls"
  paramType := ascii "LsParam"
  resultType := ascii "LsResult"
  accessLevel := .Browse

/-- `METH_GET`, a getter. -/
def get (accessLevel : AccessLevel) (signals : RpcMap) : ShvMethodDescr where
  name := ascii "get"
  flags := 2
  resultType := ascii "RpcValue"
  accessLevel := accessLevel
  signals := signals

/-- `METH_SET`, a setter. -/
def set (resultType : String) (accessLevel : AccessLevel) : ShvMethodDescr where
  name := ascii "set"
  flags := 4
  paramType := ascii "RpcValue"
  resultType := ascii resultType
  accessLevel := accessLevel

/-- The entries of a table. -/
def entries (extra : List ShvMethodDescr) : MethodTable → List ShvMethodDescr
  | meta_methods => [DIR, LS]
  | meta_methods_pn => [DIR, LS, get .Read [(ascii "chng", .ofVariant .null)], set "Bool" .Write]
  | extraMetaMethods => extra
  | meta_methods_value_map_root_node => [DIR, LS]
  | meta_methods_value_map_node => [DIR, LS, get .Read [], set "Bool" .Config]
  | meta_methods_root_node =>
    [DIR, LS,
      { name := ascii "loadFile", resultType := ascii "RpcValue", accessLevel := .Service },
      { name := ascii "saveFile", paramType := ascii "RpcValue", resultType := ascii "Bool",
        accessLevel := .Admin },
      { name := ascii "commitChanges", resultType := ascii "Bool", accessLevel := .Admin }]
  | meta_methods_node =>
    [DIR, LS, get .Config [], set "bool" .Devel,
      { name := ascii "origValue", flags := 2, resultType := ascii "RpcValue",
        accessLevel := .Read },
      { name := ascii "resetValue", paramType := ascii "RpcValue", resultType := ascii "Bool",
        accessLevel := .Write }]

end MethodTable

/-- A pointer to where the entry of a table is, or would be. -/
structure MethodPtr where
  table : MethodTable
  ix : ℕ
deriving DecidableEq

/-- What a node throws, and what has no result at all. -/
inductive MethodFault where
  | exception (what : Bytes)
  /-- A read through a pointer that is null, or not to an entry of its table. -/
  | invalidRead
deriving DecidableEq

/-- The part of a node that is about its methods. -/
structure MethodsNode where
  /-- `m_extraMetaMethods`. -/
  extra : List ShvMethodDescr
  methodCount : StringViewList → Except MethodFault ℕ
  /-- `metaMethod` with an index; it may return `nullptr`. -/
  metaMethod : StringViewList → ℕ → Except MethodFault (Option MethodPtr)

/-! ## the nodes -/

/-- `ShvNode::methodCount`. -/
def ShvNode.superMethodCount (shv_path : StringViewList) : Except MethodFault ℕ :=
  .ok (if shv_path = [] then (MethodTable.entries [] .meta_methods).length else 0)

/-- `ShvNode::metaMethod`: `at` throws where the table has no entry. -/
def ShvNode.superMetaMethod (shv_path : StringViewList) (ix : ℕ) :
    Except MethodFault (Option MethodPtr) :=
  if shv_path = [] then
    if ix < (MethodTable.entries [] .meta_methods).length then .ok (some ⟨.meta_methods, ix⟩)
    else .error (.exception (ascii "std::out_of_range"))
  else .ok none

def invalidMethodIndex (ix : ℕ) (rest : Bytes) : MethodFault :=
  .exception (ascii "Invalid method index: " ++ ascii (toString ix) ++ rest)

namespace ValueProxyShvNode

/-- `ValueProxyShvNode::Type`. -/
inductive ProxyType where
  | Invalid | Read | Write | ReadWrite | Signal | ReadSignal | WriteSignal | ReadWriteSignal
deriving DecidableEq

/-- The number of a type: a bit each for reading, writing and the signal. -/
def ProxyType.toNat : ProxyType → ℕ
  | Invalid => 0 | Read => 1 | Write => 2 | ReadWrite => 3
  | Signal => 4 | ReadSignal => 5 | WriteSignal => 6 | ReadWriteSignal => 7

def ProxyType.isReadable (type : ProxyType) : Bool := type.toNat.testBit 0
def ProxyType.isWriteable (type : ProxyType) : Bool := type.toNat.testBit 1
def ProxyType.isSignal (type : ProxyType) : Bool := type.toNat.testBit 2

def IX_DIR : ℕ := 0
def IX_LS : ℕ := 1
def IX_GET : ℕ := 2
def IX_SET : ℕ := 3
def IX_CHNG : ℕ := 4

/-- `method_indexes`. -/
def methodIndexes : ProxyType → List ℕ
  | .Invalid => [IX_DIR, IX_LS]
  | .Read => [IX_DIR, IX_LS, IX_GET]
  | .Write => [IX_DIR, IX_LS, IX_SET]
  | .ReadWrite => [IX_DIR, IX_LS, IX_GET, IX_SET]
  | .ReadSignal => [IX_DIR, IX_LS, IX_GET, IX_CHNG]
  | .WriteSignal => [IX_DIR, IX_LS, IX_SET, IX_CHNG]
  | .Signal => [IX_DIR, IX_LS, IX_CHNG]
  | .ReadWriteSignal => [IX_DIR, IX_LS, IX_GET, IX_SET, IX_CHNG]

def methodCount (type : ProxyType) (extra : List ShvMethodDescr) (shv_path : StringViewList) :
    Except MethodFault ℕ :=
  if shv_path = [] then
    .ok (IX_LS + 1 + type.isReadable.toNat + type.isWriteable.toNat + type.isSignal.toNat +
      extra.length)
  else ShvNode.superMethodCount shv_path

def metaMethod (type : ProxyType) (extra : List ShvMethodDescr) (shv_path : StringViewList)
    (ix : ℕ) : Except MethodFault (Option MethodPtr) :=
  if shv_path = [] then
    match (methodIndexes type)[ix]? with
    | some i => .ok (some ⟨.meta_methods_pn, i⟩)
    | none =>
      let extra_ix := ix - (methodIndexes type).length
      if extra_ix < extra.length then .ok (some ⟨.extraMetaMethods, extra_ix⟩)
      else .error (invalidMethodIndex ix (ascii " on path: " ++ shv_path.join))
  else ShvNode.superMetaMethod shv_path ix

/-- `ValueProxyShvNode`. -/
def node (type : ProxyType) (extra : List ShvMethodDescr) : MethodsNode :=
  ⟨extra, methodCount type extra, metaMethod type extra⟩

end ValueProxyShvNode

namespace RpcValueMapNode

/-- `isDir`, of the tree that the node has. -/
def isDir (values : RpcValue) (shv_path : StringViewList) : Except MethodFault Bool :=
  match readPath values shv_path true with
  | .ok v => .ok v.isMap
  | .error what => .error (.exception what)

/-- `methodCount`. -/
def methodCount (values : RpcValue) (readOnly : Bool) (shv_path : StringViewList) :
    Except MethodFault ℕ :=
  if shv_path = [] then .ok (MethodTable.entries [] .meta_methods_value_map_root_node).length
  else do
    if ← isDir values shv_path then return 2
    if readOnly then return (MethodTable.entries [] .meta_methods_value_map_node).length - 1
    return (MethodTable.entries [] .meta_methods_value_map_node).length

/-- The size in `metaMethod` of both nodes, with a table for the node itself and one for what is
below. -/
def tableSize (root below : MethodTable) (values : RpcValue) (shv_path : StringViewList) :
    Except MethodFault ℕ :=
  if shv_path = [] then .ok (root.entries []).length
  else do
    if ← isDir values shv_path then return 2
    return (below.entries []).length

/-- `metaMethod` of both nodes. -/
def metaMethodOf (root below : MethodTable) (values : RpcValue) (shv_path : StringViewList)
    (ix : ℕ) : Except MethodFault (Option MethodPtr) := do
  let size ← tableSize root below values shv_path
  if size ≤ ix then throw (invalidMethodIndex ix (ascii " of: " ++ ascii (toString size)))
  return some ⟨if shv_path = [] then root else below, ix⟩

/-- `metaMethod`: the flag for reading alone is not looked at. -/
def metaMethod (values : RpcValue) (shv_path : StringViewList) (ix : ℕ) :
    Except MethodFault (Option MethodPtr) :=
  metaMethodOf .meta_methods_value_map_root_node .meta_methods_value_map_node values shv_path ix

/-- `RpcValueMapNode`. -/
def methodsNode (values : RpcValue) (readOnly : Bool) : MethodsNode :=
  ⟨[], methodCount values readOnly, metaMethod values⟩

end RpcValueMapNode

namespace RpcValueConfigNode

/-- `methodCount`. -/
def methodCount (values : RpcValue) (shv_path : StringViewList) : Except MethodFault ℕ :=
  RpcValueMapNode.tableSize .meta_methods_root_node .meta_methods_node values shv_path

/-- `metaMethod`. -/
def metaMethod (values : RpcValue) (shv_path : StringViewList) (ix : ℕ) :
    Except MethodFault (Option MethodPtr) :=
  RpcValueMapNode.metaMethodOf .meta_methods_root_node .meta_methods_node values shv_path ix

/-- `RpcValueConfigNode`. -/
def methodsNode (values : RpcValue) : MethodsNode := ⟨[], methodCount values, metaMethod values⟩

end RpcValueConfigNode

/-- A node with tables of methods. -/
inductive TableNode where
  | valueProxy (type : ValueProxyShvNode.ProxyType) (extra : List ShvMethodDescr)
  | valueMap (values : RpcValue) (readOnly : Bool)
  | valueConfig (values : RpcValue)

namespace TableNode

def methods : TableNode → MethodsNode
  | valueProxy type extra => ValueProxyShvNode.node type extra
  | valueMap values readOnly => RpcValueMapNode.methodsNode values readOnly
  | valueConfig values => RpcValueConfigNode.methodsNode values

/-- The type of the node has the bit for the signal. -/
def isSignal : TableNode → Bool
  | valueProxy type _ => type.isSignal
  | _ => false

end TableNode

/-! ## reading through the pointers -/

namespace MethodsNode

variable (nd : MethodsNode)

/-- The method a pointer is to. -/
def deref (p : MethodPtr) : Except MethodFault ShvMethodDescr :=
  match (p.table.entries nd.extra)[p.ix]? with
  | some mm => .ok mm
  | none => .error .invalidRead

/-- `metaMethod(shv_path, ix)->…`. -/
def methodAt (shv_path : StringViewList) (ix : ℕ) : Except MethodFault ShvMethodDescr := do
  match ← nd.metaMethod shv_path ix with
  | some p => nd.deref p
  | none => throw .invalidRead

/-- The loop of `dir` over some indexes, up to the method with the name. -/
def findMethod (shv_path : StringViewList) (method_name : Bytes) :
    List ℕ → Except MethodFault RpcValue
  | [] => .ok (.ofVariant .null)
  | ix :: ixs => do
    let mm ← nd.methodAt shv_path ix
    if mm.name = method_name then return mm.toRpcValue
    else findMethod shv_path method_name ixs

/-- `dir`. -/
def dir (shv_path : StringViewList) (methods_params : RpcValue) : Except MethodFault RpcValue := do
  let cnt ← nd.methodCount shv_path
  if methods_params.asString = [] then
    let ret ← (List.range cnt).mapM fun ix => ShvMethodDescr.toRpcValue <$> nd.methodAt shv_path ix
    return .ofVariant (.list ret)
  else nd.findMethod shv_path methods_params.asString (List.range cnt)

/-- The loop of `metaMethod` with a name over some indexes; it passes over a null pointer. -/
def findMetaMethod (shv_path : StringViewList) (name : Bytes) :
    List ℕ → Except MethodFault (Option MethodPtr)
  | [] => .ok none
  | ix :: ixs => do
    match ← nd.metaMethod shv_path ix with
    | some p =>
      if (← nd.deref p).name = name then return some p
      else findMetaMethod shv_path name ixs
    | none => findMetaMethod shv_path name ixs

/-- `metaMethod` with a name. -/
def metaMethodByName (shv_path : StringViewList) (name : Bytes) :
    Except MethodFault (Option MethodPtr) := do
  nd.findMetaMethod shv_path name (List.range (← nd.methodCount shv_path))

end MethodsNode

namespace MethodsNode

variable {nd : MethodsNode} {shv_path : StringViewList}

/-! ## tables and counts that agree -/

/-- What a caller of a node relies on: every index below the count has an entry inside a table,
two indexes have two entries, and neither `dir` nor the lookup by name reads anywhere else. -/
structure TablesAgree (nd : MethodsNode) (shv_path : StringViewList) : Prop where
  inside : ∀ cnt, nd.methodCount shv_path = .ok cnt → ∀ ix < cnt,
    ∃ p, nd.metaMethod shv_path ix = .ok (some p) ∧ p.ix < (p.table.entries nd.extra).length
  distinct : ∀ cnt, nd.methodCount shv_path = .ok cnt → ∀ ix < cnt, ∀ ix' < cnt,
    nd.metaMethod shv_path ix = nd.metaMethod shv_path ix' → ix = ix'
  dir_reads : ∀ methods_params, nd.dir shv_path methods_params ≠ .error .invalidRead
  lookup_reads : ∀ name, nd.metaMethodByName shv_path name ≠ .error .invalidRead

/-- An index whose pointer is inside a table. -/
def Inside (nd : MethodsNode) (shv_path : StringViewList) (ix : ℕ) : Prop :=
  ∃ p, nd.metaMethod shv_path ix = .ok (some p) ∧ p.ix < (p.table.entries nd.extra).length

theorem deref_of_lt {p : MethodPtr} (h : p.ix < (p.table.entries nd.extra).length) :
    nd.deref p = .ok (p.table.entries nd.extra)[p.ix] := by
  rw [deref, List.getElem?_eq_getElem h]

theorem Inside.methodAt {ix : ℕ} (h : Inside nd shv_path ix) :
    ∃ mm, nd.methodAt shv_path ix = .ok mm := by
  obtain ⟨p, hp, hlt⟩ := h
  refine ⟨(p.table.entries nd.extra)[p.ix], ?_⟩
  rw [MethodsNode.methodAt, hp]
  exact deref_of_lt hlt

theorem findMethod_ok {ixs : List ℕ} (h : ∀ ix ∈ ixs, Inside nd shv_path ix)
    (method_name : Bytes) : ∃ v, nd.findMethod shv_path method_name ixs = .ok v := by
  induction ixs with
  | nil => exact ⟨_, rfl⟩
  | cons ix ixs ih =>
    obtain ⟨hix, hrest⟩ := List.forall_mem_cons.1 h
    obtain ⟨mm, hmm⟩ := hix.methodAt
    rw [findMethod, hmm]
    by_cases hname : mm.name = method_name
    · exact ⟨mm.toRpcValue, if_pos hname⟩
    · obtain ⟨v, hv⟩ := ih hrest
      exact ⟨v, (if_neg hname).trans hv⟩

theorem findMetaMethod_ok (ixs : List ℕ) (h : ∀ ix ∈ ixs, Inside nd shv_path ix) (name : Bytes) :
    ∃ p, nd.findMetaMethod shv_path name ixs = .ok p := by
  induction ixs with
  | nil => exact ⟨_, rfl⟩
  | cons ix ixs ih =>
    obtain ⟨⟨p, hp, hlt⟩, hrest⟩ := List.forall_mem_cons.1 h
    rw [findMetaMethod, hp]
    simp only [bind, Except.bind, deref_of_lt hlt]
    by_cases hname : (p.table.entries nd.extra)[p.ix].name = name
    · exact ⟨some p, if_pos hname⟩
    · obtain ⟨v, hv⟩ := ih hrest
      exact ⟨v, (if_neg hname).trans hv⟩

theorem mapM_methodAt_ok {ixs : List ℕ} (h : ∀ ix ∈ ixs, Inside nd shv_path ix) :
    ∃ ret, ixs.mapM (fun ix => ShvMethodDescr.toRpcValue <$> nd.methodAt shv_path ix) =
      .ok ret := by
  induction ixs with
  | nil => exact ⟨[], rfl⟩
  | cons ix ixs ih =>
    obtain ⟨hix, hrest⟩ := List.forall_mem_cons.1 h
    obtain ⟨mm, hmm⟩ := hix.methodAt
    obtain ⟨ret, hret⟩ := ih hrest
    refine ⟨mm.toRpcValue :: ret, ?_⟩
    rw [List.mapM_cons, hmm, hret]
    rfl

/-- Where every index below the count is inside a table, all reads are. -/
theorem tablesAgree_of_inside
    (hinside : ∀ cnt, nd.methodCount shv_path = .ok cnt → ∀ ix < cnt, Inside nd shv_path ix)
    (hdistinct : ∀ cnt, nd.methodCount shv_path = .ok cnt → ∀ ix < cnt, ∀ ix' < cnt,
      nd.metaMethod shv_path ix = nd.metaMethod shv_path ix' → ix = ix')
    (hthrows : nd.methodCount shv_path ≠ .error .invalidRead) : TablesAgree nd shv_path := by
  refine ⟨hinside, hdistinct, fun methods_params hdir => ?_, fun name hlookup => ?_⟩
  · cases hcnt : nd.methodCount shv_path with
    | error e =>
      rw [dir, hcnt] at hdir
      cases hdir
      exact hthrows hcnt
    | ok cnt =>
      have hall : ∀ ix ∈ List.range cnt, Inside nd shv_path ix := fun ix hix =>
        hinside cnt hcnt ix (List.mem_range.1 hix)
      rw [dir, hcnt] at hdir
      simp only [bind, Except.bind] at hdir
      split at hdir
      · obtain ⟨ret, hret⟩ := mapM_methodAt_ok hall
        rw [hret] at hdir
        cases hdir
      · obtain ⟨v, hv⟩ := findMethod_ok hall methods_params.asString
        rw [hv] at hdir
        cases hdir
  · cases hcnt : nd.methodCount shv_path with
    | error e =>
      rw [metaMethodByName, hcnt] at hlookup
      cases hlookup
      exact hthrows hcnt
    | ok cnt =>
      obtain ⟨p, hp⟩ := findMetaMethod_ok (List.range cnt)
        (fun ix hix => hinside cnt hcnt ix (List.mem_range.1 hix)) name
      rw [metaMethodByName, hcnt] at hlookup
      simp only [bind, Except.bind, hp] at hlookup
      cases hlookup

end MethodsNode

/-! ## the proxy of a value -/

namespace ValueProxyShvNode

variable {type : ProxyType} {extra : List ShvMethodDescr}

/-- The count stays in step with the index table. -/
theorem methodCount_nil : methodCount type extra [] =
    .ok ((methodIndexes type).length + extra.length) := by
  cases type <;> rfl

theorem nodup_methodIndexes (type : ProxyType) : (methodIndexes type).Nodup := by
  cases type <;> decide

/-- Without a signal the index table stays in step with the method table. -/
theorem lt_of_mem_methodIndexes (h : type.isSignal = false) :
    ∀ i ∈ methodIndexes type, i < (MethodTable.entries extra .meta_methods_pn).length := by
  change ∀ i ∈ methodIndexes type, i < 4
  cases type with
  | Invalid | Read | Write | ReadWrite => decide
  | Signal | ReadSignal | WriteSignal | ReadWriteSignal => exact absurd h (by decide)

theorem metaMethod_nil_of_lt {ix : ℕ} (h : ix < (methodIndexes type).length) :
    metaMethod type extra [] ix = .ok (some ⟨.meta_methods_pn, (methodIndexes type)[ix]⟩) := by
  rw [metaMethod, if_pos rfl, List.getElem?_eq_getElem h]

theorem metaMethod_nil_of_ge {ix : ℕ} (h : (methodIndexes type).length ≤ ix)
    (hlt : ix - (methodIndexes type).length < extra.length) :
    metaMethod type extra [] ix =
      .ok (some ⟨.extraMetaMethods, ix - (methodIndexes type).length⟩) := by
  rw [metaMethod, if_pos rfl, List.getElem?_eq_none h]
  exact if_pos hlt

theorem tablesAgree_nil (h : type.isSignal = false) :
    MethodsNode.TablesAgree (node type extra) [] := by
  refine MethodsNode.tablesAgree_of_inside (fun cnt hcnt ix hix => ?_)
    (fun cnt hcnt ix hix ix' hix' heq => ?_) (fun hthrow => ?_)
  · obtain rfl := Except.ok.inj (methodCount_nil.symm.trans hcnt)
    by_cases hlt : ix < (methodIndexes type).length
    · exact ⟨_, metaMethod_nil_of_lt hlt, lt_of_mem_methodIndexes h _ (List.getElem_mem hlt)⟩
    · have hextra : ix - (methodIndexes type).length < extra.length := by omega
      exact ⟨_, metaMethod_nil_of_ge (not_lt.1 hlt) hextra, hextra⟩
  · obtain rfl := Except.ok.inj (methodCount_nil.symm.trans hcnt)
    change metaMethod type extra [] ix = metaMethod type extra [] ix' at heq
    by_cases hlt : ix < (methodIndexes type).length
    · rw [metaMethod_nil_of_lt hlt] at heq
      by_cases hlt' : ix' < (methodIndexes type).length
      · rw [metaMethod_nil_of_lt hlt', Except.ok.injEq, Option.some.injEq,
          MethodPtr.mk.injEq] at heq
        exact (List.Nodup.getElem_inj_iff (nodup_methodIndexes type)).1 heq.2
      · rw [metaMethod_nil_of_ge (not_lt.1 hlt') (by omega)] at heq
        cases heq
    · rw [metaMethod_nil_of_ge (not_lt.1 hlt) (by omega)] at heq
      by_cases hlt' : ix' < (methodIndexes type).length
      · rw [metaMethod_nil_of_lt hlt'] at heq
        cases heq
      · rw [metaMethod_nil_of_ge (not_lt.1 hlt') (by omega), Except.ok.injEq, Option.some.injEq,
          MethodPtr.mk.injEq] at heq
        omega
  · exact absurd (methodCount_nil.symm.trans hthrow) (fun e => by cases e)

/-- Below the node there are no methods. -/
theorem tablesAgree_below {shv_path : StringViewList} (h : shv_path ≠ []) :
    MethodsNode.TablesAgree (node type extra) shv_path := by
  have hcount : (node type extra).methodCount shv_path = .ok 0 := by
    change methodCount type extra shv_path = _
    rw [methodCount, if_neg h, ShvNode.superMethodCount, if_neg h]
  refine MethodsNode.tablesAgree_of_inside (fun cnt hcnt ix hix => ?_)
    (fun cnt hcnt ix hix => ?_) (fun hthrow => ?_)
  · obtain rfl := Except.ok.inj (hcount.symm.trans hcnt)
    exact absurd hix (Nat.not_lt_zero ix)
  · obtain rfl := Except.ok.inj (hcount.symm.trans hcnt)
    exact absurd hix (Nat.not_lt_zero ix)
  · rw [hcount] at hthrow
    cases hthrow

/-- With a signal the last index points behind the table. -/
theorem not_tablesAgree_nil (h : type.isSignal = true) :
    ¬ MethodsNode.TablesAgree (node type extra) [] := by
  intro hagree
  have hlen : 0 < (methodIndexes type).length := by cases type <;> decide
  have hlast : (methodIndexes type)[(methodIndexes type).length - 1] = IX_CHNG := by
    cases type with
    | Invalid | Read | Write | ReadWrite => exact absurd h (by decide)
    | Signal | ReadSignal | WriteSignal | ReadWriteSignal => rfl
  obtain ⟨p, hp, hlt⟩ := hagree.inside _ methodCount_nil ((methodIndexes type).length - 1)
    (by omega)
  change metaMethod type extra [] _ = _ at hp
  rw [metaMethod_nil_of_lt (by omega), hlast, Except.ok.injEq, Option.some.injEq] at hp
  subst hp
  exact absurd hlt (by simp [IX_CHNG, MethodTable.entries])

end ValueProxyShvNode

/-! ## the nodes over a tree of values -/

namespace RpcValueMapNode

variable {root below : MethodTable} {values : RpcValue} {shv_path : StringViewList}

theorem isDir_ne_invalidRead : isDir values shv_path ≠ .error .invalidRead := by
  rw [isDir]
  split <;> exact fun h => by cases h

theorem tableSize_ne_invalidRead : tableSize root below values shv_path ≠ .error .invalidRead := by
  intro h
  rw [tableSize] at h
  split at h
  · cases h
  · cases hdir : isDir values shv_path with
    | error e =>
      rw [hdir] at h
      cases h
      exact isDir_ne_invalidRead hdir
    | ok b =>
      rw [hdir] at h
      cases b <;> cases h

/-- No size is larger than its table. -/
theorem le_of_tableSize {size : ℕ} (hbelow : 2 ≤ (below.entries []).length)
    (h : tableSize root below values shv_path = .ok size) :
    size ≤ ((if shv_path = [] then root else below).entries []).length := by
  rw [tableSize] at h
  by_cases hnil : shv_path = []
  · rw [if_pos hnil] at h ⊢
    cases h
    exact le_rfl
  · rw [if_neg hnil] at h ⊢
    cases hdir : isDir values shv_path with
    | error e =>
      rw [hdir] at h
      cases h
    | ok b =>
      rw [hdir] at h
      cases b <;> cases h
      · exact le_rfl
      · exact hbelow

theorem metaMethodOf_of_lt {size ix : ℕ} (h : tableSize root below values shv_path = .ok size)
    (hlt : ix < size) : metaMethodOf root below values shv_path ix =
      .ok (some ⟨if shv_path = [] then root else below, ix⟩) := by
  rw [metaMethodOf, h]
  exact if_neg (not_le.2 hlt)

/-- A node whose counts are never more than the sizes of `metaMethod`. -/
theorem tablesAgree_of_tableSize {count : StringViewList → Except MethodFault ℕ}
    (hbelow : 2 ≤ (below.entries []).length)
    (hcount : ∀ cnt, count shv_path = .ok cnt →
      ∃ size, tableSize root below values shv_path = .ok size ∧ cnt ≤ size)
    (hthrows : count shv_path ≠ .error .invalidRead) :
    MethodsNode.TablesAgree ⟨[], count, metaMethodOf root below values⟩ shv_path := by
  refine MethodsNode.tablesAgree_of_inside (fun cnt hcnt ix hix => ?_)
    (fun cnt hcnt ix hix ix' hix' heq => ?_) hthrows
  · obtain ⟨size, hsize, hle⟩ := hcount cnt hcnt
    exact ⟨_, metaMethodOf_of_lt hsize (lt_of_lt_of_le hix hle),
      lt_of_lt_of_le hix (hle.trans (le_of_tableSize hbelow hsize))⟩
  · obtain ⟨size, hsize, hle⟩ := hcount cnt hcnt
    change metaMethodOf root below values shv_path ix =
      metaMethodOf root below values shv_path ix' at heq
    rw [metaMethodOf_of_lt hsize (lt_of_lt_of_le hix hle),
      metaMethodOf_of_lt hsize (lt_of_lt_of_le hix' hle), Except.ok.injEq, Option.some.injEq,
      MethodPtr.mk.injEq] at heq
    exact heq.2

/-- The count of the map node, which is one less below where it is read-only. -/
theorem methodCount_le {readOnly : Bool} {cnt : ℕ}
    (h : methodCount values readOnly shv_path = .ok cnt) :
    ∃ size, tableSize .meta_methods_value_map_root_node .meta_methods_value_map_node values
      shv_path = .ok size ∧ cnt ≤ size := by
  rw [methodCount] at h
  rw [tableSize]
  split at h
  · next hnil =>
    rw [if_pos hnil]
    cases h
    exact ⟨_, rfl, le_rfl⟩
  · next hnil =>
    rw [if_neg hnil]
    cases hdir : isDir values shv_path with
    | error e =>
      rw [hdir] at h
      cases h
    | ok b =>
      rw [hdir] at h
      cases b <;> cases readOnly <;> cases h
      · exact ⟨_, rfl, le_rfl⟩
      · exact ⟨_, rfl, Nat.sub_le _ _⟩
      · exact ⟨_, rfl, le_rfl⟩
      · exact ⟨_, rfl, le_rfl⟩

theorem methodCount_ne_invalidRead {readOnly : Bool} :
    methodCount values readOnly shv_path ≠ .error .invalidRead := by
  intro h
  rw [methodCount] at h
  split at h
  · cases h
  · cases hdir : isDir values shv_path with
    | error e =>
      rw [hdir] at h
      cases h
      exact isDir_ne_invalidRead hdir
    | ok b =>
      rw [hdir] at h
      cases b <;> cases readOnly <;> cases h

end RpcValueMapNode

/-- The tables, the counts and the entries of a node agree on a path exactly if the node is no
proxy of a value with a signal, or the path is not its own: the index table has an entry for the
signal, and the method table has none. -/
theorem tablesAgree_iff (nd : TableNode) (shv_path : StringViewList) :
    MethodsNode.TablesAgree nd.methods shv_path ↔ (nd.isSignal = true → shv_path ≠ []) := by
  cases nd with
  | valueProxy type extra =>
    by_cases hnil : shv_path = []
    · subst hnil
      refine ⟨fun hagree hsignal => absurd hagree (ValueProxyShvNode.not_tablesAgree_nil hsignal),
        fun h => ValueProxyShvNode.tablesAgree_nil (Bool.eq_false_iff.2 fun hs => h hs rfl)⟩
    · exact iff_of_true (ValueProxyShvNode.tablesAgree_below hnil) fun _ => hnil
  | valueMap values readOnly =>
    refine iff_of_true ?_ fun h => absurd h Bool.false_ne_true
    exact RpcValueMapNode.tablesAgree_of_tableSize (by decide)
      (fun cnt => RpcValueMapNode.methodCount_le) RpcValueMapNode.methodCount_ne_invalidRead
  | valueConfig values =>
    refine iff_of_true ?_ fun h => absurd h Bool.false_ne_true
    exact RpcValueMapNode.tablesAgree_of_tableSize (by decide)
      (fun cnt h => ⟨cnt, h, le_rfl⟩) RpcValueMapNode.tableSize_ne_invalidRead

/-- The third index of a proxy for a signal alone is counted, and `dir` reads behind the table. -/
theorem dir_signal_invalidRead :
    (ValueProxyShvNode.node .Signal []).methodCount [] = .ok 3 ∧
      (ValueProxyShvNode.node .Signal []).metaMethod [] 2 = .ok (some ⟨.meta_methods_pn, 4⟩) ∧
      (ValueProxyShvNode.node .Signal []).dir [] .invalid = .error .invalidRead :=
  ⟨rfl, rfl, rfl⟩

end LibShv
