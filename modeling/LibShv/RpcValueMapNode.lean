import LibShv.Lib.CowHeap
import LibShv.RpcValue.As
import LibShv.StringViewList

/-!
# LibShv.RpcValueMapNode

A node over a tree of values (`shvnode.cpp`). Its maps are shared with every copy
of the tree by `CowPtr`, so they are on a heap, and a variable of type `RpcValue`
is a handle: a map is a reference with its metadata beside it, every other value
is its own.

What is read through a handle is what the tree it holds has there
(`holds_valueOnPath`); a call of the setter leaves every tree as it was, for the
value it writes to is a copy (`setValueOnPath_keeps`).
-/

namespace LibShv.RpcValueMapNode

open CowHeap

/-- A value that is not a map. -/
abbrev Leaf := { v : RpcValue // v.isMap = false }

/-- A variable of type `RpcValue`. -/
abbrev Handle := CowHeap.Handle Leaf RpcMetaData

abbrev Heap := CowHeap.Heap Bytes Leaf RpcMetaData

/-- The map of a tree. -/
def node (md : RpcMetaData) (m : RpcMap) : RpcValue := .mk md (.map m)

/-- The handle stands for the value. -/
abbrev Holds (heap : Heap) (h : Handle) (v : RpcValue) : Prop :=
  CowHeap.Holds Subtype.val node heap h v

/-! ## the node -/

/-- The invalid value. -/
def invalid : Handle := .own ⟨.invalid, rfl⟩

/-- `RpcValue::isValid`. -/
def isValid : Handle → Bool
  | .own x => x.val.isValid
  | .ref _ _ => true

/-- `v.asMap().value(dir)`. -/
def child (heap : Heap) (v : Handle) (dir : Bytes) : Handle :=
  match v with
  | .own _ => invalid
  | .ref _ a => (SortedMap.find? dir (heap[a]?.getD [])).getD invalid

/-- The loop of `valueOnPath` and of `setValueOnPath`: nothing if it comes to an
invalid value. -/
def walk (heap : Heap) (v : Handle) : StringViewList → Option Handle
  | [] => some v
  | dir :: dirs => if isValid (child heap v dir) then walk heap (child heap v dir) dirs else none

def invalidPath (shv_path : StringViewList) : Bytes := ascii "Invalid path: " ++ shv_path.join

/-- `valueOnPath` of the node whose `m_values` are given. -/
def valueOnPath (heap : Heap) (m_values : Handle) (shv_path : StringViewList) (throw_exc : Bool) :
    Except Bytes Handle :=
  match walk heap m_values shv_path with
  | some v => .ok v
  | none => if throw_exc then .error (invalidPath shv_path) else .ok invalid

/-- `RpcValue::set` on a map. -/
def setEntry (key : Bytes) (val : Handle) (m : List (Bytes × Handle)) : List (Bytes × Handle) :=
  if isValid val then SortedMap.insert key val m else SortedMap.erase key m

/-- `setValueOnPath`: the heap after the call. `m_values` is a variable of the node
and stays as it is, `val` is one of the caller, and `copies` are the other ones. -/
def setValueOnPath (heap : Heap) (m_values : Handle) (copies : List Handle)
    (shv_path : StringViewList) (val : Handle) : Except Bytes Heap :=
  match shv_path.getLast? with
  | none => .error (ascii "Empty path")
  | some key =>
    match walk heap m_values shv_path.dropLast with
    | none => .error (invalidPath shv_path)
    | some v => .ok (write heap (m_values :: val :: copies) v (setEntry key val)).1

/-! ## reading -/

/-- The value a path leads to in a tree. -/
def atPath (v : RpcValue) (shv_path : StringViewList) : RpcValue :=
  shv_path.foldl (fun v dir => v.asMap.valueOr dir .invalid) v

theorem atPath_of_not_isValid {v : RpcValue} (h : v.isValid = false) (shv_path : StringViewList)
    (hpath : shv_path ≠ []) : (atPath v shv_path).isValid = false := by
  have hmap : v.asMap = [] := by
    rw [RpcValue.isValid] at h
    rw [RpcValue.asMap]
    cases hv : v.value with
    | map m =>
      rw [hv] at h
      contradiction
    | _ => rfl
  cases shv_path with
  | nil => contradiction
  | cons dir dirs =>
    rw [atPath, List.foldl_cons, hmap]
    clear hpath
    have hinvalid : RpcMap.valueOr [] dir .invalid = .invalid := rfl
    rw [hinvalid]
    induction dirs with
    | nil => rfl
    | cons dir dirs ih => exact ih

variable {heap : Heap} {h m_values val : Handle} {v tree : RpcValue}

theorem holds_invalid : Holds heap invalid .invalid := holds_own _

theorem holds_isValid (hv : Holds heap h v) : isValid h = v.isValid := by
  cases h with
  | own x =>
    rw [hv.unique (holds_own x)]
    rfl
  | ref md a =>
    obtain ⟨m, ts, -, rfl, -⟩ := hv.find?
    rfl

theorem holds_child (hv : Holds heap h v) (dir : Bytes) :
    Holds heap (child heap h dir) (v.asMap.valueOr dir .invalid) := by
  cases h with
  | own x =>
    have hx : v.asMap = [] := by
      have hleaf := x.property
      rw [hv.unique (holds_own x), RpcValue.asMap]
      rw [RpcValue.isMap] at hleaf
      cases hval : x.val.value with
      | map m =>
        rw [hval] at hleaf
        contradiction
      | _ => rfl
    rw [hx]
    exact holds_invalid
  | ref md a =>
    obtain ⟨m, ts, hm, rfl, hfind⟩ := hv.find?
    have hts : RpcValue.asMap (node md ts) = ts := rfl
    rw [child, hm, hts, RpcMap.valueOr, Option.getD_some]
    obtain ⟨hnone, hnone'⟩ | ⟨h, t, hsome, hsome', hholds⟩ := hfind dir
    · rw [hnone, hnone']
      exact holds_invalid
    · rw [hsome, hsome']
      exact hholds

/-- The walk ends where the path leads to in the tree. -/
theorem holds_walk (hv : Holds heap h v) (shv_path : StringViewList) :
    (shv_path ≠ [] ∧ walk heap h shv_path = none ∧ (atPath v shv_path).isValid = false) ∨
      ∃ h', walk heap h shv_path = some h' ∧ Holds heap h' (atPath v shv_path) ∧
        (shv_path = [] ∨ (atPath v shv_path).isValid = true) := by
  induction shv_path generalizing h v with
  | nil => exact .inr ⟨h, rfl, hv, .inl rfl⟩
  | cons dir dirs ih =>
    have hchild := holds_child hv dir
    have hat : atPath v (dir :: dirs) = atPath (v.asMap.valueOr dir .invalid) dirs := rfl
    rw [walk, holds_isValid hchild, hat]
    cases hvalid : (v.asMap.valueOr dir .invalid).isValid with
    | true =>
      rw [if_pos rfl]
      obtain ⟨-, hnone, hinvalid⟩ | ⟨h', hsome, hh', hor⟩ := ih hchild
      · exact .inl ⟨List.cons_ne_nil _ _, hnone, hinvalid⟩
      · refine .inr ⟨h', hsome, hh', .inr ?_⟩
        obtain rfl | hvalid' := hor
        · exact hvalid
        · exact hvalid'
    | false =>
      rw [if_neg Bool.false_ne_true]
      refine .inl ⟨List.cons_ne_nil _ _, rfl, ?_⟩
      by_cases hdirs : dirs = []
      · rw [hdirs]
        exact hvalid
      · exact atPath_of_not_isValid hvalid dirs hdirs

/-- What `valueOnPath` finds in a tree. -/
def readPath (v : RpcValue) (shv_path : StringViewList) (throw_exc : Bool) : Except Bytes RpcValue :=
  if shv_path = [] ∨ (atPath v shv_path).isValid then .ok (atPath v shv_path)
  else if throw_exc then .error (invalidPath shv_path) else .ok .invalid

/-- The result of a call that returns a value. -/
def HoldsResult (heap : Heap) : Except Bytes Handle → Except Bytes RpcValue → Prop
  | .ok h, .ok v => Holds heap h v
  | .error e, .error e' => e = e'
  | _, _ => False

theorem holds_valueOnPath (hv : Holds heap m_values tree) (shv_path : StringViewList)
    (throw_exc : Bool) :
    HoldsResult heap (valueOnPath heap m_values shv_path throw_exc)
      (readPath tree shv_path throw_exc) := by
  rw [valueOnPath, readPath]
  obtain ⟨hpath, hnone, hinvalid⟩ | ⟨h', hsome, hh', hor⟩ := holds_walk hv shv_path
  · have hnot : ¬ (shv_path = [] ∨ (atPath tree shv_path).isValid = true) := by
      simp [hpath, hinvalid]
    rw [hnone, if_neg hnot]
    cases throw_exc with
    | true => exact Eq.refl (invalidPath shv_path)
    | false => exact holds_invalid
  · rw [hsome, if_pos hor]
    exact hh'

theorem HoldsResult.unique {r : Except Bytes Handle} {x y : Except Bytes RpcValue}
    (hx : HoldsResult heap r x) (hy : HoldsResult heap r y) : x = y := by
  cases r with
  | ok h =>
    cases x with
    | ok v =>
      cases y with
      | ok w => exact congrArg Except.ok (Holds.unique hx hy)
      | error e => exact hy.elim
    | error e => exact hx.elim
  | error e =>
    cases x with
    | ok v => exact hx.elim
    | error e' =>
      cases y with
      | ok w => exact hy.elim
      | error e'' => exact congrArg Except.error (Eq.trans (Eq.symm hx) hy)

/-! ## writing -/

/-- The setter changes no value that any variable holds. -/
theorem setValueOnPath_keeps {heap' : Heap} {copies : List Handle} {shv_path : StringViewList}
    (hset : setValueOnPath heap m_values copies shv_path val = .ok heap')
    (hmem : h ∈ m_values :: val :: copies) (hv : Holds heap h v) : Holds heap' h v := by
  rw [setValueOnPath] at hset
  cases hlast : shv_path.getLast? with
  | none => simp [hlast] at hset
  | some key =>
    cases hwalk : walk heap m_values shv_path.dropLast with
    | none => simp [hlast, hwalk] at hset
    | some v' =>
      simp only [hlast, hwalk, Except.ok.injEq] at hset
      rw [← hset]
      exact Holds.write hv hmem _ _

/-- With a map at the parent of the path the setter returns. -/
theorem setValueOnPath_returns (hv : Holds heap m_values tree) (copies : List Handle)
    {dirs : StringViewList} (hparent : (atPath tree dirs).isMap = true) (key : Bytes)
    (val : Handle) : ∃ heap', setValueOnPath heap m_values copies (dirs ++ [key]) val = .ok heap' := by
  rw [setValueOnPath, List.getLast?_concat, List.dropLast_concat]
  obtain ⟨-, -, hinvalid⟩ | ⟨h', hsome, -, -⟩ := holds_walk hv dirs
  · rw [RpcValue.isMap] at hparent
    rw [RpcValue.isValid] at hinvalid
    cases hval : (atPath tree dirs).value with
    | map m =>
      rw [hval] at hinvalid
      contradiction
    | _ =>
      rw [hval] at hparent
      contradiction
  · exact ⟨_, by rw [hsome]⟩

/-- After setting a value, the path has it, paths beside it have what they had,
and so have the copies of the tree. -/
def SetTakesEffect (heap : Heap) (m_values : Handle) (copies : List Handle)
    (shv_path : StringViewList) (val : Handle) (v : RpcValue) : Prop :=
  ∃ heap', setValueOnPath heap m_values copies shv_path val = .ok heap' ∧
    HoldsResult heap' (valueOnPath heap' m_values shv_path true) (.ok v) ∧
    (∀ other, ¬ other <+: shv_path → ¬ shv_path <+: other → ∀ throw_exc r,
      HoldsResult heap (valueOnPath heap m_values other throw_exc) r →
        HoldsResult heap' (valueOnPath heap' m_values other throw_exc) r) ∧
    ∀ copy ∈ copies, ∀ w, Holds heap copy w → Holds heap' copy w

theorem atPath_of_setTakesEffect {copies : List Handle} {shv_path : StringViewList}
    (hv : Holds heap m_values tree) (h : SetTakesEffect heap m_values copies shv_path val v) :
    atPath tree shv_path = v := by
  obtain ⟨heap', hset, hread, -, -⟩ := h
  have hkept := setValueOnPath_keeps hset List.mem_cons_self hv
  have heq := (holds_valueOnPath hkept shv_path true).unique hread
  rw [readPath] at heq
  by_cases hor : shv_path = [] ∨ (atPath tree shv_path).isValid = true
  · rw [if_pos hor] at heq
    exact Except.ok.inj heq
  · rw [if_neg hor] at heq
    contradiction

/-- Setting a value takes effect just if the path has that value already. -/
theorem setTakesEffect_iff (hv : Holds heap m_values tree) (copies : List Handle)
    {dirs : StringViewList} (hparent : (atPath tree dirs).isMap = true) (key : Bytes)
    (val : Handle) (hvalid : v.isValid = true) :
    SetTakesEffect heap m_values copies (dirs ++ [key]) val v ↔ atPath tree (dirs ++ [key]) = v := by
  refine ⟨atPath_of_setTakesEffect hv, fun hat => ?_⟩
  obtain ⟨heap', hset⟩ := setValueOnPath_returns hv copies hparent key val
  have hkept := setValueOnPath_keeps hset List.mem_cons_self hv
  refine ⟨heap', hset, ?_, fun other _ _ throw_exc r hr => ?_, fun copy hcopy w hw => ?_⟩
  · have hread := holds_valueOnPath hkept (dirs ++ [key]) true
    have hor : dirs ++ [key] = [] ∨ (atPath tree (dirs ++ [key])).isValid = true := by
      rw [hat]
      exact .inr hvalid
    rw [readPath, if_pos hor, hat] at hread
    exact hread
  · rw [hr.unique (holds_valueOnPath hv other throw_exc)]
    exact holds_valueOnPath hkept other throw_exc
  · exact setValueOnPath_keeps hset (List.mem_cons_of_mem _ (List.mem_cons_of_mem _ hcopy)) hw

/-- A node over a map with one entry. -/
def oneEntry : Heap := [[(ascii "a", .own ⟨.ofVariant (.int 1), rfl⟩)]]

def oneEntryTree : RpcValue := node .empty [(ascii "a", .ofVariant (.int 1))]

theorem holds_oneEntry : Holds oneEntry (.ref .empty 0) oneEntryTree :=
  ⟨2, _, _, rfl, rfl, .cons ⟨rfl, rfl⟩ .nil⟩

theorem setTakesEffect_same :
    SetTakesEffect oneEntry (.ref .empty 0) [] ([] ++ [ascii "a"])
      (.own ⟨.ofVariant (.int 1), rfl⟩) (.ofVariant (.int 1)) ↔
    atPath oneEntryTree ([] ++ [ascii "a"]) = .ofVariant (.int 1) :=
  setTakesEffect_iff holds_oneEntry [] rfl _ _ rfl

/-- Another value is not set. -/
theorem not_setTakesEffect :
    Holds oneEntry (.ref .empty 0) oneEntryTree ∧ (atPath oneEntryTree []).isMap = true ∧
      ¬ SetTakesEffect oneEntry (.ref .empty 0) [] ([] ++ [ascii "a"])
        (.own ⟨.ofVariant (.int 2), rfl⟩) (.ofVariant (.int 2)) := by
  refine ⟨holds_oneEntry, rfl, fun h => ?_⟩
  have hat := atPath_of_setTakesEffect holds_oneEntry h
  have hone : atPath oneEntryTree ([] ++ [ascii "a"]) = .ofVariant (.int 1) := rfl
  have hvalue := congrArg RpcValue.value (hone.symm.trans hat)
  exact absurd (Variant.int.inj hvalue) (by decide)

end LibShv.RpcValueMapNode
