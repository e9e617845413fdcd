import LibShv.ShvTypeInfo

/-!
# LibShv.MetaMethod

The two forms a method is written in (`metamethod.cpp`): an imap with every field, and a
map that leaves out what is empty, and what is read from each.
-/

namespace LibShv

namespace ShvMethodDescr

/-! ## the map form -/

/-- `ret[key] = s`, for a text that is not empty. -/
def putText (key : String) (s : Bytes) (m : RpcMap) : RpcMap :=
  if s = [] then m else SortedMap.insert (ascii key) (text s) m

/-- `ret[key] = val`, for a map that is not empty. -/
def putMap (key : String) (val m : RpcMap) : RpcMap :=
  if val = [] then m else SortedMap.insert (ascii key) (.ofVariant (.map val)) m

/-- The extra values that are no label and no description. -/
def tags (extra : RpcMap) : RpcMap :=
  extra.foldl
    (fun m e =>
      if e.1 ≠ ascii "label" ∧ e.1 ≠ ascii "description" then SortedMap.insert e.1 e.2 m else m) []

/-- `MetaMethod::toMap`. -/
def toMap (mm : ShvMethodDescr) : RpcMap :=
  let ret := SortedMap.insert (ascii "name") (text mm.name) []
  let ret := putText "param" mm.paramType ret
  let ret := putText "result" mm.resultType ret
  let ret := putText "access" (accessLevelToAccessString mm.accessLevel) ret
  let ret := putMap "signals" mm.signals ret
  let ret := putText "label" mm.label ret
  let ret := putText "description" mm.description ret
  putMap "tags" (tags mm.extra) ret

/-! ## what stands under a key -/

section Get

variable {key key' : String} {s : Bytes} {val m : RpcMap}

theorem get_putText_self : (putText key s m).get key = if s = [] then m.get key else text s := by
  by_cases h : s = [] <;> simp [putText, h, RpcMap.get, RpcMap.valueOr]

theorem get_putText_of_ne (h : ascii key' ≠ ascii key) :
    (putText key s m).get key' = m.get key' := by
  by_cases hs : s = [] <;>
    simp [putText, hs, RpcMap.get, RpcMap.valueOr, SortedMap.find?_insert_of_ne h]

theorem get_putMap_self :
    (putMap key val m).get key = if val = [] then m.get key else .ofVariant (.map val) := by
  by_cases h : val = [] <;> simp [putMap, h, RpcMap.get, RpcMap.valueOr]

theorem get_putMap_of_ne (h : ascii key' ≠ ascii key) :
    (putMap key val m).get key' = m.get key' := by
  by_cases hs : val = [] <;>
    simp [putMap, hs, RpcMap.get, RpcMap.valueOr, SortedMap.find?_insert_of_ne h]

theorem get_insert_of_ne {v : RpcValue} (h : ascii key' ≠ ascii key) :
    RpcMap.get (SortedMap.insert (ascii key) v m) key' = m.get key' := by
  simp [RpcMap.get, RpcMap.valueOr, SortedMap.find?_insert_of_ne h]

/-- A map with the name alone. -/
theorem get_nameOnly {v : RpcValue} (h : ascii key ≠ ascii "name") :
    RpcMap.get (SortedMap.insert (ascii "name") v []) key = .invalid := by
  rw [get_insert_of_ne h]
  rfl

end Get

variable (mm : ShvMethodDescr)

/-- A text that is left out is read as the empty one. -/
theorem stringOr_ite (s : Bytes) :
    stringOr [] (if s = [] then RpcValue.invalid else text s) = s := by
  by_cases h : s = []
  · rw [if_pos h, h]
    rfl
  · rw [if_neg h]
    rfl

theorem mapOr_ite (val : RpcMap) :
    mapOr [] (if val = [] then RpcValue.invalid else .ofVariant (.map val)) = val := by
  by_cases h : val = []
  · rw [if_pos h, h]
    rfl
  · rw [if_neg h]
    rfl

/-- A level without a name is left out, and the reader keeps its own. -/
theorem levelOr_ite (old level : AccessLevel) :
    levelOr old (if accessLevelToAccessString level = [] then RpcValue.invalid
      else text (accessLevelToAccessString level)) =
      if accessLevelToAccessString level = [] then old else level := by
  by_cases h : accessLevelToAccessString level = []
  · rw [if_pos h, if_pos h]
    rfl
  · rw [if_neg h, if_neg h]
    change levelOf (accessLevelFromAccessString (accessLevelToAccessString level)) = level
    rw [accessLevelFromAccessString_toAccessString h]
    rfl

/-- The map form, read back: the flags, a level without a name and some extra values are not in
it. -/
theorem fromRpcValueInto_toMap (level : AccessLevel) :
    fromRpcValueInto { accessLevel := level } (.ofVariant (.map mm.toMap)) =
      .ok { mm with
        flags := 0
        accessLevel :=
          if accessLevelToAccessString mm.accessLevel = [] then level else mm.accessLevel
        extra := tags mm.extra } := by
  have hname : mm.toMap.get "name" = text mm.name := by
    simp (disch := decide) only [toMap, get_putText_of_ne, get_putMap_of_ne]
    rfl
  have hparam : mm.toMap.get "param" =
      if mm.paramType = [] then .invalid else text mm.paramType := by
    simp (disch := decide) only [toMap, get_putText_of_ne, get_putMap_of_ne, get_putText_self,
      get_nameOnly]
  have hresult : mm.toMap.get "result" =
      if mm.resultType = [] then .invalid else text mm.resultType := by
    simp (disch := decide) only [toMap, get_putText_of_ne, get_putMap_of_ne, get_putText_self,
      get_nameOnly]
  have haccess : mm.toMap.get "access" =
      if accessLevelToAccessString mm.accessLevel = [] then .invalid
      else text (accessLevelToAccessString mm.accessLevel) := by
    simp (disch := decide) only [toMap, get_putText_of_ne, get_putMap_of_ne, get_putText_self,
      get_nameOnly]
  have hsignals : mm.toMap.get "signals" =
      if mm.signals = [] then .invalid else .ofVariant (.map mm.signals) := by
    simp (disch := decide) only [toMap, get_putText_of_ne, get_putMap_of_ne, get_putMap_self,
      get_nameOnly]
  have hlabel : mm.toMap.get "label" = if mm.label = [] then .invalid else text mm.label := by
    simp (disch := decide) only [toMap, get_putText_of_ne, get_putMap_of_ne, get_putText_self,
      get_nameOnly]
  have hdescription : mm.toMap.get "description" =
      if mm.description = [] then .invalid else text mm.description := by
    simp (disch := decide) only [toMap, get_putText_of_ne, get_putMap_of_ne, get_putText_self,
      get_nameOnly]
  have htags : mm.toMap.get "tags" =
      if tags mm.extra = [] then .invalid else .ofVariant (.map (tags mm.extra)) := by
    simp (disch := decide) only [toMap, get_putText_of_ne, get_putMap_of_ne, get_putMap_self,
      get_nameOnly]
  have habsent (key : String) (h : ascii key ∉ ["name", "param", "result", "access", "signals",
      "label", "description", "tags"].map ascii) : mm.toMap.get key = .invalid := by
    simp only [List.map_cons, List.map_nil, List.mem_cons, not_or] at h
    obtain ⟨hname, hparam, hresult, haccess, hsignals, hlabel, hdescription, htags, -⟩ := h
    simp (disch := assumption) only [toMap, get_putText_of_ne, get_putMap_of_ne, get_nameOnly]
  change applyAttributesMap { accessLevel := level } mm.toMap = _
  rw [applyAttributesMap, hname, hparam, hresult, haccess, hsignals, hlabel, hdescription, htags,
    habsent "flags" (by decide), habsent "accessGrant" (by decide),
    habsent "accessLevel" (by decide)]
  simp only [stringOr_ite, mapOr_ite, levelOr_ite]
  rfl

theorem tags_eq_filter {extra : RpcMap} (h : SortedMap.Sorted extra) :
    tags extra = extra.filter fun e => e.1 ≠ ascii "label" ∧ e.1 ≠ ascii "description" := by
  have hsub : SortedMap.Sorted
      (extra.filter fun e => e.1 ≠ ascii "label" ∧ e.1 ≠ ascii "description") :=
    List.Pairwise.filter _ h
  have hall := @SortedMap.Sorted.insertAll _ _ _ _ [] _ hsub
  rw [List.nil_append, SortedMap.insertAll, List.foldl_filter] at hall
  rw [← hall]
  simp only [tags, decide_eq_true_eq]

/-- The extra values come back from the map form if none of them is a label or a description. -/
theorem tags_eq_iff {extra : RpcMap} (h : SortedMap.Sorted extra) :
    tags extra = extra ↔
      SortedMap.find? (ascii "label") extra = none ∧
        SortedMap.find? (ascii "description") extra = none := by
  have hkeys (key : Bytes) : SortedMap.find? key extra = none ↔ ∀ e ∈ extra, e.1 ≠ key := by
    constructor
    · rintro hnone e he rfl
      rw [SortedMap.find?_of_mem h.keys_nodup he] at hnone
      contradiction
    · intro hne
      by_contra hsome
      obtain ⟨v, hv⟩ := Option.ne_none_iff_exists'.mp hsome
      exact hne _ (SortedMap.mem_of_find? hv) rfl
  rw [tags_eq_filter h, List.filter_eq_self, hkeys, hkeys]
  simp only [decide_eq_true_eq]
  exact ⟨fun hall => ⟨fun e he => (hall e he).1, fun e he => (hall e he).2⟩,
    fun hboth e he => ⟨hboth.1 e he, hboth.2 e he⟩⟩

/-! ## the imap form -/

/-- The extra values of the imap form. -/
def extraOut (mm : ShvMethodDescr) : RpcMap :=
  SortedMap.insertAll
    [(ascii "description", text mm.description), (ascii "label", text mm.label)] mm.extra

theorem uint32_of_int (n : UInt32) : n.toUInt64.toInt64.toInt32.toUInt32 = n := by
  apply UInt32.toBitVec_inj.mp
  rw [Int32.toBitVec_toUInt32, Int64.toBitVec_toInt32, UInt64.toBitVec_toInt64,
    UInt32.toBitVec_toUInt64, BitVec.signExtend_eq_setWidth_of_le _ (by decide),
    BitVec.setWidth_setWidth_of_le _ (by decide)]
  exact BitVec.setWidth_eq _

/-- The imap form, read back: every field is in it, and the label and the description are among
the extra values. -/
theorem fromRpcValueInto_toRpcValue (level : AccessLevel) :
    fromRpcValueInto { accessLevel := level } mm.toRpcValue =
      .ok { mm with
        accessLevel := levelOf (accessLevelFromInt mm.accessLevel.toInt)
        extra := mm.extraOut
        description := (mm.extraOut.get "description").asString
        label := (mm.extraOut.get "label").asString } := by
  have hflags : (RpcValue.ofVariant (.uint mm.flags.toUInt64)).toInt =
      .ok mm.flags.toUInt64.toInt64.toInt32 := rfl
  change (do
    let flags ← (RpcValue.ofVariant (.uint mm.flags.toUInt64)).toInt
    let level ← (levelOf <| accessLevelFromInt ·) <$> (RpcValue.ofInt32 mm.accessLevel.toInt).toInt
    pure ({ mm with
      flags := flags.toUInt32
      accessLevel := level
      extra := mm.extraOut
      description := (mm.extraOut.get "description").asString
      label := (mm.extraOut.get "label").asString } : ShvMethodDescr)) = _
  rw [hflags, RpcValue.toInt_ofInt32]
  change Except.ok _ = _
  rw [uint32_of_int]

theorem extraOut_eq_iff (h : SortedMap.Sorted mm.extra) :
    mm.extraOut = mm.extra ↔
      (SortedMap.find? (ascii "description") mm.extra).isSome = true ∧
        (SortedMap.find? (ascii "label") mm.extra).isSome = true := by
  have hbase : SortedMap.Sorted
      [(ascii "description", text mm.description), (ascii "label", text mm.label)] := by
    have hlt : compare (ascii "description") (ascii "label") = .lt := by decide
    simp [hlt]
  rw [extraOut, SortedMap.insertAll_eq_iff hbase h]
  simp

theorem levelOf_accessLevelFromInt_iff (level : AccessLevel) :
    levelOf (accessLevelFromInt level.toInt) = level ↔ 0 ≤ level.toInt ∧ level.toInt ≤ 63 := by
  rw [accessLevelFromInt]
  by_cases h : 0 ≤ level.toInt ∧ level.toInt ≤ 63
  · rw [if_pos h]
    exact iff_of_true rfl h
  · rw [if_neg h]
    refine iff_of_false ?_ h
    rintro hnone
    rw [← hnone] at h
    exact h (by decide)

/-! ## what comes back -/

/-- The method is read from a form of it as it was, whatever stood in the memory of the new
method. -/
def ReadBack (rv : RpcValue) : Prop :=
  ∀ level : AccessLevel, fromRpcValueInto { accessLevel := level } rv = .ok mm

/-- The imap form has a label and a description among the extra values, and a level that is no
number of a level is lost. -/
theorem readBack_toRpcValue_iff (h : SortedMap.Sorted mm.extra) :
    mm.ReadBack mm.toRpcValue ↔
      (0 ≤ mm.accessLevel.toInt ∧ mm.accessLevel.toInt ≤ 63) ∧
        ((SortedMap.find? (ascii "description") mm.extra).isSome = true ∧
          (SortedMap.find? (ascii "label") mm.extra).isSome = true) ∧
        (mm.extra.get "description").asString = mm.description ∧
        (mm.extra.get "label").asString = mm.label := by
  rw [← levelOf_accessLevelFromInt_iff, ← extraOut_eq_iff mm h]
  constructor
  · intro hread
    have heq := hread .None
    rw [fromRpcValueInto_toRpcValue, Except.ok.injEq] at heq
    have hextra : mm.extraOut = mm.extra := congrArg ShvMethodDescr.extra heq
    rw [hextra] at heq
    exact ⟨congrArg accessLevel heq, hextra, congrArg description heq, congrArg label heq⟩
  · rintro ⟨hlevel, hextra, hdescription, hlabel⟩ level
    rw [fromRpcValueInto_toRpcValue, hlevel, hextra, hdescription, hlabel]

/-- The map form has no flags, no level without a name, and no label or description among the
extra values. -/
theorem readBack_toMap_iff (h : SortedMap.Sorted mm.extra) :
    mm.ReadBack (.ofVariant (.map mm.toMap)) ↔
      mm.flags = 0 ∧ accessLevelToAccessString mm.accessLevel ≠ [] ∧
        SortedMap.find? (ascii "label") mm.extra = none ∧
        SortedMap.find? (ascii "description") mm.extra = none := by
  rw [← tags_eq_iff h]
  constructor
  · intro hread
    have heq (level : AccessLevel) := hread level
    simp only [fromRpcValueInto_toMap, Except.ok.injEq] at heq
    refine ⟨(congrArg flags (heq .None)).symm, ?_, congrArg extra (heq .None)⟩
    intro hunnamed
    -- two values of the memory give two levels
    have hnone := congrArg accessLevel (heq .None)
    have hread' := congrArg accessLevel (heq .Read)
    simp only [hunnamed, if_true] at hnone hread'
    rw [← hnone] at hread'
    exact absurd hread' (by decide)
  · rintro ⟨hflags, hnamed, htags⟩ level
    rw [fromRpcValueInto_toMap, if_neg hnamed, htags, ← hflags]

/-- The imap form comes back if a label and a description are among the extra values, the ones of
the method; the map form if none is, without flags and with a level that has a name. So no method
comes back from both. -/
theorem metaMethod_readBack_iff (h : SortedMap.Sorted mm.extra) :
    (mm.ReadBack mm.toRpcValue ↔
      (0 ≤ mm.accessLevel.toInt ∧ mm.accessLevel.toInt ≤ 63) ∧
        ((SortedMap.find? (ascii "description") mm.extra).isSome = true ∧
          (SortedMap.find? (ascii "label") mm.extra).isSome = true) ∧
        (mm.extra.get "description").asString = mm.description ∧
        (mm.extra.get "label").asString = mm.label) ∧
    (mm.ReadBack (.ofVariant (.map mm.toMap)) ↔
      mm.flags = 0 ∧ accessLevelToAccessString mm.accessLevel ≠ [] ∧
        SortedMap.find? (ascii "label") mm.extra = none ∧
        SortedMap.find? (ascii "description") mm.extra = none) ∧
    ¬(mm.ReadBack mm.toRpcValue ∧ mm.ReadBack (.ofVariant (.map mm.toMap))) := by
  refine ⟨readBack_toRpcValue_iff mm h, readBack_toMap_iff mm h, ?_⟩
  rintro ⟨hread, hread'⟩
  have hlabel := ((readBack_toRpcValue_iff mm h).mp hread).2.1.2
  rw [((readBack_toMap_iff mm h).mp hread').2.2.1] at hlabel
  contradiction

/-- A getter. -/
def getter : ShvMethodDescr where
  name := ascii "get"
  flags := 2
  paramType := ascii "Null"
  resultType := ascii "RpcValue"
  accessLevel := .Read

theorem metaMethod_readBack_getter :
    (getter.ReadBack getter.toRpcValue ↔
      (0 ≤ getter.accessLevel.toInt ∧ getter.accessLevel.toInt ≤ 63) ∧
        ((SortedMap.find? (ascii "description") getter.extra).isSome = true ∧
          (SortedMap.find? (ascii "label") getter.extra).isSome = true) ∧
        (getter.extra.get "description").asString = getter.description ∧
        (getter.extra.get "label").asString = getter.label) ∧
    (getter.ReadBack (.ofVariant (.map getter.toMap)) ↔
      getter.flags = 0 ∧ accessLevelToAccessString getter.accessLevel ≠ [] ∧
        SortedMap.find? (ascii "label") getter.extra = none ∧
        SortedMap.find? (ascii "description") getter.extra = none) ∧
    ¬(getter.ReadBack getter.toRpcValue ∧ getter.ReadBack (.ofVariant (.map getter.toMap))) :=
  metaMethod_readBack_iff getter SortedMap.sorted_nil

/-- The imap form of a getter has two more extra values, the map form has no flags. -/
theorem not_readBack_getter :
    ¬getter.ReadBack getter.toRpcValue ∧ ¬getter.ReadBack (.ofVariant (.map getter.toMap)) := by
  constructor
  · intro hread
    have heq := hread .Read
    rw [fromRpcValueInto_toRpcValue, Except.ok.injEq] at heq
    have hextra : getter.extraOut.length = 0 :=
      congrArg (fun mm : ShvMethodDescr => mm.extra.length) heq
    exact absurd hextra (by decide)
  · intro hread
    have heq := hread .Read
    rw [fromRpcValueInto_toMap, Except.ok.injEq] at heq
    exact absurd (congrArg flags heq) (by decide)

end ShvMethodDescr

end LibShv
