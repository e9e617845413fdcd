import LibShv.Lib.CallGraph
import LibShv.ShvTypeInfo

/-!
# LibShv.ShvTypeInfo.Termination

Reading a type info, applying it to values and checking alarms call themselves through
the names of types and of node types. They come to an end if no name leads back to
itself; they never return if one does.
-/

namespace LibShv

open CallGraph Fueled

namespace ShvTypeInfo

/-! ## types that name each other -/

/-- The type names of the fields of a bit field. -/
def typeReferences (skip : ShvDescr → Bool) (d : ShvDescr) : List Bytes :=
  if d.type = .ok (some .BitField) then
    (d.fields.filter fun fld => ¬ skip fld).filterMap fun fld => fld.typeName.toOption
  else []

/-- The types that a type is made of by its fields. -/
def typeCalls (ti : ShvTypeInfo) (skip : ShvDescr → Bool) (type_name : Bytes) : List Bytes :=
  typeReferences skip (ti.findTypeDescription type_name)

variable {ti : ShvTypeInfo} {skip : ShvDescr → Bool} {d : ShvDescr} {type_name : Bytes}

theorem mem_typeReferences : type_name ∈ typeReferences skip d ↔
    d.type = .ok (some .BitField) ∧ ∃ fld ∈ d.fields, skip fld = false ∧ fld.typeName = .ok type_name := by
  rw [typeReferences]
  by_cases h : d.type = .ok (some .BitField)
  · rw [if_pos h, List.mem_filterMap]
    constructor
    · rintro ⟨fld, hfld, hname⟩
      obtain ⟨hmem, hskip⟩ := List.mem_filter.mp hfld
      refine ⟨h, fld, hmem, by simpa using hskip, ?_⟩
      cases hok : fld.typeName with
      | ok s =>
        rw [hok] at hname
        exact congrArg Except.ok (Option.some.inj hname)
      | error e =>
        rw [hok] at hname
        cases hname
    · rintro ⟨-, fld, hmem, hskip, hname⟩
      refine ⟨fld, List.mem_filter.mpr ⟨hmem, by simpa using hskip⟩, ?_⟩
      rw [hname]
      rfl
  · rw [if_neg h]
    exact iff_of_false List.not_mem_nil fun hd => h hd.1

theorem fields_ofTypeName (s : Bytes) : (ShvDescr.ofTypeName s).fields = [] := by
  rw [ShvDescr.ofTypeName]
  cases ShvTypeDescr.typeFromString s <;> rfl

/-- The names that types of the table have in their fields. -/
def tableReferences (ti : ShvTypeInfo) (skip : ShvDescr → Bool) : List Bytes :=
  ti.types.flatMap fun e => typeReferences skip e.2

theorem typeCalls_subset {name : Bytes} (h : name ∈ typeCalls ti skip type_name) :
    name ∈ tableReferences ti skip := by
  rw [typeCalls, findTypeDescription] at h
  cases hfind : SortedMap.find? type_name ti.types with
  | none =>
    rw [hfind, Option.getD_none, mem_typeReferences, fields_ofTypeName] at h
    obtain ⟨-, fld, hfld, -⟩ := h
    exact absurd hfld List.not_mem_nil
  | some td =>
    rw [hfind, Option.getD_some] at h
    exact List.mem_flatMap.mpr ⟨_, SortedMap.mem_of_find? hfind, h⟩

theorem acyclic_ends (h : Acyclic (typeCalls ti skip) type_name) :
    Ends (typeCalls ti skip) type_name := by
  refine h.ends (l := type_name :: tableReferences ti skip) fun y hy => ?_
  obtain rfl | ⟨z, -, hz⟩ := Relation.ReflTransGen.cases_tail hy
  · exact List.mem_cons_self
  · exact List.mem_cons_of_mem _ (typeCalls_subset hz)

/-! ## alarms -/

section Alarms

open ShvAlarm

variable {severities : Severities} {getAlarm : ShvDescr → Bytes}

/-- A field with an alarm is not looked into. -/
def hasAlarm (getAlarm : ShvDescr → Bytes) (fld : ShvDescr) : Bool := getAlarm fld ≠ []

theorem done_checkTypeAlarms {n : Nat} (h : Depth (typeCalls ti (hasAlarm getAlarm)) n type_name)
    (shv_path : Bytes) (value : RpcValue) :
    Done (checkTypeAlarms severities getAlarm ti n shv_path type_name value) := by
  induction n generalizing type_name shv_path value with
  | zero => exact absurd h id
  | succ n ih =>
    rw [checkTypeAlarms]
    simp only
    split
    · exact done_pure _
    · refine done_bind (done_ofExcept _) fun t ht => ?_
      split
      · rename_i hbits
        refine done_foldlM (fun fld hfld alarms => ?_) _
        split
        · refine done_bind (done_ofExcept _) fun uval _ => ?_
          refine done_bind (done_ofExcept _) fun bit _ => ?_
          exact done_bind (done_ofExcept _) fun alarm _ => done_pure _
        · rename_i hnone
          refine done_bind (done_ofExcept _) fun name hname => ?_
          refine done_bind (done_ofExcept _) fun uval _ => ?_
          refine done_bind (done_ofExcept _) fun bit _ => ?_
          refine done_bind (ih (h name ?_) _ _) fun alarms2 _ => done_pure _
          refine mem_typeReferences.mpr ⟨hbits ▸ returns_ofExcept ht, fld, hfld, ?_,
            returns_ofExcept hname⟩
          exact decide_eq_false hnone
      · split
        · exact done_ofExcept _
        · exact done_pure _

theorem type_of_not_isValid (h : d.isValid = false) : d.type = .ok (some .Invalid) := by
  have hmap : d.m_data.asMap = [] := by simpa [ShvDescr.isValid] using h
  rw [ShvDescr.type, ShvDescr.dataValue, hmap]
  rfl

theorem depth_of_returns_checkTypeAlarms {n : Nat} {shv_path : Bytes} {value : RpcValue}
    {alarms : List ShvAlarm}
    (h : Returns (checkTypeAlarms severities getAlarm ti n shv_path type_name value) alarms) :
    Depth (typeCalls ti (hasAlarm getAlarm)) n type_name := by
  induction n generalizing type_name shv_path value alarms with
  | zero => exact absurd h not_returns_more
  | succ n ih =>
    intro name hname
    obtain ⟨htype, fld, hfld, hskip, hfldName⟩ := mem_typeReferences.mp hname
    rw [checkTypeAlarms] at h
    simp only at h
    split at h
    · rename_i hinvalid
      rw [type_of_not_isValid hinvalid] at htype
      cases htype
    · obtain ⟨t, ht, h⟩ := returns_bind h
      have hbits : t = some .BitField := Except.ok.inj ((returns_ofExcept ht).symm.trans htype)
      rw [if_pos hbits] at h
      obtain ⟨s₁, s₂, hround⟩ := returns_foldlM h fld hfld
      rw [if_neg (of_decide_eq_false hskip)] at hround
      obtain ⟨name', hname', hround⟩ := returns_bind hround
      obtain rfl : name' = name := Except.ok.inj ((returns_ofExcept hname').symm.trans hfldName)
      obtain ⟨uval, -, hround⟩ := returns_bind hround
      obtain ⟨bit, -, hround⟩ := returns_bind hround
      obtain ⟨alarms2, halarms2, -⟩ := returns_bind hround
      exact ih halarms2

theorem checkTypeAlarms_spec {shv_path : Bytes} {value : RpcValue} :
    (Acyclic (typeCalls ti (hasAlarm getAlarm)) type_name →
      ∃ n, Done (checkTypeAlarms severities getAlarm ti n shv_path type_name value)) ∧
    ∀ n alarms, Returns (checkTypeAlarms severities getAlarm ti n shv_path type_name value) alarms →
      Acyclic (typeCalls ti (hasAlarm getAlarm)) type_name := by
  constructor
  · intro h
    obtain ⟨n, hn⟩ := acyclic_ends h
    exact ⟨n, done_checkTypeAlarms hn shv_path value⟩
  · exact fun n alarms h => Ends.acyclic ⟨n, depth_of_returns_checkTypeAlarms h⟩

/-- The types that alarms are looked for in do not lead back to themselves. -/
def AlarmsAcyclic (ti : ShvTypeInfo) (getAlarm : ShvDescr → Bytes) (shv_path : Bytes)
    (value : RpcValue) : Prop :=
  value.isNull = false → (ti.pathInfo shv_path).propertyDescription.isValid = true →
    getAlarm (ti.pathInfo shv_path).propertyDescription = [] →
    ∀ name, (ti.pathInfo shv_path).propertyDescription.typeName = .ok name →
      Acyclic (typeCalls ti (hasAlarm getAlarm)) name

theorem checkAlarmsImpl_spec {shv_path : Bytes} {value : RpcValue} :
    (AlarmsAcyclic ti getAlarm shv_path value →
      ∃ n, Done (checkAlarmsImpl severities getAlarm ti n shv_path value)) ∧
    ∀ n alarms, Returns (checkAlarmsImpl severities getAlarm ti n shv_path value) alarms →
      AlarmsAcyclic ti getAlarm shv_path value := by
  constructor
  · intro h
    by_cases hchecked : value.isNull = false ∧
        (ti.pathInfo shv_path).propertyDescription.isValid = true ∧
        getAlarm (ti.pathInfo shv_path).propertyDescription = []
    · obtain ⟨hnull, hvalid, hnone⟩ := hchecked
      have hdone : ∀ n, (∀ name, (ti.pathInfo shv_path).propertyDescription.typeName = .ok name →
          Depth (typeCalls ti (hasAlarm getAlarm)) n name) →
          Done (checkAlarmsImpl severities getAlarm ti n shv_path value) := fun n hn => by
        rw [checkAlarmsImpl]
        simp only [hnull, hvalid, hnone, Bool.false_eq_true, Bool.true_eq_false, if_false, ne_eq,
          not_true_eq_false]
        refine done_bind (done_ofExcept _) fun name hname => ?_
        exact done_checkTypeAlarms (hn name (returns_ofExcept hname)) _ _
      cases htype : (ti.pathInfo shv_path).propertyDescription.typeName with
      | error e =>
        refine ⟨0, hdone 0 fun name hname => ?_⟩
        rw [htype] at hname
        cases hname
      | ok name =>
        obtain ⟨n, hn⟩ := acyclic_ends (h hnull hvalid hnone name htype)
        refine ⟨n, hdone n fun name' hname' => ?_⟩
        rw [htype] at hname'
        rwa [← Except.ok.inj hname']
    · refine ⟨0, ?_⟩
      rw [checkAlarmsImpl]
      split
      · exact done_pure _
      · rename_i hnull
        split
        · exact done_pure _
        · rename_i hvalid
          split
          · exact done_ofExcept _
          · rename_i hnone
            exact absurd ⟨Bool.eq_false_iff.mpr hnull, Bool.of_not_eq_false hvalid,
              not_not.mp hnone⟩ hchecked
  · intro n alarms hreturns hnull hvalid hnone name hname
    rw [checkAlarmsImpl] at hreturns
    simp only [hnull, hvalid, hnone, Bool.false_eq_true, Bool.true_eq_false, if_false, ne_eq,
      not_true_eq_false] at hreturns
    obtain ⟨name', hname', hreturns⟩ := returns_bind hreturns
    obtain rfl : name' = name := Except.ok.inj ((returns_ofExcept hname').symm.trans hname)
    exact Ends.acyclic ⟨n, depth_of_returns_checkTypeAlarms hreturns⟩

end Alarms

/-! ## values with types -/

/-- No field of a bit field is skipped. -/
def noSkip (_ : ShvDescr) : Bool := false

/-- The descriptions that a value comes to by its maps. -/
inductive Meets (ti : ShvTypeInfo) : RpcValue → ShvDescr → ShvDescr → Prop
  | here (val : RpcValue) (d : ShvDescr) : Meets ti val d d
  | entry {val : RpcValue} {d d' : ShvDescr} {e : Bytes × RpcValue} {type_name : Bytes}
      (htype : d.type = .ok (some .Map)) (hmap : val.isMap = true) (he : e ∈ val.asMap)
      (hname : (d.field e.1).typeName = .ok type_name)
      (h : Meets ti e.2 (ti.findTypeDescription type_name) d') : Meets ti val d d'

/-- The bit fields that a value comes to do not lead back to themselves. -/
def ValueAcyclic (ti : ShvTypeInfo) (val : RpcValue) (d : ShvDescr) (recursive_bitfields : Bool) :
    Prop :=
  recursive_bitfields = true → ∀ d', Meets ti val d d' → ∀ name ∈ typeReferences noSkip d',
    Acyclic (typeCalls ti noSkip) name

theorem isMap_of_bitfieldValue {uval : UInt64} {result : RpcValue}
    (h : d.bitfieldValue uval = .ok result) : result.isMap = false := by
  rw [ShvDescr.bitfieldValue] at h
  split at h
  · cases hpair : d.bitRangePair with
    | error e =>
      rw [hpair] at h
      cases h
    | ok pair =>
      rw [hpair] at h
      obtain rfl := Except.ok.inj h
      by_cases hone : pair.1 = pair.2
      · simp [RpcValue.isMap, hone]
      · simp [RpcValue.isMap, hone]
  · obtain rfl := Except.ok.inj h
    rfl

/-- A value that is no map needs fuel for its type only. -/
theorem done_apply_scalar {m n : Nat} (h : Depth (typeCalls ti noSkip) m type_name) (hle : m ≤ n)
    {val : RpcValue} (hval : val.isMap = false) (translate_enums recursive_bitfields : Bool) :
    Done (ti.applyTypeDescription n val (ti.findTypeDescription type_name) translate_enums
      recursive_bitfields) := by
  induction m generalizing n type_name val recursive_bitfields with
  | zero => exact absurd h id
  | succ m ih =>
    cases n with
    | zero => exact absurd hle (Nat.not_succ_le_zero m)
    | succ n =>
      rw [applyTypeDescription]
      refine done_bind (done_ofExcept _) fun t ht => ?_
      split
      · rename_i hbits
        refine done_bind (done_foldlM (fun fld hfld map => ?_) _) fun map _ => done_pure _
        refine done_bind (done_ofExcept _) fun uval _ => ?_
        refine done_bind (done_ofExcept _) fun result hresult => ?_
        refine done_bind (done_ofExcept _) fun name hname => ?_
        have hcall : name ∈ typeCalls ti noSkip type_name := mem_typeReferences.mpr
          ⟨hbits.1 ▸ returns_ofExcept ht, fld, hfld, rfl, returns_ofExcept hname⟩
        refine done_bind (ih (h name hcall) (Nat.le_of_succ_le_succ hle) ?_ true) fun _ _ => done_pure _
        exact isMap_of_bitfieldValue (returns_ofExcept hresult)
      · split
        · rename_i hmap
          rw [hval] at hmap
          exact absurd hmap.2 Bool.false_ne_true
        · exact done_ofExcept _

theorem sizeOf_lt_of_mem_asMap {val : RpcValue} {e : Bytes × RpcValue} (h : e ∈ val.asMap) :
    sizeOf e.2 < sizeOf val := by
  obtain ⟨md, v⟩ := val
  cases v with
  | map m =>
    have hlt := List.sizeOf_lt_of_mem (show e ∈ m from h)
    obtain ⟨key, child⟩ := e
    simp only [Prod.mk.sizeOf_spec] at hlt
    simp only [RpcValue.mk.sizeOf_spec, Variant.map.sizeOf_spec]
    omega
  | _ => exact absurd h List.not_mem_nil

theorem done_applyTypeDescription {k n : Nat} {val : RpcValue} {recursive_bitfields : Bool}
    (h : recursive_bitfields = true → ∀ d', Meets ti val d d' →
      ∀ name ∈ typeReferences noSkip d', Depth (typeCalls ti noSkip) k name)
    (hle : sizeOf val + k < n) (translate_enums : Bool) :
    Done (ti.applyTypeDescription n val d translate_enums recursive_bitfields) := by
  induction n generalizing val d with
  | zero => exact absurd hle (Nat.not_lt_zero _)
  | succ n ih =>
    rw [applyTypeDescription]
    refine done_bind (done_ofExcept _) fun t ht => ?_
    have htype := returns_ofExcept ht
    split
    · rename_i hbits
      refine done_bind (done_foldlM (fun fld hfld map => ?_) _) fun map _ => done_pure _
      refine done_bind (done_ofExcept _) fun uval _ => ?_
      refine done_bind (done_ofExcept _) fun result hresult => ?_
      refine done_bind (done_ofExcept _) fun name hname => ?_
      have hdepth := h hbits.2 d (.here val d) name (mem_typeReferences.mpr
        ⟨hbits.1 ▸ htype, fld, hfld, rfl, returns_ofExcept hname⟩)
      refine done_bind (done_apply_scalar hdepth (by omega) ?_ _ _) fun _ _ => done_pure _
      exact isMap_of_bitfieldValue (returns_ofExcept hresult)
    · split
      · rename_i hmap
        refine done_bind (done_foldlM (fun e he map => ?_) _) fun map _ => done_pure _
        refine done_bind (done_ofExcept _) fun name hname => ?_
        have hlt := sizeOf_lt_of_mem_asMap he
        refine done_bind (ih (fun hrec d' hmeets => h hrec d' ?_) (by omega)) fun _ _ => done_pure _
        exact .entry (hmap.1 ▸ htype) hmap.2 he (returns_ofExcept hname) hmeets
      · exact done_ofExcept _

theorem depth_of_returns_apply {n : Nat} {val r : RpcValue} {translate_enums : Bool}
    (h : Returns (ti.applyTypeDescription n val d translate_enums true) r) {d' : ShvDescr}
    (hmeets : Meets ti val d d') {name : Bytes} (hname : name ∈ typeReferences noSkip d') :
    Depth (typeCalls ti noSkip) n name := by
  induction n generalizing val d r d' name with
  | zero => exact absurd h not_returns_more
  | succ n ih =>
    rw [applyTypeDescription] at h
    obtain ⟨t, ht, h⟩ := returns_bind h
    have htype := returns_ofExcept ht
    cases hmeets with
    | here =>
      obtain ⟨hbits, fld, hfld, -, hfldName⟩ := mem_typeReferences.mp hname
      obtain rfl : t = some .BitField := Except.ok.inj (htype.symm.trans hbits)
      rw [if_pos ⟨rfl, rfl⟩] at h
      obtain ⟨map, hmap, -⟩ := returns_bind h
      obtain ⟨s₁, s₂, hround⟩ := returns_foldlM hmap fld hfld
      obtain ⟨uval, -, hround⟩ := returns_bind hround
      obtain ⟨result, -, hround⟩ := returns_bind hround
      obtain ⟨name', hname', hround⟩ := returns_bind hround
      obtain rfl : name' = name := Except.ok.inj ((returns_ofExcept hname').symm.trans hfldName)
      obtain ⟨result', hresult', -⟩ := returns_bind hround
      exact fun y hy => ih hresult' (.here _ _) hy
    | @entry _ _ _ e type_name htype' hisMap he hfldName hmeets =>
      obtain rfl : t = some .Map := Except.ok.inj (htype.symm.trans htype')
      rw [if_neg (by simp), if_pos ⟨rfl, hisMap⟩] at h
      obtain ⟨map, hmap, -⟩ := returns_bind h
      obtain ⟨s₁, s₂, hround⟩ := returns_foldlM hmap e he
      obtain ⟨name', hname', hround⟩ := returns_bind hround
      obtain rfl : name' = type_name := Except.ok.inj ((returns_ofExcept hname').symm.trans hfldName)
      obtain ⟨result', hresult', -⟩ := returns_bind hround
      exact (ih hresult' hmeets hname).mono (Nat.le_succ n)

theorem applyTypeDescription_spec {val : RpcValue} {translate_enums recursive_bitfields : Bool} :
    (ValueAcyclic ti val d recursive_bitfields →
      ∃ n, Done (ti.applyTypeDescription n val d translate_enums recursive_bitfields)) ∧
    ∀ n r, Returns (ti.applyTypeDescription n val d translate_enums recursive_bitfields) r →
      ValueAcyclic ti val d recursive_bitfields := by
  constructor
  · intro h
    -- all names that a value comes to are in a list, so that one depth does for them
    have hmeets : ∀ {val : RpcValue} {d d' : ShvDescr}, Meets ti val d d' →
        d' = d ∨ ∃ s, d' = ti.findTypeDescription s := fun hd' => by
      induction hd' with
      | here => exact .inl rfl
      | entry _ _ _ _ _ ih =>
        obtain rfl | hs := ih
        · exact .inr ⟨_, rfl⟩
        · exact .inr hs
    obtain ⟨k, hk⟩ := @exists_depth _ (typeCalls ti noSkip)
      ((typeReferences noSkip d ++ tableReferences ti noSkip).filter fun name =>
        @decide (Acyclic (typeCalls ti noSkip) name) (Classical.dec _))
      fun name hname => acyclic_ends (by simpa using (List.mem_filter.mp hname).2)
    refine ⟨sizeOf val + k + 1, done_applyTypeDescription (fun hrec d' hd' name hname => ?_)
      (Nat.lt_succ_self _) translate_enums⟩
    refine hk name (List.mem_filter.mpr ⟨?_, by simpa using h hrec d' hd' name hname⟩)
    obtain rfl | ⟨s, rfl⟩ := hmeets hd'
    · exact List.mem_append_left _ hname
    · exact List.mem_append_right _ (typeCalls_subset hname)
  · rintro n r hreturns rfl d' hd' name hname
    exact Ends.acyclic ⟨n, depth_of_returns_apply hreturns hd' hname⟩

/-! ## trees of nodes -/

/-- The type name in the tags of a node. -/
def typeNameTag (node : RpcValue) : Bytes := ((nodeTags node).get "typeName").asString

/-- The nodes that are visited from a node. -/
def nodeCalls (node_types : RpcMap) (node : RpcValue) : List RpcValue :=
  if node.isValid = false then []
  else if nodeTypeRef node ≠ [] then [node_types.valueOr (nodeTypeRef node) .invalid]
  else ((if hasChildProperties node (typeNameTag node) then node.asMap else []).filter
    (·.1 ≠ [])).map (·.2)

theorem find?_filter_keys {m : RpcMap} {p : Bytes → Bool} {key : Bytes} :
    SortedMap.find? key (m.filter fun e => p e.1) =
      if p key then SortedMap.find? key m else none := by
  induction m with
  | nil => simp [SortedMap.find?]
  | cons e m ih =>
    obtain ⟨k, v⟩ := e
    by_cases hk : compare key k = .eq
    · obtain rfl := Std.LawfulEqOrd.eq_of_compare hk
      by_cases hp : p key = true
      · simp [hp, SortedMap.find?]
      · simp [hp, ih]
    · by_cases hp : p k = true
      · simp [hp, SortedMap.find?, hk, ih]
      · simp [hp, ih, SortedMap.find?, hk]

theorem get_setValue_of_ne {m : RpcMap} {key key' : String} (h : ascii key' ≠ ascii key)
    (val : RpcValue) : (m.setValue key val).get key' = m.get key' := by
  rw [RpcMap.setValue]
  split
  · exact congrArg (Option.getD · _) (SortedMap.find?_insert_of_ne h val m)
  · exact congrArg (Option.getD · _) (SortedMap.find?_erase_of_ne h m)

theorem typeName_of_type_none (h : d.dataValue "type" = .invalid) :
    d.typeName = .ok (d.dataValue "typeName").asString := by
  have htype : d.type = .ok (some .Invalid) := by
    rw [ShvDescr.type, h]
    rfl
  rw [ShvDescr.typeName, htype]
  split
  · rfl
  · rename_i hnil
    rw [not_not.mp hnil]
    rfl

/-- A property keeps the known tags. -/
theorem asMap_propertyFromRpcValue (v : RpcValue) : (ShvDescr.propertyFromRpcValue v).1.m_data.asMap =
    v.asMap.filter fun e => ShvDescr.isKnownTag e.1 ∧ e.1 ≠ ascii "deviceType" := by
  have htags : RpcMap.hasKey (v.asMap.filter fun e =>
      ShvDescr.isKnownTag e.1 ∧ e.1 ≠ ascii "deviceType") "tags" = false := by
    rw [RpcMap.hasKey, @find?_filter_keys v.asMap
      (fun key => ShvDescr.isKnownTag key ∧ key ≠ ascii "deviceType"),
      if_neg (by decide)]
    rfl
  have hmerge : (ShvDescr.propertyFromRpcValue v).1.m_data.asMap = ShvDescr.mergeTags
      (v.asMap.filter fun e => ShvDescr.isKnownTag e.1 ∧ e.1 ≠ ascii "deviceType") := rfl
  rw [hmerge, ShvDescr.mergeTags, htags]
  rfl

theorem dataValue_property (v : RpcValue) (key : String) :
    (ShvDescr.propertyFromRpcValue v).1.dataValue key =
      if ShvDescr.isKnownTag (ascii key) ∧ ascii key ≠ ascii "deviceType" then v.asMap.get key
      else .invalid := by
  rw [ShvDescr.dataValue, asMap_propertyFromRpcValue, RpcMap.get, RpcMap.valueOr,
    @find?_filter_keys v.asMap
      (fun key => ShvDescr.isKnownTag key ∧ key ≠ ascii "deviceType")]
  simp only [decide_eq_true_eq]
  split
  · rfl
  · rfl

theorem dataValue_setName (hmap : d.m_data.isMap = true) (n : Bytes) {key : String}
    (h : ascii key ≠ ascii "name") : (d.setName n).dataValue key = d.dataValue key := by
  rw [ShvDescr.setName, ShvDescr.setDataValue, if_pos hmap]
  exact get_setValue_of_ne h _

theorem isMap_property (v : RpcValue) : (ShvDescr.propertyFromRpcValue v).1.m_data.isMap = true := rfl

theorem typeName_of_visitNode {node : RpcValue} {device_type device_path property_path : Bytes}
    {device_description : ShvDeviceDescription} {visit : NodeVisit}
    (h : ti.visitNode node device_type device_path property_path device_description = .ok visit) :
    visit.property_descr.typeName = .ok (typeNameTag node) := by
  rw [visitNode] at h
  cases hmethods : ti.takeMethods property_path (node.metaValue (ascii "methods")).asList with
  | error e =>
    rw [hmethods] at h
    cases h
  | ok r =>
    obtain ⟨ti', property_methods⟩ := r
    rw [hmethods] at h
    simp only [bind, Except.bind] at h
    generalize hmap : (if property_methods = [] then
        SortedMap.erase (ascii "createFromTypeName") (nodeTags node)
      else SortedMap.insert (ascii "methods") (RpcValue.ofVariant (.list property_methods))
        (SortedMap.erase (ascii "createFromTypeName") (nodeTags node))) = map at h
    have hget : RpcMap.get map "typeName" = (nodeTags node).get "typeName" := by
      have herase : RpcMap.get (SortedMap.erase (ascii "createFromTypeName") (nodeTags node))
          "typeName" = (nodeTags node).get "typeName" :=
        congrArg (Option.getD · _) (SortedMap.find?_erase_of_ne (by decide) _)
      rw [← hmap]
      split
      · exact herase
      · exact (congrArg (Option.getD · _) (SortedMap.find?_insert_of_ne (by decide) _ _)).trans herase
    split at h
    · rename_i hnil
      obtain rfl := Except.ok.inj h
      rw [hnil] at hget
      rw [typeNameTag, ← hget]
      exact typeName_of_type_none rfl
    · obtain rfl := Except.ok.inj h
      have hdescr : ∀ key, ascii key ≠ ascii "name" →
          (if (ShvDescr.propertyFromRpcValue (.ofVariant (.map map))).1.isValid then
            (ShvDescr.propertyFromRpcValue (.ofVariant (.map map))).1.setName
              (if ((nodeTags node).get "deviceType").asString = [] then
                (device_type, device_path, property_path, device_description)
              else (((nodeTags node).get "deviceType").asString,
                joinPath device_path property_path, [], ShvDeviceDescription.empty)).2.2.1
          else (ShvDescr.propertyFromRpcValue (.ofVariant (.map map))).1).dataValue key =
            (ShvDescr.propertyFromRpcValue (.ofVariant (.map map))).1.dataValue key := by
        intro key hkey
        split
        · exact dataValue_setName (isMap_property _) _ hkey
        · rfl
      simp only
      rw [typeName_of_type_none]
      · rw [hdescr _ (by decide), dataValue_property, if_pos (by decide), typeNameTag, ← hget]
        rfl
      · rw [hdescr _ (by decide), dataValue_property, if_neg (by decide)]

variable {node_types : RpcMap} {node : RpcValue}

theorem done_fromNodesTreeHelper {n : Nat} (h : Depth (nodeCalls node_types) n node)
    (ti : ShvTypeInfo) (device_type device_path property_path : Bytes)
    (device_description : Option ShvDeviceDescription) :
    Done (fromNodesTreeHelper node_types n ti node device_type device_path property_path
      device_description) := by
  induction n generalizing node ti device_type device_path property_path device_description with
  | zero => exact absurd h id
  | succ n ih =>
    rw [fromNodesTreeHelper]
    rw [Depth, nodeCalls] at h
    split
    · exact done_pure _
    · rename_i hvalid
      rw [if_neg hvalid] at h
      split
      · rename_i href
        rw [if_pos href] at h
        exact ih (h _ List.mem_cons_self) _ _ _ _ _
      · rename_i href
        rw [if_neg href] at h
        refine done_bind (done_ofExcept _) fun visit hvisit => ?_
        refine done_bind (done_ofExcept _) fun name hname => ?_
        obtain rfl : typeNameTag node = name := Except.ok.inj
          ((typeName_of_visitNode (returns_ofExcept hvisit)).symm.trans (returns_ofExcept hname))
        refine done_bind (done_foldlM (fun child hchild acc => ?_) _) fun r _ => ?_
        · exact done_bind (ih (h _ (List.mem_map_of_mem hchild)) _ _ _ _ _) fun _ _ => done_pure _
        · simp only
          split
          · exact done_pure _
          · exact done_pure _

theorem depth_of_returns_helper {n : Nat} {ti : ShvTypeInfo}
    {device_type device_path property_path : Bytes}
    {device_description : Option ShvDeviceDescription}
    {r : ShvTypeInfo × Option ShvDeviceDescription}
    (h : Returns (fromNodesTreeHelper node_types n ti node device_type device_path property_path
      device_description) r) : Depth (nodeCalls node_types) n node := by
  induction n generalizing node ti device_type device_path property_path device_description r with
  | zero => exact absurd h not_returns_more
  | succ n ih =>
    rw [fromNodesTreeHelper] at h
    rw [Depth, nodeCalls]
    split
    · exact List.forall_mem_nil _
    · rename_i hvalid
      rw [if_neg hvalid] at h
      split
      · rename_i href
        rw [if_pos href] at h
        exact List.forall_mem_singleton.mpr (ih h)
      · rename_i href
        rw [if_neg href] at h
        obtain ⟨visit, hvisit, h⟩ := returns_bind h
        obtain ⟨name, hname, h⟩ := returns_bind h
        obtain rfl : typeNameTag node = name := Except.ok.inj
          ((typeName_of_visitNode (returns_ofExcept hvisit)).symm.trans (returns_ofExcept hname))
        obtain ⟨r', hloop, -⟩ := returns_bind h
        intro y hy
        obtain ⟨child, hchild, rfl⟩ := List.mem_map.mp hy
        obtain ⟨s₁, s₂, hround⟩ := returns_foldlM hloop child hchild
        obtain ⟨r₁, hr₁, -⟩ := returns_bind hround
        exact ih hr₁

/-- The values of a map. -/
def mapValues (v : RpcValue) : List RpcValue := v.asMap.map (·.2)

theorem ends_mapValues (v : RpcValue) : Ends mapValues v := by
  induction hsize : sizeOf v using Nat.strong_induction_on generalizing v with
  | _ n ih =>
    refine ends_of_calls fun y hy => ?_
    obtain ⟨e, he, rfl⟩ := List.mem_map.mp hy
    exact ih _ (hsize ▸ sizeOf_lt_of_mem_asMap he) _ rfl

/-- A node that is visited is below the root, below a node type, or no node. -/
theorem below_of_reachable {root y : RpcValue}
    (h : Relation.ReflTransGen (Calls (nodeCalls node_types)) root y) :
    ∃ s ∈ root :: .invalid :: node_types.map (·.2), Relation.ReflTransGen (Calls mapValues) s y := by
  induction h with
  | refl => exact ⟨root, List.mem_cons_self, Relation.ReflTransGen.refl⟩
  | @tail y z _ hz ih =>
    obtain ⟨s, hs, hsy⟩ := ih
    rw [Calls, nodeCalls] at hz
    split at hz
    · exact absurd hz List.not_mem_nil
    · split at hz
      · obtain rfl := List.mem_singleton.mp hz
        refine ⟨_, List.mem_cons_of_mem _ ?_, Relation.ReflTransGen.refl⟩
        rw [RpcMap.valueOr]
        cases hfind : SortedMap.find? (nodeTypeRef y) node_types with
        | none => exact List.mem_cons_self
        | some v =>
          exact List.mem_cons_of_mem _ (List.mem_map_of_mem (SortedMap.mem_of_find? hfind))
      · refine ⟨s, hs, hsy.tail ?_⟩
        obtain ⟨e, he, rfl⟩ := List.mem_map.mp hz
        have hmem := List.mem_of_mem_filter he
        split at hmem
        · exact List.mem_map_of_mem hmem
        · exact absurd hmem List.not_mem_nil

theorem acyclic_nodes_ends (h : Acyclic (nodeCalls node_types) node) :
    Ends (nodeCalls node_types) node := by
  have hall : ∀ ss : List RpcValue, ∃ l : List RpcValue, ∀ s ∈ ss, ∀ y,
      Relation.ReflTransGen (Calls mapValues) s y → y ∈ l := fun ss => by
    induction ss with
    | nil => exact ⟨[], List.forall_mem_nil _⟩
    | cons s ss ih =>
      obtain ⟨l, hl⟩ := (ends_mapValues s).exists_list
      obtain ⟨l', hl'⟩ := ih
      refine ⟨l ++ l', List.forall_mem_cons.mpr ⟨fun y hy => ?_, fun s' hs' y hy => ?_⟩⟩
      · exact List.mem_append_left _ (hl y hy)
      · exact List.mem_append_right _ (hl' s' hs' y hy)
  obtain ⟨l, hl⟩ := hall (node :: .invalid :: node_types.map (·.2))
  refine h.ends (l := l) fun y hy => ?_
  obtain ⟨s, hs, hsy⟩ := below_of_reachable hy
  exact hl s hs y hsy

/-! ## documents -/

/-- A document that is read as a tree of nodes. -/
def IsNodesTree (v : RpcValue) : Prop :=
  ∃ version, (v.metaValue (ascii "version")).toInt = .ok version ∧ ¬ (version = 3 ∨ version = 4) ∧
    ¬ (v.asMap.hasKey "paths" = true ∧ v.asMap.hasKey "types" = true)

/-- No node of a tree leads back to itself. -/
def TreeAcyclic (v : RpcValue) : Prop :=
  IsNodesTree v → Acyclic (nodeCalls (v.metaValue (ascii "nodeTypes")).asMap) v

theorem fromRpcValue_spec {v : RpcValue} :
    (TreeAcyclic v → ∃ n, Done (fromRpcValue n v)) ∧
    ∀ n ti, Returns (fromRpcValue n v) ti → TreeAcyclic v := by
  constructor
  · intro h
    obtain ⟨n, hn⟩ : ∃ n, IsNodesTree v →
        Depth (nodeCalls (v.metaValue (ascii "nodeTypes")).asMap) n v := by
      by_cases htree : IsNodesTree v
      · obtain ⟨n, hn⟩ := acyclic_nodes_ends (h htree)
        exact ⟨n, fun _ => hn⟩
      · exact ⟨0, fun h => absurd h htree⟩
    refine ⟨n, ?_⟩
    rw [fromRpcValue]
    refine done_bind (done_ofExcept _) fun version hversion => ?_
    refine done_bind ?_ fun _ _ => done_pure _
    rw [fromVersion]
    split
    · exact done_ofExcept _
    · rename_i hversions
      split
      · exact done_ofExcept _
      · rename_i hpaths
        have hdepth := hn ⟨version, returns_ofExcept hversion, hversions, hpaths⟩
        rw [fromNodesTree]
        refine done_bind (done_ofExcept _) fun types _ => ?_
        exact done_bind (done_fromNodesTreeHelper hdepth _ _ _ _ _) fun _ _ => done_pure _
  · rintro n ti hreturns ⟨version, hversion, hversions, hpaths⟩
    rw [fromRpcValue] at hreturns
    obtain ⟨version', hversion', hreturns⟩ := returns_bind hreturns
    obtain rfl : version' = version :=
      Except.ok.inj ((returns_ofExcept hversion').symm.trans hversion)
    obtain ⟨ti', hti', -⟩ := returns_bind hreturns
    rw [fromVersion, if_neg hversions, if_neg hpaths, fromNodesTree] at hti'
    obtain ⟨types, -, hti'⟩ := returns_bind hti'
    obtain ⟨r, hr, -⟩ := returns_bind hti'
    exact Ends.acyclic ⟨n, depth_of_returns_helper hr⟩

/-- A run comes to an end if `acyclic` holds, and can only return then. -/
def EndsJustIf (run : Nat → Fueled String α) (acyclic : Prop) : Prop :=
  (acyclic → ∃ n, Done (run n)) ∧ ∀ n a, Returns (run n) a → acyclic

/-- A node of the type `a`. -/
def nodeOfTypeA : RpcValue :=
  .mk (.mk [] [(ascii "nodeTypeRef", text (ascii "a"))]) (.map [])

/-- The types of nodes: `a` is a node of the type `a`. -/
def circularTypes : RpcMap := [(ascii "a", nodeOfTypeA)]

/-- A tree that is such a node. -/
def circularTree : RpcValue :=
  .mk (.mk [] [(ascii "nodeTypeRef", text (ascii "a")),
    (ascii "nodeTypes", .ofVariant (.map circularTypes))]) (.map [])

theorem not_done_of_typeRef {n : Nat} {ti : ShvTypeInfo} {node : RpcValue}
    {device_type device_path property_path : Bytes}
    {device_description : Option ShvDeviceDescription} (hvalid : node.isValid = true)
    (href : nodeTypeRef node = ascii "a") :
    ¬ Done (fromNodesTreeHelper circularTypes n ti node device_type device_path property_path
      device_description) := by
  induction n generalizing node with
  | zero => exact not_done_more
  | succ n ih =>
    have hnext : circularTypes.valueOr (ascii "a") .invalid = nodeOfTypeA := rfl
    rw [fromNodesTreeHelper, if_neg (by simp [hvalid]),
      if_pos (by rw [href]; decide), href, hnext]
    exact ih rfl (by decide)

end ShvTypeInfo

end LibShv
