import LibShv.ShvTypeInfo.Termination

/-!
# LibShv.ShvTypeInfo.TypeDescr

The description of a type: the type itself is read from one of three keys, two of them obsolete,
and written under one.
-/

namespace LibShv

namespace ShvDescr

variable {d : ShvDescr}

/-! ## data -/

theorem asMap_setDataValue (d : ShvDescr) (key : String) (val : RpcValue) :
    (d.setDataValue key val).m_data.asMap = d.m_data.asMap.setValue key val := by
  rw [setDataValue]
  by_cases h : d.m_data.isMap = true
  · rw [if_pos h]
    rfl
  · have hnil : d.m_data.asMap = [] := by
      rw [RpcValue.isMap] at h
      rw [RpcValue.asMap]
      cases hv : d.m_data.value with
      | map m =>
        rw [hv] at h
        exact absurd rfl h
      | _ => rfl
    rw [if_neg h, hnil]
    rfl

theorem dataValue_setDataValue_self {val : RpcValue} (key : String) (h : val.isValid = true) :
    (d.setDataValue key val).dataValue key = val := by
  rw [dataValue, asMap_setDataValue, RpcMap.setValue, if_pos h, RpcMap.get, RpcMap.valueOr,
    SortedMap.find?_insert_self]
  rfl

theorem dataValue_setDataValue_of_ne {key key' : String} (h : ascii key' ≠ ascii key)
    (val : RpcValue) : (d.setDataValue key val).dataValue key' = d.dataValue key' := by
  rw [dataValue, asMap_setDataValue]
  exact ShvTypeInfo.get_setValue_of_ne h val

/-! ## the number of a type -/

theorem typeOfInt_intOfType (t : ShvType) :
    ShvTypeDescr.typeOfInt (ShvTypeDescr.intOfType t) = some t := by
  cases t <;> decide

theorem typeOfInt_eq_invalid_iff (n : Int32) :
    ShvTypeDescr.typeOfInt n = some .Invalid ↔ n = 0 := by
  constructor
  · intro h
    rw [ShvTypeDescr.typeOfInt] at h
    split at h
    · next hn =>
      have hpos := Int32.le_iff_toInt_le.1 hn
      have hlt : n.toInt.toNat = 0 := by
        rcases hk : n.toInt.toNat with _ | _ | _ | _ | _ | _ | _ | _ | _ | _ | _ | _ | _ | k
        · rfl
        all_goals rw [hk] at h; simp [ShvTypeDescr.names] at h
      apply Int32.toInt.inj
      rw [show (0 : Int32).toInt = 0 from rfl] at hpos ⊢
      omega
    · cases h
  · rintro rfl
    decide

/-- The number of a type, as it is stored. -/
def typeValue (t : ShvType) : RpcValue := .ofVariant (.int (ShvTypeDescr.intOfType t).toInt64)

theorem toInt_typeValue (t : ShvType) :
    (typeValue t).toInt = .ok (ShvTypeDescr.intOfType t) :=
  congrArg Except.ok (Int32.toInt32_toInt64 _)

theorem intOfType_eq_zero_iff (t : ShvType) : ShvTypeDescr.intOfType t = 0 ↔ t = .Invalid := by
  rw [← typeOfInt_eq_invalid_iff, typeOfInt_intOfType, Option.some.injEq]

theorem type_of_toInt {n : Int32} (h : (d.dataValue "type").toInt = .ok n) :
    d.type = .ok (ShvTypeDescr.typeOfInt n) := by
  rw [ShvDescr.type, h]
  rfl

/-! ## the name of a type sets the type -/

/-- A description after `setTypeName`. -/
theorem setTypeName_ok {n : Int32} (h : (d.dataValue "type").toInt = .ok n) (s : Bytes) :
    ∃ d', d.setTypeName s = .ok d' ∧
      d'.dataValue "type" =
        (if n = 0 then typeValue (ShvTypeDescr.typeFromString s) else d.dataValue "type") ∧
      d'.dataValue "typeName" = text s ∧
      ∀ key : String, ascii key ≠ ascii "typeName" → ascii key ≠ ascii "type" →
        d'.dataValue key = d.dataValue key := by
  have htype : (d.setDataValue "typeName" (text s)).type = .ok (ShvTypeDescr.typeOfInt n) :=
    type_of_toInt (by rw [dataValue_setDataValue_of_ne (by decide)]; exact h)
  rw [setTypeName]
  simp only [htype, bind, Except.bind, typeOfInt_eq_invalid_iff]
  by_cases hn : n = 0
  · refine ⟨_, congrArg Except.ok (if_pos hn), ?_, ?_, fun key h₁ h₂ => ?_⟩
    · rw [if_pos hn]
      exact dataValue_setDataValue_self "type" rfl
    · rw [setType, dataValue_setDataValue_of_ne (by decide)]
      exact dataValue_setDataValue_self "typeName" rfl
    · rw [setType, dataValue_setDataValue_of_ne h₂, dataValue_setDataValue_of_ne h₁]
  · refine ⟨_, congrArg Except.ok (if_neg hn), ?_, ?_, fun key h₁ _ => ?_⟩
    · rw [if_neg hn, dataValue_setDataValue_of_ne (by decide)]
    · exact dataValue_setDataValue_self "typeName" rfl
    · rw [dataValue_setDataValue_of_ne h₁]

theorem setTypeName_error {e : String} (h : (d.dataValue "type").toInt = .error e) (s : Bytes) :
    d.setTypeName s = .error e := by
  have htype : (d.setDataValue "typeName" (text s)).type = .error e := by
    rw [ShvDescr.type, dataValue_setDataValue_of_ne (by decide), h]
    rfl
  rw [setTypeName]
  simp only [htype, bind, Except.bind]

/-- `setTypeName` of the text under a key, if it is one and the type is not known yet. -/
theorem setObsoleteTypeName_ok (key : String) {n : Int32}
    (h : (d.dataValue "type").toInt = .ok n) :
    ∃ d', setObsoleteTypeName key d = .ok d' ∧
      d'.dataValue "type" = (if n = 0 ∧ (d.dataValue key).isString = true then
        typeValue (ShvTypeDescr.typeFromString (d.dataValue key).asString)
        else d.dataValue "type") ∧
      ∀ key' : String, ascii key' ≠ ascii "typeName" → ascii key' ≠ ascii "type" →
        d'.dataValue key' = d.dataValue key' := by
  rw [setObsoleteTypeName]
  simp only [type_of_toInt h, bind, Except.bind, typeOfInt_eq_invalid_iff]
  by_cases hkey : n = 0 ∧ (d.dataValue key).isString = true
  · obtain ⟨d', hd', htype, -, hother⟩ := setTypeName_ok h (d.dataValue key).asString
    rw [if_pos hkey.1] at htype
    exact ⟨d', (if_pos hkey).trans hd', htype.trans (if_pos hkey).symm, hother⟩
  · exact ⟨d, if_neg hkey, (if_neg hkey).symm, fun _ _ _ => rfl⟩

/-! ## the type that is read -/

/-- The basic type that a text names. -/
def textType (v : RpcValue) : ShvType :=
  if v.isString then ShvTypeDescr.typeFromString v.asString else .Invalid

/-- The first of the three keys that names a basic type names this one. -/
def firstNamed (m : RpcMap) : ShvType :=
  if textType (m.get "typeName") ≠ .Invalid then textType (m.get "typeName")
  else if textType (m.get "name") ≠ .Invalid then textType (m.get "name")
  else textType (m.get "type")

/-- What `fromRpcValue` makes of the three keys when there is no number under `type`: any text
under the first two hides the one under `type`, for the setter has written there. -/
def readText (m : RpcMap) : ShvType :=
  if textType (m.get "typeName") ≠ .Invalid then textType (m.get "typeName")
  else if textType (m.get "name") ≠ .Invalid then textType (m.get "name")
  else if (m.get "typeName").isString ∨ (m.get "name").isString then .Invalid
  else textType (m.get "type")

/-- The type that is read, `n` the number under `type`. -/
def readType (m : RpcMap) (n : Int32) : Option ShvType :=
  if n = 0 then some (readText m) else ShvTypeDescr.typeOfInt n

theorem isString_typeValue (t : ShvType) : (typeValue t).isString = false := rfl

/-- The number that stands under `type`, once a text may have been put in its place. -/
theorem toInt_ite {p : Prop} [Decidable p] {t : ShvType} {v : RpcValue} {n : Int32}
    (h : v.toInt = .ok n) : (if p then typeValue t else v).toInt =
      .ok (if p then ShvTypeDescr.intOfType t else n) := by
  split
  · exact toInt_typeValue t
  · exact h

/-- The three steps of `fromRpcValue` on the number under `type`. -/
theorem readType_eq (m : RpcMap) (n : Int32) :
    (let tn := m.get "typeName"
    let nm := m.get "name"
    let ty := m.get "type"
    let number (v : RpcValue) :=
      ShvTypeDescr.intOfType (ShvTypeDescr.typeFromString v.asString)
    let n₁ := if n = 0 ∧ tn.isString = true then number tn else n
    let n₂ := if n₁ = 0 ∧ nm.isString = true then number nm else n₁
    let v₁ := if n = 0 ∧ tn.isString = true then
      typeValue (ShvTypeDescr.typeFromString tn.asString) else ty
    let v₂ := if n₁ = 0 ∧ nm.isString = true then
      typeValue (ShvTypeDescr.typeFromString nm.asString) else v₁
    ShvTypeDescr.typeOfInt (if n₂ = 0 ∧ v₂.isString = true then number v₂ else n₂)) =
      readType m n := by
  dsimp only
  by_cases hn : n = 0
  · subst hn
    rw [readType, if_pos rfl, readText, textType, textType, textType]
    have hzero : ShvTypeDescr.typeOfInt 0 = some .Invalid := rfl
    by_cases htn : (m.get "typeName").isString = true
    · by_cases ha : ShvTypeDescr.typeFromString (m.get "typeName").asString = .Invalid
      · -- the first text names no type, and the setter has written over the third
        by_cases hnm : (m.get "name").isString = true
        · by_cases hb : ShvTypeDescr.typeFromString (m.get "name").asString = .Invalid <;>
            simp [htn, ha, hnm, hb, isString_typeValue, intOfType_eq_zero_iff,
              typeOfInt_intOfType]
        · simp [htn, ha, hnm, isString_typeValue, intOfType_eq_zero_iff,
            typeOfInt_intOfType]
      · simp [htn, ha, isString_typeValue, intOfType_eq_zero_iff, typeOfInt_intOfType]
    · by_cases hnm : (m.get "name").isString = true
      · by_cases hb : ShvTypeDescr.typeFromString (m.get "name").asString = .Invalid <;>
          simp [htn, hnm, hb, isString_typeValue, intOfType_eq_zero_iff,
            typeOfInt_intOfType]
      · by_cases hty : (m.get "type").isString = true <;>
          simp [htn, hnm, hty, typeOfInt_intOfType, hzero]
  · rw [readType, if_neg hn]
    simp [hn]

/-- The first key. -/
def readTypeName (d : ShvDescr) : Except String ShvDescr :=
  if (d.dataValue "typeName").isString then d.setTypeName (d.dataValue "typeName").asString
  else pure d

/-- The three keys, one after the other. -/
def readKeys (d : ShvDescr) : Except String ShvDescr := do
  let d ← d.readTypeName
  let d ← setObsoleteTypeName "name" d
  setObsoleteTypeName "type" d

theorem readKeys_ok {n : Int32} (h : (d.dataValue "type").toInt = .ok n) :
    ∃ d', d.readKeys = .ok d' ∧ d'.type = .ok (readType d.m_data.asMap n) ∧
      ∀ key : String, ascii key ≠ ascii "typeName" → ascii key ≠ ascii "type" →
        d'.dataValue key = d.dataValue key := by
  obtain ⟨d₁, hd₁, htype₁, hother₁⟩ : ∃ d₁, d.readTypeName = .ok d₁ ∧
      d₁.dataValue "type" = (if n = 0 ∧ (d.dataValue "typeName").isString = true then
        typeValue (ShvTypeDescr.typeFromString (d.dataValue "typeName").asString)
        else d.dataValue "type") ∧
      ∀ key : String, ascii key ≠ ascii "typeName" → ascii key ≠ ascii "type" →
        d₁.dataValue key = d.dataValue key := by
    by_cases hstring : (d.dataValue "typeName").isString = true
    · obtain ⟨d₁, hd₁, htype₁, -, hother₁⟩ := setTypeName_ok h (d.dataValue "typeName").asString
      exact ⟨d₁, (if_pos hstring).trans hd₁, by rw [htype₁]; simp only [hstring, and_true],
        hother₁⟩
    · exact ⟨d, if_neg hstring, (if_neg fun h' => hstring h'.2).symm, fun _ _ _ => rfl⟩
  have hn₁ := congrArg RpcValue.toInt htype₁
  rw [toInt_ite h] at hn₁
  obtain ⟨d₂, hd₂, htype₂, hother₂⟩ := setObsoleteTypeName_ok "name" hn₁
  have hn₂ := congrArg RpcValue.toInt htype₂
  rw [toInt_ite hn₁] at hn₂
  obtain ⟨d₃, hd₃, htype₃, hother₃⟩ := setObsoleteTypeName_ok "type" hn₂
  have hn₃ := congrArg RpcValue.toInt htype₃
  rw [toInt_ite hn₂] at hn₃
  refine ⟨d₃, ?_, ?_, fun key h₁ h₂ => ?_⟩
  · rw [readKeys, hd₁]
    simp only [bind, Except.bind, hd₂, hd₃]
  · rw [type_of_toInt hn₃, htype₂, htype₁, hother₁ "name" (by decide) (by decide)]
    refine congrArg Except.ok ?_
    exact readType_eq d.m_data.asMap n
  · rw [hother₃ key h₁ h₂, hother₂ key h₁ h₂, hother₁ key h₁ h₂]

theorem readKeys_error {e : String} (h : (d.dataValue "type").toInt = .error e) :
    d.readKeys = .error e := by
  rw [readKeys, readTypeName]
  by_cases hstring : (d.dataValue "typeName").isString = true
  · rw [if_pos hstring, setTypeName_error h]
    rfl
  · have htype : d.type = .error e := by
      rw [ShvDescr.type, h]
      rfl
    rw [if_neg hstring]
    simp only [bind, Except.bind, pure, Except.pure, setObsoleteTypeName, htype]

/-! ## `fromRpcValue` -/

/-- The data with the tags merged in. -/
def mergedData (v : RpcValue) : RpcMap := mergeTags (SortedMap.erase (ascii "fields") v.asMap)

/-- The description before its keys are read. -/
def readData (v : RpcValue) : ShvDescr :=
  ⟨.ofVariant (.map (SortedMap.insert (ascii "fields")
    (.ofVariant (.list ((v.asMap.get "fields").asList.map fun rv =>
      RpcValue.ofVariant (.map (mergeTags rv.asMap))))) (mergedData v)))⟩

theorem dataValue_readData {key : String} (h : ascii key ≠ ascii "fields") (v : RpcValue) :
    (readData v).dataValue key = (mergedData v).get key :=
  congrArg (Option.getD · RpcValue.invalid) (SortedMap.find?_insert_of_ne h _ _)

theorem dataValue_readData_fields (v : RpcValue) : (readData v).dataValue "fields" =
    .ofVariant (.list ((v.asMap.get "fields").asList.map fun rv =>
      RpcValue.ofVariant (.map (mergeTags rv.asMap)))) :=
  congrArg (Option.getD · RpcValue.invalid) (SortedMap.find?_insert_self _ _ _)

/-- The end of `fromRpcValue`: the sample type. -/
def readSampleType (d : ShvDescr) : Except String ShvDescr := do
  let d := if (d.dataValue "sampleType").isString then
      d.setDataValue "sampleType"
        (.ofVariant (.int (sampleTypeFromString (d.dataValue "sampleType").asString)))
    else d
  if d.isValid then
    let _ ← (d.dataValue "sampleType").toInt
    pure d
  else pure d

theorem typeFromRpcValue_eq (v : RpcValue) :
    typeFromRpcValue v = (readData v).readKeys >>= readSampleType := by
  rw [readKeys, bind_assoc, readTypeName]
  simp only [bind_assoc]
  change (if ((readData v).dataValue "typeName").isString = true then _ else _) = _
  by_cases h : ((readData v).dataValue "typeName").isString = true
  · rw [if_pos h, if_pos h]
    rfl
  · rw [if_neg h, if_neg h]
    rfl

/-- The sample type as it is stored in place of a text. -/
def sampleValue (v : RpcValue) : RpcValue :=
  if v.isString then .ofVariant (.int (sampleTypeFromString v.asString)) else v

theorem sampleType_set (d : ShvDescr) :
    (if (d.dataValue "sampleType").isString then
      d.setDataValue "sampleType"
        (.ofVariant (.int (sampleTypeFromString (d.dataValue "sampleType").asString)))
      else d).dataValue "sampleType" = sampleValue (d.dataValue "sampleType") := by
  rw [sampleValue]
  split
  · exact dataValue_setDataValue_self "sampleType" rfl
  · rfl

theorem dataValue_sampleType_set {key : String} (h : ascii key ≠ ascii "sampleType")
    (d : ShvDescr) :
    (if (d.dataValue "sampleType").isString then
      d.setDataValue "sampleType"
        (.ofVariant (.int (sampleTypeFromString (d.dataValue "sampleType").asString)))
      else d).dataValue key = d.dataValue key := by
  split
  · exact dataValue_setDataValue_of_ne h _
  · rfl

theorem readSampleType_ok {i : Int32}
    (h : (sampleValue (d.dataValue "sampleType")).toInt = .ok i) :
    ∃ d', readSampleType d = .ok d' ∧
      d'.dataValue "sampleType" = sampleValue (d.dataValue "sampleType") ∧
      ∀ key : String, ascii key ≠ ascii "sampleType" → d'.dataValue key = d.dataValue key := by
  refine ⟨_, ?_, sampleType_set d, fun key hkey => dataValue_sampleType_set hkey d⟩
  rw [← sampleType_set d] at h
  rw [readSampleType]
  simp only [h, bind, Except.bind]
  exact ite_self _

theorem isValid_of_dataValue {key : String} (h : (d.dataValue key).isValid = true) :
    d.isValid = true := by
  refine decide_eq_true fun hnil => ?_
  rw [dataValue, hnil] at h
  exact Bool.false_ne_true h

theorem readSampleType_error {e : String} (hfields : (d.dataValue "fields").isValid = true)
    (h : (sampleValue (d.dataValue "sampleType")).toInt = .error e) :
    readSampleType d = .error e := by
  have hvalid := isValid_of_dataValue
    ((congrArg RpcValue.isValid (dataValue_sampleType_set (by decide) d)).trans hfields)
  rw [← sampleType_set d] at h
  rw [readSampleType]
  simp only [h, bind, Except.bind]
  exact if_pos hvalid

theorem readType_congr {m m' : RpcMap} (htn : m.get "typeName" = m'.get "typeName")
    (hnm : m.get "name" = m'.get "name") (hty : m.get "type" = m'.get "type") (n : Int32) :
    readType m n = readType m' n := by
  rw [readType, readType, readText, readText, htn, hnm, hty]

/-- A description that `fromRpcValue` makes. -/
theorem typeFromRpcValue_ok {v : RpcValue} {n i : Int32}
    (htype : ((mergedData v).get "type").toInt = .ok n)
    (hsample : (sampleValue ((mergedData v).get "sampleType")).toInt = .ok i) :
    ∃ d, typeFromRpcValue v = .ok d ∧ d.type = .ok (readType (mergedData v) n) ∧
      d.dataValue "fields" = .ofVariant (.list ((v.asMap.get "fields").asList.map fun rv =>
        RpcValue.ofVariant (.map (mergeTags rv.asMap)))) ∧
      d.dataValue "sampleType" = sampleValue ((mergedData v).get "sampleType") := by
  obtain ⟨d₁, hd₁, htype₁, hother₁⟩ := readKeys_ok
    ((congrArg RpcValue.toInt (dataValue_readData (by decide) v)).trans htype)
  have hsample₁ := (hother₁ "sampleType" (by decide) (by decide)).trans
    (dataValue_readData (by decide) v)
  obtain ⟨d₂, hd₂, hsample₂, hother₂⟩ := readSampleType_ok (d := d₁) (by rw [hsample₁]; exact hsample)
  refine ⟨d₂, ?_, ?_, ?_, ?_⟩
  · rw [typeFromRpcValue_eq, hd₁]
    exact hd₂
  · rw [ShvDescr.type, hother₂ "type" (by decide)]
    refine htype₁.trans (congrArg Except.ok (readType_congr ?_ ?_ ?_ n)) <;>
      exact dataValue_readData (by decide) v
  · rw [hother₂ "fields" (by decide), hother₁ "fields" (by decide) (by decide),
      dataValue_readData_fields]
  · rw [hsample₂, hsample₁]

theorem typeFromRpcValue_type_iff (v : RpcValue) (t : Option ShvType) :
    (∃ d, typeFromRpcValue v = .ok d ∧ d.type = .ok t) ↔
      ∃ n i, ((mergedData v).get "type").toInt = .ok n ∧
        (sampleValue ((mergedData v).get "sampleType")).toInt = .ok i ∧
        readType (mergedData v) n = t := by
  constructor
  · rintro ⟨d, hd, ht⟩
    cases htype : ((mergedData v).get "type").toInt with
    | error e =>
      rw [typeFromRpcValue_eq, readKeys_error
        ((congrArg RpcValue.toInt (dataValue_readData (by decide) v)).trans htype)] at hd
      cases hd
    | ok n =>
      cases hsample : (sampleValue ((mergedData v).get "sampleType")).toInt with
      | error e =>
        obtain ⟨d₁, hd₁, -, hother₁⟩ := readKeys_ok
          ((congrArg RpcValue.toInt (dataValue_readData (by decide) v)).trans htype)
        have hsample₁ := (hother₁ "sampleType" (by decide) (by decide)).trans
          (dataValue_readData (by decide) v)
        rw [typeFromRpcValue_eq, hd₁] at hd
        rw [← hsample₁] at hsample
        have herr := readSampleType_error (d := d₁) (by
          rw [hother₁ "fields" (by decide) (by decide), dataValue_readData_fields]
          rfl) hsample
        exact absurd (herr.symm.trans hd) fun h => by cases h
      | ok i =>
        obtain ⟨d', hd', ht', -⟩ := typeFromRpcValue_ok htype hsample
        obtain rfl := Except.ok.inj (hd'.symm.trans hd)
        exact ⟨n, i, rfl, rfl, Except.ok.inj (ht'.symm.trans ht)⟩
  · rintro ⟨n, i, htype, hsample, rfl⟩
    obtain ⟨d, hd, ht, -⟩ := typeFromRpcValue_ok htype hsample
    exact ⟨d, hd, ht⟩

/-! ## writing -/

/-- `ShvTypeDescr::SampleType`. -/
inductive SampleType where
  | Invalid | Continuous | Discrete
deriving DecidableEq

def SampleType.toInt : SampleType → Int64
  | Invalid => 0 | Continuous => 1 | Discrete => 2

/-- `sampleType`, as its number. -/
def sampleType (d : ShvDescr) : Except String Int32 :=
  (fun i => if i = 0 then 1 else i) <$> (d.dataValue "sampleType").toInt

def setSampleType (d : ShvDescr) (st : SampleType) : ShvDescr :=
  d.setDataValue "sampleType" (.ofVariant (.int st.toInt))

/-- `ShvFieldDescr::toRpcValue`. -/
def fieldToRpcValue (field : ShvDescr) : RpcValue :=
  if field.description = [] ∧ field.m_data.isMap = true then
    (field.setDataValue "description" .invalid).m_data
  else field.m_data

def setFields (d : ShvDescr) (fields : List ShvDescr) : ShvDescr :=
  d.setDataValue "fields" (.ofVariant (.list (fields.map fieldToRpcValue)))

/-- `sampleTypeToString`. -/
def sampleTypeToString (st : Int32) : Bytes :=
  if st = 2 then ascii "Discrete" else if st = 1 then ascii "Continuous" else []

/-- The map that `ShvTypeDescr::toRpcValue` builds. -/
def writtenMap (d : ShvDescr) (type_name : Bytes) (st : Int32) : RpcMap :=
  let map := SortedMap.insert (ascii "typeName") (text type_name) d.m_data.asMap
  let map := RpcMap.setValue map "name" .invalid
  let map := map.setValue "type" .invalid
  map.setValue "sampleType"
    (if st = 0 ∨ st = 1 then .invalid else text (sampleTypeToString st))

/-- `ShvTypeDescr::toRpcValue`; a list of fields that is empty goes, too. -/
def toRpcValue (d : ShvDescr) : Except String RpcValue := do
  let map := d.writtenMap (← d.typeName) (← d.sampleType)
  pure (.ofVariant (.map
    (if map.hasKey "fields" ∧ (map.get "fields").asList = [] then
      SortedMap.erase (ascii "fields") map
    else map)))

/-- A description made by the constructors and the setters of `ShvTypeDescr`. -/
inductive Made : ShvDescr → Prop
  | default : Made ⟨.invalid⟩
  | ofType (t : ShvType) (flds : List ShvDescr) (st : SampleType) (tags : RpcMap)
      (htags : SortedMap.Sorted tags) :
      Made ((((ShvDescr.mk (.ofVariant (.map tags))).setType t).setFields flds).setSampleType st)
  | setType {d : ShvDescr} (h : Made d) (t : ShvType) : Made (d.setType t)
  | setTypeName {d d' : ShvDescr} (h : Made d) (type_name : Bytes)
      (hd' : d.setTypeName type_name = .ok d') : Made d'
  | setFields {d : ShvDescr} (h : Made d) (flds : List ShvDescr) : Made (d.setFields flds)
  | setSampleType {d : ShvDescr} (h : Made d) (st : SampleType) : Made (d.setSampleType st)
  | setOther {d : ShvDescr} (h : Made d) (key : String) (val : RpcValue)
      (hkey : key ∈ ["decPlaces", "unit", "label", "description", "visualStyle"]) :
      Made (d.setDataValue key val)

/-- The constructor from a name. -/
theorem made_ofTypeName (type_name : Bytes) : Made (ofTypeName type_name) :=
  .ofType _ [] .Continuous [] SortedMap.sorted_nil

/-- What holds of the data of a description that was made. -/
structure Ready (d : ShvDescr) : Prop where
  sorted : SortedMap.Sorted d.m_data.asMap
  type_number : ∃ t, (d.dataValue "type").toInt = .ok (ShvTypeDescr.intOfType t)
  sample_number : ∃ i : Int32, (d.dataValue "sampleType").toInt = .ok i ∧ (i = 0 ∨ i = 1 ∨ i = 2)

theorem sorted_setDataValue (h : SortedMap.Sorted d.m_data.asMap) (key : String)
    (val : RpcValue) : SortedMap.Sorted (d.setDataValue key val).m_data.asMap := by
  rw [asMap_setDataValue, RpcMap.setValue]
  split
  · exact SortedMap.sorted_insert h
  · exact SortedMap.sorted_erase h

theorem Ready.setDataValue (h : Ready d) (key : String) (htype : ascii "type" ≠ ascii key)
    (hsample : ascii "sampleType" ≠ ascii key) (val : RpcValue) :
    Ready (d.setDataValue key val) where
  sorted := sorted_setDataValue h.sorted key val
  type_number := by
    rw [dataValue_setDataValue_of_ne htype]
    exact h.type_number
  sample_number := by
    rw [dataValue_setDataValue_of_ne hsample]
    exact h.sample_number

theorem type_number_setType (d : ShvDescr) (t : ShvType) :
    ((d.setType t).dataValue "type").toInt = .ok (ShvTypeDescr.intOfType t) := by
  rw [setType, dataValue_setDataValue_self "type" rfl]
  exact toInt_typeValue t

theorem sample_number_setSampleType (d : ShvDescr) (st : SampleType) :
    ∃ i : Int32, ((d.setSampleType st).dataValue "sampleType").toInt = .ok i ∧
      (i = 0 ∨ i = 1 ∨ i = 2) := by
  rw [setSampleType, dataValue_setDataValue_self "sampleType" rfl]
  cases st with
  | Invalid => exact ⟨0, rfl, Or.inl rfl⟩
  | Continuous => exact ⟨1, rfl, Or.inr (Or.inl rfl)⟩
  | Discrete => exact ⟨2, rfl, Or.inr (Or.inr rfl)⟩

theorem Ready.setType (h : Ready d) (t : ShvType) : Ready (d.setType t) where
  sorted := sorted_setDataValue h.sorted _ _
  type_number := ⟨t, type_number_setType d t⟩
  sample_number := by
    rw [ShvDescr.setType, dataValue_setDataValue_of_ne (by decide)]
    exact h.sample_number

theorem Ready.setTypeName {d' : ShvDescr} (h : Ready d) {type_name : Bytes}
    (hd' : d.setTypeName type_name = .ok d') : Ready d' := by
  have hset := h.setDataValue "typeName" (by decide) (by decide) (text type_name)
  obtain ⟨t, ht⟩ := hset.type_number
  rw [ShvDescr.setTypeName, type_of_toInt ht] at hd'
  simp only [bind, Except.bind] at hd'
  split at hd'
  · obtain rfl := Except.ok.inj hd'
    exact hset.setType _
  · obtain rfl := Except.ok.inj hd'
    exact hset

theorem Made.ready (h : Made d) : Ready d := by
  induction h with
  | default => exact ⟨SortedMap.sorted_nil, ⟨.Invalid, rfl⟩, ⟨0, rfl, Or.inl rfl⟩⟩
  | ofType t flds st tags htags =>
    have hsorted : SortedMap.Sorted (ShvDescr.mk (.ofVariant (.map tags))).m_data.asMap := htags
    refine ⟨sorted_setDataValue (sorted_setDataValue (sorted_setDataValue hsorted _ _) _ _) _ _,
      ⟨t, ?_⟩, sample_number_setSampleType _ st⟩
    rw [ShvDescr.setSampleType, dataValue_setDataValue_of_ne (by decide), ShvDescr.setFields,
      dataValue_setDataValue_of_ne (by decide)]
    exact type_number_setType _ t
  | setType _ t ih => exact ih.setType t
  | setTypeName _ type_name hd' ih => exact ih.setTypeName hd'
  | setFields _ flds ih => exact ih.setDataValue _ (by decide) (by decide) _
  | @setSampleType d _ st ih =>
    refine ⟨sorted_setDataValue ih.sorted _ _, ?_, sample_number_setSampleType _ st⟩
    rw [ShvDescr.setSampleType, dataValue_setDataValue_of_ne (by decide)]
    exact ih.type_number
  | setOther _ key val hkey ih =>
    have hne : ascii "type" ≠ ascii key ∧ ascii "sampleType" ≠ ascii key := by
      revert hkey
      revert key
      decide
    exact ih.setDataValue _ hne.1 hne.2 val

/-! ## what is read back -/

theorem find?_merge (k : Bytes) (m m' : RpcMap) :
    SortedMap.find? k (RpcMap.merge m m') = (SortedMap.find? k m).or (SortedMap.find? k m') := by
  rw [RpcMap.merge]
  induction m' generalizing m with
  | nil => rw [List.foldl_nil, SortedMap.find?, Option.or_none]
  | cons e m' ih =>
    obtain ⟨k', v⟩ := e
    rw [List.foldl_cons, ih]
    by_cases hk : k = k'
    · subst hk
      cases hfind : SortedMap.find? k m with
      | some x => simp [hfind]
      | none => simp [SortedMap.find?]
    · have hcmp : compare k k' ≠ .eq := fun h => hk (Std.LawfulEqOrd.eq_of_compare h)
      rw [SortedMap.find?, if_neg hcmp]
      split
      · rfl
      · rw [SortedMap.find?_insert_of_ne hk]

/-- A key of the tags is read where the map has none itself. -/
theorem find?_mergeTags {k : Bytes} (h : k ≠ ascii "tags") (m : RpcMap) :
    SortedMap.find? k (mergeTags m) =
      (SortedMap.find? k m).or (SortedMap.find? k (m.get "tags").asMap) := by
  rw [mergeTags]
  by_cases htags : m.hasKey "tags" = true
  · rw [if_pos htags, find?_merge, SortedMap.find?_erase_of_ne h]
  · have hnone : SortedMap.find? (ascii "tags") m = none := by
      rw [RpcMap.hasKey, Option.isSome_iff_ne_none, not_not] at htags
      exact htags
    have hnil : (m.get "tags").asMap = [] := by
      rw [RpcMap.get, RpcMap.valueOr, hnone]
      rfl
    rw [if_neg htags, hnil, SortedMap.find?, Option.or_none]

/-- The tags within the data. -/
def nestedTags (d : ShvDescr) : RpcMap := (d.dataValue "tags").asMap

section Written

variable {type_name : Bytes} {st : Int32}

theorem find?_setValue_invalid_self {m : RpcMap} (h : SortedMap.Sorted m) (key : String) :
    SortedMap.find? (ascii key) (m.setValue key .invalid) = none :=
  SortedMap.find?_erase_self h

theorem find?_setValue_of_ne {m : RpcMap} {k : Bytes} {key : String} (h : k ≠ ascii key)
    (val : RpcValue) : SortedMap.find? k (m.setValue key val) = SortedMap.find? k m := by
  rw [RpcMap.setValue]
  split
  · exact SortedMap.find?_insert_of_ne h val m
  · exact SortedMap.find?_erase_of_ne h m

theorem sorted_setValue {m : RpcMap} (h : SortedMap.Sorted m) (key : String) (val : RpcValue) :
    SortedMap.Sorted (m.setValue key val) := by
  rw [RpcMap.setValue]
  split
  · exact SortedMap.sorted_insert h
  · exact SortedMap.sorted_erase h

variable (h : Ready d)

theorem find?_writtenMap_typeName :
    SortedMap.find? (ascii "typeName") (d.writtenMap type_name st) = some (text type_name) := by
  rw [writtenMap, find?_setValue_of_ne (by decide), find?_setValue_of_ne (by decide),
    find?_setValue_of_ne (by decide), SortedMap.find?_insert_self]

include h in
theorem find?_writtenMap_name :
    SortedMap.find? (ascii "name") (d.writtenMap type_name st) = none := by
  rw [writtenMap, find?_setValue_of_ne (by decide), find?_setValue_of_ne (by decide)]
  exact find?_setValue_invalid_self (SortedMap.sorted_insert h.sorted) "name"

include h in
theorem find?_writtenMap_type :
    SortedMap.find? (ascii "type") (d.writtenMap type_name st) = none := by
  rw [writtenMap, find?_setValue_of_ne (by decide)]
  exact find?_setValue_invalid_self
    (sorted_setValue (SortedMap.sorted_insert h.sorted) "name" .invalid) "type"

include h in
theorem find?_writtenMap_sampleType :
    SortedMap.find? (ascii "sampleType") (d.writtenMap type_name st) =
      if st = 0 ∨ st = 1 then none else some (text (sampleTypeToString st)) := by
  rw [writtenMap]
  split
  · exact find?_setValue_invalid_self (sorted_setValue
      (sorted_setValue (SortedMap.sorted_insert h.sorted) "name" .invalid) "type" .invalid)
      "sampleType"
  · exact SortedMap.find?_insert_self _ _ _

theorem find?_writtenMap_of_ne {k : Bytes} (h₁ : k ≠ ascii "typeName") (h₂ : k ≠ ascii "name")
    (h₃ : k ≠ ascii "type") (h₄ : k ≠ ascii "sampleType") :
    SortedMap.find? k (d.writtenMap type_name st) = SortedMap.find? k d.m_data.asMap := by
  rw [writtenMap, find?_setValue_of_ne h₄, find?_setValue_of_ne h₃, find?_setValue_of_ne h₂,
    SortedMap.find?_insert_of_ne h₁]

end Written

/-- The value that `toRpcValue` returns. -/
def writtenValue (d : ShvDescr) (type_name : Bytes) (st : Int32) : RpcValue :=
  .ofVariant (.map
    (if (d.writtenMap type_name st).hasKey "fields" ∧
        ((d.writtenMap type_name st).get "fields").asList = [] then
      SortedMap.erase (ascii "fields") (d.writtenMap type_name st)
    else d.writtenMap type_name st))

theorem toRpcValue_ok {type_name : Bytes} {st : Int32} (hname : d.typeName = .ok type_name)
    (hst : d.sampleType = .ok st) : d.toRpcValue = .ok (d.writtenValue type_name st) := by
  rw [toRpcValue, hname, hst]
  rfl

/-- What is read of a key that is not that of the fields. -/
theorem get_mergedData_writtenValue {type_name : Bytes} {st : Int32} {key : String}
    (hfields : ascii key ≠ ascii "fields") (htags : ascii key ≠ ascii "tags") :
    (mergedData (d.writtenValue type_name st)).get key =
      ((SortedMap.find? (ascii key) (d.writtenMap type_name st)).or
        (SortedMap.find? (ascii key) d.nestedTags)).getD .invalid := by
  have hmap : ∀ k : Bytes, k ≠ ascii "fields" →
      SortedMap.find? k (SortedMap.erase (ascii "fields") (d.writtenValue type_name st).asMap) =
        SortedMap.find? k (d.writtenMap type_name st) := by
    intro k hk
    rw [SortedMap.find?_erase_of_ne hk, writtenValue]
    change SortedMap.find? k (ite _ _ _) = _
    split
    · exact SortedMap.find?_erase_of_ne hk _
    · rfl
  have hnested : (RpcMap.get (SortedMap.erase (ascii "fields")
      (d.writtenValue type_name st).asMap) "tags").asMap = d.nestedTags := by
    rw [RpcMap.get, RpcMap.valueOr, hmap _ (by decide),
      find?_writtenMap_of_ne (by decide) (by decide) (by decide) (by decide)]
    rfl
  rw [mergedData, RpcMap.get, RpcMap.valueOr, find?_mergeTags htags, hmap _ hfields, hnested]

/-- The fields that are written are those of the data, if there are any. -/
theorem asList_fields_writtenValue (d : ShvDescr) (type_name : Bytes) (st : Int32)
    (h : Ready d) : ((d.writtenValue type_name st).asMap.get "fields").asList =
      (d.dataValue "fields").asList := by
  have hget : (d.writtenMap type_name st).get "fields" = d.dataValue "fields" :=
    congrArg (Option.getD · RpcValue.invalid)
      (find?_writtenMap_of_ne (by decide) (by decide) (by decide) (by decide))
  have hsorted : SortedMap.Sorted (d.writtenMap type_name st) :=
    sorted_setValue (sorted_setValue (sorted_setValue (SortedMap.sorted_insert h.sorted)
      "name" .invalid) "type" .invalid) "sampleType" _
  rw [writtenValue]
  change ((ite _ _ _ : RpcMap).get "fields").asList = _
  split
  · next hempty =>
    rw [hget] at hempty
    rw [RpcMap.get, RpcMap.valueOr, SortedMap.find?_erase_self hsorted, hempty.2]
    rfl
  · rw [hget]

/-- A field is read as it was if it is a map in which no tags come from the tags. -/
theorem ofData_mergeTags_iff (rv : RpcValue) :
    ofData (.ofVariant (.map (mergeTags rv.asMap))) = ofData rv ↔
      rv.isMap = true ∧ mergeTags (mergeTags rv.asMap) = mergeTags rv.asMap := by
  have hread : ofData (.ofVariant (.map (mergeTags rv.asMap))) =
      ⟨.ofVariant (.map (mergeTags (mergeTags rv.asMap)))⟩ := rfl
  rw [hread, ofData]
  by_cases hmap : rv.isMap = true
  · rw [if_pos hmap, ShvDescr.mk.injEq, RpcValue.ofVariant, RpcValue.ofVariant,
      RpcValue.mk.injEq, Variant.map.injEq]
    exact ⟨fun h => ⟨hmap, h.2⟩, fun h => ⟨rfl, h.2⟩⟩
  · rw [if_neg hmap]
    refine ⟨fun h => ?_, fun h => absurd h.1 hmap⟩
    cases h

/-- The type that is read back: that of the nested tags if there is a number, else the one that
the written name says, else the one under the nested `name`. -/
def readBackType (d : ShvDescr) (type_name : Bytes) (n : Int32) : Option ShvType :=
  if n = 0 then some (if textType (text type_name) ≠ .Invalid then textType (text type_name)
    else textType (d.nestedTags.get "name"))
  else ShvTypeDescr.typeOfInt n

theorem readType_writtenValue (h : Ready d) (type_name : Bytes) (st n : Int32) :
    readType (mergedData (d.writtenValue type_name st)) n = d.readBackType type_name n := by
  have htn : (mergedData (d.writtenValue type_name st)).get "typeName" = text type_name := by
    rw [get_mergedData_writtenValue (by decide) (by decide), find?_writtenMap_typeName]
    rfl
  have hnm : (mergedData (d.writtenValue type_name st)).get "name" = d.nestedTags.get "name" := by
    rw [get_mergedData_writtenValue (by decide) (by decide), find?_writtenMap_name h]
    rfl
  rw [readType, readBackType, readText, htn, hnm]
  have hstring : (text type_name).isString = true := rfl
  simp only [hstring, true_or, if_true]
  by_cases hname : textType (d.nestedTags.get "name") = .Invalid
  · simp [hname]
  · simp [hname]

/-- What of the data comes back: the written name says the type (and no nested tags say another),
continuous sampling is not overridden by nested tags, and the fields are maps without nested
tags. -/
structure ReadsBack (d : ShvDescr) (type_name : Bytes) : Prop where
  type : ∃ n, (d.nestedTags.get "type").toInt = .ok n ∧
    d.type = .ok (d.readBackType type_name n)
  sample : d.sampleType = .ok 2 ∨ ∃ i : Int32,
    (sampleValue (d.nestedTags.get "sampleType")).toInt = .ok i ∧ (i = 0 ∨ i = 1)
  fields : ∀ rv ∈ (d.dataValue "fields").asList,
    rv.isMap = true ∧ mergeTags (mergeTags rv.asMap) = mergeTags rv.asMap

theorem Ready.sampleType_eq (h : Ready d) : d.sampleType = .ok 1 ∨ d.sampleType = .ok 2 := by
  obtain ⟨i, hi, rfl | rfl | rfl⟩ := h.sample_number
  · exact Or.inl (by rw [sampleType, hi]; rfl)
  · exact Or.inl (by rw [sampleType, hi]; rfl)
  · exact Or.inr (by rw [sampleType, hi]; rfl)

theorem Ready.typeName_ok (h : Ready d) : ∃ type_name, d.typeName = .ok type_name := by
  obtain ⟨t, ht⟩ := h.type_number
  rw [typeName, type_of_toInt ht]
  split
  · exact ⟨_, rfl⟩
  · exact ⟨_, rfl⟩

/-- The sample type as it is read of what was written. -/
theorem get_sampleType_writtenValue (h : Ready d) (type_name : Bytes) (st : Int32) :
    (mergedData (d.writtenValue type_name st)).get "sampleType" =
      if st = 0 ∨ st = 1 then d.nestedTags.get "sampleType" else text (sampleTypeToString st) := by
  rw [get_mergedData_writtenValue (by decide) (by decide), find?_writtenMap_sampleType h]
  split <;> rfl

theorem get_type_writtenValue (h : Ready d) (type_name : Bytes) (st : Int32) :
    (mergedData (d.writtenValue type_name st)).get "type" = d.nestedTags.get "type" := by
  rw [get_mergedData_writtenValue (by decide) (by decide), find?_writtenMap_type h]
  rfl

theorem fields_eq_iff {d' : ShvDescr} (hd' : d'.dataValue "fields" =
      .ofVariant (.list ((d.dataValue "fields").asList.map fun rv =>
        RpcValue.ofVariant (.map (mergeTags rv.asMap))))) :
    d'.fields = d.fields ↔ ∀ rv ∈ (d.dataValue "fields").asList,
      rv.isMap = true ∧ mergeTags (mergeTags rv.asMap) = mergeTags rv.asMap := by
  rw [fields, fields, hd']
  change List.map ofData (List.map _ _) = _ ↔ _
  rw [List.map_map, List.map_inj_left]
  exact forall₂_congr fun rv _ => ofData_mergeTags_iff rv

/-- A description that was made comes back with its type, its fields and its sample type. -/
theorem reads_back_iff (h : Ready d) {type_name : Bytes} (hname : d.typeName = .ok type_name) :
    (∃ v d', d.toRpcValue = .ok v ∧ typeFromRpcValue v = .ok d' ∧ d'.type = d.type ∧
      d'.fields = d.fields ∧ d'.sampleType = d.sampleType) ↔ d.ReadsBack type_name := by
  obtain ⟨st, hst, hcases⟩ : ∃ st, d.sampleType = .ok st ∧ (st = 1 ∨ st = 2) := by
    rcases h.sampleType_eq with hst | hst
    · exact ⟨1, hst, Or.inl rfl⟩
    · exact ⟨2, hst, Or.inr rfl⟩
  have hwrite := toRpcValue_ok hname hst
  have hgetType := get_type_writtenValue h type_name st
  have hgetSample := get_sampleType_writtenValue h type_name st
  constructor
  · rintro ⟨v, d', hv, hd', htype, hfields, hsample⟩
    obtain rfl := Except.ok.inj (hwrite.symm.trans hv)
    obtain ⟨t, ht⟩ := h.type_number
    obtain ⟨n, i, hn, hi, hread⟩ := (typeFromRpcValue_type_iff _ _).1
      ⟨d', hd', htype.trans (type_of_toInt ht)⟩
    obtain ⟨d'', hd'', -, hfields'', hsample''⟩ := typeFromRpcValue_ok hn hi
    obtain rfl := Except.ok.inj (hd''.symm.trans hd')
    rw [asList_fields_writtenValue d type_name st h] at hfields''
    rw [hgetType] at hn
    rw [readType_writtenValue h] at hread
    refine ⟨⟨n, hn, by rw [type_of_toInt ht, hread]⟩, ?_, (fields_eq_iff hfields'').1 hfields⟩
    rcases hcases with rfl | rfl
    · rw [if_pos (Or.inr rfl)] at hgetSample
      rw [hgetSample] at hi hsample''
      rw [sampleType, hsample'', hi, hst] at hsample
      refine Or.inr ⟨i, hi, ?_⟩
      have hone : (if i = 0 then 1 else i) = 1 := Except.ok.inj hsample
      by_cases hzero : i = 0
      · exact Or.inl hzero
      · exact Or.inr ((if_neg hzero).symm.trans hone)
    · exact Or.inl hst
  · rintro ⟨⟨n, hn, htype⟩, hsample, hfields⟩
    rw [← hgetType] at hn
    obtain ⟨i, hi, hback⟩ : ∃ i,
        (sampleValue ((mergedData (d.writtenValue type_name st)).get "sampleType")).toInt = .ok i ∧
          (if i = 0 then 1 else i) = st := by
      rcases hcases with rfl | rfl
      · rw [hgetSample, if_pos (Or.inr rfl)]
        rcases hsample with htwo | ⟨i, hi, rfl | rfl⟩
        · rw [hst] at htwo
          exact absurd (Except.ok.inj htwo) (by decide)
        · exact ⟨0, hi, rfl⟩
        · exact ⟨1, hi, rfl⟩
      · exact ⟨2, by rw [hgetSample]; rfl, rfl⟩
    obtain ⟨d', hd', htype', hfields', hsample'⟩ := typeFromRpcValue_ok hn hi
    rw [asList_fields_writtenValue d type_name st h] at hfields'
    refine ⟨_, d', hwrite, hd', ?_, (fields_eq_iff hfields').2 hfields, ?_⟩
    · rw [htype', htype, readType_writtenValue h]
    · rw [sampleType, hsample', hi, hst, ← hback]
      rfl

/-- When a text under one of the keys names the type, and that is the type that is read: the
number under `type` is that of the type, or there is none; and then no text that names no type
stands before the text under `type`. -/
def ReadsKey (v : RpcValue) (t : ShvType) : Prop :=
  ∃ n i, ((mergedData v).get "type").toInt = .ok n ∧
    (sampleValue ((mergedData v).get "sampleType")).toInt = .ok i ∧
    ((n ≠ 0 ∧ ShvTypeDescr.typeOfInt n = some t) ∨
      (n = 0 ∧ firstNamed (mergedData v) = t ∧
        (textType ((mergedData v).get "typeName") = .Invalid →
          textType ((mergedData v).get "name") = .Invalid →
          ((mergedData v).get "typeName").isString = false ∧
            ((mergedData v).get "name").isString = false)))

theorem readType_eq_some_iff {t : ShvType} (ht : t ≠ .Invalid) (m : RpcMap) (n : Int32) :
    readType m n = some t ↔ (n ≠ 0 ∧ ShvTypeDescr.typeOfInt n = some t) ∨
      (n = 0 ∧ firstNamed m = t ∧ (textType (m.get "typeName") = .Invalid →
        textType (m.get "name") = .Invalid →
        (m.get "typeName").isString = false ∧ (m.get "name").isString = false)) := by
  rw [readType]
  by_cases hn : n = 0
  · rw [if_pos hn, Option.some.injEq, readText, firstNamed]
    by_cases htn : textType (m.get "typeName") = .Invalid
    · by_cases hnm : textType (m.get "name") = .Invalid
      · rw [if_neg (not_not.2 htn), if_neg (not_not.2 hnm), if_neg (not_not.2 htn),
          if_neg (not_not.2 hnm)]
        by_cases hstring : (m.get "typeName").isString = true ∨ (m.get "name").isString = true
        · rw [if_pos hstring]
          refine iff_of_false (Ne.symm ht) ?_
          rintro (⟨hne, -⟩ | ⟨-, -, hnone⟩)
          · exact hne hn
          · obtain ⟨h₁, h₂⟩ := hnone htn hnm
            rw [h₁, h₂] at hstring
            exact absurd hstring (by decide)
        · rw [if_neg hstring]
          rw [not_or, Bool.not_eq_true, Bool.not_eq_true] at hstring
          exact ⟨fun h => Or.inr ⟨hn, h, fun _ _ => hstring⟩, fun h =>
            (h.resolve_left fun hne => hne.1 hn).2.1⟩
      · rw [if_neg (not_not.2 htn), if_pos hnm, if_neg (not_not.2 htn), if_pos hnm]
        exact ⟨fun h => Or.inr ⟨hn, h, fun _ h' => absurd h' hnm⟩, fun h =>
          (h.resolve_left fun hne => hne.1 hn).2.1⟩
    · rw [if_pos htn, if_pos htn]
      exact ⟨fun h => Or.inr ⟨hn, h, fun h' => absurd h' htn⟩, fun h =>
        (h.resolve_left fun hne => hne.1 hn).2.1⟩
  · rw [if_neg hn]
    exact ⟨fun h => Or.inl ⟨hn, h⟩, fun h => (h.resolve_right fun h' => hn h'.1).2⟩

/-- The two halves: a map in which a key names a type, and a description that was made. -/
theorem type_descr_keys_iff (v : RpcValue) (t : ShvType) (d : ShvDescr) (ht : t ≠ .Invalid)
    (hmade : Made d) :
    ((firstNamed v.asMap = t → ∃ d', typeFromRpcValue v = .ok d' ∧ d'.type = .ok (some t)) ↔
      (firstNamed v.asMap = t → ReadsKey v t)) ∧
    ((∃ v' d', d.toRpcValue = .ok v' ∧ typeFromRpcValue v' = .ok d' ∧ d'.type = d.type ∧
        d'.fields = d.fields ∧ d'.sampleType = d.sampleType) ↔
      ∃ type_name, d.typeName = .ok type_name ∧ d.ReadsBack type_name) := by
  constructor
  · rw [typeFromRpcValue_type_iff, ReadsKey]
    exact imp_congr_right fun _ => exists₂_congr fun n i => and_congr_right fun _ =>
      and_congr_right fun _ => readType_eq_some_iff ht _ n
  · obtain ⟨type_name, hname⟩ := hmade.ready.typeName_ok
    rw [reads_back_iff hmade.ready hname]
    refine ⟨fun h => ⟨type_name, hname, h⟩, ?_⟩
    rintro ⟨type_name', hname', h⟩
    obtain rfl := Except.ok.inj (hname.symm.trans hname')
    exact h

/-- The text under `name` names the type. -/
def namedInt : RpcValue := .ofVariant (.map [(ascii "name", text (ascii "Int"))])

theorem type_descr_keys_int :
    ∃ d', typeFromRpcValue namedInt = .ok d' ∧ d'.type = .ok (some .Int) :=
  (type_descr_keys_iff namedInt .Int ⟨.invalid⟩ (by decide) .default).1.2
    (fun _ => ⟨0, 0, rfl, rfl, Or.inr ⟨rfl, rfl, fun _ h => absurd h (by decide)⟩⟩) rfl

/-- A text under `typeName` that names no basic type hides the text under `type`; and a type with
a name of its own comes back as no type. -/
theorem type_text_hidden :
    firstNamed (RpcValue.asMap (.ofVariant (.map [(ascii "type", text (ascii "Int")),
      (ascii "typeName", text (ascii "Speed"))]))) = .Int ∧
    (∃ d', typeFromRpcValue (.ofVariant (.map [(ascii "type", text (ascii "Int")),
      (ascii "typeName", text (ascii "Speed"))])) = .ok d' ∧ d'.type = .ok (some .Invalid)) ∧
    ∃ d v d', (ofTypeName (ascii "Enum")).setTypeName (ascii "Color") = .ok d ∧
      d.type = .ok (some .Enum) ∧ d.toRpcValue = .ok v ∧ typeFromRpcValue v = .ok d' ∧
      d'.type = .ok (some .Invalid) :=
  ⟨rfl, ⟨_, rfl, rfl⟩, _, _, _, rfl, rfl, rfl, rfl, rfl⟩

end ShvDescr

end LibShv
