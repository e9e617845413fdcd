import LibShv.Lib.SortedMap

/-!
# LibShv.RpcValue

The value tree of the library (`rpcvalue.h`): a variant of scalars, strings,
blobs and three kinds of containers, with metadata on any node.

A `std::string` and a `Blob` are lists of bytes, a `double` is its eight bytes.
`RpcMap`, `RpcIMap` and the two maps of the metadata are association lists in
key order, which is what iterating a `std::map` gives. A value without metadata
and a value with empty metadata are the same value here, as they are for
`metaData()`.
-/

namespace LibShv

/-- The bytes of a string, a blob or a stream. -/
abbrev Bytes := List UInt8

/-- A string literal of the source; all of them are ASCII. -/
def ascii (s : String) : Bytes := s.toList.map fun c => UInt8.ofNat c.toNat

/-- `RpcDecimal`: mantissa times ten to the exponent. -/
structure RpcDecimal where
  mantissa : Int64
  exponent : Int32
deriving DecidableEq

/-- `RpcDateTime`: the bit field `int64_t tz: 7, msec: 57`. -/
structure RpcDateTime where
  tz : BitVec 7
  msec : BitVec 57
deriving DecidableEq

/-! ## the tree -/

mutual

/-- A value and its metadata. -/
inductive RpcValue where
  | mk (m_meta : RpcMetaData) (m_value : Variant)

/-- Metadata under integer keys and under string keys. -/
inductive RpcMetaData where
  | mk (m_imap : List (Int32 × RpcValue)) (m_smap : List (Bytes × RpcValue))

/-- The alternatives of `RpcValue::m_value`. -/
inductive Variant where
  | invalid
  | null
  | uint (n : UInt64)
  | int (n : Int64)
  | double (bits : UInt64)
  | bool (b : Bool)
  | blob (bytes : Bytes)
  | string (bytes : Bytes)
  | dateTime (dt : RpcDateTime)
  | list (vs : List RpcValue)
  | map (m : List (Bytes × RpcValue))
  | imap (m : List (Int32 × RpcValue))
  | decimal (d : RpcDecimal)

end

abbrev RpcList := List RpcValue
abbrev RpcMap := List (Bytes × RpcValue)
abbrev RpcIMap := List (Int32 × RpcValue)

/-! ## date and decimal -/

/-- `msecsSinceEpoch`. -/
def RpcDateTime.msecsSinceEpoch (dt : RpcDateTime) : Int64 := Int64.ofInt dt.msec.toInt

/-- `utcOffsetMin`: the offset is kept in quarters of an hour. -/
def RpcDateTime.utcOffsetMin (dt : RpcDateTime) : Int := dt.tz.toInt * 15

/-- `fromMSecsSinceEpoch`: both fields are cut to the width of their bit field. -/
def RpcDateTime.fromMSecsSinceEpoch (msecs : Int64) (utcOffsetMin : Int) : RpcDateTime where
  tz := BitVec.ofInt 7 (utcOffsetMin.tdiv 15)
  msec := BitVec.ofInt 57 msecs.toInt

/-- `RpcDecimal::toDouble`: the mantissa scaled by ten, step by step. -/
def RpcDecimal.toDouble (d : RpcDecimal) : Float :=
  let ret := d.mantissa.toFloat
  if 0 < d.exponent.toInt then
    d.exponent.toInt.toNat.repeat (· * 10) ret
  else
    (-d.exponent.toInt).toNat.repeat (· / 10) ret

/-! ## values -/

namespace Variant

/-- `RpcValue::isValid`. -/
def isValid : Variant → Bool
  | .invalid => false
  | _ => true

end Variant

/-- `convert_to_int`: cut to the nearest `int`, `std::runtime_error` on a NaN. -/
def convertToInt (d : Float) : Except String Int32 :=
  if d.isNaN then .error "Can't convert NaN to int"
  else if Int32.maxValue.toFloat ≤ d then .ok Int32.maxValue
  else if Int32.minValue.toFloat ≥ d then .ok Int32.minValue
  else .ok d.toInt32

namespace RpcValue

/-- The variant inside. -/
def value : RpcValue → Variant
  | .mk _ v => v

/-- `RpcValue::metaData`. -/
def metaData : RpcValue → RpcMetaData
  | .mk md _ => md

@[simp] theorem value_mk (md : RpcMetaData) (v : Variant) : (mk md v).value = v := rfl

@[simp] theorem metaData_mk (md : RpcMetaData) (v : Variant) : (mk md v).metaData = md := rfl

/-- A value without metadata. -/
def ofVariant (v : Variant) : RpcValue := .mk (.mk [] []) v

@[simp] theorem value_ofVariant (v : Variant) : (ofVariant v).value = v := rfl

/-- The default-constructed, invalid value. -/
def invalid : RpcValue := ofVariant .invalid

@[simp] theorem value_invalid : invalid.value = .invalid := rfl

def isValid (v : RpcValue) : Bool := v.value.isValid

@[simp] theorem isValid_ofVariant (v : Variant) : (ofVariant v).isValid = v.isValid := rfl

/-- `RpcValue::isString`. -/
def isString (v : RpcValue) : Bool :=
  match v.value with
  | .string _ => true
  | _ => false

/-- `RpcValue::asString`: the empty string for every other type. -/
def asString (v : RpcValue) : Bytes :=
  match v.value with
  | .string s => s
  | _ => []

/-- `impl_to_int`: numbers are converted, everything else is zero. -/
def toInt64 (v : RpcValue) : Except String Int64 :=
  match v.value with
  | .int n => .ok n
  | .uint n => .ok n.toInt64
  | .double bits => (·.toInt64) <$> convertToInt (Float.ofBits bits)
  | .decimal d => (·.toInt64) <$> convertToInt d.toDouble
  | .dateTime dt => .ok dt.msecsSinceEpoch
  | _ => .ok 0

/-- `RpcValue::toInt`: an `int`, so wider integers lose their upper half. -/
def toInt (v : RpcValue) : Except String Int32 := (·.toInt32) <$> v.toInt64

end RpcValue

/-! ## metadata -/

namespace RpcMetaData

def iValues : RpcMetaData → RpcIMap
  | .mk im _ => im

def sValues : RpcMetaData → RpcMap
  | .mk _ sm => sm

@[simp] theorem iValues_mk (im : RpcIMap) (sm : RpcMap) : (mk im sm).iValues = im := rfl

@[simp] theorem sValues_mk (im : RpcIMap) (sm : RpcMap) : (mk im sm).sValues = sm := rfl

/-- The metadata of a value that has none. -/
def empty : RpcMetaData := .mk [] []

/-- `RpcMetaData::isEmpty`. -/
def isEmpty (md : RpcMetaData) : Bool := md.iValues.length + md.sValues.length == 0

theorem isEmpty_iff {md : RpcMetaData} : md.isEmpty = true ↔ md = empty := by
  obtain ⟨im, sm⟩ := md
  cases im <;> cases sm <;> simp [isEmpty, empty]

/-- `setValue` under an integer key: an invalid value removes the key. -/
def setIValue (md : RpcMetaData) (key : Int32) (val : RpcValue) : RpcMetaData :=
  if val.isValid then .mk (SortedMap.insert key val md.iValues) md.sValues
  else .mk (SortedMap.erase key md.iValues) md.sValues

/-- `setValue` under a string key. -/
def setSValue (md : RpcMetaData) (key : Bytes) (val : RpcValue) : RpcMetaData :=
  if val.isValid then .mk md.iValues (SortedMap.insert key val md.sValues)
  else .mk md.iValues (SortedMap.erase key md.sValues)

/-- `hasKey` for an integer key. -/
def hasKey (md : RpcMetaData) (key : Int32) : Bool := (SortedMap.find? key md.iValues).isSome

/-- `value` for an integer key: an invalid value if the key is absent. -/
def valueOf (md : RpcMetaData) (key : Int32) : RpcValue :=
  (SortedMap.find? key md.iValues).getD RpcValue.invalid

end RpcMetaData

namespace RpcMetaData

theorem valueOf_setIValue_self {md : RpcMetaData} (h : SortedMap.Sorted md.iValues) (key : Int32)
    (val : RpcValue) :
    (md.setIValue key val).valueOf key = if val.isValid then val else .invalid := by
  rw [setIValue]
  by_cases hv : val.isValid = true
  · simp [hv, valueOf]
  · simp [hv, valueOf, SortedMap.find?_erase_self h]

theorem valueOf_setIValue_of_ne {md : RpcMetaData} {key key' : Int32} (h : key' ≠ key)
    (val : RpcValue) : (md.setIValue key val).valueOf key' = md.valueOf key' := by
  rw [setIValue]
  by_cases hv : val.isValid = true
  · simp [hv, valueOf, SortedMap.find?_insert_of_ne h]
  · simp [hv, valueOf, SortedMap.find?_erase_of_ne h]

theorem sorted_setIValue {md : RpcMetaData} (h : SortedMap.Sorted md.iValues) (key : Int32)
    (val : RpcValue) : SortedMap.Sorted (md.setIValue key val).iValues := by
  rw [setIValue]
  by_cases hv : val.isValid = true
  · rw [if_pos hv]
    exact SortedMap.sorted_insert h
  · rw [if_neg hv]
    exact SortedMap.sorted_erase h

end RpcMetaData

/-- `RpcValue::setMetaData`. -/
def RpcValue.setMetaData (v : RpcValue) (md : RpcMetaData) : RpcValue := .mk md v.value

@[simp] theorem RpcValue.value_setMetaData (v : RpcValue) (md : RpcMetaData) :
    (v.setMetaData md).value = v.value := rfl

/-! ## predicates on every node -/

mutual

/-- Every node of the tree, metadata values included, has a variant with `P`
and metadata with `M`. -/
def RpcValue.Each (P : Variant → Prop) (M : RpcMetaData → Prop) : RpcValue → Prop
  | .mk md v => M md ∧ md.Each P M ∧ P v ∧ v.Each P M

def RpcMetaData.Each (P : Variant → Prop) (M : RpcMetaData → Prop) : RpcMetaData → Prop
  | .mk im sm => eachIMap P M im ∧ eachMap P M sm

def Variant.Each (P : Variant → Prop) (M : RpcMetaData → Prop) : Variant → Prop
  | .list vs => eachList P M vs
  | .map m => eachMap P M m
  | .imap m => eachIMap P M m
  | _ => True

def eachList (P : Variant → Prop) (M : RpcMetaData → Prop) : List RpcValue → Prop
  | [] => True
  | v :: vs => v.Each P M ∧ eachList P M vs

def eachMap (P : Variant → Prop) (M : RpcMetaData → Prop) : List (Bytes × RpcValue) → Prop
  | [] => True
  | (_, v) :: m => v.Each P M ∧ eachMap P M m

def eachIMap (P : Variant → Prop) (M : RpcMetaData → Prop) : List (Int32 × RpcValue) → Prop
  | [] => True
  | (_, v) :: m => v.Each P M ∧ eachIMap P M m

end

section EachMem

variable {P : Variant → Prop} {M : RpcMetaData → Prop}

theorem eachList_iff {vs : List RpcValue} : eachList P M vs ↔ ∀ v ∈ vs, v.Each P M := by
  induction vs with
  | nil => simp [eachList]
  | cons v vs ih => simp [eachList, ih]

theorem eachMap_iff {m : List (Bytes × RpcValue)} : eachMap P M m ↔ ∀ e ∈ m, e.2.Each P M := by
  induction m with
  | nil => simp [eachMap]
  | cons e m ih => simp [eachMap, ih]

theorem eachIMap_iff {m : List (Int32 × RpcValue)} : eachIMap P M m ↔ ∀ e ∈ m, e.2.Each P M := by
  induction m with
  | nil => simp [eachIMap]
  | cons e m ih => simp [eachIMap, ih]

end EachMem

section EachImp

variable {P P' : Variant → Prop} {M M' : RpcMetaData → Prop}

mutual

/-- A weaker predicate holds at every node, too. -/
theorem each_imp (hP : ∀ v, P v → P' v) (hM : ∀ md, M md → M' md) :
    (v : RpcValue) → v.Each P M → v.Each P' M'
  | .mk md v, ⟨hmd, hmds, hv, hvs⟩ =>
    ⟨hM md hmd, eachMetaData_imp hP hM md hmds, hP v hv, eachVariant_imp hP hM v hvs⟩

theorem eachMetaData_imp (hP : ∀ v, P v → P' v) (hM : ∀ md, M md → M' md) :
    (md : RpcMetaData) → md.Each P M → md.Each P' M'
  | .mk im sm, ⟨him, hsm⟩ => ⟨eachIMap_imp hP hM im him, eachMap_imp hP hM sm hsm⟩

theorem eachVariant_imp (hP : ∀ v, P v → P' v) (hM : ∀ md, M md → M' md) :
    (v : Variant) → v.Each P M → v.Each P' M'
  | .list vs, h => eachList_imp hP hM vs h
  | .map m, h => eachMap_imp hP hM m h
  | .imap m, h => eachIMap_imp hP hM m h
  | .invalid, h | .null, h | .uint _, h | .int _, h | .double _, h | .bool _, h | .blob _, h
  | .string _, h | .dateTime _, h | .decimal _, h => h

theorem eachList_imp (hP : ∀ v, P v → P' v) (hM : ∀ md, M md → M' md) :
    (vs : List RpcValue) → eachList P M vs → eachList P' M' vs
  | [], _ => trivial
  | v :: vs, ⟨hv, hvs⟩ => ⟨each_imp hP hM v hv, eachList_imp hP hM vs hvs⟩

theorem eachMap_imp (hP : ∀ v, P v → P' v) (hM : ∀ md, M md → M' md) :
    (m : List (Bytes × RpcValue)) → eachMap P M m → eachMap P' M' m
  | [], _ => trivial
  | (_, v) :: m, ⟨hv, hm⟩ => ⟨each_imp hP hM v hv, eachMap_imp hP hM m hm⟩

theorem eachIMap_imp (hP : ∀ v, P v → P' v) (hM : ∀ md, M md → M' md) :
    (m : List (Int32 × RpcValue)) → eachIMap P M m → eachIMap P' M' m
  | [], _ => trivial
  | (_, v) :: m, ⟨hv, hm⟩ => ⟨each_imp hP hM v hv, eachIMap_imp hP hM m hm⟩

end

end EachImp

section EachAnd

variable {P Q : Variant → Prop} {M N : RpcMetaData → Prop}

mutual

/-- Two predicates that hold at every node hold together. -/
theorem each_and : (v : RpcValue) → v.Each P M → v.Each Q N →
    v.Each (fun v => P v ∧ Q v) fun md => M md ∧ N md
  | .mk md v, ⟨hmd, hmds, hv, hvs⟩, ⟨hmd', hmds', hv', hvs'⟩ =>
    ⟨⟨hmd, hmd'⟩, eachMetaData_and md hmds hmds', ⟨hv, hv'⟩, eachVariant_and v hvs hvs'⟩

theorem eachMetaData_and : (md : RpcMetaData) → md.Each P M → md.Each Q N →
    md.Each (fun v => P v ∧ Q v) fun md => M md ∧ N md
  | .mk im sm, ⟨him, hsm⟩, ⟨him', hsm'⟩ => ⟨eachIMap_and im him him', eachMap_and sm hsm hsm'⟩

theorem eachVariant_and : (v : Variant) → v.Each P M → v.Each Q N →
    v.Each (fun v => P v ∧ Q v) fun md => M md ∧ N md
  | .list vs, h, h' => eachList_and vs h h'
  | .map m, h, h' => eachMap_and m h h'
  | .imap m, h, h' => eachIMap_and m h h'
  | .invalid, h, _ | .null, h, _ | .uint _, h, _ | .int _, h, _ | .double _, h, _ | .bool _, h, _
  | .blob _, h, _ | .string _, h, _ | .dateTime _, h, _ | .decimal _, h, _ => h

theorem eachList_and : (vs : List RpcValue) → eachList P M vs → eachList Q N vs →
    eachList (fun v => P v ∧ Q v) (fun md => M md ∧ N md) vs
  | [], _, _ => trivial
  | v :: vs, ⟨hv, hvs⟩, ⟨hv', hvs'⟩ => ⟨each_and v hv hv', eachList_and vs hvs hvs'⟩

theorem eachMap_and : (m : List (Bytes × RpcValue)) → eachMap P M m → eachMap Q N m →
    eachMap (fun v => P v ∧ Q v) (fun md => M md ∧ N md) m
  | [], _, _ => trivial
  | (_, v) :: m, ⟨hv, hm⟩, ⟨hv', hm'⟩ => ⟨each_and v hv hv', eachMap_and m hm hm'⟩

theorem eachIMap_and : (m : List (Int32 × RpcValue)) → eachIMap P M m → eachIMap Q N m →
    eachIMap (fun v => P v ∧ Q v) (fun md => M md ∧ N md) m
  | [], _, _ => trivial
  | (_, v) :: m, ⟨hv, hm⟩, ⟨hv', hm'⟩ => ⟨each_and v hv hv', eachIMap_and m hm hm'⟩

end

end EachAnd

/-! ## what the containers guarantee -/

/-- `std::string::max_size`. -/
def maxSize : Nat := 2 ^ 63

/-- What `std::string` and `std::map` guarantee: a string has a size, the keys
of a map increase. -/
def Variant.Std : Variant → Prop
  | .string bytes => bytes.length < maxSize
  | .blob bytes => bytes.length < maxSize
  | .map m => SortedMap.Sorted m ∧ ∀ e ∈ m, e.1.length < maxSize
  | .imap m => SortedMap.Sorted m
  | _ => True

def RpcMetaData.Std (md : RpcMetaData) : Prop :=
  SortedMap.Sorted md.iValues ∧ SortedMap.Sorted md.sValues ∧
    ∀ e ∈ md.sValues, e.1.length < maxSize

/-- Every value the library can hold. -/
abbrev RpcValue.Std (v : RpcValue) : Prop := v.Each Variant.Std RpcMetaData.Std

end LibShv
