import LibShv.RpcMessage
import LibShv.ShvJournalEntry

/-!
# LibShv.DataChange

Data changes (`datachange.cpp`): a value with the time it changed at, a short time
and flags. It is sent as the value itself with this metadata on it; a value that has
metadata of its own is sent in a list of one.
-/

namespace LibShv

namespace DataChange

/-! ## tags -/

def Tag_MetaTypeNameSpaceId : Int32 := 2
def MetaType_ID : Int32 := 5

def DateTime : Int32 := 8
def ShortTime : Int32 := 9
def ValueFlags : Int32 := 10
def SpecialListValue : Int32 := 11

def NO_SHORT_TIME : Int32 := -1

/-- `isDataChange`. -/
def isDataChange (rv : RpcValue) : Except String Bool := do
  if (← (rv.metaData.valueOf Tag_MetaTypeId).toInt) = MetaType_ID then
    return (← (rv.metaData.valueOf Tag_MetaTypeNameSpaceId).toInt) = 0
  else return false

end DataChange

/-- `DataChange`. -/
structure DataChange where
  m_value : RpcValue
  m_dateTime : RpcDateTime
  m_shortTime : Int32
  m_valueFlags : UInt32
  /-- `setValue` looks whether it is a data change itself. -/
  looked : ∃ b, DataChange.isDataChange m_value = .ok b

namespace DataChange

/-- The default-constructed data change. -/
def empty : DataChange := ⟨.invalid, ⟨0, 0⟩, NO_SHORT_TIME, 0, ⟨false, rfl⟩⟩

def isValid (dc : DataChange) : Bool := dc.m_value.isValid

/-- `setValue`: a change inside a change is taken with a warning. -/
def setValue (dc : DataChange) (val : RpcValue) : Except String DataChange :=
  match h : isDataChange val with
  | .ok b => .ok { dc with m_value := val, looked := ⟨b, h⟩ }
  | .error e => .error e

/-! ## time and flags -/

def hasDateTime (dc : DataChange) : Bool := 0 < dc.m_dateTime.msecsSinceEpoch

def dateTime (dc : DataChange) : RpcValue :=
  if dc.hasDateTime then .ofVariant (.dateTime dc.m_dateTime) else .invalid

def setDateTime (dc : DataChange) (dt : RpcValue) : DataChange :=
  { dc with
    m_dateTime :=
      match dt.value with
      | .dateTime dt => dt
      | _ => ⟨0, 0⟩ }

def hasShortTime (dc : DataChange) : Bool := NO_SHORT_TIME < dc.m_shortTime

def shortTime (dc : DataChange) : RpcValue :=
  if dc.hasShortTime then .ofVariant (.uint dc.m_shortTime.toUInt32.toUInt64) else .invalid

def setShortTime (dc : DataChange) (st : RpcValue) : DataChange :=
  { dc with
    m_shortTime :=
      match st.value with
      | .uint n => n.toInt64.toInt32
      | .int n => if 0 ≤ n.toInt32 then n.toInt32 else NO_SHORT_TIME
      | _ => NO_SHORT_TIME }

def setValueFlags (dc : DataChange) (st : UInt32) : DataChange := { dc with m_valueFlags := st }

/-! ## encoding -/

/-- The value that the metadata is put on. -/
def carrier (value : RpcValue) : RpcValue :=
  if value.isValid then
    if value.metaData.isEmpty then
      -- a list that looks like a value with metadata is marked
      if value.asList.length = 1 ∧ (RpcList.value value.asList 0).metaData.isEmpty = false then
        value.setMetaValue SpecialListValue (.ofVariant (.bool true))
      else value
    else .ofVariant (.list [value])
  else .ofVariant .null

/-- `toRpcValue`. -/
def toRpcValue (dc : DataChange) : RpcValue :=
  let ret := (carrier dc.m_value).setMetaValue Tag_MetaTypeId (.ofInt32 MetaType_ID)
  let ret :=
    if dc.hasDateTime then ret.setMetaValue DateTime (.ofVariant (.dateTime dc.m_dateTime)) else ret
  let ret :=
    if dc.hasShortTime then
      ret.setMetaValue ShortTime (.ofVariant (.uint dc.m_shortTime.toUInt32.toUInt64))
    else ret
  if dc.m_valueFlags ≠ 0 then ret.setMetaValue ValueFlags (.ofInt32 dc.m_valueFlags.toInt32)
  else ret

/-! ## decoding -/

/-- The value without its metadata, or the one element that has metadata. -/
def carried (val : RpcValue) : RpcValue :=
  let wrapped_val := RpcList.value val.asList 0
  if val.isList ∧ val.asList.length = 1 ∧ wrapped_val.metaData.isEmpty = false ∧
      (val.metaData.valueOf SpecialListValue).isValid = false then wrapped_val
  else val.setMetaData .empty

/-- `fromRpcValue`. -/
def fromRpcValue (val : RpcValue) : Except String DataChange := do
  if ← isDataChange val then
    let ret ← empty.setValue (carried val)
    let ret := ret.setDateTime (val.metaData.valueOf DateTime)
    let ret := ret.setShortTime (val.metaData.valueOf ShortTime)
    let st ← (val.metaData.valueOf ValueFlags).toInt
    return ret.setValueFlags st.toUInt32
  else empty.setValue val

/-! ## what is on the carrier -/

section Tags

variable {v val : RpcValue} {key key' : Int32} {c : Prop} [Decidable c]

theorem valueOf_setMetaValue_self (h : val.isValid = true) :
    (v.setMetaValue key val).metaData.valueOf key = val := by
  simp [RpcValue.setMetaValue, RpcValue.setMetaData, RpcMetaData.setIValue, RpcMetaData.valueOf, h]

theorem valueOf_setMetaValue_of_ne (h : key' ≠ key) :
    (v.setMetaValue key val).metaData.valueOf key' = v.metaData.valueOf key' :=
  RpcMetaData.valueOf_setIValue_of_ne h val

/-- A tag that is set only on a condition. -/
theorem valueOf_ite_self (h : val.isValid = true) :
    (if c then v.setMetaValue key val else v).metaData.valueOf key =
      if c then val else v.metaData.valueOf key := by
  by_cases hc : c
  · rw [if_pos hc, if_pos hc, valueOf_setMetaValue_self h]
  · rw [if_neg hc, if_neg hc]

theorem valueOf_ite_of_ne (h : key' ≠ key) :
    (if c then v.setMetaValue key val else v).metaData.valueOf key' = v.metaData.valueOf key' := by
  by_cases hc : c
  · rw [if_pos hc, valueOf_setMetaValue_of_ne h]
  · rw [if_neg hc]

theorem value_ite : (if c then v.setMetaValue key val else v).value = v.value := by
  by_cases hc : c
  · rw [if_pos hc]
    rfl
  · rw [if_neg hc]

end Tags

variable (dc : DataChange)

theorem value_toRpcValue : dc.toRpcValue.value = (carrier dc.m_value).value := by
  simp only [toRpcValue, value_ite]
  rfl

theorem valueOf_carrier {value : RpcValue} {key : Int32} (h : key ≠ SpecialListValue) :
    (carrier value).metaData.valueOf key = .invalid := by
  unfold carrier
  split
  · split
    · rename_i hempty
      have hnone : value.metaData.valueOf key = .invalid := by
        rw [RpcMetaData.isEmpty_iff.mp hempty]
        rfl
      split
      · rw [valueOf_setMetaValue_of_ne h, hnone]
      · exact hnone
    · rfl
  · rfl

theorem typeId_toRpcValue :
    dc.toRpcValue.metaData.valueOf Tag_MetaTypeId = .ofInt32 MetaType_ID := by
  simp only [toRpcValue]
  rw [valueOf_ite_of_ne (by decide), valueOf_ite_of_ne (by decide), valueOf_ite_of_ne (by decide),
    valueOf_setMetaValue_self rfl]

theorem nameSpaceId_toRpcValue :
    dc.toRpcValue.metaData.valueOf Tag_MetaTypeNameSpaceId = .invalid := by
  simp only [toRpcValue]
  rw [valueOf_ite_of_ne (by decide), valueOf_ite_of_ne (by decide), valueOf_ite_of_ne (by decide),
    valueOf_setMetaValue_of_ne (by decide), valueOf_carrier (by decide)]

theorem dateTime_toRpcValue : dc.toRpcValue.metaData.valueOf DateTime = dc.dateTime := by
  simp only [toRpcValue]
  rw [valueOf_ite_of_ne (by decide), valueOf_ite_of_ne (by decide), valueOf_ite_self rfl,
    valueOf_setMetaValue_of_ne (by decide), valueOf_carrier (by decide)]
  rfl

theorem shortTime_toRpcValue : dc.toRpcValue.metaData.valueOf ShortTime = dc.shortTime := by
  simp only [toRpcValue]
  rw [valueOf_ite_of_ne (by decide), valueOf_ite_self rfl, valueOf_ite_of_ne (by decide),
    valueOf_setMetaValue_of_ne (by decide), valueOf_carrier (by decide)]
  rfl

theorem valueFlags_toRpcValue :
    dc.toRpcValue.metaData.valueOf ValueFlags =
      if dc.m_valueFlags ≠ 0 then .ofInt32 dc.m_valueFlags.toInt32 else .invalid := by
  simp only [toRpcValue]
  rw [valueOf_ite_self rfl, valueOf_ite_of_ne (by decide), valueOf_ite_of_ne (by decide),
    valueOf_setMetaValue_of_ne (by decide), valueOf_carrier (by decide)]

theorem special_toRpcValue :
    dc.toRpcValue.metaData.valueOf SpecialListValue =
      (carrier dc.m_value).metaData.valueOf SpecialListValue := by
  simp only [toRpcValue]
  rw [valueOf_ite_of_ne (by decide), valueOf_ite_of_ne (by decide), valueOf_ite_of_ne (by decide),
    valueOf_setMetaValue_of_ne (by decide)]

theorem isDataChange_toRpcValue : isDataChange dc.toRpcValue = .ok true := by
  rw [isDataChange, typeId_toRpcValue, nameSpaceId_toRpcValue, RpcValue.toInt_ofInt32]
  rfl

/-! ## what comes back -/

theorem carried_of_value {val value : RpcValue} (hvalue : val.value = value.value)
    (hempty : value.metaData.isEmpty = true)
    (hspecial : value.isList = true → value.asList.length = 1 →
      (RpcList.value value.asList 0).metaData.isEmpty = false →
      (val.metaData.valueOf SpecialListValue).isValid = true) :
    carried val = value := by
  have hlist : val.isList = value.isList := by simp only [RpcValue.isList, hvalue]
  have hasList : val.asList = value.asList := by simp only [RpcValue.asList, hvalue]
  have hnot : ¬(val.isList = true ∧ val.asList.length = 1 ∧
      (RpcList.value val.asList 0).metaData.isEmpty = false ∧
      (val.metaData.valueOf SpecialListValue).isValid = false) := by
    rw [hlist, hasList]
    rintro ⟨h, hlength, hmeta, hunmarked⟩
    rw [hspecial h hlength hmeta] at hunmarked
    contradiction
  obtain ⟨md, v⟩ := value
  rw [carried, if_neg hnot, RpcValue.setMetaData, hvalue]
  rw [show md = .empty from RpcMetaData.isEmpty_iff.mp hempty]
  rfl

/-- The four shapes are told apart. -/
theorem carried_toRpcValue (hvalid : dc.isValid = true) : carried dc.toRpcValue = dc.m_value := by
  have hvalue := value_toRpcValue dc
  have hmark := special_toRpcValue dc
  have hcarrier : dc.m_value.isValid = true := hvalid
  by_cases hempty : dc.m_value.metaData.isEmpty = true
  · by_cases hshape : dc.m_value.asList.length = 1 ∧
        (RpcList.value dc.m_value.asList 0).metaData.isEmpty = false
    · have hmarked : carrier dc.m_value =
          dc.m_value.setMetaValue SpecialListValue (.ofVariant (.bool true)) := by
        rw [carrier, if_pos hcarrier, if_pos hempty, if_pos hshape]
      rw [hmarked] at hvalue hmark
      refine carried_of_value hvalue hempty ?_
      intro _ _ _
      rw [hmark, valueOf_setMetaValue_self rfl]
      rfl
    · have hplain : carrier dc.m_value = dc.m_value := by
        rw [carrier, if_pos hcarrier, if_pos hempty, if_neg hshape]
      rw [hplain] at hvalue
      refine carried_of_value hvalue hempty ?_
      intro _ hlength hmeta
      exact absurd ⟨hlength, hmeta⟩ hshape
  · have hwrapped : carrier dc.m_value = .ofVariant (.list [dc.m_value]) := by
      rw [carrier, if_pos hcarrier, if_neg hempty]
    rw [hwrapped] at hvalue hmark
    have hlist : dc.toRpcValue.isList = true := by simp only [RpcValue.isList, hvalue]; rfl
    have hasList : dc.toRpcValue.asList = [dc.m_value] := by
      simp only [RpcValue.asList, hvalue]
      rfl
    have hcond : dc.toRpcValue.isList = true ∧ dc.toRpcValue.asList.length = 1 ∧
        (RpcList.value dc.toRpcValue.asList 0).metaData.isEmpty = false ∧
        (dc.toRpcValue.metaData.valueOf SpecialListValue).isValid = false := by
      rw [hasList, hmark]
      exact ⟨hlist, rfl, eq_false_of_ne_true hempty, rfl⟩
    rw [carried, if_pos hcond, hasList]
    rfl

theorem setDateTime_dateTime (dc' : DataChange) :
    (dc'.setDateTime dc.dateTime).m_dateTime =
      if dc.hasDateTime then dc.m_dateTime else ⟨0, 0⟩ := by
  unfold dateTime
  by_cases h : dc.hasDateTime = true
  · rw [if_pos h, if_pos h]
    rfl
  · rw [if_neg h, if_neg h]
    rfl

theorem int32_of_uint (n : Int32) : n.toUInt32.toUInt64.toInt64.toInt32 = n := by
  apply Int32.toBitVec_inj.mp
  rw [Int64.toBitVec_toInt32, UInt64.toBitVec_toInt64, UInt32.toBitVec_toUInt64,
    Int32.toBitVec_toUInt32, BitVec.signExtend_eq_setWidth_of_le _ (by decide),
    BitVec.setWidth_setWidth_of_le _ (by decide)]
  exact BitVec.setWidth_eq _

theorem setShortTime_shortTime (dc' : DataChange) :
    (dc'.setShortTime dc.shortTime).m_shortTime =
      if dc.hasShortTime then dc.m_shortTime else NO_SHORT_TIME := by
  unfold shortTime
  by_cases h : dc.hasShortTime = true
  · rw [if_pos h, if_pos h]
    exact int32_of_uint dc.m_shortTime
  · rw [if_neg h, if_neg h]
    rfl

/-- The flags are written as an `int`; they are read bit by bit. -/
theorem toInt_valueFlags :
    (dc.toRpcValue.metaData.valueOf ValueFlags).toInt = .ok dc.m_valueFlags.toInt32 := by
  rw [valueFlags_toRpcValue]
  by_cases h : dc.m_valueFlags = 0
  · rw [if_neg (not_not_intro h), h]
    rfl
  · rw [if_pos h, RpcValue.toInt_ofInt32]

theorem setValue_of_looked {val : RpcValue} (h : ∃ b, isDataChange val = .ok b) :
    ∃ dc', dc.setValue val = .ok dc' ∧ dc'.m_value = val := by
  obtain ⟨b, hb⟩ := h
  unfold setValue
  split
  · exact ⟨_, rfl, rfl⟩
  · rename_i e he
    rw [hb] at he
    contradiction

/-- A change whose time is this one, or unset like this one. -/
theorem dateTime_eq {dc dc' : DataChange}
    (h : dc'.m_dateTime = if dc.hasDateTime then dc.m_dateTime else ⟨0, 0⟩) :
    dc'.dateTime = dc.dateTime := by
  by_cases hset : dc.hasDateTime = true
  · rw [if_pos hset] at h
    have hboth : dc'.hasDateTime = dc.hasDateTime := by rw [hasDateTime, hasDateTime, h]
    rw [dateTime, dateTime, hboth, h]
  · have hunset : dc'.hasDateTime = false := by
      rw [if_neg hset] at h
      rw [hasDateTime, h]
      rfl
    rw [dateTime, dateTime, hunset, if_neg hset]
    rfl

theorem shortTime_eq {dc dc' : DataChange}
    (h : dc'.m_shortTime = if dc.hasShortTime then dc.m_shortTime else NO_SHORT_TIME) :
    dc'.shortTime = dc.shortTime := by
  by_cases hset : dc.hasShortTime = true
  · rw [if_pos hset] at h
    have hboth : dc'.hasShortTime = dc.hasShortTime := by rw [hasShortTime, hasShortTime, h]
    rw [shortTime, shortTime, hboth, h]
  · have hunset : dc'.hasShortTime = false := by
      rw [if_neg hset] at h
      rw [hasShortTime, h]
      rfl
    rw [shortTime, shortTime, hunset, if_neg hset]
    rfl

/-- A short time is kept if it is set, or the one that says that it is not. -/
theorem ite_hasShortTime_iff :
    (if dc.hasShortTime then dc.m_shortTime else NO_SHORT_TIME) = dc.m_shortTime ↔
      NO_SHORT_TIME ≤ dc.m_shortTime := by
  by_cases hset : dc.hasShortTime = true
  · have hlt : NO_SHORT_TIME < dc.m_shortTime := by simpa [hasShortTime] using hset
    rw [if_pos hset]
    exact iff_of_true rfl (Int32.le_of_lt hlt)
  · have hle : ¬NO_SHORT_TIME < dc.m_shortTime := by simpa [hasShortTime] using hset
    rw [if_neg hset]
    constructor
    · intro h
      rw [← h]
      exact Int32.le_refl NO_SHORT_TIME
    · intro h
      exact Int32.le_antisymm h (Int32.not_lt.mp hle)

/-- A data change with a valid value is read as it was written. A time that does not come after
the epoch is no time, before and after; it is not kept. -/
theorem dataChange_readBack (hvalid : dc.isValid = true) :
    ∃ dc', fromRpcValue dc.toRpcValue = .ok dc' ∧ dc'.m_value = dc.m_value ∧
      dc'.dateTime = dc.dateTime ∧ dc'.shortTime = dc.shortTime ∧
      dc'.m_valueFlags = dc.m_valueFlags ∧
      (dc'.m_dateTime = dc.m_dateTime ↔ dc.hasDateTime = true ∨ dc.m_dateTime = ⟨0, 0⟩) ∧
      (dc'.m_shortTime = dc.m_shortTime ↔ NO_SHORT_TIME ≤ dc.m_shortTime) := by
  have hlooked : ∃ b, isDataChange (carried dc.toRpcValue) = .ok b := by
    rw [carried_toRpcValue dc hvalid]
    exact dc.looked
  obtain ⟨ret, hret, hvalue⟩ := setValue_of_looked empty hlooked
  have hread : fromRpcValue dc.toRpcValue = .ok
      (((ret.setDateTime dc.dateTime).setShortTime dc.shortTime).setValueFlags dc.m_valueFlags) := by
    rw [fromRpcValue, isDataChange_toRpcValue, dateTime_toRpcValue, shortTime_toRpcValue,
      toInt_valueFlags]
    change (empty.setValue (carried dc.toRpcValue) >>= _) = _
    rw [hret]
    rfl
  have htime := setDateTime_dateTime dc ret
  have hshort := setShortTime_shortTime dc (ret.setDateTime dc.dateTime)
  refine ⟨_, hread, ?_, ?_, ?_, rfl, ?_, ?_⟩
  · rw [← carried_toRpcValue dc hvalid, ← hvalue]
    rfl
  · exact dateTime_eq htime
  · exact shortTime_eq hshort
  · change (ret.setDateTime dc.dateTime).m_dateTime = dc.m_dateTime ↔ _
    rw [htime]
    by_cases hset : dc.hasDateTime = true
    · rw [if_pos hset]
      exact iff_of_true rfl (.inl hset)
    · rw [if_neg hset, or_iff_right hset]
      exact eq_comm
  · change ((ret.setDateTime dc.dateTime).setShortTime dc.shortTime).m_shortTime =
      dc.m_shortTime ↔ _
    rw [hshort]
    exact ite_hasShortTime_iff dc

/-- A list whose element has metadata, changed at some time. -/
def changedList : DataChange where
  m_value := .ofVariant (.list [.mk (.mk [(1, .ofVariant (.int 3))] []) (.int 7)])
  m_dateTime := ⟨4, 1000⟩
  m_shortTime := 65535
  m_valueFlags := 3
  looked := ⟨false, rfl⟩

theorem dataChange_readBack_list :
    ∃ dc', fromRpcValue changedList.toRpcValue = .ok dc' ∧ dc'.m_value = changedList.m_value ∧
      dc'.dateTime = changedList.dateTime ∧ dc'.shortTime = changedList.shortTime ∧
      dc'.m_valueFlags = changedList.m_valueFlags ∧
      (dc'.m_dateTime = changedList.m_dateTime ↔
        changedList.hasDateTime = true ∨ changedList.m_dateTime = ⟨0, 0⟩) ∧
      (dc'.m_shortTime = changedList.m_shortTime ↔ NO_SHORT_TIME ≤ changedList.m_shortTime) :=
  dataChange_readBack changedList rfl

end DataChange

end LibShv
