import LibShv.RpcValue

/-!
# LibShv.RpcValue.Valid

Values in which nothing is Invalid, at any depth.
-/

namespace LibShv

mutual

/-- The value, its metadata and everything below are valid. -/
def RpcValue.AllValid : RpcValue → Prop
  | .mk md v => md.AllValid ∧ v.AllValid

def RpcMetaData.AllValid : RpcMetaData → Prop
  | .mk im sm => AllValidIMap im ∧ AllValidMap sm

def Variant.AllValid : Variant → Prop
  | .invalid => False
  | .list vs => AllValidList vs
  | .map m => AllValidMap m
  | .imap m => AllValidIMap m
  | _ => True

def AllValidList : List RpcValue → Prop
  | [] => True
  | v :: vs => v.AllValid ∧ AllValidList vs

def AllValidMap : List (Bytes × RpcValue) → Prop
  | [] => True
  | (_, v) :: m => v.AllValid ∧ AllValidMap m

def AllValidIMap : List (Int32 × RpcValue) → Prop
  | [] => True
  | (_, v) :: m => v.AllValid ∧ AllValidIMap m

end

theorem allValidList_iff {vs : List RpcValue} : AllValidList vs ↔ ∀ v ∈ vs, v.AllValid := by
  induction vs with
  | nil => simp [AllValidList]
  | cons v vs ih => rw [AllValidList, ih, List.forall_mem_cons]

theorem allValidMap_iff {m : List (Bytes × RpcValue)} :
    AllValidMap m ↔ ∀ e ∈ m, e.2.AllValid := by
  induction m with
  | nil => simp [AllValidMap]
  | cons e m ih => rw [AllValidMap, ih, List.forall_mem_cons]

theorem allValidIMap_iff {m : List (Int32 × RpcValue)} :
    AllValidIMap m ↔ ∀ e ∈ m, e.2.AllValid := by
  induction m with
  | nil => simp [AllValidIMap]
  | cons e m ih => rw [AllValidIMap, ih, List.forall_mem_cons]

theorem RpcMetaData.allValid_iff {md : RpcMetaData} :
    md.AllValid ↔ (∀ e ∈ md.iValues, e.2.AllValid) ∧ ∀ e ∈ md.sValues, e.2.AllValid := by
  obtain ⟨im, sm⟩ := md
  rw [RpcMetaData.AllValid, allValidIMap_iff, allValidMap_iff]
  rfl

theorem RpcValue.AllValid.isValid {v : RpcValue} (h : v.AllValid) : v.isValid = true := by
  obtain ⟨md, v⟩ := v
  cases v with
  | invalid => exact absurd h.2 id
  | _ => rfl

theorem RpcMetaData.allValid_empty : RpcMetaData.empty.AllValid := ⟨trivial, trivial⟩

theorem RpcValue.allValid_ofVariant {v : Variant} (h : v.AllValid) :
    (RpcValue.ofVariant v).AllValid := ⟨⟨trivial, trivial⟩, h⟩

theorem RpcValue.AllValid.setMetaData {v : RpcValue} {md : RpcMetaData} (h : v.AllValid)
    (hmd : md.AllValid) : (v.setMetaData md).AllValid := by
  obtain ⟨_, v⟩ := v
  exact ⟨hmd, h.2⟩

section
variable {κ : Type} [Ord κ] {m : List (κ × RpcValue)}

theorem allValid_insert (h : ∀ e ∈ m, e.2.AllValid) (key : κ) {v : RpcValue} (hv : v.AllValid) :
    ∀ e ∈ SortedMap.insert key v m, e.2.AllValid := by
  intro e he
  rcases SortedMap.mem_insert he with hval | hmem
  · rw [hval]
    exact hv
  · exact h e hmem

end

theorem RpcMetaData.AllValid.setIValue {md : RpcMetaData} (h : md.AllValid) (key : Int32)
    {v : RpcValue} (hv : v.AllValid) : (md.setIValue key v).AllValid := by
  rw [RpcMetaData.allValid_iff] at h
  rw [RpcMetaData.setIValue, if_pos hv.isValid, RpcMetaData.allValid_iff]
  exact ⟨allValid_insert h.1 key hv, h.2⟩

theorem RpcMetaData.AllValid.setSValue {md : RpcMetaData} (h : md.AllValid) (key : Bytes)
    {v : RpcValue} (hv : v.AllValid) : (md.setSValue key v).AllValid := by
  rw [RpcMetaData.allValid_iff] at h
  rw [RpcMetaData.setSValue, if_pos hv.isValid, RpcMetaData.allValid_iff]
  exact ⟨h.1, allValid_insert h.2 key hv⟩

end LibShv
