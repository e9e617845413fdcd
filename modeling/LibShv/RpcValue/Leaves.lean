import LibShv.RpcValue

/-!
# LibShv.RpcValue.Leaves

A change of every scalar, string and blob of a value tree, metadata included.
A format that does not carry every value writes such a change of it.
-/

namespace LibShv

variable (f : Variant → Variant)

mutual

/-- `f` on every variant that is no container. -/
def RpcValue.mapLeaves : RpcValue → RpcValue
  | .mk md v => .mk md.mapLeaves v.mapLeaves

def RpcMetaData.mapLeaves : RpcMetaData → RpcMetaData
  | .mk im sm => .mk (mapLeavesIMap im) (mapLeavesMap sm)

def Variant.mapLeaves : Variant → Variant
  | .list vs => .list (mapLeavesList vs)
  | .map m => .map (mapLeavesMap m)
  | .imap m => .imap (mapLeavesIMap m)
  | v => f v

def mapLeavesList : List RpcValue → List RpcValue
  | [] => []
  | v :: vs => v.mapLeaves :: mapLeavesList vs

def mapLeavesMap : List (Bytes × RpcValue) → List (Bytes × RpcValue)
  | [] => []
  | (k, v) :: m => (k, v.mapLeaves) :: mapLeavesMap m

def mapLeavesIMap : List (Int32 × RpcValue) → List (Int32 × RpcValue)
  | [] => []
  | (k, v) :: m => (k, v.mapLeaves) :: mapLeavesIMap m

end

theorem mapLeavesList_eq_map (vs : List RpcValue) :
    mapLeavesList f vs = vs.map (RpcValue.mapLeaves f) := by
  induction vs with
  | nil => rfl
  | cons v vs ih => rw [mapLeavesList, ih]; rfl

theorem mapLeavesMap_eq_map (m : List (Bytes × RpcValue)) :
    mapLeavesMap f m = m.map fun e => (e.1, e.2.mapLeaves f) := by
  induction m with
  | nil => rfl
  | cons e m ih => rw [mapLeavesMap, ih]; rfl

theorem mapLeavesIMap_eq_map (m : List (Int32 × RpcValue)) :
    mapLeavesIMap f m = m.map fun e => (e.1, e.2.mapLeaves f) := by
  induction m with
  | nil => rfl
  | cons e m ih => rw [mapLeavesIMap, ih]; rfl

variable {f}

theorem sorted_mapLeavesMap {m : List (Bytes × RpcValue)} (h : SortedMap.Sorted m) :
    SortedMap.Sorted (mapLeavesMap f m) := by
  rw [mapLeavesMap_eq_map]
  exact List.pairwise_map.mpr h

theorem sorted_mapLeavesIMap {m : List (Int32 × RpcValue)} (h : SortedMap.Sorted m) :
    SortedMap.Sorted (mapLeavesIMap f m) := by
  rw [mapLeavesIMap_eq_map]
  exact List.pairwise_map.mpr h

theorem keys_mapLeavesMap {P : Bytes → Prop} {m : List (Bytes × RpcValue)} (h : ∀ e ∈ m, P e.1) :
    ∀ e ∈ mapLeavesMap f m, P e.1 := by
  rw [mapLeavesMap_eq_map]
  intro e he
  obtain ⟨e', he', rfl⟩ := List.mem_map.mp he
  exact h e' he'

theorem isValid_mapLeaves (hf : ∀ v, (f v).isValid = true) (v : RpcValue) :
    (v.mapLeaves f).isValid = true := by
  obtain ⟨md, v⟩ := v
  cases v <;> first | rfl | exact hf _

theorem isValid_mapLeavesMap (hf : ∀ v, (f v).isValid = true) (m : RpcMap) :
    ∀ e ∈ mapLeavesMap f m, e.2.isValid = true := by
  rw [mapLeavesMap_eq_map]
  intro e he
  obtain ⟨e', -, rfl⟩ := List.mem_map.mp he
  exact isValid_mapLeaves hf e'.2

theorem isValid_mapLeavesIMap (hf : ∀ v, (f v).isValid = true) (m : RpcIMap) :
    ∀ e ∈ mapLeavesIMap f m, e.2.isValid = true := by
  rw [mapLeavesIMap_eq_map]
  intro e he
  obtain ⟨e', -, rfl⟩ := List.mem_map.mp he
  exact isValid_mapLeaves hf e'.2

/-! ## what is kept -/

/-- `f` leaves a leaf as it is. -/
def Variant.Kept (f : Variant → Variant) : Variant → Prop
  | .list _ => True
  | .map _ => True
  | .imap _ => True
  | v => f v = v

mutual

/-- A value is kept exactly when all of its leaves are. -/
theorem mapLeaves_eq_iff : (v : RpcValue) →
    (v.mapLeaves f = v ↔ v.Each (Variant.Kept f) fun _ => True)
  | .mk md v => by
    rw [RpcValue.mapLeaves, RpcValue.mk.injEq, mapLeavesMetaData_eq_iff md, mapLeavesVariant_eq_iff v,
      RpcValue.Each, true_and]

theorem mapLeavesMetaData_eq_iff : (md : RpcMetaData) →
    (md.mapLeaves f = md ↔ md.Each (Variant.Kept f) fun _ => True)
  | .mk im sm => by
    rw [RpcMetaData.mapLeaves, RpcMetaData.mk.injEq, mapLeavesIMap_eq_iff im,
      mapLeavesMap_eq_iff sm, RpcMetaData.Each]

theorem mapLeavesVariant_eq_iff : (v : Variant) →
    (v.mapLeaves f = v ↔ v.Kept f ∧ v.Each (Variant.Kept f) fun _ => True)
  | .list vs => by
    rw [Variant.mapLeaves, Variant.list.injEq, mapLeavesList_eq_iff vs]
    exact (and_iff_right trivial).symm
  | .map m => by
    rw [Variant.mapLeaves, Variant.map.injEq, mapLeavesMap_eq_iff m]
    exact (and_iff_right trivial).symm
  | .imap m => by
    rw [Variant.mapLeaves, Variant.imap.injEq, mapLeavesIMap_eq_iff m]
    exact (and_iff_right trivial).symm
  | .invalid => (and_iff_left trivial).symm
  | .null => (and_iff_left trivial).symm
  | .uint _ => (and_iff_left trivial).symm
  | .int _ => (and_iff_left trivial).symm
  | .double _ => (and_iff_left trivial).symm
  | .bool _ => (and_iff_left trivial).symm
  | .blob _ => (and_iff_left trivial).symm
  | .string _ => (and_iff_left trivial).symm
  | .dateTime _ => (and_iff_left trivial).symm
  | .decimal _ => (and_iff_left trivial).symm

theorem mapLeavesList_eq_iff : (vs : List RpcValue) →
    (mapLeavesList f vs = vs ↔ eachList (Variant.Kept f) (fun _ => True) vs)
  | [] => by simp [mapLeavesList, eachList]
  | v :: vs => by
    rw [mapLeavesList, List.cons.injEq, mapLeaves_eq_iff v, mapLeavesList_eq_iff vs, eachList]

theorem mapLeavesMap_eq_iff : (m : List (Bytes × RpcValue)) →
    (mapLeavesMap f m = m ↔ eachMap (Variant.Kept f) (fun _ => True) m)
  | [] => by simp [mapLeavesMap, eachMap]
  | (k, v) :: m => by
    rw [mapLeavesMap, List.cons.injEq, Prod.mk.injEq, mapLeaves_eq_iff v, mapLeavesMap_eq_iff m,
      eachMap]
    simp only [true_and]

theorem mapLeavesIMap_eq_iff : (m : List (Int32 × RpcValue)) →
    (mapLeavesIMap f m = m ↔ eachIMap (Variant.Kept f) (fun _ => True) m)
  | [] => by simp [mapLeavesIMap, eachIMap]
  | (k, v) :: m => by
    rw [mapLeavesIMap, List.cons.injEq, Prod.mk.injEq, mapLeaves_eq_iff v, mapLeavesIMap_eq_iff m,
      eachIMap]
    simp only [true_and]

end

/-! ## what is still a value -/

/-- `f` keeps what the library guarantees of a variant. -/
def KeepsStd (f : Variant → Variant) : Prop :=
  ∀ v : Variant, v.Std → v.Each Variant.Std RpcMetaData.Std →
    (f v).Std ∧ (f v).Each Variant.Std RpcMetaData.Std

mutual

/-- The changed tree is a value again. -/
theorem std_mapLeaves (hf : KeepsStd f) : (v : RpcValue) → v.Std → (v.mapLeaves f).Std
  | .mk md v, ⟨hmd, hmds, hv, hvs⟩ => by
    rw [RpcValue.mapLeaves]
    obtain ⟨h₁, h₂⟩ := std_mapLeavesMetaData hf md hmd hmds
    obtain ⟨h₃, h₄⟩ := std_mapLeavesVariant hf v hv hvs
    exact ⟨h₁, h₂, h₃, h₄⟩

theorem std_mapLeavesMetaData (hf : KeepsStd f) :
    (md : RpcMetaData) → md.Std → md.Each Variant.Std RpcMetaData.Std →
    (md.mapLeaves f).Std ∧ (md.mapLeaves f).Each Variant.Std RpcMetaData.Std
  | .mk im sm, ⟨him, hsm, hkeys⟩, ⟨hime, hsme⟩ =>
    ⟨⟨sorted_mapLeavesIMap him, sorted_mapLeavesMap hsm,
        keys_mapLeavesMap (P := fun k => k.length < maxSize) hkeys⟩,
      std_mapLeavesIMap hf im hime, std_mapLeavesMap hf sm hsme⟩

theorem std_mapLeavesVariant (hf : KeepsStd f) :
    (v : Variant) → v.Std → v.Each Variant.Std RpcMetaData.Std →
    (v.mapLeaves f).Std ∧ (v.mapLeaves f).Each Variant.Std RpcMetaData.Std
  | .list vs, _, h => ⟨trivial, std_mapLeavesList hf vs h⟩
  | .map m, h, hm =>
    ⟨⟨sorted_mapLeavesMap h.1, keys_mapLeavesMap (P := fun k => k.length < maxSize) h.2⟩,
      std_mapLeavesMap hf m hm⟩
  | .imap m, h, hm => ⟨sorted_mapLeavesIMap h, std_mapLeavesIMap hf m hm⟩
  | .invalid, h, hs => hf _ h hs
  | .null, h, hs => hf _ h hs
  | .uint _, h, hs => hf _ h hs
  | .int _, h, hs => hf _ h hs
  | .double _, h, hs => hf _ h hs
  | .bool _, h, hs => hf _ h hs
  | .blob _, h, hs => hf _ h hs
  | .string _, h, hs => hf _ h hs
  | .dateTime _, h, hs => hf _ h hs
  | .decimal _, h, hs => hf _ h hs

theorem std_mapLeavesList (hf : KeepsStd f) :
    (vs : List RpcValue) → eachList Variant.Std RpcMetaData.Std vs →
    eachList Variant.Std RpcMetaData.Std (mapLeavesList f vs)
  | [], _ => trivial
  | v :: vs, ⟨hv, hvs⟩ => ⟨std_mapLeaves hf v hv, std_mapLeavesList hf vs hvs⟩

theorem std_mapLeavesMap (hf : KeepsStd f) :
    (m : List (Bytes × RpcValue)) → eachMap Variant.Std RpcMetaData.Std m →
    eachMap Variant.Std RpcMetaData.Std (mapLeavesMap f m)
  | [], _ => trivial
  | (_, v) :: m, ⟨hv, hm⟩ => ⟨std_mapLeaves hf v hv, std_mapLeavesMap hf m hm⟩

theorem std_mapLeavesIMap (hf : KeepsStd f) :
    (m : List (Int32 × RpcValue)) → eachIMap Variant.Std RpcMetaData.Std m →
    eachIMap Variant.Std RpcMetaData.Std (mapLeavesIMap f m)
  | [], _ => trivial
  | (_, v) :: m, ⟨hv, hm⟩ => ⟨std_mapLeaves hf v hv, std_mapLeavesIMap hf m hm⟩

end

end LibShv
