import LibShv.CoreQt
import LibShv.CChainPack.DateTime

/-!
# LibShv.CoreQt.RoundTrip

What is left of a value that is put into a variant and taken out again: an integer comes back
cut to 32 bits, unless it is inside of an `IMap`, and the rest comes back as it is.
-/

namespace LibShv

/-! ## integers and date-times -/

theorem toInt64_toInt32_eq_iff (n : Int64) :
    n.toInt32.toInt64 = n ↔ -2 ^ 31 ≤ n.toInt ∧ n.toInt < 2 ^ 31 := by
  rw [← Int64.toInt_inj, Int32.toInt_toInt64, Int64.toInt_toInt32]
  constructor
  · intro h
    rw [← h]
    exact ⟨Int.le_bmod (by decide), Int.bmod_lt (by decide)⟩
  · rintro ⟨hlo, hhi⟩
    exact Int.bmod_eq_of_le (by omega) (by omega)

theorem toUInt64_toUInt32_eq_iff (n : UInt64) : n.toUInt32.toUInt64 = n ↔ n.toNat < 2 ^ 32 := by
  rw [← UInt64.toNat_inj, UInt32.toNat_toUInt64, UInt64.toNat_toUInt32]
  constructor
  · intro h
    rw [← h]
    exact Nat.mod_lt _ (by decide)
  · exact Nat.mod_eq_of_lt

/-- The offset is a whole number of quarters, and neither field is cut. -/
theorem ofQDateTime_roundTrip (dt : RpcDateTime) :
    ofQDateTime (some ⟨dt.msecsSinceEpoch, dt.utcOffsetMin * 60⟩) = dt := by
  have hoffset : ((dt.utcOffsetMin * 60).tdiv 60).tdiv 15 = dt.tz.toInt := by
    rw [Int.mul_tdiv_cancel _ (by decide), RpcDateTime.utcOffsetMin,
      Int.mul_tdiv_cancel _ (by decide)]
  rw [ofQDateTime, RpcDateTime.setUtcOffsetMin, RpcDateTime.fromMSecsSinceEpoch,
    dt.toInt_msecsSinceEpoch]
  simp only [hoffset, BitVec.ofInt_toInt]

/-! ## keys and entries -/

theorem validUtf8_toStdString (s : QString) : ValidUtf8 s.toStdString := ⟨s, rfl⟩

namespace QVariantMap

/-- A key that is not there goes to the end. -/
theorem set_of_not_mem {key : QString} {map : QVariantMap} (h : key ∉ map.map (·.1))
    (value : QVariant) : set key value map = map ++ [(key, value)] := by
  induction map with
  | nil => rfl
  | cons e map ih =>
    rw [List.map_cons, List.mem_cons, not_or] at h
    rw [set, if_neg fun he => h.1 he.symm, ih h.2]
    rfl

end QVariantMap

/-- What comes back goes into the map as it comes. -/
theorem toRpcMap_eq (map : RpcMap) (m : QVariantMap) :
    toRpcMap map m =
      SortedMap.insertAll map (m.map fun e => (e.1.toStdString, qVariantToRpcValue e.2)) := by
  induction m generalizing map with
  | nil => rfl
  | cons e m ih => exact ih _

/-- The keys that come back are texts. -/
theorem validUtf8_of_mem_toRpcMap {m : QVariantMap} {x : Bytes × RpcValue}
    (h : x ∈ toRpcMap [] m) : ValidUtf8 x.1 := by
  rw [toRpcMap_eq] at h
  have hsorted := SortedMap.sorted_nil.insertAll_of_sorted
    (m.map fun e => (e.1.toStdString, qVariantToRpcValue e.2))
  have hfound := SortedMap.find?_of_mem hsorted.keys_nodup h
  rcases SortedMap.find?_foldl_insert_eq_some Prod.fst Prod.snd hfound with
    ⟨y, hy, hkey, -⟩ | hnone
  · obtain ⟨e, -, rfl⟩ := List.mem_map.mp hy
    exact hkey ▸ validUtf8_toStdString e.1
  · cases hnone

section RoundTrip

variable (qt : QtTexts)

theorem QtTexts.toStdString_fromStdString {bs : Bytes} (h : ValidUtf8 bs) :
    (qt.fromStdString bs).toStdString = bs := by
  obtain ⟨s, rfl⟩ := h
  rw [qt.fromStdString_toStdString]

/-- Different keys that are texts stay different. -/
theorem toQVariantMap_eq (m : List (Bytes × RpcValue)) (map : QVariantMap)
    (hvalid : ∀ e ∈ m, ValidUtf8 e.1) (hnodup : (m.map (·.1)).Nodup)
    (hnew : ∀ e ∈ m, qt.fromStdString e.1 ∉ map.map (·.1)) :
    toQVariantMap qt map m =
      map ++ m.map fun e => (qt.fromStdString e.1, rpcValueToQVariant qt e.2) := by
  induction m generalizing map with
  | nil => rw [toQVariantMap, List.map_nil, List.append_nil]
  | cons e m ih =>
    obtain ⟨k, v⟩ := e
    rw [List.map_cons, List.nodup_cons] at hnodup
    have hk : qt.fromStdString k ∉ map.map (·.1) := hnew (k, v) List.mem_cons_self
    rw [toQVariantMap, QVariantMap.set_of_not_mem hk, ih, List.append_assoc]
    · rfl
    · exact fun e he => hvalid e (List.mem_cons_of_mem _ he)
    · exact hnodup.2
    · intro e he hmem
      rw [List.map_append, List.mem_append] at hmem
      rcases hmem with hmem | hmem
      · exact hnew e (List.mem_cons_of_mem _ he) hmem
      · have hkeys : qt.fromStdString e.1 = qt.fromStdString k := by simpa using hmem
        have heq : e.1 = k := by
          rw [← qt.toStdString_fromStdString (hvalid e (List.mem_cons_of_mem _ he)), hkeys,
            qt.toStdString_fromStdString (hvalid (k, v) List.mem_cons_self)]
        exact hnodup.1 (List.mem_map.mpr ⟨e, he, heq⟩)

/-- A map comes back when its keys are texts and its values come back. -/
theorem map_roundTrip_iff {m : List (Bytes × RpcValue)} (h : SortedMap.Sorted m) :
    toRpcMap [] (toQVariantMap qt [] m) = m ↔
      ∀ e ∈ m, ValidUtf8 e.1 ∧ qVariantToRpcValue (rpcValueToQVariant qt e.2) = e.2 := by
  have hback (hvalid : ∀ e ∈ m, ValidUtf8 e.1) : toRpcMap [] (toQVariantMap qt [] m) =
      SortedMap.insertAll []
        (m.map fun e => (e.1, qVariantToRpcValue (rpcValueToQVariant qt e.2))) := by
    rw [toQVariantMap_eq qt m [] hvalid h.keys_nodup (fun e _ hmem => nomatch hmem),
      List.nil_append, toRpcMap_eq, List.map_map]
    refine congrArg (SortedMap.insertAll ([] : RpcMap)) (List.map_congr_left fun e he => Prod.ext ?_ rfl)
    exact qt.toStdString_fromStdString (hvalid e he)
  have hsorted : SortedMap.Sorted
      (m.map fun e => (e.1, qVariantToRpcValue (rpcValueToQVariant qt e.2))) :=
    List.pairwise_map.mpr h
  constructor
  · intro heq
    have hvalid : ∀ e ∈ m, ValidUtf8 e.1 := by
      intro e he
      rw [← heq] at he
      exact validUtf8_of_mem_toRpcMap he
    rw [hback hvalid, SortedMap.Sorted.insertAll (by simpa using hsorted), List.nil_append] at heq
    intro e he
    refine ⟨hvalid e he, ?_⟩
    have hid : m.map (fun e => (e.1, qVariantToRpcValue (rpcValueToQVariant qt e.2))) =
        m.map id := by rw [heq, List.map_id]
    exact congrArg Prod.snd (List.map_inj_left.mp hid e he)
  · intro hall
    have hid : m.map (fun e => (e.1, qVariantToRpcValue (rpcValueToQVariant qt e.2))) = m := by
      refine (List.map_congr_left fun e he => ?_).trans (List.map_id m)
      exact Prod.ext rfl (hall e he).2
    rw [hback fun e he => (hall e he).1, hid]
    exact SortedMap.Sorted.insertAll (m := []) h

end RoundTrip

/-! ## values -/

/-- A node with a type that both directions know, and with texts that are texts. -/
def Variant.Convertible : Variant → Prop
  | .invalid | .double _ | .decimal _ => False
  | .string s => ValidUtf8 s
  | .map m => SortedMap.Sorted m
  | .imap m => SortedMap.Sorted m
  | .null | .uint _ | .int _ | .bool _ | .blob _ | .dateTime _ | .list _ => True

/-- A tree of such nodes, none of them with metadata. -/
abbrev RpcValue.Convertible (v : RpcValue) : Prop :=
  v.Each Variant.Convertible fun md => md = .empty

mutual

/-- Integers fit in 32 bits and keys are texts, except inside of an `IMap`. -/
def RpcValue.Fits32 : RpcValue → Prop
  | .mk _ v => v.Fits32

def Variant.Fits32 : Variant → Prop
  | .int n => -2 ^ 31 ≤ n.toInt ∧ n.toInt < 2 ^ 31
  | .uint n => n.toNat < 2 ^ 32
  | .list vs => fits32List vs
  | .map m => fits32Map m
  | _ => True

def fits32List : List RpcValue → Prop
  | [] => True
  | v :: vs => v.Fits32 ∧ fits32List vs

def fits32Map : List (Bytes × RpcValue) → Prop
  | [] => True
  | (k, v) :: m => (ValidUtf8 k ∧ v.Fits32) ∧ fits32Map m

end

section Iff

variable (qt : QtTexts)

mutual

/-- A value comes back if and only if its integers fit in 32 bits. -/
theorem roundTrip_iff : (v : RpcValue) → v.Convertible →
    (qVariantToRpcValue (rpcValueToQVariant qt v) = v ↔ v.Fits32)
  | .mk md v, ⟨hmd, _, hv, hvs⟩ => by
    cases v with
    | invalid | double _ | decimal _ => cases hv
    | null | bool _ | blob _ =>
      simp [rpcValueToQVariant, variantToQVariant, qVariantToRpcValue, RpcValue.ofVariant,
        RpcValue.Fits32, Variant.Fits32, hmd, RpcMetaData.empty]
    | uint n =>
      simpa [rpcValueToQVariant, variantToQVariant, qVariantToRpcValue, RpcValue.ofVariant,
        RpcValue.Fits32, Variant.Fits32, hmd, RpcMetaData.empty] using toUInt64_toUInt32_eq_iff n
    | int n =>
      simpa [rpcValueToQVariant, variantToQVariant, qVariantToRpcValue, RpcValue.ofVariant,
        RpcValue.Fits32, Variant.Fits32, hmd, RpcMetaData.empty] using toInt64_toInt32_eq_iff n
    | string s =>
      simp [rpcValueToQVariant, variantToQVariant, qVariantToRpcValue, RpcValue.ofVariant,
        RpcValue.Fits32, Variant.Fits32, hmd, RpcMetaData.empty, qt.toStdString_fromStdString hv]
    | dateTime dt =>
      simp [rpcValueToQVariant, variantToQVariant, qVariantToRpcValue, RpcValue.ofVariant,
        RpcValue.Fits32, Variant.Fits32, hmd, RpcMetaData.empty, ofQDateTime_roundTrip]
    | list vs =>
      simpa [rpcValueToQVariant, variantToQVariant, qVariantToRpcValue, RpcValue.ofVariant,
        RpcValue.Fits32, Variant.Fits32, hmd, RpcMetaData.empty] using roundTripList_iff vs hvs
    | map m =>
      simpa [rpcValueToQVariant, variantToQVariant, qVariantToRpcValue, RpcValue.ofVariant,
        RpcValue.Fits32, Variant.Fits32, hmd, RpcMetaData.empty] using
        (map_roundTrip_iff qt hv).trans (roundTripMap_iff m hvs)
    | imap m =>
      have hsorted : SortedMap.Sorted ([] ++ m) := hv
      simp [rpcValueToQVariant, variantToQVariant, qVariantToRpcValue, RpcValue.ofVariant,
        RpcValue.Fits32, Variant.Fits32, hmd, RpcMetaData.empty, hsorted.insertAll]

theorem roundTripList_iff : (vs : List RpcValue) →
    eachList Variant.Convertible (fun md => md = .empty) vs →
    (toRpcList (toQVariantList qt vs) = vs ↔ fits32List vs)
  | [], _ => by simp [toQVariantList, toRpcList, fits32List]
  | v :: vs, ⟨hv, hvs⟩ => by
    rw [toQVariantList, toRpcList, fits32List, List.cons.injEq, roundTrip_iff v hv,
      roundTripList_iff vs hvs]

theorem roundTripMap_iff : (m : List (Bytes × RpcValue)) →
    eachMap Variant.Convertible (fun md => md = .empty) m →
    ((∀ e ∈ m, ValidUtf8 e.1 ∧ qVariantToRpcValue (rpcValueToQVariant qt e.2) = e.2) ↔
      fits32Map m)
  | [], _ => by simp [fits32Map]
  | (k, v) :: m, ⟨hv, hm⟩ => by
    rw [List.forall_mem_cons, fits32Map, roundTrip_iff v hv, roundTripMap_iff m hm]

end

/-- The value is given back, and the conversion says that it is. -/
def RpcValue.ComesBack (v : RpcValue) : Prop :=
  qVariantToRpcValueOk (rpcValueToQVariant qt v) = (true, v)

/-- No value is put into a variant that is not converted. -/
theorem qVariantToRpcValueOk_eq (v : RpcValue) :
    qVariantToRpcValueOk (rpcValueToQVariant qt v) =
      (true, qVariantToRpcValue (rpcValueToQVariant qt v)) := by
  obtain ⟨md, v⟩ := v
  cases v <;> rfl

theorem comesBack_iff (v : RpcValue) (h : v.Convertible) : v.ComesBack qt ↔ v.Fits32 := by
  rw [RpcValue.ComesBack, qVariantToRpcValueOk_eq, Prod.mk.injEq, ← roundTrip_iff qt v h]
  exact and_iff_right rfl

end Iff

/-- The texts of Qt by the decoder of Lean. -/
def QtTexts.ofDecoder : QtTexts where
  fromStdString bs := ((String.fromUTF8? ⟨bs.toArray⟩).getD "").toList
  fromStdString_toStdString s := by
    have hbytes : (⟨s.toStdString.toArray⟩ : ByteArray) = (String.ofList s).toByteArray := by
      rw [String.toByteArray_ofList]
      exact ByteArray.ext List.data_toByteArray.symm
    have hdecoded : String.fromUTF8? (String.ofList s).toByteArray = some (String.ofList s) := by
      rw [String.fromUTF8?, dif_pos (String.ofList s).isValidUTF8]
      rfl
    rw [hbytes, hdecoded, Option.getD_some, String.toList_ofList]

/-- A list of a small integer, of a map, and of an `IMap` that holds a large integer. -/
def nestedSample : RpcValue :=
  .ofVariant (.list [.ofVariant (.int (-5)),
    .ofVariant (.map [([], .ofVariant (.uint 7))]),
    .ofVariant (.imap [(1, .ofVariant (.int (2 ^ 40)))])])

theorem convertible_nestedSample : nestedSample.Convertible := by
  simp [nestedSample, RpcValue.Convertible, RpcValue.ofVariant, RpcValue.Each, RpcMetaData.Each,
    Variant.Each, eachList, eachMap, eachIMap, Variant.Convertible, RpcMetaData.empty]

theorem fits32_nestedSample : nestedSample.Fits32 := by
  have hint : -2 ^ 31 ≤ (-5 : Int64).toInt ∧ (-5 : Int64).toInt < 2 ^ 31 := by decide
  exact ⟨hint, ⟨⟨validUtf8_toStdString [], (by decide : (7 : UInt64).toNat < 2 ^ 32)⟩, trivial⟩,
    trivial, trivial⟩

theorem comesBack_nested : nestedSample.Convertible ∧ nestedSample.ComesBack .ofDecoder :=
  ⟨convertible_nestedSample,
    (comesBack_iff .ofDecoder nestedSample convertible_nestedSample).mpr fits32_nestedSample⟩

/-- The bits above the lowest 32 are lost. -/
theorem not_comesBack : ¬ ∀ (qt : QtTexts) (v : RpcValue), v.Convertible → v.ComesBack qt := by
  intro h
  have hconv : (RpcValue.ofVariant (.int (2 ^ 32))).Convertible := by
    simp [RpcValue.Convertible, RpcValue.ofVariant, RpcValue.Each, RpcMetaData.Each,
      Variant.Each, eachMap, eachIMap, Variant.Convertible, RpcMetaData.empty]
  have hback := h .ofDecoder _ hconv
  rw [RpcValue.ComesBack, qVariantToRpcValueOk_eq, Prod.mk.injEq,
    roundTrip_iff .ofDecoder _ hconv] at hback
  exact absurd hback.2.2 (by decide)

end LibShv
