import LibShv.CponReader.RoundTrip

/-!
# LibShv.Cpon

The whole format: what was written is read back, with and without indent.
-/

namespace LibShv

open ByteReader

/-! ## what the format carries -/

/-- The variants whose text says their type: no date-times, decimals and doubles, and the
integers that `int64_t` and its absolute value hold. The keys of a `std::map` increase. -/
def Variant.Structural : Variant → Prop
  | .null => True
  | .bool _ => True
  | .int n => n ≠ Int64.minValue
  | .uint n => n.toNat < 2 ^ 63
  | .string _ => True
  | .blob _ => True
  | .list _ => True
  | .map m => SortedMap.Sorted m
  | .imap m => SortedMap.Sorted m
  | _ => False

/-- A tree of structural variants, metadata at any node. -/
abbrev RpcValue.Structural (v : RpcValue) : Prop :=
  v.Each Variant.Structural fun md => SortedMap.Sorted md.iValues ∧ SortedMap.Sorted md.sValues

/-- Strings and keys whose chunks `chunk_cnt` counts without coming round to zero. -/
def Variant.Countable : Variant → Prop
  | .string bytes => bytes.length < cponMaxSize
  | .map m => ∀ e ∈ m, e.1.length < cponMaxSize
  | _ => True

abbrev RpcValue.Countable (v : RpcValue) : Prop :=
  v.Each Variant.Countable fun md => ∀ e ∈ md.sValues, e.1.length < cponMaxSize

/-- Blobs whose size an `unsigned int` holds. -/
def Variant.BlobFits : Variant → Prop
  | .blob bytes => bytes.length < 2 ^ 32
  | _ => True

abbrev RpcValue.BlobsFit (v : RpcValue) : Prop := v.Each Variant.BlobFits fun _ => True

theorem Variant.cponStd {v : Variant} (h : v.Structural) (h' : v.Countable) : v.CponStd := by
  cases v with
  | string bytes => exact h'
  | map m => exact ⟨h, h'⟩
  | double _ => exact h.elim
  | decimal _ => exact h.elim
  | dateTime _ => exact h.elim
  | _ => exact h

theorem RpcValue.cponStd {v : RpcValue} (h : v.Structural) (h' : v.Countable) : v.CponStd :=
  each_imp (fun _ hv => Variant.cponStd hv.1 hv.2) (fun _ hmd => ⟨hmd.1.1, hmd.1.2, hmd.2⟩) v
    (each_and v h h')

namespace CponReader

open CCpon CponWriter AbstractStreamReader

theorem blobPart_eq_iff (bytes : Bytes) : blobPart bytes = bytes ↔ bytes.length < 2 ^ 32 := by
  constructor
  · intro h
    rw [← h]
    exact length_blobPart_lt bytes
  · intro h
    rw [blobPart, Nat.mod_eq_of_lt h, List.take_length]

/-- A variant is kept when it fits, if it is structural. -/
theorem kept_iff {v : Variant} (h : v.Structural) : v.Kept decodedLeaf ↔ v.BlobFits := by
  cases v with
  | blob bytes =>
    rw [Variant.BlobFits, ← blobPart_eq_iff]
    exact Variant.blob.injEq _ _ ▸ Iff.rfl
  | invalid => exact h.elim
  | _ => exact iff_of_true (by first | rfl | trivial) trivial

theorem kept_of_blobFits {v : Variant} (h : v.CponStd) (h' : v.BlobFits) : v.Kept decodedLeaf := by
  cases v with
  | blob bytes => exact congrArg Variant.blob ((blobPart_eq_iff bytes).mpr h')
  | invalid => exact h.elim
  | _ => first | rfl | trivial

/-- A structural value is decoded to itself exactly when all of its blobs fit. -/
theorem decoded_eq_iff {v : RpcValue} (h : v.Structural) : decoded v = v ↔ v.BlobsFit := by
  rw [mapLeaves_eq_iff]
  constructor
  · intro hkept
    exact each_imp (fun _ hv => (kept_iff hv.1).mp hv.2) (fun _ _ => trivial) v
      (each_and v h hkept)
  · intro hfit
    exact each_imp (fun _ hv => (kept_iff hv.1).mpr hv.2) (fun _ _ => trivial) v
      (each_and v h hfit)

/-! ## reading a text -/

/-- The text of a value is read as its decoding, to its last byte. -/
theorem readFrom_toCpon {v : RpcValue} (hv : v.CponStd) {indent : Bytes}
    (hindent : ∀ b ∈ indent, b ≤ space) :
    ∃ c, readFrom (toCpon indent v) = .ok (decoded v) c ∧ c.input = [] := by
  have hencodes : reader.Encodes Delim (toCpon indent v) (decoded v) :=
    encodes_write hindent 0 v hv blanks_nil
  have hfuel : 3 * (toCpon indent v).length ≤ fuelFor (toCpon indent v).length := by
    rw [fuelFor]
    omega
  obtain ⟨a, c, h, hi, -, hafter⟩ := (hencodes.2 _ hfuel).whole (openStream (toCpon indent v)) []
    (List.append_nil _).symm (Follows.nil _) ⟨rfl, trivial⟩
  obtain rfl := hafter.value
  exact ⟨c, h, hi⟩

/-- What was written with the indent string is read back. -/
def RoundTrips (indent : Bytes) (v : RpcValue) : Prop :=
  ∃ c, readFrom (toCpon indent v) = .ok v c

/-- A structural value whose strings can be counted comes back exactly when its blobs fit. -/
theorem roundTrips_iff {v : RpcValue} (hv : v.Structural) (hcount : v.Countable) {indent : Bytes}
    (hindent : ∀ b ∈ indent, b ≤ space) : RoundTrips indent v ↔ v.BlobsFit := by
  obtain ⟨c, h, -⟩ := readFrom_toCpon (RpcValue.cponStd hv hcount) hindent
  rw [← decoded_eq_iff hv]
  constructor
  · rintro ⟨c', h'⟩
    exact (EStateM.Result.ok.inj (h.symm.trans h')).1
  · intro heq
    exact ⟨c, h.trans (congrArg (EStateM.Result.ok · c) heq)⟩

/-- A list with metadata on an element, indented by a tab. -/
theorem roundTrips_list :
    let v : RpcValue := .ofVariant (.list
      [.mk (.mk [(8, .ofVariant (.uint 42))] [([0x61], .ofVariant .null)]) (.int (-7)),
       .ofVariant (.map [([], .ofVariant (.string [0x61, 0]))]),
       .ofVariant (.blob [0xff, 0x22])])
    RoundTrips [0x09] v := by
  refine (roundTrips_iff ?_ ?_ (List.forall_mem_singleton.mpr (by decide))).mpr ?_
  · simp [RpcValue.Structural, RpcValue.Each, RpcMetaData.Each, Variant.Each, eachList, eachMap,
      eachIMap, RpcValue.ofVariant, Variant.Structural]
  · simp [RpcValue.Countable, RpcValue.Each, RpcMetaData.Each, Variant.Each, eachList, eachMap,
      eachIMap, RpcValue.ofVariant, Variant.Countable, cponMaxSize]
  · simp [RpcValue.BlobsFit, RpcValue.Each, RpcMetaData.Each, Variant.Each, eachList, eachMap,
      eachIMap, RpcValue.ofVariant, Variant.BlobFits]

/-- A blob of 2^32 bytes is written as an empty one. -/
theorem not_roundTrips :
    ¬ ∀ v : RpcValue, v.Structural → ∀ indent : Bytes, (∀ b ∈ indent, b ≤ space) →
      RoundTrips indent v := by
  intro hall
  have hstructural : (RpcValue.ofVariant (.blob (List.replicate (2 ^ 32) 0))).Structural :=
    ⟨⟨SortedMap.sorted_nil, SortedMap.sorted_nil⟩, ⟨trivial, trivial⟩, trivial, trivial⟩
  have hcount : (RpcValue.ofVariant (.blob (List.replicate (2 ^ 32) 0))).Countable :=
    ⟨nofun, ⟨trivial, trivial⟩, trivial, trivial⟩
  have hfits := (@roundTrips_iff _ hstructural hcount [] nofun).mp
    (hall _ hstructural [] nofun)
  have hlt : (List.replicate (2 ^ 32) (0 : UInt8)).length < 2 ^ 32 := hfits.2.2.1
  rw [List.length_replicate] at hlt
  exact absurd hlt (Nat.lt_irrefl _)

end CponReader

end LibShv
