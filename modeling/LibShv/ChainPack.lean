import LibShv.ChainPackReader.Total

/-!
# LibShv.ChainPack

The whole format: what was written is read back, exactly and to the last byte.
-/

namespace LibShv

open ByteReader

/-! ## what the format carries -/

/-- The variants the format carries unchanged. An invalid value is written as
null, the least 64-bit integer has no absolute value to pack, and a date-time
has to fit the integer it is packed into. -/
def Variant.Packable : Variant → Prop
  | .invalid => False
  | .int n => n ≠ Int64.minValue
  | .decimal d => d.mantissa ≠ Int64.minValue
  | .dateTime dt => dt.PackFits
  | _ => True

/-- Every node is carried unchanged. -/
abbrev RpcValue.Packable (v : RpcValue) : Prop := v.Each Variant.Packable fun _ => True

namespace ChainPackReader

open ChainPackWriter

theorem decodedDateTime_of_packFits {dt : RpcDateTime} (h : dt.PackFits) :
    decodedDateTime dt = dt := by
  rw [decodedDateTime, dt.unpacked_of_packFits h]
  exact dt.fromMSecsSinceEpoch_self

theorem kept_of_packable (v : Variant) (h : v.Packable) : v.Kept decodedLeaf := by
  cases v with
  | invalid => exact h.elim
  | int n => exact congrArg Variant.int (if_neg h)
  | dateTime dt => exact congrArg Variant.dateTime (decodedDateTime_of_packFits h)
  | decimal d =>
    have hmant : unpackedInt d.mantissa = d.mantissa := if_neg h
    exact congrArg (fun i => Variant.decimal ⟨i, d.exponent⟩) hmant
  | list vs => exact trivial
  | map m => exact trivial
  | imap m => exact trivial
  | _ => rfl

/-- A value the format carries is decoded to itself. -/
theorem decoded_eq {v : RpcValue} (h : v.Packable) : decoded v = v :=
  (mapLeaves_eq_iff v).mpr (each_imp kept_of_packable (fun _ h => h) v h)

theorem keepsStd_decodedLeaf : KeepsStd decodedLeaf := by
  intro v h hs
  cases v <;> exact ⟨h, hs⟩

theorem std_decoded (v : RpcValue) (h : v.Std) : (decoded v).Std :=
  std_mapLeaves keepsStd_decodedLeaf v h

/-! ## reading a stream -/

theorem ready_openStream (input : Bytes) : (openStream input).reg.Ready := ⟨rfl, trivial⟩

/-- Whatever follows, the bytes of a value are read as its decoding, and no byte more is taken. -/
theorem readFrom_write {v : RpcValue} (hstd : v.Std) (rest : Bytes) :
    ∃ c, readFrom (write v ++ rest) = .ok (decoded v) c ∧ c.input = rest ∧ c.atEnd = false := by
  have hfuel : 3 * (write v).length ≤ AbstractStreamReader.fuelFor (write v ++ rest).length := by
    rw [AbstractStreamReader.fuelFor, List.length_append]
    omega
  obtain ⟨a, c, h, hi, -, hafter⟩ := ((encodes_write v hstd).2 _ hfuel).whole
    (openStream (write v ++ rest)) rest rfl (fun _ _ => trivial) (ready_openStream _)
  obtain rfl := hafter.value
  exact ⟨c, h, hi, (AbstractStreamReader.within_of_readFrom progress rfl h).atEnd⟩

/-- The round trip: a value is read back as it was written, metadata of every
node included, and exactly its bytes are consumed. -/
theorem read_write_roundTrip (v : RpcValue) (hstd : v.Std) (hpack : v.Packable) (rest : Bytes) :
    ∃ c, readFrom (write v ++ rest) = .ok v c ∧ c.input = rest := by
  obtain ⟨c, h, hi, -⟩ := readFrom_write hstd rest
  rw [decoded_eq hpack] at h
  exact ⟨c, h, hi⟩

/-- A list with metadata on an element, followed by a terminator. -/
theorem read_write_roundTrip_list :
    let v : RpcValue := .ofVariant (.list
      [.mk (.mk [(8, .ofVariant (.uint 42))] [([0x61], .ofVariant .null)]) (.int (-7)),
       .ofVariant (.map [([], .ofVariant (.string [0x61, 0]))])])
    ∃ c, readFrom (write v ++ [CP_TERM]) = .ok v c ∧ c.input = [CP_TERM] := by
  refine read_write_roundTrip _ ?_ ?_ _
  · simp [RpcValue.Std, RpcValue.Each, RpcMetaData.Each, Variant.Each, eachList, eachMap, eachIMap,
      RpcValue.ofVariant, Variant.Std, RpcMetaData.Std, maxSize]
  · simp [RpcValue.Packable, RpcValue.Each, RpcMetaData.Each, Variant.Each, eachList, eachMap,
      eachIMap, RpcValue.ofVariant, Variant.Packable]

end ChainPackReader

end LibShv
