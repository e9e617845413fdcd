import LibShv.DChainPack.Values

/-!
# LibShv.DChainPack.Written

What D writes, read by `ChainPackReader`. The entries of maps and metadata come in any order;
the reader puts them in order.
-/

namespace LibShv.DChainPack

open AbstractStreamReader ChainPackReader

/-- The first byte of a value neither starts metadata nor ends a container. -/
theorem writeStore_cons (s : D.Store) :
    ∃ b bs, D.writeStore s = b :: bs ∧ b ≠ CP_MetaMap ∧ b ≠ CP_TERM := by
  cases s with
  | integer n =>
    rw [D.writeStore, packInt_eq]
    exact packInt_cons n
  | uinteger n =>
    rw [D.writeStore, packUint_eq]
    exact packUint_cons n
  | bool b => cases b <;> exact ⟨_, [], rfl, by decide, by decide⟩
  | _ => exact ⟨_, _, rfl, by decide, by decide⟩

theorem isValid_variantOf {s : D.Store} (h : StoreDCommon s) : (variantOf s).isValid = true := by
  cases s <;> first | rfl | exact h.elim

theorem encodes_integer {n : Int64} (h : n ≠ Int64.minValue) :
    reader.EncodesVariant Any (packInt n) (.int n) := by
  have hint := encodes_int n
  rw [unpackedInt, if_neg h] at hint
  exact hint

theorem encodes_decimal {mantisa : Int64} (h : mantisa ≠ Int64.minValue) (exponent : Int32) :
    reader.EncodesVariant Any (packDecimal mantisa exponent) (.decimal ⟨mantisa, exponent⟩) := by
  have hdecimal := encodes_writeVariant (.decimal ⟨mantisa, exponent⟩) trivial trivial
  have hdecoded : decodedVariant (.decimal ⟨mantisa, exponent⟩) =
      .decimal ⟨unpackedInt mantisa, exponent⟩ := rfl
  rw [hdecoded, unpackedInt, if_neg h] at hdecimal
  exact hdecimal

theorem encodes_dateTime {dt : D.DateTime} (h : DateTimeCommon dt) :
    reader.EncodesVariant Any (D.writeDateTime dt) (.dateTime (dateTimeOf dt)) := by
  obtain ⟨heq, hfits, hticks⟩ := h
  have hbytes : D.writeDateTime dt =
      packDateTime (dateTimeOf dt).msecsSinceEpoch (dateTimeOf dt).utcOffsetMin := by
    rw [D.writeDateTime, heq, packedDateTime_eq hticks, DChainPack.packIntData_eq, ← heq]
    rfl
  have hitem := encodesItem_of_leaves (F := Any)
    (consumes_next_packDateTime _ ((dateTimeOf dt).unpacked_of_packFits hfits))
  rw [hbytes]
  refine hitem.scalar lawful (fun n => ?_) trivial nofun
  exact congrArg (fun x => (return .ofVariant (.dateTime x) : Unpack RpcValue))
    (dateTimeOf dt).fromMSecsSinceEpoch_self

theorem encodes_metaKey {k : D.Key} (hk : k.skey.length < maxSize) :
    reader.Encodes Any (D.writeMetaKey k) (metaKeyValue (metaKeyOf k)) := by
  rw [D.writeMetaKey, metaKeyOf]
  by_cases h : k.isIntKey = true
  · rw [if_pos h, if_pos h, packInt_eq]
    exact encodes_imapKey k.ikey
  · rw [if_neg h, if_neg h, writeString_eq]
    exact encodes_mapKey hk

mutual

/-- What D writes for a value encodes its C++ value. -/
theorem encodes_dWrite : (v : D.RpcValue) → DCommon v → reader.Encodes Any (D.write v) (valueOf v)
  | .mk [] store, ⟨_, hs⟩ =>
    encodes_of_variant (encodes_writeStore store hs) (writeStore_cons store)
  | .mk (e :: m) store, ⟨hm, hs⟩ => by
    obtain ⟨b, bs, hcons, -⟩ := writeStore_cons store
    exact (encodes_writeMetaEntries (e :: m) hm).encodes lawful begins nofun
      (encodes_writeStore store hs) (by rw [hcons]; nofun) (isValid_variantOf hs)

theorem encodes_writeStore : (s : D.Store) → StoreDCommon s →
    reader.EncodesVariant Any (D.writeStore s) (variantOf s)
  | .null, _ => encodes_writeVariant .null trivial trivial
  | .bool b, _ => encodes_writeVariant (.bool b) trivial trivial
  | .integer n, h => by
    rw [D.writeStore, packInt_eq]
    exact encodes_integer h
  | .uinteger n, _ => by
    rw [D.writeStore, packUint_eq]
    exact encodes_writeVariant (.uint n) trivial trivial
  | .float bits, _ => by
    rw [D.writeStore, writeDouble_eq]
    exact encodes_writeVariant (.double bits) trivial trivial
  | .decimal mantisa exponent, h => by
    rw [D.writeStore, writeDecimal_eq]
    exact encodes_decimal h exponent
  | .dateTime _, h => encodes_dateTime h
  | .string s, h => by
    rw [D.writeStore, writeString_eq]
    exact encodes_string h
  | .list vs, h => (encodesItem_schema CP_List rfl).list lawful nofun (encodes_writeElements vs h)
  | .map m, h => (encodesItem_schema CP_Map rfl).mapOf lawful nofun (encodes_writeMapEntries m h)
  | .imap m, h => (encodesItem_schema CP_IMap rfl).imapOf lawful nofun (encodes_writeIMapEntries m h)
  | .invalid, h => h.elim

theorem encodes_writeElements : (vs : List D.RpcValue) → ListDCommon vs →
    reader.EncodesList Any (D.writeElements vs ++ [D.PackingSchema.TERM]) (listOf vs)
  | [], _ => .nil ends
  | v :: vs, ⟨hv, hvs⟩ => by
    rw [D.writeElements, List.append_assoc]
    exact .cons (encodes_dWrite v hv) (follows_any _) (List.append_ne_nil_of_right_ne_nil _ nofun)
      (encodes_writeElements vs hvs)

theorem encodes_writeMapEntries : (m : List (Bytes × D.RpcValue)) → MapDCommon m →
    reader.EncodesEntries Any (D.writeMapEntries m ++ [D.PackingSchema.TERM]) (mapEntries (mapOf m))
  | [], _ => .nil ends
  | (k, v) :: m, ⟨hk, hv, hm⟩ => by
    rw [D.writeMapEntries, List.append_assoc, List.append_assoc, writeString_eq]
    exact .cons (encodes_mapKey hk) (follows_any _) (encodes_dWrite v hv) (follows_any _)
      (List.append_ne_nil_of_right_ne_nil _ nofun) (encodes_writeMapEntries m hm)

theorem encodes_writeIMapEntries : (m : List (Int32 × D.RpcValue)) → IMapDCommon m →
    reader.EncodesEntries Any (D.writeIMapEntries m ++ [D.PackingSchema.TERM])
      (imapEntries (imapOf m))
  | [], _ => .nil ends
  | (k, v) :: m, ⟨hv, hm⟩ => by
    rw [D.writeIMapEntries, List.append_assoc, List.append_assoc, packInt_eq]
    exact .cons (encodes_imapKey k) (follows_any _) (encodes_dWrite v hv) (follows_any _)
      (List.append_ne_nil_of_right_ne_nil _ nofun) (encodes_writeIMapEntries m hm)

theorem encodes_writeMetaEntries : (m : List (D.Key × D.RpcValue)) → MetaDCommon m →
    reader.EncodesEntries Any (D.writeMetaEntries m ++ [D.PackingSchema.TERM])
      (metaEntries (metaValuesOf m))
  | [], _ => .nil ends
  | (k, v) :: m, ⟨hk, hv, hm⟩ => by
    rw [D.writeMetaEntries, List.append_assoc, List.append_assoc]
    exact .cons (encodes_metaKey hk) (follows_any _) (encodes_dWrite v hv) (follows_any _)
      (List.append_ne_nil_of_right_ne_nil _ nofun) (encodes_writeMetaEntries m hm)

end

end LibShv.DChainPack
