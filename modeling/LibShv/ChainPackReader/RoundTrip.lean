import LibShv.ChainPackWriter
import LibShv.ChainPackReader.Tokens
import LibShv.RpcValue.Leaves

/-!
# LibShv.ChainPackReader.RoundTrip

Reading back what `ChainPackWriter` wrote.

`decoded v` is what the reader makes of the bytes of `v`. It differs from `v`
in what the format cannot carry: an invalid value is written as null, and the
least 64-bit integer and date-times too far away change their value. The
theorem for the whole reader is one induction over the tree.
-/

namespace LibShv.ChainPackReader

open ByteReader ChainPackWriter AbstractStreamReader

/-! ## what is read back -/

/-- What unpacking makes of a packed date-time. -/
def decodedDateTime (dt : RpcDateTime) : RpcDateTime :=
  match dt.unpacked with
  | some (msecs, minutes) => .fromMSecsSinceEpoch msecs minutes
  | none => dt

/-- The variant read from the bytes of a variant that is no container. -/
def decodedLeaf : Variant → Variant
  | .invalid => .null
  | .int n => .int (unpackedInt n)
  | .dateTime dt => .dateTime (decodedDateTime dt)
  | .decimal d => .decimal ⟨unpackedInt d.mantissa, d.exponent⟩
  | v => v

/-- The value read from the bytes of a value. -/
abbrev decoded (v : RpcValue) : RpcValue := v.mapLeaves decodedLeaf

abbrev decodedMetaData (md : RpcMetaData) : RpcMetaData := md.mapLeaves decodedLeaf

abbrev decodedVariant (v : Variant) : Variant := v.mapLeaves decodedLeaf

theorem isValid_decodedLeaf (v : Variant) : (decodedLeaf v).isValid = true := by
  cases v <;> rfl

theorem isValid_decodedVariant (v : Variant) : (decodedVariant v).isValid = true := by
  cases v <;> rfl

/-! ## the first byte -/

/-- The first byte of a packed integer neither starts metadata nor ends a container. -/
theorem packInt_cons (i : Int64) :
    ∃ b bs, packInt i = b :: bs ∧ b ≠ CP_MetaMap ∧ b ≠ CP_TERM := by
  by_cases h : 0 ≤ i ∧ i < 64
  · have hlo : 0 ≤ i.toInt := Int64.le_iff_toInt_le.mp h.1
    have hhi : i.toInt < 64 := Int64.lt_iff_toInt_lt.mp h.2
    have hi : Int64.ofNat i.toInt.toNat = i := by
      apply Int64.toInt_inj.mp
      rw [toInt_ofNat_of_lt (by omega), Int.toNat_of_nonneg hlo]
    obtain ⟨hlt, -, -⟩ := tinyInt (k := i.toInt.toNat) (by omega)
    rw [hi] at hlt
    refine ⟨_, [], if_pos h, fun he => ?_, fun he => ?_⟩
    · rw [he] at hlt
      exact absurd hlt (by decide)
    · rw [he] at hlt
      exact absurd hlt (by decide)
  · exact ⟨CP_Int, _, if_neg h, by decide, by decide⟩

theorem packUint_cons (u : UInt64) :
    ∃ b bs, packUint u = b :: bs ∧ b ≠ CP_MetaMap ∧ b ≠ CP_TERM := by
  by_cases h : u < 64
  · obtain ⟨hlt, -, -⟩ := tinyUInt (k := u.toNat) (UInt64.lt_iff_toNat_lt.mp h)
    rw [UInt64.ofNat_toNat] at hlt
    refine ⟨_, [], if_pos h, fun he => ?_, fun he => ?_⟩
    · rw [he] at hlt
      exact absurd hlt (by decide)
    · rw [he] at hlt
      exact absurd hlt (by decide)
  · exact ⟨CP_UInt, _, if_neg h, by decide, by decide⟩

theorem writeVariant_cons (v : Variant) :
    ∃ b bs, writeVariant v = b :: bs ∧ b ≠ CP_MetaMap ∧ b ≠ CP_TERM := by
  cases v with
  | uint n => exact packUint_cons n
  | int n => exact packInt_cons n
  | bool b => cases b <;> exact ⟨_, [], rfl, by decide, by decide⟩
  | _ => exact ⟨_, _, rfl, by decide, by decide⟩

/-! ## items -/

/-- Whatever may follow what may follow `Any`. -/
theorem follows_any (bs : Bytes) : Follows Any bs := fun _ _ => trivial

/-- A value that starts with an item of its own. -/
theorem encodes_of_variant {bs : Bytes} {v : Variant} (h : reader.EncodesVariant Any bs v)
    (hcons : ∃ b bs', bs = b :: bs' ∧ b ≠ CP_MetaMap ∧ b ≠ CP_TERM) :
    reader.Encodes Any bs (.ofVariant v) := by
  obtain ⟨b, bs', rfl, hb, -⟩ := hcons
  exact h.encodes lawful (passes hb)

theorem encodes_string {s : Bytes} (hs : s.length < maxSize) :
    reader.EncodesVariant Any (packString s) (.string s) := by
  have hrest := chunks_deliver continues_string s _ hs (CCpcpString.sized_nonneg hs)
  have h : reader.EncodesVariant Any _ _ := hrest.encodesVariant lawful chunkKind_string
    reader.unfinishedString .string (encodesItem_of_leaves (consumes_next_packString hs)) (by simp)
    (CCpcpString.live_deliver hs) fun _ => rfl
  simpa [packString, List.append_assoc] using h

theorem encodes_blob {s : Bytes} (hs : s.length < maxSize) :
    reader.EncodesVariant Any (packBlob s) (.blob s) := by
  have hrest := chunks_deliver continues_blob s _ hs (CCpcpString.sized_nonneg hs)
  have h : reader.EncodesVariant Any _ _ := hrest.encodesVariant lawful chunkKind_blob
    reader.unfinishedBlob .blob (encodesItem_of_leaves (consumes_next_packBlob hs)) (by simp)
    (CCpcpString.live_deliver hs) fun _ => rfl
  simpa [packBlob, List.append_assoc] using h

theorem encodes_int (i : Int64) : reader.EncodesVariant Any (packInt i) (.int (unpackedInt i)) :=
  (encodesItem_of_leaves (consumes_next_packInt i)).scalar lawful (fun _ => rfl) trivial nofun

theorem encodes_mapKey {k : Bytes} (hk : k.length < maxSize) :
    reader.Encodes Any (writeMapKey k) (.ofVariant (.string k)) :=
  encodes_of_variant (encodes_string hk) ⟨_, _, rfl, by decide, by decide⟩

theorem encodes_imapKey (k : Int32) :
    reader.Encodes Any (writeIMapKey k) (.ofVariant (.int k.toInt64)) := by
  have h := encodes_int k.toInt64
  rw [unpackedInt, if_neg k.toInt64_ne_minValue] at h
  exact encodes_of_variant h (packInt_cons _)

/-- The terminator of a container. -/
theorem ends : reader.Ends Any [CP_TERM] :=
  (passes (b := CP_TERM) (by decide)).ends lawful
    (encodesItem_of_leaves consumes_next_containerEnd) (follows_any _)

theorem encodesItem_schema (schema : UInt8) {item : CCpcpItem}
    (h : unpackItem schema = return item) : reader.EncodesItem Any [schema] item :=
  encodesItem_of_leaves (consumes_next_schema h)

/-! ## the whole tree -/

mutual

/-- The bytes of a value encode its decoding. -/
theorem encodes_write : (v : RpcValue) → v.Std → reader.Encodes Any (write v) (decoded v)
  | .mk md v, ⟨hmd, hmds, hv, hvs⟩ => by
    obtain ⟨b, bs, hcons, -⟩ := writeVariant_cons v
    by_cases hempty : md.isEmpty = true
    · obtain rfl : md = .empty := RpcMetaData.isEmpty_iff.mp hempty
      exact encodes_of_variant (encodes_writeVariant v hv hvs) (writeVariant_cons v)
    · exact (encodes_writeMetaData md hmd hmds (by simpa using hempty)).encodes lawful
        (encodes_writeVariant v hv hvs) (by rw [hcons]; nofun) (isValid_decodedVariant v)

/-- Non-empty metadata. -/
theorem encodes_writeMetaData : (md : RpcMetaData) → md.Std →
    md.Each Variant.Std RpcMetaData.Std → md.isEmpty = false →
    reader.EncodesMetaData Any (writeMetaData md) (decodedMetaData md)
  | .mk im sm, ⟨him, hsm, hkeys⟩, ⟨hime, hsme⟩, hempty => by
    have hne : ¬ (im.length + sm.length == 0) = true := by
      rw [RpcMetaData.isEmpty] at hempty
      simpa using hempty
    have hbody := encodes_writeIMapElements im hime (encodes_writeMapElements sm hsme hkeys)
    rw [← List.append_assoc] at hbody
    rw [writeMetaData, if_neg hne]
    exact .intro begins nofun hbody (isValid_mapLeavesIMap isValid_decodedLeaf im)
      (isValid_mapLeavesMap isValid_decodedLeaf sm)
      (sorted_mapLeavesIMap him) (sorted_mapLeavesMap hsm)

theorem encodes_writeVariant : (v : Variant) → v.Std → v.Each Variant.Std RpcMetaData.Std →
    reader.EncodesVariant Any (writeVariant v) (decodedVariant v)
  | .invalid, _, _ =>
    (encodesItem_of_leaves consumes_next_null).scalar lawful (fun _ => rfl) trivial nofun
  | .null, _, _ =>
    (encodesItem_of_leaves consumes_next_null).scalar lawful (fun _ => rfl) trivial nofun
  | .uint u, _, _ =>
    (encodesItem_of_leaves (consumes_next_packUint u)).scalar lawful (fun _ => rfl) trivial nofun
  | .int i, _, _ => encodes_int i
  | .double bits, _, _ =>
    (encodesItem_of_leaves (consumes_next_packDouble bits)).scalar lawful (fun _ => rfl) trivial nofun
  | .bool b, _, _ =>
    (encodesItem_of_leaves (consumes_next_packBoolean b)).scalar lawful (fun _ => rfl) trivial nofun
  | .blob _, hs, _ => encodes_blob hs
  | .string _, hs, _ => encodes_string hs
  | .dateTime dt, _, _ => by
    obtain ⟨⟨msecs, offset⟩, hdt⟩ := Option.isSome_iff_exists.mp dt.unpacked_isSome
    have h := encodesItem_of_leaves (F := Any) (consumes_next_packDateTime dt hdt)
    refine h.scalar lawful (fun n => ?_) trivial nofun
    simp only [Variant.mapLeaves, decodedLeaf, decodedDateTime, hdt]
    rfl
  | .decimal d, _, _ =>
    (encodesItem_of_leaves (consumes_next_packDecimal d.mantissa d.exponent)).scalar lawful
      (fun _ => rfl) trivial nofun
  | .list vs, _, hvs =>
    (encodesItem_schema CP_List rfl).list lawful nofun (encodes_writeListElements vs hvs)
  | .map m, ⟨hsort, hkeys⟩, hm =>
    (encodesItem_schema CP_Map rfl).map lawful nofun (sorted_mapLeavesMap hsort)
      (encodes_writeMapElements m hm hkeys)
  | .imap m, hsort, hm => by
    have h := encodes_writeIMapElements m hm (m := []) (.nil ends)
    rw [List.append_nil] at h
    exact (encodesItem_schema CP_IMap rfl).imap lawful nofun
      (sorted_mapLeavesIMap hsort) h

theorem encodes_writeListElements : (vs : List RpcValue) →
    eachList Variant.Std RpcMetaData.Std vs →
    reader.EncodesList Any (writeListElements vs ++ [CP_TERM]) (mapLeavesList decodedLeaf vs)
  | [], _ => .nil ends
  | v :: vs, ⟨hv, hvs⟩ => by
    rw [writeListElements, List.append_assoc]
    exact .cons (encodes_write v hv) (follows_any _) (List.append_ne_nil_of_right_ne_nil _ nofun)
      (encodes_writeListElements vs hvs)

theorem encodes_writeMapElements : (m : List (Bytes × RpcValue)) →
    eachMap Variant.Std RpcMetaData.Std m → (∀ e ∈ m, e.1.length < maxSize) →
    reader.EncodesEntries Any (writeMapElements m ++ [CP_TERM])
      (mapEntries (mapLeavesMap decodedLeaf m))
  | [], _, _ => .nil ends
  | (k, v) :: m, ⟨hv, hm⟩, hkeys => by
    rw [writeMapElements, List.append_assoc, List.append_assoc]
    exact .cons (encodes_mapKey (hkeys (k, v) List.mem_cons_self)) (follows_any _)
      (encodes_write v hv) (follows_any _) (List.append_ne_nil_of_right_ne_nil _ nofun)
      (encodes_writeMapElements m hm fun e he => hkeys e (List.mem_cons_of_mem _ he))

/-- Entries under integer keys, with more entries or the end behind them. -/
theorem encodes_writeIMapElements : (im : List (Int32 × RpcValue)) →
    eachIMap Variant.Std RpcMetaData.Std im → {rest : Bytes} →
    {m : List (RpcValue × RpcValue)} → reader.EncodesEntries Any rest m →
    reader.EncodesEntries Any (writeIMapElements im ++ rest)
      (imapEntries (mapLeavesIMap decodedLeaf im) ++ m)
  | [], _, _, _, hrest => hrest
  | (k, v) :: im, ⟨hv, him⟩, rest, m, hrest => by
    have hne : rest ≠ [] := hrest.ne_nil
    rw [writeIMapElements, List.append_assoc, List.append_assoc]
    exact .cons (encodes_imapKey k) (follows_any _) (encodes_write v hv) (follows_any _)
      (List.append_ne_nil_of_right_ne_nil _ hne) (encodes_writeIMapElements im him hrest)

end

end LibShv.ChainPackReader
