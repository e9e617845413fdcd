import LibShv.DChainPack.Reading

/-!
# LibShv.DChainPack.Received

What `ChainPackWriter` writes, read by D. The loops are bounded by the number of bytes: every
element takes one at least, and so does the end of a container.
-/

namespace LibShv.DChainPack

open ByteReader ChainPackWriter ChainPackReader

/-! ## loops -/

theorem peeked_term {b : UInt8} : some b = some D.PackingSchema.TERM ↔ b = CP_TERM := Option.some_inj

theorem peeked_metaMap {b : UInt8} : some b = some D.PackingSchema.MetaMap ↔ b = CP_MetaMap :=
  Option.some_inj

/-- Bytes that `rv` reads as the elements of a list, up to its end. -/
inductive YieldsList (rv : D.Read D.RpcValue) : Bytes → List D.RpcValue → Prop where
  | nil : YieldsList rv [CP_TERM] []
  | cons {b : UInt8} {bs rest : Bytes} {v : D.RpcValue} {vs : List D.RpcValue} : b ≠ CP_TERM →
      Yields rv (b :: bs) v → YieldsList rv rest vs → YieldsList rv (b :: bs ++ rest) (v :: vs)

/-- Bytes that `rv` reads as pairs of a key and a value, up to the end of the container. -/
inductive YieldsEntries {κ : Type} (rv : D.Read D.RpcValue) (key : D.RpcValue → D.Read κ) :
    Bytes → List (κ × D.RpcValue) → Prop where
  | nil : YieldsEntries rv key [CP_TERM] []
  | cons {b : UInt8} {kbs vbs rest : Bytes} {x v : D.RpcValue} {k : κ}
      {m : List (κ × D.RpcValue)} : b ≠ CP_TERM → Yields rv (b :: kbs) x → key x = pure k →
      Yields rv vbs v → YieldsEntries rv key rest m →
      YieldsEntries rv key (b :: kbs ++ (vbs ++ rest)) ((k, v) :: m)

theorem YieldsList.reads {rv : D.Read D.RpcValue} {bs : Bytes} {vs : List D.RpcValue}
    (h : YieldsList rv bs vs) (done : List D.RpcValue) {n : Nat} (hn : bs.length ≤ n) :
    Yields (D.readList rv n done) bs (done ++ vs) := by
  induction h generalizing done n with
  | nil =>
    obtain ⟨m, rfl⟩ : ∃ m, n = m + 1 := ⟨n - 1, by rw [List.length_singleton] at hn; omega⟩
    rw [List.append_nil, D.readList]
    refine yields_peekByte_bind ?_
    rw [if_pos (peeked_term.mpr rfl)]
    exact yields_getByte_bind (yields_pure done)
  | @cons b bs rest v vs hb hv _ ih =>
    rw [List.length_append, List.length_cons] at hn
    obtain ⟨m, rfl⟩ : ∃ m, n = m + 1 := ⟨n - 1, by omega⟩
    have hrest := ih (done ++ [v]) (n := m) (by omega)
    rw [List.append_assoc] at hrest
    rw [D.readList, List.cons_append]
    refine yields_peekByte_bind ?_
    rw [if_neg (mt peeked_term.mp hb)]
    exact hv.bind hrest

/-- A new key is put at the end. -/
theorem setEntry_append {κ : Type} [DecidableEq κ] {k : κ} {v : D.RpcValue}
    {m : List (κ × D.RpcValue)} (h : k ∉ m.map Prod.fst) : D.setEntry k v m = m ++ [(k, v)] := by
  induction m with
  | nil => rfl
  | cons e m ih =>
    rw [List.map_cons, List.mem_cons, not_or] at h
    rw [D.setEntry, if_neg h.1, ih h.2]
    rfl

/-- Different keys are kept in the order they come in. -/
theorem YieldsEntries.reads {κ : Type} [DecidableEq κ] {rv : D.Read D.RpcValue}
    {key : D.RpcValue → D.Read κ} {bs : Bytes} {m : List (κ × D.RpcValue)}
    (h : YieldsEntries rv key bs m) (done : List (κ × D.RpcValue)) {n : Nat} (hn : bs.length ≤ n)
    (hkeys : ((done ++ m).map Prod.fst).Nodup) :
    Yields (D.readEntries rv key n done) bs (done ++ m) := by
  induction h generalizing done n with
  | nil =>
    obtain ⟨n, rfl⟩ : ∃ k, n = k + 1 := ⟨n - 1, by rw [List.length_singleton] at hn; omega⟩
    rw [List.append_nil, D.readEntries]
    refine yields_peekByte_bind ?_
    rw [if_pos (peeked_term.mpr rfl)]
    exact yields_getByte_bind (yields_pure done)
  | @cons b kbs vbs rest x v k m hb hk hkey hv _ ih =>
    rw [List.length_append, List.length_append, List.length_cons] at hn
    obtain ⟨n, rfl⟩ : ∃ k, n = k + 1 := ⟨n - 1, by omega⟩
    have hnew : k ∉ done.map Prod.fst := by
      rw [List.map_append, List.nodup_append] at hkeys
      exact fun hmem => hkeys.2.2 k hmem k List.mem_cons_self rfl
    have hset : D.setEntry k v done = done ++ [(k, v)] := setEntry_append hnew
    have hrest := ih (D.setEntry k v done) (n := n) (by omega) (by rw [hset]; simpa using hkeys)
    rw [hset, List.append_assoc, ← hset] at hrest
    rw [D.readEntries, List.cons_append]
    refine yields_peekByte_bind ?_
    rw [if_neg (mt peeked_term.mp hb)]
    refine hk.bind (hv.bind ?_)
    rw [hkey, pure_bind]
    exact hrest

/-! ## first bytes and keys -/

/-- A value starts with a byte that does not end a container. -/
theorem write_cons (v : RpcValue) : ∃ b bs, write v = b :: bs ∧ b ≠ CP_TERM := by
  obtain ⟨⟨im, sm⟩, v⟩ := v
  obtain ⟨b, bs, hcons, -, hterm⟩ := writeVariant_cons v
  rw [write, writeMetaData]
  by_cases h : (im.length + sm.length == 0) = true
  · rw [if_pos h]
    exact ⟨b, bs, hcons, hterm⟩
  · rw [if_neg h]
    exact ⟨CP_MetaMap, _, rfl, by decide⟩

/-- A value without metadata. -/
theorem yields_readVal {n : Nat} {bs : Bytes} {s : D.Store}
    (hcons : ∃ b bs', bs = b :: bs' ∧ b ≠ CP_MetaMap ∧ b ≠ CP_TERM)
    (h : Yields (D.readStore (D.readVal n) n) bs s) : Yields (D.readVal (n + 1)) bs (.mk [] s) := by
  obtain ⟨b, bs', rfl, hmeta, -⟩ := hcons
  intro c rest hc hrest hP
  obtain ⟨a, c', hrun, hi, he, ha, -⟩ := h { c with last := b } rest hc hrest trivial
  refine ⟨.mk [] a, c', ?_, hi, he, by rw [ha], trivial⟩
  have hread : D.readMeta (D.readVal n) n c = .ok [] { c with last := b } := by
    rw [D.readMeta, D.peekByte, bind_of_ok (peek?_cons (by simpa using hc))]
    exact congrFun (if_neg (mt peeked_metaMap.mp hmeta)) _
  rw [D.readVal, bind_of_ok hread, bind_of_ok hrun]
  rfl

/-- Metadata, and the value behind it. -/
theorem yields_readVal_of_meta {n : Nat} {mbs bs : Bytes} {m : List (D.Key × D.RpcValue)}
    {s : D.Store} (hm : YieldsEntries (D.readVal n) D.RpcValue.metaKey mbs m)
    (hn : mbs.length ≤ n) (hkeys : (m.map Prod.fst).Nodup)
    (h : Yields (D.readStore (D.readVal n) n) bs s) :
    Yields (D.readVal (n + 1)) (CP_MetaMap :: mbs ++ bs) (.mk m s) := by
  have hread : Yields (D.readMeta (D.readVal n) n) (CP_MetaMap :: mbs) m := by
    rw [D.readMeta]
    refine yields_peekByte_bind ?_
    rw [if_pos (peeked_metaMap.mpr rfl)]
    exact yields_getByte_bind (hm.reads [] hn hkeys)
  rw [D.readVal]
  exact hread.bind (h.map (g := D.RpcValue.mk m))

theorem length_packInt_pos (i : Int64) : 0 < (packInt i).length := by
  obtain ⟨b, bs, h, -⟩ := packInt_cons i
  rw [h]
  exact Nat.succ_pos _

theorem yields_mapKey {n : Nat} {k : Bytes} (hk : k.length < maxSize)
    (hn : (packString k).length ≤ n) :
    Yields (D.readVal n) (packString k) (.mk [] (.string k)) := by
  obtain ⟨n, rfl⟩ : ∃ m, n = m + 1 := ⟨n - 1, by rw [packString, List.length_cons] at hn; omega⟩
  exact yields_readVal ⟨_, _, rfl, by decide, by decide⟩ (yields_packString hk)

theorem yields_imapKey {n : Nat} {k : Int32} (hn : (packInt k.toInt64).length ≤ n) :
    Yields (D.readVal n) (packInt k.toInt64) (.mk [] (.integer k.toInt64)) := by
  have hpos := length_packInt_pos k.toInt64
  obtain ⟨n, rfl⟩ : ∃ m, n = m + 1 := ⟨n - 1, by omega⟩
  exact yields_readVal (packInt_cons _) (yields_packInt k.toInt64_ne_minValue)

/-! ## different keys -/

theorem nodup_keys {κ β : Type} [Ord κ] [Std.ReflOrd κ] {m : List (κ × β)}
    (h : SortedMap.Sorted m) : (m.map Prod.fst).Nodup := by
  refine List.pairwise_map.mpr (h.imp fun {a b} hlt he => ?_)
  rw [he, Std.ReflOrd.compare_self] at hlt
  contradiction

theorem keys_ofMap (m : RpcMap) : (ofMap m).map Prod.fst = m.map Prod.fst := by
  induction m with
  | nil => rfl
  | cons e m ih => rw [ofMap, List.map_cons, ih]; rfl

theorem keys_ofIMap (m : RpcIMap) : (ofIMap m).map Prod.fst = m.map Prod.fst := by
  induction m with
  | nil => rfl
  | cons e m ih => rw [ofIMap, List.map_cons, ih]; rfl

theorem keys_ofMetaData (im : RpcIMap) (sm : RpcMap) :
    (ofMetaData (.mk im sm)).map Prod.fst =
      (im.map Prod.fst).map D.Key.ofInt ++ (sm.map Prod.fst).map D.Key.ofString := by
  rw [ofMetaData, List.map_append, List.map_map, List.map_map, ← keys_ofIMap im, ← keys_ofMap sm,
    List.map_map, List.map_map]
  rfl

theorem nodup_keys_ofMetaData : (md : RpcMetaData) → md.Std → CommonMeta md →
    ((ofMetaData md).map Prod.fst).Nodup
  | .mk im sm, ⟨him, hsm, _⟩, hkeys => by
    rw [keys_ofMetaData, List.nodup_append]
    refine ⟨(nodup_keys him).map fun i j h => congrArg D.Key.ikey h,
      (nodup_keys hsm).map fun s t h => congrArg D.Key.skey h, fun a ha b hb he => ?_⟩
    obtain ⟨i, -, rfl⟩ := List.mem_map.mp ha
    obtain ⟨s, hs, rfl⟩ := List.mem_map.mp hb
    obtain ⟨e, hmem, rfl⟩ := List.mem_map.mp hs
    exact hkeys e hmem (congrArg D.Key.skey he).symm

/-! ## the whole tree -/

theorem metaKey_string (s : Bytes) :
    D.RpcValue.metaKey (.mk [] (.string s)) = pure (D.Key.ofString s) := rfl

theorem metaKey_integer (k : Int32) :
    D.RpcValue.metaKey (.mk [] (.integer k.toInt64)) = pure (D.Key.ofInt k) :=
  congrArg (fun k => (pure (D.Key.ofInt k) : D.Read D.Key)) k.toInt32_toInt64

theorem str_string (s : Bytes) : D.RpcValue.str (.mk [] (.string s)) = pure (id s) := rfl

theorem imapKey_integer (k : Int32) :
    D.RpcValue.imapKey (.mk [] (.integer k.toInt64)) = pure (id k) :=
  congrArg (fun k => (pure k : D.Read Int32)) k.toInt32_toInt64

mutual

/-- D reads the bytes of a common value as its D value. -/
theorem yields_write : (v : RpcValue) → v.Std → CommonValue v → (n : Nat) →
    (write v).length ≤ n → Yields (D.readVal n) (write v) (ofValue v)
  | .mk md v, ⟨hmd, hmds, hv, hvs⟩, ⟨hcmd, hcmds, hcv, hcvs⟩, n, hn => by
    obtain ⟨b, bs, hcons, -⟩ := writeVariant_cons v
    have hpos : 0 < (writeVariant v).length := by rw [hcons]; exact Nat.succ_pos _
    rw [write, List.length_append] at hn
    obtain ⟨k, rfl⟩ : ∃ k, n = k + 1 := ⟨n - 1, by omega⟩
    have hstore := yields_writeVariant v hv hvs hcv hcvs k (by omega)
    by_cases hempty : md.isEmpty = true
    · obtain rfl : md = .empty := RpcMetaData.isEmpty_iff.mp hempty
      exact yields_readVal (writeVariant_cons v) hstore
    · obtain ⟨mbs, hmbs, hm⟩ := yieldsEntries_writeMetaData md hmd hmds hcmds k (by simpa using hempty)
      rw [hmbs, List.length_cons] at hn
      rw [write, hmbs]
      exact yields_readVal_of_meta (hm (by omega)) (by omega) (nodup_keys_ofMetaData md hmd hcmd)
        hstore

/-- Non-empty metadata, behind its first byte. -/
theorem yieldsEntries_writeMetaData : (md : RpcMetaData) → md.Std →
    md.Each Variant.Std RpcMetaData.Std → md.Each Common CommonMeta → (n : Nat) →
    md.isEmpty = false → ∃ mbs, writeMetaData md = CP_MetaMap :: mbs ∧
      (mbs.length ≤ n → YieldsEntries (D.readVal n) D.RpcValue.metaKey mbs (ofMetaData md))
  | .mk im sm, ⟨_, _, hkeys⟩, ⟨him, hsm⟩, ⟨hcim, hcsm⟩, n, hempty => by
    have hne : ¬ (im.length + sm.length == 0) = true := by
      rw [RpcMetaData.isEmpty] at hempty
      simpa using hempty
    refine ⟨_, if_neg hne, fun hn => ?_⟩
    rw [List.append_assoc, List.length_append, List.length_append] at hn
    have hstring := yieldsEntries_writeMap metaKey_string sm hsm hcsm hkeys n (by omega) .nil
    have hall := yieldsEntries_writeIMap metaKey_integer im him hcim n (by omega) hstring
    rw [List.append_nil] at hall
    rw [List.append_assoc]
    exact hall

theorem yields_writeVariant : (v : Variant) → v.Std → v.Each Variant.Std RpcMetaData.Std →
    Common v → v.Each Common CommonMeta → (n : Nat) → (writeVariant v).length ≤ n + 1 →
    Yields (D.readStore (D.readVal n) n) (writeVariant v) (ofVariant v)
  | .null, _, _, _, _, _, _ => yields_readStore_of rfl (yields_pure _)
  | .uint u, _, _, _, _, _, _ => yields_packUint u
  | .int _, _, _, h, _, _, _ => yields_packInt h
  | .double bits, _, _, _, _, _, _ => yields_packDouble bits
  | .bool b, _, _, _, _, _, _ => yields_packBoolean b
  | .string _, h, _, _, _, _, _ => yields_packString h
  | .decimal d, _, _, h, _, _, _ => yields_packDecimal h d.exponent
  | .dateTime _, _, _, h, _, _, _ => yields_packDateTime h.1
  | .list vs, _, hs, _, hc, n, hn => by
    rw [writeVariant, List.length_cons, List.length_append, List.length_singleton] at hn
    have hlist := (yieldsList_write vs hs hc n (by omega)).reads [] (n := n)
      (by rw [List.length_append, List.length_singleton]; omega)
    exact yields_readStore_of (b := CP_List) rfl (hlist.map (g := D.Store.list))
  | .map m, ⟨hsort, hkeys⟩, hs, _, hc, n, hn => by
    rw [writeVariant, List.length_cons, List.length_append, List.length_singleton] at hn
    have hentries := yieldsEntries_writeMap str_string m hs hc hkeys n (by omega) .nil
    have hm : (ofMap m).map (fun e => (id e.1, e.2)) ++ [] = ofMap m :=
      (List.append_nil _).trans (List.map_id _)
    rw [hm] at hentries
    have hmap := hentries.reads [] (n := n)
      (by rw [List.length_append, List.length_singleton]; omega)
      (by rw [List.nil_append, keys_ofMap]; exact nodup_keys hsort)
    exact yields_readStore_of (b := CP_Map) rfl (hmap.map (g := D.Store.map))
  | .imap m, hsort, hs, _, hc, n, hn => by
    rw [writeVariant, List.length_cons, List.length_append, List.length_singleton] at hn
    have hentries := yieldsEntries_writeIMap imapKey_integer m hs hc n (by omega) .nil
    have hm : (ofIMap m).map (fun e => (id e.1, e.2)) ++ [] = ofIMap m :=
      (List.append_nil _).trans (List.map_id _)
    rw [hm] at hentries
    have himap := hentries.reads [] (n := n)
      (by rw [List.length_append, List.length_singleton]; omega)
      (by rw [List.nil_append, keys_ofIMap]; exact nodup_keys hsort)
    exact yields_readStore_of (b := CP_IMap) rfl (himap.map (g := D.Store.imap))
  | .invalid, _, _, h, _, _, _ => h.elim
  | .blob _, _, _, h, _, _, _ => h.elim

theorem yieldsList_write : (vs : List RpcValue) → eachList Variant.Std RpcMetaData.Std vs →
    eachList Common CommonMeta vs → (n : Nat) → (writeListElements vs).length ≤ n →
    YieldsList (D.readVal n) (writeListElements vs ++ [CP_TERM]) (ofList vs)
  | [], _, _, _, _ => .nil
  | v :: vs, ⟨hv, hvs⟩, ⟨hcv, hcvs⟩, n, hn => by
    obtain ⟨b, bs, hcons, hb⟩ := write_cons v
    rw [writeListElements, List.length_append] at hn
    have hread := yields_write v hv hcv n (by omega)
    rw [writeListElements, List.append_assoc]
    rw [hcons] at hread ⊢
    exact .cons hb hread (yieldsList_write vs hvs hcvs n (by omega))

/-- Entries under string keys, with more entries or the end behind them. -/
theorem yieldsEntries_writeMap {κ : Type} {key : D.RpcValue → D.Read κ} {wrap : Bytes → κ}
    (hkey : ∀ s, key (.mk [] (.string s)) = pure (wrap s)) : (m : List (Bytes × RpcValue)) →
    eachMap Variant.Std RpcMetaData.Std m → eachMap Common CommonMeta m →
    (∀ e ∈ m, e.1.length < maxSize) → (n : Nat) → (writeMapElements m).length ≤ n →
    {rest : Bytes} → {es : List (κ × D.RpcValue)} → YieldsEntries (D.readVal n) key rest es →
    YieldsEntries (D.readVal n) key (writeMapElements m ++ rest)
      ((ofMap m).map (fun e => (wrap e.1, e.2)) ++ es)
  | [], _, _, _, _, _, _, _, hrest => hrest
  | (k, v) :: m, ⟨hv, hm⟩, ⟨hcv, hcm⟩, hkeys, n, hn, _, _, hrest => by
    rw [writeMapElements, writeMapKey, List.length_append, List.length_append] at hn
    rw [writeMapElements, List.append_assoc, List.append_assoc]
    exact .cons (b := CP_String) (by decide)
      (yields_mapKey (hkeys (k, v) List.mem_cons_self) (by omega)) (hkey k)
      (yields_write v hv hcv n (by omega))
      (yieldsEntries_writeMap hkey m hm hcm (fun e he => hkeys e (List.mem_cons_of_mem _ he)) n
        (by omega) hrest)

/-- Entries under integer keys. -/
theorem yieldsEntries_writeIMap {κ : Type} {key : D.RpcValue → D.Read κ} {wrap : Int32 → κ}
    (hkey : ∀ k : Int32, key (.mk [] (.integer k.toInt64)) = pure (wrap k)) :
    (m : List (Int32 × RpcValue)) → eachIMap Variant.Std RpcMetaData.Std m →
    eachIMap Common CommonMeta m → (n : Nat) → (writeIMapElements m).length ≤ n →
    {rest : Bytes} → {es : List (κ × D.RpcValue)} → YieldsEntries (D.readVal n) key rest es →
    YieldsEntries (D.readVal n) key (writeIMapElements m ++ rest)
      ((ofIMap m).map (fun e => (wrap e.1, e.2)) ++ es)
  | [], _, _, _, _, _, _, hrest => hrest
  | (k, v) :: m, ⟨hv, hm⟩, ⟨hcv, hcm⟩, n, hn, _, _, hrest => by
    obtain ⟨b, bs, hcons, -, hb⟩ := packInt_cons k.toInt64
    rw [writeIMapElements, writeIMapKey, List.length_append, List.length_append] at hn
    have hread := yields_imapKey (k := k) (n := n) (by omega)
    rw [writeIMapElements, writeIMapKey, List.append_assoc, List.append_assoc]
    rw [hcons] at hread ⊢
    exact .cons hb hread (hkey k) (yields_write v hv hcv n (by omega))
      (yieldsEntries_writeIMap hkey m hm hcm n (by omega) hrest)

end

end LibShv.DChainPack
