import LibShv.CponReader.Tokens
import LibShv.CponWriter
import LibShv.RpcValue.Leaves

/-!
# LibShv.CponReader.RoundTrip

Reading back what `CponWriter` wrote, with any indent string of blanks.

Every value is written behind a separator: the comma, the line break with its
indent, or the colon of a key. The reader skips all of them alike, so the layouts
need no cases: `sep ++ write v` encodes `v` for every `sep` of blanks.
-/

namespace LibShv

/-- Strings whose chunks `chunk_cnt` can count: 2^32 of them with 256 bytes each. -/
def cponMaxSize : Nat := 2 ^ 40

/-- The text of an item is read back as the variant. -/
structure CponReader.TextReads (text : Bytes) (v : Variant) : Prop where
  starts : ∃ b bs, text = b :: bs ∧ CCpon.Starts b ∧ b ≠ CCpon.C_META_BEGIN
  encodes : CponReader.reader.EncodesVariant CCpon.Delim text v

/-- The variants that the text of an item determines, as `std::map` and the size of the
chunk counter bound them. Of the others the text says it itself, or does not. -/
def Variant.CponStd : Variant → Prop
  | .null => True
  | .bool _ => True
  | .int n => n ≠ Int64.minValue
  | .uint n => n.toNat < 2 ^ 63
  | .string bytes => bytes.length < cponMaxSize
  | .blob _ => True
  | .list _ => True
  | .map m => SortedMap.Sorted m ∧ ∀ e ∈ m, e.1.length < cponMaxSize
  | .imap m => SortedMap.Sorted m
  | .double bits => CponReader.TextReads (CCpon.packDouble bits) (.double bits)
  | .decimal d => CponReader.TextReads (CCpon.packDecimal d.mantissa d.exponent) (.decimal d)
  | .dateTime dt =>
    CponReader.TextReads (CCpon.packDateTime dt.msecsSinceEpoch dt.utcOffsetMin) (.dateTime dt)
  | .invalid => False

def RpcMetaData.CponStd (md : RpcMetaData) : Prop :=
  SortedMap.Sorted md.iValues ∧ SortedMap.Sorted md.sValues ∧
    ∀ e ∈ md.sValues, e.1.length < cponMaxSize

/-- A tree of such variants. -/
abbrev RpcValue.CponStd (v : RpcValue) : Prop := v.Each Variant.CponStd RpcMetaData.CponStd

namespace CponReader

open ByteReader CCpon CponWriter AbstractStreamReader

/-! ## what is read back -/

/-- The variant read from the text of a variant that is no container. -/
def decodedLeaf : Variant → Variant
  | .invalid => .null
  | .blob bytes => .blob (blobPart bytes)
  | v => v

/-- The value read from the text of a value. -/
abbrev decoded (v : RpcValue) : RpcValue := v.mapLeaves decodedLeaf

abbrev decodedMetaData (md : RpcMetaData) : RpcMetaData := md.mapLeaves decodedLeaf

abbrev decodedVariant (v : Variant) : Variant := v.mapLeaves decodedLeaf

theorem isValid_decodedLeaf (v : Variant) : (decodedLeaf v).isValid = true := by
  cases v <;> rfl

theorem isValid_decodedVariant (v : Variant) : (decodedVariant v).isValid = true := by
  cases v <;> rfl

theorem length_blobPart_lt (bytes : Bytes) : (blobPart bytes).length < 2 ^ 32 := by
  rw [blobPart, List.length_take]
  exact Nat.lt_of_le_of_lt (Nat.min_le_left _ _) (Nat.mod_lt _ (by decide))

/-! ## separators -/

theorem blanks_append {xs ys : Bytes} (hx : Blanks xs) (hy : Blanks ys) : Blanks (xs ++ ys) := by
  intro b hb
  rcases List.mem_append.mp hb with h | h
  · exact hx b h
  · exact hy b h

theorem blanks_nil : Blanks [] := nofun

theorem blanks_singleton {b : UInt8} (h : Blank b) : Blanks [b] := by
  intro b' hb'
  rw [List.mem_singleton] at hb'
  exact hb' ▸ h

section

variable {indent : Bytes} (hindent : ∀ b ∈ indent, b ≤ space)
include hindent

theorem blanks_indentElement (nestCount : Nat) (isOneliner isFirst : Bool) :
    Blanks (indentElement indent nestCount isOneliner isFirst) := by
  have hspace : Blank space := blank_of_le_space (by decide)
  have hnewline : Blank newline := blank_of_le_space (by decide)
  rw [indentElement]
  split
  · exact blanks_nil
  · split
    · split
      · exact blanks_nil
      · exact blanks_singleton hspace
    · intro b hb
      rcases List.mem_cons.mp hb with rfl | hb
      · exact hnewline
      · obtain ⟨bs, hbs, hmem⟩ := List.mem_flatten.mp hb
        rw [(List.mem_replicate.mp hbs).2] at hmem
        exact blank_of_le_space (hindent b ((List.takeWhile_sublist _).subset hmem))

theorem blanks_packFieldDelim (nestCount : Nat) (isFirst isOneliner : Bool) :
    Blanks (packFieldDelim indent nestCount isFirst isOneliner) := by
  refine blanks_append ?_ (blanks_indentElement hindent nestCount isOneliner isFirst)
  split
  · exact blanks_nil
  · exact blanks_singleton blank_fieldDelim

omit hindent

theorem follows_cons {b : UInt8} (h : Delim b) (bs : Bytes) : Follows Delim (b :: bs) := by
  intro b' hb'
  rw [List.head?_cons, Option.some.injEq] at hb'
  exact hb' ▸ h

/-- Elements behind the first begin with a comma. -/
theorem follows_packFieldDelim (nestCount : Nat) (isOneliner : Bool) (bs : Bytes) :
    Follows Delim (packFieldDelim indent nestCount false isOneliner ++ bs) :=
  follows_cons (by decide) _

/-- The end of a container begins with a line break or its bracket. -/
theorem follows_containerEnd (nestCount : Nat) (isOneliner : Bool) {bracket : UInt8}
    (h : Delim bracket) : Follows Delim (writeContainerEnd indent nestCount isOneliner bracket) := by
  rw [writeContainerEnd, endBlock, indentElement]
  split
  · exact follows_cons h _
  · split
    · exact follows_cons h _
    · exact follows_cons (by decide) _

end

/-! ## items -/

/-- A string says nothing of its size, so that it has bytes to come. -/
theorem live_next_init (s : Bytes) : (next .init s).Live := by
  refine .inr (.inl ?_)
  change (-1 : Int64) < 0
  decide

theorem encodes_string {s : Bytes} (hs : s.length < cponMaxSize) :
    reader.EncodesVariant Delim (CCpon.packString s) (.string s) := by
  have hrest := chunks_next chunkCodec_string continues_string (fun _ h => h) s .init rfl rfl
    (by decide) (by simpa [CCpcpString.init, cponMaxSize] using hs)
  have h : reader.EncodesVariant Delim _ _ := hrest.encodesVariant lawful chunkKind_string
    reader.unfinishedString .string
    (encodesItem_of_startItem (unpacks_startItem_string s) (live_next_init s)) (by simp)
    (live_next_init s) fun _ => rfl
  rwa [List.cons_append, chunkBytes_append_chunkRest] at h

theorem encodes_blob (s : Bytes) : reader.EncodesVariant Delim (CCpon.packBlob s) (.blob (blobPart s)) := by
  have hlen := length_blobPart_lt s
  have hrest := chunks_next chunkCodec_blob continues_blob (fun _ h => h) (blobPart s) .init rfl rfl
    (by decide) (by simp only [CCpcpString.init, UInt32.toNat_zero]; omega)
  have h : reader.EncodesVariant Delim _ _ := hrest.encodesVariant lawful chunkKind_blob
    reader.unfinishedBlob .blob
    (encodesItem_of_startItem (unpacks_startItem_blob (blobPart s)) (live_next_init _))
    (by simp) (live_next_init _) fun _ => rfl
  rwa [List.cons_append, List.cons_append, chunkBytes_append_chunkRest] at h

theorem encodes_int {n : Int64} (hmin : n ≠ Int64.minValue) :
    reader.EncodesVariant Delim (CCpon.packInt n) (.int n) := by
  obtain ⟨b, bs, hcons, hb, hitem, -⟩ := packInt_cons hmin
  have hread := reads_packInt hmin
  rw [hcons] at hread ⊢
  exact (encodesItem_of_startItem (unpacks_startItem_number hb hitem hread) trivial).scalar lawful
    (fun _ => rfl) trivial nofun

theorem encodes_uint {n : UInt64} (hn : n.toNat < 2 ^ 63) :
    reader.EncodesVariant Delim (CCpon.packUint n) (.uint n) := by
  obtain ⟨b, bs, hcons, hb, hitem, -⟩ := packUint_cons n
  have hread : Unpacks unpackNumber (CCpon.packUint n) Delim Fresh (Yields (.uint n)) :=
    (reads_packUint hn).imp (fun _ _ => trivial) (fun _ h => h) fun _ _ h => h
  rw [hcons] at hread ⊢
  exact (encodesItem_of_startItem (unpacks_startItem_number hb hitem hread) trivial).scalar lawful
    (fun _ => rfl) trivial (by simp)

theorem encodes_null : reader.EncodesVariant Delim packNull .null := by
  have h : Unpacks startItem (0x6e :: ascii "ull") Delim (·.errNo = .ok) (CCpon.Leaves .null) :=
    unpacks_startItem_literal (by rfl) (by rfl)
  exact (encodesItem_of_startItem h trivial).scalar lawful (fun _ => rfl) trivial (by simp)

theorem encodes_boolean (b : Bool) : reader.EncodesVariant Delim (CCpon.packBoolean b) (.bool b) := by
  cases b with
  | false =>
    have h : Unpacks startItem (0x66 :: ascii "alse") Delim (·.errNo = .ok)
        (CCpon.Leaves (.boolean false)) := unpacks_startItem_literal (by rfl) (by rfl)
    exact (encodesItem_of_startItem h trivial).scalar lawful (fun _ => rfl) trivial nofun
  | true =>
    have h : Unpacks startItem (0x74 :: ascii "rue") Delim (·.errNo = .ok)
        (CCpon.Leaves (.boolean true)) := unpacks_startItem_literal (by rfl) (by rfl)
    exact (encodesItem_of_startItem h trivial).scalar lawful (fun _ => rfl) trivial nofun

theorem encodesItem_byte {F : UInt8 → Prop} {b : UInt8} {item : CCpcpItem} (hb : Starts b)
    (h : CCpon.unpackItem b = return item) (hlive : item.Live) : reader.EncodesItem F [b] item :=
  encodesItem_of_startItem (unpacks_startItem_byte hb h) hlive

/-- The first byte of a variant starts an item that is no metadata. -/
theorem writeVariant_cons {indent : Bytes} {nestCount : Nat} {v : Variant} (h : v.CponStd) :
    ∃ b bs, writeVariant indent nestCount v = b :: bs ∧ Starts b ∧ b ≠ C_META_BEGIN := by
  cases v with
  | int n =>
    obtain ⟨b, bs, hcons, hb, -, hne⟩ := packInt_cons h
    exact ⟨b, bs, hcons, hb, hne⟩
  | uint n =>
    obtain ⟨b, bs, hcons, hb, -, hne⟩ := packUint_cons n
    exact ⟨b, bs, hcons, hb, hne⟩
  | bool b => cases b <;> exact ⟨_, _, rfl, rfl, by decide⟩
  | null => exact ⟨_, _, rfl, rfl, by decide⟩
  | string s => exact ⟨_, _, rfl, rfl, by decide⟩
  | blob s => exact ⟨_, _, rfl, rfl, by decide⟩
  | list vs => exact ⟨C_LIST_BEGIN, _, rfl, rfl, by decide⟩
  | map m => exact ⟨C_MAP_BEGIN, _, rfl, rfl, by decide⟩
  | imap m => exact ⟨0x69, _, rfl, rfl, by decide⟩
  | double bits => exact h.starts
  | decimal d => exact h.starts
  | dateTime dt => exact h.starts
  | invalid => exact h.elim

section

variable {indent : Bytes} (hindent : ∀ b ∈ indent, b ≤ space)
include hindent

theorem encodes_mapKey (nestCount : Nat) (isOneliner isFirst : Bool) {k : Bytes}
    (hk : k.length < cponMaxSize) :
    reader.Encodes Delim (packFieldDelim indent nestCount isFirst isOneliner ++ CCpon.packString k)
      (.ofVariant (.string k)) :=
  (encodes_string hk).encodes lawful
    (passes (blanks_packFieldDelim hindent nestCount isFirst isOneliner) (by rfl) (by decide))

theorem encodes_imapKey (nestCount : Nat) (isOneliner isFirst : Bool) (k : Int32) :
    reader.Encodes Delim (packFieldDelim indent nestCount isFirst isOneliner ++ CCpon.packInt k.toInt64)
      (.ofVariant (.int k.toInt64)) := by
  obtain ⟨b, bs, hcons, hb, -, hne⟩ := packInt_cons k.toInt64_ne_minValue
  have h := encodes_int k.toInt64_ne_minValue
  rw [hcons] at h ⊢
  exact h.encodes lawful
    (passes (blanks_packFieldDelim hindent nestCount isFirst isOneliner) hb hne)

/-- The end of a container. -/
theorem ends (nestCount : Nat) (isOneliner : Bool) {bracket : UInt8} (hb : Starts bracket)
    (hne : bracket ≠ C_META_BEGIN) (hdelim : Delim bracket)
    (hitem : CCpon.unpackItem bracket = return .containerEnd) :
    reader.Ends Delim (writeContainerEnd indent nestCount isOneliner bracket) :=
  (passes (blanks_indentElement hindent nestCount isOneliner true) hb hne).ends lawful
    (encodesItem_byte hb hitem trivial) (follows_containerEnd nestCount isOneliner hdelim)

end

/-! ## elements -/

section

variable {indent rest : Bytes} (hrest : Follows Delim rest) (nestCount : Nat) (isOneliner : Bool)
include hrest

theorem follows_writeListElements (vs : List RpcValue) :
    Follows Delim (writeListElements indent nestCount isOneliner false vs ++ rest) := by
  cases vs with
  | nil => exact hrest
  | cons v vs =>
    rw [writeListElements, List.append_assoc]
    exact follows_packFieldDelim nestCount isOneliner _

theorem follows_writeMapElements (m : List (Bytes × RpcValue)) :
    Follows Delim (writeMapElements indent nestCount isOneliner false m ++ rest) := by
  cases m with
  | nil => exact hrest
  | cons e m =>
    rw [writeMapElements, writeMapKey, List.append_assoc, List.append_assoc, List.append_assoc]
    exact follows_packFieldDelim nestCount isOneliner _

theorem follows_writeIMapElements (m : List (Int32 × RpcValue)) :
    Follows Delim (writeIMapElements indent nestCount isOneliner false m ++ rest) := by
  cases m with
  | nil => exact hrest
  | cons e m =>
    rw [writeIMapElements, writeIMapKey, List.append_assoc, List.append_assoc, List.append_assoc]
    exact follows_packFieldDelim nestCount isOneliner _

end

/-! ## the whole tree -/

section

variable {indent : Bytes}

mutual

/-- The text of a value behind any blanks encodes its decoding. -/
theorem encodes_write (hindent : ∀ b ∈ indent, b ≤ space) (nestCount : Nat) : (v : RpcValue) → v.CponStd → {sep : Bytes} → Blanks sep →
    reader.Encodes Delim (sep ++ write indent nestCount v) (decoded v)
  | .mk md v, ⟨hmd, hmds, hv, hvs⟩, sep, hsep => by
    obtain ⟨b, bs, hcons, hb, hne⟩ := @writeVariant_cons indent nestCount v hv
    have hvariant := encodes_writeVariant hindent nestCount v hv hvs
    by_cases hempty : md.isEmpty = true
    · obtain rfl : md = .empty := RpcMetaData.isEmpty_iff.mp hempty
      have hwrite : write indent nestCount (.mk .empty v) = writeVariant indent nestCount v := rfl
      rw [hwrite]
      rw [hcons] at hvariant ⊢
      exact hvariant.encodes lawful (passes hsep hb hne)
    · have hmeta := encodes_writeMetaData hindent nestCount md hmd hmds (by simpa using hempty) hsep
      rw [write, ← List.append_assoc]
      exact hmeta.encodes lawful hvariant (by rw [hcons]; nofun) (isValid_decodedVariant v)

/-- Non-empty metadata behind any blanks. -/
theorem encodes_writeMetaData (hindent : ∀ b ∈ indent, b ≤ space) (nestCount : Nat) : (md : RpcMetaData) → md.CponStd →
    md.Each Variant.CponStd RpcMetaData.CponStd → md.isEmpty = false → {sep : Bytes} →
    Blanks sep →
    reader.EncodesMetaData Delim (sep ++ writeMetaData indent nestCount md) (decodedMetaData md)
  | .mk im sm, ⟨him, hsm, hkeys⟩, ⟨hime, hsme⟩, hempty, sep, hsep => by
    have hne : ¬ (im.length + sm.length == 0) = true := by
      rw [RpcMetaData.isEmpty] at hempty
      simpa using hempty
    have hend := @ends indent hindent nestCount (isOnelineMeta (.mk im sm)) C_META_END rfl
      (by decide) (by decide) rfl
    have hmap := encodes_writeMapElements hindent (nestCount + 1) (isOnelineMeta (.mk im sm)) im.isEmpty sm
      hsme hkeys hend
    have hfollows : im ≠ [] → Follows Delim (writeMapElements indent (nestCount + 1)
        (isOnelineMeta (.mk im sm)) im.isEmpty sm ++
        writeContainerEnd indent nestCount (isOnelineMeta (.mk im sm)) C_META_END) := by
      intro him
      rw [List.isEmpty_eq_false_iff.mpr him]
      exact follows_writeMapElements hend.2.1 _ _ sm
    have hbody := encodes_writeIMapElements hindent (nestCount + 1) (isOnelineMeta (.mk im sm)) true im
      hime hmap hfollows
    rw [writeMetaData, if_neg hne]
    have hmeta : reader.EncodesMetaData Delim _ (decodedMetaData (.mk im sm)) :=
      .intro (begins hsep) (by simp) hbody (isValid_mapLeavesIMap isValid_decodedLeaf im)
        (isValid_mapLeavesMap isValid_decodedLeaf sm) (sorted_mapLeavesIMap him) (sorted_mapLeavesMap hsm)
    simpa only [List.append_assoc, List.cons_append, List.nil_append] using hmeta

theorem encodes_writeVariant (hindent : ∀ b ∈ indent, b ≤ space) (nestCount : Nat) : (v : Variant) → v.CponStd →
    v.Each Variant.CponStd RpcMetaData.CponStd →
    reader.EncodesVariant Delim (writeVariant indent nestCount v) (decodedVariant v)
  | .null, _, _ => encodes_null
  | .bool b, _, _ => encodes_boolean b
  | .int n, hn, _ => encodes_int hn
  | .uint n, hn, _ => encodes_uint hn
  | .string s, hs, _ => encodes_string hs
  | .blob s, _, _ => encodes_blob s
  | .double _, h, _ => h.encodes
  | .decimal _, h, _ => h.encodes
  | .dateTime _, h, _ => h.encodes
  | .list vs, _, hvs =>
    (encodesItem_byte (b := C_LIST_BEGIN) rfl rfl trivial).list lawful nofun
      (encodes_writeListElements hindent (nestCount + 1) (isOnelineList vs) true vs hvs
        (ends hindent nestCount (isOnelineList vs) rfl (by decide) (by decide) rfl))
  | .map m, ⟨hsort, hkeys⟩, hm =>
    (encodesItem_byte (b := C_MAP_BEGIN) rfl rfl trivial).map lawful nofun
      (sorted_mapLeavesMap hsort)
      (encodes_writeMapElements hindent (nestCount + 1) (isOnelineMap m) true m hm hkeys
        (ends hindent nestCount (isOnelineMap m) rfl (by decide) (by decide) rfl))
  | .imap m, hsort, hm => by
    have hend := @ends indent hindent nestCount (isOnelineMap m) C_MAP_END rfl (by decide)
      (by decide) rfl
    have hbody := encodes_writeIMapElements hindent (nestCount + 1) (isOnelineMap m) true m hm (m := [])
      (.nil hend) fun _ => hend.2.1
    rw [List.append_nil] at hbody
    exact (encodesItem_of_startItem unpacks_startItem_imap trivial).imap lawful nofun
      (sorted_mapLeavesIMap hsort) hbody

theorem encodes_writeListElements (hindent : ∀ b ∈ indent, b ≤ space) (nestCount : Nat) (isOneliner isFirst : Bool) :
    (vs : List RpcValue) → eachList Variant.CponStd RpcMetaData.CponStd vs → {rest : Bytes} →
    reader.Ends Delim rest →
    reader.EncodesList Delim (writeListElements indent nestCount isOneliner isFirst vs ++ rest)
      (mapLeavesList decodedLeaf vs)
  | [], _, _, hend => .nil hend
  | v :: vs, ⟨hv, hvs⟩, rest, hend => by
    rw [writeListElements, ← List.append_assoc, List.append_assoc]
    exact .cons
      (encodes_write hindent nestCount v hv (blanks_packFieldDelim hindent nestCount isFirst isOneliner))
      (follows_writeListElements hend.2.1 nestCount isOneliner vs)
      (List.append_ne_nil_of_right_ne_nil _ hend.1)
      (encodes_writeListElements hindent nestCount isOneliner false vs hvs hend)

theorem encodes_writeMapElements (hindent : ∀ b ∈ indent, b ≤ space) (nestCount : Nat) (isOneliner isFirst : Bool) :
    (m : List (Bytes × RpcValue)) → eachMap Variant.CponStd RpcMetaData.CponStd m →
    (∀ e ∈ m, e.1.length < cponMaxSize) → {rest : Bytes} → reader.Ends Delim rest →
    reader.EncodesEntries Delim (writeMapElements indent nestCount isOneliner isFirst m ++ rest)
      (mapEntries (mapLeavesMap decodedLeaf m))
  | [], _, _, _, hend => .nil hend
  | (k, v) :: m, ⟨hv, hm⟩, hkeys, rest, hend => by
    have hdelim : Follows Delim ([C_KEY_DELIM] ++ write indent nestCount v) :=
      follows_cons (by decide) _
    have hentry : reader.EncodesEntries Delim _ (mapEntries (mapLeavesMap decodedLeaf ((k, v) :: m))) :=
      .cons
      (encodes_mapKey hindent nestCount isOneliner isFirst (hkeys (k, v) List.mem_cons_self))
      hdelim
      (encodes_write hindent nestCount v hv (blanks_singleton blank_keyDelim))
      (follows_writeMapElements hend.2.1 nestCount isOneliner m)
      (List.append_ne_nil_of_right_ne_nil _ hend.1)
      (encodes_writeMapElements hindent nestCount isOneliner false m hm
        (fun e he => hkeys e (List.mem_cons_of_mem _ he)) hend)
    simpa only [writeMapElements, writeMapKey, List.append_assoc] using hentry

/-- Entries under integer keys, with more entries or the end behind them. -/
theorem encodes_writeIMapElements (hindent : ∀ b ∈ indent, b ≤ space) (nestCount : Nat) (isOneliner isFirst : Bool) :
    (im : List (Int32 × RpcValue)) → eachIMap Variant.CponStd RpcMetaData.CponStd im →
    {rest : Bytes} → {m : List (RpcValue × RpcValue)} → reader.EncodesEntries Delim rest m →
    (im ≠ [] → Follows Delim rest) →
    reader.EncodesEntries Delim (writeIMapElements indent nestCount isOneliner isFirst im ++ rest)
      (imapEntries (mapLeavesIMap decodedLeaf im) ++ m)
  | [], _, _, _, hrest, _ => hrest
  | (k, v) :: im, ⟨hv, him⟩, rest, m, hrest, hfollows => by
    have hrest' := hfollows (List.cons_ne_nil _ _)
    have hdelim : Follows Delim ([C_KEY_DELIM] ++ write indent nestCount v) :=
      follows_cons (by decide) _
    have hentry : reader.EncodesEntries Delim _
        (imapEntries (mapLeavesIMap decodedLeaf ((k, v) :: im)) ++ m) :=
      .cons (encodes_imapKey hindent nestCount isOneliner isFirst k) hdelim
      (encodes_write hindent nestCount v hv (blanks_singleton blank_keyDelim))
      (follows_writeIMapElements hrest' nestCount isOneliner im)
      (List.append_ne_nil_of_right_ne_nil _ hrest.ne_nil)
      (encodes_writeIMapElements hindent nestCount isOneliner false im him hrest fun _ => hrest')
    simpa only [writeIMapElements, writeIMapKey, List.append_assoc] using hentry

end

end

end CponReader

end LibShv
