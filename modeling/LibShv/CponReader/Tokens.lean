import LibShv.AbstractStreamReader.Encodes
import LibShv.CCpon.Numbers
import LibShv.CponReader.Total

/-!
# LibShv.CponReader.Tokens

What the reader does with a single item: how it skips to the first byte of it, what
it unpacks from the bytes of a packed item, and what it does at the end of the stream.
-/

namespace LibShv.CCpon

open ByteReader AbstractStreamReader Decimal

/-! ## skipping to an item -/

/-- The skipper passes over the byte. -/
def Blank (b : UInt8) : Prop := skipStep .text b = .more .text

/-- The skipper stops at the byte. -/
def Starts (b : UInt8) : Prop := skipStep .text b = .done (some b)

/-- Everything the skipper passes over. -/
abbrev Blanks (sep : Bytes) : Prop := ∀ b ∈ sep, Blank b

theorem blank_of_le_space {b : UInt8} (h : b ≤ space) : Blank b := by
  have hle : ¬ b > space := UInt8.not_lt.mpr h
  rw [Blank, skipStep]
  by_cases h0 : b = 0
  · rw [if_pos h0]
  · rw [if_neg h0]
    by_cases h1 : 0x80 ≤ b
    · rw [if_pos h1]
    · rw [if_neg h1, if_neg hle]

theorem blank_fieldDelim : Blank C_FIELD_DELIM := rfl

theorem blank_keyDelim : Blank C_KEY_DELIM := rfl

theorem scans_blanks {sep : Bytes} (h : Blanks sep) : Scans skipStep .text sep .text := by
  induction sep with
  | nil => exact .nil _
  | cons b sep ih =>
    exact .cons (h b List.mem_cons_self) (ih fun b' hb' => h b' (List.mem_cons_of_mem b hb'))

section

variable {c : Cursor UnpackContext} {sep rest : Bytes} {b : UInt8}

theorem skipInsignificant_starts (hsep : Blanks sep) (hb : Starts b)
    (hc : c.input = sep ++ b :: rest) :
    skipInsignificant c = .ok (some b) { c with input := rest, last := b } := by
  obtain ⟨last, hscan⟩ := scan_of_scans Fault (scans_blanks hsep) hc
  rw [skipInsignificant, bind_of_ok (hscan.trans (scan_done rfl hb))]
  rfl

theorem skipInsignificant_end (hsep : Blanks c.input) :
    ∃ last, skipInsignificant c = .ok none
      { c with input := [], last := last, atEnd := true,
               reg := { c.reg with errNo := .bufferUnderflow } } := by
  obtain ⟨last, hscan⟩ := scan_of_scans Fault (scans_blanks hsep) (List.append_nil _).symm
  refine ⟨last, ?_⟩
  rw [skipInsignificant, bind_of_ok (hscan.trans (scan_nil rfl))]
  rfl

/-- A proper prefix of blanks and one byte holds blanks only. -/
theorem blanks_of_append {xs ys : Bytes} (hsep : Blanks sep) (h : sep ++ [b] = xs ++ ys)
    (hys : ys ≠ []) : Blanks xs := by
  rcases List.append_eq_append_iff.mp h with ⟨zs, rfl, hz⟩ | ⟨zs, rfl, -⟩
  · have hlen := congrArg List.length hz
    have hpos := List.length_pos_iff.mpr hys
    rw [List.length_append, List.length_singleton] at hlen
    obtain rfl : zs = [] := List.eq_nil_of_length_eq_zero (by omega)
    rwa [List.append_nil]
  · exact fun b' hb' => hsep b' (List.mem_append_left zs hb')

end

/-! ## starting an item -/

/-- What an item leaves in the context. -/
abbrev Leaves (item : CCpcpItem) (_ : Unit) (ctx : UnpackContext) : Prop :=
  ctx.item = item ∧ ctx.errNo = .ok

section

variable {F : UInt8 → Prop} {b : UInt8} {bs : Bytes} {item : CCpcpItem} {c : Cursor UnpackContext}

theorem startItem_starts {rest : Bytes} (hb : Starts b) (hc : c.input = b :: rest) :
    startItem c = (do setItem (← CCpon.unpackItem b))
      { c with input := rest, last := b, reg := { c.reg with item := .invalid } } := by
  rw [startItem, bind_of_ok (setItem_apply _ c)]
  exact bind_of_ok (@skipInsignificant_starts { c with reg := { c.reg with item := .invalid } }
    [] rest b (List.forall_mem_nil _) hb hc)

/-- An item is missing at the end of the stream. -/
theorem startItem_nil (hc : c.input = []) : ∃ e c', startItem c = .error e c' ∧ e.Benign := by
  have hblank : Blanks ({ c with reg := { c.reg with item := .invalid } } :
      Cursor UnpackContext).input := by
    rw [hc]
    exact List.forall_mem_nil _
  obtain ⟨last, hskip⟩ := skipInsignificant_end hblank
  have herr : startItem c = .error (.parse .bufferUnderflow c.reg.errMsg)
      { c with
        input := [], last := last, atEnd := true,
        reg := { c.reg with item := .invalid, errNo := .bufferUnderflow } } := by
    rw [startItem, bind_of_ok (setItem_apply _ c), bind_of_ok hskip]
    exact checkErrNo_of_ne (by simp)
  exact ⟨_, _, herr, benign_parse _ _⟩

/-- An item is read from behind its first byte. -/
theorem unpacks_startItem (hb : Starts b)
    (h : Unpacks (do setItem (← CCpon.unpackItem b)) bs F Fresh (CCpon.Leaves item)) :
    Unpacks startItem (b :: bs) F (·.errNo = .ok) (CCpon.Leaves item) := by
  constructor
  · intro c rest hc hrest hP
    rw [startItem_starts hb hc]
    exact h.whole _ rest rfl hrest ⟨hP, rfl⟩
  · intro c ys hc hys he hP
    cases hi : c.input with
    | nil =>
      obtain ⟨e, c', herr, hbenign⟩ := startItem_nil hi
      rw [herr]
      exact hbenign
    | cons x xs =>
      rw [hi] at hc
      obtain ⟨rfl, rfl⟩ := List.cons.inj hc
      rw [startItem_starts hb hi]
      exact h.part _ ys rfl hys he ⟨hP, rfl⟩

/-- An item is read from its first byte, which is put back. -/
theorem unpacks_startItem_unget {p : Unpack CCpcpItem} (hb : Starts b)
    (hp : CCpon.unpackItem b = (do unget; p))
    (h : Unpacks (do setItem (← p)) (b :: bs) F Fresh (CCpon.Leaves item)) :
    Unpacks startItem (b :: bs) F (·.errNo = .ok) (CCpon.Leaves item) := by
  have hstart : ∀ {c : Cursor UnpackContext} {rest : Bytes}, c.input = b :: rest →
      startItem c = (do setItem (← p))
        { c with input := b :: rest, last := b, reg := { c.reg with item := .invalid } } := by
    intro c rest hc
    rw [startItem_starts hb hc, hp, bind_assoc]
    rfl
  constructor
  · intro c rest hc hrest hP
    rw [hstart hc]
    exact h.whole _ rest rfl hrest ⟨hP, rfl⟩
  · intro c ys hc hys he hP
    cases hi : c.input with
    | nil =>
      obtain ⟨e, c', herr, hbenign⟩ := startItem_nil hi
      rw [herr]
      exact hbenign
    | cons x xs =>
      rw [hi] at hc
      obtain ⟨rfl, rfl⟩ := List.cons.inj hc
      rw [hstart hi]
      exact h.part _ ys rfl hys he ⟨hP, rfl⟩

end

/-! ## items -/

section

variable {F : UInt8 → Prop} {b : UInt8} {bs : Bytes} {item : CCpcpItem}

/-- Storing an item that was read. -/
theorem consumes_bind_setItem {p : Unpack CCpcpItem} (h : Consumes p bs F Fresh (Yields item)) :
    Consumes (do setItem (← p)) bs F Fresh (CCpon.Leaves item) := by
  rw [← List.append_nil bs]
  refine h.bind (fun a => ?_) (Follows.nil F) fun _ b hb => hb
  exact consumes_setItem fun ctx hctx => ⟨hctx.1, hctx.2⟩

theorem unpacks_bind_setItem {p : Unpack CCpcpItem} (hs : UnpackSolid p)
    (h : Consumes p bs F Fresh (Yields item)) :
    Unpacks (do setItem (← p)) bs F Fresh (CCpon.Leaves item) :=
  Reads.of_solid (UnpackSolid.benign (hs.bind fun _ => solid_setItem _)) (consumes_bind_setItem h)

/-- An item that its first byte says. -/
theorem unpacks_startItem_byte (hb : Starts b) (h : CCpon.unpackItem b = return item) :
    Unpacks startItem [b] F (·.errNo = .ok) (CCpon.Leaves item) := by
  refine unpacks_startItem hb (unpacks_bind_setItem ?_ ?_)
  · rw [h]
    exact Solid.pure _
  · rw [h]
    exact Consumes.pure fun _ hctx => ⟨rfl, hctx.errNo⟩

theorem solid_expectByte (b : UInt8) (errMsg : String) : UnpackSolid (expectByte b errMsg) :=
  solid_unpackTakeByte.bind fun _ => Solid.ite (Solid.pure _) (solid_unpackError _ _)

theorem consumes_expectByte {P : UnpackContext → Prop} (errMsg : String) :
    Consumes (expectByte b errMsg) [b] F P fun a ctx => a = () ∧ P ctx := by
  refine consumes_takeByte_bind ?_
  rw [if_pos rfl]
  exact Consumes.pure fun _ h => ⟨rfl, h⟩

theorem expectByte_cons {errMsg : String} {c : Cursor UnpackContext} {rest : Bytes}
    (h : c.input = b :: rest) :
    expectByte b errMsg c = .ok () { c with input := rest, last := b } :=
  (bind_of_ok (unpackTakeByte_cons h)).trans (congrFun (if_pos rfl) _)

theorem expectByte_nil {errMsg : String} {c : Cursor UnpackContext} (h : c.input = []) :
    expectByte b errMsg c = .error (.parse .bufferUnderflow "") { c with atEnd := true } :=
  bind_of_error (unpackTakeByte_nil h)

theorem solid_expectLiteral (errMsg : String) (bs : Bytes) :
    UnpackSolid (expectLiteral errMsg bs) := by
  induction bs with
  | nil => exact Solid.pure _
  | cons b bs ih => exact (solid_expectByte b errMsg).bind fun _ => ih

theorem consumes_expectLiteral {P : UnpackContext → Prop} (errMsg : String) (bs : Bytes) :
    Consumes (expectLiteral errMsg bs) bs F P fun a ctx => a = () ∧ P ctx := by
  induction bs with
  | nil => exact Consumes.pure fun _ h => ⟨rfl, h⟩
  | cons b bs ih => exact (consumes_expectByte errMsg).bind_value ih

/-- An item that a literal says. -/
theorem unpacks_startItem_literal {errMsg : String} (hb : Starts b)
    (h : CCpon.unpackItem b = (do expectLiteral errMsg bs; return item)) :
    Unpacks startItem (b :: bs) F (·.errNo = .ok) (CCpon.Leaves item) := by
  refine unpacks_startItem hb (unpacks_bind_setItem ?_ ?_)
  · rw [h]
    exact (solid_expectLiteral errMsg bs).bind fun _ => Solid.pure _
  · rw [h]
    exact (consumes_expectLiteral errMsg bs).map_value (g := fun _ => item)
      fun _ hctx => ⟨rfl, hctx.errNo⟩

theorem unpacks_startItem_imap :
    Unpacks startItem [0x69, C_MAP_BEGIN] F (·.errNo = .ok) (CCpon.Leaves .imap) := by
  have h : CCpon.unpackItem 0x69 = (do
      expectByte C_MAP_BEGIN "IMap should start with '\x7b'."
      return .imap) := rfl
  refine unpacks_startItem (b := 0x69) (by rfl) (unpacks_bind_setItem ?_ ?_)
  · rw [h]
    exact (solid_expectByte _ _).bind fun _ => Solid.pure _
  · rw [h]
    exact (consumes_expectByte _).map_value (g := fun _ => CCpcpItem.imap)
      fun _ hctx => ⟨rfl, hctx.errNo⟩

end

/-! ## numbers -/

section

variable {F : UInt8 → Prop} {b : UInt8} {bs : Bytes} {item : CCpcpItem}

theorem starts_of_isDigit {b : UInt8} (h : IsDigit b) : Starts b := by
  have hne : ∀ b', ¬ IsDigit b' → b ≠ b' := fun _ h' => ne_of_isDigit h h'
  obtain ⟨hlo, hhi⟩ := h
  have hgt : b > space := UInt8.lt_iff_toNat_lt.mpr (by
    change 32 < b.toNat
    omega)
  have hlt : ¬ 0x80 ≤ b := fun h' => by
    have : 128 ≤ b.toNat := UInt8.le_iff_toNat_le.mp h'
    omega
  rw [Starts, skipStep, if_neg (hne 0 (by decide)), if_neg hlt, if_pos hgt,
    if_neg (hne 0x2f (by decide)),
    if_neg (not_or.mpr ⟨hne C_KEY_DELIM (by decide), hne C_FIELD_DELIM (by decide)⟩)]

theorem unpackItem_of_isDigit {b : UInt8} (h : IsDigit b) :
    CCpon.unpackItem b = (do unget; unpackNumber) := by
  have hne : ∀ b', ¬ IsDigit b' → b ≠ b' := fun _ h' => ne_of_isDigit h h'
  have hrange : 0x30 ≤ b ∧ b ≤ 0x39 :=
    ⟨UInt8.le_iff_toNat_le.mpr h.1, UInt8.le_iff_toNat_le.mpr h.2⟩
  rw [CCpon.unpackItem,
    if_neg (not_or.mpr ⟨hne C_LIST_END (by decide),
      not_or.mpr ⟨hne C_MAP_END (by decide), hne C_META_END (by decide)⟩⟩),
    if_neg (hne C_META_BEGIN (by decide)), if_neg (hne C_MAP_BEGIN (by decide)),
    if_neg (hne C_LIST_BEGIN (by decide)), if_neg (hne 0x69 (by decide)),
    if_neg (hne 0x61 (by decide)), if_neg (hne 0x64 (by decide)), if_neg (hne 0x6e (by decide)),
    if_neg (hne 0x66 (by decide)), if_neg (hne 0x74 (by decide)), if_neg (hne 0x78 (by decide)),
    if_neg (hne 0x62 (by decide)), if_neg (hne quote (by decide)), if_pos (.inl hrange)]

/-- A number is complete with every byte. -/
theorem live_of_unpackNumber {c c' : Cursor UnpackContext} {a : CCpcpItem}
    (h : unpackNumber c = .ok a c') : a.Live := by
  rw [unpackNumber] at h
  obtain ⟨result, c₁, -, h⟩ := bind_eq_ok.mp h
  split at h
  · contradiction
  · obtain ⟨r, c₂, -, h⟩ := bind_eq_ok.mp h
    obtain ⟨u, c₃, -, h⟩ := bind_eq_ok.mp h
    obtain ⟨rfl, -⟩ : r.item = a ∧ c₃ = c' := by simpa using h
    rw [ReadNumber.item]
    split
    · split <;> exact trivial
    · split <;> exact trivial

/-- A number, from its first byte. -/
theorem unpacks_startItem_number (hb : Starts b) (hitem : CCpon.unpackItem b = (do unget; unpackNumber))
    (h : Unpacks unpackNumber (b :: bs) F Fresh (Yields item)) :
    Unpacks startItem (b :: bs) F (·.errNo = .ok) (CCpon.Leaves item) := by
  refine unpacks_startItem_unget hb hitem ⟨consumes_bind_setItem h.whole, ?_⟩
  intro c ys hc hys he hP
  have hpart := h.part c ys hc hys he hP
  rw [bind_apply]
  cases hread : unpackNumber c with
  | error e c' =>
    rw [hread] at hpart
    exact hpart
  | ok a c' =>
    rw [hread] at hpart
    exact ⟨hpart.atEnd, hpart.short, fun herr =>
      ⟨(hpart.ended herr).1, live_of_unpackNumber hread⟩⟩

theorem packInt_cons {n : Int64} (hmin : n ≠ Int64.minValue) :
    ∃ b bs, CCpon.packInt n = b :: bs ∧ Starts b ∧ CCpon.unpackItem b = (do unget; unpackNumber) ∧
      b ≠ C_META_BEGIN := by
  rw [CCpon.packInt]
  by_cases hn : n < 0
  · exact ⟨_, _, intToStr_of_neg hmin hn, rfl, rfl, by decide⟩
  · rw [intToStr_of_nonneg hn]
    cases hd : digits n.toInt.natAbs with
    | nil => exact absurd hd (digits_ne_nil _)
    | cons b bs =>
      have hdigit : IsDigit b := isDigit_of_mem_digits (hd ▸ List.mem_cons_self)
      exact ⟨b, bs, rfl, starts_of_isDigit hdigit, unpackItem_of_isDigit hdigit,
        ne_of_isDigit hdigit (by decide)⟩

theorem packUint_cons (n : UInt64) :
    ∃ b bs, CCpon.packUint n = b :: bs ∧ Starts b ∧ CCpon.unpackItem b = (do unget; unpackNumber) ∧
      b ≠ C_META_BEGIN := by
  rw [CCpon.packUint, uintToStr]
  cases hd : digits n.toNat with
  | nil => exact absurd hd (digits_ne_nil _)
  | cons b bs =>
    have hdigit : IsDigit b := isDigit_of_mem_digits (hd ▸ List.mem_cons_self)
    exact ⟨b, _, rfl, starts_of_isDigit hdigit, unpackItem_of_isDigit hdigit,
      ne_of_isDigit hdigit (by decide)⟩

end

/-! ## strings and blobs -/

section

variable {chunk : Nat → Bytes → Unpack (Bytes × Bool)} {esc : UInt8 → Bytes}
  {wrap : CCpcpString → CCpcpItem} {errMsg : String}

/-- `f` on what was unpacked, into the context. -/
abbrev storeChunk (wrap : CCpcpString → CCpcpItem) (p : Unpack CCpcpString) : Unpack Unit := do
  setItem (wrap (← p))

/-- A chunk, behind the opening quote if it is the first one. -/
theorem unpacks_storeChunk (h : ChunkCodec chunk esc) (it : CCpcpString) (s : Bytes)
    {P : UnpackContext → Prop} (hP : ∀ ctx, P ctx → ctx.errNo = .ok) :
    Unpacks (storeChunk wrap (unpackChunk chunk errMsg it))
      ((if it.chunkCnt = 0 then [quote] else []) ++ chunkBytes esc s) Any P
      (CCpon.Leaves (wrap (next it s))) := by
  refine Reads.of_solid (UnpackSolid.benign
    ((h.solid_unpackChunk errMsg it).bind fun _ => solid_setItem _)) ?_
  rw [← List.append_nil (_ ++ chunkBytes esc s)]
  refine (h.consumes_unpackChunk errMsg it s).bind_value (consumes_setItem fun ctx hctx => ?_)
  exact ⟨rfl, hP ctx hctx⟩

theorem unpacks_startItem_string (s : Bytes) :
    Unpacks startItem (quote :: chunkBytes escapedChar s) Any (·.errNo = .ok)
      (CCpon.Leaves (.string (next .init s))) := by
  refine unpacks_startItem_unget (by rfl)
    (p := (do return .string (← CCpon.unpackString .init))) (by rfl) ?_
  rw [bind_assoc]
  exact unpacks_storeChunk chunkCodec_string .init s fun _ hctx => hctx.errNo

/-- The opening quote of a blob is put back before the blob is unpacked. -/
theorem unpacks_startItem_blob (s : Bytes) :
    Unpacks startItem (0x62 :: quote :: chunkBytes escapedBlobChar s) Any (·.errNo = .ok)
      (CCpon.Leaves (.blob (next .init s))) := by
  have hitem : CCpon.unpackItem 0x62 = (do
      expectByte quote "BLOB string should start with 'b\"'."
      unget
      return .blob (← unpackBlobEsc .init)) := rfl
  have hchunk : Unpacks (storeChunk .blob (unpackBlobEsc .init))
      (quote :: chunkBytes escapedBlobChar s) Any Fresh (CCpon.Leaves (.blob (next .init s))) :=
    unpacks_storeChunk chunkCodec_blob .init s fun _ hctx => hctx.errNo
  have hunget : ∀ c : Cursor UnpackContext,
      ((do unget; return .blob (← unpackBlobEsc .init)) >>= setItem : Unpack Unit) c =
        storeChunk .blob (unpackBlobEsc .init) { c with input := c.last :: c.input } := by
    intro c
    rw [bind_assoc, bind_of_ok (unget_apply c), bind_assoc]
    rfl
  refine unpacks_startItem (by rfl) ?_
  rw [hitem, bind_assoc]
  constructor
  · intro c rest hc hrest hP
    rw [bind_of_ok (expectByte_cons hc), hunget]
    exact hchunk.whole { c with
      input := quote :: (chunkBytes escapedBlobChar s ++ rest), last := quote } rest rfl hrest hP
  · intro c ys hc hys he hP
    cases hi : c.input with
    | nil =>
      rw [bind_of_error (expectByte_nil hi)]
      exact benign_parse _ _
    | cons x xs =>
      rw [hi] at hc
      obtain ⟨rfl, hx⟩ := List.cons.inj hc
      rw [bind_of_ok (expectByte_cons hi), hunget]
      exact hchunk.part { c with input := quote :: xs, last := quote } ys
        (congrArg (quote :: ·) hx) hys he hP

end

end LibShv.CCpon

namespace LibShv.CponReader

open ByteReader AbstractStreamReader CCpon

/-! ## the next item -/

theorem benign_repeatMessage {e : Fault} (h : e.Benign) : (repeatMessage e).Benign := by
  cases e with
  | parse errNo errMsg => exact benign_parse _ _
  | _ => exact h

/-- The item left in the context is the item unpacked. -/
theorem unpacked_of_leaves {F : UInt8 → Prop} {bs : Bytes} {item : CCpcpItem}
    {P : UnpackContext → Prop} (h : Unpacks CCpon.unpackNext bs F P (CCpon.Leaves item))
    (hlive : item.Live) : Unpacks reader.unpackNext bs F P (AbstractStreamReader.Unpacked item) := by
  change Unpacks (mapError repeatMessage CCpon.unpackNext >>= fun _ => getItem) bs F P _
  rw [← List.append_nil bs]
  refine Reads.bind (fun _ c he hi hQ => dead_of_live he hi (by rw [hQ.1]; exact hlive))
    (h.mapError fun _ => benign_repeatMessage) (fun _ => ?_) (fun _ c hc => hc) (Follows.nil F)
    fun _ b hb => hb
  exact Reads.of_consumes_nil fun c rest hc _ hP =>
    ⟨c.reg.item, c, rfl, hc, .inl rfl, hP.1, hP.1, hP.2⟩

theorem encodesItem_of_startItem {F : UInt8 → Prop} {bs : Bytes} {item : CCpcpItem}
    (h : Unpacks startItem bs F (·.errNo = .ok) (CCpon.Leaves item)) (hlive : item.Live) :
    reader.EncodesItem F bs item := by
  refine unpacked_of_leaves (Reads.congr ?_
    (h.imp (fun _ hb => hb) (fun ctx (hready : ctx.Ready) => hready.errNo) fun _ _ hQ => hQ)) hlive
  exact fun c hc => unpackNext_of_ready hc

/-- An unfinished string takes a byte. -/
theorem unpackChunk_nil {chunk : Nat → Bytes → Unpack (Bytes × Bool)} {errMsg : String}
    {it : CCpcpString} {c : Cursor UnpackContext} (h : c.input = [])
    (hchunk : ∃ e c', chunk stringChunkBuffLen [] c = .error e c' ∧ e.Benign) :
    ∃ e c', unpackChunk chunk errMsg it c = .error e c' ∧ e.Benign := by
  rw [unpackChunk]
  by_cases hcnt : it.chunkCnt = 0
  · rw [if_pos hcnt]
    exact ⟨_, _, bind_of_error (unpackTakeByte_nil h), benign_parse _ _⟩
  · rw [if_neg hcnt]
    obtain ⟨e, c', herr, hbenign⟩ := hchunk
    exact ⟨e, c', bind_of_error herr, hbenign⟩

theorem unpackString_nil {it : CCpcpString} {c : Cursor UnpackContext} (h : c.input = []) :
    ∃ e c', CCpon.unpackString it c = .error e c' ∧ e.Benign :=
  unpackChunk_nil h ⟨_, _, bind_of_error (unpackTakeByte_nil h), benign_parse _ _⟩

theorem unpackBlobEsc_nil {it : CCpcpString} {c : Cursor UnpackContext} (h : c.input = []) :
    ∃ e c', unpackBlobEsc it c = .error e c' ∧ e.Benign :=
  unpackChunk_nil h ⟨_, _, bind_of_error (unpackTakeByte_nil h), benign_parse _ _⟩

theorem unpackBlobHex_nil {it : CCpcpString} {c : Cursor UnpackContext} (h : c.input = []) :
    ∃ e c', unpackBlobHex it c = .error e c' ∧ e.Benign := by
  have hbyte : unpackHexByte c = .error (.parse .bufferUnderflow "") { c with atEnd := true } :=
    bind_of_ok (scan_nil h)
  exact unpackChunk_nil h ⟨_, _, bind_of_error hbyte, benign_parse _ _⟩

theorem unpackNext_nil {c : Cursor UnpackContext} (herr : c.reg.errNo = .ok) (hi : c.input = []) :
    ∃ e c', CCpon.unpackNext c = .error e c' ∧ e.Benign := by
  have hstore : ∀ {wrap : CCpcpString → CCpcpItem} {p : Unpack CCpcpString},
      (∃ e c', p c = .error e c' ∧ e.Benign) →
      ∃ e c', storeChunk wrap p c = .error e c' ∧ e.Benign := by
    rintro wrap p ⟨e, c', h, hbenign⟩
    exact ⟨e, c', bind_of_error h, hbenign⟩
  rw [CCpon.unpackNext, bind_of_ok (checkErrNo_of_ok herr), bind_of_ok (getItem_apply c)]
  cases c.reg.item with
  | string it =>
    by_cases hlast : it.lastChunk = true
    · simp only [hlast, if_true]
      exact startItem_nil hi
    · simp only [hlast, Bool.false_eq_true, if_false]
      exact hstore (unpackString_nil hi)
  | blob it =>
    by_cases hlast : it.lastChunk = true
    · simp only [hlast, if_true]
      exact startItem_nil hi
    · by_cases hhex : it.blobHex = true
      · simp only [hlast, hhex, Bool.false_eq_true, if_false, if_true]
        exact hstore (unpackBlobHex_nil hi)
      · simp only [hlast, hhex, Bool.false_eq_true, if_false]
        exact hstore (unpackBlobEsc_nil hi)
  | _ => exact startItem_nil hi

theorem failsDead_unpackNext : FailsDead Dead Fault.Benign unpackNext := by
  intro c hc
  have hnext : ∃ e c', CCpon.unpackNext c = .error e c' ∧ e.Benign := by
    by_cases herr : c.reg.errNo = .ok
    · exact unpackNext_nil herr (hc.ended herr).1
    · exact ⟨_, _, bind_of_error (checkErrNo_of_ne herr), benign_parse _ _⟩
  obtain ⟨e, c', h, hbenign⟩ := hnext
  exact ⟨_, _, bind_of_error (mapError_of_error h), benign_repeatMessage hbenign⟩

/-! ## looking for metadata -/

theorem metaDataBegin_starts {c : Cursor UnpackContext} {sep rest : Bytes} {b : UInt8}
    (hsep : Blanks sep) (hb : Starts b) (hc : c.input = sep ++ b :: rest) :
    metaDataBegin c = (if b = C_META_BEGIN then do
        CCpon.unpackNext
        return true
      else return false) { c with input := b :: rest, last := b } := by
  rw [metaDataBegin, bind_of_ok (skipInsignificant_starts hsep hb hc)]
  by_cases h : b = C_META_BEGIN
  · rw [if_pos h, bind_of_ok (unget_apply _), if_pos (congrArg some h)]
  · rw [if_neg h, bind_of_ok (unget_apply _), if_neg (mt Option.some.inj h)]

/-- Only blanks are left: the last one is put back. -/
theorem metaDataBegin_end {c : Cursor UnpackContext} (h : Blanks c.input) :
    ∃ c', metaDataBegin c = .ok false c' ∧ Dead c' := by
  obtain ⟨last, hskip⟩ := skipInsignificant_end h
  exact ⟨_, bind_of_ok hskip, dead_of_errNo rfl (Nat.le_refl 1) nofun⟩

theorem passes {sep : Bytes} {b : UInt8} (hsep : Blanks sep) (hb : Starts b)
    (hne : b ≠ C_META_BEGIN) : reader.Passes sep b where
  whole c xs hc _ := by
    refine ⟨b, ?_⟩
    change metaDataBegin c = _
    rw [metaDataBegin_starts hsep hb hc, if_neg hne]
    rfl
  part _ _ hc hys _ _ := metaDataBegin_end (blanks_of_append hsep hc hys)

theorem begins {sep : Bytes} (hsep : Blanks sep) : reader.Begins (sep ++ [C_META_BEGIN]) where
  whole c rest hc _ hP := by
    rw [List.append_assoc] at hc
    have hnext := (unpackNext_of_ready (c := { c with
      input := C_META_BEGIN :: rest, last := C_META_BEGIN }) hP).trans (startItem_metaBegin rfl)
    have hbegin := (metaDataBegin_starts hsep (by rfl) hc).trans
      ((congrFun (if_pos rfl) _).trans (bind_of_ok hnext))
    exact ⟨true, _, hbegin, rfl, .inl rfl, rfl, hP.errNo, trivial⟩
  part c ys hc hys _ _ := by
    obtain ⟨c', h, hdead⟩ := metaDataBegin_end (blanks_of_append hsep hc hys)
    change Starved Dead Fault.Benign (metaDataBegin c)
    rw [h]
    exact hdead

/-- The skipper on at most one byte, at the end of the stream. -/
theorem skipInsignificant_dead {c : Cursor UnpackContext} (hc : Dead c) :
    ∃ o c', skipInsignificant c = .ok o c' ∧ c'.atEnd = true ∧ c'.input = [] ∧
      c'.reg.errNo ≠ .ok := by
  cases hi : c.input with
  | nil =>
    have hblank : Blanks c.input := by
      rw [hi]
      exact List.forall_mem_nil _
    obtain ⟨last, h⟩ := skipInsignificant_end hblank
    exact ⟨none, _, h, rfl, rfl, by simp⟩
  | cons b bs =>
    have hshort := hc.short
    rw [hi, List.length_cons] at hshort
    obtain rfl : bs = [] := List.eq_nil_of_length_eq_zero (by omega)
    have herr : c.reg.errNo ≠ .ok := by
      intro h
      rw [(hc.ended h).1] at hi
      contradiction
    cases hs : skipStep .text b with
    | done o =>
      exact ⟨o, _, bind_of_ok (scan_done hi hs), hc.atEnd, rfl, herr⟩
    | more mode =>
      have hscan : (scan skipStep .text : Unpack _) c = .ok (.inl mode)
          { c with input := [], last := b, atEnd := true } :=
        (scan_more hi hs).trans (scan_nil rfl)
      cases mode with
      | star =>
        rw [skipStep] at hs
        repeat' split at hs
        all_goals simp at hs
      | _ => exact ⟨none, _, bind_of_ok hscan, rfl, rfl, by simp⟩

theorem lawful : reader.Lawful where
  failsDead_unpackNext := failsDead_unpackNext
  dead_metaDataBegin c hc := by
    obtain ⟨o, c', hskip, hend, hinput, herr⟩ := skipInsignificant_dead hc
    have hunget : metaDataBegin c = (if o = some C_META_BEGIN then do
        CCpon.unpackNext
        return true
      else return false) { c' with input := c'.last :: c'.input } := bind_of_ok hskip
    have hbegin : reader.metaDataBegin c = metaDataBegin c := rfl
    rw [hbegin, hunget, hinput]
    by_cases ho : o = some C_META_BEGIN
    · have hnext : CCpon.unpackNext { c' with input := [c'.last] } =
          .error (.parse c'.reg.errNo c'.reg.errMsg) { c' with input := [c'.last] } := by
        rw [CCpon.unpackNext]
        exact bind_of_error (checkErrNo_of_ne herr)
      rw [if_pos ho, bind_of_error hnext]
      exact benign_parse _ _
    · rw [if_neg ho]
      exact ⟨rfl, dead_of_errNo hend (Nat.le_refl 1) herr⟩
  isParse_parseException _ _ := trivial

/-! ## strings and blobs -/

section

variable {chunk : Nat → Bytes → Unpack (Bytes × Bool)} {esc : UInt8 → Bytes}
  {wrap : CCpcpString → CCpcpItem} {errMsg : String}

/-- The next chunk of an unfinished string, delivered from the context. -/
abbrev Continues (wrap : CCpcpString → CCpcpItem) (chunk : Nat → Bytes → Unpack (Bytes × Bool))
    (errMsg : String) : Prop :=
  ∀ (c : Cursor UnpackContext) (it : CCpcpString), c.reg.errNo = .ok → c.reg.item = wrap it →
    it.lastChunk = false → it.blobHex = false →
    CCpon.unpackNext c = storeChunk wrap (unpackChunk chunk errMsg it) c

theorem continues_string :
    Continues .string unpackStringChunk "String should start with '\"' character." := by
  intro c it herr hitem hlast _
  rw [CCpon.unpackNext, bind_of_ok (checkErrNo_of_ok herr), bind_of_ok (getItem_apply c), hitem]
  simp only [hlast, Bool.false_eq_true, if_false]
  rfl

theorem continues_blob :
    Continues .blob unpackBlobEscChunk "Blob should start with 'b\"' ." := by
  intro c it herr hitem hlast hhex
  rw [CCpon.unpackNext, bind_of_ok (checkErrNo_of_ok herr), bind_of_ok (getItem_apply c), hitem]
  simp only [hlast, hhex, Bool.false_eq_true, if_false]
  rfl

/-- The chunks of `s` behind the first one, as long as `chunk_cnt` does not come round to zero,
when a quote would be expected again. The induction is on the length of `s`. -/
theorem chunks_next (h : ChunkCodec chunk esc) (hcont : Continues wrap chunk errMsg)
    (hwrap : ∀ it : CCpcpString, it.Live → (wrap it).Live) (s : Bytes) (it : CCpcpString)
    (hlast : it.lastChunk = false) (hhex : it.blobHex = false) (hsize : it.stringSize < 0)
    (hcnt : it.chunkCnt.toNat * 256 + s.length < 2 ^ 40) :
    reader.Chunks wrap (next it s) (chunkRest esc s) s := by
  induction hk : s.length using Nat.strongRecOn generalizing s it with
  | ind k ih =>
    have hbuff : stringChunkBuffLen = 256 := rfl
    rw [chunkRest]
    by_cases hlt : s.length < stringChunkBuffLen
    · have hdone : (next it s).lastChunk = true := by
        simp only [next, hlt, decide_true, Bool.or_true]
      have hchunk : (next it s).chunk = s := List.take_of_length_le (Nat.le_of_lt hlt)
      have hend : reader.Chunks wrap (next it s) [] _ := .last hdone
      rw [hchunk] at hend
      rwa [if_pos hlt]
    · rw [if_neg hlt, ← chunkBytes_append_chunkRest]
      have hlen := List.length_drop (i := stringChunkBuffLen) (l := s)
      have hmore : (next it s).lastChunk = false := by
        simp only [next, hlast, hlt, decide_false, Bool.or_false]
      have hcnt' : (next it s).chunkCnt.toNat = it.chunkCnt.toNat + 1 := by
        rw [next, UInt32.toNat_add]
        change (it.chunkCnt.toNat + 1) % 2 ^ 32 = it.chunkCnt.toNat + 1
        omega
      have hne : ¬ (next it s).chunkCnt = 0 := by
        intro h0
        rw [h0] at hcnt'
        exact absurd hcnt' (by change ¬ 0 = it.chunkCnt.toNat + 1; omega)
      have hdrop : (s.drop stringChunkBuffLen).length + 256 = s.length := by omega
      have hroom : (next it s).chunkCnt.toNat * 256 + (s.drop stringChunkBuffLen).length < 2 ^ 40 := by
        rw [hcnt', Nat.succ_mul, Nat.add_assoc, Nat.add_comm 256, hdrop]
        exact hcnt
      have hlive : (next (next it s) (s.drop stringChunkBuffLen)).Live := .inr (.inl hsize)
      have hrest := ih (s.drop stringChunkBuffLen).length (by omega) (s.drop stringChunkBuffLen)
        (next it s) hmore hhex hsize hroom rfl
      have hnext : Unpacks reader.unpackNext (chunkBytes esc (s.drop stringChunkBuffLen))
          AbstractStreamReader.Any
          (fun ctx => ctx.item = wrap (next it s) ∧ ctx.errNo = .ok)
          (AbstractStreamReader.Unpacked (wrap (next (next it s) (s.drop stringChunkBuffLen)))) := by
        refine unpacked_of_leaves (Reads.congr (fun c hc =>
          hcont c (next it s) hc.2 hc.1 hmore hhex) ?_) (hwrap _ hlive)
        have hstore : Unpacks (storeChunk wrap (unpackChunk chunk errMsg (next it s))) _
            AbstractStreamReader.Any (fun ctx => ctx.item = wrap (next it s) ∧ ctx.errNo = .ok) _ :=
          unpacks_storeChunk h (next it s) (s.drop stringChunkBuffLen) fun _ hctx => hctx.2
        rwa [if_neg hne, List.nil_append] at hstore
      have hchunks := Chunks.more hmore hlive (h.chunkBytes_ne_nil _) hnext hrest
      have hchunk : (next it s).chunk = s.take stringChunkBuffLen := rfl
      rwa [hchunk, List.take_append_drop] at hchunks

end

end LibShv.CponReader
