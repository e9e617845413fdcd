import LibShv.CCpon

/-!
# LibShv.CCpon.Strings

Strings and blobs read back in chunks: the chunk functions on what
`copy_data_escaped` and `copy_blob_escaped` wrote.

The two differ in their escape sequences only. What a chunk function has to do
with the bytes of one escaped byte is `ChunkCodec`; the chunks follow from it.
-/

namespace LibShv.CCpon

open ByteReader

/-- `chunk` reads what `esc` writes, byte by byte up to a quote. -/
structure ChunkCodec (chunk : Nat → Bytes → Unpack (Bytes × Bool)) (esc : UInt8 → Bytes) :
    Prop where
  esc_ne_nil : ∀ b, esc b ≠ []
  solid : ∀ room bytes, UnpackSolid (chunk room bytes)
  full : ∀ bytes, chunk 0 bytes = return (bytes, false)
  close : ∀ {room : Nat} {bytes : Bytes} {F : UInt8 → Prop} {P : UnpackContext → Prop},
    Consumes (chunk (room + 1) bytes) [quote] F P fun a ctx => a = (bytes, true) ∧ P ctx
  byte : ∀ {room : Nat} {bytes : Bytes} (b : UInt8) {bs : Bytes} {F : UInt8 → Prop}
    {P : UnpackContext → Prop} {Q : Bytes × Bool → UnpackContext → Prop},
    Consumes (chunk room (bytes ++ [b])) bs F P Q →
    Consumes (chunk (room + 1) bytes) (esc b ++ bs) F P Q

/-! ## strings -/

theorem escapedChar_cases (b : UInt8) :
    (∃ q, escapedChar b = [backslash, q] ∧ unescapedChar q = b) ∨
      escapedChar b = [b] ∧ b ≠ backslash ∧ b ≠ quote := by
  by_cases h0 : b = 0
  · subst h0; exact .inl ⟨0x30, rfl, rfl⟩
  by_cases h1 : b = backslash
  · subst h1; exact .inl ⟨backslash, rfl, rfl⟩
  by_cases h2 : b = 0x09
  · subst h2; exact .inl ⟨0x74, rfl, rfl⟩
  by_cases h3 : b = 0x08
  · subst h3; exact .inl ⟨0x62, rfl, rfl⟩
  by_cases h4 : b = 0x0d
  · subst h4; exact .inl ⟨0x72, rfl, rfl⟩
  by_cases h5 : b = newline
  · subst h5; exact .inl ⟨0x6e, rfl, rfl⟩
  by_cases h6 : b = quote
  · subst h6; exact .inl ⟨quote, rfl, rfl⟩
  · refine .inr ⟨?_, h1, h6⟩
    rw [escapedChar, if_neg h0, if_neg h1, if_neg h2, if_neg h3, if_neg h4, if_neg h5, if_neg h6]

theorem solid_unpackStringChunk (room : Nat) (bytes : Bytes) :
    UnpackSolid (unpackStringChunk room bytes) := by
  induction room generalizing bytes with
  | zero => exact Solid.pure _
  | succ room ih =>
    refine solid_unpackTakeByte.bind fun p => Solid.ite ?_ (Solid.ite (Solid.pure _) (ih _))
    exact solid_unpackTakeByte.bind fun _ => ih _

theorem chunkCodec_string : ChunkCodec unpackStringChunk escapedChar where
  esc_ne_nil b := by
    rcases escapedChar_cases b with ⟨q, h, -⟩ | ⟨h, -⟩ <;> simp [h]
  solid := solid_unpackStringChunk
  full _ := rfl
  close := by
    intro room bytes F P
    rw [unpackStringChunk]
    refine consumes_takeByte_bind ?_
    rw [if_neg (by decide), if_pos rfl]
    exact Consumes.pure fun _ h => ⟨rfl, h⟩
  byte := by
    intro room bytes b bs F P Q h
    rw [unpackStringChunk]
    rcases escapedChar_cases b with ⟨q, hb, hq⟩ | ⟨hb, hne, hne'⟩
    · rw [hb]
      refine consumes_takeByte_bind ?_
      rw [if_pos rfl]
      refine consumes_takeByte_bind ?_
      rw [hq]
      exact h
    · rw [hb]
      refine consumes_takeByte_bind ?_
      rw [if_neg hne, if_neg hne']
      exact h

/-! ## blobs -/

theorem unhex_hexify {b : UInt8} (h : b < 16) : unhex (hexify b) = some b := by
  have hall : ∀ k : Fin 16, unhex (hexify (UInt8.ofNat k)) = some (UInt8.ofNat k) := by decide
  have hlt : b.toNat < 16 := UInt8.lt_iff_toNat_lt.mp h
  have := hall ⟨b.toNat, hlt⟩
  rwa [UInt8.ofNat_toNat] at this

theorem hexify_ne {b b' : UInt8} (h : b < 16) (hb' : unhex b' = none) : hexify b ≠ b' := by
  intro he
  rw [← he, unhex_hexify h] at hb'
  contradiction

theorem div_lt_sixteen (b : UInt8) : b / 16 < 16 := by
  have := b.toNat_lt
  rw [UInt8.lt_iff_toNat_lt, UInt8.toNat_div]
  change b.toNat / 16 < 16
  omega

theorem mod_lt_sixteen (b : UInt8) : b % 16 < 16 := UInt8.mod_lt b (by decide)

theorem sixteen_mul_div_add_mod (b : UInt8) : 16 * (b / 16) + b % 16 = b := by
  have := b.toNat_lt
  apply UInt8.toNat_inj.mp
  rw [UInt8.toNat_add, UInt8.toNat_mul, UInt8.toNat_div, UInt8.toNat_mod]
  change (16 * (b.toNat / 16) % 256 + b.toNat % 16) % 256 = b.toNat
  omega

/-- The bytes of a blob are escaped by a letter, by two hexadecimal digits, or not at all. -/
theorem escapedBlobChar_cases (b : UInt8) :
    (∃ q, escapedBlobChar b = [backslash, q] ∧ unpackBlobEscape q = return b) ∨
      escapedBlobChar b = [backslash, hexify (b / 16), hexify (b % 16)] ∨
      escapedBlobChar b = [b] ∧ b ≠ backslash ∧ b ≠ quote ∧ b < 128 := by
  by_cases h1 : b = backslash
  · subst h1; exact .inl ⟨backslash, rfl, rfl⟩
  by_cases h2 : b = 0x09
  · subst h2; exact .inl ⟨0x74, rfl, rfl⟩
  by_cases h3 : b = 0x0d
  · subst h3; exact .inl ⟨0x72, rfl, rfl⟩
  by_cases h4 : b = newline
  · subst h4; exact .inl ⟨0x6e, rfl, rfl⟩
  by_cases h5 : b = quote
  · subst h5; exact .inl ⟨quote, rfl, rfl⟩
  rw [escapedBlobChar, if_neg h1, if_neg h2, if_neg h3, if_neg h4, if_neg h5]
  by_cases h6 : b < 32 ∨ 127 ≤ b
  · exact .inr (.inl (if_pos h6))
  · refine .inr (.inr ⟨if_neg h6, h1, h5, ?_⟩)
    have hlt : ¬ 127 ≤ b.toNat := fun h => h6 (.inr (UInt8.le_iff_toNat_le.mpr h))
    rw [UInt8.lt_iff_toNat_lt]
    change b.toNat < 128
    omega

/-- Two hexadecimal digits are read as the byte they were made from. -/
theorem consumes_unpackBlobEscape_hex {F : UInt8 → Prop} {P : UnpackContext → Prop} (b : UInt8) :
    Consumes (unpackBlobEscape (hexify (b / 16))) [hexify (b % 16)] F P
      fun a ctx => a = b ∧ P ctx := by
  have hdiv := div_lt_sixteen b
  rw [unpackBlobEscape, if_neg (hexify_ne hdiv (by decide)), if_neg (hexify_ne hdiv (by decide)),
    if_neg (hexify_ne hdiv (by decide)), if_neg (hexify_ne hdiv (by decide)),
    if_neg (hexify_ne hdiv (by decide)), unhex_hexify hdiv]
  refine consumes_takeByte_bind ?_
  rw [unhex_hexify (mod_lt_sixteen b)]
  exact Consumes.pure fun _ h => ⟨sixteen_mul_div_add_mod b, h⟩

theorem solid_unpackBlobEscape (p : UInt8) : UnpackSolid (unpackBlobEscape p) := by
  unfold unpackBlobEscape
  refine Solid.ite (Solid.pure _) <| Solid.ite (Solid.pure _) <| Solid.ite (Solid.pure _) <|
    Solid.ite (Solid.pure _) <| Solid.ite (Solid.pure _) ?_
  cases unhex p with
  | none => exact solid_unpackError _ _
  | some hi =>
    refine solid_unpackTakeByte.bind fun q => ?_
    cases unhex q with
    | none => exact solid_unpackError _ _
    | some lo => exact Solid.pure _

theorem solid_unpackBlobEscChunk (room : Nat) (bytes : Bytes) :
    UnpackSolid (unpackBlobEscChunk room bytes) := by
  induction room generalizing bytes with
  | zero => exact Solid.pure _
  | succ room ih =>
    refine solid_unpackTakeByte.bind fun p => Solid.ite (Solid.pure _) (Solid.ite ?_
      (Solid.ite (ih _) (solid_unpackError _ _)))
    exact solid_unpackTakeByte.bind fun q => (solid_unpackBlobEscape q).bind fun _ => ih _

theorem chunkCodec_blob : ChunkCodec unpackBlobEscChunk escapedBlobChar where
  esc_ne_nil b := by
    rcases escapedBlobChar_cases b with ⟨q, h, -⟩ | h | ⟨h, -⟩ <;> simp [h]
  solid := solid_unpackBlobEscChunk
  full _ := rfl
  close := by
    intro room bytes F P
    rw [unpackBlobEscChunk]
    refine consumes_takeByte_bind ?_
    rw [if_pos rfl]
    exact Consumes.pure fun _ h => ⟨rfl, h⟩
  byte := by
    intro room bytes b bs F P Q h
    rw [unpackBlobEscChunk]
    rcases escapedBlobChar_cases b with ⟨q, hb, hq⟩ | hb | ⟨hb, hne, hne', hlt⟩
    · rw [hb]
      refine consumes_takeByte_bind ?_
      rw [if_neg (by decide), if_pos rfl]
      refine consumes_takeByte_bind ?_
      rw [hq, pure_bind]
      exact h
    · rw [hb]
      refine consumes_takeByte_bind ?_
      rw [if_neg (by decide), if_pos rfl]
      refine consumes_takeByte_bind ?_
      exact (consumes_unpackBlobEscape_hex b).bind_value h
    · rw [hb]
      refine consumes_takeByte_bind ?_
      rw [if_neg hne', if_neg hne, if_pos hlt]
      exact h

/-! ## chunks -/

variable {chunk : Nat → Bytes → Unpack (Bytes × Bool)} {esc : UInt8 → Bytes}

/-- The escaped bytes of a chunk of `s`, with the closing quote in the last one. -/
def chunkBytes (esc : UInt8 → Bytes) (s : Bytes) : Bytes :=
  (s.take stringChunkBuffLen).flatMap esc ++ if s.length < stringChunkBuffLen then [quote] else []

/-- What follows the first chunk of `s`. -/
def chunkRest (esc : UInt8 → Bytes) (s : Bytes) : Bytes :=
  if s.length < stringChunkBuffLen then [] else (s.drop stringChunkBuffLen).flatMap esc ++ [quote]

theorem chunkBytes_append_chunkRest (esc : UInt8 → Bytes) (s : Bytes) :
    chunkBytes esc s ++ chunkRest esc s = s.flatMap esc ++ [quote] := by
  unfold chunkBytes chunkRest
  by_cases h : s.length < stringChunkBuffLen
  · rw [if_pos h, if_pos h, List.append_nil, List.take_of_length_le (Nat.le_of_lt h)]
  · rw [if_neg h, if_neg h, List.append_nil, ← List.append_assoc, ← List.flatMap_append,
      List.take_append_drop]

/-- The string item after a chunk of `s`. -/
def next (it : CCpcpString) (s : Bytes) : CCpcpString :=
  { it with
    chunk := s.take stringChunkBuffLen
    lastChunk := it.lastChunk || decide (s.length < stringChunkBuffLen)
    chunkCnt := it.chunkCnt + 1 }

theorem ChunkCodec.consumes_last (h : ChunkCodec chunk esc) {F : UInt8 → Prop}
    {P : UnpackContext → Prop} {s : Bytes} {room : Nat} (hs : s.length < room) (bytes : Bytes) :
    Consumes (chunk room bytes) (s.flatMap esc ++ [quote]) F P
      fun a ctx => a = (bytes ++ s, true) ∧ P ctx := by
  induction s generalizing room bytes with
  | nil =>
    obtain ⟨room, rfl⟩ : ∃ k, room = k + 1 := ⟨room - 1, by rw [List.length_nil] at hs; omega⟩
    rw [List.append_nil]
    exact h.close
  | cons b s ih =>
    rw [List.length_cons] at hs
    obtain ⟨room, rfl⟩ : ∃ k, room = k + 1 := ⟨room - 1, by omega⟩
    have hrest := @ih room (by omega) (bytes ++ [b])
    rw [List.append_assoc, List.singleton_append] at hrest
    rw [List.flatMap_cons, List.append_assoc]
    exact h.byte b hrest

theorem ChunkCodec.consumes_full (h : ChunkCodec chunk esc) {F : UInt8 → Prop}
    {P : UnpackContext → Prop} (s bytes : Bytes) :
    Consumes (chunk s.length bytes) (s.flatMap esc) F P
      fun a ctx => a = (bytes ++ s, false) ∧ P ctx := by
  induction s generalizing bytes with
  | nil =>
    rw [List.append_nil, List.length_nil, h.full]
    exact Consumes.pure fun _ h => ⟨rfl, h⟩
  | cons b s ih =>
    have hrest := ih (bytes ++ [b])
    rw [List.append_assoc, List.singleton_append] at hrest
    rw [List.flatMap_cons]
    exact h.byte b hrest

/-- The loop over one chunk. -/
theorem ChunkCodec.consumes_chunk (h : ChunkCodec chunk esc) {F : UInt8 → Prop}
    {P : UnpackContext → Prop} (s : Bytes) :
    Consumes (chunk stringChunkBuffLen []) (chunkBytes esc s) F P fun a ctx =>
      a = (s.take stringChunkBuffLen, decide (s.length < stringChunkBuffLen)) ∧ P ctx := by
  unfold chunkBytes
  by_cases hs : s.length < stringChunkBuffLen
  · rw [if_pos hs, decide_eq_true hs, List.take_of_length_le (Nat.le_of_lt hs)]
    exact h.consumes_last hs []
  · have hlen : (s.take stringChunkBuffLen).length = stringChunkBuffLen := by
      rw [List.length_take]
      omega
    have hfull := @ChunkCodec.consumes_full _ _ h F P (s.take stringChunkBuffLen) []
    rw [if_neg hs, decide_eq_false hs, List.append_nil]
    rwa [hlen, List.nil_append] at hfull

theorem ChunkCodec.solid_unpackChunk (h : ChunkCodec chunk esc) (errMsg : String)
    (it : CCpcpString) : UnpackSolid (unpackChunk chunk errMsg it) := by
  have hchunk : UnpackSolid (do
      let r ← chunk stringChunkBuffLen []
      return { it with
        chunk := r.1, lastChunk := it.lastChunk || r.2, chunkCnt := it.chunkCnt + 1 }) :=
    (h.solid _ _).bind fun _ => Solid.pure _
  unfold unpackChunk
  by_cases hcnt : it.chunkCnt = 0
  · rw [if_pos hcnt]
    refine solid_unpackTakeByte.bind fun p => ?_
    by_cases hp : p ≠ quote
    · rw [if_pos hp]
      exact (solid_unpackError _ _).bind fun _ => hchunk
    · rw [if_neg hp]
      exact hchunk
  · rw [if_neg hcnt]
    exact hchunk

/-- A chunk, behind the opening quote if it is the first one. -/
theorem ChunkCodec.consumes_unpackChunk (h : ChunkCodec chunk esc) {F : UInt8 → Prop}
    {P : UnpackContext → Prop} (errMsg : String) (it : CCpcpString) (s : Bytes) :
    Consumes (unpackChunk chunk errMsg it)
      ((if it.chunkCnt = 0 then [quote] else []) ++ chunkBytes esc s) F P
      fun a ctx => a = next it s ∧ P ctx := by
  have hchunk : Consumes (do
      let r ← chunk stringChunkBuffLen []
      return { it with
        chunk := r.1, lastChunk := it.lastChunk || r.2, chunkCnt := it.chunkCnt + 1 })
      (chunkBytes esc s) F P fun a ctx => a = next it s ∧ P ctx :=
    (h.consumes_chunk s).map_value fun _ hP => ⟨rfl, hP⟩
  unfold unpackChunk
  by_cases hcnt : it.chunkCnt = 0
  · rw [if_pos hcnt, if_pos hcnt]
    refine consumes_takeByte_bind ?_
    rw [if_neg (by simp)]
    exact hchunk
  · rw [if_neg hcnt, if_neg hcnt]
    exact hchunk

theorem ChunkCodec.chunkBytes_ne_nil (h : ChunkCodec chunk esc) (s : Bytes) :
    chunkBytes esc s ≠ [] := by
  unfold chunkBytes
  cases s with
  | nil => simp [stringChunkBuffLen]
  | cons b s => simp [stringChunkBuffLen, h.esc_ne_nil b]

end LibShv.CCpon
