import LibShv.CCpon
import LibShv.CChainPack.Payload

/-!
# LibShv.CCpon.Payload

String and blob literals of CPON, unpacked in chunks of any size. The opening quote is expected
where `chunk_cnt` is zero, that is in the first call and in every 2^32-th one after it.
-/

namespace LibShv.CCpon

open ByteReader Chunks

/-! ## chunks of any size -/

/-- `unpackChunk` with a chunk buffer of this length. -/
def unpackChunkIn (chunkBuffLen : Nat) (chunk : Nat → Bytes → Unpack (Bytes × Bool))
    (errMsg : String) (it : CCpcpString) : Unpack CCpcpString := do
  if it.chunkCnt = 0 then
    let p ← unpackTakeByte
    if p ≠ quote then unpackError .malformedInput errMsg
  let (bytes, last) ← chunk chunkBuffLen []
  return { it with
    chunk := bytes, lastChunk := it.lastChunk || last, chunkCnt := it.chunkCnt + 1 }

/-- `ccpon_unpack_string` with a chunk buffer of this length. -/
def unpackStringIn (chunkBuffLen : Nat) : CCpcpString → Unpack CCpcpString :=
  unpackChunkIn chunkBuffLen unpackStringChunk "String should start with '\"' character."

/-- `ccpon_unpack_blob_esc` with a chunk buffer of this length. -/
def unpackBlobEscIn (chunkBuffLen : Nat) : CCpcpString → Unpack CCpcpString :=
  unpackChunkIn chunkBuffLen unpackBlobEscChunk "Blob should start with 'b\"' ."

/-- `ccpon_unpack_blob_hex` with a chunk buffer of this length. -/
def unpackBlobHexIn (chunkBuffLen : Nat) : CCpcpString → Unpack CCpcpString :=
  unpackChunkIn chunkBuffLen unpackBlobHexChunk "Blob should start with 'x\"' ."

/-- The next chunk of a blob that is not finished. -/
def unpackBlobIn (chunkBuffLen : Nat) (it : CCpcpString) : Unpack CCpcpString :=
  if it.blobHex then unpackBlobHexIn chunkBuffLen it else unpackBlobEscIn chunkBuffLen it

/-- `unpackItem` with a chunk buffer of this length. -/
def unpackItemIn (chunkBuffLen : Nat) (p : UInt8) : Unpack CCpcpItem := do
  if p = 0x78 then
    expectByte quote "HEX string should start with 'x\"'."
    unget
    return .blob (← unpackBlobHexIn chunkBuffLen { CCpcpString.init with blobHex := true })
  else if p = 0x62 then
    expectByte quote "BLOB string should start with 'b\"'."
    unget
    return .blob (← unpackBlobEscIn chunkBuffLen .init)
  else if p = quote then
    unget
    return .string (← unpackStringIn chunkBuffLen .init)
  else unpackItem p

/-- `startItem` with a chunk buffer of this length. -/
def startItemIn (chunkBuffLen : Nat) : Unpack Unit := do
  setItem .invalid
  match ← skipInsignificant with
  | none => checkErrNo
  | some p => setItem (← unpackItemIn chunkBuffLen p)

/-- `ccpon_unpack_next` with a chunk buffer of this length. -/
def unpackNextIn (chunkBuffLen : Nat) : Unpack Unit := do
  checkErrNo
  match ← getItem with
  | .string it =>
    if it.lastChunk then startItemIn chunkBuffLen
    else setItem (.string (← unpackStringIn chunkBuffLen it))
  | .blob it =>
    if it.lastChunk then startItemIn chunkBuffLen
    else setItem (.blob (← if it.blobHex then unpackBlobHexIn chunkBuffLen it
      else unpackBlobEscIn chunkBuffLen it))
  | _ => startItemIn chunkBuffLen

theorem unpackItemIn_eq (p : UInt8) : unpackItemIn stringChunkBuffLen p = unpackItem p := by
  rw [unpackItemIn]
  split
  · next h =>
    rw [h]
    rfl
  · split
    · next h =>
      rw [h]
      rfl
    · split
      · next h =>
        rw [h]
        rfl
      · rfl

theorem startItemIn_eq : startItemIn stringChunkBuffLen = startItem := by
  rw [startItemIn, funext unpackItemIn_eq]
  rfl

/-- The C++ readers have a chunk buffer of `CCPCP_STRING_CHUNK_BUFF_LEN` bytes. -/
theorem unpackNextIn_eq : unpackNextIn stringChunkBuffLen = unpackNext := by
  rw [unpackNextIn, startItemIn_eq]
  rfl

/-! ## literals -/

/-- The byte behind a backslash in a string. -/
def stringEscape : Next
  | [] => none
  | q :: bs => some (some (unescapedChar q), bs)

/-- The next byte of a string literal. -/
def stringNext : Next
  | [] => none
  | p :: bs =>
    if p = backslash then stringEscape bs
    else if p = quote then some (none, bs)
    else some (some p, bs)

/-- Two hexadecimal digits. -/
def hexPair (p : UInt8) : Bytes → Option (UInt8 × Bytes)
  | [] => none
  | q :: bs => do
    let hi ← unhex p
    let lo ← unhex q
    return (16 * hi + lo, bs)

/-- The escape sequences of a blob other than two digits. -/
def charEscape (p : UInt8) : Option UInt8 :=
  if p = 0x74 then some 0x09
  else if p = 0x72 then some 0x0d
  else if p = 0x6e then some newline
  else if p = quote then some quote
  else if p = backslash then some backslash
  else none

/-- The byte behind a backslash in a blob. -/
def blobEscape : Bytes → Option (UInt8 × Bytes)
  | [] => none
  | p :: bs =>
    match charEscape p with
    | some b => some (b, bs)
    | none => hexPair p bs

/-- The next byte of an escaped blob. -/
def blobEscNext : Next
  | [] => none
  | b :: bs =>
    if b = quote then some (none, bs)
    else if b = backslash then (blobEscape bs).map fun r => (some r.1, r.2)
    else if b < 128 then some (some b, bs)
    else none

/-- The next character of a hexadecimal blob that is not blank. -/
def hexChar : Bytes → Option (UInt8 × Bytes)
  | [] => none
  | p :: bs => if p ≤ space ∨ 0x80 ≤ p then hexChar bs else some (p, bs)

/-- The next byte of a hexadecimal blob. -/
def blobHexNext : Next := fun input =>
  match hexChar input with
  | none => none
  | some (p, bs) => if p = quote then some (none, bs) else (hexPair p bs).map fun r => (some r.1, r.2)

/-- `chunk` reads the literal whose bytes `next` gives. -/
structure Literal (next : Next) (chunk : Nat → Bytes → Unpack (Bytes × Bool)) : Prop where
  follows : Follows next True chunk
  ofInput : ∀ room acc, OfInput (chunk room acc)
  shortens : ∀ room acc c r c', chunk (room + 1) acc c = .ok r c' → c'.input.length < c.input.length
  quote : ∀ bs, next (quote :: bs) = some (none, bs)

section Literals

variable {c c' : Cursor UnpackContext} {p b : UInt8} {rest : Bytes}

theorem length_lt_of_takeByte {α : Type} {f : UInt8 → Unpack α} (hf : ∀ b, OfInput (f b)) {a : α}
    (h : (unpackTakeByte >>= f) c = .ok a c') : c'.input.length < c.input.length := by
  cases hc : c.input with
  | nil =>
    rw [bind_of_error (unpackTakeByte_nil hc)] at h
    cases h
  | cons b bs =>
    rw [bind_of_ok (unpackTakeByte_cons hc)] at h
    exact Nat.lt_succ_of_le ((hf b).length_le h)

theorem ofInput_unpackStringChunk (room : Nat) (acc : Bytes) : OfInput (unpackStringChunk room acc) := by
  induction room generalizing acc with
  | zero => exact .pure _
  | succ room ih =>
    exact ofInput_unpackTakeByte.bind fun _ =>
      .ite (ofInput_unpackTakeByte.bind fun _ => ih _) (.ite (.pure _) (ih _))

theorem literal_string : Literal stringNext unpackStringChunk where
  follows := {
    zero := fun acc c => rfl
    done := by
      intro room acc c rest h
      cases hc : c.input with
      | nil =>
        rw [hc] at h
        cases h
      | cons p bs =>
        rw [hc, stringNext] at h
        rw [unpackStringChunk, bind_of_ok (unpackTakeByte_cons hc)]
        by_cases hp : p = backslash
        · rw [if_pos hp] at h
          cases bs <;> cases h
        · rw [if_neg hp] at h
          by_cases hq : p = CCpon.quote
          · rw [if_pos hq] at h
            injection h with h
            injection h with _ h
            rw [if_neg hp, if_pos hq]
            exact ⟨_, rfl, h, rfl⟩
          · rw [if_neg hq] at h
            cases h
    more := by
      intro room acc c b rest h
      cases hc : c.input with
      | nil =>
        rw [hc] at h
        cases h
      | cons p bs =>
        rw [hc, stringNext] at h
        rw [unpackStringChunk, bind_of_ok (unpackTakeByte_cons hc)]
        by_cases hp : p = backslash
        · rw [if_pos hp] at h
          rw [if_pos hp]
          cases bs with
          | nil => cases h
          | cons q bs =>
            injection h with h
            injection h with hb h
            injection hb with hb
            refine ⟨room, { c with input := bs, last := q }, Nat.le_refl _, fun _ => rfl, h, rfl, ?_⟩
            rw [bind_of_ok (unpackTakeByte_cons rfl), hb]
        · rw [if_neg hp] at h
          rw [if_neg hp]
          by_cases hq : p = CCpon.quote
          · rw [if_pos hq] at h
            cases h
          · rw [if_neg hq] at h
            injection h with h
            injection h with hb h
            injection hb with hb
            rw [if_neg hq, hb]
            exact ⟨room, { c with input := bs, last := b }, Nat.le_refl _, fun _ => rfl, h, rfl, rfl⟩ }
  ofInput := ofInput_unpackStringChunk
  shortens room acc c r c' h := length_lt_of_takeByte (fun _ =>
    .ite (ofInput_unpackTakeByte.bind fun _ => ofInput_unpackStringChunk _ _)
      (.ite (.pure _) (ofInput_unpackStringChunk _ _))) h
  quote bs := rfl

theorem hexPair_eq_some {bs : Bytes} (h : hexPair p bs = some (b, rest)) :
    ∃ q hi lo, bs = q :: rest ∧ unhex p = some hi ∧ unhex q = some lo ∧ b = 16 * hi + lo := by
  cases bs with
  | nil => cases h
  | cons q bs =>
    rw [hexPair] at h
    obtain ⟨hi, hhi, h⟩ := Option.bind_eq_some_iff.mp h
    obtain ⟨lo, hlo, h⟩ := Option.bind_eq_some_iff.mp h
    injection h with h
    injection h with hb hrest
    exact ⟨q, hi, lo, hrest ▸ rfl, hhi, hlo, hb.symm⟩

/-- The rest of the code of an escape sequence, behind `charEscape`. -/
theorem unpackBlobEscape_eq (p : UInt8) : unpackBlobEscape p =
    match charEscape p with
    | some b => return b
    | none =>
      match unhex p with
      | none => unpackError .malformedInput "Invalid HEX char."
      | some hi => do
        match unhex (← unpackTakeByte) with
        | none => unpackError .malformedInput "Invalid HEX char."
        | some lo => return 16 * hi + lo := by
  rw [unpackBlobEscape, charEscape]
  split
  · rfl
  · split
    · rfl
    · split
      · rfl
      · split
        · rfl
        · split <;> rfl

theorem ofInput_unpackBlobEscape (p : UInt8) : OfInput (unpackBlobEscape p) := by
  rw [unpackBlobEscape_eq]
  cases charEscape p with
  | some b => exact .pure b
  | none =>
    cases unhex p with
    | none => exact .throw _
    | some hi =>
      refine ofInput_unpackTakeByte.bind fun q => ?_
      cases unhex q with
      | none => exact .throw _
      | some lo => exact .pure _

theorem blobEscape_run (h : blobEscape c.input = some (b, rest)) :
    ∃ c', (unpackTakeByte >>= unpackBlobEscape) c = .ok b c' ∧ c'.input = rest ∧ c'.reg = c.reg := by
  cases hc : c.input with
  | nil =>
    rw [hc] at h
    cases h
  | cons p bs =>
    rw [hc, blobEscape] at h
    rw [bind_of_ok (unpackTakeByte_cons hc), unpackBlobEscape_eq]
    cases hp : charEscape p with
    | some b' =>
      rw [hp] at h
      injection h with h
      injection h with hb hrest
      subst hb
      exact ⟨{ c with input := bs, last := p }, rfl, hrest, rfl⟩
    | none =>
      rw [hp] at h
      obtain ⟨q, hi, lo, rfl, hhi, hlo, rfl⟩ := hexPair_eq_some h
      rw [hhi]
      dsimp only
      rw [bind_of_ok (unpackTakeByte_cons rfl), hlo]
      exact ⟨_, rfl, rfl, rfl⟩

theorem ofInput_unpackBlobEscChunk (room : Nat) (acc : Bytes) :
    OfInput (unpackBlobEscChunk room acc) := by
  induction room generalizing acc with
  | zero => exact .pure _
  | succ room ih =>
    exact ofInput_unpackTakeByte.bind fun _ => .ite (.pure _)
      (.ite (ofInput_unpackTakeByte.bind fun _ => (ofInput_unpackBlobEscape _).bind fun _ => ih _)
        (.ite (ih _) (.throw _)))

theorem literal_blobEsc : Literal blobEscNext unpackBlobEscChunk where
  follows := {
    zero := fun acc c => rfl
    done := by
      intro room acc c rest h
      cases hc : c.input with
      | nil =>
        rw [hc] at h
        cases h
      | cons b bs =>
        rw [hc, blobEscNext] at h
        rw [unpackBlobEscChunk, bind_of_ok (unpackTakeByte_cons hc)]
        by_cases hq : b = CCpon.quote
        · rw [if_pos hq] at h
          injection h with h
          injection h with _ h
          rw [if_pos hq]
          exact ⟨_, rfl, h, rfl⟩
        · rw [if_neg hq] at h
          split at h
          · obtain ⟨r, -, hr⟩ := Option.map_eq_some_iff.mp h
            cases hr
          · split at h <;> cases h
    more := by
      intro room acc c b rest h
      cases hc : c.input with
      | nil =>
        rw [hc] at h
        cases h
      | cons p bs =>
        rw [hc, blobEscNext] at h
        rw [unpackBlobEscChunk, bind_of_ok (unpackTakeByte_cons hc)]
        by_cases hq : p = CCpon.quote
        · rw [if_pos hq] at h
          cases h
        rw [if_neg hq] at h
        rw [if_neg hq]
        by_cases hp : p = backslash
        · rw [if_pos hp] at h
          rw [if_pos hp]
          obtain ⟨r, hescape, hr⟩ := Option.map_eq_some_iff.mp h
          injection hr with hb hrest
          injection hb with hb
          subst hb hrest
          obtain ⟨c', hrun, hinput, hreg⟩ :=
            blobEscape_run (c := { c with input := bs, last := p }) hescape
          have hseq := bind_of_ok (f := fun b => unpackBlobEscChunk room (acc ++ [b])) hrun
          rw [bind_assoc] at hseq
          exact ⟨room, c', Nat.le_refl _, fun _ => rfl, hinput, hreg, hseq⟩
        · rw [if_neg hp] at h
          rw [if_neg hp]
          by_cases hlt : p < 128
          · rw [if_pos hlt] at h
            injection h with h
            injection h with hb h
            injection hb with hb
            rw [if_pos hlt, hb]
            exact ⟨room, { c with input := bs, last := b }, Nat.le_refl _, fun _ => rfl, h, rfl, rfl⟩
          · rw [if_neg hlt] at h
            cases h }
  ofInput := ofInput_unpackBlobEscChunk
  shortens room acc c r c' h := length_lt_of_takeByte (fun _ => .ite (.pure _)
    (.ite (ofInput_unpackTakeByte.bind fun _ =>
        (ofInput_unpackBlobEscape _).bind fun _ => ofInput_unpackBlobEscChunk _ _)
      (.ite (ofInput_unpackBlobEscChunk _ _) (.throw _)))) h
  quote bs := rfl

theorem unpackHexByte_blank {bs : Bytes} (hc : c.input = p :: bs) (hp : p ≤ space ∨ 0x80 ≤ p) :
    unpackHexByte c = unpackHexByte { c with input := bs, last := p } := by
  have hstep : hexBlankStep () p = .more () := if_pos hp
  rw [unpackHexByte, bind_apply, bind_apply, scan_more hc hstep]

/-- Blanks are skipped up to the next character. -/
theorem unpackHexByte_run (input : Bytes) :
    (∃ p rest, hexChar input = some (p, rest) ∧ rest.length < input.length ∧
      ∀ c : Cursor UnpackContext, c.input = input →
        ∃ c', unpackHexByte c = .ok p c' ∧ c'.input = rest ∧ c'.reg = c.reg) ∨
    hexChar input = none ∧ ∀ c : Cursor UnpackContext, c.input = input →
      ∃ c', unpackHexByte c = .error (.parse .bufferUnderflow "") c' := by
  induction input with
  | nil =>
    refine .inr ⟨rfl, fun c hc => ⟨{ c with atEnd := true }, ?_⟩⟩
    rw [unpackHexByte, bind_of_ok (scan_nil hc)]
    rfl
  | cons p bs ih =>
    rw [hexChar]
    by_cases hp : p ≤ space ∨ 0x80 ≤ p
    · rw [if_pos hp]
      rcases ih with ⟨q, rest, hq, hlt, hrun⟩ | ⟨hnone, hrun⟩
      · refine .inl ⟨q, rest, hq, Nat.lt_succ_of_lt hlt, fun c hc => ?_⟩
        rw [unpackHexByte_blank hc hp]
        exact hrun { c with input := bs, last := p } rfl
      · refine .inr ⟨hnone, fun c hc => ?_⟩
        rw [unpackHexByte_blank hc hp]
        exact hrun { c with input := bs, last := p } rfl
    · rw [if_neg hp]
      refine .inl ⟨p, bs, rfl, Nat.lt_succ_self _, fun c hc => ⟨{ c with input := bs, last := p }, ?_⟩⟩
      rw [unpackHexByte, bind_of_ok (scan_done hc (if_neg hp : hexBlankStep () p = .done p))]
      exact ⟨rfl, rfl, rfl⟩

theorem ofInput_unpackHexByte : OfInput unpackHexByte := by
  intro input
  rcases unpackHexByte_run input with ⟨p, rest, -, hlt, hrun⟩ | ⟨-, hrun⟩
  · exact .inl ⟨p, rest, Nat.le_of_lt hlt, hrun⟩
  · exact .inr ⟨_, hrun⟩

/-- The second digit of a byte, and the rest of the chunk. -/
def hexByteTail (p : UInt8) (room : Nat) (acc : Bytes) : Unpack (Bytes × Bool) :=
  if p = quote then return (acc, true)
  else
    match unhex p with
    | none => unpackError .malformedInput "Invalid HEX char, first digit."
    | some b1 => do
      match unhex (← unpackTakeByte) with
      | none => unpackError .malformedInput "Invalid HEX char, second digit."
      | some b2 => unpackBlobHexChunk room (acc ++ [16 * b1 + b2])

theorem unpackBlobHexChunk_succ (room : Nat) (acc : Bytes) :
    unpackBlobHexChunk (room + 1) acc = (do hexByteTail (← unpackHexByte) room acc) := rfl

theorem ofInput_hexByteTail {room : Nat} (h : ∀ acc, OfInput (unpackBlobHexChunk room acc))
    (p : UInt8) (acc : Bytes) : OfInput (hexByteTail p room acc) := by
  refine .ite (.pure _) ?_
  cases unhex p with
  | none => exact .throw _
  | some b1 =>
    refine ofInput_unpackTakeByte.bind fun q => ?_
    cases unhex q with
    | none => exact .throw _
    | some b2 => exact h _

theorem ofInput_unpackBlobHexChunk (room : Nat) (acc : Bytes) :
    OfInput (unpackBlobHexChunk room acc) := by
  induction room generalizing acc with
  | zero => exact .pure _
  | succ room ih => exact ofInput_unpackHexByte.bind fun p => ofInput_hexByteTail ih p acc

theorem literal_blobHex : Literal blobHexNext unpackBlobHexChunk where
  follows := {
    zero := fun acc c => rfl
    done := by
      intro room acc c rest h
      rw [blobHexNext] at h
      rcases unpackHexByte_run c.input with ⟨p, bs, hchar, -, hrun⟩ | ⟨hnone, -⟩
      · rw [hchar] at h
        dsimp only at h
        obtain ⟨c', hc', hinput, hreg⟩ := hrun c rfl
        rw [unpackBlobHexChunk_succ, bind_of_ok hc', hexByteTail]
        by_cases hq : p = CCpon.quote
        · rw [if_pos hq] at h
          injection h with h
          injection h with _ h
          rw [if_pos hq]
          exact ⟨c', rfl, hinput.trans h, hreg⟩
        · rw [if_neg hq] at h
          obtain ⟨r, -, hr⟩ := Option.map_eq_some_iff.mp h
          cases hr
      · rw [hnone] at h
        cases h
    more := by
      intro room acc c b rest h
      rw [blobHexNext] at h
      rcases unpackHexByte_run c.input with ⟨p, bs, hchar, -, hrun⟩ | ⟨hnone, -⟩
      · rw [hchar] at h
        dsimp only at h
        obtain ⟨c', hc', hinput, hreg⟩ := hrun c rfl
        rw [unpackBlobHexChunk_succ, bind_of_ok hc', hexByteTail]
        by_cases hq : p = CCpon.quote
        · rw [if_pos hq] at h
          cases h
        · rw [if_neg hq] at h
          rw [if_neg hq]
          obtain ⟨r, hpair, hr⟩ := Option.map_eq_some_iff.mp h
          injection hr with hb hrest
          injection hb with hb
          subst hb hrest
          obtain ⟨q, hi, lo, hbs, hhi, hlo, hb⟩ := hexPair_eq_some hpair
          rw [hhi, hb]
          dsimp only
          rw [bind_of_ok (unpackTakeByte_cons (hinput.trans hbs)), hlo]
          exact ⟨room, { c' with input := r.2, last := q }, Nat.le_refl _, fun _ => rfl, rfl, hreg, rfl⟩
      · rw [hnone] at h
        cases h }
  ofInput := ofInput_unpackBlobHexChunk
  shortens room acc c r c' h := by
    rw [unpackBlobHexChunk_succ] at h
    rcases unpackHexByte_run c.input with ⟨p, bs, -, hlt, hrun⟩ | ⟨-, hrun⟩
    · obtain ⟨c₁, hc₁, hinput, -⟩ := hrun c rfl
      rw [bind_of_ok hc₁] at h
      have hle := (ofInput_hexByteTail (ofInput_unpackBlobHexChunk room) p acc).length_le h
      rw [hinput] at hle
      exact Nat.lt_of_le_of_lt hle hlt
    · obtain ⟨c₁, hc₁⟩ := hrun c rfl
      rw [bind_of_error hc₁] at h
      cases h
  quote bs := rfl

end Literals

/-! ## counting the chunks -/

section Count

variable {next : Next} {chunk : Nat → Bytes → Unpack (Bytes × Bool)} {chunkBuffLen n k : Nat}
  {errMsg : String} {hex : Bool} {step : CCpcpString → Unpack CCpcpString} {it : CCpcpString}
  {c : Cursor UnpackContext} {input p rest : Bytes}

/-- The first call finds the quote before the literal, the others do not. -/
def Enters (it : CCpcpString) (c : Cursor UnpackContext) (input : Bytes) : Prop :=
  if it.chunkCnt = 0 then c.input = quote :: input else c.input = input

/-- What a call delivers. -/
def CCpcpString.delivered (it : CCpcpString) (bytes : Bytes) (last : Bool) : CCpcpString :=
  { it with chunk := bytes, lastChunk := it.lastChunk || last, chunkCnt := it.chunkCnt + 1 }

theorem unpackChunkIn_enters (h : Enters it c input) (chunkBuffLen : Nat)
    (chunk : Nat → Bytes → Unpack (Bytes × Bool)) (errMsg : String) :
    ∃ c₁ : Cursor UnpackContext, c₁.input = input ∧
      unpackChunkIn chunkBuffLen chunk errMsg it c = (do
        let (bytes, last) ← chunk chunkBuffLen []
        return CCpcpString.delivered it bytes last : Unpack CCpcpString) c₁ := by
  rw [Enters] at h
  by_cases hcnt : it.chunkCnt = 0
  · rw [if_pos hcnt] at h
    refine ⟨{ c with input := input, last := quote }, rfl, ?_⟩
    rw [unpackChunkIn, if_pos hcnt, bind_of_ok (unpackTakeByte_cons h)]
    rfl
  · rw [if_neg hcnt] at h
    refine ⟨c, h, ?_⟩
    rw [unpackChunkIn, if_neg hcnt]
    rfl

theorem ofInput_unpackChunkIn (h : Literal next chunk) (it : CCpcpString) :
    OfInput (unpackChunkIn chunkBuffLen chunk errMsg it) := by
  have htail : OfInput (do
      let (bytes, last) ← chunk chunkBuffLen []
      return CCpcpString.delivered it bytes last : Unpack CCpcpString) :=
    (h.ofInput _ _).bind fun _ => .pure _
  rw [unpackChunkIn]
  split
  · refine ofInput_unpackTakeByte.bind fun p => ?_
    split
    · exact OfInput.bind (.throw _) fun _ => htail
    · exact htail
  · exact htail

theorem ofNat_add_one_eq_zero_iff : UInt32.ofNat k + 1 = 0 ↔ (k + 1) % 2 ^ 32 = 0 := by
  rw [← UInt32.toNat_inj, UInt32.toNat_add, UInt32.toNat_ofNat']
  simp

/-- A call reaches the end of the literal or fills the chunk buffer. -/
theorem unpackChunkIn_cases (hl : Literal next chunk) (h : Enters it c input)
    (hp : Payload next input p rest) (chunkBuffLen : Nat) (errMsg : String) :
    (p.length < chunkBuffLen ∧ ∃ c', unpackChunkIn chunkBuffLen chunk errMsg it c =
      .ok (CCpcpString.delivered it p true) c' ∧ c'.input = rest) ∨
    ∃ p₁ p₂ c', p = p₁ ++ p₂ ∧ p₁.length = chunkBuffLen ∧
      unpackChunkIn chunkBuffLen chunk errMsg it c = .ok (CCpcpString.delivered it p₁ false) c' ∧
      Payload next c'.input p₂ rest := by
  obtain ⟨c₁, rfl, hrun⟩ := unpackChunkIn_enters h chunkBuffLen chunk errMsg
  rcases hl.follows.deliver hp chunkBuffLen [] with
    ⟨c', hc', hrest, -, hlen⟩ | ⟨p₁, p₂, c', rfl, -, -, hfull, hc', -, hp₂⟩
  · exact .inl ⟨hlen, c', hrun.trans (bind_of_ok hc'), hrest⟩
  · exact .inr ⟨p₁, p₂, c', rfl, hfull trivial, hrun.trans (bind_of_ok hc'), hp₂⟩

/-- The calls deliver the literal as long as `chunk_cnt` does not come back to zero. -/
theorem chunksOf_literal (hl : Literal next chunk)
    (hstep : ∀ it, it.blobHex = hex → step it = unpackChunkIn chunkBuffLen chunk errMsg it)
    (hbuff : 0 < chunkBuffLen) (hp : Payload next input p rest) (h : Enters it c input)
    (hhex : it.blobHex = hex) (hlast : it.lastChunk = false) (hcnt : it.chunkCnt = UInt32.ofNat k)
    (hk : k + p.length / chunkBuffLen < 2 ^ 32) (hn : p.length < n) :
    ∃ calls c', chunksOf step n it c = .ok calls c' ∧ payloadOf calls = p ∧ c'.input = rest := by
  induction n generalizing input p it c k with
  | zero => exact absurd hn (Nat.not_lt_zero _)
  | succ n ih =>
    rcases unpackChunkIn_cases hl h hp chunkBuffLen errMsg with
      ⟨-, c', hrun, hrest⟩ | ⟨p₁, p₂, c', rfl, hlen, hrun, hp₂⟩
    · rw [← hstep it hhex] at hrun
      refine ⟨_, c', callUntilLast_of_last hrun (Bool.or_true _) n, ?_, hrest⟩
      rw [payloadOf, List.flatMap_singleton]
      rfl
    · rw [← hstep it hhex] at hrun
      rw [List.length_append, hlen] at hk hn
      rw [Nat.add_div_left _ hbuff] at hk
      have hcnt' : it.chunkCnt + 1 = UInt32.ofNat (k + 1) := by
        rw [hcnt, UInt32.ofNat_add]
        rfl
      have hne : it.chunkCnt + 1 ≠ 0 := by
        have hlt := Nat.lt_of_le_of_lt (Nat.add_le_add_left (Nat.le_add_left 1 _) k) hk
        rw [hcnt, Ne, ofNat_add_one_eq_zero_iff, Nat.mod_eq_of_lt hlt]
        exact Nat.succ_ne_zero k
      have henters : Enters (CCpcpString.delivered it p₁ false) c' c'.input := (if_neg hne).mpr rfl
      have hmore : (CCpcpString.delivered it p₁ false).lastChunk = false := by
        rw [CCpcpString.delivered, hlast]
        rfl
      obtain ⟨calls, c'', hcalls, hpayload, hrest⟩ :=
        ih hp₂ henters hhex hmore hcnt' (by omega) (by omega)
      refine ⟨_, c'', callUntilLast_cons hrun hmore hcalls, ?_, hrest⟩
      rw [payloadOf, List.flatMap_cons, ← payloadOf, hpayload]
      rfl

/-- A call that expects the opening quote once more takes the closing one and goes on behind it. -/
theorem length_lt_of_reopened (hl : Literal next chunk) (hbuff : 0 < chunkBuffLen)
    (hp : Payload next c.input p rest) (hcnt : it.chunkCnt = 0) {it' : CCpcpString}
    {c' : Cursor UnpackContext}
    (h : unpackChunkIn chunkBuffLen chunk errMsg it c = .ok it' c') :
    c'.input.length < rest.length := by
  obtain ⟨room, rfl⟩ := Nat.exists_eq_add_one_of_ne_zero (Nat.ne_of_gt hbuff)
  rw [unpackChunkIn, if_pos hcnt] at h
  cases hc : c.input with
  | nil =>
    rw [bind_of_error (unpackTakeByte_nil hc)] at h
    cases h
  | cons b bs =>
    rw [bind_of_ok (unpackTakeByte_cons hc)] at h
    by_cases hb : b = quote
    · rw [if_neg (not_not.mpr hb)] at h
      obtain ⟨r, c₁, hchunk, hret⟩ := bind_eq_ok.mp h
      have hrest : rest = bs := by
        have hnext := hl.quote bs
        rw [hc, hb] at hp
        cases hp with
        | done h' =>
          rw [hnext] at h'
          injection h' with h'
          injection h' with _ h'
          exact h'.symm
        | more h' _ =>
          rw [hnext] at h'
          cases h'
      injection hret with _ hc'
      rw [hrest, ← hc']
      exact hl.shortens _ _ _ _ _ hchunk
    · rw [if_pos hb] at h
      cases h

/-- Where `chunk_cnt` comes back to zero, the calls do not end behind the literal. -/
theorem length_lt_of_wrapped (hl : Literal next chunk)
    (hstep : ∀ it, it.blobHex = hex → step it = unpackChunkIn chunkBuffLen chunk errMsg it)
    (hof : ∀ it, OfInput (step it))
    (hbuff : 0 < chunkBuffLen) (hp : Payload next input p rest) (h : Enters it c input)
    (hhex : it.blobHex = hex) (hlast : it.lastChunk = false) (hcnt : it.chunkCnt = UInt32.ofNat k)
    (hlt : k < 2 ^ 32) (hk : 2 ^ 32 ≤ k + p.length / chunkBuffLen) {calls : List CCpcpString}
    {c' : Cursor UnpackContext} (hcalls : chunksOf step n it c = .ok calls c') :
    c'.input.length < rest.length := by
  induction n generalizing input p it c k calls with
  | zero => cases hcalls
  | succ n ih =>
    have hfull : chunkBuffLen ≤ p.length := (Nat.div_pos_iff.mp (by omega)).2
    rcases unpackChunkIn_cases hl h hp chunkBuffLen errMsg with
      ⟨hlen, -⟩ | ⟨p₁, p₂, c₁, rfl, hlen, hrun, hp₂⟩
    · omega
    rw [← hstep it hhex] at hrun
    have hmore : (CCpcpString.delivered it p₁ false).lastChunk = false := by
      rw [CCpcpString.delivered, hlast]
      rfl
    rw [chunksOf, callUntilLast_of_more hrun hmore] at hcalls
    obtain ⟨calls', c₂, hrest, hret⟩ := bind_eq_ok.mp hcalls
    injection hret with _ hc'
    subst hc'
    rw [List.length_append, hlen, Nat.add_div_left _ hbuff] at hk
    have hcnt' : it.chunkCnt + 1 = UInt32.ofNat (k + 1) := by
      rw [hcnt, UInt32.ofNat_add]
      rfl
    by_cases hwrap : k + 1 = 2 ^ 32
    · -- the next call takes the closing quote for the opening one
      have hzero : (CCpcpString.delivered it p₁ false).chunkCnt = 0 := by
        rw [CCpcpString.delivered, hcnt']
        exact UInt32.toNat_inj.mp (by rw [hwrap]; rfl)
      cases n with
      | zero => cases hrest
      | succ n =>
        rw [callUntilLast] at hrest
        obtain ⟨it', c₃, hcall, htail⟩ := bind_eq_ok.mp hrest
        rw [hstep (CCpcpString.delivered it p₁ false) hhex] at hcall
        have htails : OfInput (if it'.lastChunk then return [it'] else do
            return it' :: (← callUntilLast .outOfFuel step CCpcpString.lastChunk n it') :
            Unpack (List CCpcpString)) :=
          .ite (.pure _) ((ofInput_callUntilLast hof n it').bind fun _ => .pure _)
        exact Nat.lt_of_le_of_lt (htails.length_le htail)
          (length_lt_of_reopened hl hbuff hp₂ hzero hcall)
    · have hne : it.chunkCnt + 1 ≠ 0 := by
        rw [hcnt, Ne, ofNat_add_one_eq_zero_iff, Nat.mod_eq_of_lt (by omega)]
        exact Nat.succ_ne_zero k
      have henters : Enters (CCpcpString.delivered it p₁ false) c₁ c₁.input := (if_neg hne).mpr rfl
      exact ih hp₂ henters hhex hmore hcnt' (by omega) (by omega) hrest

end Count

/-! ## the three literals -/

/-- The literals that are unpacked in chunks. -/
inductive LiteralKind where
  | string
  | blobEsc
  | blobHex

namespace LiteralKind

/-- What stands before the opening quote. -/
def head : LiteralKind → Bytes
  | .string => []
  | .blobEsc => [0x62]
  | .blobHex => [0x78]

def next : LiteralKind → Next
  | .string => stringNext
  | .blobEsc => blobEscNext
  | .blobHex => blobHexNext

def chunk : LiteralKind → Nat → Bytes → Unpack (Bytes × Bool)
  | .string => unpackStringChunk
  | .blobEsc => unpackBlobEscChunk
  | .blobHex => unpackBlobHexChunk

def errMsg : LiteralKind → String
  | .string => "String should start with '\"' character."
  | .blobEsc => "Blob should start with 'b\"' ."
  | .blobHex => "Blob should start with 'x\"' ."

/-- The string before the first chunk. -/
def start : LiteralKind → CCpcpString
  | .string | .blobEsc => .init
  | .blobHex => { CCpcpString.init with blobHex := true }

def item : LiteralKind → CCpcpString → CCpcpItem
  | .string => .string
  | .blobEsc | .blobHex => .blob

/-- The function that goes on with the literal. -/
def step (chunkBuffLen : Nat) : LiteralKind → CCpcpString → Unpack CCpcpString
  | .string => unpackStringIn chunkBuffLen
  | .blobEsc | .blobHex => unpackBlobIn chunkBuffLen

theorem literal (kind : LiteralKind) : Literal kind.next kind.chunk := by
  cases kind with
  | string => exact literal_string
  | blobEsc => exact literal_blobEsc
  | blobHex => exact literal_blobHex

theorem step_eq (chunkBuffLen : Nat) (kind : LiteralKind) (it : CCpcpString)
    (h : it.blobHex = kind.start.blobHex) :
    kind.step chunkBuffLen it = unpackChunkIn chunkBuffLen kind.chunk kind.errMsg it := by
  cases kind with
  | string => rfl
  | blobEsc => exact if_neg (by rw [h]; exact Bool.false_ne_true)
  | blobHex => exact if_pos h

theorem ofInput_step (chunkBuffLen : Nat) (kind : LiteralKind) (it : CCpcpString) :
    OfInput (kind.step chunkBuffLen it) := by
  cases kind with
  | string => exact ofInput_unpackChunkIn literal_string it
  | blobEsc | blobHex =>
    exact .ite (ofInput_unpackChunkIn literal_blobHex it) (ofInput_unpackChunkIn literal_blobEsc it)

theorem continues (chunkBuffLen : Nat) (kind : LiteralKind) :
    Continues (unpackNextIn chunkBuffLen) (kind.step chunkBuffLen) kind.item where
  lastChunk it := by cases kind <;> rfl
  chunk it := by cases kind <;> rfl
  ofInput := kind.ofInput_step chunkBuffLen
  next it c herr hitem hlast := by
    rw [unpackNextIn, bind_of_ok (checkErrNo_of_ok herr), bind_of_ok (getItem_apply c), hitem]
    cases kind with
    | string => simp [item, step, hlast]
    | blobEsc | blobHex =>
      simp only [item, step, unpackBlobIn, hlast, Bool.false_eq_true, if_false]
      split <;> rfl

/-- Where the opening quote is put back. -/
def opened (body : Bytes) : Cursor UnpackContext :=
  { input := quote :: body, last := quote, atEnd := false, reg := .init }

/-- The item that starts with the first byte of the literal. -/
theorem unpackItemIn_first (chunkBuffLen : Nat) (kind : LiteralKind) (body : Bytes) :
    ∃ p c, skipInsignificant (openStream (kind.head ++ quote :: body)) = .ok (some p) c ∧
      (do setItem (← unpackItemIn chunkBuffLen p) : Unpack Unit) c =
        (do setItem (kind.item (← kind.step chunkBuffLen kind.start)) : Unpack Unit) (opened body) := by
  cases kind with
  | string =>
    refine ⟨quote, { openStream body with last := quote }, rfl, ?_⟩
    have hitem : unpackItemIn chunkBuffLen quote =
        (do unget; return .string (← unpackStringIn chunkBuffLen .init)) := rfl
    rw [hitem, bind_assoc, bind_of_ok (unget_apply _)]
    simp only [bind_assoc, pure_bind]
    rfl
  | blobEsc =>
    refine ⟨0x62, { openStream (quote :: body) with last := 0x62 }, rfl, ?_⟩
    have hitem : unpackItemIn chunkBuffLen 0x62 = (do
        expectByte quote "BLOB string should start with 'b\"'."
        unget
        return .blob (← unpackBlobEscIn chunkBuffLen .init)) := rfl
    have hquote : expectByte quote "BLOB string should start with 'b\"'."
        { openStream (quote :: body) with last := 0x62 } =
        .ok () { openStream body with last := quote } := rfl
    rw [hitem, bind_assoc, bind_of_ok hquote, bind_assoc, bind_of_ok (unget_apply _)]
    simp only [bind_assoc, pure_bind]
    rfl
  | blobHex =>
    refine ⟨0x78, { openStream (quote :: body) with last := 0x78 }, rfl, ?_⟩
    have hitem : unpackItemIn chunkBuffLen 0x78 = (do
        expectByte quote "HEX string should start with 'x\"'."
        unget
        return .blob (← unpackBlobHexIn chunkBuffLen { CCpcpString.init with blobHex := true })) := rfl
    have hquote : expectByte quote "HEX string should start with 'x\"'."
        { openStream (quote :: body) with last := 0x78 } =
        .ok () { openStream body with last := quote } := rfl
    rw [hitem, bind_assoc, bind_of_ok hquote, bind_assoc, bind_of_ok (unget_apply _)]
    simp only [bind_assoc, pure_bind]
    rfl

theorem resumes (chunkBuffLen : Nat) (kind : LiteralKind) (body : Bytes) :
    Resumes (unpackNextIn chunkBuffLen) (kind.step chunkBuffLen) kind.item kind.start (opened body)
      (openStream (kind.head ++ quote :: body)) := by
  obtain ⟨p, c, hskip, hrun⟩ := kind.unpackItemIn_first chunkBuffLen body
  have hreset : setItem .invalid (openStream (kind.head ++ quote :: body)) =
      .ok () (openStream (kind.head ++ quote :: body)) := rfl
  have hnext : unpackNextIn chunkBuffLen (openStream (kind.head ++ quote :: body)) =
      (do setItem (← unpackItemIn chunkBuffLen p) : Unpack Unit) c := by
    rw [unpackNextIn, bind_of_ok (checkErrNo_of_ok rfl), bind_of_ok (getItem_apply _)]
    exact (bind_of_ok hreset).trans (bind_of_ok hskip)
  exact .of_start (kind.ofInput_step chunkBuffLen kind.start) rfl rfl (hnext.trans hrun)

/-- Every call delivers its part of the literal if there are no more than 2^32 of them. -/
theorem delivered_iff {chunkBuffLen n : Nat} (kind : LiteralKind) {body p rest : Bytes}
    (hbuff : 0 < chunkBuffLen) (hp : Payload kind.next body p rest) (hn : p.length < n) :
    Delivers p rest (callsOf (unpackNextIn chunkBuffLen) n (openStream (kind.head ++ quote :: body))) ↔
      p.length / chunkBuffLen < 2 ^ 32 := by
  have hresumes := kind.resumes chunkBuffLen body
  have hcont := kind.continues chunkBuffLen
  have hcnt : kind.start.chunkCnt = UInt32.ofNat 0 := by cases kind <;> rfl
  have hlast : kind.start.lastChunk = false := by cases kind <;> rfl
  have henters : Enters kind.start (opened body) body := (if_pos hcnt).mpr rfl
  constructor
  · intro hdelivers
    by_contra hk
    obtain ⟨hok, herror⟩ := hresumes.calls hcont .invalid (n := n)
    rw [callsOf] at hdelivers
    cases hchunks : chunksOf (kind.step chunkBuffLen) n kind.start (opened body) with
    | error e c =>
      obtain ⟨c', hc'⟩ := herror _ _ hchunks
      rw [hc'] at hdelivers
      exact hdelivers
    | ok calls c =>
      obtain ⟨c', hc', hinput⟩ := hok _ _ hchunks
      rw [hc'] at hdelivers
      have hlt := length_lt_of_wrapped kind.literal (kind.step_eq chunkBuffLen)
        (kind.ofInput_step chunkBuffLen) hbuff hp henters rfl hlast hcnt (by decide) (by omega) hchunks
      rw [← hinput, hdelivers.2.1] at hlt
      exact Nat.lt_irrefl _ hlt
  · intro hk
    obtain ⟨calls, c', hchunks, rfl, rfl⟩ := chunksOf_literal kind.literal
      (kind.step_eq chunkBuffLen) hbuff hp henters rfl hlast hcnt (by omega) hn
    exact hresumes.delivered hcont hchunks

end LiteralKind

end LibShv.CCpon

namespace LibShv

open Chunks

/-! ## both formats -/

/-- An item that is unpacked in chunks: a schema with the bytes behind it, or a literal with the
characters behind its opening quote. -/
inductive ChunkedItem where
  | chainPack (packingSchema : UInt8) (body : Bytes)
  | cpon (kind : CCpon.LiteralKind) (body : Bytes)

namespace ChunkedItem

/-- The payload of the item and what is behind it. -/
def HasPayload (p rest : Bytes) : ChunkedItem → Prop
  | .chainPack packingSchema body => ItemPayload packingSchema body p rest
  | .cpon kind body => Payload kind.next body p rest

/-- The calls of `unpack_next` for the item. -/
def calls (chunkBuffLen fuel : Nat) : ChunkedItem →
    EStateM.Result Fault (ByteReader.Cursor UnpackContext) (List CCpcpItem)
  | .chainPack packingSchema body =>
    callsOf (unpackNextIn chunkBuffLen) fuel (openStream (packingSchema :: body))
  | .cpon kind body =>
    callsOf (CCpon.unpackNextIn chunkBuffLen) fuel (openStream (kind.head ++ CCpon.quote :: body))

/-- `chunk_cnt` has a meaning in CPON only. -/
def CountsChunks : ChunkedItem → Prop
  | .chainPack _ _ => False
  | .cpon _ _ => True

/-- The chunks are the payload for every chunk buffer, as long as `chunk_cnt` does not come back
to zero before the end of a literal. -/
theorem chunksDelivered_iff {chunkBuffLen fuel : Nat} (x : ChunkedItem) {p rest : Bytes}
    (hbuff : 0 < chunkBuffLen) (hp : x.HasPayload p rest) (hfuel : p.length < fuel) :
    Delivers p rest (x.calls chunkBuffLen fuel) ↔
      (x.CountsChunks → p.length / chunkBuffLen < 2 ^ 32) := by
  cases x with
  | chainPack packingSchema body =>
    exact iff_of_true (ItemPayload.delivered hp hbuff hfuel) False.elim
  | cpon kind body => exact (kind.delivered_iff hbuff hp hfuel).trans (true_imp_iff).symm

/-- A hexadecimal blob whose pairs are parted by blanks, with a chunk buffer of one byte. -/
theorem delivers_blobHex : Delivers [0xab, 0xcd] [0x2c]
    ((cpon .blobHex [0x61, 0x62, 0x20, 0x63, 0x64, 0x20, 0x22, 0x2c]).calls 1 3) := by
  have hp : Payload CCpon.blobHexNext [0x61, 0x62, 0x20, 0x63, 0x64, 0x20, 0x22, 0x2c] [0xab, 0xcd]
      [0x2c] := .more rfl (.more rfl (.done rfl))
  have hiff := @chunksDelivered_iff 1 3 (cpon .blobHex _) [0xab, 0xcd] [0x2c] (by decide) hp (by decide)
  rw [hiff]
  exact fun _ => by decide

theorem payload_replicate (n : Nat) (rest : Bytes) :
    Payload CCpon.stringNext (List.replicate n 0x61 ++ CCpon.quote :: rest) (List.replicate n 0x61) rest := by
  induction n with
  | zero => exact .done rfl
  | succ n ih => exact .more rfl ih

/-- A string of 2^32 characters with a chunk buffer of one byte. -/
theorem not_delivers_longString :
    ∃ body p, Payload CCpon.stringNext body p [] ∧
      ∀ fuel, p.length < fuel → ¬ Delivers p [] ((cpon .string body).calls 1 fuel) := by
  refine ⟨_, _, payload_replicate (2 ^ 32) [], fun fuel hfuel => ?_⟩
  refine mt (CCpon.LiteralKind.string.delivered_iff (by decide) (payload_replicate _ _) hfuel).mp ?_
  rw [List.length_replicate]
  decide

end ChunkedItem

end LibShv
