import LibShv.CChainPack.Codec
import LibShv.CCpcp.Calls

/-!
# LibShv.CChainPack.Payload

Strings and blobs of ChainPack, unpacked in chunks of any size: what is delivered is the
payload that the bytes have, and a declared length is honoured as long as it is not taken
for a C string.
-/

namespace LibShv

open ByteReader Chunks

/-! ## chunks of any size -/

/-- `unpack_string` with a chunk buffer of this length. -/
def unpackStringIn (chunkBuffLen : Nat) (it : CCpcpString) : Unpack CCpcpString := do
  if it.stringSize < 0 then
    let (chunk, last) ← unpackCStringChunk chunkBuffLen []
    return { it with chunk, lastChunk := it.lastChunk || last, chunkCnt := it.chunkCnt + 1 }
  else
    let (chunk, sizeToLoad) ← unpackSizedChunk chunkBuffLen it.sizeToLoad []
    return { it with
      chunk, sizeToLoad, lastChunk := sizeToLoad == 0, chunkCnt := it.chunkCnt + 1 }

/-- `unpackSizedString` with a chunk buffer of this length. -/
def unpackSizedStringIn (chunkBuffLen : Nat) : Unpack CCpcpString := do
  let (size, _) ← unpackUint
  unpackStringIn chunkBuffLen
    { CCpcpString.init with stringSize := size.toInt64, sizeToLoad := size.toInt64 }

/-- `unpackItem` with a chunk buffer of this length. -/
def unpackItemIn (chunkBuffLen : Nat) (packingSchema : UInt8) : Unpack CCpcpItem := do
  if packingSchema = CP_Blob then return .blob (← unpackSizedStringIn chunkBuffLen)
  else if packingSchema = CP_String then return .string (← unpackSizedStringIn chunkBuffLen)
  else if packingSchema = CP_CString then return .string (← unpackStringIn chunkBuffLen .init)
  else unpackItem packingSchema

/-- `cchainpack_unpack_next` with a chunk buffer of this length. -/
def unpackNextIn (chunkBuffLen : Nat) : Unpack Unit := do
  checkErrNo
  match ← getItem with
  | .string it =>
    if it.lastChunk then setItem (← unpackItemIn chunkBuffLen (← unpackTakeByte))
    else setItem (.string (← unpackStringIn chunkBuffLen it))
  | .blob it =>
    if it.lastChunk then setItem (← unpackItemIn chunkBuffLen (← unpackTakeByte))
    else setItem (.blob (← unpackStringIn chunkBuffLen it))
  | _ => setItem (← unpackItemIn chunkBuffLen (← unpackTakeByte))

theorem unpackItemIn_eq (packingSchema : UInt8) :
    unpackItemIn stringChunkBuffLen packingSchema = unpackItem packingSchema := by
  rw [unpackItemIn]
  split
  · next h =>
    rw [h]
    rfl
  · split
    · next h =>
      rw [h]
      rfl
    · split
      · next h =>
        rw [h]
        rfl
      · rfl

/-- The C++ readers have a chunk buffer of `CCPCP_STRING_CHUNK_BUFF_LEN` bytes. -/
theorem unpackNextIn_eq : unpackNextIn stringChunkBuffLen = cchainpackUnpackNext := by
  simp only [unpackNextIn, cchainpackUnpackNext, unpackItemIn_eq]
  rfl

/-- The item that a string is a part of. -/
def stringItem (packingSchema : UInt8) (it : CCpcpString) : CCpcpItem :=
  if packingSchema = CP_Blob then .blob it else .string it

/-- A string of this length before its first chunk. -/
def CCpcpString.declared (size : UInt64) : CCpcpString :=
  { CCpcpString.init with stringSize := size.toInt64, sizeToLoad := size.toInt64 }

/-- The string as it is before its first chunk. -/
def startString (packingSchema : UInt8) : Unpack CCpcpString := do
  if packingSchema = CP_CString then return .init
  else return .declared (← unpackUint).1

/-! ## calls and chunks -/

theorem ofInput_unpackUintBytes (cnt : Nat) (num : UInt64) : OfInput (unpackUintBytes cnt num) := by
  induction cnt generalizing num with
  | zero => exact .pure num
  | succ cnt ih => exact ofInput_unpackTakeByte.bind fun _ => ih _

theorem ofInput_unpackUint : OfInput unpackUint :=
  ofInput_unpackTakeByte.bind fun _ => (ofInput_unpackUintBytes _ _).bind fun _ => .pure _

theorem ofInput_unpackCStringChunk (room : Nat) (chunk : Bytes) :
    OfInput (unpackCStringChunk room chunk) := by
  induction room generalizing chunk with
  | zero => exact .pure _
  | succ room ih =>
    exact ofInput_unpackTakeByte.bind fun _ =>
      .ite (ofInput_unpackTakeByte.bind fun _ => .ite (.pure _) (.pure _)) (.ite (.pure _) (ih _))

theorem ofInput_unpackSizedChunk (room : Nat) (sizeToLoad : Int64) (chunk : Bytes) :
    OfInput (unpackSizedChunk room sizeToLoad chunk) := by
  induction room generalizing sizeToLoad chunk with
  | zero => exact .pure _
  | succ room ih => exact .ite (ofInput_unpackTakeByte.bind fun _ => ih _ _) (.pure _)

theorem ofInput_unpackStringIn (chunkBuffLen : Nat) (it : CCpcpString) :
    OfInput (unpackStringIn chunkBuffLen it) :=
  .ite ((ofInput_unpackCStringChunk _ _).bind fun _ => .pure _)
    ((ofInput_unpackSizedChunk _ _ _).bind fun _ => .pure _)

/-- The items with chunks. -/
def HasChunks (packingSchema : UInt8) : Prop :=
  packingSchema = CP_Blob ∨ packingSchema = CP_String ∨ packingSchema = CP_CString

section Resumes

variable {chunkBuffLen : Nat} {packingSchema : UInt8} {it : CCpcpString} {c c₀ : Cursor UnpackContext}

theorem continues_unpackNextIn (chunkBuffLen : Nat) (packingSchema : UInt8) :
    Continues (unpackNextIn chunkBuffLen) (unpackStringIn chunkBuffLen) (stringItem packingSchema) where
  lastChunk it := by
    rw [stringItem]
    split <;> rfl
  chunk it := by
    rw [stringItem]
    split <;> rfl
  ofInput it := ofInput_unpackStringIn chunkBuffLen it
  next it c herr hitem hlast := by
    rw [unpackNextIn, bind_of_ok (checkErrNo_of_ok herr), bind_of_ok (getItem_apply c), hitem]
    unfold stringItem
    split <;> simp [hlast]

theorem unpackItemIn_eq_start (h : HasChunks packingSchema) :
    unpackItemIn chunkBuffLen packingSchema = (do
      let it ← startString packingSchema
      return stringItem packingSchema (← unpackStringIn chunkBuffLen it)) := by
  have hstring : CP_String ≠ CP_Blob ∧ CP_String ≠ CP_CString ∧ CP_Blob ≠ CP_CString := by decide
  rcases h with rfl | rfl | rfl
  · simp [unpackItemIn, unpackSizedStringIn, startString, stringItem, hstring, CCpcpString.declared]
  · simp [unpackItemIn, unpackSizedStringIn, startString, stringItem, hstring, CCpcpString.declared]
  · rfl

theorem ofInput_startString (packingSchema : UInt8) : OfInput (startString packingSchema) :=
  .ite (.pure _) (ofInput_unpackUint.bind fun _ => .pure _)

theorem unpackNextIn_openStream (chunkBuffLen : Nat) (input : Bytes) :
    unpackNextIn chunkBuffLen (openStream input) =
      (do setItem (← unpackItemIn chunkBuffLen (← unpackTakeByte)) : Unpack Unit) (openStream input) := by
  rw [unpackNextIn, bind_of_ok (checkErrNo_of_ok rfl), bind_of_ok (getItem_apply _)]
  rfl

/-- The calls at the start of an item are those of its string. -/
theorem resumes_openStream (hschema : HasChunks packingSchema) {body : Bytes}
    (hstart : startString packingSchema (openStream body) = .ok it c₀) :
    Resumes (unpackNextIn chunkBuffLen) (unpackStringIn chunkBuffLen) (stringItem packingSchema) it c₀
      (openStream (packingSchema :: body)) := by
  have hbody : ({ openStream (packingSchema :: body) with input := body, last := packingSchema } :
      Cursor UnpackContext).input = (openStream body).input := rfl
  obtain ⟨c₁, hrun₁, hinput₁, hreg₁⟩ := (ofInput_startString _).ok_of_ok hstart hbody
  have hnext : unpackNextIn chunkBuffLen (openStream (packingSchema :: body)) =
      (do setItem (stringItem packingSchema (← unpackStringIn chunkBuffLen it)) : Unpack Unit) c₁ := by
    rw [unpackNextIn_openStream, bind_of_ok (unpackTakeByte_cons rfl), unpackItemIn_eq_start hschema,
      bind_assoc, bind_of_ok hrun₁]
    simp
  refine .of_start (ofInput_unpackStringIn _ _) ?_ hinput₁ hnext
  rw [hreg₁]
  rfl

end Resumes

/-! ## C strings -/

/-- The byte behind a backslash. -/
def cstringEscape : Next
  | [] => none
  | q :: bs => some (some (if q = 0x30 then 0 else q), bs)

/-- The next byte of a C string. -/
def cstringNext : Next
  | [] => none
  | p :: bs =>
    if p = 0x5c then cstringEscape bs
    else if p = 0 then some (none, bs)
    else some (some p, bs)

/-- There is a zero that ends the C string. -/
def cstringTerminated : Bytes → Bool
  | [] => false
  | [p] => p = 0
  | p :: q :: bs =>
    if p = 0x5c then cstringTerminated bs
    else if p = 0 then true
    else cstringTerminated (q :: bs)

theorem shortens_cstringNext : Shortens cstringNext := by
  intro input b? rest h
  cases input with
  | nil => cases h
  | cons p bs =>
    rw [cstringNext] at h
    split at h
    · cases bs with
      | nil => cases h
      | cons q bs =>
        injection h with h
        injection h with _ h
        rw [← h, List.length_cons, List.length_cons]
        omega
    · split at h <;>
      · injection h with h
        injection h with _ h
        rw [← h, List.length_cons]
        omega

theorem terminated_iff {input : Bytes} :
    cstringTerminated input = true ↔ ∃ p rest, Payload cstringNext input p rest := by
  induction hn : input.length using Nat.strong_induction_on generalizing input with
  | _ n ih =>
    subst hn
    have hnext : ∀ {b : UInt8} {input' : Bytes}, cstringNext input = some (some b, input') →
        (cstringTerminated input' = true ↔ ∃ p rest, Payload cstringNext input p rest) := by
      intro b input' h
      rw [ih _ (shortens_cstringNext _ _ _ h) rfl]
      constructor
      · rintro ⟨p, rest, hp⟩
        exact ⟨_, _, .more h hp⟩
      · rintro ⟨p, rest, hp⟩
        cases hp with
        | done h' =>
          rw [h] at h'
          cases h'
        | more h' htail =>
          rw [h] at h'
          injection h' with h'
          injection h' with _ h'
          exact ⟨_, _, h' ▸ htail⟩
    have hnone : cstringNext input = none → ¬ ∃ p rest, Payload cstringNext input p rest := by
      rintro h ⟨p, rest, hp⟩
      cases hp with
      | done h' =>
        rw [h] at h'
        cases h'
      | more h' _ =>
        rw [h] at h'
        cases h'
    have hend : ∀ {rest : Bytes}, cstringNext input = some (none, rest) →
        ∃ p rest, Payload cstringNext input p rest := fun h => ⟨_, _, .done h⟩
    cases input with
    | nil => exact iff_of_false Bool.false_ne_true (hnone rfl)
    | cons p bs =>
      by_cases hp : p = 0x5c
      · cases bs with
        | nil =>
          refine iff_of_false ?_ (hnone (by rw [cstringNext, if_pos hp, cstringEscape]))
          rw [hp]
          decide
        | cons q bs =>
          rw [cstringTerminated, if_pos hp]
          exact hnext (by rw [cstringNext, if_pos hp, cstringEscape])
      · by_cases hzero : p = 0
        · refine iff_of_true ?_ (@hend bs (by rw [cstringNext, if_neg hp, if_pos hzero]))
          cases bs with
          | nil => exact decide_eq_true hzero
          | cons q bs => rw [cstringTerminated, if_neg hp, if_pos hzero]
        · have hmore : cstringNext (p :: bs) = some (some p, bs) := by
            rw [cstringNext, if_neg hp, if_neg hzero]
          rw [← hnext hmore]
          cases bs with
          | nil => exact iff_of_false (by simpa [cstringTerminated] using hzero) Bool.false_ne_true
          | cons q bs => rw [cstringTerminated, if_neg hp, if_neg hzero]

/-- A chunk of a C string goes along it, and ends behind an escape sequence. -/
theorem follows_unpackCStringChunk : Follows cstringNext False unpackCStringChunk where
  zero acc c := rfl
  done room acc c rest h := by
    cases hc : c.input with
    | nil =>
      rw [hc] at h
      cases h
    | cons p bs =>
      rw [hc, cstringNext] at h
      rw [unpackCStringChunk, bind_of_ok (unpackTakeByte_cons hc)]
      by_cases hp : p = 0x5c
      · rw [if_pos hp] at h
        cases bs <;> cases h
      · rw [if_neg hp] at h
        by_cases hzero : p = 0
        · rw [if_pos hzero] at h
          injection h with h
          injection h with _ h
          rw [if_neg hp, if_pos hzero]
          exact ⟨_, rfl, h, rfl⟩
        · rw [if_neg hzero] at h
          cases h
  more room acc c b rest h := by
    cases hc : c.input with
    | nil =>
      rw [hc] at h
      cases h
    | cons p bs =>
      rw [hc, cstringNext] at h
      rw [unpackCStringChunk, bind_of_ok (unpackTakeByte_cons hc)]
      by_cases hp : p = 0x5c
      · rw [if_pos hp] at h
        rw [if_pos hp]
        cases bs with
        | nil => cases h
        | cons q bs =>
          injection h with h
          injection h with hb h
          injection hb with hb
          refine ⟨0, { c with input := bs, last := q }, Nat.zero_le _, False.elim, h, rfl, ?_⟩
          rw [bind_of_ok (unpackTakeByte_cons rfl), unpackCStringChunk, ← hb]
          by_cases hq : q = 0x30
          · rw [if_pos hq, if_pos hq]
          · rw [if_neg hq, if_neg hq]
      · rw [if_neg hp] at h
        rw [if_neg hp]
        by_cases hzero : p = 0
        · rw [if_pos hzero] at h
          cases h
        · rw [if_neg hzero] at h
          injection h with h
          injection h with hb h
          injection hb with hb
          rw [if_neg hzero, hb]
          exact ⟨room, { c with input := bs, last := b }, Nat.le_refl _, False.elim, h, rfl, rfl⟩

section Calls

variable {chunkBuffLen n : Nat} {it : CCpcpString} {c : Cursor UnpackContext}

theorem unpackStringIn_cstring (hit : it.stringSize < 0) {chunk : Bytes} {last : Bool}
    {c' : Cursor UnpackContext} (h : unpackCStringChunk chunkBuffLen [] c = .ok (chunk, last) c') :
    unpackStringIn chunkBuffLen it c = .ok { it with
      chunk := chunk, lastChunk := it.lastChunk || last, chunkCnt := it.chunkCnt + 1 } c' := by
  rw [unpackStringIn, if_pos hit, bind_of_ok h]
  rfl

/-- The chunks of a C string are those of its payload. -/
theorem chunksOf_cstring (hbuff : 0 < chunkBuffLen) {p rest : Bytes}
    (hp : Payload cstringNext c.input p rest) (hsize : it.stringSize < 0) (hlast : it.lastChunk = false)
    (hn : p.length < n) :
    ∃ calls c', chunksOf (unpackStringIn chunkBuffLen) n it c = .ok calls c' ∧ payloadOf calls = p ∧
      c'.input = rest := by
  induction hlen : p.length using Nat.strong_induction_on generalizing p c it n with
  | _ k ih =>
    subst hlen
    obtain ⟨n, rfl⟩ := Nat.exists_eq_add_one_of_ne_zero (Nat.ne_zero_of_lt hn)
    rcases follows_unpackCStringChunk.deliver hp chunkBuffLen [] with
      ⟨c', hc', hrest, -, -⟩ | ⟨p₁, p₂, c', hp₁, hne, -, -, hc', -, hp₂⟩
    · refine ⟨_, c', callUntilLast_of_last (unpackStringIn_cstring hsize hc') ?_ n, ?_, hrest⟩
      · exact Bool.or_true _
      · rw [payloadOf, List.flatMap_singleton, List.nil_append]
    · subst hp₁
      have hpos := List.length_pos_of_ne_nil (hne (Nat.ne_of_gt hbuff))
      rw [List.length_append] at hn ih
      obtain ⟨calls, c'', hcalls, hpayload, hrest⟩ :=
        @ih p₂.length (by omega) n { it with
          chunk := [] ++ p₁, lastChunk := it.lastChunk || false, chunkCnt := it.chunkCnt + 1 }
          c' p₂ hp₂ hsize (by simp [hlast]) (by omega) rfl
      refine ⟨_, c'', callUntilLast_cons (unpackStringIn_cstring hsize hc') (by simp [hlast]) hcalls,
        ?_, hrest⟩
      · rw [payloadOf, List.flatMap_cons, ← payloadOf, hpayload, List.nil_append]

/-- A chunk of a C string that breaks off: the input is bad, or there is more of it. -/
theorem unpackCStringChunk_unterminated (room : Nat) (acc : Bytes)
    (h : cstringTerminated c.input = false) :
    (∃ c', unpackCStringChunk room acc c = .error (.parse .bufferUnderflow "") c') ∨
    ∃ chunk c', unpackCStringChunk room acc c = .ok (chunk, false) c' ∧
      cstringTerminated c'.input = false ∧ c'.input.length ≤ c.input.length ∧
      (room ≠ 0 → c'.input.length < c.input.length) := by
  induction room generalizing acc c with
  | zero => exact .inr ⟨acc, c, rfl, h, Nat.le_refl _, fun h => absurd rfl h⟩
  | succ room ih =>
    cases hc : c.input with
    | nil =>
      rw [unpackCStringChunk, bind_of_error (unpackTakeByte_nil hc)]
      exact .inl ⟨_, rfl⟩
    | cons p bs =>
      rw [hc] at h
      rw [unpackCStringChunk, bind_of_ok (unpackTakeByte_cons hc)]
      by_cases hp : p = 0x5c
      · rw [if_pos hp]
        cases bs with
        | nil =>
          rw [bind_of_error (unpackTakeByte_nil rfl)]
          exact .inl ⟨_, rfl⟩
        | cons q bs =>
          rw [cstringTerminated, if_pos hp] at h
          rw [bind_of_ok (unpackTakeByte_cons rfl), List.length_cons, List.length_cons]
          split <;> exact .inr ⟨_, _, rfl, h, by dsimp only; omega, fun _ => by dsimp only; omega⟩
      · rw [if_neg hp]
        have hbs : p ≠ 0 ∧ cstringTerminated bs = false := by
          cases bs with
          | nil => exact ⟨by simpa [cstringTerminated] using h, rfl⟩
          | cons q bs =>
            rw [cstringTerminated, if_neg hp] at h
            by_cases hzero : p = 0
            · rw [if_pos hzero] at h
              cases h
            · rw [if_neg hzero] at h
              exact ⟨hzero, h⟩
        rw [if_neg hbs.1]
        rcases @ih { c with input := bs, last := p } (acc ++ [p]) hbs.2 with
          herr | ⟨chunk, c', hrun, hterm, hle, -⟩
        · exact .inl herr
        · have hlt : c'.input.length < bs.length + 1 := Nat.lt_succ_of_le hle
          rw [List.length_cons]
          exact .inr ⟨chunk, c', hrun, hterm, Nat.le_of_lt hlt, fun _ => hlt⟩

theorem chunksOf_unterminated (hbuff : 0 < chunkBuffLen)
    (h : cstringTerminated c.input = false) (hsize : it.stringSize < 0) (hlast : it.lastChunk = false)
    (hn : c.input.length < n) :
    ∃ c', chunksOf (unpackStringIn chunkBuffLen) n it c = .error (.parse .bufferUnderflow "") c' := by
  induction n generalizing c it with
  | zero => exact absurd hn (Nat.not_lt_zero _)
  | succ n ih =>
    rcases unpackCStringChunk_unterminated chunkBuffLen [] h with
      ⟨c', hc'⟩ | ⟨chunk, c', hc', hterm, -, hlt⟩
    · have hcall : unpackStringIn chunkBuffLen it c = .error (.parse .bufferUnderflow "") c' := by
        rw [unpackStringIn, if_pos hsize, bind_of_error hc']
      exact ⟨c', callUntilLast_of_error hcall n⟩
    · have hshort := hlt (Nat.ne_of_gt hbuff)
      obtain ⟨c'', hc''⟩ := @ih { it with
        chunk := chunk, lastChunk := it.lastChunk || false, chunkCnt := it.chunkCnt + 1 } c'
        hterm hsize (by simp [hlast]) (by omega)
      exact ⟨c'', callUntilLast_of_more_error (unpackStringIn_cstring hsize hc') (by simp [hlast]) hc''⟩

/-! ## strings of declared length -/

theorem unpackSizedChunk_enough {m : Nat} (hm : m < 2 ^ 63) (room : Nat) (acc : Bytes)
    (hinput : min room m ≤ c.input.length) :
    ∃ c', unpackSizedChunk room (Int64.ofNat m) acc c =
        .ok (acc ++ c.input.take (min room m), Int64.ofNat (m - room)) c' ∧
      c'.input = c.input.drop (min room m) := by
  -- the bytes behind the chunk do not matter
  obtain ⟨s, hs⟩ : ∃ s, s = c.input.take (min room m) ++ List.replicate (m - min room m) 0 := ⟨_, rfl⟩
  have htake : (c.input.take (min room m)).length = min room m := by
    rw [List.length_take]
    omega
  have hlen : s.length = m := by
    rw [hs, List.length_append, htake, List.length_replicate]
    omega
  have hroom : s.take room = c.input.take (min room m) := by
    by_cases hle : room ≤ m
    · rw [hs, List.take_append_of_le_length (by omega), List.take_take, Nat.min_eq_left hle,
        Nat.min_self]
    · rw [List.take_of_length_le (by omega), hs, Nat.min_eq_right (by omega), Nat.sub_self,
        List.replicate_zero, List.append_nil]
  obtain ⟨a, c', hrun, hrest, -, ⟨rfl, -⟩⟩ := consumes_unpackSizedChunk (F := fun _ => True)
    (P := fun _ => True) room s acc (hlen ▸ hm) c (c.input.drop (min room m))
    (by rw [hroom, List.take_append_drop]) (fun _ _ => trivial) trivial
  rw [hlen, hroom] at hrun
  exact ⟨c', hrun, hrest⟩

theorem unpackSizedChunk_short {m : Nat} (hm : m < 2 ^ 63) (room : Nat) (acc : Bytes)
    (hinput : c.input.length < min room m) :
    ∃ c', unpackSizedChunk room (Int64.ofNat m) acc c = .error (.parse .bufferUnderflow "") c' := by
  induction room generalizing acc c m with
  | zero => omega
  | succ room ih =>
    obtain ⟨m, rfl⟩ := Nat.exists_eq_add_one_of_ne_zero (show m ≠ 0 by omega)
    have hpos : Int64.ofNat (m + 1) > 0 := by
      apply Int64.lt_iff_toInt_lt.mpr
      rw [toInt_ofNat_of_lt hm]
      exact Int.natCast_pos.mpr (Nat.succ_pos m)
    have hpred : Int64.ofNat (m + 1) - 1 = Int64.ofNat m := by simp [Int64.ofNat_add]
    rw [unpackSizedChunk, if_pos hpos]
    cases hc : c.input with
    | nil =>
      rw [bind_of_error (unpackTakeByte_nil hc)]
      exact ⟨_, rfl⟩
    | cons b bs =>
      rw [bind_of_ok (unpackTakeByte_cons hc), hpred]
      refine ih (Nat.lt_of_succ_lt hm) _ ?_
      rw [hc, List.length_cons] at hinput
      dsimp only
      omega

theorem unpackStringIn_sized (hsize : ¬ it.stringSize < 0) {chunk : Bytes} {sizeToLoad : Int64}
    {c' : Cursor UnpackContext}
    (h : unpackSizedChunk chunkBuffLen it.sizeToLoad [] c = .ok (chunk, sizeToLoad) c') :
    unpackStringIn chunkBuffLen it c = .ok { it with
      chunk := chunk, sizeToLoad := sizeToLoad, lastChunk := sizeToLoad == 0
      chunkCnt := it.chunkCnt + 1 } c' := by
  rw [unpackStringIn, if_neg hsize, bind_of_ok h]
  rfl

theorem ofNat_beq_zero {m : Nat} (hm : m < 2 ^ 63) : (Int64.ofNat m == 0) = decide (m = 0) := by
  rw [Bool.eq_iff_iff, beq_iff_eq, decide_eq_true_iff, ← Int64.toInt_inj, toInt_ofNat_of_lt hm]
  change (m : Int) = 0 ↔ _
  omega

/-- The chunks of a string of declared length are of as many bytes. -/
theorem chunksOf_sized (hbuff : 0 < chunkBuffLen) {m : Nat} (hm : m < 2 ^ 63)
    (hsize : ¬ it.stringSize < 0) (hload : it.sizeToLoad = Int64.ofNat m)
    (hinput : m ≤ c.input.length) (hn : m < n) :
    ∃ calls c', chunksOf (unpackStringIn chunkBuffLen) n it c = .ok calls c' ∧ payloadOf calls = c.input.take m ∧
      c'.input = c.input.drop m := by
  induction n generalizing m it c with
  | zero => exact absurd hn (Nat.not_lt_zero _)
  | succ n ih =>
    obtain ⟨c', hrun, hdrop⟩ := unpackSizedChunk_enough hm chunkBuffLen [] (c := c) (by omega)
    rw [← hload] at hrun
    have hzero := ofNat_beq_zero (show m - chunkBuffLen < 2 ^ 63 by omega)
    by_cases hle : m ≤ chunkBuffLen
    · have hlast : (Int64.ofNat (m - chunkBuffLen) == 0) = true := by
        rw [hzero]
        exact decide_eq_true (by omega)
      refine ⟨_, c', callUntilLast_of_last (unpackStringIn_sized hsize hrun) hlast n, ?_, ?_⟩
      · rw [payloadOf, List.flatMap_singleton, List.nil_append, Nat.min_eq_right hle]
      · rw [hdrop, Nat.min_eq_right hle]
    · have hlast : (Int64.ofNat (m - chunkBuffLen) == 0) = false := by
        rw [hzero]
        exact decide_eq_false (by omega)
      rw [Nat.min_eq_left (by omega)] at hrun hdrop
      obtain ⟨calls, c'', hcalls, hpayload, hrest⟩ := @ih { it with
        chunk := [] ++ c.input.take chunkBuffLen, sizeToLoad := Int64.ofNat (m - chunkBuffLen)
        lastChunk := Int64.ofNat (m - chunkBuffLen) == 0, chunkCnt := it.chunkCnt + 1 } c'
        (m - chunkBuffLen) (by omega) hsize rfl (by rw [hdrop, List.length_drop]; omega) (by omega)
      refine ⟨_, c'', callUntilLast_cons (unpackStringIn_sized hsize hrun) hlast hcalls, ?_, ?_⟩
      · rw [payloadOf, List.flatMap_cons, ← payloadOf, hpayload, hdrop, List.nil_append,
          ← List.take_add, Nat.add_sub_cancel' (by omega)]
      · rw [hrest, hdrop, List.drop_drop, Nat.add_sub_cancel' (by omega)]

theorem chunksOf_short (hbuff : 0 < chunkBuffLen) {m : Nat} (hm : m < 2 ^ 63)
    (hsize : ¬ it.stringSize < 0) (hload : it.sizeToLoad = Int64.ofNat m)
    (hinput : c.input.length < m) (hn : c.input.length < n) :
    ∃ c', chunksOf (unpackStringIn chunkBuffLen) n it c = .error (.parse .bufferUnderflow "") c' := by
  induction n generalizing m it c with
  | zero => exact absurd hn (Nat.not_lt_zero _)
  | succ n ih =>
    by_cases hle : min chunkBuffLen m ≤ c.input.length
    · obtain ⟨c', hrun, hdrop⟩ := unpackSizedChunk_enough hm chunkBuffLen [] hle
      rw [← hload] at hrun
      have hlast : (Int64.ofNat (m - chunkBuffLen) == 0) = false := by
        rw [ofNat_beq_zero (by omega)]
        exact decide_eq_false (by omega)
      have hlen : c'.input.length = c.input.length - min chunkBuffLen m := by
        rw [hdrop, List.length_drop]
      obtain ⟨c'', hc''⟩ := @ih { it with
        chunk := [] ++ c.input.take (min chunkBuffLen m), sizeToLoad := Int64.ofNat (m - chunkBuffLen)
        lastChunk := Int64.ofNat (m - chunkBuffLen) == 0, chunkCnt := it.chunkCnt + 1 } c'
        (m - chunkBuffLen) (by omega) hsize rfl (by omega) (by omega)
      exact ⟨c'', callUntilLast_of_more_error (unpackStringIn_sized hsize hrun) hlast hc''⟩
    · obtain ⟨c', hrun⟩ := unpackSizedChunk_short hm chunkBuffLen [] (Nat.lt_of_not_le hle)
      rw [← hload] at hrun
      have hcall : unpackStringIn chunkBuffLen it c = .error (.parse .bufferUnderflow "") c' := by
        rw [unpackStringIn, if_neg hsize, bind_of_error hrun]
      exact ⟨c', callUntilLast_of_error hcall n⟩

/-! ## a declared length -/

/-- The declared length of a string or a blob, and the bytes behind it. -/
def declaredLength (body : Bytes) : Option (UInt64 × Bytes) :=
  match unpackUint (openStream body) with
  | .ok (n, _) c => some (n, c.input)
  | .error _ _ => none

/-- The calls deliver `n` bytes, or the input is found to be bad. -/
def Honours (n : Nat) (bytes : Bytes) : EStateM.Result Fault (Cursor UnpackContext) (List CCpcpItem) → Prop
  | .ok calls c =>
    n ≤ bytes.length ∧ calls.flatMap CCpcpItem.chunk = bytes.take n ∧ c.input = bytes.drop n
  | .error e _ => ∃ errNo msg, e = .parse errNo msg ∧
    (errNo = .bufferUnderflow ∨ errNo = .malformedInput)

theorem ne_CP_CString {packingSchema : UInt8}
    (h : packingSchema = CP_Blob ∨ packingSchema = CP_String) : packingSchema ≠ CP_CString := by
  rcases h with rfl | rfl <;> decide

theorem startString_of_declaredLength {packingSchema : UInt8} (hschema : packingSchema ≠ CP_CString)
    {body bytes : Bytes} {n : UInt64} (h : declaredLength body = some (n, bytes)) :
    ∃ c, startString packingSchema (openStream body) = .ok (.declared n) c ∧ c.input = bytes := by
  rw [declaredLength] at h
  cases hrun : unpackUint (openStream body) with
  | error e c =>
    rw [hrun] at h
    cases h
  | ok r c =>
    rw [hrun] at h
    obtain ⟨size, bitlen⟩ := r
    injection h with h
    injection h with hn hbytes
    subst hn hbytes
    refine ⟨c, ?_, rfl⟩
    rw [startString, if_neg hschema, bind_of_ok hrun]
    rfl

theorem toInt64_eq_ofNat (n : UInt64) : n.toInt64 = Int64.ofNat n.toNat := by
  apply Int64.toBitVec_inj.mp
  apply BitVec.eq_of_toNat_eq
  simp

theorem toInt64_neg_iff {n : UInt64} : n.toInt64 < 0 ↔ 2 ^ 63 ≤ n.toNat := by
  rw [Int64.lt_iff_toInt_lt]
  change n.toBitVec.toInt < 0 ↔ 2 ^ 63 ≤ n.toBitVec.toNat
  have := n.toBitVec.isLt
  rw [BitVec.toInt]
  omega

/-- A declared length is honoured unless it is so large that it is kept as a negative one and a
zero ends the string. -/
theorem honours_callsOf_iff {packingSchema : UInt8} (hschema : packingSchema = CP_Blob ∨ packingSchema = CP_String)
    (hbuff : 0 < chunkBuffLen) {body bytes : Bytes} {size : UInt64}
    (h : declaredLength body = some (size, bytes)) (hfuel : bytes.length < n) :
    Honours size.toNat bytes (callsOf (unpackNextIn chunkBuffLen) n (openStream (packingSchema :: body))) ↔
      size.toNat < 2 ^ 63 ∨ cstringTerminated bytes = false := by
  have hchunks : HasChunks packingSchema := hschema.imp_right .inl
  obtain ⟨c, hstart, rfl⟩ := startString_of_declaredLength (ne_CP_CString hschema) h
  have hcont := continues_unpackNextIn chunkBuffLen packingSchema
  obtain ⟨hok, herror⟩ := (resumes_openStream hchunks hstart).calls hcont .invalid (n := n)
  rw [callsOf]
  by_cases hsize : size.toNat < 2 ^ 63
  · refine iff_of_true ?_ (.inl hsize)
    have hnonneg : ¬ (CCpcpString.declared size).stringSize < 0 := fun h =>
      absurd (toInt64_neg_iff.mp h) (by omega)
    have hload : (CCpcpString.declared size).sizeToLoad = Int64.ofNat size.toNat := toInt64_eq_ofNat size
    by_cases hle : size.toNat ≤ c.input.length
    · obtain ⟨calls, c', hcalls, hpayload, hrest⟩ := chunksOf_sized hbuff hsize
        (n := n) hnonneg hload hle (by omega)
      obtain ⟨c'', hrun, hinput⟩ := hok _ _ hcalls
      rw [hrun]
      exact ⟨hle, (hcont.flatMap_chunk calls).trans hpayload, hinput.trans hrest⟩
    · obtain ⟨c', hcalls⟩ := chunksOf_short hbuff hsize
        (n := n) hnonneg hload (Nat.lt_of_not_le hle) hfuel
      obtain ⟨c'', hrun⟩ := herror _ _ hcalls
      rw [hrun]
      exact ⟨_, _, rfl, .inl rfl⟩
  · have hneg : (CCpcpString.declared size).stringSize < 0 := toInt64_neg_iff.mpr (by omega)
    rw [or_iff_right hsize]
    cases hterm : cstringTerminated c.input with
    | false =>
      refine iff_of_true ?_ rfl
      obtain ⟨c', hcalls⟩ := chunksOf_unterminated hbuff hterm
        (n := n) hneg rfl hfuel
      obtain ⟨c'', hrun⟩ := herror _ _ hcalls
      rw [hrun]
      exact ⟨_, _, rfl, .inl rfl⟩
    | true =>
      refine iff_of_false ?_ Bool.noConfusion
      obtain ⟨p, rest, hp⟩ := terminated_iff.mp hterm
      have hlt := hp.length_lt shortens_cstringNext
      obtain ⟨calls, c', hcalls, hpayload, hrest⟩ := chunksOf_cstring hbuff hp
        (n := n) hneg rfl (by omega)
      obtain ⟨c'', hrun, hinput⟩ := hok _ _ hcalls
      rw [hrun]
      rintro ⟨hle, htake, hdrop⟩
      -- the zero is in neither part
      have hlen := congrArg List.length (List.take_append_drop size.toNat c.input)
      rw [List.length_append, ← htake, ← hdrop, hcont.flatMap_chunk, hpayload, hinput, hrest] at hlen
      omega

/-- A string is read by the rules of C strings. -/
def ByCStringRules (packingSchema : UInt8) (body : Bytes) : Prop :=
  ∃ it c, startString packingSchema (openStream body) = .ok it c ∧ it.stringSize < 0

theorem byCStringRules_iff {packingSchema : UInt8} (hschema : packingSchema ≠ CP_CString)
    {body bytes : Bytes} {size : UInt64} (h : declaredLength body = some (size, bytes)) :
    ByCStringRules packingSchema body ↔ 2 ^ 63 ≤ size.toNat := by
  obtain ⟨c, hstart, -⟩ := startString_of_declaredLength hschema h
  rw [← toInt64_neg_iff]
  constructor
  · rintro ⟨it, c', hit, hneg⟩
    rw [hstart] at hit
    injection hit with hit
    rw [← hit] at hneg
    exact hneg
  · intro hneg
    exact ⟨_, c, hstart, hneg⟩

/-- The declared length is honoured, and nothing but it says where the string ends. -/
theorem declaredLength_honoured_iff {packingSchema : UInt8}
    (hschema : packingSchema = CP_Blob ∨ packingSchema = CP_String) (hbuff : 0 < chunkBuffLen)
    {body bytes : Bytes} {size : UInt64} (h : declaredLength body = some (size, bytes))
    (hfuel : bytes.length < n) :
    ¬ ByCStringRules packingSchema body ∧
      Honours size.toNat bytes (callsOf (unpackNextIn chunkBuffLen) n (openStream (packingSchema :: body))) ↔
      size.toNat < 2 ^ 63 := by
  rw [byCStringRules_iff (ne_CP_CString hschema) h, honours_callsOf_iff hschema hbuff h hfuel, Nat.not_le]
  exact ⟨And.left, fun hsize => ⟨hsize, .inl hsize⟩⟩

theorem declaredLength_honoured_three : ¬ ByCStringRules CP_Blob [3, 0x5c, 0, 7, 9] ∧
    Honours (3 : UInt64).toNat [0x5c, 0, 7, 9]
      (callsOf (unpackNextIn 2) 5 (openStream (CP_Blob :: [3, 0x5c, 0, 7, 9]))) := by
  have h : declaredLength [3, 0x5c, 0, 7, 9] = some (3, [0x5c, 0, 7, 9]) := rfl
  exact (declaredLength_honoured_iff (.inl rfl) (by decide) h (by decide)).mpr (by decide)

/-- A length of 2^63 with one character and a zero behind it. -/
theorem not_honours_cstring : ∃ body bytes,
    declaredLength body = some (0x8000000000000000, bytes) ∧
      ¬ Honours (0x8000000000000000 : UInt64).toNat bytes
        (callsOf cchainpackUnpackNext 3 (openStream (CP_String :: body))) := by
  have h : declaredLength [0xf4, 0x80, 0, 0, 0, 0, 0, 0, 0, 0x61, 0] =
      some (0x8000000000000000, [0x61, 0]) := rfl
  refine ⟨_, _, h, ?_⟩
  rw [← unpackNextIn_eq, honours_callsOf_iff (.inr rfl) (by decide) h (by decide)]
  decide

/-! ## any chunk buffer -/

/-- The payload of a string or a blob, and what is behind it. A length that is kept as a negative
one makes it a C string. -/
inductive ItemPayload : UInt8 → Bytes → Bytes → Bytes → Prop where
  | cstring {body p rest : Bytes} (h : Payload cstringNext body p rest) :
    ItemPayload CP_CString body p rest
  | sized {packingSchema : UInt8} {body bytes : Bytes} {size : UInt64}
    (hschema : packingSchema = CP_Blob ∨ packingSchema = CP_String)
    (h : declaredLength body = some (size, bytes)) (hsize : size.toNat < 2 ^ 63)
    (hle : size.toNat ≤ bytes.length) :
    ItemPayload packingSchema body (bytes.take size.toNat) (bytes.drop size.toNat)
  | oversized {packingSchema : UInt8} {body bytes p rest : Bytes} {size : UInt64}
    (hschema : packingSchema = CP_Blob ∨ packingSchema = CP_String)
    (h : declaredLength body = some (size, bytes)) (hsize : ¬ size.toNat < 2 ^ 63)
    (hp : Payload cstringNext bytes p rest) : ItemPayload packingSchema body p rest

/-- Whatever the chunk buffer, the calls deliver the payload. -/
theorem ItemPayload.delivered {packingSchema : UInt8} {body p rest : Bytes}
    (h : ItemPayload packingSchema body p rest) (hbuff : 0 < chunkBuffLen) (hn : p.length < n) :
    Delivers p rest (callsOf (unpackNextIn chunkBuffLen) n (openStream (packingSchema :: body))) := by
  cases h with
  | cstring h =>
    obtain ⟨calls, c', hcalls, rfl, rfl⟩ := chunksOf_cstring (c := openStream body) hbuff h
      (show CCpcpString.init.stringSize < 0 by decide) rfl hn
    exact (resumes_openStream (.inr (.inr rfl)) rfl).delivered (continues_unpackNextIn _ _) hcalls
  | @sized _ body bytes size hschema h hsize hle =>
    obtain ⟨c, hstart, rfl⟩ := startString_of_declaredLength (ne_CP_CString hschema) h
    rw [List.length_take, Nat.min_eq_left hle] at hn
    have hnonneg : ¬ (CCpcpString.declared size).stringSize < 0 :=
      mt toInt64_neg_iff.mp (Nat.not_le_of_lt hsize)
    have hload : (CCpcpString.declared size).sizeToLoad = Int64.ofNat size.toNat := toInt64_eq_ofNat size
    obtain ⟨calls, c', hcalls, hpayload, hrest⟩ := chunksOf_sized hbuff hsize hnonneg hload hle hn
    rw [← hpayload, ← hrest]
    exact (resumes_openStream (hschema.imp_right .inl) hstart).delivered (continues_unpackNextIn _ _) hcalls
  | @oversized _ body bytes p rest size hschema h hsize hp =>
    obtain ⟨c, hstart, rfl⟩ := startString_of_declaredLength (ne_CP_CString hschema) h
    have hneg : (CCpcpString.declared size).stringSize < 0 :=
      toInt64_neg_iff.mpr (Nat.le_of_not_lt hsize)
    obtain ⟨calls, c', hcalls, rfl, rfl⟩ := chunksOf_cstring hbuff hp hneg rfl hn
    exact (resumes_openStream (hschema.imp_right .inl) hstart).delivered (continues_unpackNextIn _ _) hcalls

end Calls

end LibShv
