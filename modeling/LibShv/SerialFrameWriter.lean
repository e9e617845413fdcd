import LibShv.FrameWriter
import LibShv.SerialFrameReader

/-!
# LibShv.SerialFrameWriter

`SerialFrameWriter` (`serialportsocket.cpp`), and that the bytes it escapes are read
back by `add_byte`.
-/

namespace LibShv

open ByteReader

/-! ## writing -/

namespace SerialFrameWriter

/-- `write_escaped`. -/
def writeEscaped (b : UInt8) : Bytes :=
  if b = STX then [ESC, ESTX]
  else if b = ETX then [ESC, EETX]
  else if b = ATX then [ESC, EATX]
  else if b = ESC then [ESC, EESC]
  else [b]

/-- Bytes escaped one after the other. -/
def escape (bytes : Bytes) : Bytes := bytes.flatMap writeEscaped

/-- `addFrameData`; the CRC is that of the escaped bytes between STX and ETX. -/
def addFrameData (withCrcCheck : Bool) (frameHead frameData : Bytes) : Bytes :=
  let dataToWrite := STX :: (escape frameHead ++ escape frameData ++ [ETX])
  if withCrcCheck then
    let crcDigest := Crc32.init.addAll ((dataToWrite.drop 1).take (dataToWrite.length - 2))
    dataToWrite ++ escape (crcBytes crcDigest.result)
  else dataToWrite

/-- The CRC of a frame. -/
def crcOf (bytes : Bytes) : Crc32 := Crc32.init.addAll (escape bytes)

/-- What stands behind the ETX. -/
def trailer (withCrcCheck : Bool) (bytes : Bytes) : Bytes :=
  if withCrcCheck then escape (crcBytes (crcOf bytes).result) else []

theorem addFrameData_eq (withCrcCheck : Bool) (frameHead frameData : Bytes) :
    addFrameData withCrcCheck frameHead frameData =
      STX :: (escape (frameHead ++ frameData) ++
        ETX :: trailer withCrcCheck (frameHead ++ frameData)) := by
  have hescape : escape frameHead ++ escape frameData = escape (frameHead ++ frameData) :=
    List.flatMap_append.symm
  have hbody : ((escape (frameHead ++ frameData) ++ [ETX]).take
      ((STX :: (escape (frameHead ++ frameData) ++ [ETX])).length - 2)) =
        escape (frameHead ++ frameData) := by
    rw [List.take_left']
    simp
  rw [addFrameData, hescape]
  cases withCrcCheck with
  | false => rfl
  | true =>
    simp only [if_true, List.drop_succ_cons, List.drop_zero, hbody, trailer, crcOf,
      List.cons_append, List.append_assoc, List.nil_append]

end SerialFrameWriter

/-! ## reading escaped bytes -/

namespace SerialFrameReader

open SerialFrameWriter

/-- What `add_byte` makes of some bytes, and the last one of them. -/
def unescape (recentByte : UInt8) : Bytes → Option (Bytes × UInt8)
  | [] => some ([], recentByte)
  | b :: bytes =>
    match addByte recentByte b, unescape b bytes with
    | some x, some (y, last) => some (x ++ y, last)
    | _, _ => none

theorem unescape_cons {recentByte b last : UInt8} {bytes x y : Bytes}
    (h : addByte recentByte b = some x) (h' : unescape b bytes = some (y, last)) :
    unescape recentByte (b :: bytes) = some (x ++ y, last) := by
  rw [unescape, h, h']

theorem unescape_singleton {recentByte b : UInt8} {x : Bytes} (h : addByte recentByte b = some x) :
    unescape recentByte [b] = some (x, b) := by
  have hone : unescape recentByte [b] = some (x ++ [], b) := unescape_cons h rfl
  rwa [List.append_nil] at hone

theorem of_unescape_cons {recentByte b last : UInt8} {bytes out : Bytes}
    (h : unescape recentByte (b :: bytes) = some (out, last)) :
    ∃ x y, addByte recentByte b = some x ∧ unescape b bytes = some (y, last) ∧ out = x ++ y := by
  rw [unescape] at h
  cases hx : addByte recentByte b with
  | none => simp [hx] at h
  | some x =>
    cases hy : unescape b bytes with
    | none => simp [hx, hy] at h
    | some p =>
      obtain ⟨y, last'⟩ := p
      simp only [hx, hy, Option.some.injEq, Prod.mk.injEq] at h
      obtain ⟨rfl, rfl⟩ := h
      exact ⟨x, y, rfl, rfl, rfl⟩

theorem unescape_append {recentByte last last' : UInt8} {bytes bytes' out out' : Bytes}
    (h : unescape recentByte bytes = some (out, last))
    (h' : unescape last bytes' = some (out', last')) :
    unescape recentByte (bytes ++ bytes') = some (out ++ out', last') := by
  induction bytes generalizing recentByte out with
  | nil =>
    obtain ⟨rfl, rfl⟩ := Prod.mk.inj (Option.some.inj h)
    exact h'
  | cons b bytes ih =>
    obtain ⟨x, y, hx, hy, rfl⟩ := of_unescape_cons h
    rw [List.append_assoc]
    exact unescape_cons hx (ih hy)

/-- An escape sequence is read as the byte it stands for. -/
theorem unescape_writeEscaped {recentByte : UInt8} (h : recentByte ≠ ESC) (b : UInt8) :
    ∃ last, last ≠ ESC ∧ unescape recentByte (writeEscaped b) = some ([b], last) := by
  have hesc : addByte recentByte ESC = some [] := by
    rw [addByte, if_neg h, if_neg (by decide)]
  have hcode : ∀ {code : UInt8}, addByte ESC code = some [b] →
      unescape recentByte [ESC, code] = some ([b], code) :=
    fun hb => unescape_cons hesc (unescape_cons hb rfl)
  rw [writeEscaped]
  by_cases h₁ : b = STX
  · subst h₁
    exact ⟨ESTX, by decide, hcode rfl⟩
  by_cases h₂ : b = ETX
  · subst h₂
    exact ⟨EETX, by decide, hcode rfl⟩
  by_cases h₃ : b = ATX
  · subst h₃
    exact ⟨EATX, by decide, hcode rfl⟩
  by_cases h₄ : b = ESC
  · subst h₄
    exact ⟨EESC, by decide, hcode rfl⟩
  · rw [if_neg h₁, if_neg h₂, if_neg h₃, if_neg h₄]
    exact ⟨b, h₄, unescape_cons (by rw [addByte, if_neg h, if_pos h₄]) rfl⟩

/-- Escaped bytes are read back, and no escape sequence is left open. -/
theorem unescape_escape {recentByte : UInt8} (h : recentByte ≠ ESC) (bytes : Bytes) :
    ∃ last, last ≠ ESC ∧ unescape recentByte (escape bytes) = some (bytes, last) := by
  induction bytes generalizing recentByte with
  | nil => exact ⟨recentByte, h, rfl⟩
  | cons b bytes ih =>
    obtain ⟨last, hlast, hb⟩ := unescape_writeEscaped h b
    obtain ⟨last', hlast', hbytes⟩ := ih hlast
    exact ⟨last', hlast', unescape_append hb hbytes⟩

/-- Only an ESC adds nothing. -/
theorem eq_esc_of_addByte {recentByte b : UInt8} (h : addByte recentByte b = some []) : b = ESC := by
  rw [addByte] at h
  by_cases hrecent : recentByte = ESC
  · rw [if_pos hrecent] at h
    repeat' split at h
    all_goals simp at h
  · rw [if_neg hrecent] at h
    by_cases hb : b = ESC
    · exact hb
    · simp [hb] at h

/-- Where no escape sequence is left open, only the empty string is read as nothing. -/
theorem eq_nil_of_unescape {recentByte last : UInt8} {bytes : Bytes}
    (h : unescape recentByte bytes = some ([], last)) (hlast : last ≠ ESC) : bytes = [] := by
  cases bytes with
  | nil => rfl
  | cons b bytes =>
    -- only an ESC adds nothing, and what follows it adds a byte
    obtain ⟨x, y, hx, hy, hout⟩ := of_unescape_cons h
    obtain ⟨rfl, rfl⟩ := List.append_eq_nil_iff.mp hout.symm
    have hesc : b = ESC := eq_esc_of_addByte hx
    subst hesc
    cases bytes with
    | nil => exact absurd (Prod.mk.inj (Option.some.inj hy)).2.symm hlast
    | cons b' bytes =>
      obtain ⟨x', y', hx', -, hout'⟩ := of_unescape_cons hy
      obtain ⟨rfl, -⟩ := List.append_eq_nil_iff.mp hout'.symm
      rw [addByte, if_pos rfl] at hx'
      repeat' split at hx'
      all_goals simp at hx'

/-- Bytes that neither begin nor end a frame. -/
def Plain (bytes : Bytes) : Prop := ∀ b ∈ bytes, b ≠ STX ∧ b ≠ ATX ∧ b ≠ ETX

instance (bytes : Bytes) : Decidable (Plain bytes) :=
  List.decidableBAll (fun b => b ≠ STX ∧ b ≠ ATX ∧ b ≠ ETX) bytes

theorem plain_writeEscaped (b : UInt8) : Plain (writeEscaped b) := by
  rw [writeEscaped]
  by_cases h₁ : b = STX
  · rw [if_pos h₁]
    decide
  by_cases h₂ : b = ETX
  · rw [if_neg h₁, if_pos h₂]
    decide
  by_cases h₃ : b = ATX
  · rw [if_neg h₁, if_neg h₂, if_pos h₃]
    decide
  by_cases h₄ : b = ESC
  · rw [if_neg h₁, if_neg h₂, if_neg h₃, if_pos h₄]
    decide
  · rw [if_neg h₁, if_neg h₂, if_neg h₃, if_neg h₄]
    intro b' hb'
    rw [List.mem_singleton.mp hb']
    exact ⟨h₁, h₃, h₂⟩

theorem plain_escape (bytes : Bytes) : Plain (escape bytes) := by
  intro b hb
  obtain ⟨b', -, hb'⟩ := List.mem_flatMap.mp hb
  exact plain_writeEscaped b' b hb'

end SerialFrameReader

end LibShv
