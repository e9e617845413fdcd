import Mathlib
import LibShv.RpcValue

/-!
# LibShv.Crypt

`Crypt` (`crypt.cpp`): a text is xored with the numbers of a generator, and every byte of the
result is coded by one or two characters out of `0-9`, `A-Z` and `a-z`.
-/

namespace LibShv

/-- `Crypt`. -/
structure Crypt where
  /-- `m_generator`. -/
  generator : UInt32 → UInt32

namespace Crypt

/-- `createGenerator`. -/
def createGenerator (a b maxRand : UInt32) (val : UInt32) : UInt32 :=
  ((val.toUInt64 * a.toUInt64 + b.toUInt64) % maxRand.toUInt64).toUInt32

/-- A `Crypt` made without a generator. -/
def init : Crypt := ⟨createGenerator 16811 7 2147483647⟩

/-! ## one byte -/

/-- `(b>='A' && b<='Z') || (b>='a' && b<='z')`. -/
def isLetter (b : UInt8) : Bool := (65 ≤ b && b ≤ 90) || (97 ≤ b && b ≤ 122)

/-- `code_byte`: a letter is itself, any other byte is its last decimal digit and a letter for
the rest, in upper case where the digit is odd. -/
def codeByte (b : UInt8) : Bytes :=
  if isLetter b then [b]
  else
    let b1 := b % 10
    let b := b / 10
    [b1 + 48, if b1 % 2 ≠ 0 then b + 65 else b + 97]

theorem length_codeByte_pos (b : UInt8) : 0 < (codeByte b).length := by
  unfold codeByte
  split <;> exact Nat.succ_pos _

/-- `take_byte`, `b` the character at `i` and `rest` those behind it: the byte, and the text from
the next `i` on. -/
def takeByte (b : UInt8) (rest : Bytes) : UInt8 × Bytes :=
  if isLetter b then (b, rest)
  else
    let b1 := b - 48
    match rest with
    -- a pair cut in two: the digit itself is returned
    | [] => (b, [])
    | b :: rest => (10 * (if b1 % 2 ≠ 0 then b - 65 else b - 97) + b1, rest)

theorem length_takeByte_le (b : UInt8) (rest : Bytes) :
    (takeByte b rest).2.length ≤ rest.length := by
  unfold takeByte
  split
  · exact le_rfl
  · cases rest with
    | nil => exact le_rfl
    | cons c cs => exact Nat.le_succ _

/-! ## the two directions -/

/-- The loop of `encrypt` over the text: the seed it ends with, and what it appends. -/
def encryptData (crypt : Crypt) (seed : UInt32) : Bytes → UInt32 × Bytes
  | [] => (seed, [])
  | b :: data =>
    if b = 0 then (seed, [])
    else
      let seed := crypt.generator seed
      let r := encryptData crypt seed data
      (r.1, codeByte (b ^^^ seed.toUInt8) ++ r.2)

/-- The padding loop of `encrypt`, `rand i` its `i`-th `std::rand()`. -/
def pad (crypt : Crypt) (rand : ℕ → UInt8) (minLength i : ℕ) (seed : UInt32) (bb : UInt8)
    (dest : Bytes) : Bytes :=
  if dest.length < minLength then
    let seed := crypt.generator seed
    pad crypt rand minLength (i + 1) seed (rand i) (dest ++ codeByte (bb ^^^ seed.toUInt8))
  else dest
termination_by minLength - dest.length
decreasing_by
  refine Nat.sub_lt_sub_left ‹_› ?_
  rw [List.length_append]
  exact Nat.lt_add_of_pos_right (length_codeByte_pos _)

/-- `encrypt`, `ns` the last byte of the clock. -/
def encrypt (crypt : Crypt) (ns : UInt8) (rand : ℕ → UInt8) (data : Bytes) (minLength : ℕ) :
    Bytes :=
  let b := if ns = 0 then ns + 1 else ns
  let r := crypt.encryptData b.toUInt32 data
  crypt.pad rand minLength 0 r.1 0 (codeByte b ++ r.2)

/-- The loop of `decodeArray`. -/
def decodeLoop (crypt : Crypt) (seed : UInt32) : Bytes → Bytes
  | [] => []
  | c :: cs =>
    let seed := crypt.generator seed
    ((takeByte c cs).1 ^^^ seed.toUInt8) :: decodeLoop crypt seed (takeByte c cs).2
termination_by ba => ba.length
decreasing_by exact Nat.lt_succ_of_le (length_takeByte_le c cs)

/-- `decodeArray`. -/
def decodeArray (crypt : Crypt) : Bytes → Bytes
  | [] => []
  | c :: cs => crypt.decodeLoop (takeByte c cs).1.toUInt32 (takeByte c cs).2

/-- The characters that `\s` stands for. -/
def isSpace (b : UInt8) : Bool := b == 32 || (9 ≤ b && b ≤ 13)

/-- `decrypt`: the white space goes, and all from the first NUL of the decoded text on. -/
def decrypt (crypt : Crypt) (data : Bytes) : Bytes :=
  (crypt.decodeArray (data.filter fun b => !isSpace b)).takeWhile (· ≠ 0)

/-! ## coding a byte and taking it back -/

theorem isLetter_iff (b : UInt8) :
    isLetter b = true ↔ (65 ≤ b.toNat ∧ b.toNat ≤ 90) ∨ (97 ≤ b.toNat ∧ b.toNat ≤ 122) := by
  simp [isLetter, UInt8.le_iff_toNat_le]

/-- The first character of a pair is a digit, and the second a letter. -/
theorem not_isLetter_digit (b : UInt8) : isLetter (b % 10 + 48) = false := by
  have hlt : b.toNat % 10 < 10 := Nat.mod_lt _ (by decide)
  rw [Bool.eq_false_iff]
  intro h
  rw [isLetter_iff] at h
  simp only [UInt8.toNat_add, UInt8.toNat_mod, UInt8.reduceToNat] at h
  omega

theorem takeByte_codeByte (b : UInt8) :
    ∃ c cs, codeByte b = c :: cs ∧ ∀ rest, takeByte c (cs ++ rest) = (b, rest) := by
  by_cases hb : isLetter b = true
  · exact ⟨b, [], by rw [codeByte, if_pos hb], fun rest => by rw [takeByte, if_pos hb]; rfl⟩
  · refine ⟨b % 10 + 48, [if b % 10 % 2 ≠ 0 then b / 10 + 65 else b / 10 + 97],
      by rw [codeByte, if_neg hb], fun rest => ?_⟩
    have hdigit : b % 10 + 48 - 48 = b % 10 := by rw [UInt8.add_sub_cancel]
    have hback : 10 * (b / 10) + b % 10 = b := by
      apply UInt8.toNat.inj
      have hlt := b.toNat_lt
      simp only [UInt8.toNat_add, UInt8.toNat_mul, UInt8.toNat_div, UInt8.toNat_mod,
        UInt8.reduceToNat]
      omega
    rw [takeByte, if_neg (by rw [not_isLetter_digit]; exact Bool.false_ne_true)]
    simp only [List.singleton_append, hdigit]
    by_cases hodd : b % 10 % 2 ≠ 0
    · rw [if_pos hodd, if_pos hodd, UInt8.add_sub_cancel, hback]
    · rw [if_neg hodd, if_neg hodd, UInt8.add_sub_cancel, hback]

/-- No white space is written. -/
theorem not_isSpace_of_mem_codeByte {b c : UInt8} (h : c ∈ codeByte b) : isSpace c = false := by
  have hge : 48 ≤ c.toNat := by
    unfold codeByte at h
    split at h
    · next hb =>
      rw [List.mem_singleton] at h
      rw [isLetter_iff] at hb
      subst h
      omega
    · have hlt := b.toNat_lt
      simp only [List.mem_cons, List.not_mem_nil, or_false] at h
      rcases h with rfl | rfl
      · simp only [UInt8.toNat_add, UInt8.toNat_mod, UInt8.reduceToNat]
        omega
      · split <;> simp only [UInt8.toNat_add, UInt8.toNat_div, UInt8.reduceToNat] <;> omega
  rw [Bool.eq_false_iff]
  intro hs
  simp only [isSpace, Bool.or_eq_true, beq_iff_eq, Bool.and_eq_true, decide_eq_true_eq,
    UInt8.le_iff_toNat_le] at hs
  rcases hs with rfl | ⟨-, hle⟩
  · exact absurd hge (by decide)
  · simp only [UInt8.reduceToNat] at hle
    omega

/-! ## coding a text and taking it back -/

/-- The bytes as both loops of `encrypt` code them from a seed on. -/
def codeBytes (crypt : Crypt) (seed : UInt32) : Bytes → Bytes
  | [] => []
  | b :: bs =>
    codeByte (b ^^^ (crypt.generator seed).toUInt8) ++
      codeBytes crypt (crypt.generator seed) bs

/-- The seed after `n` bytes. -/
def seedAfter (crypt : Crypt) (seed : UInt32) (n : ℕ) : UInt32 := crypt.generator^[n] seed

theorem codeBytes_append (crypt : Crypt) (seed : UInt32) (as bs : Bytes) :
    crypt.codeBytes seed (as ++ bs) =
      crypt.codeBytes seed as ++ crypt.codeBytes (crypt.seedAfter seed as.length) bs := by
  induction as generalizing seed with
  | nil => rfl
  | cons a as ih =>
    rw [List.cons_append, codeBytes, codeBytes, ih, List.append_assoc, List.length_cons]
    rfl

theorem not_isSpace_of_mem_codeBytes (crypt : Crypt) {seed : UInt32} {bs : Bytes} {c : UInt8}
    (h : c ∈ crypt.codeBytes seed bs) : isSpace c = false := by
  induction bs generalizing seed with
  | nil => cases h
  | cons b bs ih =>
    rcases List.mem_append.1 h with h | h
    · exact not_isSpace_of_mem_codeByte h
    · exact ih h

/-- The decoder stays aligned: it takes back byte after byte what `codeBytes` coded. -/
theorem decodeLoop_codeBytes (crypt : Crypt) (seed : UInt32) (bs : Bytes) :
    crypt.decodeLoop seed (crypt.codeBytes seed bs) = bs := by
  induction bs generalizing seed with
  | nil => rw [codeBytes, decodeLoop]
  | cons b bs ih =>
    obtain ⟨c, cs, hcode, htake⟩ := takeByte_codeByte (b ^^^ (crypt.generator seed).toUInt8)
    rw [codeBytes, hcode, List.cons_append, decodeLoop, htake]
    simp only [ih, UInt8.xor_assoc, UInt8.xor_self, UInt8.xor_zero]

theorem encryptData_of_not_mem (crypt : Crypt) (seed : UInt32) {data : Bytes} (h : 0 ∉ data) :
    crypt.encryptData seed data =
      (crypt.seedAfter seed data.length, crypt.codeBytes seed data) := by
  induction data generalizing seed with
  | nil => rfl
  | cons b data ih =>
    obtain ⟨hb, hdata⟩ := not_or.1 (mt List.mem_cons.2 h)
    simp only [encryptData, if_neg (Ne.symm hb), ih _ hdata]
    rfl

/-- What the padding appends: nothing, or bytes the first of which is `bb`. -/
theorem pad_eq (crypt : Crypt) (rand : ℕ → UInt8) (minLength i : ℕ) (seed : UInt32) (bb : UInt8)
    (dest : Bytes) :
    ∃ pads, (pads = [] ∨ ∃ bs, pads = bb :: bs) ∧
      crypt.pad rand minLength i seed bb dest = dest ++ crypt.codeBytes seed pads := by
  induction i, seed, bb, dest using pad.induct crypt rand minLength with
  | case1 i seed bb dest hlt seed' ih =>
    obtain ⟨pads, -, hpads⟩ := ih
    refine ⟨bb :: pads, Or.inr ⟨pads, rfl⟩, ?_⟩
    rw [pad, if_pos hlt, hpads, codeBytes, List.append_assoc]
  | case2 i seed bb dest hge =>
    exact ⟨[], Or.inl rfl, by rw [pad, if_neg hge, codeBytes, List.append_nil]⟩

/-- `decrypt` takes back a seed byte and the bytes coded behind it, up to the first NUL. -/
theorem decrypt_codeBytes (crypt : Crypt) (b : UInt8) (bs : Bytes) :
    crypt.decrypt (codeByte b ++ crypt.codeBytes b.toUInt32 bs) = bs.takeWhile (· ≠ 0) := by
  have hspace : (codeByte b ++ crypt.codeBytes b.toUInt32 bs).filter (fun c => !isSpace c) =
      codeByte b ++ crypt.codeBytes b.toUInt32 bs := by
    refine List.filter_eq_self.2 fun c hc => ?_
    rcases List.mem_append.1 hc with hc | hc
    · rw [not_isSpace_of_mem_codeByte hc]; rfl
    · rw [crypt.not_isSpace_of_mem_codeBytes hc]; rfl
  obtain ⟨c, cs, hcode, htake⟩ := takeByte_codeByte b
  rw [decrypt, hspace, hcode, List.cons_append, decodeArray, htake, decodeLoop_codeBytes]

/-- A text without NUL comes back, whatever the seed, the generator and the padding. -/
theorem decrypt_encrypt (crypt : Crypt) (ns : UInt8) (rand : ℕ → UInt8) (data : Bytes)
    (minLength : ℕ) (h : 0 ∉ data) :
    crypt.decrypt (crypt.encrypt ns rand data minLength) = data := by
  have hdata : ∀ b ∈ data, decide (b ≠ 0) = true := fun b hb =>
    decide_eq_true fun h0 => h (h0 ▸ hb)
  rw [encrypt, crypt.encryptData_of_not_mem _ h]
  obtain ⟨pads, hpads, heq⟩ := crypt.pad_eq rand minLength 0
    (crypt.seedAfter (if ns = 0 then ns + 1 else ns).toUInt32 data.length) 0
    (codeByte (if ns = 0 then ns + 1 else ns) ++
      crypt.codeBytes (if ns = 0 then ns + 1 else ns).toUInt32 data)
  rw [heq, List.append_assoc, ← codeBytes_append, decrypt_codeBytes,
    List.takeWhile_append_of_pos hdata]
  rcases hpads with rfl | ⟨bs, rfl⟩
  · exact List.append_nil data
  · exact List.append_nil data

theorem decrypt_encrypt_hello :
    init.decrypt (init.encrypt 7 (fun i => i.toUInt8) [72, 101, 108, 108, 111] 16) =
      [72, 101, 108, 108, 111] :=
  init.decrypt_encrypt 7 (fun i => i.toUInt8) [72, 101, 108, 108, 111] 16 (by decide)

end Crypt

end LibShv
