import LibShv.CponReader.Tokens

/-!
# LibShv.CCpon.Literals

Number literals: what `ccpon_unpack_next` makes of a sign, decimal or hexadecimal digits and the
suffix of an unsigned number or decimals behind a point. Digits are added up in a signed 64-bit
accumulator whatever the number is to become.
-/

namespace LibShv.CCpon

open ByteReader

/-! ## literals -/

/-- The base of a number. -/
inductive Radix where
  | decimal
  | hex

namespace Radix

def base : Radix → Nat
  | .decimal => 10
  | .hex => 16

/-- What stands before the digits. -/
def start : Radix → Bytes
  | .decimal => []
  | .hex => ascii "0x"

/-- The value of a letter that is a digit. -/
def letter : Radix → UInt8 → Option Nat
  | .decimal, _ => none
  | .hex, b =>
    if 0x61 ≤ b ∧ b ≤ 0x66 then some (b.toNat - 0x61 + 10)
    else if 0x41 ≤ b ∧ b ≤ 0x46 then some (b.toNat - 0x41 + 10)
    else none

/-- The value of a digit. -/
def digit (radix : Radix) (b : UInt8) : Option Nat :=
  if 0x30 ≤ b ∧ b ≤ 0x39 then some (b.toNat - 0x30) else radix.letter b

/-- The number that digits stand for behind a number. -/
def value (radix : Radix) (v : Nat) (bs : Bytes) : Nat :=
  bs.foldl (fun v b => v * radix.base + (radix.digit b).getD 0) v

end Radix

/-- One digit or more. -/
structure Digits (radix : Radix) where
  bytes : Bytes
  ne_nil : bytes ≠ []
  digits : ∀ b ∈ bytes, (radix.digit b).isSome

/-- An integer with or without the suffix of an unsigned one, or a number with a point. -/
inductive NumberLiteral where
  | int (sign : Option Bool) (radix : Radix) (digits : Digits radix) (unsigned : Bool)
  | decimal (sign : Option Bool) (digits : Digits .decimal) (fraction : Option (Digits .decimal))

/-- A plus or a minus. -/
def signBytes : Option Bool → Bytes
  | none => []
  | some false => [0x2b]
  | some true => [minus]

def signed (sign : Option Bool) (n : Nat) : Int := if sign = some true then -n else n

/-- The digits behind the point. -/
def fractionBytes (fraction : Option (Digits .decimal)) : Bytes :=
  match fraction with
  | none => []
  | some digits => digits.bytes

namespace NumberLiteral

def text : NumberLiteral → Bytes
  | .int sign radix digits unsigned =>
    signBytes sign ++ (radix.start ++ (digits.bytes ++ if unsigned then [C_UNSIGNED_END] else []))
  | .decimal sign digits fraction =>
    signBytes sign ++ (digits.bytes ++ dot :: fractionBytes fraction)

/-- The item of the value, if its type has that value. -/
def item? : NumberLiteral → Option CCpcpItem
  | .int sign radix digits unsigned =>
    let v := signed sign (radix.value 0 digits.bytes)
    if unsigned then
      if 0 ≤ v ∧ v < 2 ^ 64 then some (.uint (UInt64.ofNat v.toNat)) else none
    else if -2 ^ 63 ≤ v ∧ v < 2 ^ 63 then some (.int (Int64.ofInt v)) else none
  | .decimal sign digits fraction =>
    let decimals := fractionBytes fraction
    let v := signed sign (Radix.decimal.value 0 (digits.bytes ++ decimals))
    if -2 ^ 63 ≤ v ∧ v < 2 ^ 63 ∧ decimals.length ≤ 2 ^ 31 then
      some (.decimal (Int64.ofInt v) (Int32.ofInt (-decimals.length)))
    else none

end NumberLiteral

/-- The text is read as this item, to its end. -/
def ReadsAs (text : Bytes) (item : CCpcpItem) : Prop :=
  ∃ c, unpackNext (openStream text) = .ok () c ∧ c.reg.item = item ∧ c.input = []

/-! ## digits -/

section Digits

variable {radix : Radix} {s : ReadInt} {b : UInt8} {neg : Bool} {v k : Nat}

theorem value_cons (radix : Radix) (v : Nat) (b : UInt8) (bs : Bytes) :
    radix.value v (b :: bs) = radix.value (v * radix.base + (radix.digit b).getD 0) bs := rfl

theorem value_append (radix : Radix) (v : Nat) (bs bs' : Bytes) :
    radix.value v (bs ++ bs') = radix.value (radix.value v bs) bs' := List.foldl_append

theorem digit?_eq (hs : s.base = radix.base) (b : UInt8) :
    s.digit? b = (radix.digit b).map Nat.cast := by
  rw [ReadInt.digit?, Radix.digit]
  by_cases hb : 0x30 ≤ b ∧ b ≤ 0x39
  · have : 0x30 ≤ b.toNat := UInt8.le_iff_toNat_le.mp hb.1
    rw [if_pos hb, if_pos hb, Option.map_some]
    congr 1
    omega
  · rw [if_neg hb, if_neg hb]
    cases radix with
    | decimal =>
      have hbase : ¬ s.base = 16 := by
        rw [hs]
        decide
      simp [hbase, Radix.letter]
    | hex =>
      have hbase : s.base = 16 := hs
      simp only [hbase, and_true, Radix.letter]
      by_cases hlow : 0x61 ≤ b ∧ b ≤ 0x66
      · have : 0x61 ≤ b.toNat := UInt8.le_iff_toNat_le.mp hlow.1
        rw [if_pos hlow, if_pos hlow, Option.map_some]
        congr 1
        omega
      · rw [if_neg hlow, if_neg hlow]
        by_cases hup : 0x41 ≤ b ∧ b ≤ 0x46
        · have : 0x41 ≤ b.toNat := UInt8.le_iff_toNat_le.mp hup.1
          rw [if_pos hup, if_pos hup, Option.map_some]
          congr 1
          omega
        · rw [if_neg hup, if_neg hup, Option.map_none]

/-- After digits that stand for `v`, `k` of them: the accumulator holds the number, or it has
overflowed. -/
structure Scanned (radix : Radix) (neg : Bool) (v k : Nat) (s : ReadInt) : Prop where
  base : s.base = radix.base
  neg : s.neg = neg
  fits : v < 2 ^ 63 → s.isOverflow = false ∧ s.value.toInt = v ∧ s.digitCnt = Int32.ofNat k
  overflows : ¬ v < 2 ^ 63 → s.isOverflow = true

/-- A digit that does not fit leaves the number as it is. -/
theorem addDigit_cases (s : ReadInt) (d : Int) :
    s.addDigit d = { s with isOverflow := true } ∨
    ∃ value, s.addDigit d = { s with value := value, digitCnt := s.digitCnt + 1 } := by
  rw [ReadInt.addDigit]
  split
  · exact .inl rfl
  · split
    · exact .inl rfl
    · exact .inr ⟨_, rfl⟩

theorem addDigit_fits {d : Nat} (h : s.value.toInt = v) (hbase : s.base = radix.base)
    (hv : v * radix.base + d < 2 ^ 63) :
    s.addDigit d =
      { s with value := Int64.ofInt (v * radix.base + d : Nat), digitCnt := s.digitCnt + 1 } := by
  obtain ⟨hmul, hmul'⟩ := @checkedInt64_ofNat (v * radix.base) (by omega)
  obtain ⟨hadd, -⟩ := checkedInt64_ofNat hv
  have hcast : s.value.toInt * s.base = (v * radix.base : Nat) := by
    rw [h, hbase, Int.natCast_mul]
  have hcast' : ((v * radix.base : Nat) : Int) + (d : Int) = (v * radix.base + d : Nat) := by omega
  rw [ReadInt.addDigit, hcast, hmul]
  simp only
  rw [hmul', hcast', hadd]

theorem addDigit_over {d : Nat} (h : s.value.toInt = v) (hbase : s.base = radix.base)
    (hv : ¬ v * radix.base + d < 2 ^ 63) : s.addDigit d = { s with isOverflow := true } := by
  have hcast : s.value.toInt * s.base = (v * radix.base : Nat) := by
    rw [h, hbase, Int.natCast_mul]
  rw [ReadInt.addDigit, hcast]
  by_cases hmul : v * radix.base < 2 ^ 63
  · obtain ⟨hmul, hmul'⟩ := checkedInt64_ofNat hmul
    have hnone : checkedInt64 ((v * radix.base : Nat) + (d : Int)) = none := if_neg (by omega)
    rw [hmul]
    simp only
    rw [hmul', hnone]
  · have hnone : checkedInt64 (v * radix.base : Nat) = none := if_neg (by omega)
    rw [hnone]

theorem step_of_digit (hbase : s.base = radix.base) {d : Nat} (hb : radix.digit b = some d) :
    s.step b = .more { s.addDigit d with n := s.n + 1 } := by
  have hsign : ¬ (b = 0x2b ∨ b = minus) := by
    rintro (rfl | rfl) <;> cases radix <;> cases hb
  have hx : b ≠ 0x78 := by
    rintro rfl
    cases radix <;> cases hb
  have hdigit : s.digit? b = some (d : Int) := by rw [digit?_eq hbase, hb, Option.map_some]
  rw [ReadInt.step, if_neg hsign, if_neg hx, hdigit]

theorem exists_scans {bs : Bytes} (hbs : ∀ b ∈ bs, (radix.digit b).isSome)
    (hbase : s.base = radix.base) : ∃ t, Scans ReadInt.step s bs t := by
  induction bs generalizing s with
  | nil => exact ⟨s, .nil s⟩
  | cons b bs ih =>
    obtain ⟨d, hd⟩ := Option.isSome_iff_exists.mp (hbs b List.mem_cons_self)
    have hbase' : (s.addDigit d).base = radix.base := by
      rcases addDigit_cases s d with hs | ⟨value, hs⟩ <;> rw [hs] <;> exact hbase
    obtain ⟨t, ht⟩ := ih (s := { s.addDigit d with n := s.n + 1 })
      (fun b hb => hbs b (List.mem_cons_of_mem _ hb)) hbase'
    exact ⟨t, .cons (step_of_digit hbase hd) ht⟩

theorem Scanned.step (h : Scanned radix neg v k s) {d : Nat} (hb : radix.digit b = some d) :
    ∃ t, s.step b = .more t ∧ Scanned radix neg (v * radix.base + d) (k + 1) t ∧
      (¬ v * radix.base + d < 2 ^ 63 → v < 2 ^ 63 →
        t.value.toInt = v ∧ t.digitCnt = Int32.ofNat k) := by
  refine ⟨_, step_of_digit h.base hb, ?_, fun hover hv => ?_⟩
  · by_cases hv : v * radix.base + d < 2 ^ 63
    · have hle : v ≤ v * radix.base := Nat.le_mul_of_pos_right v (by cases radix <;> decide)
      obtain ⟨hflag, hval, hcnt⟩ := h.fits (by omega)
      rw [addDigit_fits hval h.base hv]
      refine ⟨h.base, h.neg, fun _ => ⟨hflag, ?_, ?_⟩, fun hn => absurd hv hn⟩
      · exact (checkedInt64_ofNat hv).2
      · change s.digitCnt + 1 = _
        rw [hcnt, Int32.ofNat_add]
        rfl
    · refine ⟨?_, ?_, fun hn => absurd hn hv, fun _ => ?_⟩
      · rcases addDigit_cases s d with hs | ⟨value, hs⟩ <;> rw [hs] <;> exact h.base
      · rcases addDigit_cases s d with hs | ⟨value, hs⟩ <;> rw [hs] <;> exact h.neg
      · by_cases hfits : v < 2 ^ 63
        · rw [addDigit_over (h.fits hfits).2.1 h.base hv]
        · rcases addDigit_cases s d with hs | ⟨value, hs⟩
          · rw [hs]
          · rw [hs]
            exact h.overflows hfits
  · obtain ⟨-, hval, hcnt⟩ := h.fits hv
    rw [addDigit_over hval h.base hover]
    exact ⟨hval, hcnt⟩

/-- Digits are added to the number. -/
theorem Scanned.digits {bs : Bytes} (hbs : ∀ b ∈ bs, (radix.digit b).isSome)
    (h : Scanned radix neg v k s) :
    ∃ t, Scans ReadInt.step s bs t ∧ Scanned radix neg (radix.value v bs) (k + bs.length) t := by
  induction bs generalizing s v k with
  | nil => exact ⟨s, .nil s, h⟩
  | cons b bs ih =>
    obtain ⟨d, hd⟩ := Option.isSome_iff_exists.mp (hbs b List.mem_cons_self)
    obtain ⟨s', hstep, hs', -⟩ := h.step hd
    obtain ⟨t, hscan, ht⟩ := ih (fun b hb => hbs b (List.mem_cons_of_mem _ hb)) hs'
    refine ⟨t, .cons hstep hscan, ?_⟩
    rw [value_cons, hd, Option.getD_some, List.length_cons, Nat.add_comm bs.length, ← Nat.add_assoc]
    exact ht

/-- The digits whose number is just too large: all but the last one are added. -/
theorem Scanned.digits_min {bs : Bytes} (hbs : ∀ b ∈ bs, (radix.digit b).isSome) (hne : bs ≠ [])
    (h : Scanned radix neg v k s) (hv : radix.value v bs = 2 ^ 63) :
    ∃ t, Scans ReadInt.step s bs t ∧ Scanned radix neg (radix.value v bs) (k + bs.length) t ∧
      0 ≤ t.value.toInt ∧ t.digitCnt = Int32.ofNat (k + (bs.length - 1)) := by
  obtain ⟨ds, b, rfl⟩ : ∃ ds b, bs = ds ++ [b] :=
    ⟨bs.dropLast, bs.getLast hne, (List.dropLast_concat_getLast hne).symm⟩
  obtain ⟨d, hd⟩ := Option.isSome_iff_exists.mp (hbs b (List.mem_append_right _ (List.mem_singleton_self b)))
  obtain ⟨s', hscan, hs'⟩ := h.digits fun b hb => hbs b (List.mem_append_left _ hb)
  have hlast : radix.value v (ds ++ [b]) = radix.value v ds * radix.base + d := by
    rw [value_append, value_cons, hd]
    rfl
  rw [hlast] at hv ⊢
  have hlt : radix.value v ds < 2 ^ 63 := by
    cases radix <;> simp only [Radix.base] at hv <;> omega
  obtain ⟨t, hstep, ht, hmin⟩ := hs'.step hd
  obtain ⟨hval, hcnt⟩ := hmin (by omega) hlt
  refine ⟨t, hscan.append (.cons hstep (.nil t)), ?_, by omega, ?_⟩
  · rw [List.length_append, List.length_singleton, ← Nat.add_assoc]
    exact ht
  · rw [List.length_append, List.length_singleton, Nat.add_sub_cancel]
    exact hcnt

/-- A sign and what stands before the digits. -/
theorem scans_start (sign : Option Bool) (radix : Radix) :
    ∃ s, Scans ReadInt.step (.init 0) (signBytes sign ++ radix.start) s ∧
      Scanned radix (decide (sign = some true)) 0 0 s := by
  have hscanned : ∀ {neg : Bool} {s : ReadInt}, s.base = radix.base → s.neg = neg →
      s.isOverflow = false → s.value = 0 → s.digitCnt = 0 → Scanned radix neg 0 0 s :=
    fun hbase hneg hover hval hcnt => ⟨hbase, hneg, fun _ => ⟨hover, hval ▸ rfl, hcnt⟩,
      fun h => absurd (by decide) h⟩
  cases radix with
  | decimal =>
    rcases sign with _ | _ | _
    · exact ⟨_, .nil _, hscanned rfl rfl rfl rfl rfl⟩
    · exact ⟨_, .cons rfl (.nil _), hscanned rfl rfl rfl rfl rfl⟩
    · exact ⟨_, .cons rfl (.nil _), hscanned rfl rfl rfl rfl rfl⟩
  | hex =>
    rcases sign with _ | _ | _
    · exact ⟨_, .cons rfl (.cons rfl (.nil _)), hscanned rfl rfl rfl rfl rfl⟩
    · exact ⟨_, .cons rfl (.cons rfl (.cons rfl (.nil _))), hscanned rfl rfl rfl rfl rfl⟩
    · exact ⟨_, .cons rfl (.cons rfl (.cons rfl (.nil _))), hscanned rfl rfl rfl rfl rfl⟩

theorem scans_number (sign : Option Bool) (digits : Digits radix) :
    ∃ t, Scans ReadInt.step (.init 0) (signBytes sign ++ (radix.start ++ digits.bytes)) t ∧
      Scanned radix (decide (sign = some true)) (radix.value 0 digits.bytes) digits.bytes.length t ∧
      (radix.value 0 digits.bytes = 2 ^ 63 → t.digitCnt = Int32.ofNat (digits.bytes.length - 1)) := by
  obtain ⟨s, hstart, hs⟩ := scans_start sign radix
  rw [← List.append_assoc]
  by_cases hv : radix.value 0 digits.bytes = 2 ^ 63
  · obtain ⟨t, hscan, ht, -, hcnt⟩ := hs.digits_min digits.digits digits.ne_nil hv
    rw [Nat.zero_add] at ht hcnt
    exact ⟨t, hstart.append hscan, ht, fun _ => hcnt⟩
  · obtain ⟨t, hscan, ht⟩ := hs.digits digits.digits
    rw [Nat.zero_add] at ht
    exact ⟨t, hstart.append hscan, ht, fun h => absurd h hv⟩

end Digits

/-! ## the item of a number -/

section Reads

variable {text bs : Bytes} {b : UInt8} {t : ReadInt} {item : CCpcpItem}

/-- The bytes that a number starts with. -/
def NumberStart (b : UInt8) : Prop := Starts b ∧ CCpon.unpackItem b = (do unget; unpackNumber)

theorem readsAs_iff (hb : NumberStart b) (bs : Bytes) (item : CCpcpItem) : ∃ c : Cursor UnpackContext, c.input = b :: bs ∧
    (ReadsAs (b :: bs) item ↔ ∃ c', unpackNumber c = .ok item c' ∧ c'.input = []) := by
  have hskip : skipInsignificant (openStream (b :: bs)) =
      .ok (some b) { openStream bs with last := b } := by
    rw [skipInsignificant, bind_of_ok (scan_done rfl hb.1)]
    rfl
  have hrun : unpackNext (openStream (b :: bs)) =
      (do setItem (← unpackNumber) : Unpack Unit) { openStream (b :: bs) with last := b } := by
    have hreset : setItem .invalid (openStream (b :: bs)) = .ok () (openStream (b :: bs)) := rfl
    rw [unpackNext, bind_of_ok (checkErrNo_of_ok rfl), bind_of_ok (getItem_apply _)]
    refine (bind_of_ok hreset).trans ((bind_of_ok hskip).trans ?_)
    dsimp only
    rw [hb.2, bind_assoc, bind_of_ok (unget_apply _)]
    rfl
  refine ⟨{ openStream (b :: bs) with last := b }, rfl, ?_⟩
  rw [ReadsAs, hrun]
  constructor
  · rintro ⟨c', h, hitem, hinput⟩
    obtain ⟨a, c₁, hnum, hset⟩ := bind_eq_ok.mp h
    injection hset with _ hc
    subst hc
    exact ⟨c₁, hnum.trans (by rw [← hitem]), hinput⟩
  · rintro ⟨c', hnum, hinput⟩
    exact ⟨_, bind_of_ok hnum, rfl, hinput⟩

variable {c : Cursor UnpackContext}

/-- A number that the end of the text ends. -/
theorem unpackNumber_iff_end (h : Scans ReadInt.step (.init 0) c.input t) :
    (∃ c', unpackNumber c = .ok item c' ∧ c'.input = []) ↔ t.digitCnt ≠ 0 ∧ t.number.item = item := by
  by_cases hk : t.digitCnt = 0
  · obtain ⟨last, hint⟩ := unpackIntToResult_end h
    rw [unpackNumber_eq, bind_of_ok hint, if_pos hk]
    refine iff_of_false ?_ fun h => h.1 hk
    rintro ⟨c', h, -⟩
    cases h
  · obtain ⟨last, hnum⟩ := unpackNumber_end h hk
    rw [hnum]
    constructor
    · rintro ⟨c', h, -⟩
      injection h with h
      exact ⟨hk, h⟩
    · rintro ⟨-, h⟩
      exact ⟨_, by rw [h], rfl⟩

/-- A number that goes on behind its integer part. -/
theorem unpackNumber_iff_tail {rest : Bytes} (h : Scans ReadInt.step (.init 0) bs t)
    (hc : c.input = bs ++ b :: rest) (hb : t.step b = .done t) {r : ReadNumber}
    {c₁ : Cursor UnpackContext}
    (htail : unpackNumberTail t.number b { c with input := rest, last := b } = .ok r c₁)
    (hrest : c₁.input = []) :
    (∃ c', unpackNumber c = .ok item c' ∧ c'.input = []) ↔ t.digitCnt ≠ 0 ∧ r.item = item := by
  by_cases hk : t.digitCnt = 0
  · rw [unpackNumber_eq, bind_of_ok (unpackIntToResult_stop h hc hb), if_pos hk]
    refine iff_of_false ?_ fun h => h.1 hk
    rintro ⟨c', h, -⟩
    cases h
  · rw [unpackNumber_stop h hk hc hb, bind_of_ok htail]
    constructor
    · rintro ⟨c', h, -⟩
      injection h with h
      exact ⟨hk, h⟩
    · rintro ⟨-, rfl⟩
      exact ⟨_, rfl, hrest⟩

/-- The decimals of a number, added to its integer part. -/
theorem unpackNumberTail_dot {r : ReadNumber} {t' : ReadInt}
    (h : Scans ReadInt.step (.init r.mantissa) c.input t') :
    ∃ c', unpackNumberTail r dot c = .ok { r with
      isDecimal := true
      mantissa := t'.value
      isOverflow := r.isOverflow || t'.isOverflow
      decCnt := t'.digitCnt } c' ∧ c'.input = [] := by
  obtain ⟨last, hint⟩ := unpackIntToResult_end h
  refine ⟨{ c with input := [], last := last, atEnd := true,
                   reg := { c.reg with errNo := .bufferUnderflow } }, ?_, rfl⟩
  rw [unpackNumberTail, if_neg (by decide), if_pos rfl, bind_of_ok hint,
    bind_of_ok (unpackTakeByte?_nil rfl)]
  rfl

end Reads

section Literals

variable {radix : Radix}

theorem isDigit_of_digit {b : UInt8} (h : (Radix.decimal.digit b).isSome) : Decimal.IsDigit b := by
  rw [Radix.digit] at h
  split at h
  · next hb => exact ⟨UInt8.le_iff_toNat_le.mp hb.1, UInt8.le_iff_toNat_le.mp hb.2⟩
  · cases h

theorem numberStart_of_isDigit {b : UInt8} (h : Decimal.IsDigit b) : NumberStart b :=
  ⟨starts_of_isDigit h, unpackItem_of_isDigit h⟩

/-- A literal starts as numbers do. -/
theorem numberStart_text (sign : Option Bool) (digits : Digits radix) (rest : Bytes) :
    ∃ b bs, signBytes sign ++ (radix.start ++ (digits.bytes ++ rest)) = b :: bs ∧ NumberStart b := by
  rcases sign with _ | _ | _
  · cases radix with
    | decimal =>
      obtain ⟨b, bs, hbytes⟩ := List.exists_cons_of_ne_nil digits.ne_nil
      have hb := digits.digits b (hbytes ▸ List.mem_cons_self)
      exact ⟨b, bs ++ rest, by rw [hbytes]; rfl, numberStart_of_isDigit (isDigit_of_digit hb)⟩
    | hex => exact ⟨0x30, _, rfl, numberStart_of_isDigit (by decide)⟩
  · exact ⟨0x2b, _, rfl, rfl, rfl⟩
  · exact ⟨minus, _, rfl, rfl, rfl⟩

/-- A byte that is no digit ends the digits. -/
theorem step_of_digit_none {s : ReadInt} {b : UInt8} (hbase : s.base = radix.base)
    (hb : radix.digit b = none) (hsign : ¬ (b = 0x2b ∨ b = minus)) (hx : b ≠ 0x78) :
    s.step b = .done s := by
  rw [ReadInt.step, if_neg hsign, if_neg hx, digit?_eq hbase, hb]
  rfl

/-- The state after the digits decides what the literal is read as. -/
theorem readsAs_int_iff (sign : Option Bool) (digits : Digits radix) (unsigned : Bool) : ∃ t,
    Scanned radix (decide (sign = some true)) (radix.value 0 digits.bytes) digits.bytes.length t ∧
    (radix.value 0 digits.bytes = 2 ^ 63 → t.digitCnt = Int32.ofNat (digits.bytes.length - 1)) ∧
    ∀ item, ReadsAs (NumberLiteral.int sign radix digits unsigned).text item ↔
      t.digitCnt ≠ 0 ∧ { t.number with isUint := unsigned }.item = item := by
  obtain ⟨t, hscan, ht, hmin⟩ := scans_number sign digits
  refine ⟨t, ht, hmin, fun item => ?_⟩
  obtain ⟨b, bs, htext, hb⟩ := numberStart_text sign digits (if unsigned then [C_UNSIGNED_END] else [])
  obtain ⟨c, hc, hiff⟩ := readsAs_iff hb bs item
  rw [NumberLiteral.text, htext, hiff]
  rw [← htext] at hc
  cases unsigned with
  | false =>
    rw [if_neg Bool.false_ne_true, List.append_nil] at hc
    exact unpackNumber_iff_end (hc ▸ hscan)
  | true =>
    rw [if_pos rfl, ← List.append_assoc radix.start, ← List.append_assoc] at hc
    have hstop : t.step C_UNSIGNED_END = .done t :=
      step_of_digit_none ht.base (by cases radix <;> rfl) (by decide) (by decide)
    exact unpackNumber_iff_tail hscan hc hstop rfl rfl

theorem digits_fractionBytes (fraction : Option (Digits .decimal)) :
    ∀ b ∈ fractionBytes fraction, (Radix.decimal.digit b).isSome := by
  cases fraction with
  | none => exact List.forall_mem_nil _
  | some digits => exact digits.digits

/-- The state after the decimals `fs`, which are added to `v`. -/
structure ScannedFraction (v : Nat) (fs : Bytes) (t t' : ReadInt) : Prop where
  nil : fs = [] → t' = .init t.value
  scanned : v < 2 ^ 63 → Scanned .decimal false (Radix.decimal.value v fs) fs.length t'
  min : v < 2 ^ 63 → fs ≠ [] → Radix.decimal.value v fs = 2 ^ 63 → 0 ≤ t'.value.toInt

theorem scans_fraction {v : Nat} {fs : Bytes} (hfs : ∀ b ∈ fs, (Radix.decimal.digit b).isSome)
    {t : ReadInt} (hv : v < 2 ^ 63 → t.value.toInt = v) :
    ∃ t', Scans ReadInt.step (.init t.value) fs t' ∧ ScannedFraction v fs t t' := by
  have hnil : ∀ {t'}, Scans ReadInt.step (.init t.value) fs t' → fs = [] → t' = .init t.value := by
    rintro t' hscan rfl
    cases hscan
    rfl
  by_cases hlt : v < 2 ^ 63
  · have hinit : Scanned .decimal false v 0 (.init t.value) :=
      ⟨rfl, rfl, fun _ => ⟨rfl, hv hlt, rfl⟩, fun h => absurd hlt h⟩
    by_cases hmin : fs ≠ [] ∧ Radix.decimal.value v fs = 2 ^ 63
    · obtain ⟨t', hscan, ht', hpos, -⟩ := hinit.digits_min hfs hmin.1 hmin.2
      rw [Nat.zero_add] at ht'
      exact ⟨t', hscan, hnil hscan, fun _ => ht', fun _ _ _ => hpos⟩
    · obtain ⟨t', hscan, ht'⟩ := hinit.digits hfs
      rw [Nat.zero_add] at ht'
      exact ⟨t', hscan, hnil hscan, fun _ => ht', fun _ hne heq => absurd ⟨hne, heq⟩ hmin⟩
  · obtain ⟨t', hscan⟩ := exists_scans hfs (s := .init t.value) rfl
    exact ⟨t', hscan, hnil hscan, fun h => absurd h hlt, fun h => absurd h hlt⟩

/-- The number with these decimals. -/
def ReadInt.decimal (t t' : ReadInt) : ReadNumber :=
  { t.number with
    isDecimal := true
    mantissa := t'.value
    isOverflow := t.isOverflow || t'.isOverflow
    decCnt := t'.digitCnt }

theorem readsAs_decimal_iff (sign : Option Bool) (digits : Digits .decimal)
    (fraction : Option (Digits .decimal)) : ∃ t t',
    Scanned .decimal (decide (sign = some true)) (Radix.decimal.value 0 digits.bytes)
      digits.bytes.length t ∧
    (Radix.decimal.value 0 digits.bytes = 2 ^ 63 → t.digitCnt = Int32.ofNat (digits.bytes.length - 1)) ∧
    ScannedFraction (Radix.decimal.value 0 digits.bytes) (fractionBytes fraction) t t' ∧
    ∀ item, ReadsAs (NumberLiteral.decimal sign digits fraction).text item ↔
      t.digitCnt ≠ 0 ∧ (t.decimal t').item = item := by
  obtain ⟨t, hscan, ht, hmin⟩ := scans_number sign digits
  obtain ⟨t', hscan', ht'⟩ := scans_fraction (digits_fractionBytes fraction)
    (v := Radix.decimal.value 0 digits.bytes) (t := t) fun hv => (ht.fits hv).2.1
  refine ⟨t, t', ht, hmin, ht', fun item => ?_⟩
  obtain ⟨b, bs, htext, hb⟩ := numberStart_text sign digits (dot :: fractionBytes fraction)
  obtain ⟨c, hc, hiff⟩ := readsAs_iff hb bs item
  have hshape : (NumberLiteral.decimal sign digits fraction).text = b :: bs := htext
  rw [hshape, hiff]
  rw [← htext, ← List.append_assoc Radix.decimal.start, ← List.append_assoc] at hc
  have hstop : t.step dot = .done t := step_of_digit_none ht.base rfl (by decide) (by decide)
  obtain ⟨c', htail, hrest⟩ := unpackNumberTail_dot (r := t.number)
    (c := { c with input := fractionBytes fraction, last := dot }) hscan'
  exact unpackNumber_iff_tail hscan hc hstop htail hrest

end Literals

/-! ## what is read right -/

namespace NumberLiteral

/-- The digits of the integer part that are counted. The one that makes 2^63 is not. -/
def counted {radix : Radix} (digits : Digits radix) : Nat :=
  digits.bytes.length - if radix.value 0 digits.bytes = 2 ^ 63 then 1 else 0

/-- The literal is read as its value: its digits fit the signed accumulator, or it is INT64_MIN
without decimals; and the count of its digits does not come back to zero. -/
def Readable : NumberLiteral → Prop
  | .int _ radix digits unsigned =>
    (unsigned = true → radix.value 0 digits.bytes < 2 ^ 63) ∧ ¬ 2 ^ 32 ∣ counted digits
  | .decimal _ digits fraction =>
    ¬ (fraction.isSome ∧ Radix.decimal.value 0 (digits.bytes ++ fractionBytes fraction) = 2 ^ 63) ∧
      ¬ 2 ^ 32 ∣ counted digits

end NumberLiteral

section Readable

variable {radix : Radix} {sign : Option Bool} {n : Nat} {t : ReadInt}

theorem ofNat_eq_zero_iff {k : Nat} : Int32.ofNat k = 0 ↔ 2 ^ 32 ∣ k := by
  rw [← Int32.toBitVec_inj]
  change BitVec.ofNat 32 k = 0#32 ↔ _
  rw [← BitVec.toNat_inj, BitVec.toNat_ofNat, Nat.dvd_iff_mod_eq_zero]
  rfl

theorem signum_eq (h : t.neg = decide (sign = some true)) :
    (t.signum == -1) = decide (sign = some true) := by
  rw [ReadInt.signum, h]
  by_cases hs : sign = some true
  · simp [hs]
  · rw [decide_eq_false hs]
    decide

/-- The digits of a value that fits are counted, unless they make 2^63. -/
theorem digitCnt_eq_zero_iff {digits : Digits radix}
    (ht : Scanned radix (decide (sign = some true)) (radix.value 0 digits.bytes) digits.bytes.length t)
    (hmin : radix.value 0 digits.bytes = 2 ^ 63 → t.digitCnt = Int32.ofNat (digits.bytes.length - 1))
    (hfits : radix.value 0 digits.bytes ≤ 2 ^ 63) :
    t.digitCnt = 0 ↔ 2 ^ 32 ∣ NumberLiteral.counted digits := by
  rw [NumberLiteral.counted, ← ofNat_eq_zero_iff]
  by_cases hv : radix.value 0 digits.bytes = 2 ^ 63
  · rw [if_pos hv, hmin hv]
  · rw [if_neg hv, (ht.fits (by omega)).2.2, Nat.sub_zero]

/-- The accumulator with the sign. -/
theorem signed_value {value : Int64} (h : value.toInt = n) (hn : n < 2 ^ 63) (sign : Option Bool) :
    (if sign = some true then -value else value) = Int64.ofInt (signed sign n) := by
  apply Int64.toInt_inj.mp
  rw [signed]
  split
  · rw [Int64.toInt_neg, h, Int64.toInt_ofInt_of_le (by omega) (by omega),
      Int.bmod_eq_of_le (by omega) (by omega)]
  · rw [h, Int64.toInt_ofInt_of_le (by omega) (by omega)]

theorem signed_fits {z : Int} (h : z = signed sign n) (hlo : -2 ^ 63 ≤ z) (hhi : z < 2 ^ 63) :
    n ≤ 2 ^ 63 ∧ (¬ n < 2 ^ 63 → sign = some true ∧ n = 2 ^ 63) := by
  rw [signed] at h
  by_cases hs : sign = some true
  · rw [if_pos hs] at h
    exact ⟨by omega, fun hn => ⟨hs, by omega⟩⟩
  · rw [if_neg hs] at h
    exact ⟨by omega, fun hn => by omega⟩

/-- A signed integer is read right. The least one overflows, and the overflow is taken for it. -/
theorem readsAs_int (digits : Digits radix) {item : CCpcpItem}
    (hitem : (NumberLiteral.int sign radix digits false).item? = some item) :
    ReadsAs (NumberLiteral.int sign radix digits false).text item ↔
      (NumberLiteral.int sign radix digits false).Readable := by
  obtain ⟨t, ht, hmin, hiff⟩ := readsAs_int_iff sign digits false
  simp only [NumberLiteral.item?, Bool.false_eq_true, if_false] at hitem
  split at hitem
  case isFalse => cases hitem
  case isTrue hfits =>
    injection hitem with hitem
    obtain ⟨hle, hleast⟩ := signed_fits rfl hfits.1 hfits.2
    have hread : { t.number with isUint := false }.item =
        .int (if t.isOverflow then (if sign = some true then Int64.minValue else Int64.maxValue)
          else if sign = some true then -t.value else t.value) := by
      simp [ReadNumber.item, ReadInt.number, signum_eq ht.neg]
    have hvalue : { t.number with isUint := false }.item = item := by
      rw [hread, ← hitem]
      by_cases hv : radix.value 0 digits.bytes < 2 ^ 63
      · obtain ⟨hflag, hval, -⟩ := ht.fits hv
        rw [if_neg (by rw [hflag]; exact Bool.false_ne_true), signed_value hval hv]
      · obtain ⟨hs, hn⟩ := hleast hv
        rw [if_pos (ht.overflows hv), if_pos hs, signed, if_pos hs, hn]
        rfl
    rw [hiff, NumberLiteral.Readable, Ne, digitCnt_eq_zero_iff ht hmin hle]
    exact ⟨fun h => ⟨fun h => absurd h Bool.false_ne_true, h.1⟩, fun h => ⟨h.2, hvalue⟩⟩

/-- An unsigned integer of the upper half is read as INT64_MAX. -/
theorem readsAs_uint (digits : Digits radix) {item : CCpcpItem}
    (hitem : (NumberLiteral.int sign radix digits true).item? = some item) :
    ReadsAs (NumberLiteral.int sign radix digits true).text item ↔
      (NumberLiteral.int sign radix digits true).Readable := by
  obtain ⟨t, ht, hmin, hiff⟩ := readsAs_int_iff sign digits true
  simp only [NumberLiteral.item?, if_true] at hitem
  split at hitem
  case isFalse => cases hitem
  case isTrue hfits =>
    injection hitem with hitem
    have hread : { t.number with isUint := true }.item =
        .uint (if t.isOverflow then Int64.maxValue else t.value).toUInt64 := rfl
    have habs : (signed sign (radix.value 0 digits.bytes)).toNat = radix.value 0 digits.bytes := by
      have hpos := hfits.1
      rw [signed] at hpos ⊢
      split at hpos
      · next hs =>
        rw [if_pos hs]
        omega
      · next hs => rw [if_neg hs, Int.toNat_natCast]
    have hlt : radix.value 0 digits.bytes < 2 ^ 64 := by
      have hhi := hfits.2
      omega
    rw [habs] at hitem
    rw [hiff, NumberLiteral.Readable]
    by_cases hv : radix.value 0 digits.bytes < 2 ^ 63
    · obtain ⟨hflag, hval, -⟩ := ht.fits hv
      rw [Ne, digitCnt_eq_zero_iff ht hmin (Nat.le_of_lt hv)]
      have hvalue : { t.number with isUint := true }.item = item := by
        have hpos : 0 ≤ t.value := Int64.le_iff_toInt_le.mpr (by rw [hval]; exact Int.natCast_nonneg _)
        rw [hread, ← hitem, if_neg (by rw [hflag]; exact Bool.false_ne_true)]
        congr 1
        apply UInt64.toNat_inj.mp
        rw [Int64.toNat_toUInt64_of_le hpos, UInt64.toNat_ofNat_of_lt' hlt]
        change t.value.toInt.toNat = _
        rw [hval, Int.toNat_natCast]
      exact ⟨fun h => ⟨fun _ => hv, h.1⟩, fun h => ⟨h.2, hvalue⟩⟩
    · refine iff_of_false (fun h => ?_) fun h => hv (h.1 rfl)
      have hvalue := h.2
      rw [hread, if_pos (ht.overflows hv), ← hitem] at hvalue
      injection hvalue with hvalue
      have hnat := congrArg UInt64.toNat hvalue
      rw [UInt64.toNat_ofNat_of_lt' hlt] at hnat
      have hmax : Int64.maxValue.toUInt64.toNat = 2 ^ 63 - 1 := by decide
      omega

theorem le_value (v : Nat) (bs : Bytes) : v ≤ radix.value v bs := by
  induction bs generalizing v with
  | nil => exact Nat.le_refl v
  | cons b bs ih =>
    rw [value_cons]
    have hpos : 0 < radix.base := by cases radix <;> decide
    exact Nat.le_trans (Nat.le_trans (Nat.le_mul_of_pos_right v hpos) (Nat.le_add_right _ _)) (ih _)

theorem lt_of_value_cons {v : Nat} {bs : Bytes} (hne : bs ≠ []) (h : radix.value v bs = 2 ^ 63) :
    v < 2 ^ 63 := by
  obtain ⟨b, bs, rfl⟩ := List.exists_cons_of_ne_nil hne
  rw [value_cons] at h
  have hle := @le_value radix (v * radix.base + (radix.digit b).getD 0) bs
  rw [h] at hle
  cases radix <;> simp only [Radix.base] at hle <;> omega

theorem toInt32_sub_digitCnt (k : Nat) :
    (0 - (Int32.ofNat k).toInt64).toInt32 = Int32.ofInt (-k) := by
  rw [Int64.zero_sub, Int64.toInt32_neg, Int32.toInt32_toInt64, Int32.ofInt_neg]
  rfl

/-- A number with decimals is read right, but not when the least mantissa is reached in its
decimals. -/
theorem readsAs_decimal (digits : Digits .decimal) (fraction : Option (Digits .decimal))
    {item : CCpcpItem} (hitem : (NumberLiteral.decimal sign digits fraction).item? = some item) :
    ReadsAs (NumberLiteral.decimal sign digits fraction).text item ↔
      (NumberLiteral.decimal sign digits fraction).Readable := by
  obtain ⟨t, t', ht, hmin, ht', hiff⟩ := readsAs_decimal_iff sign digits fraction
  simp only [NumberLiteral.item?, value_append] at hitem
  rw [hiff, NumberLiteral.Readable, value_append]
  split at hitem
  case isFalse => cases hitem
  case isTrue hfits =>
    injection hitem with hitem
    obtain ⟨hlo, hhi, hlen⟩ := hfits
    obtain ⟨hle, hleast⟩ := signed_fits rfl hlo hhi
    have hint : Radix.decimal.value 0 digits.bytes ≤ 2 ^ 63 := Nat.le_trans (le_value _ _) hle
    have hcnt := digitCnt_eq_zero_iff ht hmin hint
    have hread : (t.decimal t').item =
        if (t.isOverflow || t'.isOverflow) = true ∧ t'.digitCnt = 0 then
          .decimal (if sign = some true then Int64.minValue else Int64.maxValue) 0
        else .decimal (if sign = some true then -t'.value else t'.value)
          (0 - t'.digitCnt.toInt64).toInt32 := by
      simp [ReadNumber.item, ReadInt.decimal, ReadInt.number, signum_eq ht.neg]
    rw [Ne, hcnt, hread, ← hitem]
    by_cases hv : Radix.decimal.value (Radix.decimal.value 0 digits.bytes) (fractionBytes fraction) < 2 ^ 63
    · have hn := Nat.lt_of_le_of_lt (le_value _ _) hv
      obtain ⟨hflag, -, -⟩ := ht.fits hn
      obtain ⟨hflag', hval, hcnt'⟩ := (ht'.scanned hn).fits hv
      have hno : ¬ ((t.isOverflow || t'.isOverflow) = true ∧ t'.digitCnt = 0) := by
        rw [hflag, hflag']
        exact fun h => Bool.false_ne_true h.1
      rw [if_neg hno, signed_value hval hv, hcnt', toInt32_sub_digitCnt]
      exact ⟨fun h => ⟨fun hf => by omega, h.1⟩, fun h => ⟨h.2, rfl⟩⟩
    · obtain ⟨hs, hn⟩ := hleast hv
      rw [if_pos hs, if_pos hs, hn, signed, if_pos hs]
      cases fraction with
      | none =>
        have hinit : t' = .init t.value := ht'.nil rfl
        have hover : ((t.isOverflow || t'.isOverflow) = true ∧ t'.digitCnt = 0) := by
          rw [ht.overflows hv, hinit]
          exact ⟨rfl, rfl⟩
        rw [if_pos hover]
        exact ⟨fun h => ⟨fun hf => Bool.false_ne_true hf.1, h.1⟩, fun h => ⟨h.2, rfl⟩⟩
      | some decimals =>
        refine iff_of_false (fun h => ?_) fun h => h.1 ⟨rfl, rfl⟩
        have hne : fractionBytes (some decimals) ≠ [] := decimals.ne_nil
        have hvalue := h.2
        split at hvalue
        · -- the exponent is lost
          injection hvalue with _ hexp
          have hlen' := List.length_pos_of_ne_nil hne
          have hzero := congrArg Int32.toInt hexp
          rw [Int32.toInt_ofInt_of_le (by omega) (by omega)] at hzero
          change (0 : Int) = _ at hzero
          omega
        · -- the last digit is lost
          injection hvalue with hmant
          have hpos := ht'.min (lt_of_value_cons hne hn) hne hn
          have hmin' := congrArg Int64.toInt hmant
          have hhi' := t'.value.toInt_lt
          rw [Int64.toInt_neg, Int.bmod_eq_of_le (by omega) (by omega),
            Int64.toInt_ofInt_of_le (by omega) (by omega)] at hmin'
          omega

/-! ## what is written -/

theorem digit_of_isDigit {b : UInt8} (h : Decimal.IsDigit b) :
    Radix.decimal.digit b = some (b.toNat - 48) :=
  if_pos ⟨UInt8.le_iff_toNat_le.mpr h.1, UInt8.le_iff_toNat_le.mpr h.2⟩

theorem value_eq {bs : Bytes} (hbs : ∀ b ∈ bs, Decimal.IsDigit b) (v : Nat) :
    Radix.decimal.value v bs = Decimal.value v bs := by
  induction bs generalizing v with
  | nil => rfl
  | cons b bs ih =>
    rw [value_cons, Decimal.value_cons, digit_of_isDigit (hbs b List.mem_cons_self), Option.getD_some]
    exact ih (fun b hb => hbs b (List.mem_cons_of_mem _ hb)) _

/-- The decimal digits of a number. -/
def digitsOf (n : Nat) : Digits .decimal where
  bytes := Decimal.digits n
  ne_nil := Decimal.digits_ne_nil n
  digits b hb := by
    rw [digit_of_isDigit (Decimal.isDigit_of_mem_digits hb)]
    rfl

theorem value_digitsOf (n : Nat) : Radix.decimal.value 0 (digitsOf n).bytes = n :=
  (value_eq (fun _ => Decimal.isDigit_of_mem_digits) 0).trans (Decimal.value_digits n)

theorem not_dvd_counted {n : Nat} (hn : n < 2 ^ 64) : ¬ 2 ^ 32 ∣ NumberLiteral.counted (digitsOf n) := by
  have hle : (digitsOf n).bytes.length ≤ 20 := Decimal.length_digits_le hn
  have hpos := List.length_pos_of_ne_nil (digitsOf n).ne_nil
  rw [NumberLiteral.counted, value_digitsOf]
  by_cases hmin : n = 2 ^ 63
  · have hlen : (digitsOf (2 ^ 63)).bytes.length = 19 := by decide
    rw [if_pos hmin, hmin, hlen]
    decide
  · rw [if_neg hmin]
    intro hdvd
    have := Nat.le_of_dvd (by omega) hdvd
    omega

theorem packInt_eq (i : Int64) : packInt i =
    (NumberLiteral.int (if i < 0 then some true else none) .decimal (digitsOf i.toInt.natAbs) false).text := by
  rw [NumberLiteral.text, if_neg Bool.false_ne_true, List.append_nil, packInt]
  by_cases hmin : i = Int64.minValue
  · rw [hmin]
    decide
  · by_cases hneg : i < 0
    · rw [intToStr_of_neg hmin hneg, if_pos hneg]
      rfl
    · rw [intToStr_of_nonneg hneg, if_neg hneg]
      rfl

theorem readsAs_packInt (i : Int64) : ReadsAs (packInt i) (.int i) := by
  have hlo := i.le_toInt
  have hhi := i.toInt_lt
  have hsigned : signed (if i < 0 then some true else none) i.toInt.natAbs = i.toInt := by
    by_cases hneg : i < 0
    · have := Int64.lt_iff_toInt_lt.mp hneg
      rw [if_pos hneg, signed, if_pos rfl]
      change i.toInt < 0 at this
      omega
    · have := mt Int64.lt_iff_toInt_lt.mpr hneg
      rw [if_neg hneg, signed, if_neg (by simp)]
      change ¬ i.toInt < 0 at this
      omega
  rw [packInt_eq, readsAs_int]
  · exact ⟨fun h => absurd h Bool.false_ne_true, not_dvd_counted (by omega)⟩
  · simp only [NumberLiteral.item?, value_digitsOf, hsigned, Bool.false_eq_true, if_false]
    rw [if_pos ⟨hlo, hhi⟩, Int64.ofInt_toInt]

theorem readsAs_packUint_iff (u : UInt64) : ReadsAs (packUint u) (.uint u) ↔ u.toNat < 2 ^ 63 := by
  have htext : packUint u = (NumberLiteral.int none .decimal (digitsOf u.toNat) true).text := rfl
  have hitem : (NumberLiteral.int none .decimal (digitsOf u.toNat) true).item? = some (.uint u) := by
    have hsigned : signed none u.toNat = u.toNat := rfl
    have hlt := u.toNat_lt
    simp only [NumberLiteral.item?, value_digitsOf, hsigned, if_true]
    rw [if_pos (by omega), Int.toNat_natCast, UInt64.ofNat_toNat]
  rw [htext, readsAs_uint _ hitem, NumberLiteral.Readable, value_digitsOf]
  exact ⟨fun h => h.1 rfl, fun h => ⟨fun _ => h, not_dvd_counted u.toNat_lt⟩⟩

/-- Whatever value of its type a literal has, it is read as that one. -/
def NumberLiteral.Sound (l : NumberLiteral) : Prop := ∀ item, l.item? = some item → ReadsAs l.text item

theorem NumberLiteral.soundLiteral_iff (l : NumberLiteral) : l.Sound ↔ (l.item?.isSome → l.Readable) := by
  have hreads : ∀ item, l.item? = some item → (ReadsAs l.text item ↔ l.Readable) := by
    intro item hitem
    cases l with
    | int sign radix digits unsigned =>
      cases unsigned with
      | false => exact readsAs_int digits hitem
      | true => exact readsAs_uint digits hitem
    | decimal sign digits fraction => exact readsAs_decimal digits fraction hitem
  constructor
  · intro h hsome
    obtain ⟨item, hitem⟩ := Option.isSome_iff_exists.mp hsome
    exact (hreads item hitem).mp (h item hitem)
  · intro h item hitem
    exact (hreads item hitem).mpr (h (Option.isSome_iff_exists.mpr ⟨item, hitem⟩))

/-- Every signed integer comes back, an unsigned one if it fits the accumulator; and which literals
are read right. -/
theorem numbers_sound_iff (i : Int64) (u : UInt64) (l : NumberLiteral) :
    ReadsAs (packInt i) (.int i) ∧
      (ReadsAs (packUint u) (.uint u) ↔ u.toNat < 2 ^ 63) ∧
      (l.Sound ↔ (l.item?.isSome → l.Readable)) :=
  ⟨readsAs_packInt i, readsAs_packUint_iff u, l.soundLiteral_iff⟩

theorem not_readsAs_upperHalf : ¬ ReadsAs (packUint 0x8000000000000000) (.uint 0x8000000000000000) :=
  (readsAs_packUint_iff _).not.mpr (by decide)

end Readable

end LibShv.CCpon
