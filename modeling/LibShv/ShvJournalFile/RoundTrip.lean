import LibShv.Cpon
import LibShv.CponWriter.PlainText
import LibShv.ShvJournalFile

/-!
# LibShv.ShvJournalFile.RoundTrip

What is appended to a journal file is read from it: no column has a separator
in it, so a line is split into the columns it was made from.
-/

namespace LibShv.ShvJournalFileReader

open CCpon Decimal CponWriter ShvJournalFileWriter

/-! ## columns -/

theorem split_of_not_mem {sep : UInt8} {s : Bytes} (h : sep ∉ s) (piece : Bytes) :
    split sep piece s = [piece ++ s] := by
  induction s generalizing piece with
  | nil => rw [split, List.append_nil]
  | cons c s ih =>
    obtain ⟨hne, hs⟩ := not_or.mp (List.mem_cons.not.mp h)
    rw [split, if_neg (Ne.symm hne), ih hs, List.append_assoc, List.singleton_append]

theorem split_field {sep : UInt8} {s : Bytes} (h : sep ∉ s) (rest : Bytes) :
    split sep [] (s ++ sep :: rest) = s :: split sep [] rest := by
  rw [split_append, split_of_not_mem h]
  rfl

theorem fieldSeparator_not_mem {s : Bytes} (h : Plain s) : FIELD_SEPARATOR ∉ s :=
  fun hmem => (h _ hmem).2.1 rfl

/-! ## numbers -/

theorem isSpace_of_isDigit {d : UInt8} (h : IsDigit d) : isSpace d = false := by
  have hle : ¬ d ≤ 0x0d := fun hd => by
    have := UInt8.le_iff_toNat_le.mp hd
    have hlow : 48 ≤ d.toNat := h.1
    have hval : (0x0d : UInt8).toNat = 13 := rfl
    omega
  have hne : d ≠ 0x20 := ne_of_isDigit h (by decide)
  simp [isSpace, hne, hle]

/-- Digits are read as the number they stand for. -/
theorem textToInt_digits (n : Nat) (h : (n : Int) ≤ Int32.maxValue.toInt) :
    textToInt (digits n) = some (Int32.ofInt n) := by
  have hdigit : ∀ d ∈ digits n, IsDigit d := fun d => isDigit_of_mem_digits
  have hvalue := value_digits n
  obtain ⟨d, ds, hds⟩ := List.exists_cons_of_ne_nil (digits_ne_nil n)
  rw [hds] at hdigit hvalue ⊢
  have hd := hdigit d List.mem_cons_self
  have hsign : takeSign (d :: ds) = (false, d :: ds) := by
    unfold takeSign
    split
    · rename_i heq
      exact absurd (List.cons.inj heq).1 (ne_of_isDigit hd (by decide))
    · rename_i heq
      exact absurd (List.cons.inj heq).1 (ne_of_isDigit hd (by decide))
    · rfl
  have hall : d :: ds ≠ [] ∧ ∀ b ∈ d :: ds, 48 ≤ b ∧ b ≤ 57 := by
    refine ⟨List.cons_ne_nil d ds, fun b hb => ?_⟩
    exact ⟨UInt8.le_iff_toNat_le.mpr (hdigit b hb).1, UInt8.le_iff_toNat_le.mpr (hdigit b hb).2⟩
  have hmin : Int32.minValue.toInt ≤ (n : Int) := le_trans (by decide) (Int.natCast_nonneg n)
  rw [textToInt, List.dropWhile_cons_of_neg (by simp [isSpace_of_isDigit hd]), hsign]
  simp only [if_pos hall, hvalue, Bool.false_eq_true, if_false, if_pos (And.intro hmin h)]

theorem textToInt_minus_digits (n : Nat) (h : (n : Int) ≤ -Int32.minValue.toInt) :
    textToInt (minus :: digits n) = some (Int32.ofInt (-n)) := by
  have hall : digits n ≠ [] ∧ ∀ b ∈ digits n, 48 ≤ b ∧ b ≤ 57 := by
    refine ⟨digits_ne_nil n, fun b hb => ?_⟩
    have hb := isDigit_of_mem_digits hb
    exact ⟨UInt8.le_iff_toNat_le.mpr hb.1, UInt8.le_iff_toNat_le.mpr hb.2⟩
  have hmin : Int32.minValue.toInt ≤ -(n : Int) := by omega
  have hmax : -(n : Int) ≤ Int32.maxValue.toInt :=
    le_trans (Int.neg_nonpos_of_nonneg (Int.natCast_nonneg n)) (by decide)
  rw [textToInt, List.dropWhile_cons_of_neg (by decide)]
  have hsign : takeSign (minus :: digits n) = (true, digits n) := rfl
  simp only [hsign, if_pos hall, value_digits, if_true, if_pos (And.intro hmin hmax)]

/-- An `int` is read as it was written. -/
theorem textToInt_intToStr (n : Int32) : textToInt (intToStr n.toInt64) = some n := by
  have htoInt : n.toInt64.toInt = n.toInt := Int32.toInt_toInt64 n
  have hlow := n.le_toInt
  have hhigh := n.toInt_lt
  have hmax : Int32.maxValue.toInt = 2 ^ 31 - 1 := by decide
  have hmin : Int32.minValue.toInt = -2 ^ 31 := by decide
  by_cases hn : n.toInt64 < 0
  · have hneg : n.toInt < 0 := htoInt ▸ Int64.lt_iff_toInt_lt.mp hn
    have hne : n.toInt64 ≠ Int64.minValue := by
      intro h
      have : n.toInt = Int64.minValue.toInt := by rw [← htoInt, h]
      have hval : Int64.minValue.toInt = -2 ^ 63 := by decide
      omega
    rw [intToStr_of_neg hne hn, htoInt, textToInt_minus_digits _ (by omega)]
    have habs : -(n.toInt.natAbs : Int) = n.toInt := by omega
    rw [habs, Int32.ofInt_toInt]
  · have hpos : 0 ≤ n.toInt := by
      rw [← htoInt]
      exact Int.not_lt.mp fun hlt => hn (Int64.lt_iff_toInt_lt.mpr hlt)
    rw [intToStr_of_nonneg hn, htoInt, textToInt_digits _ (by omega)]
    have habs : (n.toInt.natAbs : Int) = n.toInt := by omega
    rw [habs, Int32.ofInt_toInt]

/-! ## entries -/

/-- An entry that a line can hold: a positive time that is read back from its
text, a path, no separators and zeros in the texts, and a value that is read back. -/
structure Storable (entry : ShvJournalEntry) : Prop where
  epochMsec_pos : 0 < entry.epochMsec
  time_msecs : (RpcDateTime.fromIsoString (timeText entry.epochMsec)).1.msecsSinceEpoch =
    entry.epochMsec
  time_length : (RpcDateTime.fromIsoString (timeText entry.epochMsec)).2 =
    (timeText entry.epochMsec).length
  path_ne_nil : entry.path ≠ []
  plain_path : Plain entry.path
  plain_domain : Plain entry.domain
  plain_userId : Plain entry.userId
  value : fromCpon (toCpon [] entry.value) = .ok (some entry.value)

/-- A structural value whose blobs fit is read back. -/
theorem fromCpon_toCpon {v : RpcValue} (h : v.CponStd) (hdecoded : CponReader.decoded v = v) :
    fromCpon (toCpon [] v) = .ok (some v) := by
  obtain ⟨c, hread, -⟩ := CponReader.readFrom_toCpon h (List.forall_mem_nil (· ≤ space))
  rw [fromCpon, hread, hdecoded]

/-- An entry as it is read: no domain is a value change, and a negative short time is none. -/
def readEntry (entry : ShvJournalEntry) : ShvJournalEntry :=
  { entry with
    domain := if entry.domain = [] then ShvJournalEntry.DOMAIN_VAL_CHANGE else entry.domain
    shortTime := if entry.shortTime < 0 then ShvJournalEntry.NO_SHORT_TIME else entry.shortTime }

/-- The column of a short time. -/
def shortTimeText (entry : ShvJournalEntry) : Bytes :=
  if 0 ≤ entry.shortTime then intToStr entry.shortTime.toInt64 else []

/-- The line of an entry without its end. -/
def lineText (entry : ShvJournalEntry) : Bytes :=
  timeText entry.epochMsec ++ FIELD_SEPARATOR ::
  ([] ++ FIELD_SEPARATOR ::
  (entry.path ++ FIELD_SEPARATOR ::
  (toCpon [] entry.value ++ FIELD_SEPARATOR ::
  (shortTimeText entry ++ FIELD_SEPARATOR ::
  (entry.domain ++ FIELD_SEPARATOR ::
  (intToStr entry.valueFlags.toInt32.toInt64 ++ FIELD_SEPARATOR :: entry.userId))))))

variable {entry : ShvJournalEntry}

theorem append_eq (h : Storable entry) (now : Int64) :
    append now entry = lineText entry ++ [RECORD_SEPARATOR] := by
  have hne : entry.epochMsec ≠ 0 := (Int64.ne_of_lt h.epochMsec_pos).symm
  rw [append, if_neg hne, line, if_neg (fun h => h rfl), lineText, shortTimeText]
  simp only [List.append_assoc, List.cons_append]

theorem plain_shortTimeText : Plain (shortTimeText entry) :=
  plain_ite (plain_intToStr _) plain_nil

theorem plain_timeText (msec : Int64) : Plain (timeText msec) := plain_packDateTimeStr _ _

theorem timeText_ne_nil (h : Storable entry) : timeText entry.epochMsec ≠ [] := by
  intro hnil
  have hmsecs := h.time_msecs
  rw [hnil] at hmsecs
  have hzero : (RpcDateTime.fromIsoString []).1.msecsSinceEpoch = 0 := by decide
  exact absurd h.epochMsec_pos (by rw [← hmsecs, hzero]; decide)

theorem split_lineText (h : Storable entry) : split FIELD_SEPARATOR [] (lineText entry) =
    [timeText entry.epochMsec, [], entry.path, toCpon [] entry.value, shortTimeText entry,
      entry.domain, intToStr entry.valueFlags.toInt32.toInt64, entry.userId] := by
  rw [lineText, split_field (fieldSeparator_not_mem (plain_timeText _)),
    split_field List.not_mem_nil, split_field (fieldSeparator_not_mem h.plain_path),
    split_field (fieldSeparator_not_mem (plain_toCpon _)),
    split_field (fieldSeparator_not_mem plain_shortTimeText),
    split_field (fieldSeparator_not_mem h.plain_domain),
    split_field (fieldSeparator_not_mem (plain_intToStr _)),
    split_of_not_mem (fieldSeparator_not_mem h.plain_userId), List.nil_append]

theorem shortTimeOf_shortTimeText :
    shortTimeOf (shortTimeText entry) = (readEntry entry).shortTime := by
  rw [shortTimeText, readEntry, shortTimeOf]
  by_cases h : 0 ≤ entry.shortTime
  · have hneg : ¬ entry.shortTime < 0 := Int32.not_lt.mpr h
    rw [if_pos h, textToInt_intToStr, if_neg hneg]
    exact if_pos h
  · have hneg : entry.shortTime < 0 := Int32.not_le.mp h
    rw [if_neg h, if_pos hneg]
    rfl

/-- A line is read as the entry it was written for. -/
theorem readLine_lineText (h : Storable entry) :
    readLine (lineText entry) = .ok (some (readEntry entry)) := by
  have hlength : (timeText entry.epochMsec).length ≠ 0 := fun h0 =>
    timeText_ne_nil h (List.length_eq_zero_iff.mp h0)
  have hend : (lineText entry)[(timeText entry.epochMsec).length]? = some FIELD_SEPARATOR := by
    rw [lineText, List.getElem?_append_right (Nat.le_refl _), Nat.sub_self]
    rfl
  have hflags : ((textToInt (intToStr entry.valueFlags.toInt32.toInt64)).getD 0).toUInt32 =
      entry.valueFlags := by
    rw [textToInt_intToStr, Option.getD_some, UInt32.toUInt32_toInt32]
  have htime : ¬ ((RpcDateTime.fromIsoString (timeText entry.epochMsec)).2 = 0 ∨
      (lineText entry)[(RpcDateTime.fromIsoString (timeText entry.epochMsec)).2]? ≠
        some FIELD_SEPARATOR) := by
    rw [h.time_length, hend]
    exact not_or.mpr ⟨hlength, fun hne => hne rfl⟩
  rw [readLine, split_lineText h]
  simp only [Timestamp, Path, Value, ShortTime, Domain, ValueFlags, UserId, List.getElem?_cons_zero,
    List.getElem?_cons_succ, Option.getD_some, if_neg htime, if_neg h.path_ne_nil, valueOf, h.value,
    h.time_msecs, shortTimeOf_shortTimeText, hflags, Option.some.injEq]
  rfl

/-- The end of a line and a zero are not in its text. -/
theorem ne_of_mem_lineText (h : Storable entry) :
    ∀ b ∈ lineText entry, b ≠ 0 ∧ b ≠ RECORD_SEPARATOR := by
  have hplain : ∀ {s : Bytes}, Plain s → ∀ b ∈ s, b ≠ 0 ∧ b ≠ RECORD_SEPARATOR :=
    fun hs b hb => ⟨(hs b hb).1, (hs b hb).2.2⟩
  have hsep : FIELD_SEPARATOR ≠ 0 ∧ FIELD_SEPARATOR ≠ RECORD_SEPARATOR := by decide
  rw [lineText]
  simp only [List.forall_mem_append, List.forall_mem_cons]
  exact ⟨hplain (plain_timeText _), hsep, List.forall_mem_nil _, hsep, hplain h.plain_path, hsep,
    hplain (plain_toCpon _), hsep, hplain plain_shortTimeText, hsep, hplain h.plain_domain, hsep,
    hplain (plain_intToStr _), hsep, hplain h.plain_userId⟩

theorem lineText_ne_nil : lineText entry ≠ [] := by
  rw [lineText]
  exact List.append_ne_nil_of_right_ne_nil _ (List.cons_ne_nil _ _)

/-- What is appended for an entry is read as the entry. -/
theorem readFile_append_entry (h : Storable entry) (now : Int64) :
    readFile (append now entry) = .ok [readEntry entry] := by
  have hmem := ne_of_mem_lineText h
  have hzero : (lineText entry ++ [RECORD_SEPARATOR]).filter (· ≠ 0) =
      lineText entry ++ [RECORD_SEPARATOR] := by
    refine List.filter_eq_self.mpr fun b hb => decide_eq_true ?_
    obtain hb | hb := List.mem_append.mp hb
    · exact (hmem b hb).1
    · rw [List.mem_singleton.mp hb]
      decide
  rw [append_eq h, readFile, hzero, split_field fun hb => (hmem _ hb).2 rfl, readLines, lineEntry,
    if_neg lineText_ne_nil, readLine_lineText h]
  rfl

/-- What is appended for a list of entries is read as these entries. -/
theorem readFile_appends {calls : List (Int64 × ShvJournalEntry)}
    (h : ∀ call ∈ calls, Storable call.2) :
    readFile (calls.flatMap fun call => append call.1 call.2) =
      .ok (calls.map fun call => readEntry call.2) := by
  induction calls with
  | nil => rfl
  | cons call calls ih =>
    obtain ⟨hcall, hcalls⟩ := List.forall_mem_cons.mp h
    exact readFile_append (ended_line _ _ _) (readFile_append_entry hcall call.1) (ih hcalls)

/-- A string with a tab, a newline, a zero and a byte that is no UTF-8. -/
def testEntry : ShvJournalEntry where
  epochMsec := 1524000000123
  path := ascii "a/b"
  value := .ofVariant (.string [0x61, 0x09, 0x0a, 0x00, 0x5c, 0x22, 0xc3])
  shortTime := 7
  domain := []
  valueFlags := 2
  userId := ascii "admin"

theorem storable_testEntry : Storable testEntry where
  epochMsec_pos := by decide
  time_msecs := by decide
  time_length := by decide
  path_ne_nil := List.cons_ne_nil _ _
  plain_path := by decide
  plain_domain := by decide
  plain_userId := by decide
  value := by
    refine fromCpon_toCpon ?_ rfl
    simp [RpcValue.CponStd, RpcValue.Each, RpcMetaData.Each, Variant.Each, eachIMap, eachMap,
      testEntry, RpcValue.ofVariant, Variant.CponStd, RpcMetaData.CponStd,
      SortedMap.sorted_nil, cponMaxSize]

theorem readFile_appends_testEntry :
    readFile (([(0, testEntry), (1, testEntry)] : List (Int64 × ShvJournalEntry)).flatMap
        fun call => append call.1 call.2) =
      .ok ([(0, testEntry), (1, testEntry)].map fun call => readEntry call.2) :=
  readFile_appends (List.forall_mem_cons.mpr
    ⟨storable_testEntry, List.forall_mem_singleton.mpr storable_testEntry⟩)

end LibShv.ShvJournalFileReader
