import LibShv.Lib.UpperBound
import LibShv.ShvJournalEntry

/-!
# LibShv.ShvMemoryJournal

The journal in memory (`shvmemoryjournal.cpp`). The time of an entry can be made more
precise by its short time, a counter of milliseconds with 16 bits that each path has; it is
moved by 500 ms at most. An entry that is not the latest is put where its own time belongs.
-/

namespace LibShv

/-! ## short times -/

/-- `ShvMemoryJournal::ShortTime`: the last short time of a path, and the time it stands for. -/
structure ShortTime where
  epochTime : Int64
  recentShortTime : UInt16

namespace ShortTime

/-- The short time of a path that had none. -/
def empty : ShortTime := ⟨0, 0⟩

/-- `shortTimeDiff`. -/
def shortTimeDiff (st : ShortTime) (msec : UInt16) : UInt16 := msec - st.recentShortTime

/-- `toEpochTime`. -/
def toEpochTime (st : ShortTime) (msec : UInt16) : Int64 :=
  st.epochTime + Int64.ofNat (st.shortTimeDiff msec).toNat

/-- `addShortTime`. -/
def addShortTime (st : ShortTime) (msec : UInt16) : ShortTime := ⟨st.toEpochTime msec, msec⟩

end ShortTime

/-- `isSpontaneous`. -/
def ShvJournalEntry.isSpontaneous (e : ShvJournalEntry) : Bool :=
  e.valueFlags &&& ((1 : UInt32) <<< 1) ≠ 0

def MAX_SKEW : Int64 := 500

/-- `static_cast<uint16_t>(entry.shortTime)`. -/
def shortMsec (shortTime : Int32) : UInt16 := shortTime.toUInt32.toUInt16

/-- What `append` does to a time with a short time. -/
def ShortTime.correct (st : ShortTime) (shortTime : Int32) (epoch_msec : Int64) :
    Int64 × ShortTime :=
  let short_msec := shortMsec shortTime
  if shortTime = Int32.ofNat st.recentShortTime.toNat then
    (epoch_msec, { st with epochTime := epoch_msec })
  else if st.epochTime = 0 then (epoch_msec, ⟨epoch_msec, short_msec⟩)
  else
    let dt_diff := st.toEpochTime short_msec - epoch_msec
    if dt_diff < -MAX_SKEW then (epoch_msec - MAX_SKEW, ⟨epoch_msec - MAX_SKEW, short_msec⟩)
    else if dt_diff > MAX_SKEW then (epoch_msec + MAX_SKEW, ⟨epoch_msec + MAX_SKEW, short_msec⟩)
    else (st.toEpochTime short_msec, st.addShortTime short_msec)

/-! ## the journal -/

/-- `ShvMemoryJournal`, as far as `append` uses it. -/
structure ShvMemoryJournal where
  m_entries : List ShvJournalEntry
  m_isShortTimeCorrection : Bool
  m_recentShortTimes : List (Bytes × ShortTime)

namespace ShvMemoryJournal

/-- The default-constructed journal. -/
def empty : ShvMemoryJournal := ⟨[], false, []⟩

def setShortTimeCorrection (j : ShvMemoryJournal) (b : Bool) : ShvMemoryJournal :=
  { j with m_isShortTimeCorrection := b }

/-- Is the time of an entry corrected? -/
def isCorrected (j : ShvMemoryJournal) (entry : ShvJournalEntry) : Bool :=
  entry.epochMsec ≠ 0 && j.m_isShortTimeCorrection && !entry.isSpontaneous &&
    entry.shortTime ≠ ShvJournalEntry.NO_SHORT_TIME

/-- The short time of a path. -/
def shortTimeOf (j : ShvMemoryJournal) (path : Bytes) : ShortTime :=
  (SortedMap.find? path j.m_recentShortTimes).getD .empty

/-- The time that the last entry is stored under. -/
def lastTime (j : ShvMemoryJournal) : Int64 :=
  match j.m_entries.getLast? with
  | some e => e.epochMsec
  | none => 0

/-- The end of `append`: in front of the first entry that is later than `msec`, which
`std::upper_bound` finds, or behind all. -/
def store (j : ShvMemoryJournal) (msec : Int64) (e : ShvJournalEntry) : List ShvJournalEntry :=
  if e.epochMsec < j.lastTime then
    j.m_entries.takeWhile (fun o => ¬msec < o.epochMsec) ++
      e :: j.m_entries.dropWhile (fun o => ¬msec < o.epochMsec)
  else j.m_entries ++ [e]

/-- `ShvMemoryJournal::append`. The place is looked up with the entry as it came. -/
def append (j : ShvMemoryJournal) (now : Int64) (entry : ShvJournalEntry) : ShvMemoryJournal :=
  if j.isCorrected entry then
    let (epoch_msec, st) := (j.shortTimeOf entry.path).correct entry.shortTime entry.epochMsec
    { j with
      m_entries := j.store entry.epochMsec { entry with epochMsec := epoch_msec }
      m_recentShortTimes := SortedMap.insert entry.path st j.m_recentShortTimes }
  else
    let epoch_msec := if entry.epochMsec = 0 then now else entry.epochMsec
    { j with m_entries := j.store entry.epochMsec { entry with epochMsec := epoch_msec } }

/-! ## calls -/

/-- An entry is appended, with a reading of the clock, or the correction is switched. -/
inductive Call where
  | append (now : Int64) (entry : ShvJournalEntry)
  | setShortTimeCorrection (b : Bool)

def call (j : ShvMemoryJournal) : Call → ShvMemoryJournal
  | .append now entry => j.append now entry
  | .setShortTimeCorrection b => j.setShortTimeCorrection b

def calls (j : ShvMemoryJournal) (cs : List Call) : ShvMemoryJournal := cs.foldl call j

/-- The entries are sorted by their times. -/
def Sorted (entries : List ShvJournalEntry) : Prop :=
  entries.Pairwise fun a b => a.epochMsec ≤ b.epochMsec

instance (entries : List ShvJournalEntry) : Decidable (Sorted entries) :=
  inferInstanceAs (Decidable (entries.Pairwise fun a b => a.epochMsec ≤ b.epochMsec))

/-- The time that an entry is to be stored under: the clock's, its own, or the one of its short time
as far as it is no more than 500 ms away from its own. -/
def storedTime (j : ShvMemoryJournal) (now : Int64) (entry : ShvJournalEntry) : Int64 :=
  if entry.epochMsec = 0 then now
  else
    let st := j.shortTimeOf entry.path
    if j.isCorrected entry ∧ st.epochTime ≠ 0 ∧
        entry.shortTime ≠ Int32.ofNat st.recentShortTime.toNat then
      max (entry.epochMsec - MAX_SKEW)
        (min (entry.epochMsec + MAX_SKEW) (st.toEpochTime (shortMsec entry.shortTime)))
    else entry.epochMsec

/-- The entry is the latest, or no entry lies between its own time and the one it is to be stored
under. -/
def InPlace (j : ShvMemoryJournal) (now : Int64) (entry : ShvJournalEntry) : Prop :=
  j.lastTime ≤ j.storedTime now entry ∨
    ∀ o ∈ j.m_entries,
      ¬(j.storedTime now entry < o.epochMsec ∧ o.epochMsec ≤ entry.epochMsec) ∧
      ¬(entry.epochMsec < o.epochMsec ∧ o.epochMsec < j.storedTime now entry)

instance (j : ShvMemoryJournal) (now : Int64) (entry : ShvJournalEntry) :
    Decidable (j.InPlace now entry) :=
  inferInstanceAs (Decidable (_ ∨ _))

/-- A time that is not negative, and so far from the last one that sums with it are exact. -/
def InRange (msec : Int64) : Prop := 0 ≤ msec.toInt ∧ msec.toInt < 2 ^ 63 - 66035

instance (msec : Int64) : Decidable (InRange msec) := inferInstanceAs (Decidable (_ ∧ _))

def Call.InRange : Call → Prop
  | .append _ entry => ShvMemoryJournal.InRange entry.epochMsec
  | .setShortTimeCorrection _ => True

instance : DecidablePred Call.InRange
  | .append _ entry => inferInstanceAs (Decidable (ShvMemoryJournal.InRange entry.epochMsec))
  | .setShortTimeCorrection _ => .isTrue trivial

def Call.InPlace (j : ShvMemoryJournal) : Call → Prop
  | .append now entry => ShvMemoryJournal.InPlace j now entry
  | .setShortTimeCorrection _ => True

instance (j : ShvMemoryJournal) : DecidablePred (Call.InPlace j)
  | .append now entry => inferInstanceAs (Decidable (ShvMemoryJournal.InPlace j now entry))
  | .setShortTimeCorrection _ => .isTrue trivial

/-- Every entry of the calls is in place. -/
def AllInPlace (j : ShvMemoryJournal) : List Call → Prop
  | [] => True
  | c :: cs => c.InPlace j ∧ (j.call c).AllInPlace cs

instance decidableAllInPlace : ∀ (j : ShvMemoryJournal) (cs : List Call),
    Decidable (j.AllInPlace cs)
  | _, [] => .isTrue trivial
  | j, c :: cs =>
    have := decidableAllInPlace (j.call c) cs
    inferInstanceAs (Decidable (c.InPlace j ∧ (j.call c).AllInPlace cs))

/-! ## the time of an entry -/

/-- The times of the paths are near times of entries. -/
def InvShort (st : ShortTime) : Prop :=
  -500 < st.epochTime.toInt ∧ st.epochTime.toInt < 2 ^ 63 - 65535

theorem toInt_toEpochTime {st : ShortTime} (h : InvShort st) (msec : UInt16) :
    st.epochTime.toInt ≤ (st.toEpochTime msec).toInt ∧
      (st.toEpochTime msec).toInt ≤ st.epochTime.toInt + 65535 := by
  have hlt := (st.shortTimeDiff msec).toNat_lt
  obtain ⟨hlow, hhigh⟩ := h
  rw [ShortTime.toEpochTime, Int64.toInt_add, Int64.toInt_ofNat_of_lt (by omega),
    Int.bmod_eq_of_le (by omega) (by omega)]
  omega

theorem toInt_sub_skew {own : Int64} (h : InRange own) :
    (own - MAX_SKEW).toInt = own.toInt - 500 := by
  obtain ⟨hlow, hhigh⟩ := h
  rw [Int64.toInt_sub, show MAX_SKEW.toInt = 500 from rfl, Int.bmod_eq_of_le (by omega) (by omega)]

theorem toInt_add_skew {own : Int64} (h : InRange own) :
    (own + MAX_SKEW).toInt = own.toInt + 500 := by
  obtain ⟨hlow, hhigh⟩ := h
  rw [Int64.toInt_add, show MAX_SKEW.toInt = 500 from rfl, Int.bmod_eq_of_le (by omega) (by omega)]

theorem toInt_toEpochTime_sub {st : ShortTime} (hst : InvShort st) {own : Int64} (h : InRange own)
    (msec : UInt16) :
    (st.toEpochTime msec - own).toInt = (st.toEpochTime msec).toInt - own.toInt := by
  obtain ⟨hlow, hhigh⟩ := toInt_toEpochTime hst msec
  have hbelow := (st.toEpochTime msec).toInt_lt
  obtain ⟨hown, hown'⟩ := h
  obtain ⟨hstLow, -⟩ := hst
  rw [Int64.toInt_sub, Int.bmod_eq_of_le (by omega) (by omega)]

/-- The path remembers the time that its entry got. -/
theorem epochTime_correct (st : ShortTime) (shortTime : Int32) (own : Int64) :
    (st.correct shortTime own).2.epochTime = (st.correct shortTime own).1 := by
  unfold ShortTime.correct
  dsimp only
  split_ifs <;> rfl

/-- The time of an entry with a short time. -/
theorem fst_correct {st : ShortTime} (hst : InvShort st) {own : Int64} (h : InRange own)
    (shortTime : Int32) :
    (st.correct shortTime own).1 =
      if st.epochTime ≠ 0 ∧ shortTime ≠ Int32.ofNat st.recentShortTime.toNat then
        max (own - MAX_SKEW) (min (own + MAX_SKEW) (st.toEpochTime (shortMsec shortTime)))
      else own := by
  have hsub := toInt_sub_skew h
  have hadd := toInt_add_skew h
  have hdiff := toInt_toEpochTime_sub hst h (shortMsec shortTime)
  have hmin : ∀ a b : Int64, min a b = if a ≤ b then a else b := fun _ _ => rfl
  have hmax : ∀ a b : Int64, max a b = if a ≤ b then b else a := fun _ _ => rfl
  unfold ShortTime.correct
  dsimp only
  by_cases hsame : shortTime = Int32.ofNat st.recentShortTime.toNat
  · rw [if_pos hsame, if_neg fun hcond => hcond.2 hsame]
  by_cases hfirst : st.epochTime = 0
  · rw [if_neg hsame, if_pos hfirst, if_neg fun hcond => hcond.1 hfirst]
  have hcond : st.epochTime ≠ 0 ∧ shortTime ≠ Int32.ofNat st.recentShortTime.toNat :=
    ⟨hfirst, hsame⟩
  rw [if_neg hsame, if_neg hfirst, if_pos hcond]
  simp only [Int64.lt_iff_toInt_lt, hdiff, show (-MAX_SKEW).toInt = -500 from rfl,
    show MAX_SKEW.toInt = 500 from rfl]
  by_cases hlate : (st.toEpochTime (shortMsec shortTime)).toInt - own.toInt < -500
  · rw [if_pos hlate, hmin, if_neg (by rw [Int64.le_iff_toInt_le]; omega), hmax,
      if_neg (by rw [Int64.le_iff_toInt_le]; omega)]
  by_cases hahead : 500 < (st.toEpochTime (shortMsec shortTime)).toInt - own.toInt
  · rw [if_neg hlate, if_pos hahead, hmin, if_pos (by rw [Int64.le_iff_toInt_le]; omega), hmax,
      if_pos (by rw [Int64.le_iff_toInt_le]; omega)]
  · rw [if_neg hlate, if_neg hahead]
    change st.toEpochTime (shortMsec shortTime) = _
    by_cases hexact : own + MAX_SKEW ≤ st.toEpochTime (shortMsec shortTime)
    · rw [hmin, if_pos hexact, hmax, if_pos (by rw [Int64.le_iff_toInt_le]; omega)]
      rw [Int64.le_iff_toInt_le] at hexact
      exact Int64.toInt_inj.mp (by omega)
    · rw [hmin, if_neg hexact, hmax, if_pos (by rw [Int64.le_iff_toInt_le]; omega)]

/-- The time of an entry is moved by 500 ms at most. -/
theorem near_correct {st : ShortTime} (hst : InvShort st) {own : Int64} (h : InRange own)
    (shortTime : Int32) :
    own.toInt - 500 ≤ (st.correct shortTime own).1.toInt ∧
      (st.correct shortTime own).1.toInt ≤ own.toInt + 500 := by
  have hsub := toInt_sub_skew h
  have hadd := toInt_add_skew h
  rw [fst_correct hst h]
  split_ifs
  · simp only [max, min, Int64.le_iff_toInt_le]
    split_ifs <;> omega
  · omega

theorem invShort_correct {st : ShortTime} (hst : InvShort st) {own : Int64} (h : InRange own)
    (shortTime : Int32) (hne : own ≠ 0) : InvShort (st.correct shortTime own).2 := by
  have hpos : own.toInt ≠ 0 := fun h0 => hne (Int64.toInt_inj.mp h0)
  obtain ⟨hlow, hhigh⟩ := near_correct hst h shortTime
  obtain ⟨hown, hown'⟩ := h
  rw [InvShort, epochTime_correct]
  omega

/-! ## one entry -/

/-- The times of all the paths are near times of entries. -/
def Inv (j : ShvMemoryJournal) : Prop := ∀ e ∈ j.m_recentShortTimes, InvShort e.2

theorem invShort_shortTimeOf {j : ShvMemoryJournal} (h : j.Inv) (path : Bytes) :
    InvShort (j.shortTimeOf path) := by
  rw [shortTimeOf]
  cases hfind : SortedMap.find? path j.m_recentShortTimes with
  | none => exact ⟨by decide, by decide⟩
  | some st => exact h _ (SortedMap.mem_of_find? hfind)

theorem epochMsec_ne_zero_of_isCorrected {j : ShvMemoryJournal} {entry : ShvJournalEntry}
    (h : j.isCorrected entry = true) : entry.epochMsec ≠ 0 := by
  simp only [isCorrected, Bool.and_eq_true, decide_eq_true_eq] at h
  exact h.1.1.1

theorem inv_append {j : ShvMemoryJournal} (h : j.Inv) (now : Int64) {entry : ShvJournalEntry}
    (hown : InRange entry.epochMsec) : (j.append now entry).Inv := by
  rw [append]
  by_cases hc : j.isCorrected entry = true
  · have hne := epochMsec_ne_zero_of_isCorrected hc
    rw [if_pos hc]
    intro e he
    rcases SortedMap.mem_insert he with heq | he
    · rw [heq]
      exact invShort_correct (invShort_shortTimeOf h entry.path) hown entry.shortTime hne
    · exact h e he
  · rw [if_neg hc]
    exact h

/-- An entry is stored under its `storedTime`. -/
theorem entries_append {j : ShvMemoryJournal} (h : j.Inv) (now : Int64) {entry : ShvJournalEntry}
    (hown : InRange entry.epochMsec) :
    (j.append now entry).m_entries =
      j.store entry.epochMsec { entry with epochMsec := j.storedTime now entry } := by
  rw [append, storedTime]
  by_cases hc : j.isCorrected entry = true
  · have hne := epochMsec_ne_zero_of_isCorrected hc
    rw [if_pos hc, if_neg hne]
    dsimp only
    rw [fst_correct (invShort_shortTimeOf h entry.path) hown]
    simp only [hc, true_and]
  · rw [if_neg hc]
    simp only [hc, Bool.false_eq_true, false_and, if_false]

/-- The stored time of an entry with a time of its own is at most 500 ms away from it. -/
theorem storedTime_near {j : ShvMemoryJournal} (h : j.Inv) (now : Int64) {entry : ShvJournalEntry}
    (hown : InRange entry.epochMsec) (hne : entry.epochMsec ≠ 0) :
    entry.epochMsec.toInt - 500 ≤ (j.storedTime now entry).toInt ∧
      (j.storedTime now entry).toInt ≤ entry.epochMsec.toInt + 500 := by
  have hnear := near_correct (invShort_shortTimeOf h entry.path) hown entry.shortTime
  rw [fst_correct (invShort_shortTimeOf h entry.path) hown] at hnear
  rw [storedTime, if_neg hne]
  dsimp only
  by_cases hc : j.isCorrected entry = true
  · simpa only [hc, true_and] using hnear
  · simp only [hc, Bool.false_eq_true, false_and, if_false]
    omega

/-- Exactly one entry is added, and the others stay. -/
theorem store_eq (j : ShvMemoryJournal) (msec : Int64) (e : ShvJournalEntry) :
    ∃ before after, j.m_entries = before ++ after ∧ j.store msec e = before ++ e :: after := by
  rw [store]
  by_cases hlast : e.epochMsec < j.lastTime
  · rw [if_pos hlast]
    exact ⟨_, _, List.takeWhile_append_dropWhile.symm, rfl⟩
  · rw [if_neg hlast]
    exact ⟨j.m_entries, [], (List.append_nil _).symm, rfl⟩

theorem sorted_iff {entries : List ShvJournalEntry} :
    Sorted entries ↔ UpperBound.Sorted (fun e => e.epochMsec.toInt) entries := by
  simp only [Sorted, UpperBound.Sorted, Int64.le_iff_toInt_le]

/-- A sorted journal is still sorted iff the entry is the latest, or no entry lies between the
time that its place was looked up with and the one it is stored under. -/
theorem sorted_store_iff {j : ShvMemoryJournal} (h : Sorted j.m_entries) (msec : Int64)
    (e : ShvJournalEntry) :
    Sorted (j.store msec e) ↔ j.lastTime ≤ e.epochMsec ∨
      ∀ o ∈ j.m_entries, ¬(e.epochMsec < o.epochMsec ∧ o.epochMsec ≤ msec) ∧
        ¬(msec < o.epochMsec ∧ o.epochMsec < e.epochMsec) := by
  rw [sorted_iff] at h ⊢
  rw [store]
  by_cases hlast : e.epochMsec < j.lastTime
  · have hnot : ¬j.lastTime ≤ e.epochMsec := Int64.not_le.mpr hlast
    have hplace : (fun o : ShvJournalEntry => decide ¬msec < o.epochMsec) =
        fun o => decide (o.epochMsec.toInt ≤ msec.toInt) := by
      funext o
      simp only [Int64.lt_iff_toInt_lt, not_lt]
    have hiff := UpperBound.sorted_insertAt_iff h (k := msec.toInt) (e := e)
    rw [if_pos hlast, hplace]
    simp only [Int64.lt_iff_toInt_lt, Int64.le_iff_toInt_le] at hnot ⊢
    simp only [hnot, false_or]
    exact hiff
  · rw [if_neg hlast]
    have hle : j.lastTime ≤ e.epochMsec := Int64.not_lt.mp hlast
    refine iff_of_true (h.concat fun o ho => ?_) (.inl hle)
    cases hfind : j.m_entries.getLast? with
    | none => rw [List.getLast?_eq_none_iff.mp hfind] at ho; exact absurd ho List.not_mem_nil
    | some last =>
      rw [lastTime, hfind, Int64.le_iff_toInt_le] at hle
      exact (h.le_getLast hfind ho).trans hle

/-! ## runs -/

/-- What every call does keeps the times of the paths. -/
theorem inv_calls {cs : List Call} (h : ∀ c ∈ cs, c.InRange) {j : ShvMemoryJournal} (hj : j.Inv) :
    (j.calls cs).Inv := by
  induction cs generalizing j with
  | nil => exact hj
  | cons c cs ih =>
    have hc := h c List.mem_cons_self
    refine ih (fun c hc => h c (List.mem_cons_of_mem _ hc)) ?_
    cases c with
    | append now entry => exact inv_append hj now hc
    | setShortTimeCorrection b => exact hj

theorem sorted_calls {cs : List Call} (h : ∀ c ∈ cs, c.InRange) {j : ShvMemoryJournal}
    (hj : j.Inv) (hs : Sorted j.m_entries) (hall : j.AllInPlace cs) :
    Sorted (j.calls cs).m_entries := by
  induction cs generalizing j with
  | nil => exact hs
  | cons c cs ih =>
    obtain ⟨hplace, hall⟩ := hall
    have hc := h c List.mem_cons_self
    have hrest := fun c hc => h c (List.mem_cons_of_mem _ hc)
    cases c with
    | append now entry =>
      refine ih hrest (inv_append hj now hc) ?_ hall
      change Sorted (j.append now entry).m_entries
      rw [entries_append hj now hc]
      exact (sorted_store_iff hs _ _).mpr hplace
    | setShortTimeCorrection b => exact ih hrest hj hs hall

/-- An entry with a time, a path and a short time. -/
def reading (msec : Int64) (path : String) (shortTime : Int32) : ShvJournalEntry :=
  { ShvJournalEntry.empty with epochMsec := msec, path := ascii path, shortTime := shortTime }

/-- A journal that is filled by `append`: every entry is added once, under a time that is no more
than 500 ms away from its own; the journal stays sorted exactly as long as the entries are in
place. -/
theorem memoryJournal_sorted (cs : List Call) (h : ∀ c ∈ cs, c.InRange) :
    (∀ now entry, InRange entry.epochMsec →
      let j := empty.calls cs
      ∃ before after t, j.m_entries = before ++ after ∧
        (j.append now entry).m_entries = before ++ { entry with epochMsec := t } :: after ∧
        (entry.epochMsec = 0 → t = now) ∧
        (entry.epochMsec ≠ 0 →
          entry.epochMsec.toInt - 500 ≤ t.toInt ∧ t.toInt ≤ entry.epochMsec.toInt + 500) ∧
        (Sorted j.m_entries → (Sorted (j.append now entry).m_entries ↔ j.InPlace now entry))) ∧
    (empty.AllInPlace cs → Sorted (empty.calls cs).m_entries) := by
  have hempty : empty.Inv := fun _ he => absurd he List.not_mem_nil
  have hinv := inv_calls h hempty
  refine ⟨fun now entry hown => ?_, sorted_calls h hempty List.Pairwise.nil⟩
  obtain ⟨before, after, hentries, hstore⟩ := (empty.calls cs).store_eq entry.epochMsec
    { entry with epochMsec := (empty.calls cs).storedTime now entry }
  refine ⟨before, after, _, hentries, ?_, fun hzero => ?_, storedTime_near hinv now hown,
    fun hs => ?_⟩
  · rw [entries_append hinv now hown, hstore]
  · rw [storedTime, if_pos hzero]
  · rw [entries_append hinv now hown]
    exact sorted_store_iff hs _ _

theorem memoryJournal_sorted_readings :
    Sorted (empty.calls [.setShortTimeCorrection true, .append 0 (reading 1000 "a" 100),
      .append 0 (reading 1500 "a" 600), .append 0 (reading 1200 "b" (-1))]).m_entries :=
  (memoryJournal_sorted _ (by decide)).2 (by decide)

/-- The short times of one path take an entry back behind one of another path, or the clock goes
back: the place is that of the uncorrected time. -/
theorem not_memoryJournal_sorted :
    ¬Sorted (empty.calls [.setShortTimeCorrection true, .append 0 (reading 1000 "a" 100),
        .append 0 (reading 1300 "b" (-1)), .append 0 (reading 1500 "a" 101)]).m_entries ∧
      ¬Sorted (empty.calls [.append 0 (reading 1000 "a" (-1)), .append 0 (reading 3000 "a" (-1)),
        .append 2000 (reading 0 "a" (-1))]).m_entries := by
  decide

end ShvMemoryJournal

end LibShv
