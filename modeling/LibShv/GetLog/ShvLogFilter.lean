import LibShv.GetLog.RecordCountLimit

/-!
# LibShv.GetLog.ShvLogFilter

`ShvLogFilter` (`shvlogfilter.cpp`): the test that the entries of a live log are
to pass, beside what `getLog` gives for the same parameters when it has no limit
and no snapshot. The filter takes the two ends of the range with it and reads a
zero as no end; `getLog` leaves the ends out. Besides, `getLog` gathers a
snapshot, whether or not it is asked for, and keeps the last records back when
they are too recent.
-/

namespace LibShv

/-- `ShvLogFilter`. -/
structure ShvLogFilter where
  m_patternMatcher : Bytes → Bytes → Bool
  m_inputFilterSinceMsec : Int64
  m_inputFilterUntilMsec : Int64

namespace ShvLogFilter

/-- The time of a bound, zero if it is none. -/
def boundMsec (v : RpcValue) : Int64 :=
  match v.dateTime? with
  | some dt => dt.msecsSinceEpoch
  | none => 0

/-- `ShvLogFilter::ShvLogFilter`. -/
def ofParams (input_params : ShvGetLogParams) : ShvLogFilter where
  m_patternMatcher := input_params.pattern
  m_inputFilterSinceMsec := boundMsec input_params.since
  m_inputFilterUntilMsec := boundMsec input_params.until_

/-- `ShvLogFilter::match`. -/
def matchEntry (filter : ShvLogFilter) (entry : ShvJournalEntry) : Bool :=
  if filter.m_inputFilterSinceMsec ≠ 0 ∧ entry.epochMsec < filter.m_inputFilterSinceMsec then
    false
  else if filter.m_inputFilterUntilMsec ≠ 0 ∧ filter.m_inputFilterUntilMsec < entry.epochMsec then
    false
  else filter.m_patternMatcher entry.path entry.domain

end ShvLogFilter

namespace GetLog

open Batch ShvLogFilter

/-! ## the range of the filter -/

/-- The time is in the range of the filter, its ends included. -/
def FilterRange (params : ShvGetLogParams) (t : Int64) : Prop :=
  params.sinceMsec ≤ t ∧ (boundMsec params.until_ = 0 ∨ t ≤ boundMsec params.until_)

/-- The time is an end of the range, or there is no time before its end. -/
def AtEnd (params : ShvGetLogParams) (t : Int64) : Prop :=
  t = params.sinceMsec ∨
    match params.until_.dateTime? with
    | some dt => dt.msecsSinceEpoch = 0 ∨ t = dt.msecsSinceEpoch
    | none => t = Int64.maxValue

variable {params : ShvGetLogParams} {entries : List ShvJournalEntry} {snapshot : ShvSnapshot}
  {now : RpcDateTime} {e : ShvJournalEntry}

theorem matchEntry_iff (hpos : 0 < e.epochMsec) :
    (ShvLogFilter.ofParams params).matchEntry e = true ↔
      params.matchesEntry e = true ∧ FilterRange params e.epochMsec := by
  have hsince : boundMsec params.since = params.sinceMsec := rfl
  rw [matchEntry, ShvLogFilter.ofParams, hsince, FilterRange, ShvGetLogParams.matchesEntry]
  simp only
  by_cases hs : params.sinceMsec ≤ e.epochMsec
  · rw [if_neg fun h => Int64.not_lt.mpr hs h.2]
    by_cases hu : boundMsec params.until_ = 0 ∨ e.epochMsec ≤ boundMsec params.until_
    · rw [if_neg fun h => hu.elim h.1 fun hle => Int64.not_lt.mpr hle h.2]
      exact ⟨fun h => ⟨h, hs, hu⟩, fun h => h.1⟩
    · rw [not_or, Int64.not_le] at hu
      rw [if_pos hu]
      refine iff_of_false Bool.false_ne_true fun h => ?_
      exact h.2.2.elim hu.1 fun hle => Int64.not_lt.mpr hle hu.2
  · -- a positive time before `since` has a `since` that is not zero
    have hlt := Int64.not_le.mp hs
    have hne : params.sinceMsec ≠ 0 := by
      intro h
      rw [h] at hlt
      exact Int64.lt_irrefl (Int64.lt_trans hpos hlt)
    rw [if_pos ⟨hne, hlt⟩]
    exact iff_of_false Bool.false_ne_true fun h => hs h.2.1

/-- Inside the range of the filter the range of `getLog` lacks the ends alone. -/
theorem inside_iff {t : Int64} (hpos : 0 < t) (h : FilterRange params t) :
    (params.sinceMsec < t ∧ t < params.untilMsec) ↔ ¬AtEnd params t := by
  obtain ⟨hsince, huntil⟩ := h
  have hs : params.sinceMsec < t ↔ ¬t = params.sinceMsec := by
    rw [Int64.lt_iff_le_and_ne]
    exact ⟨fun h => Ne.symm h.2, fun h => ⟨hsince, Ne.symm h⟩⟩
  rw [AtEnd, not_or, hs]
  refine and_congr_right fun _ => ?_
  rw [boundMsec] at huntil
  rw [ShvGetLogParams.untilMsec]
  cases hdt : params.until_.dateTime? with
  | none =>
    simp only
    have hle : t ≤ Int64.maxValue := Int64.le_maxValue t
    rw [Int64.lt_iff_le_and_ne]
    exact ⟨fun h => h.2, fun h => ⟨hle, h⟩⟩
  | some dt =>
    rw [hdt] at huntil
    simp only at huntil ⊢
    rw [not_or]
    constructor
    · intro hlt
      refine ⟨fun hzero => ?_, Int64.ne_of_lt hlt⟩
      rw [hzero] at hlt
      exact Int64.lt_irrefl (Int64.lt_trans hpos hlt)
    · rintro ⟨hzero, hne⟩
      exact Int64.lt_iff_le_and_ne.mpr ⟨huntil.resolve_left hzero, hne⟩

theorem filterRange_of_inside {t : Int64} (hsince : params.sinceMsec < t)
    (huntil : t < params.untilMsec) : FilterRange params t := by
  refine ⟨Int64.le_of_lt hsince, ?_⟩
  rw [ShvGetLogParams.untilMsec] at huntil
  rw [boundMsec]
  cases hdt : params.until_.dateTime? with
  | none => exact Or.inl rfl
  | some dt =>
    rw [hdt] at huntil
    exact Or.inr (Int64.le_of_lt huntil)

/-! ## the log without a limit -/

/-- The limit is not below the number of the entries, and no snapshot is asked for. -/
structure Unlimited (params : ShvGetLogParams) (entries : List ShvJournalEntry) : Prop where
  limit : (entries.length : Int) ≤ params.recordCountLimit.toInt
  noSnapshot : params.withSnapshot = false

/-- The records of the last time are kept back: no entry comes after the range, and the time is
less than a second from now. An entry is told by what is read back from its row. -/
def keptBack (params : ShvGetLogParams) (entries : List ShvJournalEntry) (now : RpcDateTime)
    (e : ShvJournalEntry) : Bool :=
  (pastUntil params entries).isEmpty &&
    (inRange params entries).getLast?.any fun last =>
      isFresh now (readBack last) &&
        decide ((readBack e).dateTime.msec = (readBack last).dateTime.msec)

/-- The entries of the range whose records are not kept back. -/
def given (params : ShvGetLogParams) (entries : List ShvJournalEntry) (now : RpcDateTime) :
    List ShvJournalEntry :=
  (inRange params entries).filter fun e => !keptBack params entries now e

theorem Unlimited.rest_eq_nil (h : Unlimited params entries) (hsorted : TimeSorted entries)
    (hgather : gather params entries = .ok snapshot) (last : Option ShvJournalEntry) :
    rest timeKey (overRequested params snapshot) 0 last (inRange params entries) = [] := by
  refine rest_eq_nil_iff.mpr fun m hm => ?_
  have hle := le_of_mem_stops hm
  have hsize := length_inRange_add_length_le hsorted hgather
  have hlimit := h.limit
  rw [overRequested, decide_eq_false_iff_not]
  omega

/-- The loop keeps the whole range. -/
theorem Unlimited.result_log_eq (h : Unlimited params entries) (hsorted : TimeSorted entries)
    (hgather : gather params entries = .ok snapshot) :
    (loopEnd params entries snapshot).result_log = inRange params entries :=
  take_eq_self (h.rest_eq_nil hsorted hgather _)

/-- The loop ends at the first entry past the range. -/
theorem Unlimited.first_unmatching_entry_eq (h : Unlimited params entries)
    (hsorted : TimeSorted entries) (hgather : gather params entries = .ok snapshot) :
    (loopEnd params entries snapshot).first_unmatching_entry =
      (pastUntil params entries).head? := by
  rw [loopEnd]
  simp only [h.rest_eq_nil hsorted hgather, List.nil_append]

theorem filterAuxM_map {entryOf : RpcValue → Except String ShvJournalEntry}
    {row : ShvJournalEntry → RpcValue} {es : List ShvJournalEntry}
    (hread : ∀ x ∈ es, entryOf (row x) = .ok (readBack x)) (p : ShvJournalEntry → Bool)
    (acc : RpcList) :
    List.filterAuxM (fun r => do return p (← entryOf r)) (es.map row) acc =
      (.ok (((es.filter fun x => p (readBack x)).map row).reverse ++ acc) :
        Except String RpcList) := by
  induction es generalizing acc with
  | nil => rfl
  | cons x es ih =>
    have htail := fun y hy => hread y (List.mem_cons_of_mem _ hy)
    rw [List.map_cons, List.filterAuxM, hread x List.mem_cons_self]
    simp only [bind, Except.bind, pure, Except.pure] at ih ⊢
    rw [ih htail]
    cases hp : p (readBack x) <;> simp [hp]

/-- The rows that are not erased are those of the entries with another time. -/
theorem eraseTime_map {entryOf : RpcValue → Except String ShvJournalEntry}
    {row : ShvJournalEntry → RpcValue} {es : List ShvJournalEntry}
    (hread : ∀ x ∈ es, entryOf (row x) = .ok (readBack x)) (last : ShvJournalEntry) :
    eraseTime entryOf last (es.map row) =
      .ok ((es.filter fun x => decide ((readBack x).dateTime.msec ≠ last.dateTime.msec)).map row) := by
  have haux := filterAuxM_map hread (fun x => decide (x.dateTime.msec ≠ last.dateTime.msec)) []
  rw [eraseTime, List.filterM]
  simp only [bind, Except.bind, pure, Except.pure] at haux ⊢
  rw [haux, List.append_nil]
  simp only [List.reverse_reverse]

/-- What the rows of the range become. -/
theorem firstUnmatching_given (now : RpcDateTime) (hlast : params.isSinceLast = false) {st : Loop}
    {paths : List Bytes} {entryOf : RpcValue → Except String ShvJournalEntry}
    (hfirst : st.first_unmatching_entry = (pastUntil params entries).head?)
    (hread : ∀ x ∈ inRange params entries,
      entryOf (rowIn params.withPathsDict paths x) = .ok (readBack x)) :
    ∃ first_unmatching, firstUnmatching params st []
        ((inRange params entries).map (rowIn params.withPathsDict paths)) entryOf now =
      .ok (first_unmatching, [], (given params entries now).map (rowIn params.withPathsDict paths)) ∧
      (inRange params entries ≠ [] → first_unmatching.isSome = true) := by
  rw [firstUnmatching, List.getLast?_map, hfirst, given]
  cases hpast : pastUntil params entries with
  | cons u us =>
    have hkept : ∀ x, keptBack params entries now x = false := fun x => by
      rw [keptBack, hpast]
      rfl
    refine ⟨some u, ?_, fun _ => rfl⟩
    simp only [hkept, Bool.not_false, List.filter_true]
    rfl
  | nil =>
    cases hrange : (inRange params entries).getLast? with
    | none =>
      have hnil := List.getLast?_eq_none_iff.mp hrange
      rw [hnil]
      exact ⟨none, rfl, fun h => absurd rfl h⟩
    | some last =>
      have hkept : ∀ x, keptBack params entries now x = (isFresh now (readBack last) &&
          decide ((readBack x).dateTime.msec = (readBack last).dateTime.msec)) := fun x => by
        rw [keptBack, hpast, hrange]
        rfl
      refine ⟨some (readBack last), ?_, fun _ => rfl⟩
      simp only [hkept]
      simp only [Option.map_some, List.head?_nil, hlast, Bool.false_eq_true, if_false,
        hread last (List.mem_of_getLast? hrange), bind, Except.bind]
      cases hfresh : isFresh now (readBack last) with
      | false =>
        simp only [Bool.false_and, Bool.not_false, List.filter_true]
        rfl
      | true =>
        simp only [if_true, eraseTime_map hread, Bool.true_and, ← decide_not]
        rfl

/-- Without a limit and a snapshot the rows of the result are those of the given entries. -/
theorem getLog_given (h : Unlimited params entries) (hlast : params.isSinceLast = false)
    (hsorted : TimeSorted entries) (hgather : gather params entries = .ok snapshot)
    (now : RpcDateTime) (ignoreRecordCountLimit : Bool) :
    ∃ r paths, getLog entries params now ignoreRecordCountLimit = .ok r ∧
      r.logEntries = (given params entries now).map (rowIn params.withPathsDict paths) ∧
      ReadsPaths params.withPathsDict r.header.pathDict paths (inRange params entries) := by
  have hcollect := collect_eq hlast hsorted
  rw [hgather] at hcollect
  have hsize := length_inRange_add_length_le hsorted hgather
  have hlimit := h.limit
  have hint := Int32.toInt_lt params.recordCountLimit
  obtain ⟨paths, dict, hdict, hlog, -, hreads⟩ := exists_rows params.withPathsDict
    (inRange params entries) [] (by rw [List.length_nil]; omega)
  rw [List.append_nil] at hreads
  obtain ⟨first_unmatching, hfirst, hsome⟩ := firstUnmatching_given now hlast
    (h.first_unmatching_entry_eq hsorted hgather) fun x hx => hreads.rowEntry hx
  have hsnapshot : ∀ cache, snapshotRows params (loopEnd params entries snapshot) cache =
      ([], cache) := by
    intro cache
    rw [snapshotRows_eq hlast, snapshotResult, ShvGetLogParams.snapshotWanted, h.noSnapshot]
    rfl
  have hrows : ([] : RpcList) ++ (given params entries now).map
      (rowIn params.withPathsDict paths) ≠ [] → first_unmatching.isSome = true := by
    intro hne
    refine hsome fun hnil => hne ?_
    rw [given, hnil]
    rfl
  obtain ⟨times, htimes⟩ := exists_headerTimes hlast (loopEnd params entries snapshot) _ hrows
  rw [logRows] at hdict
  rw [getLog]
  simp only [hcollect, bind, Except.bind, h.result_log_eq hsorted hgather, hsnapshot, hdict, hlog,
    hfirst, htimes]
  exact ⟨_, paths, rfl, rfl, hreads⟩

/-! ## agreement -/

/-- `getLog` delivers the entry as a record: the loop takes it, and a row of the log stands for
it. -/
def DeliversRecord (entries : List ShvJournalEntry) (params : ShvGetLogParams)
    (now : RpcDateTime) (ignoreRecordCountLimit : Bool) (e : ShvJournalEntry) : Prop :=
  ∃ st r, collect params .start entries = .ok st ∧ e ∈ st.result_log ∧
    getLog entries params now ignoreRecordCountLimit = .ok r ∧
    ∃ row ∈ r.logEntries, IsRow params.withPathsDict r.header.pathDict row e

theorem IsRow.rowEntry {withPathsDict : Bool} {dict : RpcIMap} {row : RpcValue}
    (h : IsRow withPathsDict dict row e) :
    GetLog.rowEntry withPathsDict dict row = .ok (readBack e) := by
  obtain ⟨path, hpath, rfl⟩ := h
  exact fromRpcValueList_toRpcValueList hpath

theorem keptBack_congr {e' : ShvJournalEntry} (h : readBack e = readBack e') :
    keptBack params entries now e = keptBack params entries now e' := by
  rw [keptBack, keptBack, h]

theorem deliversRecord_iff (h : Unlimited params entries) (hlast : params.isSinceLast = false)
    (hsorted : TimeSorted entries) (ignoreRecordCountLimit : Bool) :
    DeliversRecord entries params now ignoreRecordCountLimit e ↔
      e ∈ inRange params entries ∧ keptBack params entries now e = false ∧
        ∃ snapshot, gather params entries = .ok snapshot := by
  have hcollect := collect_eq hlast hsorted
  cases hgather : gather params entries with
  | error error =>
    rw [hgather] at hcollect
    refine iff_of_false ?_ (by simp)
    rintro ⟨st, -, hst, -⟩
    rw [hcollect] at hst
    contradiction
  | ok snapshot =>
    rw [hgather] at hcollect
    obtain ⟨r, paths, hget, hlog, hreads⟩ :=
      getLog_given h hlast hsorted hgather now ignoreRecordCountLimit
    constructor
    · rintro ⟨st, r', hst, hmem, hget', row, hrow, hisRow⟩
      obtain rfl := Except.ok.inj (hcollect.symm.trans hst)
      obtain rfl := Except.ok.inj (hget.symm.trans hget')
      rw [h.result_log_eq hsorted hgather] at hmem
      refine ⟨hmem, ?_, snapshot, rfl⟩
      -- the row may be that of another entry, which is read back as this one is
      rw [hlog] at hrow
      obtain ⟨x, hx, rfl⟩ := List.mem_map.mp hrow
      obtain ⟨hrange, hkept⟩ := List.mem_filter.mp hx
      have hread := Except.ok.inj (hisRow.rowEntry.symm.trans (hreads.rowEntry hrange))
      rw [keptBack_congr hread]
      simpa using hkept
    · rintro ⟨hmem, hkept, -⟩
      refine ⟨_, r, hcollect, ?_, hget, rowIn params.withPathsDict paths e, ?_, _,
        hreads e hmem, rfl⟩
      · rw [h.result_log_eq hsorted hgather]
        exact hmem
      · rw [hlog]
        exact List.mem_map_of_mem (List.mem_filter.mpr ⟨hmem, by simpa using hkept⟩)

/-- For an entry of a sorted log the filter and `getLog` agree exactly when, if the pattern takes
it and its time is in the range of the filter, the time is no end of the range, the snapshot can
be gathered and the record is not kept back. -/
theorem logFilter_agrees_iff (params : ShvGetLogParams) (entries : List ShvJournalEntry)
    (now : RpcDateTime) (ignoreRecordCountLimit : Bool) (e : ShvJournalEntry)
    (hlast : params.isSinceLast = false) (hunlimited : Unlimited params entries)
    (hsorted : TimeSorted entries) (hmem : e ∈ entries) (hpos : 0 < e.epochMsec) :
    ((ShvLogFilter.ofParams params).matchEntry e = true ↔
        DeliversRecord entries params now ignoreRecordCountLimit e) ↔
      (params.matchesEntry e = true → FilterRange params e.epochMsec →
        ¬AtEnd params e.epochMsec ∧ keptBack params entries now e = false ∧
          ∃ snapshot, gather params entries = .ok snapshot) := by
  rw [matchEntry_iff hpos, deliversRecord_iff hunlimited hlast hsorted, mem_inRange]
  constructor
  · intro hagree hmatch hrange
    obtain ⟨⟨-, -, hinside⟩, hkept, hgather⟩ := hagree.mp ⟨hmatch, hrange⟩
    exact ⟨(inside_iff hpos hrange).mp hinside, hkept, hgather⟩
  · intro h
    constructor
    · rintro ⟨hmatch, hrange⟩
      obtain ⟨hend, hkept, hgather⟩ := h hmatch hrange
      exact ⟨⟨hmem, hmatch, (inside_iff hpos hrange).mpr hend⟩, hkept, hgather⟩
    · rintro ⟨⟨-, hmatch, hsince, huntil⟩, -⟩
      exact ⟨hmatch, filterRange_of_inside hsince huntil⟩

/-- All the changes between two times. -/
def between (since until_ : Int64) : ShvGetLogParams where
  since := .ofVariant (.dateTime (.fromMSecsSinceEpoch since 0))
  until_ := .ofVariant (.dateTime (.fromMSecsSinceEpoch until_ 0))
  pattern := fun _ _ => true
  recordCountLimit := 1000
  withSnapshot := false
  withPathsDict := false

theorem logFilter_agrees_inside :
    ((ShvLogFilter.ofParams (between 1 3)).matchEntry (changeAt 2 (ascii "a")) = true ↔
      DeliversRecord [changeAt 2 (ascii "a")] (between 1 3) (.fromMSecsSinceEpoch 5000 0) false
        (changeAt 2 (ascii "a"))) ∧
    (ShvLogFilter.ofParams (between 1 3)).matchEntry (changeAt 2 (ascii "a")) = true :=
  ⟨(logFilter_agrees_iff (between 1 3) [changeAt 2 (ascii "a")] (.fromMSecsSinceEpoch 5000 0) false
      (changeAt 2 (ascii "a")) rfl ⟨by decide, rfl⟩ (by decide) List.mem_cons_self (by decide)).mpr
    fun _ hrange => ⟨(inside_iff (by decide) hrange).mp (by decide), rfl, [], rfl⟩, by decide⟩

/-- The filter takes an entry at `until`, which the log does not have. -/
theorem logFilter_takes_until :
    ¬((ShvLogFilter.ofParams (between 1 2)).matchEntry (changeAt 2 (ascii "a")) = true ↔
      DeliversRecord [changeAt 2 (ascii "a")] (between 1 2) (.fromMSecsSinceEpoch 5000 0) false
        (changeAt 2 (ascii "a"))) := by
  intro hagree
  have hmatch : (ShvLogFilter.ofParams (between 1 2)).matchEntry (changeAt 2 (ascii "a")) = true :=
    by decide
  have hdelivers := (deliversRecord_iff ⟨by decide, rfl⟩ rfl (by decide) false).mp
    (hagree.mp hmatch)
  have hout : changeAt 2 (ascii "a") ∉ inRange (between 1 2) [changeAt 2 (ascii "a")] := by
    rw [mem_inRange]
    exact fun h => absurd h.2.2.2 (by decide)
  exact hout hdelivers.1

end GetLog

end LibShv
