import LibShv.ShvLogRpcValueReader
import LibShv.GetLog.Snapshot
import LibShv.GetLog.Paging

/-!
# LibShv.GetLog.Reading

What a reader finds in the log that was asked for: the last values of the paths, and
then the entries of the range. The loop adds an entry to the snapshot before it looks
at `until`. With `since` = last this is also done for the entry that it ends at, and
the answer is the one that was asked for only if this entry changes nothing.
-/

namespace LibShv.GetLog

variable {params : ShvGetLogParams} {entries : List ShvJournalEntry} {now : RpcDateTime}

/-! ## what is asked for -/

/-- The entries that the snapshot is made of: those up to `since`, or up to `until` when `since`
is last. -/
def askedSnapshot (params : ShvGetLogParams) (entries : List ShvJournalEntry) :
    List ShvJournalEntry :=
  entries.filter fun e => params.matchesEntry e &&
    (if params.isSinceLast then decide (e.epochMsec < params.untilMsec)
      else decide (e.epochMsec ≤ params.sinceMsec))

/-- The entries after the snapshot. -/
def askedLog (params : ShvGetLogParams) (entries : List ShvJournalEntry) : List ShvJournalEntry :=
  if params.isSinceLast then [] else inRange params entries

/-- An entry in a snapshot of the time `t`. -/
def inSnapshot (t : Int64) (e : ShvJournalEntry) : ShvJournalEntry :=
  ({ e with epochMsec := t }.setSnapshotValue true).setSpontaneous false

/-- The entries of a journal that a row can hold. -/
structure WellFormed (e : ShvJournalEntry) : Prop where
  path : e.path ≠ []
  domain : e.domain ≠ []
  abbreviation : e.domain ≠ ascii "C"
  shortTime : e.shortTime = ShvJournalEntry.NO_SHORT_TIME ∨ 0 ≤ e.shortTime

/-- A call with a snapshot, since a time or since last, at least a second after every entry. -/
structure Asked (entries : List ShvJournalEntry) (params : ShvGetLogParams) (now : RpcDateTime) :
    Prop where
  sorted : TimeSorted entries
  length : entries.length < 2 ^ 31
  wellFormed : ∀ e ∈ entries, WellFormed e
  time : ∀ e ∈ entries, 0 < e.epochMsec ∧ e.epochMsec.toInt + 1000 ≤ now.msec.toInt
  withSnapshot : params.withSnapshot = true
  since : params.isSinceLast = true ∨ ∃ dt, params.since.value = .dateTime dt
  until_ : params.isSinceLast = false → params.sinceMsec < params.untilMsec

/-- A reader finds the last value of every path, in any order and under one time, and then the
entries of the range. -/
def AnswersParams (entries : List ShvJournalEntry) (params : ShvGetLogParams) (now : RpcDateTime)
    (ignoreRecordCountLimit : Bool) : Prop :=
  ∃ (r : GetLogResult) (snapshot : List ShvJournalEntry) (t : Int64),
    getLog entries params now ignoreRecordCountLimit = .ok r ∧
    ShvLogRpcValueReader.entries r.header.pathDict r.entries =
      .ok (snapshot.map (inSnapshot t) ++ askedLog params entries) ∧
    (params.isSinceLast = false → t = params.sinceMsec) ∧
    (snapshot.map (·.path)).Nodup ∧
    ∀ e, e ∈ snapshot ↔ IsLastValue (askedSnapshot params entries) e.path e

/-! ## reading rows -/

theorem reader_unmapPath {withPathsDict : Bool} {dict : RpcIMap} {i : Nat} {p : Bytes}
    (h : unmapPath withPathsDict dict (if withPathsDict then pathNumber i
      else .ofVariant (.string p)) = .ok p) :
    ShvLogRpcValueReader.unmapPath dict (if withPathsDict then pathNumber i
      else .ofVariant (.string p)) = .ok p := by
  cases withPathsDict with
  | false => rfl
  | true =>
    simp only [if_true, pathNumber, unmapPath, RpcValue.toInt_ofInt32, bind, Except.bind] at h ⊢
    simp only [ShvLogRpcValueReader.unmapPath, RpcValue.ofInt32, RpcValue.value_ofVariant]
    rw [← RpcValue.ofInt32, RpcValue.toInt_ofInt32]
    cases hfind : SortedMap.find? (Int32.ofNat i) dict with
    | none => simp [hfind] at h
    | some path => simpa [hfind, bind, Except.bind] using h

/-- The rows of entries with a path are read one by one. -/
theorem reader_entries {withPathsDict : Bool} {dict : RpcIMap} {paths : List Bytes}
    {es : List ShvJournalEntry} (h : ReadsPaths withPathsDict dict paths es)
    (hpath : ∀ e ∈ es, e.path ≠ []) :
    ShvLogRpcValueReader.entries dict (es.map (rowIn withPathsDict paths)) =
      .ok (es.map readBack) := by
  induction es with
  | nil => rfl
  | cons e es ih =>
    have hne := hpath e List.mem_cons_self
    have hrow : ShvJournalEntry.fromRpcValueList (rowIn withPathsDict paths e).asList
        (ShvLogRpcValueReader.unmapPath dict) = .ok (readBack e) :=
      fromRpcValueList_toRpcValueList (reader_unmapPath (h e List.mem_cons_self))
    have hread : (readBack e).path ≠ [] := by
      rw [readBack, if_neg hne]
      exact hne
    rw [List.map_cons, ShvLogRpcValueReader.entries, hrow,
      ih (fun e he => h e (List.mem_cons_of_mem _ he))
        fun e he => hpath e (List.mem_cons_of_mem _ he)]
    simp only [bind, Except.bind, pure, Except.pure, if_neg hread, List.map_cons]

/-- A time as a date-time holds it. -/
def heldTime (t : Int64) : Int64 := (RpcDateTime.fromMSecsSinceEpoch t 0).msecsSinceEpoch

theorem WellFormed.readBack {e : ShvJournalEntry} (h : WellFormed e) :
    readBack e = { e with epochMsec := heldTime e.epochMsec } := by
  have hshort : (if 0 ≤ e.shortTime then e.shortTime else ShvJournalEntry.NO_SHORT_TIME) =
      e.shortTime := by
    rcases h.shortTime with hno | hle
    · rw [hno]
      decide
    · rw [if_pos hle]
  rw [GetLog.readBack, if_neg h.path, hshort, if_neg (not_or.mpr ⟨h.domain, h.abbreviation⟩)]
  rfl

theorem WellFormed.inSnapshot {e : ShvJournalEntry} (h : WellFormed e) (t : Int64) :
    WellFormed (inSnapshot t e) :=
  ⟨h.path, h.domain, h.abbreviation, h.shortTime⟩

theorem readBack_inSnapshot {e : ShvJournalEntry} (h : WellFormed e) (t : Int64) :
    readBack (inSnapshot t e) = inSnapshot (heldTime t) e :=
  (h.inSnapshot t).readBack

theorem readBack_of_fits {e : ShvJournalEntry} (h : WellFormed e) (hfits : FitsDateTime e) :
    readBack e = e := by
  have htime : heldTime e.epochMsec = e.epochMsec := msecsSinceEpoch_dateTime hfits
  rw [h.readBack, htime]

/-! ## since last -/

theorem collect_pastUntil_last (hlast : params.isSinceLast = true) {C : List ShvJournalEntry}
    (hC : ∀ e ∈ C, params.matchesEntry e = true ∧ params.untilMsec ≤ e.epochMsec) (st : Loop) :
    collect params st C =
      match (C.take 1).foldlM addToSnapshot st.snapshot with
      | .error e => .error e
      | .ok snapshot => .ok { st with
          snapshot := snapshot
          first_unmatching_entry := C.head?.or st.first_unmatching_entry } := by
  cases C with
  | nil => rfl
  | cons c C =>
    obtain ⟨hm, huntil⟩ := hC c List.mem_cons_self
    rw [collect, if_pos hm, step]
    simp only [hlast, Bool.true_or, if_true, List.take_succ_cons, List.take_zero, List.head?_cons,
      Option.some_or, List.foldlM_cons, List.foldlM_nil]
    cases h : addToSnapshot st.snapshot c with
    | error e => simp [bind, Except.bind]
    | ok snapshot => simp [bind, Except.bind, huntil, pure, Except.pure]

theorem mem_askedSnapshot_last (hlast : params.isSinceLast = true) {e : ShvJournalEntry} :
    e ∈ askedSnapshot params entries ↔
      e ∈ entries ∧ params.matchesEntry e = true ∧ e.epochMsec < params.untilMsec := by
  simp [askedSnapshot, hlast]

/-- With since last every entry that matches is asked for, or past `until`. -/
theorem spans_append_last (hlast : params.isSinceLast = true) (hsorted : TimeSorted entries) :
    askedSnapshot params entries ++ pastUntil params entries =
      entries.filter params.matchesEntry := by
  have huntil := Batch.filter_append_of_sorted (List.Pairwise.filter params.matchesEntry hsorted)
    (fun e => decide (e.epochMsec < params.untilMsec)) fun a b hab hb => by
      simp only [decide_eq_true_eq] at hb ⊢
      exact Int64.lt_of_le_of_lt hab hb
  rw [List.filter_filter, List.filter_filter] at huntil
  rw [← huntil, askedSnapshot, pastUntil]
  congr 1
  · refine List.filter_congr fun e _ => ?_
    rw [if_pos hlast, Bool.and_comm]
  · refine List.filter_congr fun e _ => ?_
    have hnot : (!decide (e.epochMsec < params.untilMsec)) =
        decide (params.untilMsec ≤ e.epochMsec) := by
      rw [← decide_not]
      exact decide_eq_decide.mpr Int64.not_lt
    rw [hnot, Bool.and_comm]

/-- The snapshot of the loop: the entry it ends at is in it. -/
def gatherLast (params : ShvGetLogParams) (entries : List ShvJournalEntry) :
    Except String ShvSnapshot :=
  (askedSnapshot params entries ++ (pastUntil params entries).take 1).foldlM addToSnapshot []

/-- The variables of the loop where it ends when `since` is last: it keeps no entries. -/
def lastEnd (params : ShvGetLogParams) (entries : List ShvJournalEntry) (snapshot : ShvSnapshot) :
    Loop where
  snapshot := snapshot
  result_log := []
  recordCountLimitHit := false
  last_entry := (askedSnapshot params entries).getLast?
  first_unmatching_entry := (pastUntil params entries).head?
  have_data_before_since_param := !(askedSnapshot params entries).isEmpty

theorem collect_last (hlast : params.isSinceLast = true) (hsorted : TimeSorted entries) :
    collect params .start entries =
      match gatherLast params entries with
      | .error e => .error e
      | .ok snapshot => .ok (lastEnd params entries snapshot) := by
  have hspan : ∀ e ∈ askedSnapshot params entries, params.matchesEntry e = true ∧
      (params.isSinceLast || decide (e.epochMsec ≤ params.sinceMsec)) = true ∧
      e.epochMsec < params.untilMsec := by
    intro e he
    obtain ⟨-, hm, huntil⟩ := (mem_askedSnapshot_last hlast).mp he
    exact ⟨hm, by rw [hlast, Bool.true_or], huntil⟩
  rw [collect_filter, ← spans_append_last hlast hsorted, collect_before hspan, gatherLast,
    List.foldlM_append]
  simp only [Loop.start]
  cases (askedSnapshot params entries).foldlM addToSnapshot [] with
  | error e => rfl
  | ok snapshot =>
    simp only [bind, Except.bind, collect_pastUntil_last hlast fun e he => (mem_pastUntil.mp he).2,
      Option.or_none, Bool.false_or, lastEnd]

theorem length_gatherLast_le (hlast : params.isSinceLast = true) (hsorted : TimeSorted entries)
    {snapshot : ShvSnapshot} (h : gatherLast params entries = .ok snapshot) :
    snapshot.length ≤ entries.length := by
  have hsnapshot := length_foldlM_addToSnapshot_le h
  have hspans := congrArg List.length (spans_append_last hlast hsorted)
  have hfilter := List.length_filter_le params.matchesEntry entries
  have htake := List.length_take_le' 1 (pastUntil params entries)
  rw [List.length_append, List.length_nil] at hsnapshot
  rw [List.length_append] at hspans
  omega

/-- Without records the rows of the snapshot stay as they are. -/
theorem firstUnmatching_nil {st : Loop} {paths : List Bytes} {dict : RpcIMap}
    {es : List ShvJournalEntry} (hreads : ReadsPaths params.withPathsDict dict paths ([] ++ es)) :
    ∃ first, firstUnmatching params st (es.map (rowIn params.withPathsDict paths)) []
      (rowEntry params.withPathsDict dict) now =
        .ok (first, es.map (rowIn params.withPathsDict paths), []) := by
  rw [firstUnmatching, List.getLast?_map, List.getLast?_nil]
  cases st.first_unmatching_entry with
  | some e => exact ⟨_, rfl⟩
  | none =>
    cases hes : es.getLast? with
    | none => exact ⟨_, rfl⟩
    | some e =>
      have hmem : e ∈ [] ++ es := List.mem_of_getLast? hes
      simp only [Option.map_some, hreads.rowEntry hmem, bind, Except.bind, pure, Except.pure]
      exact ⟨_, rfl⟩

theorem exists_headerTimes_last (hlast : params.isSinceLast = true) (st : Loop)
    (first : Option ShvJournalEntry) (rows : RpcList) :
    ∃ times, headerTimes params st first rows = .ok times := by
  cases rows with
  | nil => exact ⟨_, rfl⟩
  | cons row rows =>
    simp only [headerTimes, hlast, if_true]
    exact ⟨_, rfl⟩

/-- With since last the rows are those of the snapshot. -/
theorem getLog_last (hlast : params.isSinceLast = true) (hwanted : params.snapshotWanted = true)
    (hsorted : TimeSorted entries) (hlen : entries.length < 2 ^ 31) {snapshot : ShvSnapshot}
    (hgather : gatherLast params entries = .ok snapshot) (ignoreRecordCountLimit : Bool) :
    ∃ r, getLog entries params now ignoreRecordCountLimit = .ok r ∧
      r.header.recordCountLimitHit = false ∧
      HasRows params r (snapshotToEntries snapshot true params.sinceMsec) [] := by
  have hcollect := collect_last hlast hsorted
  rw [hgather] at hcollect
  have hsize := length_gatherLast_le hlast hsorted hgather
  have hresult : (snapshotToEntries snapshot true params.sinceMsec).length = snapshot.length := by
    simp [snapshotToEntries]
  obtain ⟨paths, dict, hdict, hlog, hsnapshot, hreads⟩ := exists_rows params.withPathsDict
    [] (snapshotToEntries snapshot true params.sinceMsec) (by simp only [List.length_nil]; omega)
  obtain ⟨first, hfirst⟩ :=
    @firstUnmatching_nil params now (lastEnd params entries snapshot) paths dict _ hreads
  obtain ⟨times, htimes⟩ := exists_headerTimes_last hlast (lastEnd params entries snapshot) first
    ((snapshotToEntries snapshot true params.sinceMsec).map (rowIn params.withPathsDict paths) ++ [])
  have hrows : snapshotRows params (lastEnd params entries snapshot)
      (logRows params.withPathsDict [] []).2 = logRows params.withPathsDict
        (logRows params.withPathsDict [] []).2
        (snapshotToEntries snapshot true params.sinceMsec) := by
    rw [snapshotRows, if_pos hwanted, hlast]
    rfl
  have hempty : (lastEnd params entries snapshot).result_log = [] := rfl
  rw [getLog]
  simp only [hcollect, bind, Except.bind, hempty, hrows, hdict, hlog, hsnapshot, List.map_nil,
    hfirst, htimes]
  exact ⟨_, rfl, rfl, paths, rfl, rfl, hreads⟩

/-! ## reading the result -/

/-- The reader finds the entries in the rows, as their columns hold them. -/
theorem HasRows.read {r : GetLogResult} {snapshot log : List ShvJournalEntry}
    (h : HasRows params r snapshot log) (hpath : ∀ e ∈ snapshot ++ log, e.path ≠ []) :
    ShvLogRpcValueReader.entries r.header.pathDict r.entries =
      .ok ((snapshot ++ log).map readBack) := by
  obtain ⟨paths, hsnapshot, hlog, hreads⟩ := h
  rw [GetLogResult.entries, hsnapshot, hlog, ← List.map_append]
  refine reader_entries (fun e he => hreads e ?_) hpath
  exact List.mem_append.mpr (List.mem_append.mp he).symm

/-- The entries of a snapshot. -/
def values (snapshot : ShvSnapshot) : List ShvJournalEntry := snapshot.map (·.2)

theorem exists_snapshotToEntries (snapshot : ShvSnapshot) (since_last : Bool) (since : Int64) :
    ∃ t, (since_last = false → t = since) ∧
      snapshotToEntries snapshot since_last since = (values snapshot).map (inSnapshot t) := by
  cases since_last with
  | false =>
    refine ⟨since, fun _ => rfl, ?_⟩
    rw [snapshotToEntries, values, List.map_map]
    rfl
  | true =>
    refine ⟨snapshot.foldl (fun t kv => max kv.2.epochMsec t) since, fun h => absurd h (by decide), ?_⟩
    rw [snapshotToEntries, values, List.map_map]
    rfl

section
variable {span : List ShvJournalEntry} {snapshot : ShvSnapshot}

theorem mem_values_iff (h : span.foldlM addToSnapshot [] = .ok snapshot) (e : ShvJournalEntry) :
    e ∈ values snapshot ↔ IsLastValue span e.path e := by
  obtain ⟨-, hmem⟩ := snapshot_of_span h
  rw [values, List.mem_map]
  constructor
  · rintro ⟨⟨path, e'⟩, hin, rfl⟩
    have hlast := (hmem path e').mp hin
    obtain ⟨_, _, _, hpath, _⟩ := id hlast
    simpa only [hpath] using hlast
  · exact fun hlast => ⟨_, (hmem e.path e).mpr hlast, rfl⟩

/-- The keys of a snapshot are the paths of its entries. -/
theorem path_of_mem (h : span.foldlM addToSnapshot [] = .ok snapshot) {kv : Bytes × ShvJournalEntry}
    (hkv : kv ∈ snapshot) : kv.2.path = kv.1 := by
  obtain ⟨_, _, _, hpath, _⟩ := ((snapshot_of_span h).2 kv.1 kv.2).mp hkv
  exact hpath

theorem nodup_paths (h : span.foldlM addToSnapshot [] = .ok snapshot) :
    ((values snapshot).map (·.path)).Nodup := by
  have hkeys : (values snapshot).map (·.path) = snapshot.map (·.1) := by
    rw [values, List.map_map]
    exact List.map_congr_left fun kv hkv => path_of_mem h hkv
  rw [hkeys]
  exact (snapshot_of_span h).1.keys_nodup

theorem mem_of_mem_values (h : span.foldlM addToSnapshot [] = .ok snapshot) {e : ShvJournalEntry}
    (he : e ∈ values snapshot) : e ∈ span := by
  obtain ⟨earlier, later, rfl, -⟩ := (mem_values_iff h e).mp he
  simp

end

/-- What the reader finds when the snapshot is made of the span. -/
theorem HasRows.read_snapshot {r : GetLogResult} {span log : List ShvJournalEntry}
    {snapshot : ShvSnapshot} {since_last : Bool} {since : Int64}
    (h : HasRows params r (snapshotToEntries snapshot since_last since) log)
    (hgather : span.foldlM addToSnapshot [] = .ok snapshot) (hspan : ∀ e ∈ span, WellFormed e)
    (hlog : ∀ e ∈ log, WellFormed e ∧ FitsDateTime e) :
    ∃ t, (since_last = false → t = heldTime since) ∧
      ShvLogRpcValueReader.entries r.header.pathDict r.entries =
        .ok ((values snapshot).map (inSnapshot t) ++ log) := by
  obtain ⟨t, ht, hentries⟩ := exists_snapshotToEntries snapshot since_last since
  have hwell : ∀ e ∈ values snapshot, WellFormed e := fun e he =>
    hspan e (mem_of_mem_values hgather he)
  have hpath : ∀ e ∈ snapshotToEntries snapshot since_last since ++ log, e.path ≠ [] := by
    intro e he
    rcases List.mem_append.mp he with he | he
    · rw [hentries] at he
      obtain ⟨e', he', rfl⟩ := List.mem_map.mp he
      exact ((hwell e' he').inSnapshot t).path
    · exact (hlog e he).1.path
  refine ⟨heldTime t, fun hlast => by rw [ht hlast], ?_⟩
  rw [h.read hpath, List.map_append, hentries, List.map_map]
  congr 2
  · exact List.map_congr_left fun e he => readBack_inSnapshot (hwell e he) t
  · exact (List.map_congr_left fun e he => readBack_of_fits (hlog e he).1 (hlog e he).2).trans
      (List.map_id log)

/-! ## since a time -/

namespace Asked

variable (h : Asked entries params now)
include h

theorem fits {e : ShvJournalEntry} (he : e ∈ entries) : FitsDateTime e := by
  obtain ⟨hpos, hnow⟩ := h.time e he
  have hlt := BitVec.toInt_lt (x := now.msec)
  have h0 : Int64.toInt 0 = 0 := rfl
  rw [Int64.lt_iff_toInt_lt, h0] at hpos
  exact ⟨by omega, by omega⟩

theorem farFrom {e : ShvJournalEntry} (he : e ∈ entries) : FarFrom now e := by
  have hmsec : e.dateTime.msec.toInt = e.epochMsec.toInt := toInt_timeKey (h.fits he)
  obtain ⟨-, hnow⟩ := h.time e he
  refine ⟨?_, fun hpath => absurd hpath (h.wellFormed e he).path⟩
  rw [isFresh, hmsec, decide_eq_false_iff_not]
  omega

theorem snapshotWanted : params.snapshotWanted = true := by
  rw [ShvGetLogParams.snapshotWanted, h.withSnapshot, Bool.true_and, RpcValue.isValid]
  rcases h.since with hlast | ⟨dt, hdt⟩
  · cases hvalue : params.since.value with
    | invalid =>
      have hstring : params.since.asString = [] := by rw [RpcValue.asString, hvalue]
      rw [ShvGetLogParams.isSinceLast, hstring] at hlast
      exact absurd hlast (by decide)
    | _ => rfl
  · rw [hdt]
    rfl

/-- The time of the snapshot is one of a date-time. -/
theorem heldTime_sinceMsec (hlast : params.isSinceLast = false) :
    heldTime params.sinceMsec = params.sinceMsec := by
  obtain ⟨dt, hdt⟩ := h.since.resolve_left (by rw [hlast]; nofun)
  have hlt := BitVec.toInt_lt (x := dt.msec)
  have hle := BitVec.le_toInt (x := dt.msec)
  have hsince : params.sinceMsec = dt.msecsSinceEpoch := by
    rw [ShvGetLogParams.sinceMsec, RpcValue.dateTime?, hdt]
  have hint : (Int64.ofInt dt.msec.toInt).toInt = dt.msec.toInt :=
    Int64.toInt_ofInt_of_le (by omega) (by omega)
  rw [hsince, heldTime, RpcDateTime.fromMSecsSinceEpoch, RpcDateTime.msecsSinceEpoch,
    RpcDateTime.msecsSinceEpoch, hint, BitVec.ofInt_toInt]

/-- With `since` before `until` the loop does not end at an entry of the snapshot. -/
theorem snapshotSpan_eq (hlast : params.isSinceLast = false) :
    snapshotSpan params entries = askedSnapshot params entries := by
  have hlt := h.until_ hlast
  have hlate : ((pastUntil params entries).take 1).filter
      (fun e => e.epochMsec ≤ params.sinceMsec) = [] := by
    rw [List.filter_eq_nil_iff]
    intro e he
    obtain ⟨-, -, huntil⟩ := mem_pastUntil.mp (List.mem_of_mem_take he)
    simpa using Int64.not_le.mpr (Int64.lt_of_lt_of_le hlt huntil)
  rw [snapshotSpan, hlate, List.append_nil, before, askedSnapshot]
  refine List.filter_congr fun e _ => ?_
  rw [hlast, if_neg Bool.false_ne_true]
  by_cases hle : e.epochMsec ≤ params.sinceMsec
  · rw [decide_eq_true hle, decide_eq_true (Int64.lt_of_le_of_lt hle hlt), Bool.and_true]
  · rw [decide_eq_false hle, Bool.and_false, Bool.false_and]

end Asked

/-- Where the limit is not hit the whole range is kept. -/
theorem result_log_of_not_hit {snapshot : ShvSnapshot}
    (h : (loopEnd params entries snapshot).recordCountLimitHit = false) :
    (loopEnd params entries snapshot).result_log = inRange params entries := by
  refine Batch.take_eq_self (Batch.rest_eq_nil_iff.mpr fun m hm => ?_)
  have hpos := Batch.lt_of_mem_stops hm
  have hle := Batch.le_of_mem_stops hm
  rw [Nat.zero_add] at hle
  have hne : (inRange params entries).isEmpty = false := by
    cases hr : inRange params entries with
    | nil =>
      rw [hr] at hle
      exact absurd hpos (by simpa using hle)
    | cons e es => rfl
  have hover : overRequested params snapshot (inRange params entries).length = false := by
    simpa [loopEnd, hne] using h
  by_contra hm'
  rw [overRequested_mono params m _ hle (by simpa using hm')] at hover
  contradiction

theorem mem_of_mem_askedSnapshot {e : ShvJournalEntry} (he : e ∈ askedSnapshot params entries) :
    e ∈ entries := List.mem_of_mem_filter he

/-- With `since` a time the answer is the one asked for, if the snapshot can be gathered. -/
theorem answersParams_iff_of_time (h : Asked entries params now)
    (hlast : params.isSinceLast = false) (ignoreRecordCountLimit : Bool)
    (hlimit : ∀ r, getLog entries params now ignoreRecordCountLimit = .ok r →
      r.header.recordCountLimitHit = false) :
    AnswersParams entries params now ignoreRecordCountLimit ↔
      ∃ snapshot, (askedSnapshot params entries).foldlM addToSnapshot [] = .ok snapshot := by
  have hgather : gather params entries =
      (askedSnapshot params entries).foldlM addToSnapshot [] := by
    rw [gather, h.snapshotSpan_eq hlast]
  cases hfold : (askedSnapshot params entries).foldlM addToSnapshot [] with
  | error error =>
    refine iff_of_false ?_ (by simp)
    rintro ⟨r, -, -, hget, -⟩
    rw [getLog_of_gather_error hlast h.sorted (hgather.trans hfold)] at hget
    contradiction
  | ok snapshot =>
    refine iff_of_true ?_ ⟨snapshot, rfl⟩
    have hfar : ∀ e, (inRange params entries).getLast? = some e → FarFrom now e := fun e he =>
      h.farFrom (mem_inRange.mp (List.mem_of_getLast? he)).1
    obtain ⟨r, hget, hresult, hrows⟩ := getLog_rows_of_gather hlast h.sorted h.length
      (hgather.trans hfold) hfar ignoreRecordCountLimit
    rw [result_log_of_not_hit (hresult.hit ▸ hlimit r hget), snapshotResult,
      if_pos h.snapshotWanted] at hrows
    obtain ⟨t, ht, hread⟩ := hrows.read_snapshot hfold
      (fun e he => h.wellFormed e (mem_of_mem_askedSnapshot he))
      fun e he => ⟨h.wellFormed e (mem_inRange.mp he).1, h.fits (mem_inRange.mp he).1⟩
    refine ⟨r, values snapshot, t, hget, ?_, fun _ => ?_, nodup_paths hfold, mem_values_iff hfold⟩
    · rw [hread, askedLog, hlast, if_neg Bool.false_ne_true]
    · rw [ht rfl, h.heldTime_sinceMsec hlast]

/-! ## the entry the loop ends at -/

/-- Adding the entry to the snapshot changes nothing but a time. -/
def Idle (snapshot : ShvSnapshot) (a : ShvJournalEntry) : Prop :=
  a.domain ≠ ShvJournalEntry.DOMAIN_VAL_CHANGE ∨
    (a.IsDrop ∧ ∀ kv ∈ snapshot, ¬Covers a.path kv.1) ∨
    (a.IsValueChange ∧ ∃ e, (a.path, e) ∈ snapshot ∧ inSnapshot 0 e = inSnapshot 0 a)

/-- A map without keys in the directory stays as it is. -/
theorem deleteDirAndSubdirs_eq_self {dir : Bytes} {snapshot : ShvSnapshot}
    (hsorted : SortedMap.Sorted snapshot) (h : ∀ kv ∈ snapshot, ¬Covers dir kv.1) :
    snapshot.deleteDirAndSubdirs dir = snapshot := by
  refine (ShvSnapshot.deleteDirAndSubdirs_sublist dir snapshot).eq_of_length_le ?_
  have hnodup : snapshot.Nodup := hsorted.keys_nodup.of_map
  refine (List.subperm_of_subset hnodup fun kv hkv => ?_).length_le
  exact (ShvSnapshot.mem_deleteDirAndSubdirs hsorted kv).mpr ⟨hkv, h kv hkv⟩

/-- An idle entry leaves the values as they are, but for their times. -/
theorem Idle.addToSnapshot {snapshot : ShvSnapshot} {a : ShvJournalEntry} (h : Idle snapshot a)
    (hsorted : SortedMap.Sorted snapshot) :
    ∃ snapshot', LibShv.addToSnapshot snapshot a = .ok snapshot' ∧
      (values snapshot').map (inSnapshot 0) = (values snapshot).map (inSnapshot 0) := by
  rcases h with hdom | ⟨hdrop, hnone⟩ | ⟨hval, e, hmem, hsame⟩
  · exact ⟨snapshot, if_pos hdom, rfl⟩
  · have hadd : LibShv.addToSnapshot snapshot a = .ok (snapshot.deleteDirAndSubdirs a.path) := by
      rw [LibShv.addToSnapshot, if_neg (not_not.mpr hdrop.1), hdrop.2]
      rfl
    rw [deleteDirAndSubdirs_eq_self hsorted hnone] at hadd
    exact ⟨snapshot, hadd, rfl⟩
  · have hadd : LibShv.addToSnapshot snapshot a = .ok (SortedMap.insert a.path a snapshot) := by
      rw [LibShv.addToSnapshot, if_neg (not_not.mpr hval.1), hval.2]
      rfl
    refine ⟨_, hadd, ?_⟩
    rw [values, values, List.map_map, List.map_map]
    exact SortedMap.map_insert_of_mem hsorted hmem (inSnapshot 0) hsame

/-- Entries that are the same at one time are so at every time. -/
theorem map_inSnapshot {es es' : List ShvJournalEntry} {t t' : Int64}
    (h : es.map (inSnapshot t) = es'.map (inSnapshot t)) :
    es.map (inSnapshot t') = es'.map (inSnapshot t') := by
  have htime := congrArg (List.map fun e : ShvJournalEntry => { e with epochMsec := t' }) h
  rw [List.map_map, List.map_map] at htime
  exact htime

theorem path_of_inSnapshot_eq {t : Int64} {e e' : ShvJournalEntry}
    (h : inSnapshot t e = inSnapshot t e') : e.path = e'.path := by
  have hpath : ∀ e : ShvJournalEntry, (inSnapshot t e).path = e.path := fun _ => rfl
  rw [← hpath e, h, hpath e']

theorem getLog_of_gatherLast_error (hlast : params.isSinceLast = true)
    (hsorted : TimeSorted entries) {error : String}
    (hgather : gatherLast params entries = .error error) (ignoreRecordCountLimit : Bool) :
    getLog entries params now ignoreRecordCountLimit = .error error := by
  have hcollect := collect_last hlast hsorted
  rw [hgather] at hcollect
  rw [getLog]
  simp only [hcollect, bind, Except.bind]

/-- If the values are those of the span after all, then the entry was idle. -/
theorem idle_of_values {span : List ShvJournalEntry} {snapshot snapshot' : ShvSnapshot}
    {a : ShvJournalEntry} (hgather : span.foldlM addToSnapshot [] = .ok snapshot)
    (hadd : addToSnapshot snapshot a = .ok snapshot') {found : List ShvJournalEntry}
    (hfound : ∀ e, e ∈ found ↔ IsLastValue span e.path e)
    (hvalues : (values snapshot').map (inSnapshot 0) = found.map (inSnapshot 0)) :
    Idle snapshot a := by
  have hmem : ∀ e, e ∈ found ↔ e ∈ values snapshot := fun e =>
    (hfound e).trans (mem_values_iff hgather e).symm
  have hsorted := (snapshot_of_span hgather).1
  rcases addToSnapshot_cases hadd with ⟨hdom, -⟩ | ⟨hdrop, rfl⟩ | ⟨hval, rfl⟩
  · exact .inl hdom
  · refine .inr (.inl ⟨hdrop, fun kv hkv hcov => ?_⟩)
    -- the value of the path is found, so it has not been dropped
    have hin : inSnapshot 0 kv.2 ∈ found.map (inSnapshot 0) :=
      List.mem_map_of_mem ((hmem kv.2).mpr (List.mem_map_of_mem hkv))
    rw [← hvalues] at hin
    obtain ⟨e, he, hsame⟩ := List.mem_map.mp hin
    obtain ⟨kv', hkv', rfl⟩ := List.mem_map.mp he
    obtain ⟨hkept, hnot⟩ := (ShvSnapshot.mem_deleteDirAndSubdirs hsorted kv').mp hkv'
    have hpath : kv'.2.path = kv.2.path := path_of_inSnapshot_eq hsame
    rw [path_of_mem hgather hkept, path_of_mem hgather hkv] at hpath
    exact hnot (hpath ▸ hcov)
  · refine .inr (.inr ⟨hval, ?_⟩)
    have hin : inSnapshot 0 a ∈ (values (SortedMap.insert a.path a snapshot)).map (inSnapshot 0) :=
      List.mem_map_of_mem
        (List.mem_map_of_mem ((SortedMap.mem_insert_iff hsorted (a.path, a)).mpr (.inl rfl)))
    rw [hvalues] at hin
    obtain ⟨e, he, hsame⟩ := List.mem_map.mp hin
    obtain ⟨kv, hkv, rfl⟩ := List.mem_map.mp ((hmem e).mp he)
    have hpath : kv.2.path = a.path := path_of_inSnapshot_eq hsame
    rw [path_of_mem hgather hkv] at hpath
    exact ⟨kv.2, hpath ▸ hkv, hsame⟩

theorem not_answersParams_of_error (h : Asked entries params now) (hlast : params.isSinceLast = true)
    {error : String} (hgather : gatherLast params entries = .error error)
    (ignoreRecordCountLimit : Bool) :
    ¬AnswersParams entries params now ignoreRecordCountLimit := by
  rintro ⟨r, -, -, hget, -⟩
  rw [getLog_of_gatherLast_error hlast h.sorted hgather] at hget
  contradiction

/-- What the reader finds, whatever the loop ended at. -/
theorem read_of_gatherLast (h : Asked entries params now) (hlast : params.isSinceLast = true)
    {snapshot : ShvSnapshot} (hgather : gatherLast params entries = .ok snapshot)
    (ignoreRecordCountLimit : Bool) :
    ∃ r t, getLog entries params now ignoreRecordCountLimit = .ok r ∧
      ShvLogRpcValueReader.entries r.header.pathDict r.entries =
        .ok ((values snapshot).map (inSnapshot t) ++ askedLog params entries) := by
  obtain ⟨r, hget, -, hrows⟩ := getLog_last hlast h.snapshotWanted h.sorted h.length hgather
    ignoreRecordCountLimit
  obtain ⟨t, -, hread⟩ := hrows.read_snapshot hgather (fun e he => by
    rcases List.mem_append.mp he with he | he
    · exact h.wellFormed e (mem_of_mem_askedSnapshot he)
    · exact h.wellFormed e (mem_pastUntil.mp (List.mem_of_mem_take he)).1) nofun
  refine ⟨r, t, hget, ?_⟩
  rw [hread, askedLog, if_pos hlast]

/-- With `since` = last the answer is the one asked for, if also the entry that the loop ends
at changes nothing. -/
theorem answersParams_iff_of_last (h : Asked entries params now)
    (hlast : params.isSinceLast = true) (ignoreRecordCountLimit : Bool) :
    AnswersParams entries params now ignoreRecordCountLimit ↔
      ∃ snapshot, (askedSnapshot params entries).foldlM addToSnapshot [] = .ok snapshot ∧
        ∀ a ∈ (pastUntil params entries).head?, Idle snapshot a := by
  have hsplit : gatherLast params entries = (do
      let snapshot ← (askedSnapshot params entries).foldlM addToSnapshot []
      ((pastUntil params entries).take 1).foldlM addToSnapshot snapshot) := by
    rw [gatherLast, List.foldlM_append]
  have htime : params.isSinceLast = false → ∀ t : Int64, t = params.sinceMsec := by
    rw [hlast]
    nofun
  cases hfold : (askedSnapshot params entries).foldlM addToSnapshot [] with
  | error error =>
    rw [hfold] at hsplit
    exact iff_of_false (not_answersParams_of_error h hlast hsplit _) nofun
  | ok snapshot =>
    rw [hfold] at hsplit
    simp only [bind, Except.bind] at hsplit
    have hexists : (∃ s, (.ok snapshot : Except String ShvSnapshot) = .ok s ∧
        ∀ a ∈ (pastUntil params entries).head?, Idle s a) ↔
        ∀ a ∈ (pastUntil params entries).head?, Idle snapshot a :=
      ⟨by rintro ⟨_, ⟨⟩, hidle⟩; exact hidle, fun hidle => ⟨snapshot, rfl, hidle⟩⟩
    rw [hexists]
    cases hpast : pastUntil params entries with
    | nil =>
      rw [hpast] at hsplit
      obtain ⟨r, t, hget, hread⟩ :=
        read_of_gatherLast h hlast hsplit ignoreRecordCountLimit
      exact iff_of_true ⟨r, values snapshot, t, hget, hread, fun hno => htime hno t,
        nodup_paths hfold, mem_values_iff hfold⟩ nofun
    | cons a rest =>
      have hhead : (∀ a' ∈ (a :: rest).head?, Idle snapshot a') ↔ Idle snapshot a :=
        ⟨fun hall => hall a rfl, by rintro hidle _ ⟨⟩; exact hidle⟩
      rw [hpast] at hsplit
      rw [hhead]
      have hone : gatherLast params entries = addToSnapshot snapshot a := by
        rw [hsplit, List.take_succ_cons, List.take_zero, List.foldlM_cons]
        cases addToSnapshot snapshot a <;> rfl
      have hsorted := (snapshot_of_span hfold).1
      cases hadd : addToSnapshot snapshot a with
      | error error =>
        refine iff_of_false (not_answersParams_of_error h hlast (hone.trans hadd) _) fun hidle => ?_
        obtain ⟨snapshot', hok, -⟩ := hidle.addToSnapshot hsorted
        rw [hadd] at hok
        contradiction
      | ok snapshot' =>
        obtain ⟨r, t, hget, hread⟩ :=
          read_of_gatherLast h hlast (hone.trans hadd) ignoreRecordCountLimit
        constructor
        · rintro ⟨r', found, t', hget', hread', -, -, hfound⟩
          obtain rfl := Except.ok.inj (hget.symm.trans hget')
          have hlist := Except.ok.inj (hread.symm.trans hread')
          refine idle_of_values hfold hadd hfound ?_
          have h0 := congrArg (List.map fun e : ShvJournalEntry => { e with epochMsec := 0 })
            (List.append_cancel_right hlist)
          rw [List.map_map, List.map_map] at h0
          exact h0
        · intro hidle
          obtain ⟨snapshot'', hok, hsame⟩ := hidle.addToSnapshot hsorted
          obtain rfl := Except.ok.inj (hadd.symm.trans hok)
          refine ⟨r, values snapshot, t, hget, ?_, fun hno => htime hno t, nodup_paths hfold,
            mem_values_iff hfold⟩
          rw [hread, map_inSnapshot hsame]

/-- The answer is the one asked for just if the snapshot can be gathered and, with `since` =
last, the first matching entry at or after `until` changes nothing in it but times. -/
theorem answersParams_iff (h : Asked entries params now) (ignoreRecordCountLimit : Bool)
    (hlimit : ∀ r, getLog entries params now ignoreRecordCountLimit = .ok r →
      r.header.recordCountLimitHit = false) :
    AnswersParams entries params now ignoreRecordCountLimit ↔
      ∃ snapshot, (askedSnapshot params entries).foldlM addToSnapshot [] = .ok snapshot ∧
        (params.isSinceLast = true → ∀ a ∈ (pastUntil params entries).head?, Idle snapshot a) := by
  cases hlast : params.isSinceLast with
  | true =>
    rw [answersParams_iff_of_last h hlast]
    simp only [true_imp_iff]
  | false =>
    rw [answersParams_iff_of_time h hlast ignoreRecordCountLimit hlimit]
    simp only [Bool.false_eq_true, false_imp_iff, and_true]

/-! ## two entries -/

/-- A call for everything with a snapshot and a dictionary of the paths. -/
def everything (since until_ : RpcValue) : ShvGetLogParams where
  since := since
  until_ := until_
  pattern := fun _ _ => true
  recordCountLimit := 1000
  withSnapshot := true
  withPathsDict := true

theorem wellFormed_changeAt {msec : Int64} {path : Bytes} (h : path ≠ []) :
    WellFormed (changeAt msec path) :=
  ⟨h, by change ShvJournalEntry.DOMAIN_VAL_CHANGE ≠ []; decide,
    by change ShvJournalEntry.DOMAIN_VAL_CHANGE ≠ ascii "C"; decide, .inl rfl⟩

/-- A change before the time and one after it are found. -/
theorem answersParams_since :
    AnswersParams [changeAt 1 (ascii "a"), changeAt 3 (ascii "a")]
      (everything (.ofVariant (.dateTime (.fromMSecsSinceEpoch 2 0))) .invalid)
      (.fromMSecsSinceEpoch 5000 0) false := by
  have hasked : Asked [changeAt 1 (ascii "a"), changeAt 3 (ascii "a")]
      (everything (.ofVariant (.dateTime (.fromMSecsSinceEpoch 2 0))) .invalid)
      (.fromMSecsSinceEpoch 5000 0) := by
    refine ⟨by decide, by decide, ?_, ?_, rfl, .inr ⟨_, rfl⟩, fun _ => by decide⟩
    · simp only [List.forall_mem_cons]
      exact ⟨wellFormed_changeAt (by decide), wellFormed_changeAt (by decide), nofun⟩
    · simp only [List.forall_mem_cons]
      exact ⟨by decide, by decide, nofun⟩
  have hgather : gather (everything (.ofVariant (.dateTime (.fromMSecsSinceEpoch 2 0))) .invalid)
      [changeAt 1 (ascii "a"), changeAt 3 (ascii "a")] =
      .ok [(ascii "a", changeAt 1 (ascii "a"))] := rfl
  refine (answersParams_iff hasked false fun r hget => ?_).mpr
    ⟨[(ascii "a", changeAt 1 (ascii "a"))], rfl, nofun⟩
  obtain ⟨r', hget', hresult⟩ := getLog_of_gather rfl hasked.sorted hasked.length hgather
    (fun e he => hasked.farFrom (mem_inRange.mp (List.mem_of_getLast? he)).1) false
  obtain rfl := Except.ok.inj (hget.symm.trans hget')
  rw [hresult.hit]
  decide

/-- A change after `until` is in a snapshot since last. -/
theorem not_answersParams_last :
    ¬∀ (entries : List ShvJournalEntry) (params : ShvGetLogParams) (now : RpcDateTime)
      (ignoreRecordCountLimit : Bool), Asked entries params now →
      (∀ r, getLog entries params now ignoreRecordCountLimit = .ok r →
        r.header.recordCountLimitHit = false) →
      AnswersParams entries params now ignoreRecordCountLimit := by
  intro hall
  have hasked : Asked [changeAt 1 (ascii "a"), changeAt 3 (ascii "b")]
      (everything (.ofVariant (.string (ascii "last")))
        (.ofVariant (.dateTime (.fromMSecsSinceEpoch 2 0)))) (.fromMSecsSinceEpoch 5000 0) := by
    refine ⟨by decide, by decide, ?_, ?_, rfl, .inl (by decide), ?_⟩
    · simp only [List.forall_mem_cons]
      exact ⟨wellFormed_changeAt (by decide), wellFormed_changeAt (by decide), nofun⟩
    · simp only [List.forall_mem_cons]
      exact ⟨by decide, by decide, nofun⟩
    · intro hno
      exact absurd hno (by decide)
  have hlast : (everything (.ofVariant (.string (ascii "last")))
      (.ofVariant (.dateTime (.fromMSecsSinceEpoch 2 0)))).isSinceLast = true := by decide
  have hgather : gatherLast (everything (.ofVariant (.string (ascii "last")))
      (.ofVariant (.dateTime (.fromMSecsSinceEpoch 2 0))))
      [changeAt 1 (ascii "a"), changeAt 3 (ascii "b")] =
      .ok [(ascii "a", changeAt 1 (ascii "a")), (ascii "b", changeAt 3 (ascii "b"))] := rfl
  have hanswer := hall _ _ _ false hasked fun r hget => by
    obtain ⟨r', hget', hhit, -⟩ := getLog_last hlast hasked.snapshotWanted hasked.sorted
      hasked.length hgather false
    obtain rfl := Except.ok.inj (hget.symm.trans hget')
    exact hhit
  obtain ⟨snapshot, hfold, hidle⟩ :=
    (answersParams_iff_of_last hasked hlast false).mp hanswer
  have hsnapshot : snapshot = [(ascii "a", changeAt 1 (ascii "a"))] :=
    Except.ok.inj (hfold.symm.trans rfl)
  subst hsnapshot
  rcases hidle (changeAt 3 (ascii "b")) rfl with hdom | ⟨hdrop, -⟩ | ⟨-, e, hmem, -⟩
  · exact hdom rfl
  · exact absurd (hdrop.2.symm.trans rfl : (.ok true : Except String Bool) = .ok false) (by simp)
  · have hpath : (changeAt 3 (ascii "b")).path = ascii "a" :=
      congrArg Prod.fst (List.mem_singleton.mp hmem)
    exact absurd hpath (by decide)

end LibShv.GetLog
