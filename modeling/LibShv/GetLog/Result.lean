import LibShv.GetLog.Loop
import LibShv.GetLog.Rows

/-!
# LibShv.GetLog.Result

The result of `getLog` on a sorted journal, when `since` is not last: it fails
only when the snapshot cannot be gathered, and else its rows stand for the
snapshot and for the entries that the loop kept.
-/

namespace LibShv.GetLog

/-! ## sizes -/

theorem length_deleteFrom_le (root_dir : Bytes) (m : ShvSnapshot) :
    (ShvSnapshot.deleteFrom root_dir m).length ≤ m.length := by
  induction m with
  | nil => exact Nat.le_refl _
  | cons kv m ih =>
    rw [ShvSnapshot.deleteFrom]
    split
    · split
      · exact Nat.le_succ_of_le ih
      · exact Nat.succ_le_succ ih
    · exact Nat.le_refl _

theorem length_deleteDirAndSubdirs_le (root_dir : Bytes) (m : ShvSnapshot) :
    (m.deleteDirAndSubdirs root_dir).length ≤ m.length := by
  induction m with
  | nil => exact Nat.le_refl _
  | cons kv m ih =>
    rw [ShvSnapshot.deleteDirAndSubdirs]
    split
    · exact Nat.succ_le_succ ih
    · exact length_deleteFrom_le root_dir _

/-- An entry adds at most one path to a snapshot. -/
theorem length_addToSnapshot_le {snapshot snapshot' : ShvSnapshot} {e : ShvJournalEntry}
    (h : addToSnapshot snapshot e = .ok snapshot') : snapshot'.length ≤ snapshot.length + 1 := by
  rw [addToSnapshot] at h
  split at h
  · obtain rfl := Except.ok.inj h
    exact Nat.le_succ _
  · cases hd : e.value.isNodeDrop with
    | error e => simp [hd, bind, Except.bind] at h
    | ok drop =>
      simp only [hd, bind, Except.bind, pure, Except.pure] at h
      split at h
      · obtain rfl := Except.ok.inj h
        exact Nat.le_succ_of_le (length_deleteDirAndSubdirs_le _ _)
      · obtain rfl := Except.ok.inj h
        exact SortedMap.length_insert_le _ _ _

theorem length_foldlM_addToSnapshot_le {es : List ShvJournalEntry}
    {snapshot snapshot' : ShvSnapshot} (h : es.foldlM addToSnapshot snapshot = .ok snapshot') :
    snapshot'.length ≤ snapshot.length + es.length := by
  induction es generalizing snapshot with
  | nil =>
    obtain rfl := Except.ok.inj h
    exact Nat.le_refl _
  | cons e es ih =>
    rw [List.foldlM_cons] at h
    cases he : addToSnapshot snapshot e with
    | error e => simp [he, bind, Except.bind] at h
    | ok next =>
      simp only [he, bind, Except.bind] at h
      have hone := length_addToSnapshot_le he
      have hall := ih h
      rw [List.length_cons]
      omega

variable {params : ShvGetLogParams} {entries : List ShvJournalEntry} {snapshot : ShvSnapshot}
  {now : RpcDateTime}

/-- The range and the snapshot have no more entries than the journal. -/
theorem length_inRange_add_length_le (hsorted : TimeSorted entries)
    (hgather : gather params entries = .ok snapshot) :
    (inRange params entries).length + snapshot.length ≤ entries.length := by
  have hsnapshot := length_foldlM_addToSnapshot_le hgather
  have hspans : (before params entries ++
      (inRange params entries ++ pastUntil params entries)).length = _ :=
    congrArg List.length (spans_append hsorted)
  have hfilter := List.length_filter_le params.matchesEntry entries
  have hlate := List.length_filter_le (fun e : ShvJournalEntry => decide (e.epochMsec ≤ params.sinceMsec))
    ((pastUntil params entries).take 1)
  have htake' := List.length_take_le' 1 (pastUntil params entries)
  rw [snapshotSpan, List.length_append, List.length_nil] at hsnapshot
  rw [List.length_append, List.length_append] at hspans
  omega

/-- The log and the snapshot have no more rows than the journal has entries. -/
theorem length_add_length_le (hsorted : TimeSorted entries)
    (hgather : gather params entries = .ok snapshot) :
    (loopEnd params entries snapshot).result_log.length + snapshot.length ≤ entries.length := by
  have htaken : (loopEnd params entries snapshot).result_log.length ≤
      (inRange params entries).length := Batch.take_isPrefix.length_le
  have hrange := length_inRange_add_length_le hsorted hgather
  omega

/-! ## the time of the last entry -/

/-- The time is at least a second away from the entry. An entry without a path is read back
with the time of an empty entry. -/
structure FarFrom (now : RpcDateTime) (e : ShvJournalEntry) : Prop where
  entry : isFresh now e = false
  epoch : e.path = [] → isFresh now .empty = false

theorem dateTime_readBack {e : ShvJournalEntry} (hpath : e.path ≠ []) :
    (readBack e).dateTime = e.dateTime := by
  have hmsec : (Int64.ofInt e.dateTime.msec.toInt).toInt = e.dateTime.msec.toInt := by
    have hlt := BitVec.toInt_lt (x := e.dateTime.msec)
    have hle := BitVec.le_toInt (x := e.dateTime.msec)
    exact Int64.toInt_ofInt_of_le (by omega) (by omega)
  rw [readBack, if_neg hpath]
  simp only [ShvJournalEntry.dateTime, RpcDateTime.fromMSecsSinceEpoch,
    RpcDateTime.msecsSinceEpoch] at hmsec ⊢
  rw [hmsec, BitVec.ofInt_toInt]

theorem FarFrom.readBack {e : ShvJournalEntry} (h : FarFrom now e) :
    isFresh now (readBack e) = false := by
  by_cases hpath : e.path = []
  · rw [GetLog.readBack, if_pos hpath]
    exact h.epoch hpath
  · rw [isFresh, dateTime_readBack hpath]
    exact h.entry

/-! ## the result -/

/-- The entries of the snapshot in the result. -/
def snapshotResult (params : ShvGetLogParams) (snapshot : ShvSnapshot) : List ShvJournalEntry :=
  if params.snapshotWanted then snapshotToEntries snapshot false params.sinceMsec else []

/-- The entry the next log is to start from. -/
def nextEntry (params : ShvGetLogParams) (entries : List ShvJournalEntry)
    (snapshot : ShvSnapshot) : Option ShvJournalEntry :=
  let st := loopEnd params entries snapshot
  st.first_unmatching_entry.or
    ((st.result_log.getLast?.or (snapshotResult params snapshot).getLast?).map readBack)

theorem snapshotRows_eq (hlast : params.isSinceLast = false) (st : Loop) (pathCache : RpcMap) :
    snapshotRows params st pathCache =
      logRows params.withPathsDict pathCache (snapshotResult params st.snapshot) := by
  rw [snapshotRows, snapshotResult, hlast]
  split
  · rfl
  · cases st.last_entry <;> rfl

/-- The entry in the last row of the log, or else of the snapshot, is read back. -/
theorem firstUnmatching_eq (hlast : params.isSinceLast = false) {st : Loop} {paths : List Bytes}
    {dict : RpcIMap} {es es' : List ShvJournalEntry}
    (hreads : ReadsPaths params.withPathsDict dict paths (es ++ es'))
    (hfar : st.first_unmatching_entry = none → ∀ e, es.getLast? = some e → FarFrom now e) :
    firstUnmatching params st (es'.map (rowIn params.withPathsDict paths))
        (es.map (rowIn params.withPathsDict paths)) (rowEntry params.withPathsDict dict) now =
      .ok (st.first_unmatching_entry.or ((es.getLast?.or es'.getLast?).map readBack),
        es'.map (rowIn params.withPathsDict paths), es.map (rowIn params.withPathsDict paths)) := by
  rw [firstUnmatching, List.getLast?_map, List.getLast?_map]
  cases hfirst : st.first_unmatching_entry with
  | some e => rfl
  | none =>
    cases hes : es.getLast? with
    | some e =>
      have hmem : e ∈ es ++ es' := List.mem_append_left _ (List.mem_of_getLast? hes)
      simp only [Option.map_some, hlast, Bool.false_eq_true, if_false, hreads.rowEntry hmem, bind,
        Except.bind, (hfar hfirst e hes).readBack, pure, Except.pure]
      rfl
    | none =>
      cases hes' : es'.getLast? with
      | none => rfl
      | some e =>
        have hmem : e ∈ es ++ es' := List.mem_append_right _ (List.mem_of_getLast? hes')
        simp only [Option.map_none, Option.map_some, hreads.rowEntry hmem, bind, Except.bind, pure,
          Except.pure]
        rfl

/-- The times of the header can be given, if the entry the next log starts from can be. -/
theorem exists_headerTimes (hlast : params.isSinceLast = false) (st : Loop)
    {first_unmatching : Option ShvJournalEntry} (rows : RpcList)
    (hrows : rows ≠ [] → first_unmatching.isSome = true) :
    ∃ times, headerTimes params st first_unmatching rows = .ok times := by
  cases rows with
  | nil => exact ⟨_, rfl⟩
  | cons row rows =>
    obtain ⟨e, he⟩ := Option.isSome_iff_exists.mp (hrows (List.cons_ne_nil _ _))
    simp only [headerTimes, hlast, he, Bool.false_eq_true, if_false]
    exact ⟨_, rfl⟩

theorem isSome_nextEntry
    (h : (loopEnd params entries snapshot).result_log ≠ [] ∨ snapshotResult params snapshot ≠ []) :
    (nextEntry params entries snapshot).isSome = true := by
  simp only [nextEntry, Option.isSome_or, Option.isSome_map, Bool.or_eq_true,
    List.getLast?_isSome]
  exact Or.inr h

/-- What `getLog` gives when the snapshot can be gathered. -/
structure IsResult (params : ShvGetLogParams) (entries : List ShvJournalEntry)
    (snapshot : ShvSnapshot) (r : GetLogResult) : Prop where
  log : List.Forall₂ (IsRow params.withPathsDict r.header.pathDict) r.logEntries
    (loopEnd params entries snapshot).result_log
  rows : List.Forall₂ (IsRow params.withPathsDict r.header.pathDict) r.snapshotEntries
    (snapshotResult params snapshot)
  hit : r.header.recordCountLimitHit = (loopEnd params entries snapshot).recordCountLimitHit
  times : headerTimes params (loopEnd params entries snapshot) (nextEntry params entries snapshot)
    r.entries = .ok (r.header.since, r.header.until_)

theorem getLog_rows_of_gather (hlast : params.isSinceLast = false) (hsorted : TimeSorted entries)
    (hlen : entries.length < 2 ^ 31) (hgather : gather params entries = .ok snapshot)
    (hfar : ∀ e, (inRange params entries).getLast? = some e → FarFrom now e)
    (ignoreRecordCountLimit : Bool) :
    ∃ r, getLog entries params now ignoreRecordCountLimit = .ok r ∧
      IsResult params entries snapshot r ∧
      HasRows params r (snapshotResult params snapshot)
        (loopEnd params entries snapshot).result_log := by
  have hcollect := collect_eq hlast hsorted
  rw [hgather] at hcollect
  have hsize := length_add_length_le hsorted hgather
  have hresult : (snapshotResult params snapshot).length ≤ snapshot.length := by
    rw [snapshotResult]
    split
    · simp [snapshotToEntries]
    · exact Nat.zero_le _
  obtain ⟨paths, dict, hdict, hlog, hsnapshot, hreads⟩ := exists_rows params.withPathsDict
    (loopEnd params entries snapshot).result_log (snapshotResult params snapshot) (by omega)
  have hkept : (loopEnd params entries snapshot).first_unmatching_entry = none →
      ∀ e, (loopEnd params entries snapshot).result_log.getLast? = some e → FarFrom now e := by
    -- the loop came to the end of the journal, so it kept the whole range
    intro hnone e he
    have hrest := (List.append_eq_nil_iff.mp (List.head?_eq_none_iff.mp hnone)).1
    refine hfar e ?_
    rw [← he]
    exact congrArg List.getLast? (Batch.take_eq_self hrest).symm
  have hfirst := firstUnmatching_eq hlast hreads hkept
  have hrows : (snapshotResult params snapshot).map (rowIn params.withPathsDict paths) ++
      (loopEnd params entries snapshot).result_log.map (rowIn params.withPathsDict paths) ≠ [] →
      (nextEntry params entries snapshot).isSome = true := by
    intro hne
    apply isSome_nextEntry
    by_contra hnil
    rw [not_or, not_not, not_not] at hnil
    rw [hnil.1, hnil.2] at hne
    contradiction
  obtain ⟨times, htimes⟩ := exists_headerTimes hlast (loopEnd params entries snapshot) _ hrows
  rw [getLog]
  simp only [hcollect, bind, Except.bind, snapshotRows_eq hlast]
  have hst : (loopEnd params entries snapshot).snapshot = snapshot := rfl
  rw [hst, hdict, hlog, hsnapshot]
  simp only [hfirst]
  rw [nextEntry] at htimes
  simp only [htimes]
  refine ⟨_, rfl, ⟨?_, ?_, rfl, ?_⟩, paths, rfl, rfl, hreads⟩
  · exact hreads.isRow fun e he => List.mem_append_left _ he
  · exact hreads.isRow fun e he => List.mem_append_right _ he
  · exact htimes

theorem getLog_of_gather (hlast : params.isSinceLast = false) (hsorted : TimeSorted entries)
    (hlen : entries.length < 2 ^ 31) (hgather : gather params entries = .ok snapshot)
    (hfar : ∀ e, (inRange params entries).getLast? = some e → FarFrom now e)
    (ignoreRecordCountLimit : Bool) :
    ∃ r, getLog entries params now ignoreRecordCountLimit = .ok r ∧
      IsResult params entries snapshot r := by
  obtain ⟨r, hget, hresult, -⟩ :=
    getLog_rows_of_gather hlast hsorted hlen hgather hfar ignoreRecordCountLimit
  exact ⟨r, hget, hresult⟩

theorem getLog_of_gather_error (hlast : params.isSinceLast = false) (hsorted : TimeSorted entries)
    {error : String} (hgather : gather params entries = .error error)
    (ignoreRecordCountLimit : Bool) :
    getLog entries params now ignoreRecordCountLimit = .error error := by
  have hcollect := collect_eq hlast hsorted
  rw [hgather] at hcollect
  rw [getLog]
  simp only [hcollect, bind, Except.bind]

end LibShv.GetLog
