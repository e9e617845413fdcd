import LibShv.GetLog.RecordCountLimit

/-!
# LibShv.GetLog.Paging

A log read page by page: every call asks for what is after the `until` of the
result before. When the limit cuts a page off, its `until` is the time of the
first entry that is left out, and the next page starts behind that time: so the
entries of that time are in no page, and the pages hold everything only when the
first one does.
-/

namespace LibShv.GetLog

open Batch

/-! ## pages -/

/-- A call for the entries after a time. -/
def sinceTime (params : ShvGetLogParams) (since : RpcDateTime) : ShvGetLogParams :=
  { params with since := .ofVariant (.dateTime since) }

/-- So many calls, each from the `until` of the one before, and the last `until`. -/
def pages (entries : List ShvJournalEntry) (params : ShvGetLogParams) (now : RpcDateTime)
    (ignoreRecordCountLimit : Bool) :
    Nat → RpcValue → Except String (List GetLogResult × RpcValue)
  | 0, since => .ok ([], since)
  | n + 1, since => do
    let r ← getLog entries { params with since := since } now ignoreRecordCountLimit
    let (rs, until_) ← pages entries params now ignoreRecordCountLimit n r.header.until_
    return (r :: rs, until_)

/-- The rows of the pages, one page after another, stand for the entries. -/
def Delivers (withPathsDict : Bool) : List GetLogResult → List ShvJournalEntry → Prop
  | [], es => es = []
  | r :: rs, es => ∃ part rest, es = part ++ rest ∧
      List.Forall₂ (IsRow withPathsDict r.header.pathDict) r.entries part ∧
      Delivers withPathsDict rs rest

/-- The entries that match after a time. -/
def laterThan (params : ShvGetLogParams) (since : RpcDateTime) (entries : List ShvJournalEntry) :
    List ShvJournalEntry :=
  entries.filter fun e => params.matchesEntry e && decide (since.msecsSinceEpoch < e.epochMsec)

/-- After some calls the end of the log is reached, and the pages hold every entry that matches
after the first `since` once and in order. -/
def PagesDeliverAll (entries : List ShvJournalEntry) (params : ShvGetLogParams)
    (now : RpcDateTime) (ignoreRecordCountLimit : Bool) (since : RpcDateTime) : Prop :=
  ∃ n rs until_, pages entries params now ignoreRecordCountLimit (n + 1)
      (.ofVariant (.dateTime since)) = .ok (rs, .ofVariant (.dateTime until_)) ∧
    laterThan params until_ entries = [] ∧
    Delivers params.withPathsDict rs (laterThan params since entries)

/-! ## timestamps -/

/-- The time of the entry is one of a date-time. -/
def FitsDateTime (e : ShvJournalEntry) : Prop :=
  -2 ^ 56 ≤ e.epochMsec.toInt ∧ e.epochMsec.toInt < 2 ^ 56

instance (e : ShvJournalEntry) : Decidable (FitsDateTime e) :=
  inferInstanceAs (Decidable (_ ∧ _))

theorem toInt_timeKey {e : ShvJournalEntry} (h : FitsDateTime e) :
    (timeKey e).toInt = e.epochMsec.toInt := by
  rw [timeKey, ShvJournalEntry.dateTime, RpcDateTime.fromMSecsSinceEpoch]
  exact BitVec.toInt_ofInt_eq_self (by decide) h.1 h.2

theorem msecsSinceEpoch_dateTime {e : ShvJournalEntry} (h : FitsDateTime e) :
    e.dateTime.msecsSinceEpoch = e.epochMsec := by
  have := toInt_timeKey h
  rw [timeKey] at this
  rw [RpcDateTime.msecsSinceEpoch, this, Int64.ofInt_toInt]

theorem timeKey_ne_of_lt {e e' : ShvJournalEntry} (he : FitsDateTime e) (he' : FitsDateTime e')
    (h : e.epochMsec < e'.epochMsec) : timeKey e ≠ timeKey e' := by
  intro heq
  have := congrArg BitVec.toInt heq
  rw [toInt_timeKey he, toInt_timeKey he'] at this
  exact absurd (Int64.lt_iff_toInt_lt.mp h) (by omega)

/-- A row tells the timestamp. -/
theorem IsRow.timeKey_eq {withPathsDict : Bool} {dict : RpcIMap} {row : RpcValue}
    {e e' : ShvJournalEntry} (h : IsRow withPathsDict dict row e)
    (h' : IsRow withPathsDict dict row e') : timeKey e = timeKey e' := by
  obtain ⟨path, -, rfl⟩ := h
  obtain ⟨path', -, heq⟩ := h'
  have hhead := congrArg (fun row => (RpcList.value row.asList ShvJournalEntry.Timestamp).dateTime?)
    heq
  exact congrArg RpcDateTime.msec (Option.some.inj hhead)

theorem timeKeys_eq_of_rows {withPathsDict : Bool} {dict : RpcIMap} {rows : RpcList}
    {es es' : List ShvJournalEntry} (h : List.Forall₂ (IsRow withPathsDict dict) rows es)
    (h' : List.Forall₂ (IsRow withPathsDict dict) rows es') : es.map timeKey = es'.map timeKey := by
  induction h generalizing es' with
  | nil =>
    cases h'
    rfl
  | cons he _ ih =>
    cases h' with
    | cons he' hes' => rw [List.map_cons, List.map_cons, he.timeKey_eq he', ih hes']

theorem Delivers.timeKeys_eq {withPathsDict : Bool} {rs : List GetLogResult}
    {es es' : List ShvJournalEntry} (h : Delivers withPathsDict rs es)
    (h' : Delivers withPathsDict rs es') : es.map timeKey = es'.map timeKey := by
  induction rs generalizing es es' with
  | nil =>
    obtain rfl := h
    obtain rfl := h'
    rfl
  | cons r rs ih =>
    obtain ⟨part, rest, rfl, hpart, hrest⟩ := h
    obtain ⟨part', rest', rfl, hpart', hrest'⟩ := h'
    rw [List.map_append, List.map_append, timeKeys_eq_of_rows hpart hpart', ih hrest hrest']

/-! ## one page -/

section
variable {params : ShvGetLogParams} {entries : List ShvJournalEntry} {now : RpcDateTime}
  {since : RpcDateTime}

theorem isSinceLast_sinceTime (params : ShvGetLogParams) (since : RpcDateTime) :
    (sinceTime params since).isSinceLast = false := by
  have hstring : (sinceTime params since).since.asString = [] := rfl
  rw [ShvGetLogParams.isSinceLast, hstring]
  decide

theorem untilMsec_of_not_isValid (huntil : params.until_.isValid = false) :
    params.untilMsec = Int64.maxValue := by
  rw [ShvGetLogParams.untilMsec, RpcValue.dateTime?]
  rw [RpcValue.isValid] at huntil
  cases hvalue : params.until_.value with
  | invalid => rfl
  | _ => simp [hvalue, Variant.isValid] at huntil

/-- What is the same in all the calls: no snapshot and no `until`, and a time far from all the
entries, which have times of date-times. -/
structure Setting (entries : List ShvJournalEntry) (params : ShvGetLogParams)
    (now : RpcDateTime) : Prop where
  sorted : TimeSorted entries
  length : entries.length < 2 ^ 31
  fits : ∀ e ∈ entries, FitsDateTime e
  far : ∀ e ∈ entries, FarFrom now e
  noSnapshot : params.withSnapshot = false
  noUntil : params.until_.isValid = false

namespace Setting

variable (h : Setting entries params now)
include h

theorem lt_untilMsec (since : RpcDateTime) {e : ShvJournalEntry} (he : e ∈ entries) :
    e.epochMsec < (sinceTime params since).untilMsec := by
  have huntil : (sinceTime params since).untilMsec = Int64.maxValue :=
    untilMsec_of_not_isValid h.noUntil
  obtain ⟨-, hlt⟩ := h.fits e he
  rw [huntil, Int64.lt_iff_toInt_lt]
  exact Int.lt_trans hlt (by decide)

theorem pastUntil_eq_nil (since : RpcDateTime) :
    pastUntil (sinceTime params since) entries = [] := by
  rw [pastUntil, List.filter_eq_nil_iff]
  intro e he
  have := Int64.not_le.mpr (h.lt_untilMsec since he)
  simp [this]

theorem inRange_eq (since : RpcDateTime) :
    inRange (sinceTime params since) entries = laterThan params since entries := by
  rw [inRange, laterThan]
  refine List.filter_congr fun e he => ?_
  rw [decide_eq_true (h.lt_untilMsec since he), Bool.and_true]
  rfl

theorem snapshotResult_eq_nil (since : RpcDateTime) (snapshot : ShvSnapshot) :
    snapshotResult (sinceTime params since) snapshot = [] := by
  have hno : (sinceTime params since).withSnapshot = false := h.noSnapshot
  rw [snapshotResult, ShvGetLogParams.snapshotWanted, hno]
  rfl

end Setting

/-- The records of a page. -/
def pageRecords (params : ShvGetLogParams) (entries : List ShvJournalEntry)
    (snapshot : ShvSnapshot) (since : RpcDateTime) : List ShvJournalEntry :=
  (loopEnd (sinceTime params since) entries snapshot).result_log

/-- The entries that a page has no room for. -/
def pageRest (params : ShvGetLogParams) (entries : List ShvJournalEntry)
    (snapshot : ShvSnapshot) (since : RpcDateTime) : List ShvJournalEntry :=
  rest timeKey (overRequested params snapshot) 0 (before (sinceTime params since) entries).getLast?
    (inRange (sinceTime params since) entries)

/-- The time the next page starts from. -/
def pageUntil (params : ShvGetLogParams) (entries : List ShvJournalEntry)
    (snapshot : ShvSnapshot) (since : RpcDateTime) : RpcDateTime :=
  match (pageRecords params entries snapshot since).getLast?,
    (pageRest params entries snapshot since).head? with
  | none, _ => since
  | some _, some u => u.dateTime
  | some e, none => (readBack e).dateTime

theorem Setting.nextEntry_eq (h : Setting entries params now) (snapshot : ShvSnapshot)
    (since : RpcDateTime) :
    nextEntry (sinceTime params since) entries snapshot =
      (pageRest params entries snapshot since).head?.or
        ((pageRecords params entries snapshot since).getLast?.map readBack) := by
  rw [nextEntry, h.snapshotResult_eq_nil, List.getLast?_nil, Option.or_none]
  have hfirst : (loopEnd (sinceTime params since) entries snapshot).first_unmatching_entry =
      (pageRest params entries snapshot since ++ pastUntil (sinceTime params since) entries).head? :=
    rfl
  simp only [hfirst, h.pastUntil_eq_nil, List.append_nil]
  rfl

/-- The `until` of the header. -/
theorem Setting.until_eq (h : Setting entries params now) {snapshot : ShvSnapshot}
    {rows : RpcList} {times : RpcValue × RpcValue}
    (hlen : rows.length = (pageRecords params entries snapshot since).length)
    (htimes : headerTimes (sinceTime params since)
      (loopEnd (sinceTime params since) entries snapshot)
      (nextEntry (sinceTime params since) entries snapshot) rows = .ok times) :
    times.2 = .ofVariant (.dateTime (pageUntil params entries snapshot since)) := by
  have huntil : (sinceTime params since).until_.isValid = false := h.noUntil
  rw [h.nextEntry_eq] at htimes
  rw [pageUntil]
  cases rows with
  | nil =>
    have hnil := List.eq_nil_of_length_eq_zero hlen.symm
    rw [headerTimes, huntil] at htimes
    obtain rfl := Except.ok.inj htimes
    rw [hnil]
    rfl
  | cons row rows =>
    cases hrecords : (pageRecords params entries snapshot since).getLast? with
    | none =>
      rw [List.getLast?_eq_none_iff.mp hrecords] at hlen
      contradiction
    | some e =>
      simp only [headerTimes, isSinceLast_sinceTime, Bool.false_eq_true, if_false, hrecords] at htimes
      cases hrest : (pageRest params entries snapshot since).head? with
      | some u =>
        rw [hrest] at htimes
        obtain rfl := Except.ok.inj htimes
        rfl
      | none =>
        rw [hrest] at htimes
        obtain rfl := Except.ok.inj htimes
        rfl

/-- A call that succeeds gives a page. -/
theorem Setting.page (h : Setting entries params now) {ignoreRecordCountLimit : Bool}
    {r : GetLogResult}
    (hget : getLog entries (sinceTime params since) now ignoreRecordCountLimit = .ok r) :
    ∃ snapshot, gather (sinceTime params since) entries = .ok snapshot ∧
      List.Forall₂ (IsRow params.withPathsDict r.header.pathDict) r.entries
        (pageRecords params entries snapshot since) ∧
      r.header.until_ = .ofVariant (.dateTime (pageUntil params entries snapshot since)) := by
  have hlast := isSinceLast_sinceTime params since
  cases hgather : gather (sinceTime params since) entries with
  | error e =>
    rw [getLog_of_gather_error hlast h.sorted hgather] at hget
    contradiction
  | ok snapshot =>
    obtain ⟨r', hget', hresult⟩ := getLog_of_gather hlast h.sorted h.length hgather
      (fun e he => h.far e (mem_inRange.mp (List.mem_of_getLast? he)).1) ignoreRecordCountLimit
    rw [hget] at hget'
    obtain rfl := Except.ok.inj hget'
    have hnone : r.snapshotEntries = [] := by
      have := hresult.rows
      rw [h.snapshotResult_eq_nil, List.forall₂_nil_right_iff] at this
      exact this
    refine ⟨snapshot, rfl, ?_, ?_⟩
    · rw [GetLogResult.entries, hnone, List.nil_append]
      exact hresult.log
    · refine h.until_eq ?_ hresult.times
      rw [GetLogResult.entries, hnone, List.nil_append]
      exact hresult.log.length_eq

/-! ## runs -/

theorem pages_succ {ignoreRecordCountLimit : Bool} {n : Nat} {rs : List GetLogResult} {s : RpcValue}
    (hrun : pages entries params now ignoreRecordCountLimit (n + 1) (.ofVariant (.dateTime since)) =
      .ok (rs, s)) :
    ∃ r rs', getLog entries (sinceTime params since) now ignoreRecordCountLimit = .ok r ∧
      pages entries params now ignoreRecordCountLimit n r.header.until_ = .ok (rs', s) ∧
      rs = r :: rs' := by
  rw [pages] at hrun
  rw [sinceTime]
  cases hget : getLog entries { params with since := .ofVariant (.dateTime since) } now
      ignoreRecordCountLimit with
  | error e => simp [hget, bind, Except.bind] at hrun
  | ok r =>
    simp only [hget, bind, Except.bind] at hrun
    cases hpages : pages entries params now ignoreRecordCountLimit n r.header.until_ with
    | error e => simp [hpages] at hrun
    | ok run =>
      simp only [hpages, pure, Except.pure] at hrun
      obtain ⟨rfl, rfl⟩ := Prod.mk.inj (Except.ok.inj hrun)
      exact ⟨r, run.1, rfl, hpages, rfl⟩

/-- What a run from a time delivers: it starts behind the time, and the time stands still while
nothing is delivered. -/
theorem Setting.run (h : Setting entries params now) {ignoreRecordCountLimit : Bool} {n : Nat}
    {rs : List GetLogResult} {s : RpcValue}
    (hrun : pages entries params now ignoreRecordCountLimit n (.ofVariant (.dateTime since)) =
      .ok (rs, s)) :
    ∃ es until_, s = .ofVariant (.dateTime until_) ∧ Delivers params.withPathsDict rs es ∧
      (∀ e, es.head? = some e → e ∈ entries ∧ since.msecsSinceEpoch < e.epochMsec) ∧
      (es = [] → until_ = since) ∧
      ∀ snapshot, gather (sinceTime params since) entries = .ok snapshot →
        pageRecords params entries snapshot since = [] → es = [] := by
  induction n generalizing since rs with
  | zero =>
    obtain ⟨rfl, rfl⟩ := Prod.mk.inj (Except.ok.inj hrun)
    exact ⟨[], since, rfl, rfl, by simp, fun _ => rfl, fun _ _ _ => rfl⟩
  | succ n ih =>
    obtain ⟨r, rs', hget, hpages, rfl⟩ := pages_succ hrun
    obtain ⟨snapshot, hgather, hrows, huntil⟩ := h.page hget
    rw [huntil] at hpages
    obtain ⟨es, until_, rfl, hdelivers, hhead, hstill, hempty⟩ := ih hpages
    refine ⟨pageRecords params entries snapshot since ++ es, until_, rfl,
      ⟨_, _, rfl, hrows, hdelivers⟩, ?_⟩
    cases hrecords : pageRecords params entries snapshot since with
    | nil =>
      -- the page is empty, so the next one is asked for from the same time
      have hsame : pageUntil params entries snapshot since = since := by
        rw [pageUntil, hrecords]
        rfl
      rw [hsame] at hhead hstill hempty
      exact ⟨hhead, hstill, hempty⟩
    | cons a as =>
      have ha : a ∈ inRange (sinceTime params since) entries := by
        have hsub : pageRecords params entries snapshot since ⊆ inRange (sinceTime params since) entries :=
          take_isPrefix.subset
        exact hsub (by simp [hrecords])
      refine ⟨fun e he => ?_, fun hnil => by contradiction, fun snapshot' hgather' hnil => ?_⟩
      · obtain rfl := Option.some.inj he
        exact ⟨(mem_inRange.mp ha).1, (mem_inRange.mp ha).2.2.1⟩
      · rw [hgather] at hgather'
        obtain rfl := Except.ok.inj hgather'
        rw [hrecords] at hnil
        contradiction

/-! ## the first page -/

/-- The first page holds everything: the snapshot can be gathered, the limit is not exceeded
where the page may be cut, and the last entry gives back its time. -/
def FirstPageHoldsAll (entries : List ShvJournalEntry) (params : ShvGetLogParams)
    (since : RpcDateTime) : Prop :=
  ∃ snapshot, gather (sinceTime params since) entries = .ok snapshot ∧
    (∀ n ∈ stops timeKey 0 (before (sinceTime params since) entries).getLast?
      (laterThan params since entries), overRequested params snapshot n = false) ∧
    ∀ e, (laterThan params since entries).getLast? = some e → e.path ≠ [] ∨ e.epochMsec ≤ 0

theorem Setting.records_append_rest (h : Setting entries params now) (snapshot : ShvSnapshot) :
    pageRecords params entries snapshot since ++ pageRest params entries snapshot since =
      laterThan params since entries := by
  rw [← h.inRange_eq]
  exact take_append_rest

theorem msecsSinceEpoch_empty : ShvJournalEntry.empty.dateTime.msecsSinceEpoch = 0 := by
  decide

theorem Setting.firstPageHoldsAll_of_deliverAll (h : Setting entries params now)
    {ignoreRecordCountLimit : Bool}
    (hall : PagesDeliverAll entries params now ignoreRecordCountLimit since) :
    FirstPageHoldsAll entries params since := by
  obtain ⟨n, rs, until_, hrun, hend, hdelivers⟩ := hall
  obtain ⟨r, rs', hget, hpages, rfl⟩ := pages_succ hrun
  obtain ⟨snapshot, hgather, hrows, huntil⟩ := h.page hget
  rw [huntil] at hpages
  obtain ⟨es, until', hs, hdelivers', hhead, hstill, hempty⟩ := h.run hpages
  obtain rfl : until_ = until' := by
    have := congrArg RpcValue.dateTime? hs
    exact Option.some.inj this
  have hpage : Delivers params.withPathsDict (r :: rs')
      (pageRecords params entries snapshot since ++ es) := ⟨_, _, rfl, hrows, hdelivers'⟩
  have hkeys := hdelivers.timeKeys_eq hpage
  rw [← h.records_append_rest snapshot, List.map_append, List.map_append,
    List.append_cancel_left_eq] at hkeys
  cases hrest : pageRest params entries snapshot since with
  | cons u us =>
    -- the entry the first page ends before is in no later page
    exfalso
    rw [hrest, List.map_cons] at hkeys
    obtain ⟨v, vs, rfl, huv, -⟩ := List.map_eq_cons_iff.mp hkeys.symm
    obtain ⟨hv, hlt⟩ := hhead v rfl
    cases hrecords : (pageRecords params entries snapshot since).getLast? with
    | none =>
      have hsame : pageUntil params entries snapshot since = since := by
        rw [pageUntil, hrecords]
      rw [hsame] at hempty
      exact List.cons_ne_nil _ _ (hempty snapshot hgather (List.getLast?_eq_none_iff.mp hrecords))
    | some e =>
      have hnext : pageUntil params entries snapshot since = u.dateTime := by
        rw [pageUntil, hrecords, hrest]
        rfl
      have hu : u ∈ entries := by
        have hmem : u ∈ laterThan params since entries := by
          rw [← h.records_append_rest snapshot, hrest]
          exact List.mem_append_right _ List.mem_cons_self
        exact List.mem_of_mem_filter hmem
      rw [hnext, msecsSinceEpoch_dateTime (h.fits u hu)] at hlt
      exact timeKey_ne_of_lt (h.fits u hu) (h.fits v hv) hlt huv.symm
  | nil =>
    rw [hrest] at hkeys
    obtain rfl := List.map_eq_nil_iff.mp hkeys.symm
    obtain rfl := hstill rfl
    refine ⟨snapshot, hgather, ?_, fun e he => ?_⟩
    · rw [← h.inRange_eq]
      exact rest_eq_nil_iff.mp hrest
    · by_contra hnot
      obtain ⟨hpath, hpos⟩ := not_or.mp hnot
      have hrecords : pageRecords params entries snapshot since = laterThan params since entries := by
        rw [← h.records_append_rest snapshot, hrest, List.append_nil]
      have hepoch : (pageUntil params entries snapshot since).msecsSinceEpoch = 0 := by
        rw [pageUntil, hrecords, he, hrest]
        simp only [List.head?_nil, readBack, if_pos (not_not.mp hpath), msecsSinceEpoch_empty]
      have hmem := List.mem_filter.mp (List.mem_of_getLast? he)
      rw [laterThan, List.filter_eq_nil_iff, hepoch] at hend
      refine hend e hmem.1 ?_
      rw [(Bool.and_eq_true_iff.mp hmem.2).1, Bool.true_and]
      exact decide_eq_true (Int64.not_le.mp hpos)

/-- Nothing is later than the last of the entries that are later. -/
theorem laterThan_eq_nil (hsorted : TimeSorted entries) {until_ : RpcDateTime}
    (hle : since.msecsSinceEpoch ≤ until_.msecsSinceEpoch)
    (hlast : ∀ e, (laterThan params since entries).getLast? = some e →
      e.epochMsec ≤ until_.msecsSinceEpoch) : laterThan params until_ entries = [] := by
  by_contra hne
  obtain ⟨e, he⟩ := List.exists_mem_of_ne_nil _ hne
  obtain ⟨hmem, hlater⟩ := List.mem_filter.mp he
  obtain ⟨hm, hlt⟩ := Bool.and_eq_true_iff.mp hlater
  rw [decide_eq_true_eq] at hlt
  have he' : e ∈ laterThan params since entries := by
    refine List.mem_filter.mpr ⟨hmem, ?_⟩
    rw [hm, Bool.true_and]
    exact decide_eq_true (Int64.lt_of_le_of_lt hle hlt)
  have hsorted' : TimeSorted (laterThan params since entries) := hsorted.filter _
  obtain ⟨last, hlast'⟩ : ∃ last, (laterThan params since entries).getLast? = some last :=
    Option.isSome_iff_exists.mp (List.getLast?_isSome.mpr (List.ne_nil_of_mem he'))
  obtain ⟨init, hinit⟩ := List.getLast?_eq_some_iff.mp hlast'
  have hle' : e.epochMsec ≤ last.epochMsec := by
    rw [hinit] at he' hsorted'
    rcases List.mem_append.mp he' with he' | he'
    · exact (List.pairwise_append.mp hsorted').2.2 e he' last (by simp)
    · rw [List.mem_singleton.mp he']
      exact Int64.le_refl _
  exact Int64.not_lt.mpr (Int64.le_trans hle' (hlast last hlast')) hlt

theorem Setting.deliverAll_of_firstPageHoldsAll (h : Setting entries params now)
    (ignoreRecordCountLimit : Bool) (hfirst : FirstPageHoldsAll entries params since) :
    PagesDeliverAll entries params now ignoreRecordCountLimit since := by
  obtain ⟨snapshot, hgather, hover, hpath⟩ := hfirst
  obtain ⟨r, hget, -⟩ := getLog_of_gather (isSinceLast_sinceTime params since) h.sorted h.length
    hgather (fun e he => h.far e (mem_inRange.mp (List.mem_of_getLast? he)).1)
    ignoreRecordCountLimit
  obtain ⟨snapshot', hgather', hrows, huntil⟩ := h.page hget
  rw [hgather] at hgather'
  obtain rfl := Except.ok.inj hgather'
  have hrest : pageRest params entries snapshot since = [] := by
    rw [pageRest, h.inRange_eq]
    exact rest_eq_nil_iff.mpr hover
  have hrecords : pageRecords params entries snapshot since = laterThan params since entries := by
    rw [← h.records_append_rest snapshot, hrest, List.append_nil]
  refine ⟨0, [r], pageUntil params entries snapshot since, ?_, ?_, ?_⟩
  · rw [pages, ← huntil]
    have hget' : getLog entries { params with since := .ofVariant (.dateTime since) } now
        ignoreRecordCountLimit = .ok r := hget
    simp only [hget', bind, Except.bind]
    rfl
  · cases hlast : (laterThan params since entries).getLast? with
    | none =>
      rw [pageUntil, hrecords, hlast]
      exact List.getLast?_eq_none_iff.mp hlast
    | some e =>
      have hmem := List.mem_filter.mp (List.mem_of_getLast? hlast)
      have hlater : since.msecsSinceEpoch < e.epochMsec := by
        simpa using (Bool.and_eq_true_iff.mp hmem.2).2
      have huntil : e.epochMsec ≤ (readBack e).dateTime.msecsSinceEpoch := by
        by_cases hnil : e.path = []
        · rw [readBack, if_pos hnil, msecsSinceEpoch_empty]
          exact (hpath e hlast).resolve_left (not_not.mpr hnil)
        · rw [dateTime_readBack hnil, msecsSinceEpoch_dateTime (h.fits e hmem.1)]
          exact Int64.le_refl _
      have hpage : pageUntil params entries snapshot since = (readBack e).dateTime := by
        rw [pageUntil, hrecords, hlast, hrest]
        rfl
      rw [hpage]
      refine laterThan_eq_nil h.sorted (Int64.le_of_lt (Int64.lt_of_lt_of_le hlater huntil)) ?_
      intro e' he'
      rw [hlast] at he'
      obtain rfl := Option.some.inj he'
      exact huntil
  · rw [hrecords] at hrows
    exact ⟨_, [], (List.append_nil _).symm, hrows, rfl⟩

/-- Paging delivers everything exactly when the first page does. -/
theorem pagesDeliverAll_iff (h : Setting entries params now) (ignoreRecordCountLimit : Bool) :
    PagesDeliverAll entries params now ignoreRecordCountLimit since ↔
      FirstPageHoldsAll entries params since := by
  constructor
  · exact h.firstPageHoldsAll_of_deliverAll
  · exact h.deliverAll_of_firstPageHoldsAll ignoreRecordCountLimit

end

/-! ### three entries, a limit of one -/

/-- Three changes, a millisecond each. -/
def threeChanges : List ShvJournalEntry :=
  [changeAt 1 (ascii "a"), changeAt 2 (ascii "a"), changeAt 3 (ascii "a")]

theorem setting_threeChanges (limit : Int32) :
    Setting threeChanges { oneRecord false with recordCountLimit := limit }
      (.fromMSecsSinceEpoch 5000 0) where
  sorted := by decide
  length := by decide
  fits := by decide
  far := by
    have hentry : ∀ e ∈ threeChanges, isFresh (.fromMSecsSinceEpoch 5000 0) e = false := by decide
    exact fun e he => ⟨hentry e he, fun _ => by decide⟩
  noSnapshot := rfl
  noUntil := rfl

theorem pagesDeliverAll_threeRecords :
    PagesDeliverAll threeChanges { oneRecord false with recordCountLimit := 3 }
      (.fromMSecsSinceEpoch 5000 0) false (.fromMSecsSinceEpoch 0 0) := by
  refine (pagesDeliverAll_iff (setting_threeChanges 3) false).mpr ⟨_, rfl, by decide, ?_⟩
  intro e he
  obtain rfl := Option.some.inj he
  exact Or.inl (by decide)

/-- The entry of the second millisecond is in no page. -/
theorem not_pagesDeliverAll :
    ¬PagesDeliverAll threeChanges (oneRecord false) (.fromMSecsSinceEpoch 5000 0) false
      (.fromMSecsSinceEpoch 0 0) := by
  intro hall
  obtain ⟨snapshot, hgather, hover, -⟩ :=
    (setting_threeChanges 1).firstPageHoldsAll_of_deliverAll hall
  obtain rfl : [] = snapshot := Except.ok.inj hgather
  revert hover
  decide

end LibShv.GetLog
