import LibShv.GetLog.Loop
import LibShv.GetLog.Snapshot

/-!
# LibShv.GetLog.Checkpoint

Entries that a log need not be made from: those in front of a checkpoint, which is a
snapshot of all the values there are.
-/

namespace LibShv

open Replay ShvSnapshot

/-- Adding the entry to a snapshot throws no exception. -/
def ShvJournalEntry.Clear (e : ShvJournalEntry) : Prop :=
  e.domain ≠ ShvJournalEntry.DOMAIN_VAL_CHANGE ∨ ∃ drop, e.value.isNodeDrop = .ok drop

theorem ShvJournalEntry.IsValueChange.clear {e : ShvJournalEntry} (h : e.IsValueChange) :
    e.Clear := .inr ⟨false, h.2⟩

theorem ShvJournalEntry.Clear.addToSnapshot {e : ShvJournalEntry} (h : e.Clear)
    (snapshot : ShvSnapshot) : ∃ snapshot', LibShv.addToSnapshot snapshot e = .ok snapshot' := by
  unfold LibShv.addToSnapshot
  by_cases hdomain : e.domain ≠ ShvJournalEntry.DOMAIN_VAL_CHANGE
  · rw [if_pos hdomain]
    exact ⟨snapshot, rfl⟩
  · obtain ⟨drop, hdrop⟩ := h.resolve_left hdomain
    rw [if_neg hdomain, hdrop]
    cases drop with
    | true => exact ⟨_, rfl⟩
    | false => exact ⟨_, rfl⟩

theorem foldlM_addToSnapshot_of_clear {entries : List ShvJournalEntry}
    (h : ∀ e ∈ entries, e.Clear) (snapshot : ShvSnapshot) :
    ∃ snapshot', entries.foldlM addToSnapshot snapshot = .ok snapshot' := by
  induction entries generalizing snapshot with
  | nil => exact ⟨snapshot, rfl⟩
  | cons e entries ih =>
    obtain ⟨snapshot', hsnapshot⟩ := (h e List.mem_cons_self).addToSnapshot snapshot
    obtain ⟨last, hlast⟩ := ih (fun x hx => h x (List.mem_cons_of_mem _ hx)) snapshot'
    refine ⟨last, ?_⟩
    rw [List.foldlM_cons, hsnapshot]
    exact hlast

/-- The rows of a log, with the paths that their numbers stand for. -/
def GetLogResult.rows (r : GetLogResult) : RpcList × RpcList × RpcIMap :=
  (r.snapshotEntries, r.logEntries, r.header.pathDict)

namespace GetLog

/-- The entries `snapshot` are a checkpoint behind the entries `older`, at the time `start`:
they are values of that time, one for every path that has a value. -/
structure Checkpoint (older : List ShvJournalEntry) (start : Int64)
    (snapshot : List ShvJournalEntry) : Prop where
  notNewer : ∀ e ∈ older, e.epochMsec ≤ start
  clear : ∀ e ∈ older, e.Clear
  atStart : ∀ s ∈ snapshot, s.epochMsec = start
  values : ∀ s ∈ snapshot, s.IsValueChange
  complete : ∀ path e, IsLastValue older path e → ∃ s ∈ snapshot, s.path = path

/-- What is asked for does not show the entries in front of a checkpoint: the log goes
beyond it, and the pattern takes a drop if it takes a path below it. -/
structure ShowsFrom (params : ShvGetLogParams) (older : List ShvJournalEntry) (start : Int64) :
    Prop where
  until_ : start < params.untilMsec
  limit : 1 ≤ params.recordCountLimit.toInt
  last : params.isSinceLast = true → params.snapshotWanted = true
  drops : ∀ d ∈ older, d.IsDrop → ∀ path, Covers d.path path →
    params.pattern path ShvJournalEntry.DOMAIN_VAL_CHANGE = true →
    params.pattern d.path ShvJournalEntry.DOMAIN_VAL_CHANGE = true

variable {params : ShvGetLogParams} {older snapshot rest : List ShvJournalEntry} {start : Int64}

theorem Checkpoint.of_append {oldest : List ShvJournalEntry}
    (h : Checkpoint (oldest ++ older) start snapshot) : Checkpoint older start snapshot where
  notNewer e he := h.notNewer e (List.mem_append_right _ he)
  clear e he := h.clear e (List.mem_append_right _ he)
  atStart := h.atStart
  values := h.values
  complete path e hlast := h.complete path e
    ((@survives_iff (oldest ++ older) (path, e)).mp
      (Survives.of_append ((@survives_iff older (path, e)).mpr hlast)))

theorem ShowsFrom.of_subset {entries : List ShvJournalEntry} (h : ShowsFrom params entries start)
    (hsub : ∀ e ∈ older, e ∈ entries) : ShowsFrom params older start :=
  { h with drops := fun d hd => h.drops d (hsub d hd) }

/-! ## the snapshot at the checkpoint -/

/-- A value that the matching entries leave is one that all the entries leave. -/
theorem isLastValue_of_filter (hshows : ShowsFrom params older start) {path : Bytes}
    {e : ShvJournalEntry} (h : IsLastValue (older.filter params.matchesEntry) path e) :
    IsLastValue older path e := by
  have hmatch : params.pattern path ShvJournalEntry.DOMAIN_VAL_CHANGE = true := by
    obtain ⟨earlier, later, heq, rfl, hval, -⟩ := h
    have he : e ∈ older.filter params.matchesEntry := by simp [heq]
    simpa [ShvGetLogParams.matchesEntry, hval.1] using (List.mem_filter.mp he).2
  refine (@survives_iff older (path, e)).mp (Survives.of_filter ?_ (survives_iff.mpr h))
  intro d hd hremoves
  rw [ShvGetLogParams.matchesEntry]
  rcases hremoves with ⟨hval, hpath⟩ | ⟨hdrop, hcovers⟩
  · rw [hval.1, ← show path = d.path from hpath]
    exact hmatch
  · rw [hdrop.1]
    exact hshows.drops d hd hdrop path hcovers hmatch

/-- The snapshot does not depend on the entries in front of the checkpoint. -/
theorem snapshot_at_checkpoint (hcheck : Checkpoint older start snapshot)
    (hshows : ShowsFrom params older start) :
    ∃ held shown, (older.filter params.matchesEntry).foldlM addToSnapshot [] = .ok held ∧
      (snapshot.filter params.matchesEntry).foldlM addToSnapshot held = .ok shown ∧
      (snapshot.filter params.matchesEntry).foldlM addToSnapshot [] = .ok shown := by
  obtain ⟨held, hheld⟩ := @foldlM_addToSnapshot_of_clear (older.filter params.matchesEntry)
    (fun e he => hcheck.clear e (List.mem_filter.mp he).1) []
  have hclear : ∀ e ∈ snapshot.filter params.matchesEntry, e.Clear :=
    fun e he => (hcheck.values e (List.mem_filter.mp he).1).clear
  obtain ⟨shown, hshown⟩ := foldlM_addToSnapshot_of_clear hclear held
  obtain ⟨fresh, hfresh⟩ := foldlM_addToSnapshot_of_clear hclear []
  have hwhole : (older.filter params.matchesEntry ++
      snapshot.filter params.matchesEntry).foldlM addToSnapshot [] = .ok shown := by
    rw [List.foldlM_append, hheld]
    exact hshown
  obtain ⟨hsorted, hmem⟩ := replays_addToSnapshot.foldlM SortedMap.sorted_nil nofun hwhole
  obtain ⟨hsorted', hmem'⟩ := replays_addToSnapshot.foldlM SortedMap.sorted_nil nofun hfresh
  have heq : shown = fresh := by
    refine hsorted.eq_of_mem_iff hsorted' fun kv => ?_
    rw [hmem kv, hmem' kv]
    -- what the older entries leave is replaced by the checkpoint
    refine survives_append_of_removed fun hold => ?_
    have hlast := survives_iff.mp hold
    obtain ⟨s, hs, hpath⟩ := hcheck.complete _ _ (isLastValue_of_filter hshows hlast)
    have hval := hcheck.values s hs
    refine ⟨s, List.mem_filter.mpr ⟨hs, ?_⟩, .inl ⟨hval, hpath.symm⟩⟩
    obtain ⟨earlier, later, hfilter, hkey, hval', -⟩ := hlast
    have he : kv.2 ∈ older.filter params.matchesEntry := by simp [hfilter]
    have hmatch := (List.mem_filter.mp he).2
    rw [ShvGetLogParams.matchesEntry, hkey, hval'.1] at hmatch
    rw [ShvGetLogParams.matchesEntry, hpath, hval.1]
    exact hmatch
  subst heq
  exact ⟨held, shown, hheld, hshown, hfresh⟩

/-! ## the loop from the checkpoint on -/

/-- Two states of the loop that a log with the same rows is made from. -/
structure SameRows (st st' : Loop) : Prop where
  snapshot : st.snapshot = st'.snapshot
  result_log : st.result_log = st'.result_log
  hit : st.recordCountLimitHit = st'.recordCountLimitHit
  first_unmatching : st.first_unmatching_entry = st'.first_unmatching_entry

/-- Two states of the loop that go on alike: the last entries may differ as long as there
is none in the second, which then holds nothing. -/
structure Alike (st st' : Loop) : Prop extends SameRows st st' where
  last : st.last_entry = st'.last_entry ∨
    st'.last_entry = none ∧ st'.snapshot = [] ∧ st'.result_log = []

/-- Two results of the loop. -/
def AlikeResults : Except String Loop → Except String Loop → Prop
  | .ok st, .ok st' => SameRows st st'
  | .error msg, .error msg' => msg = msg'
  | _, _ => False

/-- A record is kept, or ends the loop, in both states. -/
theorem Alike.record {st st' : Loop} (h : Alike st st')
    (hlimit : 1 ≤ params.recordCountLimit.toInt) (e : ShvJournalEntry) :
    Alike (record params st e).1 (record params st' e).1 ∧
      (record params st e).2 = (record params st' e).2 := by
  obtain ⟨⟨hsnapshot, hlog, hhit, hfirst⟩, hlast⟩ := h
  rcases hlast with hlast | ⟨hnone, hempty, hlog'⟩
  · rw [record_eq, record_eq, hsnapshot, hlog, hhit, hlast]
    dsimp only
    split
    · exact ⟨⟨⟨rfl, rfl, rfl, rfl⟩, .inl rfl⟩, rfl⟩
    · exact ⟨⟨⟨rfl, rfl, rfl, hfirst⟩, .inl rfl⟩, rfl⟩
  · -- there is room for a first record
    have hover : overRequested params st'.snapshot (st'.result_log.length + 1) = false := by
      rw [hempty, hlog', overRequested, decide_eq_false_iff_not]
      simp only [List.length_nil]
      omega
    rw [record_eq, record_eq, hsnapshot, hlog, hhit]
    simp only [hover, Bool.false_and, Bool.false_eq_true, if_false]
    exact ⟨⟨⟨rfl, rfl, rfl, hfirst⟩, .inl rfl⟩, trivial⟩

theorem Alike.collect {st st' : Loop} (h : Alike st st')
    (hlimit : 1 ≤ params.recordCountLimit.toInt) (entries : List ShvJournalEntry) :
    AlikeResults (collect params st entries) (collect params st' entries) := by
  induction entries generalizing st st' with
  | nil => exact h.toSameRows
  | cons e entries ih =>
    rw [GetLog.collect, GetLog.collect]
    by_cases hmatch : params.matchesEntry e = true
    · rw [if_pos hmatch, if_pos hmatch, step, step, h.snapshot]
      by_cases hbefore : (params.isSinceLast || decide (e.epochMsec ≤ params.sinceMsec)) = true
      · simp only [hbefore, if_true]
        cases addToSnapshot st'.snapshot e with
        | error msg => rfl
        | ok snapshot =>
          by_cases huntil : params.untilMsec ≤ e.epochMsec
          · simp only [bind, Except.bind, if_pos huntil, pure, Except.pure]
            exact ⟨rfl, h.result_log, h.hit, rfl⟩
          · simp only [bind, Except.bind, if_neg huntil, pure, Except.pure]
            exact ih ⟨⟨rfl, h.result_log, h.hit, h.first_unmatching⟩, .inl rfl⟩
      · simp only [hbefore, Bool.false_eq_true, if_false, bind, Except.bind]
        by_cases huntil : params.untilMsec ≤ e.epochMsec
        · simp only [if_pos huntil, pure, Except.pure]
          exact ⟨rfl, h.result_log, h.hit, rfl⟩
        · simp only [if_neg huntil, pure, Except.pure]
          have hst : { st with snapshot := st'.snapshot } = st := by rw [← h.snapshot]
          obtain ⟨hrecord, hgoes⟩ := h.record hlimit e
          rw [hst]
          cases hr : GetLog.record params st e with
          | mk st₁ goes =>
            cases hr' : GetLog.record params st' e with
            | mk st₁' goes' =>
              rw [hr, hr'] at hrecord hgoes
              obtain rfl : goes = goes' := hgoes
              cases goes with
              | true => exact ih hrecord
              | false => exact hrecord.toSameRows
    · rw [if_neg hmatch, if_neg hmatch]
      exact ih h

/-- The loop over all the entries ends like the one from the checkpoint on. -/
theorem collect_checkpoint (hcheck : Checkpoint older start snapshot)
    (hshows : ShowsFrom params older start)
    (hsince : params.isSinceLast = true ∨ start ≤ params.sinceMsec) :
    AlikeResults (collect params .start (older ++ (snapshot ++ rest)))
      (collect params .start (snapshot ++ rest)) := by
  obtain ⟨held, shown, hheld, hshown, hfresh⟩ := snapshot_at_checkpoint hcheck hshows
  have hphase : ∀ e : ShvJournalEntry, e.epochMsec ≤ start →
      (params.isSinceLast || decide (e.epochMsec ≤ params.sinceMsec)) = true ∧
        e.epochMsec < params.untilMsec := by
    intro e he
    refine ⟨?_, Int64.lt_of_le_of_lt he hshows.until_⟩
    rw [Bool.or_eq_true, decide_eq_true_eq]
    exact hsince.imp_right (Int64.le_trans he)
  have holder : ∀ e ∈ older.filter params.matchesEntry, params.matchesEntry e = true ∧
      (params.isSinceLast || decide (e.epochMsec ≤ params.sinceMsec)) = true ∧
        e.epochMsec < params.untilMsec := fun e he =>
    ⟨(List.mem_filter.mp he).2, hphase e (hcheck.notNewer e (List.mem_filter.mp he).1)⟩
  have hatStart : ∀ e ∈ snapshot.filter params.matchesEntry, params.matchesEntry e = true ∧
      (params.isSinceLast || decide (e.epochMsec ≤ params.sinceMsec)) = true ∧
        e.epochMsec < params.untilMsec := fun e he =>
    ⟨(List.mem_filter.mp he).2,
      hphase e (Int64.le_of_eq (hcheck.atStart e (List.mem_filter.mp he).1))⟩
  rw [collect_filter, collect_filter Loop.start (snapshot ++ rest), List.filter_append,
    List.filter_append, collect_before holder]
  simp only [Loop.start, hheld]
  rw [collect_before hatStart, collect_before hatStart]
  simp only [hshown, hfresh]
  refine Alike.collect ?_ hshows.limit _
  refine ⟨⟨rfl, rfl, rfl, rfl⟩, ?_⟩
  -- the last entries are the same as soon as one of the checkpoint matches
  cases hlast : (snapshot.filter params.matchesEntry).getLast? with
  | some e => exact .inl rfl
  | none =>
    rw [List.getLast?_eq_none_iff] at hlast
    rw [hlast] at hfresh
    exact .inr ⟨rfl, (Except.ok.inj hfresh).symm, rfl⟩

/-! ## the log -/

theorem snapshotRows_of_sameRows {st st' : Loop} (h : SameRows st st')
    (hlast : params.isSinceLast = true → params.snapshotWanted = true) (pathCache : RpcMap) :
    snapshotRows params st pathCache = snapshotRows params st' pathCache := by
  rw [snapshotRows, snapshotRows, h.snapshot]
  by_cases hwanted : params.snapshotWanted = true
  · rw [if_pos hwanted, if_pos hwanted]
  · have hnot : ¬params.isSinceLast = true := mt hlast hwanted
    rw [if_neg hwanted, if_neg hwanted]
    cases st.last_entry <;> cases st'.last_entry <;> simp [hnot]

/-- Whether there are times for the header does not depend on the entries up to `since`. -/
theorem headerTimes_cases (st st' : Loop) (first : Option ShvJournalEntry) (rows : RpcList) :
    (∃ t t', headerTimes params st first rows = .ok t ∧ headerTimes params st' first rows = .ok t') ∨
      ∃ msg, headerTimes params st first rows = .error msg ∧
        headerTimes params st' first rows = .error msg := by
  unfold headerTimes
  cases rows with
  | nil => exact .inl ⟨_, _, rfl, rfl⟩
  | cons row rows =>
    by_cases hlast : params.isSinceLast = true
    · simp only [hlast, if_true]
      exact .inl ⟨_, _, rfl, rfl⟩
    · simp only [hlast, Bool.false_eq_true, if_false]
      cases first with
      | none => exact .inr ⟨_, rfl, rfl⟩
      | some e => exact .inl ⟨_, _, rfl, rfl⟩

theorem rows_getLog_of_alike (hlast : params.isSinceLast = true → params.snapshotWanted = true)
    {entries entries' : List ShvJournalEntry}
    (h : AlikeResults (collect params .start entries) (collect params .start entries'))
    (now : RpcDateTime) (ignoreRecordCountLimit : Bool) :
    (getLog entries params now ignoreRecordCountLimit).map GetLogResult.rows =
      (getLog entries' params now ignoreRecordCountLimit).map GetLogResult.rows := by
  rw [getLog, getLog]
  revert h
  cases collect params .start entries with
  | error msg =>
    cases collect params .start entries' with
    | error msg' => exact fun h => congrArg Except.error h
    | ok st' => exact False.elim
  | ok st =>
    cases collect params .start entries' with
    | error msg' => exact False.elim
    | ok st' =>
      intro (h : SameRows st st')
      simp only [bind, Except.bind, h.result_log, snapshotRows_of_sameRows h hlast]
      cases headerPathDict params.withPathsDict (snapshotRows params st'
        (logRows params.withPathsDict [] st'.result_log).2).2 with
      | error msg => rfl
      | ok dict =>
        have hfirst : ∀ rows log entryOf, firstUnmatching params st rows log entryOf now =
            firstUnmatching params st' rows log entryOf now := by
          intro rows log entryOf
          unfold firstUnmatching
          rw [h.first_unmatching]
        simp only [hfirst]
        cases firstUnmatching params st' _ _ _ now with
        | error msg => rfl
        | ok r =>
          obtain ⟨t, t', ht, ht'⟩ | ⟨msg, ht, ht'⟩ :=
            @headerTimes_cases params st st' r.1 (r.2.1 ++ r.2.2)
          · simp only [ht, ht']
            rfl
          · simp only [ht, ht']

/-- What is in front of the checkpoint does not show in the log. -/
theorem rows_getLog_checkpoint (hcheck : Checkpoint older start snapshot)
    (hshows : ShowsFrom params older start)
    (hsince : params.isSinceLast = true ∨ start ≤ params.sinceMsec) (now : RpcDateTime)
    (ignoreRecordCountLimit : Bool) :
    (getLog (older ++ (snapshot ++ rest)) params now ignoreRecordCountLimit).map
        GetLogResult.rows =
      (getLog (snapshot ++ rest) params now ignoreRecordCountLimit).map GetLogResult.rows :=
  rows_getLog_of_alike hshows.last (collect_checkpoint hcheck hshows hsince) now ignoreRecordCountLimit

end GetLog

end LibShv
