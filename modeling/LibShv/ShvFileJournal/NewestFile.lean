import LibShv.ShvFileJournal.Checkpoints

/-!
# LibShv.ShvFileJournal.NewestFile

`getLog` reads from the newest file on that is not newer than `since`, and gets what the
same over all the files gets, as long as every file starts with a checkpoint and what is
asked for does not show the entries in front of it.
-/

namespace LibShv.ShvFileJournal

open ShvJournalFileReader GetLog

/-! ## the newest matching file -/

theorem lastMatching_cases (since : Int64) (best files : List Int64) :
    lastMatching since best files = best ∨ ∃ older start newer, files = older ++ start :: newer ∧
      lastMatching since best files = start :: newer ∧ start ≤ since := by
  induction files generalizing best with
  | nil => exact .inl rfl
  | cons file files ih =>
    rw [lastMatching]
    by_cases hnewer : since < file
    · rw [if_pos hnewer]
      exact .inl rfl
    · rw [if_neg hnewer]
      right
      rcases ih (file :: files) with heq | ⟨older, start, newer, rfl, heq, hle⟩
      · exact ⟨[], file, files, rfl, heq, Int64.not_lt.mp hnewer⟩
      · exact ⟨file :: older, start, newer, rfl, heq, hle⟩

/-- It is the first file, or one that is not newer than `since`. -/
theorem newestMatchingFileIt_cases (files : List Int64) (params : ShvGetLogParams) :
    newestMatchingFileIt files params = files ∨
      ∃ older start newer, files = older ++ start :: newer ∧
        newestMatchingFileIt files params = start :: newer ∧
        (params.isSinceLast = true ∨ start ≤ params.sinceMsec) := by
  cases files with
  | nil => exact .inl rfl
  | cons first rest =>
    rw [newestMatchingFileIt]
    split
    · exact .inl rfl
    · split
      · next hlast =>
        right
        have hlength : ((first :: rest).drop rest.length).length = 1 := by simp
        obtain ⟨start, hstart⟩ := List.length_eq_one_iff.mp hlength
        refine ⟨(first :: rest).take rest.length, start, [], ?_, hstart, .inl hlast⟩
        rw [← hstart, List.take_append_drop]
      · split
        · exact .inl rfl
        · rcases lastMatching_cases params.sinceMsec (first :: rest) (first :: rest) with
            heq | ⟨older, start, newer, hfiles, heq, hle⟩
          · exact .inl heq
          · exact .inr ⟨older, start, newer, hfiles, heq, .inr hle⟩

/-! ## the files that are not empty -/

/-- The file is not empty. -/
def LogFile.nonEmpty (log : LogFile) : Bool := log.2 ≠ []

theorem entriesOf_filter (logs : List LogFile) :
    entriesOf (logs.filter LogFile.nonEmpty) = entriesOf logs := by
  induction logs with
  | nil => rfl
  | cons log logs ih =>
    by_cases hempty : log.2 = []
    · have htext : textEntries log.2 = [] := by rw [hempty]; rfl
      rw [List.filter_cons_of_neg (by simp [LogFile.nonEmpty, hempty]), ih, entriesOf, entriesOf,
        List.flatMap_cons, htext, List.nil_append]
    · rw [List.filter_cons_of_pos (by simp [LogFile.nonEmpty, hempty]), entriesOf,
        List.flatMap_cons, entriesOf, List.flatMap_cons]
      exact congrArg _ ih

theorem Chained.filter {logs : List LogFile} (h : Chained logs) :
    Chained (logs.filter LogFile.nonEmpty) where
  sorted := h.sorted.filter _
  valid log hlog := h.valid log (List.mem_filter.mp hlog).1
  checkpoints := by
    intro older log newer hlogs hne
    obtain ⟨front, back, rfl, rfl, hback⟩ := List.filter_eq_append_iff.mp hlogs
    obtain ⟨skipped, newer', rfl, hskipped, -, rfl⟩ := List.filter_eq_cons_iff.mp hback
    obtain ⟨snapshot, rest, htext, hcheck⟩ := h.checkpoints (front ++ skipped) log newer' (by simp)
      fun hnil => hne (by rw [(List.append_eq_nil_iff.mp hnil).1]; rfl)
    refine ⟨snapshot, rest, htext, ?_⟩
    have hfront : entriesOf (front ++ skipped) = entriesOf (front.filter LogFile.nonEmpty) := by
      rw [← entriesOf_filter, List.filter_append, List.filter_eq_nil_iff.mpr hskipped,
        List.append_nil]
    rwa [hfront] at hcheck

theorem Ready.nonEmptyFiles {j : ShvFileJournal} {logs : List LogFile} (h : Ready j logs) :
    j.nonEmptyFiles = (logs.filter LogFile.nonEmpty).map (·.1) := by
  rw [ShvFileJournal.nonEmptyFiles, h.files, List.filter_map]
  congr 1
  refine List.filter_congr fun log hlog => ?_
  rw [Function.comp_apply, Directory.fileSize, h.dir, find?_directoryOf h.chained.filed hlog,
    LogFile.nonEmpty]
  simp [List.length_pos_iff]

/-! ## reading files -/

theorem Ready.getLogFrom {j : ShvFileJournal} {logs : List LogFile} (h : Ready j logs)
    {read : List LogFile} (hread : ∀ log ∈ read, log ∈ logs) (params : ShvGetLogParams)
    (now : RpcDateTime) (ignoreRecordCountLimit : Bool) :
    j.getLogFrom (read.map (·.1)) params now ignoreRecordCountLimit =
      GetLog.getLog (entriesOf read) params now ignoreRecordCountLimit := by
  have hmapM : (read.map (·.1)).mapM j.fileEntries =
      .ok (read.map fun log => textEntries log.2) := by
    induction read with
    | nil => rfl
    | cons log read ih =>
      have hlog := hread log List.mem_cons_self
      have hentries : j.fileEntries log.1 = .ok (textEntries log.2) := by
        rw [fileEntries, h.dir, find?_directoryOf h.chained.filed hlog]
        exact (h.chained.valid log hlog).reads
      rw [List.map_cons, List.mapM_cons, hentries]
      simp only [bind, Except.bind, ih fun x hx => hread x (List.mem_cons_of_mem _ hx), pure,
        Except.pure, List.map_cons]
  rw [ShvFileJournal.getLogFrom, hmapM, entriesOf, List.flatMap_def]
  rfl

/-- What is asked for does not show what is in front of the newest matching file, if there
is something. -/
def ParamsOk (params : ShvGetLogParams) (j : ShvFileJournal) : Prop :=
  newestMatchingFileIt j.nonEmptyFiles params ≠ j.nonEmptyFiles →
    ∀ start ∈ (newestMatchingFileIt j.nonEmptyFiles params).head?,
      ShowsFrom params j.entries start

/-- The files in front of the newest matching one do not show. -/
theorem Ready.rows_getLogFrom {j : ShvFileJournal} {logs : List LogFile} (h : Ready j logs)
    {params : ShvGetLogParams} (hparams : ParamsOk params j) (now : RpcDateTime)
    (ignoreRecordCountLimit : Bool) :
    (j.getLogFrom (newestMatchingFileIt j.nonEmptyFiles params) params now
        ignoreRecordCountLimit).map GetLogResult.rows =
      (j.getLogFrom j.nonEmptyFiles params now ignoreRecordCountLimit).map GetLogResult.rows := by
  by_cases hall : newestMatchingFileIt j.nonEmptyFiles params = j.nonEmptyFiles
  · rw [hall]
  · obtain ⟨older, start, newer, hfiles, hnewest, hsince⟩ :=
      (newestMatchingFileIt_cases j.nonEmptyFiles params).resolve_left hall
    have hshows := hparams hall start (by rw [hnewest]; rfl)
    have hne : older ≠ [] := by
      rintro rfl
      exact hall (by rw [hnewest, hfiles]; rfl)
    rw [h.nonEmptyFiles] at hfiles
    obtain ⟨olderLogs, logs', hlogs, rfl, hlogs'⟩ := List.map_eq_append_iff.mp hfiles
    obtain ⟨log, newerLogs, rfl, rfl, rfl⟩ := List.map_eq_cons_iff.mp hlogs'
    obtain ⟨snapshot, rest, htext, hcheck⟩ := h.chained.filter.checkpoints olderLogs log newerLogs
      hlogs fun hnil => hne (by rw [hnil]; rfl)
    have hmem : ∀ x ∈ olderLogs ++ log :: newerLogs, x ∈ logs := fun x hx =>
      (List.mem_filter.mp (hlogs ▸ hx)).1
    have hentries : entriesOf (log :: newerLogs) = snapshot ++ (rest ++ entriesOf newerLogs) := by
      rw [entriesOf, List.flatMap_cons, htext, List.append_assoc]
      rfl
    have hsub : ∀ e ∈ entriesOf olderLogs, e ∈ j.entries := by
      intro e he
      rw [entries_eq h.dir, ← entriesOf_filter, hlogs, entriesOf_append]
      exact List.mem_append_left _ he
    rw [hnewest, show log.1 :: newerLogs.map (·.1) = (log :: newerLogs).map (·.1) from rfl,
      h.getLogFrom (fun x hx => hmem x (List.mem_append_right _ hx)),
      show j.nonEmptyFiles = (olderLogs ++ log :: newerLogs).map (·.1) by
        rw [h.nonEmptyFiles, hlogs],
      h.getLogFrom hmem, entriesOf_append, hentries]
    exact (rows_getLog_checkpoint hcheck (hshows.of_subset hsub) hsince now
      ignoreRecordCountLimit).symm

theorem Inv.rows_getLog {j : ShvFileJournal} {logs : List LogFile} (h : Inv j logs)
    {params : ShvGetLogParams} (hparams : ParamsOk params j.ready) (now : RpcDateTime)
    (ignoreRecordCountLimit : Bool) :
    (j.getLog params now ignoreRecordCountLimit).map GetLogResult.rows =
      (j.getLogOfAllFiles params now ignoreRecordCountLimit).map GetLogResult.rows := by
  obtain ⟨j₁, hj₁, hready, -⟩ := h.checkJournalContext
  obtain ⟨-, -, -, hready', -⟩ := h.ready
  have hchecked : j.checked = .ok j₁ := by
    rw [checked, hj₁]
    rfl
  have hparams₁ : ParamsOk params j₁ := by
    rw [ParamsOk, hready'.nonEmptyFiles, entries_eq hready'.dir] at hparams
    rwa [ParamsOk, hready.nonEmptyFiles, entries_eq hready.dir]
  rw [ShvFileJournal.getLog, getLogOfAllFiles, hchecked]
  exact hready.rows_getLogFrom hparams₁ now ignoreRecordCountLimit

/-! ## runs -/

theorem chained_nil : Chained [] where
  sorted := List.Pairwise.nil
  valid := nofun
  checkpoints := by
    intro older log newer hlogs
    exact absurd hlogs (by simp)

/-- In every run from an empty directory whose steps are as asked, the newest matching file
is enough, whatever log is asked for that does not show more. -/
theorem rows_getLog_of_run (fileSizeLimit journalSizeLimit : Int) {steps : List Step}
    (hsteps : StepsOk (create [] fileSizeLimit journalSizeLimit) steps)
    {params : ShvGetLogParams}
    (hparams : ParamsOk params ((create [] fileSizeLimit journalSizeLimit).run steps).ready)
    (now : RpcDateTime) (ignoreRecordCountLimit : Bool) :
    (((create [] fileSizeLimit journalSizeLimit).run steps).getLog params now
        ignoreRecordCountLimit).map GetLogResult.rows =
      (((create [] fileSizeLimit journalSizeLimit).run steps).getLogOfAllFiles params now
        ignoreRecordCountLimit).map GetLogResult.rows := by
  obtain ⟨logs, h⟩ := (inv_create [] chained_nil fileSizeLimit journalSizeLimit).run hsteps
  exact h.rows_getLog hparams now ignoreRecordCountLimit

/-! ## a run -/

/-- The text is read to its end, and every entry of it passes the test. -/
def readsAll (test : ShvJournalEntry → Bool) (text : Bytes) : Bool :=
  (readFile text).toOption.isSome && (textEntries text).all test

theorem readFile_of_readsAll {test : ShvJournalEntry → Bool} {text : Bytes}
    (h : readsAll test text = true) :
    readFile text = .ok (textEntries text) ∧ ∀ e ∈ textEntries text, test e = true := by
  obtain ⟨hsome, hall⟩ := Bool.and_eq_true_iff.mp h
  refine ⟨?_, List.all_eq_true.mp hall⟩
  rw [textEntries]
  cases hread : readFile text with
  | error msg => simp [hread, Except.toOption] at hsome
  | ok es => rfl

/-- The entry is a value of a time. -/
def isValueAt (msec : Int64) (e : ShvJournalEntry) : Bool :=
  e.epochMsec = msec ∧ e.domain = ShvJournalEntry.DOMAIN_VAL_CHANGE ∧
    e.value.isNodeDrop.toOption = some false

theorem isValueChange_of_isValueAt {msec : Int64} {e : ShvJournalEntry}
    (h : isValueAt msec e = true) : e.epochMsec = msec ∧ e.IsValueChange := by
  obtain ⟨hmsec, hdomain, hdrop⟩ := of_decide_eq_true h
  refine ⟨hmsec, hdomain, ?_⟩
  cases hvalue : e.value.isNodeDrop with
  | error msg => simp [hvalue, Except.toOption] at hdrop
  | ok drop =>
    rw [hvalue, Except.toOption, Option.some.injEq] at hdrop
    rw [hdrop]

/-- The conditions of `NewFileOk`, with every path of the directory in the snapshot. -/
def canStart (start : Int64) (j : ShvFileJournal) : Bool :=
  let text := ShvJournalFileWriter.snapshotText start j.snapshot
  j.context.files.all (fun file => decide (file < start)) &&
    decide ((fileNameToFileMsec (fileMsecToFileName start)).toOption = some start) &&
    j.entries.all (fun e => decide (e.epochMsec ≤ start) &&
      (textEntries text).any fun s => decide (s.path = e.path)) &&
    readsAll (isValueAt start) text

theorem newFileOk_of_canStart {start : Int64} {j : ShvFileJournal}
    (h : canStart start j = true) : NewFileOk start j := by
  simp only [canStart, Bool.and_eq_true, List.all_eq_true, decide_eq_true_eq, List.any_eq_true] at h
  obtain ⟨⟨⟨hnewer, hnamed⟩, hentries⟩, hreads⟩ := h
  obtain ⟨hread, htest⟩ := readFile_of_readsAll hreads
  refine ⟨hnewer, named_of_toOption hnamed, fun e he => (hentries e he).1, _, hread,
    fun s hs => isValueChange_of_isValueAt (htest s hs), ?_⟩
  rintro path e ⟨earlier, later, heq, rfl, -⟩
  obtain ⟨s, hs, hpath⟩ := (hentries e (by simp [heq])).2
  exact ⟨s, hs, hpath⟩

/-- The conditions of `AppendOk`, for an entry that is a value. -/
def canAppend (now : Int64) (entry : ShvJournalEntry) (j : ShvFileJournal) : Bool :=
  let msec := entryTime now entry j.ready
  decide (0 < msec) &&
    readsAll (isValueAt msec) (ShvJournalFileWriter.line msec msec { entry with epochMsec := msec }) &&
    (!j.ready.needsNewFile || canStart msec j.ready)

theorem appendOk_of_canAppend {now : Int64} {entry : ShvJournalEntry} {j : ShvFileJournal}
    (h : canAppend now entry j = true) : AppendOk now entry j := by
  simp only [canAppend, Bool.and_eq_true, decide_eq_true_eq] at h
  obtain ⟨⟨hpositive, hline⟩, hnew⟩ := h
  obtain ⟨hread, htest⟩ := readFile_of_readsAll hline
  refine ⟨hpositive, ⟨_, hread, fun e he => (isValueChange_of_isValueAt (htest e he)).2.clear⟩, ?_⟩
  intro hneeds
  rw [hneeds, Bool.not_true, Bool.false_or] at hnew
  exact newFileOk_of_canStart hnew

/-- The value 1 under a path, some seconds after the start of 2018. -/
def valueAfter (path : Bytes) (seconds : Int64) : ShvJournalEntry :=
  ⟨1514764800000 + seconds * 1000, path, .ofVariant (.int 1), ShvJournalEntry.NO_SHORT_TIME,
    ShvJournalEntry.DOMAIN_VAL_CHANGE, 0, []⟩

/-- A log with a snapshot from a time on. -/
def logSince (seconds : Int64) : ShvGetLogParams where
  since := .ofVariant (.dateTime (.fromMSecsSinceEpoch (1514764800000 + seconds * 1000) 0))
  until_ := .invalid
  pattern _ _ := true
  recordCountLimit := 1000
  withSnapshot := true
  withPathsDict := false

/-- A value that is appended again after a restart is in the file that is started then. -/
theorem rows_getLog_of_run_again :
    let steps : List Step := [.append 1 (valueAfter (ascii "a") 0), .restart 40 1000,
      .append 1 (valueAfter (ascii "a") 1), .append 1 (valueAfter (ascii "b") 2)]
    let now := RpcDateTime.fromMSecsSinceEpoch 1514764900000 0
    (((create [] 40 1000).run steps).getLog (logSince 2) now false).map GetLogResult.rows =
      (((create [] 40 1000).run steps).getLogOfAllFiles (logSince 2) now false).map
        GetLogResult.rows := by
  intro steps now
  have hsteps : StepsOk (create [] 40 1000) steps :=
    ⟨appendOk_of_canAppend (by decide +kernel), trivial,
      appendOk_of_canAppend (by decide +kernel), appendOk_of_canAppend (by decide +kernel), trivial⟩
  have hparams : ParamsOk (logSince 2) ((create [] 40 1000).run steps).ready := by
    intro _ start hstart
    have hnewest : (newestMatchingFileIt ((create [] 40 1000).run steps).ready.nonEmptyFiles
        (logSince 2)).head? = some 1514764802000 := by decide +kernel
    rw [hnewest] at hstart
    obtain rfl := Option.some.inj hstart
    exact ⟨by decide, by decide, (fun hlast => absurd hlast (by decide)), fun _ _ _ _ _ _ => rfl⟩
  exact rows_getLog_of_run 40 1000 hsteps hparams now false

/-- After a restart the next file starts without the value under `a`, and a log from there
on has a snapshot without it. -/
theorem not_rows_getLog :
    ¬∀ (fileSizeLimit journalSizeLimit : Int) (steps : List Step) (params : ShvGetLogParams)
      (now : RpcDateTime) (ignoreRecordCountLimit : Bool),
      (((create [] fileSizeLimit journalSizeLimit).run steps).getLog params now
          ignoreRecordCountLimit).map GetLogResult.rows =
        (((create [] fileSizeLimit journalSizeLimit).run steps).getLogOfAllFiles params now
          ignoreRecordCountLimit).map GetLogResult.rows := by
  intro hall
  have heq := congrArg (fun rows => rows.toOption.map fun rows => rows.1.length)
    (hall 30 1000 [.append 1 (valueAfter (ascii "a") 0), .restart 30 1000,
      .append 1 (valueAfter (ascii "b") 1)] (logSince 1)
      (.fromMSecsSinceEpoch 1514764900000 0) false)
  have hnewest : ((((create [] 30 1000).run [.append 1 (valueAfter (ascii "a") 0), .restart 30 1000,
      .append 1 (valueAfter (ascii "b") 1)]).getLog (logSince 1)
      (.fromMSecsSinceEpoch 1514764900000 0) false).map GetLogResult.rows).toOption.map
      (fun rows => rows.1.length) = some 1 := by decide +kernel
  have hwhole : ((((create [] 30 1000).run [.append 1 (valueAfter (ascii "a") 0), .restart 30 1000,
      .append 1 (valueAfter (ascii "b") 1)]).getLogOfAllFiles (logSince 1)
      (.fromMSecsSinceEpoch 1514764900000 0) false).map GetLogResult.rows).toOption.map
      (fun rows => rows.1.length) = some 2 := by decide +kernel
  exact absurd (hnewest.symm.trans (heq.trans hwhole)) (by decide)

end LibShv.ShvFileJournal
